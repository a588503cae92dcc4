import PagedStore.Disk.Extents
import PagedStore.Disk.Name
import PagedStore.Registry

set_option autoImplicit false

/-!
Files as growing arrays of blocks. Blocks past the end of a file read as zeros, a write past the
end leaves a gap of zeros, and a new block goes behind the last whole one.
-/

namespace PagedStore

/-- The size of blocks, and the length of the directory's path with the slash behind it. -/
structure Site where
  blockSize : Nat
  directoryBytes : Nat := 0

/-- The files of one directory. The counters count the calls that succeeded. -/
structure Disk extends Site where
  files : Registry String Extents := .empty
  reads : Nat := 0
  writes : Nat := 0
  /-- What the operating system answers while it refuses to read and to write. -/
  fault : Option IoCause := none

namespace Disk

/-- Offsets in a file are words of 64 bits. -/
def offsetLimit : Nat := wordLimit 8

/-- Blocks end before the upper half of the offsets. -/
def endLimit : Nat := offsetLimit / 2

def reopen (d : Disk) (blockSize : Nat) : Disk :=
  { blockSize, directoryBytes := d.directoryBytes, files := d.files }

def isFile (d : Disk) (path : String) : Bool := d.files.contains path

def openFile (d : Disk) (name : String) : Outcome (String × Extents) × Disk :=
  match resolveName d.directoryBytes d.isFile name with
  | .error cause => (.error (.error (.io cause)), d)
  | .ok path =>
    match d.files.find? path with
    | some file => (.ok (path, file), d)
    | none => (.ok (path, .empty), { d with files := d.files.insert path .empty })

def offset (d : Disk) (b : BlockId) : Outcome Nat :=
  if b.number * d.blockSize < offsetLimit then .ok (b.number * d.blockSize)
  else .error (.crash .offsetOverflow)

/-- Refuses a block at `start` that would end too far out, and during a fault every block. -/
def fits (d : Disk) (start : Nat) : Outcome Unit :=
  if memoryLimit ≤ d.blockSize then .error (.crash .tooLarge)
  else if start + d.blockSize < endLimit then
    match d.fault with
    | none => .ok ()
    | some cause => .error (.error (.io cause))
  else .error (.error (.io .invalidArgument))

def seek (d : Disk) (b : BlockId) : Outcome (String × Extents × Nat) × Disk :=
  match d.offset b with
  | .error e => (.error e, d)
  | .ok start =>
    match d.openFile b.file with
    | (.error e, d) => (.error e, d)
    | (.ok (path, file), d) => ((d.fits start).map fun _ => (path, file, start), d)

/-- The bytes of a block, with zeros where the file is too short. -/
def blockBytes (file : Extents) (start blockSize : Nat) : Bytes :=
  let bytes := file.read start blockSize
  bytes ++ List.replicate (blockSize - bytes.length) 0

@[simp] theorem length_blockBytes (file : Extents) (start blockSize : Nat) :
    (blockBytes file start blockSize).length = blockSize := by
  have h : (file.read start blockSize).length ≤ blockSize := by
    rw [Extents.length_read]
    omega
  simp only [blockBytes, List.length_append, List.length_replicate]
  omega

/-- Reads a block into a buffer of `len` bytes, which has to be the size of a block. -/
def read (d : Disk) (b : BlockId) (len : Nat) : Outcome Bytes × Disk :=
  if memoryLimit ≤ len then (.error (.crash .tooLarge), d)
  else if len ≠ d.blockSize then (.error (.crash .bufferLength), d)
  else
    match d.seek b with
    | (.error e, d) => (.error e, d)
    | (.ok (_, file, start), d) =>
      (.ok (blockBytes file start d.blockSize), { d with reads := d.reads + 1 })

def write (d : Disk) (b : BlockId) (data : Bytes) : Outcome Unit × Disk :=
  if data.length ≠ d.blockSize then (.error (.crash .bufferLength), d)
  else
    match d.seek b with
    | (.error e, d) => (.error e, d)
    | (.ok (path, file, start), d) =>
      (.ok (), { d with
        files := d.files.insert path (file.write start data), writes := d.writes + 1 })

def blocksIn (d : Disk) (size : Nat) : Outcome Nat :=
  if d.blockSize = 0 then .error (.crash .zeroBlockSize) else .ok (size / d.blockSize)

/-- Adds a block of zeros behind the last whole block. -/
def append (d : Disk) (name : String) : Outcome BlockId × Disk :=
  match d.openFile name with
  | (.error e, d) => (.error e, d)
  | (.ok (path, file), d) =>
    match d.blocksIn file.size with
    | .error e => (.error e, d)
    | .ok number =>
      let start := number * d.blockSize
      match d.fits start with
      | .error e => (.error e, d)
      | .ok () =>
        (.ok ⟨name, number⟩, { d with
          files := d.files.insert path (file.write start (List.replicate d.blockSize 0))
          writes := d.writes + 1 })

def length (d : Disk) (name : String) : Outcome Nat × Disk :=
  match d.openFile name with
  | (.error e, d) => (.error e, d)
  | (.ok (_, file), d) => (d.blocksIn file.size, d)

end Disk

end PagedStore
