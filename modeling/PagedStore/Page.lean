import PagedStore.Failure
import PagedStore.Page.Value

set_option autoImplicit false

/-!
A page is the bytes of one block: eight bytes with the position of the last log record applied,
then the payload. Offsets count from the start of the payload.
-/

namespace PagedStore

namespace Page

def headerSize : Nat := 8

def capacity (data : Bytes) : Nat := data.length - headerSize

def payload (data : Bytes) : Bytes := data.drop headerSize

@[simp] theorem length_payload (data : Bytes) : (payload data).length = capacity data := by
  simp [payload, capacity]

def lsn (data : Bytes) : Lsn := ofBigEndian (data.take headerSize)

def setLsn (data : Bytes) (lsn : Lsn) : Bytes := overlay data 0 (bigEndian headerSize lsn)

/-- Reads a value; an offset at or past the end is outside whatever is asked for. -/
def read (data : Bytes) (offset : Nat) (kind : Kind) : Except Error Value :=
  if capacity data ≤ offset then .error (.outOfBounds offset 0 (capacity data))
  else
    match Value.decode kind ((payload data).drop offset) with
    | .ok v => .ok v
    | .error (.short needed) => .error (.outOfBounds offset needed (capacity data))
    | .error .notUtf8 => .error .invalidUtf8

/-- Writes a value that fits; nothing outside its bytes changes. -/
def write (data : Bytes) (offset : Nat) (v : Value) : Except Error Bytes :=
  if offset + v.size ≤ capacity data then .ok (overlay data (headerSize + offset) v.encode)
  else .error (.outOfBounds offset v.size (capacity data))

end Page

/-- The first payload of a new block, for every capacity. -/
structure Formatter where
  payload : Nat → Bytes
  length_payload : ∀ n, (payload n).length = n

namespace Formatter

def fill (b : UInt8) : Formatter := ⟨fun n => List.replicate n b, by simp⟩

def zero : Formatter := fill 0

/-- As many of the given bytes as fit, then zeros. -/
def stamp (bs : Bytes) : Formatter where
  payload n := bs.take n ++ List.replicate (n - bs.length) 0
  length_payload n := by simp; omega

/-- The page of a new block: no log position yet, then the payload. -/
def page (f : Formatter) (blockSize : Nat) : Bytes :=
  List.replicate Page.headerSize 0 ++ f.payload (blockSize - Page.headerSize)

end Formatter

end PagedStore
