import PagedStore.Disk
import PagedStore.Log
import PagedStore.Page

set_option autoImplicit false

/-!
A frame keeps one block in memory. It is written back when it changed or is new, and the log is
forced first, up to the last record applied to it.
-/

namespace PagedStore

/-- Something that was done with the bytes of a frame. -/
inductive Deed where
  /-- They were replaced by those of a block. -/
  | filled (frame : Nat)
  /-- A transaction's write with its record at `lsn` was applied to them. -/
  | applied (frame : Nat) (lsn : Lsn)
  /-- They went to their file, and the log was durable up to `durable` then. -/
  | saved (frame : Nat) (durable : Lsn)
  deriving DecidableEq

/-- What outlives the frames: the files and the log. -/
structure Media where
  disk : Disk
  log : Log
  /-- What was done with the bytes of frames, the latest first. Nothing depends on it: it is what
  can be said about the order of things. -/
  deeds : List Deed := []

structure Frame where
  id : Nat
  data : Bytes
  block : Option BlockId := none
  pins : Nat := 0
  /-- The second chance: set by every pin, taken away by the scan for a victim. -/
  recent : Bool := false
  /-- Changed since it was loaded or written back. -/
  dirty : Bool := false
  /-- Its block was added to the file and has not been written back since. -/
  fresh : Bool := false
  modifiedBy : Option TxId := none
  lsn : Lsn := 0

/-- What a frame is given next: a block that there is, or a new one. -/
inductive Wanted where
  | block (b : BlockId)
  | fresh (file : String) (format : Formatter)

def Wanted.text : Wanted → String
  | .block b => b.text
  | .fresh file _ => s!"a new block of file {file}"

namespace Media

/-- Makes the log durable up to `lsn`, if that is the position of a record. -/
def force (m : Media) (lsn : Lsn) : Outcome Unit × Media :=
  if lsn = 0 then (.ok (), m)
  else
    let r := m.log.flush lsn
    (r.1, { m with log := r.2 })

def read (m : Media) (b : BlockId) (len : Nat) : Outcome Bytes × Media :=
  let r := m.disk.read b len
  (r.1, { m with disk := r.2 })

def note (m : Media) (d : Deed) : Media := { m with deeds := d :: m.deeds }

def save (m : Media) (frame : Nat) (b : BlockId) (data : Bytes) : Outcome Unit × Media :=
  match m.disk.write b data with
  | (.error e, disk) => (.error e, { m with disk })
  | (.ok (), disk) => (.ok (), { m with disk }.note (.saved frame m.log.durable))

def append (m : Media) (file : String) : Outcome BlockId × Media :=
  let r := m.disk.append file
  (r.1, { m with disk := r.2 })

end Media

namespace Frame

/-- A frame without a block, for blocks that have room for more than the header. -/
def blank (id blockSize : Nat) : Outcome Frame :=
  if blockSize ≤ Page.headerSize then .error (.crash .noHeaderRoom)
  else if memoryLimit ≤ blockSize then .error (.crash .tooLarge)
  else .ok { id, data := List.replicate blockSize 0 }

def capacity (f : Frame) : Nat := Page.capacity f.data

def pin (f : Frame) : Frame := { f with pins := f.pins + 1, recent := true }

def unpin? (f : Frame) : Option Frame :=
  if f.pins = 0 then none else some { f with pins := f.pins - 1 }

def read (f : Frame) (offset : Nat) (kind : Kind) : Except Error Value :=
  Page.read f.data offset kind

/-- Writes a value that no log record tells of. -/
def write (f : Frame) (offset : Nat) (v : Value) : Except Error Frame :=
  (Page.write f.data offset v).map fun data => { f with data, dirty := true }

/-- Writes a value for a transaction whose log record is at `lsn`. The position of a frame, and the
one in its header, only move forward. -/
def writeLogged (f : Frame) (offset : Nat) (v : Value) (tx : TxId) (lsn : Lsn) :
    Except Error Frame :=
  (Page.write f.data offset v).map fun data =>
    let f := { f with data, dirty := true, modifiedBy := if tx.num = 0 then none else some tx }
    if f.lsn < lsn then { f with lsn, data := Page.setLsn data lsn } else f

/-- Writes the block back if it changed or is new, the log first. -/
def flush (f : Frame) (m : Media) : Outcome Frame × Media :=
  if f.dirty || f.fresh then
    match f.block with
    | none => (.ok f, m)
    | some b =>
      match m.force f.lsn with
      | (.error e, m) => (.error e, m)
      | (.ok (), m) =>
        match m.save f.id b f.data with
        | (.error e, m) => (.error e, m)
        | (.ok (), m) => (.ok { f with dirty := false, fresh := false }, m)
  else (.ok f, m)

/-- Fills a frame that has no block, and gives the block it has then. -/
def fill (f : Frame) (w : Wanted) (m : Media) : Outcome BlockId × Frame × Media :=
  match w with
  | .block b =>
    match m.read b f.data.length with
    | (.error e, m) => (.error e, f, m)
    | (.ok data, m) =>
      (.ok b, { f with
        data, block := some b, pins := 0, lsn := Page.lsn data, modifiedBy := none
        dirty := false, fresh := false }, m.note (.filled f.id))
  | .fresh file format =>
    match m.append file with
    | (.error e, m) => (.error e, f, m)
    | (.ok b, m) =>
      (.ok b, { f with
        data := format.page f.data.length, block := some b, pins := 0, lsn := 0
        modifiedBy := none, dirty := false, fresh := true }, m.note (.filled f.id))

/-- Writes a frame back and gives it another block. Where that fails after the write-back, the
frame has no block. -/
def rebind (f : Frame) (w : Wanted) (m : Media) : Outcome BlockId × Frame × Media :=
  match f.flush m with
  | (.error e, m) => (.error e, f, m)
  | (.ok f, m) => { f with block := none }.fill w m

end Frame

end PagedStore
