import PagedStore.Engine
import PagedStore.Text.Quoted

set_option autoImplicit false

/-!
The long written form of frames, pins, transactions and lock tables: a name and its fields on one
line.
-/

namespace PagedStore.Describe

/-- A name, and between braces the fields with their values. -/
def fields (name : String) (fs : List (String × String)) : String :=
  let inner := ", ".intercalate (fs.map fun f => s!"{f.1}: {f.2}")
  s!"{name} \x7b {inner} \x7d"

def list (items : List String) : String :=
  let inner := ", ".intercalate items
  s!"[{inner}]"

def option : Option String → String
  | none => "None"
  | some s => s!"Some({s})"

def flag (b : Bool) : String := if b then "true" else "false"

def txId (tx : TxId) : String := s!"TxId({tx.num})"

def frameId (n : Nat) : String := s!"FrameId({n})"

def blockId (b : BlockId) : String :=
  fields "BlockId" [("file", Quoted.quote b.file), ("number", toString b.number)]

def frame (f : Frame) : String :=
  fields "Frame" [("frame_id", frameId f.id), ("block", option (f.block.map blockId)),
    ("pin_count", toString f.pins), ("dirty", flag f.dirty), ("fresh", flag f.fresh),
    ("lsn", toString f.lsn)]

def pins (tx : TxId) (p : Pins) : String :=
  fields "TxBuffers" [("tx", txId tx), ("held", list (p.held.map blockId))]

def isolation : Isolation → String
  | .readCommitted => "ReadCommitted"
  | .repeatableRead => "RepeatableRead"

def transaction (tx : TxId) (level : Isolation) (p : Pins) (finished : Bool) : String :=
  fields "Transaction" [("id", txId tx), ("isolation", isolation level), ("buffers", pins tx p),
    ("finished", flag finished)]

/-- Thousandths as decimals, without zeros at the end. -/
def thousandths (n : Nat) : String :=
  if n % 1000 = 0 then ""
  else if n % 100 = 0 then s!".{n / 100}"
  else if n % 10 = 0 then s!".{n / 100}{n / 10 % 10}"
  else s!".{n / 100}{n / 10 % 10}{n % 10}"

/-- A time in the largest unit of which it has one. -/
def milliseconds (n : Nat) : String :=
  if n = 0 then "0ns"
  else if n < 1000 then s!"{n}ms"
  else s!"{n / 1000}{thousandths (n % 1000)}s"

def lockTable (l : LockTable) : String :=
  fields "LockTable" [("anchors", toString l.anchors), ("targets", toString l.targetCount),
    ("max_wait", milliseconds l.maxWait)]

end PagedStore.Describe
