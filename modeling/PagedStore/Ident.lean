import PagedStore.Order

set_option autoImplicit false

/-!
What a paged store names: blocks, records, transactions, and the targets a lock can be asked on,
with their written forms and their order.
-/

namespace PagedStore

structure BlockId where
  file : String
  number : Nat
  deriving DecidableEq

structure RecordId where
  block : BlockId
  slot : Nat
  deriving DecidableEq

structure TxId where
  num : Nat
  deriving DecidableEq

/-- A position in the log. Records have positions from 1 on; 0 stands for no record. -/
abbrev Lsn := Nat

/-- A smaller number is an older transaction. -/
def TxId.IsOlder (a b : TxId) : Prop := a.num < b.num

instance (a b : TxId) : Decidable (a.IsOlder b) := inferInstanceAs (Decidable (a.num < b.num))

theorem TxId.not_isOlder_self (a : TxId) : ¬ a.IsOlder a := Nat.lt_irrefl _

theorem TxId.isOlder_or_isOlder {a b : TxId} (h : a ≠ b) : a.IsOlder b ∨ b.IsOlder a := by
  rcases Nat.lt_trichotomy a.num b.num with hl | he | hg
  · exact .inl hl
  · exact absurd (by cases a; cases b; simp_all) h
  · exact .inr hg

/-- What a lock is asked on, from coarse to fine. -/
inductive Target where
  | file (name : String)
  | block (id : BlockId)
  | record (id : RecordId)
  deriving DecidableEq

namespace BlockId

def text (b : BlockId) : String := s!"[file {b.file}, block {b.number}]"

/-- Blocks are ordered by file, then by number. -/
def order (a b : BlockId) : Ordering := (compare a.file b.file).then (compare a.number b.number)

def le (a b : BlockId) : Bool := (a.order b).isLE

end BlockId

namespace RecordId

def text (r : RecordId) : String := s!"{r.block.text}#{r.slot}"

def order (a b : RecordId) : Ordering := (a.block.order b.block).then (compare a.slot b.slot)

end RecordId

def TxId.text (t : TxId) : String := s!"tx{t.num}"

namespace Target

/-- The name of the thing itself, without its kind. -/
def name : Target → String
  | .file f => f
  | .block b => b.text
  | .record r => r.text

def text : Target → String
  | .file f => s!"file {f}"
  | .block b => s!"block {b.text}"
  | .record r => s!"record {r.text}"

/-- Files are the coarsest targets and records the finest. -/
def depth : Target → Nat
  | .file _ => 0
  | .block _ => 1
  | .record _ => 2

/-- Coarse targets come before fine ones, and those of one kind in their own order. -/
def order : Target → Target → Ordering
  | .file a, .file b => compare a b
  | .block a, .block b => a.order b
  | .record a, .record b => a.order b
  | a, b => compare a.depth b.depth

def le (a b : Target) : Bool := (a.order b).isLE

def sort (ts : List Target) : List Target := sortBy le ts

def fileName : Target → String
  | .file f => f
  | .block b => b.file
  | .record r => r.block.file

end Target

end PagedStore
