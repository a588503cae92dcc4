import PagedStore.Lock.Table

set_option autoImplicit false

/-!
What a transaction means to do with a file, a block or a record, and the locks each isolation level
takes for it, from coarse to fine. Writers intend on every coarser target and take the target
itself; isolation levels differ in how long what was taken for reading is kept.
-/

namespace PagedStore

inductive Isolation where
  | readCommitted
  | repeatableRead
  deriving DecidableEq

namespace Isolation

/-- The level of a transaction that asks for none. -/
def standard : Isolation := .repeatableRead

def text : Isolation → String
  | .readCommitted => "read committed"
  | .repeatableRead => "repeatable read"

end Isolation

inductive Intent where
  | fileRead (file : String)
  | blockRead (b : BlockId)
  | recordRead (r : RecordId)
  | indexRead (file : String)
  | leafRead (b : BlockId)
  | directoryRead (b : BlockId)
  | fileChange (file : String)
  | blockChange (b : BlockId)
  | recordChange (r : RecordId)
  | indexChange (file : String)
  | leafChange (b : BlockId)
  | directoryChange (b : BlockId)
  /-- The child of a directory block is locked, and the block itself no longer needed. -/
  | directoryRelease (b : BlockId)
  deriving DecidableEq

inductive LockStep where
  | acquire (t : Target) (m : Mode)
  /-- Waits until the mode could be had, and gives it back unless it was held before. -/
  | touch (t : Target) (m : Mode)
  | drop (t : Target) (m : Mode)
  deriving DecidableEq

namespace Intent

/-- A writer intends on every coarser target and takes the last one for itself. -/
def changeBlock (b : BlockId) : List LockStep :=
  [.acquire (.file b.file) .ix, .acquire (.block b) .x]

def changeRecord (r : RecordId) : List LockStep :=
  [.acquire (.file r.block.file) .ix, .acquire (.block r.block) .ix, .acquire (.record r) .x]

/-- How a level looks at the coarse targets of a read: one touches them, the other keeps them. -/
def coarse : Isolation → Target → LockStep
  | .readCommitted, t => .touch t .is
  | .repeatableRead, t => .acquire t .is

def steps (level : Isolation) : Intent → List LockStep
  | .fileRead f | .indexRead f => [coarse level (.file f)]
  | .blockRead b => [coarse level (.file b.file), coarse level (.block b)]
  | .recordRead r =>
    [coarse level (.file r.block.file), coarse level (.block r.block), .acquire (.record r) .s]
  | .leafRead b | .directoryRead b =>
    [coarse level (.file b.file), .acquire (.block b) .s]
  | .fileChange f | .indexChange f => [.acquire (.file f) .x]
  | .blockChange b | .leafChange b | .directoryChange b => changeBlock b
  | .recordChange r => changeRecord r
  | .directoryRelease b => [.drop (.block b) .s, .drop (.block b) .x]

end Intent

inductive LockProgress where
  | done
  | failed (e : Error)
  | waits (ticket : Nat) (rest : List LockStep)

namespace LockTable

def perform (tx : TxId) : List LockStep → LockTable → LockProgress × LockTable
  | [], l => (.done, l)
  | .drop t m :: rest, l => perform tx rest (l.release t tx m)
  | .acquire t m :: rest, l =>
    let r := l.lock t tx m
    match r.1 with
    | .granted => perform tx rest r.2
    | .waits => (.waits l.nextTicket rest, r.2)
    | .wounded => (.failed (.wounded tx), r.2)
    | .timedOut => (.failed (.lockTimeout tx t), r.2)
  | .touch t m :: rest, l =>
    let held := m ∈ l.modesOf t tx
    let r := l.lock t tx m
    match r.1 with
    | .granted => perform tx rest (if held then r.2 else r.2.release t tx m)
    | .waits => (.waits l.nextTicket (if held then rest else .drop t m :: rest), r.2)
    | .wounded => (.failed (.wounded tx), r.2)
    | .timedOut => (.failed (.lockTimeout tx t), r.2)

/-- At the end of a statement read committed drops what it holds for reading. -/
def endStatement (l : LockTable) (level : Isolation) (tx : TxId) : LockTable :=
  match level with
  | .readCommitted => l.releaseAll tx true
  | .repeatableRead => l

end LockTable

end PagedStore
