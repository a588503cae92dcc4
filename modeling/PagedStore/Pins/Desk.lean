import PagedStore.Pins.Line
import PagedStore.Pool

set_option autoImplicit false

/-!
Where transactions get their frames. Pins of one block by one transaction are counted here and
reach the pool once. A transaction that finds every frame pinned waits in line; when its patience
ends it gives up all it holds, pauses, takes that back block by block, and asks a last time.
-/

namespace PagedStore

/-- A block that a transaction holds: its frame and how often the transaction pinned it. -/
structure Hold where
  frame : Nat
  refs : Nat
  deriving DecidableEq

/-- What one transaction holds, and every frame it had since it last let go of everything. -/
structure Pins where
  holds : Registry BlockId Hold := .empty
  touched : List Nat := []

structure Desk where
  store : Store
  line : Line := .empty
  pins : Registry TxId Pins := .empty
  /-- How long a request waits in line. A wait of no length is over when it begins. -/
  maxWait : Nat
  /-- How long a request sleeps before it looks again, and how long a pause is. -/
  window : Nat

inductive Stage where
  /-- In line for what is wanted. -/
  | first (ticket : Nat)
  /-- All holds are given up; they are to be taken back after a pause. -/
  | pausing (holds : List (BlockId × Nat))
  /-- In line for a block that was given up; the others follow. -/
  | regaining (ticket : Nat) (block : BlockId) (refs : Nat) (rest : List (BlockId × Nat))
  /-- In line for what is wanted, for the last time. -/
  | last (ticket : Nat)

structure PinWait where
  wanted : Wanted
  stage : Stage

inductive PinProgress where
  | done (r : Outcome Nat)
  | waits (w : PinWait)
  | sleepsOn (w : PinWait)

inductive Turn where
  | got (frame : Nat)
  | failed (e : Failure)
  | ranOut
  | asleep

namespace Pins

def refs (p : Pins) (b : BlockId) : Nat := ((p.holds.find? b).map Hold.refs).getD 0

def held (p : Pins) : List BlockId := sortBy BlockId.le p.holds.keys

def counts (p : Pins) : List (BlockId × Nat) := p.held.map fun b => (b, p.refs b)

end Pins

namespace Desk

def pinsOf (d : Desk) (tx : TxId) : Pins := (d.pins.find? tx).getD {}

def setPins (d : Desk) (tx : TxId) (p : Pins) : Desk := { d with pins := d.pins.insert tx p }

def wakeHead (d : Desk) : Desk := { d with line := d.line.wakeHead }

def tellFree (d : Desk) : Desk := if d.line.hasWaiters then d.wakeHead else d

def frameOf? (d : Desk) (tx : TxId) (b : BlockId) : Option Nat :=
  ((d.pinsOf tx).holds.find? b).map Hold.frame

def blockOf? (d : Desk) (i : Nat) : Option BlockId := d.store.pool.frames[i]?.bind Frame.block

def record (d : Desk) (tx : TxId) (b : BlockId) (frame refs : Nat) : Desk :=
  let p := d.pinsOf tx
  d.setPins tx { holds := p.holds.insert b ⟨frame, refs⟩, touched := p.touched.insert frame }

def finish (d : Desk) (tx : TxId) (w : Wanted) (frame : Nat) : PinProgress × Desk :=
  match w with
  | .block b => (.done (.ok frame), d.record tx b frame 1)
  | .fresh _ _ =>
    match d.blockOf? frame with
    | none => (.done (.ok frame), d)
    | some b => (.done (.ok frame), d.record tx b frame 1)

def exhausted (tx : TxId) (target : String) : PinProgress :=
  .done (.error (.error (.exhausted tx target)))

def leave (d : Desk) (ticket : Nat) : Desk := { d with line := (d.line.leave ticket).wakeHead }

def join (d : Desk) : Nat × Desk :=
  let r := d.line.join
  (r.1, { d with line := r.2 })

/-- One look at the pool by a request in line. A crash leaves its ticket in the line. -/
def turn (d : Desk) (ticket : Nat) (w : Wanted) (expired : Bool) : Turn × Desk :=
  let idle := fun d : Desk => if expired then (Turn.ranOut, d.leave ticket) else (Turn.asleep, d)
  if d.line.isHead ticket then
    match d.store.pin w with
    | (.error (.error e), store) => (.failed (.error e), { d with store }.leave ticket)
    | (.error e, store) => (.failed e, { d with store })
    | (.ok (some i), store) => (.got i, { d with store }.leave ticket)
    | (.ok none, store) => idle { d with store }
  else idle d

def impatient (d : Desk) : Bool := d.maxWait = 0

/-- Takes back the blocks given up, one wait for each, and then asks for what was wanted. -/
def regain (tx : TxId) (w : Wanted) : List (BlockId × Nat) → Desk → PinProgress × Desk
  | [], d =>
    let (ticket, d) := d.join
    match d.turn ticket w d.impatient with
    | (.got i, d) => d.finish tx w i
    | (.failed e, d) => (.done (.error e), d)
    | (.ranOut, d) => (exhausted tx w.text, d)
    | (.asleep, d) => (.waits ⟨w, .last ticket⟩, d)
  | (b, refs) :: rest, d =>
    let (ticket, d) := d.join
    match d.turn ticket (.block b) d.impatient with
    | (.got i, d) => regain tx w rest (d.record tx b i refs)
    | (.failed e, d) => (.done (.error e), d)
    | (.ranOut, d) => (exhausted tx b.text, d)
    | (.asleep, d) => (.waits ⟨w, .regaining ticket b refs rest⟩, d)

def unpinFrames : List Nat → Store → Outcome Unit × Store
  | [], s => (.ok (), s)
  | i :: rest, s =>
    match s.unpin i with
    | (.error e, s) => (.error e, s)
    | (.ok (), s) => unpinFrames rest s

/-- Gives up every hold of a transaction whose patience ended; a pause follows. -/
def giveUp (d : Desk) (tx : TxId) (w : Wanted) : PinProgress × Desk :=
  let p := d.pinsOf tx
  let r := unpinFrames (p.holds.entries.map fun e => e.2.frame) d.store
  let d := { d with store := r.2 }.setPins tx { p with holds := .empty }
  match r.1 with
  | .error e => (.done (.error e), d)
  | .ok () => (.waits ⟨w, .pausing p.counts⟩, d.wakeHead)

/-- Asks for a frame: at once, and then in line. A transaction that already holds as many blocks as
there are frames is refused. -/
def ask (d : Desk) (tx : TxId) (w : Wanted) : PinProgress × Desk :=
  if d.store.pool.size ≤ (d.pinsOf tx).holds.size then (exhausted tx w.text, d)
  else
    match d.store.pin w with
    | (.error e, store) => (.done (.error e), { d with store })
    | (.ok (some i), store) => { d with store }.finish tx w i
    | (.ok none, store) =>
      let (ticket, d) := { d with store }.join
      match d.turn ticket w d.impatient with
      | (.got i, d) => d.finish tx w i
      | (.failed e, d) => (.done (.error e), d)
      | (.ranOut, d) => d.giveUp tx w
      | (.asleep, d) => (.waits ⟨w, .first ticket⟩, d)

/-- Pins what is wanted; a block that the transaction holds is only counted. -/
def pin (d : Desk) (tx : TxId) (w : Wanted) : PinProgress × Desk :=
  match w with
  | .fresh _ _ => d.ask tx w
  | .block b =>
    let p := d.pinsOf tx
    match p.holds.find? b with
    | none => d.ask tx w
    | some h =>
      (.done (.ok h.frame),
        d.setPins tx { p with holds := p.holds.insert b { h with refs := h.refs + 1 } })

def resume (d : Desk) (tx : TxId) (w : PinWait) (expired : Bool) : PinProgress × Desk :=
  match w.stage with
  | .pausing holds => regain tx w.wanted holds d
  | .first ticket =>
    match { d with line := d.line.heed ticket }.turn ticket w.wanted expired with
    | (.got i, d) => d.finish tx w.wanted i
    | (.failed e, d) => (.done (.error e), d)
    | (.ranOut, d) => d.giveUp tx w.wanted
    | (.asleep, d) => (.sleepsOn w, d)
  | .regaining ticket b refs rest =>
    match { d with line := d.line.heed ticket }.turn ticket (.block b) expired with
    | (.got i, d) => regain tx w.wanted rest (d.record tx b i refs)
    | (.failed e, d) => (.done (.error e), d)
    | (.ranOut, d) => (exhausted tx b.text, d)
    | (.asleep, d) => (.sleepsOn w, d)
  | .last ticket =>
    match { d with line := d.line.heed ticket }.turn ticket w.wanted expired with
    | (.got i, d) => d.finish tx w.wanted i
    | (.failed e, d) => (.done (.error e), d)
    | (.ranOut, d) => (exhausted tx w.wanted.text, d)
    | (.asleep, d) => (.sleepsOn w, d)

/-- Gives one pin of a block back; the last one reaches the pool. -/
def unpin (d : Desk) (tx : TxId) (b : BlockId) : Outcome Unit × Desk :=
  let p := d.pinsOf tx
  match p.holds.find? b with
  | none => (.error (.crash (.notHeld tx b)), d)
  | some h =>
    if 1 < h.refs then
      (.ok (), d.setPins tx { p with holds := p.holds.insert b { h with refs := h.refs - 1 } })
    else
      let r := d.store.unpin h.frame
      let d := { d with store := r.2 }.setPins tx { p with holds := p.holds.erase b }
      match r.1 with
      | .error e => (.error e, d)
      | .ok () => (.ok (), d.tellFree)

def releaseAll (d : Desk) (tx : TxId) : Outcome Unit × Desk :=
  let p := d.pinsOf tx
  if p.holds.size = 0 then (.ok (), d)
  else
    let r := unpinFrames (p.holds.entries.map fun e => e.2.frame) d.store
    match r.1 with
    | .error e => (.error e, { d with store := r.2 }.setPins tx { p with holds := .empty })
    | .ok () => (.ok (), ({ d with store := r.2 }.setPins tx {}).tellFree)

/-- Writes back those of the given frames that `tx` changed last, up to the first that fails. -/
def flushTouched (tx : TxId) : List Nat → Store → Outcome Unit × Store
  | [], s => (.ok (), s)
  | i :: rest, s =>
    if (s.pool.frames[i]?.bind Frame.modifiedBy) = some tx then
      match s.flushFrame i with
      | (.error e, s) => (.error e, s)
      | (.ok (), s) => flushTouched tx rest s
    else flushTouched tx rest s

def flushMine (d : Desk) (tx : TxId) : Outcome Unit × Desk :=
  let r := flushTouched tx (d.pinsOf tx).touched d.store
  (r.1, { d with store := r.2 })

end Desk

end PagedStore
