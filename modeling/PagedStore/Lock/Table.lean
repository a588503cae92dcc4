import PagedStore.Bytes
import PagedStore.Failure
import PagedStore.Lock.Holders
import PagedStore.Lock.Mailbox
import PagedStore.Registry

set_option autoImplicit false

/-!
Locks on targets of several sizes. A request that is in the way of holders wounds those that are
younger and waits; a wounded transaction is turned away when it would have to wait itself. Those
who wait sleep at one of a few anchors and look again only when something wakes that anchor: a
release of a target that belongs to it, or the wakeup of a transaction that last waited there.
-/

namespace PagedStore

/-- A request that waits. It is notified when it has to look again. -/
structure Sleeper where
  ticket : Nat
  tx : TxId
  target : Target
  mode : Mode
  notified : Bool := false
  deriving DecidableEq

def Target.spread (t : Target) : Nat :=
  (t.text.toList.foldl (fun (n : UInt32) c => 31 * n + c.val) 7).toNat

structure LockTable where
  anchors : Nat
  maxWait : Nat
  /-- Decides which targets share an anchor. -/
  place : Target → Nat := Target.spread
  entries : Registry Target Holders := .empty
  doomed : List TxId := []
  held : Registry TxId (List Target) := .empty
  /-- The anchor each transaction last waited at. -/
  lastAnchor : Registry TxId Nat := .empty
  sleepers : List Sleeper := []
  nextTicket : Nat := 0
  /-- Wounded transactions whose anchor has yet to be woken. -/
  wakeups : Mailbox

inductive Verdict where
  | granted
  | wounded
  | timedOut
  | waits
  deriving DecidableEq

def Verdict.error? (t : Target) (tx : TxId) : Verdict → Option Error
  | .wounded => some (.wounded tx)
  | .timedOut => some (.lockTimeout tx t)
  | .granted | .waits => none

namespace LockTable

def anchorSize : Nat := 64

def create (anchors maxWait capacity : Nat) : Outcome LockTable :=
  if anchors = 0 then .error (.crash .noAnchors)
  else if memoryLimit ≤ anchors * anchorSize then .error (.crash .tooLarge)
  else (Mailbox.create capacity).map fun wakeups => { anchors, maxWait, wakeups }

def anchorOf (l : LockTable) (t : Target) : Nat := l.place t % l.anchors

def holders (l : LockTable) (t : Target) : Holders := (l.entries.find? t).getD .none

/-- Keeps an entry only while somebody holds something or waits. -/
def setHolders (l : LockTable) (t : Target) (h : Holders) : LockTable :=
  { l with entries := if h.isIdle then l.entries.erase t else l.entries.insert t h }

def isDoomed (l : LockTable) (tx : TxId) : Bool := tx ∈ l.doomed

def holds (l : LockTable) (t : Target) (tx : TxId) (m : Mode) : Bool := (l.holders t).covers tx m

def modesOf (l : LockTable) (t : Target) (tx : TxId) : List Mode := (l.holders t).modesOf tx

def heldTargets (l : LockTable) (tx : TxId) : List Target := (l.held.find? tx).getD []

def lockedTargets (l : LockTable) (tx : TxId) : List Target := Target.sort (l.heldTargets tx)

def targetCount (l : LockTable) : Nat := l.entries.size

def addHeld (l : LockTable) (tx : TxId) (t : Target) : LockTable :=
  { l with held := l.held.insert tx ((l.heldTargets tx).insert t) }

def dropHeld (l : LockTable) (tx : TxId) (t : Target) : LockTable :=
  let ts := (l.heldTargets tx).filter (· ≠ t)
  { l with held := if ts.isEmpty then l.held.erase tx else l.held.insert tx ts }

def wakeAnchor (l : LockTable) (anchor : Nat) : LockTable :=
  { l with sleepers := l.sleepers.map fun s =>
      if l.anchorOf s.target = anchor then { s with notified := true } else s }

/-- Dooms a transaction; the first wound also queues its wakeup. -/
def wound (l : LockTable) (victim : TxId) : LockTable :=
  if l.isDoomed victim then l
  else { l with doomed := victim :: l.doomed, wakeups := (l.wakeups.post victim).2 }

def woundYounger (l : LockTable) (tx : TxId) (holders : List TxId) : LockTable :=
  (holders.filter fun h => tx.IsOlder h).foldl wound l

def stopWaiting (l : LockTable) (t : Target) (tx : TxId) : LockTable :=
  l.setHolders t ((l.holders t).unawait tx)

/-- A transaction has what it asked for. `waited` says that it had to wait. -/
def settle (l : LockTable) (t : Target) (tx : TxId) (h : Holders) (waited : Bool) : LockTable :=
  let l := l.setHolders t (h.unawait tx)
  let l := if waited then { l with lastAnchor := l.lastAnchor.erase tx } else l
  l.addHeld tx t

/-- Looks at a request once. `waited` says that it has waited before, and `expired` that it may not
wait any longer. -/
def look (l : LockTable) (t : Target) (tx : TxId) (m : Mode) (waited expired : Bool) :
    Verdict × LockTable :=
  let h := l.holders t
  if h.covers tx m then (.granted, l.settle t tx h waited)
  else
    let blockers := h.blockers tx m
    if blockers.isEmpty then (.granted, l.settle t tx (h.grant tx m) waited)
    else
      let l := { l with lastAnchor := l.lastAnchor.insert tx (l.anchorOf t) }
      if l.isDoomed tx then (.wounded, l.stopWaiting t tx)
      else
        let l := l.woundYounger tx blockers
        if expired then (.timedOut, l.stopWaiting t tx)
        else (.waits, l.setHolders t (h.await tx))

/-- A wait of no length is over when it begins. -/
def impatient (l : LockTable) : Bool := l.maxWait = 0

def fallAsleep (l : LockTable) (t : Target) (tx : TxId) (m : Mode) : LockTable :=
  { l with
    sleepers := l.sleepers ++ [{ ticket := l.nextTicket, tx, target := t, mode := m }]
    nextTicket := l.nextTicket + 1 }

/-- Asks for a mode on a target. A request that has to wait sleeps under the next ticket. `expired`
says that it may not wait at all. -/
def ask (l : LockTable) (t : Target) (tx : TxId) (m : Mode) (expired : Bool) :
    Verdict × LockTable :=
  match l.look t tx m false expired with
  | (.waits, l) => (.waits, l.fallAsleep t tx m)
  | r => r

def lock (l : LockTable) (t : Target) (tx : TxId) (m : Mode) : Verdict × LockTable :=
  l.ask t tx m l.impatient

def sleeper? (l : LockTable) (ticket : Nat) : Option Sleeper :=
  l.sleepers.find? fun s => s.ticket = ticket

def removeSleeper (l : LockTable) (ticket : Nat) : LockTable :=
  { l with sleepers := l.sleepers.filter fun s => s.ticket ≠ ticket }

def sleepAgain (l : LockTable) (ticket : Nat) : LockTable :=
  { l with sleepers := l.sleepers.map fun s =>
      if s.ticket = ticket then { s with notified := false } else s }

/-- A sleeper looks again. `expired` says that its wait has lasted its full length. -/
def relook (l : LockTable) (s : Sleeper) (expired : Bool) : Verdict × LockTable :=
  match l.look s.target s.tx s.mode true expired with
  | (.waits, l) => (.waits, l.sleepAgain s.ticket)
  | (v, l) => (v, l.removeSleeper s.ticket)

def revokeModes (l : LockTable) (t : Target) (tx : TxId) (ms : List Mode) : LockTable :=
  let h := (l.holders t).revokeAll tx ms
  let l := (l.setHolders t h).wakeAnchor (l.anchorOf t)
  if (h.modesOf tx).isEmpty then l.dropHeld tx t else l

def release (l : LockTable) (t : Target) (tx : TxId) (m : Mode) : LockTable :=
  l.revokeModes t tx [m]

def releaseOn (l : LockTable) (tx : TxId) (ms : List Mode) (ts : List Target) : LockTable :=
  ts.foldl (fun l t => l.revokeModes t tx ms) l

def forget (l : LockTable) (tx : TxId) : LockTable :=
  { l with
    held := l.held.erase tx
    doomed := l.doomed.filter (· ≠ tx)
    lastAnchor := l.lastAnchor.erase tx }

/-- Releases a transaction's shared modes everywhere, or else everything it holds. -/
def releaseAll (l : LockTable) (tx : TxId) (sharedOnly : Bool) : LockTable :=
  if sharedOnly then l.releaseOn tx (Mode.all.filter Mode.isShared) (l.heldTargets tx)
  else (l.releaseOn tx Mode.all (l.heldTargets tx)).forget tx

def deliver (l : LockTable) : LockTable :=
  match l.wakeups.take? with
  | none => l
  | some (tx, wakeups) =>
    let l := { l with wakeups }
    match l.lastAnchor.find? tx with
    | none => l
    | some anchor => l.wakeAnchor anchor

end LockTable

end PagedStore
