import PagedStore.Bytes
import PagedStore.Failure

set_option autoImplicit false

/-!
A bounded queue of transactions to wake up. Posting never waits: where there is no room the wakeup
is dropped. A courier takes wakeups from the queue one by one and delivers them through a gate.
-/

namespace PagedStore

structure Mailbox where
  capacity : Nat
  queue : List TxId := []

namespace Mailbox

def placeSize : Nat := 16

/-- A place and the round it is in share one word, and two bits of it are taken. -/
def placeLimit : Nat := wordLimit 8 / 4

def create (capacity : Nat) : Outcome Mailbox :=
  if placeLimit ≤ capacity then .error (.crash .queueTooLong)
  else if memoryLimit ≤ capacity * placeSize then .error (.crash .tooLarge)
  else .ok { capacity }

theorem eq_of_create {capacity : Nat} {b : Mailbox} (h : create capacity = .ok b) :
    b = { capacity } := by
  unfold create at h
  split at h
  · cases h
  · split at h <;> cases h
    rfl

/-- Queues a wakeup and tells whether there was room for it. -/
def post (b : Mailbox) (tx : TxId) : Bool × Mailbox :=
  if b.queue.length < b.capacity then (true, { b with queue := b.queue ++ [tx] }) else (false, b)

def take? (b : Mailbox) : Option (TxId × Mailbox) :=
  match b.queue with
  | [] => none
  | tx :: rest => some (tx, { b with queue := rest })

theorem length_queue_post {b : Mailbox} (h : b.queue.length ≤ b.capacity) (tx : TxId) :
    (b.post tx).2.queue.length ≤ (b.post tx).2.capacity := by
  unfold post
  split
  · simp; omega
  · exact h

end Mailbox

/-- A mailbox with the one who empties it. A wakeup in hand is no longer in the queue. -/
structure Courier where
  box : Mailbox
  inHand : Option TxId := none
  gateOpen : Bool := true
  delivered : List TxId := []

namespace Courier

def create (capacity : Nat) : Outcome Courier :=
  (Mailbox.create capacity).map fun box => { box }

def fetch (c : Courier) : Courier :=
  match c.inHand, c.box.take? with
  | none, some (tx, box) => { c with box, inHand := some tx }
  | _, _ => c

def drain (c : Courier) : Courier :=
  { c with
    box := { c.box with queue := [] }, inHand := none
    delivered := c.delivered ++ c.inHand.toList ++ c.box.queue }

/-- Works until nothing can be done: all is delivered, or the hands are full before a shut gate. -/
def work (c : Courier) : Courier := if c.gateOpen then c.drain else c.fetch

def notify (c : Courier) (tx : TxId) : Bool × Courier :=
  let r := c.box.post tx
  (r.1, { c with box := r.2 }.work)

def setGate (c : Courier) (gateOpen : Bool) : Courier := { c with gateOpen }.work

def pending (c : Courier) : Nat := c.box.queue.length

end Courier

end PagedStore
