set_option autoImplicit false

/-!
The line in which transactions wait for a frame. Only the request at its head may try the pool, and
a signal is kept for one that is not looking.
-/

namespace PagedStore

structure Waiter where
  ticket : Nat
  signalled : Bool := false
  deriving DecidableEq

structure Line where
  waiters : List Waiter := []
  /-- The length of the line, for those who only want to know whether to signal. -/
  waiting : Nat := 0
  nextTicket : Nat := 0
  deriving DecidableEq

namespace Line

def empty : Line := {}

def hasWaiters (l : Line) : Bool := 0 < l.waiting

def join (l : Line) : Nat × Line :=
  let waiters := l.waiters ++ [{ ticket := l.nextTicket }]
  (l.nextTicket, { waiters, waiting := waiters.length, nextTicket := l.nextTicket + 1 })

def leave (l : Line) (ticket : Nat) : Line :=
  let waiters := l.waiters.filter fun w => w.ticket ≠ ticket
  { l with waiters, waiting := waiters.length }

def isHead (l : Line) (ticket : Nat) : Bool := (l.waiters.head?.map Waiter.ticket) = some ticket

def wakeHead (l : Line) : Line :=
  match l.waiters with
  | [] => l
  | w :: ws => { l with waiters := { w with signalled := true } :: ws }

def heed (l : Line) (ticket : Nat) : Line :=
  { l with waiters := l.waiters.map fun w =>
      if w.ticket = ticket then { w with signalled := false } else w }

def signalled (l : Line) : List Nat := (l.waiters.filter Waiter.signalled).map Waiter.ticket

end Line

end PagedStore
