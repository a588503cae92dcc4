import PagedStore.Engine

set_option autoImplicit false

/-!
What can be asked of a session, and what it answers. Frames and transactions go by names that the
session gives them, or transactions by their numbers.
-/

namespace PagedStore

inductive Party where
  | number (tx : TxId)
  | named (name : String)

structure FrameInfo where
  id : Nat
  block : Option BlockId
  pins : Nat
  dirty : Bool
  fresh : Bool
  lsn : Lsn
  modifiedBy : Option TxId
  deriving DecidableEq

def Frame.info (f : Frame) : FrameInfo where
  id := f.id
  block := f.block
  pins := f.pins
  dirty := f.dirty
  fresh := f.fresh
  lsn := f.lsn
  modifiedBy := f.modifiedBy

structure Job where
  party : Party
  request : Request
  bare : Bool := false

inductive Command where
  | logAppend (record : Bytes)
  | logFlush (lsn : Lsn)
  | logDurable
  | logLast
  | logFlushes
  | logRecord (lsn : Lsn)
  | logFail (outage : Outage)
  | logRequests
  | fileAppend (file : String)
  | fileLength (file : String)
  | fileRead (b : BlockId) (len : Option Nat)
  | fileWrite (b : BlockId) (data : Bytes)
  | fileCounts
  | fileBlockSize
  | fileSync
  | frameNew (name : String) (id blockSize : Nat)
  | frameInfo (name : String)
  | frameCapacity (name : String)
  | frameIsPinned (name : String)
  | frameText (name : String)
  | frameWrite (name : String) (offset : Nat) (v : Value)
  | frameWriteLogged (name : String) (offset : Nat) (v : Value) (tx : TxId) (lsn : Lsn)
  | frameRead (name : String) (offset : Nat) (kind : Kind) (bare : Bool)
  | framePin (name : String)
  | frameUnpin (name : String)
  | frameFlush (name : String)
  | poolPin (w : Wanted) (name : Option String)
  | poolUnpin (name : String)
  | poolFlushAll
  | poolFlushFor (tx : TxId)
  | poolSize
  | poolPinCount (b : BlockId)
  | poolContains (b : BlockId)
  | pinsNew (tx : TxId)
  | pinsDrop (tx : TxId)
  | pinsRefs (tx : TxId) (b : BlockId)
  | pinsHeld (tx : TxId)
  | pinsFlush (tx : TxId)
  | pinsRelease (tx : TxId)
  | pinsText (tx : TxId)
  | heldFrame (p : Party) (b : BlockId) (name : Option String)
  | unpin (p : Party) (b : BlockId)
  | line
  | wakeHead
  | waiting
  | run (job : Job)
  | release (t : Target) (tx : TxId) (m : Mode)
  | releaseAll (tx : TxId) (sharedOnly : Bool)
  | holds (t : Target) (tx : TxId) (m : Mode)
  | modes (t : Target) (tx : TxId)
  | locked (tx : TxId)
  | doomed (tx : TxId)
  | tableText
  | enroll (tx : TxId) (level : Isolation)
  | endStatement (p : Party)
  | releaseLocks (p : Party)
  | isolation (p : Party)
  | number (p : Party)
  | begin (name : String) (level : Isolation)
  | commit (p : Party)
  | rollback (p : Party)
  | drop (name : String)
  | status (p : Party)
  | transactionText (p : Party)
  | flushAll
  | sizes
  | start (id : String) (c : Command)
  | join (id : String)
  | sleep (time : Nat)
  /-- Opens the files anew, with or without a pool where that is said. -/
  | reopen (changes : List (Setting × Nat)) (pooled : Option Bool)

inductive Reply where
  | ok
  | started
  | nothing
  | number (n : Nat)
  | flag (b : Bool)
  | text (s : String)
  | bytes (bs : Bytes)
  | block (b : BlockId)
  | blocks (bs : List BlockId)
  | value (v : Value)
  | bare (v : Value)
  | frame (f : FrameInfo)
  | place (id : Nat) (block : Option BlockId)
  | numbers (ns : List Nat)
  | texts (ss : List String)
  | line (maxWait window waiting : Nat)
  | status (tx : TxId) (level : Isolation) (finished : Bool)
  | failed (e : Failure)

namespace Reply

def ofOutcome {α : Type} (f : α → Reply) : Outcome α → Reply
  | .ok a => f a
  | .error e => .failed e

def ofUnit (r : Outcome Unit) : Reply := ofOutcome (fun _ => .ok) r

def inBackground : Reply → Reply
  | .frame f => .place f.id f.block
  | r => r

end Reply

structure Report where
  reply : Reply
  available : Option Nat := none
  waiting : Option Nat := none
  targets : Option Nat := none
  durable : Option Lsn := none
  ended : Option (List (String × Reply)) := none

end PagedStore
