import PagedStore.Lock.Intent
import PagedStore.Log.Record
import PagedStore.Pins.Desk
import PagedStore.Settings

set_option autoImplicit false

/-!
Transactions over one pool, one log and one lock table. What a transaction does to a record it does
under a lock and in a frame that it has pinned; a write is logged before it is applied, and a commit
makes the transaction's changes durable before it gives its frames and locks back. An operation
that has to wait is kept as a value that says what is left of it.
-/

namespace PagedStore

structure Transaction where
  isolation : Isolation
  lastLsn : Lsn := 0
  finished : Bool := false

inductive Answer where
  | done
  | frame (i : Nat)
  | block (b : BlockId)
  | number (n : Nat)
  | value (v : Value)

inductive Request where
  /-- Locks taken for a transaction from outside. -/
  | lock (steps : List LockStep)
  | intent (i : Intent)
  | pin (w : Wanted)
  | append (file : String) (format : Formatter)
  | length (file : String)
  | read (r : RecordId) (offset : Nat) (kind : Kind)
  | write (r : RecordId) (offset : Nat) (v : Value)

/-- What is left of an operation when it has its locks. -/
inductive Work where
  | answer (a : Answer)
  | length (file : String)
  | read (r : RecordId) (offset : Nat) (kind : Kind)
  | write (r : RecordId) (offset : Nat) (v : Value)
  | extend (file : String) (format : Formatter)

/-- A write that has its log record, at `lsn`, and is still to be applied to its frame. -/
structure LoggedWrite where
  tx : TxId
  frame : Nat
  offset : Nat
  value : Value
  lsn : Lsn

/-- What an operation waits for, and what is left of it. -/
inductive Wait where
  /-- The lock asked for under a ticket; then come the other steps, and then the work. -/
  | onLock (ticket : Nat) (rest : List LockStep) (work : Work)
  /-- A frame; `thenLock` says that the frame's block has to be locked. -/
  | onFrame (w : PinWait) (thenLock : Bool)

structure Suspended where
  tx : TxId
  wait : Wait

structure Task where
  id : Nat
  tx : TxId

inductive Progress where
  | done (r : Outcome Answer)
  | waits
  | sleepsOn

structure Engine where
  desk : Desk
  locks : LockTable
  nextTx : Nat := 1
  transactions : Registry TxId Transaction := .empty
  suspended : Registry Nat Suspended := .empty

namespace Engine

def create (s : Settings) (disk : Disk) : Outcome Engine :=
  match Pool.create s.poolSize s.stripes s.blockSize with
  | .error e => .error e
  | .ok pool =>
    (LockTable.create s.anchors s.maxWait s.wakeups).map fun locks =>
      { desk := {
          store := { media := { disk := disk.reopen s.blockSize, log := .empty }, pool }
          maxWait := s.maxWait, window := s.window }
        locks }

def media (e : Engine) : Media := e.desk.store.media

def pool (e : Engine) : Pool := e.desk.store.pool

def setStore (e : Engine) (store : Store) : Engine := { e with desk := { e.desk with store } }

def setMedia (e : Engine) (media : Media) : Engine :=
  e.setStore { e.desk.store with media }

def setLog (e : Engine) (log : Log) : Engine := e.setMedia { e.media with log }

def note (e : Engine) (d : Deed) : Engine := e.setMedia (e.media.note d)

def setDisk (e : Engine) (disk : Disk) : Engine := e.setMedia { e.media with disk }

def enroll (e : Engine) (tx : TxId) (isolation : Isolation) : Engine :=
  { e with transactions := e.transactions.insert tx { isolation } }

def begin (e : Engine) (isolation : Isolation) : TxId × Engine :=
  (⟨e.nextTx⟩, { e with nextTx := e.nextTx + 1 }.enroll ⟨e.nextTx⟩ isolation)

def isolation (e : Engine) (tx : TxId) : Isolation :=
  ((e.transactions.find? tx).map Transaction.isolation).getD .standard

def isFinished (e : Engine) (tx : TxId) : Bool :=
  ((e.transactions.find? tx).map Transaction.finished).getD false

def lastLsn (e : Engine) (tx : TxId) : Lsn :=
  ((e.transactions.find? tx).map Transaction.lastLsn).getD 0

def updateTx (e : Engine) (tx : TxId) (f : Transaction → Transaction) : Engine :=
  match e.transactions.find? tx with
  | none => e
  | some t => { e with transactions := e.transactions.insert tx (f t) }

def frame? (e : Engine) (i : Nat) : Option Frame := e.pool.frames[i]?

def heldFrame? (e : Engine) (tx : TxId) (b : BlockId) : Option (Nat × Frame) :=
  match e.desk.frameOf? tx b with
  | none => none
  | some i => (e.frame? i).map fun f => (i, f)

def readHeld (e : Engine) (tx : TxId) (r : RecordId) (offset : Nat) (kind : Kind) :
    Outcome Answer :=
  match e.heldFrame? tx r.block with
  | none => .error (.crash (.accessUnpinned tx r.block))
  | some (_, f) =>
    match f.read offset kind with
    | .error err => .error (.error err)
    | .ok v => .ok (.value v)

def logWrite (e : Engine) (tx : TxId) (r : RecordId) (offset : Nat) (v : Value) :
    Outcome LoggedWrite × Engine :=
  match e.heldFrame? tx r.block with
  | none => (.error (.crash (.accessUnpinned tx r.block)), e)
  | some (i, f) =>
    if f.capacity < offset + v.size then
      (.error (.error (.outOfBounds offset v.size f.capacity)), e)
    else
      let update : Update := { tx, block := r.block, offset, bytes := v.encode }
      match e.media.log.append update.encode with
      | (.error err, log) => (.error err, e.setLog log)
      | (.ok lsn, log) => (.ok { tx, frame := i, offset, value := v, lsn }, e.setLog log)

def applyWrite (e : Engine) (w : LoggedWrite) : Outcome Answer × Engine :=
  match e.desk.store.editFrame w.frame fun f => f.writeLogged w.offset w.value w.tx w.lsn with
  | (.error err, store) => (.error (.error err), e.setStore store)
  | (.ok (), store) =>
    (.ok .done, ((e.setStore store).note (.applied w.frame w.lsn)).updateTx w.tx
      fun t => { t with lastLsn := w.lsn })

def writeHeld (e : Engine) (tx : TxId) (r : RecordId) (offset : Nat) (v : Value) :
    Outcome Answer × Engine :=
  match e.logWrite tx r offset v with
  | (.error err, e) => (.error err, e)
  | (.ok w, e) => e.applyWrite w

def fileLength (e : Engine) (file : String) : Outcome Answer × Engine :=
  let r := e.media.disk.length file
  (r.1.map .number, e.setDisk r.2)

def ends (e : Engine) (k : Task) (r : Outcome Answer) : Progress × Engine :=
  (.done r, { e with suspended := e.suspended.erase k.id })

def suspend (e : Engine) (k : Task) (wait : Wait) : Engine :=
  { e with suspended := e.suspended.insert k.id { tx := k.tx, wait } }

def locked (e : Engine) (k : Task) (steps : List LockStep) (work : Work)
    (next : Engine → Progress × Engine) : Progress × Engine :=
  match e.locks.perform k.tx steps with
  | (.done, locks) => next { e with locks }
  | (.failed err, locks) => { e with locks }.ends k (.error (.error err))
  | (.waits ticket rest, locks) =>
    (.waits, { e with locks }.suspend k (.onLock ticket rest work))

def lockNew (e : Engine) (k : Task) (b : BlockId) : Progress × Engine :=
  e.locked k [.acquire (.block b) .x] (.answer (.block b)) fun e => e.ends k (.ok (.block b))

def pinned (e : Engine) (k : Task) (thenLock : Bool) (r : PinProgress × Desk) :
    Progress × Engine :=
  let e := { e with desk := r.2 }
  match r.1 with
  | .waits w => (.waits, e.suspend k (.onFrame w thenLock))
  | .sleepsOn w => (.sleepsOn, e.suspend k (.onFrame w thenLock))
  | .done (.error err) => e.ends k (.error err)
  | .done (.ok i) =>
    if thenLock then
      match e.desk.blockOf? i with
      | some b => e.lockNew k b
      | none => e.ends k (.ok (.frame i))
    else e.ends k (.ok (.frame i))

def proceed (e : Engine) (k : Task) : Work → Progress × Engine
  | .answer a => e.ends k (.ok a)
  | .length file =>
    let r := e.fileLength file
    r.2.ends k r.1
  | .read r offset kind => e.ends k (e.readHeld k.tx r offset kind)
  | .write r offset v =>
    let w := e.writeHeld k.tx r offset v
    w.2.ends k w.1
  | .extend file format => e.pinned k true (e.desk.pin k.tx (.fresh file format))

def lockedWork (e : Engine) (k : Task) (steps : List LockStep) (work : Work) :
    Progress × Engine :=
  e.locked k steps work fun e => e.proceed k work

def active (e : Engine) (k : Task) (next : Engine → Progress × Engine) : Progress × Engine :=
  if e.isFinished k.tx then e.ends k (.error (.error (.finished k.tx))) else next e

def request (e : Engine) (k : Task) : Request → Progress × Engine
  | .lock steps => e.lockedWork k steps (.answer .done)
  | .intent i => e.lockedWork k (i.steps (e.isolation k.tx)) (.answer .done)
  | .pin w => e.active k fun e => e.pinned k false (e.desk.pin k.tx w)
  | .append file format =>
    e.active k fun e => e.lockedWork k [.acquire (.file file) .ix] (.extend file format)
  | .length file =>
    e.active k fun e =>
      e.lockedWork k ((Intent.fileRead file).steps (e.isolation k.tx)) (.length file)
  | .read r offset kind =>
    e.active k fun e =>
      e.lockedWork k ((Intent.recordRead r).steps (e.isolation k.tx)) (.read r offset kind)
  | .write r offset v =>
    e.active k fun e =>
      e.lockedWork k ((Intent.recordChange r).steps (e.isolation k.tx)) (.write r offset v)

/-- Wakes an operation up. `expired` says that its wait has lasted its full length. -/
def resume (e : Engine) (id : Nat) (expired : Bool) : Progress × Engine :=
  match e.suspended.find? id with
  | none => (.sleepsOn, e)
  | some ⟨tx, .onFrame w thenLock⟩ => e.pinned ⟨id, tx⟩ thenLock (e.desk.resume tx w expired)
  | some ⟨tx, .onLock ticket rest work⟩ =>
    match e.locks.sleeper? ticket with
    | none => (.sleepsOn, e)
    | some s =>
      match e.locks.relook s expired with
      | (.granted, locks) => { e with locks }.lockedWork ⟨id, tx⟩ rest work
      | (.waits, locks) => (.sleepsOn, { e with locks })
      | (.wounded, locks) => { e with locks }.ends ⟨id, tx⟩ (.error (.error (.wounded tx)))
      | (.timedOut, locks) =>
        { e with locks }.ends ⟨id, tx⟩ (.error (.error (.lockTimeout tx s.target)))

def atDesk (e : Engine) (f : Desk → Outcome Unit × Desk) : Outcome Unit × Engine :=
  let r := f e.desk
  (r.1, { e with desk := r.2 })

def atStore (e : Engine) (f : Store → Outcome Unit × Store) : Outcome Unit × Engine :=
  let r := f e.desk.store
  (r.1, e.setStore r.2)

def unpin (e : Engine) (tx : TxId) (b : BlockId) : Outcome Unit × Engine :=
  e.atDesk fun d => d.unpin tx b

def endStatement (e : Engine) (tx : TxId) : Engine :=
  { e with locks := e.locks.endStatement (e.isolation tx) tx }

def releaseLocks (e : Engine) (tx : TxId) : Engine :=
  { e with locks := e.locks.releaseAll tx false }

def finish (e : Engine) (tx : TxId) : Engine := e.updateTx tx fun t => { t with finished := true }

/-- Gives back a transaction's frames and locks, which ends it. -/
def letGo (e : Engine) (tx : TxId) : Outcome Unit × Engine :=
  match e.atDesk fun d => d.releaseAll tx with
  | (.error err, e) => (.error err, e)
  | (.ok (), e) => (.ok (), (e.releaseLocks tx).finish tx)

/-- Makes a transaction's changes durable: its frames first, and then its log records. -/
def makeDurable (e : Engine) (tx : TxId) : Outcome Unit × Engine :=
  match e.atDesk fun d => d.flushMine tx with
  | (.error err, e) => (.error err, e)
  | (.ok (), e) =>
    let r := e.media.force (e.lastLsn tx)
    (r.1, e.setMedia r.2)

def commit (e : Engine) (tx : TxId) : Outcome Unit × Engine :=
  if e.isFinished tx then (.error (.error (.finished tx)), e)
  else
    match e.makeDurable tx with
    | (.error err, e) => (.error err, e)
    | (.ok (), e) => e.letGo tx

/-- Ends a transaction. What it wrote stays in its frames. -/
def rollback (e : Engine) (tx : TxId) : Outcome Unit × Engine :=
  if e.isFinished tx then (.error (.error (.finished tx)), e) else e.letGo tx

def drop (e : Engine) (tx : TxId) : Outcome Unit × Engine :=
  if e.isFinished tx then e.atDesk fun d => d.releaseAll tx else e.letGo tx

end Engine

end PagedStore
