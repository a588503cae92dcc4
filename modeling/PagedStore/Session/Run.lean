import PagedStore.Session.Basic

set_option autoImplicit false

/-!
Runs the commands of a session and reports what it shows after each.
-/

namespace PagedStore

namespace Session

def onEngine (s : Session) (r : Outcome Unit × Engine) : Reply × Session :=
  (Reply.ofUnit r.1, { s with engine := r.2 })

def onLog {α : Type} (s : Session) (f : α → Reply) (r : Outcome α × Log) : Reply × Session :=
  (Reply.ofOutcome f r.1, { s with engine := s.engine.setLog r.2 })

def onDisk {α : Type} (s : Session) (f : α → Reply) (r : Outcome α × Disk) : Reply × Session :=
  (Reply.ofOutcome f r.1, { s with engine := s.engine.setDisk r.2 })

def onLocks (s : Session) (f : LockTable → LockTable) : Session :=
  { s with engine := { s.engine with locks := f s.engine.locks } }

def frame? (s : Session) (name : String) : Option Frame :=
  match s.frames.find? name with
  | none => none
  | some (.bare f) => some f
  | some (.pooled i) => s.engine.frame? i

def setFrame (s : Session) (name : String) (f : Frame) : Session :=
  match s.frames.find? name with
  | none => s
  | some (.bare _) => { s with frames := s.frames.insert name (.bare f) }
  | some (.pooled i) =>
    let store := s.engine.desk.store
    let pool := { store.pool with frames := store.pool.frames.set i f }
    { s with engine := s.engine.setStore { store with pool } }

def nameFrame (s : Session) (name : Option String) (i : Nat) : Session :=
  match name with
  | none => s
  | some name => { s with frames := s.frames.insert name (.pooled i) }

def inspect (s : Session) (name : String) (f : Frame → Reply) : Reply × Session :=
  match s.frame? name with
  | none => (.nothing, s)
  | some frame => (f frame, s)

def edit (s : Session) (name : String) (f : Frame → Except Error Frame) : Reply × Session :=
  match s.frame? name with
  | none => (.nothing, s)
  | some frame =>
    match f frame with
    | .error e => (.failed (.error e), s)
    | .ok frame => (.ok, s.setFrame name frame)

def readFrame (kind : Kind) (offset : Nat) (bare : Bool) (f : Frame) : Reply :=
  match f.read offset kind with
  | .error e => .failed (.error e)
  | .ok v => if bare then .bare v else .value v

def pinFrame (s : Session) (name : String) : Reply × Session :=
  match s.frame? name with
  | none => (.nothing, s)
  | some f => (.number (f.pins + 1), s.setFrame name f.pin)

def unpinFrame (s : Session) (name : String) : Reply × Session :=
  match s.frame? name with
  | none => (.nothing, s)
  | some f =>
    match f.unpin? with
    | none => (.nothing, s)
    | some f => (.number f.pins, s.setFrame name f)

def flushNamed (s : Session) (name : String) : Reply × Session :=
  match s.frame? name with
  | none => (.nothing, s)
  | some f =>
    match f.flush s.engine.media with
    | (.error e, media) => (.failed e, { s with engine := s.engine.setMedia media })
    | (.ok f, media) => (.ok, { s with engine := s.engine.setMedia media }.setFrame name f)

/-- Gives a pin on a named frame back to the pool. A frame of its own counts like one of the pool.
-/
def poolUnpin (s : Session) (name : String) : Reply × Session :=
  match s.frames.find? name with
  | none => (.nothing, s)
  | some (.pooled i) => s.onEngine (s.engine.atStore fun store => store.unpin i)
  | some (.bare f) =>
    match f.unpin? with
    | none => (.failed (.crash (.notPinned f.id)), s)
    | some f =>
      let store := s.engine.desk.store
      let free := if f.pins = 0 then store.pool.free + 1 else store.pool.free
      let pool := { store.pool with free }
      let s := { s with engine := s.engine.setStore { store with pool } }
      (.ok, s.setFrame name f)

def poolPin (s : Session) (w : Wanted) (name : Option String) : Reply × Session :=
  let r := s.engine.desk.store.pin w
  let s := { s with engine := s.engine.setStore r.2 }
  match r.1 with
  | .error e => (.failed e, s)
  | .ok none => (.nothing, s)
  | .ok (some i) => (s.frameReply i, s.nameFrame name i)

def heldFrame (s : Session) (tx : TxId) (b : BlockId) (name : Option String) : Reply × Session :=
  match s.engine.desk.frameOf? tx b with
  | none => (.nothing, s)
  | some i => (s.frameReply i, s.nameFrame name i)

def frameNew (s : Session) (name : String) (id blockSize : Nat) : Reply × Session :=
  match Frame.blank id blockSize with
  | .error e => (.failed e, s)
  | .ok f => (.frame f.info, { s with frames := s.frames.insert name (.bare f) })

/-- Gives a transaction a new set of pins, after it let go of what it held. -/
def pinsNew (s : Session) (tx : TxId) : Reply × Session :=
  let r := s.engine.desk.releaseAll tx
  (Reply.ofUnit r.1, { s with engine := { s.engine with desk := r.2.setPins tx {} } })

/-- Starts a transaction under a name. One that had the name before goes away. -/
def begin (s : Session) (name : String) (level : Isolation) : Reply × Session :=
  let r := s.engine.begin level
  let old := s.names.find? name
  let s := { s with engine := r.2, names := s.names.insert name r.1 }
  match old with
  | none => (.number r.1.num, s)
  | some old =>
    let d := s.engine.drop old
    (Reply.ofOutcome (fun _ => .number r.1.num) d.1, { s with engine := d.2 })

def drop (s : Session) (name : String) : Reply × Session :=
  match s.names.find? name with
  | none => (.ok, s)
  | some tx => { s with names := s.names.erase name }.onEngine (s.engine.drop tx)

/-- The transactions there are, in the order of their names, or of their numbers where they have no
names. -/
def transactions (s : Session) : List TxId :=
  match s.topic with
  | .storage _ => sortBy (fun a b => a.num ≤ b.num) s.engine.desk.pins.keys
  | .locks | .engine =>
    (sortBy (fun a b => (compare a.1 b.1).isLE) s.names.entries).map Prod.snd

/-- Lets every transaction go away, also behind one that fails. The first failure is told. -/
def dropEach : List TxId → Engine → Outcome Unit × Engine
  | [], e => (.ok (), e)
  | tx :: rest, e =>
    let r := e.drop tx
    let q := dropEach rest r.2
    (r.1.bind fun _ => q.1, q.2)

/-- Opens the same files again, with nothing else left. Where that fails the old engine stays, but
its transactions are gone. -/
def reopen (s : Session) (o : Opening) : Reply × Session :=
  let d := dropEach s.transactions s.engine
  let s := { s with engine := d.2, names := .empty }
  match d.1.bind fun _ => o.engine s.engine.media.disk with
  | .error e => (.failed e, s)
  | .ok engine =>
    (.ok, { first := s.first, topic := o.topic, timed := s.timed, engine, clock := s.clock })

def inBackground (s : Session) (id : String) (task : Nat) : Session :=
  { s with background := s.background ++ [⟨id, task⟩] }

def keepReply (s : Session) (id : String) (r : Reply) : Session :=
  { s with nextTask := s.nextTask + 1, replies := s.replies.insert s.nextTask r }.inBackground id
    s.nextTask

def join (s : Session) (id : String) : Session :=
  match s.background.find? fun b => b.id = id with
  | none => s
  | some b => s.await b.task

def step (s : Session) : Command → Reply × Session
  | .logAppend record => s.onLog .number (s.engine.media.log.append record)
  | .logFlush lsn => s.onLog (fun _ => .ok) (s.engine.media.log.flush lsn)
  | .logDurable => (.number s.engine.media.log.durable, s)
  | .logLast => (.number s.engine.media.log.last, s)
  | .logFlushes => (.number s.engine.media.log.flushes, s)
  | .logRecord lsn => (((s.engine.media.log.record? lsn).map .bytes).getD .nothing, s)
  | .logFail outage =>
    (.ok, { s with engine := s.engine.setLog { s.engine.media.log with outage } })
  | .logRequests =>
    let r := s.engine.media.log.collect
    (.numbers r.1, { s with engine := s.engine.setLog r.2 })
  | .fileAppend file => s.onDisk .block (s.engine.media.disk.append file)
  | .fileLength file => s.onDisk .number (s.engine.media.disk.length file)
  | .fileRead b len =>
    s.onDisk .bytes (s.engine.media.disk.read b (len.getD s.engine.media.disk.blockSize))
  | .fileWrite b data => s.onDisk (fun _ => .ok) (s.engine.media.disk.write b data)
  | .fileCounts => (.numbers [s.engine.media.disk.reads, s.engine.media.disk.writes], s)
  | .fileBlockSize => (.number s.engine.media.disk.blockSize, s)
  | .fileSync => (.ok, s)
  | .frameNew name id blockSize => s.frameNew name id blockSize
  | .frameInfo name => s.inspect name fun f => .frame f.info
  | .frameCapacity name => s.inspect name fun f => .number f.capacity
  | .frameIsPinned name => s.inspect name fun f => .flag (f.pins ≠ 0)
  | .frameText name => s.inspect name fun f => .text (Describe.frame f)
  | .frameWrite name offset v => s.edit name fun f => f.write offset v
  | .frameWriteLogged name offset v tx lsn => s.edit name fun f => f.writeLogged offset v tx lsn
  | .frameRead name offset kind bare => s.inspect name (readFrame kind offset bare)
  | .framePin name => s.pinFrame name
  | .frameUnpin name => s.unpinFrame name
  | .frameFlush name => s.flushNamed name
  | .poolPin w name => s.poolPin w name
  | .poolUnpin name => s.poolUnpin name
  | .poolFlushAll | .flushAll => s.onEngine (s.engine.atStore Store.flushAll)
  | .poolFlushFor tx => s.onEngine (s.engine.atStore fun store => store.flushFor tx)
  | .poolSize => (.number s.engine.pool.size, s)
  | .poolPinCount b => (((s.engine.pool.frameOf? b).map fun f => .number f.pins).getD .nothing, s)
  | .poolContains b => (.flag (s.engine.pool.contains b), s)
  | .pinsNew tx => s.pinsNew tx
  | .pinsDrop tx | .pinsRelease tx => s.onEngine (s.engine.atDesk fun d => d.releaseAll tx)
  | .pinsRefs tx b => (.number ((s.engine.desk.pinsOf tx).refs b), s)
  | .pinsHeld tx => (.blocks (s.engine.desk.pinsOf tx).held, s)
  | .pinsFlush tx => s.onEngine (s.engine.atDesk fun d => d.flushMine tx)
  | .pinsText tx => (.text (Describe.pins tx (s.engine.desk.pinsOf tx)), s)
  | .heldFrame p b name => s.heldFrame (s.party p) b name
  | .unpin p b => s.onEngine (s.engine.unpin (s.party p) b)
  | .line =>
    (.line s.engine.desk.maxWait s.engine.desk.window s.engine.desk.line.waiting, s)
  | .wakeHead => (.ok, { s with engine := { s.engine with desk := s.engine.desk.wakeHead } })
  | .waiting => (.number s.engine.desk.line.waiting, s)
  | .run job => s.runJob job
  | .release t tx m => (.ok, s.onLocks fun l => l.release t tx m)
  | .releaseAll tx sharedOnly => (.ok, s.onLocks fun l => l.releaseAll tx sharedOnly)
  | .holds t tx m => (.flag (s.engine.locks.holds t tx m), s)
  | .modes t tx => (.texts ((s.engine.locks.modesOf t tx).map Mode.name), s)
  | .locked tx => (.texts ((s.engine.locks.lockedTargets tx).map Target.text), s)
  | .doomed tx => (.flag (s.engine.locks.isDoomed tx), s)
  | .tableText => (.text (Describe.lockTable s.engine.locks), s)
  | .enroll tx level => (.ok, { s with engine := s.engine.enroll tx level })
  | .endStatement p => (.ok, { s with engine := s.engine.endStatement (s.party p) })
  | .releaseLocks p => (.ok, { s with engine := s.engine.releaseLocks (s.party p) })
  | .isolation p => (.text (s.engine.isolation (s.party p)).text, s)
  | .number p => (.number (s.party p).num, s)
  | .begin name level => s.begin name level
  | .commit p => s.onEngine (s.engine.commit (s.party p))
  | .rollback p => s.onEngine (s.engine.rollback (s.party p))
  | .drop name => s.drop name
  | .status p =>
    let tx := s.party p
    (.status tx (s.engine.isolation tx) (s.engine.isFinished tx), s)
  | .transactionText p =>
    let tx := s.party p
    (.text (Describe.transaction tx (s.engine.isolation tx) (s.engine.desk.pinsOf tx)
      (s.engine.isFinished tx)), s)
  | .sizes => (.numbers [s.engine.pool.size, s.engine.media.disk.blockSize], s)
  | .start id (.run job) =>
    let r := s.startJob job
    (.started, r.2.inBackground id r.1)
  | .start id c =>
    let r := s.step c
    (.started, r.2.keepReply id r.1)
  | .join id => (.ok, s.join id)
  | .sleep time => (.ok, s.sleep time)
  | .reopen changes pooled => s.reopen (s.first.change changes pooled)

/-- Waiting for a job is when a timed session tells which jobs have ended. -/
def isJoin : Command → Bool
  | .join _ => true
  | _ => false

def report (s : Session) (c : Command) : Report × Session :=
  let r := s.step c
  let s' := r.2.settle
  let busy := !s.background.isEmpty || !s'.background.isEmpty
  let tells := busy && (!s.timed || isJoin c)
  let (ended, s') := if tells then
    let r := s'.collect
    (some r.1, r.2)
  else (none, s')
  let available := some s'.engine.pool.available
  let targets := some s'.engine.locks.targetCount
  let base : Report := match s'.topic with
    | .storage pooled =>
      { reply := r.1
        available := if pooled && !s.timed then available else none
        waiting := if busy && pooled && !s.timed then some s'.engine.desk.line.waiting else none }
    | .locks => { reply := r.1, targets }
    | .engine =>
      { reply := r.1, available := if s.timed then none else available, targets
        durable := some s'.engine.media.log.durable }
  ({ base with ended }, s')

def reports : List Command → Session → List Report
  | [], _ => []
  | c :: cs, s =>
    let r := s.report c
    r.1 :: reports cs r.2

end Session

end PagedStore
