import PagedStore.Session.Command
import PagedStore.Text.Describe

set_option autoImplicit false

/-!
A session over one engine: named frames and transactions, background jobs, and a clock. Time passes
only while a session sleeps or waits for a job, so what happens in a session is determined by its
commands.
-/

namespace PagedStore

/-- What a session is about, which decides what its reports show. -/
inductive Topic where
  | storage (pooled : Bool)
  | locks
  | engine
  deriving DecidableEq

structure Opening where
  topic : Topic
  settings : Settings

namespace Opening

/-- A session about storage alone needs no more than one place to wait for locks, and for one
wakeup. Without a pool it has no frames. -/
def storage (s : Settings) (pooled : Bool) (disk : Disk) : Outcome Engine :=
  if pooled then Engine.create { s with anchors := 1, wakeups := 1 } disk
  else
    .ok {
      desk := {
        store := {
          media := { disk := disk.reopen s.blockSize, log := .empty }
          pool := { frames := [], free := 0, lastClaimed := 0 } }
        maxWait := s.maxWait, window := s.window }
      locks := { anchors := 1, maxWait := s.maxWait, wakeups := { capacity := 1 } } }

/-- A session about locks alone needs no more than one small frame. -/
def locks (s : Settings) (disk : Disk) : Outcome Engine :=
  Engine.create { s with poolSize := 1, stripes := 1, blockSize := 64 } disk

/-- The engine of a session opened so, over the files of `disk`. -/
def engine (o : Opening) (disk : Disk) : Outcome Engine :=
  match o.topic with
  | .storage pooled => storage o.settings pooled disk
  | .locks => locks o.settings disk
  | .engine => Engine.create o.settings disk

def change (o : Opening) (changes : List (Setting × Nat)) (pooled : Option Bool) : Opening where
  topic := match o.topic with
    | .storage before => .storage (pooled.getD before)
    | topic => topic
  settings := o.settings.setAll changes

end Opening

inductive NamedFrame where
  | bare (f : Frame)
  | pooled (i : Nat)

/-- When a waiting task looks again by itself, and when its wait is over. -/
structure Nap where
  next : Nat
  deadline : Nat

structure Background where
  id : String
  task : Nat

structure Session where
  /-- How it was opened first. Every reopening changes some of this, whatever came between. -/
  first : Opening
  topic : Topic
  timed : Bool
  engine : Engine
  frames : Registry String NamedFrame := .empty
  names : Registry String TxId := .empty
  clock : Nat := 0
  nextTask : Nat := 0
  naps : Registry Nat Nap := .empty
  /-- Tasks that show their value without its kind. -/
  bare : List Nat := []
  /-- Replies of tasks that have ended, until they are asked for. -/
  replies : Registry Nat Reply := .empty
  background : List Background := []

namespace Session

/-- The length of the path of a session's directory. -/
def scratchBytes : Nat := 16

def create (o : Opening) (timed : Bool) : Outcome Session :=
  (o.engine { blockSize := o.settings.blockSize, directoryBytes := scratchBytes }).map fun engine =>
    { first := o, topic := o.topic, timed, engine }

def party (s : Session) : Party → TxId
  | .number tx => tx
  | .named name => (s.names.find? name).getD ⟨0⟩

def frameReply (s : Session) (i : Nat) : Reply :=
  match s.engine.frame? i with
  | none => .nothing
  | some f => .frame f.info

def answerReply (s : Session) (bare : Bool) : Answer → Reply
  | .done => .ok
  | .frame i => s.frameReply i
  | .block b => .block b
  | .number n => .number n
  | .value v => if bare then .bare v else .value v

def newNap (s : Session) : Wait → Nap
  | .onLock .. => ⟨s.clock + s.engine.locks.maxWait, s.clock + s.engine.locks.maxWait⟩
  | .onFrame ⟨_, .pausing _⟩ _ => ⟨s.clock + s.engine.desk.window, s.clock + s.engine.desk.window⟩
  | .onFrame .. =>
    let deadline := s.clock + s.engine.desk.maxWait
    ⟨min deadline (s.clock + max 1 s.engine.desk.window), deadline⟩

def nextNap (s : Session) (nap : Nap) : Nap :=
  { nap with next := min nap.deadline (s.clock + max 1 s.engine.desk.window) }

def note (s : Session) (id : Nat) (r : Progress × Engine) : Session :=
  let s := { s with engine := r.2 }
  match r.1 with
  | .done o =>
    let reply := Reply.ofOutcome (s.answerReply (s.bare.contains id)) o
    { s with naps := s.naps.erase id, replies := s.replies.insert id reply }
  | .waits =>
    match s.engine.suspended.find? id with
    | none => s
    | some w => { s with naps := s.naps.insert id (s.newNap w.wait) }
  | .sleepsOn =>
    match s.engine.suspended.find? id, s.naps.find? id with
    | some ⟨_, .onFrame ..⟩, some nap => { s with naps := s.naps.insert id (s.nextNap nap) }
    | _, _ => s

def wake (s : Session) (id : Nat) : Session :=
  let expired := ((s.naps.find? id).map fun nap => decide (nap.deadline ≤ s.clock)).getD false
  s.note id (s.engine.resume id expired)

def taskWith? (s : Session) (test : Wait → Bool) : Option Nat :=
  (s.engine.suspended.entries.find? fun e => test e.2.wait).map Prod.fst

def forLock (ticket : Nat) : Wait → Bool
  | .onLock t .. => t = ticket
  | .onFrame .. => false

def inLine (ticket : Nat) : Wait → Bool
  | .onLock .. => false
  | .onFrame ⟨_, stage⟩ _ =>
    match stage with
    | .first t | .regaining t .. | .last t => t = ticket
    | .pausing _ => false

/-- One thing that happens without any time passing: a wakeup is delivered, or somebody who was
woken looks again. -/
def stir? (s : Session) : Option Session :=
  if s.engine.locks.wakeups.queue ≠ [] then
    some { s with engine := { s.engine with locks := s.engine.locks.deliver } }
  else
    let notified := (s.engine.locks.sleepers.filter Sleeper.notified).map Sleeper.ticket
    match notified.findSome? fun t => s.taskWith? (forLock t) with
    | some id => some (s.wake id)
    | none =>
      match s.engine.desk.line.signalled.findSome? fun t => s.taskWith? (inLine t) with
      | some id => some (s.wake id)
      | none => none

def stir : Nat → Session → Session
  | 0, s => s
  | fuel + 1, s =>
    match s.stir? with
    | none => s
    | some s => stir fuel s

/-- Enough for every task to look again at each wakeup, and for each wakeup to cause others. -/
def stirFuel (s : Session) : Nat :=
  let n := s.engine.suspended.size + s.engine.locks.wakeups.queue.length + 2
  100 * n * n

/-- Lets everybody who was woken look, until all sleep. -/
def calm (s : Session) : Session := s.stir s.stirFuel

/-- The task that looks next by itself, of several the one that began to wait first. -/
def soonest? (s : Session) : Option (Nat × Nat) :=
  s.naps.entries.foldr
    (fun e best =>
      match best with
      | some b => if e.2.next < b.1 then some (e.2.next, e.1) else best
      | none => some (e.2.next, e.1))
    none

/-- Lets time pass until the next task looks by itself, but not past `limit`. -/
def pass? (s : Session) (limit : Option Nat) : Option Session :=
  match s.soonest? with
  | none => none
  | some (time, id) =>
    if limit.any (· < time) then none
    else some ({ s with clock := max s.clock time }.wake id).calm

def passTo (limit : Nat) : Nat → Session → Session
  | 0, s => s
  | fuel + 1, s =>
    match s.pass? (some limit) with
    | none => s
    | some s => passTo limit fuel s

def sleep (s : Session) (time : Nat) : Session :=
  let limit := s.clock + time
  { s.passTo limit ((time + 2) * (s.naps.size + 1)) with clock := limit }

def settle (s : Session) : Session := s.calm.sleep 0

def passUntilReply (id : Nat) : Nat → Session → Session
  | 0, s => s
  | fuel + 1, s =>
    if s.replies.contains id then s
    else
      match s.pass? none with
      | none => s
      | some s => passUntilReply id fuel s

/-- No task waits longer than this many looks of all tasks together. -/
def patience (s : Session) : Nat :=
  (s.engine.desk.maxWait + s.engine.desk.window + s.engine.locks.maxWait + 3) *
    (s.engine.pool.size + 4) * (s.naps.size + 1)

def await (s : Session) (id : Nat) : Session := s.passUntilReply id s.patience

def startJob (s : Session) (job : Job) : Nat × Session :=
  let id := s.nextTask
  let s := { s with nextTask := id + 1, bare := if job.bare then id :: s.bare else s.bare }
  (id, s.note id (s.engine.request ⟨id, s.party job.party⟩ job.request))

def takeReply (s : Session) (id : Nat) : Reply × Session :=
  ((s.replies.find? id).getD .nothing, { s with replies := s.replies.erase id })

def runJob (s : Session) (job : Job) : Reply × Session :=
  let r := s.startJob job
  (r.2.calm.await r.1).takeReply r.1

def collect (s : Session) : List (String × Reply) × Session :=
  let ended := s.background.filter fun b => s.replies.contains b.task
  (ended.map fun b => (b.id, ((s.replies.find? b.task).getD .nothing).inBackground),
    { s with
      background := s.background.filter fun b => !s.replies.contains b.task
      replies := ended.foldl (fun r b => r.erase b.task) s.replies })

end Session

end PagedStore
