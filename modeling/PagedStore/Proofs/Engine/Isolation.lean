import PagedStore.Proofs.Engine.Commit
import PagedStore.Proofs.Engine.Guarded

set_option autoImplicit false

/-!
Runs of transactions that use locks only in their own operations. Main statement:
`isolated_accesses`. Nobody reads or writes a record that another transaction wrote and has not let
go of: the writer's lock on the record stays until it ends.
-/

namespace PagedStore

/-- What a transaction did to a record. -/
inductive Access where
  | read (r : RecordId) (offset : Nat) (kind : Kind) (v : Value)
  | write (r : RecordId) (offset : Nat) (v : Value)
  deriving DecidableEq

namespace Access

def record : Access → RecordId
  | .read r _ _ _ | .write r _ _ => r

def mode : Access → Mode
  | .read _ _ _ _ => .s
  | .write _ _ _ => .x

theorem not_compatible_x (x : Access) : x.mode.compatible .x = false := by cases x <;> rfl

end Access

def Work.access? : Work → Progress → Option Access
  | .read r offset kind, .done (.ok (.value v)) => some (.read r offset kind v)
  | .write r offset v, .done (.ok _) => some (.write r offset v)
  | _, _ => none

theorem Work.access?_eq_some {w : Work} {p : Progress} {x : Access} (h : w.access? p = some x) :
    p.isOk ∧ ∀ level, (w.asks level).getLast? = some (.acquire (.record x.record) x.mode) := by
  unfold access? at h
  split at h
  · cases h
    exact ⟨rfl, fun _ => rfl⟩
  · cases h
    exact ⟨rfl, fun _ => rfl⟩
  · cases h

namespace Running

variable {early : Prop} {r : Running}

/-- The access that an act makes, and who makes it. -/
def access? (r : Running) : Act → Option (TxId × Access)
  | .request k q => (q.work.access? (r.engine.request k q).1).map fun x => (k.tx, x)
  | .resume id expired =>
    (r.engine.suspended.find? id).bind fun s =>
      (s.wait.work.access? (r.engine.resume id expired).1).map fun x => (s.tx, x)
  | _ => none

def accesses (r : Running) : List Act → List (TxId × Access)
  | [] => []
  | a :: as => (r.access? a).toList ++ (r.step a).accesses as

/-- Locks are asked for and given back only in the operations of transactions that have begun, and
an operation is one act as long as it does not wait. `early` says that a transaction may release
blocks before it ends. -/
def Uses (early : Prop) (r : Running) : Act → Prop
  | .request k q => r.engine.Begun k.tx ∧ r.engine.Owns early k.tx q
  | .commit tx | .rollback tx | .drop tx => r.engine.Begun tx
  | .releaseLocks tx => r.engine.isFinished tx
  | .enroll _ _ | .logWrite _ _ _ _ | .applyWrite _ => False
  | _ => True

def Disciplined (early : Prop) (r : Running) : List Act → Prop
  | [] => True
  | a :: as => r.Uses early a ∧ (r.step a).Disciplined early as

theorem disciplined_append {acts acts' : List Act} (h : r.Disciplined early (acts ++ acts')) :
    r.Disciplined early acts ∧ (r.run acts).Disciplined early acts' := by
  induction acts generalizing r with
  | nil => exact ⟨trivial, h⟩
  | cons a as ih =>
    obtain ⟨hu, h⟩ := h
    obtain ⟨h₁, h₂⟩ := ih h
    exact ⟨⟨hu, h₁⟩, h₂⟩

theorem guarded_step (h : r.engine.Guarded early) {a : Act} (hu : r.Uses early a) :
    r.engine.Passes early (r.step a).engine ∧ (r.step a).engine.Guarded early := by
  cases a with
  | begin level => exact h.begin level
  | enroll tx level => exact hu.elim
  | request k q =>
    have ha := h.request k hu.1 hu.2
    exact ⟨ha.passes, ha.guarded⟩
  | resume id expired =>
    cases hs : r.engine.suspended.find? id with
    | none =>
      simp only [step, Engine.resume, hs]
      exact ⟨.refl _, h⟩
    | some s =>
      have ha := h.resume expired hs
      exact ⟨ha.passes, ha.guarded⟩
  | logWrite tx record offset v => exact hu.elim
  | applyWrite place => exact hu.elim
  | endStatement tx => exact h.endStatement tx
  | releaseLocks tx => exact h.releaseLocks hu
  | commit tx => exact h.commit hu
  | rollback tx => exact h.rollback hu
  | drop tx => exact h.drop hu
  | deliver => exact h.deliver
  | _ => exact h.onBeside (Engine.beside_desk _ _)

theorem guarded_run (h : r.engine.Guarded early) {acts : List Act}
    (hd : r.Disciplined early acts) :
    r.engine.Passes early (r.run acts).engine ∧ (r.run acts).engine.Guarded early := by
  induction acts generalizing r with
  | nil => exact ⟨.refl _, h⟩
  | cons a as ih =>
    obtain ⟨hu, hd⟩ := hd
    obtain ⟨hp, hg⟩ := guarded_step h hu
    obtain ⟨hps, hgs⟩ := ih hg hd
    exact ⟨hp.trans hps, hgs⟩

theorem underway_access (h : r.engine.Guarded early) {a : Act} (hu : r.Uses early a) {tx : TxId}
    {x : Access} (hx : r.access? a = some (tx, x)) : ∃ w : Work, (∃ p, w.access? p = some x) ∧
      (r.step a).engine.locks.Underway tx ((r.step a).engine.MayLose early tx)
        (w.asks ((r.step a).engine.isolation tx)) [] := by
  cases a with
  | request k q =>
    obtain ⟨y, hy, he⟩ := Option.map_eq_some_iff.1 hx
    cases he
    have ha := h.request k hu.1 hu.2
    exact ⟨q.work, ⟨_, hy⟩, ha.held (Work.access?_eq_some hy).1⟩
  | resume id expired =>
    obtain ⟨s, hs, hx⟩ := Option.bind_eq_some_iff.1 hx
    obtain ⟨y, hy, he⟩ := Option.map_eq_some_iff.1 hx
    cases he
    have ha := h.resume expired hs
    exact ⟨s.wait.work, ⟨_, hy⟩, ha.held (Work.access?_eq_some hy).1⟩
  | _ => cases hx

theorem covers_access (h : r.engine.Guarded early) {a : Act} (hu : r.Uses early a) {tx : TxId}
    {x : Access} (hx : r.access? a = some (tx, x)) :
    ((r.step a).engine.locks.holders (.record x.record)).covers tx x.mode := by
  obtain ⟨w, ⟨p, hp⟩, hw⟩ := underway_access h hu hx
  rcases hw.last _ _ ((Work.access?_eq_some hp).2 _) with hlast | ⟨-, hc⟩
  · cases hlast
  · exact hc

end Running

theorem Mode.eq_x_of_covers {n : Mode} (h : n.covers .x) : n = .x := by
  cases n <;> first | rfl | cases h

theorem Engine.Passes.covers_x {early : Prop} {e e' : Engine} (h : e.Passes early e') {u : TxId}
    {r : RecordId} (hx : (e.locks.holders (.record r)).covers u .x) :
    e'.isFinished u ∨ (e'.locks.holders (.record r)).covers u .x := by
  rcases h.locks.covers hx with hc | ⟨n, hn, hl⟩
  · exact .inr hc
  · rcases hl with hf | ⟨-, hm⟩ | ⟨-, b, hb⟩
    · exact .inl hf
    · cases Mode.eq_x_of_covers hn
      cases hm
    · cases hb

namespace Running

variable {early : Prop} {r : Running}

/-- All along a run every writer that has not ended has its records locked. -/
theorem covers_writes (h : r.engine.Guarded early) {acts : List Act}
    (hd : r.Disciplined early acts) {u : TxId} {record : RecordId} {offset : Nat} {v : Value}
    (hw : (u, .write record offset v) ∈ r.accesses acts) :
    (r.run acts).engine.isFinished u ∨
      ((r.run acts).engine.locks.holders (.record record)).covers u .x := by
  induction acts generalizing r with
  | nil => cases hw
  | cons a as ih =>
    obtain ⟨hu, hd⟩ := hd
    have hg := (guarded_step h hu).2
    rcases List.mem_append.1 hw with hhead | htail
    · have hc := covers_access h hu (Option.mem_toList.1 hhead)
      exact (guarded_run hg hd).1.covers_x hc
    · exact ih hg hd htail

end Running

/-- In every run of transactions that use locks only in their own operations: when one of them has
read or written a record, all others that wrote the record before have ended. -/
theorem isolated_accesses {settings : Settings} {disk : Disk} {e : Engine}
    (h : Engine.create settings disk = .ok e) {acts : List Act} {a : Act}
    (hd : Running.Disciplined True ⟨e, []⟩ (acts ++ [a])) {tx : TxId} {x : Access}
    (hx : (Running.run ⟨e, []⟩ acts).access? a = some (tx, x)) {u : TxId} (hne : u ≠ tx)
    {offset : Nat} {v : Value}
    (hw : (u, .write x.record offset v) ∈ Running.accesses ⟨e, []⟩ acts) :
    (Running.run ⟨e, []⟩ (acts ++ [a])).engine.isFinished u := by
  obtain ⟨hd₁, hu, -⟩ := Running.disciplined_append hd
  have hg : e.Guarded True := Engine.guarded_create h
  have hg₁ := (Running.guarded_run (r := ⟨e, []⟩) hg hd₁).2
  obtain ⟨hp₂, hg₂⟩ := Running.guarded_step hg₁ hu
  have hmine := Running.covers_access hg₁ hu hx
  rw [Running.run_append]
  show ((Running.run ⟨e, []⟩ acts).step a).engine.isFinished u
  rcases Running.covers_writes (r := ⟨e, []⟩) hg hd₁ hw with hf | hc
  · exact hp₂.finished u hf
  · rcases hp₂.covers_x hc with hf | hc
    · exact hf
    · have hno := hg₂.compatible.of_covers (Ne.symm hne) hmine hc
      rw [x.not_compatible_x] at hno
      cases hno

def waitedFor : List Act :=
  bothPinned ++ [firstWrite, .request ⟨3, ⟨2⟩⟩ (.read ⟨⟨"f", 0⟩, 0⟩ 0 .int), .commit ⟨1⟩]

def readerWoken : Act := .resume 3 false

theorem isolated_accesses_waited : Engine.create paired oneBlock = .ok (opened oneBlock) ∧
    (Running.run ⟨opened oneBlock, []⟩ waitedFor).access? readerWoken =
      some (⟨2⟩, .read ⟨⟨"f", 0⟩, 0⟩ 0 .int (.int 7)) ∧
    (⟨1⟩, .write ⟨⟨"f", 0⟩, 0⟩ 0 (.int 7)) ∈ Running.accesses ⟨opened oneBlock, []⟩ waitedFor ∧
    (Running.run ⟨opened oneBlock, []⟩ (waitedFor ++ [readerWoken])).engine.isFinished ⟨1⟩ := by
  have hd : Running.Disciplined True ⟨opened oneBlock, []⟩ (waitedFor ++ [readerWoken]) := by
    simp only [waitedFor, bothPinned, firstWrite, readerWoken, List.cons_append, List.nil_append,
      Running.Disciplined, Running.Uses, Engine.Owns, true_and, and_true]
    refine ⟨?_, ?_, ?_, ?_, ?_⟩
    · decide +kernel
    · decide +kernel
    · decide +kernel
    · decide +kernel
    · decide +kernel
  have hx : (Running.run ⟨opened oneBlock, []⟩ waitedFor).access? readerWoken =
      some (⟨2⟩, .read ⟨⟨"f", 0⟩, 0⟩ 0 .int (.int 7)) := by decide +kernel
  have hw : (⟨1⟩, .write ⟨⟨"f", 0⟩, 0⟩ 0 (.int 7)) ∈
      Running.accesses ⟨opened oneBlock, []⟩ waitedFor := by decide +kernel
  have hopen : Engine.create paired oneBlock = .ok (opened oneBlock) := rfl
  exact ⟨hopen, hx, hw, isolated_accesses hopen hd hx (by decide) hw⟩

end PagedStore
