import PagedStore.Proofs.Engine.Accounted
import PagedStore.Proofs.Engine.Commit
import PagedStore.Proofs.Pool.Counted

set_option autoImplicit false

/-!
What is left when every transaction has ended: nothing. Main statement: `nothing_left`. However its
operations failed, a transaction that was committed, rolled back or dropped has given back every
frame and every lock, and no trace of it stays in line.
-/

namespace PagedStore

theorem Engine.kept_size (n : Nat) : Engine.Kept fun s => s.pool.size = n where
  still hst hs := by
    have hlen := congrArg List.length hst.frames
    rw [List.length_map, List.length_map] at hlen
    exact hlen.trans hs
  flush {s} i hs := (s.related_flushFrame i).size.trans hs
  refill {s i f} w hi hc hs := by
    show (s.pool.frames.set i _).length = n
    rw [List.length_set]
    exact hs
  length file hs := hs
  append record hs := hs
  flushLog lsn hs := hs
  apply w hw hr hs := (Store.related_editFrame hr).size.trans hs
  outage o hs := hs
  fault cause hs := hs

namespace Engine

theorem Accounted.cleared {size : Nat} {e : Engine} (h : e.Accounted size)
    (hend : ∀ tx, e.Begun tx → e.isFinished tx) :
    e.pool.free = e.pool.size ∧ (∀ (i : Nat) f, e.pool.frames[i]? = some f → f.pins = 0) ∧
      e.locks.targetCount = 0 ∧ e.locks.doomed = [] ∧
      e.desk.line.waiters = [] ∧ e.desk.line.waiting = 0 := by
  obtain ⟨hdesk, hlocks, hholding, hparked, -, hqueued, -⟩ :=
    h.books.mono (Q := fun _ => False) fun tx ⟨hb, hf⟩ =>
      Bool.eq_false_iff.1 hf (hend tx hb)
  have hholds : ∀ i, 0 = e.desk.holders i := fun i =>
    (Desk.holders_eq_zero (fun tx b =>
      Option.eq_none_iff_forall_ne_some.2 fun j hj => hholding tx b j hj) i).symm
  obtain ⟨hfree, hpins⟩ := (hdesk.even.congr hholds).free
  have hnobody : ∀ k, k ∉ e.desk.line.tickets := fun k hk => by
    obtain ⟨s, hknown, -⟩ := hqueued k hk
    obtain ⟨id, hs⟩ := hknown.resolve_left nofun
    exact (hparked id s hs).1
  have hline : e.desk.line.waiters = [] :=
    List.map_eq_nil_iff.1 (List.eq_nil_iff_forall_not_mem.2 hnobody)
  refine ⟨hfree, hpins, hlocks.vacant.1, hlocks.vacant.2, hline, ?_⟩
  rw [hdesk.measured, hline]
  rfl

end Engine

namespace Running

variable {size : Nat} {r : Running}

/-- What an engine admits. Transactions have begun; one that asks for a frame, gives one back or
ends is not asking for another in the meantime, and one that ends has nothing at all under way; and
one that has ended does not ask for locks. -/
def Admits (r : Running) : Act → Prop
  | .request k q =>
    r.engine.Begun k.tx ∧ r.engine.suspended.find? k.id = none ∧
      (q.isDirect → r.engine.isFinished k.tx = false) ∧
      ∀ w ∈ q.wanted?,
        Clear r.engine.suspended k.tx ∧ r.engine.Fair w (r.engine.request k q).1
  | .resume id expired =>
    ∀ s ∈ r.engine.suspended.find? id, ∀ w ∈ s.wait.wanted?,
      r.engine.Fair w (r.engine.resume id expired).1
  | .unpin tx _ => Clear r.engine.suspended tx
  | .commit tx | .rollback tx | .drop tx => r.engine.Begun tx ∧ r.engine.Idle tx
  | .enroll _ _ | .poolPin _ | .poolUnpin _ => False
  | _ => True

instance (r : Running) : (a : Act) → Decidable (r.Admits a)
  | .request _ _ => inferInstanceAs (Decidable (_ ∧ _ ∧ (_ → _) ∧ ∀ w ∈ _, _ ∧ _))
  | .resume _ _ => inferInstanceAs (Decidable (∀ s ∈ _, ∀ w ∈ _, _))
  | .unpin _ _ => inferInstanceAs (Decidable (Clear _ _))
  | .commit _ | .rollback _ | .drop _ => inferInstanceAs (Decidable (_ ∧ _))
  | .enroll _ _ | .poolPin _ | .poolUnpin _ => inferInstanceAs (Decidable False)
  | .begin _ | .logWrite _ _ _ _ | .applyWrite _ | .endStatement _ | .releaseLocks _ | .flushMine _
  | .flush _ | .flushAll | .flushFor _ | .append _ | .flushLog _ | .length _ | .outage _ | .fault _
  | .deliver => inferInstanceAs (Decidable True)

def Regular (r : Running) : List Act → Prop
  | [] => True
  | a :: as => r.Admits a ∧ (r.step a).Regular as

instance decidableRegular : (r : Running) → (acts : List Act) → Decidable (r.Regular acts)
  | _, [] => isTrue trivial
  | r, a :: as =>
    have := decidableRegular (r.step a) as
    inferInstanceAs (Decidable (r.Admits a ∧ (r.step a).Regular as))

def ends? (r : Running) : Act → Option TxId
  | .commit tx => if (r.engine.commit tx).1.isOk then some tx else none
  | .rollback tx => if (r.engine.rollback tx).1.isOk then some tx else none
  | .drop tx => some tx
  | _ => none

def ended (r : Running) : List Act → List TxId
  | [] => []
  | a :: as => (r.ends? a).toList ++ (r.step a).ended as

theorem onward_step (h : r.engine.Accounted size) {a : Act} (ha : r.Admits a) :
    Engine.Onward size r.engine (r.step a).engine := by
  have hstore := fun s hf => h.onward (h.onStore ⟨0⟩ (s := s) hf)
  have hmedia := fun m hm => h.onward (h.onMedia (m := m) hm)
  cases a with
  | begin level => exact h.begin level
  | enroll tx level => exact ha.elim
  | request k q =>
    obtain ⟨hb, hnew, hdirect, hwanted⟩ := ha
    exact h.onward (h.request k hb hnew q hdirect hwanted)
  | resume id expired => exact h.onward (h.resume id expired fun s w hs => ha s hs w)
  | logWrite tx record offset v =>
    have hw := h.onward (h.logWrite tx record offset v)
    simp only [step]
    generalize r.engine.logWrite tx record offset v = q at hw
    obtain ⟨q, e⟩ := q
    cases q <;> exact hw
  | applyWrite place =>
    simp only [step]
    split
    · exact h.onward ⟨h.books, .refl _⟩
    · rename_i w _
      exact h.onward (h.applyWrite w)
  | unpin tx b => exact h.onward (h.unpin tx b ha)
  | endStatement tx => exact h.onward (h.endStatement tx)
  | releaseLocks tx => exact h.onward (h.releaseLocks tx false)
  | commit tx => exact h.commit ha.1 ha.2
  | rollback tx => exact h.rollback ha.1 ha.2
  | drop tx => exact (h.drop ha.1 ha.2).1
  | flushMine tx => exact h.onward (h.flushMine tx)
  | poolPin w => exact ha.elim
  | poolUnpin i => exact ha.elim
  | flush i => exact hstore _ (h.books.desk.flushed i)
  | flushAll => exact hstore _ (h.books.desk.flushWhere _)
  | flushFor tx => exact hstore _ (h.books.desk.flushWhere _)
  | append record => exact hmedia _ (.refl _)
  | flushLog lsn => exact hmedia _ (.refl _)
  | length file => exact hmedia _ (r.engine.media.disk.same_length file)
  | outage o => exact hmedia _ (.refl _)
  | fault cause => exact hmedia _ ⟨rfl, fun _ => rfl⟩
  | deliver => exact h.onward h.deliver

theorem finished_of_ends (h : r.engine.Accounted size) {a : Act} (ha : r.Admits a) {tx : TxId}
    (he : r.ends? a = some tx) : (r.step a).engine.isFinished tx := by
  have hok : ∀ q : Outcome Unit, q.isOk → q = .ok () := fun q hq => by
    cases q with
    | error err => cases hq
    | ok u => rfl
  cases a with
  | commit u =>
    simp only [ends?, Option.ite_none_right_eq_some, Option.some.injEq] at he
    obtain ⟨hq, rfl⟩ := he
    exact Engine.finished_commit ha.1 (hok _ hq)
  | rollback u =>
    simp only [ends?, Option.ite_none_right_eq_some, Option.some.injEq] at he
    obtain ⟨hq, rfl⟩ := he
    exact Engine.finished_rollback ha.1 (hok _ hq)
  | drop u =>
    cases he
    exact (h.drop ha.1 ha.2).2
  | _ => cases he

/-- All along a run the accounts are in order, and who has ended stays so. -/
theorem onward_run (h : r.engine.Accounted size) {acts : List Act} (hr : r.Regular acts) :
    Engine.Onward size r.engine (r.run acts).engine := by
  induction acts generalizing r with
  | nil => exact ⟨h, fun _ => id⟩
  | cons a as ih =>
    obtain ⟨ha, hr⟩ := hr
    have hstep := onward_step h ha
    have hrest := ih hstep.accounted hr
    exact ⟨hrest.accounted, fun u hu => hrest.finished u (hstep.finished u hu)⟩

theorem finished_of_ended (h : r.engine.Accounted size) {acts : List Act} (hr : r.Regular acts)
    {tx : TxId} (he : tx ∈ r.ended acts) : (r.run acts).engine.isFinished tx := by
  induction acts generalizing r with
  | nil => cases he
  | cons a as ih =>
    obtain ⟨ha, hr⟩ := hr
    have hstep := (onward_step h ha).accounted
    rcases List.mem_append.1 he with hhead | htail
    · exact (onward_run hstep hr).finished tx (finished_of_ends h ha (Option.mem_toList.1 hhead))
    · exact ih hstep hr htail

end Running

/-- Nothing leaks. When every transaction that began in a run has been committed, rolled back or
dropped, all frames are available and have no pins, no target is locked, nobody is doomed and
nobody is in line. -/
theorem nothing_left {settings : Settings} {disk : Disk} {e : Engine}
    (h : Engine.create settings disk = .ok e) {acts : List Act}
    (hr : Running.Regular ⟨e, []⟩ acts)
    (hend : ∀ tx, (Running.run ⟨e, []⟩ acts).engine.Begun tx → tx ∈ Running.ended ⟨e, []⟩ acts) :
    let e' := (Running.run ⟨e, []⟩ acts).engine
    e'.pool.available = settings.poolSize ∧
      (∀ (i : Nat) f, e'.pool.frames[i]? = some f → f.pins = 0) ∧
      e'.locks.targetCount = 0 ∧ e'.locks.doomed = [] ∧
      e'.desk.line.waiters = [] ∧ e'.desk.line.waiting = 0 := by
  have hacc := Engine.accounted_create h
  obtain ⟨hfree, hrest⟩ := (Running.onward_run (r := ⟨e, []⟩) hacc hr).accounted.cleared
    fun tx hb => Running.finished_of_ended (r := ⟨e, []⟩) hacc hr (hend tx hb)
  refine ⟨?_, hrest⟩
  obtain ⟨pool, hpool, hstore⟩ := Engine.store_of_create h
  obtain ⟨hsize, -, hlt⟩ := Pool.size_of_create hpool
  have hkept : (Running.run ⟨e, []⟩ acts).store.pool.size = settings.poolSize :=
    Running.kept_run (Engine.kept_size settings.poolSize) (r := ⟨e, []⟩) nofun
      ((congrArg (fun s : Store => s.pool.size) hstore).trans hsize) acts
  have hcount : (Running.run ⟨e, []⟩ acts).engine.pool.free = settings.poolSize :=
    hfree.trans (congrArg Int.ofNat hkept)
  rw [Pool.available, hcount, Int.emod_eq_of_lt (Int.natCast_nonneg _) (Int.ofNat_lt.2 hlt)]
  rfl

/-- The frames run out, and a transaction that gave up what it held gets no other; it is wounded,
and dropped. The other one cannot commit, because its file is full, and is rolled back. -/
def strained : List Act :=
  bothPinned ++
    [.request ⟨2, ⟨1⟩⟩ (.append "f" (.fill 5)), .request ⟨3, ⟨2⟩⟩ (.append "f" (.fill 5)),
      .resume 3 true, .resume 3 false, .resume 3 true,
      .request ⟨4, ⟨2⟩⟩ (.intent (.blockChange ⟨"f", 0⟩)),
      .request ⟨5, ⟨1⟩⟩ (.intent (.blockChange ⟨"f", 0⟩)),
      .request ⟨6, ⟨2⟩⟩ (.intent (.blockChange ⟨"f", 1⟩)), .drop ⟨2⟩, .resume 5 false,
      .request ⟨7, ⟨1⟩⟩ (.write ⟨⟨"f", 1⟩, 0⟩ 0 (.int 7)), .fault (some (.other "full")),
      .commit ⟨1⟩, .rollback ⟨1⟩]

theorem nothing_left_strained : Engine.create paired oneBlock = .ok (opened oneBlock) ∧
    Running.Regular ⟨opened oneBlock, []⟩ strained ∧
    let e' := (Running.run ⟨opened oneBlock, []⟩ strained).engine
    e'.pool.available = 2 ∧ (∀ (i : Nat) f, e'.pool.frames[i]? = some f → f.pins = 0) ∧
      e'.locks.targetCount = 0 ∧ e'.locks.doomed = [] ∧
      e'.desk.line.waiters = [] ∧ e'.desk.line.waiting = 0 := by
  have hopen : Engine.create paired oneBlock = .ok (opened oneBlock) := rfl
  have hr : Running.Regular ⟨opened oneBlock, []⟩ strained := by decide +kernel
  have hend : ∀ tx ∈ (Running.run ⟨opened oneBlock, []⟩ strained).engine.transactions.keys,
      tx ∈ Running.ended ⟨opened oneBlock, []⟩ strained := by decide +kernel
  exact ⟨hopen, hr, nothing_left hopen hr fun tx hb =>
    hend tx ((Registry.find?_isSome_iff _ _).1 hb)⟩

end PagedStore
