import PagedStore.Proofs.Engine.Isolation

set_option autoImplicit false

/-!
Reads that repeat. Main statement: `repeatable_reads`. A transaction that keeps its read locks finds
in a record what it found there before, wherever the block has been meanwhile; that takes files that
have one name each (`not_repeatable_reads`).
-/

namespace PagedStore

namespace Access

def offset : Access → Nat
  | .read _ offset _ _ | .write _ offset _ => offset

def value : Access → Value
  | .read _ _ _ v | .write _ _ v => v

/-- The two go to bytes of one block that both take. -/
def Overlaps (x y : Access) : Prop :=
  x.record.block = y.record.block ∧ x.offset < y.offset + y.value.size ∧
    y.offset < x.offset + x.value.size

instance (x y : Access) : Decidable (x.Overlaps y) :=
  inferInstanceAs (Decidable (_ ∧ _ ∧ _))

/-- Each byte of a block belongs to one record. -/
def Apart (xs : List (TxId × Access)) : Prop :=
  ∀ x ∈ xs, ∀ y ∈ xs, x.2.Overlaps y.2 → x.2.record = y.2.record

instance (xs : List (TxId × Access)) : Decidable (Apart xs) :=
  inferInstanceAs (Decidable (∀ x ∈ xs, ∀ y ∈ xs, _ → _))

end Access

namespace Engine

variable {e : Engine} {k : Task}

theorem readHeld_congr {e' : Engine} (h : e'.desk = e.desk) (tx : TxId) (r : RecordId)
    (offset : Nat) (kind : Kind) :
    e'.readHeld tx r offset kind = e.readHeld tx r offset kind := by
  simp only [readHeld, heldFrame?, frame?, pool, h]

theorem readHeld_of_lockedWork {steps : List LockStep} {r : RecordId} {offset : Nat} {kind : Kind}
    {a : Answer} (h : (e.lockedWork k steps (.read r offset kind)).1 = .done (.ok a)) :
    e.readHeld k.tx r offset kind = .ok a := by
  unfold lockedWork locked at h
  split at h
  · rename_i locks _
    exact Progress.done.inj h
  · cases h
  · cases h

theorem readHeld_of_request {r : RecordId} {offset : Nat} {kind : Kind} {a : Answer}
    (h : (e.request k (.read r offset kind)).1 = .done (.ok a)) :
    e.readHeld k.tx r offset kind = .ok a := by
  simp only [request, active] at h
  split at h
  · cases h
  · exact readHeld_of_lockedWork h

theorem readHeld_of_resume {id : Nat} {s : Suspended} {expired : Bool} {r : RecordId}
    {offset : Nat} {kind : Kind} {a : Answer} (hs : e.suspended.find? id = some s)
    (hw : s.wait.work = .read r offset kind) (h : (e.resume id expired).1 = .done (.ok a)) :
    e.readHeld s.tx r offset kind = .ok a := by
  obtain ⟨tx, wait⟩ := s
  unfold resume at h
  rw [hs] at h
  cases wait with
  | onFrame u thenLock =>
    obtain ⟨wanted, stage⟩ := u
    cases wanted <;> cases hw
  | onLock ticket rest work =>
    obtain rfl : work = .read r offset kind := hw
    dsimp only at h
    split at h
    · cases h
    · split at h
      · rename_i locks _
        have hread := readHeld_of_lockedWork h
        show e.readHeld tx r offset kind = .ok a
        rw [← hread]
        exact (readHeld_congr rfl tx r offset kind).symm
      · cases h
      · cases h
      · cases h

theorem readHeld_eq_ok {tx : TxId} {r : RecordId} {offset : Nat} {kind : Kind} {v : Value}
    (h : e.readHeld tx r offset kind = .ok (.value v)) : ∃ i f,
      e.heldFrame? tx r.block = some (i, f) ∧ f.read offset kind = .ok v := by
  unfold readHeld at h
  split at h
  · cases h
  · rename_i i f hheld
    split at h
    · cases h
    · rename_i w hread
      cases h
      exact ⟨i, f, hheld, hread⟩

end Engine

theorem Work.access?_eq_read {w : Work} {p : Progress} {r : RecordId} {offset : Nat} {kind : Kind}
    {v : Value} (h : w.access? p = some (.read r offset kind v)) :
    w = .read r offset kind ∧ p = .done (.ok (.value v)) := by
  unfold access? at h
  split at h <;> cases h
  exact ⟨rfl, rfl⟩

namespace Running

variable {names : String → Prop} {early : Prop} {book : Book} {r : Running} {tx : TxId}

theorem Sound.shows_held (h : r.Sound names book) {b : BlockId} {i : Nat} {f : Frame}
    (hf : r.engine.heldFrame? tx b = some (i, f)) :
    f.data = book.flat.block b ∧ b.number < book.flat.length b.file := by
  obtain ⟨k, hk, hki⟩ := Engine.frameOf?_of_heldFrame hf
  have hframe : r.engine.desk.store.pool.frames[i]? = some f := by
    unfold Engine.heldFrame? Desk.frameOf? at hf
    rw [hk] at hf
    simp only [Option.map_some, Option.map_eq_some_iff, Prod.mk.injEq] at hf
    obtain ⟨g, hg, rfl, rfl⟩ := hf
    exact hg
  have hplaced := h.steady.placed tx b k hk
  rw [hki, Store.blockAt?_of_frame hframe] at hplaced
  have hs := h.steady.mirrors.shows hframe hplaced
  exact ⟨hs.bytes, h.steady.mirrors.length hs.named ▸ hs.inside⟩

theorem Sound.heldFrame?_of_holds (h : r.Sound names book) {b : BlockId}
    (hb : ((r.engine.desk.pinsOf tx).holds.find? b).isSome) :
    ∃ i f, r.engine.heldFrame? tx b = some (i, f) := by
  obtain ⟨k, hk⟩ := Option.isSome_iff_exists.1 hb
  obtain ⟨f, hf, -⟩ := Option.bind_eq_some_iff.1 (h.steady.placed tx b k hk)
  refine ⟨k.frame, f, ?_⟩
  unfold Engine.heldFrame? Desk.frameOf?
  rw [hk]
  show (r.engine.frame? k.frame).map _ = _
  rw [show r.engine.frame? k.frame = some f from hf]
  rfl

theorem begun_access (h : r.engine.Guarded early) {a : Act} (hu : r.Uses early a) {x : Access}
    (hx : r.access? a = some (tx, x)) : r.engine.Begun tx := by
  cases a with
  | request k q =>
    obtain ⟨y, -, he⟩ := Option.map_eq_some_iff.1 hx
    cases he
    exact hu.1
  | resume id expired =>
    obtain ⟨s, hs, hx⟩ := Option.bind_eq_some_iff.1 hx
    obtain ⟨y, -, he⟩ := Option.map_eq_some_iff.1 hx
    cases he
    exact (h.parked id s hs).1
  | _ => cases hx

theorem readHeld_of_access {a : Act} {record : RecordId} {offset : Nat} {kind : Kind} {v : Value}
    (hx : r.access? a = some (tx, .read record offset kind v)) :
    r.engine.readHeld tx record offset kind = .ok (.value v) := by
  cases a with
  | request k q =>
    obtain ⟨y, hy, he⟩ := Option.map_eq_some_iff.1 hx
    cases he
    obtain ⟨hw, hp⟩ := Work.access?_eq_read hy
    cases q with
    | read r' offset' kind' =>
      cases hw
      exact Engine.readHeld_of_request hp
    | pin u => cases u <;> cases hw
    | _ => cases hw
  | resume id expired =>
    obtain ⟨s, hs, hx⟩ := Option.bind_eq_some_iff.1 hx
    obtain ⟨y, hy, he⟩ := Option.map_eq_some_iff.1 hx
    cases he
    obtain ⟨hw, hp⟩ := Work.access?_eq_read hy
    exact Engine.readHeld_of_resume hs hw hp
  | _ => cases hx

theorem mem_accesses_of_changes {acts : List Act} (hd : r.Disciplined early acts) {b : BlockId}
    {offset : Nat} {v : Value} {lsn? : Option Lsn}
    (h : (tx, .put b offset v lsn?) ∈ r.changes acts) :
    ∃ record : RecordId, record.block = b ∧ (tx, .write record offset v) ∈ r.accesses acts := by
  have hput : ∀ {w : Work} {e : Engine} {q : Progress × Engine},
      w.change? e q = some (.put b offset v lsn?) → ∃ record : RecordId, record.block = b ∧
        w.access? q.1 = some (.write record offset v) := by
    rintro w e ⟨p, e'⟩ hc
    cases w with
    | write record offset' v' =>
      rw [Work.change?] at hc
      split at hc
      · rename_i hok
        cases hc
        refine ⟨record, rfl, ?_⟩
        cases p with
        | done o =>
          cases o with
          | ok a => rfl
          | error err => cases hok
        | waits => cases hok
        | sleepsOn => cases hok
      · cases hc
    | extend file format =>
      rw [Work.change?] at hc
      split at hc <;> cases hc
    | _ => cases hc
  induction acts generalizing r with
  | nil => cases h
  | cons a as ih =>
    rcases List.mem_append.1 h with hhead | htail
    · rw [Option.mem_toList] at hhead
      suffices ha : ∃ record : RecordId, record.block = b ∧
          r.access? a = some (tx, .write record offset v) by
        obtain ⟨record, hb, hx⟩ := ha
        exact ⟨record, hb, List.mem_append_left _ (Option.mem_toList.2 hx)⟩
      cases a with
      | request k q =>
        obtain ⟨y, hy, he⟩ := Option.map_eq_some_iff.1 hhead
        cases he
        obtain ⟨record, hb, hx⟩ := hput hy
        exact ⟨record, hb, by rw [access?, hx]; rfl⟩
      | resume id expired =>
        obtain ⟨s, hs, hx⟩ := Option.bind_eq_some_iff.1 hhead
        obtain ⟨y, hy, he⟩ := Option.map_eq_some_iff.1 hx
        cases he
        obtain ⟨record, hb, hx⟩ := hput hy
        exact ⟨record, hb, by rw [access?, hs, Option.bind_some, hx]; rfl⟩
      | applyWrite place => exact hd.1.elim
      | _ => cases hhead
    · obtain ⟨record, hb, hx⟩ := ih hd.2 htail
      exact ⟨record, hb, List.mem_append_right _ hx⟩

theorem accesses_append (r : Running) (acts acts' : List Act) :
    r.accesses (acts ++ acts') = r.accesses acts ++ (r.run acts).accesses acts' := by
  induction acts generalizing r with
  | nil => rfl
  | cons a as ih =>
    rw [List.cons_append, accesses, ih, accesses, List.append_assoc]
    rfl

end Running

section

variable {e e' : Engine} {tx : TxId}

theorem Engine.not_mayLose (hl : e.isolation tx = .repeatableRead) (hf : ¬ e.isFinished tx)
    {t : Target} {m : Mode} : ¬ e.MayLose False tx t m := by
  rintro (hfin | ⟨hrc, -⟩ | ⟨hearly, -⟩)
  · exact hf hfin
  · rw [hl] at hrc
    cases hrc
  · exact hearly

theorem Engine.Passes.covers_kept (h : e.Passes False e')
    (hl : e'.isolation tx = .repeatableRead) (hf : ¬ e'.isFinished tx) {t : Target} {m : Mode}
    (hc : (e.locks.holders t).covers tx m) : (e'.locks.holders t).covers tx m := by
  rcases h.locks.covers hc with hc | ⟨n, -, hn⟩
  · exact hc
  · exact absurd hn (not_mayLose hl hf)

end

namespace Running

variable {r : Running} {tx : TxId}

/-- What a transaction has read nobody else writes while it keeps its lock. -/
theorem eq_of_write (h : r.engine.Guarded False) {acts : List Act}
    (hd : r.Disciplined False acts) (hb : r.engine.Begun tx)
    (hl : r.engine.isolation tx = .repeatableRead) (hf : ¬ (r.run acts).engine.isFinished tx)
    {record : RecordId} (hc : (r.engine.locks.holders (.record record)).covers tx .s) {u : TxId}
    {offset : Nat} {v : Value} (hw : (u, .write record offset v) ∈ r.accesses acts) : u = tx := by
  induction acts generalizing r with
  | nil => cases hw
  | cons a as ih =>
    obtain ⟨hu, hd⟩ := hd
    obtain ⟨hp, hg⟩ := guarded_step h hu
    have hl' := (hp.isolation tx hb).trans hl
    have hf' : ¬ (r.step a).engine.isFinished tx := fun hfin =>
      hf ((guarded_run hg hd).1.finished tx hfin)
    have hc' := hp.covers_kept hl' hf' hc
    rcases List.mem_append.1 hw with hhead | htail
    · have hx := covers_access h hu (Option.mem_toList.1 hhead)
      refine Decidable.byContradiction fun hne => ?_
      have hno := hg.compatible.of_covers hne hx hc'
      cases hno
    · exact ih hg hd (hp.begun tx hb) hl' hf hc' htail

theorem covers_reread (h : r.engine.Guarded False) {a : Act} {acts : List Act}
    (hd : r.Disciplined False (a :: acts)) {record : RecordId} {offset : Nat} {kind : Kind}
    {v : Value} (hx : r.access? a = some (tx, .read record offset kind v))
    (hl : (r.run (a :: acts)).engine.isolation tx = .repeatableRead)
    (hf : ¬ (r.run (a :: acts)).engine.isFinished tx) :
    (r.step a).engine.isolation tx = .repeatableRead ∧
      ∀ s ∈ (Intent.recordRead record).steps .repeatableRead, ∃ t m, s = .acquire t m ∧
        ((r.run (a :: acts)).engine.locks.holders t).covers tx m := by
  obtain ⟨hu, hd⟩ := hd
  obtain ⟨hp, hg⟩ := guarded_step h hu
  have hps := (guarded_run hg hd).1
  have hb := hp.begun tx (begun_access h hu hx)
  have hl' : (r.step a).engine.isolation tx = .repeatableRead := (hps.isolation tx hb).symm.trans hl
  have hf' : ¬ (r.step a).engine.isFinished tx := fun hfin => hf (hps.finished tx hfin)
  obtain ⟨w, ⟨p, hw⟩, hunder⟩ := underway_access h hu hx
  obtain ⟨rfl, -⟩ := Work.access?_eq_read hw
  rw [hl'] at hunder
  refine ⟨hl', fun s hs => ?_⟩
  have hacquire : ∃ t m, s = .acquire t m := by
    simp only [Intent.steps, Intent.coarse, List.mem_cons, List.not_mem_nil, or_false] at hs
    rcases hs with rfl | rfl | rfl <;> exact ⟨_, _, rfl⟩
  obtain ⟨t, m, rfl⟩ := hacquire
  refine ⟨t, m, rfl, hps.covers_kept hl hf ?_⟩
  rcases hunder.owed t m hs with hmem | hc | ⟨n, -, hlost⟩
  · cases hmem
  · exact hc
  · exact absurd hlost (Engine.not_mayLose hl' hf')

/-- What a transaction has read stays as it is, unless it writes the record itself: writes of other
records miss its bytes. -/
theorem not_hits_of_read (h : r.engine.Guarded False) {a : Act} {acts : List Act}
    (hd : r.Disciplined False (a :: acts)) {record : RecordId} {offset : Nat} {kind : Kind}
    {v : Value} (hx : r.access? a = some (tx, .read record offset kind v))
    (hl : (r.step a).engine.isolation tx = .repeatableRead)
    (hf : ¬ (r.run (a :: acts)).engine.isFinished tx)
    (hapart : Access.Apart (r.accesses (a :: acts)))
    (hmine : ∀ offset' v', (tx, .write record offset' v') ∉ (r.step a).accesses acts) :
    ∀ x ∈ r.changes (a :: acts), ∀ j < v.size, ¬ x.2.Hits record.block (offset + j) := by
  rintro ⟨u, c⟩ hmem j hj hits
  cases c with
  | add file format => exact hits
  | put b offset' v' lsn? =>
    obtain ⟨rfl, hlow, hhigh⟩ := hits
    obtain ⟨record', hblock, hw⟩ := mem_accesses_of_changes hd hmem
    have hread : (tx, Access.read record offset kind v) ∈ r.accesses (a :: acts) :=
      List.mem_append_left _ (Option.mem_toList.2 hx)
    have hover : (Access.write record' offset' v').Overlaps (.read record offset kind v) :=
      ⟨hblock, by dsimp [Access.offset, Access.value]; omega⟩
    obtain rfl : record' = record := hapart _ hw _ hread hover
    rcases List.mem_append.1 hw with hhead | htail
    · rw [hx] at hhead
      cases List.mem_singleton.1 hhead
    · obtain ⟨hp, hg⟩ := guarded_step h hd.1
      obtain rfl := eq_of_write hg hd.2 (hp.begun tx (begun_access h hd.1 hx)) hl hf
        (covers_access h hd.1 hx) htail
      exact hmine _ _ htail

/-- What a block held when a run began is read at its end, where nobody wrote in between. -/
theorem Sound.readHeld {names : String → Prop} (hn : Distinct names) {book : Book}
    (h : r.Sound names book) {acts : List Act} (ho : r.Orderly names acts) {record : RecordId}
    {offset : Nat} {kind : Kind} {v : Value} {tx' : TxId}
    (hread : r.engine.readHeld tx' record offset kind = .ok (.value v))
    (hclear : ∀ x ∈ r.changes acts, ∀ k < v.size, ¬ x.2.Hits record.block (offset + k))
    (hheld : (((r.run acts).engine.desk.pinsOf tx).holds.find? record.block).isSome) :
    (r.run acts).engine.readHeld tx record offset kind = .ok (.value v) := by
  obtain ⟨i, f, hf, hv⟩ := Engine.readHeld_eq_ok hread
  obtain ⟨hdata, hin⟩ := h.shows_held hf
  have hgo := h.run hn ho
  obtain ⟨j, g, hg⟩ := hgo.sound.heldFrame?_of_holds hheld
  obtain ⟨hdata', -⟩ := hgo.sound.shows_held hg
  have hagain : g.read offset kind = .ok v := by
    rw [Frame.read, hdata'] at *
    refine Page.read_congr (hdata ▸ hv) fun k hk => ?_
    rw [Book.flat_after]
    refine Flat.getElem?_payload_replay hgo.takes hin fun x hx => ?_
    obtain ⟨y, hy, rfl⟩ := List.mem_map.1 hx
    exact hclear y hy k hk
  unfold Engine.readHeld
  rw [hg]
  dsimp only
  rw [hagain]

end Running

theorem Engine.request_read_of_covers {e : Engine} {k : Task} {r : RecordId} {offset : Nat}
    {kind : Kind} {a : Answer} (hf : ¬ e.isFinished k.tx)
    (hc : ∀ s ∈ (Intent.recordRead r).steps (e.isolation k.tx), ∃ t m, s = .acquire t m ∧
      (e.locks.holders t).covers k.tx m) (hread : e.readHeld k.tx r offset kind = .ok a) :
    (e.request k (.read r offset kind)).1 = .done (.ok a) := by
  have hdone := LockTable.perform_of_covers hc
  simp only [request, active, if_neg hf, lockedWork, locked]
  split
  · exact congrArg Progress.done hread
  · rename_i err locks hp
    rw [hp] at hdone
    cases hdone
  · rename_i ticket rest locks hp
    rw [hp] at hdone
    cases hdone

/-- In every orderly run of transactions that use locks only in their own operations and do not
release blocks early, over files that have one name each and blocks whose bytes belong to one record
each: when a transaction that keeps its read locks has read a record, has not ended or written the
record since, and holds the block, then reading the record again gives the same value at once. -/
theorem repeatable_reads {names : String → Prop} (hn : Distinct names) {settings : Settings}
    {disk : Disk} {e : Engine} (h : Engine.create settings disk = .ok e) {before between : List Act}
    {a : Act} (ho : Running.Orderly names ⟨e, []⟩ (before ++ a :: between))
    (hd : Running.Disciplined False ⟨e, []⟩ (before ++ a :: between))
    (hapart : Access.Apart (Running.accesses ⟨e, []⟩ (before ++ a :: between))) {tx : TxId}
    {record : RecordId} {offset : Nat} {kind : Kind} {v : Value}
    (hx : (Running.run ⟨e, []⟩ before).access? a = some (tx, .read record offset kind v))
    (hlevel : (Running.run ⟨e, []⟩ (before ++ a :: between)).engine.isolation tx = .repeatableRead)
    (hactive : ¬ (Running.run ⟨e, []⟩ (before ++ a :: between)).engine.isFinished tx)
    (hmine : ∀ offset' v', (tx, .write record offset' v') ∉
      ((Running.run ⟨e, []⟩ before).step a).accesses between)
    (hheld : (((Running.run ⟨e, []⟩ (before ++ a :: between)).engine.desk.pinsOf tx).holds.find?
      record.block).isSome) (id : Nat) :
    ((Running.run ⟨e, []⟩ (before ++ a :: between)).engine.request ⟨id, tx⟩
      (.read record offset kind)).1 = .done (.ok (.value v)) := by
  obtain ⟨hd₁, hu, hd₂⟩ := Running.disciplined_append hd
  obtain ⟨ho₁, ho₂⟩ := Running.orderly_append ho
  rw [Running.run_append] at hlevel hactive hheld ⊢
  rw [Running.accesses_append] at hapart
  have hg₁ := (Running.guarded_run (r := ⟨e, []⟩) (Engine.guarded_create h) hd₁).2
  have h₁ := Running.Sound.run hn (Running.sound_create h) ho₁
  have hgo : Running.Disciplined False _ (a :: between) := ⟨hu, hd₂⟩
  obtain ⟨hl', hc⟩ := Running.covers_reread hg₁ hgo hx hlevel hactive
  have hclear := Running.not_hits_of_read hg₁ hgo hx hl' hactive (fun x hx y hy =>
    hapart x (List.mem_append_right _ hx) y (List.mem_append_right _ hy)) hmine
  have hlevel' : (((Running.run ⟨e, []⟩ before).run (a :: between)).engine.isolation tx) =
      .repeatableRead := hlevel
  refine Engine.request_read_of_covers hactive (hlevel' ▸ hc) ?_
  exact h₁.sound.readHeld hn ho₂ (Running.readHeld_of_access hx) hclear hheld

def readerPinned : List Act := [.begin .repeatableRead, .request ⟨0, ⟨1⟩⟩ (.pin (.block ⟨"f", 0⟩))]

def firstRead : Act := .request ⟨1, ⟨1⟩⟩ (.read ⟨⟨"f", 0⟩, 0⟩ 0 .int)

/-- The block makes room for two others, and comes back. -/
def movedAway : List Act :=
  [.unpin ⟨1⟩ ⟨"f", 0⟩, .request ⟨2, ⟨1⟩⟩ (.append "g" (.fill 5)),
    .request ⟨3, ⟨1⟩⟩ (.append "g" (.fill 5)), .unpin ⟨1⟩ ⟨"g", 0⟩,
    .request ⟨4, ⟨1⟩⟩ (.pin (.block ⟨"f", 0⟩))]

theorem repeatable_reads_moved : Engine.create paired oneBlock = .ok (opened oneBlock) ∧
    (Running.run ⟨opened oneBlock, []⟩ readerPinned).access? firstRead =
      some (⟨1⟩, .read ⟨⟨"f", 0⟩, 0⟩ 0 .int (.int 0)) ∧
    ((Running.run ⟨opened oneBlock, []⟩ (readerPinned ++ firstRead :: movedAway)).engine.request
      ⟨5, ⟨1⟩⟩ (.read ⟨⟨"f", 0⟩, 0⟩ 0 .int)).1 = .done (.ok (.value (.int 0))) := by
  have hn : Distinct fun n => n = "f" ∨ n = "g" := by
    rintro m n (rfl | rfl) (rfl | rfl) <;> decide +kernel
  have ho : Running.Orderly (fun n => n = "f" ∨ n = "g") ⟨opened oneBlock, []⟩
      (readerPinned ++ firstRead :: movedAway) := by
    simp only [readerPinned, firstRead, movedAway, List.cons_append, List.nil_append,
      Running.Orderly]
    exact ⟨trivial, by decide +kernel,
      Running.permits_pin (by decide +kernel) (.inl rfl) (by decide +kernel), by decide +kernel,
      ⟨by decide +kernel, trivial, fun _ h => by cases h⟩, by decide +kernel,
      show Running.Ready _ _ by decide +kernel, by decide +kernel,
      ⟨by decide +kernel, .inr rfl, fun _ h => by cases h⟩, by decide +kernel,
      ⟨by decide +kernel, .inr rfl, fun _ h => by cases h⟩, by decide +kernel,
      show Running.Ready _ _ by decide +kernel, by decide +kernel,
      Running.permits_pin (by decide +kernel) (.inl rfl) (by decide +kernel), by decide +kernel,
      trivial⟩
  have hd : Running.Disciplined False ⟨opened oneBlock, []⟩
      (readerPinned ++ firstRead :: movedAway) := by
    simp only [readerPinned, firstRead, movedAway, List.cons_append, List.nil_append,
      Running.Disciplined, Running.Uses, Engine.Owns, true_and, and_true]
    decide +kernel
  have hx : (Running.run ⟨opened oneBlock, []⟩ readerPinned).access? firstRead =
      some (⟨1⟩, .read ⟨⟨"f", 0⟩, 0⟩ 0 .int (.int 0)) := by decide +kernel
  have hnone : ((Running.run ⟨opened oneBlock, []⟩ readerPinned).step firstRead).accesses
      movedAway = [] := by decide +kernel
  have hopen : Engine.create paired oneBlock = .ok (opened oneBlock) := rfl
  exact ⟨hopen, hx, repeatable_reads hn hopen ho hd (by decide +kernel) hx (by decide +kernel)
    (by decide +kernel) (fun _ _ => hnone ▸ List.not_mem_nil) (by decide +kernel) 5⟩

/-- The first transaction has the block by another name of its file, and the second writes to it and
commits. -/
def writtenTwice : List Act :=
  [.begin .repeatableRead, .begin .repeatableRead, .begin .repeatableRead,
    .request ⟨0, ⟨1⟩⟩ (.pin (.block ⟨"./f", 0⟩)), .request ⟨1, ⟨2⟩⟩ (.pin (.block ⟨"f", 0⟩)),
    .request ⟨2, ⟨2⟩⟩ (.write ⟨⟨"f", 0⟩, 0⟩ 0 (.int 7)), .commit ⟨2⟩,
    .request ⟨3, ⟨3⟩⟩ (.pin (.block ⟨"f", 0⟩))]

def thirdRead : Act := .request ⟨4, ⟨3⟩⟩ (.read ⟨⟨"f", 0⟩, 0⟩ 0 .int)

/-- The first transaction writes elsewhere in the block, and its bytes go to the file. -/
def broughtBack : List Act :=
  [.unpin ⟨3⟩ ⟨"f", 0⟩, .request ⟨5, ⟨1⟩⟩ (.write ⟨⟨"./f", 0⟩, 1⟩ 4 (.int 9)),
    .request ⟨6, ⟨3⟩⟩ (.append "g" (.fill 5)), .commit ⟨1⟩, .unpin ⟨3⟩ ⟨"g", 0⟩,
    .request ⟨7, ⟨3⟩⟩ (.pin (.block ⟨"f", 0⟩))]

/-- A file of two names has a block in two frames, and what one of them writes takes back what was
read from the other. -/
theorem not_repeatable_reads : Engine.create paired oneBlock = .ok (opened oneBlock) ∧
    Running.Orderly (fun _ => True) ⟨opened oneBlock, []⟩
      (writtenTwice ++ thirdRead :: broughtBack) ∧
    Running.Disciplined False ⟨opened oneBlock, []⟩ (writtenTwice ++ thirdRead :: broughtBack) ∧
    Access.Apart (Running.accesses ⟨opened oneBlock, []⟩
      (writtenTwice ++ thirdRead :: broughtBack)) ∧
    (Running.run ⟨opened oneBlock, []⟩ writtenTwice).access? thirdRead =
      some (⟨3⟩, .read ⟨⟨"f", 0⟩, 0⟩ 0 .int (.int 7)) ∧
    let r := Running.run ⟨opened oneBlock, []⟩ (writtenTwice ++ thirdRead :: broughtBack)
    r.engine.isolation ⟨3⟩ = .repeatableRead ∧ ¬ r.engine.isFinished ⟨3⟩ ∧
      ((Running.run ⟨opened oneBlock, []⟩ writtenTwice).step thirdRead).accesses broughtBack =
        [(⟨1⟩, .write ⟨⟨"./f", 0⟩, 1⟩ 4 (.int 9))] ∧
      ((r.engine.desk.pinsOf ⟨3⟩).holds.find? ⟨"f", 0⟩).isSome ∧
      (r.engine.request ⟨8, ⟨3⟩⟩ (.read ⟨⟨"f", 0⟩, 0⟩ 0 .int)).1 =
        .done (.ok (.value (.int 0))) := by
  refine ⟨rfl, ?_, ?_, by decide +kernel, by decide +kernel, by decide +kernel, by decide +kernel,
    by decide +kernel, by decide +kernel, rfl⟩
  · simp only [writtenTwice, thirdRead, broughtBack, List.cons_append, List.nil_append,
      Running.Orderly]
    exact ⟨trivial, by decide +kernel, trivial, by decide +kernel, trivial, by decide +kernel,
      Running.permits_pin (by decide +kernel) trivial (by decide +kernel), by decide +kernel,
      Running.permits_pin (by decide +kernel) trivial (by decide +kernel), by decide +kernel,
      ⟨by decide +kernel, trivial, fun _ h => by cases h⟩, by decide +kernel,
      show Running.Ready _ _ by decide +kernel, by decide +kernel,
      Running.permits_pin (by decide +kernel) trivial (by decide +kernel), by decide +kernel,
      ⟨by decide +kernel, trivial, fun _ h => by cases h⟩, by decide +kernel,
      show Running.Ready _ _ by decide +kernel, by decide +kernel,
      ⟨by decide +kernel, trivial, fun _ h => by cases h⟩, by decide +kernel,
      ⟨by decide +kernel, trivial, fun _ h => by cases h⟩, by decide +kernel,
      show Running.Ready _ _ by decide +kernel, by decide +kernel,
      show Running.Ready _ _ by decide +kernel, by decide +kernel,
      Running.permits_pin (by decide +kernel) trivial (by decide +kernel), by decide +kernel,
      trivial⟩
  · simp only [writtenTwice, thirdRead, broughtBack, List.cons_append, List.nil_append,
      Running.Disciplined, Running.Uses, Engine.Owns, true_and, and_true]
    decide +kernel

end PagedStore
