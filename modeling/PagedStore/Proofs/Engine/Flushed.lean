import PagedStore.Proofs.Engine.Tracked
import PagedStore.Proofs.Pool.Flushes

set_option autoImplicit false

/-!
What a transaction writes back is what a pool writes back for it. Main statement: `flush_agrees`.
-/

namespace PagedStore

/-- Where files have one name each, no two frames have blocks in one place. -/
theorem Steady.apart {c : Terms} {book : Book} {d : Desk} (hd : Distinct c.names)
    (h : Steady c book d) : d.store.Apart := by
  intro i j b k hb hk hij
  by_cases hp : path? b.file = path? k.file
  · refine .inr fun hn => hij ?_
    obtain ⟨f, hf, hfb⟩ := Option.bind_eq_some_iff.1 hb
    obtain ⟨g, hg, hgk⟩ := Option.bind_eq_some_iff.1 hk
    have hfile : b.file = k.file := hd _ _ (h.mirrors.shows hf hfb).named
      (h.mirrors.shows hg hgk).named (h.reached i b hb).1.1 hp
    obtain rfl : b = k := by
      cases b
      cases k
      exact BlockId.mk.injEq .. ▸ ⟨hfile, hn⟩
    exact h.mirrors.unique.apart i j b hb hk
  · exact .inl hp

namespace Store

variable {s : Store} {tx : TxId} {order : List Nat}

theorem changedBy_iff {i : Nat} : s.changedBy tx i = true ↔
    ∃ f, s.pool.frames[i]? = some f ∧ f.modifiedBy = some tx := by
  rw [changedBy, decide_eq_true_iff, Option.bind_eq_some_iff]

theorem mem_mine (hall : ∀ i, s.changedBy tx i = true → i ∈ order) (i : Nat) :
    i ∈ order.filter (s.changedBy tx) ↔
      i ∈ places (fun f => f.modifiedBy = some tx) 0 s.pool.frames := by
  rw [List.mem_filter, mem_places, changedBy_iff]
  simp only [Nat.zero_le, true_and, Nat.sub_zero, decide_eq_true_iff]
  exact ⟨And.right, fun h => ⟨hall i (changedBy_iff.2 h), h⟩⟩

theorem frame_flushAmid {l : List Nat} {w : Weather} (hl : ∀ i ∈ l, s.changedBy tx i = true)
    {i : Nat} {f : Frame} (hf : s.pool.frames[i]? = some f) (hm : f.modifiedBy ≠ some tx) :
    (flushAmid (l.map fun i => (i, w)) s).2.pool.frames[i]? = some f := by
  obtain ⟨done, hsub, -, hwrote⟩ := wrote_flushAmid (l.map fun i => (i, w)) s
  have hi : i ∉ done := by
    intro hi
    obtain ⟨v, hmem, -⟩ := hsub i hi
    obtain ⟨j, hj, he⟩ := List.mem_map.1 hmem
    obtain ⟨rfl, rfl⟩ := Prod.mk.inj he
    obtain ⟨g, hg, hgm⟩ := changedBy_iff.1 (hl j hj)
    obtain rfl : g = f := Option.some.inj (hg.symm.trans hf)
    exact hm hgm
  exact hwrote.frame_of_not_mem hf hi

/-- A transaction that knows all frames it changed last writes them back as the pool does. -/
theorem flushTouched_agrees (hall : ∀ i, s.changedBy tx i = true → i ∈ order) :
    let mine := Desk.flushTouched tx order s
    let all := s.flushFor tx
    (mine.1 = .ok () ↔ all.1 = .ok ()) ∧
    (all.1 = .ok () → mine.2.Agrees s.Apart all.2 ∧
      ∀ b, s.WroteBack mine.2 b ↔ s.WroteBack all.2 b) ∧
    ∀ (i : Nat) (f : Frame), s.pool.frames[i]? = some f → f.modifiedBy ≠ some tx →
      mine.2.pool.frames[i]? = some f ∧ all.2.pool.frames[i]? = some f := by
  dsimp only
  rw [flushTouched_eq, flushFor, flushWhere_eq]
  have hmem := mem_mine hall
  have hiff := flushAmid_ok_iff (order.filter (s.changedBy tx)) s.media.weather s
  simp only [hmem] at hiff
  rw [← flushAmid_ok_iff] at hiff
  refine ⟨hiff, fun hok => ?_, fun i f hf hm => ⟨?_, ?_⟩⟩
  · have hall := wrote_of_ok hok
    have hmine := (wrote_of_ok (hiff.2 hok)).congr (fun i _ _ _ => (hmem i).symm)
      fun i _ _ _ hi => (hmem i).1 hi
    refine ⟨hmine.agree hall fun _ _ _ _ hi => hi, fun b => ?_⟩
    rw [hmine.wroteBack_iff, hall.wroteBack_iff]
  · exact frame_flushAmid (fun j hj => (List.mem_filter.1 hj).2) hf hm
  · refine frame_flushAmid (fun j hj => ?_) hf hm
    exact (List.mem_filter.1 ((mem_mine hall j).2 hj)).2

end Store

theorem Running.apart_of_orderly {names : String → Prop} {settings : Settings} {disk : Disk}
    {e : Engine} (h : Engine.create settings disk = .ok e) (hd : Distinct names) {acts : List Act}
    (ho : Running.Orderly names ⟨e, []⟩ acts) : (Running.run ⟨e, []⟩ acts).store.Apart := by
  have hsound : Running.Sound names _ ⟨e, []⟩ := Running.sound_create h
  exact (hsound.run hd ho).sound.steady.apart hd

/-- In every orderly run of transactions, for one that has not ended: every frame that it was the
last to change is among those it touched; and in whatever order it goes through these, it can write
them back just when the pool can for it, the same blocks are written back then, and the frames, the
log and the files are the same afterwards, the files provided that no two frames have blocks in one
place, as is so where files have one name each. Frames that others changed last are left alone. -/
theorem flush_agrees {names : String → Prop} {settings : Settings} {disk : Disk} {e : Engine}
    (h : Engine.create settings disk = .ok e) {acts : List Act}
    (ho : Running.Orderly names ⟨e, []⟩ acts) {tx : TxId}
    (hu : ¬ (Running.run ⟨e, []⟩ acts).engine.isFinished tx) :
    let d := (Running.run ⟨e, []⟩ acts).engine.desk
    (∀ (i : Nat) (f : Frame), d.store.pool.frames[i]? = some f → f.modifiedBy = some tx →
      i ∈ (d.pinsOf tx).touched) ∧
    (∀ order : List Nat, order.Perm (d.pinsOf tx).touched →
      let mine := Desk.flushTouched tx order d.store
      let all := d.store.flushFor tx
      (mine.1 = .ok () ↔ all.1 = .ok ()) ∧
      (all.1 = .ok () → mine.2.Agrees d.store.Apart all.2 ∧
        ∀ b, d.store.WroteBack mine.2 b ↔ d.store.WroteBack all.2 b) ∧
      ∀ (i : Nat) (f : Frame), d.store.pool.frames[i]? = some f → f.modifiedBy ≠ some tx →
        mine.2.pool.frames[i]? = some f ∧ all.2.pool.frames[i]? = some f) ∧
    (Distinct names → d.store.Apart) := by
  intro d
  have htracked : (Running.run ⟨e, []⟩ acts).Tracked := (Running.tracked_create h).run ho
  have htouched : ∀ (i : Nat) (f : Frame), d.store.pool.frames[i]? = some f →
      f.modifiedBy = some tx → i ∈ (d.pinsOf tx).touched := fun i f hf hm =>
    (htracked.traced.traced i f tx hf hm).resolve_left hu
  refine ⟨htouched, fun order hperm => Store.flushTouched_agrees fun i hi => ?_,
    fun hd => Running.apart_of_orderly h hd ho⟩
  obtain ⟨f, hf, hm⟩ := Store.changedBy_iff.1 hi
  exact hperm.symm.subset (htouched i f hf hm)

/-- One transaction has the block under both names of its file, and writes to it under both. -/
def writtenTwofold : List Act :=
  [.begin .repeatableRead, .request ⟨0, ⟨1⟩⟩ (.pin (.block ⟨"f", 0⟩)),
    .request ⟨1, ⟨1⟩⟩ (.pin (.block ⟨"./f", 0⟩)),
    .request ⟨2, ⟨1⟩⟩ (.write ⟨⟨"f", 0⟩, 0⟩ 0 (.int 7)),
    .request ⟨3, ⟨1⟩⟩ (.write ⟨⟨"./f", 0⟩, 0⟩ 0 (.int 9))]

theorem orderly_writtenTwofold :
    Running.Orderly (fun n => n = "f" ∨ n = "./f") ⟨opened oneBlock, []⟩ writtenTwofold := by
  simp only [writtenTwofold, Running.Orderly]
  exact ⟨trivial, by decide +kernel,
    Running.permits_pin (by decide +kernel) (.inl rfl) (by decide +kernel), by decide +kernel,
    Running.permits_pin (by decide +kernel) (.inr rfl) (by decide +kernel), by decide +kernel,
    Running.permits_write _ _ _ (by decide +kernel), by decide +kernel,
    Running.permits_write _ _ _ (by decide +kernel), by decide +kernel, trivial⟩

/-- It goes through its two frames in either order, and each time the pool, the log and the blocks
written back are the same as when the pool writes them back. -/
theorem flush_agrees_twofold : Engine.create paired oneBlock = .ok (opened oneBlock) ∧
    let s := (Running.run ⟨opened oneBlock, []⟩ writtenTwofold).store
    ∀ order : List Nat, order.Perm [0, 1] →
      (Desk.flushTouched ⟨1⟩ order s).1 = .ok () ∧
      (Desk.flushTouched ⟨1⟩ order s).2.Agrees s.Apart (s.flushFor ⟨1⟩).2 := by
  have hopen : Engine.create paired oneBlock = .ok (opened oneBlock) := rfl
  refine ⟨hopen, fun order hperm => ?_⟩
  have htouched : ((Running.run ⟨opened oneBlock, []⟩ writtenTwofold).engine.desk.pinsOf
      ⟨1⟩).touched = [1, 0] := by decide +kernel
  have hall : ((Running.run ⟨opened oneBlock, []⟩ writtenTwofold).engine.desk.store.flushFor
      ⟨1⟩).1 = .ok () := rfl
  have hactive : ¬ (Running.run ⟨opened oneBlock, []⟩ writtenTwofold).engine.isFinished ⟨1⟩ := by
    decide +kernel
  obtain ⟨-, horders, -⟩ := flush_agrees hopen orderly_writtenTwofold hactive
  have hagrees := horders order (htouched ▸ hperm.trans (.swap 1 0 []))
  exact ⟨hagrees.1.2 hall, (hagrees.2.1 hall).1⟩

/-- The files are not: what is written back last is what they hold. -/
theorem not_flush_agrees : Engine.create paired oneBlock = .ok (opened oneBlock) ∧
    Running.Orderly (fun n => n = "f" ∨ n = "./f") ⟨opened oneBlock, []⟩ writtenTwofold ∧
    let e := (Running.run ⟨opened oneBlock, []⟩ writtenTwofold).engine
    ¬ e.isFinished ⟨1⟩ ∧
    (e.desk.flushMine ⟨1⟩).1 = .ok () ∧ (e.desk.store.flushFor ⟨1⟩).1 = .ok () ∧
    Page.payload ((e.desk.flushMine ⟨1⟩).2.store.media.disk.peek ⟨"f", 0⟩) =
      [0, 0, 0, 7, 0, 0, 0, 0] ∧
    Page.payload ((e.desk.store.flushFor ⟨1⟩).2.media.disk.peek ⟨"f", 0⟩) =
      [0, 0, 0, 9, 0, 0, 0, 0] :=
  ⟨rfl, orderly_writtenTwofold, by decide +kernel, rfl, rfl, by decide +kernel, by decide +kernel⟩

end PagedStore
