import PagedStore.Proofs.Pool.Run

set_option autoImplicit false

/-!
Which frames have the same block. Main statement: `unique_frames`. A block stays in one frame as
long as no new block is numbered like one that is in a frame already, as a block pinned past the
end of its file is; from the first such call on it does not.
-/

namespace PagedStore

namespace Store

/-- No block is in two frames, and the table names the frame that a block is in. -/
structure Unique (s : Store) : Prop where
  apart : ∀ i j b, s.blockAt? i = some b → s.blockAt? j = some b → i = j
  named : ∀ i b, s.blockAt? i = some b → s.pool.table.find? b = some i

theorem unique_of_named {s : Store}
    (h : ∀ i b, s.blockAt? i = some b → s.pool.table.find? b = some i) : s.Unique where
  apart i j b hi hj := Option.some.inj ((h i b hi).symm.trans (h j b hj))
  named := h

/-- A new block is given the number of a block that another frame has. -/
def Doubles (s : Store) : PoolCall → Prop
  | .pin (.fresh file format) => ∃ i j b, (s.pin (.fresh file format)).1 = .ok (some i) ∧
      (s.pin (.fresh file format)).2.blockAt? i = some b ∧ j ≠ i ∧ s.blockAt? j = some b
  | _ => False

def Undoubled (s : Store) : List PoolCall → Prop
  | [] => True
  | c :: cs => ¬ s.Doubles c ∧ (s.step c).Undoubled cs

variable {s s' : Store}

theorem blockAt?_of_frame {i : Nat} {f : Frame} (hf : s.pool.frames[i]? = some f) :
    s.blockAt? i = f.block := by rw [blockAt?, hf, Option.bind_some]

theorem Unique.congr (h : s.Unique) (hb : ∀ i, s'.blockAt? i = s.blockAt? i)
    (ht : s'.pool.table = s.pool.table) : s'.Unique := by
  refine unique_of_named fun i b hi => ?_
  rw [hb] at hi
  rw [ht, h.named i b hi]

theorem Unique.still (h : s.Unique) (hs : Still s s') : s'.Unique := h.congr hs.blockAt? hs.table

theorem blockAt?_set {i : Nat} {f g : Frame} {m : Media} {t : Registry BlockId Nat}
    (hi : s.pool.frames[i]? = some f) (j : Nat) :
    blockAt? { media := m, pool := { s.pool with frames := s.pool.frames.set i g, table := t } } j =
      if j = i then g.block else s.blockAt? j := by
  have hlt := (List.getElem?_eq_some_iff.1 hi).1
  unfold blockAt?
  dsimp only
  rw [List.getElem?_set]
  by_cases hj : j = i
  · rw [if_pos hj.symm, if_pos (hj ▸ hlt), if_pos hj]
    rfl
  · rw [if_neg fun e => hj e.symm, if_neg hj]

theorem blockAt?_setFrame {i : Nat} {f g : Frame} {m : Media} (hi : s.pool.frames[i]? = some f)
    (hg : g.block = f.block) (j : Nat) :
    ({ s with media := m }.setFrame i g).blockAt? j = s.blockAt? j := by
  refine (blockAt?_set (t := s.pool.table) hi j).trans ?_
  split
  · rename_i hj
    subst hj
    rw [blockAt?_of_frame hi, hg]
  · rfl

theorem blockAt?_flushFrame (s : Store) (i j : Nat) :
    (s.flushFrame i).2.blockAt? j = s.blockAt? j := by
  have hfl := flushedAt s i
  generalize s.flushFrame i = r at hfl
  cases hfl with
  | idle => rfl
  | unforced hf hm => rfl
  | unsaved hf hb hm hw => rfl
  | @saved f b m d hf hb hm hw =>
    exact blockAt?_setFrame (g := { f with dirty := false, fresh := false }) hf rfl j

theorem Unique.flushFrame (h : s.Unique) (i : Nat) : (s.flushFrame i).2.Unique :=
  h.congr (blockAt?_flushFrame s i) (table_flushFrame s i)

theorem blockAt?_editFrame {i : Nat} {edit : Frame → Except Error Frame}
    (he : ∀ f g, edit f = .ok g → g.block = f.block) (j : Nat) :
    (s.editFrame i edit).2.blockAt? j = s.blockAt? j := by
  unfold editFrame
  split
  · rfl
  · rename_i f hf
    split
    · rfl
    · rename_i g hg
      exact blockAt?_setFrame hf (he f g hg) j

theorem table_editFrame (s : Store) (i : Nat) (edit : Frame → Except Error Frame) :
    (s.editFrame i edit).2.pool.table = s.pool.table := by
  unfold editFrame
  split
  · rfl
  · split <;> rfl

theorem Unique.refill_error (h : s.Unique) {i : Nat} {f : Frame} {w : Wanted} {e : Failure}
    (hi : s.pool.frames[i]? = some f) (hr : s.refill i f w = (.error e, s')) : s'.Unique := by
  obtain ⟨m, rfl⟩ := emptied_of_refill hr
  refine unique_of_named fun j c hj => ?_
  rw [blockAt?_set hi] at hj
  split at hj
  · cases hj
  · rename_i hne
    have hfc : f.block ≠ some c := fun hc =>
      hne (h.apart j i c hj ((blockAt?_of_frame hi).trans hc))
    cases e with
    | error e => exact (find?_forget hfc).trans (h.named j c hj)
    | crash c => exact h.named j _ hj
    | endless => exact h.named j c hj

theorem refill_ok {i : Nat} {f : Frame} {w : Wanted} (hi : s.pool.frames[i]? = some f)
    (hr : s.refill i f w = (.ok (), s')) : ∃ b, (∀ c, w = .block c → b = c) ∧
      (∀ j, s'.blockAt? j = if j = i then some b else s.blockAt? j) ∧
      s'.pool.table = (forget s.pool.table f.block).insert b i := by
  have hfill := s.refilled i f w
  rw [hr] at hfill
  cases hfill with
  | @read b data d hread => exact ⟨b, fun c hc => by cases hc; rfl, blockAt?_set hi, rfl⟩
  | @added file format b d hadd => exact ⟨b, nofun, blockAt?_set hi, rfl⟩

theorem Unique.claim_of_none (h : s.Unique) {w : Wanted}
    (hn : ∀ i, (s.claim w).1 ≠ .ok (some i)) : (s.claim w).2.Unique := by
  have hcl := claimed s w
  generalize s.claim w = r at hcl hn
  cases hcl with
  | full hs => exact h.still hs
  | @unflushed s₁ s₂ i e hs hf =>
    have h₂ := (h.still hs).flushFrame i
    rwa [hf] at h₂
  | @unfilled s₁ s₂ s₃ i f e hs hf hi hc hr =>
    have h₂ := (h.still hs).flushFrame i
    rw [hf] at h₂
    exact h₂.refill_error hi hr
  | @filled s₁ s₂ s₃ s₄ i f hs hf hi hc hr hs' => exact absurd rfl (hn i)

/-- A claim that gives a frame to a block takes it from the block that the frame had before, and
touches no other frame. -/
theorem claim_ok {w : Wanted} {i : Nat} (h : (s.claim w).1 = .ok (some i)) :
    ∃ b, (∀ c, w = .block c → b = c) ∧
      (∀ j, (s.claim w).2.blockAt? j = if j = i then some b else s.blockAt? j) ∧
      (s.claim w).2.pool.table = (forget s.pool.table (s.blockAt? i)).insert b i := by
  obtain ⟨s₁, s₂, s₃, f, hs, hf, hi, hr, hs'⟩ := filled_of_claim h
  have hb₂ : ∀ j, s₂.blockAt? j = s.blockAt? j := by
    intro j
    have := blockAt?_flushFrame s₁ i j
    rw [hf] at this
    exact this.trans (hs.blockAt? j)
  have ht₂ : s₂.pool.table = s.pool.table := by
    have := table_flushFrame s₁ i
    rw [hf] at this
    exact this.trans hs.table
  have hfb : f.block = s.blockAt? i := by rw [← hb₂, blockAt?_of_frame hi]
  obtain ⟨b, hw, hb₃, ht₃⟩ := refill_ok hi hr
  refine ⟨b, hw, fun j => ?_, ?_⟩
  · rw [hs'.blockAt?, hb₃, hb₂]
  · rw [hs'.table, ht₃, ht₂, hfb]

/-- A claim keeps the frames apart if and only if no other frame has the block that it gives. -/
theorem Unique.claim_iff (h : s.Unique) {w : Wanted} {i : Nat} {b : BlockId}
    (hok : (s.claim w).1 = .ok (some i)) (hb : (s.claim w).2.blockAt? i = some b) :
    (s.claim w).2.Unique ↔ ∀ j, j ≠ i → s.blockAt? j ≠ some b := by
  obtain ⟨b', -, hblocks, htable⟩ := claim_ok hok
  obtain rfl : b' = b := by
    rw [hblocks, if_pos rfl] at hb
    exact Option.some.inj hb
  constructor
  · intro hu j hne hj
    refine hne (hu.apart j i b' ?_ hb)
    rw [hblocks, if_neg hne, hj]
  · intro hfree
    refine unique_of_named fun j c hj => ?_
    rw [hblocks] at hj
    rw [htable]
    split at hj
    · rename_i he
      rw [he, Option.some.inj hj]
      exact Registry.find?_insert_self ..
    · rename_i hne
      have hcb : c ≠ b' := fun e => hfree j hne (e ▸ hj)
      have hold : s.blockAt? i ≠ some c := fun e => hne (h.apart j i c hj e)
      rw [Registry.find?_insert_of_ne _ _ hcb, find?_forget hold]
      exact h.named j c hj

theorem Unique.pinBlock (h : s.Unique) (b : BlockId) : (s.pinBlock b).2.Unique := by
  unfold Store.pinBlock
  cases ht : s.pool.table.find? b with
  | some i =>
    dsimp only
    split
    · exact h.still ⟨Pool.map_core_take .., Pool.table_take .., rfl⟩
    · exact h
  | none =>
    dsimp only
    by_cases hok : ∃ i, (s.claim (.block b)).1 = .ok (some i)
    · obtain ⟨i, hok⟩ := hok
      obtain ⟨b', hw, hblocks, -⟩ := claim_ok hok
      obtain rfl := hw b rfl
      refine (h.claim_iff hok ((hblocks i).trans (if_pos rfl))).2 fun j _ hj => ?_
      cases ht.symm.trans (h.named j _ hj)
    · exact h.claim_of_none fun i hi => hok ⟨i, hi⟩

theorem Unique.pinFresh_iff (h : s.Unique) (file : String) (format : Formatter) :
    (s.step (.pin (.fresh file format))).Unique ↔ ¬ s.Doubles (.pin (.fresh file format)) := by
  show (s.claim (.fresh file format)).2.Unique ↔ _
  by_cases hok : ∃ i, (s.claim (.fresh file format)).1 = .ok (some i)
  · obtain ⟨i, hok⟩ := hok
    obtain ⟨b, -, hblocks, -⟩ := claim_ok hok
    have hb := (hblocks i).trans (if_pos rfl)
    rw [h.claim_iff hok hb]
    constructor
    · rintro hfree ⟨i', j, b', hok', hb', hne, hj⟩
      obtain rfl : i = i' := Option.some.inj (Except.ok.inj (hok.symm.trans hok'))
      obtain rfl : b = b' := Option.some.inj (hb.symm.trans hb')
      exact hfree j hne hj
    · exact fun hd j hne hj => hd ⟨i, j, b, hok, hb, hne, hj⟩
  · refine iff_of_true (h.claim_of_none fun i hi => hok ⟨i, hi⟩) ?_
    rintro ⟨i, -, -, hi, -⟩
    exact hok ⟨i, hi⟩

theorem Unique.step_iff (h : s.Unique) (c : PoolCall) : (s.step c).Unique ↔ ¬ s.Doubles c := by
  cases c with
  | pin w =>
    cases w with
    | block b => exact iff_of_true (h.pinBlock b) id
    | fresh file format => exact h.pinFresh_iff file format
  | unpin i => exact iff_of_true (h.still (still_unpin s i)) id
  | flush i => exact iff_of_true (h.flushFrame i) id
  | flushAll => exact iff_of_true (flushWhere_induct (fun _ i hs => hs.flushFrame i) h _) id
  | flushFor tx => exact iff_of_true (flushWhere_induct (fun _ i hs => hs.flushFrame i) h _) id
  | write i offset v =>
    exact iff_of_true (h.congr (blockAt?_editFrame fun _ _ hg => (Frame.of_write hg).1)
      (table_editFrame ..)) id
  | writeLogged i offset v tx lsn =>
    exact iff_of_true (h.congr (blockAt?_editFrame fun _ _ hg => (Frame.of_writeLogged hg).2.1)
      (table_editFrame ..)) id
  | log l => exact iff_of_true (h.congr (fun _ => rfl) rfl) id
  | fault cause => exact iff_of_true (h.congr (fun _ => rfl) rfl) id

/-- All along a run the blocks are apart if and only if no call of it doubles one. -/
theorem Unique.run_iff (h : s.Unique) (calls : List PoolCall) :
    (∀ n, (s.run (calls.take n)).Unique) ↔ s.Undoubled calls := by
  induction calls generalizing s with
  | nil => exact iff_of_true (fun n => by rwa [List.take_nil]) trivial
  | cons c cs ih =>
    constructor
    · intro hall
      have hc : (s.step c).Unique := hall 1
      exact ⟨(h.step_iff c).1 hc, (ih hc).1 fun n => hall (n + 1)⟩
    · rintro ⟨hd, hcs⟩ n
      cases n with
      | zero => exact h
      | succ n => exact (ih ((h.step_iff c).2 hd)).2 hcs n

theorem unique_over {disk : Disk} {log : Log} {size stripes : Nat} {pool : Pool}
    (hc : Pool.create size stripes disk.blockSize = .ok pool) :
    (Store.over disk log pool).Unique := by
  obtain ⟨-, -, hframes⟩ := Pool.create_eq_ok hc
  refine unique_of_named fun i b hi => ?_
  obtain ⟨f, hf, hb⟩ := Option.bind_eq_some_iff.1 hi
  rw [hframes hf] at hb
  cases hb

end Store

theorem Mirrors.unique {names : String → Prop} {flat : Flat} {s : Store}
    (h : Mirrors names flat s) : s.Unique := by
  refine Store.unique_of_named fun i b hi => ?_
  obtain ⟨f, hf, hb⟩ := Option.bind_eq_some_iff.1 hi
  exact h.table hf hb

theorem Mirrors.undoubled {names : String → Prop} (hd : Distinct names) {flat : Flat} {s : Store}
    (h : Mirrors names flat s) {calls : List PoolCall} (ho : s.Orderly names calls) :
    s.Undoubled calls := by
  induction calls generalizing flat s with
  | nil => trivial
  | cons c cs ih =>
    have hnext := h.step hd ho.1
    exact ⟨(h.unique.step_iff c).1 hnext.unique, ih hnext ho.2⟩

/-- In every state of a run of a new pool no block is in two frames, and the table names the frame
of every block, if and only if no call of the run gives a new block the number of a block that
another frame has. Where every block that is loaded lies inside its file no call does. -/
theorem unique_frames {disk : Disk} {log : Log} {size stripes : Nat} {pool : Pool}
    (hc : Pool.create size stripes disk.blockSize = .ok pool) (calls : List PoolCall) :
    ((∀ n, ((Store.over disk log pool).run (calls.take n)).Unique) ↔
      (Store.over disk log pool).Undoubled calls) ∧
    ∀ names : String → Prop, Distinct names → (Store.over disk log pool).Orderly names calls →
      (Store.over disk log pool).Undoubled calls :=
  ⟨(Store.unique_over hc).run_iff calls, fun _ hd ho => (mirrors_over hc).undoubled hd ho⟩

theorem unique_frames_reload :
    Pool.create 1 1 12 = .ok oneFrame ∧ small.Orderly (fun n => n = "a") reload ∧
      ∀ n, (small.run (reload.take n)).Unique := by
  have hd : Distinct fun n => n = "a" := fun m n hm hn _ _ => hm.trans hn.symm
  have hc : Pool.create 1 1 12 = .ok oneFrame := rfl
  have ho : small.Orderly (fun n => n = "a") reload := by
    simp only [reload, Store.Orderly, Store.Permits, true_and, and_true]
    intro _ _ _
    decide +kernel
  obtain ⟨hiff, horderly⟩ := @unique_frames { blockSize := 12 } .empty 1 1 oneFrame hc reload
  exact ⟨hc, ho, hiff.2 (horderly _ hd ho)⟩

def twoFrames : Pool :=
  { frames := [{ id := 0, data := List.replicate 12 0 }, { id := 1, data := List.replicate 12 0 }]
    free := 2, lastClaimed := 1 }

def roomy : Store := .over { blockSize := 12 } .empty twoFrames

/-- The first block of an empty file is pinned before it is added. Then it is in both frames, and
the table has lost the one that was pinned first. -/
theorem not_unique_frames :
    Pool.create 2 1 12 = .ok twoFrames ∧
      let s := (Store.over { blockSize := 12 } .empty twoFrames).run
        [.pin (.block ⟨"f", 0⟩), .pin (.fresh "f" .zero)]
      s.blockAt? 0 = some ⟨"f", 0⟩ ∧ s.blockAt? 1 = some ⟨"f", 0⟩ ∧
        s.pool.table.find? ⟨"f", 0⟩ = some 1 ∧ ¬ s.Unique := by
  have h₀ : ((Store.over { blockSize := 12 } .empty twoFrames).run
      [.pin (.block ⟨"f", 0⟩), .pin (.fresh "f" .zero)]).blockAt? 0 = some ⟨"f", 0⟩ := by
    decide +kernel
  have h₁ : ((Store.over { blockSize := 12 } .empty twoFrames).run
      [.pin (.block ⟨"f", 0⟩), .pin (.fresh "f" .zero)]).blockAt? 1 = some ⟨"f", 0⟩ := by
    decide +kernel
  exact ⟨rfl, h₀, h₁, by decide +kernel, fun h => Nat.zero_ne_one (h.apart 0 1 _ h₀ h₁)⟩

end PagedStore
