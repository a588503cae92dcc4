import PagedStore.Proofs.Disk.Alike
import PagedStore.Proofs.Pool.Claim

set_option autoImplicit false

/-!
What it means for a store that some of its frames were written back, without any order in which
that happened. Main statements: `Wrote.trans`, `Wrote.congr`, `Wrote.sameContents` and
`Wrote.agree`: what becomes of the store depends on which frames were written, and on nothing else.
-/

namespace PagedStore

/-- Going from `n` to `n'` reached what must be reached, and came to rest at the start or at
something that may be reached. -/
structure Raised (must may : Nat → Prop) (n n' : Nat) : Prop where
  le : n ≤ n'
  reached : ∀ k, must k → k ≤ n'
  source : n' = n ∨ may n'

namespace Raised

variable {must may must' may' : Nat → Prop} {n n' n'' : Nat}

theorem mono (h : Raised must may n n') (hmust : ∀ k, must' k → must k)
    (hmay : ∀ k, may k → may' k) : Raised must' may' n n' :=
  ⟨h.le, fun k hk => h.reached k (hmust k hk), h.source.imp_right (hmay n')⟩

theorem refl (h : ∀ k, must k → k ≤ n) : Raised must may n n := ⟨Nat.le_refl n, h, .inl rfl⟩

theorem trans (h : Raised must may n n') (h' : Raised must' may' n' n'') :
    Raised (fun k => must k ∨ must' k) (fun k => may k ∨ may' k) n n'' := by
  refine ⟨Nat.le_trans h.le h'.le, fun k hk => ?_, ?_⟩
  · rcases hk with hk | hk
    · exact Nat.le_trans (h.reached k hk) h'.le
    · exact h'.reached k hk
  · rcases h'.source with rfl | hm
    · exact h.source.imp_right .inl
    · exact .inr (.inr hm)

theorem le_of_may (h : Raised must may n n') (h' : Raised must' may' n n'')
    (hsub : ∀ k, may k → must' k) : n' ≤ n'' := by
  rcases h.source with rfl | hm
  · exact h'.le
  · exact h'.reached n' (hsub n' hm)

end Raised

namespace Frame

def rest (f : Frame) : Frame :=
  if f.block.isSome then { f with dirty := false, fresh := false } else f

@[simp] theorem block_rest (f : Frame) : f.rest.block = f.block := by
  unfold rest
  split <;> rfl

@[simp] theorem data_rest (f : Frame) : f.rest.data = f.data := by
  unfold rest
  split <;> rfl

@[simp] theorem pins_rest (f : Frame) : f.rest.pins = f.pins := by
  unfold rest
  split <;> rfl

@[simp] theorem modifiedBy_rest (f : Frame) : f.rest.modifiedBy = f.modifiedBy := by
  unfold rest
  split <;> rfl

@[simp] theorem rest_rest (f : Frame) : f.rest.rest = f.rest := by
  by_cases hb : f.block.isSome
  · simp [rest, hb]
  · simp [rest, hb]

theorem rest_of_block {f : Frame} {b : BlockId} (h : f.block = some b) :
    f.rest = { f with dirty := false, fresh := false } :=
  if_pos (by rw [h]; rfl)

theorem rest_of_rested {f : Frame} (h : (f.dirty || f.fresh) = false ∨ f.block = none) :
    f.rest = f := by
  obtain ⟨id, data, block, pins, recent, dirty, fresh, modifiedBy, lsn⟩ := f
  unfold rest
  rcases h with h | rfl
  · obtain ⟨rfl, rfl⟩ := Bool.or_eq_false_iff.1 h
    split <;> rfl
  · rfl

end Frame

namespace Store

/-- No two frames have blocks in one place. -/
def Apart (s : Store) : Prop := ∀ i j b c, s.blockAt? i = some b → s.blockAt? j = some c →
  i ≠ j → b.Apart c

/-- Frame `i`, which has `b`, is still to be written back. -/
structure Due (s : Store) (i : Nat) (f : Frame) (b : BlockId) : Prop where
  frame : s.pool.frames[i]? = some f
  block : f.block = some b
  unsaved : (f.dirty || f.fresh) = true

/-- Of the frames of `done` that are due, no other has its block where frame `i`, which has `b`, has
its own. -/
def Alone (s : Store) (done : List Nat) (i : Nat) (b : BlockId) : Prop :=
  ∀ j g c, j ∈ done → s.Due j g c → j ≠ i → b.Apart c

variable {s s' s'' : Store} {i : Nat} {f : Frame} {b : BlockId}

theorem Due.blockAt? (h : s.Due i f b) : s.blockAt? i = some b := by
  rw [Store.blockAt?, h.frame, Option.bind_some, h.block]

theorem Due.ne_rest (h : s.Due i f b) : f ≠ f.rest := by
  intro he
  have hu := h.unsaved
  rw [he, Frame.rest_of_block h.block] at hu
  cases hu

theorem Apart.alone (h : s.Apart) (done : List Nat) (hb : s.blockAt? i = some b) :
    s.Alone done i b := fun j _ c _ hdue hj => h i j b c hb hdue.blockAt? (Ne.symm hj)

theorem alone_one {j : Nat} (hj : j ∈ [i]) (b : BlockId) : s.Alone [i] j b :=
  fun _ _ _ hk _ hne => absurd ((List.mem_singleton.1 hk).trans (List.mem_singleton.1 hj).symm) hne

/-- What is not to be written back looks as if it had been. -/
theorem rest_of_not_due (hf : s.pool.frames[i]? = some f) (h : ∀ b, ¬ s.Due i f b) :
    f.rest = f := by
  refine Frame.rest_of_rested ?_
  cases hb : f.block with
  | none => exact .inr rfl
  | some b =>
    cases hu : f.dirty || f.fresh with
    | false => exact .inl rfl
    | true => exact absurd ⟨hf, hb, hu⟩ (h b)

/-- The positions up to which the log has to be durable before frames of `l` are written back. -/
def marks (s : Store) (l : List Nat) (n : Nat) : Prop :=
  ∃ i f b, i ∈ l ∧ s.Due i f b ∧ n = min f.lsn s.media.log.last

def ends (s : Store) (l : List Nat) (name : String) (n : Nat) : Prop :=
  ∃ i f b, i ∈ l ∧ s.Due i f b ∧ path? name = path? b.file ∧
    n = b.number * s.blockSize + s.blockSize

/-- The frames of `done` were written back where that was due, and for those of `tried` the log may
have been forced. -/
structure Wrote (done tried : List Nat) (s s' : Store) : Prop where
  pool : s'.pool = { s.pool with frames := s'.pool.frames }
  frames : ∀ i, s'.pool.frames[i]? =
    s.pool.frames[i]?.map fun f => if i ∈ done then f.rest else f
  records : s'.media.log.records = s.media.log.records
  durable : Raised (s.marks done) (s.marks tried) s.media.log.durable s'.media.log.durable
  deeds : ∃ new, s'.media.deeds = new ++ s.media.deeds ∧
    ∀ n, (∃ durable, .saved n durable ∈ new) ↔ ∃ i f b, i ∈ done ∧ s.Due i f b ∧ f.id = n
  site : s'.site = s.site
  length : ∀ i f b, i ∈ done → s.Due i f b → f.data.length = s.blockSize
  size : ∀ name, Raised (s.ends done name) (s.ends done name)
    (s.media.disk.fileOf name).size (s'.media.disk.fileOf name).size
  written : ∀ i f b name k, i ∈ done → s.Due i f b → s.Alone done i b →
    b.Covers s.blockSize name k →
    (s'.media.disk.fileOf name).byteAt k = f.data.getD (k - b.number * s.blockSize) 0
  others : ∀ name k, (∀ i f b, i ∈ done → s.Due i f b → ¬ b.Covers s.blockSize name k) →
    (s'.media.disk.fileOf name).byteAt k = (s.media.disk.fileOf name).byteAt k

/-- The frames are the same, and the files hold the same. -/
structure SameContents (s s' : Store) : Prop where
  pool : s'.pool = s.pool
  disk : Disk.Alike s.media.disk s'.media.disk

namespace SameContents

theorem refl (s : Store) : s.SameContents s := ⟨rfl, .refl _⟩

theorem symm (h : s.SameContents s') : s'.SameContents s := ⟨h.pool.symm, h.disk.symm⟩

theorem trans (h : s.SameContents s') (h' : s'.SameContents s'') : s.SameContents s'' :=
  ⟨h'.pool.trans h.pool, h.disk.trans h'.disk⟩

theorem due_iff (h : s.SameContents s') : s'.Due i f b ↔ s.Due i f b :=
  ⟨fun hdue => ⟨h.pool ▸ hdue.frame, hdue.block, hdue.unsaved⟩,
    fun hdue => ⟨h.pool.symm ▸ hdue.frame, hdue.block, hdue.unsaved⟩⟩

end SameContents

/-- The frames are the same, the log is durable as far, and under a condition so are the files. -/
structure Agrees (cond : Prop) (s s' : Store) : Prop where
  pool : s'.pool = s.pool
  records : s'.media.log.records = s.media.log.records
  durable : s'.media.log.durable = s.media.log.durable
  disk : cond → Disk.Alike s.media.disk s'.media.disk

/-- On the way from `s` to `s'` a frame with block `b` was written back. -/
def WroteBack (s s' : Store) (b : BlockId) : Prop :=
  ∃ new i f durable, s'.media.deeds = new ++ s.media.deeds ∧ s.blockAt? i = some b ∧
    s.pool.frames[i]? = some f ∧ .saved f.id durable ∈ new

theorem wrote_nothing {done tried : List Nat} {m : Media}
    (hnone : ∀ i f b, i ∈ done → ¬ s.Due i f b) (hrecords : m.log.records = s.media.log.records)
    (hdurable : Raised (fun _ => False) (s.marks tried) s.media.log.durable m.log.durable)
    (hdeeds : m.deeds = s.media.deeds) (hsame : Disk.Same s.media.disk m.disk) :
    Wrote done tried s { s with media := m } where
  pool := rfl
  frames j := by
    show s.pool.frames[j]? = _
    cases hf : s.pool.frames[j]? with
    | none => rfl
    | some f =>
      rw [Option.map_some]
      split
      · rename_i hj
        rw [rest_of_not_due hf fun b => hnone j f b hj]
      · rfl
  records := hrecords
  durable := hdurable.mono (fun _ ⟨i, f, b, hi, hdue, _⟩ => hnone i f b hi hdue) fun _ => id
  deeds := ⟨[], hdeeds, fun n =>
    ⟨fun ⟨_, h⟩ => (List.not_mem_nil h).elim, fun ⟨i, f, b, hi, hdue, _⟩ =>
      (hnone i f b hi hdue).elim⟩⟩
  site := hsame.site
  length i f b hi hdue := (hnone i f b hi hdue).elim
  size name := by
    rw [hsame.fileOf]
    exact .refl fun _ ⟨i, f, b, hi, hdue, _⟩ => (hnone i f b hi hdue).elim
  written i f b _ _ hi hdue := (hnone i f b hi hdue).elim
  others name k _ := by rw [hsame.fileOf]

theorem Wrote.refl (s : Store) : Wrote [] [] s s :=
  wrote_nothing nofun rfl (.refl nofun) rfl (.refl _)

namespace Wrote

variable {done tried done' tried' : List Nat}

theorem blockSize (h : Wrote done tried s s') : s'.blockSize = s.blockSize :=
  congrArg Site.blockSize h.site

theorem blockAt? (h : Wrote done tried s s') (i : Nat) : s'.blockAt? i = s.blockAt? i := by
  rw [Store.blockAt?, Store.blockAt?, h.frames]
  cases s.pool.frames[i]? with
  | none => rfl
  | some f =>
    simp only [Option.map_some, Option.bind_some]
    split
    · exact f.block_rest
    · rfl

theorem last (h : Wrote done tried s s') : s'.media.log.last = s.media.log.last :=
  congrArg List.length h.records

theorem due_iff (h : Wrote done tried s s') : s'.Due i f b ↔ i ∉ done ∧ s.Due i f b := by
  constructor
  · intro hdue
    have hf := hdue.frame
    rw [h.frames, Option.map_eq_some_iff] at hf
    obtain ⟨g, hg, hgf⟩ := hf
    split at hgf
    · obtain rfl := hgf
      have hu := hdue.unsaved
      rw [Frame.rest_of_block (g.block_rest.symm.trans hdue.block)] at hu
      cases hu
    · rename_i hi
      exact ⟨hi, hgf ▸ hg, hdue.block, hdue.unsaved⟩
  · rintro ⟨hi, hdue⟩
    refine ⟨?_, hdue.block, hdue.unsaved⟩
    rw [h.frames, hdue.frame, Option.map_some, if_neg hi]

theorem frame_of_mem (h : Wrote done tried s s') (hf : s.pool.frames[i]? = some f) (hi : i ∈ done) :
    s'.pool.frames[i]? = some f.rest := by
  rw [h.frames, hf, Option.map_some, if_pos hi]

theorem frame_of_not_mem (h : Wrote done tried s s') (hf : s.pool.frames[i]? = some f)
    (hi : i ∉ done) : s'.pool.frames[i]? = some f := by
  rw [h.frames, hf, Option.map_some, if_neg hi]

/-- A frame is as it was, or it was due and has been written back. -/
theorem frame_cases (h : Wrote done tried s s') (hf : s.pool.frames[i]? = some f) :
    s'.pool.frames[i]? = some f ∨
      ∃ b, i ∈ done ∧ s.Due i f b ∧ s'.pool.frames[i]? = some f.rest := by
  by_cases hi : i ∈ done
  · by_cases hdue : ∃ b, s.Due i f b
    · obtain ⟨b, hdue⟩ := hdue
      exact .inr ⟨b, hi, hdue, h.frame_of_mem hf hi⟩
    · exact .inl (rest_of_not_due hf (fun b hb => hdue ⟨b, hb⟩) ▸ h.frame_of_mem hf hi)
  · exact .inl (h.frame_of_not_mem hf hi)

/-- What matters of the two lists is which frames of them were due. -/
theorem congr (h : Wrote done tried s s') (hd : ∀ i f b, s.Due i f b → (i ∈ done' ↔ i ∈ done))
    (ht : ∀ i f b, s.Due i f b → i ∈ tried → i ∈ tried') : Wrote done' tried' s s' where
  pool := h.pool
  frames j := by
    rw [h.frames]
    cases hf : s.pool.frames[j]? with
    | none => rfl
    | some f =>
      simp only [Option.map_some]
      by_cases hdue : ∃ b, s.Due j f b
      · obtain ⟨b, hdue⟩ := hdue
        simp only [hd j f b hdue]
      · rw [rest_of_not_due hf fun b hb => hdue ⟨b, hb⟩]
        split <;> split <;> rfl
  records := h.records
  durable := h.durable.mono
    (fun _ ⟨i, f, b, hi, hdue, hn⟩ => ⟨i, f, b, (hd i f b hdue).1 hi, hdue, hn⟩)
    fun _ ⟨i, f, b, hi, hdue, hn⟩ => ⟨i, f, b, ht i f b hdue hi, hdue, hn⟩
  deeds := by
    obtain ⟨new, hnew, hsaved⟩ := h.deeds
    refine ⟨new, hnew, fun n => (hsaved n).trans ?_⟩
    constructor
    · rintro ⟨i, f, b, hi, hdue, hn⟩
      exact ⟨i, f, b, (hd i f b hdue).2 hi, hdue, hn⟩
    · rintro ⟨i, f, b, hi, hdue, hn⟩
      exact ⟨i, f, b, (hd i f b hdue).1 hi, hdue, hn⟩
  site := h.site
  length i f b hi hdue := h.length i f b ((hd i f b hdue).1 hi) hdue
  size name := (h.size name).mono
    (fun _ ⟨i, f, b, hi, hdue, hn⟩ => ⟨i, f, b, (hd i f b hdue).1 hi, hdue, hn⟩)
    fun _ ⟨i, f, b, hi, hdue, hn⟩ => ⟨i, f, b, (hd i f b hdue).2 hi, hdue, hn⟩
  written i f b name k hi hdue ha := h.written i f b name k ((hd i f b hdue).1 hi) hdue
    fun j g c hj hg => ha j g c ((hd j g c hg).2 hj) hg
  others name k hnone := h.others name k fun i f b hi hdue =>
    hnone i f b ((hd i f b hdue).2 hi) hdue

theorem due_cases (h : Wrote done tried s s') (hi : i ∈ done ++ done') (hdue : s.Due i f b) :
    i ∈ done ∨ (i ∈ done' ∧ s'.Due i f b) := by
  by_cases hin : i ∈ done
  · exact .inl hin
  · exact .inr ⟨(List.mem_append.1 hi).resolve_left hin, h.due_iff.2 ⟨hin, hdue⟩⟩

theorem marks_trans (h : Wrote done tried s s') {n : Nat} (hn : s.marks (done ++ done') n) :
    s.marks done n ∨ s'.marks done' n := by
  obtain ⟨i, f, b, hi, hdue, rfl⟩ := hn
  rcases h.due_cases hi hdue with hin | ⟨hi', hdue'⟩
  · exact .inl ⟨i, f, b, hin, hdue, rfl⟩
  · exact .inr ⟨i, f, b, hi', hdue', by rw [h.last]⟩

theorem marks_append (h : Wrote done tried s s') {l l' : List Nat} {n : Nat}
    (hn : s.marks l n ∨ s'.marks l' n) : s.marks (l ++ l') n := by
  rcases hn with ⟨i, f, b, hi, hdue, rfl⟩ | ⟨i, f, b, hi, hdue, rfl⟩
  · exact ⟨i, f, b, List.mem_append_left _ hi, hdue, rfl⟩
  · exact ⟨i, f, b, List.mem_append_right _ hi, (h.due_iff.1 hdue).2, by rw [h.last]⟩

theorem ends_iff (h : Wrote done tried s s') {name : String} {n : Nat} :
    s.ends (done ++ done') name n ↔ s.ends done name n ∨ s'.ends done' name n := by
  constructor
  · rintro ⟨i, f, b, hi, hdue, hn⟩
    rcases h.due_cases hi hdue with hin | ⟨hi', hdue'⟩
    · exact .inl ⟨i, f, b, hin, hdue, hn⟩
    · exact .inr ⟨i, f, b, hi', hdue', h.blockSize.symm ▸ hn⟩
  · rintro (⟨i, f, b, hi, hdue, hn⟩ | ⟨i, f, b, hi, hdue, hn⟩)
    · exact ⟨i, f, b, List.mem_append_left _ hi, hdue, hn⟩
    · exact ⟨i, f, b, List.mem_append_right _ hi, (h.due_iff.1 hdue).2, h.blockSize ▸ hn⟩

theorem trans (h : Wrote done tried s s') (h' : Wrote done' tried' s' s'') :
    Wrote (done ++ done') (tried ++ tried') s s'' where
  pool := by rw [h'.pool, h.pool]
  frames j := by
    rw [h'.frames, h.frames]
    cases s.pool.frames[j]? with
    | none => rfl
    | some f =>
      by_cases hj : j ∈ done <;> by_cases hj' : j ∈ done' <;> simp [hj, hj']
  records := h'.records.trans h.records
  durable := (h.durable.trans h'.durable).mono (fun _ => h.marks_trans) fun _ => h.marks_append
  deeds := by
    obtain ⟨new, hnew, hsaved⟩ := h.deeds
    obtain ⟨new', hnew', hsaved'⟩ := h'.deeds
    refine ⟨new' ++ new, by rw [hnew', hnew, List.append_assoc], fun n => ?_⟩
    constructor
    · rintro ⟨durable, hmem⟩
      rcases List.mem_append.1 hmem with hmem | hmem
      · obtain ⟨i, f, b, hi, hdue, hn⟩ := (hsaved' n).1 ⟨durable, hmem⟩
        exact ⟨i, f, b, List.mem_append_right _ hi, (h.due_iff.1 hdue).2, hn⟩
      · obtain ⟨i, f, b, hi, hdue, hn⟩ := (hsaved n).1 ⟨durable, hmem⟩
        exact ⟨i, f, b, List.mem_append_left _ hi, hdue, hn⟩
    · rintro ⟨i, f, b, hi, hdue, hn⟩
      rcases h.due_cases hi hdue with hin | ⟨hi', hdue'⟩
      · obtain ⟨durable, hmem⟩ := (hsaved n).2 ⟨i, f, b, hin, hdue, hn⟩
        exact ⟨durable, List.mem_append_right _ hmem⟩
      · obtain ⟨durable, hmem⟩ := (hsaved' n).2 ⟨i, f, b, hi', hdue', hn⟩
        exact ⟨durable, List.mem_append_left _ hmem⟩
  site := h'.site.trans h.site
  length i f b hi hdue := by
    rcases h.due_cases hi hdue with hin | ⟨hi', hdue'⟩
    · exact h.length i f b hin hdue
    · exact h.blockSize ▸ h'.length i f b hi' hdue'
  size name := ((h.size name).trans (h'.size name)).mono (fun _ => h.ends_iff.1)
    fun _ => h.ends_iff.2
  written i f b name k hi hdue ha hc := by
    rcases h.due_cases hi hdue with hin | ⟨hi', hdue'⟩
    · -- What was written first is not under the blocks of the others.
      rw [h'.others name k fun j g c hj hg hc' => ?_]
      · exact h.written i f b name k hin hdue
          (fun j g c hj => ha j g c (List.mem_append_left _ hj)) hc
      · obtain ⟨hjn, hg⟩ := h.due_iff.1 hg
        rw [h.blockSize] at hc'
        have hapart := ha j g c (List.mem_append_right _ hj) hg fun he => hjn (he ▸ hin)
        exact hapart.not_covers hc hc'
    · have hw := h'.written i f b name k hi' hdue' fun j g c hj hg =>
        ha j g c (List.mem_append_right _ hj) (h.due_iff.1 hg).2
      rw [h.blockSize] at hw
      exact hw hc
  others name k hnone := by
    rw [h'.others name k fun i f b hi hdue => ?_]
    · exact h.others name k fun i f b hi => hnone i f b (List.mem_append_left _ hi)
    · rw [h.blockSize]
      exact hnone i f b (List.mem_append_right _ hi) (h.due_iff.1 hdue).2

theorem peek (h : Wrote done tried s s') (hi : i ∈ done) (hdue : s.Due i f b)
    (ha : s.Alone done i b) : s'.media.disk.peek b = f.data := by
  have hsize : s'.media.disk.blockSize = s.blockSize := h.blockSize
  refine Disk.peek_of_bytes ((h.length i f b hi hdue).trans hsize.symm) ?_ fun k hc => ?_
  · rw [hsize]
    exact (h.size b.file).reached _ ⟨i, f, b, hi, hdue, rfl, rfl⟩
  · rw [hsize] at hc ⊢
    exact h.written i f b b.file k hi hdue ha hc

theorem wroteBack_iff (h : Wrote done tried s s') : s.WroteBack s' b ↔
    ∃ i f, s.blockAt? i = some b ∧ s.pool.frames[i]? = some f ∧
      ∃ j g c, j ∈ done ∧ s.Due j g c ∧ g.id = f.id := by
  obtain ⟨new, hnew, hsaved⟩ := h.deeds
  constructor
  · rintro ⟨new', i, f, durable, hnew', hb, hf, hmem⟩
    obtain rfl : new' = new := List.append_cancel_right (hnew'.symm.trans hnew)
    exact ⟨i, f, hb, hf, (hsaved f.id).1 ⟨durable, hmem⟩⟩
  · rintro ⟨i, f, hb, hf, hdone⟩
    obtain ⟨durable, hmem⟩ := (hsaved f.id).2 hdone
    exact ⟨new, i, f, durable, hnew, hb, hf, hmem⟩

theorem pool_eq {t t' : Store} (h : Wrote done tried s s') (h' : Wrote done tried' t t')
    (ht : t.pool = s.pool) : t'.pool = s'.pool := by
  have hframes : t'.pool.frames = s'.pool.frames := by
    refine List.ext_getElem? fun j => ?_
    rw [h'.frames, h.frames, ht]
  rw [h'.pool, h.pool, hframes, ht]

/-- From the same contents the same frames were written back, each alone in its place. -/
theorem sameContents {t t' : Store} (h : Wrote done tried s s') (h' : Wrote done tried' t t')
    (hst : s.SameContents t) (ha : ∀ i f b, i ∈ done → s.Due i f b → s.Alone done i b) :
    s'.SameContents t' := by
  have hblock : t.blockSize = s.blockSize := hst.disk.blockSize
  refine ⟨h.pool_eq h' hst.pool, h'.site.trans (hst.disk.site.trans h.site.symm), fun name => ?_,
    fun name k => ?_⟩
  · have hends : ∀ n, t.ends done name n ↔ s.ends done name n := fun n => by
      unfold ends
      simp only [hst.due_iff, hblock]
    have hsize' := h'.size name
    rw [hst.disk.size name] at hsize'
    exact Nat.le_antisymm (hsize'.le_of_may (h.size name) fun n => (hends n).1)
      ((h.size name).le_of_may hsize' fun n => (hends n).2)
  · by_cases hc : ∃ i f b, i ∈ done ∧ s.Due i f b ∧ b.Covers s.blockSize name k
    · obtain ⟨i, f, b, hi, hdue, hc⟩ := hc
      have hal := ha i f b hi hdue
      have hal' : t.Alone done i b := fun j g c hj hg => hal j g c hj (hst.due_iff.1 hg)
      rw [h.written i f b name k hi hdue hal hc,
        h'.written i f b name k hi (hst.due_iff.2 hdue) hal' (hblock.symm ▸ hc), hblock]
    · have hnone : ∀ i f b, i ∈ done → s.Due i f b → ¬ b.Covers s.blockSize name k :=
        fun i f b hi hdue hc' => hc ⟨i, f, b, hi, hdue, hc'⟩
      have hnone' : ∀ i f b, i ∈ done → t.Due i f b → ¬ b.Covers t.blockSize name k :=
        fun i f b hi hdue => hblock.symm ▸ hnone i f b hi (hst.due_iff.1 hdue)
      rw [h.others name k hnone, h'.others name k hnone', hst.disk.byteAt]

theorem unchanged (h : Wrote done tried s s') (hnone : ∀ i f b, i ∈ done → ¬ s.Due i f b) :
    s.SameContents s' := by
  have hidle : Wrote [] tried s s' := h.congr
    (fun i f b hdue => ⟨nofun, fun hi => absurd hdue (hnone i f b hi)⟩) fun _ _ _ _ => id
  exact (Wrote.refl s).sameContents hidle (.refl s) nofun

/-- The same frames were written back, in whatever order. -/
theorem agree (h : Wrote done tried s s') (h' : Wrote done tried s s'')
    (ht : ∀ i f b, s.Due i f b → i ∈ tried → i ∈ done) : s'.Agrees s.Apart s'' where
  pool := h.pool_eq h' rfl
  records := h'.records.trans h.records.symm
  durable := by
    have hmarks : ∀ n, s.marks tried n → s.marks done n :=
      fun n ⟨i, f, b, hi, hdue, hn⟩ => ⟨i, f, b, ht i f b hdue hi, hdue, hn⟩
    exact Nat.le_antisymm (h'.durable.le_of_may h.durable hmarks)
      (h.durable.le_of_may h'.durable hmarks)
  disk ha := (h.sameContents h' (.refl s) fun _ _ _ _ hdue => ha.alone done hdue.blockAt?).disk

end Wrote

end Store

end PagedStore
