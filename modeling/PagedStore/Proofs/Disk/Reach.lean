import PagedStore.Proofs.Disk.Contents

set_option autoImplicit false

/-!
Which blocks the files can be asked for. Main statements: `reachable_of_read` and
`reachable_of_append`, and conversely `seek_of_reachable` and `read_of_reachable`; `read_eq_error`
and `append_eq_error` for how the files refuse.
-/

namespace PagedStore

/-- The name of the block's file leads to one, and the block ends early enough. -/
def BlockId.Reachable (b : BlockId) (site : Site) : Prop :=
  ((path? b.file).isSome ∧ site.Admits b.file) ∧ site.blockSize < memoryLimit ∧
    b.number * site.blockSize + site.blockSize < Disk.endLimit

instance (b : BlockId) (site : Site) : Decidable (b.Reachable site) :=
  inferInstanceAs (Decidable (_ ∧ _))

namespace Disk

theorem of_fits {d : Disk} {start : Nat} (h : d.fits start = .ok ()) :
    d.blockSize < memoryLimit ∧ start + d.blockSize < endLimit := by
  unfold fits at h
  split at h
  · cases h
  · rename_i hsize
    split at h
    · rename_i hend
      exact ⟨Nat.lt_of_not_le hsize, hend⟩
    · cases h

theorem reachable_of_seek {d : Disk} {b : BlockId} {r : String × Extents × Nat}
    (h : (d.seek b).1 = .ok r) : b.Reachable d.toSite := by
  unfold seek offset at h
  split at h
  · cases h
  · rename_i start hstart
    obtain rfl : start = b.number * d.blockSize := by
      split at hstart <;> cases hstart
      rfl
    obtain ⟨hs, hok⟩ := openFile_spec d b.file
    generalize d.openFile b.file = q at hs hok h
    obtain ⟨q, d'⟩ := q
    cases q with
    | error e => cases h
    | ok q =>
      obtain ⟨p, file⟩ := q
      cases hfits : d'.fits (b.number * d.blockSize) with
      | error e =>
        simp only [hfits, Except.map] at h
        cases h
      | ok _ =>
        obtain ⟨hsize, hend⟩ := of_fits hfits
        obtain ⟨hp, hadmits, -⟩ := hok p file rfl
        rw [hs.blockSize] at hsize hend
        exact ⟨⟨hp ▸ rfl, hadmits⟩, hsize, hend⟩

theorem reachable_of_read {d : Disk} {b : BlockId} {len : Nat} {data : Bytes}
    (h : (d.read b len).1 = .ok data) : b.Reachable d.toSite := by
  unfold read at h
  split at h
  · cases h
  · split at h
    · cases h
    · have hseek : ∀ r, (d.seek b).1 = .ok r → b.Reachable d.toSite :=
        fun _ => reachable_of_seek
      generalize d.seek b = q at h hseek
      obtain ⟨q, d'⟩ := q
      cases q with
      | error e => cases h
      | ok q => exact hseek q rfl

theorem reachable_of_append {d d' : Disk} {name : String} {b : BlockId}
    (h : d.append name = (.ok b, d')) : b.Reachable d.toSite := by
  obtain ⟨rfl, hput⟩ := put_of_append h
  unfold append at h
  obtain ⟨hs, hok⟩ := openFile_spec d name
  generalize d.openFile name = q at hs hok h
  obtain ⟨q, d''⟩ := q
  cases q with
  | error e => cases h
  | ok q =>
    have hadmits := (hok q.1 q.2 rfl).2.1
    dsimp only at h
    split at h
    · cases h
    · rename_i number hn
      split at h
      · cases h
      · rename_i hfits
        obtain ⟨hsize, hend⟩ := of_fits hfits
        simp only [Prod.mk.injEq, Except.ok.injEq, BlockId.mk.injEq, true_and] at h
        refine ⟨⟨hput.named, hadmits⟩, ?_⟩
        rw [← h.1, ← hs.blockSize]
        exact ⟨hsize, hend⟩

theorem openFile_of_path? {d : Disk} {name p : String} (hp : path? name = some p)
    (hadmits : d.Admits name) :
    ∃ file files, d.openFile name = (.ok (p, file), { d with files }) := by
  unfold openFile
  rw [resolveName_eq_ok_iff.2 ⟨hp, hadmits⟩]
  dsimp only
  split
  · exact ⟨_, d.files, rfl⟩
  · exact ⟨_, _, rfl⟩

theorem seek_of_reachable {d : Disk} {b : BlockId} (hf : d.fault = none)
    (h : b.Reachable d.toSite) : ∃ p file files,
      d.seek b = (.ok (p, file, b.number * d.blockSize), { d with files }) := by
  obtain ⟨⟨hnamed, hadmits⟩, hsize, hend⟩ := h
  obtain ⟨p, hp⟩ := Option.isSome_iff_exists.1 hnamed
  have hoffset : b.number * d.blockSize < offsetLimit := by
    have : endLimit ≤ offsetLimit := Nat.div_le_self ..
    omega
  have hfits : ∀ files, Disk.fits { d with files } (b.number * d.blockSize) = .ok () := by
    intro files
    rw [fits, if_neg (Nat.not_le.2 hsize), if_pos hend, hf]
  obtain ⟨file, files, hopen⟩ := openFile_of_path? hp hadmits
  refine ⟨p, file, files, ?_⟩
  simp only [seek, offset, if_pos hoffset, hopen, hfits, Except.map]

theorem read_of_reachable {d : Disk} {b : BlockId} (hf : d.fault = none)
    (h : b.Reachable d.toSite) : (d.read b d.blockSize).1 = .ok (d.peek b) := by
  obtain ⟨p, file, files, hseek⟩ := seek_of_reachable hf h
  have hok : ∃ data, (d.read b d.blockSize).1 = .ok data := by
    rw [read, if_neg (Nat.not_le.2 h.2.1), if_neg (fun hne => hne rfl), hseek]
    exact ⟨_, rfl⟩
  obtain ⟨data, hdata⟩ := hok
  rw [hdata, peek_of_read hdata]

theorem read_of_overflow {d : Disk} {b : BlockId} (hsize : d.blockSize < memoryLimit)
    (h : offsetLimit ≤ b.number * d.blockSize) :
    d.read b d.blockSize = (.error (.crash .offsetOverflow), d) := by
  rw [read, if_neg (Nat.not_le.2 hsize), if_neg (fun hne => hne rfl)]
  simp only [seek, offset, if_neg (Nat.not_lt.2 h)]

theorem openFile_eq_error {d d' : Disk} {name : String} {e : Failure}
    (h : d.openFile name = (.error e, d')) : ∃ e', e = .error e' := by
  unfold openFile at h
  split at h
  · cases h
    exact ⟨_, rfl⟩
  · split at h <;> cases h

theorem fits_eq_error {d : Disk} {start : Nat} {e : Failure} (hsize : d.blockSize < memoryLimit)
    (h : d.fits start = .error e) : ∃ e', e = .error e' := by
  unfold fits at h
  rw [if_neg (Nat.not_le.2 hsize)] at h
  split at h
  · split at h
    · cases h
    · cases h
      exact ⟨_, rfl⟩
  · cases h
    exact ⟨_, rfl⟩

theorem read_eq_error {d d' : Disk} {b : BlockId} {e : Failure} (hsize : d.blockSize < memoryLimit)
    (h : d.read b d.blockSize = (.error e, d')) :
    (∃ e', e = .error e') ∨ offsetLimit ≤ b.number * d.blockSize := by
  rcases Nat.lt_or_ge (b.number * d.blockSize) offsetLimit with hlt | hge
  · refine .inl ?_
    rw [read, if_neg (Nat.not_le.2 hsize), if_neg (fun hne => hne rfl)] at h
    simp only [seek, offset, if_pos hlt] at h
    have hopen : ∀ {e d'}, d.openFile b.file = (.error e, d') → ∃ e', e = .error e' :=
      openFile_eq_error
    have hsame := (openFile_spec d b.file).1
    generalize d.openFile b.file = q at hopen hsame h
    obtain ⟨q, d₁⟩ := q
    cases q with
    | error e₁ =>
      cases h
      exact hopen rfl
    | ok q =>
      dsimp only at h hsame
      cases hfits : d₁.fits (b.number * d.blockSize) with
      | error e₁ =>
        rw [hfits] at h
        cases h
        exact fits_eq_error (hsame.blockSize ▸ hsize) hfits
      | ok u =>
        rw [hfits] at h
        cases h
  · exact .inr hge

theorem append_eq_error {d d' : Disk} {name : String} {e : Failure} (hpos : d.blockSize ≠ 0)
    (hsize : d.blockSize < memoryLimit) (h : d.append name = (.error e, d')) :
    ∃ e', e = .error e' := by
  unfold append at h
  have hopen : ∀ {e d'}, d.openFile name = (.error e, d') → ∃ e', e = .error e' :=
    openFile_eq_error
  have hsame := (openFile_spec d name).1
  generalize d.openFile name = q at hopen hsame h
  obtain ⟨q, d₁⟩ := q
  cases q with
  | error e₁ =>
    cases h
    exact hopen rfl
  | ok q =>
    have hsize₁ : d₁.blockSize < memoryLimit := hsame.blockSize ▸ hsize
    have hpos₁ : d₁.blockSize ≠ 0 := hsame.blockSize ▸ hpos
    simp only [blocksIn, if_neg hpos₁] at h
    split at h
    · rename_i e₁ hfits
      cases h
      exact fits_eq_error hsize₁ hfits
    · cases h

end Disk

end PagedStore
