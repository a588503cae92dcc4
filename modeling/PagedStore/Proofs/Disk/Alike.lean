import PagedStore.Proofs.Disk.Reach

set_option autoImplicit false

/-!
The files of a disk byte by byte: which bytes are a block's, when two disks hold the same, and when
a block can be written. Main statements: `write_ok_iff`, and for what a block written means to every
byte `Put.byteAt` and `Put.size`.
-/

namespace PagedStore

namespace BlockId

variable {b c : BlockId} {size i : Nat} {name : String}

/-- The byte at `i` of the file that `name` leads to is one of the block, for blocks of so many
bytes. -/
def Covers (b : BlockId) (size : Nat) (name : String) (i : Nat) : Prop :=
  path? name = path? b.file ∧ b.number * size ≤ i ∧ i < b.number * size + size

instance : Decidable (b.Covers size name i) := inferInstanceAs (Decidable (_ ∧ _ ∧ _))

/-- The blocks lie in different places, whatever names their files go by. -/
def Apart (b c : BlockId) : Prop := path? b.file ≠ path? c.file ∨ b.number ≠ c.number

theorem Apart.not_covers (h : b.Apart c) (hb : b.Covers size name i) : ¬ c.Covers size name i := by
  rintro ⟨hfile, hle, hlt⟩
  rcases h with hne | hne
  · exact hne (hb.1.symm.trans hfile)
  · obtain ⟨k, rfl⟩ := Nat.exists_eq_add_of_le hb.2.1
    exact Disk.block_disjoint hne (Nat.lt_of_add_lt_add_left hb.2.2) ⟨hle, hlt⟩

end BlockId

namespace Disk

variable {d d' : Disk} {b : BlockId} {data : Bytes}

/-- The files hold the same bytes, and as many. -/
structure Alike (d d' : Disk) : Prop where
  site : d'.toSite = d.toSite
  size : ∀ name, (d'.fileOf name).size = (d.fileOf name).size
  byteAt : ∀ name i, (d'.fileOf name).byteAt i = (d.fileOf name).byteAt i

theorem Alike.blockSize (h : Alike d d') : d'.blockSize = d.blockSize :=
  congrArg Site.blockSize h.site

theorem Alike.refl (d : Disk) : Alike d d := ⟨rfl, fun _ => rfl, fun _ _ => rfl⟩

theorem Alike.symm (h : Alike d d') : Alike d' d :=
  ⟨h.site.symm, fun name => (h.size name).symm, fun name i => (h.byteAt name i).symm⟩

theorem Alike.trans {d'' : Disk} (h : Alike d d') (h' : Alike d' d'') : Alike d d'' :=
  ⟨h'.site.trans h.site, fun name => (h'.size name).trans (h.size name),
    fun name i => (h'.byteAt name i).trans (h.byteAt name i)⟩

theorem peek_of_bytes (hl : data.length = d.blockSize)
    (hs : b.number * d.blockSize + d.blockSize ≤ (d.fileOf b.file).size)
    (hb : ∀ i, b.Covers d.blockSize b.file i →
      (d.fileOf b.file).byteAt i = data.getD (i - b.number * d.blockSize) 0) : d.peek b = data := by
  rw [peek, blockBytes_eq]
  refine List.ext_getElem (by simp [hl]) fun i hi hi' => ?_
  simp only [List.getElem_map, List.getElem_range]
  rw [if_pos (by omega), hb _ ⟨rfl, by omega, by omega⟩, Nat.add_sub_cancel_left]
  simp [hi']

theorem Put.byteAt (h : Put d d' b.file b.number data) (name : String) (i : Nat) :
    (d'.fileOf name).byteAt i = if b.Covers d.blockSize name i then
      data.getD (i - b.number * d.blockSize) 0 else (d.fileOf name).byteAt i := by
  rw [h.fileOf]
  by_cases hn : path? name = path? b.file
  · rw [if_pos hn, Extents.byteAt_write, h.length]
    by_cases hi : b.number * d.blockSize ≤ i ∧ i < b.number * d.blockSize + d.blockSize
    · rw [if_pos hi, if_pos ⟨hn, hi⟩]
    · rw [if_neg hi, if_neg fun hc => hi hc.2]
  · rw [if_neg hn, if_neg fun hc => hn hc.1]

theorem Put.size (h : Put d d' b.file b.number data) (name : String) :
    (d'.fileOf name).size = if path? name = path? b.file then
      max (d.fileOf name).size (b.number * d.blockSize + d.blockSize)
      else (d.fileOf name).size := by
  rw [h.fileOf]
  split
  · rw [size_write, h.length]
  · rfl

theorem fault_openFile (d : Disk) (name : String) : (d.openFile name).2.fault = d.fault := by
  unfold openFile
  split
  · rfl
  · split <;> rfl

theorem fault_seek (d : Disk) (b : BlockId) : (d.seek b).2.fault = d.fault := by
  have hopen := fault_openFile d b.file
  unfold seek
  split
  · rfl
  · generalize d.openFile b.file = q at hopen
    obtain ⟨q, d'⟩ := q
    cases q <;> exact hopen

theorem fault_write (d : Disk) (b : BlockId) (data : Bytes) :
    (d.write b data).2.fault = d.fault := by
  have hseek := fault_seek d b
  unfold write
  split
  · rfl
  · generalize d.seek b = q at hseek
    obtain ⟨q, d'⟩ := q
    cases q <;> exact hseek

theorem fault_of_fits {start : Nat} (h : d.fits start = .ok ()) : d.fault = none := by
  unfold fits at h
  split at h
  · cases h
  · split at h
    · split at h
      · assumption
      · cases h
    · cases h

theorem fault_of_seek {r : String × Extents × Nat} (h : (d.seek b).1 = .ok r) :
    d.fault = none := by
  have hopen := fault_openFile d b.file
  unfold seek at h
  split at h
  · cases h
  · rename_i start _
    generalize d.openFile b.file = q at hopen h
    obtain ⟨q, d'⟩ := q
    cases q with
    | error e => cases h
    | ok q =>
      cases hfits : d'.fits start with
      | error e =>
        simp only [hfits, Except.map] at h
        cases h
      | ok _ => exact hopen.symm.trans (fault_of_fits hfits)

theorem write_ok_iff : (d.write b data).1 = .ok () ↔
    data.length = d.blockSize ∧ b.Reachable d.toSite ∧ d.fault = none := by
  constructor
  · intro h
    unfold write at h
    split at h
    · cases h
    · rename_i hl
      refine ⟨Decidable.not_not.1 hl, ?_⟩
      cases hseek : (d.seek b).1 with
      | error e =>
        rw [show d.seek b = (.error e, (d.seek b).2) from Prod.ext hseek rfl] at h
        cases h
      | ok r => exact ⟨reachable_of_seek hseek, fault_of_seek hseek⟩
  · rintro ⟨hl, hreach, hfault⟩
    obtain ⟨p, file, files, hseek⟩ := seek_of_reachable hfault hreach
    rw [write, if_neg (fun hne => hne hl), hseek]

end Disk

end PagedStore
