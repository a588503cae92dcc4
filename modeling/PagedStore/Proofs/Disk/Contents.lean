import PagedStore.Disk

set_option autoImplicit false

/-!
What the files of a disk hold, block by block, and what each operation changes of it. Main
statements: `peek_of_read`, `same_of_write_error`, `put_of_write`, `put_of_append`, and for what a
block written means to the others `Put.peek` and `Put.blocks`.
-/

namespace PagedStore

theorem walk_eq_ok_iff (f g : String → Bool) (up walked : List Char) (parts : List (List Char))
    (p : String) : walk f up walked parts = .ok p ↔ walk g up walked parts = .ok p := by
  induction parts generalizing walked with
  | nil => rfl
  | cons part rest ih =>
    unfold walk
    split
    · exact ih walked
    · split
      · exact ih _
      · dsimp only
        split
        · rfl
        · split
          · rfl
          · split
            · rfl
            · constructor <;> intro h <;> split at h <;> cases h

/-- The file that a name leads to, from a directory whose path is no matter. -/
def path? (name : String) : Option String := (resolveName 0 (fun _ => false) name).toOption

/-- The path is not too long for the operating system. -/
def Site.Admits (site : Site) (name : String) : Prop :=
  pathBytes site.directoryBytes name < maxPath

instance (site : Site) (name : String) : Decidable (site.Admits name) :=
  inferInstanceAs (Decidable (_ < _))

theorem resolveName_eq_ok_iff {site : Site} {isFile : String → Bool} {name p : String} :
    resolveName site.directoryBytes isFile name = .ok p ↔
      path? name = some p ∧ site.Admits name := by
  have hpath : path? name = some p ↔ resolveName 0 (fun _ => false) name = .ok p := by
    rw [path?]
    cases resolveName 0 (fun _ => false) name <;> simp [Except.toOption]
  have hroom : site.Admits name → ¬ maxPath ≤ pathBytes 0 name := by
    unfold Site.Admits pathBytes
    split <;> omega
  rw [hpath]
  unfold resolveName
  dsimp only
  by_cases hnul : '\x00' ∈ name.toList
  · simp only [if_pos hnul]
    exact iff_of_false nofun fun h => nomatch h.1
  · by_cases hadmits : site.Admits name
    · rw [if_neg hnul, if_neg (Nat.not_le.2 hadmits), if_neg hnul, if_neg (hroom hadmits),
        and_iff_left hadmits]
      split <;> exact walk_eq_ok_iff ..
    · rw [if_neg hnul, if_pos (Nat.not_lt.1 hadmits)]
      exact iff_of_false nofun fun h => hadmits h.2

/-- Different names of a kind lead to different files. -/
def Distinct (names : String → Prop) : Prop :=
  ∀ m n, names m → names n → (path? m).isSome → path? m = path? n → m = n

namespace Disk

def fileOf (d : Disk) (name : String) : Extents :=
  match path? name with
  | none => .empty
  | some p => (d.files.find? p).getD .empty

def peek (d : Disk) (b : BlockId) : Bytes :=
  blockBytes (d.fileOf b.file) (b.number * d.blockSize) d.blockSize

def blocks (d : Disk) (name : String) : Nat := (d.fileOf name).size / d.blockSize

@[simp] theorem length_peek (d : Disk) (b : BlockId) : (d.peek b).length = d.blockSize := by
  simp [peek]

structure Same (d d' : Disk) : Prop where
  site : d'.toSite = d.toSite
  fileOf : ∀ name, d'.fileOf name = d.fileOf name

theorem Same.blockSize {d d' : Disk} (h : Same d d') : d'.blockSize = d.blockSize :=
  congrArg Site.blockSize h.site

theorem Same.refl (d : Disk) : Same d d := ⟨rfl, fun _ => rfl⟩

theorem Same.peek {d d' : Disk} (h : Same d d') (b : BlockId) : d'.peek b = d.peek b := by
  rw [Disk.peek, Disk.peek, h.blockSize, h.fileOf]

theorem Same.blocks {d d' : Disk} (h : Same d d') (name : String) :
    d'.blocks name = d.blocks name := by
  rw [Disk.blocks, Disk.blocks, h.blockSize, h.fileOf]

theorem same_reopen {d : Disk} {blockSize : Nat} (h : d.blockSize = blockSize) :
    Same d (d.reopen blockSize) := by
  subst h
  exact ⟨rfl, fun _ => rfl⟩

theorem fileOf_eq {d : Disk} {name p : String} (h : path? name = some p) :
    d.fileOf name = (d.files.find? p).getD .empty := by
  simp [fileOf, h]

theorem same_insert_empty {d : Disk} {p : String} (h : d.files.find? p = none) :
    Same d { d with files := d.files.insert p .empty } := by
  refine ⟨rfl, fun name => ?_⟩
  cases hp : path? name with
  | none => simp [fileOf, hp]
  | some q =>
    rw [fileOf_eq hp, fileOf_eq hp, Registry.find?_insert]
    by_cases hq : q = p
    · subst hq
      simp [h]
    · simp [hq]

theorem openFile_spec (d : Disk) (name : String) :
    Same d (d.openFile name).2 ∧ ∀ p file, (d.openFile name).1 = .ok (p, file) →
      path? name = some p ∧ d.Admits name ∧ file = d.fileOf name := by
  unfold openFile
  cases hr : resolveName d.directoryBytes d.isFile name with
  | error e =>
    refine ⟨.refl d, fun p file h => ?_⟩
    cases h
  | ok q =>
    obtain ⟨hq, hadmits⟩ := resolveName_eq_ok_iff.1 hr
    cases hf : d.files.find? q with
    | some file =>
      simp only [hf]
      refine ⟨.refl d, fun p file' h => ?_⟩
      cases h
      exact ⟨hq, hadmits, by simp [fileOf_eq hq, hf]⟩
    | none =>
      simp only [hf]
      refine ⟨same_insert_empty hf, fun p file' h => ?_⟩
      cases h
      exact ⟨hq, hadmits, by simp [fileOf_eq hq, hf]⟩

theorem seek_spec (d : Disk) (b : BlockId) :
    Same d (d.seek b).2 ∧ ∀ p file start, (d.seek b).1 = .ok (p, file, start) →
      path? b.file = some p ∧ file = d.fileOf b.file ∧ start = b.number * d.blockSize := by
  unfold seek offset
  split
  · rename_i e he
    refine ⟨.refl d, fun p file start h => ?_⟩
    cases h
  · rename_i start he
    have hs : start = b.number * d.blockSize := by
      split at he <;> cases he
      rfl
    obtain ⟨hsame, hok⟩ := openFile_spec d b.file
    generalize d.openFile b.file = r at hsame hok
    obtain ⟨r, d'⟩ := r
    cases r with
    | error e =>
      refine ⟨hsame, fun p file start h => ?_⟩
      cases h
    | ok r =>
      obtain ⟨p, file⟩ := r
      refine ⟨hsame, fun p' file' start' h => ?_⟩
      cases hfits : d'.fits start with
      | error e =>
        simp [hfits, Except.map] at h
      | ok u =>
        simp only [hfits, Except.map, Except.ok.injEq, Prod.mk.injEq] at h
        obtain ⟨rfl, rfl, rfl⟩ := h
        obtain ⟨hp, -, hf⟩ := hok _ _ rfl
        exact ⟨hp, hf, hs⟩

theorem same_read (d : Disk) (b : BlockId) (len : Nat) : Same d (d.read b len).2 := by
  unfold read
  split
  · exact .refl d
  · split
    · exact .refl d
    · have hs := (seek_spec d b).1
      generalize d.seek b = r at hs
      obtain ⟨r, d'⟩ := r
      cases r with
      | error e => exact hs
      | ok r => exact ⟨hs.site, hs.fileOf⟩

theorem same_length (d : Disk) (name : String) : Same d (d.length name).2 := by
  have hs := (openFile_spec d name).1
  unfold length
  generalize d.openFile name = r at hs
  obtain ⟨r, d'⟩ := r
  cases r <;> exact hs

theorem peek_of_read {d : Disk} {b : BlockId} {len : Nat} {data : Bytes}
    (h : (d.read b len).1 = .ok data) : data = d.peek b := by
  unfold read at h
  split at h
  · cases h
  · split at h
    · cases h
    · obtain ⟨hs, hok⟩ := seek_spec d b
      generalize d.seek b = r at hs hok h
      obtain ⟨r, d'⟩ := r
      cases r with
      | error e => cases h
      | ok r =>
        obtain ⟨p, file, start⟩ := r
        obtain ⟨-, rfl, rfl⟩ := hok _ _ _ rfl
        simp only [Except.ok.injEq] at h
        rw [← h, hs.blockSize]
        rfl

/-- The bytes of one block of a file became `data`, and nothing else was written. -/
structure Put (d d' : Disk) (name : String) (number : Nat) (data : Bytes) : Prop where
  site : d'.toSite = d.toSite
  named : (path? name).isSome
  length : data.length = d.blockSize
  fileOf : ∀ n, d'.fileOf n =
    if path? n = path? name then (d.fileOf n).write (number * d.blockSize) data else d.fileOf n

theorem Put.blockSize {d d' : Disk} {name : String} {number : Nat} {data : Bytes}
    (h : Put d d' name number data) : d'.blockSize = d.blockSize := congrArg Site.blockSize h.site

theorem put_insert {d d' : Disk} (hs : Same d d') {name p : String} (hp : path? name = some p)
    (number : Nat) {data : Bytes} (hl : data.length = d.blockSize) (writes : Nat) :
    Put d { d' with
      files := d'.files.insert p ((d.fileOf name).write (number * d.blockSize) data), writes }
      name number data := by
  refine ⟨hs.site, by simp [hp], hl, fun n => ?_⟩
  rw [hp]
  by_cases hn : path? n = some p
  · rw [if_pos hn, fileOf_eq hn]
    simp [fileOf_eq hn, fileOf_eq hp]
  · rw [if_neg hn, ← hs.fileOf n]
    cases hq : path? n with
    | none => simp [fileOf, hq]
    | some q =>
      have hne : q ≠ p := fun e => hn (e ▸ hq)
      rw [fileOf_eq hq, fileOf_eq hq, Registry.find?_insert_of_ne _ _ hne]

theorem same_of_write_error {d d' : Disk} {b : BlockId} {data : Bytes} {e : Failure}
    (h : d.write b data = (.error e, d')) : Same d d' := by
  unfold write at h
  split at h
  · cases h
    exact .refl d
  · have hs := (seek_spec d b).1
    generalize d.seek b = r at hs h
    obtain ⟨r, d''⟩ := r
    cases r with
    | error e =>
      cases h
      exact hs
    | ok r => cases h

theorem put_of_write {d d' : Disk} {b : BlockId} {data : Bytes}
    (h : d.write b data = (.ok (), d')) : Put d d' b.file b.number data := by
  unfold write at h
  split at h
  · cases h
  · rename_i hl
    obtain ⟨hs, hok⟩ := seek_spec d b
    generalize d.seek b = r at hs hok h
    obtain ⟨r, d''⟩ := r
    cases r with
    | error e => cases h
    | ok r =>
      obtain ⟨p, file, start⟩ := r
      obtain ⟨hp, rfl, rfl⟩ := hok _ _ _ rfl
      cases h
      exact put_insert hs hp b.number (Decidable.not_not.1 hl) _

theorem same_of_append_error {d d' : Disk} {name : String} {e : Failure}
    (h : d.append name = (.error e, d')) : Same d d' := by
  unfold append at h
  have hs := (openFile_spec d name).1
  generalize d.openFile name = r at hs h
  obtain ⟨r, d''⟩ := r
  cases r with
  | error e =>
    cases h
    exact hs
  | ok r =>
    obtain ⟨p, file⟩ := r
    dsimp only at h
    split at h
    · cases h
      exact hs
    · split at h
      · cases h
        exact hs
      · cases h

theorem put_of_append {d d' : Disk} {name : String} {b : BlockId}
    (h : d.append name = (.ok b, d')) :
    b = ⟨name, d.blocks name⟩ ∧
      Put d d' name (d.blocks name) (List.replicate d.blockSize 0) := by
  unfold append at h
  obtain ⟨hs, hok⟩ := openFile_spec d name
  generalize d.openFile name = r at hs hok h
  obtain ⟨r, d''⟩ := r
  cases r with
  | error e => cases h
  | ok r =>
    obtain ⟨p, file⟩ := r
    obtain ⟨hp, -, rfl⟩ := hok _ _ rfl
    dsimp only at h
    split at h
    · cases h
    · rename_i number hn
      have hnum : number = d.blocks name := by
        unfold blocksIn at hn
        split at hn
        · cases hn
        · cases hn
          rw [blocks, hs.blockSize]
      split at h
      · cases h
      · simp only [Prod.mk.injEq, Except.ok.injEq] at h
        obtain ⟨rfl, rfl⟩ := h
        refine ⟨by rw [hnum], ?_⟩
        have hb : d''.blockSize = d.blockSize := hs.blockSize
        have hput := put_insert hs hp (d.blocks name) (List.length_replicate (a := 0))
          (d''.writes + 1)
        rw [hnum]
        rw [← hb] at hput ⊢
        exact hput

theorem blockBytes_eq (file : Extents) (start blockSize : Nat) :
    blockBytes file start blockSize =
      (List.range blockSize).map fun i =>
        if start + i < file.size then file.byteAt (start + i) else 0 := by
  refine List.ext_getElem (by simp) fun i h _ => ?_
  rw [length_blockBytes] at h
  simp only [blockBytes, Extents.read_eq, List.getElem_map, List.getElem_range]
  by_cases hi : start + i < file.size
  · rw [List.getElem_append_left (by simp; omega)]
    simp [hi]
  · rw [List.getElem_append_right (by simp; omega)]
    simp [hi]

theorem size_write (file : Extents) (start : Nat) (data : Bytes) :
    (file.write start data).size = max file.size (start + data.length) := by
  simp [Extents.write]

theorem block_disjoint {size m n i : Nat} (hne : m ≠ n) (hi : i < size) :
    ¬ (n * size ≤ m * size + i ∧ m * size + i < n * size + size) := by
  intro h
  rcases Nat.lt_or_gt_of_ne hne with hlt | hgt
  · have := Nat.mul_le_mul_right size (Nat.succ_le_of_lt hlt)
    rw [Nat.succ_mul] at this
    omega
  · have := Nat.mul_le_mul_right size (Nat.succ_le_of_lt hgt)
    rw [Nat.succ_mul] at this
    omega

theorem blockBytes_write_self (file : Extents) (number : Nat) (data : Bytes) :
    blockBytes (file.write (number * data.length) data) (number * data.length) data.length =
      data := by
  rw [blockBytes_eq, size_write]
  refine List.ext_getElem (by simp) fun i h hi => ?_
  simp only [List.getElem_map, List.getElem_range, Extents.byteAt_write]
  rw [if_pos (by omega), if_pos ⟨by omega, by omega⟩]
  simp [hi]

theorem blockBytes_write_of_ne {file : Extents} {number other size : Nat} {data : Bytes}
    (hl : data.length = size) (hn : number * size ≤ file.size) (hne : other ≠ number) :
    blockBytes (file.write (number * size) data) (other * size) size =
      blockBytes file (other * size) size := by
  rw [blockBytes_eq, blockBytes_eq, size_write]
  refine List.map_congr_left fun i hi => ?_
  have hd := block_disjoint hne (List.mem_range.1 hi)
  rw [Extents.byteAt_write, hl, if_neg hd]
  by_cases hs : other * size + i < file.size
  · rw [if_pos (by omega), if_pos hs]
  · rw [if_neg (by omega), if_neg hs]

/-- What a block written inside its file or right behind it means to all blocks. -/
theorem Put.peek {d d' : Disk} {name : String} {number : Nat} {data : Bytes}
    (h : Put d d' name number data) (hn : number ≤ d.blocks name) (b : BlockId) :
    d'.peek b = if path? b.file = path? name ∧ b.number = number then data else d.peek b := by
  have hsize : number * d.blockSize ≤ (d.fileOf name).size :=
    Nat.le_trans (Nat.mul_le_mul_right _ hn) (Nat.div_mul_le_self ..)
  have hfile : path? b.file = path? name → d.fileOf b.file = d.fileOf name := by
    intro hp
    rw [Disk.fileOf, Disk.fileOf, hp]
  rw [Disk.peek, Disk.peek, h.blockSize, h.fileOf]
  by_cases hp : path? b.file = path? name
  · rw [if_pos hp, hfile hp]
    by_cases hb : b.number = number
    · rw [if_pos ⟨hp, hb⟩, hb, ← h.length]
      exact blockBytes_write_self ..
    · rw [if_neg fun hc => hb hc.2]
      exact blockBytes_write_of_ne h.length hsize hb
  · rw [if_neg hp, if_neg fun hc => hp hc.1]

theorem Put.blocks {d d' : Disk} {name : String} {number : Nat} {data : Bytes}
    (h : Put d d' name number data) (hpos : 0 < d.blockSize) (n : String) :
    d'.blocks n = if path? n = path? name then max (d.blocks n) (number + 1) else d.blocks n := by
  rw [Disk.blocks, Disk.blocks, h.blockSize, h.fileOf]
  split
  · rw [size_write, h.length, ← Nat.succ_mul]
    have hmono : ∀ a c : Nat, max a (c * d.blockSize) / d.blockSize = max (a / d.blockSize) c := by
      intro a c
      have hc : c * d.blockSize / d.blockSize = c := Nat.mul_div_cancel c hpos
      rcases Nat.le_total a (c * d.blockSize) with hle | hle
      · have := Nat.div_le_div_right (c := d.blockSize) hle
        rw [Nat.max_eq_right hle, hc]
        omega
      · have := Nat.div_le_div_right (c := d.blockSize) hle
        rw [Nat.max_eq_left hle]
        omega
    exact hmono ..
  · rfl

end Disk

end PagedStore
