set_option autoImplicit false

/-!
Numbers as big-endian bytes, and bytes written over other bytes. Main statements: `ofBigEndian`
reads back what `bigEndian` writes, and conversely, and `overlay` changes nothing outside its range.
-/

namespace PagedStore

abbrev Bytes := List UInt8

/-- The low `width` bytes of `n`, most significant first. -/
def bigEndian : (width n : Nat) → Bytes
  | 0, _ => []
  | width + 1, n => bigEndian width (n / 256) ++ [UInt8.ofNat n]

/-- The numbers below this fit a word of `width` bytes. -/
def wordLimit : (width : Nat) → Nat
  | 0 => 1
  | width + 1 => 256 * wordLimit width

theorem wordLimit_four : wordLimit 4 = 4294967296 := rfl

theorem wordLimit_eight : wordLimit 8 = 18446744073709551616 := rfl

/-- No run of bytes in memory is this long. -/
def memoryLimit : Nat := wordLimit 8 / 2

def ofBigEndian (bs : Bytes) : Nat := bs.foldl (fun n b => 256 * n + b.toNat) 0

@[simp] theorem length_bigEndian (width n : Nat) : (bigEndian width n).length = width := by
  induction width generalizing n with
  | zero => rfl
  | succ width ih => simp [bigEndian, ih]

theorem ofBigEndian_concat (bs : Bytes) (b : UInt8) :
    ofBigEndian (bs ++ [b]) = 256 * ofBigEndian bs + b.toNat := by simp [ofBigEndian]

theorem ofBigEndian_bigEndian (width n : Nat) :
    ofBigEndian (bigEndian width n) = n % wordLimit width := by
  induction width generalizing n with
  | zero => simp [bigEndian, ofBigEndian, wordLimit, Nat.mod_one]
  | succ width ih =>
    rw [bigEndian, ofBigEndian_concat, ih, wordLimit, Nat.mod_mul]
    simp only [UInt8.toNat_ofNat']
    omega

theorem ofBigEndian_bigEndian_of_lt {width n : Nat} (h : n < wordLimit width) :
    ofBigEndian (bigEndian width n) = n := by
  rw [ofBigEndian_bigEndian, Nat.mod_eq_of_lt h]

theorem exists_concat {width : Nat} {bs : Bytes} (h : bs.length = width + 1) :
    ∃ rest b, bs = rest ++ [b] ∧ rest.length = width := by
  rcases List.eq_nil_or_concat bs with rfl | ⟨rest, b, rfl⟩
  · cases h
  · rw [List.concat_eq_append] at h ⊢
    rw [List.length_append] at h
    exact ⟨rest, b, rfl, Nat.succ.inj h⟩

theorem ofBigEndian_lt {width : Nat} {bs : Bytes} (h : bs.length = width) :
    ofBigEndian bs < wordLimit width := by
  induction width generalizing bs with
  | zero =>
    rw [List.length_eq_zero_iff.1 h]
    exact Nat.one_pos
  | succ width ih =>
    obtain ⟨rest, b, rfl, hrest⟩ := exists_concat h
    have hb := b.toNat_lt
    have hlt := ih hrest
    rw [ofBigEndian_concat, wordLimit]
    omega

/-- Bytes are what is written for the number that they are read as. -/
theorem bigEndian_ofBigEndian {width : Nat} {bs : Bytes} (h : bs.length = width) :
    bigEndian width (ofBigEndian bs) = bs := by
  induction width generalizing bs with
  | zero => rw [List.length_eq_zero_iff.1 h, bigEndian]
  | succ width ih =>
    obtain ⟨rest, b, rfl, hrest⟩ := exists_concat h
    have hb := b.toNat_lt
    have hfront : (256 * ofBigEndian rest + b.toNat) / 256 = ofBigEndian rest := by omega
    have hlast : UInt8.ofNat (256 * ofBigEndian rest + b.toNat) = b := by
      apply UInt8.toNat_inj.1
      rw [UInt8.toNat_ofNat']
      omega
    rw [ofBigEndian_concat, bigEndian, hfront, hlast, ih hrest]

/-- `xs` with `ys` written over it from place `start` on. -/
def overlay (xs : Bytes) (start : Nat) (ys : Bytes) : Bytes :=
  xs.take start ++ ys ++ xs.drop (start + ys.length)

theorem length_overlay {xs ys : Bytes} {start : Nat} (h : start + ys.length ≤ xs.length) :
    (overlay xs start ys).length = xs.length := by
  simp [overlay]; omega

theorem getElem?_overlay {xs ys : Bytes} {start : Nat} (h : start + ys.length ≤ xs.length)
    (i : Nat) : (overlay xs start ys)[i]? =
      if start ≤ i ∧ i < start + ys.length then ys[i - start]? else xs[i]? := by
  have hs : (xs.take start).length = start := List.length_take_of_le (by omega)
  unfold overlay
  by_cases h1 : i < start
  · rw [if_neg (by omega), List.append_assoc, List.getElem?_append_left (by omega),
      List.getElem?_take_of_lt h1]
  · rw [List.append_assoc, List.getElem?_append_right (by omega), hs]
    by_cases h2 : i - start < ys.length
    · rw [if_pos (by omega), List.getElem?_append_left h2]
    · rw [if_neg (by omega), List.getElem?_append_right (by omega), List.getElem?_drop]
      congr 1
      omega

theorem take_drop_overlay {xs ys : Bytes} {start : Nat} (h : start + ys.length ≤ xs.length) :
    ((overlay xs start ys).drop start).take ys.length = ys := by
  have hs : (xs.take start).length = start := by simp; omega
  rw [overlay, List.append_assoc, List.drop_append_of_le_length (by omega)]
  simp [List.drop_eq_nil_of_le (Nat.le_of_eq hs)]

end PagedStore
