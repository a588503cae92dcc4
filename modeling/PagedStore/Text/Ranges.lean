set_option autoImplicit false

/-!
Sets of code points as ranges in ascending order. Main statement: on such a list `within` finds
exactly the members of its ranges.
-/

namespace PagedStore

/-- The first and the last code point of each range. -/
abbrev Ranges := List (Nat × Nat)

namespace Ranges

/-- Every range begins at `low` or later, and behind the one before it. -/
def ascending (low : Nat) : Ranges → Bool
  | [] => true
  | r :: rest => low ≤ r.1 && r.1 ≤ r.2 && ascending (r.2 + 1) rest

/-- Looks at the first range that does not end before `n`. -/
def within (n : Nat) : Ranges → Bool
  | [] => false
  | r :: rest => if n ≤ r.2 then r.1 ≤ n else within n rest

theorem le_of_mem {low : Nat} {rs : Ranges} (h : ascending low rs) {r : Nat × Nat}
    (hr : r ∈ rs) : low ≤ r.1 := by
  induction rs generalizing low with
  | nil => cases hr
  | cons s rest ih =>
    simp only [ascending, Bool.and_eq_true, decide_eq_true_eq] at h
    rcases List.mem_cons.1 hr with rfl | hr
    · exact h.1.1
    · have := ih h.2 hr
      omega

theorem within_iff {low : Nat} {rs : Ranges} (h : ascending low rs) (n : Nat) :
    within n rs ↔ ∃ r ∈ rs, r.1 ≤ n ∧ n ≤ r.2 := by
  induction rs generalizing low with
  | nil => simp [within]
  | cons s rest ih =>
    simp only [ascending, Bool.and_eq_true, decide_eq_true_eq] at h
    simp only [within, List.mem_cons, exists_eq_or_imp]
    split
    · rename_i hn
      rw [decide_eq_true_eq]
      refine ⟨fun hs => .inl ⟨hs, hn⟩, ?_⟩
      rintro (hs | ⟨r, hr, hs, -⟩)
      · exact hs.1
      · have := le_of_mem h.2 hr
        omega
    · rename_i hn
      rw [ih h.2]
      refine ⟨.inr, ?_⟩
      rintro (hs | hs)
      · exact absurd hs.2 hn
      · exact hs

end Ranges

end PagedStore
