set_option autoImplicit false

/-!
Lock modes on targets of several sizes: shared and exclusive ones, the intentions to take them on
something finer, and both at once. Main statement: `covers_iff` ties covering to compatibility.
-/

namespace PagedStore

inductive Mode where
  | is
  | ix
  | s
  | six
  | x
  deriving DecidableEq

namespace Mode

def all : List Mode := [.is, .ix, .s, .six, .x]

theorem mem_all (m : Mode) : m ∈ all := by cases m <;> decide

theorem exists_iff {p : Mode → Prop} : (∃ m, p m) ↔ p .is ∨ p .ix ∨ p .s ∨ p .six ∨ p .x := by
  constructor
  · rintro ⟨m, h⟩
    cases m <;> simp [h]
  · rintro (h | h | h | h | h) <;> exact ⟨_, h⟩

def name : Mode → String
  | .is => "IS"
  | .ix => "IX"
  | .s => "S"
  | .six => "SIX"
  | .x => "X"

def rank : Mode → Nat
  | .is => 0
  | .ix => 1
  | .s => 2
  | .six => 3
  | .x => 4

theorem rank_eq (m : Mode) : all[m.rank]? = some m := by cases m <;> rfl

/-- Who holds the first mode already has all that the second would give. -/
def covers : Mode → Mode → Bool
  | .x, _ => true
  | .six, m => m ≠ .x
  | .s, m => m = .s ∨ m = .is
  | .ix, m => m = .ix ∨ m = .is
  | .is, m => m = .is

/-- Modes that are dropped when a statement ends. -/
def isShared : Mode → Bool
  | .is | .s => true
  | .ix | .six | .x => false

/-- Two transactions may hold the two modes on one target at the same time. -/
def compatible : Mode → Mode → Bool
  | .x, _ | _, .x => false
  | .is, _ | _, .is => true
  | .ix, .ix => true
  | .s, .s => true
  | _, _ => false

theorem compatible_comm (m n : Mode) : m.compatible n = n.compatible m := by
  cases m <;> cases n <;> rfl

/-- A mode covers those that get along with everything it gets along with. -/
theorem covers_eq (m n : Mode) :
    m.covers n = all.all fun o => !m.compatible o || n.compatible o := by
  cases m <;> cases n <;> rfl

theorem covers_iff {m n : Mode} : m.covers n ↔ ∀ o, m.compatible o → n.compatible o := by
  rw [covers_eq, List.all_eq_true]
  exact ⟨fun h o ho => by simpa [ho] using h o (mem_all o), fun h o _ => by
    by_cases ho : m.compatible o
    · simp [h o ho]
    · simp [ho]⟩

theorem covers_refl (m : Mode) : m.covers m := covers_iff.2 fun _ h => h

end Mode

end PagedStore
