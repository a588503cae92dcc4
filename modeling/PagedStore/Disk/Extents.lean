import PagedStore.Bytes

set_option autoImplicit false

/-!
The contents of a file as the runs of bytes written to it, so that a write far past the end costs
no more than its own bytes. Main statements: `byteAt_write` says what a write changes, `read_eq`
what a read finds, and bytes never written are zero.
-/

namespace PagedStore

/-- A file's size and the runs written to it, the latest first. -/
structure Extents where
  size : Nat := 0
  runs : List (Nat × Array UInt8) := []

namespace Extents

def empty : Extents := {}

/-- What a run says about a place, if it covers it. -/
def runAt (r : Nat × Array UInt8) (i : Nat) : Option UInt8 :=
  if r.1 ≤ i then r.2[i - r.1]? else none

/-- A run has bytes at or behind `start` and before `stop`. -/
def meets (start stop : Nat) (r : Nat × Array UInt8) : Bool := start < r.1 + r.2.size ∧ r.1 < stop

def byteIn (runs : List (Nat × Array UInt8)) (i : Nat) : UInt8 :=
  (runs.findSome? fun r => runAt r i).getD 0

def byteAt (f : Extents) (i : Nat) : UInt8 := byteIn f.runs i

def read (f : Extents) (start len : Nat) : Bytes :=
  let len := min len (f.size - start)
  let near := f.runs.filter (meets start (start + len))
  (List.range len).map fun i => byteIn near (start + i)

/-- Writes a run and forgets those that it hides. -/
def write (f : Extents) (start : Nat) (data : Bytes) : Extents :=
  let run := data.toArray
  { size := max f.size (start + run.size)
    runs := (start, run) :: f.runs.filter fun r =>
      ¬ (start ≤ r.1 ∧ r.1 + r.2.size ≤ start + run.size) }

theorem runAt_eq_none_iff (r : Nat × Array UInt8) (i : Nat) :
    runAt r i = none ↔ ¬ (r.1 ≤ i ∧ i < r.1 + r.2.size) := by
  unfold runAt
  split <;> simp <;> omega

theorem byteAt_empty (i : Nat) : empty.byteAt i = 0 := rfl

theorem findSome?_filter_of_none {α β : Type} (f : α → Option β) (p : α → Bool) (xs : List α)
    (h : ∀ x ∈ xs, p x = false → f x = none) : (xs.filter p).findSome? f = xs.findSome? f := by
  induction xs with
  | nil => rfl
  | cons x xs ih =>
    have ih := ih fun y hy => h y (List.mem_cons_of_mem x hy)
    by_cases hp : p x
    · simp [hp, List.findSome?_cons, ih]
    · have hx := h x List.mem_cons_self (by simpa using hp)
      simp [hp, hx, ih]

/-- A write changes the bytes of its own range and no others. -/
theorem byteAt_write (f : Extents) (start : Nat) (data : Bytes) (i : Nat) :
    (f.write start data).byteAt i =
      if start ≤ i ∧ i < start + data.length then data.getD (i - start) 0 else f.byteAt i := by
  by_cases h : start ≤ i ∧ i < start + data.length
  · have hr : runAt (start, data.toArray) i = some (data.getD (i - start) 0) := by
      have hlt : i - start < data.length := by omega
      simp [runAt, h.1, hlt]
    simp [byteAt, byteIn, write, hr, h]
  · have hr : runAt (start, data.toArray) i = none :=
      (runAt_eq_none_iff _ _).2 (by rw [List.size_toArray]; exact h)
    simp only [byteAt, byteIn, write, List.findSome?_cons, hr, if_neg h]
    rw [findSome?_filter_of_none]
    intro r _ hp
    rw [runAt_eq_none_iff]
    simp only [decide_eq_false_iff_not, Decidable.not_not, List.size_toArray] at hp
    omega

/-- A read gives the bytes of its places, as far as there are any. -/
theorem read_eq (f : Extents) (start len : Nat) : f.read start len =
    (List.range (min len (f.size - start))).map fun i => f.byteAt (start + i) := by
  refine List.map_congr_left fun i hi => ?_
  rw [List.mem_range] at hi
  unfold byteAt byteIn
  rw [findSome?_filter_of_none]
  intro r _ hp
  rw [runAt_eq_none_iff]
  simp only [meets, decide_eq_false_iff_not] at hp
  omega

@[simp] theorem length_read (f : Extents) (start len : Nat) :
    (f.read start len).length = min len (f.size - start) := by simp [read]

end Extents

end PagedStore
