import PagedStore.Order
import Mathlib.Data.List.Sort

set_option autoImplicit false

/-!
The sort that runs is the library's insertion sort. Main statement: `sortBy_eq`.
-/

namespace PagedStore

variable {α : Type}

theorem insertBy_eq (le : α → α → Bool) (a : α) (bs : List α) :
    insertBy le a bs = bs.orderedInsert (fun x y => le x y) a := by
  induction bs with
  | nil => rfl
  | cons b bs ih => rw [insertBy, ih, List.orderedInsert_cons]

theorem sortBy_eq (le : α → α → Bool) (as : List α) :
    sortBy le as = as.insertionSort fun x y => le x y := by
  induction as with
  | nil => rfl
  | cons a as ih => rw [sortBy, ih, insertBy_eq, List.insertionSort_cons]

end PagedStore
