set_option autoImplicit false

/-!
Finite maps as lists of entries with distinct keys. Main statements: what a look-up finds after
`insert`, `erase` and `remap`, and that the keys are those with an entry.
-/

namespace PagedStore

/-- A finite map; the entry inserted last comes first. -/
structure Registry (κ ν : Type) where
  entries : List (κ × ν) := []
  distinct : (entries.map Prod.fst).Nodup := by simp

namespace Registry

variable {κ ν : Type}

def empty : Registry κ ν := {}

def keys (m : Registry κ ν) : List κ := m.entries.map Prod.fst

def size (m : Registry κ ν) : Nat := m.entries.length

theorem nodup_keys (m : Registry κ ν) : m.keys.Nodup := m.distinct

@[simp] theorem length_keys (m : Registry κ ν) : m.keys.length = m.size := by simp [keys, size]

def remap {μ : Type} (f : κ → ν → μ) (m : Registry κ ν) : Registry κ μ where
  entries := m.entries.map fun e => (e.1, f e.1 e.2)
  distinct := by simpa [Function.comp_def] using m.distinct

@[simp] theorem keys_remap {μ : Type} (f : κ → ν → μ) (m : Registry κ ν) :
    (m.remap f).keys = m.keys := by simp [keys, remap, Function.comp_def]

theorem nodup_filter (es : List (κ × ν)) (p : κ × ν → Bool) (h : (es.map Prod.fst).Nodup) :
    ((es.filter p).map Prod.fst).Nodup :=
  h.sublist (List.filter_sublist.map _)

variable [DecidableEq κ]

def find? (m : Registry κ ν) (k : κ) : Option ν :=
  (m.entries.find? fun e => e.1 = k).map Prod.snd

def contains (m : Registry κ ν) (k : κ) : Bool := (m.find? k).isSome

def erase (m : Registry κ ν) (k : κ) : Registry κ ν where
  entries := m.entries.filter fun e => e.1 ≠ k
  distinct := nodup_filter _ _ m.distinct

def insert (m : Registry κ ν) (k : κ) (v : ν) : Registry κ ν where
  entries := (k, v) :: m.entries.filter fun e => e.1 ≠ k
  distinct := by
    simp only [List.map_cons, List.nodup_cons, List.mem_map, List.mem_filter]
    exact ⟨by grind, nodup_filter _ _ m.distinct⟩

@[simp] theorem find?_empty (k : κ) : (empty : Registry κ ν).find? k = none := rfl

@[simp] theorem find?_insert_self (m : Registry κ ν) (k : κ) (v : ν) :
    (m.insert k v).find? k = some v := by simp [find?, insert]

theorem find?_insert_of_ne (m : Registry κ ν) {k l : κ} (v : ν) (h : l ≠ k) :
    (m.insert k v).find? l = m.find? l := by
  have h' : ¬k = l := fun e => h e.symm
  simp only [find?, insert, List.find?_cons, h', decide_false, List.find?_filter]
  congr 2
  funext e
  by_cases he : e.1 = l <;> simp [he, h]

theorem find?_insert (m : Registry κ ν) (k l : κ) (v : ν) :
    (m.insert k v).find? l = if l = k then some v else m.find? l := by
  split
  · rename_i h; subst h; simp
  · rename_i h; exact find?_insert_of_ne m v h

@[simp] theorem find?_erase_self (m : Registry κ ν) (k : κ) : (m.erase k).find? k = none := by
  simp [find?, erase, List.find?_filter]

theorem find?_erase_of_ne (m : Registry κ ν) {k l : κ} (h : l ≠ k) :
    (m.erase k).find? l = m.find? l := by
  simp only [find?, erase, List.find?_filter]
  congr 2
  funext e
  by_cases he : e.1 = l <;> simp [he, h]

theorem find?_erase (m : Registry κ ν) (k l : κ) :
    (m.erase k).find? l = if l = k then none else m.find? l := by
  split
  · rename_i h; subst h; simp
  · rename_i h; exact find?_erase_of_ne m h

theorem find?_of_erase {m : Registry κ ν} {k l : κ} {v : ν}
    (h : (m.erase k).find? l = some v) : l ≠ k ∧ m.find? l = some v := by
  rw [find?_erase] at h
  split at h
  · cases h
  · rename_i hne
    exact ⟨hne, h⟩

/-- Maps that differ at one key only have the same entries elsewhere. -/
theorem find?_congr {m m' : Registry κ ν} {k l : κ} (h : m'.erase k = m.erase k) (hl : l ≠ k) :
    m'.find? l = m.find? l := by
  rw [← find?_erase_of_ne m' hl, h, find?_erase_of_ne m hl]

theorem insert_insert (m : Registry κ ν) (k : κ) (v w : ν) :
    (m.insert k v).insert k w = m.insert k w := by
  simp [insert]

theorem erase_insert (m : Registry κ ν) (k : κ) (v : ν) : (m.insert k v).erase k = m.erase k := by
  simp [insert, erase]

theorem find?_isSome_iff (m : Registry κ ν) (k : κ) : (m.find? k).isSome ↔ k ∈ m.keys := by
  simp [find?, keys]

theorem mem_keys_insert (m : Registry κ ν) (k l : κ) (v : ν) :
    l ∈ (m.insert k v).keys ↔ l = k ∨ l ∈ m.keys := by
  rw [← find?_isSome_iff, ← find?_isSome_iff, find?_insert]
  split <;> simp_all

theorem mem_keys_erase (m : Registry κ ν) (k l : κ) :
    l ∈ (m.erase k).keys ↔ l ≠ k ∧ l ∈ m.keys := by
  rw [← find?_isSome_iff, ← find?_isSome_iff, find?_erase]
  split <;> simp_all

end Registry

end PagedStore
