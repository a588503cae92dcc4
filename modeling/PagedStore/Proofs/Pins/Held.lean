import PagedStore.Pins.Desk
import PagedStore.Proofs.Order

set_option autoImplicit false

/-!
How often each frame is held. Main statements: `Desk.holders_eq` splits the holds of one transaction
off, and `Pins.inFrame_erase` and `Pins.inFrame_insert_le` say what a hold more or less means.
-/

namespace PagedStore

namespace Registry

variable {κ ν : Type}

def total (g : ν → Nat) (m : Registry κ ν) : Nat := m.entries.foldr (fun e n => g e.2 + n) 0

variable [DecidableEq κ]

theorem foldr_eq_find?_add_filter (g : ν → Nat) (k : κ) (es : List (κ × ν))
    (hnd : (es.map Prod.fst).Nodup) : es.foldr (fun e n => g e.2 + n) 0 =
      (((es.find? fun e => e.1 = k).map Prod.snd).map g).getD 0 +
        (es.filter fun e => e.1 ≠ k).foldr (fun e n => g e.2 + n) 0 := by
  induction es with
  | nil => rfl
  | cons e es ih =>
    obtain ⟨hnot, hnd⟩ := List.nodup_cons.1 hnd
    by_cases he : e.1 = k
    · -- the key does not come again
      have hall : es.filter (fun e => e.1 ≠ k) = es := by
        refine List.filter_eq_self.2 fun e' he' => ?_
        refine decide_eq_true fun h => hnot ?_
        rw [he, ← h]
        exact List.mem_map_of_mem he'
      rw [List.filter_cons_of_neg (by simp [he]), hall]
      simp [he]
    · have hskip := ih hnd
      simp only [List.foldr_cons, List.find?_cons, he, decide_false, hskip, List.filter_cons,
        ne_eq, not_false_eq_true, decide_true, if_true]
      omega

theorem total_eq (g : ν → Nat) (m : Registry κ ν) (k : κ) :
    m.total g = ((m.find? k).map g).getD 0 + (m.erase k).total g :=
  foldr_eq_find?_add_filter g k m.entries m.distinct

theorem total_insert (g : ν → Nat) (m : Registry κ ν) (k : κ) (v : ν) :
    (m.insert k v).total g = g v + (m.erase k).total g := rfl

theorem find?_eq_some_iff {m : Registry κ ν} {k : κ} {v : ν} :
    m.find? k = some v ↔ (k, v) ∈ m.entries := by
  obtain ⟨es, hd⟩ := m
  unfold find?
  constructor
  · intro h
    obtain ⟨⟨k', v'⟩, he, rfl⟩ := Option.map_eq_some_iff.1 h
    obtain rfl : k' = k := by simpa using List.find?_some he
    exact List.mem_of_find?_eq_some he
  · intro h
    induction es with
    | nil => cases h
    | cons e es ih =>
      obtain ⟨hnot, hd⟩ := List.nodup_cons.1 hd
      rcases List.mem_cons.1 h with rfl | h
      · simp
      · have hne : e.1 ≠ k := fun he => hnot (he ▸ List.mem_map_of_mem h)
        rw [List.find?_cons_of_neg (by simpa using hne)]
        exact ih hd h

theorem total_eq_zero {m : Registry κ ν} {g : ν → Nat} (h : ∀ k v, m.find? k = some v → g v = 0) :
    m.total g = 0 := by
  have hall : ∀ e ∈ m.entries, g e.2 = 0 := fun e he => h e.1 e.2 (find?_eq_some_iff.2 he)
  unfold total
  generalize m.entries = es at hall
  induction es with
  | nil => rfl
  | cons e es ih =>
    rw [List.foldr_cons, hall e List.mem_cons_self, Nat.zero_add]
    exact ih fun e' he' => hall e' (List.mem_cons_of_mem e he')

end Registry

namespace Pins

def inFrame (p : Pins) (i : Nat) : Nat := p.holds.total fun h => if h.frame = i then 1 else 0

variable {p : Pins} {b : BlockId} {h : Hold}

theorem inFrame_erase (hb : p.holds.find? b = some h) (touched : List Nat) (i : Nat) :
    p.inFrame i =
      (if h.frame = i then 1 else 0) + inFrame { holds := p.holds.erase b, touched } i := by
  rw [inFrame, Registry.total_eq _ _ b, hb]
  rfl

theorem inFrame_insert_le (p : Pins) (b : BlockId) (h : Hold) (touched : List Nat) (i : Nat) :
    inFrame { holds := p.holds.insert b h, touched } i ≤
      p.inFrame i + if h.frame = i then 1 else 0 := by
  rw [inFrame, Registry.total_insert, inFrame, Registry.total_eq _ p.holds b]
  omega

theorem inFrame_recount (hb : p.holds.find? b = some h) (refs : Nat) (i : Nat) :
    inFrame { p with holds := p.holds.insert b { h with refs } } i = p.inFrame i := by
  rw [inFrame, Registry.total_insert, inFrame, Registry.total_eq _ p.holds b, hb]
  rfl

theorem inFrame_pos (hb : p.holds.find? b = some h) : 0 < p.inFrame h.frame := by
  rw [inFrame_erase hb [], if_pos rfl]
  exact Nat.lt_of_lt_of_le Nat.zero_lt_one (Nat.le_add_right ..)

theorem inFrame_eq_count (p : Pins) (i : Nat) :
    p.inFrame i = (p.holds.entries.map fun e => e.2.frame).count i := by
  unfold inFrame Registry.total
  induction p.holds.entries with
  | nil => rfl
  | cons e es ih =>
    rw [List.foldr_cons, List.map_cons, List.count_cons, ih, Nat.add_comm]
    simp only [beq_iff_eq]

theorem keys_counts (p : Pins) : p.counts.map Prod.fst = p.held := by
  rw [counts, List.map_map]
  exact List.map_id _

theorem perm_held (p : Pins) : p.held.Perm p.holds.keys := by
  rw [held, sortBy_eq]
  exact List.perm_insertionSort _ _

theorem nodup_held (p : Pins) : p.held.Nodup := p.perm_held.nodup_iff.2 (Registry.nodup_keys _)

theorem mem_held {p : Pins} {b : BlockId} : b ∈ p.held ↔ ∃ h, p.holds.find? b = some h := by
  rw [p.perm_held.mem_iff, ← Registry.find?_isSome_iff, Option.isSome_iff_exists]

end Pins

namespace Desk

def holders (d : Desk) (i : Nat) : Nat := d.pins.total fun p => p.inFrame i

def others (d : Desk) (tx : TxId) (i : Nat) : Nat := (d.pins.erase tx).total fun p => p.inFrame i

theorem holders_eq (d : Desk) (tx : TxId) (i : Nat) :
    d.holders i = (d.pinsOf tx).inFrame i + d.others tx i := by
  rw [holders, Registry.total_eq _ _ tx, pinsOf, others]
  cases d.pins.find? tx <;> rfl

@[simp] theorem pinsOf_setPins_self (d : Desk) (tx : TxId) (p : Pins) :
    (d.setPins tx p).pinsOf tx = p := by
  rw [pinsOf, setPins, Registry.find?_insert_self]
  rfl

theorem pinsOf_setPins_of_ne (d : Desk) {tx u : TxId} (p : Pins) (h : u ≠ tx) :
    (d.setPins tx p).pinsOf u = d.pinsOf u := by
  rw [pinsOf, setPins, Registry.find?_insert_of_ne _ _ h, ← pinsOf]

theorem holders_pos {d : Desk} {tx : TxId} {b : BlockId} {h : Hold}
    (hb : (d.pinsOf tx).holds.find? b = some h) : 0 < d.holders h.frame := by
  rw [holders_eq d tx]
  exact Nat.lt_of_lt_of_le (Pins.inFrame_pos hb) (Nat.le_add_right ..)

theorem holders_eq_zero {d : Desk} (h : ∀ tx b, (d.pinsOf tx).holds.find? b = none) (i : Nat) :
    d.holders i = 0 :=
  Registry.total_eq_zero fun tx p hp => Registry.total_eq_zero fun b j hj => by
    have hnone := h tx b
    rw [pinsOf, hp, Option.getD_some, hj] at hnone
    cases hnone

end Desk

end PagedStore
