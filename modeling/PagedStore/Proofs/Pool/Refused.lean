import PagedStore.Proofs.Pool.Counted

set_option autoImplicit false

/-!
When a pool has no frame to give. Main statements: `Pool.victim_eq_none_iff`, that two laps of the
scan find a frame unless all are pinned, `Store.refuses_iff`, and `Store.Refuses.pin`, that no pin
makes room for what was refused.
-/

namespace PagedStore

namespace Pool

/-- Every frame is pinned. -/
def Full (p : Pool) : Prop := ∀ f ∈ p.frames, f.pins ≠ 0

theorem Full.samePins {p p' : Pool} (h : p.Full) (hs : p.SamePins p') : p'.Full := by
  intro f hf h₀
  have hmem : 0 ∈ p.frames.map Frame.pins := hs.pins ▸ h₀ ▸ List.mem_map_of_mem hf
  obtain ⟨g, hg, hg₀⟩ := List.mem_map.1 hmem
  exact h g hg hg₀

theorem scan_append (xs ys : List Nat) (frames : List Frame) :
    scan (xs ++ ys) frames = match scan xs frames with
      | (none, fs) => scan ys fs
      | (some i, fs) => (some i, fs) := by
  induction xs generalizing frames with
  | nil => rfl
  | cons i xs ih =>
    rw [List.cons_append, scan, scan]
    split
    · exact ih frames
    · split
      · exact ih frames
      · split
        · exact ih _
        · rfl

theorem scan_of_not_mem {order : List Nat} {j : Nat} (hj : j ∉ order) (frames : List Frame) :
    (scan order frames).2[j]? = frames[j]? := by
  induction order generalizing frames with
  | nil => rfl
  | cons i rest ih =>
    obtain ⟨hne, hrest⟩ := List.ne_and_not_mem_of_not_mem_cons hj
    unfold scan
    split
    · exact ih hrest frames
    · split
      · exact ih hrest frames
      · split
        · rw [ih hrest, List.getElem?_set_ne hne.symm]
        · rfl

/-- A frame that the scan comes by in vain, though it is not pinned, has used up its second
chance. -/
theorem scan_in_vain {order : List Nat} {frames : List Frame} {j : Nat} {f : Frame}
    (hnone : (scan order frames).1 = none) (hj : j ∈ order) (hf : frames[j]? = some f)
    (h₀ : f.pins = 0) :
    f.recent = true ∧ (scan order frames).2[j]? = some { f with recent := false } := by
  induction order generalizing frames f with
  | nil => cases hj
  | cons i rest ih =>
    unfold scan at hnone ⊢
    have hne : ∀ {g}, frames[i]? = g → g ≠ some f → j ∈ rest := fun hg hgf =>
      (List.mem_cons.1 hj).resolve_left fun he => hgf (by rw [← hg, ← he, hf])
    split at hnone
    · rename_i hg
      exact ih hnone (hne hg nofun) hf h₀
    · rename_i g hg
      split at hnone
      · rename_i hp
        rw [if_pos hp]
        exact ih hnone (hne hg fun he => hp (Option.some.inj he ▸ h₀)) hf h₀
      · rename_i hp
        split at hnone
        · rename_i hr
          rw [if_neg hp, if_pos hr]
          have hlt := (List.getElem?_eq_some_iff.1 hg).1
          by_cases hji : j = i
          · subst hji
            obtain rfl : f = g := Option.some.inj (hf.symm.trans hg)
            have hself : (frames.set j { f with recent := false })[j]? =
                some { f with recent := false } := by rw [List.getElem?_set_self hlt]
            refine ⟨hr, ?_⟩
            by_cases hrest : j ∈ rest
            · -- it would have been found the second time
              cases (ih hnone hrest hself h₀).1
            · rw [scan_of_not_mem hrest, hself]
          · exact ih hnone ((List.mem_cons.1 hj).resolve_left hji)
              (by rw [List.getElem?_set_ne fun e => hji e.symm, hf]) h₀
        · cases hnone

theorem scan_of_full {frames : List Frame} (h : ∀ f ∈ frames, f.pins ≠ 0) (order : List Nat) :
    scan order frames = (none, frames) := by
  induction order with
  | nil => rfl
  | cons i rest ih =>
    unfold scan
    split
    · exact ih
    · rename_i f hf
      rw [if_pos (h f (List.mem_of_getElem? hf))]
      exact ih

theorem scanOrder_eq (size last : Nat) : ∃ lap, scanOrder size last = lap ++ lap ∧
    ∀ j < size, j ∈ lap := by
  refine ⟨(List.range size).map fun step => ((last + 1) % size + step) % size, ?_, fun j hj => ?_⟩
  · rw [scanOrder, Nat.two_mul, List.range_add, List.map_append, List.map_map]
    refine congrArg _ (List.map_congr_left fun k _ => ?_)
    rw [Function.comp_apply, Nat.add_left_comm, Nat.add_mod_left]
  · have hpos : 0 < size := Nat.lt_of_le_of_lt (Nat.zero_le _) hj
    have hstart := Nat.mod_lt (last + 1) hpos
    generalize (last + 1) % size = start at hstart
    refine List.mem_map.2 ⟨(j + (size - start)) % size,
      List.mem_range.2 (Nat.mod_lt _ hpos), ?_⟩
    rw [Nat.add_mod_mod, show start + (j + (size - start)) = j + size by omega, Nat.add_mod_right,
      Nat.mod_eq_of_lt hj]

theorem victim_eq_none_iff (p : Pool) : p.victim.1 = none ↔ p.Full := by
  obtain ⟨lap, hlap, hall⟩ := scanOrder_eq p.size p.lastClaimed
  unfold victim
  dsimp only
  rw [hlap]
  constructor
  · intro hnone f hf h₀
    obtain ⟨j, hj⟩ := List.mem_iff_getElem?.1 hf
    have hmem : j ∈ lap := hall j (List.getElem?_eq_some_iff.1 hj).1
    rw [scan_append] at hnone
    cases hs : scan lap p.frames with
    | mk found fs =>
      rw [hs] at hnone
      cases found with
      | some i => cases hnone
      | none =>
        -- the first lap took its second chance away, so the second would have found it
        have hfirst := (scan_in_vain (by rw [hs]) hmem hj h₀).2
        rw [hs] at hfirst
        cases (scan_in_vain hnone hmem hfirst h₀).1
  · intro hfull
    rw [scan_of_full hfull]

end Pool

namespace Store

variable {s s' : Store} {w : Wanted}

/-- There is no frame to be had: all are pinned, and none has what is wanted. -/
structure Refuses (s : Store) (w : Wanted) : Prop where
  full : s.pool.Full
  uncached : ∀ b, w = .block b → s.pool.table.find? b = none

theorem claim_eq_none_iff : (s.claim w).1 = .ok none ↔ s.pool.Full := by
  rw [← Pool.victim_eq_none_iff]
  cases hv : s.pool.victim.1 with
  | none =>
    rw [claim_of_full hv]
    exact iff_of_true rfl rfl
  | some i =>
    obtain ⟨f, hf, -⟩ := s.pool.related_victim.2 i hv
    refine iff_of_false (fun h => ?_) nofun
    unfold claim at h
    simp only [hv, Option.bind_some, hf, Option.map_some] at h
    split at h <;> cases h

theorem refuses_iff : (s.pin w).1 = .ok none ↔ s.Refuses w := by
  cases w with
  | fresh file format =>
    exact claim_eq_none_iff.trans ⟨fun h => ⟨h, fun b hb => by cases hb⟩, Refuses.full⟩
  | block b =>
    simp only [pin, pinBlock]
    cases ht : s.pool.table.find? b with
    | none =>
      refine claim_eq_none_iff.trans ⟨fun h => ⟨h, ?_⟩, Refuses.full⟩
      rintro c ⟨⟩
      exact ht
    | some i =>
      refine iff_of_false ?_ fun h => ?_
      · dsimp only
        split <;> exact fun h => by cases h
      · rw [h.uncached b rfl] at ht
        cases ht

theorem Refuses.same (h : s.Refuses w) (hp : s.pool.SamePins s'.pool)
    (ht : s'.pool.table = s.pool.table) : s'.Refuses w :=
  ⟨h.full.samePins hp, fun b hb => ht ▸ h.uncached b hb⟩

theorem Refuses.pin (h : s.Refuses w) (v : Wanted) : (s.pin v).2.Refuses w := by
  have hclaim : (s.claim v).2.pool.table = s.pool.table := by
    rw [claim_of_full ((Pool.victim_eq_none_iff _).2 h.full)]
    rfl
  constructor
  · intro g hg h₀
    obtain ⟨i, hi⟩ := List.mem_iff_getElem?.1 hg
    obtain ⟨f, hf, hfg⟩ := (s.refetched v).before hi
    have hle := hfg.pins_le.1
    exact h.full f (List.mem_of_getElem? hf) (by omega)
  · intro b hb
    have htable : (s.pin v).2.pool.table = s.pool.table := by
      cases v with
      | fresh file format => exact hclaim
      | block c =>
        simp only [Store.pin, pinBlock]
        split
        · exact hclaim
        · split
          · exact Pool.table_take ..
          · rfl
    rw [htable]
    exact h.uncached b hb

theorem refuses_of_pin (h : (s.pin w).1 = .ok none) : (s.pin w).2.Refuses w :=
  (refuses_iff.1 h).pin w

end Store

end PagedStore
