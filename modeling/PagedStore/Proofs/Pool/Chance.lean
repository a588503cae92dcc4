import PagedStore.Proofs.Pool.Refused

set_option autoImplicit false

/-!
The scan for a victim is the second-chance rule: of the frames that are not pinned, in the circular
order from behind the last victim, it takes the first without a second chance, and the first of all
where each has one. Main statements: `Pool.scan_lap`, what one lap does, `Pool.victim_eq`, and
`Store.claim_eq_secondChance`.
-/

namespace PagedStore

def Frame.disarm (f : Frame) : Frame := { f with recent := false }

def disarm (places : List Nat) (frames : List Frame) : List Frame :=
  frames.mapIdx fun i f => if i ∈ places then f.disarm else f

theorem getElem?_disarm (places : List Nat) (frames : List Frame) (i : Nat) :
    (disarm places frames)[i]? =
      frames[i]?.map fun f => if i ∈ places then f.disarm else f := by
  rw [disarm, List.getElem?_mapIdx]

@[simp] theorem disarm_nil (frames : List Frame) : disarm [] frames = frames := by
  refine List.ext_getElem? fun i => ?_
  rw [getElem?_disarm]
  cases frames[i]? <;> rfl

theorem disarm_cons {frames : List Frame} {i : Nat} {f : Frame} (hf : frames[i]? = some f)
    (places : List Nat) :
    disarm (i :: places) frames = disarm places (frames.set i f.disarm) := by
  obtain ⟨hi, -⟩ := List.getElem?_eq_some_iff.1 hf
  refine List.ext_getElem? fun j => ?_
  rw [getElem?_disarm, getElem?_disarm]
  by_cases hj : i = j
  · subst hj
    rw [hf, List.getElem?_set_self hi]
    by_cases hmem : i ∈ places <;> simp [hmem, Frame.disarm]
  · rw [List.getElem?_set_ne hj]
    simp [Ne.symm hj]

namespace Pool

def spareAt (frames : List Frame) (i : Nat) : Bool := frames[i]?.any fun f => f.pins = 0

def recentAt (frames : List Frame) (i : Nat) : Bool := frames[i]?.any Frame.recent

/-- All places, in circular order from behind the last victim. -/
def circuit (p : Pool) : List Nat :=
  (List.range p.size).map fun k => (p.lastClaimed + 1 + k) % p.size

/-- The places of the frames that are not pinned, in that order. -/
def spare (p : Pool) : List Nat := p.circuit.filter (spareAt p.frames)

/-- The frames that are not pinned and come before the first without a second chance; all of them
where each has one. -/
def passedOver (p : Pool) : List Nat := p.spare.takeWhile (recentAt p.frames)

/-- The first frame that has neither a pin nor a second chance, or the first without a pin. -/
def secondChance (p : Pool) : Option Nat :=
  (p.spare.find? fun i => !recentAt p.frames i).or p.spare.head?

theorem mem_circuit (p : Pool) {i : Nat} : i ∈ p.circuit ↔ i < p.size := by
  constructor
  · intro hi
    obtain ⟨k, hk, rfl⟩ := List.mem_map.1 hi
    exact Nat.mod_lt _ (Nat.lt_of_le_of_lt (Nat.zero_le _) (List.mem_range.1 hk))
  · intro hi
    have hpos : 0 < p.size := Nat.lt_of_le_of_lt (Nat.zero_le _) hi
    have hstart := Nat.mod_lt (p.lastClaimed + 1) hpos
    refine List.mem_map.2 ⟨(i + (p.size - (p.lastClaimed + 1) % p.size)) % p.size,
      List.mem_range.2 (Nat.mod_lt _ hpos), ?_⟩
    rw [Nat.add_mod_mod, ← Nat.mod_add_mod]
    generalize (p.lastClaimed + 1) % p.size = start at hstart
    rw [show start + (i + (p.size - start)) = i + p.size by omega, Nat.add_mod_right,
      Nat.mod_eq_of_lt hi]

theorem nodup_circuit (p : Pool) : p.circuit.Nodup := by
  have hle : ∀ {k l : Nat}, l < p.size →
      (p.lastClaimed + 1 + k) % p.size = (p.lastClaimed + 1 + l) % p.size → l ≤ k := by
    intro k l hl h
    have hdiff := Nat.sub_mod_eq_zero_of_mod_eq h.symm
    rw [Nat.add_sub_add_left, Nat.mod_eq_of_lt (Nat.lt_of_le_of_lt (Nat.sub_le ..) hl)] at hdiff
    exact Nat.le_of_sub_eq_zero hdiff
  refine List.pairwise_map.2 (List.nodup_range.imp_of_mem fun {k l} hk hl hne h => hne ?_)
  exact Nat.le_antisymm (hle (List.mem_range.1 hk) h.symm) (hle (List.mem_range.1 hl) h)

theorem scanOrder_eq_circuit (p : Pool) :
    scanOrder p.size p.lastClaimed = p.circuit ++ p.circuit := by
  rw [scanOrder, circuit, Nat.two_mul, List.range_add, List.map_append, List.map_map]
  have hfirst : ∀ k, ((p.lastClaimed + 1) % p.size + k) % p.size =
      (p.lastClaimed + 1 + k) % p.size := fun k => Nat.mod_add_mod ..
  simp only [Function.comp_def, Nat.add_left_comm _ p.size, Nat.add_mod_left, hfirst]

/-- A scan that comes by each place once takes the first frame without a second chance, and the
frames before that one lose theirs. `frames` is as it was at the start of the lap, `now` as it is
where `order` is still ahead. -/
theorem scan_lap {order : List Nat} (hnodup : order.Nodup) {frames now : List Frame}
    (hnow : ∀ i ∈ order, now[i]? = frames[i]?) :
    scan order now =
      ((order.filter (spareAt frames)).find? fun i => !recentAt frames i,
        disarm ((order.filter (spareAt frames)).takeWhile (recentAt frames)) now) := by
  induction order generalizing now with
  | nil => simp [scan]
  | cons i rest ih =>
    obtain ⟨hi, hrest⟩ := List.nodup_cons.1 hnodup
    have hahead : ∀ j ∈ rest, now[j]? = frames[j]? := fun j hj =>
      hnow j (List.mem_cons_of_mem i hj)
    have hif := hnow i List.mem_cons_self
    unfold scan
    cases hf : now[i]? with
    | none =>
      have hspare : spareAt frames i = false := by rw [spareAt, ← hif, hf]; rfl
      rw [List.filter_cons_of_neg (by rw [hspare]; exact Bool.false_ne_true)]
      exact ih hrest hahead
    | some f =>
      have hspare : spareAt frames i = decide (f.pins = 0) := by rw [spareAt, ← hif, hf]; rfl
      have hrecent : recentAt frames i = f.recent := by rw [recentAt, ← hif, hf]; rfl
      dsimp only
      by_cases hp : f.pins = 0
      · rw [if_neg (Decidable.not_not.2 hp),
          List.filter_cons_of_pos (by rw [hspare]; exact decide_eq_true hp)]
        cases hr : f.recent with
        | true =>
          have hset : ∀ j ∈ rest, (now.set i f.disarm)[j]? = frames[j]? := fun j hj => by
            rw [List.getElem?_set_ne (fun e : i = j => hi (e ▸ hj)), hahead j hj]
          rw [if_pos rfl, List.find?_cons_of_neg (by simp [hrecent, hr]),
            List.takeWhile_cons_of_pos (by rw [hrecent, hr]), disarm_cons hf]
          exact ih hrest hset
        | false =>
          rw [if_neg Bool.false_ne_true, List.find?_cons_of_pos (by simp [hrecent, hr]),
            List.takeWhile_cons_of_neg (by simp [hrecent, hr]), disarm_nil]
      · rw [if_pos hp, List.filter_cons_of_neg (by rw [hspare]; simpa using hp)]
        exact ih hrest hahead

theorem spareAt_disarm (places : List Nat) (frames : List Frame) (i : Nat) :
    spareAt (disarm places frames) i = spareAt frames i := by
  rw [spareAt, spareAt, getElem?_disarm]
  cases frames[i]? with
  | none => rfl
  | some f =>
    dsimp only [Option.map_some, Option.any_some]
    split <;> rfl

theorem recentAt_disarm {places : List Nat} {i : Nat} (hi : i ∈ places) (frames : List Frame) :
    recentAt (disarm places frames) i = false := by
  rw [recentAt, getElem?_disarm]
  cases frames[i]? with
  | none => rfl
  | some f => simp [hi, Frame.disarm]

theorem scan_of_not_recent {order : List Nat} (hnodup : order.Nodup) {frames : List Frame}
    (h : ∀ i ∈ order.filter (spareAt frames), recentAt frames i = false) :
    scan order frames = ((order.filter (spareAt frames)).head?, frames) := by
  rw [@scan_lap order hnodup frames frames fun _ _ => rfl]
  cases hspare : order.filter (spareAt frames) with
  | nil => simp
  | cons i rest =>
    have hi := h i (hspare ▸ List.mem_cons_self)
    simp [hi]

theorem passedOver_eq_spare {p : Pool}
    (h : (p.spare.find? fun i => !recentAt p.frames i) = none) : p.passedOver = p.spare := by
  have hall : ∀ i ∈ p.spare, recentAt p.frames i = true := fun i hi => by
    simpa using List.find?_eq_none.1 h i hi
  have hwhole : (p.spare ++ []).takeWhile (recentAt p.frames) = p.spare ++ [] :=
    List.takeWhile_append_of_pos hall
  rwa [List.append_nil] at hwhole

/-- The scan is the second-chance rule. -/
theorem victim_eq (p : Pool) :
    p.victim = (p.secondChance, { p with frames := disarm p.passedOver p.frames }) := by
  have hfirst : scan p.circuit p.frames =
      (p.spare.find? fun i => !recentAt p.frames i, disarm p.passedOver p.frames) :=
    scan_lap p.nodup_circuit fun _ _ => rfl
  have hboth : scan (p.circuit ++ p.circuit) p.frames =
      (p.secondChance, disarm p.passedOver p.frames) := by
    rw [scan_append, hfirst, secondChance]
    cases hfind : p.spare.find? fun i => !recentAt p.frames i with
    | some i => rfl
    | none =>
      -- each had its second chance, and has lost it when the second lap begins
      have hspare : p.circuit.filter (spareAt (disarm p.spare p.frames)) = p.spare := by
        rw [funext (spareAt_disarm p.spare p.frames), spare]
      have hsecond := @scan_of_not_recent p.circuit p.nodup_circuit (disarm p.spare p.frames)
        fun i hi => recentAt_disarm (hspare ▸ hi) p.frames
      rw [hspare] at hsecond
      rw [passedOver_eq_spare hfind]
      exact hsecond
  unfold victim
  rw [scanOrder_eq_circuit, hboth]

theorem secondChance_eq_none_iff (p : Pool) : p.secondChance = none ↔ p.Full := by
  rw [← victim_eq_none_iff, victim_eq]

theorem spare_of_secondChance {p : Pool} {i : Nat} (h : p.secondChance = some i) : i ∈ p.spare := by
  rcases Option.or_eq_some_iff.1 h with hfind | ⟨-, hhead⟩
  · exact List.mem_of_find?_eq_some hfind
  · exact List.mem_of_mem_head? hhead

theorem frame_of_spare {p : Pool} {i : Nat} (h : i ∈ p.spare) :
    ∃ f, p.frames[i]? = some f ∧ f.pins = 0 := by
  have hspare := (List.mem_filter.1 h).2
  unfold spareAt at hspare
  cases hf : p.frames[i]? with
  | none => simp [hf] at hspare
  | some f => exact ⟨f, rfl, by simpa [hf] using hspare⟩

theorem disarm_passedOver_of_pinned {p : Pool} {i : Nat} {f : Frame} (hf : p.frames[i]? = some f)
    (hp : f.pins ≠ 0) : (disarm p.passedOver p.frames)[i]? = some f := by
  have hnot : i ∉ p.passedOver := fun hi => by
    obtain ⟨g, hg, h₀⟩ := frame_of_spare ((List.takeWhile_sublist _).subset hi)
    rw [hf] at hg
    exact hp (Option.some.inj hg ▸ h₀)
  rw [getElem?_disarm, hf, Option.map_some, if_neg hnot]

theorem disarm_passedOver_of_victim {p : Pool} {i : Nat} {f : Frame} (hf : p.frames[i]? = some f)
    (h : p.secondChance = some i) :
    (disarm p.passedOver p.frames)[i]? = some f.disarm := by
  rw [getElem?_disarm, hf, Option.map_some]
  split
  · rfl
  · rename_i hnot
    rcases Option.or_eq_some_iff.1 h with hfind | ⟨hfind, hhead⟩
    · have hr : f.recent = false := by simpa [recentAt, hf] using List.find?_some hfind
      rw [Frame.disarm, ← hr]
    · rw [passedOver_eq_spare hfind] at hnot
      exact absurd (List.mem_of_mem_head? hhead) hnot

end Pool

namespace Store

def disarmed (s : Store) : Store :=
  { s with pool := { s.pool with frames := disarm s.pool.passedOver s.pool.frames } }

theorem frames_rebind (s : Store) (i : Nat) (f : Frame) (w : Wanted) {j : Nat} (hj : j ≠ i) :
    (s.rebind i f w).2.pool.frames[j]? = s.pool.frames[j]? :=
  List.getElem?_set_ne fun e => hj e.symm

theorem frames_take (p : Pool) {i j : Nat} (hj : j ≠ i) :
    (p.take i).frames[j]? = p.frames[j]? := by
  unfold Pool.take
  split
  · rfl
  · exact List.getElem?_set_ne fun e => hj e.symm

theorem claim_of_secondChance {s : Store} (w : Wanted) {i : Nat} {f : Frame}
    (h : s.pool.secondChance = some i) (hf : s.pool.frames[i]? = some f) :
    s.claim w = match s.disarmed.rebind i f.disarm w with
      | (.error e, t) => (.error e, t)
      | (.ok (), t) =>
        (.ok (some i), { t with pool := { t.pool.take i with lastClaimed := i } }) := by
  unfold claim
  rw [Pool.victim_eq, h]
  simp only [Option.bind_some, Pool.disarm_passedOver_of_victim hf h, Option.map_some]
  rfl

theorem claim_eq_of_full {s : Store} (h : s.pool.Full) (w : Wanted) :
    s.claim w = (.ok none, s) := by
  have hscan : s.pool.victim = (none, s.pool) := by
    unfold Pool.victim
    rw [Pool.scan_of_full h]
  unfold claim
  rw [hscan]
  rfl

theorem Refuses.pin_eq {s : Store} {w : Wanted} (h : s.Refuses w) : s.pin w = (.ok none, s) := by
  cases w with
  | fresh file format => exact claim_eq_of_full h.full _
  | block b =>
    simp only [Store.pin, pinBlock, h.uncached b rfl]
    exact claim_eq_of_full h.full _

/-- A claim finds no frame just when all are pinned, and leaves everything as it is then. Otherwise
it tries to give one frame to what is wanted: the first unpinned one without a second chance, or the
first unpinned one where each has its second chance. Those it passed over lose theirs, no pinned
frame changes, and the victim is remembered if it could be given. -/
theorem claim_eq_secondChance (s : Store) (w : Wanted) :
    ((s.claim w).1 = .ok none ↔ s.pool.Full) ∧
    (s.pool.Full → (s.claim w).2 = s) ∧
    (¬ s.pool.Full → ∃ i f, s.pool.secondChance = some i ∧ s.pool.frames[i]? = some f ∧
      f.pins = 0 ∧ s.disarmed.pool.frames[i]? = some f.disarm ∧
      (s.claim w = match s.disarmed.rebind i f.disarm w with
        | (.error e, t) => (.error e, t)
        | (.ok (), t) =>
          (.ok (some i), { t with pool := { t.pool.take i with lastClaimed := i } })) ∧
      ((s.disarmed.rebind i f.disarm w).1 = .ok () → (s.claim w).2.pool.lastClaimed = i) ∧
      (∀ e, (s.disarmed.rebind i f.disarm w).1 = .error e →
        (s.claim w).2.pool.lastClaimed = s.pool.lastClaimed) ∧
      ∀ j ≠ i, (s.claim w).2.pool.frames[j]? = s.disarmed.pool.frames[j]?) ∧
    ∀ (j : Nat) (g : Frame), s.pool.frames[j]? = some g → g.pins ≠ 0 →
      (s.claim w).2.pool.frames[j]? = some g := by
  have hvictim : ¬ s.pool.Full → ∃ i f, s.pool.secondChance = some i ∧
      s.pool.frames[i]? = some f ∧ f.pins = 0 := fun hspare => by
    obtain ⟨i, hi⟩ := Option.ne_none_iff_exists'.1 (mt s.pool.secondChance_eq_none_iff.1 hspare)
    obtain ⟨f, hf, h₀⟩ := Pool.frame_of_spare (Pool.spare_of_secondChance hi)
    exact ⟨i, f, hi, hf, h₀⟩
  have hothers : ∀ {i f}, s.pool.secondChance = some i → s.pool.frames[i]? = some f →
      ∀ j ≠ i, (s.claim w).2.pool.frames[j]? = s.disarmed.pool.frames[j]? := by
    intro i f hi hf j hj
    rw [claim_of_secondChance w hi hf]
    have hrebind := s.disarmed.frames_rebind i f.disarm w hj
    split
    · rename_i heq
      rwa [heq] at hrebind
    · rename_i heq
      rw [heq] at hrebind
      exact (frames_take _ hj).trans hrebind
  refine ⟨claim_eq_none_iff, fun h => by rw [claim_eq_of_full h], fun hspare => ?_,
    fun j g hg hp => ?_⟩
  · obtain ⟨i, f, hi, hf, h₀⟩ := hvictim hspare
    have hclaim := claim_of_secondChance w hi hf
    refine ⟨i, f, hi, hf, h₀, Pool.disarm_passedOver_of_victim hf hi, hclaim, fun hr => ?_,
      fun e hr => ?_, hothers hi hf⟩
    · rw [hclaim, ← Prod.eta (s.disarmed.rebind i f.disarm w), hr]
    · rw [hclaim, ← Prod.eta (s.disarmed.rebind i f.disarm w), hr]
      rfl
  · by_cases hspare : s.pool.Full
    · rw [claim_eq_of_full hspare]
      exact hg
    · obtain ⟨i, f, hi, hf, h₀⟩ := hvictim hspare
      have hj : j ≠ i := fun e => hp (by
        subst e
        rw [hg] at hf
        exact Option.some.inj hf ▸ h₀)
      rw [hothers hi hf j hj]
      exact Pool.disarm_passedOver_of_pinned hg hp

example :
    let p : Pool := {
      frames := [{ id := 0, data := [], recent := true },
        { id := 1, data := [], pins := 1, recent := true },
        { id := 2, data := [], recent := true }]
      free := 2, lastClaimed := 0 }
    p.secondChance = some 2 ∧ p.passedOver = [2, 0] := by decide

end Store

end PagedStore
