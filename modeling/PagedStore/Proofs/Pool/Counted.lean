import PagedStore.Proofs.Pool.Truthful

set_option autoImplicit false

/-!
Pins, exactly. Main statements: `Store.pinsAt_pin`, that a pin adds one to the frame it gives and
nothing elsewhere, `Pool.unpin_ok`, that a pin can be given back while there is one, and
`Store.counted_pin`, that the count of the free frames stays right.
-/

namespace PagedStore

namespace Pool

/-- How often a frame is pinned. A frame that there is not has no pins. -/
def pinsAt (p : Pool) (i : Nat) : Nat := ((p.frames.map Frame.pins)[i]?).getD 0

def Counted (p : Pool) : Prop := p.free = ((p.frames.map Frame.pins).count 0 : Nat)

structure SamePins (p p' : Pool) : Prop where
  pins : p'.frames.map Frame.pins = p.frames.map Frame.pins
  free : p'.free = p.free

variable {p p' : Pool}

theorem SamePins.refl (p : Pool) : p.SamePins p := ⟨rfl, rfl⟩

theorem SamePins.pinsAt (h : p.SamePins p') (i : Nat) : p'.pinsAt i = p.pinsAt i := by
  rw [Pool.pinsAt, Pool.pinsAt, h.pins]

theorem SamePins.size (h : p.SamePins p') : p'.size = p.size := by
  have hlen := congrArg List.length h.pins
  rwa [List.length_map, List.length_map] at hlen

theorem Counted.same (h : p.Counted) (hs : p.SamePins p') : p'.Counted := by
  rw [Counted, hs.pins, hs.free]
  exact h

theorem pinsAt_of_frame {i : Nat} {f : Frame} (hf : p.frames[i]? = some f) :
    p.pinsAt i = f.pins := by
  rw [pinsAt, List.getElem?_map, hf]
  rfl

theorem frame_of_pinsAt {i : Nat} (h : 0 < p.pinsAt i) : ∃ f, p.frames[i]? = some f := by
  cases hf : p.frames[i]? with
  | none =>
    rw [pinsAt, List.getElem?_map, hf] at h
    cases h
  | some f => exact ⟨f, rfl⟩

theorem samePins_set {i : Nat} {f g : Frame} {t : Registry BlockId Nat} {l : Nat}
    (hf : p.frames[i]? = some f) (hg : g.pins = f.pins) :
    p.SamePins { frames := p.frames.set i g, table := t, free := p.free, lastClaimed := l } :=
  ⟨map_set_of_eq hf hg, rfl⟩

theorem pinsAt_set {i : Nat} {f g : Frame} (hf : p.frames[i]? = some f)
    {t : Registry BlockId Nat} {n : Int} {l : Nat} (j : Nat) :
    pinsAt { frames := p.frames.set i g, table := t, free := n, lastClaimed := l } j =
      if j = i then g.pins else p.pinsAt j := by
  have hlt := (List.getElem?_eq_some_iff.1 hf).1
  simp only [pinsAt, List.map_set]
  split
  · rename_i hj
    rw [hj, List.getElem?_set_self (by rwa [List.length_map])]
    rfl
  · rename_i hj
    rw [List.getElem?_set_ne fun h => hj h.symm]

theorem count_set {frames : List Frame} {i : Nat} {f g : Frame} (hf : frames[i]? = some f) :
    ((frames.set i g).map Frame.pins).count 0 + (if f.pins = 0 then 1 else 0) =
      (frames.map Frame.pins).count 0 + if g.pins = 0 then 1 else 0 := by
  induction frames generalizing i with
  | nil => cases hf
  | cons x xs ih =>
    cases i with
    | zero =>
      cases hf
      simp only [List.set_cons_zero, List.map_cons, List.count_cons, beq_iff_eq]
      omega
    | succ i =>
      have hrest := ih (i := i) hf
      simp only [List.set_cons_succ, List.map_cons, List.count_cons, beq_iff_eq]
      omega

theorem Counted.take (h : p.Counted) (i : Nat) : (p.take i).Counted := by
  unfold Pool.take
  split
  · exact h
  · rename_i f hf
    have hset := count_set (g := f.pin) hf
    have hpin : f.pin.pins ≠ 0 := Nat.succ_ne_zero f.pins
    rw [if_neg hpin] at hset
    unfold Counted at h ⊢
    dsimp only
    split
    · rename_i h₀
      rw [if_pos h₀] at hset
      omega
    · rename_i h₀
      rw [if_neg h₀] at hset
      omega

theorem unpin_ok {i : Nat} (hi : 0 < p.pinsAt i) : (p.unpin i).1 = .ok () ∧
    (∀ j, (p.unpin i).2.pinsAt j + (if i = j then 1 else 0) = p.pinsAt j) ∧
    (p.Counted → (p.unpin i).2.Counted) := by
  obtain ⟨f, hf⟩ := frame_of_pinsAt hi
  rw [pinsAt_of_frame hf] at hi
  have hne : f.pins ≠ 0 := Nat.ne_of_gt hi
  have hset := count_set (g := { f with pins := f.pins - 1 }) hf
  simp only [unpin, hf, Frame.unpin?, if_neg hne]
  refine ⟨trivial, fun j => ?_, fun h => ?_⟩
  · rw [pinsAt_set hf]
    by_cases hj : j = i
    · rw [if_pos hj, if_pos hj.symm, hj, pinsAt_of_frame hf]
      exact Nat.sub_add_cancel hi
    · rw [if_neg hj, if_neg fun h => hj h.symm, Nat.add_zero]
  · rw [if_neg hne] at hset
    unfold Counted at h ⊢
    dsimp only at hset ⊢
    split
    · rename_i h₀
      rw [if_pos h₀] at hset
      omega
    · rename_i h₀
      rw [if_neg h₀] at hset
      omega

end Pool

theorem Frame.pins_rebind {f : Frame} (h : f.pins = 0) (w : Wanted) (m : Media) :
    (f.rebind w m).2.1.pins = 0 := by
  unfold rebind
  split
  · exact h
  · rename_i g m' hfl
    have hg : g.pins = 0 := (of_flush hfl).2.1.trans h
    have hfill := filled { g with block := none } w m'
    generalize Frame.fill { g with block := none } w m' = r at hfill
    cases hfill with
    | unread hr => exact hg
    | unadded ha => exact hg
    | read hr => rfl
    | added ha => rfl

namespace Store

variable {s : Store} {w : Wanted}

theorem samePins_flushFrame (s : Store) (i : Nat) : s.pool.SamePins (s.flushFrame i).2.pool := by
  unfold flushFrame
  split
  · exact .refl _
  · rename_i f hf
    split
    · exact .refl _
    · rename_i g m hg
      exact Pool.samePins_set hf (Frame.of_flush hg).2.1

theorem samePins_editFrame (s : Store) (i : Nat) {edit : Frame → Except Error Frame}
    (he : ∀ f g, edit f = .ok g → g.pins = f.pins) :
    s.pool.SamePins (s.editFrame i edit).2.pool := by
  unfold editFrame
  split
  · exact .refl _
  · rename_i f hf
    split
    · exact .refl _
    · rename_i g hg
      exact Pool.samePins_set hf (he f g hg)

theorem counted_claim (h : s.pool.Counted) : (s.claim w).2.pool.Counted := by
  have hv : s.pool.SamePins s.pool.victim.2 := ⟨Pool.map_scan (fun _ => rfl) _ _, rfl⟩
  unfold claim
  dsimp only
  split
  · exact h.same hv
  · rename_i i f hif
    have hi := found_frame hif
    obtain ⟨g, hg, h₀⟩ := s.pool.related_victim.2 i hi.1
    obtain rfl : f = g := Option.some.inj (hi.2.symm.trans hg)
    have hrebind : s.pool.victim.2.SamePins
        (rebind { s with pool := s.pool.victim.2 } i f w).2.pool :=
      Pool.samePins_set hi.2 ((Frame.pins_rebind h₀ w s.media).trans h₀.symm)
    have hc := (h.same hv).same hrebind
    generalize rebind { s with pool := s.pool.victim.2 } i f w = r at hc
    obtain ⟨q, s'⟩ := r
    cases q with
    | error e => exact hc
    | ok u => exact hc.take i

theorem counted_pin (h : s.pool.Counted) : (s.pin w).2.pool.Counted := by
  cases w with
  | fresh file format => exact counted_claim h
  | block b =>
    simp only [pin, pinBlock]
    split
    · exact counted_claim h
    · split
      · exact h.take _
      · exact h

theorem frame_of_pin {i : Nat} (h : (s.pin w).1 = .ok (some i)) :
    ∃ f, (s.pin w).2.pool.frames[i]? = some f := by
  have hb : ∃ b, (s.pin w).2.blockAt? i = some b := by
    cases w with
    | block b => exact ⟨b, blockAt?_pin h⟩
    | fresh file format =>
      obtain ⟨b, -, hblocks, -⟩ := claim_ok h
      exact ⟨b, (hblocks i).trans (if_pos rfl)⟩
  obtain ⟨b, hb⟩ := hb
  obtain ⟨f, hf, -⟩ := Option.bind_eq_some_iff.1 hb
  exact ⟨f, hf⟩

theorem pinsAt_of_related {R : Nat → Frame → Frame → Prop} {s' : Store}
    (h : s.pool.Related s'.pool R) {gained : Nat → Nat}
    (hr : ∀ (j : Nat) f g, R j f g → g.pins = f.pins + gained j)
    (hn : ∀ j, s.pool.frames[j]? = none → gained j = 0) (j : Nat) :
    s'.pool.pinsAt j = s.pool.pinsAt j + gained j := by
  rcases h j with ⟨hf, hg⟩ | ⟨f, g, hf, hg, hfg⟩
  · simp only [Pool.pinsAt, List.getElem?_map, hf, hg, hn j hf, Nat.add_zero]
  · rw [Pool.pinsAt_of_frame hf, Pool.pinsAt_of_frame hg, hr j f g hfg]

theorem pinsAt_pin {i : Nat} (h : (s.pin w).1 = .ok (some i)) (j : Nat) :
    (s.pin w).2.pool.pinsAt j = s.pool.pinsAt j + if i = j then 1 else 0 := by
  have hif : ∀ j, (s.pin w).1 = .ok (some j) ↔ i = j := fun j => by
    rw [h, Except.ok.injEq, Option.some.injEq]
  refine pinsAt_of_related (s.refetched w) (fun j f g hfg => ?_) (fun j hn => if_neg ?_) j
  · rw [hif] at hfg
    cases hfg with
    | kept ht hc hp => rw [if_neg ht, hp, Nat.add_zero]
    | cached ht hc hp => rw [if_pos ht, hp]
    | vacated ht h₀ hp => rw [if_neg ht, hp, h₀]
    | filled ht h₀ hp => rw [if_pos ht, hp, h₀]
  · rintro rfl
    obtain ⟨g, hg⟩ := frame_of_pin h
    obtain ⟨f, hf, -⟩ := (s.refetched w).before hg
    rw [hn] at hf
    cases hf

theorem size_step (s : Store) (c : PoolCall) : (s.step c).pool.size = s.pool.size := by
  cases c with
  | pin w => exact (s.refetched w).size
  | unpin i => exact (related_unpin s i).size
  | flush i => exact (samePins_flushFrame s i).size
  | flushAll | flushFor tx =>
    exact flushWhere_induct (P := fun s' => s'.pool.size = s.pool.size)
      (fun s' i hs => (samePins_flushFrame s' i).size.trans hs) rfl _
  | write i offset v => exact (samePins_editFrame s i fun _ _ hg => (Frame.of_write hg).2).size
  | writeLogged i offset v tx lsn =>
    exact (samePins_editFrame s i fun _ _ hg => (Frame.of_writeLogged hg).2.2.1).size
  | log l => rfl
  | fault cause => rfl

theorem size_run (s : Store) (calls : List PoolCall) : (s.run calls).pool.size = s.pool.size := by
  induction calls generalizing s with
  | nil => rfl
  | cons c cs ih => exact (ih _).trans (s.size_step c)

theorem pinsAt_pin_of_none (h : ∀ i, (s.pin w).1 ≠ .ok (some i)) (j : Nat) :
    (s.pin w).2.pool.pinsAt j = s.pool.pinsAt j := by
  refine pinsAt_of_related (s.refetched w) (fun j f g hfg => ?_) (fun _ _ => rfl) j
  cases hfg with
  | kept ht hc hp => exact hp
  | cached ht => exact absurd ht (h j)
  | vacated ht h₀ hp => rw [hp, h₀]
  | filled ht => exact absurd ht (h j)

end Store

namespace Pool

theorem size_of_create {size stripes blockSize : Nat} {p : Pool}
    (h : create size stripes blockSize = .ok p) :
    p.size = size ∧ p.free = size ∧ size < wordLimit 8 := by
  unfold create at h
  split at h
  · cases h
  · split at h
    · cases h
    · split at h
      · cases h
      · rename_i hlimit
        split at h
        · cases h
        · rename_i frames hframes
          split at h
          · cases h
          · cases h
            refine ⟨length_blanks hframes, rfl, ?_⟩
            have hle : memoryLimit ≤ wordLimit 8 := Nat.div_le_self ..
            unfold handleSize at hlimit
            omega

theorem pins_of_create {size stripes blockSize : Nat} {p : Pool}
    (h : create size stripes blockSize = .ok p) : ∀ n ∈ p.frames.map Frame.pins, n = 0 := by
  obtain ⟨-, -, hframes⟩ := create_eq_ok h
  intro n hn
  obtain ⟨f, hf, rfl⟩ := List.mem_map.1 hn
  obtain ⟨i, hi⟩ := List.mem_iff_getElem?.1 hf
  rw [hframes hi]

theorem pinsAt_of_create {size stripes blockSize : Nat} {p : Pool}
    (h : create size stripes blockSize = .ok p) (i : Nat) : p.pinsAt i = 0 := by
  unfold pinsAt
  cases hn : (p.frames.map Frame.pins)[i]? with
  | none => rfl
  | some n => exact pins_of_create h n (List.mem_of_getElem? hn)

theorem count_eq_size {p : Pool} (h : ∀ n ∈ p.frames.map Frame.pins, n = 0) :
    (p.frames.map Frame.pins).count 0 = p.size := by
  rw [List.count_eq_length.2 fun n hn => (h n hn).symm, List.length_map, Pool.size]

theorem counted_of_create {size stripes blockSize : Nat} {p : Pool}
    (h : create size stripes blockSize = .ok p) : p.Counted := by
  obtain ⟨hsize, hfree, -⟩ := size_of_create h
  rw [Counted, count_eq_size (pins_of_create h), hfree, hsize]

end Pool

end PagedStore
