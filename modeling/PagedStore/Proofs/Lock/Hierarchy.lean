import PagedStore.Proofs.Lock.Calls

set_option autoImplicit false

/-!
Locks on targets of several sizes, which do not see each other. Main statement:
`hierarchical_exclusion`. Whoever has a lock on something fine has an intention on all that it is
in, and that keeps the locks of others off the coarse targets.
-/

namespace PagedStore

def Target.coarser : Target → List Target
  | .file _ => []
  | .block b => [.file b.file]
  | .record r => [.file r.block.file, .block r.block]

theorem Target.depth_lt_of_mem_coarser {t c : Target} (h : c ∈ t.coarser) : c.depth < t.depth := by
  cases t with
  | file f => cases h
  | block b =>
    obtain rfl := List.mem_singleton.1 h
    exact Nat.zero_lt_one
  | record r =>
    simp only [coarser, List.mem_cons, List.not_mem_nil, or_false] at h
    rcases h with rfl | rfl <;> simp [depth]

namespace Isolation

/-- The intention that a level keeps on what a target is in, for a mode on the target. -/
def intention (level : Isolation) : Mode → Option Mode
  | .ix | .six | .x => some .ix
  | .is | .s => if level = .repeatableRead then some .is else none

theorem keeps_intention {level : Isolation} {m n : Mode} (h : level.intention m = some n) :
    level.Keeps n := by
  intro hn
  cases level with
  | readCommitted => cases m <;> cases h <;> cases hn
  | repeatableRead => rfl

end Isolation

theorem Mode.covers_is (m : Mode) : m.covers .is := by cases m <;> rfl

theorem Intent.Asks.acquire_coarser {level : Isolation} {i : Intent} {t c : Target} {m n : Mode}
    (h : i.Asks level t m) (hn : level.intention m = some n) (hc : c ∈ t.coarser) :
    .acquire c n ∈ i.steps level := by
  obtain ⟨s, hs, ha⟩ := h
  cases t with
  | file f => cases hc
  | block b =>
    obtain rfl := List.mem_singleton.1 hc
    cases i <;> cases level <;>
      grind [steps, coarse, changeBlock, changeRecord, LockStep.Asks, Isolation.intention]
  | record r =>
    have hc : c = .file r.block.file ∨ c = .block r.block := by
      simpa only [Target.coarser, List.mem_cons, List.not_mem_nil, or_false] using hc
    cases i <;> cases level <;>
      grind [steps, coarse, changeBlock, changeRecord, LockStep.Asks, Isolation.intention]

namespace Traffic

variable {level : TxId → Isolation} {σ τ : Traffic} {move : CallMove}

/-- Whoever has a mode on a target has the intention that goes with it on all that the target is
in, and nobody releases a directory block. -/
structure Layered (level : TxId → Isolation) (σ : Traffic) : Prop where
  sound : σ.Sound level
  intends : ∀ t a m n, (σ.table.holders t).Holds a m → (level a).intention m = some n →
    ∀ c ∈ t.coarser, (σ.table.holders c).covers a n
  lasting : ∀ a b, ¬ σ.InCall a (.directoryRelease b)

theorem layered_blank (level : TxId → Isolation) (place : Target → Nat)
    (anchors maxWait capacity : Nat) : (blank place anchors maxWait capacity).Layered level where
  sound := sound_blank level place anchors maxWait capacity
  intends := fun t a m n hm => absurd hm Holders.not_holds_none
  lasting := fun a b hi => by
    obtain ⟨c, hc, -⟩ := hi
    cases hc

theorem Layered.intends_first (h : σ.Layered level) {a : TxId} {i : Intent} {s : LockStep}
    {rest : List LockStep} (hi : σ.InCall a i) (hleft : i.Left (level a) (s :: rest))
    (hu : σ.table.Underway a (i.Drops (level a)) (i.steps (level a)) (s :: rest))
    {t c : Target} {m n : Mode} (ha : s.Asks t m) (hn : (level a).intention m = some n)
    (hc : c ∈ t.coarser) : (σ.table.holders c).covers a n := by
  have hlt := Target.depth_lt_of_mem_coarser hc
  obtain rfl : s.target = t := by
    cases s with
    | acquire t' m' => exact ha.1
    | touch t' m' => exact ha.1
    | drop t' m' => exact ha.elim
  have hask := (hleft.asked s List.mem_cons_self _ m ha).acquire_coarser hn hc
  rcases hu.owed c n hask with hmem | hcovers | ⟨n', hcovers, hd⟩
  · -- what is coarser does not come later
    rcases List.mem_cons.1 hmem with rfl | hmem
    · exact absurd hlt (Nat.lt_irrefl _)
    · exact absurd ((List.pairwise_cons.1 hleft.descends).1 _ hmem) (Nat.not_le_of_lt hlt)
  · exact hcovers
  · rcases hd.cases with hno | ⟨b, rfl, -⟩
    · exact absurd ((Isolation.keeps_intention hn).of_covers hcovers) hno
    · exact absurd hi (h.lasting a b)

theorem Layered.step (h : σ.Layered level) (hs : Shift level σ move τ)
    (hno : ∀ a b, move ≠ .call a (.directoryRelease b)) : τ.Layered level where
  sound := h.sound.step hs
  lasting := fun a b hi => (hs.inCall hi).elim (h.lasting a b) (hno a b)
  intends := by
    intro t a m n hm hn c hc
    by_cases hr : move = .releaseAll a
    · subst hr
      cases hs with
      | idle => exact h.intends t a m n hm hn c hc
      | releaseAll hfree => exact absurd hm (h.sound.indexed.not_holds_releaseAll t a m)
    · have hbefore : (σ.table.holders c).covers a n := by
        rcases h.sound.gains hs hm with hm | ⟨i, s, rest, hi, ha, hleft, hu⟩
        · exact h.intends t a m n hm hn c hc
        · exact h.intends_first hi hleft hu ha hn hc
      rcases (h.sound.loses hs).covers hbefore with hafter | ⟨n', hcovers, ht⟩
      · exact hafter
      · rcases ht.cases ((Isolation.keeps_intention hn).of_covers hcovers) with
          ⟨hm, -⟩ | ⟨b, -, -, hi⟩
        · exact absurd hm hr
        · exact absurd hi (h.lasting a b)

theorem Layered.run (h : σ.Layered level) {moves : List CallMove}
    (hno : ∀ a b, .call a (.directoryRelease b) ∉ moves) : (σ.run level moves).Layered level := by
  induction moves generalizing σ with
  | nil => exact h
  | cons move moves ih =>
    refine ih (h.step (σ.shift_step level move) fun a b he => ?_) fun a b hm => ?_
    · exact hno a b (List.mem_cons.2 (.inl he.symm))
    · exact hno a b (List.mem_cons_of_mem move hm)

end Traffic

/-- In every state of every run of calls in which nobody releases a directory block: whoever has a
block or a record exclusively intends to write in all that it is in, and whoever keeps its reads
and has it shared or exclusively intends to read there. So nobody has anything exclusively inside
what another has exclusively, nor shared and to be kept, and nobody has a record exclusively in a
block that another has shared. -/
theorem hierarchical_exclusion (level : TxId → Isolation) (place : Target → Nat)
    (anchors maxWait capacity : Nat) {moves : List CallMove}
    (hno : ∀ a b, .call a (.directoryRelease b) ∉ moves) :
    let l := ((Traffic.blank place anchors maxWait capacity).run level moves).table
    (∀ t a, ∀ c ∈ t.coarser, (l.holders t).Holds a .x → (l.holders c).covers a .ix) ∧
    (∀ t a, ∀ c ∈ t.coarser, level a = .repeatableRead →
      (l.holders t).Holds a .s ∨ (l.holders t).Holds a .x → (l.holders c).covers a .is) ∧
    (∀ t a b, ∀ c ∈ t.coarser, a ≠ b → (l.holders c).Holds a .x →
      ¬ (l.holders t).Holds b .x ∧
        (level b = .repeatableRead → ¬ (l.holders t).Holds b .s)) ∧
    (∀ r a b, a ≠ b → (l.holders (.block r.block)).Holds a .s →
      ¬ (l.holders (.record r)).Holds b .x) := by
  have h := (Traffic.layered_blank level place anchors maxWait capacity).run hno
  have hx : ∀ a, (level a).intention .x = some .ix := fun _ => rfl
  have hs : ∀ a, level a = .repeatableRead → (level a).intention .s = some .is := by
    intro a ha
    rw [ha]
    rfl
  refine ⟨fun t a c hc hm => h.intends t a .x .ix hm (hx a) c hc, fun t a c hc ha hm => ?_,
    fun t a b c hc hne hm => ⟨fun hn => ?_, fun hb hn => ?_⟩, fun r a b hne hm hn => ?_⟩
  · rcases hm with hm | hm
    · exact h.intends t a .s .is hm (hs a ha) c hc
    · obtain ⟨n, hn, -⟩ := Holders.covers_iff.1 (h.intends t a .x .ix hm (hx a) c hc)
      exact Holders.covers_iff.2 ⟨n, hn, n.covers_is⟩
  · have hno := h.sound.compatible.of_covers hne (Holders.covers_of_holds hm)
      (h.intends t b .x .ix hn (hx b) c hc)
    cases hno
  · have hno := h.sound.compatible.of_covers hne (Holders.covers_of_holds hm)
      (h.intends t b .s .is hn (hs b hb) c hc)
    cases hno
  · have hno := h.sound.compatible.of_covers hne (Holders.covers_of_holds hm)
      (h.intends _ b .x .ix hn (hx b) (.block r.block) (by simp [Target.coarser]))
    cases hno

def mixed (tx : TxId) : Isolation := if tx = ⟨1⟩ then .readCommitted else .repeatableRead

/-- A reader looks in at a block, and a writer takes a record in it. The reader then wants to write
all of the block, and waits. -/
def writerInside : List CallMove :=
  [.call ⟨2⟩ (.blockRead ⟨"f", 0⟩), .advance ⟨2⟩ false, .call ⟨1⟩ (.recordChange ⟨⟨"f", 0⟩, 0⟩),
    .advance ⟨1⟩ false, .advance ⟨2⟩ false, .finish ⟨2⟩, .advance ⟨1⟩ false, .advance ⟨1⟩ false,
    .finish ⟨1⟩, .call ⟨2⟩ (.blockChange ⟨"f", 0⟩), .advance ⟨2⟩ false, .advance ⟨2⟩ false]

theorem hierarchical_exclusion_inside :
    let l := ((Traffic.blank Target.spread 1 10000 1).run mixed writerInside).table
    (l.holders (.record ⟨⟨"f", 0⟩, 0⟩)).Holds ⟨1⟩ .x ∧
      (l.holders (.block ⟨"f", 0⟩)).covers ⟨1⟩ .ix ∧ l.sleepers.map Sleeper.tx = [⟨2⟩] := by
  have hno : ∀ a b, CallMove.call a (.directoryRelease b) ∉ writerInside := by
    intro a b hm
    simp [writerInside] at hm
  intro l
  have hx : (l.holders (.record ⟨⟨"f", 0⟩, 0⟩)).Holds ⟨1⟩ .x := by decide +kernel
  have hall := hierarchical_exclusion mixed Target.spread 1 10000 1 hno
  exact ⟨hx, hall.1 _ _ _ (by simp [Target.coarser]) hx, by decide +kernel⟩

end PagedStore
