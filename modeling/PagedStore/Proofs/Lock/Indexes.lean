import PagedStore.Proofs.Lock.Filed

set_option autoImplicit false

/-!
The two indexes of a lock table, and what a release of everything leaves of a transaction. Main
statement: `Scene.indexes_agree`, on what can be read between operations, whatever comes between
the steps of a call, and for every order in which a release goes through its targets.
-/

namespace PagedStore

namespace BlockId

instance : Std.TransCmp BlockId.order :=
  inferInstanceAs (Std.TransCmp (compareLex (compareOn BlockId.file) (compareOn BlockId.number)))

theorem eq_of_order {a b : BlockId} (h : a.order b = .eq) : a = b := by
  obtain ⟨f, n⟩ := a
  obtain ⟨g, m⟩ := b
  obtain ⟨hf, hn⟩ := Ordering.then_eq_eq.1 h
  obtain rfl : f = g := Std.LawfulEqCmp.eq_of_compare hf
  obtain rfl : n = m := Std.LawfulEqCmp.eq_of_compare hn
  rfl

end BlockId

namespace RecordId

instance : Std.TransCmp fun a b : RecordId => a.block.order b.block where
  eq_swap {_ _} := @Std.OrientedCmp.eq_swap _ BlockId.order _ _ _
  isLE_trans {_ _ _} := @Std.TransCmp.isLE_trans _ BlockId.order _ _ _ _

instance : Std.TransCmp RecordId.order :=
  inferInstanceAs (Std.TransCmp
    (compareLex (fun a b => a.block.order b.block) (compareOn RecordId.slot)))

theorem eq_of_order {a b : RecordId} (h : a.order b = .eq) : a = b := by
  obtain ⟨b₁, n⟩ := a
  obtain ⟨b₂, m⟩ := b
  obtain ⟨hb, hn⟩ := Ordering.then_eq_eq.1 h
  obtain rfl : b₁ = b₂ := BlockId.eq_of_order hb
  obtain rfl : n = m := Std.LawfulEqCmp.eq_of_compare hn
  rfl

end RecordId

namespace Target

instance : Std.OrientedCmp Target.order where
  eq_swap {a b} := by
    cases a <;> cases b
    case file.file => exact @Std.OrientedCmp.eq_swap String compare _ _ _
    case block.block => exact @Std.OrientedCmp.eq_swap _ BlockId.order _ _ _
    case record.record => exact @Std.OrientedCmp.eq_swap _ RecordId.order _ _ _
    all_goals rfl

instance : Std.TransCmp Target.order where
  isLE_trans {a b c} hab hbc := by
    cases a <;> cases b <;> cases c
    case file.file.file => exact @Std.TransCmp.isLE_trans String compare _ _ _ _ hab hbc
    case block.block.block => exact @Std.TransCmp.isLE_trans _ BlockId.order _ _ _ _ hab hbc
    case record.record.record => exact @Std.TransCmp.isLE_trans _ RecordId.order _ _ _ _ hab hbc
    all_goals first
      | rfl
      | exact (Bool.false_ne_true hab).elim
      | exact (Bool.false_ne_true hbc).elim

theorem eq_of_order {a b : Target} (h : a.order b = .eq) : a = b := by
  cases a <;> cases b
  case file.file =>
    exact congrArg Target.file (@Std.LawfulEqCmp.eq_of_compare String compare _ _ _ h)
  case block.block => exact congrArg Target.block (BlockId.eq_of_order h)
  case record.record => exact congrArg Target.record (RecordId.eq_of_order h)
  all_goals cases h

instance : Std.Total fun a b : Target => (a.le b : Prop) where
  total a b := by
    rw [le, le, @Std.OrientedCmp.eq_swap _ Target.order _ b a]
    cases a.order b <;> simp

instance : IsTrans Target fun a b => a.le b where
  trans _ _ _ := Std.TransCmp.isLE_trans

theorem pairwise_sort {ts : List Target} (h : ts.Nodup) :
    (sort ts).Pairwise fun a b => a.order b = .lt := by
  rw [sort, sortBy_eq]
  have hle := List.pairwise_insertionSort (fun a b => (le a b : Prop)) ts
  have hne := (List.perm_insertionSort (fun a b => (le a b : Prop)) ts).nodup_iff.2 h
  refine (hle.and hne).imp fun hc => ?_
  cases ho : Target.order _ _ with
  | lt => rfl
  | eq => exact absurd (eq_of_order ho) hc.2
  | gt =>
    rw [le, ho] at hc
    cases hc.1

end Target

namespace LockTable

variable {l : LockTable} {tx : TxId}

theorem on_iff (l : LockTable) (tx : TxId) (t : Target) : l.On tx t ↔ l.modesOf t tx ≠ [] := by
  rw [modesOf, ne_eq, modesOf_eq_nil]
  simp [On]

theorem Filed.lockedTargets (h : l.Filed) (hl : l.Listed tx) :
    (l.lockedTargets tx).Pairwise (fun a b => a.order b = .lt) ∧
      ∀ t, t ∈ l.lockedTargets tx ↔ l.modesOf t tx ≠ [] := by
  refine ⟨Target.pairwise_sort (h.nodup tx), fun t => ?_⟩
  rw [← on_iff, hl t, LockTable.lockedTargets, Target.sort, sortBy_eq, List.mem_insertionSort]

theorem Filed.mem_keys (h : l.Filed) (t : Target) : t ∈ l.entries.keys ↔
    (∃ a, l.modesOf t a ≠ []) ∨ ∃ s ∈ l.sleepers, s.target = t := by
  rw [← Registry.find?_isSome_iff]
  have hnone : l.entries.find? t = none → l.holders t = .none := fun hf => by
    rw [LockTable.holders, hf, Option.getD_none]
  constructor
  · intro hs
    obtain ⟨hd, hf⟩ := Option.isSome_iff_exists.1 hs
    have he : l.holders t = hd := by rw [LockTable.holders, hf, Option.getD_some]
    refine Classical.byContradiction fun hno => ?_
    rw [not_or, not_exists, not_exists] at hno
    have hvacant : hd.isIdle := by
      rw [← he]
      refine Holders.isIdle_of_vacant (fun a m hm => ?_) (List.eq_nil_iff_forall_not_mem.2 ?_)
      · exact hno.1 a ((on_iff l a t).1 ⟨m, hm⟩)
      · intro a ha
        obtain ⟨s, hs, ht, -⟩ := (h.waiting t a).1 ha
        exact hno.2 s ⟨hs, ht⟩
    rw [h.occupied t hd hf] at hvacant
    cases hvacant
  · intro hc
    rw [Option.isSome_iff_ne_none]
    intro hf
    rcases hc with ⟨a, ha⟩ | ⟨s, hs, ht⟩
    · obtain ⟨m, hm⟩ := (on_iff l a t).2 ha
      rw [hnone hf] at hm
      exact Holders.not_holds_none hm
    · have hw : s.tx ∈ (l.holders t).waiting := (h.waiting t s.tx).2 ⟨s, hs, ht, rfl⟩
      rw [hnone hf] at hw
      cases hw

structure Absent (l : LockTable) (tx : TxId) : Prop where
  holds : ∀ t m, ¬ (l.holders t).Holds tx m
  waiting : ∀ t, tx ∉ (l.holders t).waiting
  held : l.held.find? tx = none
  doomed : tx ∉ l.doomed
  anchor : l.lastAnchor.find? tx = none

end LockTable

namespace Scene

variable {σ τ υ : Scene} {tx : TxId} {H : Target → Mode → Prop} {sharedOnly : Bool}
  {woken : Option Nat} {mover : Option TxId}

/-- How far a release of everything has got: what is left of the modes `H` that its transaction had
when it began. -/
def Gives (H : Target → Mode → Prop) (sharedOnly : Bool) (tx : TxId) (l : LockTable) :
    Option LockPhase → Prop
  | some (.releasing ms ts leaving) | some (.unlisting _ ms ts leaving) =>
    ms = LockTable.given sharedOnly ∧ leaving = (!sharedOnly) ∧ ts.Nodup ∧
      ∀ t m, (l.holders t).Holds tx m ↔ H t m ∧ (m ∈ ms → t ∈ ts)
  | some .disowning | some .pardoning =>
    sharedOnly = false ∧ ∀ t m, (l.holders t).Holds tx m ↔ H t m ∧ m ∉ LockTable.given sharedOnly
  | some .forgetting =>
    sharedOnly = false ∧ tx ∉ l.doomed ∧
      ∀ t m, (l.holders t).Holds tx m ↔ H t m ∧ m ∉ LockTable.given sharedOnly
  | none =>
    ¬ l.Sleeps tx ∧ (sharedOnly = false → tx ∉ l.doomed ∧ l.lastAnchor.find? tx = none) ∧
      ∀ t m, (l.holders t).Holds tx m ↔ H t m ∧ m ∉ LockTable.given sharedOnly
  | some (.recording ..) | some (.checking ..) | some (.wounding ..) | some (.posting ..) => False
  | some (.unrecording _) | some (.listing _) => False

theorem not_doomed_mono {l l' : LockTable} (hl : LockTable.Leaves mover woken l l')
    (hh : ∀ t m, ¬ (l.holders t).Holds tx m) (hd : tx ∉ l.doomed) : tx ∉ l'.doomed := by
  intro hd'
  rcases hl.doomed tx hd' with hd' | ⟨t, m, hm⟩
  · exact hd hd'
  · exact hh t m hm

theorem Gives.mono {l l' : LockTable} {p : Option LockPhase} (h : Gives H sharedOnly tx l p)
    (hl : LockTable.Leaves mover woken l l') (hne : some tx ≠ mover) :
    Gives H sharedOnly tx l' p := by
  have hh : ∀ t m, (l'.holders t).Holds tx m ↔ (l.holders t).Holds tx m := fun t m =>
    hl.respects.holds t tx m hne
  have hnone : sharedOnly = false →
      (∀ t m, (l.holders t).Holds tx m ↔ H t m ∧ m ∉ LockTable.given sharedOnly) →
      ∀ t m, ¬ (l.holders t).Holds tx m := by
    rintro rfl hm t m ho
    exact ((hm t m).1 ho).2 (LockTable.mem_given_false m)
  cases p with
  | none =>
    obtain ⟨hz, hd, hm⟩ := h
    refine ⟨LockTable.not_sleeps_mono hl.spares hne hz, fun hs => ?_, fun t m => by rw [hh, hm]⟩
    exact ⟨not_doomed_mono hl (hnone hs hm) (hd hs).1, by rw [hl.spares.recorded tx hne, (hd hs).2]⟩
  | some p =>
    cases p with
    | recording | checking | wounding | posting | unrecording | listing => exact h
    | releasing | unlisting => exact ⟨h.1, h.2.1, h.2.2.1, fun t m => by rw [hh, h.2.2.2]⟩
    | disowning | pardoning => exact ⟨h.1, fun t m => by rw [hh, h.2]⟩
    | forgetting =>
      exact ⟨h.1, not_doomed_mono hl (hnone h.1 h.2.2) h.2.1, fun t m => by rw [hh, h.2.2]⟩

theorem gives_goOn {p : LockPhase} {l' : LockTable} (h : Gives H sharedOnly tx l' (some p)) :
    Gives H sharedOnly tx (σ.goOn tx p l').table ((σ.goOn tx p l').phases.find? tx) := by
  rw [find?_goOn, if_pos rfl]
  exact h

theorem gives_rest {l' : LockTable} (h : Gives H sharedOnly tx l' none) :
    Gives H sharedOnly tx (σ.rest tx l').table ((σ.rest tx l').phases.find? tx) := by
  rw [find?_rest, if_pos rfl]
  exact h

theorem Gives.advance {p : LockPhase} (h : Gives H sharedOnly tx σ.table (some p))
    (hs : σ.table.Stands tx p) (he : σ.advance tx p = some τ) :
    Gives H sharedOnly tx τ.table (τ.phases.find? tx) := by
  cases p with
  | recording | checking | wounding | posting | unrecording | listing => exact h.elim
  | releasing ms ts leaving =>
    obtain ⟨rfl, rfl, hnd, hm⟩ := h
    cases ts with
    | nil =>
      have hm' : ∀ t m, (σ.table.holders t).Holds tx m ↔
          H t m ∧ m ∉ LockTable.given sharedOnly := fun t m => by
        rw [hm, List.mem_nil_iff, imp_false]
      cases sharedOnly with
      | true =>
        cases he
        exact gives_rest ⟨hs.1, nofun, hm'⟩
      | false =>
        cases he
        exact gives_goOn ⟨rfl, hm'⟩
    | cons t ts =>
      obtain ⟨ht, hnd⟩ := List.nodup_cons.1 hnd
      rw [Scene.advance] at he
      split at he
      · cases he
        have hstrip : ∀ t' m, ((σ.table.strip t tx (LockTable.given sharedOnly)).holders t').Holds
            tx m ↔ H t' m ∧ (m ∈ LockTable.given sharedOnly → t' ∈ ts) := by
          intro t' m
          rw [LockTable.holds_strip, hm, List.mem_cons]
          by_cases htt : t' = t
          · subst htt
            simp only [true_or, implies_true, and_true, true_and, ht, imp_false]
          · simp only [htt, false_or, false_and, not_false_eq_true, and_true]
        refine gives_goOn ?_
        split <;> exact ⟨rfl, rfl, hnd, hstrip⟩
      · cases he
  | unlisting t ms ts leaving =>
    cases he
    exact gives_goOn h
  | disowning =>
    cases he
    exact gives_goOn h
  | pardoning =>
    cases he
    refine gives_goOn ⟨h.1, fun hd => ?_, h.2⟩
    simp at hd
  | forgetting =>
    cases he
    exact gives_rest ⟨hs.1, fun _ => ⟨h.2.1, Registry.find?_erase_self ..⟩, h.2.2⟩

/-- Whatever comes between its steps, a release of everything takes from its transaction what it is
to take, and no more. -/
theorem Gives.turn {e : LockTurn} (ha : σ.Agrees)
    (h : Gives H sharedOnly tx σ.table (σ.phases.find? tx)) (he : σ.turn e = some τ)
    (hb : ¬ e.Begins tx) : Gives H sharedOnly tx τ.table (τ.phases.find? tx) := by
  obtain ⟨-, woken, ht⟩ := ha.turn he
  by_cases hm : some tx = e.mover? σ.table
  · cases e with
    | move m =>
      cases m with
      | ask t a m => exact absurd (Option.some.inj hm).symm hb
      | release t a ms => exact absurd (Option.some.inj hm).symm hb
      | releaseAll a b => exact absurd (Option.some.inj hm).symm hb
      | fetch | address | wake => cases hm
      | relook ticket =>
        obtain ⟨s, hs, rfl⟩ := Option.map_eq_some_iff.1 hm.symm
        simp only [Scene.turn, Scene.move, hs] at he
        split at he
        · rename_i hi
          rw [Option.isNone_iff_eq_none.1 hi.1] at h
          exact absurd ⟨s, (LockTable.mem_sleeper hs).1, rfl⟩ h.1
        · cases he
      | advance a =>
        obtain rfl := Option.some.inj hm
        simp only [Scene.turn, Scene.move] at he
        split at he
        · cases he
        · rename_i p hp
          rw [hp] at h
          exact h.advance (ha.stands tx p hp) he
    | expire a =>
      obtain rfl := Option.some.inj hm
      obtain ⟨q, hp, -⟩ := expire_eq_some he
      rw [hp] at h
      exact h.elim
    | skip a =>
      obtain rfl := Option.some.inj hm
      obtain ⟨q, v, vs, hp, -⟩ := skip_eq_some he
      rw [hp] at h
      exact h.elim
    | visit a b ts => exact absurd (Option.some.inj hm).symm hb
  · rw [ht.phases tx hm]
    exact h.mono ht.leaves hm

theorem Gives.turns {es : List LockTurn} (ha : σ.Agrees)
    (h : Gives H sharedOnly tx σ.table (σ.phases.find? tx)) (he : σ.turns es = some τ)
    (hb : ∀ e ∈ es, ¬ e.Begins tx) : Gives H sharedOnly tx τ.table (τ.phases.find? tx) := by
  induction es generalizing σ with
  | nil =>
    cases he
    exact h
  | cons e es ih =>
    obtain ⟨υ, hu, he⟩ := Option.bind_eq_some_iff.1 he
    exact ih (ha.turn hu).agrees (h.turn ha hu (hb e List.mem_cons_self)) he
      fun e' hm => hb e' (List.mem_cons_of_mem e hm)

theorem Agrees.gives_visit {ts : List Target} (h : σ.Agrees)
    (he : σ.turn (.visit tx sharedOnly ts) = some τ) :
    Gives (fun t m => (σ.table.holders t).Holds tx m) sharedOnly tx τ.table
      (τ.phases.find? tx) := by
  obtain ⟨⟨hn, -⟩, hp, rfl⟩ := visit_eq_some he
  refine gives_goOn ⟨rfl, rfl, hp.nodup_iff.2 (h.filed.nodup tx), fun t m => ?_⟩
  refine (and_iff_left_of_imp fun hm _ => hp.mem_iff.2 ?_).symm
  exact (h.listed tx hn t).1 ⟨m, hm⟩

theorem Gives.absent (ha : σ.Agrees) (hn : σ.phases.find? tx = none)
    (h : Gives H false tx σ.table none) : σ.table.Absent tx := by
  obtain ⟨hz, hd, hm⟩ := h
  have hno : ∀ t m, ¬ (σ.table.holders t).Holds tx m := fun t m ho =>
    ((hm t m).1 ho).2 (LockTable.mem_given_false m)
  refine ⟨hno, fun t hw => ?_, ha.filed.unlisted ?_, (hd rfl).1, (hd rfl).2⟩
  · obtain ⟨s, hs, -, hx⟩ := (ha.filed.waiting t tx).1 hw
    exact hz ⟨s, hs, hx⟩
  · refine List.eq_nil_iff_forall_not_mem.2 fun t ht => ?_
    obtain ⟨m, hm⟩ := (ha.listed tx hn t).2 ht
    exact hno t m hm

theorem modesOf_congr {l l' : LockTable} {t : Target} {a : TxId} {p : Mode → Bool}
    (h : ∀ m, (l'.holders t).Holds a m ↔ (l.holders t).Holds a m ∧ p m) :
    l'.modesOf t a = (l.modesOf t a).filter p := by
  unfold LockTable.modesOf Holders.modesOf
  rw [List.filter_filter]
  refine List.filter_congr fun m _ => ?_
  simp only [h m, Bool.decide_and, Bool.decide_eq_true, Bool.and_comm]

theorem modesOf_eq {l l' : LockTable} {t : Target} {a : TxId}
    (h : ∀ m, (l'.holders t).Holds a m ↔ (l.holders t).Holds a m) :
    l'.modesOf t a = l.modesOf t a := by
  unfold LockTable.modesOf Holders.modesOf
  exact List.filter_congr fun m _ => by simp only [h m]

/-- The modes that a release of everything leaves to its transaction. -/
def kept (sharedOnly : Bool) (m : Mode) : Bool := sharedOnly && m ≠ .is && m ≠ .s

theorem kept_iff (sharedOnly : Bool) (m : Mode) :
    kept sharedOnly m ↔ m ∉ LockTable.given sharedOnly := by
  cases sharedOnly <;> cases m <;> decide

theorem Agrees.releaseAll {l : LockTable} (h : (still l).Agrees) (hz : ¬ l.Sleeps tx)
    (sharedOnly : Bool) (a : TxId) (t : Target) :
    (l.releaseAll tx sharedOnly).modesOf t a =
      if a = tx then (l.modesOf t a).filter (kept sharedOnly) else l.modesOf t a := by
  by_cases ha : a = tx
  · subst ha
    rw [if_pos rfl]
    refine modesOf_congr fun m => ?_
    rw [LockTable.holds_releaseAll, kept_iff]
    refine and_congr_right fun hm => not_congr ?_
    exact ⟨fun hc => hc.2.2, fun hc => ⟨(h.listed a rfl t).1 ⟨m, hm⟩, rfl, hc⟩⟩
  · rw [if_neg ha]
    refine modesOf_eq fun m => ?_
    rw [LockTable.holds_releaseAll]
    exact and_iff_left fun hc => ha hc.2.1

theorem Agrees.absent_releaseAll {l : LockTable} (h : (still l).Agrees) (hz : ¬ l.Sleeps tx) :
    (l.releaseAll tx false).Absent tx := by
  have hindexed : l.Indexed := fun t a m hm => (h.listed a rfl t).1 ⟨m, hm⟩
  obtain ⟨es, hes⟩ := (runs_releaseAll hz false).turns
  have h' : (still (l.releaseAll tx false)).Agrees := h.turns hes
  refine ⟨fun t => hindexed.not_holds_releaseAll t tx, fun t hw => ?_,
    Registry.find?_erase_self .., ?_, Registry.find?_erase_self ..⟩
  · obtain ⟨s, hs, -, hx⟩ := (h'.filed.waiting t tx).1 hw
    exact hz ((LockTable.sleeps_releaseOn ..).1 ⟨s, hs, hx⟩)
  · intro hd
    simp [LockTable.releaseAll, LockTable.forget] at hd

/-- What can be read off a lock table between operations agrees, and a release of everything takes
away what it is to take. So it is in every run of the steps of calls, with requests that are turned
away, sleep or run out of time, and for every order in which a release goes through its targets; and
calls that follow one another are such runs. -/
theorem indexes_agree (place : Target → Nat) (anchors maxWait capacity : Nat) :
    let l₀ := LockTable.blank place anchors maxWait capacity
    (∀ es σ, (still l₀).turns es = some σ →
      (∀ tx, σ.phases.find? tx = none →
        (σ.table.lockedTargets tx).Pairwise (fun a b => a.order b = .lt) ∧
          ∀ t, t ∈ σ.table.lockedTargets tx ↔ σ.table.modesOf t tx ≠ []) ∧
      (∃ ts : List Target, ts.Nodup ∧ ts.length = σ.table.targetCount ∧ ∀ t, t ∈ ts ↔
        (∃ tx, σ.table.modesOf t tx ≠ []) ∨ ∃ s ∈ σ.table.sleepers, s.target = t) ∧
      (∀ t tx, tx ∈ (σ.table.holders t).waiting ↔
        ∃ s ∈ σ.table.sleepers, s.target = t ∧ s.tx = tx) ∧
      (∀ e τ, σ.turn e = some τ → ∀ tx, some tx ≠ e.mover? σ.table → ∀ t,
        τ.table.modesOf t tx = σ.table.modesOf t tx) ∧
      ∀ tx sharedOnly ts τ fs υ, σ.turn (.visit tx sharedOnly ts) = some τ →
        τ.turns fs = some υ → (∀ e ∈ fs, ¬ e.Begins tx) → υ.phases.find? tx = none →
          (∀ t, υ.table.modesOf t tx = (σ.table.modesOf t tx).filter (kept sharedOnly)) ∧
            (sharedOnly = false → υ.table.Absent tx)) ∧
    ∀ es, l₀.Obeys es → Turns (still l₀) (still (l₀.run es)) ∧
      ∀ tx, ¬ (l₀.run es).Sleeps tx →
        (∀ sharedOnly a t, ((l₀.run es).releaseAll tx sharedOnly).modesOf t a =
          if a = tx then ((l₀.run es).modesOf t a).filter (kept sharedOnly)
          else (l₀.run es).modesOf t a) ∧
        ((l₀.run es).releaseAll tx false).Absent tx := by
  intro l₀
  have hblank : (still l₀).Agrees := agrees_blank place anchors maxWait capacity
  constructor
  · intro es σ hσ
    have h : σ.Agrees := hblank.turns hσ
    refine ⟨fun tx hn => h.filed.lockedTargets (h.listed tx hn),
      ⟨σ.table.entries.keys, σ.table.entries.nodup_keys, Registry.length_keys _, h.filed.mem_keys⟩,
      h.filed.waiting, ?_, ?_⟩
    · intro e τ he tx hne t
      obtain ⟨-, woken, ht⟩ := h.turn he
      exact modesOf_eq fun m => ht.leaves.respects.holds t tx m hne
    · intro tx sharedOnly ts τ fs υ hv hf hb hn
      have hτ : τ.Agrees := (h.turn hv).agrees
      have hg := (h.gives_visit hv).turns hτ hf hb
      rw [hn] at hg
      refine ⟨fun t => modesOf_congr fun m => ?_, ?_⟩
      · rw [hg.2.2 t m, kept_iff]
      · rintro rfl
        exact hg.absent (hτ.turns hf) hn
  · intro es hes
    have hruns := turns_whole hes
    refine ⟨hruns, fun tx hz => ?_⟩
    obtain ⟨fs, hfs⟩ := hruns
    have h : (still (l₀.run es)).Agrees := hblank.turns hfs
    exact ⟨h.releaseAll hz, h.absent_releaseAll hz⟩

/-- The third transaction holds two targets; the second sleeps on one of them and has doomed it. -/
def caught : List LockTurn :=
  [.move (.ask (.file "a") ⟨3⟩ .x), .move (.advance ⟨3⟩), .move (.ask (.file "bb") ⟨3⟩ .s),
    .move (.advance ⟨3⟩), .move (.ask (.file "a") ⟨2⟩ .s), .move (.advance ⟨2⟩),
    .move (.advance ⟨2⟩), .move (.advance ⟨2⟩), .move (.advance ⟨2⟩), .move (.advance ⟨2⟩)]

def parting : List LockTurn :=
  [.move (.advance ⟨3⟩), .move (.ask (.file "ccc") ⟨1⟩ .x), .move (.advance ⟨1⟩),
    .move (.advance ⟨3⟩), .move (.advance ⟨3⟩), .move (.advance ⟨3⟩), .move (.advance ⟨3⟩),
    .move (.advance ⟨3⟩), .move (.advance ⟨3⟩), .move (.advance ⟨3⟩)]

theorem indexes_agree_parting :
    let l₀ := LockTable.blank (fun t => t.fileName.length) 2 9 4
    let es : List LockEvent := [.ask (.file "a") ⟨3⟩ .x false, .ask (.file "bb") ⟨3⟩ .s false,
      .ask (.file "a") ⟨2⟩ .s true]
    (∃ σ τ υ, (still l₀).turns caught = some σ ∧
      σ.turn (.visit ⟨3⟩ false [.file "a", .file "bb"]) = some τ ∧ τ.turns parting = some υ ∧
      (∀ e ∈ parting, ¬ e.Begins ⟨3⟩) ∧ υ.phases.find? ⟨3⟩ = none ∧
      (∀ t, t ∈ υ.table.lockedTargets ⟨3⟩ ↔ υ.table.modesOf t ⟨3⟩ ≠ []) ∧
      (∀ t, τ.table.modesOf t ⟨2⟩ = σ.table.modesOf t ⟨2⟩) ∧ υ.table.Absent ⟨3⟩) ∧
    l₀.Obeys es ∧ ¬ (l₀.run es).Sleeps ⟨3⟩ ∧ ((l₀.run es).releaseAll ⟨3⟩ false).Absent ⟨3⟩ := by
  intro l₀ es
  have h := indexes_agree (fun t => t.fileName.length) 2 9 4
  constructor
  · have hc : ((still l₀).turns caught).any fun σ =>
        (σ.turn (.visit ⟨3⟩ false [.file "a", .file "bb"])).any fun τ =>
          (τ.turns parting).any fun υ => (υ.phases.find? ⟨3⟩).isNone := by decide +kernel
    obtain ⟨σ, hσ, hc⟩ := (Option.any_eq_true _ _).1 hc
    obtain ⟨τ, hτ, hc⟩ := (Option.any_eq_true _ _).1 hc
    obtain ⟨υ, hυ, hc⟩ := (Option.any_eq_true _ _).1 hc
    have hn : υ.phases.find? ⟨3⟩ = none := Option.isNone_iff_eq_none.1 hc
    have hb : ∀ e ∈ parting, ¬ e.Begins ⟨3⟩ := by simp [parting, LockTurn.Begins]
    obtain ⟨-, -, -, hothers, hleave⟩ := h.1 caught σ hσ
    have hall : (still l₀).turns (caught ++ .visit ⟨3⟩ false [.file "a", .file "bb"] :: parting) =
        some υ := by
      rw [turns_append, hσ, Option.bind_some, turns, hτ, Option.bind_some, hυ]
    have hsecond : ∀ t, τ.table.modesOf t ⟨2⟩ = σ.table.modesOf t ⟨2⟩ :=
      hothers _ τ hτ ⟨2⟩ (by simp [LockTurn.mover?])
    exact ⟨σ, τ, υ, hσ, hτ, hυ, hb, hn, ((h.1 _ υ hall).1 ⟨3⟩ hn).2, hsecond,
      (hleave ⟨3⟩ false _ τ parting υ hτ hυ hb hn).2 rfl⟩
  · have hes : l₀.Obeys es := by decide
    have hz : ¬ (l₀.run es).Sleeps ⟨3⟩ := by decide
    exact ⟨hes, hz, ((h.2 es hes).2 ⟨3⟩ hz).2⟩

end Scene

end PagedStore
