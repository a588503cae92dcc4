import PagedStore.Proofs.Lock.Booked

set_option autoImplicit false

/-!
Requests that may not wait. Main statement: `LockTable.lock_instant`. What is covered or free is
granted; otherwise a doomed transaction is turned away, and any other dooms the younger ones in its
way and is out of time. A request that fails leaves no other trace.
-/

namespace PagedStore

theorem Registry.size_insert_of_mem {κ ν : Type} [DecidableEq κ] {m : Registry κ ν} {k : κ}
    (h : k ∈ m.keys) (v : ν) : (m.insert k v).size = m.size := by
  rw [← length_keys, ← length_keys]
  refine List.Perm.length_eq ((List.perm_ext_iff_of_nodup (nodup_keys _) (nodup_keys _)).2 ?_)
  intro l
  rw [mem_keys_insert]
  exact or_iff_right_of_imp fun e => e ▸ h

namespace LockTable

/-- Another transaction holds a mode on the target that does not get along with `m`. -/
def Obstructs (l : LockTable) (tx : TxId) (t : Target) (m : Mode) (other : TxId) : Prop :=
  other ≠ tx ∧ ∃ n, (l.holders t).Holds other n ∧ m.compatible n = false

variable {l l' : LockTable} {t : Target} {tx : TxId} {m : Mode}

theorem blockers_eq_nil_iff :
    (l.holders t).blockers tx m = [] ↔ ∀ other, ¬ l.Obstructs tx t m other := by
  rw [List.eq_nil_iff_forall_not_mem]
  exact forall_congr' fun other => not_congr Holders.mem_blockers

theorem targetCount_stopWaiting {a : TxId} {n : Mode} (h : (l.holders t).Holds a n) (tx : TxId) :
    (l.stopWaiting t tx).targetCount = l.targetCount := by
  have hkey : t ∈ l.entries.keys := by
    rw [← Registry.find?_isSome_iff, Option.isSome_iff_ne_none]
    intro hnone
    rw [holders, hnone] at h
    exact Holders.not_holds_none h
  have hbusy : ¬ ((l.holders t).unawait tx).isIdle := by
    intro hidle
    have ho : ((l.holders t).unawait tx).Holds a n := Holders.holds_unawait.2 h
    rw [Holders.eq_none_of_isIdle hidle] at ho
    exact Holders.not_holds_none ho
  simp only [targetCount, stopWaiting, setHolders, if_neg hbusy]
  exact Registry.size_insert_of_mem hkey _

/-- What a request changes that fails: who is doomed, and where its transaction last waited. -/
structure Restores (l l' : LockTable) : Prop where
  holds : ∀ t a n, (l'.holders t).Holds a n ↔ (l.holders t).Holds a n
  held : l'.held = l.held
  count : l'.targetCount = l.targetCount

theorem restores_stopWaiting {a : TxId} {n : Mode} (h : (l.holders t).Holds a n) (tx : TxId)
    (he : l'.entries = l.entries) (hh : l'.held = l.held) :
    l.Restores (l'.stopWaiting t tx) := by
  have hsame : ∀ t, l'.holders t = l.holders t := fun t => by rw [holders, holders, he]
  refine ⟨fun t' a n => ?_, hh, ?_⟩
  · rw [stopWaiting, holders_setHolders]
    split
    · rename_i ht
      rw [Holders.holds_unawait, hsame, ht]
    · rw [hsame]
  · rw [targetCount_stopWaiting ((hsame t).symm ▸ h), targetCount, targetCount, he]

theorem lock_eq_look (h : l.maxWait = 0) : l.lock t tx m = l.look t tx m false true := by
  have himpatient : l.impatient = true := decide_eq_true h
  have hl := looked l t tx m false true
  rw [lock, ask, himpatient]
  generalize l.look t tx m false true = r at hl
  cases hl with
  | waits hb hd he => cases he
  | covered hc | granted hc hb | wounded hb hd | timedOut hb hd he => rfl

theorem look_of_granted (waited expired : Bool)
    (h : (l.holders t).covers tx m ∨ (l.holders t).blockers tx m = []) :
    (l.look t tx m waited expired).1 = .granted ∧
      (l.look t tx m waited expired).2.doomed = l.doomed := by
  rw [look]
  by_cases hc : (l.holders t).covers tx m
  · rw [if_pos hc]
    cases waited <;> exact ⟨rfl, rfl⟩
  · rw [if_neg hc, h.resolve_left hc]
    cases waited <;> exact ⟨rfl, rfl⟩

theorem look_of_blocked (waited : Bool) (hc : ¬ (l.holders t).covers tx m)
    (hb : (l.holders t).blockers tx m ≠ []) :
    let r := l.look t tx m waited true
    r.1.error? t tx = some (if tx ∈ l.doomed then .wounded tx else .lockTimeout tx t) ∧
      (∀ a, a ∈ r.2.doomed ↔
        a ∈ l.doomed ∨ (tx ∉ l.doomed ∧ a ∈ (l.holders t).blockers tx m ∧ tx.IsOlder a)) ∧
      l.Restores r.2 := by
  intro r
  obtain ⟨b, hmem⟩ := List.exists_mem_of_ne_nil _ hb
  obtain ⟨-, n, hn, -⟩ := Holders.mem_blockers.1 hmem
  have hl : Looked l t tx m waited true r := looked l t tx m waited true
  clear_value r
  cases hl with
  | covered hcov => exact absurd hcov hc
  | granted hcov hfree => exact absurd hfree hb
  | waits hb' hd he => cases he
  | wounded hb' hd =>
    refine ⟨by rw [if_pos hd]; rfl, fun a => ?_, restores_stopWaiting hn tx rfl rfl⟩
    exact (or_iff_left fun hno => hno.1 hd).symm
  | timedOut hb' hd he =>
    refine ⟨by rw [if_neg hd]; rfl, fun a => ?_,
      restores_stopWaiting hn tx (entries_woundYounger ..) (held_woundYounger ..)⟩
    exact (doomed_woundYounger ..).trans (or_congr_right (and_iff_right hd).symm)

/-- On a table where no request may wait, a request is answered at once. It is granted if its
transaction has all that the mode would give, or nobody else is in the way, and adds the mode in the
second case only. Otherwise it fails: as wounded if its transaction is doomed, and else as out of
time, with those newly doomed who are in the way and younger. A failure changes neither the modes
nor the lists of targets nor the number of targets in use. -/
theorem lock_instant (h : l.maxWait = 0) (t : Target) (tx : TxId) (m : Mode) :
    let r := l.lock t tx m
    let has := ∃ n, (l.holders t).Holds tx n ∧ n.covers m
    (r.1 = .granted ↔ has ∨ ∀ other, ¬ l.Obstructs tx t m other) ∧
    (r.1 = .granted → r.2.doomed = l.doomed ∧
      ∀ t' a n, (r.2.holders t').Holds a n ↔
        (l.holders t').Holds a n ∨ (¬ has ∧ t' = t ∧ a = tx ∧ n = m)) ∧
    (r.1 ≠ .granted →
      r.1.error? t tx = some (if tx ∈ l.doomed then .wounded tx else .lockTimeout tx t) ∧
      (∀ a, a ∈ r.2.doomed ↔
        a ∈ l.doomed ∨ (tx ∉ l.doomed ∧ l.Obstructs tx t m a ∧ tx.IsOlder a)) ∧
      (∀ t' a n, (r.2.holders t').Holds a n ↔ (l.holders t').Holds a n) ∧
      (∀ a, r.2.lockedTargets a = l.lockedTargets a) ∧ r.2.targetCount = l.targetCount) := by
  intro r has
  have hr : r = l.look t tx m false true := lock_eq_look h
  have hhas : has ↔ (l.holders t).covers tx m := Holders.covers_iff.symm
  have hfree : (∀ other, ¬ l.Obstructs tx t m other) ↔ (l.holders t).blockers tx m = [] :=
    blockers_eq_nil_iff.symm
  rw [hhas, hfree]
  by_cases hg : (l.holders t).covers tx m ∨ (l.holders t).blockers tx m = []
  · obtain ⟨hv, hd⟩ := look_of_granted false true hg
    rw [← hr] at hv hd
    refine ⟨iff_of_true hv hg, fun _ => ⟨hd, fun t' a n => ?_⟩, fun hno => absurd hv hno⟩
    rw [hr, holds_look]
    refine or_congr_right ⟨?_, ?_⟩
    · rintro ⟨rfl, rfl, rfl, hc, -⟩
      exact ⟨Bool.eq_false_iff.1 hc, rfl, rfl, rfl⟩
    · rintro ⟨hc, rfl, rfl, rfl⟩
      exact ⟨rfl, rfl, rfl, Bool.eq_false_iff.2 hc, hg.resolve_left hc⟩
  · obtain ⟨hc, hb⟩ := not_or.1 hg
    obtain ⟨herr, hdoomed, hsame⟩ := look_of_blocked false hc hb
    rw [← hr] at herr hdoomed hsame
    have hv : r.1 ≠ .granted := fun hv => by rw [hv] at herr; cases herr
    refine ⟨iff_of_false hv hg, fun hv' => absurd hv' hv, fun _ => ⟨herr, fun a => ?_, hsame.holds,
      fun a => ?_, hsame.count⟩⟩
    · rw [hdoomed, Holders.mem_blockers]
      rfl
    · rw [lockedTargets, lockedTargets, heldTargets, heldTargets, hsame.held]

/-- The first and the third transaction hold the target, and the second may not wait for it. -/
def between : List LockEvent :=
  [.ask (.file "a") ⟨1⟩ .is true, .ask (.file "a") ⟨3⟩ .ix true, .ask (.file "b") ⟨2⟩ .s true]

theorem lock_instant_between :
    let l := (blank Target.spread 1 0 1).run between
    let r := l.lock (.file "a") ⟨2⟩ .x
    l.maxWait = 0 ∧ r.1 ≠ .granted ∧
      r.1.error? (.file "a") ⟨2⟩ = some (.lockTimeout ⟨2⟩ (.file "a")) ∧
      ⟨3⟩ ∈ r.2.doomed ∧ ⟨1⟩ ∉ r.2.doomed ∧ r.2.targetCount = 2 ∧
      r.2.lockedTargets ⟨2⟩ = [.file "b"] := by
  intro l r
  have h0 : l.maxWait = 0 := by decide +kernel
  have hv : r.1 ≠ .granted := by decide +kernel
  have hd : (⟨2⟩ : TxId) ∉ l.doomed ∧ (⟨1⟩ : TxId) ∉ l.doomed := by decide +kernel
  have hix : (l.holders (.file "a")).Holds ⟨3⟩ .ix := by decide +kernel
  have hl : l.lockedTargets ⟨2⟩ = [.file "b"] ∧ l.targetCount = 2 := by decide +kernel
  obtain ⟨herr, hdoomed, -, hlocked, hcount⟩ :=
    (lock_instant h0 (.file "a") ⟨2⟩ .x).2.2 hv
  refine ⟨h0, hv, ?_, ?_, ?_, hcount.trans hl.2, (hlocked ⟨2⟩).trans hl.1⟩
  · rw [if_neg hd.1] at herr
    exact herr
  · exact (hdoomed ⟨3⟩).2 (.inr ⟨hd.1, ⟨by decide, .ix, hix, rfl⟩, by decide⟩)
  · intro h1
    obtain ⟨-, -, hold⟩ := ((hdoomed ⟨1⟩).1 h1).resolve_left hd.2
    exact absurd hold (by decide)

end LockTable

end PagedStore
