import PagedStore.Lock.Table
import PagedStore.Proofs.Order

set_option autoImplicit false

/-!
Who holds what after each operation of a lock table. Main statements: `holds_look`,
`holds_revokeModes` and `holds_releaseAll`. A grant adds one mode of one transaction and takes
nothing from anybody.
-/

namespace PagedStore

namespace Holders

theorem mem_blockers {h : Holders} {tx other : TxId} {m : Mode} :
    other ∈ h.blockers tx m ↔ other ≠ tx ∧ ∃ n, h.Holds other n ∧ m.compatible n = false := by
  simp only [blockers, byAge, sortBy_eq, List.mem_eraseDups, List.mem_insertionSort,
    List.mem_filter, mem_inTheWay, decide_eq_true_eq]
  exact And.comm

@[simp] theorem holds_await {h : Holders} {tx other : TxId} {n : Mode} :
    (h.await tx).Holds other n ↔ h.Holds other n := by cases n <;> rfl

@[simp] theorem holds_unawait {h : Holders} {tx other : TxId} {n : Mode} :
    (h.unawait tx).Holds other n ↔ h.Holds other n := by cases n <;> rfl

theorem holds_revokeAll {h : Holders} {tx other : TxId} {ms : List Mode} {n : Mode} :
    (h.revokeAll tx ms).Holds other n ↔ h.Holds other n ∧ ¬ (other = tx ∧ n ∈ ms) := by
  unfold revokeAll
  induction ms generalizing h with
  | nil => simp
  | cons m ms ih =>
    rw [List.foldl_cons, ih, holds_revoke, List.mem_cons]
    grind

@[simp] theorem not_holds_none {other : TxId} {n : Mode} : ¬ Holders.none.Holds other n := by
  cases n <;> simp [Holders.none, Holds]

theorem eq_none_of_isIdle {h : Holders} (hi : h.isIdle) : h = .none := by
  obtain ⟨is, ix, s, six, x, waiting⟩ := h
  simp only [isIdle, Bool.and_eq_true, List.isEmpty_iff, Option.isNone_iff_eq_none] at hi
  obtain ⟨⟨⟨⟨⟨rfl, rfl⟩, rfl⟩, rfl⟩, rfl⟩, rfl⟩ := hi
  rfl

theorem holds_grant_of_free {h : Holders} {tx other : TxId} {m n : Mode}
    (hb : h.blockers tx m = []) :
    (h.grant tx m).Holds other n ↔ h.Holds other n ∨ (other = tx ∧ n = m) := by
  rw [holds_grant]
  constructor
  · rintro (hg | hg)
    · exact .inr hg
    · exact .inl hg.1
  · rintro (hg | hg)
    · by_cases ht : other = tx ∧ n = m
      · exact .inl ht
      · refine .inr ⟨hg, fun hs => ?_⟩
        -- the two strongest modes do not get along with themselves
        have hc : m.compatible n = false := by
          obtain ⟨rfl, rfl | rfl⟩ := hs <;> rfl
        have ho : other ∈ h.blockers tx m :=
          mem_blockers.2 ⟨fun e => ht ⟨e, hs.1⟩, n, hg, hc⟩
        rw [hb] at ho
        cases ho
    · exact .inl hg

end Holders

namespace LockTable

@[simp] theorem holders_setHolders (l : LockTable) (t t' : Target) (h : Holders) :
    (l.setHolders t h).holders t' = if t' = t then h else l.holders t' := by
  unfold setHolders holders
  by_cases hi : h.isIdle
  · rw [if_pos hi, Registry.find?_erase]
    split
    · exact (Holders.eq_none_of_isIdle hi).symm
    · rfl
  · rw [if_neg hi, Registry.find?_insert]
    split <;> rfl

theorem holders_settle (l : LockTable) (t t' : Target) (tx : TxId) (h : Holders) (waited : Bool) :
    (l.settle t tx h waited).holders t' = if t' = t then h.unawait tx else l.holders t' := by
  rw [← holders_setHolders]
  cases waited <;> rfl

theorem woundYounger_induct {p : LockTable → Prop} {tx : TxId} {l : LockTable} (bs : List TxId)
    (h : p l) (hw : ∀ l v, p l → tx.IsOlder v → v ∈ bs → p (l.wound v)) :
    p (l.woundYounger tx bs) := by
  unfold woundYounger
  refine List.foldlRecOn _ _ h fun l hl v hv => ?_
  simp only [List.mem_filter, decide_eq_true_eq] at hv
  exact hw l v hl hv.2 hv.1

theorem holders_wound (l : LockTable) (v : TxId) (t : Target) :
    (l.wound v).holders t = l.holders t := by
  unfold wound
  split <;> rfl

@[simp] theorem holders_woundYounger (l : LockTable) (tx : TxId) (bs : List TxId) (t : Target) :
    (l.woundYounger tx bs).holders t = l.holders t :=
  woundYounger_induct (p := fun l' => l'.holders t = l.holders t) bs rfl fun l' v h _ _ =>
    (holders_wound l' v t).trans h

def blocked (l : LockTable) (t : Target) (tx : TxId) : LockTable :=
  { l with lastAnchor := l.lastAnchor.insert tx (l.anchorOf t) }

@[simp] theorem holders_blocked (l : LockTable) (t t' : Target) (tx : TxId) :
    (l.blocked t tx).holders t' = l.holders t' := rfl

/-- What a look at a request can come to. -/
inductive Looked (l : LockTable) (t : Target) (tx : TxId) (m : Mode) (waited expired : Bool) :
    Verdict × LockTable → Prop
  | covered (hc : (l.holders t).covers tx m) :
      Looked l t tx m waited expired (.granted, l.settle t tx (l.holders t) waited)
  | granted (hc : (l.holders t).covers tx m = false) (hb : (l.holders t).blockers tx m = []) :
      Looked l t tx m waited expired (.granted, l.settle t tx ((l.holders t).grant tx m) waited)
  | wounded (hb : (l.holders t).blockers tx m ≠ []) (hd : tx ∈ l.doomed) :
      Looked l t tx m waited expired (.wounded, (l.blocked t tx).stopWaiting t tx)
  | timedOut (hb : (l.holders t).blockers tx m ≠ []) (hd : tx ∉ l.doomed) (he : expired) :
      Looked l t tx m waited expired (.timedOut,
        ((l.blocked t tx).woundYounger tx ((l.holders t).blockers tx m)).stopWaiting t tx)
  | waits (hb : (l.holders t).blockers tx m ≠ []) (hd : tx ∉ l.doomed) (he : expired = false) :
      Looked l t tx m waited expired (.waits,
        ((l.blocked t tx).woundYounger tx ((l.holders t).blockers tx m)).setHolders t
          ((l.holders t).await tx))

theorem looked (l : LockTable) (t : Target) (tx : TxId) (m : Mode) (waited expired : Bool) :
    Looked l t tx m waited expired (l.look t tx m waited expired) := by
  unfold look
  by_cases hc : (l.holders t).covers tx m
  · simp only [hc, if_true]
    exact .covered hc
  · simp only [hc, Bool.false_eq_true, if_false]
    by_cases hb : (l.holders t).blockers tx m = []
    · simp only [hb, List.isEmpty_nil, if_true]
      exact .granted (by simpa using hc) hb
    · have hbe : ((l.holders t).blockers tx m).isEmpty = false := by simpa using hb
      simp only [hbe, Bool.false_eq_true, if_false, isDoomed, decide_eq_true_eq]
      by_cases hd : tx ∈ l.doomed
      · simp only [hd, if_true]
        exact .wounded hb hd
      · simp only [hd, if_false]
        cases he : expired
        · exact .waits hb hd rfl
        · exact .timedOut hb hd rfl

theorem holds_look (l : LockTable) (t t' : Target) (tx a : TxId) (m n : Mode)
    (waited expired : Bool) :
    ((l.look t tx m waited expired).2.holders t').Holds a n ↔
      (l.holders t').Holds a n ∨
        (t' = t ∧ a = tx ∧ n = m ∧ (l.holders t).covers tx m = false ∧
          (l.holders t).blockers tx m = []) := by
  have h := looked l t tx m waited expired
  generalize l.look t tx m waited expired = r at h ⊢
  by_cases ht : t' = t
  · subst ht
    cases h with
    | covered hc => simp [holders_settle, hc]
    | granted hc hb => simp [holders_settle, Holders.holds_grant_of_free hb, hc, hb]
    | wounded hb hd => simp [stopWaiting, hb]
    | timedOut hb hd he => simp [stopWaiting, hb]
    | waits hb hd he => simp [hb]
  · cases h with
    | covered hc => simp [holders_settle, ht]
    | granted hc hb => simp [holders_settle, ht]
    | wounded hb hd => simp [stopWaiting, ht]
    | timedOut hb hd he => simp [stopWaiting, ht]
    | waits hb hd he => simp [ht]

theorem holds_revokeModes (l : LockTable) (t t' : Target) (tx a : TxId) (ms : List Mode)
    (n : Mode) :
    ((l.revokeModes t tx ms).holders t').Holds a n ↔
      (l.holders t').Holds a n ∧ ¬ (t' = t ∧ a = tx ∧ n ∈ ms) := by
  have hh : (l.revokeModes t tx ms).holders t' =
      if t' = t then (l.holders t).revokeAll tx ms else l.holders t' := by
    rw [← holders_setHolders]
    simp only [revokeModes]
    split <;> rfl
  rw [hh]
  split
  · rename_i ht
    subst ht
    simp [Holders.holds_revokeAll]
  · rename_i ht
    simp [ht]

theorem holds_releaseOn (l : LockTable) (tx a : TxId) (ms : List Mode) (ts : List Target)
    (t' : Target) (n : Mode) :
    ((l.releaseOn tx ms ts).holders t').Holds a n ↔
      (l.holders t').Holds a n ∧ ¬ (t' ∈ ts ∧ a = tx ∧ n ∈ ms) := by
  unfold releaseOn
  induction ts generalizing l with
  | nil => simp
  | cons t ts ih =>
    rw [List.foldl_cons, ih, holds_revokeModes, List.mem_cons]
    grind

/-- The modes that a release of everything gives up. -/
def given (sharedOnly : Bool) : List Mode :=
  if sharedOnly then Mode.all.filter Mode.isShared else Mode.all

theorem holders_releaseAll (l : LockTable) (tx : TxId) (sharedOnly : Bool) (t : Target) :
    (l.releaseAll tx sharedOnly).holders t =
      (l.releaseOn tx (given sharedOnly) (l.heldTargets tx)).holders t := by
  cases sharedOnly <;> rfl

theorem holds_releaseAll (l : LockTable) (tx a : TxId) (sharedOnly : Bool) (t : Target)
    (n : Mode) :
    ((l.releaseAll tx sharedOnly).holders t).Holds a n ↔
      (l.holders t).Holds a n ∧
        ¬ (t ∈ l.heldTargets tx ∧ a = tx ∧ n ∈ given sharedOnly) := by
  rw [holders_releaseAll, holds_releaseOn]

theorem holders_deliver (l : LockTable) (t : Target) : l.deliver.holders t = l.holders t := by
  unfold deliver
  split
  · rfl
  · dsimp only
    split <;> rfl

theorem holders_ask (l : LockTable) (t t' : Target) (tx : TxId) (m : Mode) (expired : Bool) :
    (l.ask t tx m expired).2.holders t' = (l.look t tx m false expired).2.holders t' := by
  unfold ask
  split
  · rename_i h
    rw [h]
    rfl
  · rfl

theorem holders_relook (l : LockTable) (s : Sleeper) (expired : Bool) (t : Target) :
    (l.relook s expired).2.holders t = (l.look s.target s.tx s.mode true expired).2.holders t := by
  unfold relook
  split
  · rename_i h
    rw [h]
    rfl
  · rename_i v l' hv h
    rw [h]
    rfl

end LockTable

end PagedStore
