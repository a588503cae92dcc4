import PagedStore.Proofs.Lock.Deadlock

set_option autoImplicit false

/-!
What outlasts the events of a lock table: modes that no event takes, and the requests that sleep.
Main statements: `LockTable.Loses.covers` and `LockTable.Loses.recalls`.
-/

namespace PagedStore

theorem Holders.covers_iff {h : Holders} {tx : TxId} {m : Mode} :
    h.covers tx m ↔ ∃ n, h.Holds tx n ∧ n.covers m := by
  simp only [covers, List.any_eq_true, mem_modesOf]

theorem Holders.covers_of_holds {h : Holders} {tx : TxId} {m : Mode} (hm : h.Holds tx m) :
    h.covers tx m := covers_iff.2 ⟨m, hm, m.covers_refl⟩

/-- The event takes a mode on a target from a transaction. -/
def LockEvent.Takes (u : TxId) (t : Target) (m : Mode) : LockEvent → Prop
  | .release t' tx ms => tx = u ∧ t' = t ∧ m ∈ ms
  | .releaseAll tx sharedOnly => tx = u ∧ m ∈ LockTable.given sharedOnly
  | .ask .. | .relook .. | .deliver => False

namespace Sleeper

/-- Both stand for one request, which may have been notified in between. -/
def Same (s s' : Sleeper) : Prop :=
  s'.ticket = s.ticket ∧ s'.tx = s.tx ∧ s'.target = s.target ∧ s'.mode = s.mode

theorem Same.refl (s : Sleeper) : s.Same s := ⟨rfl, rfl, rfl, rfl⟩

theorem Same.trans {s s' s'' : Sleeper} (h : s.Same s') (h' : s'.Same s'') : s.Same s'' :=
  ⟨h'.1.trans h.1, h'.2.1.trans h.2.1, h'.2.2.1.trans h.2.2.1, h'.2.2.2.trans h.2.2.2⟩

theorem same_notified (s : Sleeper) (c : Prop) [Decidable c] (b : Bool) :
    s.Same (if c then { s with notified := b } else s) := by
  split <;> exact ⟨rfl, rfl, rfl, rfl⟩

end Sleeper

namespace LockTable

theorem Compatible.of_covers {l : LockTable} (h : l.Compatible) {t : Target} {a b : TxId}
    {m n : Mode} (hne : a ≠ b) (ha : (l.holders t).covers a m) (hb : (l.holders t).covers b n) :
    m.compatible n := by
  obtain ⟨m', hm', hm⟩ := Holders.covers_iff.1 ha
  obtain ⟨n', hn', hn⟩ := Holders.covers_iff.1 hb
  have hmn : m.compatible n' := Mode.covers_iff.1 hm n' (h t a b m' n' hne hm' hn')
  rw [Mode.compatible_comm] at hmn ⊢
  exact Mode.covers_iff.1 hn m hmn

/-- Every request that sleeps in the second table under a ticket of the first sleeps in both, and
the others have tickets that were given out in between. -/
structure Recalls (l l' : LockTable) : Prop where
  next : l.nextTicket ≤ l'.nextTicket
  sleeper : ∀ ticket < l.nextTicket, ∀ s', l'.sleeper? ticket = some s' →
    ∃ s, l.sleeper? ticket = some s ∧ s.Same s'
  known : ∀ s' ∈ l'.sleepers, s'.ticket < l'.nextTicket ∨ ∃ s ∈ l.sleepers, s.Same s'

theorem Recalls.refl (l : LockTable) : l.Recalls l :=
  ⟨Nat.le_refl _, fun _ _ s hs => ⟨s, hs, .refl s⟩, fun s hs => .inr ⟨s, hs, .refl s⟩⟩

theorem Recalls.trans {l l' l'' : LockTable} (h : l.Recalls l') (h' : l'.Recalls l'') :
    l.Recalls l'' := by
  refine ⟨Nat.le_trans h.next h'.next, fun ticket hlt s'' hs'' => ?_, fun s'' hs'' => ?_⟩
  · obtain ⟨s', hs', hsame'⟩ := h'.sleeper ticket (Nat.lt_of_lt_of_le hlt h.next) s'' hs''
    obtain ⟨s, hs, hsame⟩ := h.sleeper ticket hlt s' hs'
    exact ⟨s, hs, hsame.trans hsame'⟩
  · rcases h'.known s'' hs'' with hlt | ⟨s', hs', hsame'⟩
    · exact .inl hlt
    · rcases h.known s' hs' with hlt | ⟨s, hs, hsame⟩
      · exact .inl (hsame'.1 ▸ Nat.lt_of_lt_of_le hlt h'.next)
      · exact .inr ⟨s, hs, hsame.trans hsame'⟩

theorem recalls_of_map {l l' : LockTable} {f : Sleeper → Sleeper}
    (hf : ∀ s : Sleeper, s.Same (f s)) (hs : l'.sleepers = l.sleepers.map f)
    (hn : l'.nextTicket = l.nextTicket) : l.Recalls l' := by
  refine ⟨Nat.le_of_eq hn.symm, fun ticket _ s' h => ?_, fun s' h => .inr ?_⟩
  · rw [sleeper?, hs, List.find?_map, Option.map_eq_some_iff] at h
    obtain ⟨s, h, rfl⟩ := h
    refine ⟨s, ?_, hf s⟩
    rw [sleeper?, ← h]
    congr 1
    funext u
    simp only [Function.comp, (hf u).1]
  · obtain ⟨s, hmem, rfl⟩ := List.mem_map.1 (hs ▸ h)
    exact ⟨s, hmem, hf s⟩

theorem recalls_of_eq {l l' : LockTable} (hs : l'.sleepers = l.sleepers)
    (hn : l'.nextTicket = l.nextTicket) : l.Recalls l' :=
  recalls_of_map Sleeper.Same.refl (by rw [hs, List.map_id']) hn

theorem recalls_removeSleeper (l : LockTable) (ticket : Nat) :
    l.Recalls (l.removeSleeper ticket) := by
  refine ⟨Nat.le_refl _, fun n _ s h => ⟨s, ?_, .refl s⟩,
    fun s h => .inr ⟨s, (List.mem_filter.1 h).1, .refl s⟩⟩
  have hne : n ≠ ticket := by
    rintro rfl
    have hs := mem_sleeper h
    have hmem := (List.mem_filter.1 hs.1).2
    simp [hs.2] at hmem
  rw [← h]
  simp only [sleeper?, removeSleeper, List.find?_filter]
  congr 1
  funext u
  by_cases hu : u.ticket = n <;> simp [hu, hne]

theorem recalls_fallAsleep (l : LockTable) (t : Target) (tx : TxId) (m : Mode) :
    l.Recalls (l.fallAsleep t tx m) := by
  refine ⟨Nat.le_succ _, fun ticket hlt s h => ⟨s, ?_, .refl s⟩, fun s h => ?_⟩
  · have hne : ¬ l.nextTicket = ticket := Nat.ne_of_gt hlt
    rw [sleeper?, fallAsleep, List.find?_append] at h
    simpa [hne, sleeper?] using h
  · rcases List.mem_append.1 h with h | h
    · exact .inr ⟨s, h, .refl s⟩
    · obtain rfl := List.mem_singleton.1 h
      exact .inl (Nat.lt_succ_self _)

theorem recalls_look (l : LockTable) (t : Target) (tx : TxId) (m : Mode) (waited expired : Bool) :
    l.Recalls (l.look t tx m waited expired).2 :=
  recalls_of_eq (keeps_look ..).sleepers (keeps_look ..).nextTicket

theorem recalls_ask (l : LockTable) (t : Target) (tx : TxId) (m : Mode) (expired : Bool) :
    l.Recalls (l.ask t tx m expired).2 := by
  have hl := l.recalls_look t tx m false expired
  unfold ask
  split
  · rename_i l' h
    rw [h] at hl
    exact hl.trans (l'.recalls_fallAsleep t tx m)
  · exact hl

theorem recalls_relook (l : LockTable) (s : Sleeper) (expired : Bool) :
    l.Recalls (l.relook s expired).2 := by
  have hl := l.recalls_look s.target s.tx s.mode true expired
  unfold relook
  split
  · rename_i l' h
    rw [h] at hl
    refine hl.trans (recalls_of_map (fun u => ?_) rfl rfl)
    exact u.same_notified (u.ticket = s.ticket) false
  · rename_i v l' _ h
    rw [h] at hl
    exact hl.trans (l'.recalls_removeSleeper s.ticket)

theorem recalls_revokeModes (l : LockTable) (t : Target) (tx : TxId) (ms : List Mode) :
    l.Recalls (l.revokeModes t tx ms) := by
  refine recalls_of_map (fun s => ?_) (l.sleepers_revokeModes t tx ms) ?_
  · exact s.same_notified (l.anchorOf s.target = l.anchorOf t) true
  · simp only [revokeModes]
    split <;> rfl

theorem recalls_releaseAll (l : LockTable) (tx : TxId) (sharedOnly : Bool) :
    l.Recalls (l.releaseAll tx sharedOnly) := by
  have hon : ∀ ms ts, l.Recalls (l.releaseOn tx ms ts) := fun ms ts =>
    List.foldlRecOn _ _ (.refl l) fun l' h t _ => h.trans (l'.recalls_revokeModes t tx ms)
  cases sharedOnly with
  | true => exact hon ..
  | false => exact (hon _ _).trans (recalls_of_eq rfl rfl)

theorem recalls_deliver (l : LockTable) : l.Recalls l.deliver := by
  unfold deliver
  split
  · exact .refl l
  · dsimp only
    split
    · exact recalls_of_eq rfl rfl
    · rename_i anchor _
      refine recalls_of_map (fun s => ?_) rfl rfl
      exact s.same_notified (l.anchorOf s.target = anchor) true

theorem recalls_step (l : LockTable) (e : LockEvent) : l.Recalls (l.step e) := by
  cases e with
  | ask t tx m expired => exact l.recalls_ask t tx m expired
  | relook ticket expired =>
    simp only [step]
    split
    · exact .refl l
    · exact l.recalls_relook _ expired
  | release t tx ms => exact l.recalls_revokeModes t tx ms
  | releaseAll tx sharedOnly => exact l.recalls_releaseAll tx sharedOnly
  | deliver => exact l.recalls_deliver

def Numbered (l : LockTable) : Prop := ∀ s ∈ l.sleepers, s.ticket < l.nextTicket

theorem Numbered.of_recalls {l l' : LockTable} (h : l.Numbered) (hr : l.Recalls l') :
    l'.Numbered := by
  intro s' hs'
  rcases hr.known s' hs' with hlt | ⟨s, hs, hsame⟩
  · exact hlt
  · exact hsame.1 ▸ Nat.lt_of_lt_of_le (h s hs) hr.next

theorem sleeper?_ask {l : LockTable} (h : l.Numbered) {t : Target} {tx : TxId} {m : Mode}
    {expired : Bool} (hw : (l.ask t tx m expired).1 = .waits) :
    l.nextTicket < (l.ask t tx m expired).2.nextTicket ∧
      (l.ask t tx m expired).2.sleeper? l.nextTicket =
        some { ticket := l.nextTicket, tx, target := t, mode := m } := by
  have hk := keeps_look l t tx m false expired
  unfold ask at hw ⊢
  split
  · rename_i l' he
    rw [he] at hk
    have hnone : l'.sleepers.find? (fun s => s.ticket = l.nextTicket) = none := by
      rw [hk.sleepers, List.find?_eq_none]
      intro s hs
      simpa using Nat.ne_of_lt (h s hs)
    have hnext : l'.nextTicket = l.nextTicket := hk.nextTicket
    refine ⟨hnext ▸ Nat.lt_succ_self _, ?_⟩
    rw [sleeper?, fallAsleep, hnext, List.find?_append, hnone]
    simp
  · rename_i hne
    split at hw
    · rename_i l' he
      exact absurd he (hne l')
    · exact (hne _ (Prod.ext hw rfl)).elim

def Indexed (l : LockTable) : Prop := ∀ t a m, (l.holders t).Holds a m → t ∈ l.heldTargets a

theorem Indexed.look {l : LockTable} (h : l.Indexed) (t : Target) (tx : TxId) (m : Mode)
    (waited expired : Bool) : (l.look t tx m waited expired).2.Indexed := by
  intro t' a n ha
  rcases (holds_look ..).1 ha with ho | ⟨rfl, rfl, rfl, hc, hb⟩
  · exact (keeps_look l t tx m waited expired).heldTargets a t' (h t' a n ho)
  · exact mem_heldTargets_of_free hc hb

theorem Indexed.revokeModes {l : LockTable} (h : l.Indexed) (t : Target) (tx : TxId)
    (ms : List Mode) : (l.revokeModes t tx ms).Indexed := fun t' a n ha =>
  mem_heldTargets_revokeModes (h t' a n ((holds_revokeModes ..).1 ha).1) ha

theorem mem_given_false (m : Mode) : m ∈ given false := Mode.mem_all m

theorem Indexed.not_holds_releaseAll {l : LockTable} (h : l.Indexed) (t : Target) (tx : TxId)
    (m : Mode) : ¬ ((l.releaseAll tx false).holders t).Holds tx m := fun ha =>
  have ⟨hm, hn⟩ := (holds_releaseAll ..).1 ha
  hn ⟨h t tx m hm, rfl, mem_given_false m⟩

theorem Indexed.releaseAll {l : LockTable} (h : l.Indexed) (tx : TxId) (sharedOnly : Bool) :
    (l.releaseAll tx sharedOnly).Indexed := by
  have hon : ∀ ms ts, (l.releaseOn tx ms ts).Indexed := fun ms ts =>
    List.foldlRecOn _ _ h fun l' hl t _ => hl.revokeModes t tx ms
  cases sharedOnly with
  | true => exact hon (Mode.all.filter Mode.isShared) (l.heldTargets tx)
  | false =>
    intro t a n ha
    have hne : a ≠ tx := by
      rintro rfl
      exact h.not_holds_releaseAll t a n ha
    have hk : (l.releaseAll tx false).heldTargets a =
        (l.releaseOn tx Mode.all (l.heldTargets tx)).heldTargets a :=
      congrArg (Option.getD · []) (Registry.find?_erase_of_ne _ hne)
    rw [hk]
    exact hon _ _ t a n ha

theorem Indexed.deliver {l : LockTable} (h : l.Indexed) : l.deliver.Indexed := by
  intro t a n ha
  rw [holders_deliver] at ha
  have hk : l.deliver.heldTargets a = l.heldTargets a := by
    unfold LockTable.deliver
    split
    · rfl
    · dsimp only
      split <;> rfl
  exact hk ▸ h t a n ha

theorem Indexed.step {l : LockTable} (h : l.Indexed) (e : LockEvent) : (l.step e).Indexed := by
  cases e with
  | ask t tx m expired =>
    have hl := h.look t tx m false expired
    simp only [LockTable.step, LockTable.ask]
    split
    · rename_i l' he
      rw [he] at hl
      exact hl
    · exact hl
  | relook ticket expired =>
    simp only [LockTable.step]
    split
    · exact h
    · rename_i s _
      have hl := h.look s.target s.tx s.mode true expired
      unfold LockTable.relook
      split
      · rename_i l' he
        rw [he] at hl
        exact hl
      · rename_i v l' _ he
        rw [he] at hl
        exact hl
  | release t tx ms => exact h.revokeModes t tx ms
  | releaseAll tx sharedOnly => exact h.releaseAll tx sharedOnly
  | deliver => exact h.deliver

theorem holds_step_of_not_takes {l : LockTable} {e : LockEvent} {t : Target} {a : TxId} {n : Mode}
    (hg : ¬ e.Takes a t n) (h : (l.holders t).Holds a n) : ((l.step e).holders t).Holds a n := by
  cases e with
  | ask t' tx m expired => exact holds_step id h
  | relook ticket expired => exact holds_step id h
  | release t' tx ms =>
    exact (holds_revokeModes ..).2 ⟨h, fun ⟨ht, ha, hm⟩ => hg ⟨ha.symm, ht.symm, hm⟩⟩
  | releaseAll tx sharedOnly =>
    exact (holds_releaseAll ..).2 ⟨h, fun ⟨_, ha, hm⟩ => hg ⟨ha.symm, hm⟩⟩
  | deliver => exact holds_step id h

/-- Events led from one table to the other that took nothing but what may be lost. -/
inductive Loses (lost : TxId → Target → Mode → Prop) : LockTable → LockTable → Prop
  | refl (l : LockTable) : Loses lost l l
  | step {l l' : LockTable} (h : Loses lost l l') (e : LockEvent)
      (he : ∀ u t m, e.Takes u t m → lost u t m) : Loses lost l (l'.step e)

namespace Loses

variable {lost lost' : TxId → Target → Mode → Prop} {l l' l'' : LockTable}

theorem trans (h : Loses lost l l') (h' : Loses lost l' l'') : Loses lost l l'' := by
  induction h' with
  | refl => exact h
  | step _ e he ih => exact ih.step e he

theorem mono (h : Loses lost l l') (hl : ∀ u t m, lost u t m → lost' u t m) :
    Loses lost' l l' := by
  induction h with
  | refl => exact .refl l
  | step _ e he ih => exact ih.step e fun u t m ht => hl u t m (he u t m ht)

theorem one (l : LockTable) (e : LockEvent) (he : ∀ u t m, e.Takes u t m → lost u t m) :
    Loses lost l (l.step e) := (refl l).step e he

theorem compatible (h : Loses lost l l') (hc : l.Compatible) : l'.Compatible := by
  induction h with
  | refl => exact hc
  | step _ e _ ih => exact ih.step e

theorem indexed (h : Loses lost l l') (hi : l.Indexed) : l'.Indexed := by
  induction h with
  | refl => exact hi
  | step _ e _ ih => exact ih.step e

theorem recalls (h : Loses lost l l') : l.Recalls l' := by
  induction h with
  | refl => exact .refl l
  | step _ e _ ih => exact ih.trans (recalls_step _ e)

theorem holds (h : Loses lost l l') {t : Target} {a : TxId} {n : Mode} (hn : ¬ lost a t n)
    (ha : (l.holders t).Holds a n) : (l'.holders t).Holds a n := by
  induction h with
  | refl => exact ha
  | step _ e he ih => exact holds_step_of_not_takes (fun ht => hn (he a t n ht)) ih

/-- What a transaction has on a target it keeps, unless a mode that gives it may be lost. -/
theorem covers (h : Loses lost l l') {t : Target} {a : TxId} {m : Mode}
    (ha : (l.holders t).covers a m) :
    (l'.holders t).covers a m ∨ ∃ n, n.covers m ∧ lost a t n := by
  obtain ⟨n, hn, hm⟩ := Holders.covers_iff.1 ha
  by_cases hl : lost a t n
  · exact .inr ⟨n, hm, hl⟩
  · exact .inl (Holders.covers_iff.2 ⟨n, h.holds hl hn, hm⟩)

end Loses

end LockTable

end PagedStore
