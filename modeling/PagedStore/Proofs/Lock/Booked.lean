import PagedStore.Proofs.Lock.Steps

set_option autoImplicit false

/-!
Who is on the books of a lock table. Main statements: `LockTable.Booked.perform` and
`LockTable.Booked.relook`, that only those get onto them who ask for something,
`LockTable.Booked.leave`, that a release of everything strikes a transaction off, and
`LockTable.Booked.vacant`, that a table with nobody on its books is empty.
-/

namespace PagedStore

namespace Holders

theorem mem_waiting_await {h : Holders} {tx a : TxId} :
    a ∈ (h.await tx).waiting ↔ a = tx ∨ a ∈ h.waiting := List.mem_insert_iff

theorem mem_waiting_unawait {h : Holders} {tx a : TxId} :
    a ∈ (h.unawait tx).waiting ↔ a ∈ h.waiting ∧ a ≠ tx := by
  rw [unawait, List.mem_filter, decide_eq_true_eq]

theorem waiting_grant (h : Holders) (tx : TxId) (m : Mode) :
    (h.grant tx m).waiting = h.waiting := by cases m <;> rfl

theorem waiting_revokeAll (h : Holders) (tx : TxId) (ms : List Mode) :
    (h.revokeAll tx ms).waiting = h.waiting := by
  unfold revokeAll
  induction ms generalizing h with
  | nil => rfl
  | cons m ms ih =>
    rw [List.foldl_cons, ih]
    cases m <;> rfl

theorem isIdle_of_vacant {h : Holders} (hh : ∀ a m, ¬ h.Holds a m) (hw : h.waiting = []) :
    h.isIdle := by
  have hnil : ∀ xs : List TxId, (∀ a, a ∉ xs) → xs.isEmpty := fun xs hx =>
    List.isEmpty_iff.2 (List.eq_nil_iff_forall_not_mem.2 hx)
  have hnone : ∀ x : Option TxId, (∀ a, x ≠ some a) → x.isNone := fun x hx =>
    Option.isNone_iff_eq_none.2 (Option.eq_none_iff_forall_ne_some.2 hx)
  simp only [isIdle, Bool.and_eq_true]
  exact ⟨⟨⟨⟨⟨hnil _ fun a => hh a .is, hnil _ fun a => hh a .ix⟩, hnil _ fun a => hh a .s⟩,
    hnone _ fun a => hh a .six⟩, hnone _ fun a => hh a .x⟩, List.isEmpty_iff.2 hw⟩

end Holders

namespace LockTable

def Occupied (l : LockTable) : Prop := ∀ t h, l.entries.find? t = some h → h.isIdle = false

/-- Whoever has anything to do with the table satisfies `P`, and whoever is entered as waiting has a
request that sleeps. -/
structure Booked (P : TxId → Prop) (l : LockTable) : Prop where
  holders : ∀ t a m, (l.holders t).Holds a m → P a
  doomed : ∀ a ∈ l.doomed, P a
  sleepers : ∀ s ∈ l.sleepers, P s.tx
  indexed : l.Indexed
  occupied : l.Occupied
  awaited : ∀ t a, a ∈ (l.holders t).waiting → ∃ s ∈ l.sleepers, s.tx = a ∧ s.target = t
  numbered : l.Numbered
  distinct : ∀ s ∈ l.sleepers, ∀ u ∈ l.sleepers, s.ticket = u.ticket → s = u

variable {P Q : TxId → Prop} {l l' : LockTable} {t : Target} {tx : TxId} {m : Mode}
  {waited expired : Bool}

theorem Booked.mono (h : l.Booked P) (hq : ∀ a, P a → Q a) : l.Booked Q where
  holders t a m ha := hq a (h.holders t a m ha)
  doomed a ha := hq a (h.doomed a ha)
  sleepers s hs := hq _ (h.sleepers s hs)
  indexed := h.indexed
  occupied := h.occupied
  awaited := h.awaited
  numbered := h.numbered
  distinct := h.distinct

theorem booked_blank (place : Target → Nat) (anchors maxWait capacity : Nat) :
    (blank place anchors maxWait capacity).Booked P where
  holders _ _ _ ha := absurd ha Holders.not_holds_none
  doomed _ ha := by cases ha
  sleepers _ hs := by cases hs
  indexed _ _ _ ha := absurd ha Holders.not_holds_none
  occupied _ _ he := by cases he
  awaited _ _ ha := by cases ha
  numbered _ hs := by cases hs
  distinct _ hs := by cases hs

theorem Booked.vacant (h : l.Booked fun _ => False) : l.targetCount = 0 ∧ l.doomed = [] := by
  have hwait : ∀ t, (l.holders t).waiting = [] := fun t =>
    List.eq_nil_iff_forall_not_mem.2 fun a ha => by
      obtain ⟨s, hs, -⟩ := h.awaited t a ha
      exact h.sleepers s hs
  refine ⟨?_, List.eq_nil_iff_forall_not_mem.2 h.doomed⟩
  rw [targetCount, ← Registry.length_keys, List.length_eq_zero_iff]
  refine List.eq_nil_iff_forall_not_mem.2 fun t ht => ?_
  obtain ⟨hs, hfind⟩ := Option.isSome_iff_exists.1 ((Registry.find?_isSome_iff _ _).2 ht)
  have heq : l.holders t = hs := by rw [LockTable.holders, hfind, Option.getD_some]
  have hidle : hs.isIdle := heq ▸ Holders.isIdle_of_vacant (h.holders t) (hwait t)
  rw [h.occupied t hs hfind] at hidle
  cases hidle

theorem Occupied.setHolders (h : l.Occupied) (t : Target) (hs : Holders) :
    (l.setHolders t hs).Occupied := by
  intro t' h' hf
  unfold LockTable.setHolders at hf
  dsimp only at hf
  split at hf
  · exact h t' h' (Registry.find?_of_erase hf).2
  · rename_i hidle
    rw [Registry.find?_insert] at hf
    split at hf
    · cases hf
      exact Bool.eq_false_iff.2 hidle
    · exact h t' h' hf

theorem Occupied.congr (h : l.Occupied) (he : l'.entries = l.entries) : l'.Occupied := by
  rw [Occupied, he]
  exact h

theorem entries_woundYounger (l : LockTable) (tx : TxId) (bs : List TxId) :
    (l.woundYounger tx bs).entries = l.entries :=
  woundYounger_induct (p := fun l' => l'.entries = l.entries) bs rfl fun l' v h _ _ => by
    unfold wound
    split <;> exact h

theorem held_woundYounger (l : LockTable) (tx : TxId) (bs : List TxId) :
    (l.woundYounger tx bs).held = l.held :=
  woundYounger_induct (p := fun l' => l'.held = l.held) bs rfl fun l' v h _ _ => by
    unfold wound
    split <;> exact h

theorem Occupied.settle (h : l.Occupied) (t : Target) (tx : TxId) (hs : Holders) (waited : Bool) :
    (l.settle t tx hs waited).Occupied := by
  refine (h.setHolders t (hs.unawait tx)).congr ?_
  cases waited <;> rfl

theorem Occupied.look (h : l.Occupied) (t : Target) (tx : TxId) (m : Mode)
    (waited expired : Bool) : (l.look t tx m waited expired).2.Occupied := by
  have hw : ((l.blocked t tx).woundYounger tx ((l.holders t).blockers tx m)).Occupied :=
    h.congr (entries_woundYounger ..)
  have hl := looked l t tx m waited expired
  generalize l.look t tx m waited expired = r at hl
  cases hl with
  | covered hc => exact h.settle t tx _ waited
  | granted hc hb => exact h.settle t tx _ waited
  | wounded hb hd => exact Occupied.setHolders (l := l.blocked t tx) h t _
  | timedOut hb hd he => exact hw.setHolders t _
  | waits hb hd he => exact hw.setHolders t _

theorem waiting_look (l : LockTable) (t : Target) (tx : TxId) (m : Mode) (waited expired : Bool)
    {t' : Target} {a : TxId}
    (h : a ∈ ((l.look t tx m waited expired).2.holders t').waiting) :
    (a ∈ (l.holders t').waiting ∧ ¬ (t' = t ∧ a = tx)) ∨
      ((l.look t tx m waited expired).1 = .waits ∧ t' = t ∧ a = tx) := by
  have hl := looked l t tx m waited expired
  generalize l.look t tx m waited expired = r at hl h
  have hother : ∀ hs : Holders, hs.waiting = (l.holders t).waiting →
      a ∈ (if t' = t then hs.unawait tx else l.holders t').waiting →
      a ∈ (l.holders t').waiting ∧ ¬ (t' = t ∧ a = tx) := by
    intro hs he ha
    split at ha
    · rename_i ht
      obtain ⟨hmem, hne⟩ := Holders.mem_waiting_unawait.1 ha
      exact ⟨ht ▸ he ▸ hmem, fun hc => hne hc.2⟩
    · rename_i ht
      exact ⟨ha, fun hc => ht hc.1⟩
  cases hl with
  | covered hc =>
    rw [holders_settle] at h
    exact .inl (hother _ rfl h)
  | granted hc hb =>
    rw [holders_settle] at h
    exact .inl (hother _ (Holders.waiting_grant ..) h)
  | wounded hb hd =>
    simp only [stopWaiting, holders_setHolders, holders_blocked] at h
    exact .inl (hother _ rfl h)
  | timedOut hb hd he =>
    simp only [stopWaiting, holders_setHolders, holders_woundYounger, holders_blocked] at h
    exact .inl (hother _ rfl h)
  | waits hb hd he =>
    simp only [holders_setHolders, holders_woundYounger, holders_blocked] at h
    split at h
    · rename_i ht
      by_cases ha : a = tx
      · exact .inr ⟨rfl, ht, ha⟩
      · exact .inl ⟨ht ▸ (Holders.mem_waiting_await.1 h).resolve_left ha, fun hc => ha hc.2⟩
    · rename_i ht
      exact .inl ⟨h, fun hc => ht hc.1⟩

theorem doomed_look (l : LockTable) (t : Target) (tx : TxId) (m : Mode) (waited expired : Bool)
    {a : TxId} (h : a ∈ (l.look t tx m waited expired).2.doomed) :
    a ∈ l.doomed ∨ tx.IsOlder a ∧ ∃ n, (l.holders t).Holds a n ∧ m.compatible n = false := by
  have hl := looked l t tx m waited expired
  generalize l.look t tx m waited expired = r at hl h
  have hwound : a ∈ ((l.blocked t tx).woundYounger tx ((l.holders t).blockers tx m)).doomed →
      a ∈ l.doomed ∨ tx.IsOlder a ∧ ∃ n, (l.holders t).Holds a n ∧ m.compatible n = false := by
    intro ha
    refine ((doomed_woundYounger ..).1 ha).imp_right fun hb => ?_
    exact ⟨hb.2, (Holders.mem_blockers.1 hb.1).2⟩
  cases hl with
  | covered hc => cases waited <;> exact .inl h
  | granted hc hb => cases waited <;> exact .inl h
  | wounded hb hd => exact .inl h
  | timedOut hb hd he => exact hwound h
  | waits hb hd he => exact hwound h

/-- After a look of `tx` the sleepers may change, as long as those who are entered as waiting have
theirs. -/
theorem Booked.of_look (h : l.Booked P) (hp : P tx) {v : Verdict}
    (hl : l.look t tx m waited expired = (v, l')) {ss : List Sleeper} {next : Nat}
    (hss : ∀ s ∈ ss, P s.tx ∧ s.ticket < next)
    (hnd : ∀ s ∈ ss, ∀ u ∈ ss, s.ticket = u.ticket → s = u)
    (hkeep : ∀ u ∈ l.sleepers, ¬ (u.target = t ∧ u.tx = tx) →
      ∃ s ∈ ss, s.tx = u.tx ∧ s.target = u.target)
    (hwait : v = .waits → ∃ s ∈ ss, s.tx = tx ∧ s.target = t) :
    Booked P { l' with sleepers := ss, nextTicket := next } := by
  have hh := fun t' a n => holds_look l t t' tx a m n waited expired
  have hd := @doomed_look l t tx m waited expired
  have hw := @waiting_look l t tx m waited expired
  have hi := h.indexed.look t tx m waited expired
  have ho := h.occupied.look t tx m waited expired
  rw [hl] at hh hd hw hi ho
  refine ⟨fun t' a n ha => ?_, fun a ha => ?_, fun s hs => (hss s hs).1, hi, ho,
    fun t' a ha => ?_, fun s hs => (hss s hs).2, hnd⟩
  · rcases (hh t' a n).1 ha with ha | ⟨-, rfl, -⟩
    · exact h.holders t' a n ha
    · exact hp
  · rcases hd ha with ha | ⟨-, n, ha, -⟩
    · exact h.doomed a ha
    · exact h.holders t a n ha
  · rcases hw ha with ⟨hold, hne⟩ | ⟨hv, rfl, rfl⟩
    · obtain ⟨u, hu, rfl, rfl⟩ := h.awaited t' a hold
      exact hkeep u hu hne
    · exact hwait hv

theorem Booked.ask (h : l.Booked P) (hp : P tx) (t : Target) (m : Mode) (expired : Bool) :
    (l.ask t tx m expired).2.Booked P := by
  have hk := keeps_look l t tx m false expired
  unfold LockTable.ask
  split
  · rename_i l₁ hl
    rw [hl] at hk
    have hmem : ∀ s ∈ (l₁.fallAsleep t tx m).sleepers, (s ∈ l.sleepers ∧ s.ticket < l₁.nextTicket) ∨
        s = { ticket := l₁.nextTicket, tx, target := t, mode := m } := fun s hs => by
      rcases List.mem_append.1 hs with hs | hs
      · rw [hk.sleepers] at hs
        exact .inl ⟨hs, hk.nextTicket ▸ h.numbered s hs⟩
      · exact .inr (List.mem_singleton.1 hs)
    refine h.of_look hp hl (fun s hs => ?_) (fun s hs u hu he => ?_) (fun u hu _ => ?_) fun _ => ?_
    · rcases hmem s hs with ⟨hs, hlt⟩ | rfl
      · exact ⟨h.sleepers s hs, Nat.lt_succ_of_lt hlt⟩
      · exact ⟨hp, Nat.lt_succ_self _⟩
    · rcases hmem s hs with ⟨hs, hlt⟩ | rfl
      · rcases hmem u hu with ⟨hu, -⟩ | rfl
        · exact h.distinct s hs u hu he
        · exact absurd he (Nat.ne_of_lt hlt)
      · rcases hmem u hu with ⟨-, hlt⟩ | rfl
        · exact absurd he.symm (Nat.ne_of_lt hlt)
        · rfl
    · exact ⟨u, List.mem_append_left _ (hk.sleepers ▸ hu), rfl, rfl⟩
    · exact ⟨_, List.mem_append_right _ List.mem_cons_self, rfl, rfl⟩
  · rename_i r hne
    generalize hl : l.look t tx m false expired = r at hk hne
    obtain ⟨v, l₁⟩ := r
    have hmem : ∀ s ∈ l₁.sleepers, s ∈ l.sleepers := fun s hs => hk.sleepers ▸ hs
    refine h.of_look hp hl (fun s hs => ?_) (fun s hs u hu => ?_) (fun u hu _ => ?_) fun hv => ?_
    · exact ⟨h.sleepers s (hmem s hs), hk.nextTicket ▸ h.numbered s (hmem s hs)⟩
    · exact h.distinct s (hmem s hs) u (hmem u hu)
    · exact ⟨u, hk.sleepers ▸ hu, rfl, rfl⟩
    · exact absurd (congrArg (·, l₁) hv) (hne l₁)

theorem sleepers_relook (l : LockTable) (s : Sleeper) (expired : Bool) {s' : Sleeper}
    (hs : s' ∈ (l.relook s expired).2.sleepers) :
    (∃ u ∈ l.sleepers, u.Same s') ∧ ((l.relook s expired).1 ≠ .waits → s'.ticket ≠ s.ticket) := by
  have hk := keeps_look l s.target s.tx s.mode true expired
  unfold relook at hs ⊢
  split at hs
  · rename_i l₁ hl
    rw [hl] at hk
    obtain ⟨u, hu, rfl⟩ := List.mem_map.1 hs
    exact ⟨⟨u, hk.sleepers ▸ hu, u.same_notified (u.ticket = s.ticket) false⟩, absurd rfl⟩
  · rename_i v l₁ _ hl
    rw [hl] at hk
    obtain ⟨hmem, hticket⟩ := List.mem_filter.1 hs
    exact ⟨⟨s', hk.sleepers ▸ hmem, .refl s'⟩, fun _ => of_decide_eq_true hticket⟩

theorem Booked.relook (h : l.Booked P) {s : Sleeper} (hs : s ∈ l.sleepers) (expired : Bool) :
    (l.relook s expired).2.Booked P := by
  have hk := keeps_look l s.target s.tx s.mode true expired
  have hp := h.sleepers s hs
  unfold LockTable.relook
  split
  · rename_i l₁ hl
    rw [hl] at hk
    have hmap : ∀ u ∈ l.sleepers, (if u.ticket = s.ticket then { u with notified := false } else u) ∈
        (l₁.sleepAgain s.ticket).sleepers := fun u hu =>
      List.mem_map.2 ⟨u, hk.sleepers ▸ hu, rfl⟩
    have hsame : ∀ u : Sleeper, u.Same _ := fun u => u.same_notified (u.ticket = s.ticket) false
    have hmem : ∀ u' ∈ (l₁.sleepAgain s.ticket).sleepers, ∃ u ∈ l.sleepers,
        (if u.ticket = s.ticket then { u with notified := false } else u) = u' := fun u' hu' =>
      List.mem_map.1 (hk.sleepers ▸ hu')
    refine h.of_look hp hl (fun u' hu' => ?_) (fun v hv w hw he => ?_) (fun u hu _ => ?_) fun _ => ?_
    · obtain ⟨u, hu, rfl⟩ := hmem u' hu'
      rw [(hsame u).2.1, (hsame u).1, hk.nextTicket]
      exact ⟨h.sleepers u hu, h.numbered u hu⟩
    · obtain ⟨v, hvmem, rfl⟩ := hmem v hv
      obtain ⟨w, hwmem, rfl⟩ := hmem w hw
      rw [(hsame v).1, (hsame w).1] at he
      rw [h.distinct v hvmem w hwmem he]
    · exact ⟨_, hmap u hu, (hsame u).2.1, (hsame u).2.2.1⟩
    · exact ⟨_, hmap s hs, (hsame s).2.1, (hsame s).2.2.1⟩
  · rename_i v l₁ hne hl
    rw [hl] at hk
    have hmem : ∀ u ∈ (l₁.removeSleeper s.ticket).sleepers, u ∈ l.sleepers := fun u hu =>
      hk.sleepers ▸ (List.mem_filter.1 hu).1
    refine h.of_look hp hl (fun u hu => ?_) (fun v hv w hw => ?_) (fun u hu hother => ?_)
      fun hv => (hne hv).elim
    · exact ⟨h.sleepers u (hmem u hu), hk.nextTicket ▸ h.numbered u (hmem u hu)⟩
    · exact h.distinct v (hmem v hv) w (hmem w hw)
    · refine ⟨u, List.mem_filter.2 ⟨hk.sleepers ▸ hu, decide_eq_true fun he => hother ?_⟩, rfl, rfl⟩
      rw [h.distinct u hu s hs he]
      exact ⟨rfl, rfl⟩

theorem Booked.less (h : l.Booked P) {f : Sleeper → Sleeper} (hf : ∀ s : Sleeper, s.Same (f s))
    (hs : l'.sleepers = l.sleepers.map f) (hn : l'.nextTicket = l.nextTicket)
    (hh : ∀ t a m, (l'.holders t).Holds a m → (l.holders t).Holds a m)
    (hw : ∀ t, (l'.holders t).waiting = (l.holders t).waiting)
    (hd : ∀ a ∈ l'.doomed, a ∈ l.doomed) (hi : l'.Indexed) (ho : l'.Occupied) : l'.Booked P where
  holders t a m ha := h.holders t a m (hh t a m ha)
  doomed a ha := h.doomed a (hd a ha)
  sleepers s hm := by
    obtain ⟨u, hu, rfl⟩ := List.mem_map.1 (hs ▸ hm)
    exact (hf u).2.1 ▸ h.sleepers u hu
  indexed := hi
  occupied := ho
  awaited t a ha := by
    obtain ⟨u, hu, rfl, rfl⟩ := h.awaited t a (hw t ▸ ha)
    exact ⟨f u, hs ▸ List.mem_map_of_mem hu, (hf u).2.1, (hf u).2.2.1⟩
  numbered s hm := by
    obtain ⟨u, hu, rfl⟩ := List.mem_map.1 (hs ▸ hm)
    rw [(hf u).1, hn]
    exact h.numbered u hu
  distinct s hm u hu he := by
    obtain ⟨s, hsmem, rfl⟩ := List.mem_map.1 (hs ▸ hm)
    obtain ⟨u, humem, rfl⟩ := List.mem_map.1 (hs ▸ hu)
    rw [(hf s).1, (hf u).1] at he
    rw [h.distinct s hsmem u humem he]

theorem Booked.revokeModes (h : l.Booked P) (t : Target) (tx : TxId) (ms : List Mode) :
    (l.revokeModes t tx ms).Booked P := by
  have hfields : (l.revokeModes t tx ms).nextTicket = l.nextTicket ∧
      (l.revokeModes t tx ms).doomed = l.doomed ∧ (l.revokeModes t tx ms).entries =
        (l.setHolders t ((l.holders t).revokeAll tx ms)).entries := by
    simp only [LockTable.revokeModes]
    split <;> exact ⟨rfl, rfl, rfl⟩
  obtain ⟨hn, hd, he⟩ := hfields
  refine h.less (fun s => s.same_notified (l.anchorOf s.target = l.anchorOf t) true)
    (l.sleepers_revokeModes t tx ms) hn (fun t' a m ha => ((holds_revokeModes ..).1 ha).1)
    (fun t' => ?_) (fun a ha => hd ▸ ha) (h.indexed.revokeModes t tx ms)
    ((h.occupied.setHolders t _).congr he)
  have hh : (l.revokeModes t tx ms).holders t' =
      (l.setHolders t ((l.holders t).revokeAll tx ms)).holders t' := by
    rw [LockTable.holders, LockTable.holders, he]
  rw [hh, holders_setHolders]
  split
  · rename_i ht
    rw [Holders.waiting_revokeAll, ht]
  · rfl

theorem Booked.releaseOn (h : l.Booked P) (tx : TxId) (ms : List Mode) (ts : List Target) :
    (l.releaseOn tx ms ts).Booked P :=
  List.foldlRecOn _ _ h fun _ hl t _ => hl.revokeModes t tx ms

theorem sleepers_releaseOn {s' : Sleeper} {ms : List Mode} {ts : List Target}
    (hs : s' ∈ (l.releaseOn tx ms ts).sleepers) : ∃ s ∈ l.sleepers, s.Same s' := by
  revert s'
  refine List.foldlRecOn (motive := fun l' : LockTable => ∀ {s' : Sleeper}, s' ∈ l'.sleepers →
    ∃ s ∈ l.sleepers, s.Same s') ts _ (fun {s'} hs => ⟨s', hs, .refl s'⟩) ?_
  intro l' hl t _ s' hs'
  rw [sleepers_revokeModes] at hs'
  obtain ⟨u, hu, rfl⟩ := List.mem_map.1 hs'
  obtain ⟨s, hs, hsame⟩ := hl hu
  exact ⟨s, hs, hsame.trans (u.same_notified (l'.anchorOf u.target = l'.anchorOf t) true)⟩

theorem sleepers_releaseAll {s' : Sleeper} {sharedOnly : Bool}
    (hs : s' ∈ (l.releaseAll tx sharedOnly).sleepers) : ∃ s ∈ l.sleepers, s.Same s' := by
  cases sharedOnly <;> exact sleepers_releaseOn hs

theorem Booked.releaseAll (h : l.Booked P) (tx : TxId) (sharedOnly : Bool) :
    (l.releaseAll tx sharedOnly).Booked P := by
  have hi := h.indexed.releaseAll tx sharedOnly
  cases sharedOnly with
  | true => exact h.releaseOn ..
  | false =>
    have hon := h.releaseOn tx Mode.all (l.heldTargets tx)
    exact hon.less Sleeper.Same.refl (List.map_id _).symm rfl (fun _ _ _ => id) (fun _ => rfl)
      (fun a ha => (List.mem_filter.1 ha).1) hi (hon.occupied.congr rfl)

theorem Booked.leave (h : l.Booked P) (hs : ∀ s ∈ l.sleepers, s.tx ≠ tx) :
    (l.releaseAll tx false).Booked fun a => P a ∧ a ≠ tx := by
  have hl := h.releaseAll tx false
  refine ⟨fun t a m ha => ⟨hl.holders t a m ha, ?_⟩, fun a ha => ⟨hl.doomed a ha, ?_⟩,
    fun s hm => ⟨hl.sleepers s hm, ?_⟩, hl.indexed, hl.occupied, hl.awaited, hl.numbered,
    hl.distinct⟩
  · rintro rfl
    exact h.indexed.not_holds_releaseAll t a m ha
  · exact of_decide_eq_true (List.mem_filter.1 ha).2
  · obtain ⟨u, hu, hsame⟩ := sleepers_releaseAll hm
    exact hsame.2.1 ▸ hs u hu

theorem Booked.deliver (h : l.Booked P) : l.deliver.Booked P := by
  have hi := h.indexed.deliver
  have hh := l.holders_deliver
  unfold LockTable.deliver at hi hh ⊢
  split
  · exact h
  · dsimp only at hi hh ⊢
    split
    · exact h.less Sleeper.Same.refl (List.map_id _).symm rfl (fun _ _ _ => id) (fun _ => rfl)
        (fun _ => id) h.indexed h.occupied
    · rename_i anchor _
      exact h.less (fun s => s.same_notified (l.anchorOf s.target = anchor) true) rfl rfl
        (fun _ _ _ => id) (fun _ => rfl) (fun _ => id) h.indexed h.occupied

theorem sleepers_deliver {s' : Sleeper} (hs : s' ∈ l.deliver.sleepers) :
    ∃ s ∈ l.sleepers, s.Same s' := by
  unfold LockTable.deliver at hs
  split at hs
  · exact ⟨s', hs, .refl s'⟩
  · dsimp only at hs
    split at hs
    · exact ⟨s', hs, .refl s'⟩
    · rename_i anchor _
      obtain ⟨u, hu, rfl⟩ := List.mem_map.1 hs
      exact ⟨u, hu, u.same_notified (l.anchorOf u.target = anchor) true⟩

theorem Booked.take (h : l.Booked P) (hp : P tx) (expired : Bool) (s : LockStep) :
    (l.take tx expired s).2.Booked P := by
  cases s with
  | acquire t m => exact h.ask hp t m expired
  | touch t m => exact h.ask hp t m expired
  | drop t m => exact h.revokeModes t tx [m]

theorem sleepers_take (l : LockTable) (tx : TxId) (expired : Bool) (s : LockStep) {s' : Sleeper}
    (hs : s' ∈ (l.take tx expired s).2.sleepers) :
    (∃ u ∈ l.sleepers, u.Same s') ∨
      ((l.take tx expired s).1 = .waits ∧ s'.tx = tx ∧ s'.ticket = l.nextTicket) := by
  have hask : ∀ t m, s' ∈ (l.ask t tx m expired).2.sleepers → (∃ u ∈ l.sleepers, u.Same s') ∨
      ((l.ask t tx m expired).1 = .waits ∧ s'.tx = tx ∧ s'.ticket = l.nextTicket) := by
    intro t m hs
    have hk := keeps_look l t tx m false expired
    unfold LockTable.ask at hs ⊢
    split at hs
    · rename_i l₁ hl
      rw [hl] at hk
      rcases List.mem_append.1 hs with hs | hs
      · exact .inl ⟨s', hk.sleepers ▸ hs, .refl s'⟩
      · obtain rfl := List.mem_singleton.1 hs
        exact .inr ⟨rfl, rfl, hk.nextTicket⟩
    · exact .inl ⟨s', hk.sleepers ▸ hs, .refl s'⟩
  cases s with
  | acquire t m => exact hask t m hs
  | touch t m => exact hask t m hs
  | drop t m =>
    have hon : s' ∈ (l.releaseOn tx [m] [t]).sleepers := hs
    exact .inl (sleepers_releaseOn hon)

/-- Taking steps puts nobody on the books but `tx`, and leaves a new sleeper only under the ticket
that is waited for. -/
theorem Booked.perform (h : l.Booked P) (hp : P tx) (steps : List LockStep) :
    let r := perform tx steps l
    r.2.Booked P ∧ ∀ s' ∈ r.2.sleepers, (∃ s ∈ l.sleepers, s.Same s') ∨
      (s'.tx = tx ∧ ∃ rest, r.1 = .waits s'.ticket rest) := by
  have htake : ∀ {s : LockStep} {l₁ l₂ : LockTable} {v : Verdict},
      (l₁.Booked P ∧ ∀ s' ∈ l₁.sleepers, ∃ s ∈ l.sleepers, s.Same s') →
      l₁.take tx l₁.impatient s = (v, l₂) → l₂.Booked P ∧ ∀ s' ∈ l₂.sleepers,
        (∃ s ∈ l.sleepers, s.Same s') ∨ (v = .waits ∧ s'.tx = tx ∧ s'.ticket = l₁.nextTicket) := by
    rintro s l₁ l₂ v ⟨hb, hss⟩ ht
    have hbooked := hb.take hp l₁.impatient s
    have hsleep := @sleepers_take l₁ tx l₁.impatient s
    rw [ht] at hbooked hsleep
    refine ⟨hbooked, fun s' hs' => (hsleep hs').imp_left ?_⟩
    rintro ⟨u, hu, hsame⟩
    obtain ⟨s₀, hs₀, hsame₀⟩ := hss u hu
    exact ⟨s₀, hs₀, hsame₀.trans hsame⟩
  refine perform_induct tx
    (q := fun _ l₁ => l₁.Booked P ∧ ∀ s' ∈ l₁.sleepers, ∃ s ∈ l.sleepers, s.Same s')
    (p := fun r => r.2.Booked P ∧ ∀ s' ∈ r.2.sleepers, (∃ s ∈ l.sleepers, s.Same s') ∨
      (s'.tx = tx ∧ ∃ rest, r.1 = .waits s'.ticket rest))
    (fun l₁ hq => ⟨hq.1, fun s' hs' => .inl (hq.2 s' hs')⟩) ?_ ?_ ?_
    ⟨h, fun s' hs' => ⟨s', hs', .refl s'⟩⟩
  · intro s rest l₁ l₂ hq ht
    obtain ⟨hb, hss⟩ := htake hq ht
    refine ⟨hb, fun s' hs' => (hss s' hs').resolve_right ?_⟩
    rintro ⟨hv, -⟩
    cases hv
  · intro s rest l₁ l₂ hq ht
    obtain ⟨hb, hss⟩ := htake hq ht
    refine ⟨hb, fun s' hs' => (hss s' hs').imp_right ?_⟩
    rintro ⟨-, hx, hticket⟩
    exact ⟨hx, _, by rw [hticket]⟩
  · intro s rest l₁ v l₂ err hq ht herr
    obtain ⟨hb, hss⟩ := htake hq ht
    refine ⟨hb, fun s' hs' => .inl ((hss s' hs').resolve_right ?_)⟩
    rintro ⟨rfl, -⟩
    cases herr

end LockTable

end PagedStore
