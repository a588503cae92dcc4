import PagedStore.Proofs.Lock.Run

set_option autoImplicit false

/-!
Sleeping requests never wait for each other alone. Main statement: `no_total_deadlock`. The
invariant `Attended` says of every request that sleeps on, since it looked last, that somebody is
still in its way who is older or has been wounded, and that the wakeup of its own wound, if there
was one, is still queued.
-/

namespace PagedStore

namespace LockTable

def Sleeps (l : LockTable) (tx : TxId) : Prop := ∃ s ∈ l.sleepers, s.tx = tx

/-- Transactions that sleep do nothing but look again. -/
def Permits (l : LockTable) : LockEvent → Prop
  | .ask _ tx _ _ | .release _ tx _ | .releaseAll tx _ => ¬ l.Sleeps tx
  | .relook .. | .deliver => True

/-- Whoever was wounded on the way has a wakeup in the queue: none was dropped. -/
def QueuesWakeups (l l' : LockTable) : Prop :=
  ∀ v ∈ l'.doomed, v ∉ l.doomed → v ∈ l'.wakeups.queue

def Follows (l : LockTable) : List LockEvent → Prop
  | [] => True
  | e :: es => l.Permits e ∧ l.QueuesWakeups (l.step e) ∧ (l.step e).Follows es

/-- Nothing is left to be delivered, and nobody who was notified has yet to look. -/
def Quiet (l : LockTable) : Prop :=
  l.wakeups.queue = [] ∧ ∀ s ∈ l.sleepers, s.notified = false

instance (l : LockTable) (tx : TxId) : Decidable (l.Sleeps tx) :=
  inferInstanceAs (Decidable (∃ s ∈ l.sleepers, s.tx = tx))

instance (l : LockTable) : (e : LockEvent) → Decidable (l.Permits e)
  | .ask _ tx _ _ | .release _ tx _ | .releaseAll tx _ =>
    inferInstanceAs (Decidable (¬ l.Sleeps tx))
  | .relook .. | .deliver => inferInstanceAs (Decidable True)

instance (l l' : LockTable) : Decidable (l.QueuesWakeups l') :=
  inferInstanceAs (Decidable (∀ v ∈ l'.doomed, v ∉ l.doomed → v ∈ l'.wakeups.queue))

instance instDecidableFollows : (l : LockTable) → (es : List LockEvent) → Decidable (l.Follows es)
  | _, [] => inferInstanceAs (Decidable True)
  | l, e :: es =>
    have := instDecidableFollows (l.step e) es
    inferInstanceAs (Decidable (l.Permits e ∧ l.QueuesWakeups (l.step e) ∧ (l.step e).Follows es))

instance (l : LockTable) : Decidable l.Quiet :=
  inferInstanceAs (Decidable (l.wakeups.queue = [] ∧ ∀ s ∈ l.sleepers, s.notified = false))

/-- What a look at a request of `tx` leaves as it was. -/
structure Keeps (tx : TxId) (l l' : LockTable) : Prop where
  anchorOf : ∀ t, l'.anchorOf t = l.anchorOf t
  sleepers : l'.sleepers = l.sleepers
  nextTicket : l'.nextTicket = l.nextTicket
  lastAnchor : ∀ a, a ≠ tx → l'.lastAnchor.find? a = l.lastAnchor.find? a
  heldTargets : ∀ a t, t ∈ l.heldTargets a → t ∈ l'.heldTargets a
  doomed : ∀ v ∈ l.doomed, v ∈ l'.doomed
  queue : ∀ v ∈ l.wakeups.queue, v ∈ l'.wakeups.queue

theorem Keeps.refl (tx : TxId) (l : LockTable) : Keeps tx l l where
  anchorOf _ := rfl
  sleepers := rfl
  nextTicket := rfl
  lastAnchor _ _ := rfl
  heldTargets _ _ h := h
  doomed _ h := h
  queue _ h := h

theorem Keeps.trans {tx : TxId} {l₁ l₂ l₃ : LockTable} (h : Keeps tx l₁ l₂) (k : Keeps tx l₂ l₃) :
    Keeps tx l₁ l₃ where
  anchorOf t := (k.anchorOf t).trans (h.anchorOf t)
  sleepers := k.sleepers.trans h.sleepers
  nextTicket := k.nextTicket.trans h.nextTicket
  lastAnchor a ha := (k.lastAnchor a ha).trans (h.lastAnchor a ha)
  heldTargets a t ht := k.heldTargets a t (h.heldTargets a t ht)
  doomed v hv := k.doomed v (h.doomed v hv)
  queue v hv := k.queue v (h.queue v hv)

theorem keeps_setHolders (tx : TxId) (l : LockTable) (t : Target) (h : Holders) :
    Keeps tx l (l.setHolders t h) := { Keeps.refl tx l with }

theorem keeps_blocked (tx : TxId) (l : LockTable) (t : Target) : Keeps tx l (l.blocked t tx) :=
  { Keeps.refl tx l with lastAnchor := fun _ ha => Registry.find?_insert_of_ne _ _ ha }

theorem heldTargets_addHeld (l : LockTable) (tx a : TxId) (t : Target) :
    (l.addHeld tx t).heldTargets a =
      if a = tx then (l.heldTargets tx).insert t else l.heldTargets a := by
  simp only [heldTargets, addHeld, Registry.find?_insert]
  split <;> rfl

theorem keeps_addHeld (tx : TxId) (l : LockTable) (t : Target) : Keeps tx l (l.addHeld tx t) :=
  { Keeps.refl tx l with
    heldTargets := fun a t' ht => by
      rw [heldTargets_addHeld]
      split
      · rename_i ha
        exact List.mem_insert_of_mem (ha ▸ ht)
      · exact ht }

theorem keeps_settle (tx : TxId) (l : LockTable) (t : Target) (h : Holders) (waited : Bool) :
    Keeps tx l (l.settle t tx h waited) := by
  cases waited with
  | false => exact (keeps_setHolders tx l t _).trans (keeps_addHeld tx _ t)
  | true =>
    have hw : Keeps tx (l.setHolders t (h.unawait tx))
        { l.setHolders t (h.unawait tx) with lastAnchor := l.lastAnchor.erase tx } :=
      { Keeps.refl tx _ with lastAnchor := fun _ ha => Registry.find?_erase_of_ne _ ha }
    exact ((keeps_setHolders tx l t _).trans hw).trans (keeps_addHeld tx _ t)

theorem mem_queue_post {b : Mailbox} {v : TxId} (h : v ∈ b.queue) (tx : TxId) :
    v ∈ (b.post tx).2.queue := by
  unfold Mailbox.post
  split
  · exact List.mem_append_left _ h
  · exact h

theorem keeps_wound (tx : TxId) (l : LockTable) (v : TxId) : Keeps tx l (l.wound v) := by
  unfold wound
  split
  · exact .refl tx l
  · exact { Keeps.refl tx l with
      doomed := fun _ h => List.mem_cons_of_mem v h
      queue := fun _ h => mem_queue_post h v }

theorem keeps_woundYounger (tx by_ : TxId) (l : LockTable) (bs : List TxId) :
    Keeps tx l (l.woundYounger by_ bs) :=
  woundYounger_induct (p := Keeps tx l) bs (.refl tx l) fun l' v h _ _ =>
    h.trans (keeps_wound tx l' v)

theorem keeps_look (l : LockTable) (t : Target) (tx : TxId) (m : Mode) (waited expired : Bool) :
    Keeps tx l (l.look t tx m waited expired).2 := by
  have h := looked l t tx m waited expired
  generalize l.look t tx m waited expired = r at h
  cases h with
  | covered hc => exact keeps_settle ..
  | granted hc hb => exact keeps_settle ..
  | wounded hb hd => exact (keeps_blocked ..).trans (keeps_setHolders ..)
  | timedOut hb hd he =>
    exact ((keeps_blocked ..).trans (keeps_woundYounger ..)).trans (keeps_setHolders ..)
  | waits hb hd he =>
    exact ((keeps_blocked ..).trans (keeps_woundYounger ..)).trans (keeps_setHolders ..)

@[simp] theorem doomed_wound (l : LockTable) (v w : TxId) :
    w ∈ (l.wound v).doomed ↔ w ∈ l.doomed ∨ w = v := by
  unfold wound isDoomed
  by_cases hv : v ∈ l.doomed
  · simp only [hv, decide_true, if_true]
    exact ⟨.inl, fun h => h.elim id fun e => e ▸ hv⟩
  · simp only [hv, decide_false, Bool.false_eq_true, if_false, List.mem_cons]
    exact Or.comm

theorem doomed_woundYounger (l : LockTable) (tx : TxId) (bs : List TxId) (w : TxId) :
    w ∈ (l.woundYounger tx bs).doomed ↔ w ∈ l.doomed ∨ (w ∈ bs ∧ tx.IsOlder w) := by
  have hf : ∀ vs : List TxId, ∀ l : LockTable,
      w ∈ (vs.foldl wound l).doomed ↔ w ∈ l.doomed ∨ w ∈ vs := by
    intro vs
    induction vs with
    | nil => simp
    | cons v vs ih =>
      intro l
      rw [List.foldl_cons, ih, doomed_wound, List.mem_cons, or_assoc]
  rw [woundYounger, hf]
  simp

theorem lastAnchor_woundYounger (l : LockTable) (tx : TxId) (bs : List TxId) :
    (l.woundYounger tx bs).lastAnchor = l.lastAnchor :=
  woundYounger_induct (p := fun l' => l'.lastAnchor = l.lastAnchor) bs rfl fun l' v h _ _ => by
    unfold wound
    split <;> exact h

/-- A sleeper has its anchor on record. Unless it is to look again, it will be woken if it has been
wounded, and somebody is in its way who is older or wounded. -/
structure Attended (l : LockTable) (s : Sleeper) : Prop where
  anchored : l.lastAnchor.find? s.tx = some (l.anchorOf s.target)
  woken : s.notified = false → s.tx ∈ l.doomed → s.tx ∈ l.wakeups.queue
  blocked : s.notified = false →
    ∃ h ∈ (l.holders s.target).blockers s.tx s.mode, h.IsOlder s.tx ∨ h ∈ l.doomed

theorem Attended.of_keeps {l l' : LockTable} {s : Sleeper} {tx : TxId} (h : l.Attended s)
    (hk : Keeps tx l l') (hne : s.tx ≠ tx) (hq : l.QueuesWakeups l')
    (hh : ∀ a n, (l.holders s.target).Holds a n → (l'.holders s.target).Holds a n) :
    l'.Attended s where
  anchored := by rw [hk.lastAnchor _ hne, hk.anchorOf, h.anchored]
  woken hn hd := by
    by_cases ho : s.tx ∈ l.doomed
    · exact hk.queue _ (h.woken hn ho)
    · exact hq _ hd ho
  blocked hn := by
    obtain ⟨b, hb, hw⟩ := h.blocked hn
    obtain ⟨hbne, n, hbn, hc⟩ := Holders.mem_blockers.1 hb
    exact ⟨b, Holders.mem_blockers.2 ⟨hbne, n, hh b n hbn, hc⟩, hw.imp_right (hk.doomed b)⟩

theorem attended_of_waits {l l' : LockTable} {s : Sleeper} {waited expired : Bool}
    (h : l.look s.target s.tx s.mode waited expired = (.waits, l')) : l'.Attended s := by
  have hl := looked l s.target s.tx s.mode waited expired
  rw [h] at hl
  cases hl with
  | waits hb hd he =>
    have hd' : ∀ w, w ∈ ((l.blocked s.target s.tx).woundYounger s.tx
        ((l.holders s.target).blockers s.tx s.mode)).doomed ↔ w ∈ l.doomed ∨
          (w ∈ (l.holders s.target).blockers s.tx s.mode ∧ s.tx.IsOlder w) :=
      fun w => doomed_woundYounger ..
    constructor
    · show (((l.blocked s.target s.tx).woundYounger s.tx _).lastAnchor).find? s.tx = _
      rw [lastAnchor_woundYounger]
      show (l.lastAnchor.insert s.tx (l.anchorOf s.target)).find? s.tx = _
      rw [Registry.find?_insert_self, (keeps_setHolders s.tx _ _ _).anchorOf,
        (keeps_woundYounger s.tx _ _ _).anchorOf]
      rfl
    · intro _ hw
      rcases (hd' s.tx).1 hw with hw | ⟨-, hw⟩
      · exact absurd hw hd
      · exact absurd hw (TxId.not_isOlder_self _)
    · intro _
      obtain ⟨b, hb⟩ := List.exists_mem_of_ne_nil _ hb
      obtain ⟨hne, n, hbn, hc⟩ := Holders.mem_blockers.1 hb
      refine ⟨b, Holders.mem_blockers.2 ⟨hne, n, by simpa using hbn, hc⟩, ?_⟩
      rcases TxId.isOlder_or_isOlder hne with ho | ho
      · exact .inl ho
      · exact .inr ((hd' b).2 (.inr ⟨hb, ho⟩))

structure Tidy (next : Nat) (ss : List Sleeper) : Prop where
  below : ∀ s ∈ ss, s.ticket < next
  byTicket : ∀ s ∈ ss, ∀ u ∈ ss, s.ticket = u.ticket → s = u
  byTx : ∀ s ∈ ss, ∀ u ∈ ss, s.tx = u.tx → s = u

theorem Tidy.map {next : Nat} {ss : List Sleeper} (h : Tidy next ss) {f : Sleeper → Sleeper}
    (ht : ∀ s, (f s).ticket = s.ticket) (hx : ∀ s, (f s).tx = s.tx) : Tidy next (ss.map f) where
  below _ hs := by
    obtain ⟨s, hm, rfl⟩ := List.mem_map.1 hs
    rw [ht]
    exact h.below s hm
  byTicket _ hs _ hu e := by
    obtain ⟨s, hm, rfl⟩ := List.mem_map.1 hs
    obtain ⟨u, hn, rfl⟩ := List.mem_map.1 hu
    rw [ht, ht] at e
    rw [h.byTicket s hm u hn e]
  byTx _ hs _ hu e := by
    obtain ⟨s, hm, rfl⟩ := List.mem_map.1 hs
    obtain ⟨u, hn, rfl⟩ := List.mem_map.1 hu
    rw [hx, hx] at e
    rw [h.byTx s hm u hn e]

theorem Tidy.filter {next : Nat} {ss : List Sleeper} (h : Tidy next ss) (p : Sleeper → Bool) :
    Tidy next (ss.filter p) where
  below s hs := h.below s (List.mem_filter.1 hs).1
  byTicket s hs u hu := h.byTicket s (List.mem_filter.1 hs).1 u (List.mem_filter.1 hu).1
  byTx s hs u hu := h.byTx s (List.mem_filter.1 hs).1 u (List.mem_filter.1 hu).1

theorem Tidy.snoc {next : Nat} {ss : List Sleeper} (h : Tidy next ss) {s₀ : Sleeper}
    (ht : s₀.ticket = next) (hx : ∀ s ∈ ss, s.tx ≠ s₀.tx) : Tidy (next + 1) (ss ++ [s₀]) := by
  have hmem : ∀ s, s ∈ ss ++ [s₀] → s ∈ ss ∨ s = s₀ := by simp
  have hne : ∀ s ∈ ss, s.ticket ≠ s₀.ticket := by
    intro s hs
    have := h.below s hs
    omega
  constructor
  · intro s hs
    rcases hmem s hs with hm | rfl
    · exact Nat.lt_succ_of_lt (h.below s hm)
    · omega
  · intro s hs u hu e
    rcases hmem s hs with hm | hm <;> rcases hmem u hu with hn | hn
    · exact h.byTicket s hm u hn e
    · exact absurd (hn ▸ e) (hne s hm)
    · exact absurd (hm ▸ e.symm) (hne u hn)
    · rw [hm, hn]
  · intro s hs u hu e
    rcases hmem s hs with hm | hm <;> rcases hmem u hu with hn | hn
    · exact h.byTx s hm u hn e
    · exact absurd (hn ▸ e) (hx s hm)
    · exact absurd (hm ▸ e.symm) (hx u hn)
    · rw [hm, hn]

/-- What holds in every state that a table can get into. -/
structure Sound (l : LockTable) : Prop where
  indexed : ∀ t a m, (l.holders t).Holds a m → t ∈ l.heldTargets a
  tidy : Tidy l.nextTicket l.sleepers
  attended : ∀ s ∈ l.sleepers, l.Attended s

theorem sound_blank (place : Target → Nat) (anchors maxWait capacity : Nat) :
    (blank place anchors maxWait capacity).Sound where
  indexed _ _ _ h := absurd h Holders.not_holds_none
  tidy := by constructor <;> intro s hs <;> cases hs
  attended s hs := by cases hs

theorem mem_heldTargets_of_free {l : LockTable} {t : Target} {tx : TxId} {m : Mode}
    {waited expired : Bool} (hc : (l.holders t).covers tx m = false)
    (hb : (l.holders t).blockers tx m = []) :
    t ∈ (l.look t tx m waited expired).2.heldTargets tx := by
  have h := looked l t tx m waited expired
  generalize l.look t tx m waited expired = r at h ⊢
  cases h with
  | covered hc' => rw [hc] at hc'; cases hc'
  | granted =>
    simp only [settle, heldTargets_addHeld, if_true]
    exact List.mem_insert_self
  | wounded hb' => exact absurd hb hb'
  | timedOut hb' => exact absurd hb hb'
  | waits hb' => exact absurd hb hb'

theorem Sound.indexed_look {l : LockTable} (h : l.Sound) (t : Target) (tx : TxId) (m : Mode)
    (waited expired : Bool) (t' : Target) (a : TxId) (n : Mode)
    (ha : ((l.look t tx m waited expired).2.holders t').Holds a n) :
    t' ∈ (l.look t tx m waited expired).2.heldTargets a := by
  rcases (holds_look ..).1 ha with ho | ⟨rfl, rfl, rfl, hc, hb⟩
  · exact (keeps_look l t tx m waited expired).heldTargets a t' (h.indexed t' a n ho)
  · exact mem_heldTargets_of_free hc hb

theorem Sound.attended_look {l : LockTable} (h : l.Sound) (t : Target) (tx : TxId) (m : Mode)
    (waited expired : Bool) (hq : l.QueuesWakeups (l.look t tx m waited expired).2)
    (s : Sleeper) (hs : s ∈ l.sleepers) (hne : s.tx ≠ tx) :
    (l.look t tx m waited expired).2.Attended s :=
  (h.attended s hs).of_keeps (keeps_look ..) hne hq fun _ _ ho => (holds_look ..).2 (.inl ho)

theorem Sound.ask {l : LockTable} (h : l.Sound) {t : Target} {tx : TxId} {m : Mode}
    {expired : Bool} (hs : ¬ l.Sleeps tx) (hq : l.QueuesWakeups (l.ask t tx m expired).2) :
    (l.ask t tx m expired).2.Sound := by
  have hne : ∀ s ∈ l.sleepers, s.tx ≠ tx := fun s hm e => hs ⟨s, hm, e⟩
  have hk := keeps_look l t tx m false expired
  have hi := h.indexed_look t tx m false expired
  have ha := h.attended_look t tx m false expired
  unfold LockTable.ask at hq ⊢
  split at hq
  · rename_i l' hw
    rw [hw] at hk hi ha
    refine ⟨hi, ?_, ?_⟩
    · show Tidy (l'.nextTicket + 1) (l'.sleepers ++ _)
      rw [hk.nextTicket, hk.sleepers]
      exact h.tidy.snoc rfl hne
    · intro s hm
      rw [show (l'.fallAsleep t tx m).sleepers = l'.sleepers ++ _ from rfl, hk.sleepers,
        List.mem_append, List.mem_singleton] at hm
      rcases hm with hm | rfl
      · exact { ha hq s hm (hne s hm) with }
      · have hnew : l'.Attended { ticket := l'.nextTicket, tx, target := t, mode := m } :=
          attended_of_waits hw
        exact { hnew with }
  · rename_i hw
    refine ⟨hi, ?_, ?_⟩
    · rw [hk.nextTicket, hk.sleepers]
      exact h.tidy
    · rw [hk.sleepers]
      exact fun s hm => ha hq s hm (hne s hm)

theorem mem_sleeper {l : LockTable} {ticket : Nat} {s : Sleeper} (h : l.sleeper? ticket = some s) :
    s ∈ l.sleepers ∧ s.ticket = ticket := by
  unfold sleeper? at h
  exact ⟨List.mem_of_find?_eq_some h, by simpa using List.find?_some h⟩

theorem Sound.relook {l : LockTable} (h : l.Sound) {s : Sleeper} {expired : Bool}
    (hs : s ∈ l.sleepers) (hq : l.QueuesWakeups (l.relook s expired).2) :
    (l.relook s expired).2.Sound := by
  have hne : ∀ u ∈ l.sleepers, u.ticket ≠ s.ticket → u.tx ≠ s.tx :=
    fun u hu ht hx => ht (congrArg Sleeper.ticket (h.tidy.byTx u hu s hs hx))
  have hk := keeps_look l s.target s.tx s.mode true expired
  have hi := h.indexed_look s.target s.tx s.mode true expired
  have ha := h.attended_look s.target s.tx s.mode true expired
  unfold LockTable.relook at hq ⊢
  split at hq
  · rename_i l' hw
    rw [hw] at hk hi ha
    refine ⟨hi, ?_, ?_⟩
    · show Tidy l'.nextTicket (l'.sleepers.map _)
      rw [hk.nextTicket, hk.sleepers]
      exact h.tidy.map (fun u => by split <;> rfl) (fun u => by split <;> rfl)
    · intro v hv
      rw [show (l'.sleepAgain s.ticket).sleepers = l'.sleepers.map _ from rfl, hk.sleepers] at hv
      obtain ⟨u, hu, rfl⟩ := List.mem_map.1 hv
      by_cases ht : u.ticket = s.ticket
      · have hus : u = s := h.tidy.byTicket u hu s hs ht
        rw [if_pos ht, hus]
        have hnew : l'.Attended { s with notified := false } := attended_of_waits hw
        exact { hnew with }
      · rw [if_neg ht]
        exact { ha hq u hu (hne u hu ht) with }
  · rename_i v l' hv hw
    rw [hw] at hk hi ha
    refine ⟨hi, ?_, ?_⟩
    · show Tidy l'.nextTicket (l'.sleepers.filter _)
      rw [hk.nextTicket, hk.sleepers]
      exact h.tidy.filter _
    · intro u hu
      rw [show (l'.removeSleeper s.ticket).sleepers = l'.sleepers.filter _ from rfl, hk.sleepers,
        List.mem_filter] at hu
      exact { ha hq u hu.1 (hne u hu.1 (by simpa using hu.2)) with }

theorem Attended.wakeAnchor {l l' : LockTable} {s : Sleeper} (h : l.Attended s) (anchor : Nat)
    (hp : ∀ t, l'.anchorOf t = l.anchorOf t) (hl : l'.lastAnchor = l.lastAnchor)
    (hd : l'.doomed = l.doomed)
    (hq : l.anchorOf s.target ≠ anchor → s.tx ∈ l.wakeups.queue → s.tx ∈ l'.wakeups.queue)
    (hh : l.anchorOf s.target ≠ anchor → ∀ a n,
      (l.holders s.target).Holds a n → (l'.holders s.target).Holds a n) :
    l'.Attended (if l.anchorOf s.target = anchor then { s with notified := true } else s) := by
  by_cases ha : l.anchorOf s.target = anchor
  · rw [if_pos ha]
    constructor
    · rw [hl, hp, h.anchored]
    · intro hn
      cases hn
    · intro hn
      cases hn
  · rw [if_neg ha]
    refine ⟨by rw [hl, hp, h.anchored], fun hn hw => hq ha (h.woken hn (hd ▸ hw)), fun hn => ?_⟩
    obtain ⟨b, hb, hw⟩ := h.blocked hn
    obtain ⟨hne, n, hbn, hc⟩ := Holders.mem_blockers.1 hb
    exact ⟨b, Holders.mem_blockers.2 ⟨hne, n, hh ha b n hbn, hc⟩, hw.imp_right (hd ▸ ·)⟩

theorem heldTargets_dropHeld (l : LockTable) (tx a : TxId) (t : Target) :
    (l.dropHeld tx t).heldTargets a =
      if a = tx then (l.heldTargets tx).filter (· ≠ t) else l.heldTargets a := by
  unfold dropHeld
  by_cases he : ((l.heldTargets tx).filter (· ≠ t)).isEmpty
  · simp only [he, if_true]
    simp only [heldTargets, Registry.find?_erase]
    split
    · exact (List.isEmpty_iff.1 he).symm
    · rfl
  · simp only [he, Bool.false_eq_true, if_false]
    simp only [heldTargets, Registry.find?_insert]
    split <;> rfl

theorem modesOf_eq_nil {h : Holders} {tx : TxId} :
    h.modesOf tx = [] ↔ ∀ n, ¬ h.Holds tx n := by
  rw [List.eq_nil_iff_forall_not_mem]
  exact forall_congr' fun n => not_congr Holders.mem_modesOf

theorem mem_heldTargets_revokeModes {l : LockTable} {t t' : Target} {tx a : TxId} {ms : List Mode}
    {n : Mode} (h : t' ∈ l.heldTargets a)
    (ha : ((l.revokeModes t tx ms).holders t').Holds a n) :
    t' ∈ (l.revokeModes t tx ms).heldTargets a := by
  simp only [revokeModes] at ha ⊢
  split
  · rename_i he
    rw [heldTargets_dropHeld]
    split
    · rename_i hx
      subst hx
      refine List.mem_filter.2 ⟨h, decide_eq_true fun e => ?_⟩
      subst e
      rw [if_pos he, show ((((l.setHolders t' ((l.holders t').revokeAll a ms)).wakeAnchor _).dropHeld
        a t').holders t') = (l.setHolders t' ((l.holders t').revokeAll a ms)).holders t' from rfl,
        holders_setHolders, if_pos rfl] at ha
      exact modesOf_eq_nil.1 (List.isEmpty_iff.1 he) n ha
    · exact h
  · exact h

theorem sleepers_revokeModes (l : LockTable) (t : Target) (tx : TxId) (ms : List Mode) :
    (l.revokeModes t tx ms).sleepers = l.sleepers.map fun s =>
      if l.anchorOf s.target = l.anchorOf t then { s with notified := true } else s := by
  simp only [revokeModes]
  split <;> rfl

theorem Sound.revokeModes {l : LockTable} (h : l.Sound) (t : Target) (tx : TxId)
    (ms : List Mode) : (l.revokeModes t tx ms).Sound := by
  have hp : ∀ u, (l.revokeModes t tx ms).anchorOf u = l.anchorOf u := by
    intro u
    simp only [LockTable.revokeModes]
    split <;> rfl
  have hf : (l.revokeModes t tx ms).lastAnchor = l.lastAnchor ∧
      (l.revokeModes t tx ms).doomed = l.doomed ∧
      (l.revokeModes t tx ms).wakeups = l.wakeups ∧
      (l.revokeModes t tx ms).nextTicket = l.nextTicket := by
    simp only [LockTable.revokeModes]
    split <;> exact ⟨rfl, rfl, rfl, rfl⟩
  obtain ⟨hl, hd, hw, hn⟩ := hf
  constructor
  · intro t' a n ha
    exact mem_heldTargets_revokeModes (h.indexed t' a n ((holds_revokeModes ..).1 ha).1) ha
  · rw [hn, sleepers_revokeModes]
    exact h.tidy.map (fun s => by split <;> rfl) (fun s => by split <;> rfl)
  · intro v hv
    rw [sleepers_revokeModes] at hv
    obtain ⟨s, hs, rfl⟩ := List.mem_map.1 hv
    refine (h.attended s hs).wakeAnchor (l.anchorOf t) hp hl hd (fun _ hq => hw ▸ hq) ?_
    intro ha a n ho
    exact (holds_revokeModes ..).2 ⟨ho, fun hc => ha (congrArg l.anchorOf hc.1)⟩

theorem Sound.releaseOn {l : LockTable} (h : l.Sound) (tx : TxId) (ms : List Mode)
    (ts : List Target) : (l.releaseOn tx ms ts).Sound :=
  List.foldlRecOn _ _ h fun _ hl t _ => hl.revokeModes t tx ms

theorem sleeps_releaseOn (l : LockTable) (tx a : TxId) (ms : List Mode) (ts : List Target) :
    (l.releaseOn tx ms ts).Sleeps a ↔ l.Sleeps a := by
  unfold LockTable.releaseOn
  induction ts generalizing l with
  | nil => rfl
  | cons t ts ih =>
    rw [List.foldl_cons, ih]
    unfold Sleeps
    rw [sleepers_revokeModes]
    constructor
    · rintro ⟨v, hv, rfl⟩
      obtain ⟨s, hs, rfl⟩ := List.mem_map.1 hv
      exact ⟨s, hs, by split <;> rfl⟩
    · rintro ⟨s, hs, rfl⟩
      exact ⟨_, List.mem_map.2 ⟨s, hs, rfl⟩, by split <;> rfl⟩

theorem Sound.forget {l : LockTable} (h : l.Sound) {tx : TxId} (hs : ¬ l.Sleeps tx)
    (hh : ∀ t n, ¬ (l.holders t).Holds tx n) : (l.forget tx).Sound := by
  have hne : ∀ s ∈ l.sleepers, s.tx ≠ tx := fun s hm e => hs ⟨s, hm, e⟩
  constructor
  · intro t a n ha
    have hax : a ≠ tx := fun e => hh t n (e ▸ ha)
    show t ∈ ((l.held.erase tx).find? a).getD []
    rw [Registry.find?_erase_of_ne _ hax]
    exact h.indexed t a n ha
  · exact h.tidy
  · intro s hm
    have ha := h.attended s hm
    constructor
    · show (l.lastAnchor.erase tx).find? s.tx = _
      rw [Registry.find?_erase_of_ne _ (hne s hm)]
      exact ha.anchored
    · intro hn hd
      exact ha.woken hn (List.mem_filter.1 hd).1
    · intro hn
      obtain ⟨b, hb, hw⟩ := ha.blocked hn
      obtain ⟨-, n, hbn, -⟩ := Holders.mem_blockers.1 hb
      have hbx : b ≠ tx := fun e => hh s.target n (e ▸ hbn)
      exact ⟨b, hb, hw.imp_right fun hd => List.mem_filter.2 ⟨hd, decide_eq_true hbx⟩⟩

theorem Sound.releaseAll {l : LockTable} (h : l.Sound) {tx : TxId} (hs : ¬ l.Sleeps tx)
    (sharedOnly : Bool) : (l.releaseAll tx sharedOnly).Sound := by
  cases sharedOnly with
  | true => exact h.releaseOn tx _ _
  | false =>
    refine (h.releaseOn tx Mode.all (l.heldTargets tx)).forget ?_ ?_
    · rwa [sleeps_releaseOn]
    · intro t n hn
      obtain ⟨ho, hc⟩ := (holds_releaseOn ..).1 hn
      exact hc ⟨h.indexed t tx n ho, rfl, Mode.mem_all n⟩

theorem Sound.deliver {l : LockTable} (h : l.Sound) : l.deliver.Sound := by
  cases hq : l.wakeups.queue with
  | nil =>
    have he : l.deliver = l := by simp [LockTable.deliver, Mailbox.take?, hq]
    rwa [he]
  | cons v rest =>
    -- a sleeper of another transaction that waits for its wakeup waits on
    have hrest : ∀ s : Sleeper, s.tx ≠ v → s.tx ∈ l.wakeups.queue → s.tx ∈ rest := by
      intro s hne hm
      rw [hq] at hm
      exact (List.mem_cons.1 hm).resolve_left hne
    cases ha : l.lastAnchor.find? v with
    | none =>
      have he : l.deliver = { l with wakeups := { l.wakeups with queue := rest } } := by
        simp [LockTable.deliver, Mailbox.take?, hq, ha]
      rw [he]
      refine ⟨h.indexed, h.tidy, fun s hs => ?_⟩
      have hs' := h.attended s hs
      have hne : s.tx ≠ v := by
        intro e
        have hn := hs'.anchored
        rw [e, ha] at hn
        cases hn
      exact ⟨hs'.anchored, fun hn hd => hrest s hne (hs'.woken hn hd), hs'.blocked⟩
    | some anchor =>
      have he : l.deliver =
          { l with wakeups := { l.wakeups with queue := rest } }.wakeAnchor anchor := by
        simp [LockTable.deliver, Mailbox.take?, hq, ha]
      rw [he]
      refine ⟨h.indexed, h.tidy.map (fun s => by split <;> rfl) (fun s => by split <;> rfl), ?_⟩
      intro u hu
      obtain ⟨s, hs, rfl⟩ := List.mem_map.1 hu
      have hs' := h.attended s hs
      refine hs'.wakeAnchor anchor (fun _ => rfl) rfl rfl (fun hne => hrest s ?_) (fun _ _ _ => id)
      intro e
      have hn := hs'.anchored
      rw [e, ha] at hn
      exact hne (Option.some.inj hn).symm

theorem Sound.step {l : LockTable} (h : l.Sound) {e : LockEvent} (hp : l.Permits e)
    (hq : l.QueuesWakeups (l.step e)) : (l.step e).Sound := by
  cases e with
  | ask t tx m expired => exact h.ask hp hq
  | relook ticket expired =>
    cases hs : l.sleeper? ticket with
    | none => simpa only [LockTable.step, hs] using h
    | some s =>
      simp only [LockTable.step, hs] at hq ⊢
      exact h.relook (mem_sleeper hs).1 hq
  | release t tx ms => exact h.revokeModes t tx ms
  | releaseAll tx sharedOnly => exact h.releaseAll hp sharedOnly
  | deliver => exact h.deliver

theorem Sound.run {l : LockTable} (h : l.Sound) {es : List LockEvent} (hf : l.Follows es) :
    (l.run es).Sound := by
  induction es generalizing l with
  | nil => exact h
  | cons e es ih => exact ih (h.step hf.1 hf.2.1) hf.2.2

/-- In a quiet table a sleeper has not been wounded, and an older transaction, or one that has been
wounded, is in its way. -/
theorem Sound.quiet {l : LockTable} (h : l.Sound) (hq : l.Quiet) {s : Sleeper}
    (hs : s ∈ l.sleepers) :
    s.tx ∉ l.doomed ∧ ∃ b ∈ (l.holders s.target).blockers s.tx s.mode,
      b.IsOlder s.tx ∨ b ∈ l.doomed := by
  have ha := h.attended s hs
  have hn := hq.2 s hs
  refine ⟨fun hd => ?_, ha.blocked hn⟩
  have hm := ha.woken hn hd
  rw [hq.1] at hm
  cases hm

/-- In a quiet table no set of sleeping transactions waits for itself alone. -/
theorem no_total_deadlock (place : Target → Nat) (anchors maxWait capacity : Nat)
    (es : List LockEvent) (h : (blank place anchors maxWait capacity).Follows es)
    (hq : ((blank place anchors maxWait capacity).run es).Quiet) :
    let l := (blank place anchors maxWait capacity).run es
    ¬ ∃ D : TxId → Prop, (∃ tx, D tx) ∧ (∀ tx, D tx → l.Sleeps tx) ∧
      ∀ s ∈ l.sleepers, D s.tx → ∀ b ∈ (l.holders s.target).blockers s.tx s.mode, D b := by
  rintro l ⟨D, ⟨tx, hx⟩, hsleep, hclosed⟩
  have hl : l.Sound := (sound_blank place anchors maxWait capacity).run h
  -- each member waits for an older one, since the wounded do not sleep
  have hdown : ∀ n, ∀ s ∈ l.sleepers, D s.tx → s.tx.num = n → False := by
    intro n
    induction n using Nat.strongRecOn with
    | ind n ih =>
      intro s hs hd hn
      obtain ⟨-, b, hb, hold⟩ := hl.quiet hq hs
      have hbd := hclosed s hs hd b hb
      obtain ⟨u, hu, hub⟩ := hsleep b hbd
      have hnd : b ∉ l.doomed := hub ▸ (hl.quiet hq hu).1
      have hlt : b.num < s.tx.num := hold.resolve_right hnd
      exact ih b.num (hn ▸ hlt) u hu (hub.symm ▸ hbd) (congrArg TxId.num hub)
  obtain ⟨s, hs, hsx⟩ := hsleep tx hx
  exact hdown s.tx.num s hs (hsx.symm ▸ hx) rfl

/-- Two transactions hold what the other one asks for. The younger one is woken and turned away,
and the older one sleeps on. -/
def crossing : List LockEvent :=
  [.ask (.file "a") ⟨2⟩ .x false, .ask (.file "bb") ⟨3⟩ .x false, .ask (.file "a") ⟨3⟩ .s false,
    .ask (.file "bb") ⟨2⟩ .s false, .deliver, .relook 0 false]

theorem no_total_deadlock_crossing :
    let l₀ := blank (fun t => t.fileName.length) 2 9 4
    l₀.Follows crossing ∧ (l₀.run crossing).Quiet ∧ (l₀.run crossing).Sleeps ⟨2⟩ ∧
      ¬ ∃ D : TxId → Prop, (∃ tx, D tx) ∧ (∀ tx, D tx → (l₀.run crossing).Sleeps tx) ∧
        ∀ s ∈ (l₀.run crossing).sleepers, D s.tx →
          ∀ b ∈ ((l₀.run crossing).holders s.target).blockers s.tx s.mode, D b :=
  have hf : (blank (fun t => t.fileName.length) 2 9 4).Follows crossing := by decide
  have hq : ((blank (fun t => t.fileName.length) 2 9 4).run crossing).Quiet := by decide
  ⟨hf, hq, by decide, no_total_deadlock _ 2 9 4 crossing hf hq⟩

end LockTable

end PagedStore
