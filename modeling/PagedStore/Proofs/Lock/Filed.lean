import PagedStore.Proofs.Lock.Booked
import PagedStore.Proofs.Lock.Turns

set_option autoImplicit false

/-!
The books of a lock table: what each transaction holds is entered at its targets and again in the
list of the transaction, and whoever sleeps is entered as waiting. Main statement:
`Scene.Agrees.turn`. The two agree at every turn, up to the one target that a call is about to list
or to strike off.
-/

namespace PagedStore

structure Query.Known (q : Query) (l : LockTable) (tx : TxId) : Prop where
  fits : q.Fits l tx
  asleep : ∀ k, q.ticket? = some k → ∃ s ∈ l.sleepers, s.ticket = k

namespace LockTable

def On (l : LockTable) (tx : TxId) (t : Target) : Prop := ∃ m, (l.holders t).Holds tx m

def Listed (l : LockTable) (tx : TxId) : Prop := ∀ t, l.On tx t ↔ t ∈ l.heldTargets tx

/-- What holds of a table at any time: no entry is kept for nobody and no list is empty or names a
target twice, and those who sleep are those who are entered as waiting. -/
structure Filed (l : LockTable) : Prop where
  occupied : l.Occupied
  lists : ∀ a ts, l.held.find? a = some ts → ts.Nodup ∧ ts ≠ []
  waiting : ∀ t a, a ∈ (l.holders t).waiting ↔ ∃ s ∈ l.sleepers, s.target = t ∧ s.tx = a
  tidy : Tidy l.nextTicket l.sleepers

variable {l l' : LockTable} {tx a : TxId} {t : Target} {q : Query} {mover : Option TxId}
  {woken : Option Nat} {free : Nat → Prop}

theorem filed_blank (place : Target → Nat) (anchors maxWait capacity : Nat) :
    (blank place anchors maxWait capacity).Filed where
  occupied _ _ he := by cases he
  lists _ _ he := by cases he
  waiting t a := ⟨fun h => absurd h List.not_mem_nil, fun ⟨_, hs, _⟩ => absurd hs List.not_mem_nil⟩
  tidy := by constructor <;> intro s hs <;> cases hs

theorem on_congr (h : l'.entries = l.entries) (a : TxId) (t : Target) : l'.On a t ↔ l.On a t := by
  rw [On, On, holders_congr h]

theorem on_setHolders (l : LockTable) (t t' : Target) (h : Holders) (a : TxId) :
    (l.setHolders t h).On a t' ↔ if t' = t then ∃ m, h.Holds a m else l.On a t' := by
  unfold On
  rw [holders_setHolders]
  split <;> rfl

theorem Filed.congr (h : l.Filed) (he : l'.entries = l.entries) (hh : l'.held = l.held)
    (hs : l'.sleepers = l.sleepers) (hn : l'.nextTicket = l.nextTicket) : l'.Filed where
  occupied := h.occupied.congr he
  lists := by
    rw [hh]
    exact h.lists
  waiting t a := by rw [holders_congr he, hs, h.waiting]
  tidy := by
    rw [hs, hn]
    exact h.tidy

theorem Filed.nodup (h : l.Filed) (a : TxId) : (l.heldTargets a).Nodup := by
  unfold heldTargets
  cases hf : l.held.find? a with
  | none => exact List.nodup_nil
  | some ts => exact (h.lists a ts hf).1

theorem Filed.nodup_insert (h : l.Filed) (a : TxId) (t : Target) :
    ((l.heldTargets a).insert t).Nodup := by
  by_cases ht : t ∈ l.heldTargets a
  · rw [List.insert_of_mem ht]
    exact h.nodup a
  · rw [List.insert_of_not_mem ht]
    exact List.nodup_cons.2 ⟨ht, h.nodup a⟩

theorem Filed.unlisted (h : l.Filed) (ha : l.heldTargets a = []) : l.held.find? a = none := by
  cases hf : l.held.find? a with
  | none => rfl
  | some ts =>
    rw [heldTargets, hf] at ha
    exact absurd ha (h.lists a ts hf).2

theorem Filed.answered (h : l.Filed) (hf : q.Fits l tx) {hs : Holders}
    (hw : hs.waiting = (l.holders q.target).waiting) :
    ((l.setHolders q.target (hs.unawait tx)).rise q.ticket?).Filed where
  occupied := (h.occupied.setHolders _ _).congr (entries_rise ..)
  lists := by
    rw [held_rise]
    exact h.lists
  waiting t a := by
    -- the only sleeper of `tx` is the one that rises
    have hown : ∀ s ∈ l.sleepers, s.tx = tx ↔ q.ticket? = some s.ticket := fun s hs =>
      ⟨fun e => (hf.own s hs (.inl e)).2.1, fun e => (hf.own s hs (.inr e)).1⟩
    have hstay : (∃ s ∈ ((l.setHolders q.target (hs.unawait tx)).rise q.ticket?).sleepers,
        s.target = t ∧ s.tx = a) ↔ a ∈ (l.holders t).waiting ∧ a ≠ tx := by
      rw [h.waiting]
      constructor
      · rintro ⟨s, hs, rfl, rfl⟩
        obtain ⟨hm, hne⟩ := (sleepers_rise ..).1 hs
        exact ⟨⟨s, hm, rfl, rfl⟩, fun e => hne ((hown s hm).1 e)⟩
      · rintro ⟨⟨s, hm, rfl, rfl⟩, hne⟩
        exact ⟨s, (sleepers_rise ..).2 ⟨hm, fun e => hne ((hown s hm).2 e)⟩, rfl, rfl⟩
    rw [hstay, holders_congr (entries_rise ..), holders_setHolders]
    split
    · rename_i ht
      rw [Holders.mem_waiting_unawait, hw, ht]
    · rename_i ht
      refine (and_iff_left_of_imp fun ha e => ht ?_).symm
      obtain ⟨s, hs, rfl, hx⟩ := (h.waiting t a).1 ha
      exact (hf.own s hs (.inl (hx.trans e))).2.2.1
  tidy := tidy_rise h.tidy

theorem exists_mem_park (hf : q.Known l tx) (t : Target) (a : TxId) :
    (∃ s ∈ (l.park tx q).sleepers, s.target = t ∧ s.tx = a) ↔
      (∃ s ∈ l.sleepers, s.target = t ∧ s.tx = a) ∨ (q.target = t ∧ tx = a) := by
  obtain ⟨t₀, m, ticket?⟩ := q
  cases ticket? with
  | none =>
    show (∃ s ∈ l.sleepers ++ [_], _) ↔ _
    simp only [List.mem_append, List.mem_singleton, or_and_right, exists_or, exists_eq_left]
  | some k =>
    show (∃ s ∈ l.sleepers.map _, _) ↔ _
    constructor
    · rintro ⟨s, hs, rfl, rfl⟩
      obtain ⟨u, hu, rfl⟩ := List.mem_map.1 hs
      exact .inl ⟨u, hu, by split <;> rfl, by split <;> rfl⟩
    · intro hcase
      have hold : ∃ s ∈ l.sleepers, s.target = t ∧ s.tx = a := by
        rcases hcase with hcase | ⟨rfl, rfl⟩
        · exact hcase
        · obtain ⟨s, hs, rfl⟩ := hf.asleep k rfl
          obtain ⟨hx, -, ht, -⟩ := hf.fits.own s hs (.inr rfl)
          exact ⟨s, hs, ht, hx⟩
      obtain ⟨s, hs, rfl, rfl⟩ := hold
      exact ⟨_, List.mem_map.2 ⟨s, hs, rfl⟩, by split <;> rfl, by split <;> rfl⟩

theorem Filed.park (h : l.Filed) (hf : q.Known l tx) : (l.park tx q).Filed where
  occupied := by
    have ho := h.occupied.setHolders q.target ((l.holders q.target).await tx)
    unfold LockTable.park
    split <;> exact ho.congr rfl
  lists := by
    have hh : (l.park tx q).held = l.held := by
      unfold LockTable.park
      split <;> rfl
    rw [hh]
    exact h.lists
  waiting t a := by
    have hh : (l.park tx q).holders t =
        (l.setHolders q.target ((l.holders q.target).await tx)).holders t := by
      unfold LockTable.park
      split <;> rfl
    rw [exists_mem_park hf, hh, holders_setHolders, ← h.waiting]
    split
    · rename_i ht
      rw [Holders.mem_waiting_await, ht, eq_self, true_and, or_comm, eq_comm]
    · rename_i ht
      exact (or_iff_left fun hc => ht hc.1.symm).symm
  tidy := tidy_park h.tidy hf.fits

theorem Filed.wakeAnchor (h : l.Filed) (anchor : Nat) : (l.wakeAnchor anchor).Filed where
  occupied := h.occupied.congr rfl
  lists := h.lists
  waiting t a := by
    refine (h.waiting t a).trans ?_
    constructor
    · rintro ⟨s, hs, rfl, rfl⟩
      exact ⟨_, List.mem_map.2 ⟨s, hs, rfl⟩, by split <;> rfl, by split <;> rfl⟩
    · rintro ⟨s, hs, rfl, rfl⟩
      obtain ⟨u, hu, rfl⟩ := List.mem_map.1 hs
      exact ⟨u, hu, by split <;> rfl, by split <;> rfl⟩
  tidy := tidy_wakeAnchor h.tidy

theorem Filed.strip (h : l.Filed) (t : Target) (tx : TxId) (ms : List Mode) :
    (l.strip t tx ms).Filed := by
  have hset : (l.setHolders t ((l.holders t).revokeAll tx ms)).Filed :=
    { occupied := h.occupied.setHolders _ _
      lists := h.lists
      waiting := fun t' a => by
        rw [holders_setHolders]
        refine Iff.trans ?_ (h.waiting t' a)
        split
        · rename_i ht
          rw [Holders.waiting_revokeAll, ht]
        · exact Iff.rfl
      tidy := h.tidy }
  exact hset.wakeAnchor _

theorem Filed.addHeld (h : l.Filed) (tx : TxId) (t : Target) : (l.addHeld tx t).Filed :=
  { h with
    lists := fun a ts hf => by
      simp only [LockTable.addHeld, Registry.find?_insert] at hf
      split at hf
      · cases hf
        exact ⟨h.nodup_insert tx t, List.ne_nil_of_mem List.mem_insert_self⟩
      · exact h.lists a ts hf }

theorem Filed.dropHeld (h : l.Filed) (tx : TxId) (t : Target) : (l.dropHeld tx t).Filed :=
  { h with
    lists := fun a ts hf => by
      simp only [LockTable.dropHeld] at hf
      split at hf
      · exact h.lists a ts (Registry.find?_of_erase hf).2
      · rename_i he
        rw [Registry.find?_insert] at hf
        split at hf
        · cases hf
          exact ⟨(h.nodup tx).filter _, fun hn => he (List.isEmpty_iff.2 hn)⟩
        · exact h.lists a ts hf }

theorem Filed.disown (h : l.Filed) (tx : TxId) : Filed { l with held := l.held.erase tx } :=
  { h with
    lists := fun a ts hf => h.lists a ts (Registry.find?_of_erase hf).2 }

/-- What a step of `mover` that wakes the anchor `woken` leaves to the others. -/
structure Leaves (mover : Option TxId) (woken : Option Nat) (l l' : LockTable) : Prop where
  spares : Spares mover woken l l'
  respects : Respects mover (fun _ => True) l l'
  asleep : ∀ s ∈ l.sleepers, some s.tx ≠ mover → ∃ u ∈ l'.sleepers, u.ticket = s.ticket
  doomed : ∀ a ∈ l'.doomed, a ∈ l.doomed ∨ ∃ t, l.On a t

theorem Leaves.on (h : Leaves mover woken l l') (ha : some a ≠ mover) (t : Target) :
    l'.On a t ↔ l.On a t :=
  exists_congr fun m => h.respects.holds t a m ha

theorem Leaves.listed (h : Leaves mover woken l l') (ha : some a ≠ mover) :
    l'.Listed a ↔ l.Listed a :=
  forall_congr' fun t => by rw [h.on ha, h.respects.listed a ha]

theorem leaves_of_eq (hs : Spares mover woken l l') (hr : Respects mover (fun _ => True) l l')
    (he : l'.sleepers = l.sleepers) (hd : ∀ a ∈ l'.doomed, a ∈ l.doomed ∨ ∃ t, l.On a t) :
    Leaves mover woken l l' where
  spares := hs
  respects := hr
  asleep s hm _ := ⟨s, he ▸ hm, rfl⟩
  doomed := hd

theorem Leaves.refl (mover : Option TxId) (l : LockTable) : Leaves mover none l l :=
  leaves_of_eq (.refl _ _) (.refl _) rfl fun _ => .inl

theorem leaves_of_books (hs : Spares mover none l l') (he : l'.entries = l.entries)
    (hh : l'.held = l.held) (hss : l'.sleepers = l.sleepers) (hd : ∀ a ∈ l.doomed, a ∈ l'.doomed)
    (hn : ∀ a ∈ l'.doomed, a ∈ l.doomed ∨ ∃ t, l.On a t) : Leaves mover none l l' :=
  leaves_of_eq hs (respects_keep he hh hd) hss hn

theorem Leaves.rise (h : Leaves (some tx) none l l') (hf : q.Fits l tx) :
    Leaves (some tx) none l (l'.rise q.ticket?) where
  spares := h.spares.rise _
  respects := h.respects.rise _
  asleep s hs hne := by
    obtain ⟨u, hu, ht⟩ := h.asleep s hs hne
    refine ⟨u, (sleepers_rise ..).2 ⟨hu, fun e => hne ?_⟩, ht⟩
    exact congrArg some (hf.own s hs (.inr (ht ▸ e))).1
  doomed a ha := h.doomed a (by rwa [doomed_rise] at ha)

theorem leaves_setHolders {h : Holders}
    (hh : ∀ a m, h.Holds a m → (l.holders t).Holds a m ∨ a = tx)
    (hk : ∀ a m, (l.holders t).Holds a m → h.Holds a m) :
    Leaves (some tx) none l (l.setHolders t h) :=
  leaves_of_eq (spares_setHolders hk)
    (respects_setHolders (fun a m ha => ⟨fun hm => (hh a m hm).resolve_right fun e =>
      ha (congrArg some e), hk a m⟩) fun _ _ _ => .inr trivial) rfl fun _ => .inl

theorem leaves_stopWaiting (l : LockTable) (t : Target) (tx : TxId) :
    Leaves (some tx) none l (l.stopWaiting t tx) :=
  leaves_setHolders (fun _ _ hm => .inl (Holders.holds_unawait.1 hm))
    fun _ _ => Holders.holds_unawait.2

theorem leaves_park (hf : q.Fits l tx) : Leaves (some tx) none l (l.park tx q) where
  spares := spares_park hf
  respects := respects_park q
  asleep s hs _ := by
    unfold LockTable.park
    split
    · exact ⟨s, List.mem_append_left _ hs, rfl⟩
    · exact ⟨_, List.mem_map.2 ⟨s, hs, rfl⟩, by split <;> rfl⟩
  doomed a ha := .inl (doomed_park l tx q ▸ ha)

theorem leaves_wakeAnchor (l : LockTable) (anchor : Nat) :
    Leaves mover (some anchor) l (l.wakeAnchor anchor) where
  spares := spares_wakeAnchor ..
  respects := respects_keep rfl rfl fun _ => id
  asleep s hs _ := ⟨_, List.mem_map.2 ⟨s, hs, rfl⟩, by split <;> rfl⟩
  doomed _ := .inl

theorem leaves_strip (l : LockTable) (t : Target) (tx : TxId) (ms : List Mode) :
    Leaves (some tx) (some (l.anchorOf t)) l (l.strip t tx ms) where
  spares := spares_strip ..
  respects := respects_strip ..
  asleep := (@leaves_wakeAnchor (some tx) (l.setHolders t _) _).asleep
  doomed _ := .inl

theorem leaves_held (hs : Spares (some tx) none l l') (he : l'.entries = l.entries)
    (hd : l'.doomed = l.doomed) (hss : l'.sleepers = l.sleepers)
    (hh : ∀ a, a ≠ tx → l'.heldTargets a = l.heldTargets a) : Leaves (some tx) none l l' :=
  leaves_of_eq hs (respects_held he (fun _ ha => hd.symm ▸ ha) hh) hss fun _ ha => .inl (hd ▸ ha)

/-- What is known of the books of a transaction in a phase of a call. -/
def Stands (l : LockTable) (tx : TxId) : LockPhase → Prop
  | .recording q bs | .checking q bs | .wounding q bs =>
    q.Known l tx ∧ l.Listed tx ∧ ∀ b ∈ bs, l.On b q.target
  | .posting q v vs => q.Known l tx ∧ l.Listed tx ∧ ∀ b ∈ v :: vs, l.On b q.target
  | .unrecording t₀ | .listing t₀ =>
    ¬ l.Sleeps tx ∧ ∀ t, l.On tx t ↔ t ∈ l.heldTargets tx ∨ t = t₀
  | .releasing ms ts leaving =>
    ¬ l.Sleeps tx ∧ l.Listed tx ∧ (leaving = true → ms = Mode.all ∧ ∀ t, l.On tx t → t ∈ ts)
  | .unlisting t₀ ms ts leaving =>
    ¬ l.Sleeps tx ∧ (∀ t, l.On tx t ↔ t ∈ l.heldTargets tx ∧ t ≠ t₀) ∧
      (leaving = true → ms = Mode.all ∧ ∀ t, l.On tx t → t ∈ ts)
  | .disowning | .pardoning | .forgetting => ¬ l.Sleeps tx ∧ l.Listed tx ∧ ∀ t, ¬ l.On tx t

end LockTable

theorem Query.Known.mono {q : Query} {l l' : LockTable} {tx : TxId} {mover : Option TxId}
    {woken : Option Nat} (h : q.Known l tx) (hl : LockTable.Leaves mover woken l l')
    (hne : some tx ≠ mover) : q.Known l' tx where
  fits := h.fits.mono hl.spares hne
  asleep k hk := by
    obtain ⟨s, hs, rfl⟩ := h.asleep k hk
    exact hl.asleep s hs ((h.fits.own s hs (.inr hk)).1 ▸ hne)

namespace Scene

variable {σ τ : Scene} {tx a : TxId} {q : Query} {p : LockPhase} {l l' : LockTable}
  {mover : Option TxId} {woken : Option Nat}

/-- A step of another leaves true what is known of a transaction in a call whose anchor it does not
wake. -/
theorem stands_mono (h : l.Stands a p) (hl : LockTable.Leaves mover woken l l')
    (hne : some a ≠ mover) (hw : ∀ x, p.anchor? l = some x → some x ≠ woken) : l'.Stands a p := by
  have hon : ∀ t, l'.On a t ↔ l.On a t := hl.on hne
  have hlist : l'.Listed a ↔ l.Listed a := hl.listed hne
  have hheld : l'.heldTargets a = l.heldTargets a := hl.respects.listed a hne
  have hawake : ¬ l.Sleeps a → ¬ l'.Sleeps a := LockTable.not_sleeps_mono hl.spares hne
  have hstay : ∀ (q : Query) b, some (l.anchorOf q.target) ≠ woken → l.On b q.target →
      l'.On b q.target := fun q b ht ⟨m, hm⟩ => ⟨m, hl.spares.holds q.target b m ht hm⟩
  cases p with
  | recording q bs | checking q bs | wounding q bs | posting q v vs =>
    exact ⟨h.1.mono hl hne, hlist.2 h.2.1, fun b hb => hstay q b (hw _ rfl) (h.2.2 b hb)⟩
  | unrecording t₀ | listing t₀ => exact ⟨hawake h.1, fun t => by rw [hon, hheld, h.2 t]⟩
  | releasing ms ts leaving =>
    refine ⟨hawake h.1, hlist.2 h.2.1, fun hv => ?_⟩
    simp only [hon]
    exact h.2.2 hv
  | unlisting t₀ ms ts leaving =>
    refine ⟨hawake h.1, fun t => by rw [hon, hheld, h.2.1 t], fun hv => ?_⟩
    simp only [hon]
    exact h.2.2 hv
  | disowning | pardoning | forgetting =>
    exact ⟨hawake h.1, hlist.2 h.2.1, fun t ht => h.2.2 t ((hon t).1 ht)⟩

/-- The books of a scene. -/
structure Agrees (σ : Scene) : Prop where
  filed : σ.table.Filed
  apart : σ.Apart
  stands : ∀ a p, σ.phases.find? a = some p → σ.table.Stands a p
  listed : ∀ a, σ.phases.find? a = none → σ.table.Listed a

/-- What a turn of `mover` leaves to the others. No call keeps the anchor that it wakes. -/
structure Touches (mover : Option TxId) (woken : Option Nat) (σ τ : Scene) : Prop where
  leaves : LockTable.Leaves mover woken σ.table τ.table
  phases : ∀ a, some a ≠ mover → τ.phases.find? a = σ.phases.find? a
  free : ∀ x, woken = some x → σ.isFree x

structure Turned (mover : Option TxId) (σ τ : Scene) : Prop where
  agrees : τ.Agrees
  touches : ∃ woken, Touches mover woken σ τ

/-- What the one who moves has to show: the anchor it keeps was its own or nobody's, and its books
are right. -/
structure Keeps (σ τ : Scene) (tx : TxId) : Prop where
  kept : ∀ p x, τ.phases.find? tx = some p → p.anchor? τ.table = some x →
    (∃ p₀, σ.phases.find? tx = some p₀ ∧ p₀.anchor? σ.table = some x) ∨ σ.isFree x
  stands : ∀ p, τ.phases.find? tx = some p → τ.table.Stands tx p
  listed : τ.phases.find? tx = none → τ.table.Listed tx

theorem Agrees.pass (h : σ.Agrees) (ht : Touches mover woken σ τ) (hfiled : τ.table.Filed)
    (hown : ∀ tx, some tx = mover → Keeps σ τ tx) : Turned mover σ τ := by
  refine ⟨⟨hfiled, ?_, fun a p hp => ?_, fun a hn => ?_⟩, woken, ht⟩
  · exact h.apart.pass (fun p => anchor?_congr ht.leaves.spares) ht.phases
      fun tx p x hm => (hown tx hm).kept p x
  · by_cases ha : some a = mover
    · exact (hown a ha).stands p hp
    · rw [ht.phases a ha] at hp
      exact stands_mono (h.stands a p hp) ht.leaves ha fun x hx hw =>
        ne_anchor_of_isFree (ht.free x hw.symm) hp hx
  · by_cases ha : some a = mover
    · exact (hown a ha).listed hn
    · rw [ht.phases a ha] at hn
      exact (ht.leaves.listed ha).2 (h.listed a hn)

theorem Agrees.goOn (h : σ.Agrees) (hl : LockTable.Leaves (some tx) woken σ.table l')
    (hfree : ∀ x, woken = some x → σ.isFree x) (hf : l'.Filed)
    (hk : ∀ x, p.anchor? l' = some x →
      (∃ p₀, σ.phases.find? tx = some p₀ ∧ p₀.anchor? σ.table = some x) ∨ σ.isFree x)
    (hs : l'.Stands tx p) : Turned (some tx) σ (σ.goOn tx p l') := by
  have hp : (σ.goOn tx p l').phases.find? tx = some p := (find?_goOn tx).trans (if_pos rfl)
  refine h.pass ⟨hl, fun a ha => (find?_goOn a).trans (if_neg fun e => ha (congrArg some e)),
    hfree⟩ hf ?_
  rintro a ⟨⟩
  refine ⟨fun p' x he => ?_, fun p' he => ?_, fun he => ?_⟩
  · obtain rfl := Option.some.inj (hp.symm.trans he)
    exact hk x
  · obtain rfl := Option.some.inj (hp.symm.trans he)
    exact hs
  · cases hp.symm.trans he

theorem Agrees.goOn_calm (h : σ.Agrees) (hl : LockTable.Leaves (some tx) woken σ.table l')
    (hfree : ∀ x, woken = some x → σ.isFree x) (hf : l'.Filed) (hp : p.query? = none)
    (hs : l'.Stands tx p) : Turned (some tx) σ (σ.goOn tx p l') := by
  refine h.goOn hl hfree hf (fun x hx => ?_) hs
  rw [LockPhase.anchor?, hp] at hx
  cases hx

theorem Agrees.goOn_asking {p₀ : LockPhase} (h : σ.Agrees)
    (hl : LockTable.Leaves (some tx) none σ.table l') (hf : l'.Filed)
    (hp₀ : σ.phases.find? tx = some p₀) (hq : p₀.query? = p.query?) (hs : l'.Stands tx p) :
    Turned (some tx) σ (σ.goOn tx p l') := by
  have he : p.anchor? l' = p.anchor? σ.table := anchor?_congr (τ := σ.goOn tx p l') hl.spares
  refine h.goOn hl nofun hf (fun x hx => .inl ⟨p₀, hp₀, ?_⟩) hs
  rw [LockPhase.anchor?, hq]
  exact he.symm.trans hx

theorem Agrees.rest (h : σ.Agrees) (hl : LockTable.Leaves (some tx) none σ.table l') (hf : l'.Filed)
    (hs : l'.Listed tx) : Turned (some tx) σ (σ.rest tx l') := by
  have hp : (σ.rest tx l').phases.find? tx = none := (find?_rest tx).trans (if_pos rfl)
  refine h.pass ⟨hl, fun a ha => (find?_rest a).trans (if_neg fun e => ha (congrArg some e)),
    nofun⟩ hf ?_
  rintro a ⟨⟩
  refine ⟨fun p' x he => ?_, fun p' he => ?_, fun _ => hs⟩
  · cases hp.symm.trans he
  · cases hp.symm.trans he

theorem Agrees.gain {hs : Holders} (h : σ.Agrees) (hk : q.Known σ.table tx)
    (hn : σ.phases.find? tx = none) (hw : hs.waiting = (σ.table.holders q.target).waiting)
    (hh : ∀ a m, hs.Holds a m → (σ.table.holders q.target).Holds a m ∨ a = tx)
    (hold : ∀ a m, (σ.table.holders q.target).Holds a m → hs.Holds a m)
    (hgot : ∃ m, hs.Holds tx m) : Turned (some tx) σ (σ.gain tx q hs) := by
  have hl : LockTable.Leaves (some tx) none σ.table (σ.table.obtain tx q hs) :=
    (LockTable.leaves_setHolders (fun a m hm => hh a m (Holders.holds_unawait.1 hm))
      fun a m hm => Holders.holds_unawait.2 (hold a m hm)).rise hk.fits
  have hz : ¬ (σ.table.obtain tx q hs).Sleeps tx :=
    LockTable.not_sleeps_rise (hk.fits.setHolders _ _)
  have hon : ∀ t, (σ.table.obtain tx q hs).On tx t ↔
      t ∈ (σ.table.obtain tx q hs).heldTargets tx ∨ t = q.target := by
    intro t
    rw [LockTable.obtain, LockTable.on_congr (LockTable.entries_rise ..),
      LockTable.heldTargets_congr (LockTable.held_rise ..), LockTable.on_setHolders]
    simp only [Holders.holds_unawait]
    split
    · rename_i ht
      simp only [hgot, ht, or_true]
    · rename_i ht
      rw [h.listed tx hn t, or_iff_left ht]
      rfl
  refine h.goOn_calm hl nofun (h.filed.answered hk.fits hw) ?_ ?_
  · split <;> rfl
  · split <;> exact ⟨hz, hon⟩

theorem Agrees.consider (h : σ.Agrees) (hk : q.Known σ.table tx) (hn : σ.phases.find? tx = none)
    (ha : σ.isFree (σ.table.anchorOf q.target)) : Turned (some tx) σ (σ.consider tx q) := by
  by_cases hc : (σ.table.holders q.target).covers tx q.mode
  · rw [consider_of_covers hc]
    obtain ⟨m, hm, -⟩ := Holders.covers_iff.1 hc
    exact h.gain hk hn rfl (fun _ _ => .inl) (fun _ _ => id) ⟨m, hm⟩
  · by_cases hb : (σ.table.holders q.target).blockers tx q.mode = []
    · rw [consider_of_free hc hb]
      have hg : ∀ a m, ((σ.table.holders q.target).grant tx q.mode).Holds a m ↔
          (σ.table.holders q.target).Holds a m ∨ (a = tx ∧ m = q.mode) :=
        fun a m => Holders.holds_grant_of_free hb
      refine h.gain hk hn (Holders.waiting_grant ..) (fun a m hm => ?_) (fun a m hm => ?_)
        ⟨q.mode, (hg tx q.mode).2 (.inr ⟨rfl, rfl⟩)⟩
      · exact ((hg a m).1 hm).imp id And.left
      · exact (hg a m).2 (.inl hm)
    · rw [consider_of_blocked hc hb]
      refine h.goOn (.refl _ _) nofun h.filed ?_ ⟨hk, h.listed tx hn, fun b hm => ?_⟩
      · rintro x ⟨⟩
        exact .inr ha
      · obtain ⟨-, m, hm, -⟩ := Holders.mem_blockers.1 hm
        exact ⟨m, hm⟩

theorem Agrees.ask_on {p₀ : LockPhase} (h : σ.Agrees) (hp₀ : σ.phases.find? tx = some p₀)
    (hq : p₀.query? = p.query?) (hs : LockTable.Spares (some tx) none σ.table l')
    (he : l'.entries = σ.table.entries) (hh : l'.held = σ.table.held)
    (hss : l'.sleepers = σ.table.sleepers) (hn : l'.nextTicket = σ.table.nextTicket)
    (hd : ∀ a ∈ σ.table.doomed, a ∈ l'.doomed)
    (hnew : ∀ a ∈ l'.doomed, a ∈ σ.table.doomed ∨ ∃ t, σ.table.On a t)
    (hst : l'.Stands tx p) : Turned (some tx) σ (σ.goOn tx p l') :=
  h.goOn_asking (LockTable.leaves_of_books hs he hh hss hd hnew) (h.filed.congr he hh hss hn) hp₀ hq
    hst

theorem Agrees.refused (h : σ.Agrees) (hk : q.Known σ.table tx) (hl : σ.table.Listed tx) :
    Turned (some tx) σ (σ.rest tx ((σ.table.stopWaiting q.target tx).rise q.ticket?)) := by
  have hlv : LockTable.Leaves (some tx) none σ.table
      ((σ.table.stopWaiting q.target tx).rise q.ticket?) :=
    (LockTable.leaves_stopWaiting ..).rise hk.fits
  refine h.rest hlv (h.filed.answered hk.fits rfl) fun t => ?_
  rw [LockTable.heldTargets_congr (LockTable.held_rise ..),
    LockTable.on_congr (LockTable.entries_rise ..), LockTable.stopWaiting, LockTable.on_setHolders]
  simp only [Holders.holds_unawait]
  split
  · rename_i ht
    exact ht ▸ hl t
  · exact hl t

theorem Agrees.parking (h : σ.Agrees) (hk : q.Known σ.table tx) (hl : σ.table.Listed tx) :
    Turned (some tx) σ (σ.rest tx (σ.table.park tx q)) := by
  have hr : LockTable.Respects none (fun _ => True) σ.table (σ.table.park tx q) :=
    LockTable.respects_park q
  refine h.rest (LockTable.leaves_park hk.fits) (h.filed.park hk) fun t => ?_
  rw [hr.listed tx nofun, ← hl t]
  exact exists_congr fun m => hr.holds t tx m nofun

theorem on_strip (l : LockTable) (t t' : Target) (tx : TxId) (ms : List Mode) :
    (l.strip t tx ms).On tx t' ↔ ∃ m, (l.holders t').Holds tx m ∧ ¬ (t' = t ∧ m ∈ ms) :=
  exists_congr fun m => by simp [LockTable.holds_strip]

theorem on_strip_of_ne (l : LockTable) {t t' : Target} (tx : TxId) (ms : List Mode) (h : t' ≠ t) :
    (l.strip t tx ms).On tx t' ↔ l.On tx t' :=
  (on_strip ..).trans (exists_congr fun _ => and_iff_left fun hc => h hc.1)

theorem on_strip_self (l : LockTable) (t : Target) (tx : TxId) (ms : List Mode) :
    (l.strip t tx ms).On tx t ↔ (((l.holders t).revokeAll tx ms).modesOf tx).isEmpty = false := by
  rw [on_strip, ← Bool.not_eq_true, List.isEmpty_iff, LockTable.modesOf_eq_nil]
  simp [Holders.holds_revokeAll]

theorem Agrees.releasing {ms : List Mode} {t : Target} {ts : List Target} {leaving : Bool}
    (h : σ.Agrees) (hp : σ.phases.find? tx = some (.releasing ms (t :: ts) leaving))
    (hs : σ.advance tx (.releasing ms (t :: ts) leaving) = some τ) : Turned (some tx) σ τ := by
  obtain ⟨hz, hlist, hall⟩ := h.stands tx _ hp
  rw [Scene.advance] at hs
  split at hs
  · rename_i hfree
    have hz' : ¬ (σ.table.strip t tx ms).Sleeps tx :=
      LockTable.not_sleeps_mono (@LockTable.spares_strip none ..) (fun h => by cases h) hz
    have hleave : leaving = true → ms = Mode.all ∧
        ∀ t', (σ.table.strip t tx ms).On tx t' → t' ∈ ts := fun hv => by
      obtain ⟨rfl, hin⟩ := hall hv
      refine ⟨rfl, fun t' ho => ?_⟩
      have ht : t' ≠ t := by
        rintro rfl
        obtain ⟨m, -, hno⟩ := (on_strip ..).1 ho
        exact hno ⟨rfl, m.mem_all⟩
      exact List.mem_of_ne_of_mem ht (hin t' ((on_strip_of_ne _ _ _ ht).1 ho))
    have hlisted : ∀ t', t' ≠ t →
        ((σ.table.strip t tx ms).On tx t' ↔ t' ∈ σ.table.heldTargets tx) :=
      fun t' ht => (on_strip_of_ne _ _ _ ht).trans (hlist t')
    cases hs
    refine h.goOn_calm (LockTable.leaves_strip σ.table t tx ms) ?_ (h.filed.strip ..)
      (by split <;> rfl) ?_
    · rintro x ⟨⟩
      exact hfree
    · split
      · rename_i hnone
        refine ⟨hz', fun t' => ?_, hleave⟩
        by_cases ht : t' = t
        · subst ht
          rw [on_strip_self, hnone]
          simp
        · rw [hlisted t' ht, and_iff_left ht]
          rfl
      · rename_i hsome
        refine ⟨hz', fun t' => ?_, hleave⟩
        by_cases ht : t' = t
        · subst ht
          have ho : (σ.table.strip t' tx ms).On tx t' := by
            rw [on_strip_self]
            exact Bool.eq_false_iff.2 hsome
          obtain ⟨m, hm, -⟩ := (on_strip ..).1 ho
          exact iff_of_true ho ((hlist t').1 ⟨m, hm⟩)
        · exact hlisted t' ht
  · cases hs

theorem Agrees.calm (h : σ.Agrees) (l' : LockTable)
    (hs : LockTable.Spares (some tx) none σ.table l') (he : l'.entries = σ.table.entries)
    (hd : l'.doomed = σ.table.doomed) (hss : l'.sleepers = σ.table.sleepers)
    (hh : ∀ a, a ≠ tx → l'.heldTargets a = σ.table.heldTargets a) (hf : l'.Filed) :
    (∀ p : LockPhase, p.query? = none → l'.Stands tx p → Turned (some tx) σ (σ.goOn tx p l')) ∧
      (l'.Listed tx → Turned (some tx) σ (σ.rest tx l')) :=
  ⟨fun _ hq hst => h.goOn_calm (LockTable.leaves_held hs he hd hss hh) nofun hf hq hst,
    fun hl => h.rest (LockTable.leaves_held hs he hd hss hh) hf hl⟩

theorem Agrees.advance (h : σ.Agrees) (hp : σ.phases.find? tx = some p)
    (hs : σ.advance tx p = some τ) : Turned (some tx) σ τ := by
  have hst := h.stands tx p hp
  have hsame : LockTable.Spares (some tx) none σ.table σ.table := .refl _ _
  cases p with
  | recording q bs =>
    obtain ⟨hk, hl, hb⟩ := hst
    cases hs
    exact h.ask_on hp rfl (LockTable.spares_blocked ..) rfl rfl rfl rfl (fun _ => id)
      (fun _ => .inl) ⟨⟨⟨hk.fits.issued, hk.fits.own⟩, hk.asleep⟩, hl, hb⟩
  | checking q bs =>
    obtain ⟨hk, hl, hb⟩ := hst
    rw [Scene.advance] at hs
    split at hs <;> cases hs
    · exact h.refused hk hl
    · exact h.ask_on hp rfl hsame rfl rfl rfl rfl (fun _ => id) (fun _ => .inl)
        ⟨hk, hl, fun b hm => hb b (List.mem_filter.1 hm).1⟩
  | wounding q vs =>
    obtain ⟨hk, hl, hb⟩ := hst
    cases vs with
    | nil =>
      cases hs
      exact h.parking hk hl
    | cons v vs =>
      rw [Scene.advance] at hs
      split at hs <;> cases hs
      · exact h.ask_on hp rfl hsame rfl rfl rfl rfl (fun _ => id) (fun _ => .inl)
          ⟨hk, hl, fun b hm => hb b (List.mem_cons_of_mem v hm)⟩
      · refine h.ask_on hp rfl { hsame with } rfl rfl rfl rfl
          (fun a ha => List.mem_cons_of_mem v ha) (fun a ha => ?_)
          ⟨⟨⟨hk.fits.issued, hk.fits.own⟩, hk.asleep⟩, hl, hb⟩
        rcases List.mem_cons.1 ha with rfl | ha
        · exact .inr ⟨_, hb a List.mem_cons_self⟩
        · exact .inl ha
  | posting q v vs =>
    obtain ⟨hk, hl, hb⟩ := hst
    rw [Scene.advance] at hs
    split at hs <;> cases hs
    exact h.ask_on hp rfl { hsame with } rfl rfl rfl rfl (fun _ => id) (fun _ => .inl)
      ⟨⟨⟨hk.fits.issued, hk.fits.own⟩, hk.asleep⟩, hl, fun b hm => hb b (List.mem_cons_of_mem v hm)⟩
  | unrecording t =>
    cases hs
    exact (h.calm _ (LockTable.spares_forgetAnchor ..) rfl rfl rfl (fun _ _ => rfl)
      (h.filed.congr rfl rfl rfl rfl)).1 _ rfl hst
  | listing t =>
    cases hs
    refine (h.calm (σ.table.addHeld tx t) { hsame with } rfl rfl rfl (fun a ha => ?_)
      (h.filed.addHeld tx t)).2
      fun t' => ?_
    · rw [LockTable.heldTargets_addHeld, if_neg ha]
    · rw [LockTable.heldTargets_addHeld, if_pos rfl, List.mem_insert_iff, or_comm]
      exact hst.2 t'
  | releasing ms ts leaving =>
    obtain ⟨hz, hl, hall⟩ := hst
    cases ts with
    | nil =>
      cases leaving with
      | false =>
        cases hs
        exact (h.calm _ hsame rfl rfl rfl (fun _ _ => rfl) h.filed).2 hl
      | true =>
        cases hs
        refine (h.calm _ hsame rfl rfl rfl (fun _ _ => rfl) h.filed).1 _ rfl ⟨hz, hl, ?_⟩
        exact fun t ho => List.not_mem_nil ((hall rfl).2 t ho)
    | cons t ts => exact h.releasing hp hs
  | unlisting t ms ts leaving =>
    obtain ⟨hz, hl, hall⟩ := hst
    cases hs
    refine (h.calm (σ.table.dropHeld tx t) { hsame with } rfl rfl rfl (fun a ha => ?_)
      (h.filed.dropHeld tx t)).1 _ rfl ⟨hz, fun t' => ?_, hall⟩
    · rw [LockTable.heldTargets_dropHeld, if_neg ha]
    · rw [LockTable.heldTargets_dropHeld, if_pos rfl, List.mem_filter, decide_eq_true_eq]
      exact hl t'
  | disowning =>
    obtain ⟨hz, hl, hno⟩ := hst
    have hheld : ∀ a, LockTable.heldTargets { σ.table with held := σ.table.held.erase tx } a =
        if a = tx then [] else σ.table.heldTargets a := fun a => by
      simp only [LockTable.heldTargets, Registry.find?_erase]
      split <;> rfl
    cases hs
    refine (h.calm { σ.table with held := σ.table.held.erase tx } { hsame with } rfl rfl rfl
      (fun a ha => ?_) (h.filed.disown tx)).1 _ rfl ⟨hz, fun t => ?_, hno⟩
    · rw [hheld, if_neg ha]
    · rw [hheld, if_pos rfl]
      exact iff_of_false (hno t) List.not_mem_nil
  | pardoning =>
    obtain ⟨hz, hl, hno⟩ := hst
    cases hs
    refine h.goOn_calm (LockTable.leaves_of_eq { hsame with }
      (LockTable.respects_pardon fun t m hm => hno t ⟨m, hm⟩) rfl fun a ha => ?_)
      (fun x hx => by cases hx) (h.filed.congr rfl rfl rfl rfl) rfl ⟨hz, hl, hno⟩
    exact .inl (List.mem_filter.1 ha).1
  | forgetting =>
    cases hs
    exact (h.calm _ (LockTable.spares_forgetAnchor ..) rfl rfl rfl (fun _ _ => rfl)
      (h.filed.congr rfl rfl rfl rfl)).2 hst.2.1

theorem Agrees.courier {c : Option Parcel} (h : σ.Agrees)
    (hl : LockTable.Leaves none woken σ.table l') (hfree : ∀ x, woken = some x → σ.isFree x)
    (hf : l'.Filed) : Turned none σ { σ with table := l', parcel := c } :=
  h.pass ⟨hl, fun _ _ => rfl, hfree⟩ hf nofun

theorem Agrees.release (h : σ.Agrees) (hi : σ.phases.find? tx = none ∧ ¬ σ.table.Sleeps tx)
    {ms : List Mode} {ts : List Target} {leaving : Bool}
    (hall : leaving = true → ms = Mode.all ∧ ∀ t, σ.table.On tx t → t ∈ ts) :
    Turned (some tx) σ (σ.goOn tx (.releasing ms ts leaving) σ.table) :=
  h.goOn_calm (.refl _ _) nofun h.filed rfl ⟨hi.2, h.listed tx hi.1, hall⟩

theorem Agrees.visit (h : σ.Agrees) (hi : σ.phases.find? tx = none ∧ ¬ σ.table.Sleeps tx)
    {sharedOnly : Bool} {ts : List Target} (ht : ts.Perm (σ.table.heldTargets tx)) :
    Turned (some tx) σ
      (σ.goOn tx (.releasing (LockTable.given sharedOnly) ts (!sharedOnly)) σ.table) := by
  refine h.release hi fun hv => ?_
  obtain rfl : sharedOnly = false := by simpa using hv
  exact ⟨rfl, fun t ho => ht.mem_iff.2 ((h.listed tx hi.1 t).1 ho)⟩

theorem Agrees.move {m : LockMove} (h : σ.Agrees) (hm : σ.move m = some τ) :
    Turned ((LockTurn.move m).mover? σ.table) σ τ := by
  cases m with
  | ask t tx m =>
    simp only [Scene.move] at hm
    split at hm
    · rename_i hi
      cases hm
      obtain ⟨hn, hz⟩ := not_sleeps_of_isIdle hi.1
      refine h.consider ⟨⟨fun k hk => (by cases hk), fun s hs hx => ?_⟩, fun k hk => by cases hk⟩
        hn hi.2
      rcases hx with hx | hx
      · exact absurd ⟨s, hs, hx⟩ hz
      · cases hx
    · cases hm
  | relook ticket =>
    simp only [Scene.move] at hm
    split at hm
    · cases hm
    · rename_i s hs
      split at hm
      · rename_i hi
        cases hm
        obtain ⟨hsm, rfl⟩ := LockTable.mem_sleeper hs
        have hfits : Query.Fits { target := s.target, mode := s.mode, ticket? := some s.ticket }
            σ.table s.tx := by
          refine ⟨?_, fun u hu hx => ?_⟩
          · rintro k ⟨⟩
            exact h.filed.tidy.below s hsm
          · have hus : u = s := hx.elim (h.filed.tidy.byTx u hu s hsm)
              fun e => h.filed.tidy.byTicket u hu s hsm (Option.some.inj e).symm
            subst hus
            exact ⟨rfl, rfl, rfl, rfl⟩
        have hmover : (LockTurn.move (.relook s.ticket)).mover? σ.table = some s.tx :=
          congrArg (Option.map Sleeper.tx) hs
        rw [hmover]
        refine h.consider ⟨hfits, ?_⟩ (Option.isNone_iff_eq_none.1 hi.1) hi.2
        rintro k ⟨⟩
        exact ⟨s, hsm, rfl⟩
      · cases hm
  | release t tx ms =>
    simp only [Scene.move] at hm
    split at hm
    · rename_i hi
      cases hm
      exact h.release (not_sleeps_of_isIdle hi) fun hv => by cases hv
    · cases hm
  | releaseAll tx sharedOnly =>
    simp only [Scene.move] at hm
    split at hm
    · rename_i hi
      cases hm
      exact h.visit (not_sleeps_of_isIdle hi) (.refl _)
    · cases hm
  | advance tx =>
    simp only [Scene.move] at hm
    split at hm
    · cases hm
    · rename_i p hp
      exact h.advance hp hm
  | fetch =>
    simp only [Scene.move] at hm
    split at hm
    · cases hm
      exact h.courier (LockTable.leaves_of_books { LockTable.Spares.refl none σ.table with } rfl rfl
        rfl (fun _ => id) fun _ => .inl) (fun x hx => by cases hx) (h.filed.congr rfl rfl rfl rfl)
    · cases hm
  | address =>
    simp only [Scene.move] at hm
    split at hm
    · cases hm
      exact h.courier (.refl _ _) (fun x hx => by cases hx) h.filed
    · cases hm
  | wake =>
    simp only [Scene.move] at hm
    split at hm
    · split at hm
      · rename_i anchor _ ha
        cases hm
        refine h.courier (LockTable.leaves_wakeAnchor ..) ?_ (h.filed.wakeAnchor anchor)
        rintro x ⟨⟩
        exact ha
      · cases hm
    · cases hm

/-- The books are right after every turn, and those of all but the one whose turn it is are as they
were. -/
theorem Agrees.turn {e : LockTurn} (h : σ.Agrees) (he : σ.turn e = some τ) :
    Turned (e.mover? σ.table) σ τ := by
  cases e with
  | move m => exact h.move he
  | expire tx =>
    obtain ⟨q, hp, rfl⟩ := expire_eq_some he
    obtain ⟨hk, hl, -⟩ := h.stands tx _ hp
    exact h.refused hk hl
  | skip tx =>
    obtain ⟨q, v, vs, hp, rfl⟩ := skip_eq_some he
    obtain ⟨hk, hl, hb⟩ := h.stands tx _ hp
    exact h.ask_on hp rfl (.refl _ _) rfl rfl rfl rfl (fun _ => id) (fun _ => .inl)
      ⟨hk, hl, fun b hm => hb b (List.mem_cons_of_mem v hm)⟩
  | visit tx sharedOnly ts =>
    obtain ⟨hi, ht, rfl⟩ := visit_eq_some he
    exact h.visit hi ht

theorem Agrees.turns {es : List LockTurn} (h : σ.Agrees) (he : σ.turns es = some τ) :
    τ.Agrees := by
  induction es generalizing σ with
  | nil =>
    cases he
    exact h
  | cons e es ih =>
    obtain ⟨υ, hu, he⟩ := Option.bind_eq_some_iff.1 he
    exact ih (h.turn hu).agrees he

theorem agrees_blank (place : Target → Nat) (anchors maxWait capacity : Nat) :
    (still (.blank place anchors maxWait capacity)).Agrees where
  filed := LockTable.filed_blank ..
  apart _ _ _ _ _ _ hp := by cases hp
  stands _ _ hp := by cases hp
  listed _ _ t := iff_of_false (fun ⟨_, hm⟩ => Holders.not_holds_none hm) List.not_mem_nil

end Scene

end PagedStore
