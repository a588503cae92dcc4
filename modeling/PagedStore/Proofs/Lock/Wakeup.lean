import PagedStore.Proofs.Lock.Phases

set_option autoImplicit false

/-!
No wakeup is lost, whatever comes between the steps of a call. Main statement: `no_lost_wakeup`. The
invariant `Scene.Sound` says of every transaction that has passed the last look at its own doom, and
of every request that sleeps and is not to look again, that its anchor is on record, that somebody
is in its way, and that if it is doomed its wakeup is on the way to that anchor.
-/

namespace PagedStore

namespace Scene

/-- A wakeup of a transaction that is recorded at an anchor is under way. -/
inductive Heralded (σ : Scene) (tx : TxId) (anchor : Nat) : Prop where
  | posting {b : TxId} {q : Query} {vs : List TxId}
      (h : σ.phases.find? b = some (.posting q tx vs))
  | queued (h : tx ∈ σ.table.wakeups.queue)
  | taken (h : σ.parcel = some (.wakeup tx))
  | addressed (h : σ.parcel = some (.addressed anchor))

/-- A request that may sleep on. -/
structure Watched (σ : Scene) (tx : TxId) (t : Target) (m : Mode) : Prop where
  recorded : σ.table.lastAnchor.find? tx = some (σ.table.anchorOf t)
  blocked : (σ.table.holders t).blockers tx m ≠ []
  heralded : tx ∈ σ.table.doomed → σ.Heralded tx (σ.table.anchorOf t)

end Scene

structure Query.Fits (q : Query) (l : LockTable) (tx : TxId) : Prop where
  issued : ∀ k, q.ticket? = some k → k < l.nextTicket
  own : ∀ s ∈ l.sleepers, s.tx = tx ∨ q.ticket? = some s.ticket →
    s.tx = tx ∧ q.ticket? = some s.ticket ∧ s.target = q.target ∧ s.mode = q.mode

namespace Scene

/-- What is known of a transaction in a phase of a call. -/
def Called (σ : Scene) (tx : TxId) : LockPhase → Prop
  | .recording q _ =>
    q.Fits σ.table tx ∧ (σ.table.holders q.target).blockers tx q.mode ≠ []
  | .checking q _ =>
    q.Fits σ.table tx ∧ (σ.table.holders q.target).blockers tx q.mode ≠ [] ∧
      σ.table.lastAnchor.find? tx = some (σ.table.anchorOf q.target)
  | .wounding q _ | .posting q _ _ => q.Fits σ.table tx ∧ σ.Watched tx q.target q.mode
  | .unrecording _ | .listing _ | .releasing .. | .unlisting .. => ¬ σ.table.Sleeps tx
  | .disowning | .pardoning | .forgetting => ¬ σ.table.Sleeps tx

/-- What holds in every scene that the steps can lead to. -/
structure Sound (σ : Scene) : Prop where
  tidy : LockTable.Tidy σ.table.nextTicket σ.table.sleepers
  apart : ∀ a b p p' x, a ≠ b → σ.phases.find? a = some p → σ.phases.find? b = some p' →
    p.anchor? σ.table = some x → p'.anchor? σ.table ≠ some x
  called : ∀ tx p, σ.phases.find? tx = some p → σ.Called tx p
  watched : ∀ s ∈ σ.table.sleepers, σ.phases.find? s.tx = none → s.notified = false →
    σ.Watched s.tx s.target s.mode

end Scene

/-- What a step of `mover` that wakes the anchor `woken` does to a table, as far as others care. -/
structure LockTable.Spares (mover : Option TxId) (woken : Option Nat) (l l' : LockTable) :
    Prop where
  anchorOf : ∀ t, l'.anchorOf t = l.anchorOf t
  holds : ∀ t a m, some (l.anchorOf t) ≠ woken → (l.holders t).Holds a m → (l'.holders t).Holds a m
  tickets : l.nextTicket ≤ l'.nextTicket
  recorded : ∀ a, some a ≠ mover → l'.lastAnchor.find? a = l.lastAnchor.find? a
  sleepers : ∀ s ∈ l'.sleepers,
    (∃ n, { s with notified := n } ∈ l.sleepers ∧ (some s.tx ≠ mover → s.notified = false →
      n = false ∧ some (l.anchorOf s.target) ≠ woken)) ∨
    (mover = some s.tx ∧ s.ticket = l.nextTicket)

namespace LockTable

variable {l l' : LockTable} {tx : TxId} {mover : Option TxId} {woken : Option Nat}

theorem Spares.refl (mover : Option TxId) (l : LockTable) : Spares mover none l l where
  anchorOf _ := rfl
  holds _ _ _ _ := id
  tickets := Nat.le_refl _
  recorded _ _ := rfl
  sleepers s hs := .inl ⟨s.notified, hs, fun _ hn => ⟨hn, nofun⟩⟩

theorem spares_blocked (l : LockTable) (t : Target) (tx : TxId) :
    Spares (some tx) none l (l.blocked t tx) :=
  { Spares.refl _ l with
    recorded := fun _ ha => Registry.find?_insert_of_ne _ _ fun e => ha (congrArg some e) }

theorem spares_setHolders {t : Target} {h : Holders}
    (hh : ∀ a m, (l.holders t).Holds a m → h.Holds a m) :
    Spares mover none l (l.setHolders t h) :=
  { Spares.refl _ l with
    holds := fun t' a m _ ha => by
      rw [holders_setHolders]
      split
      · rename_i ht
        exact hh a m (ht ▸ ha)
      · exact ha }

theorem spares_forgetAnchor (l : LockTable) (tx : TxId) :
    Spares (some tx) none l { l with lastAnchor := l.lastAnchor.erase tx } :=
  { Spares.refl _ l with
    recorded := fun _ ha => Registry.find?_erase_of_ne _ fun e => ha (congrArg some e) }

theorem sleepers_rise (l : LockTable) (k : Option Nat) {s : Sleeper} :
    s ∈ (l.rise k).sleepers ↔ s ∈ l.sleepers ∧ k ≠ some s.ticket := by
  cases k with
  | none => exact ⟨fun h => ⟨h, nofun⟩, And.left⟩
  | some k =>
    rw [rise, removeSleeper, List.mem_filter, decide_eq_true_eq, ne_comm, ne_eq, ne_eq,
      Option.some.injEq]

theorem Spares.rise (h : Spares mover none l l') (k : Option Nat) :
    Spares mover none l (l'.rise k) := by
  have hs : ∀ s ∈ (l'.rise k).sleepers, s ∈ l'.sleepers :=
    fun s hs => ((sleepers_rise l' k).1 hs).1
  cases k with
  | none => exact h
  | some k => exact { h with sleepers := fun s hm => h.sleepers s (hs s hm) }

theorem spares_wakeAnchor (l : LockTable) (anchor : Nat) :
    Spares mover (some anchor) l (l.wakeAnchor anchor) :=
  { Spares.refl mover l with
    holds := fun _ _ _ _ => id
    sleepers := fun s hs => by
      obtain ⟨u, hu, rfl⟩ := List.mem_map.1 hs
      left
      by_cases ha : l.anchorOf u.target = anchor
      · rw [if_pos ha]
        exact ⟨u.notified, hu, nofun⟩
      · rw [if_neg ha]
        exact ⟨u.notified, hu, fun _ hn => ⟨hn, fun e => ha (Option.some.inj e)⟩⟩ }

theorem spares_strip (l : LockTable) (t : Target) (tx : TxId) (ms : List Mode) :
    Spares mover (some (l.anchorOf t)) l (l.strip t tx ms) :=
  { spares_wakeAnchor l (l.anchorOf t) with
    holds := fun t' a m ht ha => by
      have hne : t' ≠ t := fun e => ht (e ▸ rfl)
      show ((l.setHolders t _).holders t').Holds a m
      rwa [holders_setHolders, if_neg hne] }

theorem spares_park {q : Query} (hf : q.Fits l tx) : Spares (some tx) none l (l.park tx q) := by
  have hh : Spares (some tx) none l (l.setHolders q.target ((l.holders q.target).await tx)) :=
    spares_setHolders fun a m ha => Holders.holds_await.2 ha
  obtain ⟨t, m, ticket?⟩ := q
  cases ticket? with
  | none =>
    exact { hh with
      tickets := Nat.le_succ _
      sleepers := fun s hs => by
        rcases List.mem_append.1 hs with hs | hs
        · exact hh.sleepers s hs
        · obtain rfl := List.mem_singleton.1 hs
          exact .inr ⟨rfl, rfl⟩ }
  | some ticket =>
    exact { hh with
      sleepers := fun s hs => by
        obtain ⟨u, hu, rfl⟩ := List.mem_map.1 hs
        by_cases ht : u.ticket = ticket
        · have hx : u.tx = tx := (hf.own u hu (.inr (congrArg some ht.symm))).1
          rw [if_pos ht]
          exact .inl ⟨u.notified, hu, fun hne => absurd (congrArg some hx) hne⟩
        · rw [if_neg ht]
          exact hh.sleepers u hu }

theorem Spares.blockers (hs : Spares mover woken l l') {t : Target} {m : Mode}
    (ht : some (l.anchorOf t) ≠ woken) (h : (l.holders t).blockers tx m ≠ []) :
    (l'.holders t).blockers tx m ≠ [] := by
  obtain ⟨b, hb⟩ := List.exists_mem_of_ne_nil _ h
  obtain ⟨hne, n, hn, hc⟩ := Holders.mem_blockers.1 hb
  exact List.ne_nil_of_mem (Holders.mem_blockers.2 ⟨hne, n, hs.holds t b n ht hn, hc⟩)

theorem not_sleeps_mono (hs : Spares mover woken l l') (hne : some tx ≠ mover)
    (h : ¬ l.Sleeps tx) : ¬ l'.Sleeps tx := by
  rintro ⟨s, hm, hx⟩
  rcases hs.sleepers s hm with ⟨n, hn, -⟩ | ⟨he, -⟩
  · exact h ⟨_, hn, hx⟩
  · exact hne (hx ▸ he.symm)

theorem wakeups_rise (l : LockTable) (k : Option Nat) : (l.rise k).wakeups = l.wakeups := by
  cases k <;> rfl

theorem doomed_rise (l : LockTable) (k : Option Nat) : (l.rise k).doomed = l.doomed := by
  cases k <;> rfl

theorem doomed_park (l : LockTable) (tx : TxId) (q : Query) : (l.park tx q).doomed = l.doomed := by
  unfold park
  split <;> rfl

theorem tidy_rise {k : Option Nat} (h : Tidy l.nextTicket l.sleepers) :
    Tidy (l.rise k).nextTicket (l.rise k).sleepers := by
  cases k with
  | none => exact h
  | some k => exact h.filter _

theorem tidy_wakeAnchor {anchor : Nat} (h : Tidy l.nextTicket l.sleepers) :
    Tidy (l.wakeAnchor anchor).nextTicket (l.wakeAnchor anchor).sleepers :=
  h.map (fun s => by split <;> rfl) (fun s => by split <;> rfl)

theorem tidy_park {q : Query} (h : Tidy l.nextTicket l.sleepers) (hf : q.Fits l tx) :
    Tidy (l.park tx q).nextTicket (l.park tx q).sleepers := by
  obtain ⟨t, m, ticket?⟩ := q
  cases ticket? with
  | none =>
    refine h.snoc rfl fun s hs hx => ?_
    cases (hf.own s hs (.inl hx)).2.1
  | some ticket => exact h.map (fun s => by split <;> rfl) (fun s => by split <;> rfl)

theorem not_sleeps_rise {q : Query} (hf : q.Fits l tx) : ¬ (l.rise q.ticket?).Sleeps tx := by
  rintro ⟨s, hs, hx⟩
  obtain ⟨hm, hne⟩ := (sleepers_rise l _).1 hs
  exact hne (hf.own s hm (.inl hx)).2.1

theorem eq_of_mem_park {q : Query} {s : Sleeper} (hf : q.Fits l tx)
    (hs : s ∈ (l.park tx q).sleepers) (hx : s.tx = tx) : s.target = q.target ∧ s.mode = q.mode := by
  obtain ⟨t, m, ticket?⟩ := q
  cases ticket? with
  | none =>
    rcases List.mem_append.1 hs with hs | hs
    · exact (hf.own s hs (.inl hx)).2.2
    · obtain rfl := List.mem_singleton.1 hs
      exact ⟨rfl, rfl⟩
  | some ticket =>
    obtain ⟨u, hu, rfl⟩ := List.mem_map.1 hs
    split at hx
    · rename_i ht
      rw [if_pos ht]
      exact (hf.own u hu (.inl hx)).2.2
    · rename_i ht
      rw [if_neg ht]
      exact (hf.own u hu (.inl hx)).2.2

end LockTable

namespace Scene

variable {σ τ : Scene} {tx : TxId} {mover : Option TxId} {woken : Option Nat}

/-- What a step of `mover` that wakes the anchor `woken` leaves as it was. -/
structure Passes (mover : Option TxId) (woken : Option Nat) (σ τ : Scene) : Prop where
  spares : LockTable.Spares mover woken σ.table τ.table
  phases : ∀ a, some a ≠ mover → τ.phases.find? a = σ.phases.find? a
  doomed : ∀ a ∈ τ.table.doomed,
    a ∈ σ.table.doomed ∨ ∃ b q vs, τ.phases.find? b = some (.posting q a vs)
  heralded : ∀ a x, some x ≠ woken → σ.table.lastAnchor.find? a = some x →
    σ.Heralded a x → τ.Heralded a x

theorem Watched.mono {t : Target} {m : Mode} (h : σ.Watched tx t m) (hp : Passes mover woken σ τ)
    (hr : τ.table.lastAnchor.find? tx = σ.table.lastAnchor.find? tx)
    (hw : some (σ.table.anchorOf t) ≠ woken) : τ.Watched tx t m where
  recorded := by rw [hr, hp.spares.anchorOf, h.recorded]
  blocked := hp.spares.blockers hw h.blocked
  heralded hd := by
    rw [hp.spares.anchorOf]
    rcases hp.doomed tx hd with ho | ⟨b, q, vs, hv⟩
    · exact hp.heralded tx _ hw h.recorded (h.heralded ho)
    · exact .posting hv

theorem anchor?_congr {p : LockPhase} (hs : LockTable.Spares mover woken σ.table τ.table) :
    p.anchor? τ.table = p.anchor? σ.table :=
  congrArg (fun f => p.query?.map f) (funext fun q => hs.anchorOf q.target)

end Scene

theorem Query.Fits.mono {q : Query} {l l' : LockTable} {tx : TxId} {mover : Option TxId}
    {woken : Option Nat} (h : q.Fits l tx) (hs : LockTable.Spares mover woken l l')
    (hne : some tx ≠ mover) : q.Fits l' tx where
  issued k hk := Nat.lt_of_lt_of_le (h.issued k hk) hs.tickets
  own s hm hx := by
    rcases hs.sleepers s hm with ⟨n, hn, -⟩ | ⟨rfl, hnew⟩
    · exact h.own { s with notified := n } hn hx
    · rcases hx with hx | hx
      · exact absurd (congrArg some hx.symm) hne
      · have := h.issued _ hx
        omega

theorem Query.Fits.setHolders {q : Query} {l : LockTable} {tx : TxId} (h : q.Fits l tx)
    (t : Target) (hs : Holders) : q.Fits (l.setHolders t hs) tx := ⟨h.issued, h.own⟩

namespace Scene

variable {σ τ : Scene} {tx : TxId} {mover : Option TxId} {woken : Option Nat}

/-- A step of another leaves true what is known of a transaction in a call whose anchor it does not
wake. -/
theorem Called.mono {p : LockPhase} (h : σ.Called tx p) (hp : Passes mover woken σ τ)
    (hne : some tx ≠ mover) (hw : ∀ x, p.anchor? σ.table = some x → some x ≠ woken) :
    τ.Called tx p := by
  have hr := hp.spares.recorded tx hne
  cases p with
  | recording q bs => exact ⟨h.1.mono hp.spares hne, hp.spares.blockers (hw _ rfl) h.2⟩
  | checking q bs =>
    refine ⟨h.1.mono hp.spares hne, hp.spares.blockers (hw _ rfl) h.2.1, ?_⟩
    rw [hr, hp.spares.anchorOf, h.2.2]
  | wounding q vs => exact ⟨h.1.mono hp.spares hne, h.2.mono hp hr (hw _ rfl)⟩
  | posting q v vs => exact ⟨h.1.mono hp.spares hne, h.2.mono hp hr (hw _ rfl)⟩
  | unrecording | listing | releasing | unlisting | disowning | pardoning | forgetting =>
    exact LockTable.not_sleeps_mono hp.spares hne h

theorem ne_anchor_of_isFree {p : LockPhase} {x : Nat} (h : σ.isFree x)
    (hp : σ.phases.find? tx = some p) : p.anchor? σ.table ≠ some x := by
  obtain ⟨e, he, rfl⟩ := Option.map_eq_some_iff.1 hp
  exact of_decide_eq_true (List.all_eq_true.1 h e (List.mem_of_find?_eq_some he))

/-- No two calls keep one anchor. -/
def Apart (σ : Scene) : Prop :=
  ∀ a b p p' x, a ≠ b → σ.phases.find? a = some p → σ.phases.find? b = some p' →
    p.anchor? σ.table = some x → p'.anchor? σ.table ≠ some x

/-- Calls stay apart where the anchor that the mover keeps was its own or nobody's. -/
theorem Apart.pass (h : σ.Apart) (hanchor : ∀ p : LockPhase, p.anchor? τ.table = p.anchor? σ.table)
    (hp : ∀ a, some a ≠ mover → τ.phases.find? a = σ.phases.find? a)
    (hk : ∀ tx p x, some tx = mover → τ.phases.find? tx = some p → p.anchor? τ.table = some x →
      (∃ p₀, σ.phases.find? tx = some p₀ ∧ p₀.anchor? σ.table = some x) ∨ σ.isFree x) :
    τ.Apart := by
  have hmover : ∀ a b p p' x, some a = mover → a ≠ b → τ.phases.find? a = some p →
      τ.phases.find? b = some p' → p.anchor? τ.table = some x → p'.anchor? τ.table ≠ some x := by
    intro a b p p' x ha hne hpa hpb hx
    have hbm : some b ≠ mover := fun e => hne (Option.some.inj (ha.trans e.symm))
    rw [hp b hbm] at hpb
    rw [hanchor]
    rcases hk a p x ha hpa hx with ⟨p₀, hp₀, hx₀⟩ | hx₀
    · exact h a b p₀ p' x hne hp₀ hpb hx₀
    · exact ne_anchor_of_isFree hx₀ hpb
  intro a b p p' x hne hpa hpb hx hx'
  by_cases ha : some a = mover
  · exact hmover a b p p' x ha hne hpa hpb hx hx'
  · by_cases hb : some b = mover
    · exact hmover b a p' p x hb hne.symm hpb hpa hx' hx
    · rw [hp a ha] at hpa
      rw [hp b hb] at hpb
      rw [hanchor] at hx hx'
      exact h a b p p' x hne hpa hpb hx hx'

/-- What the one who moves has to show: the anchor it keeps was its own or nobody's, and the
invariant holds of itself. -/
structure Settled (σ τ : Scene) (tx : TxId) : Prop where
  kept : ∀ p x, τ.phases.find? tx = some p → p.anchor? τ.table = some x →
    (∃ p₀, σ.phases.find? tx = some p₀ ∧ p₀.anchor? σ.table = some x) ∨ σ.isFree x
  called : ∀ p, τ.phases.find? tx = some p → τ.Called tx p
  watched : τ.phases.find? tx = none → ∀ s ∈ τ.table.sleepers, s.tx = tx → s.notified = false →
    τ.Watched s.tx s.target s.mode

theorem Sound.pass (h : σ.Sound) (hp : Passes mover woken σ τ)
    (hfree : ∀ x, woken = some x → σ.isFree x)
    (htidy : LockTable.Tidy τ.table.nextTicket τ.table.sleepers)
    (hown : ∀ tx, some tx = mover → Settled σ τ tx) : τ.Sound := by
  have hoff : ∀ a p x, σ.phases.find? a = some p → p.anchor? σ.table = some x →
      some x ≠ woken :=
    fun a p x ha hx hw => ne_anchor_of_isFree (hfree x hw.symm) ha hx
  constructor
  · exact htidy
  · exact Apart.pass h.apart (fun p => anchor?_congr hp.spares) hp.phases
      fun tx p x hm => (hown tx hm).kept p x
  · intro tx p hpt
    by_cases hm : some tx = mover
    · exact (hown tx hm).called p hpt
    · rw [hp.phases tx hm] at hpt
      exact (h.called tx p hpt).mono hp hm fun x => hoff tx p x hpt
  · intro s hs hn hq
    by_cases hm : some s.tx = mover
    · exact (hown s.tx hm).watched hn s hs rfl hq
    · rw [hp.phases s.tx hm] at hn
      rcases hp.spares.sleepers s hs with ⟨n, hsn, hk⟩ | ⟨he, -⟩
      · obtain ⟨rfl, hw⟩ := hk hm hq
        exact (h.watched _ hsn hn rfl).mono hp (hp.spares.recorded s.tx hm) hw
      · exact absurd he.symm hm

theorem find?_goOn {l' : LockTable} {p : LockPhase} (a : TxId) :
    (σ.goOn tx p l').phases.find? a = if a = tx then some p else σ.phases.find? a :=
  Registry.find?_insert ..

theorem find?_rest {l' : LockTable} (a : TxId) :
    (σ.rest tx l').phases.find? a = if a = tx then none else σ.phases.find? a :=
  Registry.find?_erase ..

/-- A step that changes nothing but the table and the mover's phase hands no wakeup on, unless it
queues the one that it has been posting. -/
theorem heralded_mono {a : TxId} {x : Nat} (h : σ.Heralded a x) (hc : τ.parcel = σ.parcel)
    (hps : ∀ b, b ≠ tx → τ.phases.find? b = σ.phases.find? b)
    (hq : ∀ v ∈ σ.table.wakeups.queue, v ∈ τ.table.wakeups.queue)
    (hv : ∀ q vs, σ.phases.find? tx = some (.posting q a vs) → a ∈ τ.table.wakeups.queue) :
    τ.Heralded a x := by
  cases h with
  | @posting b q vs hb =>
    by_cases he : b = tx
    · exact .queued (hv q vs (he ▸ hb))
    · exact .posting ((hps b he).trans hb)
  | queued h => exact .queued (hq a h)
  | taken h => exact .taken (hc.trans h)
  | addressed h => exact .addressed (hc.trans h)

theorem passes_goOn {l' : LockTable} {p : LockPhase}
    (hs : LockTable.Spares (some tx) woken σ.table l')
    (hq : ∀ v ∈ σ.table.wakeups.queue, v ∈ l'.wakeups.queue)
    (hd : ∀ a ∈ l'.doomed, a ∈ σ.table.doomed ∨ ∃ q vs, p = .posting q a vs)
    (hv : ∀ q v vs, σ.phases.find? tx = some (.posting q v vs) → v ∈ l'.wakeups.queue) :
    Passes (some tx) woken σ (σ.goOn tx p l') := by
  have hps : ∀ b, b ≠ tx → (σ.goOn tx p l').phases.find? b = σ.phases.find? b :=
    fun b hb => (find?_goOn b).trans (if_neg hb)
  refine ⟨hs, fun a ha => hps a fun e => ha (congrArg some e), fun a ha => ?_, ?_⟩
  · rcases hd a ha with ho | ⟨q, vs, rfl⟩
    · exact .inl ho
    · exact .inr ⟨tx, q, vs, (find?_goOn tx).trans (if_pos rfl)⟩
  · exact fun a x _ _ h => heralded_mono h rfl hps hq fun q vs => hv q a vs

theorem passes_rest {l' : LockTable} (hs : LockTable.Spares (some tx) woken σ.table l')
    (hw : l'.wakeups = σ.table.wakeups) (hd : ∀ a ∈ l'.doomed, a ∈ σ.table.doomed)
    (hv : ∀ q v vs, σ.phases.find? tx ≠ some (.posting q v vs)) :
    Passes (some tx) woken σ (σ.rest tx l') := by
  have hps : ∀ b, b ≠ tx → (σ.rest tx l').phases.find? b = σ.phases.find? b :=
    fun b hb => (find?_rest b).trans (if_neg hb)
  refine ⟨hs, fun a ha => hps a fun e => ha (congrArg some e), fun a ha => .inl (hd a ha), ?_⟩
  exact fun a x _ _ h => heralded_mono h rfl hps (fun v hm => hw.symm ▸ hm)
    fun q vs hp => absurd hp (hv q a vs)

theorem settled_goOn {l' : LockTable} {p : LockPhase}
    (hk : ∀ x, p.anchor? l' = some x →
      (∃ p₀, σ.phases.find? tx = some p₀ ∧ p₀.anchor? σ.table = some x) ∨ σ.isFree x)
    (hc : (σ.goOn tx p l').Called tx p) : Settled σ (σ.goOn tx p l') tx := by
  have hp : (σ.goOn tx p l').phases.find? tx = some p := (find?_goOn tx).trans (if_pos rfl)
  refine ⟨fun p' x he => ?_, fun p' he => ?_, fun he => ?_⟩
  · rw [hp] at he
    cases he
    exact hk x
  · rw [hp] at he
    cases he
    exact hc
  · rw [hp] at he
    cases he

theorem settled_rest {l' : LockTable}
    (hw : ∀ s ∈ l'.sleepers, s.tx = tx → s.notified = false →
      (σ.rest tx l').Watched s.tx s.target s.mode) : Settled σ (σ.rest tx l') tx := by
  have hp : (σ.rest tx l').phases.find? tx = none := (find?_rest tx).trans (if_pos rfl)
  refine ⟨fun p' x he => ?_, fun p' he => ?_, fun _ => hw⟩
  · rw [hp] at he
    cases he
  · rw [hp] at he
    cases he

theorem called_of_calm {p : LockPhase} (h : p.query? = none) :
    σ.Called tx p ↔ ¬ σ.table.Sleeps tx := by
  cases p with
  | recording | checking | wounding | posting => cases h
  | _ => exact Iff.rfl

theorem not_posting {p : LockPhase} (hp : σ.phases.find? tx = some p)
    (h : ∀ q v vs, p ≠ .posting q v vs) (q : Query) (v : TxId) (vs : List TxId) :
    σ.phases.find? tx ≠ some (.posting q v vs) :=
  fun he => h q v vs (Option.some.inj (hp.symm.trans he))

theorem Sound.goOn_calm {l' : LockTable} {p : LockPhase} (h : σ.Sound)
    (hs : LockTable.Spares (some tx) woken σ.table l') (hfree : ∀ x, woken = some x → σ.isFree x)
    (htidy : LockTable.Tidy l'.nextTicket l'.sleepers) (hw : l'.wakeups = σ.table.wakeups)
    (hd : ∀ a ∈ l'.doomed, a ∈ σ.table.doomed)
    (hv : ∀ q v vs, σ.phases.find? tx ≠ some (.posting q v vs)) (hp : p.query? = none)
    (hz : ¬ l'.Sleeps tx) : (σ.goOn tx p l').Sound := by
  refine h.pass (passes_goOn hs (fun v hm => hw.symm ▸ hm) (fun a ha => .inl (hd a ha))
    fun q v vs he => absurd he (hv q v vs)) hfree htidy ?_
  rintro a ⟨⟩
  refine settled_goOn (fun x hx => ?_) ((called_of_calm hp).2 hz)
  rw [LockPhase.anchor?, hp] at hx
  cases hx

theorem Sound.rest_calm {l' : LockTable} (h : σ.Sound)
    (hs : LockTable.Spares (some tx) none σ.table l')
    (htidy : LockTable.Tidy l'.nextTicket l'.sleepers) (hw : l'.wakeups = σ.table.wakeups)
    (hd : ∀ a ∈ l'.doomed, a ∈ σ.table.doomed)
    (hv : ∀ q v vs, σ.phases.find? tx ≠ some (.posting q v vs))
    (hz : ¬ l'.Sleeps tx) : (σ.rest tx l').Sound := by
  refine h.pass (passes_rest hs hw hd hv) nofun htidy ?_
  rintro a ⟨⟩
  exact settled_rest fun s hm hx => absurd ⟨s, hm, hx⟩ hz

theorem Sound.goOn_asking {l' : LockTable} {p : LockPhase} (h : σ.Sound)
    (hp : Passes (some tx) none σ (σ.goOn tx p l'))
    (htidy : LockTable.Tidy l'.nextTicket l'.sleepers)
    (hk : ∀ x, p.anchor? l' = some x →
      (∃ p₀, σ.phases.find? tx = some p₀ ∧ p₀.anchor? σ.table = some x) ∨ σ.isFree x)
    (hc : (σ.goOn tx p l').Called tx p) : (σ.goOn tx p l').Sound := by
  refine h.pass hp nofun htidy ?_
  rintro a ⟨⟩
  exact settled_goOn hk hc

variable {q : Query}

theorem Sound.gain (h : σ.Sound) (hf : q.Fits σ.table tx) (hn : σ.phases.find? tx = none)
    {hs : Holders} (hh : ∀ a m, (σ.table.holders q.target).Holds a m → hs.Holds a m) :
    (σ.gain tx q hs).Sound := by
  have hsp : LockTable.Spares (some tx) none σ.table (σ.table.obtain tx q hs) :=
    (LockTable.spares_setHolders fun a m ha => Holders.holds_unawait.2 (hh a m ha)).rise _
  have hd : (σ.table.obtain tx q hs).doomed = σ.table.doomed := LockTable.doomed_rise _ _
  refine h.goOn_calm hsp nofun (LockTable.tidy_rise h.tidy) (LockTable.wakeups_rise _ _)
    (fun a ha => hd ▸ ha) (fun _ _ _ he => Option.some_ne_none _ (he.symm.trans hn)) ?_
    (LockTable.not_sleeps_rise (hf.setHolders _ _))
  split <;> rfl

theorem Sound.consider (h : σ.Sound) (hf : q.Fits σ.table tx) (hn : σ.phases.find? tx = none)
    (ha : σ.isFree (σ.table.anchorOf q.target)) : (σ.consider tx q).Sound := by
  by_cases hc : (σ.table.holders q.target).covers tx q.mode
  · rw [consider_of_covers hc]
    exact h.gain hf hn fun _ _ => id
  · by_cases hb : (σ.table.holders q.target).blockers tx q.mode = []
    · rw [consider_of_free hc hb]
      exact h.gain hf hn fun a m hm => (Holders.holds_grant_of_free hb).2 (.inl hm)
    · rw [consider_of_blocked hc hb]
      refine h.goOn_asking (passes_goOn (.refl _ _) (fun _ => id) (fun _ => .inl)
        fun _ _ _ he => absurd (he.symm.trans hn) (Option.some_ne_none _)) h.tidy ?_ ⟨hf, hb⟩
      rintro x ⟨⟩
      exact .inr ha

theorem Sound.recording {bs : List TxId} (h : σ.Sound)
    (hp : σ.phases.find? tx = some (.recording q bs)) :
    (σ.goOn tx (.checking q bs) (σ.table.blocked q.target tx)).Sound := by
  obtain ⟨hf, hb⟩ := h.called tx _ hp
  refine h.goOn_asking (passes_goOn (LockTable.spares_blocked ..) (fun _ => id) (fun _ => .inl)
    fun q v vs he => absurd he (not_posting hp nofun q v vs)) h.tidy
    (fun x hx => .inl ⟨_, hp, hx⟩) ⟨⟨hf.issued, hf.own⟩, hb, ?_⟩
  exact Registry.find?_insert_self ..

theorem Sound.refused {bs : List TxId} (h : σ.Sound)
    (hp : σ.phases.find? tx = some (.checking q bs)) :
    (σ.rest tx ((σ.table.stopWaiting q.target tx).rise q.ticket?)).Sound := by
  obtain ⟨hf, -, -⟩ := h.called tx _ hp
  have hs : LockTable.Spares (some tx) none σ.table
      ((σ.table.stopWaiting q.target tx).rise q.ticket?) :=
    (LockTable.spares_setHolders fun a m => Holders.holds_unawait.2).rise _
  have hd : ((σ.table.stopWaiting q.target tx).rise q.ticket?).doomed = σ.table.doomed :=
    LockTable.doomed_rise _ _
  refine h.rest_calm hs (LockTable.tidy_rise h.tidy) (LockTable.wakeups_rise _ _)
    (fun a ha => hd ▸ ha) (not_posting hp nofun) (LockTable.not_sleeps_rise (hf.setHolders _ _))

/-- Whoever is not doomed after its anchor was recorded will be woken if it is doomed later. -/
theorem Sound.undoomed {bs vs : List TxId} (h : σ.Sound)
    (hp : σ.phases.find? tx = some (.checking q bs)) (hd : tx ∉ σ.table.doomed) :
    (σ.goOn tx (.wounding q vs) σ.table).Sound := by
  obtain ⟨hf, hb, hr⟩ := h.called tx _ hp
  exact h.goOn_asking (passes_goOn (.refl _ _) (fun _ => id) (fun _ => .inl)
    fun q v vs he => absurd he (not_posting hp nofun q v vs)) h.tidy
    (fun x hx => .inl ⟨_, hp, hx⟩) ⟨hf, hr, hb, fun he => absurd he hd⟩

theorem Sound.goOn_watched {l' : LockTable} {p p' : LockPhase} (h : σ.Sound)
    (hp : σ.phases.find? tx = some p) (hq : p.query? = some q) (hq' : p'.query? = some q)
    (hw : σ.Watched tx q.target q.mode) (hl : ∀ mover, LockTable.Spares mover none σ.table l')
    (hpass : Passes (some tx) none σ (σ.goOn tx p' l'))
    (htidy : LockTable.Tidy l'.nextTicket l'.sleepers)
    (hc : (σ.goOn tx p' l').Watched tx q.target q.mode → (σ.goOn tx p' l').Called tx p') :
    (σ.goOn tx p' l').Sound := by
  have hr : l'.lastAnchor.find? tx = σ.table.lastAnchor.find? tx := (hl none).recorded tx nofun
  refine h.goOn_asking hpass htidy (fun x hx => .inl ⟨p, hp, ?_⟩) (hc (hw.mono hpass hr nofun))
  rw [LockPhase.anchor?, hq', Option.map_some, (hl none).anchorOf] at hx
  rw [LockPhase.anchor?, hq, Option.map_some, hx]

theorem Sound.wounding {v : TxId} {vs : List TxId} (h : σ.Sound)
    (hp : σ.phases.find? tx = some (.wounding q (v :: vs))) :
    (σ.goOn tx (.wounding q vs) σ.table).Sound ∧
      (σ.goOn tx (.posting q v vs) (σ.table.mark v)).Sound := by
  obtain ⟨hf, hw⟩ := h.called tx _ hp
  have hv : ∀ l' : LockTable, ∀ q v vs, σ.phases.find? tx = some (.posting q v vs) →
      v ∈ l'.wakeups.queue := fun _ q v vs he => absurd he (not_posting hp nofun q v vs)
  constructor
  · exact h.goOn_watched hp rfl rfl hw (.refl · _)
      (passes_goOn (.refl _ _) (fun _ => id) (fun _ => .inl) (hv _)) h.tidy fun hw' => ⟨hf, hw'⟩
  · have hs : ∀ mover, LockTable.Spares mover none σ.table (σ.table.mark v) :=
      fun mover => { LockTable.Spares.refl mover σ.table with }
    refine h.goOn_watched hp rfl rfl hw hs
      (passes_goOn (hs _) (fun _ => id) (fun a ha => ?_) (hv _)) h.tidy
      fun hw' => ⟨⟨hf.issued, hf.own⟩, hw'⟩
    rcases List.mem_cons.1 ha with rfl | ha
    · exact .inr ⟨q, vs, rfl⟩
    · exact .inl ha

theorem Sound.posting {v : TxId} {vs : List TxId} (h : σ.Sound)
    (hp : σ.phases.find? tx = some (.posting q v vs))
    (hroom : v ∈ (σ.table.post v).wakeups.queue) :
    (σ.goOn tx (.wounding q vs) (σ.table.post v)).Sound := by
  obtain ⟨hf, hw⟩ := h.called tx _ hp
  have hs : ∀ mover, LockTable.Spares mover none σ.table (σ.table.post v) :=
    fun mover => { LockTable.Spares.refl mover σ.table with }
  refine h.goOn_watched hp rfl rfl hw hs
    (passes_goOn (hs _) (fun a ha => LockTable.mem_queue_post ha v) (fun _ => .inl) ?_)
    h.tidy fun hw' => ⟨⟨hf.issued, hf.own⟩, hw'⟩
  intro q' v' vs' he
  rw [hp] at he
  cases he
  exact hroom

theorem Sound.parking (h : σ.Sound) (hp : σ.phases.find? tx = some (.wounding q [])) :
    (σ.rest tx (σ.table.park tx q)).Sound := by
  obtain ⟨hf, hw⟩ := h.called tx _ hp
  have hfields : (σ.table.park tx q).wakeups = σ.table.wakeups ∧
      (σ.table.park tx q).doomed = σ.table.doomed ∧
      (σ.table.park tx q).lastAnchor = σ.table.lastAnchor := by
    unfold LockTable.park
    cases q.ticket? <;> exact ⟨rfl, rfl, rfl⟩
  obtain ⟨hwk, hd, hr⟩ := hfields
  have hpass : Passes (some tx) none σ (σ.rest tx (σ.table.park tx q)) :=
    passes_rest (LockTable.spares_park hf) hwk (fun a ha => hd ▸ ha) (not_posting hp nofun)
  refine h.pass hpass nofun (LockTable.tidy_park h.tidy hf) ?_
  rintro a ⟨⟩
  refine settled_rest fun s hs hx _ => ?_
  obtain ⟨ht, hm⟩ := LockTable.eq_of_mem_park hf hs hx
  rw [hx, ht, hm]
  exact hw.mono hpass (congrArg (Registry.find? · tx) hr) nofun

/-- One step of a release: modes on a target go, and those who sleep at its anchor look again. -/
theorem Sound.releasing {p p' : LockPhase} {t : Target} {ms : List Mode} (h : σ.Sound)
    (hp : σ.phases.find? tx = some p) (hq : p.query? = none) (hq' : p'.query? = none)
    (ha : σ.isFree (σ.table.anchorOf t)) : (σ.goOn tx p' (σ.table.strip t tx ms)).Sound := by
  have hz : ¬ σ.table.Sleeps tx := (called_of_calm hq).1 (h.called tx p hp)
  have hs : ∀ mover, LockTable.Spares mover (some (σ.table.anchorOf t)) σ.table
      (σ.table.strip t tx ms) := fun _ => LockTable.spares_strip ..
  have hv : ∀ q v vs, p ≠ .posting q v vs := by
    rintro q v vs rfl
    cases hq
  refine h.goOn_calm (hs _) ?_ (LockTable.tidy_wakeAnchor h.tidy) rfl (fun _ => id)
    (not_posting hp hv) hq' (LockTable.not_sleeps_mono (hs none) nofun hz)
  rintro x ⟨⟩
  exact ha

theorem Sound.calm {p : LockPhase} (h : σ.Sound) (l' : LockTable)
    (hp : σ.phases.find? tx = some p) (hq : p.query? = none)
    (hs : LockTable.Spares (some tx) none σ.table l') (hss : l'.sleepers = σ.table.sleepers)
    (hk : l'.nextTicket = σ.table.nextTicket) (hw : l'.wakeups = σ.table.wakeups)
    (hd : ∀ a ∈ l'.doomed, a ∈ σ.table.doomed) :
    (∀ p' : LockPhase, p'.query? = none → (σ.goOn tx p' l').Sound) ∧ (σ.rest tx l').Sound := by
  have hz : ¬ l'.Sleeps tx := by
    unfold LockTable.Sleeps
    rw [hss]
    exact (called_of_calm hq).1 (h.called tx p hp)
  have htidy : LockTable.Tidy l'.nextTicket l'.sleepers := by
    rw [hk, hss]
    exact h.tidy
  have hv : ∀ q v vs, p ≠ .posting q v vs := by
    rintro q v vs rfl
    cases hq
  exact ⟨fun p' hp' => h.goOn_calm hs nofun htidy hw hd (not_posting hp hv) hp' hz,
    h.rest_calm hs htidy hw hd (not_posting hp hv) hz⟩

theorem Sound.advance {p : LockPhase} (h : σ.Sound) (hp : σ.phases.find? tx = some p)
    (hs : σ.advance tx p = some τ) : τ.Sound := by
  have hsame : LockTable.Spares (some tx) none σ.table σ.table := .refl _ _
  cases p with
  | recording q bs =>
    cases hs
    exact h.recording hp
  | checking q bs =>
    rw [Scene.advance] at hs
    split at hs
    · cases hs
      exact h.refused hp
    · rename_i hd
      cases hs
      exact h.undoomed hp fun hm => hd (decide_eq_true hm)
  | wounding q vs =>
    cases vs with
    | nil =>
      cases hs
      exact h.parking hp
    | cons v vs =>
      rw [Scene.advance] at hs
      split at hs <;> cases hs
      · exact (h.wounding hp).1
      · exact (h.wounding hp).2
  | posting q v vs =>
    rw [Scene.advance] at hs
    split at hs
    · rename_i hroom
      cases hs
      exact h.posting hp hroom
    · cases hs
  | unrecording t =>
    cases hs
    exact (h.calm _ hp rfl (LockTable.spares_forgetAnchor ..) rfl rfl rfl fun _ => id).1 _ rfl
  | listing t =>
    cases hs
    exact (h.calm (σ.table.addHeld tx t) hp rfl { hsame with } rfl rfl rfl fun _ => id).2
  | releasing ms ts leaving =>
    cases ts with
    | nil =>
      cases leaving with
      | false =>
        cases hs
        exact (h.calm _ hp rfl hsame rfl rfl rfl fun _ => id).2
      | true =>
        cases hs
        exact (h.calm _ hp rfl hsame rfl rfl rfl fun _ => id).1 _ rfl
    | cons t ts =>
      rw [Scene.advance] at hs
      split at hs
      · rename_i ha
        cases hs
        exact h.releasing hp rfl (by split <;> rfl) ha
      · cases hs
  | unlisting t ms ts leaving =>
    cases hs
    exact (h.calm (σ.table.dropHeld tx t) hp rfl { hsame with } rfl rfl rfl fun _ => id).1 _ rfl
  | disowning =>
    cases hs
    exact (h.calm { σ.table with held := σ.table.held.erase tx } hp rfl { hsame with } rfl rfl rfl
      fun _ => id).1 _ rfl
  | pardoning =>
    cases hs
    exact (h.calm { σ.table with doomed := σ.table.doomed.filter (· ≠ tx) } hp rfl
      { hsame with } rfl rfl rfl fun a ha => (List.mem_filter.1 ha).1).1 _ rfl
  | forgetting =>
    cases hs
    exact (h.calm _ hp rfl (LockTable.spares_forgetAnchor ..) rfl rfl rfl fun _ => id).2

/-- The courier moves a wakeup on towards the anchor that its transaction is recorded at. -/
theorem passes_courier {l' : LockTable} {c : Option Parcel}
    (hs : LockTable.Spares none woken σ.table l') (hd : l'.doomed = σ.table.doomed)
    (hh : ∀ a x, some x ≠ woken → σ.table.lastAnchor.find? a = some x → σ.Heralded a x →
      Scene.Heralded { σ with table := l', parcel := c } a x) :
    Passes none woken σ { σ with table := l', parcel := c } :=
  ⟨hs, fun _ _ => rfl, fun _ ha => .inl (hd ▸ ha), hh⟩

theorem Sound.fetch {v : TxId} {wakeups : Mailbox} (h : σ.Sound) (hc : σ.parcel = none)
    (ht : σ.table.wakeups.take? = some (v, wakeups)) :
    Scene.Sound { σ with table := { σ.table with wakeups }, parcel := some (.wakeup v) } := by
  have hq : ∀ a, a ∈ σ.table.wakeups.queue → a = v ∨ a ∈ wakeups.queue := by
    intro a ha
    unfold Mailbox.take? at ht
    split at ht
    · cases ht
    · rename_i hcons
      cases ht
      rw [hcons] at ha
      exact List.mem_cons.1 ha
  refine h.pass (passes_courier { LockTable.Spares.refl none σ.table with } rfl
    fun a x _ _ hh => ?_) nofun h.tidy nofun
  cases hh with
  | posting hb => exact .posting hb
  | queued hm =>
    rcases hq a hm with rfl | hm
    · exact .taken rfl
    · exact .queued hm
  | taken hp => cases hc.symm.trans hp
  | addressed hp => cases hc.symm.trans hp

theorem Sound.address {v : TxId} (h : σ.Sound) (hc : σ.parcel = some (.wakeup v)) :
    Scene.Sound { σ with parcel := (σ.table.lastAnchor.find? v).map .addressed } := by
  refine h.pass (passes_courier (.refl none _) rfl fun a x _ hr hh => ?_) nofun h.tidy nofun
  cases hh with
  | posting hb => exact .posting hb
  | queued hm => exact .queued hm
  | taken hp =>
    cases hc.symm.trans hp
    exact .addressed (congrArg (Option.map Parcel.addressed) hr)
  | addressed hp => cases hc.symm.trans hp

/-- A wakeup is delivered where nobody keeps the anchor: whoever it is for is asleep there. -/
theorem Sound.wake {anchor : Nat} (h : σ.Sound) (hc : σ.parcel = some (.addressed anchor))
    (ha : σ.isFree anchor) :
    Scene.Sound { σ with table := σ.table.wakeAnchor anchor, parcel := none } := by
  refine h.pass (passes_courier (LockTable.spares_wakeAnchor ..) rfl fun a x hx _ hh => ?_)
    ?_ (LockTable.tidy_wakeAnchor h.tidy) nofun
  · cases hh with
    | posting hb => exact .posting hb
    | queued hm => exact .queued hm
    | taken hp => cases hc.symm.trans hp
    | addressed hp =>
      cases hc.symm.trans hp
      exact absurd rfl hx
  · rintro x ⟨⟩
    exact ha

theorem not_sleeps_of_isIdle (h : σ.isIdle tx) :
    σ.phases.find? tx = none ∧ ¬ σ.table.Sleeps tx := by
  simpa [isIdle] using h

theorem Sound.begin_release {p : LockPhase} (h : σ.Sound) (hi : σ.isIdle tx)
    (hp : p.query? = none) : (σ.goOn tx p σ.table).Sound := by
  obtain ⟨hn, hz⟩ := not_sleeps_of_isIdle hi
  exact h.goOn_calm (.refl _ _) nofun h.tidy rfl (fun _ => id)
    (fun _ _ _ he => Option.some_ne_none _ (he.symm.trans hn)) hp hz

theorem Sound.move {m : LockMove} (h : σ.Sound) (hm : σ.move m = some τ) : τ.Sound := by
  cases m with
  | ask t tx m =>
    simp only [Scene.move] at hm
    split at hm
    · rename_i hi
      cases hm
      obtain ⟨hn, hz⟩ := not_sleeps_of_isIdle hi.1
      have hf : Query.Fits { target := t, mode := m } σ.table tx := by
        refine ⟨fun k hk => (by cases hk), fun s hs hx => ?_⟩
        rcases hx with hx | hx
        · exact absurd ⟨s, hs, hx⟩ hz
        · cases hx
      exact h.consider hf hn hi.2
    · cases hm
  | relook ticket =>
    simp only [Scene.move] at hm
    split at hm
    · cases hm
    · rename_i s hs
      split at hm
      · rename_i hi
        cases hm
        obtain ⟨hsm, rfl⟩ := LockTable.mem_sleeper hs
        refine h.consider ⟨?_, fun u hu hx => ?_⟩ (Option.isNone_iff_eq_none.1 hi.1) hi.2
        · rintro k ⟨⟩
          exact h.tidy.below s hsm
        · have hus : u = s := hx.elim (h.tidy.byTx u hu s hsm)
            fun e => h.tidy.byTicket u hu s hsm (Option.some.inj e).symm
          subst hus
          exact ⟨rfl, rfl, rfl, rfl⟩
      · cases hm
  | release t tx ms =>
    simp only [Scene.move] at hm
    split at hm
    · rename_i hi
      cases hm
      exact h.begin_release hi rfl
    · cases hm
  | releaseAll tx sharedOnly =>
    simp only [Scene.move] at hm
    split at hm
    · rename_i hi
      cases hm
      exact h.begin_release hi rfl
    · cases hm
  | advance tx =>
    simp only [Scene.move] at hm
    split at hm
    · cases hm
    · rename_i p hp
      exact h.advance hp hm
  | fetch =>
    simp only [Scene.move] at hm
    split at hm
    · rename_i hc ht
      cases hm
      exact h.fetch hc ht
    · cases hm
  | address =>
    simp only [Scene.move] at hm
    split at hm
    · rename_i hc
      cases hm
      exact h.address hc
    · cases hm
  | wake =>
    simp only [Scene.move] at hm
    split at hm
    · rename_i hc
      split at hm
      · rename_i ha
        cases hm
        exact h.wake hc ha
      · cases hm
    · cases hm

theorem Sound.run {ms : List LockMove} (h : σ.Sound) (hr : σ.run ms = some τ) : τ.Sound := by
  induction ms generalizing σ with
  | nil =>
    cases hr
    exact h
  | cons m ms ih =>
    obtain ⟨υ, hm, hr⟩ := Option.bind_eq_some_iff.1 hr
    exact ih (h.move hm) hr

theorem sound_blank (place : Target → Nat) (anchors maxWait capacity : Nat) :
    (still (.blank place anchors maxWait capacity)).Sound where
  tidy := by constructor <;> intro s hs <;> cases hs
  apart _ _ _ _ _ _ hp := by cases hp
  called _ _ hp := by cases hp
  watched s hs := by cases hs

end Scene

/-- Another transaction holds something on a sleeper's target that its mode has to wait for. -/
def LockTable.IsBlocked (l : LockTable) (s : Sleeper) : Prop :=
  ∃ b n, b ≠ s.tx ∧ (l.holders s.target).Holds b n ∧ s.mode.compatible n = false

namespace Scene

theorem Sound.quiet {σ : Scene} {s : Sleeper} (h : σ.Sound) (hq : σ.table.Quiet)
    (hs : s ∈ σ.table.sleepers) (hn : σ.phases.find? s.tx = none) :
    (s.tx ∈ σ.table.doomed → σ.Heralded s.tx (σ.table.anchorOf s.target)) ∧
      σ.table.IsBlocked s := by
  have hw := h.watched s hs hn (hq.2 s hs)
  obtain ⟨b, hb⟩ := List.exists_mem_of_ne_nil _ hw.blocked
  obtain ⟨hne, n, hbn, hc⟩ := Holders.mem_blockers.1 hb
  exact ⟨hw.heralded, b, n, hne, hbn, hc⟩

/-- Between calls nobody has a wakeup in hand. -/
theorem not_heralded_still {l : LockTable} {tx : TxId} {anchor : Nat}
    (h : l.wakeups.queue = []) : ¬ (still l).Heralded tx anchor := by
  intro hh
  cases hh with
  | posting hb => cases hb
  | queued hm =>
    rw [table_still, h] at hm
    cases hm
  | taken hp => cases hp
  | addressed hp => cases hp

/-- A request sleeps on only behind somebody who is in its way, and if its transaction is doomed
then the wakeup that has left the queue, or has yet to enter it, is in somebody's hands. So it is
in every scene that the steps of the calls lead to, and between whole calls nobody is asleep and
doomed. -/
theorem no_lost_wakeup (place : Target → Nat) (anchors maxWait capacity : Nat) :
    let l₀ := LockTable.blank place anchors maxWait capacity
    (∀ ms σ, (still l₀).run ms = some σ → σ.table.Quiet →
      ∀ s ∈ σ.table.sleepers, σ.phases.find? s.tx = none →
        (s.tx ∈ σ.table.doomed → σ.Heralded s.tx (σ.table.anchorOf s.target)) ∧
          σ.table.IsBlocked s) ∧
    ∀ es, l₀.Follows es → (∀ e ∈ es, e.IsPatient) → (l₀.run es).Quiet →
      ∀ s ∈ (l₀.run es).sleepers, s.tx ∉ (l₀.run es).doomed ∧ (l₀.run es).IsBlocked s := by
  intro l₀
  have hsteps : ∀ ms σ, (still l₀).run ms = some σ → σ.Sound :=
    fun ms σ hr => (sound_blank place anchors maxWait capacity).run hr
  refine ⟨fun ms σ hr hq s hs hn => (hsteps ms σ hr).quiet hq hs hn, fun es hf hx hq s hs => ?_⟩
  obtain ⟨ms, hr⟩ := runs_whole hf hx
  obtain ⟨hd, hb⟩ := (hsteps ms _ hr).quiet hq hs rfl
  exact ⟨fun hdoom => not_heralded_still hq.1 (hd hdoom), hb⟩

/-- The younger of two that are in each other's way has seen that it is not doomed, is doomed before
it sleeps, and sleeps before its wakeup is queued. It is woken and turned away. -/
def race : List LockMove :=
  [.ask (.file "a") ⟨2⟩ .x, .advance ⟨2⟩, .ask (.file "bb") ⟨3⟩ .x, .advance ⟨3⟩,
    .ask (.file "a") ⟨3⟩ .s, .advance ⟨3⟩, .advance ⟨3⟩,
    .ask (.file "bb") ⟨2⟩ .s, .advance ⟨2⟩, .advance ⟨2⟩, .advance ⟨2⟩, .advance ⟨3⟩,
    .advance ⟨2⟩, .advance ⟨2⟩, .fetch, .address, .wake, .relook 0, .advance ⟨3⟩, .advance ⟨3⟩]

theorem no_lost_wakeup_race :
    let l₀ := LockTable.blank (fun t => t.fileName.length) 2 9 4
    let s : Sleeper := { ticket := 1, tx := ⟨2⟩, target := .file "bb", mode := .s }
    (∃ σ, (still l₀).run race = some σ ∧ σ.table.Quiet ∧ s ∈ σ.table.sleepers ∧
      (s.tx ∈ σ.table.doomed → σ.Heralded s.tx (σ.table.anchorOf s.target)) ∧
      σ.table.IsBlocked s) ∧
    l₀.Follows LockTable.crossing ∧ (l₀.run LockTable.crossing).Quiet ∧
      s ∈ (l₀.run LockTable.crossing).sleepers ∧
      s.tx ∉ (l₀.run LockTable.crossing).doomed ∧ (l₀.run LockTable.crossing).IsBlocked s := by
  intro l₀ s
  have h := no_lost_wakeup (fun t => t.fileName.length) 2 9 4
  constructor
  · have hc : ((still l₀).run race).any (fun σ => decide (σ.table.Quiet ∧ s ∈ σ.table.sleepers ∧
        (σ.phases.find? s.tx).isNone)) := by decide +kernel
    obtain ⟨σ, hr, hσ⟩ := (Option.any_eq_true _ _).1 hc
    obtain ⟨hq, hs, hn⟩ := of_decide_eq_true hσ
    exact ⟨σ, hr, hq, hs, h.1 race σ hr hq s hs (Option.isNone_iff_eq_none.1 hn)⟩
  · have hf : l₀.Follows LockTable.crossing := by decide
    have hq : (l₀.run LockTable.crossing).Quiet := by decide
    have hs : s ∈ (l₀.run LockTable.crossing).sleepers := by decide
    exact ⟨hf, hq, hs, h.2 _ hf (by decide) hq s hs⟩

end Scene

end PagedStore
