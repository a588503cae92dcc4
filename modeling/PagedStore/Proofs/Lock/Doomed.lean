import PagedStore.Proofs.Lock.Indexes

set_option autoImplicit false

/-!
Where a doom comes from. Main statement: `Scene.doomed_by_older`. Whoever is to be wounded holds
something that clashes with a request, for as long as the call that is going to wound it keeps the
anchor; so a doom can be traced back to an older transaction, and a full release ends it.
-/

namespace PagedStore

namespace LockTable

variable {l l' : LockTable} {tx a v : TxId} {p : LockPhase} {mover : Option TxId}
  {woken : Option Nat} {t : Target} {m n : Mode}

theorem Hinders.congr (h : l.Hinders tx t m a n) (he : l'.entries = l.entries) :
    l'.Hinders tx t m a n :=
  ⟨h.younger, holders_congr he t ▸ h.holds, h.clashes⟩

/-- Those whom a call is going to wound hold what clashes with its request, and a transaction that
has been pardoned is not doomed again before it has left. -/
def Aims (l : LockTable) (tx : TxId) : LockPhase → Prop
  | .recording q bs | .checking q bs =>
    ∀ b ∈ bs, ∃ n, (l.holders q.target).Holds b n ∧ q.mode.compatible n = false
  | .wounding q vs | .posting q _ vs => ∀ b ∈ vs, ∃ n, l.Hinders tx q.target q.mode b n
  | .unrecording _ | .listing _ | .releasing .. | .unlisting .. => True
  | .disowning | .pardoning => True
  | .forgetting => tx ∉ l.doomed

theorem aims_mono (h : l.Aims a p) (hs : l.Stands a p) (hl : Leaves mover woken l l')
    (hw : ∀ x, p.anchor? l = some x → some x ≠ woken) : l'.Aims a p := by
  have hstay : ∀ (q : Query) b n, p.query? = some q → (l.holders q.target).Holds b n →
      (l'.holders q.target).Holds b n := fun q b n hq => by
    refine hl.spares.holds q.target b n (hw _ ?_)
    rw [LockPhase.anchor?, hq, Option.map_some]
  cases p with
  | recording q bs | checking q bs =>
    intro b hb
    obtain ⟨n, hn, hc⟩ := h b hb
    exact ⟨n, hstay q b n rfl hn, hc⟩
  | wounding q vs | posting q v vs =>
    intro b hb
    obtain ⟨n, hn⟩ := h b hb
    exact ⟨n, hn.younger, hstay q b n rfl hn.holds, hn.clashes⟩
  | forgetting => exact Scene.not_doomed_mono hl (fun t m hm => hs.2.2 t ⟨m, hm⟩) h
  | unrecording | listing | releasing | unlisting | disowning | pardoning => trivial

end LockTable

namespace Scene

/-- A turn of an older transaction, whose request clashes with what `v` holds on the target. -/
def Strikes (σ : Scene) (e : LockTurn) (v : TxId) : Prop :=
  ∃ u p q n, e = .move (.advance u) ∧ σ.phases.find? u = some p ∧ p.query? = some q ∧
    σ.table.Hinders u q.target q.mode v n

def Pardons (σ : Scene) (e : LockTurn) (v : TxId) : Prop :=
  e = .move (.advance v) ∧ σ.phases.find? v = some .pardoning

/-- No turn of a run takes the doom of a transaction away. -/
def Unpardoned (v : TxId) : Scene → List LockTurn → Prop
  | _, [] => True
  | σ, e :: es => ¬ σ.Pardons e v ∧ ∀ τ, σ.turn e = some τ → τ.Unpardoned v es

/-- An older transaction has struck at `v` in a run, and `v` has not been pardoned since. -/
def Struck (σ₀ : Scene) (es : List LockTurn) (v : TxId) : Prop :=
  ∃ before e after σ, es = before ++ e :: after ∧ σ₀.turns before = some σ ∧ σ.Strikes e v ∧
    σ.Unpardoned v (e :: after)

/-- Whom the calls under way are going to wound is in their way. -/
structure Aimed (σ : Scene) : Prop where
  agrees : σ.Agrees
  aims : ∀ a p, σ.phases.find? a = some p → σ.table.Aims a p

variable {σ τ : Scene} {tx v : TxId} {e : LockTurn} {q : Query} {p : LockPhase} {l' : LockTable}

def OwnAim (τ : Scene) (tx : TxId) : Prop :=
  ∀ p, τ.phases.find? tx = some p → τ.table.Aims tx p

theorem ownAim_goOn (h : l'.Aims tx p) : (σ.goOn tx p l').OwnAim tx := by
  intro p' hp
  rw [find?_goOn, if_pos rfl] at hp
  cases hp
  exact h

theorem ownAim_rest : (σ.rest tx l').OwnAim tx := by
  intro p hp
  rw [find?_rest, if_pos rfl] at hp
  cases hp

theorem ownAim_gain (h : Holders) : (σ.gain tx q h).OwnAim tx := by
  refine ownAim_goOn ?_
  split <;> trivial

theorem ownAim_consider : (σ.consider tx q).OwnAim tx := by
  by_cases hc : (σ.table.holders q.target).covers tx q.mode
  · rw [consider_of_covers hc]
    exact ownAim_gain _
  · by_cases hb : (σ.table.holders q.target).blockers tx q.mode = []
    · rw [consider_of_free hc hb]
      exact ownAim_gain _
    · rw [consider_of_blocked hc hb]
      exact ownAim_goOn fun b hb => (Holders.mem_blockers.1 hb).2

theorem ownAim_advance (ha : σ.table.Aims tx p) (hs : σ.advance tx p = some τ) : τ.OwnAim tx := by
  cases p with
  | recording q bs =>
    cases hs
    exact ownAim_goOn ha
  | checking q bs =>
    rw [Scene.advance] at hs
    split at hs <;> cases hs
    · exact ownAim_rest
    · refine ownAim_goOn fun b hb => ?_
      obtain ⟨hb, hold⟩ := List.mem_filter.1 hb
      obtain ⟨n, hn, hc⟩ := ha b hb
      exact ⟨n, of_decide_eq_true hold, hn, hc⟩
  | wounding q vs =>
    cases vs with
    | nil =>
      cases hs
      exact ownAim_rest
    | cons v vs =>
      have hrest : ∀ b ∈ vs, ∃ n, σ.table.Hinders tx q.target q.mode b n :=
        fun b hb => ha b (List.mem_cons_of_mem v hb)
      rw [Scene.advance] at hs
      split at hs <;> cases hs
      · exact ownAim_goOn hrest
      · exact ownAim_goOn fun b hb => (hrest b hb).imp fun _ hn => hn.congr rfl
  | posting q v vs =>
    rw [Scene.advance] at hs
    split at hs <;> cases hs
    exact ownAim_goOn fun b hb => (ha b hb).imp fun _ hn => hn.congr rfl
  | unrecording t =>
    cases hs
    exact ownAim_goOn trivial
  | listing t =>
    cases hs
    exact ownAim_rest
  | releasing ms ts leaving =>
    cases ts with
    | nil =>
      cases leaving <;> cases hs
      · exact ownAim_rest
      · exact ownAim_goOn trivial
    | cons t ts =>
      rw [Scene.advance] at hs
      split at hs <;> cases hs
      refine ownAim_goOn ?_
      split <;> trivial
  | unlisting t ms ts leaving =>
    cases hs
    exact ownAim_goOn trivial
  | disowning =>
    cases hs
    exact ownAim_goOn trivial
  | pardoning =>
    cases hs
    exact ownAim_goOn fun hd => of_decide_eq_true (List.mem_filter.1 hd).2 rfl
  | forgetting =>
    cases hs
    exact ownAim_rest

theorem Aimed.ownAim (h : σ.Aimed) (he : σ.turn e = some τ) (hm : some tx = e.mover? σ.table) :
    τ.OwnAim tx := by
  cases e with
  | move m =>
    cases m with
    | ask t a m =>
      obtain rfl := Option.some.inj hm
      simp only [Scene.turn, Scene.move] at he
      split at he <;> cases he
      exact ownAim_consider
    | relook ticket =>
      obtain ⟨s, hs, rfl⟩ := Option.map_eq_some_iff.1 hm.symm
      simp only [Scene.turn, Scene.move, hs] at he
      split at he <;> cases he
      exact ownAim_consider
    | release t a ms =>
      obtain rfl := Option.some.inj hm
      simp only [Scene.turn, Scene.move] at he
      split at he <;> cases he
      exact ownAim_goOn trivial
    | releaseAll a sharedOnly =>
      obtain rfl := Option.some.inj hm
      simp only [Scene.turn, Scene.move] at he
      split at he <;> cases he
      exact ownAim_goOn trivial
    | advance a =>
      obtain rfl := Option.some.inj hm
      simp only [Scene.turn, Scene.move] at he
      split at he
      · cases he
      · rename_i p hp
        exact ownAim_advance (h.aims tx p hp) he
    | fetch | address | wake => cases hm
  | expire a =>
    obtain rfl := Option.some.inj hm
    obtain ⟨q, -, rfl⟩ := expire_eq_some he
    exact ownAim_rest
  | skip a =>
    obtain rfl := Option.some.inj hm
    obtain ⟨q, v, vs, hp, rfl⟩ := skip_eq_some he
    exact ownAim_goOn fun b hb => h.aims tx _ hp b hb
  | visit a sharedOnly ts =>
    obtain rfl := Option.some.inj hm
    obtain ⟨-, -, rfl⟩ := visit_eq_some he
    exact ownAim_goOn trivial

theorem Aimed.turn (h : σ.Aimed) (he : σ.turn e = some τ) : τ.Aimed := by
  obtain ⟨hagrees, woken, ht⟩ := h.agrees.turn he
  refine ⟨hagrees, fun a p hp => ?_⟩
  by_cases hm : some a = e.mover? σ.table
  · exact h.ownAim he hm p hp
  · rw [ht.phases a hm] at hp
    refine LockTable.aims_mono (h.aims a p hp) (h.agrees.stands a p hp) ht.leaves fun x hx hw => ?_
    exact ne_anchor_of_isFree (ht.free x hw.symm) hp hx

theorem doomed_consider : (σ.consider tx q).table.doomed = σ.table.doomed := by
  have hgain : ∀ h, (σ.gain tx q h).table.doomed = σ.table.doomed := fun h =>
    LockTable.doomed_rise ..
  by_cases hc : (σ.table.holders q.target).covers tx q.mode
  · rw [consider_of_covers hc, hgain]
  · by_cases hb : (σ.table.holders q.target).blockers tx q.mode = []
    · rw [consider_of_free hc hb, hgain]
    · rw [consider_of_blocked hc hb]
      rfl

theorem doomed_refused :
    (σ.rest tx ((σ.table.stopWaiting q.target tx).rise q.ticket?)).table.doomed = σ.table.doomed :=
  LockTable.doomed_rise ..

/-- Whom a step of a call leaves doomed was so before, and the step does not pardon it, or is in the
way of the call's request. -/
theorem doomed_advance (ha : σ.table.Aims tx p) (hs : σ.advance tx p = some τ)
    (hv : v ∈ τ.table.doomed) : v ∈ σ.table.doomed ∧ ¬ (p = .pardoning ∧ v = tx) ∨
      ∃ q n, p.query? = some q ∧ σ.table.Hinders tx q.target q.mode v n := by
  cases p with
  | recording q bs =>
    cases hs
    exact .inl ⟨hv, fun h => by cases h.1⟩
  | checking q bs =>
    rw [Scene.advance] at hs
    split at hs <;> cases hs
    · exact .inl ⟨doomed_refused ▸ hv, fun h => by cases h.1⟩
    · exact .inl ⟨hv, fun h => by cases h.1⟩
  | wounding q vs =>
    cases vs with
    | nil =>
      cases hs
      exact .inl ⟨LockTable.doomed_park σ.table tx q ▸ hv, fun h => by cases h.1⟩
    | cons w vs =>
      rw [Scene.advance] at hs
      split at hs <;> cases hs
      · exact .inl ⟨hv, fun h => by cases h.1⟩
      · rcases List.mem_cons.1 hv with rfl | hv
        · obtain ⟨n, hn⟩ := ha v List.mem_cons_self
          exact .inr ⟨q, n, rfl, hn⟩
        · exact .inl ⟨hv, fun h => by cases h.1⟩
  | posting q w vs =>
    rw [Scene.advance] at hs
    split at hs <;> cases hs
    exact .inl ⟨hv, fun h => by cases h.1⟩
  | releasing ms ts leaving =>
    cases ts with
    | nil =>
      cases leaving <;> cases hs <;> exact .inl ⟨hv, fun h => by cases h.1⟩
    | cons t ts =>
      rw [Scene.advance] at hs
      split at hs <;> cases hs
      exact .inl ⟨hv, fun h => by cases h.1⟩
  | unrecording | listing | unlisting | disowning | forgetting =>
    cases hs
    exact .inl ⟨hv, fun h => by cases h.1⟩
  | pardoning =>
    cases hs
    obtain ⟨hv, hne⟩ := List.mem_filter.1 hv
    exact .inl ⟨hv, fun hc => of_decide_eq_true hne hc.2⟩

theorem Aimed.doomed (h : σ.Aimed) (he : σ.turn e = some τ) (hv : v ∈ τ.table.doomed) :
    v ∈ σ.table.doomed ∧ ¬ σ.Pardons e v ∨ σ.Strikes e v := by
  cases e with
  | move m =>
    cases m with
    | advance u =>
      simp only [Scene.turn, Scene.move] at he
      split at he
      · cases he
      · rename_i p hp
        refine (doomed_advance (h.aims u p hp) he hv).imp (And.imp_right ?_) ?_
        · rintro hno ⟨⟨⟩, hpardon⟩
          exact hno ⟨Option.some.inj (hp.symm.trans hpardon), rfl⟩
        · rintro ⟨q, n, hq, hn⟩
          exact ⟨u, p, q, n, rfl, hp, hq, hn⟩
    | ask t a m =>
      simp only [Scene.turn, Scene.move] at he
      split at he <;> cases he
      exact .inl ⟨doomed_consider ▸ hv, fun hc => by cases hc.1⟩
    | relook ticket =>
      simp only [Scene.turn, Scene.move] at he
      split at he
      · cases he
      · split at he <;> cases he
        exact .inl ⟨doomed_consider ▸ hv, fun hc => by cases hc.1⟩
    | release | releaseAll | fetch | address =>
      simp only [Scene.turn, Scene.move] at he
      split at he <;> cases he
      exact .inl ⟨hv, fun hc => by cases hc.1⟩
    | wake =>
      simp only [Scene.turn, Scene.move] at he
      split at he
      · split at he <;> cases he
        exact .inl ⟨hv, fun hc => by cases hc.1⟩
      · cases he
  | expire a =>
    obtain ⟨q, -, rfl⟩ := expire_eq_some he
    exact .inl ⟨doomed_refused ▸ hv, fun hc => by cases hc.1⟩
  | skip a =>
    obtain ⟨q, w, vs, -, rfl⟩ := skip_eq_some he
    exact .inl ⟨hv, fun hc => by cases hc.1⟩
  | visit a sharedOnly ts =>
    obtain ⟨-, -, rfl⟩ := visit_eq_some he
    exact .inl ⟨hv, fun hc => by cases hc.1⟩

theorem Aimed.turns {es : List LockTurn} (h : σ.Aimed) (he : σ.turns es = some τ) : τ.Aimed := by
  induction es generalizing σ with
  | nil =>
    cases he
    exact h
  | cons e es ih =>
    obtain ⟨υ, hu, he⟩ := Option.bind_eq_some_iff.1 he
    exact ih (h.turn hu) he

/-- Whoever is doomed after a run was so before and has not been pardoned, or has been struck at
since. -/
theorem Aimed.doomed_turns {es : List LockTurn} (h : σ.Aimed) (he : σ.turns es = some τ)
    (hv : v ∈ τ.table.doomed) : v ∈ σ.table.doomed ∧ σ.Unpardoned v es ∨ σ.Struck es v := by
  induction es generalizing σ with
  | nil =>
    cases he
    exact .inl ⟨hv, trivial⟩
  | cons e es ih =>
    obtain ⟨υ, hu, he⟩ := Option.bind_eq_some_iff.1 he
    rcases ih (h.turn hu) he with ⟨hd, hun⟩ | ⟨before, f, after, ρ, rfl, hρ, hs, hun⟩
    · have hnext : ∀ τ, σ.turn e = some τ → τ.Unpardoned v es := fun τ hτ =>
        Option.some.inj (hu.symm.trans hτ) ▸ hun
      rcases h.doomed hu hd with ⟨hd, hno⟩ | hs
      · exact .inl ⟨hd, hno, hnext⟩
      · refine .inr ⟨[], e, es, σ, rfl, rfl, hs, ?_, hnext⟩
        obtain ⟨u, p, q, n, rfl, hp, hq, hn⟩ := hs
        rintro ⟨⟨⟩, -⟩
        exact v.not_isOlder_self hn.younger
    · refine .inr ⟨e :: before, f, after, ρ, rfl, ?_, hs, hun⟩
      rw [Scene.turns, hu, Option.bind_some, hρ]

theorem aimed_blank (place : Target → Nat) (anchors maxWait capacity : Nat) :
    (still (.blank place anchors maxWait capacity)).Aimed where
  agrees := agrees_blank ..
  aims _ _ hp := by cases hp

end Scene

namespace LockEvent

def request? (l : LockTable) : LockEvent → Option (TxId × Target × Mode)
  | .ask t tx m _ => some (tx, t, m)
  | .relook ticket _ => (l.sleeper? ticket).map fun s => (s.tx, s.target, s.mode)
  | .release .. | .releaseAll .. | .deliver => none

def answer? (l : LockTable) : LockEvent → Option (TxId × Verdict)
  | .ask t tx m expired => some (tx, (l.ask t tx m expired).1)
  | .relook ticket expired => (l.sleeper? ticket).map fun s => (s.tx, (l.relook s expired).1)
  | .release .. | .releaseAll .. | .deliver => none

end LockEvent

namespace LockTable

/-- An event looks at a request of an older transaction that clashes with what `v` holds. -/
def Strikes (l : LockTable) (e : LockEvent) (v : TxId) : Prop :=
  ∃ u t m n, e.request? l = some (u, t, m) ∧ l.Hinders u t m v n

/-- An older transaction has struck at `v`, which has not given up everything since. -/
def Struck (l₀ : LockTable) (es : List LockEvent) (v : TxId) : Prop :=
  ∃ before e after, es = before ++ e :: after ∧ (l₀.run before).Strikes e v ∧
    .releaseAll v false ∉ after

/-- A request of a transaction is looked at in a run. -/
def Requests (l₀ : LockTable) (es : List LockEvent) (u : TxId) : Prop :=
  ∃ before e after t m, es = before ++ e :: after ∧ e.request? (l₀.run before) = some (u, t, m)

variable {l l₀ : LockTable} {e : LockEvent} {es : List LockEvent} {tx u v : TxId} {t : Target}
  {m : Mode}

theorem Struck.requests (h : l₀.Struck es v) : ∃ u, u.IsOlder v ∧ l₀.Requests es u := by
  obtain ⟨before, e, after, rfl, ⟨u, t, m, n, hr, hn⟩, -⟩ := h
  exact ⟨u, hn.younger, before, e, after, t, m, rfl, hr⟩

theorem doomed_ask (l : LockTable) (t : Target) (tx : TxId) (m : Mode) (expired : Bool) :
    (l.ask t tx m expired).2.doomed = (l.look t tx m false expired).2.doomed := by
  unfold ask
  split
  · rename_i hl
    rw [hl]
    rfl
  · rfl

theorem doomed_relook (l : LockTable) (s : Sleeper) (expired : Bool) :
    (l.relook s expired).2.doomed = (l.look s.target s.tx s.mode true expired).2.doomed := by
  unfold relook
  split <;> · rename_i hl; rw [hl]; rfl

theorem doomed_releaseOn (l : LockTable) (tx : TxId) (ms : List Mode) (ts : List Target) :
    (l.releaseOn tx ms ts).doomed = l.doomed :=
  List.foldlRecOn (motive := fun l' : LockTable => l'.doomed = l.doomed) ts _ rfl
    fun l' hl t _ => by
      rw [← hl, revokeModes_eq]
      split <;> rfl

theorem doomed_deliver (l : LockTable) : l.deliver.doomed = l.doomed := by
  unfold deliver
  split
  · rfl
  · dsimp only
    split <;> rfl

theorem not_doomed_releaseAll (l : LockTable) (v : TxId) : v ∉ (l.releaseAll v false).doomed :=
  fun hd => of_decide_eq_true (List.mem_filter.1 hd).2 rfl

theorem doomed_step (hv : v ∈ (l.step e).doomed) :
    v ∈ l.doomed ∧ e ≠ .releaseAll v false ∨ l.Strikes e v := by
  cases e with
  | ask t tx m expired =>
    rw [step, doomed_ask] at hv
    refine (doomed_look l t tx m false expired hv).imp (⟨·, fun h => by cases h⟩) ?_
    rintro ⟨hold, n, hn, hc⟩
    exact ⟨tx, t, m, n, rfl, hold, hn, hc⟩
  | relook ticket expired =>
    cases hs : l.sleeper? ticket with
    | none =>
      rw [step, hs] at hv
      exact .inl ⟨hv, fun h => by cases h⟩
    | some s =>
      rw [step, hs] at hv
      have hv : v ∈ (l.relook s expired).2.doomed := hv
      rw [doomed_relook] at hv
      refine (doomed_look l s.target s.tx s.mode true expired hv).imp (⟨·, fun h => by cases h⟩) ?_
      rintro ⟨hold, n, hn, hc⟩
      refine ⟨s.tx, s.target, s.mode, n, ?_, hold, hn, hc⟩
      rw [LockEvent.request?, hs, Option.map_some]
  | release t tx ms =>
    have hv : v ∈ (l.releaseOn tx ms [t]).doomed := hv
    rw [doomed_releaseOn] at hv
    exact .inl ⟨hv, fun h => by cases h⟩
  | releaseAll tx sharedOnly =>
    cases sharedOnly with
    | true =>
      have hv : v ∈ (l.releaseOn tx _ _).doomed := hv
      rw [doomed_releaseOn] at hv
      exact .inl ⟨hv, fun h => by cases h⟩
    | false =>
      have hold : v ∈ (l.releaseOn tx Mode.all (l.heldTargets tx)).doomed :=
        (List.mem_filter.1 hv).1
      rw [doomed_releaseOn] at hold
      refine .inl ⟨hold, ?_⟩
      rintro ⟨⟩
      exact not_doomed_releaseAll l v hv
  | deliver =>
    have hv : v ∈ l.deliver.doomed := hv
    rw [doomed_deliver] at hv
    exact .inl ⟨hv, fun h => by cases h⟩

theorem doomed_run (hv : v ∈ (l.run es).doomed) :
    v ∈ l.doomed ∧ .releaseAll v false ∉ es ∨ l.Struck es v := by
  induction es generalizing l with
  | nil => exact .inl ⟨hv, List.not_mem_nil⟩
  | cons e es ih =>
    rcases ih hv with ⟨hd, hno⟩ | ⟨before, f, after, rfl, hs, hno⟩
    · rcases doomed_step hd with ⟨hd, hne⟩ | hs
      · exact .inl ⟨hd, fun hm => (List.mem_cons.1 hm).elim (fun e => hne e.symm) hno⟩
      · exact .inr ⟨[], e, es, rfl, hs, hno⟩
    · exact .inr ⟨e :: before, f, after, rfl, hs, hno⟩

theorem doomed_of_wounded {waited expired : Bool}
    (h : (l.look t tx m waited expired).1 = .wounded) : tx ∈ l.doomed := by
  have hl := looked l t tx m waited expired
  generalize l.look t tx m waited expired = r at hl h
  cases hl with
  | wounded hb hd => exact hd
  | covered | granted | timedOut | waits => cases h

theorem doomed_of_answer (h : e.answer? l = some (tx, .wounded)) : tx ∈ l.doomed := by
  cases e with
  | ask t a m expired =>
    obtain ⟨rfl, hv⟩ := Prod.mk.inj (Option.some.inj h)
    have hlook : (l.look t a m false expired).1 = .wounded := by
      unfold ask at hv
      split at hv
      · cases hv
      · exact hv
    exact doomed_of_wounded hlook
  | relook ticket expired =>
    obtain ⟨s, -, he⟩ := Option.map_eq_some_iff.1 h
    obtain ⟨rfl, hv⟩ := Prod.mk.inj he
    have hlook : (l.look s.target s.tx s.mode true expired).1 = .wounded := by
      unfold relook at hv
      split at hv
      · cases hv
      · rename_i hl
        rw [hl]
        exact hv
    exact doomed_of_wounded hlook
  | release | releaseAll | deliver => cases h

end LockTable

namespace Scene

variable {σ₀ σ τ : Scene} {es : List LockTurn} {tx v : TxId} {q : Query} {bs : List TxId}

theorem Struck.older (h : σ₀.Struck es v) : ∃ u, u.IsOlder v ∧ .move (.advance u) ∈ es := by
  obtain ⟨before, e, after, σ, rfl, -, ⟨u, p, q, n, rfl, -, -, hn⟩, -⟩ := h
  exact ⟨u, hn.younger, List.mem_append_right _ List.mem_cons_self⟩

/-- The next step of a request is its last: it sees that its own transaction is doomed. -/
def TurnsAway (σ : Scene) (tx : TxId) : Prop :=
  ∃ q bs τ, σ.phases.find? tx = some (.checking q bs) ∧
    σ.turn (.move (.advance tx)) = some τ ∧ τ.phases.find? tx = none

theorem TurnsAway.doomed (h : σ.TurnsAway tx) : tx ∈ σ.table.doomed := by
  obtain ⟨q, bs, τ, hp, he, hn⟩ := h
  rw [Scene.turn, move_advance hp, Scene.advance] at he
  split at he
  · rename_i hd
    exact of_decide_eq_true hd
  · cases he
    rw [find?_goOn, if_pos rfl] at hn
    cases hn

/-- Whoever is doomed, or turned away as wounded, holds or has held something that an older
transaction has asked for, and has not given up everything since. So it is in every run of the steps
of calls, and where calls follow one another. -/
theorem doomed_by_older (place : Target → Nat) (anchors maxWait capacity : Nat) :
    let l₀ := LockTable.blank place anchors maxWait capacity
    (∀ es σ, (still l₀).turns es = some σ →
      (∀ v, v ∈ σ.table.doomed ∨ σ.TurnsAway v → (still l₀).Struck es v) ∧
      (∀ e τ v, σ.turn e = some τ → v ∈ τ.table.doomed → v ∉ σ.table.doomed → σ.Strikes e v) ∧
      (∀ v, (∀ u, u.IsOlder v → .move (.advance u) ∉ es) →
        v ∉ σ.table.doomed ∧ ¬ σ.TurnsAway v) ∧
      ∀ v, σ.phases.find? v = some .forgetting → ∀ τ, σ.turn (.move (.advance v)) = some τ →
        v ∉ τ.table.doomed) ∧
    ∀ es, let l := l₀.run es
      (∀ v, v ∈ l.doomed ∨ (∃ e : LockEvent, e.answer? l = some (v, .wounded)) →
        l₀.Struck es v) ∧
      (∀ e v, v ∈ (l.step e).doomed → v ∉ l.doomed → l.Strikes e v) ∧
      (∀ v, (∀ u, u.IsOlder v → ¬ l₀.Requests es u) →
        v ∉ l.doomed ∧ ∀ e : LockEvent, e.answer? l ≠ some (v, .wounded)) ∧
      ∀ v, v ∉ (l.releaseAll v false).doomed := by
  intro l₀
  have hblank : (still l₀).Aimed := aimed_blank place anchors maxWait capacity
  constructor
  · intro es σ hσ
    have h : σ.Aimed := hblank.turns hσ
    have hstruck : ∀ v, v ∈ σ.table.doomed ∨ σ.TurnsAway v → (still l₀).Struck es v := by
      intro v hv
      refine (hblank.doomed_turns hσ (hv.elim id TurnsAway.doomed)).resolve_left ?_
      exact fun hc => List.not_mem_nil hc.1
    refine ⟨hstruck, fun e τ v he hv hno => ?_, fun v hyoung => ?_, fun v hp τ he => ?_⟩
    · exact (h.doomed he hv).resolve_left fun hc => hno hc.1
    · rw [← not_or]
      intro hv
      obtain ⟨u, hold, hmem⟩ := (hstruck v hv).older
      exact hyoung u hold hmem
    · have hd : v ∉ σ.table.doomed := h.aims v _ hp
      rw [Scene.turn, move_advance hp] at he
      cases he
      exact hd
  · intro es l
    have hstruck : ∀ v, v ∈ l.doomed ∨ (∃ e : LockEvent, e.answer? l = some (v, .wounded)) →
        l₀.Struck es v := by
      intro v hv
      have hd : v ∈ l.doomed := by
        rcases hv with hd | ⟨e, he⟩
        · exact hd
        · exact LockTable.doomed_of_answer he
      exact (LockTable.doomed_run hd).resolve_left fun hc => List.not_mem_nil hc.1
    refine ⟨hstruck, fun e v hv hno => ?_, fun v hyoung => ?_, LockTable.not_doomed_releaseAll l⟩
    · exact (LockTable.doomed_step hv).resolve_left fun hc => hno hc.1
    · rw [← not_exists, ← not_or]
      intro hv
      obtain ⟨u, hold, hr⟩ := (hstruck v hv).requests
      exact hyoung u hold hr

/-- The younger of two transactions holds what the older one asks for, and then asks for what the
older one holds. -/
def hunted : List LockTurn :=
  [.move (.ask (.file "a") ⟨1⟩ .x), .move (.advance ⟨1⟩), .move (.ask (.file "bb") ⟨0⟩ .x),
    .move (.advance ⟨0⟩), .move (.ask (.file "a") ⟨0⟩ .s), .move (.advance ⟨0⟩),
    .move (.advance ⟨0⟩), .move (.advance ⟨0⟩), .move (.advance ⟨0⟩), .move (.advance ⟨0⟩),
    .move (.ask (.file "bb") ⟨1⟩ .s), .move (.advance ⟨1⟩)]

def away : List LockTurn :=
  [.move (.advance ⟨1⟩), .move (.releaseAll ⟨1⟩ false), .move (.advance ⟨1⟩),
    .move (.advance ⟨1⟩), .move (.advance ⟨1⟩), .move (.advance ⟨1⟩), .move (.advance ⟨1⟩)]

theorem doomed_by_older_hunted :
    let l₀ := LockTable.blank (fun t => t.fileName.length) 2 9 4
    let es : List LockEvent := [.ask (.file "a") ⟨1⟩ .x false, .ask (.file "bb") ⟨0⟩ .x false,
      .ask (.file "a") ⟨0⟩ .s false]
    (∃ σ, (still l₀).turns hunted = some σ ∧ ⟨1⟩ ∈ σ.table.doomed ∧ σ.TurnsAway ⟨1⟩ ∧
      (still l₀).Struck hunted ⟨1⟩ ∧ ⟨0⟩ ∉ σ.table.doomed ∧ ¬ σ.TurnsAway ⟨0⟩) ∧
    (∃ σ τ, (still l₀).turns (hunted ++ away) = some σ ∧
      σ.turn (.move (.advance ⟨1⟩)) = some τ ∧ ⟨1⟩ ∉ τ.table.doomed) ∧
    ⟨1⟩ ∈ (l₀.run es).doomed ∧
    (LockEvent.ask (.file "bb") ⟨1⟩ .s false).answer? (l₀.run es) = some (⟨1⟩, .wounded) ∧
    l₀.Struck es ⟨1⟩ ∧ ⟨0⟩ ∉ (l₀.run es).doomed := by
  intro l₀ es
  obtain ⟨hturns, hcalls⟩ := doomed_by_older (fun t => t.fileName.length) 2 9 4
  have hyoung : ∀ u : TxId, ¬ u.IsOlder ⟨0⟩ := fun u => Nat.not_lt_zero u.num
  refine ⟨?_, ?_, ?_⟩
  · have hp : ((still l₀).turns hunted).bind (·.phases.find? ⟨1⟩) =
        some (.checking ⟨.file "bb", .s, none⟩ [⟨0⟩]) := by decide +kernel
    have hnext : ((still l₀).turns hunted).any fun σ =>
        (σ.turn (.move (.advance ⟨1⟩))).any fun τ => (τ.phases.find? ⟨1⟩).isNone := by
      decide +kernel
    obtain ⟨σ, hσ, hp⟩ := Option.bind_eq_some_iff.1 hp
    rw [hσ, Option.any_some] at hnext
    obtain ⟨τ, hτ, hn⟩ := (Option.any_eq_true _ _).1 hnext
    have haway : σ.TurnsAway ⟨1⟩ := ⟨_, _, τ, hp, hτ, Option.isNone_iff_eq_none.1 hn⟩
    obtain ⟨hstruck, -, hold, -⟩ := hturns hunted σ hσ
    exact ⟨σ, hσ, haway.doomed, haway, hstruck ⟨1⟩ (.inr haway),
      hold ⟨0⟩ fun u hu => absurd hu (hyoung u)⟩
  · have hp : ((still l₀).turns (hunted ++ away)).bind (·.phases.find? ⟨1⟩) =
        some .forgetting := by decide +kernel
    have hnext : ((still l₀).turns (hunted ++ away)).any fun σ =>
        (σ.turn (.move (.advance ⟨1⟩))).isSome := by decide +kernel
    obtain ⟨σ, hσ, hp⟩ := Option.bind_eq_some_iff.1 hp
    rw [hσ, Option.any_some] at hnext
    obtain ⟨τ, hτ⟩ := Option.isSome_iff_exists.1 hnext
    exact ⟨σ, τ, hσ, hτ, (hturns _ σ hσ).2.2.2 ⟨1⟩ hp τ hτ⟩
  · have hd : ⟨1⟩ ∈ (l₀.run es).doomed := by decide +kernel
    have hw : (LockEvent.ask (.file "bb") ⟨1⟩ .s false).answer? (l₀.run es) =
        some (⟨1⟩, .wounded) := by decide +kernel
    obtain ⟨hstruck, -, hold, -⟩ := hcalls es
    exact ⟨hd, hw, hstruck ⟨1⟩ (.inl hd), (hold ⟨0⟩ fun u hu => absurd hu (hyoung u)).1⟩

end Scene

end PagedStore
