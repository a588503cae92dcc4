import PagedStore.Proofs.Lock.Wounded

set_option autoImplicit false

/-!
What else can come between the steps of calls on a lock table: the time to wait of a request is
over, a wakeup finds no room in the queue, and a release goes through its targets in an order of its
own. Main statement: `Scene.turns_whole`, by which every run of whole calls is made of such turns.
-/

namespace PagedStore

inductive LockTurn where
  | move (m : LockMove)
  /-- A request whose time is over gives up when it has wounded those who are in its way. -/
  | expire (tx : TxId)
  /-- A wakeup is dropped for want of room. -/
  | skip (tx : TxId)
  /-- A release of everything begins, and is to go through the targets in this order. -/
  | visit (tx : TxId) (sharedOnly : Bool) (ts : List Target)

namespace LockTurn

def Begins (tx : TxId) : LockTurn → Prop
  | .move (.ask _ a _) | .move (.release _ a _) | .move (.releaseAll a _) => a = tx
  | .visit a _ _ => a = tx
  | .move (.relook _) | .move (.advance _) | .move .fetch | .move .address | .move .wake => False
  | .expire _ | .skip _ => False

/-- Whose turn it is; the courier is nobody. -/
def mover? (l : LockTable) : LockTurn → Option TxId
  | .move (.ask _ a _) | .move (.release _ a _) | .move (.releaseAll a _) => some a
  | .move (.advance a) | .visit a _ _ | .expire a | .skip a => some a
  | .move (.relook ticket) => (l.sleeper? ticket).map Sleeper.tx
  | .move .fetch | .move .address | .move .wake => none

end LockTurn

namespace Scene

/-- A request whose time is over is turned away. -/
def expire (σ : Scene) (tx : TxId) : Option LockPhase → Option Scene
  | some (.wounding q []) =>
    some (σ.rest tx ((σ.table.stopWaiting q.target tx).rise q.ticket?))
  | _ => none

def skip (σ : Scene) (tx : TxId) : Option LockPhase → Option Scene
  | some (.posting q _ vs) =>
    if σ.table.wakeups.capacity ≤ σ.table.wakeups.queue.length then
      some (σ.goOn tx (.wounding q vs) σ.table)
    else none
  | _ => none

def turn (σ : Scene) : LockTurn → Option Scene
  | .move m => σ.move m
  | .expire tx => σ.expire tx (σ.phases.find? tx)
  | .skip tx => σ.skip tx (σ.phases.find? tx)
  | .visit tx sharedOnly ts =>
    if σ.isIdle tx ∧ ts.Perm (σ.table.heldTargets tx) then
      some (σ.goOn tx (.releasing (LockTable.given sharedOnly) ts (!sharedOnly)) σ.table)
    else none

def turns (σ : Scene) : List LockTurn → Option Scene
  | [] => some σ
  | e :: es => (σ.turn e).bind fun τ => τ.turns es

variable {σ τ υ : Scene} {tx : TxId}

theorem expire_eq_some {p : Option LockPhase} (h : σ.expire tx p = some τ) :
    ∃ q, p = some (.wounding q []) ∧
      τ = σ.rest tx ((σ.table.stopWaiting q.target tx).rise q.ticket?) := by
  unfold expire at h
  split at h
  · rename_i q
    exact ⟨q, rfl, (Option.some.inj h).symm⟩
  · cases h

theorem skip_eq_some {p : Option LockPhase} (h : σ.skip tx p = some τ) :
    ∃ q v vs, p = some (.posting q v vs) ∧ τ = σ.goOn tx (.wounding q vs) σ.table := by
  unfold skip at h
  split at h
  · rename_i q v vs
    split at h
    · exact ⟨q, v, vs, rfl, (Option.some.inj h).symm⟩
    · cases h
  · cases h

theorem visit_eq_some {sharedOnly : Bool} {ts : List Target}
    (h : σ.turn (.visit tx sharedOnly ts) = some τ) :
    (σ.phases.find? tx = none ∧ ¬ σ.table.Sleeps tx) ∧ ts.Perm (σ.table.heldTargets tx) ∧
      τ = σ.goOn tx (.releasing (LockTable.given sharedOnly) ts (!sharedOnly)) σ.table := by
  simp only [turn] at h
  split at h
  · rename_i hc
    exact ⟨not_sleeps_of_isIdle hc.1, hc.2, (Option.some.inj h).symm⟩
  · cases h

theorem turns_append (σ : Scene) (es fs : List LockTurn) :
    σ.turns (es ++ fs) = (σ.turns es).bind fun τ => τ.turns fs := by
  induction es generalizing σ with
  | nil => rfl
  | cons e es ih =>
    rw [List.cons_append, turns, turns]
    cases σ.turn e with
    | none => rfl
    | some τ => exact ih τ

def Turns (σ τ : Scene) : Prop := ∃ es, σ.turns es = some τ

theorem Turns.refl (σ : Scene) : Turns σ σ := ⟨[], rfl⟩

theorem Turns.trans (h : Turns σ τ) (k : Turns τ υ) : Turns σ υ := by
  obtain ⟨es, hes⟩ := h
  obtain ⟨fs, hfs⟩ := k
  exact ⟨es ++ fs, by rw [turns_append, hes, Option.bind_some, hfs]⟩

theorem Turns.turn {e : LockTurn} (h : σ.turn e = some τ) (k : Turns τ υ) : Turns σ υ := by
  obtain ⟨es, hes⟩ := k
  exact ⟨e :: es, by rw [turns, h, Option.bind_some, hes]⟩

theorem Runs.turns (h : Runs σ τ) : Turns σ τ := by
  obtain ⟨ms, hms⟩ := h
  induction ms generalizing σ with
  | nil => exact ⟨[], hms⟩
  | cons m ms ih =>
    rw [run, Option.bind_eq_some_iff] at hms
    obtain ⟨υ, hm, hr⟩ := hms
    exact .turn (e := .move m) hm (ih hr)

variable {l l' : LockTable} {q : Query}

theorem Turns.goOn {p p' : LockPhase}
    (h : (amid l tx p).advance tx p = some ((amid l tx p).goOn tx p' l')) :
    Turns (amid l tx p) (amid l' tx p') := (Runs.goOn h (.refl _)).turns

theorem find?_amid (l : LockTable) (tx : TxId) (p : LockPhase) :
    (amid l tx p).phases.find? tx = some p := Registry.find?_insert_self ..

theorem turns_wounding (vs : List TxId) :
    Turns (amid l tx (.wounding q vs)) (amid (vs.foldl LockTable.wound l) tx (.wounding q [])) := by
  induction vs generalizing l with
  | nil => exact .refl _
  | cons v vs ih =>
    refine .trans ?_ (ih (l := l.wound v))
    rw [LockTable.wound_eq]
    by_cases hv : l.isDoomed v
    · rw [if_pos hv]
      exact .goOn (if_pos hv)
    · rw [if_neg hv]
      have hmark : Turns (amid l tx (.wounding q (v :: vs)))
          (amid (l.mark v) tx (.posting q v vs)) := .goOn (if_neg hv)
      refine hmark.trans ?_
      by_cases hroom : l.wakeups.queue.length < l.wakeups.capacity
      · have hpost : v ∈ ((l.mark v).post v).wakeups.queue := by
          have hr : (l.mark v).wakeups.queue.length < (l.mark v).wakeups.capacity := hroom
          simp [LockTable.post, Mailbox.post, hr]
        exact .goOn (if_pos hpost)
      · have hdrop : (l.mark v).post v = l.mark v := by
          have hr : ¬ (l.mark v).wakeups.queue.length < (l.mark v).wakeups.capacity := hroom
          simp [LockTable.post, Mailbox.post, hr]
        have hfull : (l.mark v).wakeups.capacity ≤ (l.mark v).wakeups.queue.length :=
          Nat.le_of_not_lt hroom
        rw [hdrop]
        refine .turn (e := .skip tx) ?_ (.refl _)
        rw [Scene.turn, find?_amid, Scene.skip, table_amid, if_pos hfull, goOn_amid]

theorem turns_blocked (bs : List TxId) :
    (tx ∈ l.doomed → Turns (amid l tx (.recording q bs))
      (still (((l.blocked q.target tx).stopWaiting q.target tx).rise q.ticket?))) ∧
    (tx ∉ l.doomed → Turns (amid l tx (.recording q bs))
      (amid ((l.blocked q.target tx).woundYounger tx bs) tx (.wounding q []))) := by
  constructor
  · intro hd
    have hd' : (l.blocked q.target tx).isDoomed tx := decide_eq_true hd
    exact .trans (.goOn rfl) (Runs.rest (p := .checking q bs) (if_pos hd')).turns
  · intro hd
    have hd' : ¬ (l.blocked q.target tx).isDoomed tx := fun hc => hd (of_decide_eq_true hc)
    have hcheck : Turns (amid (l.blocked q.target tx) tx (.checking q bs))
        (amid (l.blocked q.target tx) tx (.wounding q (bs.filter fun b => tx.IsOlder b))) :=
      .goOn (if_neg hd')
    exact .trans (.goOn rfl) (hcheck.trans (turns_wounding _))

theorem turns_consider (expired : Bool) : Turns ((still l).consider tx q)
    (still (LockTable.conclude tx q (l.look q.target tx q.mode q.ticket?.isSome expired))) := by
  have hl := LockTable.looked l q.target tx q.mode q.ticket?.isSome expired
  have hc' : (l.holders q.target).blockers tx q.mode ≠ [] →
      ¬ (l.holders q.target).covers tx q.mode → (still l).consider tx q =
        amid l tx (.recording q ((l.holders q.target).blockers tx q.mode)) :=
    fun hb hc => consider_of_blocked (σ := still l) hc hb
  by_cases hc : (l.holders q.target).covers tx q.mode
  · have he : l.look q.target tx q.mode q.ticket?.isSome expired =
        (.granted, l.settle q.target tx (l.holders q.target) q.ticket?.isSome) := if_pos hc
    rw [consider_of_covers (σ := still l) hc, he]
    exact (runs_gain _).turns
  · generalize l.look q.target tx q.mode q.ticket?.isSome expired = r at hl
    cases hl with
    | covered hcov => exact absurd hcov hc
    | granted hcov hb =>
      rw [consider_of_free (σ := still l) hc hb]
      exact (runs_gain _).turns
    | wounded hb hd =>
      rw [hc' hb hc]
      exact (turns_blocked _).1 hd
    | timedOut hb hd he =>
      rw [hc' hb hc]
      refine ((turns_blocked _).2 hd).trans (.turn (e := .expire tx) ?_ (.refl _))
      rw [Scene.turn, find?_amid, Scene.expire, table_amid, rest_amid]
      rfl
    | waits hb hd he =>
      rw [hc' hb hc]
      refine ((turns_blocked _).2 hd).trans ?_
      have hp : Turns (amid ((l.blocked q.target tx).woundYounger tx
            ((l.holders q.target).blockers tx q.mode)) tx (.wounding q []))
          (still (((l.blocked q.target tx).woundYounger tx
            ((l.holders q.target).blockers tx q.mode)).park tx q)) := (Runs.rest rfl).turns
      rw [LockTable.park, LockTable.holders_woundYounger, LockTable.holders_blocked] at hp
      exact hp

theorem turns_step {e : LockEvent} (hp : l.Permits e) : Turns (still l) (still (l.step e)) := by
  cases e with
  | ask t tx m expired =>
    simp only [LockTable.step, LockTable.ask_eq]
    exact .turn (e := .move (.ask t tx m)) (if_pos ⟨isIdle_still hp, isFree_still ..⟩)
      (turns_consider (q := { target := t, mode := m }) expired)
  | relook ticket expired =>
    cases hs : l.sleeper? ticket with
    | none =>
      simp only [LockTable.step, hs]
      exact .refl _
    | some s =>
      simp only [LockTable.step, hs, LockTable.relook_eq]
      obtain rfl := (LockTable.mem_sleeper hs).2
      refine .turn (e := .move (.relook s.ticket)) ?_ (turns_consider (q :=
        { target := s.target, mode := s.mode, ticket? := some s.ticket }) expired)
      simp only [Scene.turn, move, table_still, hs]
      exact if_pos ⟨rfl, isFree_still ..⟩
  | release t tx ms =>
    exact (Runs.move (m := .release t tx ms) (if_pos (isIdle_still hp))
      (.trans (runs_releasing ms [t] false) (.rest rfl))).turns
  | releaseAll tx sharedOnly => exact (runs_releaseAll hp sharedOnly).turns
  | deliver => exact (runs_deliver l).turns

end Scene

namespace LockTable

def Obeys (l : LockTable) : List LockEvent → Prop
  | [] => True
  | e :: es => l.Permits e ∧ (l.step e).Obeys es

instance instDecidableObeys : (l : LockTable) → (es : List LockEvent) → Decidable (l.Obeys es)
  | _, [] => inferInstanceAs (Decidable True)
  | l, e :: es =>
    have := instDecidableObeys (l.step e) es
    inferInstanceAs (Decidable (l.Permits e ∧ (l.step e).Obeys es))

end LockTable

/-- Calls that follow one another are a run of turns, also where they run out of time and where
wakeups are dropped. -/
theorem Scene.turns_whole {l : LockTable} {es : List LockEvent} (h : l.Obeys es) :
    Turns (still l) (still (l.run es)) := by
  induction es generalizing l with
  | nil => exact .refl _
  | cons e es ih =>
    obtain ⟨hp, h⟩ := h
    exact (turns_step hp).trans (ih h)

end PagedStore
