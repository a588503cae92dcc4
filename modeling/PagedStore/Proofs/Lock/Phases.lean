import PagedStore.Proofs.Lock.Deadlock

set_option autoImplicit false

/-!
The calls of a lock table taken apart into the steps that those of other transactions can come
between. A call keeps its target's anchor to itself from its look at the holders until it waits or
has failed; the doomed, the recorded anchors and the queue of wakeups are open to all in the
meantime. Main statement: `Scene.runs_whole`, by which a run of whole calls is one of their steps.
-/

namespace PagedStore

/-- A request that is being looked at, with the ticket of its sleeper if it has waited before. -/
structure Query where
  target : Target
  mode : Mode
  ticket? : Option Nat := none
  deriving DecidableEq

/-- How far a transaction has got in a call. -/
inductive LockPhase where
  /-- Others are in its way; the anchor it would wait at is to be recorded. -/
  | recording (q : Query) (inTheWay : List TxId)
  /-- It has yet to see whether it is doomed itself. -/
  | checking (q : Query) (inTheWay : List TxId)
  /-- These are still to be wounded, and then it waits. -/
  | wounding (q : Query) (victims : List TxId)
  /-- It has doomed a victim, whose wakeup is yet to be queued. -/
  | posting (q : Query) (victim : TxId) (victims : List TxId)
  /-- It has what it waited for, and the anchor is to be forgotten. -/
  | unrecording (t : Target)
  /-- It has what it asked for, which is to be listed. -/
  | listing (t : Target)
  /-- Modes on these targets are still to be given up; `leaving` says that all else goes, too. -/
  | releasing (ms : List Mode) (ts : List Target) (leaving : Bool)
  /-- It holds nothing any more on a target that is still listed. -/
  | unlisting (t : Target) (ms : List Mode) (ts : List Target) (leaving : Bool)
  | disowning
  | pardoning
  | forgetting
  deriving DecidableEq

/-- A wakeup that the courier has taken out of the queue. -/
inductive Parcel where
  | wakeup (tx : TxId)
  /-- It was looked up where the transaction waits. -/
  | addressed (anchor : Nat)

namespace LockPhase

def query? : LockPhase → Option Query
  | .recording q _ | .checking q _ | .wounding q _ | .posting q _ _ => some q
  | .unrecording _ | .listing _ | .releasing .. | .unlisting .. => none
  | .disowning | .pardoning | .forgetting => none

/-- The anchor that a call in this phase keeps to itself. -/
def anchor? (p : LockPhase) (l : LockTable) : Option Nat :=
  p.query?.map fun q => l.anchorOf q.target

end LockPhase

namespace LockTable

def mark (l : LockTable) (v : TxId) : LockTable := { l with doomed := v :: l.doomed }

def post (l : LockTable) (v : TxId) : LockTable := { l with wakeups := (l.wakeups.post v).2 }

theorem wound_eq (l : LockTable) (v : TxId) :
    l.wound v = if l.isDoomed v then l else (l.mark v).post v := rfl

def rise (l : LockTable) : Option Nat → LockTable
  | none => l
  | some ticket => l.removeSleeper ticket

def obtain (l : LockTable) (tx : TxId) (q : Query) (h : Holders) : LockTable :=
  (l.setHolders q.target (h.unawait tx)).rise q.ticket?

def park (l : LockTable) (tx : TxId) (q : Query) : LockTable :=
  let l := l.setHolders q.target ((l.holders q.target).await tx)
  match q.ticket? with
  | none => l.fallAsleep q.target tx q.mode
  | some ticket => l.sleepAgain ticket

def strip (l : LockTable) (t : Target) (tx : TxId) (ms : List Mode) : LockTable :=
  (l.setHolders t ((l.holders t).revokeAll tx ms)).wakeAnchor (l.anchorOf t)

theorem revokeModes_eq (l : LockTable) (t : Target) (tx : TxId) (ms : List Mode) :
    l.revokeModes t tx ms =
      if (((l.holders t).revokeAll tx ms).modesOf tx).isEmpty then (l.strip t tx ms).dropHeld tx t
      else l.strip t tx ms := rfl

end LockTable

/-- A lock table with the calls that are under way, one for each transaction at most, and with what
the courier of the wakeups has in its hands. -/
structure Scene where
  table : LockTable
  phases : Registry TxId LockPhase := .empty
  parcel : Option Parcel := none

inductive LockMove where
  | ask (t : Target) (tx : TxId) (m : Mode)
  | relook (ticket : Nat)
  | release (t : Target) (tx : TxId) (ms : List Mode)
  | releaseAll (tx : TxId) (sharedOnly : Bool)
  | advance (tx : TxId)
  | fetch
  | address
  | wake

namespace Scene

def isFree (σ : Scene) (anchor : Nat) : Bool :=
  σ.phases.entries.all fun e => e.2.anchor? σ.table ≠ some anchor

def isIdle (σ : Scene) (tx : TxId) : Bool :=
  (σ.phases.find? tx).isNone && decide (¬ σ.table.Sleeps tx)

def goOn (σ : Scene) (tx : TxId) (p : LockPhase) (l : LockTable) : Scene :=
  { σ with table := l, phases := σ.phases.insert tx p }

def rest (σ : Scene) (tx : TxId) (l : LockTable) : Scene :=
  { σ with table := l, phases := σ.phases.erase tx }

def gain (σ : Scene) (tx : TxId) (q : Query) (h : Holders) : Scene :=
  σ.goOn tx (if q.ticket?.isSome then .unrecording q.target else .listing q.target)
    (σ.table.obtain tx q h)

/-- The first step of a look: what can be seen while the anchor is kept. -/
def consider (σ : Scene) (tx : TxId) (q : Query) : Scene :=
  let h := σ.table.holders q.target
  if h.covers tx q.mode then σ.gain tx q h
  else
    let inTheWay := h.blockers tx q.mode
    if inTheWay.isEmpty then σ.gain tx q (h.grant tx q.mode)
    else σ.goOn tx (.recording q inTheWay) σ.table

/-- The next step of a call. A release waits for its target's anchor, and the queue of wakeups has
room or holds the wakeup already. -/
def advance (σ : Scene) (tx : TxId) : LockPhase → Option Scene
  | .recording q bs => some (σ.goOn tx (.checking q bs) (σ.table.blocked q.target tx))
  | .checking q bs =>
    if σ.table.isDoomed tx then
      some (σ.rest tx ((σ.table.stopWaiting q.target tx).rise q.ticket?))
    else some (σ.goOn tx (.wounding q (bs.filter fun b => tx.IsOlder b)) σ.table)
  | .wounding q [] => some (σ.rest tx (σ.table.park tx q))
  | .wounding q (v :: vs) =>
    if σ.table.isDoomed v then some (σ.goOn tx (.wounding q vs) σ.table)
    else some (σ.goOn tx (.posting q v vs) (σ.table.mark v))
  | .posting q v vs =>
    if v ∈ (σ.table.post v).wakeups.queue then
      some (σ.goOn tx (.wounding q vs) (σ.table.post v))
    else none
  | .unrecording t =>
    some (σ.goOn tx (.listing t) { σ.table with lastAnchor := σ.table.lastAnchor.erase tx })
  | .listing t => some (σ.rest tx (σ.table.addHeld tx t))
  | .releasing _ [] false => some (σ.rest tx σ.table)
  | .releasing _ [] true => some (σ.goOn tx .disowning σ.table)
  | .releasing ms (t :: ts) leaving =>
    if σ.isFree (σ.table.anchorOf t) then
      let next : LockPhase :=
        if (((σ.table.holders t).revokeAll tx ms).modesOf tx).isEmpty then
          .unlisting t ms ts leaving
        else .releasing ms ts leaving
      some (σ.goOn tx next (σ.table.strip t tx ms))
    else none
  | .unlisting t ms ts leaving =>
    some (σ.goOn tx (.releasing ms ts leaving) (σ.table.dropHeld tx t))
  | .disowning =>
    some (σ.goOn tx .pardoning { σ.table with held := σ.table.held.erase tx })
  | .pardoning =>
    some (σ.goOn tx .forgetting { σ.table with doomed := σ.table.doomed.filter (· ≠ tx) })
  | .forgetting =>
    some (σ.rest tx { σ.table with lastAnchor := σ.table.lastAnchor.erase tx })

def move (σ : Scene) : LockMove → Option Scene
  | .ask t tx m =>
    if σ.isIdle tx ∧ σ.isFree (σ.table.anchorOf t) then
      some (σ.consider tx { target := t, mode := m })
    else none
  | .relook ticket =>
    match σ.table.sleeper? ticket with
    | none => none
    | some s =>
      if (σ.phases.find? s.tx).isNone ∧ σ.isFree (σ.table.anchorOf s.target) then
        some (σ.consider s.tx { target := s.target, mode := s.mode, ticket? := some ticket })
      else none
  | .release t tx ms =>
    if σ.isIdle tx then some (σ.goOn tx (.releasing ms [t] false) σ.table) else none
  | .releaseAll tx sharedOnly =>
    if σ.isIdle tx then
      some (σ.goOn tx (.releasing (LockTable.given sharedOnly) (σ.table.heldTargets tx)
        (!sharedOnly)) σ.table)
    else none
  | .advance tx =>
    match σ.phases.find? tx with
    | none => none
    | some p => σ.advance tx p
  | .fetch =>
    match σ.parcel, σ.table.wakeups.take? with
    | none, some (tx, wakeups) =>
      some { σ with table := { σ.table with wakeups }, parcel := some (.wakeup tx) }
    | _, _ => none
  | .address =>
    match σ.parcel with
    | some (.wakeup tx) => some { σ with parcel := (σ.table.lastAnchor.find? tx).map .addressed }
    | _ => none
  | .wake =>
    match σ.parcel with
    | some (.addressed anchor) =>
      if σ.isFree anchor then
        some { σ with table := σ.table.wakeAnchor anchor, parcel := none }
      else none
    | _ => none

def run (σ : Scene) : List LockMove → Option Scene
  | [] => some σ
  | m :: ms => (σ.move m).bind fun τ => τ.run ms

def Runs (σ τ : Scene) : Prop := ∃ ms, σ.run ms = some τ

theorem Runs.refl (σ : Scene) : Runs σ σ := ⟨[], rfl⟩

theorem Runs.move {σ τ υ : Scene} {m : LockMove} (h : σ.move m = some τ) (k : Runs τ υ) :
    Runs σ υ := by
  obtain ⟨ms, hms⟩ := k
  exact ⟨m :: ms, by rw [run, h, Option.bind_some, hms]⟩

theorem run_append (σ : Scene) (ms ns : List LockMove) :
    σ.run (ms ++ ns) = (σ.run ms).bind fun τ => τ.run ns := by
  induction ms generalizing σ with
  | nil => rfl
  | cons m ms ih =>
    rw [List.cons_append, run, run]
    cases σ.move m with
    | none => rfl
    | some τ => exact ih τ

theorem Runs.trans {σ τ υ : Scene} (h : Runs σ τ) (k : Runs τ υ) : Runs σ υ := by
  obtain ⟨ms, hms⟩ := h
  obtain ⟨ns, hns⟩ := k
  exact ⟨ms ++ ns, by rw [run_append, hms, Option.bind_some, hns]⟩

def still (l : LockTable) : Scene := { table := l }

def amid (l : LockTable) (tx : TxId) (p : LockPhase) : Scene :=
  { table := l, phases := Registry.empty.insert tx p }

@[simp] theorem goOn_amid (l l' : LockTable) (tx : TxId) (p p' : LockPhase) :
    (amid l tx p).goOn tx p' l' = amid l' tx p' := by
  simp [goOn, amid, Registry.insert, Registry.empty]

@[simp] theorem rest_amid (l l' : LockTable) (tx : TxId) (p : LockPhase) :
    (amid l tx p).rest tx l' = still l' := by
  simp [rest, amid, still, Registry.insert, Registry.erase, Registry.empty]

@[simp] theorem table_still (l : LockTable) : (still l).table = l := rfl

@[simp] theorem table_amid (l : LockTable) (tx : TxId) (p : LockPhase) :
    (amid l tx p).table = l := rfl

theorem Runs.goOn {l l' : LockTable} {tx : TxId} {p p' : LockPhase} {τ : Scene}
    (h : (amid l tx p).advance tx p = some ((amid l tx p).goOn tx p' l'))
    (k : Runs (amid l' tx p') τ) : Runs (amid l tx p) τ := by
  rw [goOn_amid] at h
  refine .move (m := .advance tx) ?_ k
  simpa [Scene.move, amid] using h

theorem Runs.rest {l l' : LockTable} {tx : TxId} {p : LockPhase}
    (h : (amid l tx p).advance tx p = some ((amid l tx p).rest tx l')) :
    Runs (amid l tx p) (still l') := by
  rw [rest_amid] at h
  refine .move (m := .advance tx) ?_ (.refl _)
  simpa [Scene.move, amid] using h

end Scene

namespace LockTable

def conclude (tx : TxId) (q : Query) : Verdict × LockTable → LockTable
  | (.waits, l) =>
    match q.ticket? with
    | none => l.fallAsleep q.target tx q.mode
    | some ticket => l.sleepAgain ticket
  | (.granted, l) | (.wounded, l) | (.timedOut, l) => l.rise q.ticket?

theorem ask_eq (l : LockTable) (t : Target) (tx : TxId) (m : Mode) (expired : Bool) :
    (l.ask t tx m expired).2 =
      conclude tx { target := t, mode := m } (l.look t tx m false expired) := by
  unfold ask
  generalize l.look t tx m false expired = r
  obtain ⟨v, l'⟩ := r
  cases v <;> rfl

theorem relook_eq (l : LockTable) (s : Sleeper) (expired : Bool) :
    (l.relook s expired).2 =
      conclude s.tx { target := s.target, mode := s.mode, ticket? := some s.ticket }
        (l.look s.target s.tx s.mode true expired) := by
  unfold relook
  generalize l.look s.target s.tx s.mode true expired = r
  obtain ⟨v, l'⟩ := r
  cases v <;> rfl

theorem doomed_foldl_wound {v : TxId} (vs : List TxId) {l : LockTable} (hd : v ∈ l.doomed) :
    v ∈ (vs.foldl wound l).doomed :=
  List.foldlRecOn vs wound hd fun l hl w _ => (doomed_wound l w v).2 (.inl hl)

/-- Wounding others does not queue a wakeup for one who is doomed. -/
theorem queue_of_foldl_wound {v : TxId} (vs : List TxId) {l : LockTable} (hd : v ∈ l.doomed)
    (h : v ∈ (vs.foldl wound l).wakeups.queue) : v ∈ l.wakeups.queue := by
  induction vs generalizing l with
  | nil => exact h
  | cons w vs ih =>
    have hw : v ∈ (l.wound w).wakeups.queue := ih ((doomed_wound l w v).2 (.inl hd)) h
    unfold wound at hw
    split at hw
    · exact hw
    · rename_i hne
      simp only [Mailbox.post] at hw
      split at hw
      · rcases List.mem_append.1 hw with hm | hm
        · exact hm
        · obtain rfl := List.mem_singleton.1 hm
          exact absurd (decide_eq_true hd) hne
      · exact hw

end LockTable

namespace Scene

variable {l : LockTable} {tx : TxId} {q : Query}

theorem runs_gain (h : Holders) : Runs ((still l).gain tx q h)
    (still ((l.settle q.target tx h q.ticket?.isSome).rise q.ticket?)) := by
  obtain ⟨t, m, ticket?⟩ := q
  cases ticket? with
  | none => exact .rest rfl
  | some ticket => exact .goOn rfl (.rest rfl)

theorem runs_wounding {vs : List TxId} (h : l.QueuesWakeups (vs.foldl LockTable.wound l)) :
    Runs (amid l tx (.wounding q vs)) (amid (vs.foldl LockTable.wound l) tx (.wounding q [])) := by
  induction vs generalizing l with
  | nil => exact .refl _
  | cons v vs ih =>
    have hnext : (l.wound v).QueuesWakeups (vs.foldl LockTable.wound (l.wound v)) := by
      intro w hw hno
      exact h w hw fun hd => hno ((LockTable.doomed_wound l v w).2 (.inl hd))
    refine .trans ?_ (ih hnext)
    by_cases hv : l.isDoomed v
    · rw [LockTable.wound_eq, if_pos hv]
      exact .goOn (if_pos hv) (.refl _)
    · have hnd : v ∉ l.doomed := fun hd => hv (decide_eq_true hd)
      have hw : v ∈ (l.wound v).doomed := (LockTable.doomed_wound l v v).2 (.inr rfl)
      have hfin : v ∈ (vs.foldl LockTable.wound (l.wound v)).doomed :=
        LockTable.doomed_foldl_wound vs hw
      have hpost : v ∈ (l.wound v).wakeups.queue :=
        LockTable.queue_of_foldl_wound vs hw (h v hfin hnd)
      rw [LockTable.wound_eq, if_neg hv] at hpost ⊢
      exact .goOn (if_neg hv) (.goOn (if_pos hpost) (.refl _))

theorem runs_blocked (bs : List TxId) (hd : tx ∉ l.doomed)
    (h : l.QueuesWakeups ((l.blocked q.target tx).woundYounger tx bs)) :
    Runs (amid l tx (.recording q bs))
      (still (((l.blocked q.target tx).woundYounger tx bs).park tx q)) := by
  have hd' : ¬ (l.blocked q.target tx).isDoomed tx := fun hc => hd (of_decide_eq_true hc)
  refine .goOn rfl (.goOn (if_neg hd') ?_)
  exact .trans (runs_wounding h) (.rest rfl)

theorem consider_of_covers {σ : Scene} (hc : (σ.table.holders q.target).covers tx q.mode) :
    σ.consider tx q = σ.gain tx q (σ.table.holders q.target) := if_pos hc

theorem consider_of_free {σ : Scene} (hc : ¬ (σ.table.holders q.target).covers tx q.mode)
    (hb : (σ.table.holders q.target).blockers tx q.mode = []) :
    σ.consider tx q = σ.gain tx q ((σ.table.holders q.target).grant tx q.mode) :=
  (if_neg hc).trans (if_pos (List.isEmpty_iff.2 hb))

theorem consider_of_blocked {σ : Scene} (hc : ¬ (σ.table.holders q.target).covers tx q.mode)
    (hb : (σ.table.holders q.target).blockers tx q.mode ≠ []) :
    σ.consider tx q =
      σ.goOn tx (.recording q ((σ.table.holders q.target).blockers tx q.mode)) σ.table :=
  (if_neg hc).trans (if_neg fun he => hb (List.isEmpty_iff.1 he))

theorem runs_consider (h : l.QueuesWakeups (l.look q.target tx q.mode q.ticket?.isSome false).2) :
    Runs ((still l).consider tx q)
      (still (LockTable.conclude tx q (l.look q.target tx q.mode q.ticket?.isSome false))) := by
  by_cases hc : (l.holders q.target).covers tx q.mode
  · have he : l.look q.target tx q.mode q.ticket?.isSome false =
        (.granted, l.settle q.target tx (l.holders q.target) q.ticket?.isSome) := if_pos hc
    rw [consider_of_covers (σ := still l) hc, he]
    exact runs_gain _
  · have hl := LockTable.looked l q.target tx q.mode q.ticket?.isSome false
    generalize l.look q.target tx q.mode q.ticket?.isSome false = r at hl h
    cases hl with
    | covered hc' => exact absurd hc' hc
    | granted hc' hb =>
      rw [consider_of_free (σ := still l) hc hb]
      exact runs_gain _
    | wounded hb hd =>
      rw [consider_of_blocked (σ := still l) hc hb]
      exact .goOn rfl (.rest (if_pos (decide_eq_true hd)))
    | timedOut hb hd he => cases he
    | waits hb hd he =>
      rw [consider_of_blocked (σ := still l) hc hb]
      have hp := runs_blocked (q := q) ((l.holders q.target).blockers tx q.mode) hd h
      rw [LockTable.park, LockTable.holders_woundYounger, LockTable.holders_blocked] at hp
      exact hp

theorem isFree_still (l : LockTable) (anchor : Nat) : (still l).isFree anchor := rfl

theorem isIdle_still (h : ¬ l.Sleeps tx) : (still l).isIdle tx := by
  simp [isIdle, still, h]

theorem isFree_amid {p : LockPhase} (h : p.query? = none) (anchor : Nat) :
    (amid l tx p).isFree anchor := by
  simp [isFree, amid, Registry.insert, Registry.empty, LockPhase.anchor?, h]

theorem runs_releasing (ms : List Mode) (ts : List Target) (leaving : Bool) :
    Runs (amid l tx (.releasing ms ts leaving))
      (amid (l.releaseOn tx ms ts) tx (.releasing ms [] leaving)) := by
  induction ts generalizing l with
  | nil => exact .refl _
  | cons t ts ih =>
    have hfree : (amid l tx (.releasing ms (t :: ts) leaving)).isFree (l.anchorOf t) :=
      isFree_amid rfl _
    refine .trans ?_ (ih (l := l.revokeModes t tx ms))
    rw [LockTable.revokeModes_eq]
    by_cases he : (((l.holders t).revokeAll tx ms).modesOf tx).isEmpty
    · rw [if_pos he]
      refine .trans (τ := amid (l.strip t tx ms) tx (.unlisting t ms ts leaving))
        (.goOn ?_ (.refl _)) (.goOn rfl (.refl _))
      rw [advance, table_amid, if_pos hfree, if_pos he]
    · rw [if_neg he]
      refine .goOn ?_ (.refl _)
      rw [advance, table_amid, if_pos hfree, if_neg he]

theorem runs_releaseAll (h : ¬ l.Sleeps tx) (sharedOnly : Bool) :
    Runs (still l) (still (l.releaseAll tx sharedOnly)) := by
  refine .move (m := .releaseAll tx sharedOnly) (if_pos (isIdle_still h)) ?_
  refine .trans (runs_releasing _ _ _) ?_
  cases sharedOnly with
  | true => exact .rest rfl
  | false => exact .goOn rfl (.goOn rfl (.goOn rfl (.rest rfl)))

theorem runs_deliver (l : LockTable) : Runs (still l) (still l.deliver) := by
  cases hq : l.wakeups.queue with
  | nil =>
    have he : l.deliver = l := by simp [LockTable.deliver, Mailbox.take?, hq]
    rw [he]
    exact .refl _
  | cons v rest =>
    have ht : l.wakeups.take? = some (v, { l.wakeups with queue := rest }) := by
      rw [Mailbox.take?, hq]
    have hf : (still l).move .fetch = some
        { still { l with wakeups := { l.wakeups with queue := rest } } with
          parcel := some (.wakeup v) } := by
      simp only [move, table_still, ht]
      rfl
    refine .move hf (.move (m := .address) rfl ?_)
    cases ha : l.lastAnchor.find? v with
    | none =>
      have he : l.deliver = { l with wakeups := { l.wakeups with queue := rest } } := by
        simp [LockTable.deliver, ht, ha]
      rw [he, table_still, ha]
      exact .refl _
    | some anchor =>
      have he : l.deliver =
          { l with wakeups := { l.wakeups with queue := rest } }.wakeAnchor anchor := by
        simp [LockTable.deliver, ht, ha]
      rw [he, table_still, ha]
      exact .move (m := .wake) rfl (.refl _)

end Scene

/-- Nobody's time to wait is over. -/
def LockEvent.IsPatient : LockEvent → Prop
  | .ask _ _ _ expired | .relook _ expired => expired = false
  | .release .. | .releaseAll .. | .deliver => True

instance : (e : LockEvent) → Decidable e.IsPatient
  | .ask _ _ _ expired | .relook _ expired => inferInstanceAs (Decidable (expired = false))
  | .release .. | .releaseAll .. | .deliver => inferInstanceAs (Decidable True)

namespace LockTable

theorem queuesWakeups_conclude {l : LockTable} {tx : TxId} {q : Query} {r : Verdict × LockTable} :
    l.QueuesWakeups (conclude tx q r) ↔ l.QueuesWakeups r.2 := by
  obtain ⟨v, l'⟩ := r
  obtain ⟨t, m, ticket?⟩ := q
  cases v <;> cases ticket? <;> rfl

end LockTable

namespace Scene

theorem runs_step {l : LockTable} {e : LockEvent} (hp : l.Permits e)
    (hq : l.QueuesWakeups (l.step e)) (hx : e.IsPatient) :
    Runs (still l) (still (l.step e)) := by
  cases e with
  | ask t tx m expired =>
    obtain rfl : expired = false := hx
    simp only [LockTable.step, LockTable.ask_eq, LockTable.queuesWakeups_conclude] at hq ⊢
    exact .move (m := .ask t tx m) (if_pos ⟨isIdle_still hp, isFree_still ..⟩)
      (runs_consider (q := { target := t, mode := m }) hq)
  | relook ticket expired =>
    obtain rfl : expired = false := hx
    cases hs : l.sleeper? ticket with
    | none =>
      simp only [LockTable.step, hs]
      exact .refl _
    | some s =>
      simp only [LockTable.step, hs, LockTable.relook_eq,
        LockTable.queuesWakeups_conclude] at hq ⊢
      obtain rfl := (LockTable.mem_sleeper hs).2
      refine .move (m := .relook s.ticket) ?_ (runs_consider (q :=
        { target := s.target, mode := s.mode, ticket? := some s.ticket }) hq)
      simp only [move, table_still, hs]
      exact if_pos ⟨rfl, isFree_still ..⟩
  | release t tx ms =>
    exact .move (m := .release t tx ms) (if_pos (isIdle_still hp))
      (.trans (runs_releasing ms [t] false) (.rest rfl))
  | releaseAll tx sharedOnly => exact runs_releaseAll hp sharedOnly
  | deliver => exact runs_deliver l

/-- Calls that follow one another, none of them out of time, are a run of the steps. -/
theorem runs_whole {l : LockTable} {es : List LockEvent} (hf : l.Follows es)
    (hx : ∀ e ∈ es, e.IsPatient) : Runs (still l) (still (l.run es)) := by
  induction es generalizing l with
  | nil => exact .refl _
  | cons e es ih =>
    obtain ⟨hp, hq, hf⟩ := hf
    exact .trans (runs_step hp hq (hx e List.mem_cons_self))
      (ih hf fun e' he => hx e' (List.mem_cons_of_mem e he))

end Scene

end PagedStore
