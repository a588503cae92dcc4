import PagedStore.Proofs.Lock.Holding

set_option autoImplicit false

/-!
Runs of a lock table. Main statement: `holders_compatible`. In every state that requests, looks,
releases and wakeups can lead to, different transactions hold compatible modes, and nobody loses a
mode that they do not give up themselves.
-/

namespace PagedStore

inductive LockEvent where
  | ask (t : Target) (tx : TxId) (m : Mode) (expired : Bool)
  /-- A sleeping request looks again. `expired` says that it may not wait any longer. -/
  | relook (ticket : Nat) (expired : Bool)
  /-- A transaction gives up modes on one target: one mode, or what a release of everything gives
  up there. -/
  | release (t : Target) (tx : TxId) (ms : List Mode)
  | releaseAll (tx : TxId) (sharedOnly : Bool)
  | deliver

def LockEvent.GivesUp (tx : TxId) : LockEvent → Prop
  | .release _ a _ | .releaseAll a _ => a = tx
  | .ask .. | .relook .. | .deliver => False

namespace LockTable

/-- A table that nobody has used. Any function of the target may choose its anchor. -/
def blank (place : Target → Nat) (anchors maxWait capacity : Nat) : LockTable :=
  { anchors, maxWait, place, wakeups := { capacity } }

theorem eq_blank_of_create {anchors maxWait capacity : Nat} {l : LockTable}
    (h : create anchors maxWait capacity = .ok l) :
    l = blank Target.spread anchors maxWait capacity := by
  unfold create at h
  split at h
  · cases h
  · split at h
    · cases h
    · cases hm : Mailbox.create capacity with
      | error e =>
        rw [hm] at h
        cases h
      | ok b =>
        rw [hm, Mailbox.eq_of_create hm] at h
        cases h
        rfl

def step (l : LockTable) : LockEvent → LockTable
  | .ask t tx m expired => (l.ask t tx m expired).2
  | .relook ticket expired =>
    match l.sleeper? ticket with
    | none => l
    | some s => (l.relook s expired).2
  | .release t tx ms => l.revokeModes t tx ms
  | .releaseAll tx sharedOnly => l.releaseAll tx sharedOnly
  | .deliver => l.deliver

def run (l : LockTable) (es : List LockEvent) : LockTable := es.foldl step l

def Compatible (l : LockTable) : Prop :=
  ∀ (t : Target) (a b : TxId) (m n : Mode), a ≠ b →
    (l.holders t).Holds a m → (l.holders t).Holds b n → m.compatible n

theorem compatible_blank (place : Target → Nat) (anchors maxWait capacity : Nat) :
    (blank place anchors maxWait capacity).Compatible := by
  intro t a b m n _ ha _
  exact absurd ha Holders.not_holds_none

theorem Compatible.of_le {l l' : LockTable} (h : l.Compatible)
    (hle : ∀ t a n, (l'.holders t).Holds a n → (l.holders t).Holds a n) : l'.Compatible :=
  fun t a b m n hne ha hb => h t a b m n hne (hle t a m ha) (hle t b n hb)

theorem Compatible.congr {l l' : LockTable} (h : l.Compatible)
    (he : ∀ t, l'.holders t = l.holders t) : l'.Compatible :=
  h.of_le fun t _ _ ha => he t ▸ ha

theorem compatible_of_free {h : Holders} {tx other : TxId} {m n : Mode}
    (hb : h.blockers tx m = []) (hne : other ≠ tx) (ho : h.Holds other n) : m.compatible n := by
  cases hc : m.compatible n
  · have hmem : other ∈ h.blockers tx m := Holders.mem_blockers.2 ⟨hne, n, ho, hc⟩
    rw [hb] at hmem
    cases hmem
  · rfl

theorem Compatible.look {l : LockTable} (h : l.Compatible) (t : Target) (tx : TxId) (m : Mode)
    (waited expired : Bool) : (l.look t tx m waited expired).2.Compatible := by
  intro t' a b m' n hne ha hb
  rw [holds_look] at ha hb
  rcases ha with ha | ⟨rfl, rfl, rfl, -, hfree⟩
  · rcases hb with hb | ⟨rfl, rfl, rfl, -, hfree⟩
    · exact h t' a b m' n hne ha hb
    · rw [Mode.compatible_comm]
      exact compatible_of_free hfree hne ha
  · rcases hb with hb | ⟨-, rfl, -, -, -⟩
    · exact compatible_of_free hfree (Ne.symm hne) hb
    · exact absurd rfl hne

theorem Compatible.step {l : LockTable} (h : l.Compatible) (e : LockEvent) :
    (l.step e).Compatible := by
  cases e with
  | ask t tx m expired => exact (h.look t tx m false expired).congr fun t' => holders_ask ..
  | relook ticket expired =>
    cases hs : l.sleeper? ticket with
    | none => simpa only [LockTable.step, hs] using h
    | some s =>
      simp only [LockTable.step, hs]
      exact (h.look s.target s.tx s.mode true expired).congr fun t' => holders_relook ..
  | release t tx ms => exact h.of_le fun t' a n ha => ((holds_revokeModes ..).1 ha).1
  | releaseAll tx sharedOnly => exact h.of_le fun t' a n ha => ((holds_releaseAll ..).1 ha).1
  | deliver => exact h.congr fun t => holders_deliver l t

theorem Compatible.run {l : LockTable} (h : l.Compatible) (es : List LockEvent) :
    (l.run es).Compatible := by
  induction es generalizing l with
  | nil => exact h
  | cons e es ih => exact ih (h.step e)

theorem holds_step {l : LockTable} {e : LockEvent} {t : Target} {a : TxId} {n : Mode}
    (hg : ¬ e.GivesUp a) (h : (l.holders t).Holds a n) : ((l.step e).holders t).Holds a n := by
  cases e with
  | ask t' tx m expired =>
    show ((l.ask t' tx m expired).2.holders t).Holds a n
    rw [holders_ask, holds_look]
    exact .inl h
  | relook ticket expired =>
    cases hs : l.sleeper? ticket with
    | none => simpa only [LockTable.step, hs] using h
    | some s =>
      simp only [LockTable.step, hs]
      rw [holders_relook, holds_look]
      exact .inl h
  | release t' tx ms => exact (holds_revokeModes ..).2 ⟨h, fun hc => hg hc.2.1.symm⟩
  | releaseAll tx sharedOnly => exact (holds_releaseAll ..).2 ⟨h, fun hc => hg hc.2.1.symm⟩
  | deliver =>
    show (l.deliver.holders t).Holds a n
    rwa [holders_deliver]

/-- In every state of every run, different transactions hold compatible modes on a target, and no
event takes a mode from a transaction that does not give it up. -/
theorem holders_compatible (place : Target → Nat) (anchors maxWait capacity : Nat)
    (es : List LockEvent) :
    let l := (blank place anchors maxWait capacity).run es
    (∀ (t : Target) (a b : TxId) (m n : Mode), a ≠ b →
      (l.holders t).Holds a m → (l.holders t).Holds b n → m.compatible n) ∧
    (∀ (e : LockEvent) (t : Target) (a : TxId) (m : Mode), ¬ e.GivesUp a →
      (l.holders t).Holds a m → ((l.step e).holders t).Holds a m) :=
  ⟨(compatible_blank place anchors maxWait capacity).run es, fun _ _ _ _ hg h => holds_step hg h⟩

end LockTable

end PagedStore
