import PagedStore.Proofs.Engine.Guarded
import PagedStore.Proofs.Lock.Booked
import PagedStore.Proofs.Pins.Settled

set_option autoImplicit false

/-!
Accounts across a desk, a lock table and the operations that wait at them: whoever is in line for a
frame or sleeps for a lock is an operation that is suspended. Main statements: `Books.settled`,
`Books.performed` and `Books.relooked`, what a request for a frame, the taking of locks and a
sleeper who looks again leave of the accounts.
-/

namespace PagedStore

def Work.wanted? : Work → Option Wanted
  | .extend file format => some (.fresh file format)
  | .answer _ | .length _ | .read _ _ _ | .write _ _ _ => none

def Wait.wanted? : Wait → Option Wanted
  | .onLock _ _ work => work.wanted?
  | .onFrame u _ => some u.wanted

def Request.wanted? : Request → Option Wanted
  | .pin w => some w
  | .append file format => some (.fresh file format)
  | .lock _ | .intent _ | .length _ | .read _ _ _ | .write _ _ _ => none

/-- It asks for locks whether its transaction has ended or not. -/
def Request.isDirect : Request → Bool
  | .lock _ | .intent _ => true
  | .pin _ | .append _ _ | .length _ | .read _ _ _ | .write _ _ _ => false

def Wait.Queues (ticket : Nat) : Wait → Prop
  | .onFrame u _ => u.stage.ticket? = some ticket
  | .onLock _ _ _ => False

def Wait.Sleeps (ticket : Nat) : Wait → Prop
  | .onLock own _ _ => own = ticket
  | .onFrame _ _ => False

def LockProgress.wait? (work : Work) : LockProgress → Option Wait
  | .waits ticket rest => some (.onLock ticket rest work)
  | .done | .failed _ => none

def Desk.Serves (d : Desk) (tx : TxId) : Wait → Prop
  | .onFrame u thenLock => d.Awaits tx u ∧ ∀ b, u.wanted = .block b → thenLock = false
  | .onLock _ _ _ => True

def Known (sus : Registry Nat Suspended) (own : Option Suspended) (s : Suspended) : Prop :=
  own = some s ∨ ∃ id, sus.find? id = some s

/-- No operation of the transaction waits for a frame or will ask for one. -/
def Clear (sus : Registry Nat Suspended) (tx : TxId) : Prop :=
  ∀ id s, sus.find? id = some s → s.tx = tx → s.wait.wanted? = none

/-- The accounts of a desk and a lock table. `own` is the operation in progress, where there is one
that is not suspended again yet, and all who hold something or wait satisfy `P`. -/
structure Books (size : Nat) (P : TxId → Prop) (sus : Registry Nat Suspended)
    (own : Option Suspended) (d : Desk) (l : LockTable) : Prop where
  desk : d.Balanced size
  locks : l.Booked P
  holding : ∀ tx b h, (d.pinsOf tx).holds.find? b = some h → P tx
  parked : ∀ id s, sus.find? id = some s → P s.tx ∧ d.Serves s.tx s.wait
  alone : ∀ id id' s s', sus.find? id = some s → sus.find? id' = some s' → s.tx = s'.tx →
    s.wait.wanted?.isSome → s'.wait.wanted?.isSome → id = id'
  queued : ∀ k ∈ d.line.tickets, ∃ s, Known sus own s ∧ s.wait.Queues k
  asleep : ∀ s ∈ l.sleepers, ∃ u, Known sus own u ∧ u.tx = s.tx ∧ u.wait.Sleeps s.ticket

variable {size : Nat} {P Q : TxId → Prop} {sus : Registry Nat Suspended} {own : Option Suspended}
  {d d' : Desk} {l l' : LockTable} {id : Nat} {s : Suspended} {tx : TxId}

instance (sus : Registry Nat Suspended) (tx : TxId) : Decidable (Clear sus tx) :=
  decidable_of_iff (∀ x ∈ sus.entries, x.2.tx = tx → x.2.wait.wanted? = none)
    ⟨fun h id s hs => h (id, s) (Registry.find?_eq_some_iff.1 hs),
      fun h x hx => h x.1 x.2 (Registry.find?_eq_some_iff.2 hx)⟩

theorem Clear.erase (h : Clear sus tx) (id : Nat) : Clear (sus.erase id) tx :=
  fun id' s hs => h id' s (Registry.find?_of_erase hs).2

theorem Known.out (h : Known sus none s) (hown : sus.find? id = own) :
    Known (sus.erase id) own s := by
  obtain ⟨id', hs⟩ := h.resolve_left nofun
  by_cases he : id' = id
  · exact .inl (hown.symm.trans (he ▸ hs))
  · exact .inr ⟨id', by rw [Registry.find?_erase_of_ne _ he, hs]⟩

theorem Known.back {u : Suspended} (h : Known (sus.erase id) (some s) u) :
    Known (sus.insert id s) none u := by
  rcases h with h | ⟨id', h⟩
  · exact .inr ⟨id, by rw [Registry.find?_insert_self, h]⟩
  · obtain ⟨hne, h⟩ := Registry.find?_of_erase h
    exact .inr ⟨id', by rw [Registry.find?_insert_of_ne _ _ hne, h]⟩

theorem Desk.Serves.of_pinsOf {w : Wait} (h : d.Serves tx w) (hp : d'.pinsOf tx = d.pinsOf tx)
    (hg : ∀ n, d.store.media.disk.blocks n ≤ d'.store.media.disk.blocks n) : d'.Serves tx w := by
  cases w with
  | onLock ticket rest work => trivial
  | onFrame u thenLock => exact h.imp_left fun ha => ha.of_pinsOf hp hg

namespace Books

theorem mono (h : Books size P sus own d l) (hq : ∀ a, P a → Q a) : Books size Q sus own d l where
  desk := h.desk
  locks := h.locks.mono hq
  holding tx b k hk := hq tx (h.holding tx b k hk)
  parked id s hs := (h.parked id s hs).imp_left (hq s.tx)
  alone := h.alone
  queued := h.queued
  asleep := h.asleep

theorem out (h : Books size P sus none d l) (hown : sus.find? id = own) :
    Books size P (sus.erase id) own d l where
  desk := h.desk
  locks := h.locks
  holding := h.holding
  parked id' s hs := h.parked id' s (Registry.find?_of_erase hs).2
  alone id₁ id₂ s₁ s₂ h₁ h₂ :=
    h.alone id₁ id₂ s₁ s₂ (Registry.find?_of_erase h₁).2 (Registry.find?_of_erase h₂).2
  queued k hk := (h.queued k hk).imp fun _ => And.imp_left fun hp => hp.out hown
  asleep s hs := (h.asleep s hs).imp fun _ => And.imp_left fun hp => hp.out hown

theorem clear_out (h : Books size P sus own d l) (hs : sus.find? id = some s)
    (hw : s.wait.wanted?.isSome) : Clear (sus.erase id) s.tx := by
  intro id' s' hs' htx
  obtain ⟨hne, hs'⟩ := Registry.find?_of_erase hs'
  refine Option.not_isSome_iff_eq_none.1 fun hw' => hne ?_
  exact h.alone id' id s' s hs' hs htx hw' hw

theorem back (h : Books size P (sus.erase id) (some s) d l) (hp : P s.tx)
    (hserves : d.Serves s.tx s.wait) (hclear : s.wait.wanted?.isSome → Clear (sus.erase id) s.tx) :
    Books size P (sus.insert id s) none d l := by
  have hcase : ∀ {id' u}, (sus.insert id s).find? id' = some u →
      (id' = id ∧ u = s) ∨ (sus.erase id).find? id' = some u := by
    intro id' u hu
    rw [Registry.find?_insert] at hu
    split at hu
    · rename_i he
      exact .inl ⟨he, (Option.some.inj hu).symm⟩
    · rename_i hne
      exact .inr (by rw [Registry.find?_erase_of_ne _ hne, hu])
  have hnone : ∀ {id' u}, (sus.erase id).find? id' = some u → u.tx = s.tx →
      u.wait.wanted?.isSome → s.wait.wanted?.isSome → False := by
    intro id' u hu htx hw hws
    rw [hclear hws id' u hu htx] at hw
    cases hw
  refine ⟨h.desk, h.locks, h.holding, fun id' u hu => ?_, fun id₁ id₂ s₁ s₂ h₁ h₂ htx hw₁ hw₂ => ?_,
    fun k hk => (h.queued k hk).imp fun _ => And.imp_left Known.back,
    fun u hu => (h.asleep u hu).imp fun _ => And.imp_left Known.back⟩
  · rcases hcase hu with ⟨-, rfl⟩ | hu
    · exact ⟨hp, hserves⟩
    · exact h.parked id' u hu
  · rcases hcase h₁ with ⟨rfl, rfl⟩ | h₁'
    · rcases hcase h₂ with ⟨rfl, rfl⟩ | h₂
      · rfl
      · exact (hnone h₂ htx.symm hw₂ hw₁).elim
    · rcases hcase h₂ with ⟨rfl, rfl⟩ | h₂
      · exact (hnone h₁' htx hw₁ hw₂).elim
      · exact h.alone id₁ id₂ s₁ s₂ h₁' h₂ htx hw₁ hw₂

theorem goOn {own' : Option Suspended} (h : Books size P sus own d l)
    (hf : Desk.Follows size tx d d') (hh : ∀ b k, (d'.pinsOf tx).holds.find? b = some k → P tx)
    (hsame : d'.pinsOf tx = d.pinsOf tx ∨ Clear sus tx)
    (hq : ∀ k ∈ d'.line.tickets, ∃ s, Known sus own' s ∧ s.wait.Queues k)
    (ha : ∀ s ∈ l.sleepers, ∃ u, Known sus own' u ∧ u.tx = s.tx ∧ u.wait.Sleeps s.ticket) :
    Books size P sus own' d' l := by
  refine ⟨hf.balanced, h.locks, fun u b k hk => ?_, fun id s hs => ?_, h.alone, hq, ha⟩
  · by_cases hu : u = tx
    · exact hu ▸ hh b k (hu ▸ hk)
    · exact h.holding u b k (hf.others u hu ▸ hk)
  · obtain ⟨hp, hw⟩ := h.parked id s hs
    refine ⟨hp, ?_⟩
    by_cases hu : s.tx = tx
    · rcases hsame with hsame | hclear
      · exact hw.of_pinsOf (hu ▸ hsame) hf.grown
      · have hnone := hclear id s hs hu
        cases hwait : s.wait with
        | onLock ticket rest work => trivial
        | onFrame u thenLock =>
          rw [hwait] at hnone
          cases hnone
    · exact hw.of_pinsOf (hf.others s.tx hu) hf.grown

theorem onStore (h : Books size P sus own d l) {st : Store}
    (hf : Desk.Follows size tx d (d.setStore st)) : Books size P sus own (d.setStore st) l :=
  h.goOn hf (h.holding tx) (.inl rfl) h.queued h.asleep

theorem onLocks (h : Books size P sus own d l) (hl : l'.Booked P)
    (hs : ∀ s' ∈ l'.sleepers, ∃ s ∈ l.sleepers, s.Same s') : Books size P sus own d l' where
  desk := h.desk
  locks := hl
  holding := h.holding
  parked := h.parked
  alone := h.alone
  queued := h.queued
  asleep s' hs' := by
    obtain ⟨s, hs, hticket, htx, -⟩ := hs s' hs'
    rw [hticket, htx]
    exact h.asleep s hs

theorem settled {w : Wanted} {ticket : Option Nat} {r : PinProgress × Desk}
    (h : Books size P sus own d l) (hp : P tx) (hclear : Clear sus tx) (thenLock : Bool)
    (hs : Desk.Settles size tx w ticket d r)
    (hown : ∀ u, own = some u → (∀ k, ¬ u.wait.Sleeps k) ∧ ∀ k, u.wait.Queues k → ticket = some k) :
    Books size P sus (r.1.wait?.map fun u => ⟨tx, .onFrame u thenLock⟩) r.2 l := by
  refine h.goOn hs.follows (fun _ _ _ => hp) (.inr hclear) (fun k hk => ?_) fun s hs => ?_
  · rcases hs.queued k hk with ⟨hk, hne⟩ | ⟨u, hu, hk⟩
    · -- the ticket of the operation in progress is gone, so this is another's
      obtain ⟨s, hknown, hq⟩ := h.queued k hk
      exact ⟨s, .inr (hknown.resolve_left fun he => hne ((hown s he).2 k hq)), hq⟩
    · exact ⟨⟨tx, .onFrame u thenLock⟩, .inl (by rw [hu, Option.map_some]), hk⟩
  · obtain ⟨u, hknown, htx, hsl⟩ := h.asleep s hs
    exact ⟨u, .inr (hknown.resolve_left fun he => (hown u he).1 _ hsl), htx, hsl⟩

theorem performed (h : Books size P sus none d l) (hp : P tx) (steps : List LockStep)
    (work : Work) {q : LockProgress} (hq : l.perform tx steps = (q, l')) :
    Books size P sus ((q.wait? work).map fun w => ⟨tx, w⟩) d l' := by
  have hperf := h.locks.perform hp steps
  rw [hq] at hperf
  obtain ⟨hb, hs⟩ := hperf
  refine ⟨h.desk, hb, h.holding, h.parked, h.alone, fun k hk => ?_, fun s' hs' => ?_⟩
  · obtain ⟨s, hknown, hk⟩ := h.queued k hk
    exact ⟨s, .inr (hknown.resolve_left nofun), hk⟩
  · rcases hs s' hs' with ⟨s, hs, hticket, htx, -⟩ | ⟨htx, rest, he⟩
    · obtain ⟨u, hknown, hu⟩ := h.asleep s hs
      rw [hticket, htx]
      exact ⟨u, .inr (hknown.resolve_left nofun), hu⟩
    · cases he
      exact ⟨⟨tx, .onLock s'.ticket rest work⟩, .inl rfl, htx.symm, rfl⟩

theorem relooked {sl : Sleeper} {rest : List LockStep} {work : Work} (expired : Bool)
    (h : Books size P sus none d l) (hs : sl ∈ l.sleepers)
    (hid : sus.find? id = some ⟨tx, .onLock sl.ticket rest work⟩) :
    Books size P sus none d (l.relook sl expired).2 ∧
      ((l.relook sl expired).1 ≠ .waits →
        Books size P (sus.erase id) none d (l.relook sl expired).2) := by
  have hb := h.locks.relook hs expired
  have hfrom := @LockTable.sleepers_relook l sl expired
  have hall := h.onLocks hb fun s' hs' => (hfrom hs').1
  refine ⟨hall, fun hv => ?_⟩
  have hout := hall.out hid
  -- nobody sleeps under the ticket any more, and so nobody needs the operation to be known
  have hother : ∀ {u : Suspended}, Known (sus.erase id) (some ⟨tx, .onLock sl.ticket rest work⟩) u →
      ¬ u.wait.Sleeps sl.ticket → Known (sus.erase id) none u := fun hknown hne =>
    .inr (hknown.resolve_left fun he => hne (by cases he; rfl))
  refine ⟨hout.desk, hb, hout.holding, hout.parked, hout.alone, fun k hk => ?_, fun s' hs' => ?_⟩
  · obtain ⟨u, hknown, hq⟩ := hout.queued k hk
    refine ⟨u, hother hknown fun hsl => ?_, hq⟩
    cases hw : u.wait with
    | onLock ticket rest work =>
      rw [hw] at hq
      exact hq
    | onFrame v thenLock =>
      rw [hw] at hsl
      exact hsl
  · obtain ⟨u, hknown, htx, hsl⟩ := hout.asleep s' hs'
    refine ⟨u, hother hknown fun hown => (hfrom hs').2 hv ?_, htx, hsl⟩
    cases hw : u.wait with
    | onLock ticket rest work =>
      rw [hw] at hown hsl
      exact hsl.symm.trans hown
    | onFrame v thenLock =>
      rw [hw] at hsl
      exact hsl.elim

theorem leave (h : Books size P sus none d l) (hidle : ∀ id s, sus.find? id = some s → s.tx ≠ tx)
    (hnone : ∀ b, (d.pinsOf tx).holds.find? b = none) :
    Books size (fun a => P a ∧ a ≠ tx) sus none d (l.releaseAll tx false) := by
  have hout := h.onLocks (h.locks.releaseAll tx false) fun _ => LockTable.sleepers_releaseAll
  refine ⟨h.desk, h.locks.leave fun s hs => ?_, fun u b j hj => ⟨h.holding u b j hj, ?_⟩,
    fun id s hs => ?_, h.alone, h.queued, hout.asleep⟩
  · obtain ⟨u, hknown, htx, -⟩ := h.asleep s hs
    obtain ⟨id, hu⟩ := hknown.resolve_left nofun
    exact htx ▸ hidle id u hu
  · rintro rfl
    rw [hnone b] at hj
    cases hj
  · obtain ⟨hp, hserves⟩ := h.parked id s hs
    exact ⟨⟨hp, hidle id s hs⟩, hserves⟩

end Books

end PagedStore
