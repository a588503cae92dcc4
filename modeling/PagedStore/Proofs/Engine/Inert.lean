import PagedStore.Proofs.Engine.Accounted
import PagedStore.Proofs.Engine.Commit

set_option autoImplicit false

/-!
Who owns anything at an engine, in every run of it: pins may crash, and several operations of one
transaction may wait. Main statements: `Running.owned_step`, that nobody comes to own anything but
by asking for it before they have ended, and `finished_owns_nothing`, that a transaction which was
committed or rolled back owns nothing from then on, as long as it asks for no lock past its end.
Nothing refuses it such a lock, and then it keeps it for good.
-/

namespace PagedStore

namespace LockTable

variable {P : TxId → Prop} {l l' : LockTable} {tx : TxId}

def HeldBy (P : TxId → Prop) (l : LockTable) : Prop := ∀ u, (l.held.find? u).isSome → P u

theorem HeldBy.congr (h : l.HeldBy P) (he : l'.held = l.held) : l'.HeldBy P := fun u hu =>
  h u (he ▸ hu)

theorem HeldBy.addHeld (h : l.HeldBy P) (hp : P tx) (t : Target) : (l.addHeld tx t).HeldBy P := by
  intro u hu
  rw [LockTable.addHeld, Registry.find?_insert] at hu
  split at hu
  · rename_i he
    exact he ▸ hp
  · exact h u hu

theorem HeldBy.dropHeld (h : l.HeldBy P) (tx : TxId) (t : Target) : (l.dropHeld tx t).HeldBy P := by
  intro u hu
  unfold LockTable.dropHeld at hu
  dsimp only at hu
  split at hu
  · rw [Registry.find?_erase] at hu
    split at hu
    · cases hu
    · exact h u hu
  · rename_i hts
    rw [Registry.find?_insert] at hu
    split at hu
    · rename_i he
      -- something is left of what was listed
      refine h u (he ▸ Option.isSome_iff_ne_none.2 fun hnone => hts ?_)
      rw [heldTargets, hnone]
      rfl
    · exact h u hu

theorem HeldBy.settle (h : l.HeldBy P) (hp : P tx) (t : Target) (hs : Holders) (waited : Bool) :
    (l.settle t tx hs waited).HeldBy P := by
  unfold LockTable.settle
  refine HeldBy.addHeld (h.congr ?_) hp t
  cases waited <;> rfl

theorem HeldBy.look (h : l.HeldBy P) (hp : P tx) (t : Target) (m : Mode) (waited expired : Bool) :
    (l.look t tx m waited expired).2.HeldBy P := by
  have hwound := (l.blocked t tx).held_woundYounger tx ((l.holders t).blockers tx m)
  have hl := looked l t tx m waited expired
  generalize l.look t tx m waited expired = r at hl
  cases hl with
  | covered hc => exact h.settle hp t _ waited
  | granted hc hb => exact h.settle hp t _ waited
  | wounded hb hd => exact h.congr rfl
  | timedOut hb hd he => exact h.congr hwound
  | waits hb hd he => exact h.congr hwound

/-- Whoever has anything to do with the table satisfies `P`. -/
structure Owned (P : TxId → Prop) (l : LockTable) : Prop where
  booked : l.Booked P
  held : l.HeldBy P

theorem Owned.mono {Q : TxId → Prop} (h : l.Owned P) (hq : ∀ u, P u → Q u) : l.Owned Q :=
  ⟨h.booked.mono hq, fun u hu => hq u (h.held u hu)⟩

theorem Owned.ask (h : l.Owned P) (hp : P tx) (t : Target) (m : Mode) (expired : Bool) :
    (l.ask t tx m expired).2.Owned P := by
  refine ⟨h.booked.ask hp t m expired, ?_⟩
  have hl := h.held.look hp t m false expired
  unfold LockTable.ask
  split
  · rename_i hr
    rw [hr] at hl
    exact hl.congr rfl
  · exact hl

theorem Owned.relook (h : l.Owned P) {s : Sleeper} (hs : s ∈ l.sleepers) (expired : Bool) :
    (l.relook s expired).2.Owned P := by
  refine ⟨h.booked.relook hs expired, ?_⟩
  have hl := h.held.look (h.booked.sleepers s hs) s.target s.mode true expired
  unfold LockTable.relook
  split <;> rename_i hr
  · rw [hr] at hl
    exact hl.congr rfl
  · rw [hr] at hl
    exact hl.congr rfl

theorem Owned.revokeModes (h : l.Owned P) (t : Target) (tx : TxId) (ms : List Mode) :
    (l.revokeModes t tx ms).Owned P := by
  refine ⟨h.booked.revokeModes t tx ms, ?_⟩
  have hset : ((l.setHolders t ((l.holders t).revokeAll tx ms)).wakeAnchor
      (l.anchorOf t)).HeldBy P := h.held.congr rfl
  simp only [LockTable.revokeModes]
  split
  · exact hset.dropHeld tx t
  · exact hset

theorem Owned.releaseOn (h : l.Owned P) (tx : TxId) (ms : List Mode) (ts : List Target) :
    (l.releaseOn tx ms ts).Owned P :=
  List.foldlRecOn _ _ h fun _ hl t _ => hl.revokeModes t tx ms

theorem Owned.releaseAll (h : l.Owned P) (tx : TxId) (sharedOnly : Bool) :
    (l.releaseAll tx sharedOnly).Owned P := by
  refine ⟨h.booked.releaseAll tx sharedOnly, ?_⟩
  cases sharedOnly with
  | true => exact (h.releaseOn ..).held
  | false =>
    intro u hu
    refine (h.releaseOn tx Mode.all (l.heldTargets tx)).held u ?_
    have hu : (((l.releaseOn tx Mode.all (l.heldTargets tx)).held.erase tx).find? u).isSome := hu
    rw [Registry.find?_erase] at hu
    split at hu
    · cases hu
    · exact hu

theorem Owned.leave (h : l.Owned P) (hs : ¬ l.Sleeps tx) :
    (l.releaseAll tx false).Owned fun u => P u ∧ u ≠ tx := by
  refine ⟨h.booked.leave fun s hm he => hs ⟨s, hm, he⟩, fun u hu => ?_⟩
  refine ⟨(h.releaseAll tx false).held u hu, ?_⟩
  rintro rfl
  simp only [LockTable.releaseAll, Bool.false_eq_true, if_false, forget,
    Registry.find?_erase_self, Option.isSome_none] at hu

theorem Owned.deliver (h : l.Owned P) : l.deliver.Owned P := by
  refine ⟨h.booked.deliver, h.held.congr ?_⟩
  unfold LockTable.deliver
  split
  · rfl
  · dsimp only
    split <;> rfl

theorem Owned.take (h : l.Owned P) (hp : P tx) (expired : Bool) (s : LockStep) :
    (l.take tx expired s).2.Owned P := by
  cases s with
  | acquire t m => exact h.ask hp t m expired
  | touch t m => exact h.ask hp t m expired
  | drop t m => exact h.revokeModes t tx [m]

theorem Owned.perform (h : l.Owned P) (hp : P tx) (steps : List LockStep) :
    (LockTable.perform tx steps l).2.Owned P := by
  have htake : ∀ {s : LockStep} {l₁ l₂ : LockTable} {v : Verdict}, l₁.Owned P →
      l₁.take tx l₁.impatient s = (v, l₂) → l₂.Owned P := by
    intro s l₁ l₂ v h ht
    have ho := h.take hp l₁.impatient s
    rwa [ht] at ho
  exact perform_induct tx (q := fun _ l' => l'.Owned P) (p := fun r => r.2.Owned P)
    (fun _ => id) (fun _ _ _ _ => htake) (fun _ _ _ _ => htake)
    (fun _ _ _ _ _ _ ho ht _ => htake ho ht) h

theorem Owned.perform_drops (h : l.Owned P) (tx : TxId) {steps : List LockStep}
    (hs : ∀ s ∈ steps, ∃ t m, s = .drop t m) :
    ∃ l', LockTable.perform tx steps l = (.done, l') ∧ l'.Owned P := by
  induction steps generalizing l with
  | nil => exact ⟨l, rfl, h⟩
  | cons s rest ih =>
    obtain ⟨t, m, rfl⟩ := hs s List.mem_cons_self
    exact ih (h.revokeModes t tx [m]) fun s hs' => hs s (List.mem_cons_of_mem _ hs')

end LockTable

theorem exists_bound (bs : List BlockId) : ∃ n, ∀ b ∈ bs, b.number < n := by
  induction bs with
  | nil => exact ⟨0, fun b hb => by cases hb⟩
  | cons b bs ih =>
    obtain ⟨n, hn⟩ := ih
    refine ⟨n + b.number + 1, fun c hc => ?_⟩
    rcases List.mem_cons.1 hc with rfl | hc
    · omega
    · have := hn c hc
      omega

def Terms.roomy (n : Nat) : Terms := ⟨fun _ => True, fun _ => n, fun _ => True⟩

namespace Desk

variable {d : Desk} {tx u : TxId} {w : Wanted}

theorem within_roomy {n : Nat} {finished : TxId → Prop} (h : ∀ b ∈ w.block?, b.number < n) :
    w.Within { Terms.roomy n with finished } := by
  cases w with
  | block b => exact ⟨trivial, h b rfl⟩
  | fresh file format => trivial

theorem mem_keys_of_holds {b : BlockId} {k : Hold} (h : (d.pinsOf tx).holds.find? b = some k) :
    b ∈ (d.pinsOf tx).holds.keys :=
  (Registry.find?_isSome_iff _ _).1 (h ▸ rfl)

theorem exists_moves_pin (d : Desk) (tx : TxId) (w : Wanted) (finished : TxId → Prop) :
    ∃ c : Terms, c.finished = finished ∧
      Moves c tx d ((d.pin tx w).1.changes w) (d.pin tx w).2 := by
  obtain ⟨n, hn⟩ := exists_bound ((d.pinsOf tx).holds.keys ++ w.block?.toList)
  refine ⟨{ Terms.roomy n with finished }, rfl, (served_pin trivial
    (fun b k hk => ⟨trivial, hn b ?_⟩) fun _ _ => within_roomy fun b hb => hn b ?_).moves⟩
  · exact List.mem_append_left _ (mem_keys_of_holds hk)
  · exact List.mem_append_right _ (Option.mem_toList.2 hb)

theorem exists_moves_resume (d : Desk) (tx : TxId) (w : PinWait) (expired : Bool)
    (finished : TxId → Prop) : ∃ c : Terms, c.finished = finished ∧
      Moves c tx d ((d.resume tx w expired).1.changes w.wanted) (d.resume tx w expired).2 := by
  obtain ⟨n, hn⟩ := exists_bound
    ((d.pinsOf tx).holds.keys ++ (w.wanted.block?.toList ++ w.stage.blocks))
  refine ⟨{ Terms.roomy n with finished }, rfl, (served_resume trivial
    (fun b hb => ⟨trivial, hn b ?_⟩) (fun b k hk => ⟨trivial, hn b ?_⟩)
    fun _ _ => within_roomy fun b hb => hn b ?_).moves⟩
  · exact List.mem_append_right _ (List.mem_append_right _ hb)
  · exact List.mem_append_left _ (mem_keys_of_holds hk)
  · exact List.mem_append_right _ (List.mem_append_left _ (Option.mem_toList.2 hb))

theorem pinsOf_pin (d : Desk) (w : Wanted) (hu : u ≠ tx) :
    (d.pin tx w).2.pinsOf u = d.pinsOf u := by
  obtain ⟨_, _, m⟩ := d.exists_moves_pin tx w fun _ => True
  exact m.pinsOf_of_ne hu

theorem pinsOf_resume (d : Desk) (w : PinWait) (expired : Bool) (hu : u ≠ tx) :
    (d.resume tx w expired).2.pinsOf u = d.pinsOf u := by
  obtain ⟨_, _, m⟩ := d.exists_moves_resume tx w expired fun _ => True
  exact m.pinsOf_of_ne hu

theorem holds_releaseAll (d : Desk) (tx : TxId) (b : BlockId) :
    ((d.releaseAll tx).2.pinsOf tx).holds.find? b = none := by
  unfold Desk.releaseAll
  dsimp only
  split
  · rename_i h
    exact holds_of_size_eq_zero h b
  · split
    · rw [pinsOf_setPins_self]
      rfl
    · rw [pinsOf_tellFree, pinsOf_setPins_self]
      rfl

end Desk

namespace Engine

variable {P Q : TxId → Prop} {e e' : Engine} {tx : TxId}

/-- Whoever owns locks or frames, or has an operation that waits, satisfies `P`, and so does
everyone who has not ended. -/
structure Owned (P : TxId → Prop) (e : Engine) : Prop where
  locks : e.locks.Owned P
  holding : ∀ u b k, (e.desk.pinsOf u).holds.find? b = some k → P u
  parked : ∀ id s, e.suspended.find? id = some s → P s.tx
  begun : ∀ u, e.Begun u → u.num < e.nextTx
  ended : ∀ u, ¬ P u → e.isFinished u

theorem Owned.mono (h : e.Owned P) (hq : ∀ u, P u → Q u) : e.Owned Q where
  locks := h.locks.mono hq
  holding u b k hk := hq u (h.holding u b k hk)
  parked id s hs := hq s.tx (h.parked id s hs)
  begun := h.begun
  ended u hu := h.ended u fun hp => hu (hq u hp)

theorem Owned.later (h : e.Owned P) (hl : e.Later e') (locks : e'.locks.Owned P)
    (holding : ∀ u b k, (e'.desk.pinsOf u).holds.find? b = some k → P u)
    (parked : ∀ id s, e'.suspended.find? id = some s → P s.tx) : e'.Owned P where
  locks := locks
  holding := holding
  parked := parked
  begun u hu := hl.next ▸ h.begun u ((hl.begun u).1 hu)
  ended u hu := hl.finished u (h.ended u hu)

theorem Owned.onLocks (h : e.Owned P) {l : LockTable} (hl : l.Owned P) :
    ({ e with locks := l } : Engine).Owned P :=
  h.later (.of_eq rfl rfl) hl h.holding h.parked

theorem Owned.onDesk (h : e.Owned P) {d : Desk}
    (hd : ∀ u b k, (d.pinsOf u).holds.find? b = some k → P u) :
    ({ e with desk := d } : Engine).Owned P :=
  h.later (.of_eq rfl rfl) h.locks hd h.parked

theorem Owned.beside (h : e.Owned P) (hb : e.Beside e') (hd : e'.desk.pins = e.desk.pins) :
    e'.Owned P := by
  refine h.later hb.later (hb.locks ▸ h.locks) (fun u b k hk => ?_) (hb.suspended ▸ h.parked)
  exact h.holding u b k (Desk.pinsOf_congr hd u ▸ hk)

theorem Owned.onStore (h : e.Owned P) (s : Store) : (e.setStore s).Owned P :=
  h.beside (e.beside_desk _) rfl

theorem Owned.ends (h : e.Owned P) (k : Task) (q : Outcome Answer) : (e.ends k q).2.Owned P :=
  h.later (.of_eq rfl rfl) h.locks h.holding fun id s hs =>
    h.parked id s (suspended_ends e k q hs)

section Walk

variable (k : Task) (hp : P k.tx)

include hp

theorem Owned.suspend (h : e.Owned P) (wait : Wait) : (e.suspend k wait).Owned P := by
  refine h.later (.of_eq rfl rfl) h.locks h.holding fun id s hs => ?_
  rw [Engine.suspend, Registry.find?_insert] at hs
  split at hs
  · cases hs
    exact hp
  · exact h.parked id s hs

theorem Owned.locked (h : e.Owned P) (steps : List LockStep) (work : Work)
    {next : Engine → Progress × Engine}
    (hnext : ∀ l, ({ e with locks := l } : Engine).Owned P →
      (next { e with locks := l }).2.Owned P) :
    (e.locked k steps work next).2.Owned P := by
  have hperf := h.locks.perform hp steps
  unfold Engine.locked
  generalize LockTable.perform k.tx steps e.locks = r at hperf
  obtain ⟨q, l⟩ := r
  have hl := h.onLocks hperf
  cases q with
  | done => exact hnext l hl
  | failed err => exact hl.ends k _
  | waits ticket rest => exact hl.suspend k hp _

theorem Owned.pinned (h : e.Owned P) (thenLock : Bool) {r : PinProgress × Desk}
    (hr : ∀ u, u ≠ k.tx → r.2.pinsOf u = e.desk.pinsOf u) :
    (e.pinned k thenLock r).2.Owned P := by
  have hd : ({ e with desk := r.2 } : Engine).Owned P := h.onDesk fun u b j hj => by
    by_cases hu : u = k.tx
    · exact hu ▸ hp
    · exact h.holding u b j (hr u hu ▸ hj)
  unfold Engine.pinned
  dsimp only
  split
  · exact hd.suspend k hp _
  · exact hd.suspend k hp _
  · exact hd.ends k _
  · split
    · split
      · exact hd.locked k hp _ _ fun _ hl => hl.ends k _
      · exact hd.ends k _
    · exact hd.ends k _

theorem Owned.proceed (h : e.Owned P) (work : Work) : (e.proceed k work).2.Owned P := by
  cases work with
  | answer a => exact h.ends k _
  | length file => exact (h.onStore _).ends k _
  | read r offset kind => exact h.ends k _
  | write r offset v =>
    exact (h.beside (e.beside_writeHeld k.tx r offset v) (pins_writeHeld ..)).ends k _
  | extend file format => exact h.pinned k hp true fun _ => Desk.pinsOf_pin _ _

theorem Owned.lockedWork (h : e.Owned P) (steps : List LockStep) (work : Work) :
    (e.lockedWork k steps work).2.Owned P :=
  h.locked k hp steps work fun _ hl => hl.proceed k hp work

end Walk

theorem Owned.drops (h : e.Owned P) (k : Task) {steps : List LockStep}
    (hs : ∀ s ∈ steps, ∃ t m, s = .drop t m) (a : Answer) :
    (e.lockedWork k steps (.answer a)).2.Owned P := by
  obtain ⟨l, hr, hl⟩ := h.locks.perform_drops k.tx hs
  unfold Engine.lockedWork Engine.locked
  rw [hr]
  exact (h.onLocks hl).ends k _

theorem Owned.active (h : e.Owned P) (k : Task) {next : Engine → Progress × Engine}
    (hnext : P k.tx → (next e).2.Owned P) : (e.active k next).2.Owned P := by
  unfold Engine.active
  split
  · exact h.ends k _
  · rename_i hf
    exact hnext (Classical.byContradiction fun hp => hf (h.ended k.tx hp))

end Engine

/-- It asks for a lock at a place where nothing asks whether its transaction has ended. -/
def Request.Unchecked : Request → Prop
  | .lock steps => ∃ s ∈ steps, ∀ t m, s ≠ .drop t m
  | .intent i => ∀ b, i ≠ .directoryRelease b
  | .pin _ | .append _ _ | .length _ | .read _ _ _ | .write _ _ _ => False

namespace Engine

variable {P : TxId → Prop} {e e' : Engine} {tx : TxId}

theorem Owned.request (h : e.Owned P) (k : Task) {q : Request} (hq : q.Unchecked → P k.tx) :
    (e.request k q).2.Owned P := by
  cases q with
  | lock steps =>
    by_cases hs : ∀ s ∈ steps, ∃ t m, s = .drop t m
    · exact h.drops k hs _
    · have hs : ∃ s ∈ steps, ∀ t m, s ≠ .drop t m := by simpa using hs
      exact h.lockedWork k (hq hs) steps _
  | intent i =>
    by_cases hi : ∃ b, i = .directoryRelease b
    · obtain ⟨b, rfl⟩ := hi
      refine h.drops k (fun s hs => ?_) _
      rcases List.mem_cons.1 hs with rfl | hs
      · exact ⟨_, _, rfl⟩
      · exact ⟨_, _, List.mem_singleton.1 hs⟩
    · exact h.lockedWork k (hq fun b hb => hi ⟨b, hb⟩) _ _
  | pin w => exact h.active k fun hp => h.pinned k hp false fun _ => Desk.pinsOf_pin _ _
  | append file format => exact h.active k fun hp => h.lockedWork k hp _ _
  | length file => exact h.active k fun hp => h.lockedWork k hp _ _
  | read r offset kind => exact h.active k fun hp => h.lockedWork k hp _ _
  | write r offset v => exact h.active k fun hp => h.lockedWork k hp _ _

theorem Owned.resume (h : e.Owned P) (id : Nat) (expired : Bool) :
    (e.resume id expired).2.Owned P := by
  unfold Engine.resume
  split
  · exact h
  · rename_i u w thenLock hs
    exact h.pinned ⟨id, u⟩ (h.parked id _ hs) thenLock fun _ => Desk.pinsOf_resume _ _ _
  · rename_i u ticket rest work hs
    split
    · exact h
    · rename_i s hfind
      have hl := h.locks.relook (LockTable.mem_sleeper hfind).1 expired
      generalize e.locks.relook s expired = r at hl
      obtain ⟨v, l⟩ := r
      have ho := h.onLocks hl
      cases v with
      | granted => exact ho.lockedWork ⟨id, u⟩ (h.parked id _ hs) rest work
      | waits => exact ho
      | wounded => exact ho.ends _ _
      | timedOut => exact ho.ends _ _

theorem Owned.endStatement (h : e.Owned P) (tx : TxId) : (e.endStatement tx).Owned P := by
  unfold Engine.endStatement LockTable.endStatement
  cases e.isolation tx with
  | readCommitted => exact h.onLocks (h.locks.releaseAll tx true)
  | repeatableRead => exact h

theorem Owned.releaseAll (h : e.Owned P) (tx : TxId) :
    (e.atDesk fun d => d.releaseAll tx).2.Owned P := by
  refine h.onDesk fun u b k hk => ?_
  by_cases hu : u = tx
  · rw [hu, Desk.holds_releaseAll] at hk
    cases hk
  · exact h.holding u b k ((e.desk.moves_releaseAll (c := .roomy 0) fun _ => trivial).pinsOf_of_ne
      hu ▸ hk)

theorem Owned.unpin (h : e.Owned P) (tx : TxId) (b : BlockId) : (e.unpin tx b).2.Owned P := by
  refine h.onDesk fun u x k hk => ?_
  by_cases hu : u = tx
  · obtain ⟨j, hj⟩ := Desk.holds_unpin (hu ▸ hk)
    exact hu ▸ h.holding tx x j hj
  · exact h.holding u x k ((e.desk.moves_unpin (c := .roomy 0) b).pinsOf_of_ne hu ▸ hk)

theorem beside_finish (e : Engine) (tx : TxId) : e.Beside (e.finish tx) :=
  beside_updateTx e tx (fun _ _ => rfl) fun _ => rfl

theorem pins_updateTx (e : Engine) (tx : TxId) (f : Transaction → Transaction) :
    (e.updateTx tx f).desk.pins = e.desk.pins := by
  unfold updateTx
  split <;> rfl

theorem Owned.letGo (h : e.Owned P) (tx : TxId) : (e.letGo tx).2.Owned P := by
  have hd := h.releaseAll tx
  unfold Engine.letGo
  generalize e.atDesk (fun d => d.releaseAll tx) = r at hd
  obtain ⟨q, e₁⟩ := r
  cases q with
  | error err => exact hd
  | ok _ =>
    exact (hd.onLocks (hd.locks.releaseAll tx false)).beside (beside_finish _ tx)
      (pins_updateTx ..)

theorem pins_makeDurable (e : Engine) (tx : TxId) :
    (e.makeDurable tx).2.desk.pins = e.desk.pins := by
  unfold makeDurable
  dsimp only [atDesk, Desk.flushMine]
  split
  · rename_i hr
    exact congrArg (fun r => r.2.desk.pins) hr.symm
  · rename_i hr
    exact congrArg (fun r => r.2.desk.pins) hr.symm

theorem Owned.makeDurable (h : e.Owned P) (tx : TxId) : (e.makeDurable tx).2.Owned P :=
  h.beside (e.beside_makeDurable tx) (pins_makeDurable e tx)

theorem Owned.begin (h : e.Owned P) (level : Isolation) : (e.begin level).2.Owned P := by
  have hkept : ∀ u, e.Begun u →
      (e.begin level).2.transactions.find? u = e.transactions.find? u := fun u hu =>
    Registry.find?_insert_of_ne _ _ fun he => Nat.lt_irrefl _ (he ▸ h.begun u hu)
  refine ⟨h.locks, h.holding, h.parked, fun u hu => ?_, fun u hu => ?_⟩
  · by_cases he : u = ⟨e.nextTx⟩
    · subst he
      exact Nat.lt_succ_self _
    · refine Nat.lt_succ_of_lt (h.begun u ?_)
      rw [Begun, ← Registry.find?_insert_of_ne _ _ he]
      exact hu
  · have hf := h.ended u hu
    rw [isFinished, hkept u (begun_of_isFinished hf)]
    exact hf

/-- A transaction that has nothing under way ends, and owns nothing any more. -/
theorem Owned.letGo_ok (h : e.Owned P) (hb : e.Begun tx) (hidle : e.Idle tx)
    (hs : ¬ e.locks.Sleeps tx) (hok : (e.letGo tx).1 = .ok ()) :
    (e.letGo tx).2.Owned fun u => P u ∧ u ≠ tx := by
  have ho := h.letGo tx
  have hfin := finished_letGo hb hok
  have hnone := Desk.holds_releaseAll e.desk tx
  unfold Engine.letGo at ho hfin hok ⊢
  cases hr : e.atDesk (fun d => d.releaseAll tx) with
  | mk q e₁ =>
    rw [hr] at ho hfin hok
    cases q with
    | error err => cases hok
    | ok _ =>
      have hlocks : e₁.locks = e.locks := congrArg (fun r => r.2.locks) hr.symm
      have hsus : e₁.suspended = e.suspended := congrArg (fun r => r.2.suspended) hr.symm
      have hdesk : e₁.desk = (e.desk.releaseAll tx).2 := congrArg (fun r => r.2.desk) hr.symm
      have hb := beside_finish (e₁.releaseLocks tx) tx
      have hpins : ∀ u, ((e₁.releaseLocks tx).finish tx).desk.pinsOf u = e₁.desk.pinsOf u :=
        Desk.pinsOf_congr (pins_updateTx ..)
      refine ⟨?_, fun u b k hk => ⟨ho.holding u b k hk, ?_⟩, fun id s hs => ⟨ho.parked id s hs, ?_⟩,
        ho.begun, fun u hu => ?_⟩
      · rw [hb.locks]
        show (e₁.locks.releaseAll tx false).Owned _
        rw [hlocks]
        exact h.locks.leave hs
      · rintro rfl
        rw [hpins, hdesk, hnone] at hk
        cases hk
      · refine hidle id s ?_
        rw [hb.suspended] at hs
        exact hsus ▸ hs
      · by_cases hu' : u = tx
        · rw [hu']
          exact hfin
        · exact ho.ended u fun hp => hu ⟨hp, hu'⟩

theorem Owned.rollback_ok (h : e.Owned P) (hb : e.Begun tx) (hidle : e.Idle tx)
    (hs : ¬ e.locks.Sleeps tx) (hok : (e.rollback tx).1 = .ok ()) :
    (e.rollback tx).2.Owned fun u => P u ∧ u ≠ tx := by
  unfold Engine.rollback at hok ⊢
  split
  · rename_i hf
    rw [if_pos hf] at hok
    cases hok
  · rename_i hf
    rw [if_neg hf] at hok
    exact h.letGo_ok hb hidle hs hok

theorem Owned.commit_ok (h : e.Owned P) (hb : e.Begun tx) (hidle : e.Idle tx)
    (hs : ¬ e.locks.Sleeps tx) (hok : (e.commit tx).1 = .ok ()) :
    (e.commit tx).2.Owned fun u => P u ∧ u ≠ tx := by
  have hd := h.makeDurable tx
  have hm := e.beside_makeDurable tx
  unfold Engine.commit at hok ⊢
  split
  · rename_i hf
    rw [if_pos hf] at hok
    cases hok
  · rename_i hf
    rw [if_neg hf] at hok
    generalize e.makeDurable tx = r at hok hd hm
    obtain ⟨q, e₁⟩ := r
    cases q with
    | error err => cases hok
    | ok _ =>
      refine hd.letGo_ok ((hm.later.begun tx).2 hb) (fun id s hs => hidle id s ?_) ?_ hok
      · exact hm.suspended ▸ hs
      · exact hm.locks.symm ▸ hs

theorem Owned.commit (h : e.Owned P) (tx : TxId) : (e.commit tx).2.Owned P := by
  have hd := h.makeDurable tx
  unfold Engine.commit
  split
  · exact h
  · generalize e.makeDurable tx = r at hd
    obtain ⟨q, e₁⟩ := r
    cases q with
    | error err => exact hd
    | ok _ => exact hd.letGo tx

theorem Owned.rollback (h : e.Owned P) (tx : TxId) : (e.rollback tx).2.Owned P := by
  unfold Engine.rollback
  split
  · exact h
  · exact h.letGo tx

theorem Owned.drop (h : e.Owned P) (tx : TxId) : (e.drop tx).2.Owned P := by
  unfold Engine.drop
  split
  · exact h.releaseAll tx
  · exact h.letGo tx

theorem owned_create {settings : Settings} {disk : Disk} (h : create settings disk = .ok e) :
    e.Owned fun _ => True := by
  have hacc := accounted_create h
  refine ⟨⟨hacc.books.locks.mono fun _ _ => trivial, fun _ _ => trivial⟩, fun _ _ _ _ => trivial,
    fun _ _ _ => trivial, hacc.begun, fun _ hu => absurd trivial hu⟩

end Engine

namespace Running

variable {P : TxId → Prop} {r : Running} {tx : TxId}

/-- Transactions begin at the engine, and only those of the kind ask for locks where nothing asks
whether they have ended. -/
def Asks (P : TxId → Prop) : Act → Prop
  | .enroll _ _ => False
  | .request k q => q.Unchecked → P k.tx
  | _ => True

theorem owned_step (h : r.engine.Owned P) {a : Act} (ha : Asks P a) :
    (r.step a).engine.Owned P := by
  cases a with
  | begin level => exact h.begin level
  | enroll u level => exact ha.elim
  | request k q => exact h.request k ha
  | resume id expired => exact h.resume id expired
  | logWrite u record offset v =>
    obtain ⟨log, hlog⟩ := r.engine.logWrite_snd u record offset v
    have hw : (r.engine.logWrite u record offset v).2.Owned P := hlog ▸ h.onStore _
    simp only [step]
    generalize r.engine.logWrite u record offset v = q at hw
    obtain ⟨q, e⟩ := q
    cases q <;> exact hw
  | applyWrite place =>
    simp only [step]
    split
    · exact h
    · rename_i w _
      exact h.beside (r.engine.beside_applyWrite w) (Engine.pins_applyWrite ..)
  | unpin u b => exact h.unpin u b
  | endStatement u => exact h.endStatement u
  | releaseLocks u => exact h.onLocks (h.locks.releaseAll u false)
  | commit u => exact h.commit u
  | rollback u => exact h.rollback u
  | drop u => exact h.drop u
  | deliver => exact h.onLocks h.locks.deliver
  | flushMine u => exact h.onStore _
  | poolPin w => exact h.onStore _
  | poolUnpin i => exact h.onStore _
  | flush i => exact h.onStore _
  | flushAll => exact h.onStore _
  | flushFor u => exact h.onStore _
  | append record => exact h.onStore _
  | flushLog lsn => exact h.onStore _
  | length file => exact h.onStore _
  | outage o => exact h.onStore _
  | fault cause => exact h.onStore _

theorem owned_run (h : r.engine.Owned P) {acts : List Act} (ha : ∀ a ∈ acts, Asks P a) :
    (r.run acts).engine.Owned P := by
  induction acts generalizing r with
  | nil => exact h
  | cons a as ih =>
    exact ih (owned_step h (ha a List.mem_cons_self)) fun b hb => ha b (List.mem_cons_of_mem _ hb)

end Running

theorem Engine.covers_of_intent {e : Engine} (hn : e.locks.Numbered) {k : Task} {i : Intent}
    {t : Target} {m : Mode} (hl : (i.steps (e.isolation k.tx)).getLast? = some (.acquire t m))
    {a : Answer} (ha : (e.request k (.intent i)).1 = .done (.ok a)) :
    (((e.request k (.intent i)).2.locks.holders t).covers k.tx m) := by
  have hu : e.locks.Underway k.tx (fun _ _ => True) (i.steps (e.isolation k.tx))
      (i.steps (e.isolation k.tx)) := LockTable.underway_begin _ fun _ _ _ _ _ => trivial
  have hperf := (hu.perform hn).2
  simp only [Engine.request, lockedWork, locked] at ha ⊢
  generalize LockTable.perform k.tx (i.steps (e.isolation k.tx)) e.locks = r at hperf ha ⊢
  obtain ⟨q, l⟩ := r
  cases q with
  | done => exact ((hperf.last t m hl).resolve_left (by simp)).2
  | failed err => cases ha
  | waits ticket rest => cases ha

theorem Engine.later_intent (e : Engine) (k : Task) (i : Intent) :
    e.Later (e.request k (.intent i)).2 := by
  simp only [request, lockedWork, locked]
  split <;> exact .of_eq rfl rfl

theorem Engine.locks_drop_of_finished {e : Engine} {tx : TxId} (hf : e.isFinished tx) :
    (e.drop tx).2.locks = e.locks := by
  unfold drop
  rw [if_pos hf]
  rfl

/-- In every run, when a transaction that has nothing under way was committed or rolled back with
success: whatever is called then, on it or on others, it holds no mode on any target, has no entry
among those who hold something, and no frame, as long as it is not asked for locks where nothing
asks whether it has ended. That cannot be left out: such an intent is granted, and what it took the
transaction keeps even when it goes away. -/
theorem finished_owns_nothing {settings : Settings} {disk : Disk} {e : Engine}
    (h : Engine.create settings disk = .ok e) {before after : List Act} {a : Act} {tx : TxId}
    (hbefore : ∀ b ∈ before, Running.Asks (fun _ => True) b)
    (hbegun : (Running.run ⟨e, []⟩ before).engine.Begun tx)
    (hidle : (Running.run ⟨e, []⟩ before).engine.Idle tx)
    (hsleep : ¬ (Running.run ⟨e, []⟩ before).engine.locks.Sleeps tx)
    (hend : (a = .commit tx ∧ ((Running.run ⟨e, []⟩ before).engine.commit tx).1 = .ok ()) ∨
      (a = .rollback tx ∧ ((Running.run ⟨e, []⟩ before).engine.rollback tx).1 = .ok ()))
    (hafter : ∀ b ∈ after, Running.Asks (· ≠ tx) b) :
    let e' := (Running.run ⟨e, []⟩ (before ++ a :: after)).engine
    ((∀ t, e'.locks.modesOf t tx = []) ∧ e'.locks.held.find? tx = none ∧
      ∀ b, (e'.desk.pinsOf tx).holds.find? b = none) ∧
    ∀ (k : Task) (i : Intent) (t : Target) (m : Mode) (answer : Answer), k.tx = tx →
      (i.steps (e'.isolation tx)).getLast? = some (.acquire t m) →
      (e'.request k (.intent i)).1 = .done (.ok answer) →
      ((e'.request k (.intent i)).2.drop tx).2.locks.holds t tx m := by
  intro e'
  have hopen : (⟨e, []⟩ : Running).engine.Owned fun _ => True := Engine.owned_create h
  have howned := Running.owned_run hopen hbefore
  have hgone : ((Running.run ⟨e, []⟩ before).step a).engine.Owned (· ≠ tx) := by
    rcases hend with ⟨rfl, hok⟩ | ⟨rfl, hok⟩
    · exact (howned.commit_ok hbegun hidle hsleep hok).mono fun _ => And.right
    · exact (howned.rollback_ok hbegun hidle hsleep hok).mono fun _ => And.right
  have hlast : e'.Owned (· ≠ tx) := by
    have hrun := Running.owned_run hgone hafter
    have he : e' = ((Running.run ⟨e, []⟩ before).step a |>.run after).engine :=
      congrArg Running.engine (Running.run_append ..)
    exact he ▸ hrun
  refine ⟨⟨fun t => ?_, ?_, fun b => ?_⟩, ?_⟩
  · exact LockTable.modesOf_eq_nil.2 fun m hm => hlast.locks.booked.holders t tx m hm rfl
  · exact Option.not_isSome_iff_eq_none.1 fun hs => hlast.locks.held tx hs rfl
  · exact Option.eq_none_iff_forall_ne_some.2 fun k hk => hlast.holding tx b k hk rfl
  · rintro k i t m answer rfl hl ha
    have hfin := (e'.later_intent k i).finished k.tx (hlast.ended k.tx fun hne => hne rfl)
    have hc := Engine.covers_of_intent hlast.locks.booked.numbered hl ha
    rw [LockTable.holds, Engine.locks_drop_of_finished hfin]
    exact hc

def owning : List Act :=
  [.begin .repeatableRead, .request ⟨0, ⟨1⟩⟩ (.pin (.block ⟨"f", 0⟩)),
    .request ⟨1, ⟨1⟩⟩ (.intent (.recordChange ⟨⟨"f", 0⟩, 0⟩))]

def lateCalls : List Act :=
  [.request ⟨2, ⟨1⟩⟩ (.append "f" (.fill 5)), .endStatement ⟨1⟩,
    .request ⟨3, ⟨1⟩⟩ (.intent (.directoryRelease ⟨"f", 0⟩)), .rollback ⟨1⟩, .drop ⟨1⟩]

theorem finished_owns_nothing_late : Engine.create paired oneBlock = .ok (opened oneBlock) ∧
    let e' := (Running.run ⟨opened oneBlock, []⟩ (owning ++ .commit ⟨1⟩ :: lateCalls)).engine
    ((∀ t, e'.locks.modesOf t ⟨1⟩ = []) ∧ e'.locks.held.find? ⟨1⟩ = none ∧
      ∀ b, (e'.desk.pinsOf ⟨1⟩).holds.find? b = none) ∧
    ((e'.request ⟨4, ⟨1⟩⟩ (.intent (.fileChange "f"))).2.drop ⟨1⟩).2.locks.holds
      (.file "f") ⟨1⟩ .x := by
  have hopen : Engine.create paired oneBlock = .ok (opened oneBlock) := rfl
  have hbefore : ∀ b ∈ owning, Running.Asks (fun _ => True) b := by simp [owning, Running.Asks]
  have hafter : ∀ b ∈ lateCalls, Running.Asks (· ≠ ⟨1⟩) b := by
    simp [lateCalls, Running.Asks, Request.Unchecked]
  have hok : ((Running.run ⟨opened oneBlock, []⟩ owning).engine.commit ⟨1⟩).1 = .ok () := rfl
  obtain ⟨hnone, hkeeps⟩ := finished_owns_nothing hopen hbefore (by decide +kernel)
    (by decide +kernel) (by decide +kernel) (.inl ⟨rfl, hok⟩) hafter
  exact ⟨hopen, hnone, hkeeps ⟨4, ⟨1⟩⟩ (.fileChange "f") (.file "f") .x .done rfl rfl rfl⟩

/-- A transaction that has ended is granted a lock, and keeps it when it goes away. -/
theorem not_finished_owns_nothing : Engine.create paired oneBlock = .ok (opened oneBlock) ∧
    ((Running.run ⟨opened oneBlock, []⟩ [.begin .repeatableRead]).engine.commit ⟨1⟩).1 = .ok () ∧
    let e' := (Running.run ⟨opened oneBlock, []⟩ [.begin .repeatableRead, .commit ⟨1⟩,
      .request ⟨0, ⟨1⟩⟩ (.intent (.fileChange "f")), .drop ⟨1⟩]).engine
    e'.isFinished ⟨1⟩ ∧ e'.locks.modesOf (.file "f") ⟨1⟩ = [.x] ∧
      e'.locks.held.find? ⟨1⟩ = some [.file "f"] :=
  ⟨rfl, rfl, by decide +kernel, by decide +kernel, by decide +kernel⟩

end PagedStore
