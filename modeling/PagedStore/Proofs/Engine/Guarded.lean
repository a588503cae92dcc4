import PagedStore.Proofs.Engine.Sound
import PagedStore.Proofs.Lock.Steps

set_option autoImplicit false

/-!
The locks of an engine whose transactions ask for locks, and give them back, only in their own
operations. Main statements: `Engine.Guarded.request` and `Engine.Guarded.resume`. A transaction
that has not ended loses what it took for reading at the end of a statement, blocks that it releases
early, and nothing else; and an operation that succeeds has all the locks it began to ask for.
-/

namespace PagedStore

def Work.asks (level : Isolation) : Work → List LockStep
  | .read r _ _ => (Intent.recordRead r).steps level
  | .write r _ _ => (Intent.recordChange r).steps level
  | .answer _ | .length _ | .extend _ _ => []

namespace LockTable

theorem underway_nil (l : LockTable) (tx : TxId) {lost : Target → Mode → Prop}
    {steps : List LockStep} (hg : ∀ s ∈ steps, ∀ t m, s.GivesUp t m → lost t m) :
    l.Underway tx lost [] steps := by
  refine ⟨fun _ _ h => ?_, fun _ _ h => ?_, hg⟩
  · cases h
  · cases h

end LockTable

namespace Engine

variable {early : Prop} {e e' e'' : Engine} {tx : TxId}

/-- What a transaction may lose before it ends. `early` says that blocks may be released early. -/
def MayLose (early : Prop) (e : Engine) (u : TxId) (t : Target) (m : Mode) : Prop :=
  e.isFinished u ∨ (e.isolation u = .readCommitted ∧ m.isShared) ∨ (early ∧ ∃ b, t = .block b)

theorem begun_of_readCommitted (h : e.isolation tx = .readCommitted) : e.Begun tx := by
  unfold isolation at h
  unfold Begun
  cases ht : e.transactions.find? tx with
  | none =>
    rw [ht] at h
    cases h
  | some t => rfl

theorem begun_of_isFinished (h : e.isFinished tx) : e.Begun tx := by
  unfold isFinished at h
  unfold Begun
  cases ht : e.transactions.find? tx with
  | none =>
    rw [ht] at h
    cases h
  | some t => rfl

/-- The engine went on, and modes were lost only where they may be. -/
structure Passes (early : Prop) (e e' : Engine) : Prop where
  begun : ∀ tx, e.Begun tx → e'.Begun tx
  finished : ∀ tx, e.isFinished tx → e'.isFinished tx
  isolation : ∀ tx, e.Begun tx → e'.isolation tx = e.isolation tx
  locks : e.locks.Loses (e'.MayLose early) e'.locks

theorem MayLose.of_le {u : TxId} {t : Target} {m : Mode} (h : e.MayLose early u t m)
    (hf : ∀ tx, e.isFinished tx → e'.isFinished tx)
    (hi : ∀ tx, e.Begun tx → e'.isolation tx = e.isolation tx) : e'.MayLose early u t m := by
  rcases h with h | ⟨hrc, hm⟩ | h
  · exact .inl (hf u h)
  · exact .inr (.inl ⟨(hi u (begun_of_readCommitted hrc)).trans hrc, hm⟩)
  · exact .inr (.inr h)

theorem Passes.mayLose (h : e.Passes early e') {u : TxId} {t : Target} {m : Mode}
    (hl : e.MayLose early u t m) : e'.MayLose early u t m := hl.of_le h.finished h.isolation

theorem Passes.refl (e : Engine) : e.Passes early e :=
  ⟨fun _ h => h, fun _ h => h, fun _ _ => rfl, .refl _⟩

theorem Passes.trans (h : e.Passes early e') (h' : e'.Passes early e'') : e.Passes early e'' :=
  ⟨fun tx hb => h'.begun tx (h.begun tx hb), fun tx hf => h'.finished tx (h.finished tx hf),
    fun tx hb => (h'.isolation tx (h.begun tx hb)).trans (h.isolation tx hb),
    (h.locks.mono fun _ _ _ hl => h'.mayLose hl).trans h'.locks⟩

structure Beside (e e' : Engine) : Prop where
  locks : e'.locks = e.locks
  suspended : e'.suspended = e.suspended
  later : e.Later e'
  isolation : ∀ tx, e'.isolation tx = e.isolation tx

theorem Beside.trans (h : e.Beside e') (h' : e'.Beside e'') : e.Beside e'' :=
  ⟨h'.locks.trans h.locks, h'.suspended.trans h.suspended, h.later.trans h'.later,
    fun tx => (h'.isolation tx).trans (h.isolation tx)⟩

theorem beside_desk (e : Engine) (d : Desk) : e.Beside { e with desk := d } :=
  ⟨rfl, rfl, .of_eq rfl rfl, fun _ => rfl⟩

theorem beside_updateTx (e : Engine) (tx : TxId) {f : Transaction → Transaction}
    (hf : ∀ t, t.finished → (f t).finished) (hi : ∀ t, (f t).isolation = t.isolation) :
    e.Beside (e.updateTx tx f) := by
  refine ⟨?_, suspended_updateTx e tx f, later_updateTx e tx hf, fun u => ?_⟩
  · unfold updateTx
    split <;> rfl
  · unfold updateTx
    split
    · rfl
    · rename_i t ht
      unfold isolation
      rw [Registry.find?_insert]
      split
      · rename_i hu
        rw [hu, ht, Option.map_some, Option.map_some, hi]
      · rfl

theorem beside_applyWrite (e : Engine) (u : LoggedWrite) : e.Beside (e.applyWrite u).2 := by
  unfold applyWrite
  split
  · exact e.beside_desk _
  · rename_i s _
    have hd : e.Beside ((e.setStore s).note (.applied u.frame u.lsn)) := e.beside_desk _
    exact hd.trans (beside_updateTx _ u.tx (fun _ h => h) fun _ => rfl)

theorem beside_writeHeld (e : Engine) (tx : TxId) (r : RecordId) (offset : Nat) (v : Value) :
    e.Beside (e.writeHeld tx r offset v).2 := by
  obtain ⟨log, hlog⟩ := e.logWrite_snd tx r offset v
  have hd : e.Beside (e.setLog log) := e.beside_desk _
  unfold writeHeld
  cases hw : e.logWrite tx r offset v with
  | mk q e₁ =>
    rw [hw] at hlog
    obtain rfl : e₁ = e.setLog log := hlog
    cases q with
    | error err => exact hd
    | ok u => exact hd.trans (beside_applyWrite _ u)

theorem beside_makeDurable (e : Engine) (tx : TxId) : e.Beside (e.makeDurable tx).2 := by
  have hd : e.Beside (e.atDesk fun d => d.flushMine tx).2 := e.beside_desk _
  unfold makeDurable
  generalize e.atDesk (fun d => d.flushMine tx) = r at hd
  obtain ⟨q, e₁⟩ := r
  cases q with
  | error err => exact hd
  | ok _ => exact hd.trans (e₁.beside_desk _)

theorem Beside.passes (h : e.Beside e') : e.Passes early e' :=
  ⟨fun tx => (h.later.begun tx).2, h.later.finished, fun tx _ => h.isolation tx,
    h.locks ▸ .refl _⟩

def Awaits (early : Prop) (e : Engine) (tx : TxId) : Wait → Prop
  | .onLock ticket rest work =>
    e.locks.Parked tx (e.MayLose early tx) (work.asks (e.isolation tx)) ticket rest
  | .onFrame _ _ => True

/-- What holds between any two operations. -/
structure Guarded (early : Prop) (e : Engine) : Prop where
  compatible : e.locks.Compatible
  numbered : e.locks.Numbered
  begun : ∀ tx, e.Begun tx → tx.num < e.nextTx
  parked : ∀ id s, e.suspended.find? id = some s → e.Begun s.tx ∧ e.Awaits early s.tx s.wait

theorem Passes.awaits (h : e.Passes early e') (hb : e.Begun tx) {w : Wait}
    (hw : e.Awaits early tx w) : e'.Awaits early tx w := by
  cases w with
  | onFrame u thenLock => trivial
  | onLock ticket rest work =>
    have hi := h.isolation tx hb
    unfold Awaits at hw ⊢
    rw [hi]
    exact hw.loses h.locks (fun _ _ => h.mayLose) fun _ _ hl => hl

theorem Guarded.next (h : e.Guarded early) (hp : e.Passes early e')
    (hn : ∀ tx, e'.Begun tx → tx.num < e'.nextTx)
    (hs : ∀ id s, e'.suspended.find? id = some s →
      e.suspended.find? id = some s ∨ (e'.Begun s.tx ∧ e'.Awaits early s.tx s.wait)) :
    e'.Guarded early where
  compatible := hp.locks.compatible h.compatible
  numbered := h.numbered.of_recalls hp.locks.recalls
  begun := hn
  parked id s hf := by
    rcases hs id s hf with hold | hnew
    · obtain ⟨hb, hw⟩ := h.parked id s hold
      exact ⟨hp.begun _ hb, hp.awaits hb hw⟩
    · exact hnew

theorem Guarded.beside (h : e.Guarded early) (hb : e.Beside e') : e'.Guarded early := by
  refine h.next hb.passes (fun tx ht => ?_) fun id s hs => .inl (hb.suspended ▸ hs)
  rw [hb.later.next]
  exact h.begun tx ((hb.later.begun tx).1 ht)

theorem Guarded.onLocks (h : e.Guarded early) {l : LockTable}
    (hl : e.locks.Loses (e.MayLose early) l) :
    e.Passes early { e with locks := l } ∧ ({ e with locks := l } : Engine).Guarded early := by
  have hp : e.Passes early { e with locks := l } :=
    ⟨fun _ hb => hb, fun _ hf => hf, fun _ _ => rfl, hl⟩
  exact ⟨hp, h.next hp h.begun fun _ _ hs => .inl hs⟩

/-- An operation for `tx` came to `r`, and if it succeeded then with its locks. -/
structure Attains (early : Prop) (tx : TxId) (w : Work) (e : Engine) (r : Progress × Engine) :
    Prop where
  guarded : r.2.Guarded early
  passes : e.Passes early r.2
  held : r.1.isOk →
    r.2.locks.Underway tx (r.2.MayLose early tx) (w.asks (r.2.isolation tx)) []

theorem Attains.after {w : Work} {r : Progress × Engine} (h : e'.Attains early tx w r)
    (hp : e.Passes early e') : e.Attains early tx w r :=
  ⟨h.guarded, hp.trans h.passes, h.held⟩

theorem Guarded.ends (h : e.Guarded early) (k : Task) (q : Outcome Answer) {w : Work}
    (hw : q.isOk → e.locks.Underway k.tx (e.MayLose early k.tx) (w.asks (e.isolation k.tx)) []) :
    e.Attains early k.tx w (e.ends k q) := by
  have hp : e.Passes early (e.ends k q).2 :=
    ⟨fun _ hb => hb, fun _ hf => hf, fun _ _ => rfl, .refl _⟩
  exact ⟨h.next hp h.begun fun id s hs => .inl (suspended_ends e k q hs), hp, hw⟩

theorem Guarded.suspend (h : e.Guarded early) (k : Task) (hb : e.Begun k.tx) (wait : Wait)
    (hw : e.Awaits early k.tx wait) :
    e.Passes early (e.suspend k wait) ∧ (e.suspend k wait).Guarded early := by
  have hp : e.Passes early (e.suspend k wait) :=
    ⟨fun _ hb => hb, fun _ hf => hf, fun _ _ => rfl, .refl _⟩
  refine ⟨hp, h.next hp h.begun fun id s hs => ?_⟩
  rw [Engine.suspend, Registry.find?_insert] at hs
  split at hs
  · cases hs
    exact .inr ⟨hb, hp.awaits hb hw⟩
  · exact .inl hs

theorem Guarded.locked (h : e.Guarded early) (k : Task) (hb : e.Begun k.tx)
    {steps : List LockStep} {w : Work}
    (hu : e.locks.Underway k.tx (e.MayLose early k.tx) (w.asks (e.isolation k.tx)) steps)
    {next : Engine → Progress × Engine}
    (hnext : ∀ l, ({ e with locks := l } : Engine).Guarded early →
      l.Underway k.tx (e.MayLose early k.tx) (w.asks (e.isolation k.tx)) [] →
      Attains early k.tx w { e with locks := l } (next { e with locks := l })) :
    e.Attains early k.tx w (e.locked k steps w next) := by
  have hperf := hu.perform h.numbered
  unfold Engine.locked
  cases hr : e.locks.perform k.tx steps with
  | mk q l =>
    rw [hr] at hperf
    obtain ⟨hl, hq⟩ := hperf
    obtain ⟨hp, hg⟩ := h.onLocks (l := l) (hl.mono fun u t m hm => hm.1 ▸ hm.2)
    cases q with
    | done => exact (hnext l hg hq).after hp
    | failed err => exact (hg.ends k _ fun hok => by cases hok).after hp
    | waits ticket rest =>
      obtain ⟨hps, hgs⟩ := hg.suspend k hb (.onLock ticket rest w) hq
      exact ⟨hgs, hp.trans hps, fun hok => by cases hok⟩

theorem Attains.of_asks {w w' : Work} {r : Progress × Engine} (h : e.Attains early tx w r)
    (hw : ∀ level, w'.asks level = w.asks level) : e.Attains early tx w' r :=
  ⟨h.guarded, h.passes, fun hok => by
    rw [hw]
    exact h.held hok⟩

theorem Guarded.lockNew (h : e.Guarded early) (k : Task) (hb : e.Begun k.tx) (b : BlockId) :
    e.Attains early k.tx (.answer (.block b)) (e.lockNew k b) := by
  refine h.locked k hb (e.locks.underway_nil k.tx fun s hs t m hm => ?_) fun l hg hu =>
    hg.ends k _ fun _ => hu
  obtain rfl := List.mem_singleton.1 hs
  exact hm.elim

theorem Guarded.pinned (h : e.Guarded early) (k : Task) (hb : e.Begun k.tx) (thenLock : Bool)
    (r : PinProgress × Desk) {w : Work} (hw : ∀ level, w.asks level = []) :
    e.Attains early k.tx w (e.pinned k thenLock r) := by
  have hd : e.Passes early { e with desk := r.2 } := (e.beside_desk r.2).passes
  have hg : ({ e with desk := r.2 } : Engine).Guarded early := h.beside (e.beside_desk r.2)
  have hends : ∀ q, Attains early k.tx w e ({ e with desk := r.2 }.ends k q) := fun q =>
    (hg.ends k q fun _ => by
      rw [hw]
      exact LockTable.underway_nil _ _ fun _ hs => by cases hs).after hd
  have hsleeps : ∀ u p, p.isOk = false →
      Attains early k.tx w e (p, { e with desk := r.2 }.suspend k (.onFrame u thenLock)) := by
    intro u p hp
    obtain ⟨hps, hgs⟩ := hg.suspend k hb (.onFrame u thenLock) trivial
    refine ⟨hgs, hd.trans hps, fun hok => ?_⟩
    rw [hp] at hok
    cases hok
  unfold Engine.pinned
  dsimp only
  split
  · exact hsleeps _ _ rfl
  · exact hsleeps _ _ rfl
  · exact hends _
  · split
    · split
      · exact ((hg.lockNew k hb _).of_asks hw).after hd
      · exact hends _
    · exact hends _

theorem Guarded.proceed (h : e.Guarded early) (k : Task) (hb : e.Begun k.tx) (w : Work)
    (hu : e.locks.Underway k.tx (e.MayLose early k.tx) (w.asks (e.isolation k.tx)) []) :
    e.Attains early k.tx w (e.proceed k w) := by
  cases w with
  | answer a => exact h.ends k _ fun _ => hu
  | length file =>
    have hd : e.Beside (e.fileLength file).2 := e.beside_desk _
    exact ((h.beside hd).ends k _ fun _ => hu).after hd.passes
  | read r offset kind => exact h.ends k _ fun _ => hu
  | write r offset v =>
    have hw := e.beside_writeHeld k.tx r offset v
    refine ((h.beside hw).ends k _ fun _ => ?_).after hw.passes
    rw [hw.locks, hw.isolation]
    exact ⟨hu.last, fun t m hm => (hu.owed t m hm).imp_right fun h => h.imp_right
      fun ⟨n, hn, hl⟩ => ⟨n, hn, hw.passes.mayLose hl⟩, fun s hs => by cases hs⟩
  | extend file format => exact h.pinned k hb true _ fun _ => rfl

theorem Guarded.lockedWork (h : e.Guarded early) (k : Task) (hb : e.Begun k.tx)
    {steps : List LockStep} {w : Work}
    (hu : e.locks.Underway k.tx (e.MayLose early k.tx) (w.asks (e.isolation k.tx)) steps) :
    e.Attains early k.tx w (e.lockedWork k steps w) :=
  h.locked k hb hu fun _ hg hl => hg.proceed k hb w hl

theorem Guarded.active (h : e.Guarded early) (k : Task) {next : Engine → Progress × Engine}
    {w : Work} (hnext : e.Attains early k.tx w (next e)) :
    e.Attains early k.tx w (e.active k next) := by
  unfold Engine.active
  split
  · exact h.ends k _ fun hok => by cases hok
  · exact hnext

theorem mayLose_of_steps {i : Intent} {tx : TxId}
    (hi : ∀ b, i = .directoryRelease b → early ∨ e.isFinished tx) :
    ∀ s ∈ i.steps (e.isolation tx), ∀ t m, s.GivesUp t m → e.MayLose early tx t m := by
  intro s hs t m hg
  rcases Intent.mem_steps hs with ⟨t', rfl⟩ | ⟨t', m', rfl⟩ | ⟨b, rfl, hdrop⟩
  · cases hl : e.isolation tx with
    | repeatableRead =>
      rw [hl] at hg
      exact hg.elim
    | readCommitted =>
      rw [hl] at hg
      obtain ⟨-, rfl⟩ := hg
      exact .inr (.inl ⟨hl, rfl⟩)
  · exact hg.elim
  · have ht : t = .block b := by
      rcases hdrop with rfl | rfl
      · exact hg.1.symm
      · exact hg.1.symm
    exact (hi b rfl).elim (fun he => .inr (.inr ⟨he, b, ht⟩)) .inl

theorem mayLose_of_asks (w : Work) : ∀ s ∈ w.asks (e.isolation tx), ∀ t m, s.GivesUp t m →
    e.MayLose early tx t m := by
  cases w with
  | read r offset kind =>
    refine mayLose_of_steps (i := .recordRead r) fun b hb => ?_
    cases hb
  | write r offset v =>
    refine mayLose_of_steps (i := .recordChange r) fun b hb => ?_
    cases hb
  | answer a | length file | extend file format =>
    intro s hs
    cases hs

theorem asks_work (u : Wanted) (level : Isolation) : u.work.asks level = [] := by
  cases u <;> rfl

def Owns (early : Prop) (e : Engine) (tx : TxId) : Request → Prop
  | .lock _ => False
  | .intent i => ∀ b, i = .directoryRelease b → early ∨ e.isFinished tx
  | .pin _ | .append _ _ | .length _ | .read _ _ _ | .write _ _ _ => True

theorem Guarded.request (h : e.Guarded early) (k : Task) (hb : e.Begun k.tx) {q : Request}
    (hq : e.Owns early k.tx q) : e.Attains early k.tx q.work (e.request k q) := by
  cases q with
  | lock steps => exact hq.elim
  | intent i => exact h.lockedWork k hb (e.locks.underway_nil k.tx (mayLose_of_steps hq))
  | pin u =>
    simp only [Engine.request]
    refine h.active k ?_
    exact h.pinned k hb false _ (asks_work u)
  | append file format =>
    simp only [Engine.request]
    refine h.active k ?_
    refine h.lockedWork k hb (e.locks.underway_nil k.tx fun s hs t m hm => ?_)
    obtain rfl := List.mem_singleton.1 hs
    exact hm.elim
  | length file =>
    simp only [Engine.request]
    refine h.active k ?_
    refine h.lockedWork k hb (e.locks.underway_nil k.tx (mayLose_of_steps fun b hb => ?_))
    cases hb
  | read r offset kind =>
    simp only [Engine.request]
    exact h.active k (h.lockedWork k hb (e.locks.underway_begin (mayLose_of_asks _)))
  | write r offset v =>
    simp only [Engine.request]
    exact h.active k (h.lockedWork k hb (e.locks.underway_begin (mayLose_of_asks _)))

theorem Guarded.resume (h : e.Guarded early) {id : Nat} {s : Suspended} (expired : Bool)
    (hs : e.suspended.find? id = some s) :
    e.Attains early s.tx s.wait.work (e.resume id expired) := by
  obtain ⟨hb, hw⟩ := h.parked id s hs
  obtain ⟨tx, wait⟩ := s
  unfold Engine.resume
  rw [hs]
  cases wait with
  | onFrame u thenLock => exact h.pinned ⟨id, tx⟩ hb thenLock _ (asks_work u.wanted)
  | onLock ticket rest work =>
    dsimp only
    split
    · exact ⟨h, .refl e, fun hok => by cases hok⟩
    · rename_i sleeper hsl
      have hl := e.locks.loses_relook hsl expired
      cases hr : e.locks.relook sleeper expired with
      | mk v l =>
        rw [hr] at hl
        obtain ⟨hp, hg⟩ := h.onLocks (hl.mono fun _ _ _ => False.elim)
        cases v with
        | granted => exact (hg.lockedWork ⟨id, tx⟩ hb (hw.granted hsl hr)).after hp
        | waits => exact ⟨hg, hp, fun hok => by cases hok⟩
        | wounded => exact (hg.ends ⟨id, tx⟩ _ fun hok => by cases hok).after hp
        | timedOut => exact (hg.ends ⟨id, tx⟩ _ fun hok => by cases hok).after hp

theorem Guarded.begin (h : e.Guarded early) (level : Isolation) :
    e.Passes early (e.begin level).2 ∧ (e.begin level).2.Guarded early := by
  have hkept : ∀ u, e.Begun u →
      (e.begin level).2.transactions.find? u = e.transactions.find? u := fun u hu =>
    Registry.find?_insert_of_ne _ _ fun he => Nat.lt_irrefl _ (he ▸ h.begun u hu)
  have hp : e.Passes early (e.begin level).2 := by
    refine ⟨fun u hu => ?_, fun u hu => ?_, fun u hu => ?_, .refl _⟩
    · rw [Begun, hkept u hu]
      exact hu
    · rw [isFinished, hkept u (begun_of_isFinished hu)]
      exact hu
    · rw [Engine.isolation, hkept u hu]
      rfl
  refine ⟨hp, h.next hp (fun u hu => ?_) fun _ _ hs => .inl hs⟩
  by_cases he : u = ⟨e.nextTx⟩
  · subst he
    exact Nat.lt_succ_self _
  · refine Nat.lt_succ_of_lt (h.begun u ?_)
    rw [Begun, ← Registry.find?_insert_of_ne _ _ he]
    exact hu

theorem Guarded.endStatement (h : e.Guarded early) (tx : TxId) :
    e.Passes early (e.endStatement tx) ∧ (e.endStatement tx).Guarded early := by
  refine h.onLocks ?_
  cases hl : e.isolation tx with
  | repeatableRead => exact .refl _
  | readCommitted =>
    refine .one e.locks (.releaseAll tx true) fun u t m ht => .inr (.inl ?_)
    obtain ⟨rfl, hm⟩ := ht
    exact ⟨hl, (List.mem_filter.1 hm).2⟩

theorem Guarded.releaseLocks (h : e.Guarded early) (hf : e.isFinished tx) :
    e.Passes early (e.releaseLocks tx) ∧ (e.releaseLocks tx).Guarded early :=
  h.onLocks <| .one e.locks (.releaseAll tx false) fun _ _ _ ht => .inl (ht.1 ▸ hf)

theorem Guarded.deliver (h : e.Guarded early) :
    e.Passes early { e with locks := e.locks.deliver } ∧
      ({ e with locks := e.locks.deliver } : Engine).Guarded early :=
  h.onLocks <| .one e.locks .deliver fun _ _ _ ht => ht.elim

theorem Guarded.onBeside (h : e.Guarded early) (hb : e.Beside e') :
    e.Passes early e' ∧ e'.Guarded early := ⟨hb.passes, h.beside hb⟩

theorem Guarded.letGo (h : e.Guarded early) (hb : e.Begun tx) :
    e.Passes early (e.letGo tx).2 ∧ (e.letGo tx).2.Guarded early := by
  have hd : e.Beside (e.atDesk fun d => d.releaseAll tx).2 := e.beside_desk _
  have hfin := finished_letGo hb
  unfold Engine.letGo at hfin ⊢
  generalize e.atDesk (fun d => d.releaseAll tx) = r at hd hfin
  obtain ⟨q, e₁⟩ := r
  cases q with
  | error err => exact h.onBeside hd
  | ok _ =>
    have hu : (e₁.releaseLocks tx).Beside ((e₁.releaseLocks tx).finish tx) :=
      beside_updateTx _ tx (fun _ _ => rfl) fun _ => rfl
    have hp : e₁.Passes early ((e₁.releaseLocks tx).finish tx) := by
      refine ⟨fun u => (hu.later.begun u).2, hu.later.finished, fun u _ => hu.isolation u, ?_⟩
      rw [hu.locks]
      exact .one e₁.locks (.releaseAll tx false) fun _ _ _ ht => .inl (ht.1 ▸ hfin rfl)
    refine ⟨hd.passes.trans hp, (h.beside hd).next hp (fun u hbu => ?_) fun id s hs => .inl ?_⟩
    · rw [hu.later.next]
      exact (h.beside hd).begun u ((hu.later.begun u).1 hbu)
    · exact hu.suspended ▸ hs

theorem Guarded.commit (h : e.Guarded early) (hb : e.Begun tx) :
    e.Passes early (e.commit tx).2 ∧ (e.commit tx).2.Guarded early := by
  have hm := e.beside_makeDurable tx
  unfold Engine.commit
  split
  · exact ⟨.refl e, h⟩
  · generalize e.makeDurable tx = r at hm
    obtain ⟨q, e₁⟩ := r
    cases q with
    | error err => exact h.onBeside hm
    | ok _ =>
      obtain ⟨hp, hg⟩ := (h.beside hm).letGo ((hm.later.begun tx).2 hb)
      exact ⟨hm.passes.trans hp, hg⟩

theorem Guarded.rollback (h : e.Guarded early) (hb : e.Begun tx) :
    e.Passes early (e.rollback tx).2 ∧ (e.rollback tx).2.Guarded early := by
  unfold Engine.rollback
  split
  · exact ⟨.refl e, h⟩
  · exact h.letGo hb

theorem Guarded.drop (h : e.Guarded early) (hb : e.Begun tx) :
    e.Passes early (e.drop tx).2 ∧ (e.drop tx).2.Guarded early := by
  unfold Engine.drop
  split
  · exact h.onBeside (e.beside_desk _)
  · exact h.letGo hb

theorem guarded_create {settings : Settings} {disk : Disk} (h : create settings disk = .ok e) :
    e.Guarded early := by
  obtain ⟨pool, locks, -, hl, rfl⟩ := create_eq_ok h
  obtain rfl := LockTable.eq_blank_of_create hl
  refine ⟨LockTable.compatible_blank _ _ _ _, fun s hs => ?_, fun u hu => ?_, fun id s hs => ?_⟩
  · cases hs
  · cases hu
  · cases hs

end Engine

end PagedStore
