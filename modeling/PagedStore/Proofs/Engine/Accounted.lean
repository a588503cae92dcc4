import PagedStore.Proofs.Engine.Books

set_option autoImplicit false

/-!
The accounts of an engine between its operations: only transactions that have not ended own
anything. Main statements: `Engine.Accounted.request`, `Engine.Accounted.resume` and
`Engine.Accounted.letGo`.
-/

namespace PagedStore

def Progress.crash? : Progress → Option Crash
  | .done (.error (.crash c)) => some c
  | .done _ | .waits | .sleepsOn => none

def Progress.frame? : Progress → Option Nat
  | .done (.ok (.frame i)) => some i
  | .done _ | .waits | .sleepsOn => none

def Wanted.block? : Wanted → Option BlockId
  | .block b => some b
  | .fresh _ _ => none

namespace Engine

variable {size : Nat} {P : TxId → Prop} {own : Option Suspended} {e e' e'' : Engine} {tx : TxId}
  {k : Task} {w : Wanted} {thenLock : Bool}

structure Level (e e' : Engine) : Prop where
  next : e'.nextTx = e.nextTx
  begun : ∀ tx, e'.Begun tx ↔ e.Begun tx
  finished : ∀ tx, e'.isFinished tx = e.isFinished tx

theorem Level.refl (e : Engine) : e.Level e := ⟨rfl, fun _ => .rfl, fun _ => rfl⟩

theorem Level.trans (h : e.Level e') (h' : e'.Level e'') : e.Level e'' :=
  ⟨h'.next.trans h.next, fun tx => (h'.begun tx).trans (h.begun tx),
    fun tx => (h'.finished tx).trans (h.finished tx)⟩

theorem Level.of_eq (ht : e'.transactions = e.transactions) (hn : e'.nextTx = e.nextTx) :
    e.Level e' :=
  ⟨hn, fun tx => by rw [Begun, Begun, ht], fun tx => by rw [isFinished, isFinished, ht]⟩

theorem level_updateTx (e : Engine) (tx : TxId) {f : Transaction → Transaction}
    (hf : ∀ t, (f t).finished = t.finished) : e.Level (e.updateTx tx f) := by
  have hl := later_updateTx e tx (f := f) fun t ht => (hf t).trans ht
  refine ⟨hl.next, hl.begun, fun u => ?_⟩
  unfold updateTx
  split
  · rfl
  · rename_i t ht
    rw [isFinished, Registry.find?_insert]
    split
    · rename_i he
      rw [isFinished, he, ht, Option.map_some, Option.map_some, hf]
    · rfl

def Active (e : Engine) (tx : TxId) : Prop := e.Begun tx ∧ e.isFinished tx = false

theorem Level.active (h : e.Level e') : e'.Active tx ↔ e.Active tx := by
  rw [Active, Active, h.begun, h.finished]

structure Squares (size : Nat) (P : TxId → Prop) (e e' : Engine) : Prop where
  books : Books size P e'.suspended none e'.desk e'.locks
  level : e.Level e'

theorem Squares.after (h : Squares size P e' e'') (hl : e.Level e') : Squares size P e e'' :=
  ⟨h.books, hl.trans h.level⟩

structure Fair (e : Engine) (w : Wanted) (p : Progress) : Prop where
  whole : p.crash? = none
  inside : p.frame?.isSome → ∀ b ∈ w.block?, e.desk.Has b

instance (d : Desk) (b : BlockId) : Decidable (d.Has b) :=
  inferInstanceAs (Decidable (b.number < d.store.media.disk.blocks b.file))

instance (e : Engine) (w : Wanted) (p : Progress) : Decidable (e.Fair w p) :=
  decidable_of_iff (p.crash? = none ∧ (p.frame?.isSome → ∀ b ∈ w.block?, e.desk.Has b))
    ⟨fun h => ⟨h.1, h.2⟩, fun h => ⟨h.whole, h.inside⟩⟩

theorem Fair.of_pinned {r : PinProgress × Desk} (h : e.Fair w (e.pinned k thenLock r).1)
    (hlock : ∀ b, w = .block b → thenLock = false) : e.desk.Fair w r where
  whole c hc := by
    obtain ⟨q, d⟩ := r
    cases hc
    exact absurd h.whole nofun
  inside b i hb hi := by
    obtain rfl := hlock b hb
    exact h.inside (by rw [fst_pinned hi]; rfl) b (by rw [hb]; rfl)

theorem follows_applyWrite (h : e.desk.Balanced size) (tx : TxId) (u : LoggedWrite) :
    ∃ s, (e.applyWrite u).2.desk = e.desk.setStore s ∧
      Desk.Follows size tx e.desk (e.desk.setStore s) := by
  have hw : Desk.Follows size tx e.desk _ := h.wrote u.frame u.offset u.value u.tx u.lsn
  unfold applyWrite
  split
  · rename_i err s hr
    rw [hr] at hw
    exact ⟨s, rfl, hw⟩
  · rename_i s hr
    rw [hr] at hw
    refine ⟨{ s with media := s.media.note (.applied u.frame u.lsn) }, ?_,
      hw.trans (hw.balanced.beside (.refl _))⟩
    unfold updateTx
    split <;> rfl

theorem level_applyWrite (e : Engine) (u : LoggedWrite) : e.Level (e.applyWrite u).2 := by
  unfold applyWrite
  split
  · exact .of_eq rfl rfl
  · rename_i s _
    have hn : e.Level ((e.setStore s).note (.applied u.frame u.lsn)) := .of_eq rfl rfl
    exact hn.trans (level_updateTx _ u.tx fun _ => rfl)

theorem follows_writeHeld (h : e.desk.Balanced size) (tx : TxId) (r : RecordId) (offset : Nat)
    (v : Value) : e.Level (e.writeHeld tx r offset v).2 ∧
      ∃ s, (e.writeHeld tx r offset v).2.desk = e.desk.setStore s ∧
        Desk.Follows size tx e.desk (e.desk.setStore s) := by
  obtain ⟨log, hlog⟩ := e.logWrite_snd tx r offset v
  have hbeside : Desk.Follows size tx e.desk (e.setLog log).desk := h.beside (.refl _)
  have hlevel : e.Level (e.setLog log) := .of_eq rfl rfl
  unfold writeHeld
  cases hw : e.logWrite tx r offset v with
  | mk q e₁ =>
    rw [hw] at hlog
    obtain rfl : e₁ = e.setLog log := hlog
    cases q with
    | error err => exact ⟨hlevel, _, rfl, hbeside⟩
    | ok lw =>
      obtain ⟨s, hdesk, hf⟩ := follows_applyWrite hbeside.balanced tx lw
      exact ⟨hlevel.trans (level_applyWrite _ lw), s, hdesk, hbeside.trans hf⟩

section Walk

variable (k) (h : Books size P (e.suspended.erase k.id) none e.desk e.locks) (hp : P k.tx)

include h

theorem squares_ends (q : Outcome Answer) : Squares size P e (e.ends k q).2 := ⟨h, .of_eq rfl rfl⟩

include hp

theorem squares_locked (steps : List LockStep) {work : Work}
    (hclear : work.wanted?.isSome → Clear (e.suspended.erase k.id) k.tx)
    {next : Engine → Progress × Engine}
    (hnext : ∀ l, e.locked k steps work next = next { e with locks := l } →
      Books size P (e.suspended.erase k.id) none e.desk l →
      Squares size P { e with locks := l } (next { e with locks := l }).2) :
    Squares size P e (e.locked k steps work next).2 := by
  have hl : ∀ l, e.Level { e with locks := l } := fun _ => .of_eq rfl rfl
  unfold locked at hnext ⊢
  cases hr : e.locks.perform k.tx steps with
  | mk q l =>
    have hperf := h.performed hp steps work hr
    rw [hr] at hnext
    cases q with
    | done => exact (hnext l rfl hperf).after (hl l)
    | failed err => exact (squares_ends (e := { e with locks := l }) k hperf _).after (hl l)
    | waits ticket rest => exact ⟨hperf.back hp trivial hclear, .of_eq rfl rfl⟩

theorem squares_lockNew (b : BlockId) : Squares size P e (e.lockNew k b).2 :=
  squares_locked k h hp _ (fun hw => by cases hw) fun _ _ hl => squares_ends _ hl _

omit h in
theorem squares_pinned (h : Books size P (e.suspended.erase k.id) own e.desk e.locks)
    {ticket : Option Nat} (hclear : Clear (e.suspended.erase k.id) k.tx)
    (hlock : ∀ b, w = .block b → thenLock = false) {r : PinProgress × Desk}
    (hs : Desk.Settles size k.tx w ticket e.desk r)
    (hown : ∀ u, own = some u → (∀ k, ¬ u.wait.Sleeps k) ∧ ∀ k, u.wait.Queues k → ticket = some k) :
    Squares size P e (e.pinned k thenLock r).2 := by
  have hb := h.settled hp hclear thenLock hs hown
  obtain ⟨p, d⟩ := r
  have hl : e.Level { e with desk := d } := .of_eq rfl rfl
  have hends : ∀ q, Books size P (e.suspended.erase k.id) none d e.locks →
      Squares size P e ({ e with desk := d }.ends k q).2 := fun q hb =>
    (squares_ends (e := { e with desk := d }) k hb q).after hl
  have hwaits : ∀ u, p.wait? = some u →
      Squares size P e ({ e with desk := d }.suspend k (.onFrame u thenLock)) := by
    intro u hu
    obtain ⟨hw, ha⟩ := hs.awaits u hu
    rw [hu] at hb
    exact ⟨hb.back hp ⟨ha, fun b hb => hlock b (hw ▸ hb)⟩ fun _ => hclear, .of_eq rfl rfl⟩
  unfold pinned
  cases p with
  | waits u => exact hwaits u rfl
  | sleepsOn u => exact hwaits u rfl
  | done q =>
    cases q with
    | error err => exact hends _ hb
    | ok i =>
      cases thenLock with
      | false => exact hends _ hb
      | true =>
        dsimp only
        rw [if_pos rfl]
        split
        · exact (squares_lockNew (e := { e with desk := d }) k hb hp _).after hl
        · exact hends _ hb

theorem squares_proceed (work : Work)
    (hclear : work.wanted?.isSome → Clear (e.suspended.erase k.id) k.tx)
    (hfair : ∀ w, work.wanted? = some w → e.Fair w (e.proceed k work).1) :
    Squares size P e (e.proceed k work).2 := by
  cases work with
  | answer a => exact squares_ends k h _
  | length file =>
    have hf : Desk.Follows size k.tx e.desk (e.fileLength file).2.desk :=
      h.desk.beside (e.media.disk.same_length file)
    exact (squares_ends (e := (e.fileLength file).2) k (h.onStore hf) _).after (.of_eq rfl rfl)
  | read r offset kind => exact squares_ends k h _
  | write r offset v =>
    have hb := e.beside_writeHeld k.tx r offset v
    obtain ⟨hl, s, hdesk, hf⟩ := follows_writeHeld h.desk k.tx r offset v
    refine (squares_ends (e := (e.writeHeld k.tx r offset v).2) k ?_ _).after hl
    rw [hb.locks, hb.suspended, hdesk]
    exact h.onStore hf
  | extend file format =>
    have hlock : ∀ b, Wanted.fresh file format = .block b → true = false := fun b hb => by cases hb
    have hs := Desk.settles_pin h.desk ((hfair _ rfl).of_pinned hlock)
    exact squares_pinned k hp h (hclear rfl) hlock hs nofun

theorem squares_lockedWork (steps : List LockStep) (work : Work)
    (hclear : work.wanted?.isSome → Clear (e.suspended.erase k.id) k.tx)
    (hfair : ∀ w, work.wanted? = some w → e.Fair w (e.lockedWork k steps work).1) :
    Squares size P e (e.lockedWork k steps work).2 := by
  refine squares_locked k h hp steps hclear fun l hnext hl => ?_
  refine squares_proceed (e := { e with locks := l }) k hl hp work hclear fun w hw => ?_
  have hf := hfair w hw
  unfold lockedWork at hf
  rw [hnext] at hf
  exact ⟨hf.whole, hf.inside⟩

theorem squares_frameless (steps : List LockStep) {work : Work} (hw : work.wanted? = none) :
    Squares size P e (e.lockedWork k steps work).2 := by
  refine squares_lockedWork k h hp steps work (fun hsome => ?_) fun w hsome => ?_
  · rw [hw] at hsome
    cases hsome
  · rw [hw] at hsome
    cases hsome

omit hp in
theorem squares_active {next : Engine → Progress × Engine}
    (hnext : e.isFinished k.tx = false → e.active k next = next e → Squares size P e (next e).2) :
    Squares size P e (e.active k next).2 := by
  unfold active at hnext ⊢
  split
  · exact squares_ends k h _
  · rename_i hf
    exact hnext (Bool.eq_false_iff.2 hf) (if_neg hf)

end Walk

/-- What holds between any two operations. -/
structure Accounted (size : Nat) (e : Engine) : Prop where
  books : Books size e.Active e.suspended none e.desk e.locks
  begun : ∀ tx, e.Begun tx → tx.num < e.nextTx

theorem Accounted.next (h : e.Accounted size) (hs : Squares size e.Active e e') :
    e'.Accounted size where
  books := hs.books.mono fun _ => hs.level.active.2
  begun tx hb := hs.level.next ▸ h.begun tx ((hs.level.begun tx).1 hb)

/-- A request under a new number. While a transaction asks for a frame it asks for no other. -/
theorem Accounted.request (h : e.Accounted size) (k : Task) (hb : e.Begun k.tx)
    (hnew : e.suspended.find? k.id = none) (q : Request)
    (hdirect : q.isDirect → e.isFinished k.tx = false)
    (hwanted : ∀ w, q.wanted? = some w → Clear e.suspended k.tx ∧ e.Fair w (e.request k q).1) :
    Squares size e.Active e (e.request k q).2 := by
  have hbooks := h.books.out hnew
  cases q with
  | lock steps =>
    exact squares_frameless k hbooks ⟨hb, hdirect rfl⟩ _ rfl
  | intent i =>
    exact squares_frameless k hbooks ⟨hb, hdirect rfl⟩ _ rfl
  | pin w =>
    obtain ⟨hclear, hfair⟩ := hwanted w rfl
    simp only [Engine.request] at hfair ⊢
    refine squares_active k hbooks fun hf hnext => ?_
    rw [hnext] at hfair
    exact squares_pinned k ⟨hb, hf⟩ hbooks (hclear.erase k.id) (fun _ _ => rfl)
      (Desk.settles_pin hbooks.desk (hfair.of_pinned fun _ _ => rfl)) fun _ hu => by cases hu
  | append file format =>
    obtain ⟨hclear, hfair⟩ := hwanted _ rfl
    simp only [Engine.request] at hfair ⊢
    refine squares_active k hbooks fun hf hnext => ?_
    rw [hnext] at hfair
    refine squares_lockedWork k hbooks ⟨hb, hf⟩ _ _ (fun _ => hclear.erase k.id) fun w hw => ?_
    cases hw
    exact hfair
  | length file =>
    simp only [Engine.request]
    exact squares_active k hbooks fun hf _ => squares_frameless k hbooks ⟨hb, hf⟩ _ rfl
  | read r offset kind =>
    simp only [Engine.request]
    exact squares_active k hbooks fun hf _ => squares_frameless k hbooks ⟨hb, hf⟩ _ rfl
  | write r offset v =>
    simp only [Engine.request]
    exact squares_active k hbooks fun hf _ => squares_frameless k hbooks ⟨hb, hf⟩ _ rfl

theorem Accounted.resume (h : e.Accounted size) (id : Nat) (expired : Bool)
    (hwanted : ∀ s w, e.suspended.find? id = some s → s.wait.wanted? = some w →
      e.Fair w (e.resume id expired).1) :
    Squares size e.Active e (e.resume id expired).2 := by
  cases hfind : e.suspended.find? id with
  | none =>
    simp only [Engine.resume, hfind]
    exact ⟨h.books, .refl e⟩
  | some s =>
    have hw := fun w => hwanted s w hfind
    obtain ⟨hp, hserves⟩ := h.books.parked id s hfind
    have hclear := h.books.clear_out hfind
    obtain ⟨tx, wait⟩ := s
    unfold Engine.resume at hw ⊢
    rw [hfind] at hw ⊢
    cases wait with
    | onFrame u thenLock =>
      obtain ⟨ha, hlock⟩ := hserves
      have hfair := (hw _ rfl).of_pinned hlock
      refine squares_pinned ⟨id, tx⟩ hp (h.books.out hfind) (hclear rfl) hlock
        (Desk.settles_resume h.books.desk ha hfair) ?_
      rintro v ⟨⟩
      exact ⟨fun _ hs => hs, fun _ hq => hq⟩
    | onLock ticket rest work =>
      dsimp only at hw ⊢
      cases hs : e.locks.sleeper? ticket with
      | none =>
        rw [hs] at hw
        exact ⟨h.books, .refl e⟩
      | some sl =>
        obtain ⟨hmem, rfl⟩ := LockTable.mem_sleeper hs
        obtain ⟨hall, hout⟩ := h.books.relooked expired hmem hfind
        rw [hs] at hw
        dsimp only at hw ⊢
        generalize e.locks.relook sl expired = r at hw hall hout ⊢
        obtain ⟨v, l⟩ := r
        have hl : e.Level { e with locks := l } := .of_eq rfl rfl
        cases v with
        | granted =>
          have hbooks := hout fun hv => by cases hv
          refine (squares_lockedWork (e := { e with locks := l }) ⟨id, tx⟩ hbooks hp rest work
            hclear fun w hww => ?_).after hl
          obtain ⟨hwhole, hinside⟩ := hw w hww
          exact ⟨hwhole, hinside⟩
        | waits => exact ⟨hall, hl⟩
        | wounded =>
          have hbooks := hout fun hv => by cases hv
          exact (squares_ends (e := { e with locks := l }) ⟨id, tx⟩ hbooks _).after hl
        | timedOut =>
          have hbooks := hout fun hv => by cases hv
          exact (squares_ends (e := { e with locks := l }) ⟨id, tx⟩ hbooks _).after hl

theorem Accounted.onStore (h : e.Accounted size) (tx : TxId) {s : Store}
    (hf : Desk.Follows size tx e.desk (e.desk.setStore s)) :
    Squares size e.Active e (e.setStore s) := ⟨h.books.onStore hf, .of_eq rfl rfl⟩

theorem Accounted.onMedia (h : e.Accounted size) {m : Media}
    (hm : Disk.Same e.media.disk m.disk) : Squares size e.Active e (e.setMedia m) :=
  h.onStore ⟨0⟩ (h.books.desk.beside hm)

theorem Accounted.onLocks (h : e.Accounted size) {l : LockTable} (hl : l.Booked e.Active)
    (hs : ∀ s' ∈ l.sleepers, ∃ s ∈ e.locks.sleepers, s.Same s') :
    Squares size e.Active e { e with locks := l } := ⟨h.books.onLocks hl hs, .of_eq rfl rfl⟩

theorem Accounted.releaseLocks (h : e.Accounted size) (tx : TxId) (sharedOnly : Bool) :
    Squares size e.Active e { e with locks := e.locks.releaseAll tx sharedOnly } :=
  h.onLocks (h.books.locks.releaseAll tx sharedOnly) fun _ => LockTable.sleepers_releaseAll

theorem Accounted.endStatement (h : e.Accounted size) (tx : TxId) :
    Squares size e.Active e (e.endStatement tx) := by
  unfold Engine.endStatement
  cases e.isolation tx with
  | repeatableRead => exact ⟨h.books, .refl e⟩
  | readCommitted => exact h.releaseLocks tx true

theorem Accounted.deliver (h : e.Accounted size) :
    Squares size e.Active e { e with locks := e.locks.deliver } :=
  h.onLocks h.books.locks.deliver fun _ => LockTable.sleepers_deliver

theorem Accounted.applyWrite (h : e.Accounted size) (u : LoggedWrite) :
    Squares size e.Active e (e.applyWrite u).2 := by
  obtain ⟨s, hdesk, hf⟩ := follows_applyWrite h.books.desk u.tx u
  have hb := e.beside_applyWrite u
  refine ⟨?_, level_applyWrite e u⟩
  rw [hb.locks, hb.suspended, hdesk]
  exact h.books.onStore hf

theorem Accounted.logWrite (h : e.Accounted size) (u : TxId) (r : RecordId) (offset : Nat)
    (v : Value) : Squares size e.Active e (e.logWrite u r offset v).2 := by
  obtain ⟨log, hlog⟩ := e.logWrite_snd u r offset v
  rw [hlog]
  exact h.onMedia (.refl _)

theorem Accounted.flushMine (h : e.Accounted size) (tx : TxId) :
    Squares size e.Active e (e.atDesk fun d => d.flushMine tx).2 :=
  h.onStore tx (h.books.desk.flushTouched tx _)

theorem Accounted.makeDurable (h : e.Accounted size) (tx : TxId) :
    Squares size e.Active e (e.makeDurable tx).2 := by
  have hfl := h.flushMine tx
  have hacc := h.next hfl
  unfold Engine.makeDurable
  generalize e.atDesk (fun d => d.flushMine tx) = r at hfl hacc
  obtain ⟨q, e₁⟩ := r
  cases q with
  | error err => exact hfl
  | ok _ =>
    have hdisk : (e₁.media.force (e₁.lastLsn tx)).2.disk = e₁.media.disk :=
      (Media.of_force (Prod.ext rfl rfl)).1
    obtain ⟨hb, hl⟩ := hacc.onMedia (m := (e₁.media.force (e₁.lastLsn tx)).2) (hdisk ▸ .refl _)
    exact ⟨hb.mono fun _ => hfl.level.active.1, hfl.level.trans hl⟩

theorem Accounted.unpin (h : e.Accounted size) (tx : TxId) (b : BlockId)
    (hclear : Clear e.suspended tx) : Squares size e.Active e (e.unpin tx b).2 := by
  obtain ⟨hf, ht⟩ := Desk.follows_unpin h.books.desk tx b
  refine ⟨h.books.goOn hf (fun x j hj => ?_) (.inr hclear) (fun k hk => ?_) h.books.asleep,
    .of_eq rfl rfl⟩
  · obtain ⟨j, hj⟩ := Desk.holds_unpin hj
    exact h.books.holding tx x j hj
  · exact h.books.queued k (ht ▸ hk)

/-- No operation of the transaction is suspended. -/
def Idle (e : Engine) (tx : TxId) : Prop := ∀ id s, e.suspended.find? id = some s → s.tx ≠ tx

instance (e : Engine) (tx : TxId) : Decidable (e.Idle tx) :=
  decidable_of_iff (∀ x ∈ e.suspended.entries, x.2.tx ≠ tx)
    ⟨fun h id s hs => h (id, s) (Registry.find?_eq_some_iff.1 hs),
      fun h x hx => h x.1 x.2 (Registry.find?_eq_some_iff.2 hx)⟩

theorem Idle.clear (h : e.Idle tx) : Clear e.suspended tx := fun id s hs htx =>
  absurd htx (h id s hs)

theorem isFinished_finish (hb : e.Begun tx) (u : TxId) :
    (e.finish tx).isFinished u ↔ e.isFinished u ∨ u = tx := by
  obtain ⟨t, ht⟩ := Option.isSome_iff_exists.1 hb
  rw [finish, updateTx, ht, isFinished, Registry.find?_insert]
  split
  · rename_i hu
    exact iff_of_true rfl (.inr hu)
  · rename_i hu
    exact ⟨.inl, fun h => h.resolve_right hu⟩

theorem finish_eq (e : Engine) (tx : TxId) :
    ∃ transactions, e.finish tx = { e with transactions } := by
  unfold finish updateTx
  split
  · exact ⟨e.transactions, rfl⟩
  · exact ⟨_, rfl⟩

theorem Accounted.close (h : e.Accounted size) (hb : e.Begun tx) (hidle : e.Idle tx)
    (hnone : ∀ b, (e.desk.pinsOf tx).holds.find? b = none) :
    ((e.releaseLocks tx).finish tx).Accounted size := by
  have hl : (e.releaseLocks tx).Later ((e.releaseLocks tx).finish tx) :=
    later_updateTx _ tx fun _ _ => rfl
  have hfin := isFinished_finish (e := e.releaseLocks tx) hb
  have hbooks := (h.books.leave hidle hnone).mono (Q := ((e.releaseLocks tx).finish tx).Active)
    fun u ⟨⟨hbu, hfu⟩, hne⟩ => by
      refine ⟨(hl.begun u).2 hbu, Bool.eq_false_iff.2 fun hf => ?_⟩
      exact ((hfin u).1 hf).elim (fun hf => Bool.eq_false_iff.1 hfu hf) hne
  refine ⟨?_, fun u hu => ?_⟩
  · obtain ⟨ts, hts⟩ := (e.releaseLocks tx).finish_eq tx
    rw [hts] at hbooks ⊢
    exact hbooks
  · rw [hl.next]
    exact h.begun u ((hl.begun u).1 hu)

theorem Accounted.releaseAll (h : e.Accounted size) (hidle : e.Idle tx) :
    (e.desk.releaseAll tx).1 = .ok () ∧
      Squares size e.Active e { e with desk := (e.desk.releaseAll tx).2 } ∧
      ∀ b, ((e.desk.releaseAll tx).2.pinsOf tx).holds.find? b = none := by
  obtain ⟨hok, hf, ht, hnone⟩ := Desk.releaseAll_ok h.books.desk tx
  refine ⟨hok, ⟨h.books.goOn hf (fun b j hj => ?_) (.inr hidle.clear)
    (fun j hj => h.books.queued j (ht ▸ hj)) h.books.asleep, .of_eq rfl rfl⟩, hnone⟩
  rw [hnone b] at hj
  cases hj

structure Onward (size : Nat) (e e' : Engine) : Prop where
  accounted : e'.Accounted size
  finished : ∀ u, e.isFinished u → e'.isFinished u

theorem Accounted.onward (h : e.Accounted size) (hs : Squares size e.Active e e') :
    Onward size e e' := ⟨h.next hs, fun u hu => (hs.level.finished u).trans hu⟩

theorem Accounted.letGo (h : e.Accounted size) (hb : e.Begun tx) (hidle : e.Idle tx) :
    Onward size e (e.letGo tx).2 ∧ (e.letGo tx).2.isFinished tx := by
  obtain ⟨hok, hs, hnone⟩ := h.releaseAll hidle
  have hd := h.next hs
  unfold Engine.letGo atDesk
  dsimp only
  generalize e.desk.releaseAll tx = r at hok hs hnone hd
  obtain ⟨q, d⟩ := r
  obtain rfl : q = .ok () := hok
  have hfin := isFinished_finish (e := { e with desk := d }.releaseLocks tx) hb
  exact ⟨⟨hd.close hb hidle hnone, fun u hu => (hfin u).2 (.inl hu)⟩, (hfin tx).2 (.inr rfl)⟩

theorem Accounted.commit (h : e.Accounted size) (hb : e.Begun tx) (hidle : e.Idle tx) :
    Onward size e (e.commit tx).2 := by
  have hm := h.makeDurable tx
  have hsus := (e.beside_makeDurable tx).suspended
  unfold Engine.commit
  split
  · exact h.onward ⟨h.books, .refl e⟩
  · generalize e.makeDurable tx = r at hm hsus
    obtain ⟨q, e₁⟩ := r
    have hon := h.onward hm
    cases q with
    | error err => exact hon
    | ok _ =>
      have hgo := (hon.accounted.letGo ((hm.level.begun tx).2 hb) fun id s hs =>
        hidle id s (hsus ▸ hs)).1
      exact ⟨hgo.accounted, fun u hu => hgo.finished u (hon.finished u hu)⟩

theorem Accounted.rollback (h : e.Accounted size) (hb : e.Begun tx) (hidle : e.Idle tx) :
    Onward size e (e.rollback tx).2 := by
  unfold Engine.rollback
  split
  · exact h.onward ⟨h.books, .refl e⟩
  · exact (h.letGo hb hidle).1

theorem Accounted.drop (h : e.Accounted size) (hb : e.Begun tx) (hidle : e.Idle tx) :
    Onward size e (e.drop tx).2 ∧ (e.drop tx).2.isFinished tx := by
  unfold Engine.drop
  split
  · rename_i hf
    have hon := h.onward (h.releaseAll hidle).2.1
    exact ⟨hon, hon.finished tx hf⟩
  · exact h.letGo hb hidle

theorem Accounted.begin (h : e.Accounted size) (level : Isolation) :
    Onward size e (e.begin level).2 := by
  have hold : ∀ u, e.Begun u →
      (e.begin level).2.transactions.find? u = e.transactions.find? u := fun u hu =>
    Registry.find?_insert_of_ne _ _ fun he => Nat.lt_irrefl _ (he ▸ h.begun u hu)
  have hfin : ∀ u, e.Begun u → (e.begin level).2.isFinished u = e.isFinished u := fun u hu => by
    rw [isFinished, isFinished, hold u hu]
  refine ⟨⟨h.books.mono fun u hu => ⟨?_, (hfin u hu.1).trans hu.2⟩, fun u hu => ?_⟩,
    fun u hu => (hfin u (begun_of_isFinished hu)).trans hu⟩
  · rw [Begun, hold u hu.1]
    exact hu.1
  · by_cases he : u = ⟨e.nextTx⟩
    · subst he
      exact Nat.lt_succ_self _
    · refine Nat.lt_succ_of_lt (h.begun u ?_)
      rw [Begun, ← Registry.find?_insert_of_ne _ _ he]
      exact hu

theorem accounted_create {settings : Settings} {disk : Disk} (h : create settings disk = .ok e) :
    e.Accounted settings.blockSize := by
  obtain ⟨pool, locks, hpool, hl, rfl⟩ := create_eq_ok h
  obtain rfl := LockTable.eq_blank_of_create hl
  have heven : Store.Even (disk.reopen settings.blockSize).blockSize (fun _ => 0)
      (.over (disk.reopen settings.blockSize) .empty pool) := Store.even_over hpool
  have hdesk : Desk.Balanced settings.blockSize
      { store := .over (disk.reopen settings.blockSize) .empty pool
        maxWait := settings.maxWait, window := settings.window } :=
    ⟨heven, fun _ _ _ hj => (nomatch hj), rfl⟩
  exact
    { books :=
        { desk := hdesk
          locks := LockTable.booked_blank _ _ _ _
          holding := fun _ _ _ hj => (nomatch hj)
          parked := fun _ _ hs => (nomatch hs)
          alone := fun _ _ _ _ hs => (nomatch hs)
          queued := fun _ hk => (nomatch hk)
          asleep := fun _ hs => (nomatch hs) }
      begun := fun _ hu => (nomatch hu) }

end Engine

end PagedStore
