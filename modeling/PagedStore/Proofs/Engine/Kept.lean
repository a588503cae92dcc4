import PagedStore.Engine
import PagedStore.Proofs.Pool.Claim

set_option autoImplicit false

/-!
A property of the frames, the files and the log is kept by everything that goes on at the desk and
in the engine when the few things keep it that all of that is made of. Main statements:
`Store.Kept.pin`, `Store.Kept.resume`, `Engine.Kept.request`, `Engine.Kept.resume` and
`Engine.Kept.commit`.
-/

namespace PagedStore

namespace Store

/-- A pool keeps the property whatever it is asked for. -/
structure Kept (P : Store → Prop) : Prop where
  still : ∀ {s s' : Store}, Still s s' → P s → P s'
  flush : ∀ {s : Store} (i : Nat), P s → P (s.flushFrame i).2
  refill : ∀ {s : Store} {i : Nat} {f : Frame} (w : Wanted), s.pool.frames[i]? = some f →
    f.Rested → P s → P (s.refill i f w).2

end Store

/-- A frame keeps the property when it is written back or given up, and has it once it is filled.
Pins and second chances do not matter to it. -/
structure Frame.Kept (P : Frame → Prop) : Prop where
  core : ∀ {f g : Frame}, f.core = g.core → P f → P g
  saved : ∀ {f : Frame}, P f → P { f with dirty := false, fresh := false }
  vacated : ∀ {f : Frame}, f.Rested → P f → P { f with block := none }
  read : ∀ (f : Frame) (b : BlockId) (data : Bytes), P { f with
    data, block := some b, pins := 0, lsn := Page.lsn data, modifiedBy := none
    dirty := false, fresh := false }
  added : ∀ (f : Frame) (b : BlockId) (format : Formatter), P { f with
    data := format.page f.data.length, block := some b, pins := 0, lsn := 0
    modifiedBy := none, dirty := false, fresh := true }

namespace Store

theorem kept_frames {P : Frame → Prop} (h : Frame.Kept P) :
    Kept fun s => ∀ (i : Nat) (f : Frame), s.pool.frames[i]? = some f → P f where
  still hst hs i g hg := by
    obtain ⟨f, hf, hc⟩ := hst.frame hg
    exact h.core hc (hs i f hf)
  flush {s} i hs := by
    have hfl := s.flushedAt i
    generalize s.flushFrame i = r at hfl
    cases hfl with
    | idle => exact hs
    | unforced hf hm => exact hs
    | unsaved hf hb hm hw => exact hs
    | saved hf hb hm hw =>
      intro j g hg
      rcases getElem?_set_cases hg with ⟨-, rfl⟩ | ⟨-, hg⟩
      · exact h.saved (hs i _ hf)
      · exact hs j g hg
  refill {s i f} w hi hc hs := by
    have hset : ∀ {g : Frame}, P g → ∀ (j : Nat) (k : Frame),
        (s.pool.frames.set i g)[j]? = some k → P k := by
      intro g hp j k hk
      rcases getElem?_set_cases hk with ⟨-, rfl⟩ | ⟨-, hk⟩
      · exact hp
      · exact hs j k hk
    have hre := s.refilled i f w
    generalize s.refill i f w = r at hre
    cases hre with
    | unread hr | unadded ha => exact hset (h.vacated hc (hs i f hi))
    | read hr => exact hset (h.read f _ _)
    | added ha => exact hset (h.added f _ _)

namespace Kept

variable {P : Store → Prop} (h : Kept P) {s : Store}

include h

theorem claim (hs : P s) (w : Wanted) : P (s.claim w).2 := by
  have hcl := claimed s w
  generalize s.claim w = r at hcl
  cases hcl with
  | full hst => exact h.still hst hs
  | @unflushed s₁ s₂ i e hst hf =>
    have hfl := h.flush i (h.still hst hs)
    rwa [hf] at hfl
  | @unfilled s₁ s₂ s₃ i f e hst hf hi hc hr =>
    have hfl := h.flush i (h.still hst hs)
    rw [hf] at hfl
    have hre := h.refill w hi hc hfl
    rwa [hr] at hre
  | @filled s₁ s₂ s₃ s₄ i f hst hf hi hc hr hst' =>
    have hfl := h.flush i (h.still hst hs)
    rw [hf] at hfl
    have hre := h.refill w hi hc hfl
    rw [hr] at hre
    exact h.still hst' hre

theorem pin (hs : P s) (w : Wanted) : P (s.pin w).2 := by
  cases w with
  | fresh file format => exact h.claim hs _
  | block b =>
    simp only [Store.pin, pinBlock]
    split
    · exact h.claim hs _
    · split
      · exact h.still ⟨Pool.map_core_take .., Pool.table_take .., rfl⟩ hs
      · exact hs

theorem unpin (hs : P s) (i : Nat) : P (s.unpin i).2 := h.still (still_unpin s i) hs

theorem flushWhere (hs : P s) (asked : Frame → Bool) : P (s.flushWhere asked).2 :=
  flushWhere_induct (fun _ i hs => h.flush i hs) hs asked

theorem unpinFrames (hs : P s) (frames : List Nat) : P (Desk.unpinFrames frames s).2 := by
  induction frames generalizing s with
  | nil => exact hs
  | cons i rest ih =>
    have hu := h.unpin hs i
    unfold Desk.unpinFrames
    generalize s.unpin i = r at hu
    obtain ⟨r, s'⟩ := r
    cases r with
    | error e => exact hu
    | ok u => exact ih hu

theorem flushTouched (hs : P s) (tx : TxId) (frames : List Nat) :
    P (Desk.flushTouched tx frames s).2 := by
  induction frames generalizing s with
  | nil => exact hs
  | cons i rest ih =>
    have hf := h.flush i hs
    unfold Desk.flushTouched
    split
    · generalize s.flushFrame i = r at hf
      obtain ⟨r, s'⟩ := r
      cases r with
      | error e => exact hf
      | ok u => exact ih hf
    · exact ih hs

end Kept

end Store

namespace Desk

@[simp] theorem store_tellFree (d : Desk) : d.tellFree.store = d.store := by
  unfold tellFree
  split <;> rfl

@[simp] theorem store_finish (d : Desk) (tx : TxId) (w : Wanted) (frame : Nat) :
    (d.finish tx w frame).2.store = d.store := by
  unfold finish
  split
  · rfl
  · split <;> rfl

theorem kept_finish {P : Store → Prop} {d : Desk} (hd : P d.store) (tx : TxId) (w : Wanted)
    (frame : Nat) : P (d.finish tx w frame).2.store := by
  rw [store_finish]
  exact hd

end Desk

namespace Store.Kept

variable {P : Store → Prop} (h : Kept P) {d : Desk}

include h

theorem turn (hd : P d.store) (ticket : Nat) (w : Wanted) (expired : Bool) :
    P (d.turn ticket w expired).2.store := by
  have hidle : ∀ d : Desk, P d.store →
      P (if expired then (Turn.ranOut, d.leave ticket) else (Turn.asleep, d)).2.store := by
    intro d hd
    split <;> exact hd
  have hp := h.pin hd w
  unfold Desk.turn
  dsimp only
  split
  · generalize d.store.pin w = r at hp
    obtain ⟨r, s'⟩ := r
    cases r with
    | error e => cases e <;> exact hp
    | ok i? =>
      cases i? with
      | none => exact hidle _ hp
      | some i => exact hp
  · exact hidle d hd

theorem afterTurn (hd : P d.store) (ticket : Nat) (w : Wanted) (expired : Bool)
    {got : Nat → Desk → PinProgress × Desk} {ranOut asleep : Desk → PinProgress × Desk}
    (hgot : ∀ i d, P d.store → P (got i d).2.store)
    (hran : ∀ d, P d.store → P (ranOut d).2.store)
    (hsleep : ∀ d, P d.store → P (asleep d).2.store) :
    P (match d.turn ticket w expired with
      | (.got i, d) => got i d
      | (.failed e, d) => (.done (.error e), d)
      | (.ranOut, d) => ranOut d
      | (.asleep, d) => asleep d).2.store := by
  have ht := h.turn hd ticket w expired
  generalize d.turn ticket w expired = r at ht
  obtain ⟨r, d'⟩ := r
  cases r with
  | got i => exact hgot i d' ht
  | failed e => exact ht
  | ranOut => exact hran d' ht
  | asleep => exact hsleep d' ht

theorem regain (tx : TxId) (w : Wanted) (holds : List (BlockId × Nat)) (hd : P d.store) :
    P (Desk.regain tx w holds d).2.store := by
  induction holds generalizing d with
  | nil =>
    exact h.afterTurn (d := d.join.2) hd d.join.1 w d.join.2.impatient
      (fun i _ hd => Desk.kept_finish hd tx w i) (fun _ hd => hd) fun _ hd => hd
  | cons hold rest ih =>
    exact h.afterTurn (d := d.join.2) hd d.join.1 (.block hold.1) d.join.2.impatient
      (fun _ _ hd => ih hd) (fun _ hd => hd) fun _ hd => hd

theorem giveUp (hd : P d.store) (tx : TxId) (w : Wanted) : P (d.giveUp tx w).2.store := by
  have hu := h.unpinFrames hd ((d.pinsOf tx).holds.entries.map fun e => e.2.frame)
  unfold Desk.giveUp
  dsimp only
  split <;> exact hu

theorem ask (hd : P d.store) (tx : TxId) (w : Wanted) : P (d.ask tx w).2.store := by
  have hp := h.pin hd w
  unfold Desk.ask
  split
  · exact hd
  · generalize d.store.pin w = r at hp
    obtain ⟨r, s'⟩ := r
    cases r with
    | error e => exact hp
    | ok i? =>
      cases i? with
      | some i => exact Desk.kept_finish (P := P) (d := { d with store := s' }) hp tx w i
      | none =>
        exact h.afterTurn (d := (Desk.join { d with store := s' }).2) hp _ w _
          (fun i _ hd => Desk.kept_finish hd tx w i) (fun _ hd => h.giveUp hd tx w) fun _ hd => hd

theorem deskPin (hd : P d.store) (tx : TxId) (w : Wanted) : P (d.pin tx w).2.store := by
  unfold Desk.pin
  cases w with
  | fresh file format => exact h.ask hd tx _
  | block b =>
    dsimp only
    split
    · exact h.ask hd tx _
    · exact hd

theorem deskResume (hd : P d.store) (tx : TxId) (w : PinWait) (expired : Bool) :
    P (d.resume tx w expired).2.store := by
  unfold Desk.resume
  split
  · exact h.regain tx w.wanted _ hd
  · rename_i ticket _
    exact h.afterTurn (d := { d with line := d.line.heed ticket }) hd _ _ _
      (fun i _ hd => Desk.kept_finish hd tx w.wanted i) (fun _ hd => h.giveUp hd tx w.wanted)
      fun _ hd => hd
  · rename_i ticket b refs rest _
    exact h.afterTurn (d := { d with line := d.line.heed ticket }) hd _ _ _
      (fun _ _ hd => h.regain tx w.wanted rest hd) (fun _ hd => hd) fun _ hd => hd
  · rename_i ticket _
    exact h.afterTurn (d := { d with line := d.line.heed ticket }) hd _ _ _
      (fun i _ hd => Desk.kept_finish hd tx w.wanted i) (fun _ hd => hd) fun _ hd => hd

theorem deskUnpin (hd : P d.store) (tx : TxId) (b : BlockId) : P (d.unpin tx b).2.store := by
  unfold Desk.unpin
  dsimp only
  split
  · exact hd
  · rename_i hold _
    have hu := h.unpin hd hold.frame
    split
    · exact hd
    · split
      · exact hu
      · rw [Desk.store_tellFree]
        exact hu

theorem deskReleaseAll (hd : P d.store) (tx : TxId) : P (d.releaseAll tx).2.store := by
  have hu := h.unpinFrames hd ((d.pinsOf tx).holds.entries.map fun e => e.2.frame)
  unfold Desk.releaseAll
  dsimp only
  split
  · exact hd
  · split
    · exact hu
    · rw [Desk.store_tellFree]
      exact hu

theorem deskFlushMine (hd : P d.store) (tx : TxId) : P (d.flushMine tx).2.store :=
  h.flushTouched hd tx _

end Store.Kept

namespace Engine

theorem create_eq_ok {settings : Settings} {disk : Disk} {e : Engine}
    (h : create settings disk = .ok e) : ∃ pool locks,
      Pool.create settings.poolSize settings.stripes settings.blockSize = .ok pool ∧
        LockTable.create settings.anchors settings.maxWait settings.wakeups = .ok locks ∧
        e =
          { desk :=
              { store := ⟨{ disk := disk.reopen settings.blockSize, log := .empty }, pool⟩
                maxWait := settings.maxWait, window := settings.window }
            locks } := by
  unfold create at h
  split at h
  · cases h
  · rename_i pool hpool
    cases hl : LockTable.create settings.anchors settings.maxWait settings.wakeups with
    | error err =>
      rw [hl] at h
      cases h
    | ok locks =>
      rw [hl] at h
      cases h
      exact ⟨pool, locks, hpool, rfl, rfl⟩

/-- An engine keeps the property: a pool does, and so do the calls of the log and of the files that
an operation makes, applying a write whose record is in the log, and outages. -/
structure Kept (P : Store → Prop) : Prop extends Store.Kept P where
  length : ∀ {s : Store} (file : String), P s →
    P { s with media := { s.media with disk := (s.media.disk.length file).2 } }
  append : ∀ {s : Store} (record : Bytes), P s →
    P { s with media := { s.media with log := (s.media.log.append record).2 } }
  flushLog : ∀ {s : Store} (lsn : Lsn), P s →
    P { s with media := { s.media with log := (s.media.log.flush lsn).2 } }
  apply : ∀ {s s' : Store} (w : LoggedWrite), w.lsn ≤ s.media.log.last →
    s.editFrame w.frame (fun f => f.writeLogged w.offset w.value w.tx w.lsn) = (.ok (), s') →
    P s → P { s' with media := s'.media.note (.applied w.frame w.lsn) }
  outage : ∀ {s : Store} (o : Outage), P s →
    P { s with media := { s.media with log := { s.media.log with outage := o } } }
  fault : ∀ {s : Store} (cause : Option IoCause), P s →
    P { s with media := { s.media with disk := { s.media.disk with fault := cause } } }

@[simp] theorem store_updateTx (e : Engine) (tx : TxId) (f : Transaction → Transaction) :
    (e.updateTx tx f).desk.store = e.desk.store := by
  unfold updateTx
  split <;> rfl

@[simp] theorem store_finish (e : Engine) (tx : TxId) :
    (e.finish tx).desk.store = e.desk.store := store_updateTx ..

namespace Kept

variable {P : Store → Prop} (h : Kept P) {e : Engine}

include h

theorem logWrite (he : P e.desk.store) (tx : TxId) (r : RecordId) (offset : Nat) (v : Value) :
    P (e.logWrite tx r offset v).2.desk.store := by
  unfold Engine.logWrite
  split
  · exact he
  · rename_i i f _
    split
    · exact he
    · have ha := h.append (Update.encode { tx, block := r.block, offset, bytes := v.encode }) he
      dsimp only [Engine.media]
      generalize e.desk.store.media.log.append _ = q at ha
      obtain ⟨q, log⟩ := q
      cases q <;> exact ha

theorem applyWrite (he : P e.desk.store) {w : LoggedWrite} (hw : w.lsn ≤ e.media.log.last) :
    P (e.applyWrite w).2.desk.store := by
  unfold Engine.applyWrite
  cases hr : e.desk.store.editFrame w.frame fun f =>
      f.writeLogged w.offset w.value w.tx w.lsn with
  | mk r s' =>
    cases r with
    | error err =>
      rw [Store.editFrame_eq_error hr]
      exact he
    | ok u =>
      dsimp only
      rw [store_updateTx]
      exact h.apply w hw hr he

end Kept

inductive Logging (e : Engine) (tx : TxId) (r : RecordId) (offset : Nat) (v : Value) :
    Outcome LoggedWrite × Engine → Prop
  | unpinned (h : e.heldFrame? tx r.block = none) :
      Logging e tx r offset v (.error (.crash (.accessUnpinned tx r.block)), e)
  | outside {i : Nat} {f : Frame} (h : e.heldFrame? tx r.block = some (i, f))
      (hlt : f.capacity < offset + v.size) :
      Logging e tx r offset v (.error (.error (.outOfBounds offset v.size f.capacity)), e)
  | refused {i : Nat} {f : Frame} (h : e.heldFrame? tx r.block = some (i, f))
      (hle : offset + v.size ≤ f.capacity) (ho : e.media.log.outage = .append) :
      Logging e tx r offset v (.error (.error (.io .logUnavailable)), e)
  | logged {i : Nat} {f : Frame} (h : e.heldFrame? tx r.block = some (i, f))
      (hle : offset + v.size ≤ f.capacity) :
      Logging e tx r offset v
        (.ok { tx, frame := i, offset, value := v, lsn := e.media.log.last + 1 },
          e.setLog { e.media.log with records := e.media.log.records ++
            [Update.encode { tx, block := r.block, offset, bytes := v.encode }] })

theorem logging (e : Engine) (tx : TxId) (r : RecordId) (offset : Nat) (v : Value) :
    Logging e tx r offset v (e.logWrite tx r offset v) := by
  unfold logWrite
  cases hheld : e.heldFrame? tx r.block with
  | none => exact .unpinned hheld
  | some hold =>
    obtain ⟨i, f⟩ := hold
    dsimp only
    split
    · rename_i hlt
      exact .outside hheld hlt
    · rename_i hle
      unfold Log.append
      by_cases ho : e.media.log.outage = .append
      · simp only [if_pos ho]
        exact .refused hheld (Nat.not_lt.1 hle) ho
      · simp only [if_neg ho]
        exact .logged hheld (Nat.not_lt.1 hle)

theorem lsn_logWrite {e e' : Engine} {tx : TxId} {r : RecordId} {offset : Nat} {v : Value}
    {w : LoggedWrite} (h : e.logWrite tx r offset v = (.ok w, e')) :
    w.lsn ≤ e'.media.log.last := by
  have hl := e.logging tx r offset v
  rw [h] at hl
  cases hl with
  | logged => simp [media, setLog, setMedia, setStore, Log.last]

section

variable {P : Store → Prop} {e : Engine}

theorem kept_locked (he : P e.desk.store) (k : Task) (steps : List LockStep) (work : Work)
    {next : Engine → Progress × Engine}
    (hnext : ∀ e : Engine, P e.desk.store → P (next e).2.desk.store) :
    P (e.locked k steps work next).2.desk.store := by
  unfold Engine.locked
  split
  · exact hnext _ he
  · exact he
  · exact he

theorem kept_pinned (k : Task) (thenLock : Bool) {r : PinProgress × Desk} (hr : P r.2.store) :
    P (e.pinned k thenLock r).2.desk.store := by
  unfold Engine.pinned
  dsimp only
  split
  · exact hr
  · exact hr
  · exact hr
  · split
    · split
      · exact kept_locked (P := P) (e := { e with desk := r.2 }) hr k _ _ fun _ he => he
      · exact hr
    · exact hr

theorem kept_active (he : P e.desk.store) (k : Task) {next : Engine → Progress × Engine}
    (hnext : P (next e).2.desk.store) : P (e.active k next).2.desk.store := by
  unfold Engine.active
  split
  · exact he
  · exact hnext

end

namespace Kept

variable {P : Store → Prop} (h : Kept P) {e : Engine}

include h

theorem writeHeld (he : P e.desk.store) (tx : TxId) (r : RecordId) (offset : Nat) (v : Value) :
    P (e.writeHeld tx r offset v).2.desk.store := by
  have hlog := h.logWrite he tx r offset v
  unfold Engine.writeHeld
  cases hw : e.logWrite tx r offset v with
  | mk q e' =>
    rw [hw] at hlog
    cases q with
    | error err => exact hlog
    | ok w => exact h.applyWrite hlog (lsn_logWrite hw)

theorem proceed (he : P e.desk.store) (k : Task) (work : Work) :
    P (e.proceed k work).2.desk.store := by
  cases work with
  | answer a => exact he
  | length file => exact h.length file he
  | read r offset kind => exact he
  | write r offset v => exact h.writeHeld he k.tx r offset v
  | extend file format => exact kept_pinned k true (h.deskPin he k.tx _)

theorem lockedWork (he : P e.desk.store) (k : Task) (steps : List LockStep) (work : Work) :
    P (e.lockedWork k steps work).2.desk.store :=
  kept_locked he k steps work fun _ he => h.proceed he k work

theorem request (he : P e.desk.store) (k : Task) (r : Request) :
    P (e.request k r).2.desk.store := by
  cases r with
  | lock steps => exact h.lockedWork he k _ _
  | intent i => exact h.lockedWork he k _ _
  | pin w => exact kept_active he k (kept_pinned k false (h.deskPin he k.tx w))
  | append file format => exact kept_active he k (h.lockedWork he k _ _)
  | length file => exact kept_active he k (h.lockedWork he k _ _)
  | read r offset kind => exact kept_active he k (h.lockedWork he k _ _)
  | write r offset v => exact kept_active he k (h.lockedWork he k _ _)

theorem resume (he : P e.desk.store) (id : Nat) (expired : Bool) :
    P (e.resume id expired).2.desk.store := by
  unfold Engine.resume
  split
  · exact he
  · exact kept_pinned _ _ (h.deskResume he _ _ _)
  · split
    · exact he
    · split
      · rename_i locks _
        exact h.lockedWork (e := { e with locks }) he _ _ _
      · exact he
      · exact he
      · exact he

theorem letGo (he : P e.desk.store) (tx : TxId) : P (e.letGo tx).2.desk.store := by
  have hr : P (e.atDesk fun d => d.releaseAll tx).2.desk.store := h.deskReleaseAll he tx
  unfold Engine.letGo
  generalize e.atDesk (fun d => d.releaseAll tx) = r at hr
  obtain ⟨r, e'⟩ := r
  cases r with
  | error err => exact hr
  | ok u =>
    dsimp only
    rw [store_finish]
    exact hr

theorem force {s : Store} (hs : P s) (lsn : Lsn) :
    P { s with media := (s.media.force lsn).2 } := by
  unfold Media.force
  split
  · exact hs
  · exact h.flushLog lsn hs

theorem makeDurable (he : P e.desk.store) (tx : TxId) : P (e.makeDurable tx).2.desk.store := by
  have hf : P (e.atDesk fun d => d.flushMine tx).2.desk.store := h.deskFlushMine he tx
  unfold Engine.makeDurable
  generalize e.atDesk (fun d => d.flushMine tx) = r at hf
  obtain ⟨r, e'⟩ := r
  cases r with
  | error err => exact hf
  | ok u => exact h.force hf _

theorem commit (he : P e.desk.store) (tx : TxId) : P (e.commit tx).2.desk.store := by
  have hm := h.makeDurable he tx
  unfold Engine.commit
  split
  · exact he
  · generalize e.makeDurable tx = r at hm
    obtain ⟨r, e'⟩ := r
    cases r with
    | error err => exact hm
    | ok u => exact h.letGo hm tx

theorem rollback (he : P e.desk.store) (tx : TxId) : P (e.rollback tx).2.desk.store := by
  unfold Engine.rollback
  split
  · exact he
  · exact h.letGo he tx

theorem drop (he : P e.desk.store) (tx : TxId) : P (e.drop tx).2.desk.store := by
  unfold Engine.drop
  split
  · exact h.deskReleaseAll he tx
  · exact h.letGo he tx

end Kept

end Engine

end PagedStore
