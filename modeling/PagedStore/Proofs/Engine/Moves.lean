import PagedStore.Proofs.Engine.Run
import PagedStore.Proofs.Pins.Steady

set_option autoImplicit false

/-!
The operations of an engine as moves at the desk. Main statements: `Engine.did_request` and
`Engine.did_resume`. An operation makes at most one change to the contents, a successful write or a
new block, and `Work.change?` says which.
-/

namespace PagedStore

def Progress.isOk : Progress → Bool
  | .done r => r.isOk
  | .waits | .sleepsOn => false

def Wanted.work : Wanted → Work
  | .block b => .answer (.block b)
  | .fresh file format => .extend file format

def Request.work : Request → Work
  | .lock _ | .intent _ => .answer .done
  | .pin w => w.work
  | .append file format => .extend file format
  | .length file => .length file
  | .read r offset kind => .read r offset kind
  | .write r offset v => .write r offset v

def Wait.work : Wait → Work
  | .onLock _ _ work => work
  | .onFrame w _ => w.wanted.work

namespace Work

/-- What work changed that began in `e` and came to `r`. A write has the position of the record
that it appended, the last one. -/
def change? (e : Engine) (r : Progress × Engine) : Work → Option Change
  | .write record offset v =>
    if r.1.isOk then some (.put record.block offset v (some r.2.media.log.last)) else none
  | .extend file format =>
    if e.media.disk.blocks file < r.2.media.disk.blocks file then some (.add file format) else none
  | .answer _ | .length _ | .read _ _ _ => none

def Within (c : Terms) : Work → Prop
  | .extend file _ => c.names file
  | .answer _ | .length _ | .read _ _ _ | .write _ _ _ => True

end Work

def Wait.Within (c : Terms) : Wait → Prop
  | .onLock _ _ work => work.Within c
  | .onFrame u thenLock => c.names u.wanted.file ∧ (∀ b, u.wanted = .block b → thenLock = false) ∧
      ∀ b ∈ u.stage.blocks, c.Has b

namespace Engine

def Begun (e : Engine) (tx : TxId) : Prop := (e.transactions.find? tx).isSome

instance (e : Engine) (tx : TxId) : Decidable (e.Begun tx) :=
  inferInstanceAs (Decidable ((e.transactions.find? tx).isSome = true))

/-- No transaction began in between, and those that had ended stay so. -/
structure Later (e e' : Engine) : Prop where
  next : e'.nextTx = e.nextTx
  begun : ∀ tx, e'.Begun tx ↔ e.Begun tx
  finished : ∀ tx, e.isFinished tx → e'.isFinished tx

variable {c : Terms} {tx : TxId} {e e' e'' : Engine} {w : Work}

theorem Later.refl (e : Engine) : e.Later e := ⟨rfl, fun _ => .rfl, fun _ => id⟩

theorem Later.trans (h : e.Later e') (h' : e'.Later e'') : e.Later e'' :=
  ⟨h'.next.trans h.next, fun tx => (h'.begun tx).trans (h.begun tx),
    fun tx hf => h'.finished tx (h.finished tx hf)⟩

theorem Later.of_eq (ht : e'.transactions = e.transactions) (hn : e'.nextTx = e.nextTx) :
    e.Later e' :=
  ⟨hn, fun tx => by rw [Begun, Begun, ht], fun tx h => by rwa [isFinished, ht]⟩

theorem later_updateTx (e : Engine) (tx : TxId) {f : Transaction → Transaction}
    (hf : ∀ t, t.finished → (f t).finished) : e.Later (e.updateTx tx f) := by
  unfold updateTx
  split
  · exact .refl e
  · rename_i t ht
    refine ⟨rfl, fun u => ?_, fun u hu => ?_⟩
    · rw [Begun, Begun, Registry.find?_insert]
      split
      · rename_i he
        rw [he, ht]
        exact iff_of_true rfl rfl
      · exact .rfl
    · rw [isFinished, Registry.find?_insert]
      split
      · rename_i he
        rw [isFinished, he, ht] at hu
        exact hf t hu
      · exact hu

/-- The engine moved for `tx`. -/
structure Moved (c : Terms) (tx : TxId) (e : Engine) (cs : List Change) (e' : Engine) : Prop where
  moves : Desk.Moves c tx e.desk cs e'.desk
  parked : ∀ id s, e'.suspended.find? id = some s →
    e.suspended.find? id = some s ∨ (s.tx = tx ∧ s.wait.Within c)
  later : e.Later e'

abbrev Did (c : Terms) (tx : TxId) (w : Work) (e : Engine) (r : Progress × Engine) : Prop :=
  Moved c tx e (w.change? e r).toList r.2

theorem Did.of_locks {l : LockTable} {r : Progress × Engine}
    (h : Did c tx w { e with locks := l } r) : Did c tx w e r := by
  refine ⟨?_, h.parked, ⟨h.later.next, h.later.begun, h.later.finished⟩⟩
  have hc : w.change? e r = w.change? { e with locks := l } r := by cases w <;> rfl
  rw [hc]
  exact h.moves

theorem did_nothing {r : Progress × Engine} (hdesk : r.2.desk = e.desk)
    (ht : r.2.transactions = e.transactions) (hn : r.2.nextTx = e.nextTx)
    (hp : ∀ id s, r.2.suspended.find? id = some s →
      e.suspended.find? id = some s ∨ (s.tx = tx ∧ s.wait.Within c))
    (hw : r.1.isOk = false ∨ ∀ record offset v, w ≠ .write record offset v) : Did c tx w e r := by
  refine ⟨?_, hp, .of_eq ht hn⟩
  have hnone : w.change? e r = none := by
    cases w with
    | write record offset v =>
      rcases hw with hw | hw
      · exact if_neg (by rw [hw]; exact Bool.false_ne_true)
      · exact absurd rfl (hw record offset v)
    | extend file format =>
      refine if_neg ?_
      rw [media, media, hdesk]
      exact Nat.lt_irrefl _
    | answer a => rfl
    | length file => rfl
    | read record offset kind => rfl
  rw [hnone, hdesk]
  exact .refl _

theorem suspended_ends (e : Engine) (k : Task) (q : Outcome Answer) {id : Nat} {s : Suspended}
    (h : (e.ends k q).2.suspended.find? id = some s) : e.suspended.find? id = some s :=
  (Registry.find?_of_erase h).2

theorem did_ends (e : Engine) (k : Task) {q : Outcome Answer}
    (hw : (∃ err, q = .error err) ∨ ∀ record offset v, w ≠ .write record offset v) :
    Did c k.tx w e (e.ends k q) :=
  did_nothing rfl rfl rfl (fun _ _ h => .inl (suspended_ends e k q h)) <| hw.imp_left <| by
    rintro ⟨err, rfl⟩
    rfl

theorem suspended_suspend (e : Engine) (k : Task) (wait : Wait) (hw : wait.Within c) {id : Nat}
    {s : Suspended} (h : (e.suspend k wait).suspended.find? id = some s) :
    e.suspended.find? id = some s ∨ (s.tx = k.tx ∧ s.wait.Within c) := by
  rw [suspend, Registry.find?_insert] at h
  split at h
  · cases h
    exact .inr ⟨rfl, hw⟩
  · exact .inl h

theorem did_locked (e : Engine) (k : Task) (steps : List LockStep) (hw : w.Within c)
    {next : Engine → Progress × Engine}
    (hnext : ∀ l, e.locked k steps w next = next { e with locks := l } →
      Did c k.tx w { e with locks := l } (next { e with locks := l })) :
    Did c k.tx w e (e.locked k steps w next) := by
  unfold locked at hnext ⊢
  split at hnext
  · exact (hnext _ rfl).of_locks
  · rename_i err locks _
    exact (did_ends { e with locks } k (.inl ⟨_, rfl⟩)).of_locks
  · rename_i ticket rest locks _
    exact (did_nothing (e := { e with locks }) rfl rfl rfl
      (fun id s h => suspended_suspend { e with locks } k (.onLock ticket rest w) hw h)
      (.inl rfl)).of_locks

theorem desk_lockNew (e : Engine) (k : Task) (b : BlockId) : (e.lockNew k b).2.desk = e.desk := by
  unfold lockNew locked
  split <;> rfl

theorem later_lockNew (e : Engine) (k : Task) (b : BlockId) : e.Later (e.lockNew k b).2 := by
  unfold lockNew locked
  split <;> exact .of_eq rfl rfl

theorem suspended_lockNew (e : Engine) (k : Task) (b : BlockId) {id : Nat} {s : Suspended}
    (h : (e.lockNew k b).2.suspended.find? id = some s) :
    e.suspended.find? id = some s ∨ (s.tx = k.tx ∧ s.wait.Within c) := by
  unfold lockNew locked at h
  split at h
  · rename_i locks _
    exact .inl (suspended_ends { e with locks } k (.ok (.block b)) h)
  · rename_i err locks _
    exact .inl (suspended_ends { e with locks } k (.error (.error err)) h)
  · rename_i ticket rest locks _
    exact suspended_suspend { e with locks } k (.onLock ticket rest (.answer (.block b))) trivial h

theorem desk_pinned (e : Engine) (k : Task) (thenLock : Bool) (r : PinProgress × Desk) :
    (e.pinned k thenLock r).2.desk = r.2 := by
  unfold pinned
  dsimp only
  split
  · rfl
  · rfl
  · rfl
  · split
    · split
      · exact desk_lockNew ..
      · rfl
    · rfl

theorem later_pinned (e : Engine) (k : Task) (thenLock : Bool) (r : PinProgress × Desk) :
    e.Later (e.pinned k thenLock r).2 := by
  unfold pinned
  dsimp only
  split
  · exact .of_eq rfl rfl
  · exact .of_eq rfl rfl
  · exact .of_eq rfl rfl
  · split
    · split
      · rename_i b _
        obtain ⟨hn, hb, hf⟩ := later_lockNew { e with desk := r.2 } k b
        exact ⟨hn, hb, hf⟩
      · exact .of_eq rfl rfl
    · exact .of_eq rfl rfl

theorem suspended_pinned (e : Engine) (k : Task) (thenLock : Bool) (r : PinProgress × Desk)
    (hwait : ∀ u, r.1 = .waits u ∨ r.1 = .sleepsOn u → (Wait.onFrame u thenLock).Within c)
    {id : Nat} {s : Suspended} (h : (e.pinned k thenLock r).2.suspended.find? id = some s) :
    e.suspended.find? id = some s ∨ (s.tx = k.tx ∧ s.wait.Within c) := by
  unfold pinned at h
  dsimp only at h
  split at h
  · rename_i u hu
    exact suspended_suspend { e with desk := r.2 } k _ (hwait u (.inl hu)) h
  · rename_i u hu
    exact suspended_suspend { e with desk := r.2 } k _ (hwait u (.inr hu)) h
  · rename_i err _
    exact .inl (suspended_ends { e with desk := r.2 } k (.error err) h)
  · rename_i i _
    split at h
    · split at h
      · rename_i b _
        exact suspended_lockNew { e with desk := r.2 } k b h
      · exact .inl (suspended_ends { e with desk := r.2 } k (.ok (.frame i)) h)
    · exact .inl (suspended_ends { e with desk := r.2 } k (.ok (.frame i)) h)

/-- A new block is told by the length of its file. -/
theorem change?_of_served (hd : Distinct c.names) {book : Book} (hs : Steady c book e.desk)
    {u : Wanted} {r : PinProgress × Desk} (hn : c.names u.file)
    (h : Desk.Served c tx u e.desk r) {q : Progress × Engine} (hq : q.2.desk = r.2) :
    (u.work.change? e q).toList = r.1.changes u := by
  have hall : r.1.changes u = u.changes ∨ r.1.changes u = [] := by
    cases r.1 with
    | done o =>
      cases o with
      | ok i => exact .inl rfl
      | error err => exact .inr rfl
    | waits v => exact .inr rfl
    | sleepsOn v => exact .inr rfl
  cases u with
  | block b =>
    rw [or_self_iff.1 hall]
    rfl
  | fresh file format =>
    have hlen : e.desk.store.media.disk.blocks file = book.flat.length file := hs.mirrors.length hn
    have hlen' : r.2.store.media.disk.blocks file = (book.flat.replay _).length file :=
      book.flat_after_signedBy tx _ ▸ (hs.moves hd h.moves).1.mirrors.length hn
    simp only [Wanted.work, Work.change?, media, hq, hlen, hlen']
    rcases hall with hc | hc
    · have hlt : book.flat.length file < (book.flat.replay [.add file format]).length file :=
        book.flat.lt_length_add file format
      rw [hc, Wanted.changes, if_pos hlt, Option.toList_some]
    · have hlt : ¬ book.flat.length file < (book.flat.replay []).length file := Nat.lt_irrefl _
      rw [hc, if_neg hlt, Option.toList_none]

theorem did_pinned (hd : Distinct c.names) {book : Book} (hs : Steady c book e.desk) (k : Task)
    {u : Wanted} {thenLock : Bool} {r : PinProgress × Desk} (hn : c.names u.file)
    (hlock : ∀ b, u = .block b → thenLock = false) (h : Desk.Served c k.tx u e.desk r) :
    Did c k.tx u.work e (e.pinned k thenLock r) := by
  have hdesk := desk_pinned e k thenLock r
  refine ⟨?_, fun id s hs => ?_, later_pinned ..⟩
  · rw [change?_of_served hd hs hn h hdesk, hdesk]
    exact h.moves
  · refine suspended_pinned e k thenLock r (fun v hv => ?_) hs
    obtain ⟨hv, hb⟩ := h.waits v hv
    exact ⟨hv ▸ hn, fun b hb => hlock b (hv ▸ hb), hb⟩

theorem frameOf?_of_heldFrame {b : BlockId} {i : Nat} {f : Frame}
    (h : e.heldFrame? tx b = some (i, f)) :
    ∃ k, (e.desk.pinsOf tx).holds.find? b = some k ∧ k.frame = i := by
  unfold heldFrame? Desk.frameOf? at h
  cases hk : (e.desk.pinsOf tx).holds.find? b with
  | none =>
    rw [hk] at h
    cases h
  | some k =>
    rw [hk] at h
    simp only [Option.map_some, Option.map_eq_some_iff, Prod.mk.injEq] at h
    obtain ⟨-, -, hi, -⟩ := h
    exact ⟨k, rfl, hi⟩

theorem frame?_of_heldFrame {b : BlockId} {i : Nat} {f : Frame}
    (h : e.heldFrame? tx b = some (i, f)) : e.frame? i = some f := by
  unfold heldFrame? at h
  split at h
  · cases h
  · obtain ⟨g, hg, he⟩ := Option.map_eq_some_iff.1 h
    cases he
    exact hg

theorem logWrite_snd (e : Engine) (tx : TxId) (r : RecordId) (offset : Nat) (v : Value) :
    ∃ log, (e.logWrite tx r offset v).2 = e.setLog log := by
  have hl := e.logging tx r offset v
  generalize e.logWrite tx r offset v = q at hl
  cases hl <;> exact ⟨_, rfl⟩

theorem moves_logWrite (e : Engine) (u : TxId) (r : RecordId) (offset : Nat) (v : Value) :
    Desk.Moves c tx e.desk [] (e.logWrite u r offset v).2.desk := by
  obtain ⟨log, he⟩ := e.logWrite_snd u r offset v
  rw [he]
  exact (Desk.Move.beside (m := { e.media with log }) (.refl _)).moves

theorem logWrite_ok {r : RecordId} {offset : Nat} {v : Value} {u : LoggedWrite}
    (h : e.logWrite tx r offset v = (.ok u, e')) :
    u.tx = tx ∧ u.offset = offset ∧ u.value = v ∧ u.lsn = e'.media.log.last ∧
      ∃ k, (e.desk.pinsOf tx).holds.find? r.block = some k ∧ k.frame = u.frame := by
  have hl := e.logging tx r offset v
  rw [h] at hl
  cases hl with
  | logged hheld hle =>
    refine ⟨rfl, rfl, rfl, ?_, frameOf?_of_heldFrame hheld⟩
    simp [media, setLog, setMedia, setStore, Log.last]

theorem moves_applyWrite {u : LoggedWrite} {b : BlockId} {k : Hold} (ht : u.tx.num ≠ 0)
    (hb : (e.desk.pinsOf u.tx).holds.find? b = some k) (hk : k.frame = u.frame)
    (hl : u.lsn < wordLimit 8) :
    Desk.Moves c u.tx e.desk
        (if (e.applyWrite u).1.isOk then [.put b u.offset u.value (some u.lsn)] else [])
        (e.applyWrite u).2.desk := by
  unfold applyWrite
  cases hr : e.desk.store.editFrame u.frame fun f => f.writeLogged u.offset u.value u.tx u.lsn with
  | mk r s =>
    cases r with
    | error err =>
      rw [Store.editFrame_eq_error hr]
      exact .refl _
    | ok _ =>
      have hdesk : ∀ f, (((e.setStore s).note (.applied u.frame u.lsn)).updateTx u.tx f).desk =
          (e.desk.setStore s).setStore
            { s with media := s.media.note (.applied u.frame u.lsn) } := by
        intro f
        unfold updateTx
        split <;> rfl
      dsimp only
      rw [hdesk]
      exact (Desk.Move.wrote ht hb hl (hk ▸ hr)).moves.after
        (Desk.Move.beside (d := e.desk.setStore s) (m := s.media.note _) (.refl _)).moves

theorem log_applyWrite (e : Engine) (u : LoggedWrite) :
    (e.applyWrite u).2.media.log = e.media.log := by
  have hm := Store.media_editFrame e.desk.store u.frame fun f =>
    f.writeLogged u.offset u.value u.tx u.lsn
  unfold applyWrite
  split
  · rename_i err s hr
    rw [hr] at hm
    exact congrArg Media.log hm
  · rename_i s hr
    rw [hr] at hm
    rw [media, store_updateTx]
    show s.media.log = e.desk.store.media.log
    exact congrArg Media.log hm

theorem pins_applyWrite (e : Engine) (u : LoggedWrite) :
    (e.applyWrite u).2.desk.pins = e.desk.pins := by
  unfold applyWrite
  split
  · rfl
  · unfold updateTx
    split <;> rfl

theorem pins_writeHeld (e : Engine) (tx : TxId) (r : RecordId) (offset : Nat) (v : Value) :
    (e.writeHeld tx r offset v).2.desk.pins = e.desk.pins := by
  obtain ⟨log, hlog⟩ := e.logWrite_snd tx r offset v
  unfold writeHeld
  cases hw : e.logWrite tx r offset v with
  | mk q e₁ =>
    rw [hw] at hlog
    obtain rfl : e₁ = e.setLog log := hlog
    cases q with
    | error err => rfl
    | ok u => exact pins_applyWrite _ u

theorem later_applyWrite (e : Engine) (u : LoggedWrite) : e.Later (e.applyWrite u).2 := by
  unfold applyWrite
  split
  · exact .of_eq rfl rfl
  · rename_i s _
    obtain ⟨hn, hb, hf⟩ := later_updateTx ((e.setStore s).note (.applied u.frame u.lsn)) u.tx
      (f := fun t => { t with lastLsn := u.lsn }) fun _ h => h
    exact ⟨hn, hb, hf⟩

theorem suspended_updateTx (e : Engine) (u : TxId) (f : Transaction → Transaction) :
    (e.updateTx u f).suspended = e.suspended := by
  unfold updateTx
  split <;> rfl

theorem suspended_applyWrite (e : Engine) (u : LoggedWrite) :
    (e.applyWrite u).2.suspended = e.suspended := by
  unfold applyWrite
  split
  · rfl
  · exact suspended_updateTx ..

theorem change?_write_ends (e e' : Engine) (k : Task) (q : Outcome Answer) (r : RecordId)
    (offset : Nat) (v : Value) : ((Work.write r offset v).change? e (e'.ends k q)).toList =
      if q.isOk then [.put r.block offset v (some e'.media.log.last)] else [] := by
  cases q <;> rfl

theorem did_write (k : Task) (hk : k.tx.num ≠ 0) {r : RecordId} {offset : Nat} {v : Value}
    (hl : (e.writeHeld k.tx r offset v).2.media.log.last < wordLimit 8) :
    Did c k.tx (.write r offset v) e
      ((e.writeHeld k.tx r offset v).2.ends k (e.writeHeld k.tx r offset v).1) := by
  obtain ⟨log, hlog⟩ := e.logWrite_snd k.tx r offset v
  have hm : Desk.Moves c k.tx e.desk [] (e.logWrite k.tx r offset v).2.desk := moves_logWrite ..
  unfold writeHeld at hl ⊢
  cases hw : e.logWrite k.tx r offset v with
  | mk q e' =>
    rw [hw] at hl hlog hm
    obtain rfl : e' = e.setLog log := hlog
    cases q with
    | error err =>
      exact ⟨hm, fun id s h => .inl (suspended_ends _ k (.error err) h), .of_eq rfl rfl⟩
    | ok u =>
      obtain ⟨htx, hoffset, hvalue, hlsn, h, hb, hf⟩ := logWrite_ok hw
      have hlast : ((e.setLog log).applyWrite u).2.media.log.last = u.lsn := by
        rw [log_applyWrite, hlsn]
      dsimp only at hl ⊢
      rw [hlast] at hl
      have happly : Desk.Moves c u.tx (e.setLog log).desk _ _ :=
        moves_applyWrite (htx ▸ hk) (b := r.block) (k := h) (htx ▸ hb) hf hl
      refine ⟨?_, fun id s hs => .inl ?_, ?_⟩
      · rw [change?_write_ends, hlast, ← hoffset, ← hvalue]
        rw [← htx] at hm ⊢
        exact hm.before happly
      · exact suspended_applyWrite (e.setLog log) u ▸ suspended_ends _ k _ hs
      · obtain ⟨hn, hbg, hfin⟩ := later_applyWrite (e.setLog log) u
        exact ⟨hn, hbg, hfin⟩

theorem fst_pinned {k : Task} {r : PinProgress × Desk} {i : Nat} (h : r.1 = .done (.ok i)) :
    (e.pinned k false r).1 = .done (.ok (.frame i)) := by
  obtain ⟨q, d⟩ := r
  cases h
  rfl

section

variable {book : Book} (hd : Distinct c.names) (hs : Steady c book e.desk) (k : Task)

include hd hs

theorem did_pin (hh : ∀ b h, (e.desk.pinsOf k.tx).holds.find? b = some h → c.Has b) {u : Wanted}
    {thenLock : Bool} (hn : c.names u.file)
    (hblock : ∀ b, u = .block b → thenLock = false ∧
      ∀ i, (e.pinned k thenLock (e.desk.pin k.tx u)).1 = .done (.ok (.frame i)) → c.Has b) :
    Did c k.tx u.work e (e.pinned k thenLock (e.desk.pin k.tx u)) := by
  refine did_pinned hd hs k hn (fun b hb => (hblock b hb).1) (Desk.served_pin hn hh fun i hi => ?_)
  cases u with
  | block b =>
    obtain ⟨rfl, hin⟩ := hblock b rfl
    exact hin i (fst_pinned hi)
  | fresh file format => exact hn

theorem did_proceed (hk : k.tx.num ≠ 0)
    (hh : ∀ b h, (e.desk.pinsOf k.tx).holds.find? b = some h → c.Has b) (hw : w.Within c)
    (hl : (e.proceed k w).2.media.log.last < wordLimit 8) :
    Did c k.tx w e (e.proceed k w) := by
  cases w with
  | answer a => exact did_ends e k (.inr nofun)
  | length file =>
    have hm := e.media.disk.same_length file
    exact ⟨(Desk.Move.beside (m := { e.media with disk := _ }) hm).moves,
      fun id s h => .inl (suspended_ends (e.fileLength file).2 k _ h), .of_eq rfl rfl⟩
  | read r offset kind => exact did_ends e k (.inr nofun)
  | write r offset v => exact did_write k hk hl
  | extend file format =>
    exact did_pin hd hs k hh (u := .fresh file format) hw nofun

theorem did_lockedWork (hk : k.tx.num ≠ 0)
    (hh : ∀ b h, (e.desk.pinsOf k.tx).holds.find? b = some h → c.Has b) (hw : w.Within c)
    (steps : List LockStep) (hl : (e.lockedWork k steps w).2.media.log.last < wordLimit 8) :
    Did c k.tx w e (e.lockedWork k steps w) := by
  refine did_locked e k steps hw fun l hnext => ?_
  unfold lockedWork at hl
  rw [hnext] at hl
  exact did_proceed (e := { e with locks := l }) hd hs k hk hh hw hl

omit hd hs in
theorem did_active {next : Engine → Progress × Engine}
    (hnext : e.active k next = next e → Did c k.tx w e (next e)) :
    Did c k.tx w e (e.active k next) := by
  unfold active at hnext ⊢
  split
  · exact did_ends e k (.inl ⟨_, rfl⟩)
  · rename_i hf
    exact hnext (if_neg hf)

theorem did_request (hk : k.tx.num ≠ 0)
    (hh : ∀ b h, (e.desk.pinsOf k.tx).holds.find? b = some h → c.Has b) {q : Request}
    (hw : q.work.Within c)
    (hblock : ∀ b, q = .pin (.block b) → c.names b.file ∧
      ∀ i, (e.request k q).1 = .done (.ok (.frame i)) → c.Has b)
    (hl : (e.request k q).2.media.log.last < wordLimit 8) :
    Did c k.tx q.work e (e.request k q) := by
  have hlocked := fun w hw steps hl => did_lockedWork hd hs k hk hh (w := w) hw steps hl
  cases q with
  | lock steps => exact hlocked (.answer .done) trivial _ hl
  | intent i => exact hlocked (.answer .done) trivial _ hl
  | pin u =>
    simp only [request] at hblock ⊢
    refine did_active k fun hnext => did_pin hd hs k hh ?_ fun b hb => ⟨rfl, fun i hi => ?_⟩
    · cases u with
      | block b => exact (hblock b rfl).1
      | fresh file format => exact hw
    · subst hb
      exact (hblock b rfl).2 i ((congrArg Prod.fst hnext).trans hi)
  | append file format =>
    simp only [request] at hl ⊢
    exact did_active k fun hnext => hlocked (.extend file format) hw _ (hnext ▸ hl)
  | length file =>
    simp only [request] at hl ⊢
    exact did_active k fun hnext => hlocked (.length file) trivial _ (hnext ▸ hl)
  | read r offset kind =>
    simp only [request] at hl ⊢
    exact did_active k fun hnext => hlocked (.read r offset kind) trivial _ (hnext ▸ hl)
  | write r offset v =>
    simp only [request] at hl ⊢
    exact did_active k fun hnext => hlocked (.write r offset v) trivial _ (hnext ▸ hl)

omit k in
theorem did_resume {id : Nat} {s : Suspended} {expired : Bool}
    (hfind : e.suspended.find? id = some s) (hk : s.tx.num ≠ 0)
    (hh : ∀ b h, (e.desk.pinsOf s.tx).holds.find? b = some h → c.Has b) (hw : s.wait.Within c)
    (hblock : ∀ b stage thenLock, s.wait = .onFrame ⟨.block b, stage⟩ thenLock →
      ∀ i, (e.resume id expired).1 = .done (.ok (.frame i)) → c.Has b)
    (hl : (e.resume id expired).2.media.log.last < wordLimit 8) :
    Did c s.tx s.wait.work e (e.resume id expired) := by
  obtain ⟨tx, wait⟩ := s
  unfold resume at hblock hl ⊢
  rw [hfind] at hblock hl ⊢
  cases wait with
  | onFrame u thenLock =>
    obtain ⟨u, stage⟩ := u
    obtain ⟨hn, hlock, hstage⟩ := hw
    refine did_pinned hd hs ⟨id, tx⟩ hn hlock (Desk.served_resume hn hstage hh fun i hi => ?_)
    cases u with
    | block b =>
      refine hblock b stage thenLock rfl i ?_
      cases hlock b rfl
      exact fst_pinned hi
    | fresh file format => exact hn
  | onLock ticket rest work =>
    dsimp only at hl ⊢
    split at hl
    · exact did_nothing rfl rfl rfl (fun _ _ h => .inl h) (.inl rfl)
    · split at hl
      · rename_i locks _
        exact (did_lockedWork (e := { e with locks }) hd hs ⟨id, tx⟩ hk hh hw rest hl).of_locks
      · exact did_nothing rfl rfl rfl (fun _ _ h => .inl h) (.inl rfl)
      · rename_i locks _
        exact (did_ends { e with locks } ⟨id, tx⟩ (.inl ⟨_, rfl⟩)).of_locks
      · rename_i locks _
        exact (did_ends { e with locks } ⟨id, tx⟩ (.inl ⟨_, rfl⟩)).of_locks

end

end Engine

end PagedStore
