import PagedStore.Proofs.Engine.Redo
import PagedStore.Proofs.Engine.Seated

set_option autoImplicit false

/-!
A write is made as a whole or not at all. Main statement: `write_atomic`. A transaction that has the
block of its record either logs the write and finds it in its frame, or is told of an error and
nothing happened; and what was logged can always be applied, because the check before the log and
the one of the frame let the same writes pass.
-/

namespace PagedStore

namespace Frame

/-- The bytes of a value lie inside the payload, where their end is reckoned in a word. -/
def Takes (f : Frame) (offset : Nat) (v : Value) : Prop :=
  ∃ last ∈ checkedAdd offset v.size, last ≤ f.capacity

/-- `g` is what `f` becomes when `v` is written for `tx` with its record at `n`: the value is in its
place and the rest of the payload is as it was. -/
structure Wrote (f g : Frame) (offset : Nat) (v : Value) (tx : TxId) (n : Lsn) : Prop where
  payload : ∀ k, (Page.payload g.data)[k]? =
    if offset ≤ k ∧ k < offset + v.size then v.encode[k - offset]? else (Page.payload f.data)[k]?
  dirty : g.dirty
  modifiedBy : g.modifiedBy = if tx.num = 0 then none else some tx
  lsn : g.lsn = max f.lsn n
  block : g.block = f.block
  pins : g.pins = f.pins

variable {f g : Frame} {offset : Nat} {v : Value} {tx : TxId} {n : Lsn}

theorem takes_iff (h : f.capacity < wordLimit 8) :
    f.Takes offset v ↔ offset + v.size ≤ f.capacity := by
  refine ⟨fun ⟨last, hl, hle⟩ => ?_, fun hle => ⟨_, mem_checkedAdd.2 ⟨?_, rfl⟩, hle⟩⟩
  · obtain ⟨-, rfl⟩ := mem_checkedAdd.1 hl
    exact hle
  · exact Nat.lt_of_le_of_lt hle h

theorem wrote_of_writeLogged (h : f.writeLogged offset v tx n = .ok g) :
    f.Wrote g offset v tx n := by
  rw [writeLogged_eq] at h
  cases hw : Page.write f.data offset v with
  | error err =>
    rw [hw] at h
    cases h
  | ok data =>
    rw [hw] at h
    cases h
    refine ⟨fun k => ?_, rfl, rfl, rfl, rfl, rfl⟩
    have hpayload : Page.payload (if f.lsn < n then Page.setLsn data n else data) =
        overlay (Page.payload f.data) offset v.encode := by
      rw [← Page.payload_write hw]
      split
      · exact Page.payload_setLsn data n
      · rfl
    have hfits : offset + v.encode.length ≤ (Page.payload f.data).length := by
      obtain ⟨hroom, -⟩ := Page.write_eq_ok hw
      rw [Value.length_encode, Page.length_payload, Page.capacity]
      omega
    rw [hpayload, getElem?_overlay hfits, Value.length_encode]

theorem exists_writeLogged (h : offset + v.size ≤ f.capacity) (tx : TxId) (n : Lsn) :
    ∃ g, f.writeLogged offset v tx n = .ok g := by
  have hw : Page.write f.data offset v = .ok _ := if_pos h
  rw [writeLogged_eq, hw]
  exact ⟨_, rfl⟩

theorem writeLogged_iff (h : f.capacity < wordLimit 8) (tx : TxId) (n : Lsn) :
    (∃ g, f.writeLogged offset v tx n = .ok g) ↔ f.Takes offset v := by
  rw [takes_iff h]
  exact ⟨fun ⟨_, hg⟩ => (of_writeLogged hg).1, fun hle => exists_writeLogged hle tx n⟩

end Frame

namespace Engine

/-- No record came to the log, and the frames and the transactions are as they were. -/
structure Untouched (e e' : Engine) : Prop where
  records : e'.records = e.records
  frames : ∀ j, e'.frame? j = e.frame? j
  transactions : e'.transactions = e.transactions

/-- The write `w` was applied to its frame, and its transaction is told its position. Meanwhile the
records `added` came to the log, and nothing else happened to the frames or the transactions. -/
structure Applied (w : LoggedWrite) (added : List Bytes) (e e' : Engine) : Prop where
  records : e'.records = e.records ++ added
  frame : ∃ f g, e.frame? w.frame = some f ∧ e'.frame? w.frame = some g ∧
    f.Wrote g w.offset w.value w.tx w.lsn
  others : ∀ j, j ≠ w.frame → e'.frame? j = e.frame? j
  transactions :
    e'.transactions = (e.updateTx w.tx fun t => { t with lastLsn := w.lsn }).transactions

/-- What logging a write for a frame comes to: it is outside the payload, or the log does not take
the record, or the record is the last of the log. -/
inductive LogOutcome (e : Engine) (tx : TxId) (i : Nat) (f : Frame) (r : RecordId) (offset : Nat)
    (v : Value) : Outcome LoggedWrite × Engine → Prop
  | outside (h : ¬ f.Takes offset v) :
      LogOutcome e tx i f r offset v (.error (.error (.outOfBounds offset v.size f.capacity)), e)
  | refused (h : f.Takes offset v) (ho : e.media.log.outage = .append) :
      LogOutcome e tx i f r offset v (.error (.error (.io .logUnavailable)), e)
  | logged {e' : Engine} (h : f.Takes offset v)
      (hr : e'.records =
        e.records ++ [Update.encode { tx, block := r.block, offset, bytes := v.encode }])
      (hf : ∀ j, e'.frame? j = e.frame? j) (ht : e'.transactions = e.transactions) :
      LogOutcome e tx i f r offset v
        (.ok { tx, frame := i, offset, value := v, lsn := e.records.length + 1 }, e')

/-- The errors that end a write. -/
inductive Refusal (e : Engine) (tx : TxId) (f : Frame) (offset : Nat) (v : Value) : Error → Prop
  | finished (h : e.isFinished tx) : Refusal e tx f offset v (.finished tx)
  | wounded : Refusal e tx f offset v (.wounded tx)
  | timedOut (t : Target) : Refusal e tx f offset v (.lockTimeout tx t)
  | outside (h : ¬ f.Takes offset v) :
      Refusal e tx f offset v (.outOfBounds offset v.size f.capacity)
  | unlogged (h : e.media.log.outage = .append) : Refusal e tx f offset v (.io .logUnavailable)

/-- What a write comes to: it is made as a whole, or refused, or waits for a lock; and where it is
not made nothing happens. -/
inductive WriteOutcome (e : Engine) (tx : TxId) (i : Nat) (f : Frame) (r : RecordId) (offset : Nat)
    (v : Value) : Progress × Engine → Prop
  | made {e' : Engine} (h : f.Takes offset v)
      (ha : Applied { tx, frame := i, offset, value := v, lsn := e.records.length + 1 }
        [Update.encode { tx, block := r.block, offset, bytes := v.encode }] e e') :
      WriteOutcome e tx i f r offset v (.done (.ok .done), e')
  | refused {err : Error} {e' : Engine} (he : Refusal e tx f offset v err) (h : e.Untouched e') :
      WriteOutcome e tx i f r offset v (.done (.error (.error err)), e')
  | waits {e' : Engine} (h : e.Untouched e') : WriteOutcome e tx i f r offset v (.waits, e')
  | sleepsOn {e' : Engine} (h : e.Untouched e') : WriteOutcome e tx i f r offset v (.sleepsOn, e')

variable {e : Engine} {i : Nat} {f : Frame} {r : RecordId} {offset : Nat} {v : Value}

theorem transactions_updateTx_congr {e e' : Engine} (h : e'.transactions = e.transactions)
    (tx : TxId) (g : Transaction → Transaction) :
    (e'.updateTx tx g).transactions = (e.updateTx tx g).transactions := by
  unfold updateTx
  rw [h]
  split
  · exact h
  · rfl

/-- A logged write that lies in its frame is applied. -/
theorem applied_applyWrite {w : LoggedWrite} (hf : e.frame? w.frame = some f)
    (h : w.offset + w.value.size ≤ f.capacity) :
    ∃ e', e.applyWrite w = (.ok .done, e') ∧ Applied w [] e e' := by
  obtain ⟨g, hg⟩ := Frame.exists_writeLogged h w.tx w.lsn
  have hframes : e.desk.store.pool.frames[w.frame]? = some f := hf
  obtain ⟨hlt, -⟩ := List.getElem?_eq_some_iff.1 hframes
  simp only [applyWrite, Store.editFrame, hframes, hg]
  refine ⟨_, rfl, ?_, ⟨f, g, hf, ?_, Frame.wrote_of_writeLogged hg⟩, fun j hj => ?_,
    transactions_updateTx_congr (by rfl) ..⟩
  · rw [records, media, store_updateTx, List.append_nil]
    rfl
  · rw [frame?, pool, store_updateTx]
    exact List.getElem?_set_self hlt
  · rw [frame?, pool, store_updateTx]
    exact List.getElem?_set_ne (Ne.symm hj)

theorem logOutcome {tx : TxId} (hheld : e.heldFrame? tx r.block = some (i, f))
    (hc : f.capacity < wordLimit 8) (offset : Nat) (v : Value) :
    LogOutcome e tx i f r offset v (e.logWrite tx r offset v) := by
  have hl := e.logging tx r offset v
  generalize e.logWrite tx r offset v = q at hl
  cases hl with
  | unpinned h =>
    rw [hheld] at h
    cases h
  | outside h hlt =>
    cases hheld.symm.trans h
    exact .outside fun ht => Nat.not_le.2 hlt ((Frame.takes_iff hc).1 ht)
  | refused h hle ho =>
    cases hheld.symm.trans h
    exact .refused ((Frame.takes_iff hc).2 hle) ho
  | logged h hle =>
    cases hheld.symm.trans h
    exact .logged ((Frame.takes_iff hc).2 hle) rfl (fun _ => rfl) rfl

theorem WriteOutcome.applied_of_ok {tx : TxId} {q : Progress × Engine}
    (h : WriteOutcome e tx i f r offset v q) (hq : q.1.isOk) :
    Applied { tx, frame := i, offset, value := v, lsn := e.records.length + 1 }
      [Update.encode { tx, block := r.block, offset, bytes := v.encode }] e q.2 := by
  cases h with
  | made h ha => exact ha
  | refused he h | waits h | sleepsOn h => cases hq

theorem WriteOutcome.untouched {tx : TxId} {q : Progress × Engine}
    (h : WriteOutcome e tx i f r offset v q) (hq : q.1.isOk = false) : e.Untouched q.2 := by
  cases h with
  | made h ha => cases hq
  | refused he h | waits h | sleepsOn h => exact h

theorem WriteOutcome.of_locks {l : LockTable} {tx : TxId} {q : Progress × Engine}
    (h : WriteOutcome { e with locks := l } tx i f r offset v q) :
    WriteOutcome e tx i f r offset v q := by
  have hu : ∀ e' : Engine, Untouched { e with locks := l } e' → e.Untouched e' := fun _ h =>
    ⟨h.records, h.frames, h.transactions⟩
  cases h with
  | made h ha =>
    exact .made h ⟨ha.records, ha.frame, ha.others,
      ha.transactions.trans (transactions_updateTx_congr (by rfl) ..)⟩
  | refused he h =>
    refine .refused ?_ (hu _ h)
    cases he with
    | finished he => exact .finished he
    | wounded => exact .wounded
    | timedOut t => exact .timedOut t
    | outside he => exact .outside he
    | unlogged he => exact .unlogged he
  | waits h => exact .waits (hu _ h)
  | sleepsOn h => exact .sleepsOn (hu _ h)

section

variable (k : Task) (hheld : e.heldFrame? k.tx r.block = some (i, f))
  (hc : f.capacity < wordLimit 8)

include hheld hc

/-- The record and the frame, one after the other: the frame is the one of the check. -/
theorem outcome_proceed (offset : Nat) (v : Value) :
    WriteOutcome e k.tx i f r offset v (e.proceed k (.write r offset v)) := by
  have hl := logOutcome hheld hc offset v
  have hf : e.frame? i = some f := frame?_of_heldFrame hheld
  simp only [proceed, writeHeld]
  generalize e.logWrite k.tx r offset v = q at hl
  cases hl with
  | outside h => exact .refused (.outside h) ⟨rfl, fun _ => rfl, rfl⟩
  | refused h ho => exact .refused (.unlogged ho) ⟨rfl, fun _ => rfl, rfl⟩
  | @logged e₁ h hr hframes ht =>
    obtain ⟨e₂, he, ha⟩ := applied_applyWrite (e := e₁)
      (w := { tx := k.tx, frame := i, offset, value := v, lsn := e.records.length + 1 })
      ((hframes i).trans hf) ((Frame.takes_iff hc).1 h)
    dsimp only
    rw [he]
    obtain ⟨f', g, hf', hg, hwrote⟩ := ha.frame
    exact .made h
      { records := ha.records.trans (by rw [hr, List.append_nil])
        frame := ⟨f', g, (hframes i).symm.trans hf', hg, hwrote⟩
        others := fun j hj => (ha.others j hj).trans (hframes j)
        transactions := ha.transactions.trans (transactions_updateTx_congr ht ..) }

theorem outcome_lockedWork (steps : List LockStep) (offset : Nat) (v : Value) :
    WriteOutcome e k.tx i f r offset v (e.lockedWork k steps (.write r offset v)) := by
  unfold lockedWork locked
  split
  · rename_i l _
    exact .of_locks (outcome_proceed (e := { e with locks := l }) k hheld hc offset v)
  · rename_i err l hr
    have herr : Refusal e k.tx f offset v err := by
      rcases LockTable.error_of_perform hr with rfl | ⟨t, rfl⟩
      · exact .wounded
      · exact .timedOut t
    exact .refused herr ⟨rfl, fun _ => rfl, rfl⟩
  · exact .waits ⟨rfl, fun _ => rfl, rfl⟩

theorem outcome_request (offset : Nat) (v : Value) :
    WriteOutcome e k.tx i f r offset v (e.request k (.write r offset v)) := by
  simp only [request, active]
  split
  · rename_i hfin
    exact .refused (.finished hfin) ⟨rfl, fun _ => rfl, rfl⟩
  · exact outcome_lockedWork k hheld hc _ offset v

theorem outcome_resume {ticket : Nat} {rest : List LockStep} {offset : Nat} {v : Value}
    (hs : e.suspended.find? k.id = some ⟨k.tx, .onLock ticket rest (.write r offset v)⟩)
    (expired : Bool) : WriteOutcome e k.tx i f r offset v (e.resume k.id expired) := by
  have hu : ∀ l, e.Untouched { e with locks := l } := fun _ => ⟨rfl, fun _ => rfl, rfl⟩
  unfold resume
  rw [hs]
  dsimp only
  split
  · exact .sleepsOn ⟨rfl, fun _ => rfl, rfl⟩
  · split
    · rename_i l _
      exact .of_locks (outcome_lockedWork (e := { e with locks := l }) k hheld hc rest offset v)
    · exact .sleepsOn (hu _)
    · exact .refused .wounded ⟨rfl, fun _ => rfl, rfl⟩
    · exact .refused (.timedOut _) ⟨rfl, fun _ => rfl, rfl⟩

end

theorem kept_fitted (size : Nat) : Engine.Kept (Store.Fitted size) where
  still hst hs := hs.still hst
  flush i hs := hs.flushFrame i
  refill w hi _ hs := hs.refill hi
  length {s} file hs := hs.beside (s.media.disk.same_length file).blockSize
  append record hs := hs.beside rfl
  flushLog lsn hs := hs.beside rfl
  apply {s s'} w _ hr hs := by
    have he : Store.Fitted size
        (s.editFrame w.frame fun f => f.writeLogged w.offset w.value w.tx w.lsn).2 :=
      hs.editFrame w.frame fun _ _ => Frame.length_of_writeLogged
    rw [hr] at he
    exact he.beside rfl
  outage o hs := hs.beside rfl
  fault cause hs := hs.beside rfl

end Engine

namespace Running

variable {count size : Nat} {r : Running}

/-- Between any two acts: whoever has a block has it in a frame, the frames have their size, and the
writes that are still to be applied lie in theirs. -/
structure Poised (count size : Nat) (r : Running) : Prop where
  seated : r.engine.desk.Seated count
  fitted : r.store.Fitted size
  logged : r.Logged
  writes : ∀ w ∈ r.writes, w.frame < count ∧ w.offset + w.value.size ≤ size - Page.headerSize

theorem Poised.capacity (h : r.Poised count size) {i : Nat} {f : Frame}
    (hf : r.engine.frame? i = some f) :
    f.capacity = size - Page.headerSize ∧ f.capacity < wordLimit 8 := by
  have hlen : f.data.length = size := h.fitted.frames i f hf
  have hlimit := h.fitted.limit
  have hword : memoryLimit ≤ wordLimit 8 := Nat.div_le_self ..
  rw [Frame.capacity, Page.capacity]
  omega

theorem Poised.held (h : r.Poised count size) {tx : TxId} {b : BlockId} {i : Nat}
    (hi : r.engine.desk.frameOf? tx b = some i) :
    ∃ f, r.engine.frame? i = some f ∧ r.engine.heldFrame? tx b = some (i, f) := by
  obtain ⟨f, hf⟩ := h.seated.frame hi
  refine ⟨f, hf, ?_⟩
  rw [Engine.heldFrame?, hi]
  exact Option.map_eq_some_iff.2 ⟨f, hf, rfl⟩

theorem Poised.logWrite (h : r.Poised count size) {tx : TxId} {record : RecordId} {offset : Nat}
    {v : Value} {w : LoggedWrite} {e : Engine}
    (hw : r.engine.logWrite tx record offset v = (.ok w, e)) :
    w.frame < count ∧ w.offset + w.value.size ≤ size - Page.headerSize := by
  have hl := r.engine.logging tx record offset v
  rw [hw] at hl
  cases hl with
  | @logged i f hheld hle =>
    have hf : r.engine.frame? i = some f := Engine.frame?_of_heldFrame hheld
    obtain ⟨hlt, -⟩ := List.getElem?_eq_some_iff.1 hf
    exact ⟨Nat.lt_of_lt_of_eq hlt h.seated.size, (h.capacity hf).1 ▸ hle⟩

theorem Poised.step (h : r.Poised count size) (a : Act) : (r.step a).Poised count size where
  seated := seated_step h.seated h.logged a
  fitted := kept_step (Engine.kept_fitted size) h.logged h.fitted a
  logged := logged_step h.logged a
  writes w hw := by
    rcases writes_step r a w hw with hmem | ⟨tx, record, offset, v, hlog⟩
    · exact h.writes w hmem
    · exact h.logWrite hlog

theorem Poised.run (h : r.Poised count size) (acts : List Act) : (r.run acts).Poised count size := by
  induction acts generalizing r with
  | nil => exact h
  | cons a acts ih => exact ih (h.step a)

theorem poised_create {settings : Settings} {disk : Disk} {e : Engine}
    (h : Engine.create settings disk = .ok e) :
    Poised e.pool.size settings.blockSize ⟨e, []⟩ := by
  obtain ⟨pool, hpool, hstore⟩ := Engine.store_of_create h
  have hfit : Store.Fitted (disk.reopen settings.blockSize).blockSize
      (.over (disk.reopen settings.blockSize) .empty pool) := Store.fitted_over hpool
  refine ⟨Engine.seated_create h, ?_, fun w hw => absurd hw List.not_mem_nil,
    fun w hw => absurd hw List.not_mem_nil⟩
  show e.desk.store.Fitted settings.blockSize
  rw [hstore]
  exact hfit

/-- A write that has its record is applied, whatever came in between. -/
theorem Poised.applied (h : r.Poised count size) {w : LoggedWrite} (hw : w ∈ r.writes) :
    ∃ e', r.engine.applyWrite w = (.ok .done, e') ∧ Engine.Applied w [] r.engine e' := by
  obtain ⟨hlt, hend⟩ := h.writes w hw
  have hsize : w.frame < r.engine.pool.frames.length := Nat.lt_of_lt_of_eq hlt h.seated.size.symm
  have hf : r.engine.frame? w.frame = some _ := List.getElem?_eq_getElem hsize
  exact Engine.applied_applyWrite hf ((h.capacity hf).1 ▸ hend)

end Running

/-- A write is all or nothing. In every state that an engine comes to, for a transaction that has
the block of a record in a frame: a write that succeeds has added its one record to the log and has
put the value in its place; a write that fails or waits has done nothing to the log, the frames and
the transactions. Nothing else can end a write than that its transaction is finished or does not get
a lock, that the value does not fit, or that the log takes no record. The check before the log lets
those writes pass that the frame takes, wherever in a word they begin; and whatever else happens
between the record and the frame, a write that has its record is applied. -/
theorem write_atomic {settings : Settings} {disk : Disk} {e : Engine}
    (h : Engine.create settings disk = .ok e) (acts : List Act) :
    let r := Running.run ⟨e, []⟩ acts
    (∀ (k : Task) (record : RecordId) (i : Nat),
      r.engine.desk.frameOf? k.tx record.block = some i → ∃ f, r.engine.frame? i = some f ∧
        ∀ offset v,
          (∀ n, (∃ g, f.writeLogged offset v k.tx n = .ok g) ↔ f.Takes offset v) ∧
          r.engine.LogOutcome k.tx i f record offset v (r.engine.logWrite k.tx record offset v) ∧
          r.engine.WriteOutcome k.tx i f record offset v
            (r.engine.request k (.write record offset v)) ∧
          ∀ ticket rest expired, r.engine.suspended.find? k.id =
              some ⟨k.tx, .onLock ticket rest (.write record offset v)⟩ →
            r.engine.WriteOutcome k.tx i f record offset v (r.engine.resume k.id expired)) ∧
    ∀ w ∈ r.writes, ∃ e', r.engine.applyWrite w = (.ok .done, e') ∧
      Engine.Applied w [] r.engine e' := by
  intro r
  have hp : r.Poised e.pool.size settings.blockSize := (Running.poised_create h).run acts
  refine ⟨fun k record i hi => ?_, fun w hw => hp.applied hw⟩
  obtain ⟨f, hf, hheld⟩ := hp.held hi
  obtain ⟨-, hc⟩ := hp.capacity hf
  exact ⟨f, hf, fun offset v => ⟨Frame.writeLogged_iff hc k.tx, Engine.logOutcome hheld hc offset v,
    Engine.outcome_request k hheld hc offset v,
    fun _ _ expired hs => Engine.outcome_resume k hheld hc hs expired⟩⟩

/-- One write has its record, and is still to be applied. -/
def loggedOnce : List Act :=
  [.begin .repeatableRead, .request ⟨0, ⟨1⟩⟩ (.pin (.block ⟨"f", 0⟩)),
    .logWrite ⟨1⟩ ⟨⟨"f", 0⟩, 0⟩ 4 (.int 9)]

/-- Another write, with a log that takes its record and with one that does not. In both cases the
first can be applied. -/
theorem write_atomic_refused : Engine.create paired oneBlock = .ok (opened oneBlock) ∧
    let r := Running.run ⟨opened oneBlock, []⟩ loggedOnce
    let r' := Running.run ⟨opened oneBlock, []⟩ (loggedOnce ++ [.outage .append])
    let write := Request.write ⟨⟨"f", 0⟩, 0⟩ 0 (.int 7)
    let logged : LoggedWrite := ⟨⟨1⟩, 0, 4, .int 9, 1⟩
    Engine.Applied ⟨⟨1⟩, 0, 0, .int 7, 2⟩
        [Update.encode { tx := ⟨1⟩, block := ⟨"f", 0⟩, offset := 0, bytes := [0, 0, 0, 7] }]
        r.engine (r.engine.request ⟨1, ⟨1⟩⟩ write).2 ∧
      r'.engine.Untouched (r'.engine.request ⟨1, ⟨1⟩⟩ write).2 ∧
      (∃ e', r.engine.applyWrite logged = (.ok .done, e') ∧
        Engine.Applied logged [] r.engine e') ∧
      ∃ e', r'.engine.applyWrite logged = (.ok .done, e') ∧
        Engine.Applied logged [] r'.engine e' := by
  have hopen : Engine.create paired oneBlock = .ok (opened oneBlock) := rfl
  obtain ⟨hall, hpending⟩ := write_atomic hopen loggedOnce
  obtain ⟨hall', hpending'⟩ := write_atomic hopen (loggedOnce ++ [.outage .append])
  obtain ⟨f, -, hw⟩ := hall ⟨1, ⟨1⟩⟩ ⟨⟨"f", 0⟩, 0⟩ 0 rfl
  obtain ⟨f', -, hw'⟩ := hall' ⟨1, ⟨1⟩⟩ ⟨⟨"f", 0⟩, 0⟩ 0 rfl
  obtain ⟨-, -, hmade, -⟩ := hw 0 (.int 7)
  obtain ⟨-, -, hrefused, -⟩ := hw' 0 (.int 7)
  exact ⟨hopen, hmade.applied_of_ok (by decide +kernel), hrefused.untouched (by decide +kernel),
    hpending _ (List.mem_singleton.2 rfl), hpending' _ (List.mem_singleton.2 rfl)⟩

end PagedStore
