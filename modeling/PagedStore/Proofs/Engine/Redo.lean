import PagedStore.Proofs.Engine.Commit

set_option autoImplicit false

/-!
The log as the history of the contents. Main statement: `log_redoes`. Each record is read back as
one write, and the records of a block, in their order, make of what the block started with what it
holds. That takes files that have one name each (`not_log_redoes`).
-/

namespace PagedStore

namespace Update

def on (b : BlockId) (bytes : Bytes) (u : Update) : Bytes :=
  if u.block = b then overlay bytes u.offset u.bytes else bytes

/-- What a record makes of the payload of `b`. A record that no update is read from leaves it. -/
def redo (b : BlockId) (bytes record : Bytes) : Bytes :=
  ((decode? record).map (on b bytes)).getD bytes

theorem foldl_redo {records : List Bytes} {us : List Update}
    (h : records.map decode? = us.map some) (b : BlockId) (start : Bytes) :
    records.foldl (redo b) start = us.foldl (on b) start := by
  induction records generalizing us start with
  | nil =>
    obtain rfl : us = [] := List.map_eq_nil_iff.1 h.symm
    rfl
  | cons record records ih =>
    cases us with
    | nil => cases h
    | cons u us =>
      obtain ⟨hu, hs⟩ := List.cons.inj h
      rw [List.foldl_cons, List.foldl_cons, redo, hu]
      exact ih hs _

end Update

def Change.update? (tx : TxId) : Change → Option Update
  | .put b offset v _ => some { tx, block := b, offset, bytes := v.encode }
  | .add _ _ => none

/-- The writes among some changes, as the log tells of them. -/
def updates (es : List (TxId × Change)) : List Update := es.filterMap fun e => e.2.update? e.1

theorem updates_append (es es' : List (TxId × Change)) :
    updates (es ++ es') = updates es ++ updates es' := List.filterMap_append

theorem foldl_updates (es : List (TxId × Change)) (b : BlockId) (start : Bytes) :
    (updates es).foldl (Update.on b) start = es.foldl (fun bytes e => e.2.on b bytes) start := by
  induction es generalizing start with
  | nil => rfl
  | cons e es ih =>
    obtain ⟨tx, x⟩ := e
    cases x with
    | put c offset v lsn? => exact ih _
    | add file format => exact ih _

namespace Flat

variable {names : String → Prop} {flat : Flat} {xs : List Change}

def Sized (flat : Flat) : Prop := ∀ b, (flat.block b).length = flat.blockSize

theorem Sized.apply (h : flat.Sized) (hroom : Page.headerSize ≤ flat.blockSize) (x : Change) :
    (flat.apply x).Sized := by
  have hset : ∀ {b : BlockId} {data : Bytes}, data.length = flat.blockSize →
      (flat.setBlock b data).Sized := by
    intro b data hdata c
    simp only [setBlock]
    split
    · exact hdata
    · exact h c
  cases x with
  | put b offset v lsn? =>
    unfold Flat.apply
    dsimp only
    split
    · exact h
    · rename_i data hput
      exact hset ((Page.length_put hput).trans (h b))
  | add file format => exact hset (format.length_page hroom)

theorem TakesAll.of_put (h : flat.TakesAll names xs) (hs : flat.Sized)
    (hroom : Page.headerSize < flat.blockSize) {b : BlockId} {offset : Nat} {v : Value}
    {lsn? : Option Lsn} (hmem : .put b offset v lsn? ∈ xs) :
    names b.file ∧ b.number < wordLimit 8 ∧ offset < flat.blockSize := by
  induction xs generalizing flat with
  | nil => cases hmem
  | cons x xs ih =>
    rcases List.mem_cons.1 hmem with rfl | hmem
    · obtain ⟨hn, ⟨-, -, hend⟩, -, hfit⟩ := h.1
      refine ⟨hn, ?_, ?_⟩
      · have hle := Nat.le_mul_of_pos_right b.number (Nat.lt_of_le_of_lt (Nat.zero_le _) hroom)
        have hlimit : Disk.endLimit < wordLimit 8 := by decide
        omega
      · have hpos := v.size_pos
        have hcapacity : Page.capacity (flat.block b) = flat.blockSize - Page.headerSize :=
          congrArg (· - Page.headerSize) (hs b)
        omega
    · have hsize := congrArg Site.blockSize (flat.site_apply x)
      exact hsize ▸ ih h.2 (hs.apply (Nat.le_of_lt hroom) x) (hsize ▸ hroom) hmem

/-- What is written before a block is added is written to other blocks. -/
theorem TakesAll.on_eq (h : flat.TakesAll names xs) {b : BlockId}
    (hb : (flat.replay xs).length b.file ≤ b.number) (bytes : Bytes) :
    xs.foldl (Change.on b) bytes = bytes := by
  induction xs generalizing flat bytes with
  | nil => rfl
  | cons x xs ih =>
    have hx : x.on b bytes = bytes := by
      cases x with
      | put c offset v lsn? =>
        refine if_neg ?_
        rintro rfl
        have hin := h.1.2.2.1
        have hgrow := flat.length_le_replay (.put c offset v lsn? :: xs) c.file
        omega
      | add file format => rfl
    rw [List.foldl_cons, hx]
    exact ih h.2 hb bytes

/-- The records of writes that can be made are read back, where the numbers in them fit their
fields. -/
theorem TakesAll.decode?_updates {es : List (TxId × Change)}
    (h : flat.TakesAll names (es.map Prod.snd)) (hs : flat.Sized)
    (hroom : Page.headerSize < flat.blockSize) (hsmall : flat.blockSize < wordLimit 4)
    (hnames : ∀ n, names n → n.utf8ByteSize < wordLimit 4)
    (htx : ∀ e ∈ es, e.1.num < wordLimit 8) :
    ((updates es).map Update.encode).map Update.decode? = (updates es).map some := by
  rw [List.map_map]
  refine List.map_congr_left fun u hu => ?_
  obtain ⟨⟨tx, x⟩, hmem, hx⟩ := List.mem_filterMap.1 hu
  cases x with
  | put b offset v lsn? =>
    cases hx
    have hput : .put b offset v lsn? ∈ es.map Prod.snd := List.mem_map.2 ⟨_, hmem, rfl⟩
    obtain ⟨hn, hnumber, hoffset⟩ := h.of_put hs hroom hput
    exact Update.decode?_encode (htx _ hmem) (hnames _ hn) hnumber (Nat.lt_trans hoffset hsmall)
  | add file format => cases hx

end Flat

theorem Store.kept_records (records : List Bytes) :
    Store.Kept fun s => s.media.log.records = records where
  still hst hs := by
    rw [hst.media]
    exact hs
  flush {s} i hs := by
    have hfl := Store.flushedAt s i
    generalize s.flushFrame i = r at hfl
    cases hfl with
    | idle => exact hs
    | unforced hf hm => exact (Media.records_of_force hm).trans hs
    | unsaved hf hb hm hw => exact (Media.records_of_force hm).trans hs
    | saved hf hb hm hw => exact (Media.records_of_force hm).trans hs
  refill {s i f} w hi hc hs := by
    have hl := Frame.log_fill { f with block := none } w s.media
    unfold Store.refill
    dsimp only
    rw [hl]
    exact hs

abbrev Engine.records (e : Engine) : List Bytes := e.media.log.records

/-- The log tells of the change that work for `tx` made that began in `e` and came to `r`, and of
nothing else. -/
def Work.Recorded (tx : TxId) (w : Work) (e : Engine) (r : Progress × Engine) : Prop :=
  r.2.records = e.records ++ (updates (signedBy tx (w.change? e r).toList)).map Update.encode

namespace Engine

variable {e : Engine} {w : Work} {tx : TxId}

theorem recorded_of_eq {r : Progress × Engine} (h : r.2.records = e.records)
    (hw : r.1.isOk = false ∨ ∀ record offset v, w ≠ .write record offset v) :
    w.Recorded tx e r := by
  have hnone : updates (signedBy tx (w.change? e r).toList) = [] := by
    cases w with
    | write record offset v =>
      rcases hw with hw | hw
      · rw [Work.change?, hw]
        rfl
      · exact absurd rfl (hw record offset v)
    | extend file format =>
      rw [Work.change?]
      split <;> rfl
    | answer a => rfl
    | length file => rfl
    | read record offset kind => rfl
  rw [Work.Recorded, hnone, h]
  exact (List.append_nil _).symm

theorem recorded_ends (e : Engine) (k : Task) {q : Outcome Answer}
    (hw : (∃ err, q = .error err) ∨ ∀ record offset v, w ≠ .write record offset v) :
    w.Recorded k.tx e (e.ends k q) :=
  recorded_of_eq rfl <| hw.imp_left <| by
    rintro ⟨err, rfl⟩
    rfl

theorem recorded_of_locks {l : LockTable} {r : Progress × Engine}
    (h : w.Recorded tx { e with locks := l } r) : w.Recorded tx e r := by
  have hc : w.change? e r = w.change? { e with locks := l } r := by cases w <;> rfl
  rw [Work.Recorded, hc]
  exact h

theorem isOk_applyWrite_of_logWrite {e' : Engine} {r : RecordId} {offset : Nat} {v : Value}
    {u : LoggedWrite} (h : e.logWrite tx r offset v = (.ok u, e')) :
    e'.records = e.records ++ [Update.encode { tx, block := r.block, offset, bytes := v.encode }] ∧
      (e'.applyWrite u).1.isOk := by
  have hl := e.logging tx r offset v
  rw [h] at hl
  cases hl with
  | @logged i f hheld hle =>
    refine ⟨rfl, ?_⟩
    have hf : e.desk.store.pool.frames[i]? = some f := frame?_of_heldFrame hheld
    have hwrite : Page.write f.data offset v = .ok _ := if_pos hle
    simp only [applyWrite, setLog, setMedia, setStore, Store.editFrame, hf, Frame.writeLogged_eq,
      hwrite]
    rfl

theorem records_logWrite_error {e' : Engine} {r : RecordId} {offset : Nat} {v : Value}
    {err : Failure} (h : e.logWrite tx r offset v = (.error err, e')) : e'.records = e.records := by
  have hl := e.logging tx r offset v
  rw [h] at hl
  cases hl <;> rfl

theorem recorded_write (e : Engine) (k : Task) (r : RecordId) (offset : Nat) (v : Value) :
    (Work.write r offset v).Recorded k.tx e
      ((e.writeHeld k.tx r offset v).2.ends k (e.writeHeld k.tx r offset v).1) := by
  unfold Work.Recorded
  rw [change?_write_ends]
  unfold writeHeld
  cases hw : e.logWrite k.tx r offset v with
  | mk q e' =>
    cases q with
    | error err => exact (records_logWrite_error hw).trans (List.append_nil _).symm
    | ok u =>
      obtain ⟨hrecords, hok⟩ := isOk_applyWrite_of_logWrite hw
      dsimp only
      rw [if_pos hok]
      exact (congrArg Log.records (log_applyWrite e' u)).trans hrecords

theorem recorded_locked (e : Engine) (k : Task) (steps : List LockStep)
    {next : Engine → Progress × Engine}
    (hnext : ∀ l, w.Recorded k.tx { e with locks := l } (next { e with locks := l })) :
    w.Recorded k.tx e (e.locked k steps w next) := by
  unfold locked
  split
  · exact recorded_of_locks (hnext _)
  · exact recorded_of_eq rfl (.inl rfl)
  · exact recorded_of_eq rfl (.inl rfl)

theorem recorded_pinned (e : Engine) (k : Task) (u : Wanted) (thenLock : Bool)
    {r : PinProgress × Desk} (hr : r.2.store.media.log.records = e.records) :
    u.work.Recorded k.tx e (e.pinned k thenLock r) := by
  refine recorded_of_eq (kept_pinned (P := fun s => s.media.log.records = e.records) k thenLock hr)
    (.inr fun record offset v => ?_)
  cases u <;> exact nofun

theorem recorded_proceed (e : Engine) (k : Task) (w : Work) :
    w.Recorded k.tx e (e.proceed k w) := by
  cases w with
  | answer a => exact recorded_ends e k (.inr nofun)
  | length file => exact recorded_of_eq rfl (.inr nofun)
  | read r offset kind => exact recorded_ends e k (.inr nofun)
  | write r offset v => exact recorded_write e k r offset v
  | extend file format =>
    exact recorded_pinned e k (.fresh file format) true
      ((Store.kept_records e.records).deskPin rfl k.tx _)

theorem recorded_lockedWork (e : Engine) (k : Task) (steps : List LockStep) (w : Work) :
    w.Recorded k.tx e (e.lockedWork k steps w) :=
  recorded_locked e k steps fun _ => recorded_proceed _ k w

theorem recorded_active (e : Engine) (k : Task) {next : Engine → Progress × Engine}
    (hnext : w.Recorded k.tx e (next e)) : w.Recorded k.tx e (e.active k next) := by
  unfold active
  split
  · exact recorded_ends e k (.inl ⟨_, rfl⟩)
  · exact hnext

theorem recorded_request (e : Engine) (k : Task) (q : Request) :
    q.work.Recorded k.tx e (e.request k q) := by
  cases q with
  | lock steps => exact recorded_lockedWork e k _ _
  | intent i => exact recorded_lockedWork e k _ _
  | pin u =>
    exact recorded_active e k (recorded_pinned e k u false
      ((Store.kept_records e.records).deskPin rfl k.tx u))
  | append file format => exact recorded_active e k (recorded_lockedWork e k _ _)
  | length file => exact recorded_active e k (recorded_lockedWork e k _ _)
  | read r offset kind => exact recorded_active e k (recorded_lockedWork e k _ _)
  | write r offset v => exact recorded_active e k (recorded_lockedWork e k _ _)

theorem recorded_resume {id : Nat} {s : Suspended} (hs : e.suspended.find? id = some s)
    (expired : Bool) : s.wait.work.Recorded s.tx e (e.resume id expired) := by
  obtain ⟨tx, wait⟩ := s
  unfold resume
  rw [hs]
  cases wait with
  | onFrame u thenLock =>
    exact recorded_pinned e ⟨id, tx⟩ u.wanted thenLock
      ((Store.kept_records e.records).deskResume rfl tx u expired)
  | onLock ticket rest work =>
    dsimp only
    split
    · exact recorded_of_eq rfl (.inl rfl)
    · split
      · exact recorded_of_locks (recorded_lockedWork _ ⟨id, tx⟩ rest work)
      · exact recorded_of_eq rfl (.inl rfl)
      · exact recorded_of_eq rfl (.inl rfl)
      · exact recorded_of_eq rfl (.inl rfl)

theorem records_makeDurable (e : Engine) (tx : TxId) :
    (e.makeDurable tx).2.records = e.records := by
  have hf : (e.atDesk fun d => d.flushMine tx).2.records = e.records :=
    (Store.kept_records e.records).deskFlushMine rfl tx
  unfold makeDurable
  generalize e.atDesk (fun d => d.flushMine tx) = r at hf
  obtain ⟨q, e'⟩ := r
  cases q with
  | error err => exact hf
  | ok _ => exact (Media.records_of_force (m := e'.media) (Prod.ext rfl rfl)).trans hf

theorem records_letGo (e : Engine) (tx : TxId) : (e.letGo tx).2.records = e.records :=
  congrArg (fun m => m.log.records) (e.media_letGo tx)

theorem records_commit (e : Engine) (tx : TxId) : (e.commit tx).2.records = e.records := by
  have hm := e.records_makeDurable tx
  unfold commit
  split
  · rfl
  · generalize e.makeDurable tx = r at hm
    obtain ⟨q, e'⟩ := r
    cases q with
    | error err => exact hm
    | ok _ => exact (e'.records_letGo tx).trans hm

theorem records_rollback (e : Engine) (tx : TxId) : (e.rollback tx).2.records = e.records := by
  unfold rollback
  split
  · rfl
  · exact e.records_letGo tx

theorem records_drop (e : Engine) (tx : TxId) : (e.drop tx).2.records = e.records := by
  unfold drop
  split
  · exact congrArg (fun m => m.log.records) (e.desk.media_releaseAll tx)
  · exact e.records_letGo tx

end Engine

/-- Writes are made in one piece, and nobody else writes to the log. -/
def Act.Whole : Act → Prop
  | .append _ | .logWrite _ _ _ _ | .applyWrite _ => False
  | _ => True

namespace Running

variable {names : String → Prop} {r : Running}

abbrev records (r : Running) : List Bytes := r.engine.records

theorem records_step (r : Running) {a : Act} (ha : a.Whole) :
    (r.step a).records = r.records ++ (updates (r.change? a).toList).map Update.encode := by
  have hpool := Store.kept_records r.records
  have hsame : ∀ {records : List Bytes}, records = r.records →
      records = r.records ++ (updates []).map Update.encode := fun h =>
    h.trans (List.append_nil _).symm
  cases a with
  | request k q =>
    rw [change?, toList_map_signedBy]
    exact r.engine.recorded_request k q
  | resume id expired =>
    cases hs : r.engine.suspended.find? id with
    | none =>
      simp only [change?, hs, step, Engine.resume]
      exact hsame rfl
    | some s =>
      rw [change?, hs, Option.bind_some, toList_map_signedBy]
      exact Engine.recorded_resume hs expired
  | logWrite tx record offset v => exact ha.elim
  | applyWrite place => exact ha.elim
  | append record => exact ha.elim
  | begin level => exact hsame rfl
  | enroll tx level => exact hsame rfl
  | unpin tx b => exact hsame (hpool.deskUnpin rfl tx b)
  | endStatement tx => exact hsame rfl
  | releaseLocks tx => exact hsame rfl
  | commit tx => exact hsame (r.engine.records_commit tx)
  | rollback tx => exact hsame (r.engine.records_rollback tx)
  | drop tx => exact hsame (r.engine.records_drop tx)
  | flushMine tx => exact hsame (hpool.deskFlushMine rfl tx)
  | poolPin w => exact hsame (hpool.pin rfl w)
  | poolUnpin i => exact hsame (hpool.unpin rfl i)
  | flush i => exact hsame (hpool.flush i rfl)
  | flushAll => exact hsame (hpool.flushWhere rfl _)
  | flushFor tx => exact hsame (hpool.flushWhere rfl _)
  | flushLog lsn => exact hsame (r.engine.media.log.records_flush lsn)
  | length file => exact hsame rfl
  | outage o => exact hsame rfl
  | fault cause => exact hsame rfl
  | deliver => exact hsame rfl

/-- The log has the writes of a run in their order, and nothing else. -/
theorem records_run (r : Running) {acts : List Act} (ha : ∀ a ∈ acts, a.Whole) :
    (r.run acts).records = r.records ++ (updates (r.changes acts)).map Update.encode := by
  induction acts generalizing r with
  | nil => exact (List.append_nil _).symm
  | cons a as ih =>
    have hrest := ih (r.step a) fun b hb => ha b (List.mem_cons_of_mem a hb)
    rw [changes, updates_append, List.map_append, ← List.append_assoc,
      ← r.records_step (ha a List.mem_cons_self)]
    exact hrest

end Running

namespace Desk

variable {d : Desk} {tx : TxId} {b : BlockId} {i : Nat}

def Grants (tx : TxId) (b : BlockId) (r : PinProgress × Desk) : Prop :=
  ∀ i, r.1 = .done (.ok i) → ∃ h, (r.2.pinsOf tx).holds.find? b = some h ∧ h.frame = i

theorem grants_exhausted (text : String) (d : Desk) : Grants tx b (exhausted tx text, d) :=
  fun _ h => by cases h

theorem grants_waits (u : PinWait) (d : Desk) : Grants tx b (.waits u, d) := fun _ h => by cases h

theorem grants_sleepsOn (u : PinWait) (d : Desk) : Grants tx b (.sleepsOn u, d) :=
  fun _ h => by cases h

theorem grants_error (err : Failure) (d : Desk) : Grants tx b (.done (.error err), d) :=
  fun _ h => by cases h

theorem grants_finish (d : Desk) (tx : TxId) (b : BlockId) (i : Nat) :
    Grants tx b (d.finish tx (.block b) i) := by
  rintro j hj
  cases hj
  refine ⟨⟨i, 1⟩, ?_, rfl⟩
  simp only [finish, record, pinsOf_setPins_self, Registry.find?_insert_self]

theorem grants_afterTurn {got : Nat → Desk → PinProgress × Desk}
    {ranOut asleep : Desk → PinProgress × Desk} (hgot : ∀ i d, Grants tx b (got i d))
    (hran : ∀ d, Grants tx b (ranOut d)) (hsleep : ∀ d, Grants tx b (asleep d))
    (r : Turn × Desk) : Grants tx b (afterTurn got ranOut asleep r) := by
  obtain ⟨t, d⟩ := r
  cases t with
  | got i => exact hgot i d
  | failed e => exact grants_error e d
  | ranOut => exact hran d
  | asleep => exact hsleep d

theorem grants_regain (holds : List (BlockId × Nat)) (d : Desk) :
    Grants tx b (regain tx (.block b) holds d) := by
  induction holds generalizing d with
  | nil =>
    exact grants_afterTurn (fun i d => grants_finish d tx b i) (grants_exhausted _)
      (grants_waits _) _
  | cons hold rest ih =>
    exact grants_afterTurn (fun _ _ => ih _) (grants_exhausted _)
      (grants_waits _) _

theorem grants_giveUp (d : Desk) (w : Wanted) : Grants tx b (d.giveUp tx w) := by
  unfold giveUp
  dsimp only
  split
  · exact grants_error _ _
  · exact grants_waits _ _

theorem grants_ask (d : Desk) : Grants tx b (d.ask tx (.block b)) := by
  unfold ask
  split
  · exact grants_exhausted _ d
  · split
    · exact grants_error _ _
    · exact grants_finish _ tx b _
    · exact grants_afterTurn (fun i d => grants_finish d tx b i) (fun d => grants_giveUp d _)
        (grants_waits _) _

theorem grants_pin (d : Desk) : Grants tx b (d.pin tx (.block b)) := by
  unfold Desk.pin
  dsimp only
  split
  · exact grants_ask d
  · rename_i h hb
    rintro j hj
    cases hj
    refine ⟨{ h with refs := h.refs + 1 }, ?_, rfl⟩
    simp only [pinsOf_setPins_self, Registry.find?_insert_self]

theorem grants_resume (d : Desk) (stage : Stage) (expired : Bool) :
    Grants tx b (d.resume tx ⟨.block b, stage⟩ expired) := by
  have hfinish := fun i d => grants_finish d tx b i
  cases stage with
  | pausing holds => exact grants_regain holds d
  | first ticket =>
    exact grants_afterTurn hfinish (fun d => grants_giveUp d _) (grants_sleepsOn _) _
  | regaining ticket c refs rest =>
    exact grants_afterTurn (fun _ _ => grants_regain rest _) (grants_exhausted _)
      (grants_sleepsOn _) _
  | last ticket => exact grants_afterTurn hfinish (grants_exhausted _) (grants_sleepsOn _) _

end Desk

theorem Engine.of_pinned {e : Engine} {k : Task} {thenLock : Bool} {r : PinProgress × Desk}
    {i : Nat} (h : (e.pinned k thenLock r).1 = .done (.ok (.frame i))) : r.1 = .done (.ok i) := by
  have hnew : ∀ (e : Engine) b, (e.lockNew k b).1 ≠ .done (.ok (.frame i)) := by
    intro e b
    unfold lockNew locked
    split <;> exact nofun
  unfold pinned at h
  dsimp only at h
  split at h
  · cases h
  · cases h
  · cases h
  · rename_i j hj
    rw [hj]
    split at h
    · split at h
      · exact absurd h (hnew _ _)
      · cases h
        rfl
    · cases h
      rfl

namespace Running

variable {names : String → Prop} {book : Book} {r : Running} {acts : List Act} {b : BlockId}
  {i : Nat} {a : Act}

/-- An act gets frame `i` for block `b`, at once or after a wait. -/
inductive Gets (r : Running) (b : BlockId) (i : Nat) : Act → Prop
  | asked {k : Task} (h : (r.engine.request k (.pin (.block b))).1 = .done (.ok (.frame i))) :
      Gets r b i (.request k (.pin (.block b)))
  | woken {id : Nat} {expired : Bool} {tx : TxId} {stage : Stage} {thenLock : Bool}
      (hs : r.engine.suspended.find? id = some ⟨tx, .onFrame ⟨.block b, stage⟩ thenLock⟩)
      (h : (r.engine.resume id expired).1 = .done (.ok (.frame i))) :
      Gets r b i (.resume id expired)

theorem Gets.holds (h : r.Gets b i a) : a.Whole ∧ r.change? a = none ∧ ∃ tx k,
    ((r.step a).engine.desk.pinsOf tx).holds.find? b = some k ∧ k.frame = i := by
  cases h with
  | @asked k h =>
    refine ⟨trivial, rfl, k.tx, ?_⟩
    simp only [step, Engine.request, Engine.active] at h ⊢
    split at h
    · cases h
    · rename_i hf
      rw [if_neg hf]
      show ∃ h, ((Engine.pinned _ _ _ _).2.desk.pinsOf _).holds.find? b = some h ∧ _
      rw [Engine.desk_pinned]
      exact Desk.grants_pin r.engine.desk i (Engine.of_pinned h)
  | @woken id expired tx stage thenLock hs h =>
    refine ⟨trivial, ?_, tx, ?_⟩
    · rw [change?, hs]
      rfl
    · simp only [step, Engine.resume, hs] at h ⊢
      show ∃ h, ((Engine.pinned _ _ _ _).2.desk.pinsOf _).holds.find? b = some h ∧ _
      rw [Engine.desk_pinned]
      exact Desk.grants_resume r.engine.desk stage expired i (Engine.of_pinned h)

/-- The payload a block had when the run began, or was given when the run added it. -/
inductive StartsWith (r : Running) : List Act → BlockId → Bytes → Prop
  | opened {acts : List Act} {b : BlockId} (hb : b.number < r.store.media.disk.blocks b.file) :
      StartsWith r acts b (Page.payload (r.store.media.disk.peek b))
  | added {before after : List Act} {a : Act} {tx : TxId} {file : String} {format : Formatter}
      (ha : (r.run before).change? a = some (tx, .add file format)) :
      StartsWith r (before ++ a :: after)
        ⟨file, (r.run before).store.media.disk.blocks file⟩
        (format.payload (r.store.blockSize - Page.headerSize))

theorem changes_append (r : Running) (acts acts' : List Act) :
    r.changes (acts ++ acts') = r.changes acts ++ (r.run acts).changes acts' := by
  induction acts generalizing r with
  | nil => rfl
  | cons a as ih =>
    rw [List.cons_append, changes, ih, changes, List.append_assoc]
    rfl

/-- What a block holds after a run is what it started with, overlaid with the writes to it. -/
theorem Sound.payload_of_startsWith (hd : Distinct names) (h : r.Sound names book)
    (hflat : book.flat = Flat.ofDisk r.store.media.disk) (ho : r.Orderly names acts)
    {start : Bytes} (hs : r.StartsWith acts b start) :
    Page.payload ((book.after (r.changes acts)).flat.block b) =
      (r.changes acts).foldl (fun bytes x => x.2.on b bytes) start := by
  cases hs with
  | opened hb =>
    have hin : b.number < book.flat.length b.file := hflat ▸ hb
    rw [Book.flat_after, Flat.payload_replay (h.run hd ho).takes hin, List.foldl_map, hflat]
    rfl
  | @added before after a tx file format ha =>
    obtain ⟨ho₁, hp, hfits, ho₂⟩ := orderly_append ho
    have h₁ := h.run hd ho₁
    have h₂ := h₁.sound.step hd hp hfits
    have h₃ := h₂.sound.run hd ho₂
    rw [changes_append, changes, ha, Option.toList_some]
    rw [ha, Option.toList_some] at h₂ h₃
    obtain ⟨hn, -⟩ := h₂.takes.1
    have hnumber := h₁.sound.steady.mirrors.length hn
    have hsize : (book.after (r.changes before)).flat.blockSize = r.store.blockSize := by
      rw [Book.flat_after, hflat]
      exact congrArg Site.blockSize (Flat.site_replay _ _)
    rw [show (r.run before).store.media.disk.blocks file = _ from hnumber]
    generalize hlater : ((r.run before).step a).changes after = later at h₃ ⊢
    have hbefore := h₁.takes.on_eq (b := ⟨file, (book.after (r.changes before)).flat.length file⟩)
      (Nat.le_of_eq (congrArg (fun k => k.length file) (book.flat_after _)).symm)
      (format.payload (r.store.blockSize - Page.headerSize))
    rw [List.foldl_map] at hbefore
    rw [Book.after_append, Book.after_append, Book.flat_after _ later,
      Flat.payload_replay h₃.takes (Flat.lt_length_add _ file format), List.foldl_map,
      List.foldl_append, List.foldl_append, hbefore, ← hsize, ← format.payload_page]
    exact congrArg (fun bytes => later.foldl _ (Page.payload bytes)) (Flat.block_add _ file format)

end Running

/-- The transaction writes to the block that it added, once with a log that takes the record and
once with one that does not. -/
def refusedOnce : List Act :=
  [writeAdded, .outage .append, .request ⟨2, ⟨1⟩⟩ (.write ⟨⟨"f", 0⟩, 0⟩ 0 (.int 9)), .commit ⟨1⟩,
    .begin .repeatableRead]

def pinAdded : Act := .request ⟨3, ⟨2⟩⟩ (.pin (.block ⟨"f", 0⟩))

def writtenOnce : List Act :=
  [.begin .repeatableRead, .begin .repeatableRead, .request ⟨0, ⟨1⟩⟩ (.pin (.block ⟨"f", 0⟩)),
    .request ⟨1, ⟨1⟩⟩ (.write ⟨⟨"f", 0⟩, 0⟩ 0 (.int 7)), .commit ⟨1⟩]

/-- The second has the block by another name of its file. -/
def otherName : Act := .request ⟨2, ⟨2⟩⟩ (.pin (.block ⟨"./f", 0⟩))

end PagedStore
