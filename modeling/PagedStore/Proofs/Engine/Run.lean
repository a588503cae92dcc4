import PagedStore.Proofs.Engine.Kept

set_option autoImplicit false

/-!
Runs of an engine: the operations of any number of transactions in any order, and what goes on
beside them in the pool, the log and the files. A write can stop between its record and its frame,
so that others come in between. Main statement: `Running.kept_run`.
-/

namespace PagedStore

/-- An engine with the writes that have their records and are still to be applied. -/
structure Running where
  engine : Engine
  writes : List LoggedWrite := []

inductive Act where
  | begin (level : Isolation)
  | enroll (tx : TxId) (level : Isolation)
  | request (k : Task) (r : Request)
  | resume (id : Nat) (expired : Bool)
  | logWrite (tx : TxId) (r : RecordId) (offset : Nat) (v : Value)
  | applyWrite (place : Nat)
  | unpin (tx : TxId) (b : BlockId)
  | endStatement (tx : TxId)
  | releaseLocks (tx : TxId)
  | commit (tx : TxId)
  | rollback (tx : TxId)
  | drop (tx : TxId)
  | flushMine (tx : TxId)
  | poolPin (w : Wanted)
  | poolUnpin (i : Nat)
  | flush (i : Nat)
  | flushAll
  | flushFor (tx : TxId)
  | append (record : Bytes)
  | flushLog (lsn : Lsn)
  | length (file : String)
  | outage (o : Outage)
  | fault (cause : Option IoCause)
  | deliver

namespace Running

def on (r : Running) (e : Engine) : Running := { r with engine := e }

def store (r : Running) : Store := r.engine.desk.store

def step (r : Running) : Act → Running
  | .begin level => r.on (r.engine.begin level).2
  | .enroll tx level => r.on (r.engine.enroll tx level)
  | .request k q => r.on (r.engine.request k q).2
  | .resume id expired => r.on (r.engine.resume id expired).2
  | .logWrite tx record offset v =>
    match r.engine.logWrite tx record offset v with
    | (.error _, e) => r.on e
    | (.ok w, e) => { engine := e, writes := r.writes ++ [w] }
  | .applyWrite place =>
    match r.writes[place]? with
    | none => r
    | some w => { engine := (r.engine.applyWrite w).2, writes := r.writes.eraseIdx place }
  | .unpin tx b => r.on (r.engine.unpin tx b).2
  | .endStatement tx => r.on (r.engine.endStatement tx)
  | .releaseLocks tx => r.on (r.engine.releaseLocks tx)
  | .commit tx => r.on (r.engine.commit tx).2
  | .rollback tx => r.on (r.engine.rollback tx).2
  | .drop tx => r.on (r.engine.drop tx).2
  | .flushMine tx => r.on (r.engine.atDesk fun d => d.flushMine tx).2
  | .poolPin w => r.on (r.engine.setStore (r.store.pin w).2)
  | .poolUnpin i => r.on (r.engine.setStore (r.store.unpin i).2)
  | .flush i => r.on (r.engine.setStore (r.store.flushFrame i).2)
  | .flushAll => r.on (r.engine.setStore r.store.flushAll.2)
  | .flushFor tx => r.on (r.engine.setStore (r.store.flushFor tx).2)
  | .append record => r.on (r.engine.setLog (r.engine.media.log.append record).2)
  | .flushLog lsn => r.on (r.engine.setLog (r.engine.media.log.flush lsn).2)
  | .length file => r.on (r.engine.fileLength file).2
  | .outage o => r.on (r.engine.setLog { r.engine.media.log with outage := o })
  | .fault cause => r.on (r.engine.setDisk { r.engine.media.disk with fault := cause })
  | .deliver => r.on { r.engine with locks := r.engine.locks.deliver }

def run (r : Running) (acts : List Act) : Running := acts.foldl step r

def Logged (r : Running) : Prop := ∀ w ∈ r.writes, w.lsn ≤ r.store.media.log.last

theorem kept_step {P : Store → Prop} (h : Engine.Kept P) {r : Running} (hl : r.Logged)
    (hr : P r.store) (a : Act) : P (r.step a).store := by
  cases a with
  | begin level => exact hr
  | enroll tx level => exact hr
  | request k q => exact h.request hr k q
  | resume id expired => exact h.resume hr id expired
  | logWrite tx record offset v =>
    have hw := h.logWrite hr tx record offset v
    simp only [step]
    generalize r.engine.logWrite tx record offset v = q at hw
    obtain ⟨q, e⟩ := q
    cases q <;> exact hw
  | applyWrite place =>
    simp only [step]
    split
    · exact hr
    · rename_i w hw
      exact h.applyWrite hr (hl w (List.mem_of_getElem? hw))
  | unpin tx b => exact h.deskUnpin hr tx b
  | endStatement tx => exact hr
  | releaseLocks tx => exact hr
  | commit tx => exact h.commit hr tx
  | rollback tx => exact h.rollback hr tx
  | drop tx => exact h.drop hr tx
  | flushMine tx => exact h.deskFlushMine hr tx
  | poolPin w => exact h.pin hr w
  | poolUnpin i => exact h.toKept.unpin hr i
  | flush i => exact h.flush i hr
  | flushAll => exact h.flushWhere hr _
  | flushFor tx => exact h.flushWhere hr _
  | append record => exact h.append record hr
  | flushLog lsn => exact h.flushLog lsn hr
  | length file => exact h.length file hr
  | outage o => exact h.outage o hr
  | fault cause => exact h.fault cause hr
  | deliver => exact hr

end Running

theorem Frame.log_fill (f : Frame) (w : Wanted) (m : Media) : (f.fill w m).2.2.log = m.log := by
  have hf := Frame.filled f w m
  generalize f.fill w m = r at hf
  cases hf <;> rfl

theorem Engine.kept_last (n : Nat) : Engine.Kept fun s => n ≤ s.media.log.last where
  still hst hs := by
    rw [hst.media]
    exact hs
  flush {s} i hs := by
    have hfl := Store.flushedAt s i
    generalize s.flushFrame i = r at hfl
    cases hfl with
    | idle => exact hs
    | unforced hf hm => exact (Media.of_force hm).2.2.1 ▸ hs
    | unsaved hf hb hm hw => exact (Media.of_force hm).2.2.1 ▸ hs
    | saved hf hb hm hw => exact (Media.of_force hm).2.2.1 ▸ hs
  refill {s i f} w hi hc hs := by
    have hl := Frame.log_fill { f with block := none } w s.media
    unfold Store.refill
    dsimp only
    rw [hl]
    exact hs
  length file hs := hs
  append {s} record hs := Nat.le_trans hs (Log.last_append ..)
  flushLog {s} lsn hs := by
    rw [Log.last_flush]
    exact hs
  apply {s s'} w hw hr hs := by
    have hm : s'.media = s.media := by
      have := Store.media_editFrame s w.frame fun f => f.writeLogged w.offset w.value w.tx w.lsn
      rwa [hr] at this
    show n ≤ s'.media.log.last
    rw [hm]
    exact hs
  outage o hs := hs
  fault cause hs := hs

namespace Running

theorem writes_step (r : Running) (a : Act) :
    ∀ w ∈ (r.step a).writes, w ∈ r.writes ∨ ∃ tx record offset v,
      r.engine.logWrite tx record offset v = (.ok w, (r.step a).engine) := by
  intro w hw
  cases a with
  | logWrite tx record offset v =>
    simp only [step] at hw ⊢
    cases hlog : r.engine.logWrite tx record offset v with
    | mk q e =>
      rw [hlog] at hw
      cases q with
      | error err => exact .inl hw
      | ok w' =>
        rcases List.mem_append.1 hw with hmem | hmem
        · exact .inl hmem
        · obtain rfl := List.mem_singleton.1 hmem
          exact .inr ⟨tx, record, offset, v, hlog⟩
  | applyWrite place =>
    simp only [step] at hw
    split at hw
    · exact .inl hw
    · exact .inl (List.mem_of_mem_eraseIdx hw)
  | _ => exact .inl hw

theorem logged_step {r : Running} (hl : r.Logged) (a : Act) : (r.step a).Logged := by
  intro w hw
  rcases writes_step r a w hw with hmem | ⟨tx, record, offset, v, hlog⟩
  · exact kept_step (Engine.kept_last w.lsn) hl (hl w hmem) a
  · exact Engine.lsn_logWrite hlog

theorem kept_run {P : Store → Prop} (h : Engine.Kept P) {r : Running} (hl : r.Logged)
    (hr : P r.store) (acts : List Act) : P (r.run acts).store := by
  induction acts generalizing r with
  | nil => exact hr
  | cons a acts ih => exact ih (logged_step hl a) (kept_step h hl hr a)

end Running

end PagedStore
