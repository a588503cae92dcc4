import PagedStore.Proofs.Engine.Atomic
import PagedStore.Proofs.Engine.Worked

set_option autoImplicit false

/-!
Runs of transactions, whatever names the files go by: who each act is of, what it comes to, and what
holds all along a run. Main statements: `Running.Tracked.does`, `Running.Tracked.run` and
`Running.Counted.run`.
-/

namespace PagedStore

namespace Running

def mover? (r : Running) : Act → Option TxId
  | .request k _ => some k.tx
  | .resume id _ => (r.engine.suspended.find? id).map Suspended.tx
  | .logWrite tx _ _ _ | .unpin tx _ | .commit tx | .rollback tx | .drop tx => some tx
  | _ => none

inductive Does (r : Running) : Option TxId → Running → Prop
  | began (level : Isolation) : Does r none (r.on (r.engine.begin level).2)
  | worked {tx : TxId} {e : Engine} (hr : r.Ready tx)
      (hw : Engine.Worked (fun u => e.isFinished u) tx r.engine e) : Does r (some tx) (r.on e)
  | logged {tx : TxId} {e : Engine} {w : LoggedWrite} {record : RecordId} {offset : Nat} {v : Value}
      (hr : r.Ready tx) (hw : r.engine.logWrite tx record offset v = (.ok w, e)) :
      Does r (some tx) { engine := e, writes := r.writes ++ [w] }
  | applied {place : Nat} {w : LoggedWrite} (hw : r.writes[place]? = some w)
      (hl : w.lsn < wordLimit 8) :
      Does r none { engine := (r.engine.applyWrite w).2, writes := r.writes.eraseIdx place }
  | aside {e : Engine} (walks : Desk.Walks (fun u => e.isFinished u) ⟨0⟩ r.engine.desk e.desk)
      (pins : e.desk.pins = r.engine.desk.pins) (suspended : e.suspended = r.engine.suspended)
      (later : r.engine.Later e) (last : r.engine.media.log.last ≤ e.media.log.last)
      (known : ∀ u, e.lastLsn u = r.engine.lastLsn u) : Does r none (r.on e)

/-- What holds between any two acts. -/
structure Tracked (r : Running) : Prop where
  traced : r.engine.desk.Traced fun tx => r.engine.isFinished tx
  tidy : r.store.Tidy
  parked : ∀ id s, r.engine.suspended.find? id = some s → r.engine.Begun s.tx
  numbered : r.engine.nextTx ≠ 0
  begun : ∀ tx, r.engine.Begun tx → tx.num ≠ 0 ∧ tx.num < r.engine.nextTx
  logged : r.Logged
  pending : ∀ w ∈ r.writes, r.engine.Begun w.tx ∧ 0 < w.lsn ∧
    ∃ b h, (r.engine.desk.pinsOf w.tx).holds.find? b = some h ∧ h.frame = w.frame

namespace Tracked

variable {names : String → Prop} {r r' : Running} {tx : TxId} {who : Option TxId}

/-- Files and blocks do not matter, and who has ended is known from the end. -/
abbrev endsWith (e : Engine) : Terms := ⟨fun _ => True, fun _ => 0, fun u => e.isFinished u⟩

theorem does_acted {e : Engine} (hr : r.Ready tx)
    (hm : Engine.Moved (endsWith e) tx r.engine [] e) (hl : e.records = r.engine.records)
    (ht : ∀ u, e.lastLsn u = r.engine.lastLsn u) : Does r (some tx) (r.on e) :=
  .worked hr (Engine.worked_moved hm hl ht)

theorem does_aside {e : Engine} (hm : Engine.Moved (endsWith e) ⟨0⟩ r.engine [] e)
    (pins : e.desk.pins = r.engine.desk.pins) (suspended : e.suspended = r.engine.suspended)
    (last : r.engine.media.log.last ≤ e.media.log.last)
    (known : ∀ u, e.lastLsn u = r.engine.lastLsn u) : Does r none (r.on e) :=
  .aside (hm.moves.walks rfl nofun) pins suspended hm.later last known

theorem does (h : r.Tracked) {a : Act} (hp : r.Permits names a)
    (hfits : (r.step a).store.media.log.last < wordLimit 8) : r.Does (r.mover? a) (r.step a) := by
  have hrecords := Store.kept_records r.records
  have hstore : ∀ {s : Store}, Desk.Moves (endsWith (r.engine.setStore s)) ⟨0⟩ r.engine.desk []
      (r.engine.desk.setStore s) → s.media.log.records = r.records →
        Does r none (r.on (r.engine.setStore s)) := fun hm hl =>
    does_aside (Engine.moved_setStore hm) rfl rfl (Nat.le_of_eq (congrArg List.length hl).symm)
      fun _ => rfl
  have hmedia : ∀ {m : Media}, Disk.Same r.engine.media.disk m.disk →
      r.engine.media.log.last ≤ m.log.last → Does r none (r.on (r.engine.setMedia m)) :=
    fun hm hl => does_aside (Engine.moved_setMedia hm) rfl rfl hl fun _ => rfl
  cases a with
  | begin level => exact .began level
  | enroll tx level => exact hp.elim
  | request k q =>
    exact .worked hp.1 (Engine.worked_request k (h.begun _ hp.1.1).1 hp.1.1 q hfits)
  | resume id expired =>
    cases hf : r.engine.suspended.find? id with
    | none =>
      have hsame : r.step (.resume id expired) = r := by
        simp only [step, Engine.resume, hf]
        rfl
      rw [hsame, mover?, hf]
      exact .aside (.refl _) rfl rfl (.refl _) (Nat.le_refl _) fun _ => rfl
    | some s =>
      rw [mover?, hf]
      have hb := h.parked id s hf
      exact .worked ⟨hb, (hp s hf).1⟩ (Engine.worked_resume hf (h.begun _ hb).1 hb hfits)
  | logWrite tx record offset v =>
    obtain ⟨log, hlog⟩ := r.engine.logWrite_snd tx record offset v
    simp only [step]
    cases hw : r.engine.logWrite tx record offset v with
    | mk q e =>
      cases q with
      | error err =>
        rw [hw] at hlog
        obtain rfl : e = r.engine.setLog log := hlog
        exact does_acted hp (Engine.moved_setMedia (.refl _)) (Engine.records_logWrite_error hw)
          fun _ => rfl
      | ok w => exact .logged hp hw
  | applyWrite place =>
    simp only [step] at hfits ⊢
    cases hw : r.writes[place]? with
    | none => exact .aside (.refl _) rfl rfl (.refl _) (Nat.le_refl _) fun _ => rfl
    | some w =>
      rw [hw] at hfits
      refine .applied hw (Nat.lt_of_le_of_lt (h.logged w (List.mem_of_getElem? hw)) ?_)
      exact Engine.log_applyWrite r.engine w ▸ hfits
  | unpin tx b =>
    have hm : Engine.Moved (endsWith (r.engine.unpin tx b).2) tx r.engine []
        (r.engine.unpin tx b).2 := Engine.moved_atDesk (Desk.moves_unpin _ b)
    exact does_acted hp hm (hrecords.deskUnpin rfl tx b) fun _ => rfl
  | commit tx =>
    have hm : Engine.Moved (endsWith (r.engine.commit tx).2) tx r.engine []
        (r.engine.commit tx).2 := Engine.moved_commit (Engine.finished_commit hp.1)
    exact does_acted hp hm (r.engine.records_commit tx) (r.engine.lastLsn_commit tx)
  | rollback tx =>
    have hm : Engine.Moved (endsWith (r.engine.rollback tx).2) tx r.engine []
        (r.engine.rollback tx).2 := Engine.moved_rollback (Engine.finished_rollback hp.1)
    exact does_acted hp hm (r.engine.records_rollback tx) (r.engine.lastLsn_rollback tx)
  | drop tx =>
    have hm : Engine.Moved (endsWith (r.engine.drop tx).2) tx r.engine []
        (r.engine.drop tx).2 := Engine.moved_drop (Engine.finished_drop hp.1)
    exact does_acted hp hm (r.engine.records_drop tx) (r.engine.lastLsn_drop tx)
  | endStatement tx | releaseLocks tx | deliver =>
    exact .aside (.refl _) rfl rfl (.of_eq rfl rfl) (Nat.le_refl _) fun _ => rfl
  | flushMine tx =>
    exact hstore (Desk.moves_flushMine _ tx) (hrecords.deskFlushMine rfl tx)
  | poolPin w => exact hp.elim
  | poolUnpin i => exact hp.elim
  | flush i => exact hstore (Desk.Move.flushed i).moves (hrecords.flush i rfl)
  | flushAll => exact hstore (Desk.moves_flushWhere _ _) (hrecords.flushWhere rfl _)
  | flushFor tx => exact hstore (Desk.moves_flushWhere _ _) (hrecords.flushWhere rfl _)
  | append record => exact hmedia (.refl _) (Log.last_append ..)
  | flushLog lsn => exact hmedia (.refl _) (Nat.le_of_eq (Log.last_flush ..).symm)
  | length file => exact hmedia (Disk.same_length _ file) (Nat.le_refl _)
  | outage o => exact hmedia (.refl _) (Nat.le_refl _)
  | fault cause => exact hmedia ⟨rfl, fun _ => rfl⟩ (Nat.le_refl _)

theorem finished_begin (h : r.Tracked) (level : Isolation) {u : TxId}
    (hu : r.engine.isFinished u) : (r.engine.begin level).2.isFinished u := by
  have hb : r.engine.Begun u := by
    unfold Engine.isFinished at hu
    unfold Engine.Begun
    cases ht : r.engine.transactions.find? u with
    | none =>
      rw [ht] at hu
      cases hu
    | some t => rfl
  have hne : u ≠ ⟨r.engine.nextTx⟩ := fun he => Nat.lt_irrefl _ (he ▸ (h.begun u hb).2)
  rw [Engine.isFinished, show (r.engine.begin level).2.transactions.find? u = _ from
    Registry.find?_insert_of_ne _ _ hne]
  exact hu

theorem begun_begin (e : Engine) (level : Isolation) (u : TxId) :
    (e.begin level).2.Begun u ↔ u = ⟨e.nextTx⟩ ∨ e.Begun u := by
  show ((e.transactions.insert ⟨e.nextTx⟩ { isolation := level }).find? u).isSome ↔ _
  rw [Registry.find?_insert, Engine.Begun]
  by_cases hu : u = ⟨e.nextTx⟩ <;> simp [hu]

theorem next (h : r.Tracked) (hd : r.Does who r') (hl : r'.Logged) : r'.Tracked := by
  have hlater : ∀ {e : Engine} {ws : List LoggedWrite}, r.engine.Later e →
      (∀ w ∈ ws, r.engine.Begun w.tx ∧ 0 < w.lsn ∧
        ∃ b k, (e.desk.pinsOf w.tx).holds.find? b = some k ∧ k.frame = w.frame) →
      (∀ id s, e.suspended.find? id = some s → r.engine.Begun s.tx) →
      e.desk.Traced (fun u => e.isFinished u) ∧ e.desk.store.Tidy → Logged ⟨e, ws⟩ →
      Tracked ⟨e, ws⟩ := by
    intro e ws hlater hpending hparked hdesk hl
    refine ⟨hdesk.1, hdesk.2, fun id s hs => (hlater.begun _).2 (hparked id s hs),
      hlater.next ▸ h.numbered, fun u hu => ?_, hl,
      fun w hw => ⟨(hlater.begun _).2 (hpending w hw).1, (hpending w hw).2⟩⟩
    rw [hlater.next]
    exact h.begun u ((hlater.begun u).1 hu)
  cases hd with
  | began level =>
    have hold : ∀ {u}, r.engine.Begun u → (r.engine.begin level).2.Begun u :=
      fun hu => (begun_begin ..).2 (.inr hu)
    refine ⟨h.traced.mono fun u => h.finished_begin level, h.tidy,
      fun id s hs => hold (h.parked id s hs), Nat.succ_ne_zero _, fun u hu => ?_, hl,
      fun w hw => ⟨hold (h.pending w hw).1, (h.pending w hw).2⟩⟩
    rcases (begun_begin ..).1 hu with rfl | hu
    · exact ⟨h.numbered, Nat.lt_succ_self _⟩
    · exact ⟨(h.begun u hu).1, Nat.lt_succ_of_lt (h.begun u hu).2⟩
  | worked hr hw =>
    refine hlater hw.later (fun w hmem => ?_) (fun id s hs => ?_)
      (hw.walks.kept (h.traced.mono hw.later.finished) h.tidy) hl
    · rw [hw.walks.pinsOf_of_ne (hr.2 w hmem)]
      exact h.pending w hmem
    · exact (hw.parked id s hs).elim (h.parked id s) fun he => he ▸ hr.1
  | @logged tx e w record offset v hr hw =>
    obtain ⟨log, hlog⟩ := r.engine.logWrite_snd tx record offset v
    rw [hw] at hlog
    obtain rfl : e = r.engine.setLog log := hlog
    refine hlater (.of_eq rfl rfl) (fun w' hw' => ?_) h.parked
      ⟨h.traced.congr rfl rfl, h.tidy.housed, h.tidy.stamped⟩ hl
    rcases List.mem_append.1 hw' with hmem | hmem
    · exact h.pending w' hmem
    · obtain rfl := List.mem_singleton.1 hmem
      obtain ⟨htx, -, -, -, k, hk, hf⟩ := Engine.logWrite_ok hw
      have hgrown := Engine.last_lt_of_logWrite hw
      exact ⟨htx ▸ hr.1, Nat.lt_of_le_of_lt (Nat.zero_le _) hgrown, record.block, k, htx ▸ hk, hf⟩
  | @applied place w hw hlimit =>
    have hmem := List.mem_of_getElem? hw
    obtain ⟨hb, hpos, b, k, hk, hf⟩ := h.pending w hmem
    have hmoves : Desk.Moves (endsWith (r.engine.applyWrite w).2) w.tx _ _ _ :=
      Engine.moves_applyWrite (h.begun _ hb).1 hk hf hlimit
    have hlate := r.engine.later_applyWrite w
    have hwalks := hmoves.walks rfl fun x hx => by
      split at hx
      · obtain rfl := List.mem_singleton.1 hx
        intro n hn
        cases hn
        exact hpos
      · cases hx
    refine hlater hlate (fun w' hw' => ?_) (fun id s hs => ?_)
      (hwalks.kept (h.traced.mono hlate.finished) h.tidy) hl
    · rw [Desk.pinsOf, r.engine.pins_applyWrite w, ← Desk.pinsOf]
      exact h.pending w' (List.mem_of_mem_eraseIdx hw')
    · exact h.parked id s (r.engine.suspended_applyWrite w ▸ hs)
  | aside walks pins suspended later last known =>
    refine hlater later (fun w hmem => ?_) (fun id s hs => h.parked id s (suspended ▸ hs))
      (walks.kept (h.traced.mono later.finished) h.tidy) hl
    rw [Desk.pinsOf, pins, ← Desk.pinsOf]
    exact h.pending w hmem

theorem run (h : r.Tracked) {acts : List Act} (ho : r.Orderly names acts) :
    (r.run acts).Tracked := by
  induction acts generalizing r with
  | nil => exact h
  | cons a as ih =>
    obtain ⟨hp, hfits, ho⟩ := ho
    exact ih (h.next (h.does hp hfits) (logged_step h.logged a)) ho

end Tracked

theorem tracked_create {settings : Settings} {disk : Disk} {e : Engine}
    (h : Engine.create settings disk = .ok e) : Tracked ⟨e, []⟩ := by
  obtain ⟨pool, locks, hpool, -, rfl⟩ := Engine.create_eq_ok h
  obtain ⟨-, -, hframes⟩ := Pool.create_eq_ok hpool
  refine ⟨⟨nofun, nofun, fun i f _ => Nat.zero_le _, fun i f tx hf htx => ?_⟩,
    ⟨fun hf _ => ?_, fun hf htx => ?_⟩, nofun, Nat.one_ne_zero, nofun, nofun, nofun⟩
  · rw [hframes hf] at htx
    cases htx
  · rw [hframes hf]
    exact ⟨rfl, rfl⟩
  · rw [hframes hf] at htx
    cases htx

def last (r : Running) : Lsn := r.store.media.log.last

/-- On the way from `r`, an act of `tx` takes the log past position `n`. -/
def Appends (r : Running) (tx : TxId) (n : Lsn) : List Act → Prop
  | [] => False
  | a :: as =>
    (r.mover? a = some tx ∧ r.last < n ∧ n ≤ (r.step a).last) ∨ (r.step a).Appends tx n as

/-- Of the positions `known`, which are those of the records of each transaction, a transaction
knows the last, unless it has still to apply the write that is recorded there. -/
structure Counted (known : TxId → Lsn → Prop) (r : Running) : Prop where
  last : ∀ tx, r.engine.lastLsn tx ≤ r.last
  pending : ∀ w ∈ r.writes, r.engine.lastLsn w.tx ≤ w.lsn
  alone : ∀ w ∈ r.writes, ∀ w' ∈ r.writes, w.tx = w'.tx → w.lsn = w'.lsn
  known : ∀ tx n, known tx n →
    n ≤ r.engine.lastLsn tx ∨ ∃ w ∈ r.writes, w.tx = tx ∧ n ≤ w.lsn

namespace Counted

variable {names : String → Prop} {known known' : TxId → Lsn → Prop} {r r' : Running}
  {tx : TxId} {who : Option TxId} {count size : Nat}

theorem mono (h : r.Counted known) (hk : ∀ tx n, known' tx n → known tx n) : r.Counted known' :=
  ⟨h.last, h.pending, h.alone, fun tx n hn => h.known tx n (hk tx n hn)⟩

theorem began (h : r.Counted known) (ht : r.Tracked) (level : Isolation) :
    (r.on (r.engine.begin level).2).Counted known := by
  have hsame : ∀ u, (r.engine.begin level).2.lastLsn u = r.engine.lastLsn u := by
    intro u
    have hins : (r.engine.begin level).2.transactions =
        r.engine.transactions.insert ⟨r.engine.nextTx⟩ { isolation := level } := rfl
    rw [Engine.lastLsn, Engine.lastLsn, hins, Registry.find?_insert]
    split
    · rename_i hu
      have hnew : r.engine.transactions.find? u = none := by
        refine Option.not_isSome_iff_eq_none.1 fun hb => ?_
        exact Nat.lt_irrefl _ (hu ▸ (ht.begun u hb).2)
      rw [hnew]
      rfl
    · rfl
  exact ⟨fun u => hsame u ▸ h.last u, fun w hw => hsame w.tx ▸ h.pending w hw, h.alone,
    fun u n hn => hsame u ▸ h.known u n hn⟩

theorem worked (h : r.Counted known) {finished : TxId → Prop} {e : Engine} (hr : r.Ready tx)
    (hw : Engine.Worked finished tx r.engine e) :
    (r.on e).Counted fun u n =>
      known u n ∨ (some tx = some u ∧ r.last < n ∧ n ≤ (r.on e).last) := by
  have hlast : r.last ≤ (r.on e).last ∧ r.engine.lastLsn tx ≤ e.lastLsn tx ∧
      e.lastLsn tx ≤ (r.on e).last ∧
      ∀ n, r.last < n → n ≤ (r.on e).last → n ≤ e.lastLsn tx := by
    have hle := h.last tx
    rcases hw.signs.own with ⟨hl, hs⟩ | ⟨hl, hs⟩
    · have hl : (r.on e).last = r.last := hl
      rw [hl, hs]
      exact ⟨Nat.le_refl _, Nat.le_refl _, hle, fun n hn hn' => absurd hn' (Nat.not_le.2 hn)⟩
    · have hl : r.last < (r.on e).last := hl
      have hs : e.lastLsn tx = (r.on e).last := hs
      rw [hs]
      exact ⟨Nat.le_of_lt hl, Nat.le_trans hle (Nat.le_of_lt hl), Nat.le_refl _, fun _ _ => id⟩
  obtain ⟨hmore, hown, hend, hnew⟩ := hlast
  refine ⟨fun u => ?_, fun w hmem => ?_, h.alone, fun u n hn => ?_⟩
  · by_cases hu : u = tx
    · exact hu ▸ hend
    · exact hw.signs.others u hu ▸ Nat.le_trans (h.last u) hmore
  · exact hw.signs.others _ (hr.2 w hmem) ▸ h.pending w hmem
  · rcases hn with hn | ⟨he, hlt, hle⟩
    · refine (h.known u n hn).imp_left fun hn => ?_
      by_cases hu : u = tx
      · subst hu
        exact Nat.le_trans hn hown
      · exact hw.signs.others u hu ▸ hn
    · obtain rfl := Option.some.inj he
      exact .inl (hnew n hlt hle)

theorem logged (h : r.Counted known) {e : Engine} {w : LoggedWrite} {record : RecordId}
    {offset : Nat} {v : Value} (hr : r.Ready tx)
    (hw : r.engine.logWrite tx record offset v = (.ok w, e)) :
    Counted (fun u n => known u n ∨ (some tx = some u ∧ r.last < n ∧ n ≤ e.media.log.last))
      ⟨e, r.writes ++ [w]⟩ := by
  obtain ⟨htx, -, -, hlsn, -⟩ := Engine.logWrite_ok hw
  have hgrown : r.last < w.lsn := Engine.last_lt_of_logWrite hw
  obtain ⟨log, hlog⟩ := r.engine.logWrite_snd tx record offset v
  rw [hw] at hlog
  obtain rfl : e = r.engine.setLog log := hlog
  have hfirst : ∀ w' ∈ r.writes, w'.tx ≠ w.tx := fun w' hmem => htx ▸ hr.2 w' hmem
  have hcases : ∀ {w'}, w' ∈ r.writes ++ [w] → w' ∈ r.writes ∨ w' = w := fun hmem =>
    (List.mem_append.1 hmem).imp_right List.mem_singleton.1
  refine ⟨fun u => ?_, fun w' hmem => ?_, fun w' hw' w'' hw'' he => ?_, fun u n hn => ?_⟩
  · exact Nat.le_trans (h.last u) (Nat.le_of_lt (Nat.lt_of_lt_of_eq hgrown hlsn))
  · rcases hcases hmem with hmem | rfl
    · exact h.pending w' hmem
    · exact Nat.le_trans (h.last _) (Nat.le_of_lt hgrown)
  · rcases hcases hw' with hin' | rfl <;> rcases hcases hw'' with hin'' | rfl
    · exact h.alone w' hin' w'' hin'' he
    · exact absurd he (hfirst w' hin')
    · exact absurd he.symm (hfirst w'' hin'')
    · rfl
  · rcases hn with hn | ⟨he, -, hle⟩
    · exact (h.known u n hn).imp_right fun ⟨w', hmem, hw'⟩ =>
        ⟨w', List.mem_append_left _ hmem, hw'⟩
    · obtain rfl := Option.some.inj he
      exact .inr ⟨w, List.mem_append_right _ (List.mem_singleton.2 rfl), htx, hlsn ▸ hle⟩

theorem applied (h : r.Counted known) (ht : r.Tracked) (hp : r.Poised count size) {place : Nat}
    {w : LoggedWrite} (hw : r.writes[place]? = some w) :
    Counted known ⟨(r.engine.applyWrite w).2, r.writes.eraseIdx place⟩ := by
  have hmem := List.mem_of_getElem? hw
  obtain ⟨e', hok, -⟩ := hp.applied hmem
  have hself : (r.engine.applyWrite w).2.lastLsn w.tx = w.lsn :=
    Engine.lastLsn_applyWrite (ht.pending w hmem).1 (by rw [hok]; rfl)
  have hother : ∀ {u}, u ≠ w.tx →
      (r.engine.applyWrite w).2.lastLsn u = r.engine.lastLsn u := fun hu =>
    r.engine.lastLsn_applyWrite_of_ne hu
  have hlast : Running.last ⟨(r.engine.applyWrite w).2, r.writes.eraseIdx place⟩ = r.last :=
    congrArg Log.last (r.engine.log_applyWrite w)
  refine ⟨fun u => ?_, fun w' hw' => ?_, fun w' hw' w'' hw'' => ?_, fun u n hn => ?_⟩
  · rw [hlast]
    by_cases hu : u = w.tx
    · exact hu ▸ hself ▸ ht.logged w hmem
    · exact hother hu ▸ h.last u
  · have hin := List.mem_of_mem_eraseIdx hw'
    by_cases hu : w'.tx = w.tx
    · exact Nat.le_of_eq ((hu ▸ hself).trans (h.alone w hmem w' hin hu.symm))
    · exact hother hu ▸ h.pending w' hin
  · exact h.alone w' (List.mem_of_mem_eraseIdx hw') w'' (List.mem_of_mem_eraseIdx hw'')
  · by_cases hu : u = w.tx
    · subst hu
      left
      rw [hself]
      rcases h.known w.tx n hn with hn | ⟨w', hw', he, hn⟩
      · exact Nat.le_trans hn (h.pending w hmem)
      · exact Nat.le_trans hn (Nat.le_of_eq (h.alone w' hw' w hmem he))
    · refine (h.known u n hn).imp (fun hn => hother hu ▸ hn) fun ⟨w', hw', he, hn⟩ => ?_
      have hne : w' ≠ w := fun hw => hu (he ▸ congrArg LoggedWrite.tx hw)
      obtain ⟨j, hj⟩ := List.mem_iff_getElem?.1 hw'
      refine ⟨w', List.mem_eraseIdx_iff_getElem?.2 ⟨j, fun hjp => ?_, hj⟩, he, hn⟩
      exact hne (Option.some.inj ((hjp ▸ hj).symm.trans hw))

theorem next (h : r.Counted known) (ht : r.Tracked) (hp : r.Poised count size)
    (hd : r.Does who r') :
    r'.Counted fun u n => known u n ∨ (who = some u ∧ r.last < n ∧ n ≤ r'.last) := by
  cases hd with
  | began level => exact (h.began ht level).mono fun u n hn => hn.resolve_right nofun
  | worked hr hw => exact h.worked hr hw
  | logged hr hw => exact h.logged hr hw
  | applied hw hlimit => exact (h.applied ht hp hw).mono fun u n hn => hn.resolve_right nofun
  | aside walks pins suspended later last known =>
    refine ⟨fun u => ?_, fun w hw => ?_, h.alone, fun u n hn => ?_⟩
    · exact known u ▸ Nat.le_trans (h.last u) last
    · exact known w.tx ▸ h.pending w hw
    · exact known u ▸ h.known u n (hn.resolve_right nofun)

/-- All along a run, with what the run puts into the log. -/
theorem run (h : r.Counted known) (ht : r.Tracked) (hp : r.Poised count size) {acts : List Act}
    (ho : r.Orderly names acts) :
    (r.run acts).Counted fun tx n => known tx n ∨ r.Appends tx n acts := by
  induction acts generalizing r known with
  | nil => exact h.mono fun tx n hn => hn.resolve_right id
  | cons a as ih =>
    obtain ⟨hperm, hfits, ho⟩ := ho
    have hdoes := ht.does hperm hfits
    have hnext := ih (h.next ht hp hdoes) (ht.next hdoes (logged_step ht.logged a)) (hp.step a) ho
    exact hnext.mono fun tx n => or_assoc.2

end Counted

end Running

end PagedStore
