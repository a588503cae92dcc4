import PagedStore.Proofs.Engine.Moves

set_option autoImplicit false

/-!
Runs of transactions: which changes to the contents a run made, in order and by whom, and what holds
all along it. Main statements: `Running.Sound.step` and `Running.Sound.run`.
-/

namespace PagedStore

theorem Steady.renew {names : String → Prop} {length length' : String → Nat}
    {finished finished' : TxId → Prop} {book : Book} {d : Desk}
    (h : Steady ⟨names, length, finished⟩ book d)
    (hl : ∀ n, length' n ≤ d.store.media.disk.blocks n)
    (hf : ∀ tx, finished tx → finished' tx) : Steady ⟨names, length', finished'⟩ book d :=
  ⟨h.mirrors, fun n _ => hl n, h.placed, h.touched, h.pinned,
    fun i f tx hi hm => (h.traced i f tx hi hm).imp_left (hf tx), h.signed, h.reached⟩

namespace Engine

variable {c : Terms} {tx : TxId} {e e' : Engine}

theorem moved_atDesk {f : Desk → Outcome Unit × Desk}
    (hm : Desk.Moves c tx e.desk [] (f e.desk).2) : Moved c tx e [] (e.atDesk f).2 :=
  ⟨hm, fun _ _ h => .inl h, .of_eq rfl rfl⟩

theorem moved_setStore {s : Store} (hm : Desk.Moves c tx e.desk [] (e.desk.setStore s)) :
    Moved c tx e [] (e.setStore s) := ⟨hm, fun _ _ h => .inl h, .of_eq rfl rfl⟩

theorem moved_setMedia {m : Media} (hm : Disk.Same e.media.disk m.disk) :
    Moved c tx e [] (e.setMedia m) := moved_setStore (Desk.Move.beside hm).moves

theorem Moved.trans {e'' : Engine} (h : Moved c tx e [] e') (h' : Moved c tx e' [] e'') :
    Moved c tx e [] e'' :=
  ⟨h.moves.before h'.moves, fun id s hs => (h'.parked id s hs).elim (h.parked id s) .inr,
    h.later.trans h'.later⟩

theorem moved_makeDurable (e : Engine) (u : TxId) : Moved c tx e [] (e.makeDurable u).2 := by
  have hflush : Moved c tx e [] (e.atDesk fun d => d.flushMine u).2 :=
    moved_atDesk (e.desk.moves_flushMine u)
  unfold makeDurable
  generalize e.atDesk (fun d => d.flushMine u) = r at hflush
  obtain ⟨q, e'⟩ := r
  cases q with
  | error err => exact hflush
  | ok _ =>
    have hdisk : (e'.media.force (e'.lastLsn u)).2.disk = e'.media.disk :=
      (Media.of_force (Prod.ext rfl rfl)).1
    exact hflush.trans (moved_setMedia (hdisk ▸ .refl _))

theorem finished_letGo (hb : e.Begun tx) (hok : (e.letGo tx).1 = .ok ()) :
    (e.letGo tx).2.isFinished tx := by
  unfold letGo at hok ⊢
  cases hr : e.atDesk fun d => d.releaseAll tx with
  | mk q e' =>
    have he' : e'.transactions = e.transactions := congrArg (fun r => r.2.transactions) hr.symm
    rw [hr] at hok
    cases q with
    | error err => cases hok
    | ok _ =>
      obtain ⟨t, ht⟩ := Option.isSome_iff_exists.1 hb
      have ht' : (e'.releaseLocks tx).transactions.find? tx = some t := by
        rw [← ht, ← he']
        rfl
      simp only [finish, updateTx, ht', isFinished, Registry.find?_insert_self, Option.map_some,
        Option.getD_some]

theorem moved_letGo (hf : (e.letGo tx).1 = .ok () → c.finished tx) :
    Moved c tx e [] (e.letGo tx).2 := by
  have hrelease : (e.desk.releaseAll tx).1 = .ok () → c.finished tx := by
    intro hok
    refine hf ?_
    unfold letGo atDesk
    cases hr : e.desk.releaseAll tx with
    | mk q d =>
      rw [hr] at hok
      obtain rfl : q = .ok () := hok
      simp only [hr]
  have hm : Moved c tx e [] (e.atDesk fun d => d.releaseAll tx).2 :=
    moved_atDesk (e.desk.moves_releaseAll hrelease)
  unfold letGo
  generalize e.atDesk (fun d => d.releaseAll tx) = r at hm
  obtain ⟨q, e'⟩ := r
  cases q with
  | error err => exact hm
  | ok _ =>
    refine hm.trans ⟨?_, fun id s hs => .inl ?_, ?_⟩
    · have hdesk : ((e'.releaseLocks tx).finish tx).desk = e'.desk := by
        unfold finish updateTx
        split <;> rfl
      dsimp only
      rw [hdesk]
      exact .refl _
    · exact suspended_updateTx (e'.releaseLocks tx) tx _ ▸ hs
    · obtain ⟨hn, hb, hfin⟩ := later_updateTx (e'.releaseLocks tx) tx
        (f := fun t => { t with finished := true }) fun _ _ => rfl
      exact ⟨hn, hb, hfin⟩

theorem finished_commit (hb : e.Begun tx) (hok : (e.commit tx).1 = .ok ()) :
    (e.commit tx).2.isFinished tx := by
  have hm : Moved ⟨fun _ => True, fun _ => 0, fun _ => True⟩ tx e [] (e.makeDurable tx).2 :=
    moved_makeDurable ..
  unfold commit at hok ⊢
  split
  · rename_i hf
    rw [if_pos hf] at hok
    cases hok
  · rename_i hf
    rw [if_neg hf] at hok
    generalize e.makeDurable tx = r at hm hok
    obtain ⟨q, e'⟩ := r
    cases q with
    | error err => cases hok
    | ok _ => exact finished_letGo ((hm.later.begun tx).2 hb) hok

theorem moved_commit (hf : (e.commit tx).1 = .ok () → c.finished tx) :
    Moved c tx e [] (e.commit tx).2 := by
  have hm : Moved c tx e [] (e.makeDurable tx).2 := moved_makeDurable ..
  unfold commit at hf ⊢
  split
  · exact ⟨.refl _, fun _ _ h => .inl h, .refl _⟩
  · rename_i hfin
    rw [if_neg hfin] at hf
    generalize e.makeDurable tx = r at hm hf
    obtain ⟨q, e'⟩ := r
    cases q with
    | error err => exact hm
    | ok _ => exact hm.trans (moved_letGo hf)

theorem finished_rollback (hb : e.Begun tx) (hok : (e.rollback tx).1 = .ok ()) :
    (e.rollback tx).2.isFinished tx := by
  unfold rollback at hok ⊢
  split
  · assumption
  · rename_i hf
    rw [if_neg hf] at hok
    exact finished_letGo hb hok

theorem moved_rollback (hf : (e.rollback tx).1 = .ok () → c.finished tx) :
    Moved c tx e [] (e.rollback tx).2 := by
  unfold rollback at hf ⊢
  split
  · exact ⟨.refl _, fun _ _ h => .inl h, .refl _⟩
  · rename_i hfin
    rw [if_neg hfin] at hf
    exact moved_letGo hf

theorem finished_drop (hb : e.Begun tx) (hok : (e.drop tx).1 = .ok ()) :
    (e.drop tx).2.isFinished tx := by
  unfold drop at hok ⊢
  split
  · assumption
  · rename_i hf
    rw [if_neg hf] at hok
    exact finished_letGo hb hok

theorem moved_drop (hf : (e.drop tx).1 = .ok () → c.finished tx) :
    Moved c tx e [] (e.drop tx).2 := by
  unfold drop at hf ⊢
  split
  · rename_i hfin
    rw [if_pos hfin] at hf
    exact moved_atDesk (e.desk.moves_releaseAll hf)
  · rename_i hfin
    rw [if_neg hfin] at hf
    exact moved_letGo hf

end Engine

theorem toList_map_signedBy (x : Option Change) (tx : TxId) :
    (x.map fun x => (tx, x)).toList = signedBy tx x.toList := by cases x <;> rfl

namespace Running

abbrev terms (r : Running) (names : String → Prop) (r' : Running) : Terms :=
  ⟨names, r.store.media.disk.blocks, fun tx => r'.engine.isFinished tx⟩

def change? (r : Running) : Act → Option (TxId × Change)
  | .request k q => (q.work.change? r.engine (r.engine.request k q)).map fun x => (k.tx, x)
  | .resume id expired =>
    (r.engine.suspended.find? id).bind fun s =>
      (s.wait.work.change? r.engine (r.engine.resume id expired)).map fun x => (s.tx, x)
  | .applyWrite place =>
    r.writes[place]?.bind fun w =>
      if (r.engine.applyWrite w).1.isOk then
        (r.store.blockAt? w.frame).map fun b => (w.tx, .put b w.offset w.value (some w.lsn))
      else none
  | _ => none

def changes (r : Running) : List Act → List (TxId × Change)
  | [] => []
  | a :: as => (r.change? a).toList ++ (r.step a).changes as

/-- A transaction that has begun and is not between a write's record and its frame. -/
def Ready (r : Running) (tx : TxId) : Prop := r.engine.Begun tx ∧ ∀ w ∈ r.writes, w.tx ≠ tx

instance (r : Running) (tx : TxId) : Decidable (r.Ready tx) :=
  inferInstanceAs (Decidable (r.engine.Begun tx ∧ ∀ w ∈ r.writes, w.tx ≠ tx))

/-- Transactions that have begun may act, and the pool, the log and the files may be asked for what
changes no block. What is asked for is of a file of the kind, and a frame is got only for a block
inside its file. -/
def Permits (names : String → Prop) (r : Running) : Act → Prop
  | .request k q => r.Ready k.tx ∧ q.work.Within (r.terms names r) ∧
      ∀ b, q = .pin (.block b) → names b.file ∧
        ∀ i, (r.engine.request k q).1 = .done (.ok (.frame i)) →
          b.number < r.store.media.disk.blocks b.file
  | .resume id expired => ∀ s, r.engine.suspended.find? id = some s →
      (∀ w ∈ r.writes, w.tx ≠ s.tx) ∧ ∀ b stage thenLock,
        s.wait = .onFrame ⟨.block b, stage⟩ thenLock →
          ∀ i, (r.engine.resume id expired).1 = .done (.ok (.frame i)) →
            b.number < r.store.media.disk.blocks b.file
  | .logWrite tx _ _ _ | .unpin tx _ | .commit tx | .rollback tx | .drop tx => r.Ready tx
  | .enroll _ _ | .poolPin _ | .poolUnpin _ => False
  | _ => True

theorem permits_pin {names : String → Prop} {r : Running} {k : Task} {b : BlockId}
    (hr : r.Ready k.tx) (hn : names b.file) (hb : b.number < r.store.media.disk.blocks b.file) :
    r.Permits names (.request k (.pin (.block b))) := by
  refine ⟨hr, trivial, fun c hc => ?_⟩
  cases hc
  exact ⟨hn, fun _ _ => hb⟩

theorem permits_append {names : String → Prop} {r : Running} {k : Task} {file : String}
    (format : Formatter) (hr : r.Ready k.tx) (hn : names file) :
    r.Permits names (.request k (.append file format)) := by
  refine ⟨hr, hn, fun c hc => ?_⟩
  cases hc

theorem permits_write {names : String → Prop} {r : Running} {k : Task} (record : RecordId)
    (offset : Nat) (v : Value) (hr : r.Ready k.tx) :
    r.Permits names (.request k (.write record offset v)) := by
  refine ⟨hr, trivial, fun c hc => ?_⟩
  cases hc

/-- A run whose positions in the log fit a word. -/
def Orderly (names : String → Prop) (r : Running) : List Act → Prop
  | [] => True
  | a :: as => r.Permits names a ∧ (r.step a).store.media.log.last < wordLimit 8 ∧
      (r.step a).Orderly names as

/-- What holds between any two acts. -/
structure Sound (names : String → Prop) (book : Book) (r : Running) : Prop where
  steady : Steady (r.terms names r) book r.engine.desk
  parked : ∀ id s, r.engine.suspended.find? id = some s →
    r.engine.Begun s.tx ∧ s.wait.Within (r.terms names r)
  numbered : r.engine.nextTx ≠ 0
  begun : ∀ tx, r.engine.Begun tx → tx.num ≠ 0 ∧ tx.num < r.engine.nextTx
  logged : r.Logged
  pending : ∀ w ∈ r.writes, r.engine.Begun w.tx ∧
    ∃ b h, (r.engine.desk.pinsOf w.tx).holds.find? b = some h ∧ h.frame = w.frame

/-- A run goes on with some changes, which could be made. -/
structure Goes (names : String → Prop) (book : Book) (es : List (TxId × Change)) (r' : Running) :
    Prop where
  sound : r'.Sound names (book.after es)
  takes : book.flat.TakesAll names (es.map Prod.snd)

namespace Sound

variable {names : String → Prop} {book : Book} {r r' : Running} {tx : TxId} {cs : List Change}

theorem has (h : r.Sound names book) (u : TxId) :
    ∀ b k, (r.engine.desk.pinsOf u).holds.find? b = some k → (r.terms names r').Has b := by
  intro b k hk
  obtain ⟨f, hf, hfb⟩ := Option.bind_eq_some_iff.1 (h.steady.placed u b k hk)
  have hs := h.steady.mirrors.shows hf hfb
  exact ⟨hs.named, hs.inside⟩

theorem moved (hd : Distinct names) (h : r.Sound names book) {fin : TxId → Prop}
    (hm : Engine.Moved ⟨names, r.store.media.disk.blocks, fin⟩ tx r.engine cs r'.engine)
    (hfin : ∀ u, r.engine.isFinished u → fin u) (hfin' : ∀ u, fin u → r'.engine.isFinished u)
    (hb : r.engine.Begun tx ∨ r'.engine.suspended = r.engine.suspended) (hl : r'.Logged)
    (hw : ∀ w ∈ r'.writes, r.engine.Begun w.tx ∧
      ∃ b k, (r'.engine.desk.pinsOf w.tx).holds.find? b = some k ∧ k.frame = w.frame) :
    Goes names book (signedBy tx cs) r' := by
  obtain ⟨hs, htakes⟩ := (h.steady.renew (fun _ => Nat.le_refl _) hfin).moves hd hm.moves
  refine ⟨?_, (map_snd_signedBy tx cs).symm ▸ htakes⟩
  refine ⟨hs.renew (fun _ => Nat.le_refl _) hfin', fun n s hf => ?_,
    hm.later.next ▸ h.numbered, fun u hu => ?_, hl,
    fun w hw' => ⟨(hm.later.begun _).2 (hw w hw').1, (hw w hw').2⟩⟩
  · have hmono : ∀ c : Terms, c.names = names → c.length = r.store.media.disk.blocks →
        s.wait.Within c → s.wait.Within (r'.terms names r') := by
      rintro ⟨_, _, _⟩ rfl rfl
      cases s.wait with
      | onLock ticket rest work => cases work <;> exact fun h => h
      | onFrame u thenLock =>
        rintro ⟨hn, hlock, hstage⟩
        refine ⟨hn, hlock, fun b hb => ?_⟩
        obtain ⟨hnb, hlt⟩ := hstage b hb
        exact ⟨hnb, Nat.lt_of_lt_of_le hlt (hs.length _ hnb)⟩
    have hold : r.engine.suspended.find? n = some s →
        r'.engine.Begun s.tx ∧ s.wait.Within (r'.terms names r') := by
      intro hold
      obtain ⟨hbs, hwithin⟩ := h.parked n s hold
      exact ⟨(hm.later.begun _).2 hbs, hmono _ rfl rfl hwithin⟩
    rcases hb with hb | hsame
    · rcases hm.parked n s hf with h' | ⟨htx, hnew⟩
      · exact hold h'
      · exact ⟨(hm.later.begun _).2 (htx ▸ hb), hmono _ rfl rfl hnew⟩
    · exact hold (hsame ▸ hf)
  · rw [hm.later.next]
    exact h.begun u ((hm.later.begun u).1 hu)

theorem pending_of_ready (h : r.Sound names book) {e : Engine} (hr : ∀ w ∈ r.writes, w.tx ≠ tx)
    {c : Terms} (hm : Desk.Moves c tx r.engine.desk cs e.desk) : ∀ w ∈ r.writes,
      r.engine.Begun w.tx ∧
        ∃ b k, (e.desk.pinsOf w.tx).holds.find? b = some k ∧ k.frame = w.frame := by
  intro w hw
  rw [hm.pinsOf_of_ne (hr w hw)]
  exact h.pending w hw

theorem aside (hd : Distinct names) (h : r.Sound names book) {e : Engine}
    (hm : Engine.Moved (r.terms names r) ⟨0⟩ r.engine [] e) (hp : e.desk.pins = r.engine.desk.pins)
    (hs : e.suspended = r.engine.suspended) (hl : (r.on e).Logged) :
    Goes names book (signedBy ⟨0⟩ []) (r.on e) := by
  refine h.moved hd hm (fun _ h => h) hm.later.finished (.inr hs) hl fun w hw => ?_
  rw [Desk.pinsOf, show (r.on e).engine.desk.pins = _ from hp, ← Desk.pinsOf]
  exact h.pending w hw

theorem acted (hd : Distinct names) (h : r.Sound names book) {e : Engine} (hr : r.Ready tx)
    (hm : Engine.Moved (r.terms names (r.on e)) tx r.engine [] e) (hl : (r.on e).Logged) :
    Goes names book (signedBy tx []) (r.on e) :=
  h.moved hd hm hm.later.finished (fun _ h => h) (.inl hr.1) hl
    (h.pending_of_ready hr.2 hm.moves)

theorem begin (h : r.Sound names book) (level : Isolation) :
    (r.on (r.engine.begin level).2).Sound names book := by
  have hnew : ¬ r.engine.Begun ⟨r.engine.nextTx⟩ := fun hb =>
    Nat.lt_irrefl _ (h.begun _ hb).2
  have hkept : ∀ u, r.engine.Begun u → (r.engine.begin level).2.transactions.find? u =
      r.engine.transactions.find? u := fun u hu =>
    Registry.find?_insert_of_ne _ _ fun he => hnew (he ▸ hu)
  have hbegun : ∀ u, r.engine.Begun u → (r.engine.begin level).2.Begun u := by
    intro u hu
    rw [Engine.Begun, hkept u hu]
    exact hu
  refine ⟨h.steady.renew (fun _ => Nat.le_refl _) fun u hu => ?_,
    fun n s hf => ⟨hbegun _ (h.parked n s hf).1, (h.parked n s hf).2⟩, Nat.succ_ne_zero _,
    fun u hu => ?_, h.logged, fun w hw => ⟨hbegun _ (h.pending w hw).1, (h.pending w hw).2⟩⟩
  · have hbu : r.engine.Begun u := by
      unfold Engine.isFinished at hu
      unfold Engine.Begun
      cases ht : r.engine.transactions.find? u with
      | none =>
        rw [ht] at hu
        cases hu
      | some t => rfl
    show (r.engine.begin level).2.isFinished u
    rw [Engine.isFinished, hkept u hbu]
    exact hu
  · by_cases he : u = ⟨r.engine.nextTx⟩
    · subst he
      exact ⟨h.numbered, Nat.lt_succ_self _⟩
    · have hu' : r.engine.Begun u := by
        rw [Engine.Begun, ← Registry.find?_insert_of_ne _ _ he]
        exact hu
      exact ⟨(h.begun u hu').1, Nat.lt_succ_of_lt (h.begun u hu').2⟩

theorem request (hd : Distinct names) (h : r.Sound names book) {k : Task} {q : Request}
    (hp : r.Permits names (.request k q))
    (hfits : (r.step (.request k q)).store.media.log.last < wordLimit 8) :
    Goes names book (r.change? (.request k q)).toList (r.step (.request k q)) := by
  obtain ⟨hr, hw, hblock⟩ := hp
  have hdid := Engine.did_request hd h.steady k (h.begun _ hr.1).1 (h.has k.tx) hw
    (fun b hb => ⟨(hblock b hb).1, fun i hi => ⟨(hblock b hb).1, (hblock b hb).2 i hi⟩⟩) hfits
  rw [change?, toList_map_signedBy]
  exact h.moved hd hdid (fun _ h => h) hdid.later.finished (.inl hr.1) (logged_step h.logged _)
    (h.pending_of_ready hr.2 hdid.moves)

theorem resume (hd : Distinct names) (h : r.Sound names book) {id : Nat} {expired : Bool}
    (hp : r.Permits names (.resume id expired))
    (hfits : (r.step (.resume id expired)).store.media.log.last < wordLimit 8) :
    Goes names book (r.change? (.resume id expired)).toList (r.step (.resume id expired)) := by
  cases hf : r.engine.suspended.find? id with
  | none =>
    have hsame : r.step (.resume id expired) = r := by
      simp only [Running.step, Engine.resume, hf]
      rfl
    rw [change?, hf, hsame]
    exact ⟨h, trivial⟩
  | some s =>
    obtain ⟨hidle, hblock⟩ := hp s hf
    obtain ⟨hb, hw⟩ := h.parked id s hf
    have hin : ∀ b stage thenLock, s.wait = .onFrame ⟨.block b, stage⟩ thenLock → ∀ i,
        (r.engine.resume id expired).1 = .done (.ok (.frame i)) → (r.terms names r).Has b := by
      intro b stage thenLock hs i hi
      refine ⟨?_, hblock b stage thenLock hs i hi⟩
      rw [hs] at hw
      exact hw.1
    have hdid := Engine.did_resume hd h.steady hf (h.begun _ hb).1 (h.has s.tx) hw hin hfits
    rw [change?, hf, Option.bind_some, toList_map_signedBy]
    exact h.moved hd hdid (fun _ h => h) hdid.later.finished (.inl hb) (logged_step h.logged _)
      (h.pending_of_ready hidle hdid.moves)

theorem logWrite (hd : Distinct names) (h : r.Sound names book) (hr : r.Ready tx)
    (record : RecordId) (offset : Nat) (v : Value) :
    Goes names book (signedBy tx []) (r.step (.logWrite tx record offset v)) := by
  have hl := logged_step h.logged (.logWrite tx record offset v)
  obtain ⟨log, hlog⟩ := r.engine.logWrite_snd tx record offset v
  have hm : Engine.Moved (r.terms names r) tx r.engine [] (r.engine.setLog log) :=
    Engine.moved_setMedia (.refl _)
  have hold := h.pending_of_ready hr.2 hm.moves
  simp only [Running.step] at hl ⊢
  cases hw : r.engine.logWrite tx record offset v with
  | mk q e =>
    rw [hw] at hlog hl
    obtain rfl : e = r.engine.setLog log := hlog
    cases q with
    | error err =>
      show Goes names book (signedBy tx []) (r.on (r.engine.setLog log))
      exact h.moved hd hm (fun _ h => h) hm.later.finished (.inl hr.1) hl hold
    | ok w =>
      obtain ⟨htx, -, -, -, k, hk, hf⟩ := Engine.logWrite_ok hw
      show Goes names book (signedBy tx []) ⟨r.engine.setLog log, r.writes ++ [w]⟩
      refine h.moved hd hm (fun _ h => h) hm.later.finished (.inl hr.1) hl fun w' hw' => ?_
      rcases List.mem_append.1 hw' with hmem | hmem
      · exact hold w' hmem
      · obtain rfl := List.mem_singleton.1 hmem
        exact ⟨htx ▸ hr.1, record.block, k, htx ▸ hk, hf⟩

theorem applyWrite (hd : Distinct names) (h : r.Sound names book) {place : Nat}
    (hfits : (r.step (.applyWrite place)).store.media.log.last < wordLimit 8) :
    Goes names book (r.change? (.applyWrite place)).toList (r.step (.applyWrite place)) := by
  have hl := logged_step h.logged (.applyWrite place)
  cases hw : r.writes[place]? with
  | none =>
    simp only [Running.step, change?, hw]
    exact ⟨h, trivial⟩
  | some w =>
    have hmem := List.mem_of_getElem? hw
    obtain ⟨hb, b, k, hk, hf⟩ := h.pending w hmem
    have hfit : w.lsn < wordLimit 8 := by
      refine Nat.lt_of_le_of_lt (h.logged w hmem) ?_
      simp only [Running.step, hw, store] at hfits
      exact Engine.log_applyWrite r.engine w ▸ hfits
    have hmoves : Desk.Moves (r.terms names r) w.tx _ _ _ :=
      Engine.moves_applyWrite (h.begun _ hb).1 hk hf hfit
    have hm : Engine.Moved (r.terms names r) w.tx r.engine _ (r.engine.applyWrite w).2 :=
      ⟨hmoves, fun n s hs => .inl (Engine.suspended_applyWrite r.engine w ▸ hs),
        r.engine.later_applyWrite w⟩
    have hplaced := h.steady.placed w.tx b k hk
    have hchange : (r.change? (.applyWrite place)).toList = signedBy w.tx
        (if (r.engine.applyWrite w).1.isOk then
          [.put b w.offset w.value (some w.lsn)] else []) := by
      simp only [change?, hw, Option.bind_some, store, ← hf, hplaced, Option.map_some]
      split <;> rfl
    rw [hchange]
    simp only [Running.step, hw] at hl ⊢
    refine h.moved hd hm (fun _ h => h) hm.later.finished (.inl hb) hl fun w' hw' => ?_
    have hpins : (r.engine.applyWrite w).2.desk.pins = r.engine.desk.pins :=
      r.engine.pins_applyWrite w
    rw [Desk.pinsOf, hpins, ← Desk.pinsOf]
    exact h.pending w' (List.mem_of_mem_eraseIdx hw')

theorem step (hd : Distinct names) (h : r.Sound names book) {a : Act} (hp : r.Permits names a)
    (hfits : (r.step a).store.media.log.last < wordLimit 8) :
    Goes names book (r.change? a).toList (r.step a) := by
  have hl := logged_step h.logged a
  cases a with
  | begin level => exact ⟨h.begin level, trivial⟩
  | enroll tx level => exact hp.elim
  | request k q => exact h.request hd hp hfits
  | resume id expired => exact h.resume hd hp hfits
  | logWrite tx record offset v => exact h.logWrite hd hp record offset v
  | applyWrite place => exact h.applyWrite hd hfits
  | unpin tx b =>
    exact h.acted hd hp (Engine.moved_atDesk (Desk.moves_unpin _ b)) hl
  | endStatement tx => exact h.aside hd ⟨.refl _, fun _ _ h => .inl h, .of_eq rfl rfl⟩ rfl rfl hl
  | releaseLocks tx => exact h.aside hd ⟨.refl _, fun _ _ h => .inl h, .of_eq rfl rfl⟩ rfl rfl hl
  | commit tx => exact h.acted hd hp (Engine.moved_commit (Engine.finished_commit hp.1)) hl
  | rollback tx => exact h.acted hd hp (Engine.moved_rollback (Engine.finished_rollback hp.1)) hl
  | drop tx => exact h.acted hd hp (Engine.moved_drop (Engine.finished_drop hp.1)) hl
  | flushMine tx => exact h.aside hd (Engine.moved_atDesk (Desk.moves_flushMine _ tx)) rfl rfl hl
  | poolPin w => exact hp.elim
  | poolUnpin i => exact hp.elim
  | flush i => exact h.aside hd (Engine.moved_setStore (Desk.Move.flushed i).moves) rfl rfl hl
  | flushAll => exact h.aside hd (Engine.moved_setStore (Desk.moves_flushWhere _ _)) rfl rfl hl
  | flushFor tx => exact h.aside hd (Engine.moved_setStore (Desk.moves_flushWhere _ _)) rfl rfl hl
  | append record => exact h.aside hd (Engine.moved_setMedia (.refl _)) rfl rfl hl
  | flushLog lsn => exact h.aside hd (Engine.moved_setMedia (.refl _)) rfl rfl hl
  | length file => exact h.aside hd (Engine.moved_setMedia (Disk.same_length _ file)) rfl rfl hl
  | outage o => exact h.aside hd (Engine.moved_setMedia (.refl _)) rfl rfl hl
  | fault cause =>
    exact h.aside hd (Engine.moved_setMedia ⟨rfl, fun _ => rfl⟩) rfl rfl hl
  | deliver => exact h.aside hd ⟨.refl _, fun _ _ h => .inl h, .of_eq rfl rfl⟩ rfl rfl hl

theorem run (hd : Distinct names) (h : r.Sound names book) {acts : List Act}
    (ho : r.Orderly names acts) : Goes names book (r.changes acts) (r.run acts) := by
  induction acts generalizing r book with
  | nil => exact ⟨h, trivial⟩
  | cons a as ih =>
    obtain ⟨hp, hfits, ho⟩ := ho
    obtain ⟨hs, ht⟩ := h.step hd hp hfits
    obtain ⟨hs', ht'⟩ := ih hs ho
    rw [changes]
    refine ⟨?_, ?_⟩
    · rw [Book.after_append]
      exact hs'
    · rw [List.map_append]
      exact ht.append (book.flat_after _ ▸ ht')

end Sound

theorem sound_create {names : String → Prop} {settings : Settings} {disk : Disk} {e : Engine}
    (h : Engine.create settings disk = .ok e) :
    Sound names ⟨Flat.ofDisk (disk.reopen settings.blockSize), fun _ => none⟩ ⟨e, []⟩ := by
  obtain ⟨pool, locks, hpool, -, rfl⟩ := Engine.create_eq_ok h
  obtain ⟨-, -, hframes⟩ := Pool.create_eq_ok hpool
  have hm : Mirrors names (Flat.ofDisk (disk.reopen settings.blockSize))
      (Store.over (disk.reopen settings.blockSize) .empty pool) := mirrors_over hpool
  refine ⟨⟨hm, fun _ _ => Nat.le_refl _, nofun, nofun, fun i f _ => Nat.zero_le _, ?_, ?_, ?_⟩,
    nofun, Nat.one_ne_zero, nofun, nofun, nofun⟩
  · intro i f tx hf htx
    rw [hframes hf] at htx
    cases htx
  · intro i f b hf hb
    rw [hframes hf] at hb
    cases hb
  · intro i b hb
    obtain ⟨f, hf, hfb⟩ := Option.bind_eq_some_iff.1 hb
    rw [hframes hf] at hfb
    cases hfb

end Running

end PagedStore
