import PagedStore.Proofs.Engine.Inert
import PagedStore.Proofs.Engine.Redo
import PagedStore.Proofs.Pins.Traced
import PagedStore.Proofs.Pool.Failed

set_option autoImplicit false

/-!
What an operation comes to for its transaction, whatever names the files go by: moves at the desk,
and at most one record in the log, whose position the transaction knows. Main statements:
`Desk.Walks.kept`, `Engine.worked_request` and `Engine.worked_resume`.
-/

namespace PagedStore

/-- A frame without a block has nothing to write back, and whoever changed one last has a record. -/
structure Store.Tidy (s : Store) : Prop where
  housed : ∀ {i : Nat} {f : Frame}, s.pool.frames[i]? = some f → f.block = none →
    f.dirty = false ∧ f.fresh = false
  stamped : ∀ {i : Nat} {f : Frame} {tx : TxId}, s.pool.frames[i]? = some f →
    f.modifiedBy = some tx → 0 < f.lsn

def Store.Positive (s : Store) : Prop := ∀ (i : Nat) (f : Frame), s.pool.frames[i]? = some f →
  ∀ tx, f.modifiedBy = some tx → 0 < f.lsn

theorem Store.tidy_iff {s : Store} : s.Tidy ↔ s.Housed ∧ s.Positive :=
  ⟨fun h => ⟨fun _ _ => h.housed, fun _ _ hf _ => h.stamped hf⟩,
    fun h => ⟨h.1 _ _, fun hf => h.2 _ _ hf _⟩⟩

theorem Store.Tidy.allHoused {s : Store} (h : s.Tidy) : s.Housed := (tidy_iff.1 h).1

theorem Store.Tidy.allPositive {s : Store} (h : s.Tidy) : s.Positive := (tidy_iff.1 h).2

theorem Store.kept_positive : Store.Kept Store.Positive := kept_frames {
  core := fun hc hs tx hm => by
    obtain ⟨-, -, -, -, -, hfm, hl⟩ := Frame.core_eq_iff.1 hc
    exact hl ▸ hs tx (hfm.trans hm)
  saved := fun hs => hs
  vacated := fun _ hs => hs
  read := fun _ _ _ _ => nofun
  added := fun _ _ _ _ => nofun }

theorem Store.kept_tidy : Store.Kept Store.Tidy where
  still hst hs :=
    tidy_iff.2 ⟨kept_housed.still hst hs.allHoused, kept_positive.still hst hs.allPositive⟩
  flush i hs := tidy_iff.2 ⟨kept_housed.flush i hs.allHoused, kept_positive.flush i hs.allPositive⟩
  refill w hi hc hs := tidy_iff.2
    ⟨kept_housed.refill w hi hc hs.allHoused, kept_positive.refill w hi hc hs.allPositive⟩

def Change.Recorded : Change → Prop
  | .put _ _ _ lsn? => ∀ n ∈ lsn?, 0 < n
  | .add _ _ => True

namespace Desk

variable {c : Terms} {finished : TxId → Prop} {tx : TxId} {d d' d'' : Desk} {cs : List Change}

theorem Traced.tidy_move (h : d.Traced c.finished) (m : Move c tx d cs d')
    (hcs : ∀ x ∈ cs, x.Recorded) (ht : d.store.Tidy) : d'.store.Tidy := by
  have hkept := Store.kept_tidy
  cases m with
  | line l => exact ht
  | missed hw hr => exact hkept.pin ht _
  | got refs hw hr hb => exact hkept.pin ht _
  | recounted refs hb => exact ht
  | unpinned hb => exact hkept.unpin ht _
  | emptied => exact hkept.unpinFrames ht _
  | released hf => exact hkept.unpinFrames ht _
  | flushed i => exact hkept.flush i ht
  | beside hm => exact ⟨ht.housed, ht.stamped⟩
  | @wrote b k offset v lsn s htx hb hl hw =>
    have hlsn : 0 < lsn := hcs _ (List.mem_singleton_self _) lsn rfl
    have hedit := Store.related_editFrame hw
    have hblock : ∀ {f g : Frame}, d.store.pool.frames[k.frame]? = some f →
        f.writeLogged offset v tx lsn = .ok g → g.block = some b ∧ 0 < g.lsn := by
      intro f g hf hg
      have hplaced := h.placed tx b k hb
      rw [Store.blockAt?_of_frame hf] at hplaced
      refine ⟨(Frame.of_writeLogged hg).2.1.trans hplaced, ?_⟩
      rw [Frame.writeLogged_eq] at hg
      obtain ⟨data, hdata⟩ : ∃ data, Page.write f.data offset v = .ok data := by
        cases hdata : Page.write f.data offset v with
        | error e =>
          rw [hdata] at hg
          cases hg
        | ok data => exact ⟨data, rfl⟩
      rw [hdata] at hg
      cases hg
      exact Nat.lt_of_lt_of_le hlsn (Nat.le_max_right ..)
    constructor
    · intro j g hg hn
      obtain ⟨f, hf, hne, heq⟩ := hedit.before hg
      by_cases hj : j = k.frame
      · subst hj
        rw [(hblock hf (heq rfl)).1] at hn
        cases hn
      · obtain rfl := hne hj
        exact ht.housed hf hn
    · intro j g u hg hm
      obtain ⟨f, hf, hne, heq⟩ := hedit.before hg
      by_cases hj : j = k.frame
      · subst hj
        exact (hblock hf (heq rfl)).2
      · obtain rfl := hne hj
        exact ht.stamped hf hm

inductive Walks (finished : TxId → Prop) (tx : TxId) : Desk → Desk → Prop
  | refl (d : Desk) : Walks finished tx d d
  | snoc {d d' d'' : Desk} {c : Terms} {cs : List Change} (h : Walks finished tx d d')
      (hc : c.finished = finished) (hcs : ∀ x ∈ cs, x.Recorded) (m : Move c tx d' cs d'') :
      Walks finished tx d d''

theorem Moves.walks (m : Moves c tx d cs d') (hc : c.finished = finished)
    (hcs : ∀ x ∈ cs, x.Recorded) : Walks finished tx d d' := by
  induction m with
  | refl => exact .refl _
  | snoc _ m ih =>
    exact .snoc (ih fun x hx => hcs x (List.mem_append_left _ hx)) hc
      (fun x hx => hcs x (List.mem_append_right _ hx)) m

theorem Walks.trans (h : Walks finished tx d d') (h' : Walks finished tx d' d'') :
    Walks finished tx d d'' := by
  induction h' with
  | refl => exact h
  | snoc _ hc hcs m ih => exact .snoc ih hc hcs m

theorem Walks.kept (h : Walks finished tx d d') (hd : d.Traced finished) (ht : d.store.Tidy) :
    d'.Traced finished ∧ d'.store.Tidy := by
  induction h with
  | refl => exact ⟨hd, ht⟩
  | snoc _ hc hcs m ih =>
    obtain ⟨hd', ht'⟩ := ih
    subst hc
    exact ⟨hd'.move m, hd'.tidy_move m hcs ht'⟩

theorem Walks.pinsOf_of_ne (h : Walks finished tx d d') {u : TxId} (hu : u ≠ tx) :
    d'.pinsOf u = d.pinsOf u := by
  induction h with
  | refl => rfl
  | snoc _ _ _ m ih => exact (m.moves.pinsOf_of_ne hu).trans ih

theorem recorded_changes (w : Wanted) (p : PinProgress) : ∀ x ∈ p.changes w, x.Recorded := by
  have hw : ∀ x ∈ w.changes, x.Recorded := by
    cases w with
    | block b => exact nofun
    | fresh file format =>
      intro x hx
      cases List.mem_singleton.1 hx
      trivial
  cases p with
  | done r =>
    cases r with
    | ok i => exact hw
    | error e => exact nofun
  | waits u => exact nofun
  | sleepsOn u => exact nofun

theorem walks_pin (d : Desk) (tx : TxId) (w : Wanted) : Walks finished tx d (d.pin tx w).2 := by
  obtain ⟨c, hc, m⟩ := d.exists_moves_pin tx w finished
  exact m.walks hc (recorded_changes w _)

theorem walks_resume (d : Desk) (tx : TxId) (u : PinWait) (expired : Bool) :
    Walks finished tx d (d.resume tx u expired).2 := by
  obtain ⟨c, hc, m⟩ := d.exists_moves_resume tx u expired finished
  exact m.walks hc (recorded_changes u.wanted _)

end Desk

namespace Engine

variable {finished : TxId → Prop} {tx u : TxId} {e e' e'' : Engine}

theorem lastLsn_updateTx_of_ne (e : Engine) (f : Transaction → Transaction) (hu : u ≠ tx) :
    (e.updateTx tx f).lastLsn u = e.lastLsn u := by
  unfold updateTx
  split
  · rfl
  · rw [lastLsn, lastLsn, Registry.find?_insert_of_ne _ _ hu]

theorem lastLsn_finish (e : Engine) (tx u : TxId) : (e.finish tx).lastLsn u = e.lastLsn u := by
  by_cases hu : u = tx
  · subst hu
    unfold finish updateTx
    split
    · rfl
    · rename_i t ht
      rw [lastLsn, lastLsn, Registry.find?_insert_self, ht]
      rfl
  · exact lastLsn_updateTx_of_ne e _ hu

theorem lastLsn_letGo (e : Engine) (tx u : TxId) : (e.letGo tx).2.lastLsn u = e.lastLsn u := by
  have hr : (e.atDesk fun d => d.releaseAll tx).2.lastLsn u = e.lastLsn u := rfl
  unfold letGo
  generalize e.atDesk (fun d => d.releaseAll tx) = r at hr
  obtain ⟨r, e'⟩ := r
  cases r with
  | error err => exact hr
  | ok _ => exact (lastLsn_finish _ tx u).trans hr

theorem lastLsn_makeDurable (e : Engine) (tx u : TxId) :
    (e.makeDurable tx).2.lastLsn u = e.lastLsn u := by
  have hf : (e.atDesk fun d => d.flushMine tx).2.lastLsn u = e.lastLsn u := rfl
  unfold makeDurable
  generalize e.atDesk (fun d => d.flushMine tx) = r at hf
  obtain ⟨r, e'⟩ := r
  cases r <;> exact hf

theorem lastLsn_commit (e : Engine) (tx u : TxId) : (e.commit tx).2.lastLsn u = e.lastLsn u := by
  have hm := e.lastLsn_makeDurable tx u
  unfold commit
  split
  · rfl
  · generalize e.makeDurable tx = r at hm
    obtain ⟨r, e'⟩ := r
    cases r with
    | error err => exact hm
    | ok _ => exact (e'.lastLsn_letGo tx u).trans hm

theorem lastLsn_rollback (e : Engine) (tx u : TxId) :
    (e.rollback tx).2.lastLsn u = e.lastLsn u := by
  unfold rollback
  split
  · rfl
  · exact e.lastLsn_letGo tx u

theorem lastLsn_drop (e : Engine) (tx u : TxId) : (e.drop tx).2.lastLsn u = e.lastLsn u := by
  unfold drop
  split
  · rfl
  · exact e.lastLsn_letGo tx u

structure Signs (tx : TxId) (e e' : Engine) : Prop where
  others : ∀ u, u ≠ tx → e'.lastLsn u = e.lastLsn u
  own : (e'.media.log.last = e.media.log.last ∧ e'.lastLsn tx = e.lastLsn tx) ∨
    (e.media.log.last < e'.media.log.last ∧ e'.lastLsn tx = e'.media.log.last)

theorem Signs.of_same (hl : e'.media.log.last = e.media.log.last)
    (ht : ∀ u, e'.lastLsn u = e.lastLsn u) : Signs tx e e' :=
  ⟨fun u _ => ht u, .inl ⟨hl, ht tx⟩⟩

theorem Signs.trans (h : Signs tx e e') (h' : Signs tx e' e'') : Signs tx e e'' := by
  refine ⟨fun u hu => (h'.others u hu).trans (h.others u hu), ?_⟩
  rcases h'.own with ⟨hl', ht'⟩ | ⟨hl', ht'⟩
  · rw [hl', ht']
    exact h.own
  · rcases h.own with ⟨hl, -⟩ | ⟨hl, -⟩
    · exact .inr ⟨hl ▸ hl', ht'⟩
    · exact .inr ⟨Nat.lt_trans hl hl', ht'⟩

structure Worked (finished : TxId → Prop) (tx : TxId) (e e' : Engine) : Prop where
  walks : Desk.Walks finished tx e.desk e'.desk
  parked : ∀ id s, e'.suspended.find? id = some s →
    e.suspended.find? id = some s ∨ s.tx = tx
  later : e.Later e'
  signs : Signs tx e e'

theorem Worked.trans (h : Worked finished tx e e') (h' : Worked finished tx e' e'') :
    Worked finished tx e e'' :=
  ⟨h.walks.trans h'.walks, fun id s hs => (h'.parked id s hs).elim (h.parked id s) .inr,
    h.later.trans h'.later, h.signs.trans h'.signs⟩

theorem worked_moved {c : Terms} (h : Moved c tx e [] e') (hl : e'.records = e.records)
    (ht : ∀ u, e'.lastLsn u = e.lastLsn u) : Worked c.finished tx e e' :=
  ⟨h.moves.walks rfl nofun, fun id s hs => (h.parked id s hs).imp_right And.left, h.later,
    .of_same (congrArg List.length hl) ht⟩

theorem worked_desk {d : Desk} (hw : Desk.Walks finished tx e.desk d)
    (hl : d.store.media.log.records = e.records) : Worked finished tx e { e with desk := d } :=
  ⟨hw, fun _ _ h => .inl h, .of_eq rfl rfl, .of_same (congrArg List.length hl) fun _ => rfl⟩

theorem worked_locks (e : Engine) (l : LockTable) :
    Worked finished tx e { e with locks := l } :=
  ⟨.refl _, fun _ _ h => .inl h, .of_eq rfl rfl, .of_same rfl fun _ => rfl⟩

theorem worked_ends (e : Engine) (k : Task) (q : Outcome Answer) :
    Worked finished k.tx e (e.ends k q).2 :=
  ⟨.refl _, fun _ _ h => .inl (suspended_ends e k q h), .of_eq rfl rfl, .of_same rfl fun _ => rfl⟩

theorem worked_suspend (e : Engine) (k : Task) (wait : Wait) :
    Worked finished k.tx e (e.suspend k wait) := by
  refine ⟨.refl _, fun id s h => ?_, .of_eq rfl rfl, .of_same rfl fun _ => rfl⟩
  rw [suspend, Registry.find?_insert] at h
  split at h
  · cases h
    exact .inr rfl
  · exact .inl h

section

variable (k : Task)

theorem worked_locked (e : Engine) (steps : List LockStep) (work : Work)
    {next : Engine → Progress × Engine}
    (hnext : ∀ l, e.locked k steps work next = next { e with locks := l } →
      Worked finished k.tx { e with locks := l } (next { e with locks := l }).2) :
    Worked finished k.tx e (e.locked k steps work next).2 := by
  unfold locked at hnext ⊢
  split at hnext
  · exact (e.worked_locks _).trans (hnext _ rfl)
  · exact (e.worked_locks _).trans (worked_ends _ k _)
  · exact (e.worked_locks _).trans (worked_suspend _ k _)

theorem worked_pinned (thenLock : Bool) {r : PinProgress × Desk}
    (hw : Desk.Walks finished k.tx e.desk r.2) (hl : r.2.store.media.log.records = e.records) :
    Worked finished k.tx e (e.pinned k thenLock r).2 := by
  refine (worked_desk hw hl).trans ?_
  unfold pinned
  dsimp only
  split
  · exact worked_suspend _ k _
  · exact worked_suspend _ k _
  · exact worked_ends _ k _
  · split
    · split
      · exact worked_locked k _ _ _ fun _ _ => worked_ends _ k _
      · exact worked_ends _ k _
    · exact worked_ends _ k _

theorem worked_pin (e : Engine) (thenLock : Bool) (w : Wanted) :
    Worked finished k.tx e (e.pinned k thenLock (e.desk.pin k.tx w)).2 :=
  worked_pinned k thenLock (e.desk.walks_pin k.tx w)
    ((Store.kept_records e.records).deskPin rfl k.tx w)

end

theorem lastLsn_applyWrite {w : LoggedWrite} (hb : e.Begun w.tx) (hok : (e.applyWrite w).1.isOk) :
    (e.applyWrite w).2.lastLsn w.tx = w.lsn := by
  obtain ⟨t, ht⟩ := Option.isSome_iff_exists.1 hb
  unfold applyWrite at hok ⊢
  split
  · rename_i err s hr
    rw [hr] at hok
    cases hok
  · rename_i s hr
    have ht' : ((e.setStore s).note (.applied w.frame w.lsn)).transactions.find? w.tx = some t := ht
    simp only [updateTx, ht', lastLsn, Registry.find?_insert_self, Option.map_some,
      Option.getD_some]

theorem lastLsn_applyWrite_of_ne (e : Engine) {w : LoggedWrite} (hu : u ≠ w.tx) :
    (e.applyWrite w).2.lastLsn u = e.lastLsn u := by
  unfold applyWrite
  split
  · rfl
  · exact lastLsn_updateTx_of_ne _ _ hu

theorem last_lt_of_logWrite {r : RecordId} {offset : Nat} {v : Value} {w : LoggedWrite}
    (h : e.logWrite tx r offset v = (.ok w, e')) : e.media.log.last < w.lsn := by
  obtain ⟨-, -, -, hlsn, -⟩ := logWrite_ok h
  have hlen := congrArg List.length (isOk_applyWrite_of_logWrite h).1
  rw [List.length_append, List.length_singleton] at hlen
  rw [hlsn]
  exact Nat.lt_of_succ_le (Nat.le_of_eq hlen.symm)

theorem signs_writeHeld (hb : e.Begun tx) (r : RecordId) (offset : Nat) (v : Value) :
    Signs tx e (e.writeHeld tx r offset v).2 := by
  obtain ⟨log, hlog⟩ := e.logWrite_snd tx r offset v
  unfold writeHeld
  cases hw : e.logWrite tx r offset v with
  | mk q e₁ =>
    rw [hw] at hlog
    obtain rfl : e₁ = e.setLog log := hlog
    cases q with
    | error err => exact .of_same (congrArg List.length (records_logWrite_error hw)) fun _ => rfl
    | ok w =>
      obtain ⟨htx, -, -, hlsn, -⟩ := logWrite_ok hw
      obtain ⟨-, hok⟩ := isOk_applyWrite_of_logWrite hw
      have hlast : ((e.setLog log).applyWrite w).2.media.log.last = w.lsn := by
        rw [log_applyWrite, hlsn]
      have hgrown : e.media.log.last < w.lsn := last_lt_of_logWrite hw
      dsimp only
      refine ⟨fun u hu => lastLsn_applyWrite_of_ne _ (htx ▸ hu), .inr ⟨hlast.symm ▸ hgrown, ?_⟩⟩
      rw [hlast, ← htx]
      exact lastLsn_applyWrite (htx ▸ hb) hok

theorem worked_write (k : Task) (hk : k.tx.num ≠ 0) (hb : e.Begun k.tx) {r : RecordId}
    {offset : Nat} {v : Value}
    (hl : (e.writeHeld k.tx r offset v).2.media.log.last < wordLimit 8) :
    Worked finished k.tx e
      ((e.writeHeld k.tx r offset v).2.ends k (e.writeHeld k.tx r offset v).1).2 := by
  have hdid : Did ⟨fun _ => True, fun _ => 0, finished⟩ k.tx (.write r offset v) e _ :=
    did_write k hk hl
  refine ⟨hdid.moves.walks rfl fun x hx => ?_,
    fun id s hs => (hdid.parked id s hs).imp_right And.left, hdid.later,
    (signs_writeHeld hb r offset v).trans (.of_same rfl fun _ => rfl)⟩
  have hrecorded := recorded_write e k r offset v
  unfold Work.Recorded at hrecorded
  rw [change?_write_ends] at hrecorded hx
  split at hx
  · rename_i hok
    rw [if_pos hok] at hrecorded
    obtain rfl := List.mem_singleton.1 hx
    intro n hn
    cases hn
    show 0 < (e.writeHeld k.tx r offset v).2.records.length
    rw [show (e.writeHeld k.tx r offset v).2.records = _ from hrecorded, List.length_append]
    exact Nat.lt_of_lt_of_le Nat.zero_lt_one (Nat.le_add_left ..)
  · cases hx

section

variable (k : Task) (hk : k.tx.num ≠ 0)

include hk

theorem worked_proceed (hb : e.Begun k.tx) (w : Work)
    (hl : (e.proceed k w).2.media.log.last < wordLimit 8) :
    Worked finished k.tx e (e.proceed k w).2 := by
  cases w with
  | answer a => exact worked_ends e k _
  | length file =>
    have hm : Moved ⟨fun _ => True, fun _ => 0, finished⟩ k.tx e [] (e.fileLength file).2 :=
      moved_setMedia (Disk.same_length _ file)
    exact (worked_moved hm rfl fun _ => rfl).trans (worked_ends _ k _)
  | read r offset kind => exact worked_ends e k _
  | write r offset v => exact worked_write k hk hb hl
  | extend file format => exact worked_pin k e true _

theorem worked_lockedWork (hb : e.Begun k.tx) (steps : List LockStep) (w : Work)
    (hl : (e.lockedWork k steps w).2.media.log.last < wordLimit 8) :
    Worked finished k.tx e (e.lockedWork k steps w).2 := by
  refine worked_locked k e steps w fun l hnext => ?_
  unfold lockedWork at hl
  rw [hnext] at hl
  exact worked_proceed (e := { e with locks := l }) k hk hb w hl

omit hk in
theorem worked_active {next : Engine → Progress × Engine}
    (hnext : e.active k next = next e → Worked finished k.tx e (next e).2) :
    Worked finished k.tx e (e.active k next).2 := by
  unfold active at hnext ⊢
  split
  · exact worked_ends e k _
  · rename_i hf
    exact hnext (if_neg hf)

theorem worked_request (hb : e.Begun k.tx) (q : Request)
    (hl : (e.request k q).2.media.log.last < wordLimit 8) :
    Worked finished k.tx e (e.request k q).2 := by
  cases q with
  | lock steps => exact worked_lockedWork k hk hb _ _ hl
  | intent i => exact worked_lockedWork k hk hb _ _ hl
  | pin u => exact worked_active k fun _ => worked_pin k e false u
  | append file format =>
    simp only [request] at hl ⊢
    exact worked_active k fun hnext => worked_lockedWork k hk hb _ _ (hnext ▸ hl)
  | length file =>
    simp only [request] at hl ⊢
    exact worked_active k fun hnext => worked_lockedWork k hk hb _ _ (hnext ▸ hl)
  | read r offset kind =>
    simp only [request] at hl ⊢
    exact worked_active k fun hnext => worked_lockedWork k hk hb _ _ (hnext ▸ hl)
  | write r offset v =>
    simp only [request] at hl ⊢
    exact worked_active k fun hnext => worked_lockedWork k hk hb _ _ (hnext ▸ hl)

end

theorem worked_resume {id : Nat} {s : Suspended} {expired : Bool}
    (hfind : e.suspended.find? id = some s) (hk : s.tx.num ≠ 0) (hb : e.Begun s.tx)
    (hl : (e.resume id expired).2.media.log.last < wordLimit 8) :
    Worked finished s.tx e (e.resume id expired).2 := by
  obtain ⟨tx, wait⟩ := s
  unfold resume at hl ⊢
  rw [hfind] at hl ⊢
  cases wait with
  | onFrame u thenLock =>
    exact worked_pinned ⟨id, tx⟩ thenLock (e.desk.walks_resume tx u expired)
      ((Store.kept_records e.records).deskResume rfl tx u expired)
  | onLock ticket rest work =>
    dsimp only at hl ⊢
    split at hl
    · exact worked_locks e e.locks
    · split at hl
      · rename_i locks _
        exact (e.worked_locks locks).trans
          (worked_lockedWork (e := { e with locks }) ⟨id, tx⟩ hk hb rest work hl)
      · exact worked_locks e _
      · exact (e.worked_locks _).trans (worked_ends _ ⟨id, tx⟩ _)
      · exact (e.worked_locks _).trans (worked_ends _ ⟨id, tx⟩ _)

end Engine

end PagedStore
