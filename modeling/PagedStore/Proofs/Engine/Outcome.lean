import PagedStore.Proofs.Engine.Flushed

set_option autoImplicit false

/-!
What a commit comes to, while outages may come and go: either the transaction has ended, and all
that it did is durable, or it goes on with all it had, and can commit later to the same effect. Main
statement: `commit_outcome`.
-/

namespace PagedStore

namespace Store

variable {s s' : Store} {size i : Nat} {f : Frame} {b : BlockId} {tx : TxId} {w : Weather}

def Reached (s : Store) : Prop := ∀ i b, s.blockAt? i = some b → b.Reachable s.site

theorem Reached.of_eq (h : s.Reached) (hb : ∀ i, s'.blockAt? i = s.blockAt? i)
    (hsite : s'.site = s.site) : s'.Reached := fun i b hi =>
  hsite ▸ h i b (hb i ▸ hi)

theorem Reached.set (h : s.Reached) (hi : s.pool.frames[i]? = some f) {g : Frame} {m : Media}
    {t : Registry BlockId Nat} (hm : m.disk.toSite = s.site)
    (hg : ∀ b, g.block = some b → b.Reachable s.site) :
    Reached
      { media := m, pool := { s.pool with frames := s.pool.frames.set i g, table := t } } := by
  intro j b hb
  show b.Reachable m.disk.toSite
  rw [blockAt?_set hi] at hb
  rw [hm]
  split at hb
  · exact hg b hb
  · exact h j b hb

theorem Reached.refill (h : s.Reached) (hi : s.pool.frames[i]? = some f) (w : Wanted) :
    (s.refill i f w).2.Reached := by
  have hre := s.refilled i f w
  generalize s.refill i f w = r at hre
  cases hre with
  | @unread b e d hr =>
    have hs := Disk.same_read s.media.disk b f.data.length
    rw [hr] at hs
    exact h.set hi hs.site nofun
  | @read b data d hr =>
    have hs := Disk.same_read s.media.disk b f.data.length
    rw [hr] at hs
    refine h.set hi hs.site fun c hc => ?_
    cases hc
    exact Disk.reachable_of_read (congrArg Prod.fst hr)
  | unadded ha => exact h.set hi (Disk.same_of_append_error ha).site nofun
  | added ha =>
    refine h.set hi (Disk.put_of_append ha).2.site fun c hc => ?_
    cases hc
    exact Disk.reachable_of_append ha

theorem Fitted.wroteBack (h : s.Fitted size) {done tried : List Nat} (hw : Wrote done tried s s') :
    s'.Fitted size := by
  refine ⟨hw.blockSize.trans h.sized, h.room, h.limit, fun i g hg => ?_⟩
  rw [hw.frames, Option.map_eq_some_iff] at hg
  obtain ⟨f, hf, rfl⟩ := hg
  split
  · rw [f.data_rest]
    exact h.frames i f hf
  · exact h.frames i f hf

theorem Fitted.takes (h : s.Fitted size) (hr : s.Reached) (hw : w.Fair) (hdue : s.Due i f b) :
    (s.under w).media.Takes f b :=
  ⟨.inr hw.log, (h.frames i f hdue.frame).trans h.sized.symm, hr i b hdue.blockAt?, hw.disk⟩

/-- Frames that a transaction changed last can be written back in fair weather only. -/
theorem Tidy.fair (h : s.Tidy) (hdue : s.Due i f b) (hm : f.modifiedBy = some tx)
    (ht : (s.under w).media.Takes f b) : w.Fair :=
  ⟨ht.forced.resolve_left (Nat.ne_of_gt (h.stamped hdue.frame hm)), ht.allowed⟩

theorem Agrees.force {cond : Prop} {lsn : Lsn} {m m' : Media} (h : s.Agrees cond s')
    (hm : (s.media.under w).force lsn = (.ok (), m))
    (hm' : (s'.media.under w).force lsn = (.ok (), m')) :
    Agrees cond { s with media := m } { s' with media := m' } where
  pool := h.pool
  records := by
    rw [Media.records_of_force hm, Media.records_of_force hm']
    exact h.records
  durable := by
    have hraised := Media.raised_force hm
    have hraised' := Media.raised_force hm'
    have hlast : (s'.media.under w).log.last = (s.media.under w).log.last :=
      congrArg List.length h.records
    have hstart : (s'.media.under w).log.durable = (s.media.under w).log.durable := h.durable
    rw [hlast, hstart] at hraised'
    exact Nat.le_antisymm (hraised'.le_of_may hraised fun _ => id)
      (hraised.le_of_may hraised' fun _ => id)
  disk hc := by
    show Disk.Alike m.disk m'.disk
    rw [(Media.of_force hm).1, (Media.of_force hm').1]
    exact ⟨(h.disk hc).site, (h.disk hc).size, (h.disk hc).byteAt⟩

end Store

theorem Engine.kept_reached : Engine.Kept Store.Reached where
  still hst hs := hs.of_eq hst.blockAt? (congrArg (fun m => m.disk.toSite) hst.media)
  flush {s} i hs := hs.of_eq (s.blockAt?_flushFrame i) (s.site_flushFrame i)
  refill w hi _ hs := hs.refill hi w
  length {s} file hs := hs.of_eq (fun _ => rfl) (s.media.disk.same_length file).site
  append record hs := hs
  flushLog lsn hs := hs
  apply {s s'} w _ hr hs := by
    have hblock : ∀ j, (s.editFrame w.frame fun f =>
        f.writeLogged w.offset w.value w.tx w.lsn).2.blockAt? j = s.blockAt? j :=
      Store.blockAt?_editFrame fun _ _ hg => (Frame.of_writeLogged hg).2.1
    have hmedia := Store.media_editFrame s w.frame fun f =>
      f.writeLogged w.offset w.value w.tx w.lsn
    rw [hr] at hblock hmedia
    exact hs.of_eq hblock (congrArg (fun m => m.disk.toSite) hmedia)
  outage o hs := hs
  fault cause hs := hs

namespace Desk

variable {d : Desk} {tx : TxId}

theorem still_releaseAll (d : Desk) (tx : TxId) :
    Store.Still d.store (d.releaseAll tx).2.store := by
  have hu := Store.still_unpinFrames ((d.pinsOf tx).holds.entries.map fun e => e.2.frame) d.store
  unfold releaseAll
  dsimp only
  split
  · exact ⟨rfl, rfl, rfl⟩
  · split
    · exact hu
    · rw [store_tellFree]
      exact hu

theorem unpinFrames_setMedia (frames : List Nat) (s : Store) (m : Media) :
    unpinFrames frames { s with media := m } =
      ((unpinFrames frames s).1, { (unpinFrames frames s).2 with media := m }) := by
  induction frames generalizing s with
  | nil => rfl
  | cons i rest ih =>
    unfold unpinFrames
    have hone : ({ s with media := m } : Store).unpin i =
        ((s.unpin i).1, { (s.unpin i).2 with media := m }) := rfl
    rw [hone]
    cases hr : s.unpin i with
    | mk q s' =>
      cases q with
      | error err => rfl
      | ok _ => exact ih s'

theorem releaseAll_setMedia (d : Desk) (tx : TxId) (m : Media) :
    (d.setStore { d.store with media := m }).releaseAll tx =
      ((d.releaseAll tx).1, (d.releaseAll tx).2.setStore
        { (d.releaseAll tx).2.store with media := m }) := by
  have hu := unpinFrames_setMedia ((d.pinsOf tx).holds.entries.map fun e => e.2.frame) d.store m
  have htell : ∀ d : Desk, (d.setStore { d.store with media := m }).tellFree =
      d.tellFree.setStore { d.tellFree.store with media := m } := by
    intro d
    unfold tellFree
    show (if d.line.hasWaiters then _ else _) = _
    split <;> rfl
  have hpins : (d.setStore { d.store with media := m }).pinsOf tx = d.pinsOf tx := rfl
  have hstore : (d.setStore { d.store with media := m }).store = { d.store with media := m } := rfl
  unfold releaseAll
  dsimp only
  rw [hpins, hstore, hu]
  split
  · rfl
  · cases hr : unpinFrames ((d.pinsOf tx).holds.entries.map fun e => e.2.frame) d.store with
    | mk q s =>
      cases q with
      | error err => rfl
      | ok _ =>
        have ht := htell ({ d with store := s }.setPins tx {})
        dsimp only
        exact congrArg (Prod.mk _) ht

end Desk

namespace Engine

variable {e e' : Engine} {tx : TxId} {visits : List (Nat × Weather)} {last w : Weather} {size : Nat}

theorem letGo_eq (h : (e.desk.releaseAll tx).1 = .ok ()) : e.letGo tx =
    (.ok (), ({ e with desk := (e.desk.releaseAll tx).2 }.releaseLocks tx).finish tx) := by
  unfold letGo atDesk
  dsimp only
  rw [h]

/-- A transaction that has ended, and has neither frames nor locks. -/
structure Gone (tx : TxId) (e : Engine) : Prop where
  finished : e.isFinished tx
  frames : ∀ b, (e.desk.pinsOf tx).holds.find? b = none
  locks : ∀ t, e.locks.modesOf t tx = []
  listed : e.locks.held.find? tx = none

theorem gone_letGo (hb : e.Begun tx) (hl : e.locks.Indexed)
    (hok : (e.desk.releaseAll tx).1 = .ok ()) : Gone tx (e.letGo tx).2 := by
  have hpins : (e.letGo tx).2.desk.pinsOf tx = (e.desk.releaseAll tx).2.pinsOf tx := by
    rw [letGo_eq hok]
    exact Desk.pinsOf_congr (pins_updateTx ..) tx
  have hlocks : (e.letGo tx).2.locks = e.locks.releaseAll tx false := by
    rw [letGo_eq hok]
    exact (beside_finish _ tx).locks
  refine ⟨finished_letGo hb (by rw [letGo_eq hok]), fun b => ?_, fun t => ?_, ?_⟩
  · rw [hpins]
    exact e.desk.holds_releaseAll tx b
  · rw [hlocks]
    exact LockTable.modesOf_eq_nil.2 fun m hm => hl.not_holds_releaseAll t tx m hm
  · rw [hlocks]
    exact Registry.find?_erase_self ..

theorem frame_letGo (hok : (e.desk.releaseAll tx).1 = .ok ()) {i : Nat} {g : Frame}
    (hg : (e.letGo tx).2.frame? i = some g) : ∃ f, e.frame? i = some f ∧ f.core = g.core := by
  rw [letGo_eq hok, frame?, pool, store_finish] at hg
  exact (e.desk.still_releaseAll tx).frame hg

theorem letGo_setMedia (hok : (e.desk.releaseAll tx).1 = .ok ()) (m : Media) :
    (e.setMedia m).letGo tx = (.ok (), (e.letGo tx).2.setMedia m) := by
  have hr := e.desk.releaseAll_setMedia tx m
  have hok' : ((e.setMedia m).desk.releaseAll tx).1 = .ok () := by
    show ((e.desk.setStore { e.desk.store with media := m }).releaseAll tx).1 = .ok ()
    rw [hr]
    exact hok
  have hfin : ∀ e : Engine, (e.setMedia m).finish tx = (e.finish tx).setMedia m := by
    intro e
    have hsame : (e.setMedia m).transactions = e.transactions := rfl
    unfold finish updateTx
    rw [hsame]
    cases e.transactions.find? tx <;> rfl
  have hdesk : ((e.setMedia m).desk.releaseAll tx).2 = _ := congrArg Prod.snd hr
  have hlast := hfin ({ e with desk := (e.desk.releaseAll tx).2 }.releaseLocks tx)
  rw [letGo_eq hok', letGo_eq hok, hdesk]
  exact congrArg (Prod.mk _) hlast

/-- Makes a transaction's changes durable amid outages that come and go. Of the frames visited,
those that it changed last are written back, each in its own weather, and then the log is made
durable in the weather `last`. -/
def makeDurableAmid (e : Engine) (tx : TxId) (visits : List (Nat × Weather)) (last : Weather) :
    Outcome Unit × Store :=
  match Store.flushAmid (visits.filter fun v => e.desk.store.changedBy tx v.1) e.desk.store with
  | (.error err, s) => (.error err, s)
  | (.ok (), s) =>
    let r := (s.media.under last).force (e.lastLsn tx)
    (r.1, { s with media := r.2 })

def commitAmid (e : Engine) (tx : TxId) (visits : List (Nat × Weather)) (last : Weather) :
    Outcome Unit × Engine :=
  match e.makeDurableAmid tx visits last with
  | (.error err, s) => (.error err, e.setStore s)
  | (.ok (), s) => (e.setStore s).letGo tx

/-- Commits in weather that does not change. -/
def commitIn (e : Engine) (tx : TxId) (order : List Nat) (w : Weather) : Outcome Unit × Engine :=
  e.commitAmid tx (order.map fun i => (i, w)) w

theorem filter_visits (e : Engine) (tx : TxId) (order : List Nat) (w : Weather) :
    (order.map fun i => (i, w)).filter (fun v => e.desk.store.changedBy tx v.1) =
      (order.filter (e.desk.store.changedBy tx)).map fun i => (i, w) := List.filter_map ..

theorem visits_filter (e : Engine) (tx : TxId) (visits : List (Nat × Weather)) :
    (visits.filter fun v => e.desk.store.changedBy tx v.1).map Prod.fst =
      (visits.map Prod.fst).filter (e.desk.store.changedBy tx) := by
  rw [List.filter_map]
  rfl

theorem commit_eq (h : ¬ e.isFinished tx) :
    e.commit tx = e.commitIn tx (e.desk.pinsOf tx).touched e.media.weather := by
  have hflush : e.desk.flushMine tx = (_, e.desk.setStore _) :=
    congrArg (fun r => (r.1, e.desk.setStore r.2))
      (Store.flushTouched_eq tx (e.desk.pinsOf tx).touched e.desk.store)
  have hweather := Store.weather_flushAmid
    ((e.desk.pinsOf tx).touched.filter (e.desk.store.changedBy tx)) e.desk.store
  have hmine : ((e.desk.pinsOf tx).touched.map fun i => (i, e.media.weather)).filter
      (fun v => e.desk.store.changedBy tx v.1) =
      ((e.desk.pinsOf tx).touched.filter (e.desk.store.changedBy tx)).map
        fun i => (i, e.desk.store.media.weather) := e.filter_visits ..
  unfold commit makeDurable atDesk commitIn commitAmid makeDurableAmid
  dsimp only
  rw [if_neg h, hflush, hmine]
  generalize Store.flushAmid _ e.desk.store = r at hweather ⊢
  obtain ⟨q, s⟩ := r
  cases q with
  | error err => rfl
  | ok _ =>
    have hself : s.media.under e.media.weather = s.media := by
      rw [show e.media.weather = s.media.weather from hweather.symm]
      rfl
    have hforce : (e.setStore s).media.force ((e.setStore s).lastLsn tx) =
        s.media.force (e.lastLsn tx) := rfl
    unfold setStore at hforce
    dsimp only
    rw [hself]
    unfold Desk.setStore
    rw [hforce]
    cases s.media.force (e.lastLsn tx) with
    | mk q m => cases q <;> rfl

theorem sameContents_makeDurableAmid (e : Engine) (tx : TxId) (visits : List (Nat × Weather))
    (last : Weather) :
    (Store.flushAmid (visits.filter fun v => e.desk.store.changedBy tx v.1)
      e.desk.store).2.SameContents (e.makeDurableAmid tx visits last).2 := by
  unfold makeDurableAmid
  cases Store.flushAmid (visits.filter fun v => e.desk.store.changedBy tx v.1) e.desk.store with
  | mk q s =>
    cases q with
    | error err => exact .refl s
    | ok _ =>
      dsimp only
      cases hm : (s.media.under last).force (e.lastLsn tx) with
      | mk q m =>
        have hdisk : m.disk = (s.media.under last).disk := (Media.of_force hm).1
        refine ⟨rfl, ?_⟩
        show Disk.Alike s.media.disk m.disk
        rw [hdisk]
        exact ⟨rfl, fun _ => rfl, fun _ _ => rfl⟩

theorem media_commitAmid (e : Engine) (tx : TxId) (visits : List (Nat × Weather)) (last : Weather) :
    (e.commitAmid tx visits last).2.media = (e.makeDurableAmid tx visits last).2.media := by
  unfold commitAmid
  cases e.makeDurableAmid tx visits last with
  | mk q s =>
    cases q with
    | error err => rfl
    | ok _ => exact media_letGo (e.setStore s) tx

/-- What making changes durable comes to: some of the frames were written back, each in a weather
that lets that happen; and where it succeeds all of them were, and the log was forced. -/
inductive Hardening (e : Engine) (tx : TxId) (visits : List (Nat × Weather)) (last : Weather) :
    Outcome Unit × Store → Prop
  | failed {err : Failure} {done : List Nat} {s : Store}
      (hdone : ∀ i ∈ done, ∃ w, (i, w) ∈ visits ∧ e.desk.store.changedBy tx i = true ∧
        ∀ f b, e.desk.store.Due i f b → (e.desk.store.under w).media.Takes f b)
      (hw : Store.Wrote done ((visits.map Prod.fst).filter (e.desk.store.changedBy tx))
        e.desk.store s) : Hardening e tx visits last (.error err, s)
  | made {s : Store} {m : Media}
      (hw : Store.Wrote ((visits.map Prod.fst).filter (e.desk.store.changedBy tx))
        ((visits.map Prod.fst).filter (e.desk.store.changedBy tx)) e.desk.store s)
      (hm : (s.media.under last).force (e.lastLsn tx) = (.ok (), m)) :
      Hardening e tx visits last (.ok (), { s with media := m })

theorem hardening (e : Engine) (tx : TxId) (visits : List (Nat × Weather)) (last : Weather) :
    Hardening e tx visits last (e.makeDurableAmid tx visits last) := by
  obtain ⟨done, hdone, hall, hw⟩ := Store.wrote_flushAmid
    (visits.filter fun v => e.desk.store.changedBy tx v.1) e.desk.store
  rw [visits_filter] at hall hw
  have htakes : ∀ i ∈ done, ∃ w, (i, w) ∈ visits ∧ e.desk.store.changedBy tx i = true ∧
      ∀ f b, e.desk.store.Due i f b → (e.desk.store.under w).media.Takes f b := by
    intro i hi
    obtain ⟨w, hmem, ht⟩ := hdone i hi
    obtain ⟨hmem, hc⟩ := List.mem_filter.1 hmem
    exact ⟨w, hmem, hc, ht⟩
  unfold makeDurableAmid
  cases hr : Store.flushAmid (visits.filter fun v => e.desk.store.changedBy tx v.1)
      e.desk.store with
  | mk q s =>
    rw [hr] at hall hw
    cases q with
    | error err => exact .failed htakes hw
    | ok u =>
      dsimp only
      cases hm : (s.media.under last).force (e.lastLsn tx) with
      | mk q m =>
        cases q with
        | error err =>
          obtain ⟨hdisk, hdeeds, -, -⟩ := Media.of_force hm
          have hrecords := Media.records_of_force hm
          have hraised := Media.raised_force hm
          have hstay : Store.Wrote [] [] s { s with media := m } :=
            Store.wrote_nothing nofun hrecords (hraised.mono nofun nofun) hdeeds
              (hdisk ▸ ⟨rfl, fun _ => rfl⟩)
          have hwrote := hw.trans hstay
          rw [List.append_nil, List.append_nil] at hwrote
          exact .failed htakes hwrote
        | ok _ => exact .made (hall rfl ▸ hw) hm

variable {finished : TxId → Prop}

theorem releaseAll_ok_of_wrote (ht : e.desk.Traced finished) {done tried : List Nat} {s : Store}
    (hw : Store.Wrote done tried e.desk.store s) (m : Media) (tx : TxId) :
    ((e.setStore { s with media := m }).desk.releaseAll tx).1 = .ok () := by
  have htraced : (e.setStore { s with media := m }).desk.Traced finished :=
    (ht.wroteBack hw).congr rfl rfl
  exact htraced.releaseAll_ok tx

theorem flushed_of_fair (hfit : e.desk.store.Fitted size) (hreach : e.desk.store.Reached)
    (l : List Nat) (hw : w.Fair) :
    (Store.flushAmid (l.map fun i => (i, w)) e.desk.store).1 = .ok () :=
  (Store.flushAmid_ok_iff l w _).2 fun _ _ _ _ hdue => hfit.takes hreach hw hdue

theorem committed_of_fair (ht : e.desk.Traced finished) (hfit : e.desk.store.Fitted size)
    (hreach : e.desk.store.Reached) (tx : TxId) (order : List Nat) (hw : w.Fair) : ∃ s m,
      Store.Wrote (order.filter (e.desk.store.changedBy tx))
        (order.filter (e.desk.store.changedBy tx)) e.desk.store s ∧
      (s.media.under w).force (e.lastLsn tx) = (.ok (), m) ∧
      ((e.setStore { s with media := m }).desk.releaseAll tx).1 = .ok () ∧
      e.commitIn tx order w = (e.setStore { s with media := m }).letGo tx := by
  have hflush : (Store.flushAmid ((order.map fun i => (i, w)).filter
      fun v => e.desk.store.changedBy tx v.1) e.desk.store).1 = .ok () := by
    rw [filter_visits]
    exact flushed_of_fair hfit hreach _ hw
  have hok : (e.makeDurableAmid tx (order.map fun i => (i, w)) w).1 = .ok () := by
    unfold makeDurableAmid
    generalize Store.flushAmid _ e.desk.store = r at hflush
    obtain ⟨q, s⟩ := r
    obtain rfl : q = .ok () := hflush
    exact Media.force_ok_iff.2 (.inr hw.log)
  have hh := e.hardening tx (order.map fun i => (i, w)) w
  unfold commitIn commitAmid
  generalize e.makeDurableAmid tx (order.map fun i => (i, w)) w = r at hok hh
  cases hh with
  | failed hdone hw => cases hok
  | @made s m hwrote hm =>
    rw [Store.map_fst_visits] at hwrote
    exact ⟨s, m, hwrote, hm, releaseAll_ok_of_wrote ht hwrote m tx, rfl⟩

/-- The two differ in nothing but the log and the files, and these are alike but for what files have
where the condition does not hold. -/
structure Alike (cond : Prop) (e e' : Engine) : Prop where
  aside : e' = e.setMedia e'.media
  agrees : e.desk.store.Agrees cond e'.desk.store

/-- When some of its frames have been written back, a transaction commits to the same effect. -/
theorem committed_alike (ht : e.desk.Traced finished) (hfit : e.desk.store.Fitted size)
    (hreach : e.desk.store.Reached) {done tried order order' : List Nat} {s : Store}
    (hwrote : Store.Wrote done tried e.desk.store s)
    (hdone : ∀ i ∈ done, i ∈ order ∧ e.desk.store.changedBy tx i = true)
    (htried : ∀ i ∈ tried, i ∈ order ∧ e.desk.store.changedBy tx i = true)
    (horder : order'.Perm order) (hw : w.Fair) :
    (e.commitIn tx order w).1 = .ok () ∧ ((e.setStore s).commitIn tx order' w).1 = .ok () ∧
      Alike e.desk.store.Apart (e.commitIn tx order w).2
        ((e.setStore s).commitIn tx order' w).2 := by
  obtain ⟨s₁, m₁, hw₁, hm₁, hr₁, hc₁⟩ := committed_of_fair ht hfit hreach tx order hw
  have hreach' : s.Reached := hreach.of_eq hwrote.blockAt? hwrote.site
  obtain ⟨s₂, m₂, hw₂, hm₂, -, hc₂⟩ := committed_of_fair (e := e.setStore s)
    (ht.wroteBack hwrote) (hfit.wroteBack hwrote) hreach' tx order' hw
  have hmine : ∀ i, i ∈ order'.filter (s.changedBy tx) ↔
      i ∈ order.filter (e.desk.store.changedBy tx) := fun i => by
    rw [List.mem_filter, List.mem_filter, horder.mem_iff, hwrote.changedBy]
  -- What was written before and what is written now are the same frames as in one go.
  have hfull : Store.Wrote (order.filter (e.desk.store.changedBy tx))
      (order.filter (e.desk.store.changedBy tx)) e.desk.store s₂ := by
    refine (hwrote.trans hw₂).congr (fun i _ _ _ => ?_) fun i _ _ _ hi => ?_
    · rw [List.mem_append, ← hmine i]
      exact ⟨.inr, fun hi => hi.elim (fun hi => (hmine i).2 (List.mem_filter.2 (hdone i hi))) id⟩
    · rcases List.mem_append.1 hi with hi | hi
      · exact List.mem_filter.2 (htried i hi)
      · exact (hmine i).1 hi
  have hagree : s₁.Agrees e.desk.store.Apart s₂ := hw₁.agree hfull fun _ _ _ _ hi => hi
  have hforce := hagree.force hm₁ hm₂
  have hsame : (e.setStore s).setStore { s₂ with media := m₂ } =
      (e.setStore { s₁ with media := m₁ }).setMedia m₂ := by
    show e.setStore ⟨m₂, s₂.pool⟩ = e.setStore ⟨m₂, s₁.pool⟩
    rw [hagree.pool]
  have hmedia : ((e.setStore { s₁ with media := m₁ }).letGo tx).2.media = m₁ := media_letGo _ tx
  rw [hc₁, hc₂, hsame, letGo_setMedia hr₁]
  refine ⟨by rw [letGo_eq hr₁], rfl, rfl, rfl, ?_, ?_, fun hapart => ?_⟩
  · exact hforce.records.trans (congrArg (fun m => m.log.records) hmedia.symm)
  · exact hforce.durable.trans (congrArg (fun m => m.log.durable) hmedia.symm)
  · have hdisk := hforce.disk hapart
    change Disk.Alike m₁.disk m₂.disk at hdisk
    rw [← hmedia] at hdisk
    exact hdisk

theorem Alike.of_disk {cond cond' : Prop} (h : Alike cond e e')
    (hdisk : cond' → Disk.Alike e.media.disk e'.media.disk) : Alike cond' e e' :=
  ⟨h.aside, h.agrees.pool, h.agrees.records, h.agrees.durable, hdisk⟩

/-- Whatever else is written back before, in fair weather a commit leaves in the files what the
frames had that the transaction changed last. -/
theorem committed_saved (ht : e.desk.Traced finished) (hfit : e.desk.store.Fitted size)
    (hreach : e.desk.store.Reached) {done tried order : List Nat} {s : Store}
    (hwrote : Store.Wrote done tried e.desk.store s)
    (hall : ∀ i, e.desk.store.changedBy tx i = true → i ∈ order) (hw : w.Fair) :
    ((e.setStore s).commitIn tx order w).1 = .ok () ∧
      (e.desk.store.Apart → ∀ (i : Nat) (f : Frame) (b : BlockId), e.desk.store.Due i f b →
        f.modifiedBy = some tx →
          ((e.setStore s).commitIn tx order w).2.media.disk.peek b = f.data) := by
  have hreach' : s.Reached := hreach.of_eq hwrote.blockAt? hwrote.site
  obtain ⟨s', m, hrest, hm, hr, hc⟩ := committed_of_fair (e := e.setStore s)
    (ht.wroteBack hwrote) (hfit.wroteBack hwrote) hreach' tx order hw
  refine ⟨by rw [hc, letGo_eq hr], fun hapart i f b hdue hmine => ?_⟩
  have hchanged := Store.changedBy_iff.2 ⟨f, hdue.frame, hmine⟩
  have hi : i ∈ done ++ order.filter ((e.setStore s).desk.store.changedBy tx) := by
    refine List.mem_append_right _ (List.mem_filter.2 ⟨hall i hchanged, ?_⟩)
    exact (hwrote.changedBy tx i).trans hchanged
  have hpeek := (hwrote.trans hrest).peek hi hdue (hapart.alone _ hdue.blockAt?)
  have hmedia : ((e.setStore { s' with media := m }).letGo tx).2.media = m := media_letGo _ tx
  rw [hc]
  show ((e.setStore { s' with media := m }).letGo tx).2.media.disk.peek b = f.data
  rw [hmedia, (Media.of_force hm).1]
  exact hpeek

/-- A commit that was cut short and is begun again, and goes through the frames in the same order,
leaves the files as one that was not. -/
theorem committed_again (hfit : e.desk.store.Fitted size) (hreach : e.desk.store.Reached)
    (tx : TxId) (visits : List (Nat × Weather)) (last : Weather) (hw : w.Fair) :
    Disk.Alike (e.commitIn tx (visits.map Prod.fst) w).2.media.disk
      ((e.setStore (e.makeDurableAmid tx visits last).2).commitIn tx
        (visits.map Prod.fst) w).2.media.disk := by
  have hcut := e.sameContents_makeDurableAmid tx visits last
  have hwhole := e.sameContents_makeDurableAmid tx
    ((visits.map Prod.fst).map fun i => (i, w)) w
  have hagain := (e.setStore (e.makeDurableAmid tx visits last).2).sameContents_makeDurableAmid tx
    ((visits.map Prod.fst).map fun i => (i, w)) w
  obtain ⟨done, -, -, hwrote⟩ := Store.wrote_flushAmid
    (visits.filter fun v => e.desk.store.changedBy tx v.1) e.desk.store
  have hmine : (e.setStore (e.makeDurableAmid tx visits last).2).desk.store.changedBy tx =
      e.desk.store.changedBy tx :=
    funext fun i => (hcut.changedBy tx i).trans (hwrote.changedBy tx i)
  rw [filter_visits] at hwhole hagain
  rw [hmine] at hagain
  rw [← visits_filter] at hwhole hagain
  have hok := flushed_of_fair hfit hreach
    ((visits.filter fun v => e.desk.store.changedBy tx v.1).map Prod.fst) hw
  have hresumed := Store.flushAmid_resumed _ w _ hok
  have hrest := (hcut.flushAmid _ w (hwrote.flushAmid_ok hok)).2
  unfold commitIn
  rw [media_commitAmid, media_commitAmid]
  exact (hwhole.symm.trans (hresumed.trans (hrest.trans hagain))).disk

/-- A transaction committed: whatever of the log is `known` to be its own is durable, no frame that
it changed last is dirty, and it has neither frames nor locks. -/
structure Committed (tx : TxId) (known : Lsn → Prop) (e : Engine) : Prop where
  durable : ∀ n, known n → n ≤ e.media.log.durable
  clean : ∀ (i : Nat) (f : Frame), e.frame? i = some f → f.modifiedBy = some tx → f.dirty = false
  gone : Gone tx e

/-- A commit that went through the frames in the order `went` has failed. The transaction goes on
with all that it had, and a frame is as it was, or it was written back. In fair weather the
transaction commits later as it would have before, also when other frames were written back in
between. That the files have the bytes of what was written back, and that a later commit leaves them
as the first would have, is so under the condition; without it, a frame may lie under another one
that was written back, and it matters in which order the commits go through the frames. -/
structure Withheld (cond : Prop) (tx : TxId) (went : List Nat) (e e' : Engine) : Prop where
  aside : e' = e.setStore e'.desk.store
  unfinished : ¬ e'.isFinished tx
  pins : e'.desk.pinsOf tx = e.desk.pinsOf tx
  locks : e'.locks = e.locks
  lastLsn : e'.lastLsn tx = e.lastLsn tx
  records : e'.records = e.records
  frames : ∀ (i : Nat) (f : Frame), e.frame? i = some f → e'.frame? i = some f ∨
    ∃ b, e.desk.store.Due i f b ∧ e'.frame? i = some f.rest ∧
      (cond → e'.media.disk.peek b = f.data)
  under : ∀ (i : Nat) (f : Frame) (b : BlockId), e.desk.store.Due i f b →
    e'.frame? i = some f.rest → e'.media.disk.peek b = f.data ∨
      ∃ j g c, j ≠ i ∧ e.desk.store.Due j g c ∧ e'.frame? j = some g.rest ∧ ¬ b.Apart c
  later : ∀ (order order' : List Nat) (w : Weather), order.Perm (e.desk.pinsOf tx).touched →
    order'.Perm (e.desk.pinsOf tx).touched → w.Fair →
      (e.commitIn tx order w).1 = .ok () ∧ (e'.commitIn tx order' w).1 = .ok () ∧
        Alike (cond ∨ order = went ∧ order' = went)
          (e.commitIn tx order w).2 (e'.commitIn tx order' w).2
  saved : ∀ (others : List (Nat × Weather)) (order : List Nat) (w : Weather),
    order.Perm (e.desk.pinsOf tx).touched → w.Fair →
      let after := (e'.setStore (Store.flushAmid others e'.desk.store).2).commitIn tx order w
      after.1 = .ok () ∧ (cond → ∀ (i : Nat) (f : Frame) (b : BlockId), e.desk.store.Due i f b →
        f.modifiedBy = some tx → after.2.media.disk.peek b = f.data)

section

variable (hu : ¬ e.isFinished tx) (ht : e.desk.Traced fun u => e.isFinished u)
  (hperm : (visits.map Prod.fst).Perm (e.desk.pinsOf tx).touched)

include hu ht hperm

theorem clean_of_made {s : Store} {m : Media} (htidy : e.desk.store.Tidy)
    (hw : Store.Wrote ((visits.map Prod.fst).filter (e.desk.store.changedBy tx))
      ((visits.map Prod.fst).filter (e.desk.store.changedBy tx)) e.desk.store s)
    (hok : ((e.setStore { s with media := m }).desk.releaseAll tx).1 = .ok ()) {i : Nat} {g : Frame}
    (hg : ((e.setStore { s with media := m }).letGo tx).2.frame? i = some g)
    (hm : g.modifiedBy = some tx) : g.dirty = false := by
  obtain ⟨k, hk, hcore⟩ := frame_letGo hok hg
  obtain ⟨-, -, -, hdirty, -, hmod, -⟩ := Frame.core_eq_iff.1 hcore
  change s.pool.frames[i]? = some k at hk
  rw [hw.frames, Option.map_eq_some_iff] at hk
  obtain ⟨f, hf, hfk⟩ := hk
  have hfm : f.modifiedBy = some tx := by
    rw [← hm, ← hmod, ← hfk]
    split
    · exact f.modifiedBy_rest.symm
    · rfl
  have hi : i ∈ (visits.map Prod.fst).filter (e.desk.store.changedBy tx) := by
    refine List.mem_filter.2 ⟨hperm.symm.subset ?_, ?_⟩
    · exact (ht.traced i f tx hf hfm).resolve_left hu
    · rw [Store.changedBy, hf, Option.bind_some, hfm]
      exact decide_eq_true rfl
  rw [if_pos hi] at hfk
  rw [← hdirty, ← hfk]
  unfold Frame.rest
  split
  · rfl
  · rename_i hb
    exact (htidy.housed hf (Option.not_isSome_iff_eq_none.1 hb)).1

theorem committed_of_made {known : Lsn → Prop} (htidy : e.desk.store.Tidy) (hb : e.Begun tx)
    (hlocks : e.locks.Indexed) (hknown : ∀ n, known n → n ≤ e.lastLsn tx)
    (hlast : e.lastLsn tx ≤ e.media.log.last) {s : Store}
    (hmade : e.makeDurableAmid tx visits last = (.ok (), s)) :
    ((e.setStore s).letGo tx).1 = .ok () ∧ Committed tx known ((e.setStore s).letGo tx).2 := by
  have hh := e.hardening tx visits last
  rw [hmade] at hh
  cases hh with
  | @made s m hw hm =>
    have hok := releaseAll_ok_of_wrote ht hw m tx
    refine ⟨congrArg Prod.fst (letGo_eq hok), fun n hn => ?_, fun i g hg hmod => ?_,
      gone_letGo (e := e.setStore { s with media := m }) hb hlocks hok⟩
    · have hforced := Media.durable_of_force hm
      have hsame : (s.media.under last).log.last = e.media.log.last := hw.last
      rw [hsame, Nat.min_eq_left hlast] at hforced
      rw [media_letGo]
      exact Nat.le_trans (hknown n hn) hforced
    · exact clean_of_made hu ht hperm htidy hw hok hg hmod

theorem withheld_of_failed {cond : Prop} (hapart : cond → e.desk.store.Apart)
    (hfit : e.desk.store.Fitted size) (hreach : e.desk.store.Reached) {err : Failure} {s : Store}
    (hfail : e.makeDurableAmid tx visits last = (.error err, s)) :
    Withheld cond tx (visits.map Prod.fst) e (e.setStore s) := by
  have hh := e.hardening tx visits last
  rw [hfail] at hh
  cases hh with
  | @failed _ done _ hdone hw =>
    have hvisited : ∀ i ∈ done, i ∈ visits.map Prod.fst ∧ e.desk.store.changedBy tx i = true :=
      fun i hi => by
        obtain ⟨w, hmem, hc, -⟩ := hdone i hi
        exact ⟨List.mem_map.2 ⟨_, hmem, rfl⟩, hc⟩
    have hall : ∀ {order : List Nat}, order.Perm (e.desk.pinsOf tx).touched → ∀ i,
        e.desk.store.changedBy tx i = true → i ∈ order := by
      intro order horder i hi
      obtain ⟨f, hf, hm⟩ := Store.changedBy_iff.1 hi
      exact horder.symm.subset ((ht.traced i f tx hf hm).resolve_left hu)
    refine ⟨rfl, hu, rfl, rfl, rfl, hw.records, fun i f hf => ?_, fun i f b hdue hrest => ?_,
      fun order order' w horder horder' hfair => ?_, fun others order w horder hfair => ?_⟩
    · refine (hw.frame_cases hf).imp id fun ⟨b, hi, hdue, hkept⟩ => ⟨b, hdue, hkept, fun hc => ?_⟩
      exact hw.peek hi hdue ((hapart hc).alone done hdue.blockAt?)
    · have hi : i ∈ done := by
        rcases hw.frame_cases hdue.frame with hkept | ⟨-, hi, -⟩
        · exact (hdue.ne_rest (Option.some.inj (hkept.symm.trans hrest))).elim
        · exact hi
      by_cases halone : e.desk.store.Alone done i b
      · exact .inl (hw.peek hi hdue halone)
      · simp only [Store.Alone, Classical.not_forall] at halone
        obtain ⟨j, g, c, hj, hg, hne, hc⟩ := halone
        exact .inr ⟨j, g, c, hne, hg, hw.frame_of_mem hg.frame hj, hc⟩
    · have horder := hperm.trans horder.symm
      obtain ⟨hok, hok', halike⟩ := committed_alike ht hfit hreach hw
        (fun i hi => ⟨horder.subset (hvisited i hi).1, (hvisited i hi).2⟩)
        (fun i hi => ⟨horder.subset (List.mem_filter.1 hi).1, (List.mem_filter.1 hi).2⟩)
        (horder'.trans (hperm.symm.trans horder)) hfair
      refine ⟨hok, hok', halike.of_disk ?_⟩
      rintro (hc | ⟨rfl, rfl⟩)
      · exact halike.agrees.disk (hapart hc)
      · have hagain := committed_again hfit hreach tx visits last hfair
        rwa [hfail] at hagain
    · obtain ⟨more, -, -, hmore⟩ := Store.wrote_flushAmid others s
      obtain ⟨hok, hpeek⟩ :=
        committed_saved ht hfit hreach (hw.trans hmore) (hall horder) hfair
      exact ⟨hok, fun hc => hpeek (hapart hc)⟩

end

/-- In weather that stays as it is, a commit that fails has written nothing back: what it fails for
is what every write-back needs. -/
theorem unsaved_of_error (hu : ¬ e.isFinished tx) (ht : e.desk.Traced fun u => e.isFinished u)
    (htidy : e.desk.store.Tidy) (hfit : e.desk.store.Fitted size) (hreach : e.desk.store.Reached)
    {err : Failure} (h : (e.commit tx).1 = .error err) :
    e.desk.store.SameContents (e.commit tx).2.desk.store := by
  rw [commit_eq hu] at h ⊢
  have hfoul : ¬ e.media.weather.Fair := by
    intro hfair
    obtain ⟨s, m, -, -, hr, hc⟩ :=
      committed_of_fair ht hfit hreach tx (e.desk.pinsOf tx).touched hfair
    rw [hc, letGo_eq hr] at h
    cases h
  have hh := e.hardening tx ((e.desk.pinsOf tx).touched.map fun i => (i, e.media.weather))
    e.media.weather
  unfold commitIn commitAmid at h ⊢
  generalize e.makeDurableAmid tx _ e.media.weather = r at h hh ⊢
  cases hh with
  | failed hdone hw =>
    refine hw.unchanged fun i f b hi hdue => hfoul ?_
    obtain ⟨w, hmem, hc, htakes⟩ := hdone i hi
    obtain ⟨j, -, hj⟩ := List.mem_map.1 hmem
    obtain ⟨-, rfl⟩ := Prod.mk.inj hj
    rw [Store.changedBy, hdue.frame] at hc
    exact htidy.fair hdue (of_decide_eq_true hc) (htakes f b hdue)
  | @made s m hw hm =>
    have hok := releaseAll_ok_of_wrote ht hw m tx
    change ((e.setStore { s with media := m }).letGo tx).1 = .error err at h
    rw [letGo_eq hok] at h
    cases h

theorem reached_create {settings : Settings} {disk : Disk}
    (h : Engine.create settings disk = .ok e) : e.desk.store.Reached := by
  obtain ⟨pool, hpool, hstore⟩ := store_of_create h
  obtain ⟨-, -, hframes⟩ := Pool.create_eq_ok hpool
  rw [hstore]
  intro i b hb
  obtain ⟨f, hf, hfb⟩ := Option.bind_eq_some_iff.1 hb
  rw [hframes hf] at hfb
  cases hfb

end Engine

namespace Running

variable {names : String → Prop} {r : Running}

theorem asks_of_orderly {acts : List Act} (ho : r.Orderly names acts) :
    ∀ a ∈ acts, Asks (fun _ => True) a := by
  induction acts generalizing r with
  | nil => exact nofun
  | cons a as ih =>
    obtain ⟨hp, -, ho⟩ := ho
    intro x hx
    rcases List.mem_cons.1 hx with rfl | hx
    · cases x with
      | enroll tx level => exact hp.elim
      | request k q => exact fun _ => trivial
      | _ => trivial
    · exact ih ho x hx

theorem counted_create {settings : Settings} {disk : Disk} {e : Engine}
    (h : Engine.create settings disk = .ok e) : Counted (fun _ _ => False) ⟨e, []⟩ := by
  obtain ⟨pool, locks, -, -, rfl⟩ := Engine.create_eq_ok h
  exact ⟨fun _ => Nat.le_refl 0, nofun, nofun, nofun⟩

end Running

/-- What a commit comes to, in every state that an orderly run of transactions leads to, for a
transaction that has not ended. In whatever order the commit goes through the frames, and whatever
outages of the log and the files come and go meanwhile: if it succeeds, all records of the
transaction are durable, no frame that it changed last is dirty, and it has ended, without frames or
locks; if it fails, the transaction goes on with all it had, each frame keeps its block and its
bytes and is still to be written back unless its bytes are in the file, and later it commits to the
same effect. What is said of the files holds where files have one name each. In fair weather the
commit succeeds. And a commit that fails in weather that stays as it is has changed no frame and no
file. -/
theorem commit_outcome {names : String → Prop} {settings : Settings} {disk : Disk} {e : Engine}
    (h : Engine.create settings disk = .ok e) {acts : List Act}
    (ho : Running.Orderly names ⟨e, []⟩ acts) {tx : TxId}
    (hr : (Running.run ⟨e, []⟩ acts).Ready tx)
    (hu : ¬ (Running.run ⟨e, []⟩ acts).engine.isFinished tx) :
    let e' := (Running.run ⟨e, []⟩ acts).engine
    let touched := (e'.desk.pinsOf tx).touched
    e'.commit tx = e'.commitIn tx touched e'.media.weather ∧
    (∀ (visits : List (Nat × Weather)) (last : Weather), (visits.map Prod.fst).Perm touched →
      ((e'.commitAmid tx visits last).1 = .ok () →
        Engine.Committed tx (fun n => Running.Appends ⟨e, []⟩ tx n acts)
          (e'.commitAmid tx visits last).2) ∧
      ∀ err, (e'.commitAmid tx visits last).1 = .error err →
        Engine.Withheld (Distinct names) tx (visits.map Prod.fst) e'
          (e'.commitAmid tx visits last).2) ∧
    (∀ (order : List Nat) (w : Weather), w.Fair → (e'.commitIn tx order w).1 = .ok ()) ∧
    ∀ err, (e'.commit tx).1 = .error err →
      e'.desk.store.SameContents (e'.commit tx).2.desk.store := by
  intro e' touched
  have htracked : (Running.run ⟨e, []⟩ acts).Tracked := (Running.tracked_create h).run ho
  have hcounted := (Running.counted_create h).run (Running.tracked_create h)
    (Running.poised_create h) ho
  have hfit : e'.desk.store.Fitted settings.blockSize :=
    ((Running.poised_create h).run acts).fitted
  have hreach : e'.desk.store.Reached :=
    Running.kept_run Engine.kept_reached (r := ⟨e, []⟩) nofun (Engine.reached_create h) acts
  have hlocks : e'.locks.Indexed :=
    (Running.owned_run (Engine.owned_create h) (Running.asks_of_orderly ho)).locks.booked.indexed
  refine ⟨Engine.commit_eq hu, fun visits last hperm => ?_, fun order w hw => ?_,
    fun err herr => ?_⟩
  · have hknown : ∀ n, Running.Appends ⟨e, []⟩ tx n acts → n ≤ e'.lastLsn tx := by
      intro n hn
      refine (hcounted.known tx n (.inr hn)).resolve_right ?_
      rintro ⟨w, hw, he, -⟩
      exact hr.2 w hw he
    unfold Engine.commitAmid
    cases hq : e'.makeDurableAmid tx visits last with
    | mk q s =>
      cases q with
      | error err =>
        exact ⟨nofun, fun _ _ => Engine.withheld_of_failed hu htracked.traced hperm
          (fun hd => Running.apart_of_orderly h hd ho) hfit hreach hq⟩
      | ok _ =>
        obtain ⟨hok, hcommitted⟩ := Engine.committed_of_made hu htracked.traced hperm
          htracked.tidy hr.1 hlocks hknown (hcounted.last tx) hq
        refine ⟨fun _ => hcommitted, fun err herr => ?_⟩
        cases hok.symm.trans herr
  · obtain ⟨s, m, -, -, hr, hc⟩ :=
      Engine.committed_of_fair htracked.traced hfit hreach tx order hw
    rw [hc, Engine.letGo_eq hr]
  · exact Engine.unsaved_of_error hu htracked.traced htracked.tidy hfit hreach herr

def writtenBoth : List Act :=
  [.begin .repeatableRead, .request ⟨0, ⟨1⟩⟩ (.pin (.block ⟨"f", 0⟩)),
    .request ⟨1, ⟨1⟩⟩ (.append "f" (.fill 5)),
    .request ⟨2, ⟨1⟩⟩ (.write ⟨⟨"f", 0⟩, 0⟩ 0 (.int 7)),
    .request ⟨3, ⟨1⟩⟩ (.write ⟨⟨"f", 1⟩, 0⟩ 0 (.int 9))]

theorem orderly_writtenBoth :
    Running.Orderly (fun n => n = "f") ⟨opened oneBlock, []⟩ writtenBoth := by
  simp only [writtenBoth, Running.Orderly]
  exact ⟨trivial, by decide +kernel,
    Running.permits_pin (by decide +kernel) rfl (by decide +kernel), by decide +kernel,
    Running.permits_append _ (by decide +kernel) rfl, by decide +kernel,
    Running.permits_write _ _ _ (by decide +kernel), by decide +kernel,
    Running.permits_write _ _ _ (by decide +kernel), by decide +kernel, trivial⟩

/-- The log fails between one frame and the other. The commit is made up for when it is back. -/
theorem commit_outcome_interrupted : Engine.create paired oneBlock = .ok (opened oneBlock) ∧
    let e := (Running.run ⟨opened oneBlock, []⟩ writtenBoth).engine
    let cut := e.commitAmid ⟨1⟩ [(1, ⟨.none, none⟩), (0, ⟨.flush, none⟩)] ⟨.none, none⟩
    cut.1 = .error (.error (.io .logUnavailable)) ∧
    (cut.2.frame? 0).map Frame.dirty = some true ∧ (cut.2.frame? 1).map Frame.dirty = some false ∧
    Engine.Withheld (Distinct fun n => n = "f") ⟨1⟩ [1, 0] e cut.2 ∧
    (cut.2.commitIn ⟨1⟩ [0, 1] ⟨.none, none⟩).1 = .ok () ∧
    Engine.Committed ⟨1⟩ (fun n => Running.Appends ⟨opened oneBlock, []⟩ ⟨1⟩ n writtenBoth)
      (e.commitIn ⟨1⟩ [0, 1] ⟨.none, none⟩).2 := by
  have hopen : Engine.create paired oneBlock = .ok (opened oneBlock) := rfl
  have htouched : ((Running.run ⟨opened oneBlock, []⟩ writtenBoth).engine.desk.pinsOf
      ⟨1⟩).touched = [1, 0] := by decide +kernel
  have hfair : Weather.Fair ⟨.none, none⟩ := ⟨nofun, rfl⟩
  have hready : (Running.run ⟨opened oneBlock, []⟩ writtenBoth).Ready ⟨1⟩ := by decide +kernel
  obtain ⟨-, hall, -, -⟩ := commit_outcome hopen orderly_writtenBoth hready (by decide +kernel)
  have hcut := (hall [(1, ⟨.none, none⟩), (0, ⟨.flush, none⟩)] ⟨.none, none⟩
    (htouched ▸ .refl _)).2 _ rfl
  have hswap : [0, 1].Perm ((Running.run ⟨opened oneBlock, []⟩ writtenBoth).engine.desk.pinsOf
      ⟨1⟩).touched := htouched ▸ .swap 1 0 []
  obtain ⟨hdone, hagain, -⟩ := hcut.later [0, 1] [0, 1] ⟨.none, none⟩ hswap hswap hfair
  exact ⟨hopen, rfl, by decide +kernel, by decide +kernel, hcut, hagain,
    (hall [(0, ⟨.none, none⟩), (1, ⟨.none, none⟩)] ⟨.none, none⟩ hswap).1 hdone⟩

/-- Of a block that has two names, the frame written back first is clean, and its bytes are not in
the file, when the commit fails for the log. And when it fails before anything is written, and the
pool writes both frames back before it is begun again, it leaves other bytes in the file than it
would have. -/
theorem not_commit_outcome : Engine.create paired oneBlock = .ok (opened oneBlock) ∧
    Running.Orderly (fun n => n = "f" ∨ n = "./f") ⟨opened oneBlock, []⟩ writtenTwofold ∧
    let r := Running.run ⟨opened oneBlock, []⟩ writtenTwofold
    let cut := r.engine.commitAmid ⟨1⟩ [(1, ⟨.none, none⟩), (0, ⟨.none, none⟩)] ⟨.flush, none⟩
    let whole := r.run [.commit ⟨1⟩]
    let refused := r.run [.outage .flush, .commit ⟨1⟩]
    let again := refused.run [.outage .none, .flushAll, .commit ⟨1⟩]
    (r.engine.desk.pinsOf ⟨1⟩).touched = [1, 0] ∧ ¬ r.engine.isFinished ⟨1⟩ ∧
    cut.1 = .error (.error (.io .logUnavailable)) ∧
    (r.engine.frame? 1).map Frame.dirty = some true ∧
    (cut.2.frame? 1).map (fun f => (f.dirty, f.block, Page.payload f.data)) =
      some (false, some ⟨"./f", 0⟩, [0, 0, 0, 9, 0, 0, 0, 0]) ∧
    Page.payload (cut.2.media.disk.peek ⟨"./f", 0⟩) = [0, 0, 0, 7, 0, 0, 0, 0] ∧
    whole.engine.isFinished ⟨1⟩ ∧ ¬ refused.engine.isFinished ⟨1⟩ ∧ again.engine.isFinished ⟨1⟩ ∧
    Page.payload (whole.engine.media.disk.peek ⟨"f", 0⟩) = [0, 0, 0, 7, 0, 0, 0, 0] ∧
    Page.payload (again.engine.media.disk.peek ⟨"f", 0⟩) = [0, 0, 0, 9, 0, 0, 0, 0] :=
  ⟨rfl, orderly_writtenTwofold, by decide +kernel, by decide +kernel, rfl, by decide +kernel,
    by decide +kernel, by decide +kernel, by decide +kernel, by decide +kernel, by decide +kernel,
    by decide +kernel, by decide +kernel⟩

end PagedStore
