import PagedStore.Proofs.Engine.Run

set_option autoImplicit false

/-!
No bytes of a frame reach their file before the log records of the updates in them are durable. Main
statement: `write_ahead`, for every run of an engine; `kept_guarded` is the invariant behind it.
-/

namespace PagedStore

/-- The updates, by the positions of their records, that are at most in the bytes of each frame and
in the files. -/
structure Carried where
  inFrame : Nat → Lsn → Prop
  inFiles : Lsn → Prop

/-- Whatever reached a file can come back with any block. -/
def Carried.after (c : Carried) : Deed → Carried
  | .filled i => { c with inFrame := fun j r => if j = i then c.inFiles r else c.inFrame j r }
  | .applied i lsn => { c with inFrame := fun j r => c.inFrame j r ∨ (j = i ∧ r = lsn) }
  | .saved i _ => { c with inFiles := fun r => c.inFiles r ∨ c.inFrame i r }

def carried : List Deed → Carried
  | [] => ⟨fun _ _ => False, fun _ => False⟩
  | d :: ds => (carried ds).after d

/-- Whenever a frame was saved, the log was durable up to every update that its bytes had. -/
def WriteAhead (deeds : List Deed) : Prop :=
  ∀ (later earlier : List Deed) (i : Nat) (durable : Lsn),
    deeds = later ++ .saved i durable :: earlier →
    ∀ r, (carried earlier).inFrame i r → r ≤ durable

theorem writeAhead_nil : WriteAhead [] := by
  intro later earlier i durable h
  cases later <;> cases h

theorem WriteAhead.cons {ds : List Deed} (h : WriteAhead ds) {d : Deed}
    (hd : ∀ i durable, d = .saved i durable → ∀ r, (carried ds).inFrame i r → r ≤ durable) :
    WriteAhead (d :: ds) := by
  intro later earlier i durable heq
  cases later with
  | nil =>
    cases heq
    exact hd i durable rfl
  | cons d' later =>
    cases heq
    exact h later earlier i durable rfl

/-- The update at `r` is durable, or writing the frame back makes it durable first: the log is asked
for what the frame's position says, and gives that as far as it has records. -/
def Covered (l : Log) (f : Frame) (r : Lsn) : Prop :=
  r ≤ l.durable ∨ (r ≤ f.lsn ∧ r ≤ l.last ∧ f.dirty = true)

structure Guarded (s : Store) : Prop where
  ahead : WriteAhead s.media.deeds
  files : ∀ {r : Lsn}, (carried s.media.deeds).inFiles r → r ≤ s.media.log.durable
  numbered : ∀ {i : Nat} {f : Frame}, s.pool.frames[i]? = some f → f.id = i
  frames : ∀ {i : Nat} {f : Frame} {r : Lsn}, s.pool.frames[i]? = some f →
    (carried s.media.deeds).inFrame i r → Covered s.media.log f r

theorem Covered.mono {l l' : Log} {f g : Frame} {r : Lsn} (h : Covered l f r)
    (hdur : l.durable ≤ l'.durable) (hlast : l.last ≤ l'.last) (hlsn : f.lsn ≤ g.lsn)
    (hdirty : f.dirty = true → g.dirty = true) : Covered l' g r := by
  rcases h with hd | ⟨hr, hl, hdf⟩
  · exact .inl (Nat.le_trans hd hdur)
  · exact .inr ⟨Nat.le_trans hr hlsn, Nat.le_trans hl hlast, hdirty hdf⟩

/-- What the log is forced to before a frame is written back covers every update in the frame. -/
theorem Covered.durable_of_force {m m' : Media} {f : Frame} {r : Lsn} (h : Covered m.log f r)
    (hm : m.force f.lsn = (.ok (), m')) : r ≤ m'.log.durable := by
  obtain ⟨-, -, -, hmono⟩ := Media.of_force hm
  rcases h with hd | ⟨hr, hl, -⟩
  · exact Nat.le_trans hd hmono
  · exact Nat.le_trans (Nat.le_min.2 ⟨hr, hl⟩) (Media.durable_of_force hm)

namespace Guarded

variable {s s' : Store}

theorem mono (h : Guarded s) (hdeeds : s'.media.deeds = s.media.deeds)
    (hdur : s.media.log.durable ≤ s'.media.log.durable)
    (hlast : s.media.log.last ≤ s'.media.log.last)
    (hframes : ∀ {i : Nat} {g : Frame}, s'.pool.frames[i]? = some g →
      ∃ f, s.pool.frames[i]? = some f ∧ g.id = f.id ∧ g.lsn = f.lsn ∧ g.dirty = f.dirty) :
    Guarded s' := by
  refine ⟨hdeeds ▸ h.ahead, ?_, ?_, ?_⟩
  · intro r hr
    rw [hdeeds] at hr
    exact Nat.le_trans (h.files hr) hdur
  · intro i g hg
    obtain ⟨f, hf, hid, -, -⟩ := hframes hg
    exact hid.trans (h.numbered hf)
  · intro i g r hg hr
    rw [hdeeds] at hr
    obtain ⟨f, hf, -, hlsn, hdirty⟩ := hframes hg
    exact (h.frames hf hr).mono hdur hlast (Nat.le_of_eq hlsn.symm) fun hd => hdirty.trans hd

theorem onMedia (h : Guarded s) {m : Media} (hdeeds : m.deeds = s.media.deeds)
    (hdur : s.media.log.durable ≤ m.log.durable) (hlast : s.media.log.last ≤ m.log.last) :
    Guarded { s with media := m } :=
  h.mono hdeeds hdur hlast fun {_ g} hg => ⟨g, hg, rfl, rfl, rfl⟩

theorem flushFrame (h : Guarded s) (i : Nat) : Guarded (s.flushFrame i).2 := by
  have hfl := Store.flushedAt s i
  generalize s.flushFrame i = r at hfl
  cases hfl with
  | idle => exact h
  | unforced hf hm =>
    obtain ⟨-, hdeeds, hlast, hdur⟩ := Media.of_force hm
    exact h.onMedia hdeeds hdur (Nat.le_of_eq hlast.symm)
  | unsaved hf hb hm hw =>
    obtain ⟨-, hdeeds, hlast, hdur⟩ := Media.of_force hm
    exact h.onMedia hdeeds hdur (Nat.le_of_eq hlast.symm)
  | @saved f b m d hf hb hm hw =>
    obtain ⟨-, hdeeds, hlast, hdur⟩ := Media.of_force hm
    have hid := h.numbered hf
    have hforced : ∀ r, (carried s.media.deeds).inFrame i r → r ≤ m.log.durable :=
      fun r hr => (h.frames hf hr).durable_of_force hm
    refine ⟨?_, ?_, ?_, ?_⟩
    · refine WriteAhead.cons (hdeeds ▸ h.ahead) fun j durable heq => ?_
      cases heq
      rw [hdeeds, hid]
      exact hforced
    · intro r hr
      simp only [Store.setFrame, Media.note, carried, Carried.after, hdeeds, hid] at hr
      rcases hr with hr | hr
      · exact Nat.le_trans (h.files hr) hdur
      · exact hforced r hr
    · intro j g hg
      rcases getElem?_set_cases hg with ⟨rfl, rfl⟩ | ⟨-, hj⟩
      · exact hid
      · exact h.numbered hj
    · intro j g r hg hr
      simp only [Store.setFrame, Media.note, carried, Carried.after, hdeeds] at hr
      rcases getElem?_set_cases hg with ⟨rfl, rfl⟩ | ⟨-, hj⟩
      · exact .inl (hforced r hr)
      · exact (h.frames hj hr).mono hdur (Nat.le_of_eq hlast.symm) (Nat.le_refl _) id

/-- A frame that was filled has what the files had, and that is durable. -/
theorem filled (h : Guarded s) {i id : Nat} {g : Frame} {t : Registry BlockId Nat} {d : Disk}
    (hi : id = i) (hid : g.id = i) :
    Guarded
      { media := { s.media with disk := d }.note (.filled id)
        pool := { s.pool with frames := s.pool.frames.set i g, table := t } } := by
  refine ⟨?_, ?_, ?_, ?_⟩
  · exact WriteAhead.cons h.ahead fun _ _ heq => by cases heq
  · exact fun hr => h.files hr
  · intro j g' hg
    rcases getElem?_set_cases hg with ⟨rfl, rfl⟩ | ⟨-, hj⟩
    · exact hid
    · exact h.numbered hj
  · intro j g' r hg hr
    simp only [Media.note, carried, Carried.after, hi] at hr
    rcases getElem?_set_cases hg with ⟨rfl, rfl⟩ | ⟨hne, hj⟩
    · rw [if_pos rfl] at hr
      exact .inl (h.files hr)
    · rw [if_neg hne] at hr
      exact h.frames hj hr

theorem unfilled (h : Guarded s) {i : Nat} {f : Frame} {t : Registry BlockId Nat} {d : Disk}
    (hf : s.pool.frames[i]? = some f) :
    Guarded
      { media := { s.media with disk := d }
        pool := { s.pool with
          frames := s.pool.frames.set i { f with block := none }, table := t } } := by
  refine h.mono rfl (Nat.le_refl _) (Nat.le_refl _) fun {j g} hg => ?_
  rcases getElem?_set_cases hg with ⟨rfl, rfl⟩ | ⟨-, hj⟩
  · exact ⟨f, hf, rfl, rfl, rfl⟩
  · exact ⟨g, hj, rfl, rfl, rfl⟩

theorem refill (h : Guarded s) {i : Nat} {f : Frame} (w : Wanted)
    (hf : s.pool.frames[i]? = some f) : Guarded (s.refill i f w).2 := by
  have hid := h.numbered hf
  have hfill := s.refilled i f w
  generalize s.refill i f w = r at hfill
  cases hfill with
  | unread hread => exact h.unfilled hf
  | read hread => exact h.filled hid hid
  | unadded hadd => exact h.unfilled hf
  | added hadd => exact h.filled hid hid

theorem apply (h : Guarded s) {s' : Store} (w : LoggedWrite) (hw : w.lsn ≤ s.media.log.last)
    (hr : s.editFrame w.frame (fun f => f.writeLogged w.offset w.value w.tx w.lsn) = (.ok (), s')) :
    Guarded { s' with media := s'.media.note (.applied w.frame w.lsn) } := by
  have hahead : WriteAhead (.applied w.frame w.lsn :: s.media.deeds) :=
    WriteAhead.cons h.ahead fun _ _ heq => by cases heq
  unfold Store.editFrame at hr
  split at hr
  · rename_i hnone
    cases hr
    refine ⟨hahead, fun hr => h.files hr, fun hf => h.numbered hf, ?_⟩
    intro j f r hf hr
    rcases hr with hr | ⟨rfl, -⟩
    · exact h.frames hf hr
    · rw [hnone] at hf
      cases hf
  · rename_i f hf
    simp only [Frame.writeLogged_eq] at hr
    cases hput : Page.write f.data w.offset w.value with
    | error e =>
      rw [hput] at hr
      cases hr
    | ok data =>
      rw [hput] at hr
      cases hr
      have hid := h.numbered hf
      refine ⟨hahead, fun hr => h.files hr, ?_, ?_⟩
      · intro j g hg
        rcases getElem?_set_cases hg with ⟨rfl, rfl⟩ | ⟨-, hj⟩
        · exact hid
        · exact h.numbered hj
      · intro j g r hg hr
        rcases getElem?_set_cases hg with ⟨rfl, rfl⟩ | ⟨hne, hj⟩
        · rcases hr with hr | ⟨-, rfl⟩
          · exact (h.frames hf hr).mono (Nat.le_refl _) (Nat.le_refl _) (Nat.le_max_left ..)
              fun _ => rfl
          · exact .inr ⟨Nat.le_max_right .., hw, rfl⟩
        · rcases hr with hr | ⟨rfl, -⟩
          · exact h.frames hj hr
          · exact absurd rfl hne

end Guarded

theorem kept_guarded : Engine.Kept Guarded where
  still hst hs := by
    have hm := hst.media
    refine hs.mono (hm ▸ rfl) (hm ▸ Nat.le_refl _) (hm ▸ Nat.le_refl _) fun {i g} hg => ?_
    obtain ⟨f, hf, hc⟩ := hst.frame hg
    obtain ⟨hid, -, -, hdirty, -, -, hlsn⟩ := Frame.core_eq_iff.1 hc
    exact ⟨f, hf, hid.symm, hlsn.symm, hdirty.symm⟩
  flush i hs := hs.flushFrame i
  refill w hi _ hs := hs.refill w hi
  length file hs := hs.onMedia rfl (Nat.le_refl _) (Nat.le_refl _)
  append record hs :=
    hs.onMedia rfl (Nat.le_of_eq (Log.durable_append ..).symm) (Log.last_append ..)
  flushLog lsn hs :=
    hs.onMedia rfl (Log.durable_le_flush ..) (Nat.le_of_eq (Log.last_flush ..).symm)
  apply w hw hr hs := hs.apply w hw hr
  outage o hs := hs.onMedia rfl (Nat.le_refl _) (Nat.le_refl _)
  fault cause hs := hs.onMedia rfl (Nat.le_refl _) (Nat.le_refl _)

theorem guarded_create {settings : Settings} {disk : Disk} {e : Engine}
    (h : Engine.create settings disk = .ok e) : Guarded e.desk.store := by
  obtain ⟨pool, locks, hpool, -, rfl⟩ := Engine.create_eq_ok h
  obtain ⟨-, -, hframes⟩ := Pool.create_eq_ok hpool
  refine ⟨writeAhead_nil, fun hr => hr.elim, fun hf => ?_, fun _ hr => hr.elim⟩
  rw [hframes hf]

/-- In every run of an engine over any files, whenever a frame was written to its file, the log was
durable up to the record of every update in its bytes. A frame for which the log cannot be forced is
not written, and where it had to be that is an error. -/
theorem write_ahead {settings : Settings} {disk : Disk} {e : Engine}
    (h : Engine.create settings disk = .ok e) (acts : List Act) :
    let s := (Running.run ⟨e, []⟩ acts).store
    WriteAhead s.media.deeds ∧
    ∀ (i : Nat) (f : Frame) (err : Failure), s.pool.frames[i]? = some f →
      (s.media.force f.lsn).1 = .error err →
      (f.flush s.media).2.disk = s.media.disk ∧ (f.flush s.media).2.deeds = s.media.deeds ∧
      ((f.dirty || f.fresh) = true → f.block.isSome → (f.flush s.media).1 = .error err) := by
  intro s
  have hlogged : Running.Logged ⟨e, []⟩ := fun w hw => by cases hw
  have hg : Guarded s := Running.kept_run kept_guarded hlogged (guarded_create h) acts
  refine ⟨hg.ahead, fun i f err _ herr => ?_⟩
  have hfl := Frame.flushed f s.media
  generalize f.flush s.media = r at hfl
  cases hfl with
  | clean hd hfr => exact ⟨rfl, rfl, fun hc _ => by simp [hd, hfr] at hc⟩
  | unplaced hb => exact ⟨rfl, rfl, fun _ hp => by simp [hb] at hp⟩
  | unforced hm =>
    obtain ⟨hdisk, hdeeds, -, -⟩ := Media.of_force hm
    rw [hm] at herr
    cases herr
    exact ⟨hdisk, hdeeds, fun _ _ => rfl⟩
  | unsaved hb hm hw =>
    rw [hm] at herr
    cases herr
  | saved hb hm hw =>
    rw [hm] at herr
    cases herr

/-- A file with one block, whose header has a position from an earlier log. -/
def oldFile : Disk :=
  (Disk.write { blockSize := 12 } ⟨"a", 0⟩ (bigEndian 8 1000 ++ bigEndian 4 0)).2

def cramped : Settings :=
  { poolSize := 1, blockSize := 12, stripes := 1, anchors := 1, wakeups := 1 }

def oneWrite : List Act :=
  [.begin .repeatableRead, .request ⟨0, ⟨1⟩⟩ (.pin (.block ⟨"a", 0⟩)),
    .request ⟨1, ⟨1⟩⟩ (.write ⟨⟨"a", 0⟩, 0⟩ 0 (.int 7)), .flushAll]

theorem write_ahead_oldFile : ∃ e, Engine.create cramped oldFile = .ok e ∧
    (Running.run ⟨e, []⟩ oneWrite).store.media.deeds = [.saved 0 1, .applied 0 1, .filled 0] ∧
      WriteAhead (Running.run ⟨e, []⟩ oneWrite).store.media.deeds := by
  have hdeeds : ((Engine.create cramped oldFile).toOption.map fun e =>
      (Running.run ⟨e, []⟩ oneWrite).store.media.deeds) =
      some [.saved 0 1, .applied 0 1, .filled 0] := by decide +kernel
  cases hc : Engine.create cramped oldFile with
  | error err =>
    rw [hc] at hdeeds
    cases hdeeds
  | ok e =>
    rw [hc] at hdeeds
    exact ⟨e, rfl, Option.some.inj hdeeds, (write_ahead hc oneWrite).1⟩

end PagedStore
