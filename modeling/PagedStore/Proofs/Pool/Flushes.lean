import PagedStore.Pins.Desk
import PagedStore.Proofs.Pool.Written

set_option autoImplicit false

/-!
Frames written back one after the other, while outages may come and go. Main statements:
`wrote_flushAmid`, `flushAmid_ok_iff`, `flushAmid_resumed`, and that a transaction's frames and a
pool's are written back in this way, `flushTouched_eq`, `flushWhere_eq` and `flushAll_eq`.
-/

namespace PagedStore

/-- Whether the log and the files refuse. -/
structure Weather where
  outage : Outage
  fault : Option IoCause

structure Weather.Fair (w : Weather) : Prop where
  log : w.outage ≠ .flush
  disk : w.fault = none

namespace Media

def weather (m : Media) : Weather := ⟨m.log.outage, m.disk.fault⟩

def under (m : Media) (w : Weather) : Media :=
  { m with log := { m.log with outage := w.outage }, disk := { m.disk with fault := w.fault } }

/-- What it takes to write a frame with block `b` back. -/
structure Takes (m : Media) (f : Frame) (b : BlockId) : Prop where
  forced : f.lsn = 0 ∨ m.log.outage ≠ .flush
  length : f.data.length = m.disk.blockSize
  reachable : b.Reachable m.disk.toSite
  allowed : m.disk.fault = none

theorem Takes.congr {m m' : Media} {f : Frame} {b : BlockId} (h : m.Takes f b)
    (hw : m'.weather = m.weather) (hs : m'.disk.toSite = m.disk.toSite) : m'.Takes f b := by
  obtain ⟨ho, hf⟩ := Weather.mk.inj hw
  exact ⟨ho ▸ h.forced, hs ▸ h.length, hs ▸ h.reachable, hf.trans h.allowed⟩

variable {m m' : Media} {lsn : Lsn} {r : Outcome Unit}

theorem force_ok_iff : (m.force lsn).1 = .ok () ↔ lsn = 0 ∨ m.log.outage ≠ .flush := by
  unfold force
  by_cases hz : lsn = 0
  · rw [if_pos hz]
    exact iff_of_true rfl (.inl hz)
  · rw [if_neg hz]
    by_cases ho : m.log.outage = .flush
    · simp [Log.flush, ho, hz]
    · simp only [Log.flush, if_neg ho]
      refine iff_of_true ?_ (.inr ho)
      split <;> rfl

theorem weather_force (h : m.force lsn = (r, m')) : m'.weather = m.weather := by
  unfold force at h
  split at h
  · cases h
    rfl
  · cases h
    unfold weather Log.flush
    dsimp only
    split
    · rfl
    · split <;> rfl

theorem raised_force (h : m.force lsn = (r, m')) :
    Raised (fun n => r = .ok () ∧ n = min lsn m.log.last)
      (fun n => r = .ok () ∧ n = min lsn m.log.last) m.log.durable m'.log.durable := by
  refine ⟨(of_force h).2.2.2, fun n hn => ?_, ?_⟩
  · obtain ⟨rfl, rfl⟩ := hn
    exact durable_of_force h
  · unfold force at h
    split at h
    · cases h
      exact .inl rfl
    · cases h
      unfold Log.flush
      dsimp only
      split
      · exact .inl rfl
      · split
        · exact .inr ⟨rfl, rfl⟩
        · exact .inl rfl

end Media

namespace Store

variable {s s' : Store} {i : Nat} {f : Frame} {b : BlockId}

theorem Due.unique {g : Frame} {c : BlockId} (h : s.Due i f b) (h' : s.Due i g c) :
    g = f ∧ c = b := by
  obtain rfl : f = g := Option.some.inj (h.frame.symm.trans h'.frame)
  exact ⟨rfl, Option.some.inj (h'.block.symm.trans h.block)⟩

inductive Flushing (s : Store) (i : Nat) : Outcome Unit × Store → Prop
  | idle (h : ∀ f b, ¬ s.Due i f b) : Flushing s i (.ok (), s)
  | unforced {f : Frame} {b : BlockId} {e : Failure} {m : Media} (hdue : s.Due i f b)
      (hm : s.media.force f.lsn = (.error e, m)) : Flushing s i (.error e, { s with media := m })
  | unsaved {f : Frame} {b : BlockId} {e : Failure} {m : Media} {d : Disk} (hdue : s.Due i f b)
      (hm : s.media.force f.lsn = (.ok (), m)) (hw : m.disk.write b f.data = (.error e, d)) :
      Flushing s i (.error e, { s with media := { m with disk := d } })
  | saved {f : Frame} {b : BlockId} {m : Media} {d : Disk} (hdue : s.Due i f b)
      (hm : s.media.force f.lsn = (.ok (), m)) (hw : m.disk.write b f.data = (.ok (), d)) :
      Flushing s i (.ok (), { s with
        media := { m with disk := d }.note (.saved f.id m.log.durable) }.setFrame i f.rest)

theorem flushing (s : Store) (i : Nat) : Flushing s i (s.flushFrame i) := by
  unfold flushFrame
  cases hf : s.pool.frames[i]? with
  | none =>
    refine .idle fun f b hdue => ?_
    rw [hdue.frame] at hf
    cases hf
  | some f =>
    have hidle : (∀ b, ¬ s.Due i f b) → Flushing s i (.ok (), s.setFrame i f) := by
      intro hnone
      rw [setFrame_self hf]
      refine .idle fun g b hg => hnone b ?_
      obtain rfl : g = f := Option.some.inj (hg.frame.symm.trans hf)
      exact hg
    have hfl := Frame.flushed f s.media
    dsimp only
    by_cases hdue : ∃ b, s.Due i f b
    · obtain ⟨b, hdue⟩ := hdue
      have hrest : f.rest = { f with dirty := false, fresh := false } :=
        if_pos (by rw [hdue.block]; rfl)
      generalize f.flush s.media = r at hfl
      cases hfl with
      | clean hd hfr =>
        have hu := hdue.unsaved
        rw [hd, hfr] at hu
        cases hu
      | unplaced hb =>
        rw [hdue.block] at hb
        cases hb
      | unforced hm => exact .unforced hdue hm
      | unsaved hb hm hw =>
        obtain rfl := Option.some.inj (hb.symm.trans hdue.block)
        exact .unsaved hdue hm hw
      | saved hb hm hw =>
        obtain rfl := Option.some.inj (hb.symm.trans hdue.block)
        have hsaved := Flushing.saved hdue hm hw
        rwa [hrest] at hsaved
    · have hflush : f.flush s.media = (.ok f, s.media) := by
        unfold Frame.flush
        split
        · rename_i hu
          split
          · rfl
          · rename_i b hb
            exact absurd ⟨b, hf, hb, hu⟩ hdue
        · rfl
      rw [hflush]
      exact hidle fun b hb => hdue ⟨b, hb⟩

theorem flushFrame_of_not_due (h : ∀ f b, ¬ s.Due i f b) : s.flushFrame i = (.ok (), s) := by
  have hfl := s.flushing i
  generalize s.flushFrame i = r at hfl
  cases hfl with
  | idle => rfl
  | unforced hdue | unsaved hdue | saved hdue => exact absurd hdue (h _ _)

theorem flushFrame_ok_iff :
    (s.flushFrame i).1 = .ok () ↔ ∀ f b, s.Due i f b → s.media.Takes f b := by
  have hfl := s.flushing i
  generalize s.flushFrame i = r at hfl
  cases hfl with
  | idle hnone => exact iff_of_true rfl fun f b hdue => absurd hdue (hnone f b)
  | @unforced f b e m hdue hm =>
    refine iff_of_false nofun fun h => ?_
    have hok := Media.force_ok_iff.2 (h f b hdue).forced
    rw [hm] at hok
    cases hok
  | @unsaved f b e m d hdue hm hw =>
    refine iff_of_false nofun fun h => ?_
    have ht := h f b hdue
    have hok : (s.media.disk.write b f.data).1 = .ok () :=
      Disk.write_ok_iff.2 ⟨ht.length, ht.reachable, ht.allowed⟩
    rw [← (Media.of_force hm).1, hw] at hok
    cases hok
  | @saved f b m d hdue hm hw =>
    refine iff_of_true rfl fun g c hg => ?_
    obtain ⟨rfl, rfl⟩ := hdue.unique hg
    rw [(Media.of_force hm).1] at hw
    obtain ⟨hl, hreach, hfault⟩ := Disk.write_ok_iff.1 (congrArg Prod.fst hw)
    exact ⟨Media.force_ok_iff.1 (congrArg Prod.fst hm), hl, hreach, hfault⟩

theorem weather_flushFrame (s : Store) (i : Nat) :
    (s.flushFrame i).2.media.weather = s.media.weather := by
  have hwrite : ∀ {m : Media} {b : BlockId} {data : Bytes} {r : Outcome Unit} {d : Disk},
      m.disk.write b data = (r, d) → ({ m with disk := d } : Media).weather = m.weather := by
    intro m b data r d hw
    have hf := Disk.fault_write m.disk b data
    rw [hw] at hf
    exact congrArg (Weather.mk m.log.outage) hf
  have hfl := s.flushing i
  generalize s.flushFrame i = r at hfl
  cases hfl with
  | idle hnone => rfl
  | unforced hdue hm => exact Media.weather_force hm
  | unsaved hdue hm hw | saved hdue hm hw => exact (hwrite hw).trans (Media.weather_force hm)

theorem wrote_flushFrame (s : Store) (i : Nat) :
    Wrote (if (s.flushFrame i).1.isOk then [i] else []) [i] s (s.flushFrame i).2 := by
  have hmark : ∀ {f : Frame} {b : BlockId} {r : Outcome Unit}, s.Due i f b →
      ∀ n, r = .ok () ∧ n = min f.lsn s.media.log.last → s.marks [i] n := fun hdue n hn =>
    ⟨i, _, _, List.mem_singleton_self i, hdue, hn.2⟩
  have hfl := s.flushing i
  generalize s.flushFrame i = r at hfl
  cases hfl with
  | idle hnone =>
    refine wrote_nothing (fun j f b hj hdue => ?_) rfl (.refl nofun) rfl (.refl _)
    obtain rfl := List.mem_singleton.1 hj
    exact hnone f b hdue
  | unforced hdue hm =>
    obtain ⟨hdisk, hdeeds, -, -⟩ := Media.of_force hm
    exact wrote_nothing nofun (Media.records_of_force hm)
      ((Media.raised_force hm).mono nofun (hmark hdue)) hdeeds (hdisk ▸ .refl _)
  | unsaved hdue hm hw =>
    obtain ⟨hdisk, hdeeds, -, -⟩ := Media.of_force hm
    have hrecords := Media.records_of_force hm
    exact wrote_nothing nofun hrecords ((Media.raised_force hm).mono nofun (hmark hdue)) hdeeds
      (hdisk ▸ Disk.same_of_write_error hw)
  | @saved f b m d hdue hm hw =>
    obtain ⟨hdisk, hdeeds, -, -⟩ := Media.of_force hm
    have hrecords := Media.records_of_force hm
    rw [hdisk] at hw
    have hput := Disk.put_of_write hw
    have hone : ∀ {j g c}, j ∈ [i] → s.Due j g c → j = i ∧ g = f ∧ c = b := by
      intro j g c hj hg
      obtain rfl := List.mem_singleton.1 hj
      exact ⟨rfl, hdue.unique hg⟩
    show Wrote [i] [i] s _
    exact {
      pool := rfl
      frames := fun j => by
        have hlt := (List.getElem?_eq_some_iff.1 hdue.frame).1
        show (s.pool.frames.set i f.rest)[j]? = _
        rw [List.getElem?_set]
        by_cases hj : i = j
        · subst hj
          rw [if_pos rfl, if_pos hlt, hdue.frame, Option.map_some,
            if_pos (List.mem_singleton_self i)]
        · have hj' : ¬ j = i := fun he => hj he.symm
          simp [hj, hj']
      records := hrecords
      durable := (Media.raised_force hm).mono
        (fun n ⟨j, g, c, hj, hg, hn⟩ => ⟨rfl, (hone hj hg).2.1 ▸ hn⟩) (hmark hdue)
      deeds := by
        refine ⟨[.saved f.id m.log.durable], congrArg (List.cons _) hdeeds, fun n => ?_⟩
        constructor
        · rintro ⟨durable, hmem⟩
          cases List.mem_singleton.1 hmem
          exact ⟨i, f, b, List.mem_singleton_self i, hdue, rfl⟩
        · rintro ⟨j, g, c, hj, hg, rfl⟩
          obtain ⟨-, rfl, -⟩ := hone hj hg
          exact ⟨_, List.mem_singleton_self _⟩
      site := hput.site
      length := fun j g c hj hg => by
        obtain ⟨-, rfl, -⟩ := hone hj hg
        exact hput.length
      size := fun name => by
        show Raised _ _ _ (d.fileOf name).size
        rw [hput.size]
        by_cases hn : path? name = path? b.file
        · rw [if_pos hn]
          refine ⟨Nat.le_max_left .., fun n ⟨j, g, c, hj, hg, _, hc⟩ => ?_, ?_⟩
          · obtain ⟨-, -, rfl⟩ := hone hj hg
            exact hc ▸ Nat.le_max_right ..
          · rcases Nat.le_total (s.media.disk.fileOf name).size
              (b.number * s.media.disk.blockSize + s.media.disk.blockSize) with hle | hle
            · exact .inr ⟨i, f, b, List.mem_singleton_self i, hdue, hn, Nat.max_eq_right hle⟩
            · exact .inl (Nat.max_eq_left hle)
        · rw [if_neg hn]
          refine .refl fun n ⟨j, g, c, hj, hg, hc, _⟩ => ?_
          obtain ⟨-, -, rfl⟩ := hone hj hg
          exact absurd hc hn
      written := fun j g c name k hj hg _ hc => by
        obtain ⟨-, rfl, rfl⟩ := hone hj hg
        exact (hput.byteAt name k).trans (if_pos hc)
      others := fun name k hnone =>
        (hput.byteAt name k).trans (if_neg (hnone i f b (List.mem_singleton_self i) hdue)) }

def under (s : Store) (w : Weather) : Store := { s with media := s.media.under w }

theorem due_under {w : Weather} : (s.under w).Due i f b ↔ s.Due i f b :=
  ⟨fun h => ⟨h.frame, h.block, h.unsaved⟩, fun h => ⟨h.frame, h.block, h.unsaved⟩⟩

theorem sameContents_under (s : Store) (w : Weather) : s.SameContents (s.under w) :=
  ⟨rfl, rfl, fun _ => rfl, fun _ _ => rfl⟩

theorem wrote_under (s : Store) (w : Weather) : Wrote [] [] s (s.under w) :=
  wrote_nothing (m := s.media.under w) nofun rfl (.refl nofun) rfl ⟨rfl, fun _ => rfl⟩

theorem wrote_one (s : Store) (i : Nat) (w : Weather) :
    Wrote (if ((s.under w).flushFrame i).1.isOk then [i] else []) [i] s
      ((s.under w).flushFrame i).2 :=
  (s.wrote_under w).trans ((s.under w).wrote_flushFrame i)

/-- Writes frames back in turn, each in its own weather, up to the first that fails. -/
def flushAmid : List (Nat × Weather) → Store → Outcome Unit × Store
  | [], s => (.ok (), s)
  | (i, w) :: visits, s =>
    match (s.under w).flushFrame i with
    | (.error e, s) => (.error e, s)
    | (.ok (), s) => flushAmid visits s

theorem flushAmid_induct {P : Store → Prop} (hu : ∀ s w, P s → P (s.under w))
    (hf : ∀ s i, P s → P (s.flushFrame i).2) (visits : List (Nat × Weather)) {s : Store}
    (hs : P s) : P (flushAmid visits s).2 := by
  induction visits generalizing s with
  | nil => exact hs
  | cons visit visits ih =>
    obtain ⟨i, w⟩ := visit
    have hone := hf _ i (hu s w hs)
    unfold flushAmid
    cases hr : (s.under w).flushFrame i with
    | mk r s' =>
      rw [hr] at hone
      cases r with
      | error e => exact hone
      | ok u => exact ih hone

/-- Whatever happens in between, some of the frames were written back, each in a weather that let
that happen; all of them where nothing failed. -/
theorem wrote_flushAmid (visits : List (Nat × Weather)) (s : Store) :
    ∃ done, (∀ i ∈ done, ∃ w, (i, w) ∈ visits ∧
        ∀ f b, s.Due i f b → (s.under w).media.Takes f b) ∧
      ((flushAmid visits s).1 = .ok () → done = visits.map Prod.fst) ∧
      Wrote done (visits.map Prod.fst) s (flushAmid visits s).2 := by
  induction visits generalizing s with
  | nil => exact ⟨[], nofun, fun _ => rfl, .refl s⟩
  | cons visit visits ih =>
    obtain ⟨i, w⟩ := visit
    have hone := s.wrote_one i w
    have htakes := @flushFrame_ok_iff (s.under w) i
    unfold flushAmid
    cases hr : (s.under w).flushFrame i with
    | mk r s' =>
      rw [hr] at hone htakes
      cases r with
      | error e =>
        refine ⟨[], nofun, nofun, hone.congr (fun _ _ _ _ => .rfl) fun j _ _ _ hj => ?_⟩
        obtain rfl := List.mem_singleton.1 hj
        exact List.mem_cons_self
      | ok u =>
        replace hone : Wrote [i] [i] s s' := hone
        obtain ⟨done, hsub, hall, hrest⟩ := ih s'
        refine ⟨i :: done, fun j hj => ?_, fun hok => ?_, hone.trans hrest⟩
        · by_cases he : j = i
          · subst he
            exact ⟨w, List.mem_cons_self, fun f b hdue =>
              htakes.1 rfl f b (due_under.2 hdue)⟩
          · obtain ⟨w', hmem, hw'⟩ := hsub j ((List.mem_cons.1 hj).resolve_left he)
            refine ⟨w', List.mem_cons_of_mem _ hmem, fun f b hdue => ?_⟩
            have hdue' := hone.due_iff.2 ⟨fun hi => he (List.mem_singleton.1 hi), hdue⟩
            exact (hw' f b hdue').congr rfl hone.site.symm
        · rw [hall hok]
          rfl

theorem flushAmid_ok_iff (l : List Nat) (w : Weather) (s : Store) :
    (flushAmid (l.map fun i => (i, w)) s).1 = .ok () ↔
      ∀ i f b, i ∈ l → s.Due i f b → (s.under w).media.Takes f b := by
  induction l generalizing s with
  | nil => exact iff_of_true rfl nofun
  | cons i l ih =>
    have hok := @flushFrame_ok_iff (s.under w) i
    have hwrote := s.wrote_one i w
    simp only [due_under] at hok
    rw [List.map_cons, flushAmid]
    cases hr : (s.under w).flushFrame i with
    | mk r s' =>
      rw [hr] at hok hwrote
      cases r with
      | error e =>
        exact iff_of_false nofun fun h =>
          nomatch hok.2 fun f b hdue => h i f b List.mem_cons_self hdue
      | ok u =>
        replace hwrote : Wrote [i] [i] s s' := hwrote
        dsimp only
        rw [ih s']
        constructor
        · intro h j f b hj hdue
          by_cases he : j = i
          · subst he
            exact hok.1 rfl f b hdue
          · have hj' : j ∈ l := (List.mem_cons.1 hj).resolve_left he
            have hdue' := hwrote.due_iff.2 ⟨fun hi => he (List.mem_singleton.1 hi), hdue⟩
            exact (h j f b hj' hdue').congr rfl hwrote.site.symm
        · intro h j f b hj hdue
          exact (h j f b (List.mem_cons_of_mem i hj) (hwrote.due_iff.1 hdue).2).congr rfl
            hwrote.site

theorem map_fst_visits (l : List Nat) (w : Weather) :
    (l.map fun i => (i, w)).map Prod.fst = l := by
  rw [List.map_map]
  exact List.map_id l

theorem wrote_of_ok {l : List Nat} {w : Weather}
    (h : (flushAmid (l.map fun i => (i, w)) s).1 = .ok ()) :
    Wrote l l s (flushAmid (l.map fun i => (i, w)) s).2 := by
  obtain ⟨done, -, hall, hwrote⟩ := wrote_flushAmid (l.map fun i => (i, w)) s
  rw [hall h, map_fst_visits] at hwrote
  exact hwrote

theorem SameContents.flushAmid {t : Store} (hst : s.SameContents t) (l : List Nat) (w : Weather)
    (hok : (flushAmid (l.map fun i => (i, w)) s).1 = .ok ()) :
    (Store.flushAmid (l.map fun i => (i, w)) t).1 = .ok () ∧
      (Store.flushAmid (l.map fun i => (i, w)) s).2.SameContents
        (Store.flushAmid (l.map fun i => (i, w)) t).2 := by
  have hok' : (Store.flushAmid (l.map fun i => (i, w)) t).1 = .ok () := by
    rw [flushAmid_ok_iff] at hok ⊢
    exact fun i f b hi hdue => (hok i f b hi (hst.due_iff.1 hdue)).congr rfl hst.disk.site
  refine ⟨hok', ?_⟩
  induction l generalizing s t with
  | nil => exact hst
  | cons i l ih =>
    have hone := s.wrote_one i w
    have hone' := t.wrote_one i w
    rw [List.map_cons, Store.flushAmid] at hok hok' ⊢
    rw [Store.flushAmid]
    cases hr : (s.under w).flushFrame i with
    | mk r s' =>
      cases hr' : (t.under w).flushFrame i with
      | mk r' t' =>
        rw [hr] at hok hone
        rw [hr'] at hok' hone'
        cases r with
        | error e => cases hok
        | ok _ =>
          cases r' with
          | error e => cases hok'
          | ok _ =>
            exact ih (hone.sameContents hone' hst fun _ _ b hj _ => alone_one hj b) hok hok'

theorem Wrote.flushAmid_ok {done tried l : List Nat} {w : Weather} (h : Wrote done tried s s')
    (hok : (flushAmid (l.map fun i => (i, w)) s).1 = .ok ()) :
    (flushAmid (l.map fun i => (i, w)) s').1 = .ok () := by
  rw [flushAmid_ok_iff] at hok ⊢
  exact fun i f b hi hdue => (hok i f b hi (h.due_iff.1 hdue).2).congr rfl h.site

/-- What was cut short and is begun again comes to the same as in one go. -/
theorem flushAmid_resumed (visits : List (Nat × Weather)) (w : Weather) (s : Store)
    (hok : (flushAmid ((visits.map Prod.fst).map fun i => (i, w)) s).1 = .ok ()) :
    (flushAmid ((visits.map Prod.fst).map fun i => (i, w)) s).2.SameContents
      (flushAmid ((visits.map Prod.fst).map fun i => (i, w)) (flushAmid visits s).2).2 := by
  induction visits generalizing s with
  | nil => exact .refl s
  | cons visit visits ih =>
    obtain ⟨i, v⟩ := visit
    have hcut := s.wrote_one i v
    rw [flushAmid]
    cases hr : (s.under v).flushFrame i with
    | mk r s' =>
      rw [hr] at hcut
      cases r with
      | error e => exact ((hcut.unchanged nofun).flushAmid _ w hok).2
      | ok _ =>
        replace hcut : Wrote [i] [i] s s' := hcut
        obtain ⟨done, -, -, hrest⟩ := wrote_flushAmid visits s'
        have hnone : ∀ f b, ¬ ((flushAmid visits s').2.under w).Due i f b := fun f b hdue =>
          (hcut.due_iff.1 (hrest.due_iff.1 (due_under.1 hdue)).2).1 (List.mem_singleton_self i)
        have hone := s.wrote_one i w
        rw [List.map_cons, List.map_cons, flushAmid] at hok ⊢
        dsimp only
        rw [flushAmid, flushFrame_of_not_due hnone]
        cases ht : (s.under w).flushFrame i with
        | mk r t =>
          rw [ht] at hok hone
          cases r with
          | error e => cases hok
          | ok _ =>
            have htwin : t.SameContents s' :=
              hone.sameContents hcut (.refl s) fun _ _ b hj _ => alone_one hj b
            obtain ⟨hok', hfirst⟩ := htwin.flushAmid _ w hok
            have hagain := (sameContents_under _ w).flushAmid _ w (hrest.flushAmid_ok hok')
            exact (hfirst.trans (ih s' hok')).trans hagain.2

theorem weather_flushAmid (l : List Nat) (s : Store) :
    (flushAmid (l.map fun i => (i, s.media.weather)) s).2.media.weather = s.media.weather := by
  induction l generalizing s with
  | nil => rfl
  | cons i l ih =>
    have hweather := s.weather_flushFrame i
    have hself : s.under s.media.weather = s := rfl
    rw [List.map_cons, flushAmid, hself]
    cases hr : s.flushFrame i with
    | mk r s' =>
      rw [hr] at hweather
      cases r with
      | error e => exact hweather
      | ok u =>
        dsimp only at hweather ⊢
        rw [← hweather]
        exact ih s'

def changedBy (s : Store) (tx : TxId) (i : Nat) : Bool :=
  (s.pool.frames[i]?.bind Frame.modifiedBy) = some tx

theorem Wrote.changedBy {done tried : List Nat} (h : Wrote done tried s s') (tx : TxId) (i : Nat) :
    s'.changedBy tx i = s.changedBy tx i := by
  rw [Store.changedBy, Store.changedBy, h.frames]
  cases s.pool.frames[i]? with
  | none => rfl
  | some f =>
    simp only [Option.map_some, Option.bind_some]
    split
    · rw [f.modifiedBy_rest]
    · rfl

theorem SameContents.changedBy (h : s.SameContents s') (tx : TxId) (i : Nat) :
    s'.changedBy tx i = s.changedBy tx i := by
  rw [Store.changedBy, Store.changedBy, h.pool]

theorem flushTouched_eq (tx : TxId) (l : List Nat) (s : Store) : Desk.flushTouched tx l s =
    flushAmid ((l.filter (s.changedBy tx)).map fun i => (i, s.media.weather)) s := by
  induction l generalizing s with
  | nil => rfl
  | cons i l ih =>
    unfold Desk.flushTouched
    by_cases hi : (s.pool.frames[i]?.bind Frame.modifiedBy) = some tx
    · have hc : s.changedBy tx i = true := decide_eq_true hi
      have hself : s.under s.media.weather = s := rfl
      have hwrote := s.wrote_flushFrame i
      have hweather := s.weather_flushFrame i
      rw [if_pos hi, List.filter_cons, if_pos hc, List.map_cons, flushAmid, hself]
      cases hr : s.flushFrame i with
      | mk r s' =>
        rw [hr] at hwrote hweather
        cases r with
        | error e => rfl
        | ok u =>
          have hsame : s'.changedBy tx = s.changedBy tx := funext (hwrote.changedBy tx)
          dsimp only at hweather ⊢
          rw [ih s', hsame, hweather]
    · have hc : ¬ s.changedBy tx i = true := fun h => hi (of_decide_eq_true h)
      rw [if_neg hi, List.filter_cons, if_neg hc, ih s]

/-- The places from `n` on of the frames asked for. -/
def places (asked : Frame → Bool) : (n : Nat) → List Frame → List Nat
  | _, [] => []
  | n, f :: fs => if asked f then n :: places asked (n + 1) fs else places asked (n + 1) fs

theorem mem_places {asked : Frame → Bool} {n i : Nat} {fs : List Frame} :
    i ∈ places asked n fs ↔ n ≤ i ∧ ∃ f, fs[i - n]? = some f ∧ asked f = true := by
  induction fs generalizing n with
  | nil => simp [places]
  | cons f fs ih =>
    have hrest : i ∈ places asked (n + 1) fs ↔
        n < i ∧ ∃ g, (f :: fs)[i - n]? = some g ∧ asked g = true := by
      rw [ih]
      refine and_congr_right fun hlt => ?_
      obtain ⟨k, rfl⟩ := Nat.exists_eq_add_of_lt hlt
      have h₁ : n + k + 1 - (n + 1) = k := by omega
      have h₂ : n + k + 1 - n = k + 1 := by omega
      rw [h₁, h₂, List.getElem?_cons_succ]
    have hsplit : (n ≤ i ∧ ∃ g, (f :: fs)[i - n]? = some g ∧ asked g = true) ↔
        (i = n ∧ asked f = true) ∨ (n < i ∧ ∃ g, (f :: fs)[i - n]? = some g ∧ asked g = true) := by
      constructor
      · rintro ⟨hle, g, hg, ha⟩
        rcases Nat.eq_or_lt_of_le hle with rfl | hlt
        · rw [Nat.sub_self, List.getElem?_cons_zero] at hg
          obtain rfl := Option.some.inj hg
          exact .inl ⟨rfl, ha⟩
        · exact .inr ⟨hlt, g, hg, ha⟩
      · rintro (⟨rfl, ha⟩ | ⟨hlt, hg⟩)
        · exact ⟨Nat.le_refl _, f, by rw [Nat.sub_self, List.getElem?_cons_zero], ha⟩
        · exact ⟨Nat.le_of_lt hlt, hg⟩
    rw [hsplit, places]
    split
    · rename_i ha
      rw [List.mem_cons, hrest]
      exact or_congr_left (iff_self_and.2 fun _ => ha)
    · rename_i ha
      rw [hrest]
      exact ⟨.inr, fun h => h.resolve_left fun hf => ha hf.2⟩

theorem places_all (n : Nat) (fs : List Frame) :
    places (fun _ => true) n fs = List.range' n fs.length := by
  induction fs generalizing n with
  | nil => rfl
  | cons f fs ih => rw [places, if_pos rfl, ih, List.length_cons, List.range'_succ]

theorem flushFrame_append (p : Pool) (pre fs : List Frame) (f : Frame) (m : Media) :
    flushFrame ⟨m, { p with frames := pre ++ f :: fs }⟩ pre.length =
      match f.flush m with
      | (.error e, m) => (.error e, ⟨m, { p with frames := pre ++ f :: fs }⟩)
      | (.ok g, m) => (.ok (), ⟨m, { p with frames := pre ++ g :: fs }⟩) := by
  have hf : (pre ++ f :: fs)[pre.length]? = some f := by simp
  have hset : ∀ g, (pre ++ f :: fs).set pre.length g = pre ++ g :: fs := by simp
  unfold flushFrame
  dsimp only
  rw [hf]
  dsimp only
  cases f.flush m with
  | mk r m' =>
    cases r with
    | error e => rfl
    | ok g =>
      dsimp only
      rw [hset]

theorem flushWhere_eq (s : Store) (asked : Frame → Bool) : s.flushWhere asked =
    flushAmid ((places asked 0 s.pool.frames).map fun i => (i, s.media.weather)) s := by
  have key : ∀ (fs pre : List Frame) (m : Media),
      flushAmid ((places asked pre.length fs).map fun i => (i, m.weather))
          ⟨m, { s.pool with frames := pre ++ fs }⟩ =
        ((flushFrames asked fs m).1, ⟨(flushFrames asked fs m).2.2,
          { s.pool with frames := pre ++ (flushFrames asked fs m).2.1 }⟩) := by
    intro fs
    induction fs with
    | nil => exact fun _ _ => rfl
    | cons f fs ih =>
      intro pre m
      have hnext : ∀ g m, flushAmid ((places asked (pre.length + 1) fs).map fun i => (i, m.weather))
          ⟨m, { s.pool with frames := pre ++ g :: fs }⟩ =
            ((flushFrames asked fs m).1, ⟨(flushFrames asked fs m).2.2,
              { s.pool with frames := pre ++ g :: (flushFrames asked fs m).2.1 }⟩) := by
        intro g m
        have hg := ih (pre ++ [g]) m
        simpa only [List.length_append, List.length_singleton, List.append_assoc,
          List.singleton_append] using hg
      unfold places flushFrames
      split
      · have hweather := weather_flushFrame ⟨m, { s.pool with frames := pre ++ f :: fs }⟩ pre.length
        have hself : under ⟨m, { s.pool with frames := pre ++ f :: fs }⟩ m.weather =
            ⟨m, { s.pool with frames := pre ++ f :: fs }⟩ := rfl
        rw [List.map_cons, flushAmid, hself]
        rw [flushFrame_append] at hweather ⊢
        cases hr : f.flush m with
        | mk r m' =>
          rw [hr] at hweather
          cases r with
          | error e => rfl
          | ok g =>
            dsimp only at hweather ⊢
            rw [← hweather, hnext g m']
      · exact hnext f m
  exact (key s.pool.frames [] s.media).symm

/-- Writes all frames of a pool back in turn, frame `i` in the weather `sky i`. -/
def flushAllAmid (sky : Nat → Weather) (s : Store) : Outcome Unit × Store :=
  flushAmid ((List.range s.pool.size).map fun i => (i, sky i)) s

theorem flushAll_eq (s : Store) : s.flushAll = s.flushAllAmid fun _ => s.media.weather := by
  rw [flushAll, flushWhere_eq, places_all, ← List.range_eq_range']
  rfl

end Store

end PagedStore
