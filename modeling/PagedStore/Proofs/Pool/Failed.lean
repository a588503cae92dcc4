import PagedStore.Proofs.Engine.Kept
import PagedStore.Proofs.Pool.Chance
import PagedStore.Proofs.Pool.Flushes

set_option autoImplicit false

/-!
A pin that fails, in a weather that may turn while it goes on. Main statements:
`Store.failed_of_pin`, what it leaves of a pool in any state, and `failed_pin`, that nothing is lost
by it. The latter takes files that have one name each (`not_failed_pin`).
-/

namespace PagedStore

theorem Frame.rest_of_flush {f g : Frame} {m m' : Media} (h : f.flush m = (.ok g, m')) :
    g = f.rest := by
  have hfl := flushed f m
  rw [h] at hfl
  cases hfl with
  | clean hd hf => exact (rest_of_rested (.inl (by rw [hd, hf]; rfl))).symm
  | unplaced hb => exact (rest_of_rested (.inr hb)).symm
  | saved hb hm hw => exact (rest_of_block hb).symm

namespace Store

/-- Gives frame `i` to what is wanted. Once the frame is written back the weather is `turned`. -/
def rebindAmid (turned : Weather) (s : Store) (i : Nat) (f : Frame) (w : Wanted) :
    Outcome Unit × Store :=
  match f.flush s.media with
  | (.error e, m) => (.error e, { s with media := m })
  | (.ok g, m) => (({ s with media := m }.setFrame i g).under turned).refill i g w

def claimAmid (turned : Weather) (s : Store) (w : Wanted) : Outcome (Option Nat) × Store :=
  let (found, pool) := s.pool.victim
  let s := { s with pool }
  match found.bind fun i => pool.frames[i]?.map fun f => (i, f) with
  | none => (.ok none, s)
  | some (i, f) =>
    match s.rebindAmid turned i f w with
    | (.error e, s) => (.error e, s)
    | (.ok (), s) => (.ok (some i), { s with pool := { s.pool.take i with lastClaimed := i } })

/-- Pins a frame for what is wanted, in a weather that turns when its frame is written back. -/
def pinAmid (turned : Weather) (s : Store) : Wanted → Outcome (Option Nat) × Store
  | .block b =>
    if s.pool.table.find? b = none then s.claimAmid turned (.block b) else s.pin (.block b)
  | .fresh file format => s.claimAmid turned (.fresh file format)

/-- How it may fail to give the victim `i`, which was `f`, to what is wanted. -/
inductive Failing (turned : Weather) (s : Store) (w : Wanted) (i : Nat) (f : Frame) (e : Failure) :
    Store → Prop
  | unsaved {m : Media} (hr : f.disarm.flush s.disarmed.media = (.error e, m)) :
      Failing turned s w i f e { s.disarmed with media := m }
  | unfilled {m : Media} {s' : Store}
      (hr : f.disarm.flush s.disarmed.media = (.ok f.disarm.rest, m))
      (hfill : (({ s.disarmed with media := m }.setFrame i f.disarm.rest).under turned).refill i
        f.disarm.rest w = (.error e, s')) : Failing turned s w i f e s'

/-- What a failed pin makes of frame `i`, which was to be given to what was asked for: it is left as
it was because it could not be written back, or it has no block, and the table has lost the one it
had. -/
inductive Spoilt (s : Store) (i : Nat) (f : Frame) (e : Failure) (s' : Store) : Prop
  | unsaved (cause : (f.disarm.flush s.media).1 = .error e)
      (frame : s'.pool.frames[i]? = some f.disarm) (table : s'.pool.table = s.pool.table)
  | vacated (saved : (f.disarm.flush s.media).1 = .ok f.disarm.rest)
      (frame : s'.pool.frames[i]? = some { f.disarm.rest with block := none })
      (gone : ∀ b, f.block = some b → s'.pool.table.find? b = none)

/-- What a failed pin leaves of the pool: frame `i` is the one that the second-chance rule gives,
and the others have lost second chances at most. -/
structure Failed (s : Store) (w : Wanted) (e : Failure) (s' : Store) (i : Nat) (f : Frame) :
    Prop where
  chosen : s.pool.secondChance = some i
  frame : s.pool.frames[i]? = some f
  unpinned : f.pins = 0
  spoilt : s.Spoilt i f e s'
  others : ∀ j g, j ≠ i → s.pool.frames[j]? = some g →
    s'.pool.frames[j]? = some g ∨ s'.pool.frames[j]? = some g.disarm
  size : s'.pool.size = s.pool.size
  free : s'.pool.free = s.pool.free
  entries : ∀ b, f.block ≠ some b → s'.pool.table.find? b = s.pool.table.find? b
  wanted : ∀ b, w = .block b → s'.pool.table.find? b = none

/-- A frame without a block has nothing to write back. -/
def Housed (s : Store) : Prop := ∀ (i : Nat) (f : Frame), s.pool.frames[i]? = some f →
  f.block = none → f.dirty = false ∧ f.fresh = false

def Addresses (s : Store) : PoolCall → Prop
  | .write i _ _ | .writeLogged i _ _ _ _ => ∃ b, s.blockAt? i = some b
  | _ => True

/-- Frames are written to while they have a block. -/
def Addressed (s : Store) : List PoolCall → Prop
  | [] => True
  | c :: cs => s.Addresses c ∧ (s.step c).Addressed cs

variable {s s' : Store} {w : Wanted} {e : Failure} {turned : Weather}

theorem find?_forget_self (table : Registry BlockId Nat) (b : BlockId) :
    (forget table (some b)).find? b = none := Registry.find?_erase_self ..

theorem find?_forget_of_none {table : Registry BlockId Nat} (old : Option BlockId) {b : BlockId}
    (h : table.find? b = none) : (forget table old).find? b = none := by
  by_cases hold : old = some b
  · rw [hold]
    exact find?_forget_self table b
  · rw [find?_forget hold, h]

theorem others_disarmed {frames : List Frame} {i : Nat}
    (h : ∀ j, j ≠ i → frames[j]? = s.disarmed.pool.frames[j]?) (j : Nat) (g : Frame) (hj : j ≠ i)
    (hg : s.pool.frames[j]? = some g) : frames[j]? = some g ∨ frames[j]? = some g.disarm := by
  rw [h j hj, disarmed, getElem?_disarm, hg, Option.map_some]
  split
  · exact .inr rfl
  · exact .inl rfl

theorem rebindAmid_self {i : Nat} {f : Frame} (hi : s.pool.frames[i]? = some f) (w : Wanted) :
    s.rebindAmid s.media.weather i f w = s.rebind i f w := by
  have hweather := s.weather_flushFrame i
  unfold rebindAmid
  cases hr : f.flush s.media with
  | mk r m =>
    simp only [flushFrame, hi, hr] at hweather
    cases r with
    | error e => rw [rebind_of_unflushed hi hr]
    | ok g =>
      rw [rebind_of_flushed hr, ← hweather]
      rfl

theorem claimAmid_self (s : Store) (w : Wanted) : s.claimAmid s.media.weather w = s.claim w := by
  unfold claimAmid claim
  dsimp only
  cases hfound : s.pool.victim.1.bind fun i => s.pool.victim.2.frames[i]?.map fun f => (i, f) with
  | none => rfl
  | some found =>
    obtain ⟨i, f⟩ := found
    have hself : rebindAmid s.media.weather { s with pool := s.pool.victim.2 } i f w = _ :=
      rebindAmid_self (found_frame hfound).2 w
    cases hr : rebind { s with pool := s.pool.victim.2 } i f w with
    | mk r t => cases r <;> simp only [hself.trans hr, hr]

theorem pinAmid_self (s : Store) (w : Wanted) : s.pinAmid s.media.weather w = s.pin w := by
  cases w with
  | fresh file format => exact s.claimAmid_self _
  | block b =>
    simp only [pinAmid, pin, pinBlock]
    cases hb : s.pool.table.find? b with
    | none => exact s.claimAmid_self _
    | some i => rfl

theorem claimAmid_of_secondChance (w : Wanted) {i : Nat} {f : Frame}
    (h : s.pool.secondChance = some i) (hf : s.pool.frames[i]? = some f) :
    s.claimAmid turned w = match s.disarmed.rebindAmid turned i f.disarm w with
      | (.error e, t) => (.error e, t)
      | (.ok (), t) =>
        (.ok (some i), { t with pool := { t.pool.take i with lastClaimed := i } }) := by
  unfold claimAmid
  rw [Pool.victim_eq, h]
  simp only [Option.bind_some, Pool.disarm_passedOver_of_victim hf h, Option.map_some]
  rfl

theorem failing_of_claim (h : (s.claimAmid turned w).1 = .error e) :
    ∃ i f, s.pool.secondChance = some i ∧ s.pool.frames[i]? = some f ∧ f.pins = 0 ∧
      s.Failing turned w i f e (s.claimAmid turned w).2 := by
  cases hi : s.pool.secondChance with
  | none =>
    unfold claimAmid at h
    rw [Pool.victim_eq, hi] at h
    cases h
  | some i =>
    obtain ⟨f, hf, h₀⟩ := Pool.frame_of_spare (Pool.spare_of_secondChance hi)
    refine ⟨i, f, rfl, hf, h₀, ?_⟩
    rw [claimAmid_of_secondChance w hi hf, rebindAmid] at h ⊢
    cases hr : f.disarm.flush s.disarmed.media with
    | mk r m =>
      rw [hr] at h
      cases r with
      | error e' =>
        obtain rfl : e' = e := Except.error.inj h
        exact .unsaved hr
      | ok g =>
        obtain rfl := Frame.rest_of_flush hr
        dsimp only at h ⊢
        cases hfill : (({ s.disarmed with media := m }.setFrame i f.disarm.rest).under
            turned).refill i f.disarm.rest w with
        | mk r s' =>
          rw [hfill] at h
          cases r with
          | ok u => cases h
          | error e' =>
            obtain rfl : e' = e := Except.error.inj h
            exact .unfilled hr hfill

theorem failing_of_pin {e : Error} (h : (s.pinAmid turned w).1 = .error (.error e)) :
    ∃ i f, s.pool.secondChance = some i ∧ s.pool.frames[i]? = some f ∧ f.pins = 0 ∧
      (∀ b, w = .block b → s.pool.table.find? b = none) ∧
      s.Failing turned w i f (.error e) (s.pinAmid turned w).2 := by
  have hclaim : ∀ w, (∀ b, w = .block b → s.pool.table.find? b = none) →
      (s.claimAmid turned w).1 = .error (.error e) →
      ∃ i f, s.pool.secondChance = some i ∧ s.pool.frames[i]? = some f ∧ f.pins = 0 ∧
        (∀ b, w = .block b → s.pool.table.find? b = none) ∧
        s.Failing turned w i f (.error e) (s.claimAmid turned w).2 := by
    intro w hw hc
    obtain ⟨i, f, hi, hf, h₀, hfail⟩ := failing_of_claim hc
    exact ⟨i, f, hi, hf, h₀, hw, hfail⟩
  cases w with
  | fresh file format => exact hclaim _ nofun h
  | block b =>
    simp only [pinAmid, pin, pinBlock] at h ⊢
    cases ht : s.pool.table.find? b with
    | none =>
      rw [ht, if_pos rfl] at h
      rw [if_pos rfl]
      refine hclaim _ (fun c hc => ?_) h
      cases hc
      exact ht
    | some i =>
      rw [ht, if_neg (Option.some_ne_none i)] at h
      dsimp only at h
      split at h <;> cases h

theorem failed_of_pin {e : Error} (h : (s.pinAmid turned w).1 = .error (.error e)) :
    ∃ i f, s.Failed w (.error e) (s.pinAmid turned w).2 i f := by
  obtain ⟨i, f, hi, hf, h₀, hw, hfail⟩ := failing_of_pin h
  have hframe : s.disarmed.pool.frames[i]? = some f.disarm :=
    Pool.disarm_passedOver_of_victim hf hi
  have hlt := (List.getElem?_eq_some_iff.1 hframe).1
  have hsize : s.disarmed.pool.frames.length = s.pool.frames.length := List.length_mapIdx
  refine ⟨i, f, ?_⟩
  generalize (s.pinAmid turned w).2 = s' at hfail
  cases hfail with
  | unsaved hr =>
    exact ⟨hi, hf, h₀, .unsaved (congrArg Prod.fst hr) hframe rfl,
      others_disarmed fun _ _ => rfl, hsize, rfl, fun _ _ => rfl, hw⟩
  | unfilled hr hfill =>
    obtain ⟨m', rfl⟩ := emptied_of_refill hfill
    have hblock : f.disarm.rest.block = f.block := Frame.block_rest _
    simp only [hblock, under, setFrame, List.set_set]
    refine ⟨hi, hf, h₀, .vacated (congrArg Prod.fst hr) ?_ fun b hb => ?_,
      others_disarmed fun j hj => List.getElem?_set_ne fun he => hj he.symm, ?_, rfl,
      fun b hb => find?_forget hb, fun b hb => find?_forget_of_none _ (hw b hb)⟩
    · exact List.getElem?_set_self hlt
    · rw [hb]
      exact find?_forget_self _ b
    · exact List.length_set.trans hsize

theorem still_disarmed (s : Store) : Still s s.disarmed := by
  have hstill := still_victim s
  rw [Pool.victim_eq] at hstill
  exact hstill

theorem Failing.stages {i : Nat} {f : Frame} (h : s.Failing turned w i f e s')
    (hi : s.pool.secondChance = some i) (hf : s.pool.frames[i]? = some f) :
    s.disarmed.flushFrame i = (.error e, s') ∨ ∃ s₂, s.disarmed.flushFrame i = (.ok (), s₂) ∧
      (s₂.under turned).pool.frames[i]? = some f.disarm.rest ∧ f.disarm.rest.Rested ∧
      (s₂.under turned).refill i f.disarm.rest w = (.error e, s') := by
  have hframe : s.disarmed.pool.frames[i]? = some f.disarm :=
    Pool.disarm_passedOver_of_victim hf hi
  cases h with
  | unsaved hr => exact .inl (by simp only [flushFrame, hframe, hr])
  | unfilled hr hfill =>
    refine .inr ⟨_, ?_, ?_, Frame.rested_of_flush hr, hfill⟩
    · simp only [flushFrame, hframe, hr, setFrame]
    · exact List.getElem?_set_self (List.getElem?_eq_some_iff.1 hframe).1

theorem kept_housed : Store.Kept Store.Housed := kept_frames {
  core := fun hc hs hb => by
    obtain ⟨-, -, hfb, hd, hfr, -⟩ := Frame.core_eq_iff.1 hc
    exact hd ▸ hfr ▸ hs (hfb.trans hb)
  saved := fun _ _ => ⟨rfl, rfl⟩
  vacated := fun hc hs _ => hc.elim hs id
  read := fun _ _ _ => nofun
  added := fun _ _ _ => nofun }

theorem Housed.failing (h : s.Housed) {i : Nat} {f : Frame} (hfail : s.Failing turned w i f e s')
    (hi : s.pool.secondChance = some i) (hf : s.pool.frames[i]? = some f) : s'.Housed := by
  have hflush := kept_housed.flush i (kept_housed.still s.still_disarmed h)
  rcases hfail.stages hi hf with hr | ⟨s₂, hr, hat, hrest, hfill⟩
  · rwa [hr] at hflush
  · rw [hr] at hflush
    have hre := kept_housed.refill w hat hrest hflush
    rwa [hfill] at hre

theorem Housed.editFrame (h : s.Housed) {i : Nat} {b : BlockId} (hb : s.blockAt? i = some b)
    {edit : Frame → Except Error Frame} (he : ∀ f g, edit f = .ok g → g.block = f.block) :
    (s.editFrame i edit).2.Housed := by
  intro j g hg hn
  rcases before_editFrame hg with hf | ⟨f, rfl, hf, hfg⟩
  · exact h j g hf hn
  · rw [he f g hfg, ← blockAt?_of_frame hf, hb] at hn
    cases hn

theorem Housed.step (h : s.Housed) {c : PoolCall} (hc : s.Addresses c) : (s.step c).Housed := by
  cases c with
  | pin w => exact kept_housed.pin h w
  | unpin i => exact kept_housed.still (still_unpin s i) h
  | flush i => exact kept_housed.flush i h
  | flushAll | flushFor tx =>
    exact flushWhere_induct (P := Housed) (fun _ i hs => kept_housed.flush i hs) h _
  | write i offset v =>
    obtain ⟨b, hb⟩ := hc
    exact h.editFrame hb fun _ _ hg => (Frame.of_write hg).1
  | writeLogged i offset v tx lsn =>
    obtain ⟨b, hb⟩ := hc
    exact h.editFrame hb fun _ _ hg => (Frame.of_writeLogged hg).2.1
  | log l => exact h
  | fault cause => exact h

theorem Housed.run (h : s.Housed) {calls : List PoolCall} (hc : s.Addressed calls) :
    (s.run calls).Housed := by
  induction calls generalizing s with
  | nil => exact h
  | cons c cs ih => exact ih (h.step hc.1) hc.2

theorem housed_over {disk : Disk} {log : Log} {size stripes : Nat} {pool : Pool}
    (hc : Pool.create size stripes disk.blockSize = .ok pool) :
    (Store.over disk log pool).Housed := by
  intro i f hf _
  rw [(Pool.create_eq_ok hc).2.2 hf]
  exact ⟨rfl, rfl⟩

end Store

namespace Mirrors

variable {names : String → Prop} {flat : Flat} {s s' : Store} {w : Wanted} {e : Failure}

theorem failing (hd : Distinct names) (h : Mirrors names flat s) {turned : Weather} {i : Nat}
    {f : Frame} (hfail : s.Failing turned w i f e s') (hi : s.pool.secondChance = some i)
    (hf : s.pool.frames[i]? = some f) : Mirrors names flat s' := by
  have hflush := (h.still s.still_disarmed).flushFrame hd i
  rcases hfail.stages hi hf with hr | ⟨s₂, hr, hat, hrest, hfill⟩
  · rwa [hr] at hflush
  · rw [hr] at hflush
    have hturned := hflush.same (m := s₂.media.under turned) ⟨rfl, fun _ => rfl⟩
    exact hturned.refill_error hat hrest hfill

theorem peek_of_gone (h : Mirrors names flat s) (h' : Mirrors names flat s') {i : Nat} {f : Frame}
    {b : BlockId} (hf : s.pool.frames[i]? = some f) (hb : f.block = some b)
    (hgone : s'.pool.table.find? b = none) : s'.media.disk.peek b = f.data := by
  have hshows := h.shows hf hb
  exact (h'.rest hshows.named (h'.unframed hgone)).trans hshows.bytes.symm

end Mirrors

/-- A pin that fails after any run of a new pool, in a weather that may turn once the victim is
written back: beside the frame that the second-chance rule gives nothing changes but second chances;
that frame is as it was because it could not be written back, or it has no block and the table has
none for it; and what was asked for has no entry. Frames without a block are clean where only frames
with blocks were written to. In an orderly run the file has what the emptied frame had, and every
later pin gives its block with all changes that were made, before and after. -/
theorem failed_pin {disk : Disk} {log : Log} {size stripes : Nat} {pool : Pool}
    (hc : Pool.create size stripes disk.blockSize = .ok pool) {calls : List PoolCall} {w : Wanted}
    {turned : Weather} {e : Error}
    (he : (((Store.over disk log pool).run calls).pinAmid turned w).1 = .error (.error e)) :
    let s := (Store.over disk log pool).run calls
    let s' := (s.pinAmid turned w).2
    s.pin w = s.pinAmid s.media.weather w ∧ (∃ i f, s.Failed w (.error e) s' i f) ∧
    ((Store.over disk log pool).Addressed calls → s'.Housed) ∧
    ∀ names : String → Prop, Distinct names → (Store.over disk log pool).Orderly names calls →
      (∀ (i : Nat) (f : Frame) b, s.pool.frames[i]? = some f → f.block = some b →
        s'.pool.table.find? b = none → s'.media.disk.peek b = f.data) ∧
      ∀ later, s'.Orderly names later → ∀ b i, (s'.run later).Permits names (.pin (.block b)) →
        ((s'.run later).pin (.block b)).1 = .ok (some i) →
        ∃ f : Frame, ((s'.run later).pin (.block b)).2.pool.frames[i]? = some f ∧
          f.block = some b ∧
          f.data = (((Flat.ofDisk disk).replay ((Store.over disk log pool).changes calls)).replay
            (s'.changes later)).block b := by
  intro s s'
  obtain ⟨i, f, hi, hf, -, -, hfail⟩ := Store.failing_of_pin he
  refine ⟨(s.pinAmid_self w).symm, Store.failed_of_pin he, fun ha => ?_, fun names hd ho => ?_⟩
  · exact ((Store.housed_over hc).run ha).failing hfail hi hf
  · have h : Mirrors names ((Flat.ofDisk disk).replay ((Store.over disk log pool).changes calls))
        s := (mirrors_over hc).run hd ho
    have h' := h.failing hd hfail hi hf
    exact ⟨fun i f b hf hb hgone => h.peek_of_gone h' hf hb hgone,
      fun later hl b i hb hpin => (h'.run hd hl).shows_pinned hd hb hpin⟩

def settled : List PoolCall := [.pin (.fresh "a" .zero), .write 0 0 (.int 7), .unpin 0]

/-- The files begin to refuse when the only frame has been written back. It has lost its block by
then, but what was written to the block is read when they are in order again. -/
theorem failed_pin_settled : Pool.create 1 1 12 = .ok oneFrame ∧ Distinct (fun n => n = "a") ∧
    let turned : Weather := ⟨.none, some .notFound⟩
    let s' := ((small.run settled).pinAmid turned (.fresh "a" .zero)).2
    ((small.run settled).pinAmid turned (.fresh "a" .zero)).1 = .error (.error (.io .notFound)) ∧
    (∃ f, (small.run settled).Failed (.fresh "a" .zero) (.error (.io .notFound)) s' 0 f) ∧
    s'.Housed ∧ s'.blockAt? 0 = none ∧
    ∃ f : Frame, ((s'.run [.fault none]).pin (.block ⟨"a", 0⟩)).2.pool.frames[0]? = some f ∧
      f.block = some ⟨"a", 0⟩ ∧ Page.payload f.data = [0, 0, 0, 7] := by
  have hc : Pool.create 1 1 12 = .ok oneFrame := rfl
  have hd : Distinct fun n => n = "a" := fun m n hm hn _ _ => hm.trans hn.symm
  have he : ((small.run settled).pinAmid ⟨.none, some .notFound⟩ (.fresh "a" .zero)).1 =
      .error (.error (.io .notFound)) := rfl
  have ho : small.Orderly (fun n => n = "a") settled := by
    simp only [settled, Store.Orderly, Store.Permits, and_self]
  have ha : small.Addressed settled := by
    simp only [settled, Store.Addressed, Store.Addresses, true_and, and_true]
    exact ⟨⟨"a", 0⟩, by decide +kernel⟩
  obtain ⟨-, ⟨i, f, hfailed⟩, hhoused, hlater⟩ :=
    @failed_pin { blockSize := 12 } .empty 1 1 oneFrame hc settled (.fresh "a" .zero) _ _ he
  have hi : i = 0 := Option.some.inj (hfailed.chosen.symm.trans (by decide +kernel))
  obtain ⟨-, hshows⟩ := hlater _ hd ho
  obtain ⟨g, hg, hgb, hdata⟩ := hshows [.fault none] ⟨trivial, trivial⟩ ⟨"a", 0⟩ 0
    ⟨rfl, fun _ _ _ => by decide +kernel⟩ rfl
  refine ⟨hc, hd, he, ⟨f, hi ▸ hfailed⟩, hhoused ha, by decide +kernel, g, hg, hgb, ?_⟩
  rw [hdata]
  decide +kernel

/-- One block is in two frames, under two names of its file, and written in both. -/
def fumbled : List PoolCall :=
  [.pin (.fresh "f" .zero), .pin (.block ⟨"./f", 0⟩), .write 1 0 (.int 9), .write 0 0 (.int 7),
    .unpin 0, .unpin 1]

/-- What was written last is written back when a pin fails, and goes when the other frame is written
over it. -/
theorem not_failed_pin : Pool.create 2 1 12 = .ok twoFrames ∧
    let names := fun n => n ∈ ["f", "./f", "", "g"]
    let s := roomy.run fumbled
    let s' := (s.pin (.fresh "" .zero)).2
    let later := [.pin (.fresh "g" .zero)]
    roomy.Orderly names fumbled ∧
    (s.pin (.fresh "" .zero)).1 = .error (.error (.io .isDirectory)) ∧ s'.Orderly names later ∧
    ((s'.run later).pin (.block ⟨"f", 0⟩)).1 = .ok (some 1) ∧
    ∃ f : Frame, ((s'.run later).pin (.block ⟨"f", 0⟩)).2.pool.frames[1]? = some f ∧
      f.block = some ⟨"f", 0⟩ ∧ Page.payload f.data = [0, 0, 0, 9] ∧
      Page.payload ((((Flat.ofDisk { blockSize := 12 }).replay (roomy.changes fumbled)).replay
        (s'.changes later)).block ⟨"f", 0⟩) = [0, 0, 0, 7] := by
  have ho : roomy.Orderly (fun n => n ∈ ["f", "./f", "", "g"]) fumbled := by
    simp only [fumbled, Store.Orderly, Store.Permits, and_true]
    refine ⟨by decide, by decide, fun _ _ _ => ?_⟩
    decide +kernel
  have hnext : "g" ∈ ["f", "./f", "", "g"] := by decide
  exact ⟨rfl, ho, rfl, ⟨hnext, trivial⟩, rfl, _, rfl, by decide +kernel, by decide +kernel,
    by decide +kernel⟩

end PagedStore
