import PagedStore.Proofs.Pool.Flat

set_option autoImplicit false

/-!
Runs of a pool. Main statements: `Mirrors.step` for one call, and `mirrors_flat` for a run from a
new pool: frames and disk show what a store without a pool has after the same changes.
-/

namespace PagedStore

inductive PoolCall where
  | pin (w : Wanted)
  | unpin (i : Nat)
  | flush (i : Nat)
  | flushAll
  | flushFor (tx : TxId)
  | write (i offset : Nat) (v : Value)
  | writeLogged (i offset : Nat) (v : Value) (tx : TxId) (lsn : UInt64)
  | log (l : Log)
  | fault (cause : Option IoCause)

namespace Store

def step (s : Store) : PoolCall → Store
  | .pin w => (s.pin w).2
  | .unpin i => (s.unpin i).2
  | .flush i => (s.flushFrame i).2
  | .flushAll => s.flushAll.2
  | .flushFor tx => (s.flushFor tx).2
  | .write i offset v => (s.editFrame i fun f => f.write offset v).2
  | .writeLogged i offset v tx lsn =>
    (s.editFrame i fun f => f.writeLogged offset v tx lsn.toNat).2
  | .log l => { s with media := { s.media with log := l } }
  | .fault cause =>
    { s with media := { s.media with disk := { s.media.disk with fault := cause } } }

def run (s : Store) (calls : List PoolCall) : Store := calls.foldl step s

/-- What a call asks to change. A block is added where a frame was found for it. -/
def change? (s : Store) : PoolCall → Option Change
  | .write i offset v => (s.blockAt? i).map fun b => .put b offset v none
  | .writeLogged i offset v _ lsn => (s.blockAt? i).map fun b => .put b offset v (some lsn.toNat)
  | .pin (.fresh file format) =>
    match (s.pin (.fresh file format)).1 with
    | .ok (some _) => some (.add file format)
    | _ => none
  | _ => none

def changes (s : Store) : List PoolCall → List Change
  | [] => []
  | c :: cs => (s.change? c).toList ++ changes (s.step c) cs

/-- A block that has to be loaded, and is, lies inside its file. -/
def Permits (names : String → Prop) (s : Store) : PoolCall → Prop
  | .pin (.block b) => names b.file ∧
      (s.pool.table.find? b = none → (∀ i, (s.pin (.block b)).1 = .ok (some i) →
        b.number < s.media.disk.blocks b.file))
  | .pin (.fresh file _) => names file
  | _ => True

def Orderly (names : String → Prop) (s : Store) : List PoolCall → Prop
  | [] => True
  | c :: cs => Permits names s c ∧ Orderly names (s.step c) cs

end Store

/-- What is wanted can be given to a frame: a block inside its file that no frame has, or a new
one. -/
def Store.Fits (names : String → Prop) (s : Store) : Wanted → Prop
  | .block b =>
    names b.file ∧ s.pool.table.find? b = none ∧ b.number < s.media.disk.blocks b.file
  | .fresh file _ => names file

def Flat.given (flat : Flat) : Wanted → Flat
  | .block _ => flat
  | .fresh file format => flat.apply (.add file format)

def Flat.answered (flat : Flat) (w : Wanted) : Outcome (Option Nat) → Flat
  | .ok (some _) => flat.given w
  | _ => flat

namespace Mirrors

variable {names : String → Prop} {flat : Flat} {s : Store}

theorem refill_error (h : Mirrors names flat s) {i : Nat} {f : Frame} {w : Wanted} {e : Failure}
    {s' : Store} (hf : s.pool.frames[i]? = some f) (hc : f.Rested)
    (hr : s.refill i f w = (.error e, s')) : Mirrors names flat s' := by
  have hfill := s.refilled i f w
  rw [hr] at hfill
  cases hfill with
  | @unread b e' d hread =>
    have hs := Disk.same_read s.media.disk b f.data.length
    rw [hread] at hs
    exact h.vacate hf hc hs e
  | unadded hadd => exact h.vacate hf hc (Disk.same_of_append_error hadd) e

theorem refill_ok (hd : Distinct names) (h : Mirrors names flat s) {i : Nat} {f : Frame}
    {w : Wanted} {s' : Store} (hf : s.pool.frames[i]? = some f) (hc : f.Rested)
    (hw : s.Fits names w) (hr : s.refill i f w = (.ok (), s')) :
    Mirrors names (flat.given w) s' := by
  have hfill := s.refilled i f w
  rw [hr] at hfill
  cases hfill with
  | read hread => exact h.load hf hc hw.1 hw.2.2 hw.2.1 hread rfl
  | added hadd => exact h.extend hd hf hc hw hadd rfl

theorem claim (hd : Distinct names) (h : Mirrors names flat s) {w : Wanted}
    (hw : ∀ i, (s.claim w).1 = .ok (some i) → s.Fits names w) :
    Mirrors names (flat.answered w (s.claim w).1) (s.claim w).2 := by
  have hcl := Store.claimed s w
  generalize s.claim w = r at hcl hw
  cases hcl with
  | full hs => exact h.still hs
  | @unflushed s₁ s₂ i e hs hf =>
    have h₂ := (h.still hs).flushFrame hd i
    rwa [hf] at h₂
  | @unfilled s₁ s₂ s₃ i f e hs hf hi hrest hr =>
    have h₂ := (h.still hs).flushFrame hd i
    rw [hf] at h₂
    exact h₂.refill_error hi hrest hr
  | @filled s₁ s₂ s₃ s₄ i f hs hf hi hrest hr hs' =>
    have h₂ := (h.still hs).flushFrame hd i
    have ht := Store.table_flushFrame s₁ i
    rw [hf] at h₂ ht
    refine (h₂.refill_ok hd hi hrest ?_ hr).still hs'
    have hfit := hw i rfl
    cases w with
    | block b =>
      obtain ⟨hb, hnone, hin⟩ := hfit
      refine ⟨hb, by rw [ht, hs.table, hnone], ?_⟩
      rw [h₂.length hb, ← h.length hb]
      exact hin
    | fresh file format => exact hfit

theorem pin (hd : Distinct names) (h : Mirrors names flat s) {w : Wanted}
    (hp : s.Permits names (.pin w)) :
    Mirrors names (flat.replay (s.change? (.pin w)).toList) (s.step (.pin w)) := by
  cases w with
  | block b =>
    show Mirrors names flat (s.pin (.block b)).2
    obtain ⟨hb, hin⟩ := hp
    simp only [Store.pin, Store.pinBlock] at hin ⊢
    cases ht : s.pool.table.find? b with
    | none =>
      simp only [ht] at hin ⊢
      have hc : Mirrors names (flat.answered (.block b) (s.claim (.block b)).1)
          (s.claim (.block b)).2 := h.claim hd fun i hi => ⟨hb, ht, hin trivial i hi⟩
      generalize s.claim (.block b) = r at hc
      obtain ⟨r, s'⟩ := r
      cases r with
      | error e => exact hc
      | ok i? => cases i? <;> exact hc
    | some i =>
      dsimp only
      split
      · exact h.still ⟨Pool.map_core_take .., Pool.table_take .., rfl⟩
      · exact h
  | fresh file format =>
    have hc : Mirrors names (flat.answered (.fresh file format) (s.claim (.fresh file format)).1)
        (s.claim (.fresh file format)).2 := h.claim hd fun _ _ => hp
    simp only [Store.step, Store.change?, Store.pin]
    generalize s.claim (.fresh file format) = r at hc
    obtain ⟨r, s'⟩ := r
    cases r with
    | error e => exact hc
    | ok i? => cases i? <;> exact hc

theorem edit (h : Mirrors names flat s) {i offset : Nat} {v : Value} {lsn? : Option Lsn}
    {edit : Frame → Except Error Frame} (hlsn : ∀ n ∈ lsn?, n < wordLimit 8)
    (hedit : ∀ f : Frame, f.lsn = Page.lsn f.data → ∃ tx, edit f =
      (Page.put f.data offset v lsn?).map fun data =>
        { f with data, dirty := true, modifiedBy := tx, lsn := max f.lsn (lsn?.getD 0) }) :
    Mirrors names (flat.replay ((s.blockAt? i).map fun b => .put b offset v lsn?).toList)
      (s.editFrame i edit).2 := by
  unfold Store.editFrame Store.blockAt?
  cases hf : s.pool.frames[i]? with
  | none => exact h
  | some f =>
    obtain ⟨tx, he⟩ := hedit f (h.stamped hf)
    dsimp only [Option.bind_some]
    rw [he]
    cases hput : Page.put f.data offset v lsn? with
    | error e =>
      cases hb : f.block with
      | none => exact h
      | some b =>
        have hsame : flat.apply (.put b offset v lsn?) = flat := by
          rw [Flat.apply, ← (h.shows hf hb).bytes, hput]
        simp only [Option.map_some, Option.toList_some, Flat.replay, List.foldl_cons,
          List.foldl_nil, hsame]
        exact h
    | ok data =>
      have hlen := Page.length_put hput
      have hstamp : max f.lsn (lsn?.getD 0) = Page.lsn data := by
        rw [Page.lsn_put hlsn hput, h.stamped hf]
      cases hb : f.block with
      | none =>
        refine h.setSame hf hb.symm hlen hstamp (h.beside (.refl _) _) ?_
        exact fun c hc => by cases hc
      | some b =>
        have hsh := h.shows hf hb
        have hset : flat.apply (.put b offset v lsn?) = flat.setBlock b data := by
          rw [Flat.apply, ← hsh.bytes, hput]
        simp only [Option.map_some, Option.toList_some, Flat.replay, List.foldl_cons,
          List.foldl_nil, hset]
        refine h.setSame hf hb.symm hlen hstamp ⟨rfl, rfl, ?_, ?_, ?_, ?_⟩ ?_
        · exact fun n hn => h.length hn
        · exact fun n _ => Nat.le_refl _
        · exact fun c _ hne => if_neg fun e => hne (congrArg some e.symm)
        · exact fun _ _ _ => rfl
        · intro c hc
          obtain rfl : b = c := Option.some.inj hc
          exact ⟨hsh.named, hsh.inside, (if_pos rfl).symm, fun hd _ => by cases hd⟩

theorem step (hd : Distinct names) (h : Mirrors names flat s) {c : PoolCall}
    (hp : s.Permits names c) :
    Mirrors names (flat.replay (s.change? c).toList) (s.step c) := by
  cases c with
  | pin w => exact h.pin hd hp
  | unpin i => exact h.still (Store.still_unpin s i)
  | flush i => exact h.flushFrame hd i
  | flushAll => exact Store.flushWhere_induct (fun _ i hs => hs.flushFrame hd i) h _
  | flushFor tx => exact Store.flushWhere_induct (fun _ i hs => hs.flushFrame hd i) h _
  | write i offset v =>
    refine h.edit (fun n hn => by cases hn) fun f _ => ⟨f.modifiedBy, ?_⟩
    simp only [Frame.write_eq, Option.getD_none, Nat.max_eq_left (Nat.zero_le _)]
  | writeLogged i offset v tx lsn =>
    refine h.edit (fun n hn => ?_) fun f hf => ⟨if tx.num = 0 then none else some tx, ?_⟩
    · cases hn
      exact lsn.toNat_lt
    · simp only [Frame.writeLogged_eq_put hf, Option.getD_some]
  | log l => exact h.same (.refl _)
  | fault cause => exact h.same ⟨rfl, fun _ => rfl⟩

theorem run (hd : Distinct names) (h : Mirrors names flat s) {calls : List PoolCall}
    (ho : s.Orderly names calls) :
    Mirrors names (flat.replay (s.changes calls)) (s.run calls) := by
  induction calls generalizing flat s with
  | nil => exact h
  | cons c cs ih =>
    have hnext := ih (h.step hd ho.1) ho.2
    simp only [Store.changes, Flat.replay, List.foldl_append] at hnext ⊢
    exact hnext

/-- A pin that gives a frame gives one with the bytes of the block. -/
theorem shows_pinned (hd : Distinct names) (h : Mirrors names flat s) {b : BlockId} {i : Nat}
    (hp : s.Permits names (.pin (.block b))) (hpin : (s.pin (.block b)).1 = .ok (some i)) :
    ∃ f : Frame, (s.pin (.block b)).2.pool.frames[i]? = some f ∧ f.block = some b ∧
      f.data = flat.block b := by
  have hblock := Store.blockAt?_pin hpin
  rw [Store.blockAt?, Option.bind_eq_some_iff] at hblock
  obtain ⟨f, hf, hb⟩ := hblock
  have h' : Mirrors names flat (s.pin (.block b)).2 := h.pin hd hp
  exact ⟨f, hf, hb, (h'.shows hf hb).bytes⟩

end Mirrors

def Store.over (disk : Disk) (log : Log) (pool : Pool) : Store := ⟨{ disk, log }, pool⟩

theorem mirrors_over {names : String → Prop} {disk : Disk} {log : Log} {size stripes : Nat}
    {pool : Pool} (hc : Pool.create size stripes disk.blockSize = .ok pool) :
    Mirrors names (Flat.ofDisk disk) (Store.over disk log pool) := by
  obtain ⟨hroom, -, hframes⟩ := Pool.create_eq_ok hc
  refine ⟨hroom, rfl, ?_, ?_, ?_, ?_, fun _ _ => rfl, fun _ => rfl⟩
  · intro i f hf
    rw [hframes hf]
    exact List.length_replicate
  · intro i f hf
    rw [hframes hf, Page.lsn, List.take_replicate]
    exact (ofBigEndian_replicate_zero _).symm
  · intro i f b hf hb
    rw [hframes hf] at hb
    cases hb
  · intro i f b hf hb
    rw [hframes hf] at hb
    cases hb

/-- After every orderly run of a new pool the frames have, and a pin gives, the bytes of the flat
store that went through the same changes, and the disk has those of all other blocks. What is read
of a block is the same after any other run with these changes, of a pool of any size. -/
theorem mirrors_flat {names : String → Prop} (hd : Distinct names) {disk : Disk} {log : Log}
    {size stripes : Nat} {pool : Pool} (hc : Pool.create size stripes disk.blockSize = .ok pool)
    {calls : List PoolCall} (ho : (Store.over disk log pool).Orderly names calls) :
    let s := (Store.over disk log pool).run calls
    let changes := (Store.over disk log pool).changes calls
    let flat := (Flat.ofDisk disk).replay changes
    (∀ (i : Nat) (f : Frame) (b : BlockId), s.pool.frames[i]? = some f → f.block = some b →
      f.data = flat.block b) ∧
    (∀ b, names b.file → (∀ (i : Nat) (f : Frame), s.pool.frames[i]? = some f →
      f.block ≠ some b) → s.media.disk.peek b = flat.block b) ∧
    (∀ n, names n → s.media.disk.blocks n = flat.length n) ∧
    (∀ b i, s.Permits names (.pin (.block b)) → (s.pin (.block b)).1 = .ok (some i) →
      ∃ f : Frame, (s.pin (.block b)).2.pool.frames[i]? = some f ∧ f.block = some b ∧
        f.data = flat.block b) ∧
    ∀ {log' : Log} {size' stripes' : Nat} {pool' : Pool} {calls' : List PoolCall},
      Pool.create size' stripes' disk.blockSize = .ok pool' →
      (Store.over disk log' pool').Orderly names calls' →
      (Store.over disk log' pool').changes calls' = changes →
      ∀ (i j : Nat) (f g : Frame) (b : BlockId), s.pool.frames[i]? = some f → f.block = some b →
        ((Store.over disk log' pool').run calls').pool.frames[j]? = some g → g.block = some b →
        ∀ offset kind, f.read offset kind = g.read offset kind := by
  intro s changes flat
  have h : Mirrors names flat s := (mirrors_over hc).run hd ho
  refine ⟨fun i f b hf hb => (h.shows hf hb).bytes, fun b hb hfree => h.rest hb hfree,
    fun n hn => h.length hn, fun b i hp hpin => h.shows_pinned hd hp hpin, ?_⟩
  · intro log' size' stripes' pool' calls' hc' ho' hchanges i j f g b hf hfb hg hgb offset kind
    have h' := (mirrors_over hc').run hd ho'
    rw [hchanges] at h'
    have hdata : f.data = g.data := (h.shows hf hfb).bytes.trans (h'.shows hg hgb).bytes.symm
    rw [Frame.read, Frame.read, hdata]

def oneFrame : Pool :=
  { frames := [{ id := 0, data := List.replicate 12 0 }], free := 1, lastClaimed := 0 }

/-- A block is added and written, gives way to another, and is loaded again. -/
def reload : List PoolCall :=
  [.pin (.fresh "a" .zero), .writeLogged 0 0 (.int 7) ⟨1⟩ 1, .unpin 0,
    .pin (.fresh "a" (.fill 5)), .unpin 0, .pin (.block ⟨"a", 0⟩)]

def small : Store := .over { blockSize := 12 } .empty oneFrame

theorem mirrors_flat_reload :
    Pool.create 1 1 12 = .ok oneFrame ∧ small.Orderly (fun n => n = "a") reload ∧
      (small.run reload).blockAt? 0 = some ⟨"a", 0⟩ ∧
      ∀ f : Frame, (small.run reload).pool.frames[0]? = some f → f.block = some ⟨"a", 0⟩ →
        f.data = ((Flat.ofDisk { blockSize := 12 }).replay (small.changes reload)).block
          ⟨"a", 0⟩ := by
  have hd : Distinct fun n => n = "a" := fun m n hm hn _ _ => hm.trans hn.symm
  have hc : Pool.create 1 1 12 = .ok oneFrame := rfl
  have ho : small.Orderly (fun n => n = "a") reload := by
    simp only [reload, Store.Orderly, Store.Permits, true_and, and_true]
    intro _ _ _
    decide +kernel
  have hshows := (@mirrors_flat _ hd { blockSize := 12 } .empty 1 1 oneFrame hc reload ho).1
  refine ⟨hc, ho, by decide +kernel, fun f => ?_⟩
  exact hshows 0 f ⟨"a", 0⟩

end PagedStore
