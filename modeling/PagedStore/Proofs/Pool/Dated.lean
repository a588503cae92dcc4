import PagedStore.Proofs.Engine.Kept
import PagedStore.Proofs.Pool.Leases

set_option autoImplicit false

/-!
The log position of a block. Main statements: `Store.stamped_run`, that the header of every frame
has the position of the frame, and `Mirrors.lsn_run`, that the position of a block is the largest
that was ever logged to it; `block_lsn` puts them together. The latter takes files that have one
name each (`not_block_lsn`).
-/

namespace PagedStore

theorem Page.take_headerSize {data : Bytes} (h : headerSize ≤ data.length) :
    data.take headerSize = bigEndian headerSize (lsn data) :=
  (bigEndian_ofBigEndian (List.length_take_of_le h)).symm

namespace Frame

variable {f g : Frame} {offset : Nat} {v : Value}

theorem stamped_of_write (hf : f.lsn = Page.lsn f.data) (h : f.write offset v = .ok g) :
    g.lsn = Page.lsn g.data := by
  unfold write at h
  cases hw : Page.write f.data offset v with
  | error e =>
    rw [hw] at h
    cases h
  | ok data =>
    rw [hw] at h
    cases h
    exact hf.trans (Page.lsn_write hw).symm

theorem stamped_of_writeLogged {tx : TxId} {n : Lsn} (hn : n < wordLimit 8)
    (hf : f.lsn = Page.lsn f.data) (h : f.writeLogged offset v tx n = .ok g) :
    g.lsn = Page.lsn g.data := by
  rw [writeLogged_eq_put hf] at h
  cases hput : Page.put f.data offset v (some n) with
  | error e =>
    rw [hput] at h
    cases h
  | ok data =>
    rw [hput] at h
    cases h
    have hs : ∀ m ∈ some n, m < wordLimit 8 := by
      rintro m ⟨⟩
      exact hn
    rw [Page.lsn_put hs hput, hf, Option.getD_some]

end Frame

namespace Store

variable {s : Store}

def Stamped (s : Store) : Prop :=
  ∀ (i : Nat) (f : Frame), s.pool.frames[i]? = some f → f.lsn = Page.lsn f.data

theorem kept_stamped : Kept Stamped := kept_frames {
  core := fun hc hs => by
    obtain ⟨-, hdata, -, -, -, -, hlsn⟩ := Frame.core_eq_iff.1 hc
    rw [← hlsn, ← hdata]
    exact hs
  saved := fun hs => hs
  -- the old bytes stay, and so does the position that they have
  vacated := fun _ hs => hs
  read := fun _ _ _ => rfl
  added := fun f _ format => (format.lsn_page f.data.length).symm }

theorem Stamped.editFrame (h : s.Stamped) {i : Nat} {edit : Frame → Except Error Frame}
    (he : ∀ f g, f.lsn = Page.lsn f.data → edit f = .ok g → g.lsn = Page.lsn g.data) :
    (s.editFrame i edit).2.Stamped := by
  intro j g hg
  rcases before_editFrame hg with hf | ⟨f, -, hf, hfg⟩
  · exact h j g hf
  · exact he f g (h j f hf) hfg

theorem Stamped.step (h : s.Stamped) (c : PoolCall) : (s.step c).Stamped := by
  cases c with
  | pin w => exact kept_stamped.pin h w
  | unpin i => exact kept_stamped.unpin h i
  | flush i => exact kept_stamped.flush i h
  | flushAll | flushFor tx => exact kept_stamped.flushWhere h _
  | write i offset v => exact h.editFrame fun _ _ => Frame.stamped_of_write
  | writeLogged i offset v tx lsn =>
    exact h.editFrame fun _ _ => Frame.stamped_of_writeLogged lsn.toNat_lt
  | log l => exact h
  | fault cause => exact h

theorem Stamped.run (h : s.Stamped) (calls : List PoolCall) : (s.run calls).Stamped := by
  induction calls generalizing s with
  | nil => exact h
  | cons c cs ih => exact ih (h.step c)

theorem stamped_over {disk : Disk} {log : Log} {size stripes : Nat} {pool : Pool}
    (hc : Pool.create size stripes disk.blockSize = .ok pool) :
    (Store.over disk log pool).Stamped := by
  have h : Mirrors (fun _ => False) (Flat.ofDisk disk) (Store.over disk log pool) :=
    mirrors_over hc
  exact fun i f hf => h.stamped hf

theorem stamped_run {disk : Disk} {log : Log} {size stripes : Nat} {pool : Pool}
    (hc : Pool.create size stripes disk.blockSize = .ok pool) (calls : List PoolCall) (i : Nat)
    (f : Frame) (hf : ((Store.over disk log pool).run calls).pool.frames[i]? = some f) :
    f.data.take Page.headerSize = bigEndian Page.headerSize f.lsn := by
  have hnew : (Store.over disk log pool).Fitted disk.blockSize := fitted_over hc
  have hfit := hnew.run calls
  have hroom : Page.headerSize ≤ f.data.length :=
    Nat.le_of_lt (Nat.lt_of_lt_of_eq hfit.room (hfit.frames i f hf).symm)
  rw [(stamped_over hc).run calls i f hf]
  exact Page.take_headerSize hroom

/-- The position that a call logs to block `b`, if it is a write to it and succeeds. -/
def logged? (s : Store) (b : BlockId) : PoolCall → Option Lsn
  | .writeLogged i offset v tx lsn =>
    match (s.editFrame i fun f => f.writeLogged offset v tx lsn.toNat).1 with
    | .ok () => if s.blockAt? i = some b then some lsn.toNat else none
    | .error _ => none
  | _ => none

def logged (s : Store) (b : BlockId) : List PoolCall → List Lsn
  | [] => []
  | c :: cs => (s.logged? b c).toList ++ (s.step c).logged b cs

/-- Wherever block `b` is found, it has position `top b`: in the frame that it has, in its file
while it has none, and in the frame that a pin gives. -/
structure Dated (names : String → Prop) (top : BlockId → Lsn) (s : Store) : Prop where
  framed : ∀ (i : Nat) (f : Frame) b, s.pool.frames[i]? = some f → f.block = some b →
    f.lsn = top b
  filed : ∀ b, names b.file → b.number < s.media.disk.blocks b.file →
    (∀ (i : Nat) (f : Frame), s.pool.frames[i]? = some f → f.block ≠ some b) →
    Page.lsn (s.media.disk.peek b) = top b
  pinned : ∀ w i, s.Permits names (.pin w) → (s.pin w).1 = .ok (some i) →
    ∃ (f : Frame) (b : BlockId), (s.pin w).2.pool.frames[i]? = some f ∧ f.block = some b ∧
      s.Suits b w ∧ f.lsn = top b

end Store

namespace Flat

variable {flat : Flat} {b c : BlockId}

/-- The position in the header of a block, 0 where its file has no such block. -/
def lsn (flat : Flat) (b : BlockId) : Lsn :=
  if b.number < flat.length b.file then Page.lsn (flat.block b) else 0

theorem lsn_setBlock (hc : c.number < flat.length c.file) (data : Bytes) (b : BlockId) :
    (flat.setBlock c data).lsn b = if b = c then Page.lsn data else flat.lsn b := by
  unfold lsn setBlock
  dsimp only
  by_cases hb : b = c
  · rw [if_pos hb, if_pos hb, hb, if_pos hc]
  · rw [if_neg hb, if_neg hb]

/-- A write that fits takes the position of its block forward, and no other changes one. -/
theorem lsn_put (hc : c.number < flat.length c.file) {offset : Nat} {v : Value}
    {lsn? : Option Lsn} (hs : ∀ n ∈ lsn?, n < wordLimit 8) (b : BlockId) :
    (flat.apply (.put c offset v lsn?)).lsn b =
      match Page.put (flat.block c) offset v lsn? with
      | .ok _ => if b = c then max (flat.lsn b) (lsn?.getD 0) else flat.lsn b
      | .error _ => flat.lsn b := by
  rw [apply]
  cases hput : Page.put (flat.block c) offset v lsn? with
  | error e => rfl
  | ok data =>
    dsimp only
    rw [lsn_setBlock hc]
    by_cases hb : b = c
    · rw [if_pos hb, if_pos hb, Page.lsn_put hs hput, hb, lsn, if_pos hc]
    · rw [if_neg hb, if_neg hb]

theorem lsn_add (flat : Flat) (file : String) (format : Formatter) (b : BlockId) :
    (flat.apply (.add file format)).lsn b = flat.lsn b := by
  by_cases hb : b = ⟨file, flat.length file⟩
  · subst hb
    rw [lsn, if_pos (flat.lt_length_add file format), block_add, format.lsn_page, lsn,
      if_neg (Nat.lt_irrefl _)]
  · have hlt : b.number < (flat.apply (.add file format)).length b.file ↔
        b.number < flat.length b.file := by
      simp only [apply, grow, setBlock]
      split
      · rename_i hfile
        have hne : b.number ≠ flat.length b.file := by
          rintro hnumber
          refine hb ?_
          rw [← hfile, ← hnumber]
        omega
      · rfl
    have hblock : (flat.apply (.add file format)).block b = flat.block b := if_neg hb
    rw [lsn, lsn, hblock]
    simp only [hlt]

end Flat

namespace Mirrors

variable {names : String → Prop} {flat : Flat} {s : Store}

theorem inside (h : Mirrors names flat s) {i : Nat} {b : BlockId} (hb : s.blockAt? i = some b) :
    ∃ f, s.pool.frames[i]? = some f ∧ f.block = some b ∧ f.data = flat.block b ∧
      b.number < flat.length b.file := by
  obtain ⟨f, hf, hfb⟩ := Option.bind_eq_some_iff.1 hb
  have hshows := h.shows hf hfb
  exact ⟨f, hf, hfb, hshows.bytes, h.length hshows.named ▸ hshows.inside⟩

theorem lsn_write (h : Mirrors names flat s) (i offset : Nat) (v : Value) (b : BlockId) :
    (flat.replay (s.change? (.write i offset v)).toList).lsn b = flat.lsn b := by
  cases hi : s.blockAt? i with
  | none =>
    rw [Store.change?, hi]
    rfl
  | some c =>
    obtain ⟨-, -, -, -, hc⟩ := h.inside hi
    rw [Store.change?, hi]
    show (flat.apply (.put c offset v none)).lsn b = flat.lsn b
    rw [Flat.lsn_put hc fun n hn => by cases hn]
    split
    · rw [Option.getD_none, Nat.max_eq_left (Nat.zero_le _), ite_self]
    · rfl

theorem ok_writeLogged_iff (h : Mirrors names flat s) {i : Nat} {c : BlockId}
    (hi : s.blockAt? i = some c) (offset : Nat) (v : Value) (tx : TxId) (n : Lsn) :
    (s.editFrame i fun f => f.writeLogged offset v tx n).1 =
      (Page.put (flat.block c) offset v (some n)).map fun _ => () := by
  obtain ⟨f, hf, -, hdata, -⟩ := h.inside hi
  rw [Store.editFrame, hf]
  dsimp only
  rw [Frame.writeLogged_eq_put (h.stamped hf), hdata]
  cases Page.put (flat.block c) offset v (some n) <;> rfl

theorem lsn_writeLogged (h : Mirrors names flat s) (i offset : Nat) (v : Value) (tx : TxId)
    (n : UInt64) (b : BlockId) :
    (flat.replay (s.change? (.writeLogged i offset v tx n)).toList).lsn b =
      (s.logged? b (.writeLogged i offset v tx n)).toList.foldl max (flat.lsn b) := by
  cases hi : s.blockAt? i with
  | none =>
    rw [Store.change?, Store.logged?, hi]
    split <;> rfl
  | some c =>
    obtain ⟨-, -, -, -, hc⟩ := h.inside hi
    have hs : ∀ m ∈ some n.toNat, m < wordLimit 8 := by
      rintro m ⟨⟩
      exact n.toNat_lt
    rw [Store.change?, Store.logged?, hi, h.ok_writeLogged_iff hi]
    show (flat.apply (.put c offset v (some n.toNat))).lsn b = _
    rw [Flat.lsn_put hc hs]
    cases Page.put (flat.block c) offset v (some n.toNat) with
    | error e => rfl
    | ok data =>
      dsimp only [Except.map]
      by_cases hb : b = c
      · rw [if_pos hb, if_pos (congrArg some hb.symm)]
        rfl
      · rw [if_neg hb, if_neg fun he => hb (Option.some.inj he).symm]
        rfl

theorem lsn_step (h : Mirrors names flat s) (c : PoolCall) (b : BlockId) :
    (flat.replay (s.change? c).toList).lsn b =
      (s.logged? b c).toList.foldl max (flat.lsn b) := by
  cases c with
  | pin w =>
    cases w with
    | block b => rfl
    | fresh file format =>
      simp only [Store.change?]
      split
      · exact flat.lsn_add file format b
      · rfl
  | write i offset v => exact h.lsn_write i offset v b
  | writeLogged i offset v tx n => exact h.lsn_writeLogged i offset v tx n b
  | unpin i => rfl
  | flush i => rfl
  | flushAll => rfl
  | flushFor tx => rfl
  | log l => rfl
  | fault cause => rfl

/-- The position of a block is the largest of the one it had and those logged to it. -/
theorem lsn_run (hd : Distinct names) (h : Mirrors names flat s) {calls : List PoolCall}
    (ho : s.Orderly names calls) (b : BlockId) :
    (flat.replay (s.changes calls)).lsn b = (s.logged b calls).foldl max (flat.lsn b) := by
  induction calls generalizing flat s with
  | nil => rfl
  | cons c cs ih =>
    have hrest := ih (h.step hd ho.1) ho.2
    rw [h.lsn_step] at hrest
    simp only [Store.changes, Store.logged, Flat.replay, List.foldl_append] at hrest ⊢
    exact hrest

theorem lsn_of_frame (h : Mirrors names flat s) {i : Nat} {f : Frame} {b : BlockId}
    (hf : s.pool.frames[i]? = some f) (hb : f.block = some b) : f.lsn = flat.lsn b := by
  have hshows := h.shows hf hb
  rw [h.stamped hf, hshows.bytes, Flat.lsn, if_pos (h.length hshows.named ▸ hshows.inside)]

theorem dated (hd : Distinct names) (h : Mirrors names flat s) : s.Dated names flat.lsn where
  framed i f b hf hb := h.lsn_of_frame hf hb
  filed b hb hin hfree := by
    rw [h.rest hb hfree, Flat.lsn, if_pos (h.length hb ▸ hin)]
  pinned w i hp hi := by
    obtain ⟨b, hsuits, -, hb⟩ := Store.lease?_eq_some h.pos hi
    obtain ⟨f, hf, hfb⟩ := Option.bind_eq_some_iff.1 hb
    have hlsn : (flat.replay (s.change? (.pin w)).toList).lsn b = flat.lsn b :=
      h.lsn_step (.pin w) b
    exact ⟨f, b, hf, hfb, hsuits, ((h.pin hd hp).lsn_of_frame hf hfb).trans hlsn⟩

end Mirrors

/-- After any run of a new pool the first bytes of every frame are its position. After an orderly
run every block is found with one position, in its frame, in its file and by a pin: the largest of
the one that its header had before (0 if the run added the block) and of those that logged writes
brought to it; and no later state of the run has it with a smaller one. -/
theorem block_lsn {disk : Disk} {log : Log} {size stripes : Nat} {pool : Pool}
    (hc : Pool.create size stripes disk.blockSize = .ok pool) (calls : List PoolCall) :
    let s := (Store.over disk log pool).run calls
    (∀ (i : Nat) (f : Frame), s.pool.frames[i]? = some f →
      f.data.take Page.headerSize = bigEndian Page.headerSize f.lsn) ∧
    ∀ names : String → Prop, Distinct names → (Store.over disk log pool).Orderly names calls →
      s.Dated names (fun b =>
        ((Store.over disk log pool).logged b calls).foldl max ((Flat.ofDisk disk).lsn b)) ∧
      ∀ later, s.Orderly names later → ∀ (i j : Nat) (f g : Frame) b,
        s.pool.frames[i]? = some f → (s.run later).pool.frames[j]? = some g →
        f.block = some b → g.block = some b → f.lsn ≤ g.lsn := by
  intro s
  refine ⟨Store.stamped_run hc calls, fun names hd ho => ?_⟩
  have h₀ : Mirrors names (Flat.ofDisk disk) (Store.over disk log pool) := mirrors_over hc
  have h := h₀.run hd ho
  refine ⟨?_, fun later hl i j f g b hf hg hfb hgb => ?_⟩
  · rw [← funext (h₀.lsn_run hd ho)]
    exact h.dated hd
  · rw [h.lsn_of_frame hf hfb, (h.run hd hl).lsn_of_frame hg hgb, h.lsn_run hd hl,
      List.foldl_max]
    exact Nat.le_max_left ..

/-- A block is added and logged writes are made to it; one has an earlier position than the block
has by then, and one does not fit. -/
def backdated : List PoolCall :=
  [.pin (.fresh "a" .zero), .writeLogged 0 0 (.int 7) ⟨1⟩ 5, .writeLogged 0 0 (.int 8) ⟨1⟩ 3,
    .writeLogged 0 1 (.int 9) ⟨1⟩ 9]

def replaced : List PoolCall := [.unpin 0, .pin (.fresh "a" .zero), .unpin 0]

/-- It is loaded again with the largest position, and none is smaller later on. -/
theorem block_lsn_reloaded : Pool.create 1 1 12 = .ok oneFrame ∧ Distinct (fun n => n = "a") ∧
    small.Orderly (fun n => n = "a") (backdated ++ replaced) ∧
    small.logged ⟨"a", 0⟩ (backdated ++ replaced) = [5, 3] ∧
    (small.run (backdated ++ replaced)).blockAt? 0 = some ⟨"a", 1⟩ ∧
    ((small.run (backdated ++ replaced)).pin (.block ⟨"a", 0⟩)).1 = .ok (some 0) ∧
    (∃ f : Frame, ((small.run (backdated ++ replaced)).pin
      (.block ⟨"a", 0⟩)).2.pool.frames[0]? = some f ∧ f.block = some ⟨"a", 0⟩ ∧ f.lsn = 5) ∧
    ∃ f g : Frame, (small.run backdated).pool.frames[0]? = some f ∧
      ((small.run backdated).run (replaced ++ [.pin (.block ⟨"a", 0⟩)])).pool.frames[0]? = some g ∧
      f.block = some ⟨"a", 0⟩ ∧ g.block = some ⟨"a", 0⟩ ∧ f.lsn ≤ g.lsn := by
  have hc : Pool.create 1 1 12 = .ok oneFrame := rfl
  have hd : Distinct fun n => n = "a" := fun m n hm hn _ _ => hm.trans hn.symm
  have hbefore : small.Orderly (fun n => n = "a") backdated := by
    simp only [backdated, Store.Orderly, Store.Permits, and_self]
  have hall : small.Orderly (fun n => n = "a") (backdated ++ replaced) := by
    simp only [backdated, replaced, List.cons_append, List.nil_append, Store.Orderly,
      Store.Permits, and_self]
  have hafter : (small.run backdated).Orderly (fun n => n = "a")
      (replaced ++ [.pin (.block ⟨"a", 0⟩)]) := by
    simp only [replaced, List.cons_append, List.nil_append, Store.Orderly, Store.Permits, true_and,
      and_true]
    intro _ _ _
    decide +kernel
  have hlogged : small.logged ⟨"a", 0⟩ (backdated ++ replaced) = [5, 3] := by decide +kernel
  obtain ⟨-, hrun⟩ :=
    @block_lsn { blockSize := 12 } .empty 1 1 oneFrame hc (backdated ++ replaced)
  obtain ⟨hdated, -⟩ := hrun _ hd hall
  obtain ⟨-, hcut⟩ := @block_lsn { blockSize := 12 } .empty 1 1 oneFrame hc backdated
  obtain ⟨-, hlater⟩ := hcut _ hd hbefore
  have hpin : ((small.run (backdated ++ replaced)).pin (.block ⟨"a", 0⟩)).1 = .ok (some 0) := rfl
  obtain ⟨f, b, hf, hfb, rfl, hlsn⟩ :=
    hdated.pinned (.block ⟨"a", 0⟩) 0 ⟨rfl, fun _ _ _ => by decide +kernel⟩ hpin
  refine ⟨hc, hd, hall, hlogged, by decide +kernel, hpin, ⟨f, hf, hfb, hlsn.trans ?_⟩, _, _, rfl,
    rfl, rfl, rfl, hlater _ hafter 0 0 _ _ ⟨"a", 0⟩ rfl rfl rfl rfl⟩
  show (small.logged ⟨"a", 0⟩ (backdated ++ replaced)).foldl max _ = 5
  rw [hlogged]
  decide +kernel

/-- One block is in two frames, under two names of its file, and written in both. The frame of the
later write back has no position. -/
def misdated : List PoolCall :=
  [.pin (.fresh "f" .zero), .pin (.block ⟨"./f", 0⟩), .writeLogged 0 0 (.int 7) ⟨1⟩ 5,
    .write 1 0 (.int 9), .unpin 0, .unpin 1, .pin (.fresh "g" .zero)]

/-- The block is loaded again without the position that was logged to it. -/
theorem not_block_lsn : Pool.create 2 1 12 = .ok twoFrames ∧
    roomy.Orderly (fun n => n ∈ ["f", "./f", "g"]) misdated ∧
    (roomy.run misdated).Permits (fun n => n ∈ ["f", "./f", "g"]) (.pin (.block ⟨"f", 0⟩)) ∧
    roomy.logged ⟨"f", 0⟩ misdated = [5] ∧
    ((roomy.run misdated).pin (.block ⟨"f", 0⟩)).1 = .ok (some 1) ∧
    ∃ f : Frame, ((roomy.run misdated).pin (.block ⟨"f", 0⟩)).2.pool.frames[1]? = some f ∧
      f.block = some ⟨"f", 0⟩ ∧ f.lsn = 0 := by
  have ho : roomy.Orderly (fun n => n ∈ ["f", "./f", "g"]) misdated := by
    simp only [misdated, Store.Orderly, Store.Permits, true_and, and_true]
    refine ⟨by decide, ⟨by decide, fun _ _ _ => ?_⟩, by decide⟩
    decide +kernel
  exact ⟨rfl, ho, ⟨by decide, fun _ _ _ => by decide +kernel⟩, by decide +kernel, rfl, _, rfl,
    by decide +kernel, by decide +kernel⟩

end PagedStore
