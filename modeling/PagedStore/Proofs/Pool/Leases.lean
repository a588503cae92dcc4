import PagedStore.Proofs.Pool.Even

set_option autoImplicit false

/-!
The pins that a pool handed out, and what it counts. Main statement: `pins_accounted`. As long as
each unpin gives back a pin that was handed out, whatever else fails or crashes, every frame counts
the pins that are outstanding on it, the count of the free frames is exact, and a frame keeps its
block as long as a pin on it is outstanding.
-/

namespace PagedStore

/-- A pin that was handed out: on a frame, which had a block then. -/
structure Lease where
  frame : Nat
  block : BlockId
  deriving DecidableEq

namespace Store

/-- A pin is for the block that was asked for, or for a new one behind those of its file. -/
def Suits (s : Store) (b : BlockId) : Wanted → Prop
  | .block c => b = c
  | .fresh file _ => b.file = file ∧ s.media.disk.blocks file ≤ b.number

/-- The pin that the pool hands out when it is asked for `w`. -/
def lease? (s : Store) (w : Wanted) : Option Lease :=
  match (s.pin w).1 with
  | .ok (some i) => ((s.pin w).2.blockAt? i).map (Lease.mk i)
  | _ => none

/-- The pins that are outstanding after a call. Those on one frame are alike, so it does not matter
which of them an unpin gives back. -/
def leases (s : Store) (held : List Lease) : PoolCall → List Lease
  | .pin w => (s.lease? w).toList ++ held
  | .unpin i => held.eraseP fun l => l.frame = i
  | _ => held

def outstanding (s : Store) (held : List Lease) : List PoolCall → List Lease
  | [] => held
  | c :: cs => (s.step c).outstanding (s.leases held c) cs

/-- An unpin gives back a pin that is outstanding. -/
def Owed (held : List Lease) : PoolCall → Prop
  | .unpin i => ∃ l ∈ held, l.frame = i
  | _ => True

def Returns (s : Store) (held : List Lease) : List PoolCall → Prop
  | [] => True
  | c :: cs => Owed held c ∧ (s.step c).Returns (s.leases held c) cs

/-- The pool counts the pins that are outstanding, and their frames have the blocks they are for. -/
structure Leased (s : Store) (held : List Lease) : Prop where
  counted : s.pool.Counted
  even : ∀ i, s.pool.pinsAt i = held.countP fun l => l.frame = i
  stays : ∀ l ∈ held, s.blockAt? l.frame = some l.block

variable {s s' : Store} {held : List Lease}

theorem lease?_eq_none {w : Wanted} (h : ∀ i, (s.pin w).1 ≠ .ok (some i)) : s.lease? w = none := by
  unfold lease?
  split
  · rename_i i hi
    exact absurd hi (h i)
  · rfl

theorem lease?_eq_some (hpos : 0 < s.blockSize) {w : Wanted} {i : Nat}
    (h : (s.pin w).1 = .ok (some i)) : ∃ b, s.Suits b w ∧ s.lease? w = some ⟨i, b⟩ ∧
      (s.pin w).2.blockAt? i = some b := by
  have hb : ∃ b, s.Suits b w ∧ (s.pin w).2.blockAt? i = some b := by
    cases w with
    | block b => exact ⟨b, rfl, blockAt?_pin h⟩
    | fresh file format =>
      obtain ⟨n, hn, hle, -⟩ := blockAt?_claim_fresh hpos h
      exact ⟨⟨file, n⟩, ⟨rfl, hle⟩, hn⟩
  obtain ⟨b, hsuits, hb⟩ := hb
  refine ⟨b, hsuits, ?_, hb⟩
  simp only [lease?, h, hb, Option.map_some]

namespace Leased

theorem pinned (h : s.Leased held) {l : Lease} (hl : l ∈ held) : 0 < s.pool.pinsAt l.frame := by
  rw [h.even, List.countP_pos_iff]
  exact ⟨l, hl, decide_eq_true rfl⟩

theorem same (h : s.Leased held) (hs : s.pool.SamePins s'.pool)
    (hb : ∀ i, s'.blockAt? i = s.blockAt? i) : s'.Leased held where
  counted := h.counted.same hs
  even i := (hs.pinsAt i).trans (h.even i)
  stays l hl := (hb _).trans (h.stays l hl)

theorem flushFrame (h : s.Leased held) (i : Nat) : (s.flushFrame i).2.Leased held :=
  h.same (samePins_flushFrame s i) (blockAt?_flushFrame s i)

/-- Whatever becomes of a pin, a frame with pins keeps its block. -/
theorem kept (h : s.Leased held) (w : Wanted) {l : Lease} (hl : l ∈ held) :
    (s.pin w).2.blockAt? l.frame = some l.block := by
  obtain ⟨f, hf, hb⟩ := Option.bind_eq_some_iff.1 (h.stays l hl)
  obtain ⟨g, hg, hfg⟩ := (s.refetched w).later hf
  have hp := h.pinned hl
  rw [Pool.pinsAt_of_frame hf] at hp
  rw [blockAt?_of_frame hg, hfg.block hp, hb]

theorem pin (hpos : 0 < s.blockSize) (h : s.Leased held) (w : Wanted) :
    (s.pin w).2.Leased ((s.lease? w).toList ++ held) := by
  by_cases hok : ∃ i, (s.pin w).1 = .ok (some i)
  · obtain ⟨i, hi⟩ := hok
    obtain ⟨b, -, hlease, hb⟩ := lease?_eq_some hpos hi
    rw [hlease]
    refine ⟨counted_pin h.counted, fun j => ?_, fun l hl => ?_⟩
    · rw [pinsAt_pin hi, h.even, Option.toList_some, List.singleton_append, List.countP_cons]
      simp only [decide_eq_true_eq]
    · rcases List.mem_cons.1 hl with rfl | hl
      · exact hb
      · exact h.kept w hl
  · have hnone : ∀ i, (s.pin w).1 ≠ .ok (some i) := fun i hi => hok ⟨i, hi⟩
    rw [lease?_eq_none hnone]
    exact ⟨counted_pin h.counted, fun j => (pinsAt_pin_of_none hnone j).trans (h.even j),
      fun l hl => h.kept w hl⟩

theorem unpin (h : s.Leased held) {l : Lease} (hl : l ∈ held) : (s.unpin l.frame).1 = .ok () ∧
    (s.unpin l.frame).2.Leased (held.eraseP fun k => k.frame = l.frame) := by
  obtain ⟨hok, hpins, hcounted⟩ := Pool.unpin_ok (h.pinned hl)
  refine ⟨hok, hcounted h.counted, fun j => ?_, fun k hk => ?_⟩
  · obtain ⟨k, before, after, hbefore, hk, hheld, herase⟩ :=
      List.exists_of_eraseP hl (p := fun k => k.frame = l.frame) (decide_eq_true rfl)
    have hj := hpins j
    have hframe : k.frame = l.frame := of_decide_eq_true hk
    rw [h.even, hheld, List.countP_append, List.countP_cons] at hj
    rw [herase, List.countP_append]
    simp only [decide_eq_true_eq, hframe] at hj
    show (s.unpin l.frame).2.pool.pinsAt j = _
    exact Nat.add_right_cancel (hj.trans (Nat.add_assoc ..).symm)
  · rw [(still_unpin s l.frame).blockAt?]
    exact h.stays k (List.mem_of_mem_eraseP hk)

theorem step (hpos : 0 < s.blockSize) (h : s.Leased held) {c : PoolCall} (hc : Owed held c) :
    (s.step c).Leased (s.leases held c) := by
  cases c with
  | pin w => exact h.pin hpos w
  | unpin i =>
    obtain ⟨l, hl, rfl⟩ := hc
    exact (h.unpin hl).2
  | flush i => exact h.flushFrame i
  | flushAll | flushFor tx =>
    exact flushWhere_induct (P := fun s => s.Leased held) (fun _ i hs => hs.flushFrame i) h _
  | write i offset v =>
    exact h.same (samePins_editFrame s i fun _ _ hg => (Frame.of_write hg).2)
      (blockAt?_editFrame fun _ _ hg => (Frame.of_write hg).1)
  | writeLogged i offset v tx lsn =>
    exact h.same (samePins_editFrame s i fun _ _ hg => (Frame.of_writeLogged hg).2.2.1)
      (blockAt?_editFrame fun _ _ hg => (Frame.of_writeLogged hg).2.1)
  | log l => exact h.same (.refl _) fun _ => rfl
  | fault cause => exact h.same (.refl _) fun _ => rfl

theorem run {size : Nat} (hf : s.Fitted size) (h : s.Leased held) {calls : List PoolCall}
    (hr : s.Returns held calls) : (s.run calls).Leased (s.outstanding held calls) := by
  induction calls generalizing s held with
  | nil => exact h
  | cons c cs ih => exact ih (hf.step c) (h.step hf.pos hr.1) hr.2

end Leased

theorem leased_over {disk : Disk} {log : Log} {size stripes : Nat} {pool : Pool}
    (hc : Pool.create size stripes disk.blockSize = .ok pool) :
    (Store.over disk log pool).Leased [] :=
  ⟨Pool.counted_of_create hc, Pool.pinsAt_of_create hc, nofun⟩

end Store

/-- After every run of calls to a new pool where each unpin gives back a pin that was handed out:
the count of the free frames is the number of frames without pins, and no word is too small for it;
every frame has as many pins as are outstanding on it, each of which can be given back; and it has
the block that they are for. The run may contain pins that fail, crash, or find no frame. -/
theorem pins_accounted {disk : Disk} {log : Log} {size stripes : Nat} {pool : Pool}
    (hc : Pool.create size stripes disk.blockSize = .ok pool) {calls : List PoolCall}
    (hr : (Store.over disk log pool).Returns [] calls) :
    let s := (Store.over disk log pool).run calls
    let held := (Store.over disk log pool).outstanding [] calls
    s.pool.free = s.pool.available ∧
    s.pool.available = s.pool.frames.countP (fun f => f.pins = 0) ∧
    (∀ (i : Nat) (f : Frame), s.pool.frames[i]? = some f →
      f.pins = held.countP fun l => l.frame = i) ∧
    (held.length < wordLimit 4 → ∀ f ∈ s.pool.frames, f.pins < wordLimit 4) ∧
    (∀ l ∈ held, s.blockAt? l.frame = some l.block ∧ (s.unpin l.frame).1 = .ok ()) ∧
    ∀ w i, (s.pin w).1 = .ok (some i) → ∃ b, s.Suits b w ∧ s.lease? w = some ⟨i, b⟩ := by
  intro s held
  have hfit : (Store.over disk log pool).Fitted disk.blockSize := Store.fitted_over hc
  have h : s.Leased held := (Store.leased_over hc).run hfit hr
  have hpos : 0 < s.blockSize := (hfit.run calls).pos
  have hsize : s.pool.size < wordLimit 8 := by
    obtain ⟨hcreate, -, hlimit⟩ := Pool.size_of_create hc
    rw [Store.size_run]
    exact hcreate ▸ hlimit
  have hcount : s.pool.free = s.pool.frames.countP (fun f => f.pins = 0) := by
    rw [h.counted, List.count, List.countP_map]
    rfl
  have hfew : s.pool.frames.countP (fun f => f.pins = 0) < wordLimit 8 :=
    Nat.lt_of_le_of_lt List.countP_le_length hsize
  have havailable : s.pool.available = s.pool.frames.countP (fun f => f.pins = 0) := by
    rw [Pool.available, hcount, Int.emod_eq_of_lt (Int.natCast_nonneg _) (Int.ofNat_lt.2 hfew)]
    rfl
  have hpins : ∀ (i : Nat) (f : Frame), s.pool.frames[i]? = some f →
      f.pins = held.countP fun l => l.frame = i := fun i f hf =>
    (Pool.pinsAt_of_frame hf).symm.trans (h.even i)
  refine ⟨hcount.trans (congrArg Nat.cast havailable.symm), havailable, hpins, fun hword f hf => ?_,
    fun l hl => ⟨h.stays l hl, (h.unpin hl).1⟩, fun w i hi => ?_⟩
  · obtain ⟨i, hi⟩ := List.mem_iff_getElem?.1 hf
    rw [hpins i f hi]
    exact Nat.lt_of_le_of_lt List.countP_le_length hword
  · obtain ⟨b, hsuits, hlease, -⟩ := Store.lease?_eq_some hpos hi
    exact ⟨b, hsuits, hlease⟩

/-- A block is pinned twice, and no frame is left for another. It is given back twice; then the
operating system refuses what a pin asks, the next crashes on an offset that is no word, and one is
handed out. -/
def leasing : List PoolCall :=
  [.pin (.fresh "a" .zero), .pin (.block ⟨"a", 0⟩), .pin (.block ⟨"b", 0⟩), .unpin 0, .unpin 0,
    .fault (some .notFound), .pin (.block ⟨"b", 0⟩), .fault none,
    .pin (.block ⟨"b", Disk.endLimit⟩), .pin (.block ⟨"b", 0⟩)]

theorem pins_accounted_leasing : Pool.create 1 1 12 = .ok oneFrame ∧ small.Returns [] leasing ∧
    small.outstanding [] leasing = [⟨0, ⟨"b", 0⟩⟩] ∧
    (small.run leasing).pool.available = 0 ∧ (small.run leasing).blockAt? 0 = some ⟨"b", 0⟩ ∧
    ((small.run leasing).unpin 0).1 = .ok () := by
  have hc : Pool.create 1 1 12 = .ok oneFrame := rfl
  have hr : small.Returns [] leasing := by
    refine ⟨trivial, trivial, trivial, ?_, ?_, trivial, trivial, trivial, trivial, trivial, trivial⟩
    all_goals
      unfold Store.Owed
      decide +kernel
  have hheld : small.outstanding [] leasing = [⟨0, ⟨"b", 0⟩⟩] := by decide +kernel
  obtain ⟨-, havailable, -, -, hlease, -⟩ :=
    @pins_accounted { blockSize := 12 } .empty 1 1 oneFrame hc leasing hr
  obtain ⟨hblock, hunpin⟩ := hlease ⟨0, ⟨"b", 0⟩⟩ (hheld ▸ List.mem_singleton_self _)
  refine ⟨hc, hr, hheld, havailable.trans ?_, hblock, hunpin⟩
  decide +kernel

end PagedStore
