import PagedStore.Proofs.Pins.Ledger

set_option autoImplicit false

/-!
The pins of all transactions, frame by frame, whatever comes between the steps of a call. Main
statement: `Hall.pins_shared`. What is held has its frame and is counted, and a frame has one pin
for each transaction that holds a block in it and one for each request that has got it and has yet
to enter it.
-/

namespace PagedStore

def Pins.on (p : Pins) (i : Nat) : Bool := p.holds.entries.any fun e => e.2.frame = i

def Desk.holdersOf (d : Desk) (i : Nat) : List TxId :=
  (d.pins.entries.filter fun e => e.2.on i).map Prod.fst

theorem length_le_of_nodup {l : List Nat} {n : Nat} (hd : l.Nodup) (hlt : ∀ i ∈ l, i < n) :
    l.length ≤ n := by
  induction n generalizing l with
  | zero =>
    rw [List.eq_nil_iff_forall_not_mem.2 fun i hi => Nat.not_lt_zero i (hlt i hi)]
    exact Nat.le_refl 0
  | succ n ih =>
    have hrest : (l.erase n).length ≤ n := by
      refine ih (hd.erase n) fun i hi => ?_
      obtain ⟨hne, hi⟩ := hd.mem_erase_iff.1 hi
      exact Nat.lt_of_le_of_ne (Nat.le_of_lt_succ (hlt i hi)) hne
    rw [List.length_erase] at hrest
    split at hrest
    · omega
    · omega

namespace Pins

variable {p : Pins} {s : Store} {i : Nat}

theorem on_iff : p.on i ↔ ∃ b h, p.holds.find? b = some h ∧ h.frame = i := by
  simp only [on, List.any_eq_true, decide_eq_true_eq, Registry.find?_eq_some_iff, Prod.exists]

theorem Owns.nodup_frames (h : p.Owns s) : (p.holds.entries.map fun e => e.2.frame).Nodup := by
  rw [List.Nodup, List.pairwise_map]
  refine (List.pairwise_map.1 p.holds.distinct).imp_of_mem fun {e e'} he he' hne heq => hne ?_
  have hb := (h e.1 e.2 (Registry.find?_eq_some_iff.2 he)).1
  have hb' := (h e'.1 e'.2 (Registry.find?_eq_some_iff.2 he')).1
  rw [heq, hb'] at hb
  exact (Option.some.inj hb).symm

theorem Owns.size_le (h : p.Owns s) : p.holds.size ≤ s.pool.size := by
  rw [Registry.size, ← List.length_map (f := fun e => e.2.frame)]
  refine length_le_of_nodup h.nodup_frames fun i hi => ?_
  obtain ⟨⟨b, k⟩, he, rfl⟩ := List.mem_map.1 hi
  obtain ⟨f, hf, -⟩ := Option.bind_eq_some_iff.1 (h b k (Registry.find?_eq_some_iff.2 he)).1
  exact (List.getElem?_eq_some_iff.1 hf).1

theorem Owns.inFrame_eq (h : p.Owns s) (i : Nat) : p.inFrame i = if p.on i then 1 else 0 := by
  have hle := List.nodup_iff_count.1 h.nodup_frames i
  have hpos : p.on i ↔ 0 < p.inFrame i := by
    rw [inFrame_eq_count, List.count_pos_iff, List.mem_map]
    simp only [on, List.any_eq_true, decide_eq_true_eq]
  rw [← inFrame_eq_count] at hle
  split
  · have := hpos.1 ‹_›
    omega
  · have := mt hpos.2 ‹_›
    omega

end Pins

namespace Desk

variable {d : Desk}

theorem mem_holdersOf {i : Nat} {tx : TxId} :
    tx ∈ d.holdersOf i ↔ ∃ b h, (d.pinsOf tx).holds.find? b = some h ∧ h.frame = i := by
  rw [← Pins.on_iff, holdersOf, List.mem_map]
  constructor
  · rintro ⟨⟨u, p⟩, he, rfl⟩
    obtain ⟨he, hon⟩ := List.mem_filter.1 he
    rwa [pinsOf, Registry.find?_eq_some_iff.2 he]
  · intro hon
    cases hp : d.pins.find? tx with
    | none =>
      rw [pinsOf, hp] at hon
      cases hon
    | some p =>
      rw [pinsOf, hp] at hon
      exact ⟨(tx, p), List.mem_filter.2 ⟨Registry.find?_eq_some_iff.1 hp, hon⟩, rfl⟩

theorem nodup_holdersOf (d : Desk) (i : Nat) : (d.holdersOf i).Nodup :=
  Registry.nodup_filter _ _ d.pins.distinct

theorem holders_eq_length (h : ∀ tx, (d.pinsOf tx).Owns d.store) (i : Nat) :
    d.holders i = (d.holdersOf i).length := by
  have hone : ∀ e ∈ d.pins.entries, e.2.inFrame i = if e.2.on i then 1 else 0 := by
    rintro ⟨tx, p⟩ he
    have howns := h tx
    rw [pinsOf, Registry.find?_eq_some_iff.2 he] at howns
    exact howns.inFrame_eq i
  rw [holdersOf, List.length_map, holders, Registry.total]
  generalize d.pins.entries = es at hone
  induction es with
  | nil => rfl
  | cons e es ih =>
    have hskip := ih fun e' he' => hone e' (List.mem_cons_of_mem e he')
    rw [List.foldr_cons, hone e List.mem_cons_self, hskip, List.filter_cons]
    split
    · exact Nat.add_comm ..
    · exact Nat.zero_add _

end Desk

namespace Hall

variable {size : Nat} {σ τ : Hall}

def opened (disk : Disk) (log : Log) (pool : Pool) (maxWait window : Nat) : Hall where
  desk := { store := .over disk log pool, maxWait, window }

def Orderly (σ : Hall) : List PinMove → Prop
  | [] => True
  | m :: ms => ∀ τ ∈ σ.move m, τ.Inside ∧ τ.Orderly ms

instance (σ : Hall) : Decidable σ.Inside :=
  decidable_of_iff (∀ f ∈ σ.desk.store.pool.frames, ∀ b ∈ f.block,
      b.number < σ.desk.store.media.disk.blocks b.file)
    ⟨fun h i b hb => by
      obtain ⟨f, hf, hb⟩ := Option.bind_eq_some_iff.1 hb
      exact h f (List.mem_of_getElem? hf) b hb,
    fun h f hf b hb => by
      obtain ⟨i, hi⟩ := List.mem_iff_getElem?.1 hf
      exact h i b (Option.bind_eq_some_iff.2 ⟨f, hi, hb⟩)⟩

instance decidableOrderly (σ : Hall) : (moves : List PinMove) → Decidable (σ.Orderly moves)
  | [] => inferInstanceAs (Decidable True)
  | m :: ms =>
    have (τ : Hall) : Decidable (τ.Orderly ms) := decidableOrderly τ ms
    inferInstanceAs (Decidable (∀ τ ∈ σ.move m, τ.Inside ∧ τ.Orderly ms))

theorem ledger_opened {disk : Disk} {log : Log} {size stripes maxWait window : Nat} {pool : Pool}
    (hc : Pool.create size stripes disk.blockSize = .ok pool) :
    (opened disk log pool maxWait window).Ledger disk.blockSize ∧
      (opened disk log pool maxWait window).Inside := by
  refine ⟨⟨Store.even_over hc, fun tx b k hb => ?_, fun tx q hq => ?_⟩, fun i b hb => ?_⟩
  · cases hb
  · cases hq
  · obtain ⟨-, -, hframes⟩ := Pool.create_eq_ok hc
    obtain ⟨f, hf, hblock⟩ := Option.bind_eq_some_iff.1 hb
    rw [hframes hf] at hblock
    cases hblock

theorem Ledger.run (h : σ.Ledger size) (hin : σ.Inside) {moves : List PinMove}
    (hr : σ.run moves = some τ) (ho : σ.Orderly moves) :
    τ.Ledger size ∧ τ.desk.store.pool.size = σ.desk.store.pool.size := by
  induction moves generalizing σ with
  | nil =>
    cases hr
    exact ⟨h, rfl⟩
  | cons m ms ih =>
    obtain ⟨υ, hm, hr⟩ := Option.bind_eq_some_iff.1 hr
    obtain ⟨hinside, horderly⟩ := ho υ hm
    have hmoved := moved_of_move hm
    obtain ⟨hledger, hsize⟩ := ih (h.moved hin hmoved) hinside hr horderly
    exact ⟨hledger, hsize.trans hmoved.poolSize⟩

/-- Where every request that is under way waits, none has got a frame. -/
theorem Settled.inHand_eq (h : σ.Settled) (i : Nat) : σ.inHand i = 0 := by
  refine Registry.total_eq_zero fun tx p hp => ?_
  obtain ⟨⟨w, stage⟩, rfl⟩ := h tx p hp
  cases stage <;> rfl

theorem Ledger.pinsAt_eq (h : σ.Ledger size) (i : Nat) :
    σ.desk.store.pool.pinsAt i = (σ.desk.holdersOf i).length + σ.inHand i := by
  rw [h.even.pinned, Desk.holders_eq_length h.owns]

/-- Whatever calls of any transactions come between the steps of each other, wait, fail or give up
all they hold, a transaction holds at most as many blocks as there are frames, each of them is
counted, has its frame and can be given back, and a frame has as many pins as there are
transactions that hold a block in it and requests that have got it and have yet to enter it; where
all requests under way wait there are none of these. Whole calls, one after the other, are such
runs, and after them all requests under way wait. -/
theorem pins_shared {disk : Disk} {log : Log} {size stripes maxWait window : Nat} {pool : Pool}
    (hc : Pool.create size stripes disk.blockSize = .ok pool) :
    (∀ moves τ, (opened disk log pool maxWait window).run moves = some τ →
      (opened disk log pool maxWait window).Orderly moves →
      (∀ tx, (τ.desk.pinsOf tx).holds.size ≤ size) ∧
      (∀ tx b h, (τ.desk.pinsOf tx).holds.find? b = some h → 0 < h.refs ∧
        τ.desk.store.blockAt? h.frame = some b ∧ (τ.desk.giveBack tx b).isSome) ∧
      (∀ i, τ.desk.store.pool.pinsAt i = (τ.desk.holdersOf i).length + τ.inHand i) ∧
      (τ.Settled → ∀ i, τ.desk.store.pool.pinsAt i = (τ.desk.holdersOf i).length)) ∧
    ∀ τ, (opened disk log pool maxWait window).Calls τ →
      Runs (opened disk log pool maxWait window) τ ∧ τ.Settled := by
  obtain ⟨hopened, hinside⟩ := @ledger_opened disk log size stripes maxWait window pool hc
  refine ⟨fun moves τ hr ho => ?_, fun τ hcalls => hcalls.runs fun u p hp => by cases hp⟩
  obtain ⟨hτ, hpool⟩ := hopened.run hinside hr ho
  refine ⟨fun tx => ?_, fun tx b h hb => ?_, hτ.pinsAt_eq, fun hs i => ?_⟩
  · refine Nat.le_trans (hτ.owns tx).size_le (Nat.le_of_eq (hpool.trans ?_))
    exact (Pool.size_of_create hc).1
  · obtain ⟨hblock, hrefs⟩ := hτ.owns tx b h hb
    exact ⟨hrefs, hblock, hτ.giveBack_isSome hb⟩
  · rw [hτ.pinsAt_eq, hs.inHand_eq, Nat.add_zero]

/-- A transaction that waits for a third block gives up the one it holds, takes it back, and waits
again, until the files fail. -/
def starved : List PinMove :=
  [.ask ⟨1⟩ (.fresh "a" .zero), .advance ⟨1⟩, .ask ⟨2⟩ (.fresh "a" .zero), .advance ⟨2⟩,
    .ask ⟨1⟩ (.block ⟨"a", 1⟩), .advance ⟨1⟩] ++
    .ask ⟨2⟩ (.fresh "a" .zero) :: List.replicate 6 (.advance ⟨2⟩) ++
    .expire ⟨2⟩ :: List.replicate 3 (.advance ⟨2⟩) ++
    .yield ⟨2⟩ ⟨"a", 1⟩ :: List.replicate 16 (.advance ⟨2⟩) ++
    [.fault (some .logUnavailable), .unpin ⟨1⟩ ⟨"a", 0⟩, .advance ⟨1⟩, .advance ⟨1⟩, .stir ⟨2⟩] ++
    List.replicate 5 (.advance ⟨2⟩)

theorem pins_shared_starved : Pool.create 2 1 12 = .ok twoFrames ∧
    ∃ τ, (opened { blockSize := 12 } .empty twoFrames 9 4).run starved = some τ ∧
      (opened { blockSize := 12 } .empty twoFrames 9 4).Orderly starved ∧ τ.Settled ∧
      (∀ tx, (τ.desk.pinsOf tx).holds.size ≤ 2) ∧
      τ.desk.store.pool.pinsAt 0 = 0 ∧ τ.desk.store.pool.pinsAt 1 = 2 := by
  have hc : Pool.create 2 1 12 = .ok twoFrames := rfl
  have ho : (opened { blockSize := 12 } .empty twoFrames 9 4).Orderly starved := by decide +kernel
  have hrun : ((opened { blockSize := 12 } .empty twoFrames 9 4).run starved).any (fun τ =>
      decide (τ.phases.entries.length = 0 ∧ (τ.desk.holdersOf 0).length = 0 ∧
        (τ.desk.holdersOf 1).length = 2)) := by decide +kernel
  obtain ⟨τ, hr, hτ⟩ := (Option.any_eq_true _ _).1 hrun
  obtain ⟨hidle, h₀, h₁⟩ := of_decide_eq_true hτ
  have hs : τ.Settled := by
    intro u p hp
    rw [Registry.find?, List.length_eq_zero_iff.1 hidle] at hp
    cases hp
  obtain ⟨hsize, -, -, hpins⟩ :=
    (@pins_shared { blockSize := 12 } .empty 2 1 9 4 twoFrames hc).1 starved τ hr ho
  exact ⟨hc, τ, hr, ho, hs, hsize, (hpins hs 0).trans h₀, (hpins hs 1).trans h₁⟩

end Hall

end PagedStore
