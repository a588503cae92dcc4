import PagedStore.Proofs.Pins.Acts

set_option autoImplicit false

/-!
The accounts of the pins while calls are under way. Main statement: `Hall.Ledger.moved`. Each frame
has a pin for every hold on it and for every request that has got it and has yet to enter it, what
is held is what the frame has, and no request will get what its transaction holds already.
-/

namespace PagedStore

/-- What a request is yet to take back. -/
def Errand.owed (r : Errand) : List (BlockId × Nat) :=
  match r.aim with
  | .first | .last => []
  | .regaining b refs rest => (b, refs) :: rest

@[simp] theorem Errand.owed_regain (w : Wanted) (bs : List (BlockId × Nat)) :
    (Errand.regain w bs).owed = bs := by
  cases bs <;> rfl

@[simp] theorem Errand.wanted_regain (w : Wanted) (bs : List (BlockId × Nat)) :
    (Errand.regain w bs).wanted = w := by
  cases bs <;> rfl

namespace PinPhase

/-- The frame that a request has got and has yet to enter, and what it asked for. -/
def hand? : PinPhase → Option (Nat × Wanted)
  | .leaving r _ (.got i) | .struck r (.got i) | .left r (.got i) => some (i, r.asks)
  | _ => none

def plan? : PinPhase → Option (Wanted × List (BlockId × Nat))
  | .trying w => some (w, [])
  | .drawing r | .joining r _ | .joined r _ | .looking r _ | .asking r _ | .resting r _
  | .parked r _ | .leaving r _ _ | .struck r _ | .left r _ => some (r.wanted, r.owed)
  | .yielding w counts _ | .pausing w counts => some (w, counts)
  | .releasing _ | .telling | .waking => none

def yields : PinPhase → Bool
  | .yielding _ _ _ => true
  | _ => false

def inHand (p : PinPhase) (i : Nat) : Nat := if p.hand?.any fun h => h.1 = i then 1 else 0

end PinPhase

/-- What is held is what the frame has, and counted. -/
def Pins.Owns (p : Pins) (s : Store) : Prop :=
  ∀ b k, p.holds.find? b = some k → s.blockAt? k.frame = some b ∧ 0 < k.refs

/-- A request can go on: it will get nothing that its transaction holds already. -/
structure PinPhase.Ready (q : PinPhase) (p : Pins) (s : Store) : Prop where
  distinct : ∀ w bs, q.plan? = some (w, bs) → (bs.map Prod.fst).Nodup
  counted : ∀ w bs, q.plan? = some (w, bs) → ∀ e ∈ bs, 0 < e.2
  wanted : ∀ w bs, q.plan? = some (w, bs) → ∀ b, w = .block b →
    p.holds.find? b = none ∧ b ∉ bs.map Prod.fst
  given : ∀ w bs, q.plan? = some (w, bs) → q.yields = false →
    ∀ e ∈ bs, p.holds.find? e.1 = none
  hand : ∀ i v, q.hand? = some (i, v) → ∃ b, s.blockAt? i = some b ∧ p.holds.find? b = none ∧
    ∀ c, v = .block c → c = b

namespace PinPhase

variable {q q' : PinPhase} {p p' : Pins} {s s' : Store}

theorem Ready.same (h : q.Ready p s) (hplan : q'.plan? = q.plan?) (hy : q'.yields = q.yields)
    (hhand : q'.hand? = none ∨ (q'.hand? = q.hand? ∧ ∀ i v, q.hand? = some (i, v) →
      s'.blockAt? i = s.blockAt? i)) : q'.Ready p s' where
  distinct w bs hq := h.distinct w bs (hplan ▸ hq)
  counted w bs hq := h.counted w bs (hplan ▸ hq)
  wanted w bs hq := h.wanted w bs (hplan ▸ hq)
  given w bs hq hn := h.given w bs (hplan ▸ hq) (hy ▸ hn)
  hand i v hq := by
    rcases hhand with hnone | ⟨hsame, hblock⟩
    · rw [hnone] at hq
      cases hq
    · rw [hsame] at hq
      rw [hblock i v hq]
      exact h.hand i v hq

theorem Ready.loses (h : q.Ready p s) (hplan : q'.plan? = q.plan?) (hhand : q'.hand? = none)
    (hless : ∀ b, p.holds.find? b = none → p'.holds.find? b = none)
    (hgiven : q'.yields = true ∨ ∀ b, p'.holds.find? b = none) : q'.Ready p' s' where
  distinct w bs hq := h.distinct w bs (hplan ▸ hq)
  counted w bs hq := h.counted w bs (hplan ▸ hq)
  wanted w bs hq b hb := (h.wanted w bs (hplan ▸ hq) b hb).imp_left (hless b)
  given w bs _ hn e _ := by
    rcases hgiven with hy | hnone
    · rw [hy] at hn
      cases hn
    · exact hnone e.1
  hand i v hq := by
    rw [hhand] at hq
    cases hq

theorem ready_of_wanted {w : Wanted} (hplan : q.plan? = some (w, [])) (hhand : q.hand? = none)
    (hw : ∀ b, w = .block b → p.holds.find? b = none) : q.Ready p s where
  distinct v bs hq := by
    cases hplan.symm.trans hq
    exact .nil
  counted v bs hq := by
    cases hplan.symm.trans hq
    exact fun e he => absurd he List.not_mem_nil
  wanted v bs hq := by
    cases hplan.symm.trans hq
    exact fun b hb => ⟨hw b hb, List.not_mem_nil⟩
  given v bs hq _ := by
    cases hplan.symm.trans hq
    exact fun e he => absurd he List.not_mem_nil
  hand i v hq := by
    rw [hhand] at hq
    cases hq

theorem ready_of_plan (hplan : q.plan? = none) (hhand : q.hand? = none) : q.Ready p s where
  distinct w bs hq := by rw [hplan] at hq; cases hq
  counted w bs hq := by rw [hplan] at hq; cases hq
  wanted w bs hq := by rw [hplan] at hq; cases hq
  given w bs hq := by rw [hplan] at hq; cases hq
  hand i v hq := by rw [hhand] at hq; cases hq

theorem Ready.asks (h : q.Ready p s) {r : Errand} (hplan : q.plan? = some (r.wanted, r.owed))
    (hy : q.yields = false) {b : BlockId} (hb : r.asks = .block b) : p.holds.find? b = none := by
  obtain ⟨w, aim⟩ := r
  cases aim with
  | first => exact (h.wanted _ _ hplan b hb).1
  | regaining c refs rest =>
    cases hb
    exact h.given _ _ hplan hy (b, refs) List.mem_cons_self
  | last => exact (h.wanted _ _ hplan b hb).1

end PinPhase

namespace Hall

variable {size : Nat} {σ τ : Hall} {tx : TxId} {p p' : Option PinPhase} {d : Desk}

/-- How many requests have got frame `i` and have yet to enter it. -/
def inHand (σ : Hall) (i : Nat) : Nat := σ.phases.total fun p => p.inHand i

def handOf (p : Option PinPhase) (i : Nat) : Nat := (p.map fun p => p.inHand i).getD 0

/-- The pins that the other transactions have on a frame. -/
def besides (σ : Hall) (tx : TxId) (i : Nat) : Nat :=
  σ.desk.others tx i + (σ.phases.erase tx).total fun p => p.inHand i

theorem inHand_eq (σ : Hall) (tx : TxId) (i : Nat) : σ.inHand i =
    handOf (σ.phases.find? tx) i + (σ.phases.erase tx).total fun p => p.inHand i :=
  Registry.total_eq ..

theorem inHand_put (i : Nat) : (σ.put tx p' d).inHand i =
    handOf p' i + (σ.phases.erase tx).total fun p => p.inHand i := by
  cases p' with
  | none => exact (Nat.zero_add _).symm
  | some q => exact Registry.total_insert ..

/-- The accounts of the pins. -/
structure Ledger (size : Nat) (σ : Hall) : Prop where
  even : σ.desk.store.Even size fun i => σ.desk.holders i + σ.inHand i
  owns : ∀ tx, (σ.desk.pinsOf tx).Owns σ.desk.store
  ready : ∀ tx q, σ.phases.find? tx = some q → q.Ready (σ.desk.pinsOf tx) σ.desk.store

theorem pins_eq (σ : Hall) (tx : TxId) (i : Nat) : σ.desk.holders i + σ.inHand i =
    (σ.desk.pinsOf tx).inFrame i + handOf (σ.phases.find? tx) i + σ.besides tx i := by
  rw [σ.desk.holders_eq tx, σ.inHand_eq tx, besides]
  omega

theorem Ledger.pinned (h : σ.Ledger size) {u : TxId} {b : BlockId} {k : Hold}
    (hb : (σ.desk.pinsOf u).holds.find? b = some k) : 0 < σ.desk.store.pool.pinsAt k.frame := by
  rw [h.even.pinned]
  exact Nat.lt_of_lt_of_le (Desk.holders_pos hb) (Nat.le_add_right ..)

theorem Ledger.pinned_hand (h : σ.Ledger size) {u : TxId} {q : PinPhase} {i : Nat} {v : Wanted}
    (hq : σ.phases.find? u = some q) (hi : q.hand? = some (i, v)) :
    0 < σ.desk.store.pool.pinsAt i := by
  have hone : handOf (σ.phases.find? u) i = 1 := by
    simp [handOf, hq, PinPhase.inHand, hi]
  rw [h.even.pinned, σ.pins_eq u, hone]
  omega

/-- What one transaction does leaves the accounts of the others as they are, if their frames keep
their blocks. -/
theorem Ledger.pass (h : σ.Ledger size) (hpins : d.pins.erase tx = σ.desk.pins.erase tx)
    (heven : d.store.Even size fun i => (d.pinsOf tx).inFrame i + handOf p' i + σ.besides tx i)
    (hblock : ∀ i, 0 < σ.desk.store.pool.pinsAt i →
      d.store.blockAt? i = σ.desk.store.blockAt? i)
    (howns : (d.pinsOf tx).Owns d.store)
    (hready : ∀ q, p' = some q → q.Ready (d.pinsOf tx) d.store) : (σ.put tx p' d).Ledger size := by
  have hothers : ∀ u, u ≠ tx → d.pinsOf u = σ.desk.pinsOf u := fun u hu => by
    rw [Desk.pinsOf, Registry.find?_congr hpins hu, ← Desk.pinsOf]
  constructor
  · rw [desk_put]
    refine heven.congr fun i => ?_
    have hsame : d.others tx i = σ.desk.others tx i := by rw [Desk.others, hpins, Desk.others]
    rw [d.holders_eq tx, inHand_put, besides, hsame]
    omega
  · intro u
    rw [desk_put]
    by_cases hu : u = tx
    · rw [hu]
      exact howns
    · intro b k hb
      rw [hothers u hu] at hb
      rw [hblock _ (h.pinned hb)]
      exact h.owns u b k hb
  · intro u q hq
    rw [desk_put]
    rw [find?_put] at hq
    split at hq
    · rename_i hu
      rw [hu]
      exact hready q hq
    · rename_i hu
      rw [hothers u hu]
      exact (h.ready u q hq).same rfl rfl
        (.inr ⟨rfl, fun i v hi => hblock i (h.pinned_hand hq hi)⟩)

theorem Ledger.kept (h : σ.Ledger size) (hd : d.pins = σ.desk.pins)
    (heven : d.store.Even size fun i => σ.desk.holders i + σ.inHand i)
    (hblock : ∀ i, 0 < σ.desk.store.pool.pinsAt i →
      d.store.blockAt? i = σ.desk.store.blockAt? i)
    (hhand : ∀ i, handOf p' i = handOf (σ.phases.find? tx) i)
    (hready : ∀ q, p' = some q → q.Ready (σ.desk.pinsOf tx) d.store) :
    (σ.put tx p' d).Ledger size := by
  have hsame := Desk.pinsOf_congr hd tx
  refine h.pass (by rw [hd]) (heven.congr fun i => ?_) hblock ?_ (hsame ▸ hready)
  · rw [hsame, hhand, σ.pins_eq tx]
  · rw [hsame]
    intro b k hb
    rw [hblock _ (h.pinned hb)]
    exact h.owns tx b k hb

theorem Ledger.entered (h : σ.Ledger size) (d₀ : Desk) {b : BlockId} {i refs : Nat}
    (hd : d₀.pins = σ.desk.pins)
    (heven : d₀.store.Even size fun j =>
      (σ.desk.pinsOf tx).inFrame j + (if i = j then 1 else 0) + σ.besides tx j)
    (hblock : ∀ i, 0 < σ.desk.store.pool.pinsAt i →
      d₀.store.blockAt? i = σ.desk.store.blockAt? i)
    (hfree : (σ.desk.pinsOf tx).holds.find? b = none) (hb : d₀.store.blockAt? i = some b)
    (hrefs : 0 < refs) (hhand : ∀ j, handOf p' j = 0)
    (hready : ∀ q, p' = some q → q.Ready ((d₀.record tx b i refs).pinsOf tx) d₀.store) :
    (σ.put tx p' (d₀.record tx b i refs)).Ledger size := by
  have hsame := Desk.pinsOf_congr hd tx
  have hpins : (d₀.record tx b i refs).pinsOf tx =
      { holds := (σ.desk.pinsOf tx).holds.insert b ⟨i, refs⟩,
        touched := (σ.desk.pinsOf tx).touched.insert i } := by
    rw [Desk.record, Desk.pinsOf_setPins_self, hsame]
  refine h.pass ?_ (heven.congr fun j => ?_) hblock ?_ hready
  · rw [← hd]
    exact Registry.erase_insert ..
  · rw [hpins, Pins.inFrame_insert hfree, hhand]
    rfl
  · rw [hpins]
    intro c k hc
    rw [Registry.find?_insert] at hc
    split at hc
    · rename_i he
      cases hc
      exact ⟨he ▸ hb, hrefs⟩
    · show d₀.store.blockAt? k.frame = some c ∧ 0 < k.refs
      rw [hblock _ (h.pinned hc)]
      exact h.owns tx c k hc

theorem Ledger.counted (h : σ.Ledger size) (hp : σ.phases.find? tx = none) {b : BlockId} {k : Hold}
    {refs : Nat} (hb : (σ.desk.pinsOf tx).holds.find? b = some k) (hr : 0 < refs) :
    (σ.put tx none (σ.desk.recount tx b k refs)).Ledger size := by
  have hpins := Desk.pinsOf_setPins_self σ.desk tx
    { σ.desk.pinsOf tx with holds := (σ.desk.pinsOf tx).holds.insert b { k with refs } }
  refine h.pass (Registry.erase_insert ..) (h.even.congr fun i => ?_) (fun _ _ => rfl) ?_
    (by rintro _ ⟨⟩)
  · rw [Desk.recount, hpins, Pins.inFrame_recount hb, σ.pins_eq tx, hp]
  · rw [Desk.recount, hpins]
    intro c j hc
    rw [Registry.find?_insert] at hc
    split at hc
    · rename_i he
      cases hc
      exact ⟨he ▸ (h.owns tx b k hb).1, hr⟩
    · exact h.owns tx c j hc

theorem Ledger.gaveBack (h : σ.Ledger size) {b : BlockId}
    (hd : σ.desk.giveBack tx b = some d) (hhand : ∀ i, handOf p' i = 0)
    (hhand₀ : ∀ i, handOf (σ.phases.find? tx) i = 0)
    (hready : ∀ q, p' = some q → q.hand? = none ∧ (q.plan? = none ∨
      (q.yields = true ∧ ∃ q₀, σ.phases.find? tx = some q₀ ∧ q.plan? = q₀.plan?))) :
    (σ.put tx p' d).Ledger size := by
  obtain ⟨k, s, hb, hu, rfl⟩ := Desk.of_giveBack hd
  have hpins := Desk.pinsOf_setPins_self (σ.desk.setStore s) tx
    { σ.desk.pinsOf tx with holds := (σ.desk.pinsOf tx).holds.erase b }
  have hstill : Store.Still σ.desk.store s := by
    have := Store.still_unpin σ.desk.store k.frame
    rwa [hu] at this
  obtain ⟨-, heven⟩ := h.even.unpin (i := k.frame) (by
    rw [← h.even.pinned]
    exact h.pinned hb)
  rw [hu] at heven
  refine h.pass (Registry.erase_insert ..) (heven.congr fun i => ?_)
    (fun i _ => hstill.blockAt? i) ?_ ?_
  · rw [hpins, σ.pins_eq tx, hhand, hhand₀, Pins.inFrame_erase hb (σ.desk.pinsOf tx).touched]
    dsimp only
    omega
  · rw [hpins]
    intro c j hc
    show s.blockAt? j.frame = some c ∧ 0 < j.refs
    rw [hstill.blockAt?]
    exact h.owns tx c j (Registry.find?_of_erase hc).2
  · intro q hq
    rw [hpins]
    obtain ⟨hhand, hplan | ⟨hy, q₀, hq₀, hplan⟩⟩ := hready q hq
    · exact PinPhase.ready_of_plan hplan hhand
    · refine (h.ready tx q₀ hq₀).loses hplan hhand (fun c hc => ?_) (.inl hy)
      show ((σ.desk.pinsOf tx).holds.erase b).find? c = none
      rw [Registry.find?_erase, hc, ite_self]

theorem Ledger.emptied (h : σ.Ledger size) (hs : (σ.desk.pinsOf tx).holds.size = 0)
    {touched : List Nat} (hstore : d.store = σ.desk.store)
    (hd : d.pins = σ.desk.pins.insert tx { holds := .empty, touched })
    (hhand₀ : ∀ i, handOf (σ.phases.find? tx) i = 0)
    (hready : ∀ q, p' = some q → q.hand? = none ∧ (q.plan? = none ∨
      ∃ q₀, σ.phases.find? tx = some q₀ ∧ q.plan? = q₀.plan?)) : (σ.put tx p' d).Ledger size := by
  have hpins : d.pinsOf tx = { holds := .empty, touched } := by
    rw [Desk.pinsOf, hd, Registry.find?_insert_self]
    rfl
  have hhand : ∀ i, handOf p' i = 0 := by
    intro i
    cases p' with
    | none => rfl
    | some q => simp [handOf, PinPhase.inHand, (hready q rfl).1]
  have hnone : (σ.desk.pinsOf tx).holds.entries = [] := List.length_eq_zero_iff.1 hs
  refine h.pass ?_ (hstore ▸ h.even.congr fun i => ?_) (fun _ _ => by rw [hstore]) ?_ ?_
  · rw [hd, Registry.erase_insert]
  · rw [σ.pins_eq tx, hpins, hhand, hhand₀, Pins.inFrame, Pins.inFrame, Registry.total,
      Registry.total, hnone]
    rfl
  · rw [hpins]
    intro b k hb
    cases hb
  · intro q hq
    obtain ⟨hhand, hplan | ⟨q₀, hq₀, hplan⟩⟩ := hready q hq
    · exact PinPhase.ready_of_plan hplan hhand
    · rw [hpins]
      exact (h.ready tx q₀ hq₀).loses hplan hhand (fun _ _ => rfl) (.inr fun _ => rfl)

theorem blockAt?_pin_of_pinned (s : Store) (w : Wanted) {i : Nat} (hi : 0 < s.pool.pinsAt i) :
    (s.pin w).2.blockAt? i = s.blockAt? i := by
  obtain ⟨f, hf⟩ := Pool.frame_of_pinsAt hi
  obtain ⟨g, hg, hfg⟩ := (s.refetched w).later hf
  rw [Pool.pinsAt_of_frame hf] at hi
  rw [Store.blockAt?_of_frame hf, Store.blockAt?_of_frame hg, hfg.block hi]

theorem Ledger.missed (h : σ.Ledger size) {w : Wanted} {q : Outcome (Option Nat)} {s : Store}
    (hr : σ.desk.store.pin w = (q, s)) (hq : ∀ i, q ≠ .ok (some i))
    (hc : ∀ c, q ≠ .error (.crash c))
    (hhand : ∀ i, handOf p' i = handOf (σ.phases.find? tx) i)
    (hready : ∀ q, p' = some q → q.Ready (σ.desk.pinsOf tx) s) :
    (σ.put tx p' (σ.desk.setStore s)).Ledger size := by
  have heven := h.even.missed (w := w) (by rwa [hr]) (by rwa [hr])
  have hblock := fun i => @blockAt?_pin_of_pinned σ.desk.store w i
  rw [hr] at heven hblock
  exact h.kept rfl heven hblock hhand hready

/-- Every block that is loaded lies inside its file. -/
def Inside (σ : Hall) : Prop := ∀ i b, σ.desk.store.blockAt? i = some b →
  b.number < σ.desk.store.media.disk.blocks b.file

theorem Ledger.got_block (h : σ.Ledger size) (hin : σ.Inside) {w : Wanted} {i : Nat} {s : Store}
    (hr : σ.desk.store.pin w = (.ok (some i), s))
    (hfree : ∀ b, w = .block b → (σ.desk.pinsOf tx).holds.find? b = none) :
    ∃ b, s.blockAt? i = some b ∧ (σ.desk.pinsOf tx).holds.find? b = none ∧
      ∀ c, w = .block c → c = b := by
  cases w with
  | block b =>
    have hb := Store.blockAt?_pin (s := σ.desk.store) (b := b) (i := i) (by rw [hr])
    rw [hr] at hb
    refine ⟨b, hb, hfree b rfl, ?_⟩
    rintro c ⟨⟩
    rfl
  | fresh file format =>
    have hclaim : σ.desk.store.claim (.fresh file format) = (.ok (some i), s) := hr
    obtain ⟨n, hb, hle, -⟩ := Store.blockAt?_claim_fresh h.even.pos (congrArg Prod.fst hclaim)
    rw [hclaim] at hb
    refine ⟨⟨file, n⟩, hb, ?_, fun c hc => by cases hc⟩
    cases hf : (σ.desk.pinsOf tx).holds.find? ⟨file, n⟩ with
    | none => rfl
    | some k =>
      -- what is held lies inside its file, and the new block lies behind it
      exact absurd (hin _ _ (h.owns tx _ k hf).1) (Nat.not_lt.2 hle)

theorem finish_eq_record {w : Wanted} {i : Nat} {b : BlockId} (hb : d.store.blockAt? i = some b)
    (hw : ∀ c, w = .block c → c = b) : (d.finish tx w i).2 = d.record tx b i 1 := by
  cases w with
  | block c =>
    obtain rfl := hw c rfl
    rfl
  | fresh file format =>
    have hblock : d.blockOf? i = some b := hb
    simp only [Desk.finish, hblock]

theorem Ledger.calm (h : σ.Ledger size) {q q' : PinPhase} (hp : σ.phases.find? tx = some q)
    (hs : d.store = σ.desk.store) (hd : d.pins = σ.desk.pins) (hplan : q'.plan? = q.plan?)
    (hy : q'.yields = q.yields) (hhand : q'.hand? = q.hand?) :
    (σ.put tx (some q') d).Ledger size := by
  refine h.kept hd (hs ▸ h.even) (fun _ _ => by rw [hs]) (fun i => ?_) ?_
  · rw [hp]
    simp only [handOf, Option.map_some, PinPhase.inHand, hhand]
  · rintro _ ⟨⟩
    rw [hs]
    exact (h.ready tx q hp).same hplan hy (.inr ⟨hhand, fun _ _ _ => rfl⟩)

theorem Ledger.aside (h : σ.Ledger size) (hs : d.store = σ.desk.store) (hd : d.pins = σ.desk.pins)
    (hhand : ∀ i, handOf (σ.phases.find? tx) i = 0)
    (hready : ∀ q, p' = some q → q.plan? = none ∧ q.hand? = none) :
    (σ.put tx p' d).Ledger size := by
  refine h.kept hd (hs ▸ h.even) (fun _ _ => by rw [hs]) (fun i => ?_) fun q hq =>
    PinPhase.ready_of_plan (hready q hq).1 (hready q hq).2
  rw [hhand]
  cases p' with
  | none => rfl
  | some q => simp [handOf, PinPhase.inHand, (hready q rfl).2]

theorem handOf_got {q : PinPhase} {i : Nat} {v : Wanted} (hq : q.hand? = some (i, v)) (j : Nat) :
    handOf (some q) j = if i = j then 1 else 0 := by
  simp [handOf, PinPhase.inHand, hq]

theorem handOf_none {q : PinPhase} (hq : q.hand? = none) (j : Nat) : handOf (some q) j = 0 := by
  simp [handOf, PinPhase.inHand, hq]

theorem Ledger.got (h : σ.Ledger size) (hin : σ.Inside) {r : Errand} {k i : Nat} {s : Store}
    (hp : σ.phases.find? tx = some (.asking r k))
    (hr : σ.desk.store.pin r.asks = (.ok (some i), s)) :
    (σ.put tx (some (.leaving r k (.got i))) (σ.desk.setStore s)).Ledger size := by
  have hready := h.ready tx _ hp
  obtain ⟨b, hb, hfree, hc⟩ := h.got_block hin hr fun b hb => hready.asks rfl rfl hb
  have heven := h.even.got (congrArg Prod.fst hr)
  have hblock := fun i => @blockAt?_pin_of_pinned σ.desk.store r.asks i
  rw [hr] at heven hblock
  have hasking : ∀ j, handOf (some (.asking r k)) j = 0 := handOf_none rfl
  have hleaving : ∀ j, handOf (some (.leaving r k (.got i))) j = if i = j then 1 else 0 :=
    handOf_got rfl
  refine h.pass rfl (heven.congr fun j => ?_) hblock (fun c j hc => ?_) ?_
  · rw [σ.pins_eq tx, hp, hasking, hleaving]
    show (σ.desk.pinsOf tx).inFrame j + _ + _ = _
    omega
  · show s.blockAt? j.frame = some c ∧ 0 < j.refs
    rw [hblock _ (h.pinned hc)]
    exact h.owns tx c j hc
  · rintro _ ⟨⟩
    refine ⟨hready.distinct, hready.counted, hready.wanted, hready.given, ?_⟩
    rintro _ _ ⟨⟩
    exact ⟨b, hb, hfree, hc⟩

theorem Ledger.found (h : σ.Ledger size) (hin : σ.Inside) {w : Wanted} {i : Nat} {s : Store}
    (hp : σ.phases.find? tx = some (.trying w)) (hr : σ.desk.store.pin w = (.ok (some i), s)) :
    (σ.put tx none ((σ.desk.setStore s).finish tx w i).2).Ledger size := by
  have hwanted := (h.ready tx _ hp).wanted w [] rfl
  obtain ⟨b, hb, hfree, hc⟩ := h.got_block hin hr fun b hb => (hwanted b hb).1
  have heven := h.even.got (congrArg Prod.fst hr)
  have hblock := fun i => @blockAt?_pin_of_pinned σ.desk.store w i
  rw [hr] at heven hblock
  have hrecord := @finish_eq_record tx (σ.desk.setStore s) w i b hb hc
  rw [hrecord]
  refine h.entered (σ.desk.setStore s) rfl (heven.congr fun j => ?_) hblock hfree hb
    Nat.zero_lt_one (fun _ => rfl) (by rintro _ ⟨⟩)
  rw [σ.pins_eq tx, hp, handOf_none rfl]
  omega

theorem Ledger.passed (h : σ.Ledger size) {r : Errand} {i refs : Nat} {b : BlockId}
    (hp : σ.phases.find? tx = some (.left r (.got i)))
    (hfree : (σ.desk.pinsOf tx).holds.find? b = none) (hb : σ.desk.store.blockAt? i = some b)
    (hrefs : 0 < refs) (hhand : ∀ q, p' = some q → q.hand? = none)
    (hready : ∀ q, p' = some q →
      q.Ready ((σ.desk.wakeHead.record tx b i refs).pinsOf tx) σ.desk.store) :
    (σ.put tx p' (σ.desk.wakeHead.record tx b i refs)).Ledger size := by
  refine h.entered σ.desk.wakeHead rfl (h.even.congr fun j => ?_) (fun _ _ => rfl) hfree hb
    hrefs (fun j => ?_) hready
  · rw [σ.pins_eq tx, hp, handOf_got rfl]
  · cases p' with
    | none => rfl
    | some q => exact handOf_none (hhand q rfl) j

theorem Ledger.regained (h : σ.Ledger size) {w : Wanted} {b : BlockId} {i refs : Nat}
    {rest : List (BlockId × Nat)}
    (hp : σ.phases.find? tx = some (.left ⟨w, .regaining b refs rest⟩ (.got i))) :
    (σ.put tx (some (.drawing (.regain w rest)))
      (σ.desk.wakeHead.record tx b i refs)).Ledger size := by
  have hready := h.ready tx _ hp
  have hplan : (PinPhase.left ⟨w, .regaining b refs rest⟩ (.got i)).plan? =
      some (w, (b, refs) :: rest) := rfl
  have hplan' : (PinPhase.drawing (.regain w rest)).plan? = some (w, rest) := by
    rw [PinPhase.plan?, Errand.wanted_regain, Errand.owed_regain]
  have hdistinct := hready.distinct _ _ hplan
  rw [List.map_cons, List.nodup_cons] at hdistinct
  have hfree := hready.given _ _ hplan rfl (b, refs) List.mem_cons_self
  obtain ⟨c, hc, -, hsame⟩ := hready.hand i _ rfl
  obtain rfl := hsame b rfl
  refine h.passed hp hfree hc (hready.counted _ _ hplan (b, refs) List.mem_cons_self) ?_ ?_
  · rintro _ ⟨⟩
    rfl
  · rintro _ ⟨⟩
    have hpins : (σ.desk.wakeHead.record tx b i refs).pinsOf tx =
        { holds := (σ.desk.pinsOf tx).holds.insert b ⟨i, refs⟩,
          touched := (σ.desk.pinsOf tx).touched.insert i } := Desk.pinsOf_setPins_self ..
    rw [hpins]
    constructor
    · intro v bs hq
      cases hplan'.symm.trans hq
      exact hdistinct.2
    · intro v bs hq e he
      cases hplan'.symm.trans hq
      exact hready.counted _ _ hplan e (List.mem_cons_of_mem _ he)
    · intro v bs hq x hx
      cases hplan'.symm.trans hq
      obtain ⟨hnone, hmem⟩ := hready.wanted _ _ hplan x hx
      rw [List.map_cons, List.mem_cons, not_or] at hmem
      exact ⟨(Registry.find?_insert_of_ne _ _ hmem.1).trans hnone, hmem.2⟩
    · intro v bs hq _ e he
      cases hplan'.symm.trans hq
      have hne : e.1 ≠ b := fun heq => hdistinct.1 (List.mem_map.2 ⟨e, he, heq⟩)
      exact (Registry.find?_insert_of_ne _ _ hne).trans
        (hready.given _ _ hplan rfl e (List.mem_cons_of_mem _ he))
    · intro j v hq
      cases hq

/-- What is held is noted before it is given up. -/
theorem Ledger.yields (h : σ.Ledger size) {w : Wanted}
    (hp : σ.phases.find? tx = some (.left ⟨w, .first⟩ .ranOut)) :
    (σ.put tx (some (.yielding w (σ.desk.pinsOf tx).counts false))
      σ.desk.wakeHead).Ledger size := by
  have hwanted := (h.ready tx _ hp).wanted w [] rfl
  refine h.kept rfl h.even (fun _ _ => rfl) (fun i => ?_) ?_
  · rw [hp]
    rfl
  · rintro _ ⟨⟩
    constructor
    · rintro _ _ ⟨⟩
      rw [Pins.keys_counts]
      exact (σ.desk.pinsOf tx).nodup_held
    · rintro _ _ ⟨⟩ e he
      obtain ⟨b, hb, rfl⟩ := List.mem_map.1 he
      obtain ⟨k, hk⟩ := Pins.mem_held.1 hb
      rw [Pins.refs, hk]
      exact (h.owns tx b k hk).2
    · rintro _ _ ⟨⟩ b hb
      refine ⟨(hwanted b hb).1, fun hmem => ?_⟩
      rw [Pins.keys_counts] at hmem
      obtain ⟨k, hk⟩ := Pins.mem_held.1 hmem
      rw [(hwanted b hb).1] at hk
      cases hk
    · intro v bs _ hn
      cases hn
    · intro i v hi
      cases hi

theorem Ledger.act (h : σ.Ledger size) (hin : σ.Inside) (hp : σ.phases.find? tx = p)
    (ha : σ.Act tx p p' d) : (σ.put tx p' d).Ledger size := by
  have hhand₀ : p.bind PinPhase.hand? = none → ∀ i, handOf (σ.phases.find? tx) i = 0 := by
    intro hn i
    rw [hp]
    cases p with
    | none => rfl
    | some q => exact handOf_none hn i
  cases ha with
  | counted hb hr => exact h.counted hp hb hr
  | idled => exact h.aside rfl rfl (hhand₀ rfl) (by rintro _ ⟨⟩)
  | @began w hh =>
    refine h.kept rfl h.even (fun _ _ => rfl) (fun i => (hhand₀ rfl i).symm) ?_
    rintro _ ⟨⟩
    refine PinPhase.ready_of_wanted rfl rfl ?_
    rintro b rfl
    exact Option.map_eq_none_iff.1 hh
  | releases =>
    refine h.aside rfl rfl (hhand₀ rfl) ?_
    rintro _ ⟨⟩
    exact ⟨rfl, rfl⟩
  | found hr => exact h.found hin hp hr
  | missed hr | none hr | failed hr =>
    refine h.missed hr nofun nofun (fun i => (hhand₀ rfl i).symm) ?_
    rintro _ ⟨⟩
    exact (h.ready tx _ hp).same rfl rfl (.inl rfl)
  | erred hr => exact h.missed hr nofun nofun (fun i => (hhand₀ rfl i).symm) (by rintro _ ⟨⟩)
  | drew | joined | lengthened | ahead | behind | slept | ranOut | stirred =>
    exact h.calm hp rfl rfl rfl rfl rfl
  | got hr => exact h.got hin hp hr
  | @left r k o => cases o <;> exact h.calm hp rfl rfl rfl rfl rfl
  | @shortened r o => cases o <;> exact h.calm hp rfl rfl rfl rfl rfl
  | @finished w aim i haim =>
    obtain ⟨b, hb, hfree, hc⟩ := (h.ready tx _ hp).hand i _ rfl
    have hasks : (Errand.mk w aim).asks = w := by
      rcases haim with rfl | rfl <;> rfl
    rw [@finish_eq_record tx σ.desk.wakeHead w i b hb fun c hw => hc c (hasks.trans hw)]
    exact h.passed hp hfree hb Nat.zero_lt_one (by rintro _ ⟨⟩) (by rintro _ ⟨⟩)
  | regained => exact h.regained hp
  | @gaveUp r o ho =>
    refine h.aside rfl rfl (hhand₀ ?_) (by rintro _ ⟨⟩)
    cases o with
    | got i => exact absurd rfl (ho i)
    | failed | ranOut => rfl
  | yields => exact h.yields hp
  | @resumed w counts =>
    refine h.calm hp rfl rfl ?_ rfl rfl
    rw [PinPhase.plan?, Errand.wanted_regain, Errand.owed_regain]
    rfl
  | yielded hd =>
    refine h.gaveBack hd (fun _ => rfl) (hhand₀ rfl) ?_
    rintro _ ⟨⟩
    exact ⟨rfl, .inr ⟨rfl, _, hp, rfl⟩⟩
  | unpinned hd | released hd =>
    refine h.gaveBack hd (fun _ => rfl) (hhand₀ rfl) ?_
    rintro _ ⟨⟩
    exact ⟨rfl, .inl rfl⟩
  | paused hs =>
    refine h.emptied hs rfl rfl (hhand₀ rfl) ?_
    rintro _ ⟨⟩
    exact ⟨rfl, .inr ⟨_, hp, rfl⟩⟩
  | emptied hs =>
    refine h.emptied hs rfl rfl (hhand₀ rfl) ?_
    rintro _ ⟨⟩
    exact ⟨rfl, .inl rfl⟩
  | heard =>
    refine h.aside rfl rfl (hhand₀ rfl) ?_
    rintro _ ⟨⟩
    exact ⟨rfl, rfl⟩
  | alone | told => exact h.aside rfl rfl (hhand₀ rfl) (by rintro _ ⟨⟩)

theorem Ledger.onStore (h : σ.Ledger size) {s : Store}
    (heven : s.Even size fun i => σ.desk.holders i + σ.inHand i)
    (hblock : ∀ i, s.blockAt? i = σ.desk.store.blockAt? i) : (σ.atStore s).Ledger size where
  even := heven
  owns u b k hb := by
    obtain ⟨hk, hr⟩ := h.owns u b k hb
    exact ⟨(hblock k.frame).trans hk, hr⟩
  ready u q hq := (h.ready u q hq).same rfl rfl (.inr ⟨rfl, fun i _ _ => hblock i⟩)

theorem Ledger.moved (h : σ.Ledger size) (hin : σ.Inside) (hm : σ.Moved τ) : τ.Ledger size := by
  cases hm with
  | act ha => exact h.act hin rfl ha
  | beside hs =>
    cases hs with
    | wrote i offset v u lsn =>
      exact h.onStore (h.even.writeLogged i offset v u lsn)
        (Store.blockAt?_editFrame fun _ _ hg => (Frame.of_writeLogged hg).2.1)
    | flushed i => exact h.onStore (h.even.flushFrame i) (Store.blockAt?_flushFrame _ i)
    | turned hm => exact h.onStore (h.even.beside hm.blockSize) fun _ => rfl

theorem Ledger.giveBack_isSome (h : σ.Ledger size) {b : BlockId} {k : Hold}
    (hb : (σ.desk.pinsOf tx).holds.find? b = some k) : (σ.desk.giveBack tx b).isSome := by
  obtain ⟨hok, -⟩ := h.even.unpin (i := k.frame) (by
    rw [← h.even.pinned]
    exact h.pinned hb)
  cases hu : σ.desk.store.unpin k.frame with
  | mk q s =>
    rw [hu] at hok
    obtain rfl : q = .ok () := hok
    simp only [Desk.giveBack, hb, hu, Option.isSome_some]

theorem Moved.poolSize (hm : σ.Moved τ) : τ.desk.store.pool.size = σ.desk.store.pool.size := by
  cases hm with
  | @act tx p' d ha =>
    have hpin : ∀ {w q s}, σ.desk.store.pin w = (q, s) → s.pool.size = σ.desk.store.pool.size := by
      intro w q s hr
      have hsize := (σ.desk.store.refetched w).size
      rwa [hr] at hsize
    have hback : ∀ {b d}, σ.desk.giveBack tx b = some d →
        d.store.pool.size = σ.desk.store.pool.size := by
      intro b d hd
      obtain ⟨k, s, -, hu, rfl⟩ := Desk.of_giveBack hd
      have hsize := (σ.desk.store.related_unpin k.frame).size
      rwa [hu] at hsize
    rw [desk_put]
    generalize σ.phases.find? tx = p at ha
    cases ha with
    | found hr =>
      rw [Desk.store_finish]
      exact hpin hr
    | missed hr | erred hr | got hr | none hr | failed hr => exact hpin hr
    | unpinned hd | yielded hd | released hd => exact hback hd
    | finished ha => rw [Desk.store_finish]; rfl
    | counted | idled | began | releases | drew | joined | lengthened | ahead | behind | slept
    | ranOut | stirred | left | shortened | regained | gaveUp | yields | paused | resumed | emptied
    | heard | alone | told => rfl
  | beside hs =>
    cases hs with
    | wrote i offset v u lsn =>
      have hsame : σ.desk.store.pool.SamePins
          (σ.desk.store.editFrame i fun f => f.writeLogged offset v u lsn).2.pool :=
        Store.samePins_editFrame _ i fun _ _ hg => (Frame.of_writeLogged hg).2.2.1
      have hlen := congrArg List.length hsame.pins
      rwa [List.length_map, List.length_map] at hlen
    | flushed i => exact (Store.related_flushFrame _ i).size
    | turned hm => rfl

end Hall

end PagedStore
