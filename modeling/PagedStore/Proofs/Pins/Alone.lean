import PagedStore.Proofs.Pins.Queue
import PagedStore.Proofs.Pins.Shared
import PagedStore.Proofs.Pool.Chance

set_option autoImplicit false

/-!
A request for a frame with nobody else about, where requests do not wait. Main statement:
`Hall.pinAlone_ok_iff`. One that is refused may have given up all its transaction held and taken
everything back: each block is still in its frame, since no frame was given to another block in
between, and so the request ends where it began.
-/

namespace PagedStore

namespace Frame

theorem flush_disarm (f : Frame) (m : Media) :
    f.disarm.flush m = ((f.flush m).1.map disarm, (f.flush m).2) := by
  obtain ⟨id, data, block, pins, recent, dirty, fresh, tx, lsn⟩ := f
  dsimp only [flush, disarm]
  cases dirty || fresh with
  | false => rfl
  | true =>
    cases block with
    | none => rfl
    | some b =>
      dsimp only [if_true]
      cases m.force lsn with
      | mk q m' =>
        cases q with
        | error e => rfl
        | ok _ =>
          dsimp only
          cases m'.save id b data with
          | mk q m'' => cases q <;> rfl

theorem fill_disarm (f : Frame) (w : Wanted) (m : Media) :
    (f.disarm.fill w m).1 = (f.fill w m).1 := by
  cases w with
  | block b =>
    simp only [fill, disarm]
    cases m.read b f.data.length with
    | mk q m' => cases q <;> rfl
  | fresh file format =>
    simp only [fill]
    cases m.append file with
    | mk q m' => cases q <;> rfl

theorem rebind_disarm (f : Frame) (w : Wanted) (m : Media) :
    (f.disarm.rebind w m).1 = (f.rebind w m).1 := by
  unfold rebind
  rw [flush_disarm]
  cases f.flush m with
  | mk q m' =>
    cases q with
    | error e => rfl
    | ok g => exact fill_disarm { g with block := none } w m'

end Frame

namespace Store

variable {s : Store} {w : Wanted}

/-- Whichever frame is to be given to what is wanted, writing it back, loading and appending
succeed. -/
def Able (s : Store) (w : Wanted) : Prop := ∀ (i : Nat) f, s.pool.frames[i]? = some f →
  f.pins = 0 → ∃ b, (f.rebind w s.media).1 = .ok b

instance (s : Store) (w : Wanted) : Decidable (s.Able w) :=
  decidable_of_iff (∀ f ∈ s.pool.frames, f.pins = 0 → (f.rebind w s.media).1.isOk) <| by
    have hok : ∀ o : Outcome BlockId, o.isOk ↔ ∃ b, o = .ok b := by
      rintro (e | b)
      · exact iff_of_false nofun nofun
      · exact iff_of_true rfl ⟨b, rfl⟩
    constructor
    · exact fun h i f hf h₀ => (hok _).1 (h f (List.mem_of_getElem? hf) h₀)
    · intro h f hf h₀
      obtain ⟨i, hi⟩ := List.mem_iff_getElem?.1 hf
      exact (hok _).2 (h i f hi h₀)

theorem claim_of_able (h : s.Able w) (hfull : ¬ s.pool.Full) :
    ∃ i, (s.claim w).1 = .ok (some i) := by
  obtain ⟨i, hi⟩ := Option.ne_none_iff_exists'.1 (mt s.pool.secondChance_eq_none_iff.1 hfull)
  obtain ⟨f, hf, h₀⟩ := Pool.frame_of_spare (Pool.spare_of_secondChance hi)
  obtain ⟨b, hb⟩ := h i f hf h₀
  refine ⟨i, ?_⟩
  have hok : (s.disarmed.rebind i f.disarm w).1 = .ok () := by
    show (f.disarm.rebind w s.media).1.map (fun _ => ()) = .ok ()
    rw [Frame.rebind_disarm, hb]
    rfl
  rw [claim_of_secondChance w hi hf, ← Prod.eta (s.disarmed.rebind i f.disarm w), hok]

theorem pin_of_able (h : s.Able w) (ht : s.Truthful) (hr : ¬ s.Refuses w) :
    ∃ i, (s.pin w).1 = .ok (some i) := by
  cases w with
  | fresh file format => exact claim_of_able h fun hfull => hr ⟨hfull, nofun⟩
  | block b =>
    cases hb : s.pool.table.find? b with
    | none =>
      simp only [Store.pin, pinBlock, hb]
      refine claim_of_able h fun hfull => hr ⟨hfull, ?_⟩
      rintro c ⟨⟩
      exact hb
    | some i =>
      have hblock : (s.pool.frames[i]?.bind Frame.block) = some b := ht b i hb
      exact ⟨i, by simp only [Store.pin, pinBlock, hb, if_pos hblock]⟩

theorem refuses_iff_not : s.Refuses w ↔
    ¬ ((∃ b, w = .block b ∧ s.pool.contains b) ∨ ∃ f ∈ s.pool.frames, f.pins = 0) := by
  constructor
  · rintro h (⟨b, hw, hb⟩ | ⟨f, hf, h₀⟩)
    · rw [Pool.contains, Registry.contains, h.uncached b hw] at hb
      cases hb
    · exact h.full f hf h₀
  · intro h
    refine ⟨fun f hf h₀ => h (.inr ⟨f, hf, h₀⟩), fun b hw => ?_⟩
    exact Option.not_isSome_iff_eq_none.1 fun hb => h (.inl ⟨b, hw, hb⟩)

theorem samePins_of_pinsAt {s s' : Store} (hs : Still s s') (hc : s.pool.Counted)
    (hc' : s'.pool.Counted) (h : ∀ i, s'.pool.pinsAt i = s.pool.pinsAt i) :
    s.pool.SamePins s'.pool := by
  have hlen : s'.pool.frames.length = s.pool.frames.length := by
    have := congrArg List.length hs.frames
    rwa [List.length_map, List.length_map] at this
  have hpins : s'.pool.frames.map Frame.pins = s.pool.frames.map Frame.pins := by
    refine List.ext_getElem (by rw [List.length_map, List.length_map, hlen]) fun i hi hi' => ?_
    have hat := h i
    rwa [Pool.pinsAt, Pool.pinsAt, List.getElem?_eq_getElem hi, List.getElem?_eq_getElem hi'] at hat
  exact ⟨hpins, by rw [hc', hc, hpins]⟩

end Store

namespace Desk

variable {size : Nat} {d d₀ : Desk} {tx : TxId} {w : Wanted} {rest : List (BlockId × Nat)}

/-- A request with nobody else about: where it pauses, it goes on when the pause is over. -/
def pinAlone (d : Desk) (tx : TxId) (w : Wanted) : PinProgress × Desk :=
  match d.pin tx w with
  | (.waits u, d) => d.resume tx u true
  | r => r

def looked (d : Desk) (s : Store) : Desk :=
  { d with store := s, line := { nextTicket := d.line.nextTicket + 1 } }

theorem turn_join (hl : d.line.waiters = []) (w : Wanted) :
    d.join.2.turn d.join.1 w true = match d.store.pin w with
      | (.error (.error e), s) => (.failed (.error e), d.looked s)
      | (.error e, s) => (.failed e, { d.join.2 with store := s })
      | (.ok (some i), s) => (.got i, d.looked s)
      | (.ok none, s) => (.ranOut, d.looked s) := by
  have hhead : d.join.2.line.isHead d.join.1 = true := by
    simp [join, Line.join, Line.isHead, hl]
  have hleave : ∀ s, ({ d.join.2 with store := s } : Desk).leave d.join.1 = d.looked s := by
    simp [join, Line.join, leave, Line.leave, Line.wakeHead, looked, hl]
  unfold turn
  rw [if_pos hhead]
  show (match d.store.pin w with
    | (.error (.error e), s) => _ | (.error e, s) => _ | (.ok (some i), s) => _
    | (.ok none, s) => _) = _
  split
  · rw [hleave]
  · rfl
  · rw [hleave]
  · show (if true = true then _ else _) = _
    rw [if_pos rfl, hleave]

def framesOf (d : Desk) (tx : TxId) (blocks : List BlockId) : List Nat :=
  blocks.map fun b => (d.frameOf? tx b).getD 0

/-- A transaction is about to take `rest` back, which is what `d₀` had more, and has taken back the
other blocks that it held in `d₀`. -/
structure Regaining (size : Nat) (d₀ : Desk) (tx : TxId) (rest : List (BlockId × Nat)) (d : Desk) :
    Prop where
  empty : d.line.waiters = []
  noted : d.line.waiting = 0
  impatient : d.maxWait = 0
  still : Store.Still d₀.store d.store
  even : d.store.Even size d.store.pool.pinsAt
  pins : ∀ i, d.store.pool.pinsAt i + (d₀.framesOf tx (rest.map Prod.fst)).count i =
    d₀.store.pool.pinsAt i
  others : d.pins.erase tx = d₀.pins.erase tx
  holds : ∀ b, (d.pinsOf tx).holds.find? b =
    if b ∈ rest.map Prod.fst then none else (d₀.pinsOf tx).holds.find? b

/-- A block that was given up is found in its frame, and is held as before. -/
theorem Regaining.step {b : BlockId} {k : Hold}
    (h : Regaining size d₀ tx ((b, k.refs) :: rest) d)
    (hk : (d₀.pinsOf tx).holds.find? b = some k)
    (hb : d₀.store.blockAt? k.frame = some b) (hu : d₀.store.Unique)
    (hnot : b ∉ rest.map Prod.fst) : ∃ s, d.store.pin (.block b) = (.ok (some k.frame), s) ∧
      Regaining size d₀ tx rest ((d.looked s).record tx b k.frame k.refs) := by
  have ht : d.store.pool.table.find? b = some k.frame := by
    rw [h.still.table]
    exact hu.named k.frame b hb
  have hat : (d.store.pool.frames[k.frame]?.bind Frame.block) = some b :=
    (h.still.blockAt? k.frame).trans hb
  have hpin : d.store.pin (.block b) =
      (.ok (some k.frame), { d.store with pool := d.store.pool.take k.frame }) := by
    simp only [Store.pin, Store.pinBlock, ht, if_pos hat]
  have hgot : (d.store.pin (.block b)).1 = .ok (some k.frame) := by rw [hpin]
  have heven := h.even.got hgot
  have hpins := Store.pinsAt_pin hgot
  rw [hpin] at heven hpins
  have hrecord : ((d.looked { d.store with pool := d.store.pool.take k.frame }).record tx b k.frame
      k.refs).pinsOf tx =
        ⟨(d.pinsOf tx).holds.insert b k, (d.pinsOf tx).touched.insert k.frame⟩ :=
    Desk.pinsOf_setPins_self ..
  refine ⟨_, hpin, rfl, rfl, h.impatient, ?_, heven.congr hpins, fun i => ?_, ?_, fun c => ?_⟩
  · exact ⟨(Pool.map_core_take ..).trans h.still.frames,
      (Pool.table_take ..).trans h.still.table, h.still.media⟩
  · have hsum := h.pins i
    have hframe : d₀.frameOf? tx b = some k.frame := by rw [frameOf?, hk]; rfl
    rw [List.map_cons, framesOf, List.map_cons, ← framesOf, hframe, List.count_cons] at hsum
    rw [← hsum]
    show Pool.pinsAt (d.store.pool.take k.frame) i + _ = _
    rw [hpins]
    simp only [beq_iff_eq, Option.getD_some]
    omega
  · exact (Registry.erase_insert ..).trans h.others
  · rw [hrecord, Registry.find?_insert]
    split
    · rename_i hc
      rw [hc, if_neg hnot, hk]
    · rename_i hc
      rw [h.holds]
      simp only [List.map_cons, List.mem_cons, hc, false_or]

theorem Regaining.samePins (h : Regaining size d₀ tx [] d) (hc : d₀.store.pool.Counted) :
    d₀.store.pool.SamePins d.store.pool :=
  Store.samePins_of_pinsAt h.still hc h.even.counted fun i => (Nat.add_zero _).symm.trans (h.pins i)

theorem Regaining.refused (h : Regaining size d₀ tx rest d)
    (howns : (d₀.pinsOf tx).Owns d₀.store) (hu : d₀.store.Unique) (hc : d₀.store.pool.Counted)
    (hr : d₀.store.Refuses w)
    (hheld : ∀ e ∈ rest, ∃ k, (d₀.pinsOf tx).holds.find? e.1 = some k ∧ k.refs = e.2)
    (hdistinct : (rest.map Prod.fst).Nodup) :
    ∃ d', regain tx w rest d = (exhausted tx w.text, d') ∧ Regaining size d₀ tx [] d' := by
  induction rest generalizing d with
  | nil =>
    have hpin := (hr.same (h.samePins hc) h.still.table).pin_eq
    have hturn := turn_join h.empty w
    rw [hpin] at hturn
    have himp : d.join.2.impatient = true := decide_eq_true h.impatient
    refine ⟨d.looked d.store, ?_, rfl, rfl, h.impatient, h.still, h.even, h.pins, h.others,
      h.holds⟩
    unfold regain
    dsimp only
    rw [himp, hturn]
  | cons e rest ih =>
    obtain ⟨b, refs⟩ := e
    obtain ⟨k, hk, rfl⟩ := hheld (b, refs) List.mem_cons_self
    obtain ⟨hnot, hrest⟩ := List.nodup_cons.1 hdistinct
    obtain ⟨s, hpin, hnext⟩ := h.step hk (howns b k hk).1 hu hnot
    obtain ⟨d', hd', hdone⟩ := ih hnext (fun e he => hheld e (List.mem_cons_of_mem _ he)) hrest
    have hturn := turn_join h.empty (.block b)
    rw [hpin] at hturn
    have himp : d.join.2.impatient = true := decide_eq_true h.impatient
    refine ⟨d', ?_, hdone⟩
    unfold regain
    dsimp only
    rw [himp, hturn]
    exact hd'

theorem count_framesOf (d : Desk) (tx : TxId) (i : Nat) :
    (d.framesOf tx ((d.pinsOf tx).counts.map Prod.fst)).count i = (d.pinsOf tx).inFrame i := by
  have hframes : d.framesOf tx (d.pinsOf tx).holds.keys =
      (d.pinsOf tx).holds.entries.map fun e => e.2.frame := by
    rw [framesOf, Registry.keys, List.map_map]
    refine List.map_congr_left fun e he => ?_
    rw [Function.comp_apply, frameOf?, Registry.find?_eq_some_iff.2 he]
    rfl
  rw [Pins.keys_counts, Pins.inFrame_eq_count, ← hframes]
  exact ((d.pinsOf tx).perm_held.map _).count_eq i

/-- The desk after a transaction has given up all it holds, and `s` is what is left of the store. -/
def yielded (d : Desk) (tx : TxId) (s : Store) : Desk :=
  ((d.setStore s).setPins tx { d.pinsOf tx with holds := .empty }).wakeHead

theorem regaining_giveUp {d d₀ : Desk} (hl : d.line.waiters = []) (hn : d.line.waiting = 0)
    (hi : d.maxWait = 0) (hs : d.store = d₀.store) (hp : d.pins = d₀.pins)
    (heven : d₀.store.Even size d₀.store.pool.pinsAt)
    (hle : ∀ i, (d₀.pinsOf tx).inFrame i ≤ d₀.store.pool.pinsAt i) :
    ∃ d', d.giveUp tx w = (.waits ⟨w, .pausing (d₀.pinsOf tx).counts⟩, d') ∧
      Regaining size d₀ tx (d₀.pinsOf tx).counts d' := by
  have hsame : d.pinsOf tx = d₀.pinsOf tx := pinsOf_congr hp tx
  have hcount : ∀ i, (d.heldFrames tx).count i = (d₀.pinsOf tx).inFrame i := fun i => by
    rw [heldFrames, hsame, ← Pins.inFrame_eq_count]
  have hstill := Store.still_unpinFrames (d.heldFrames tx) d₀.store
  have hfits : ∀ i, (d.heldFrames tx).count i ≤ d₀.store.pool.pinsAt i := fun i =>
    hcount i ▸ hle i
  obtain ⟨hok, hfree⟩ := heven.unpinFrames hfits
  have hline : d.line.wakeHead = d.line := by rw [Line.wakeHead, hl]
  have hpins : (d.yielded tx (unpinFrames (d.heldFrames tx) d₀.store).2).pinsOf tx =
      { d.pinsOf tx with holds := .empty } := pinsOf_setPins_self ..
  refine ⟨d.yielded tx (unpinFrames (d.heldFrames tx) d₀.store).2, ?_, ?_, ?_, hi, hstill,
    hfree.congr hfree.pinned, fun i => ?_, ?_, fun b => ?_⟩
  · unfold giveUp
    dsimp only
    rw [← hsame, hs]
    unfold heldFrames at hok
    rw [hok]
    rfl
  · exact (congrArg Line.waiters hline).trans hl
  · exact (congrArg Line.waiting hline).trans hn
  · rw [count_framesOf]
    refine (congrArg (· + _) (hfree.pinned i)).trans ?_
    rw [hcount]
    exact Nat.sub_add_cancel (hle i)
  · rw [← hp]
    exact Registry.erase_insert ..
  · refine (congrArg (fun p => p.holds.find? b) hpins).trans ?_
    split
    · rfl
    · rename_i hb
      rw [Pins.keys_counts] at hb
      exact (Option.not_isSome_iff_eq_none.1 fun hk =>
        hb (Pins.mem_held.2 (Option.isSome_iff_exists.1 hk))).symm

/-- What is held, the frames, their pins, the table, the files and the line are as they were; at
most second chances and the next ticket are not. -/
structure Unmoved (d d' : Desk) : Prop where
  still : Store.Still d.store d'.store
  pins : d.store.pool.SamePins d'.store.pool
  holds : ∀ u b, (d'.pinsOf u).holds.find? b = (d.pinsOf u).holds.find? b
  waiters : d'.line.waiters = d.line.waiters
  waiting : d'.line.waiting = d.line.waiting

theorem Unmoved.refl (d : Desk) : Unmoved d d :=
  ⟨⟨rfl, rfl, rfl⟩, .refl _, fun _ _ => rfl, rfl, rfl⟩

theorem Regaining.unmoved (h : Regaining size d₀ tx [] d) (hc : d₀.store.pool.Counted)
    (hl : d₀.line.waiters = []) (hn : d₀.line.waiting = 0) : Unmoved d₀ d := by
  refine ⟨h.still, h.samePins hc, fun u b => ?_, h.empty.trans hl.symm, h.noted.trans hn.symm⟩
  by_cases hu : u = tx
  · rw [hu, h.holds, List.map_nil, if_neg List.not_mem_nil]
  · rw [pinsOf, Registry.find?_congr h.others hu, ← pinsOf]

/-- Nobody is in line, requests do not wait, and what is held is as the frames and the table say. -/
structure Lone (size : Nat) (d : Desk) (tx : TxId) : Prop where
  empty : d.line.waiters = []
  noted : d.line.waiting = 0
  impatient : d.maxWait = 0
  even : d.store.Even size d.store.pool.pinsAt
  held : ∀ i, (d.pinsOf tx).inFrame i ≤ d.store.pool.pinsAt i
  owns : (d.pinsOf tx).Owns d.store
  unique : d.store.Unique

theorem pinAlone_of_hold {b : BlockId} {k : Hold}
    (h : (d.pinsOf tx).holds.find? b = some k) :
    (d.pinAlone tx (.block b)).1 = .done (.ok k.frame) := by
  simp only [pinAlone, pin, h]

theorem pin_eq_ask (h : (d.pinsOf tx).hold? w = none) : d.pin tx w = d.ask tx w := by
  cases w with
  | fresh file format => rfl
  | block b =>
    rw [Pins.hold?, Option.map_eq_none_iff] at h
    simp only [pin, h]

theorem pinAlone_of_full (h : (d.pinsOf tx).hold? w = none)
    (hfull : d.store.pool.size ≤ (d.pinsOf tx).holds.size) :
    d.pinAlone tx w = (exhausted tx w.text, d) := by
  rw [pinAlone, pin_eq_ask h, ask, if_pos hfull]
  rfl

theorem pinAlone_of_found (h : (d.pinsOf tx).hold? w = none)
    (hroom : ¬ d.store.pool.size ≤ (d.pinsOf tx).holds.size) {i : Nat}
    (hi : (d.store.pin w).1 = .ok (some i)) : (d.pinAlone tx w).1 = .done (.ok i) := by
  have hfinish : ∀ d : Desk, (d.finish tx w i).1 = .done (.ok i) := fun d => by
    unfold finish
    split
    · rfl
    · split <;> rfl
  rw [pinAlone, pin_eq_ask h, ask, if_neg hroom, ← Prod.eta (d.store.pin w), hi]
  dsimp only
  generalize hr : Desk.finish _ tx w i = r
  have hone := hfinish { d with store := (d.store.pin w).2 }
  rw [hr] at hone
  obtain ⟨q, d'⟩ := r
  obtain rfl : q = .done (.ok i) := hone
  rfl

theorem Lone.refused (h : Lone size d tx) (hhold : (d.pinsOf tx).hold? w = none)
    (hroom : ¬ d.store.pool.size ≤ (d.pinsOf tx).holds.size) (hr : d.store.Refuses w) :
    ∃ d', d.pinAlone tx w = (exhausted tx w.text, d') ∧ Unmoved d d' := by
  have himp : d.join.2.impatient = true := decide_eq_true h.impatient
  have hturn := turn_join h.empty w
  rw [hr.pin_eq] at hturn
  obtain ⟨d₁, hgive, hregaining⟩ :=
    @regaining_giveUp size tx w (d.looked d.store) d rfl rfl h.impatient rfl rfl h.even h.held
  have hask : d.pin tx w = (.waits ⟨w, .pausing (d.pinsOf tx).counts⟩, d₁) := by
    rw [pin_eq_ask hhold, ask, if_neg hroom, hr.pin_eq]
    dsimp only
    change d.join.2.impatient = true at himp
    rw [himp, hturn]
    exact hgive
  obtain ⟨d', hregain, hdone⟩ := hregaining.refused h.owns h.unique h.even.counted hr
    (fun e he => by
      obtain ⟨b, hb, rfl⟩ := List.mem_map.1 he
      obtain ⟨k, hk⟩ := Pins.mem_held.1 hb
      exact ⟨k, hk, by rw [Pins.refs, hk]; rfl⟩)
    (Pins.keys_counts _ ▸ Pins.nodup_held _)
  refine ⟨d', ?_, hdone.unmoved h.even.counted h.empty h.noted⟩
  rw [pinAlone, hask]
  exact hregain

end Desk

namespace Hall

variable {size : Nat} {σ τ : Hall} {tx : TxId}

/-- No block gets into a second frame, whatever happens. -/
theorem Ledger.unique_moved (h : σ.Ledger size) (hin : σ.Inside) (hu : σ.desk.store.Unique)
    (hm : σ.Moved τ) : τ.desk.store.Unique := by
  have hpin : ∀ {w q s}, σ.desk.store.pin w = (q, s) → s.Unique := by
    intro w q s hr
    have hstep := (hu.step_iff (.pin w)).2 fun hd => by
      cases w with
      | block b => exact hd
      | fresh file format =>
        -- a new block lies behind those of its file, and whatever is loaded lies inside
        obtain ⟨i, j, b, hok, hb, -, hj⟩ := hd
        obtain ⟨n, hn, hle, -⟩ := Store.blockAt?_claim_fresh h.even.pos hok
        rw [show (σ.desk.store.pin (.fresh file format)).2.blockAt? i = _ from hn] at hb
        cases hb
        exact absurd (hin j _ hj) (Nat.not_lt.2 hle)
    have hs : σ.desk.store.step (.pin w) = s := congrArg Prod.snd hr
    rwa [hs] at hstep
  have hback : ∀ {tx b d}, σ.desk.giveBack tx b = some d → d.store.Unique := by
    intro tx b d hd
    obtain ⟨k, s, -, hs, rfl⟩ := Desk.of_giveBack hd
    have hstill := Store.still_unpin σ.desk.store k.frame
    rw [hs] at hstill
    exact hu.still hstill
  cases hm with
  | act ha =>
    rw [desk_put]
    generalize σ.phases.find? _ = p at ha
    cases ha with
    | found hr =>
      rw [Desk.store_finish]
      exact hpin hr
    | missed hr | erred hr | got hr | none hr | failed hr => exact hpin hr
    | unpinned hd | yielded hd | released hd => exact hback hd
    | finished ha =>
      rw [Desk.store_finish]
      exact hu
    | counted | idled | began | releases | drew | joined | lengthened | ahead | behind | slept
    | ranOut | stirred | left | shortened | regained | gaveUp | yields | paused | resumed | emptied
    | heard | alone | told => exact hu
  | beside hs =>
    cases hs with
    | wrote i offset v u lsn =>
      exact hu.congr (Store.blockAt?_editFrame fun _ _ hg => (Frame.of_writeLogged hg).2.1)
        (Store.table_editFrame ..)
    | flushed i => exact hu.flushFrame i
    | turned hm => exact hu.congr (fun _ => rfl) rfl

theorem Moved.maxWait (hm : σ.Moved τ) : τ.desk.maxWait = σ.desk.maxWait := by
  have hfinish : ∀ (d : Desk) tx w i, (d.finish tx w i).2.maxWait = d.maxWait := by
    intro d tx w i
    unfold Desk.finish
    split
    · rfl
    · split <;> rfl
  have hback : ∀ {tx b d}, σ.desk.giveBack tx b = some d → d.maxWait = σ.desk.maxWait := by
    intro tx b d hd
    obtain ⟨k, s, -, -, rfl⟩ := Desk.of_giveBack hd
    rfl
  cases hm with
  | act ha =>
    rw [desk_put]
    generalize σ.phases.find? _ = p at ha
    cases ha with
    | found | finished => exact hfinish ..
    | unpinned hd | yielded hd | released hd => exact hback hd
    | counted | idled | began | releases | missed | erred | got | none | failed | drew | joined
    | lengthened | ahead | behind | slept | ranOut | stirred | left | shortened | regained | gaveUp
    | yields | paused | resumed | emptied | heard | alone | told => rfl
  | beside hs => rfl

theorem Ledger.unique_run (h : σ.Ledger size) (hin : σ.Inside) (hu : σ.desk.store.Unique)
    {moves : List PinMove} (hr : σ.run moves = some τ) (ho : σ.Orderly moves) :
    τ.desk.store.Unique ∧ τ.desk.maxWait = σ.desk.maxWait := by
  induction moves generalizing σ with
  | nil =>
    cases hr
    exact ⟨hu, rfl⟩
  | cons m ms ih =>
    obtain ⟨υ, hm, hr⟩ := Option.bind_eq_some_iff.1 hr
    obtain ⟨hinside, horderly⟩ := ho υ hm
    have hmoved := moved_of_move hm
    obtain ⟨hunique, hwait⟩ :=
      ih (h.moved hin hmoved) hinside (h.unique_moved hin hu hmoved) hr horderly
    exact ⟨hunique, hwait.trans hmoved.maxWait⟩

theorem runs_pinAlone (ho : σ.isOpen) (hidle : σ.phases.find? tx = none) {w : Wanted}
    (hw : Whole (σ.desk.pinAlone tx w).1) : Runs σ (σ.settle tx (σ.desk.pinAlone tx w)) := by
  have hopen : σ.OpenTo tx := fun u p hp _ => isOpen_iff.1 ho u p hp
  unfold Desk.pinAlone at hw ⊢
  generalize hr : σ.desk.pin tx w = r at hw
  obtain ⟨q, d⟩ := r
  cases q with
  | done o =>
    have hrun := runs_pin hopen hidle w (by rwa [hr])
    rwa [hr] at hrun
  | sleepsOn u =>
    have hrun := runs_pin hopen hidle w (by rw [hr]; nofun)
    rwa [hr] at hrun
  | waits u =>
    have hrun := runs_pin hopen hidle w (by rw [hr]; nofun)
    rw [hr] at hrun
    refine hrun.trans ?_
    have hopen' : (σ.goOn tx u.phase d).OpenTo tx := fun v p hp hv => by
      rw [goOn, Registry.find?_insert_of_ne _ _ hv] at hp
      exact hopen v p hp hv
    have hrest := runs_resume hopen' u (by rw [goOn, Registry.find?_insert_self]) true hw
    have hsettle : ∀ r, (σ.goOn tx u.phase d).settle tx r = σ.settle tx r := by
      rintro ⟨o | v | v, d'⟩
      · exact rest_goOn ..
      · exact goOn_goOn ..
      · exact goOn_goOn ..
    rw [hsettle] at hrest
    exact hrest

theorem lone_of_run {disk : Disk} {log : Log} {size stripes window : Nat} {pool : Pool}
    (hc : Pool.create size stripes disk.blockSize = .ok pool) {moves : List PinMove}
    (hr : (opened disk log pool 0 window).run moves = some τ)
    (hord : (opened disk log pool 0 window).Orderly moves) (ho : τ.isOpen)
    (hl : τ.desk.line.waiters = []) (tx : TxId) : τ.desk.Lone disk.blockSize tx := by
  obtain ⟨hopened, hinside⟩ := @ledger_opened disk log size stripes 0 window pool hc
  obtain ⟨hτ, -⟩ := hopened.run hinside hr hord
  obtain ⟨hunique, hwait⟩ := hopened.unique_run hinside (Store.unique_over hc) hr hord
  have hvacant : (opened disk log pool 0 window).Vacant := ⟨fun _ => rfl, rfl, rfl⟩
  have hsound := Runs.sound ⟨moves, hr⟩ hvacant.sound
  refine ⟨hl, ?_, hwait, hτ.even.congr hτ.even.pinned, fun i => ?_, hτ.owns tx, hunique⟩
  · rw [hsound.noted.same ho, Line.length_tickets, hl]
    rfl
  · rw [hτ.even.pinned, τ.desk.holders_eq tx]
    omega

/-- Two transactions hold a block each, and there are two frames. -/
def crowded : List PinMove :=
  [.ask ⟨1⟩ (.fresh "a" .zero), .advance ⟨1⟩, .ask ⟨2⟩ (.fresh "a" .zero), .advance ⟨2⟩]

end Hall

end PagedStore
