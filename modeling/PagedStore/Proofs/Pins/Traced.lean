import PagedStore.Proofs.Pins.Held
import PagedStore.Proofs.Pins.Moves
import PagedStore.Proofs.Pool.Even
import PagedStore.Proofs.Pool.Written

set_option autoImplicit false

/-!
A transaction knows the frames that it was the last to change, through every loss of a frame and
every loss of patience, and whatever names the files go by. Main statement: `Desk.Traced.move`.
-/

namespace PagedStore

/-- What is the same of the pool for whoever holds something, and what a transaction knows of the
frames it had. -/
structure Desk.Traced (finished : TxId → Prop) (d : Desk) : Prop where
  placed : ∀ tx b h, (d.pinsOf tx).holds.find? b = some h → d.store.blockAt? h.frame = some b
  touched : ∀ tx b h, (d.pinsOf tx).holds.find? b = some h → h.frame ∈ (d.pinsOf tx).touched
  pinned : ∀ (i : Nat) f, d.store.pool.frames[i]? = some f → d.holders i ≤ f.pins
  traced : ∀ (i : Nat) f tx, d.store.pool.frames[i]? = some f → f.modifiedBy = some tx →
    finished tx ∨ i ∈ (d.pinsOf tx).touched

namespace Desk.Traced

variable {finished finished' : TxId → Prop} {d d' : Desk} {tx : TxId}

theorem mono (h : d.Traced finished) (hf : ∀ u, finished u → finished' u) : d.Traced finished' :=
  ⟨h.placed, h.touched, h.pinned, fun i f u hi hm => (h.traced i f u hi hm).imp_left (hf u)⟩

theorem congr (h : d.Traced finished) (hpool : d'.store.pool = d.store.pool)
    (hpins : d'.pins = d.pins) : d'.Traced finished := by
  obtain ⟨s, l, p, w, v⟩ := d
  obtain ⟨s', l', p', w', v'⟩ := d'
  obtain rfl : p' = p := hpins
  obtain ⟨m, q⟩ := s
  obtain ⟨m', q'⟩ := s'
  obtain rfl : q' = q := hpool
  exact ⟨h.placed, h.touched, h.pinned, h.traced⟩

theorem pins_pos (h : d.Traced finished) {i : Nat} {f : Frame}
    (hf : d.store.pool.frames[i]? = some f) (hi : 0 < d.holders i) : 0 < f.pins :=
  Nat.lt_of_lt_of_le hi (h.pinned i f hf)

theorem blockAt?_pin (h : d.Traced finished) (w : Wanted) {i : Nat} (hi : 0 < d.holders i) :
    (d.store.pin w).2.blockAt? i = d.store.blockAt? i := by
  unfold Store.blockAt?
  rcases d.store.refetched w i with ⟨hn, hn'⟩ | ⟨f, g, hf, hg, hfg⟩
  · rw [hn, hn']
  · rw [hf, hg, Option.bind_some, Option.bind_some]
    exact hfg.block (h.pins_pos hf hi)

/-- The frames may change, and what `tx` holds with them: they keep a pin for every hold, and
whoever is the last to change one has it among those it touched. -/
theorem next (h : d.Traced finished) (tx : TxId)
    (hpins : ∀ u, u ≠ tx → d'.pinsOf u = d.pinsOf u)
    (hrel : d.store.pool.Related d'.store.pool fun j f g => d'.holders j ≤ g.pins ∧
      ∀ u, g.modifiedBy = some u →
        f.modifiedBy = some u ∨ (u = tx ∧ j ∈ (d'.pinsOf tx).touched))
    (hblock : ∀ i, 0 < d.holders i → d'.store.blockAt? i = d.store.blockAt? i)
    (hholds : ∀ b k, (d'.pinsOf tx).holds.find? b = some k →
      d'.store.blockAt? k.frame = some b ∧ k.frame ∈ (d'.pinsOf tx).touched)
    (hsub : finished tx ∨ ∀ i ∈ (d.pinsOf tx).touched, i ∈ (d'.pinsOf tx).touched) :
    d'.Traced finished := by
  refine ⟨fun u b k hk => ?_, fun u b k hk => ?_, fun i g hg => ?_, fun i g u hg hu => ?_⟩
  · by_cases hu : u = tx
    · subst hu
      exact (hholds b k hk).1
    · rw [hpins u hu] at hk
      rw [hblock _ (Desk.holders_pos hk)]
      exact h.placed u b k hk
  · by_cases hu : u = tx
    · subst hu
      exact (hholds b k hk).2
    · rw [hpins u hu] at hk ⊢
      exact h.touched u b k hk
  · obtain ⟨f, -, hp, -⟩ := hrel.before hg
    exact hp
  · obtain ⟨f, hf, -, hm⟩ := hrel.before hg
    rcases hm u hu with hfu | ⟨rfl, hi⟩
    · rcases h.traced i f u hf hfu with hfin | hi
      · exact .inl hfin
      · by_cases hut : u = tx
        · subst hut
          exact hsub.imp_right fun hs => hs i hi
        · rw [hpins u hut]
          exact .inr hi
    · exact .inr hi

theorem onStore (h : d.Traced finished) {s : Store}
    (hrel : d.store.pool.Related s.pool fun j f g => d.holders j ≤ g.pins ∧
      ∀ u, g.modifiedBy = some u → f.modifiedBy = some u)
    (hblock : ∀ i, 0 < d.holders i → s.blockAt? i = d.store.blockAt? i) :
    (d.setStore s).Traced finished :=
  h.next ⟨0⟩ (fun _ _ => rfl) (hrel.mono fun _ _ _ _ _ h => ⟨h.1, fun u hu => .inl (h.2 u hu)⟩)
    hblock (fun b k hk => ⟨(hblock _ (Desk.holders_pos hk)).trans (h.placed ⟨0⟩ b k hk),
      h.touched ⟨0⟩ b k hk⟩) (.inr fun _ hi => hi)

theorem missed (h : d.Traced finished) (w : Wanted) :
    (d.setStore (d.store.pin w).2).Traced finished :=
  h.onStore ((d.store.refetched w).mono fun j f _ hf _ hfg =>
      ⟨Nat.le_trans (h.pinned j f hf) hfg.pins_le.1, fun _ => hfg.modifiedBy⟩)
    fun _ hi => h.blockAt?_pin w hi

theorem got (h : d.Traced finished) {w : Wanted} {i : Nat} {b : BlockId} (refs : Nat)
    (hr : (d.store.pin w).1 = .ok (some i)) (hb : (d.store.pin w).2.blockAt? i = some b) :
    ((d.setStore (d.store.pin w).2).record tx b i refs).Traced finished := by
  refine h.next tx (fun u hu => Desk.pinsOf_setPins_of_ne _ _ hu)
    ((d.store.refetched w).mono fun j f g hf _ hfg => ⟨?_, fun _ hu => .inl (hfg.modifiedBy hu)⟩)
    (fun _ hj => h.blockAt?_pin w hj) (fun x k hk => ?_) (.inr fun j hj => ?_)
  · have hle := (d.pinsOf tx).inFrame_insert_le b ⟨i, refs⟩ ((d.pinsOf tx).touched.insert i) j
    have heq := d.holders_eq tx j
    have heq' : ((d.setStore (d.store.pin w).2).record tx b i refs).holders j =
      Pins.inFrame ⟨(d.pinsOf tx).holds.insert b ⟨i, refs⟩, (d.pinsOf tx).touched.insert i⟩ j +
        d.others tx j := rfl
    have hp := h.pinned j f hf
    by_cases hij : i = j
    · rw [if_pos hij] at hle
      have := hfg.pins_le.2 (hij ▸ hr)
      omega
    · rw [if_neg hij] at hle
      have := hfg.pins_le.1
      omega
  · rw [Desk.record, Desk.pinsOf_setPins_self] at hk ⊢
    rw [Registry.find?_insert] at hk
    split at hk
    · rename_i he
      obtain rfl := Option.some.inj hk
      exact ⟨he ▸ hb, List.mem_insert_self⟩
    · refine ⟨?_, List.mem_insert_of_mem (h.touched tx x k hk)⟩
      exact (h.blockAt?_pin w (Desk.holders_pos hk)).trans (h.placed tx x k hk)
  · rw [Desk.record, Desk.pinsOf_setPins_self]
    exact List.mem_insert_of_mem hj

theorem repin (h : d.Traced finished) {s : Store} {p : Pins} (lost : Nat → Nat)
    (hs : Store.Still d.store s)
    (hrel : d.store.pool.Related s.pool fun j f g => g.core = f.core ∧ f.pins ≤ g.pins + lost j)
    (hlost : ∀ j, p.inFrame j + lost j ≤ (d.pinsOf tx).inFrame j)
    (hkeep : ∀ b k, p.holds.find? b = some k →
      ∃ k', (d.pinsOf tx).holds.find? b = some k' ∧ k.frame = k'.frame)
    (hsub : (p.holds = .empty ∧ finished tx) ∨ p.touched = (d.pinsOf tx).touched) :
    ((d.setStore s).setPins tx p).Traced finished := by
  have hself := (d.setStore s).pinsOf_setPins_self tx p
  refine h.next tx (fun u hu => Desk.pinsOf_setPins_of_ne _ _ hu)
    (hrel.mono fun j f g hf _ hfg => ⟨?_, fun u hu => .inl ?_⟩) (fun i _ => hs.blockAt? i)
    (fun b k hk => ?_) ?_
  · have hp := h.pinned j f hf
    have hl := hlost j
    have heq := d.holders_eq tx j
    have heq' : ((d.setStore s).setPins tx p).holders j = p.inFrame j + d.others tx j := rfl
    have := hfg.2
    omega
  · exact (Frame.core_eq_iff.1 hfg.1).2.2.2.2.2.1 ▸ hu
  · rw [hself] at hk ⊢
    obtain ⟨k', hk', he⟩ := hkeep b k hk
    rw [he]
    refine ⟨(hs.blockAt? _).trans (h.placed tx b k' hk'), ?_⟩
    rcases hsub with ⟨hnone, -⟩ | ht
    · rw [hnone] at hk
      cases hk
    · rw [ht]
      exact h.touched tx b k' hk'
  · rw [hself]
    refine hsub.imp And.right fun ht i hi => ?_
    rwa [ht]

theorem recounted (h : d.Traced finished) {b : BlockId} {k : Hold} (refs : Nat)
    (hb : (d.pinsOf tx).holds.find? b = some k) :
    (d.setPins tx { d.pinsOf tx with
      holds := (d.pinsOf tx).holds.insert b { k with refs } }).Traced finished := by
  refine h.repin (fun _ => 0) (s := d.store) ⟨rfl, rfl, rfl⟩
    (Pool.related_refl fun _ _ => ⟨rfl, Nat.le_refl _⟩) ?_ ?_ (.inr rfl)
  · exact fun j => Nat.le_of_eq (Pins.inFrame_recount hb refs j)
  · intro x k' hk
    rw [Registry.find?_insert] at hk
    split at hk
    · rename_i he
      obtain rfl := Option.some.inj hk
      exact ⟨k, he ▸ hb, rfl⟩
    · exact ⟨k', hk, rfl⟩

theorem unpinned (h : d.Traced finished) {b : BlockId} {k : Hold}
    (hb : (d.pinsOf tx).holds.find? b = some k) :
    ((d.setStore (d.store.unpin k.frame).2).setPins tx { d.pinsOf tx with
      holds := (d.pinsOf tx).holds.erase b }).Traced finished := by
  refine h.repin (fun j => if k.frame = j then 1 else 0) (Store.still_unpin ..)
    (d.store.related_unpin k.frame) ?_ ?_ (.inr rfl)
  · intro j
    have herase := Pins.inFrame_erase hb (d.pinsOf tx).touched j
    exact Nat.le_of_eq ((Nat.add_comm _ _).trans herase.symm)
  · exact fun x k' hk => ⟨k', (Registry.find?_of_erase hk).2, rfl⟩

/-- A transaction gives up all that it holds. Only where it ends are the frames it touched
forgotten, too. -/
theorem emptied (h : d.Traced finished) {touched : List Nat}
    (ht : finished tx ∨ touched = (d.pinsOf tx).touched) :
    ((d.setStore (Desk.unpinFrames (d.heldFrames tx) d.store).2).setPins tx
      { holds := .empty, touched }).Traced finished := by
  refine h.repin (fun j => (d.heldFrames tx).count j) (Store.still_unpinFrames ..)
    (Store.related_unpinFrames _ _) ?_ nofun (ht.imp_left fun hf => ⟨rfl, hf⟩)
  intro j
  rw [(d.pinsOf tx).inFrame_eq_count]
  exact Nat.le_of_eq (Nat.zero_add _)

theorem flushed (h : d.Traced finished) (i : Nat) :
    (d.setStore (d.store.flushFrame i).2).Traced finished :=
  h.onStore ((d.store.related_flushFrame i).mono fun j f _ hf _ hfg =>
      ⟨hfg.2.1 ▸ h.pinned j f hf, fun _ hu => hfg.2.2.1 ▸ hu⟩)
    fun j _ => d.store.blockAt?_flushFrame i j

theorem wroteBack (h : d.Traced finished) {done tried : List Nat} {s : Store}
    (hw : Store.Wrote done tried d.store s) : (d.setStore s).Traced finished := by
  refine h.onStore (fun j => ?_) fun j _ => hw.blockAt? j
  rw [hw.frames]
  cases hf : d.store.pool.frames[j]? with
  | none => exact .inl ⟨rfl, rfl⟩
  | some f =>
    refine .inr ⟨f, _, rfl, rfl, ?_⟩
    split
    · exact ⟨f.pins_rest.symm ▸ h.pinned j f hf, fun u hu => f.modifiedBy_rest ▸ hu⟩
    · exact ⟨h.pinned j f hf, fun _ hu => hu⟩

theorem releaseAll_ok (h : d.Traced finished) (tx : TxId) : (d.releaseAll tx).1 = .ok () := by
  have henough : ∀ j, (d.heldFrames tx).count j ≤ d.store.pool.pinsAt j := by
    intro j
    rcases Nat.eq_zero_or_pos ((d.heldFrames tx).count j) with h₀ | hpos
    · rw [h₀]
      exact Nat.zero_le _
    · obtain ⟨⟨b, k⟩, hmem, hk⟩ := List.mem_map.1 (List.count_pos_iff.1 hpos)
      have hb := h.placed tx b k (Registry.find?_eq_some_iff.2 hmem)
      obtain ⟨f, hf, -⟩ := Option.bind_eq_some_iff.1 hb
      have hj : k.frame = j := hk
      rw [hj] at hf
      rw [Pool.pinsAt_of_frame hf]
      refine Nat.le_trans ?_ (h.pinned j f hf)
      rw [d.holders_eq tx, Pins.inFrame_eq_count]
      exact Nat.le_add_right ..
  have hok := (Store.unpinFrames_ok henough).1
  unfold Desk.releaseAll
  dsimp only
  split
  · rfl
  · rw [Desk.heldFrames] at hok
    rw [hok]

theorem wrote (h : d.Traced finished) {b : BlockId} {k : Hold} {offset : Nat} {v : Value}
    {lsn : Lsn} {s : Store} (ht : tx.num ≠ 0) (hb : (d.pinsOf tx).holds.find? b = some k)
    (hw : d.store.editFrame k.frame (fun f => f.writeLogged offset v tx lsn) = (.ok (), s)) :
    (d.setStore s).Traced finished := by
  have hblock : ∀ j,
      (d.store.editFrame k.frame fun f => f.writeLogged offset v tx lsn).2.blockAt? j =
        d.store.blockAt? j := Store.blockAt?_editFrame fun _ _ hg => (Frame.of_writeLogged hg).2.1
  rw [hw] at hblock
  refine h.next tx (fun _ _ => rfl) ((Store.related_editFrame hw).mono fun j f g hf _ hfg => ?_)
    (fun i _ => hblock i) (fun x k' hk => ?_) (.inr fun _ hi => hi)
  · by_cases hj : j = k.frame
    · obtain ⟨-, -, hgp, hgm⟩ := Frame.of_writeLogged (hfg.2 hj)
      rw [if_neg ht] at hgm
      refine ⟨hgp ▸ h.pinned j f hf, fun u hu => .inr ⟨?_, ?_⟩⟩
      · exact (Option.some.inj (hgm.symm.trans hu)).symm
      · exact hj ▸ h.touched tx b k hb
    · obtain rfl := hfg.1 hj
      exact ⟨h.pinned j g hf, fun u hu => .inl hu⟩
  · exact ⟨(hblock _).trans (h.placed tx x k' hk), h.touched tx x k' hk⟩

variable {c : Terms} {cs : List Change}

theorem move (h : d.Traced c.finished) (m : Desk.Move c tx d cs d') : d'.Traced c.finished := by
  cases m with
  | line l => exact h.congr rfl rfl
  | missed hw hr => exact h.missed _
  | got refs hw hr hb => exact h.got refs hr hb
  | recounted refs hb => exact h.recounted refs hb
  | unpinned hb => exact h.unpinned hb
  | emptied => exact h.emptied (.inr rfl)
  | released hf => exact h.emptied (.inl hf)
  | flushed i => exact h.flushed i
  | beside hm => exact h.congr rfl rfl
  | wrote ht hb hl hw => exact h.wrote ht hb hw

end Desk.Traced

end PagedStore
