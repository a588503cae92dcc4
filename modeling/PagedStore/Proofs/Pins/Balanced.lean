import PagedStore.Proofs.Pins.Held
import PagedStore.Proofs.Pins.Moves
import PagedStore.Proofs.Pool.Even

set_option autoImplicit false

/-!
The desk keeps its accounts: each frame has a pin for every hold on it and no other. Main
statements: `Desk.follows_unpin` and `Desk.releaseAll_ok`. A transaction can give back all that it
holds, and then nothing of it is left.
-/

namespace PagedStore

namespace Line

def tickets (l : Line) : List Nat := l.waiters.map Waiter.ticket

def Measured (l : Line) : Prop := l.waiting = l.waiters.length

variable {l : Line}

theorem tickets_wakeHead (l : Line) : l.wakeHead.tickets = l.tickets := by
  unfold wakeHead
  split
  · rfl
  · rename_i w ws hw
    rw [tickets, tickets, hw]
    rfl

theorem tickets_heed (l : Line) (ticket : Nat) : (l.heed ticket).tickets = l.tickets := by
  rw [tickets, heed, List.map_map, tickets]
  refine List.map_congr_left fun w _ => ?_
  rw [Function.comp]
  split <;> rfl

theorem mem_tickets_leave {ticket k : Nat} :
    k ∈ (l.leave ticket).tickets ↔ k ∈ l.tickets ∧ k ≠ ticket := by
  simp only [tickets, leave, List.mem_map, List.mem_filter, decide_eq_true_eq]
  constructor
  · rintro ⟨w, ⟨hw, hne⟩, rfl⟩
    exact ⟨⟨w, hw, rfl⟩, hne⟩
  · rintro ⟨⟨w, hw, rfl⟩, hne⟩
    exact ⟨w, ⟨hw, hne⟩, rfl⟩

theorem mem_tickets_join {k : Nat} : k ∈ l.join.2.tickets ↔ k ∈ l.tickets ∨ k = l.join.1 := by
  simp only [tickets, join, List.map_append, List.mem_append, List.map_cons, List.map_nil,
    List.mem_singleton]

theorem Measured.wakeHead (h : l.Measured) : l.wakeHead.Measured := by
  unfold Line.wakeHead
  split
  · exact h
  · rename_i w ws hw
    rw [Measured, hw] at h
    exact h

theorem Measured.heed (h : l.Measured) (ticket : Nat) : (l.heed ticket).Measured := by
  rw [Measured, Line.heed, List.length_map]
  exact h

theorem measured_leave (l : Line) (ticket : Nat) : (l.leave ticket).Measured := rfl

theorem measured_join (l : Line) : l.join.2.Measured := rfl

end Line

theorem Pins.inFrame_insert {p : Pins} {b : BlockId} (hb : p.holds.find? b = none) (h : Hold)
    (touched : List Nat) (i : Nat) :
    inFrame { holds := p.holds.insert b h, touched } i =
      p.inFrame i + if h.frame = i then 1 else 0 := by
  rw [inFrame, Registry.total_insert, inFrame, Registry.total_eq _ p.holds b, hb]
  simp only [Option.map_none, Option.getD_none, Nat.zero_add]
  exact Nat.add_comm ..

namespace Desk

variable {size : Nat} {tx : TxId} {d d' d'' : Desk} {w : Wanted}

def Has (d : Desk) (b : BlockId) : Prop := b.number < d.store.media.disk.blocks b.file

structure Balanced (size : Nat) (d : Desk) : Prop where
  even : d.store.Even size d.holders
  inside : ∀ tx b h, (d.pinsOf tx).holds.find? b = some h → d.Has b
  measured : d.line.Measured

structure Follows (size : Nat) (tx : TxId) (d d' : Desk) : Prop where
  balanced : d'.Balanced size
  others : ∀ u, u ≠ tx → d'.pinsOf u = d.pinsOf u
  grown : ∀ n, d.store.media.disk.blocks n ≤ d'.store.media.disk.blocks n

theorem Balanced.refl (h : d.Balanced size) : Follows size tx d d :=
  ⟨h, fun _ _ => rfl, fun _ => Nat.le_refl _⟩

theorem Follows.trans (h : Follows size tx d d') (h' : Follows size tx d' d'') :
    Follows size tx d d'' :=
  ⟨h'.balanced, fun u hu => (h'.others u hu).trans (h.others u hu),
    fun n => Nat.le_trans (h.grown n) (h'.grown n)⟩

theorem Follows.has (h : Follows size tx d d') {b : BlockId} (hb : d.Has b) : d'.Has b :=
  Nat.lt_of_lt_of_le hb (h.grown b.file)

theorem Balanced.line (h : d.Balanced size) {l : Line} (hl : l.Measured) :
    Follows size tx d { d with line := l } :=
  ⟨⟨h.even, h.inside, hl⟩, fun _ _ => rfl, fun _ => Nat.le_refl _⟩

theorem Balanced.onStore (h : d.Balanced size) {s : Store} (hs : s.Even size d.holders)
    (hg : s.Grown d.store.media.disk.blocks) : Follows size tx d (d.setStore s) :=
  ⟨⟨hs, fun u b k hk => Nat.lt_of_lt_of_le (h.inside u b k hk) (hg.2 b.file), h.measured⟩,
    fun _ _ => rfl, hg.2⟩

theorem Balanced.repin (h : d.Balanced size) {s : Store} {p : Pins}
    (hs : s.Even size fun i => p.inFrame i + d.others tx i)
    (hg : s.Grown d.store.media.disk.blocks)
    (hin : ∀ b k, p.holds.find? b = some k → b.number < s.media.disk.blocks b.file) :
    Follows size tx d ((d.setStore s).setPins tx p) := by
  have hself := (d.setStore s).pinsOf_setPins_self tx p
  have hothers : ∀ u, u ≠ tx → ((d.setStore s).setPins tx p).pinsOf u = d.pinsOf u := fun u hu =>
    pinsOf_setPins_of_ne _ _ hu
  refine ⟨⟨hs.congr fun i => rfl, fun u b k hk => ?_, h.measured⟩, hothers, hg.2⟩
  by_cases hu : u = tx
  · rw [hu, hself] at hk
    exact hin b k hk
  · rw [hothers u hu] at hk
    exact Nat.lt_of_lt_of_le (h.inside u b k hk) (hg.2 b.file)

theorem Balanced.grown (h : d.Balanced size) : d.store.Grown d.store.media.disk.blocks :=
  ⟨h.even.pos, fun _ => Nat.le_refl _⟩

theorem Balanced.grown_pin (h : d.Balanced size) (w : Wanted) :
    (d.store.pin w).2.Grown d.store.media.disk.blocks := (Store.kept_grown _).pin h.grown w

theorem Balanced.missed (h : d.Balanced size) (hr : ∀ i, (d.store.pin w).1 ≠ .ok (some i))
    (hc : ∀ c, (d.store.pin w).1 ≠ .error (.crash c)) :
    Follows size tx d (d.setStore (d.store.pin w).2) :=
  h.onStore (h.even.missed hr hc) (h.grown_pin w)

theorem Balanced.got (h : d.Balanced size) {i : Nat} {b : BlockId} (refs : Nat)
    (hr : (d.store.pin w).1 = .ok (some i)) (hfree : (d.pinsOf tx).holds.find? b = none)
    (hin : b.number < (d.store.pin w).2.media.disk.blocks b.file) :
    Follows size tx d ((d.setStore (d.store.pin w).2).record tx b i refs) := by
  have hg := h.grown_pin w
  refine h.repin ((h.even.got hr).congr fun j => ?_) hg fun x k hk => ?_
  · show Pins.inFrame ⟨(d.pinsOf tx).holds.insert b ⟨i, refs⟩, _⟩ j + d.others tx j = _
    rw [Pins.inFrame_insert hfree, d.holders_eq tx, Nat.add_right_comm]
  · change ((d.pinsOf tx).holds.insert b ⟨i, refs⟩).find? x = some k at hk
    rw [Registry.find?_insert] at hk
    split at hk
    · rename_i hx
      exact hx ▸ hin
    · exact Nat.lt_of_lt_of_le (h.inside tx x k hk) (hg.2 x.file)

theorem Balanced.recounted (h : d.Balanced size) {b : BlockId} {k : Hold} (refs : Nat)
    (hb : (d.pinsOf tx).holds.find? b = some k) :
    Follows size tx d (d.setPins tx { d.pinsOf tx with
      holds := (d.pinsOf tx).holds.insert b { k with refs } }) := by
  refine h.repin (s := d.store) (h.even.congr fun j => ?_) h.grown fun x k' hk => ?_
  · rw [Pins.inFrame_recount hb, d.holders_eq tx]
  · rw [Registry.find?_insert] at hk
    split at hk
    · rename_i hx
      exact hx ▸ h.inside tx b k hb
    · exact h.inside tx x k' hk

theorem Balanced.unpinned (h : d.Balanced size) {b : BlockId} {k : Hold}
    (hb : (d.pinsOf tx).holds.find? b = some k) :
    (d.store.unpin k.frame).1 = .ok () ∧
      Follows size tx d ((d.setStore (d.store.unpin k.frame).2).setPins tx { d.pinsOf tx with
        holds := (d.pinsOf tx).holds.erase b }) := by
  obtain ⟨hok, heven⟩ := h.even.unpin (holders_pos hb)
  refine ⟨hok, h.repin (heven.congr fun j => ?_) ((Store.kept_grown _).unpin h.grown _)
    fun x k' hk => ?_⟩
  · rw [d.holders_eq tx, Pins.inFrame_erase hb (d.pinsOf tx).touched, Nat.add_assoc,
      Nat.add_sub_cancel_left]
  · exact h.inside tx x k' (Registry.find?_of_erase hk).2

theorem Balanced.emptied (h : d.Balanced size) (tx : TxId) (touched : List Nat) :
    (unpinFrames (d.heldFrames tx) d.store).1 = .ok () ∧
      Follows size tx d ((d.setStore (unpinFrames (d.heldFrames tx) d.store).2).setPins tx
        { holds := .empty, touched }) := by
  have hcount : ∀ j, d.holders j = (d.heldFrames tx).count j + d.others tx j := fun j => by
    rw [d.holders_eq tx, Pins.inFrame_eq_count, heldFrames]
  obtain ⟨hok, heven⟩ := h.even.unpinFrames fun j =>
    Nat.le_trans (Nat.le_add_right ..) (Nat.le_of_eq (hcount j).symm)
  refine ⟨hok, h.repin (heven.congr fun j => ?_) ((Store.kept_grown _).unpinFrames h.grown _)
    nofun⟩
  rw [hcount, Nat.add_sub_cancel_left]
  exact Nat.zero_add _

theorem pinsOf_congr (h : d'.pins = d.pins) (u : TxId) : d'.pinsOf u = d.pinsOf u := by
  rw [pinsOf, pinsOf, h]

theorem Balanced.leave (h : d.Balanced size) (ticket : Nat) :
    Follows size tx d (d.leave ticket) := h.line (Line.measured_leave ..).wakeHead

theorem mem_tickets_leave {ticket k : Nat} (hk : k ∈ (d.leave ticket).line.tickets) :
    k ∈ d.line.tickets ∧ some ticket ≠ some k := by
  rw [Desk.leave, Line.tickets_wakeHead, Line.mem_tickets_leave] at hk
  exact ⟨hk.1, fun he => hk.2 (Option.some.inj he).symm⟩

theorem pinsOf_tellFree (d : Desk) (u : TxId) : d.tellFree.pinsOf u = d.pinsOf u := by
  unfold tellFree
  split <;> rfl

theorem Follows.tellFree (h : Follows size tx d d') (hl : d'.line = d.line) :
    Follows size tx d d'.tellFree ∧ d'.tellFree.line.tickets = d.line.tickets := by
  unfold Desk.tellFree
  rw [← hl]
  split
  · exact ⟨h.trans (h.balanced.line (Line.Measured.wakeHead h.balanced.measured)),
      Line.tickets_wakeHead _⟩
  · exact ⟨h, rfl⟩

theorem follows_unpin (h : d.Balanced size) (tx : TxId) (b : BlockId) :
    Follows size tx d (d.unpin tx b).2 ∧ (d.unpin tx b).2.line.tickets = d.line.tickets := by
  unfold Desk.unpin
  dsimp only
  split
  · exact ⟨h.refl, rfl⟩
  · rename_i k hb
    split
    · exact ⟨h.recounted (k.refs - 1) hb, rfl⟩
    · obtain ⟨hok, hf⟩ := h.unpinned hb
      simp only [hok]
      exact hf.tellFree rfl

theorem holds_unpin {b x : BlockId} {j : Hold}
    (hj : ((d.unpin tx b).2.pinsOf tx).holds.find? x = some j) :
    ∃ j, (d.pinsOf tx).holds.find? x = some j := by
  unfold Desk.unpin at hj
  dsimp only at hj
  split at hj
  · exact ⟨j, hj⟩
  · rename_i k hb
    have herase : ((d.pinsOf tx).holds.erase b).find? x = some j →
        ∃ j, (d.pinsOf tx).holds.find? x = some j := fun hj =>
      ⟨j, (Registry.find?_of_erase hj).2⟩
    split at hj
    · rw [pinsOf_setPins_self, Registry.find?_insert] at hj
      split at hj
      · rename_i hx
        exact ⟨k, hx ▸ hb⟩
      · exact ⟨j, hj⟩
    · split at hj
      · rw [pinsOf_setPins_self] at hj
        exact herase hj
      · rw [pinsOf_tellFree, pinsOf_setPins_self] at hj
        exact herase hj

theorem holds_of_size_eq_zero {p : Pins} (h : p.holds.size = 0) (b : BlockId) :
    p.holds.find? b = none := by
  rw [Registry.size, List.length_eq_zero_iff] at h
  rw [Registry.find?, h]
  rfl

theorem releaseAll_ok (h : d.Balanced size) (tx : TxId) :
    (d.releaseAll tx).1 = .ok () ∧ Follows size tx d (d.releaseAll tx).2 ∧
      (d.releaseAll tx).2.line.tickets = d.line.tickets ∧
      ∀ b, ((d.releaseAll tx).2.pinsOf tx).holds.find? b = none := by
  unfold Desk.releaseAll
  dsimp only
  split
  · rename_i h₀
    exact ⟨rfl, h.refl, rfl, holds_of_size_eq_zero h₀⟩
  · obtain ⟨hok, hf⟩ := h.emptied tx []
    rw [heldFrames] at hok
    simp only [hok]
    obtain ⟨hft, ht⟩ := hf.tellFree rfl
    refine ⟨trivial, hft, ht, fun b => ?_⟩
    rw [pinsOf_tellFree, pinsOf_setPins_self]
    rfl

theorem Balanced.flushed (h : d.Balanced size) (i : Nat) :
    Follows size tx d (d.setStore (d.store.flushFrame i).2) :=
  h.onStore (h.even.flushFrame i) ((Store.kept_grown _).flush i h.grown)

theorem Balanced.flushWhere (h : d.Balanced size) (asked : Frame → Bool) :
    Follows size tx d (d.setStore (d.store.flushWhere asked).2) :=
  Store.flushWhere_induct (P := fun s => Follows size tx d (d.setStore s))
    (fun _ i hs => hs.trans (hs.balanced.flushed i)) h.refl asked

theorem Balanced.flushTouched (h : d.Balanced size) (t : TxId) (frames : List Nat) :
    Follows size tx d (d.setStore (Desk.flushTouched t frames d.store).2) := by
  induction frames generalizing d with
  | nil => exact h.refl
  | cons i rest ih =>
    have hone : Follows size tx d (d.setStore (d.store.flushFrame i).2) := h.flushed i
    unfold Desk.flushTouched
    split
    · cases hr : d.store.flushFrame i with
      | mk r s =>
        rw [hr] at hone
        cases r with
        | error e => exact hone
        | ok u => exact hone.trans (ih hone.balanced)
    · exact ih h

theorem Balanced.beside (h : d.Balanced size) {m : Media}
    (hm : Disk.Same d.store.media.disk m.disk) :
    Follows size tx d (d.setStore { d.store with media := m }) :=
  h.onStore (h.even.beside hm.blockSize) (h.grown.same hm)

theorem Balanced.wrote (h : d.Balanced size) (i offset : Nat) (v : Value) (u : TxId) (lsn : Lsn) :
    Follows size tx d (d.setStore
      (d.store.editFrame i fun f => f.writeLogged offset v u lsn).2) :=
  h.onStore (h.even.writeLogged i offset v u lsn) (by
    rw [Store.Grown, Store.blockSize, Store.media_editFrame]
    exact h.grown)

end Desk

end PagedStore
