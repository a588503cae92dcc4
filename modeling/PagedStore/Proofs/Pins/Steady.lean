import PagedStore.Proofs.Pins.Traced
import PagedStore.Proofs.Pool.Overlaid

set_option autoImplicit false

/-!
What holds at the desk between the moves of any transactions. Main statements: `Steady.move` and
`Steady.moves`.
-/

namespace PagedStore

/-- The contents of a store, and which transaction wrote to each block last since it was added. -/
structure Book where
  flat : Flat
  author : BlockId → Option TxId := fun _ => none

namespace Book

def note (k : Book) (tx : TxId) (change : Change) : Book where
  flat := k.flat.apply change
  author := match change with
    | .put b _ _ _ => fun x => if x = b then some tx else k.author x
    | .add file _ => fun x => if x = ⟨file, k.flat.length file⟩ then none else k.author x

def after (k : Book) (entries : List (TxId × Change)) : Book :=
  entries.foldl (fun k e => k.note e.1 e.2) k

theorem flat_after (k : Book) (entries : List (TxId × Change)) :
    (k.after entries).flat = k.flat.replay (entries.map Prod.snd) := by
  induction entries generalizing k with
  | nil => rfl
  | cons e es ih => exact ih (k.note e.1 e.2)

theorem after_append (k : Book) (es es' : List (TxId × Change)) :
    k.after (es ++ es') = (k.after es).after es' := List.foldl_append

end Book

def signedBy (tx : TxId) (cs : List Change) : List (TxId × Change) := cs.map fun c => (tx, c)

theorem signedBy_append (tx : TxId) (cs cs' : List Change) :
    signedBy tx (cs ++ cs') = signedBy tx cs ++ signedBy tx cs' := List.map_append

theorem map_snd_signedBy (tx : TxId) (cs : List Change) : (signedBy tx cs).map Prod.snd = cs := by
  rw [signedBy, List.map_map]
  exact List.map_id cs

theorem Book.flat_after_signedBy (k : Book) (tx : TxId) (cs : List Change) :
    (k.after (signedBy tx cs)).flat = k.flat.replay cs := by
  rw [flat_after, map_snd_signedBy]

/-- What every move of every transaction keeps. -/
structure Steady (c : Terms) (book : Book) (d : Desk) : Prop where
  mirrors : Mirrors c.names book.flat d.store
  length : ∀ n, c.names n → c.length n ≤ d.store.media.disk.blocks n
  placed : ∀ tx b h, (d.pinsOf tx).holds.find? b = some h → d.store.blockAt? h.frame = some b
  touched : ∀ tx b h, (d.pinsOf tx).holds.find? b = some h → h.frame ∈ (d.pinsOf tx).touched
  pinned : ∀ (i : Nat) f, d.store.pool.frames[i]? = some f → d.holders i ≤ f.pins
  traced : ∀ (i : Nat) f tx, d.store.pool.frames[i]? = some f → f.modifiedBy = some tx →
    c.finished tx ∨ i ∈ (d.pinsOf tx).touched
  signed : ∀ (i : Nat) f b, d.store.pool.frames[i]? = some f → f.block = some b →
    f.Rested ∨ f.modifiedBy = book.author b
  reached : ∀ i b, d.store.blockAt? i = some b → b.Reachable book.flat.toSite

theorem Frame.rested_of_core {f g : Frame} (h : g.core = f.core) (hf : f.Rested) : g.Rested := by
  obtain ⟨-, -, hb, hd, hfr, -⟩ := core_eq_iff.1 h
  rcases hf with hn | ⟨h₁, h₂⟩
  · exact .inl (hb.trans hn)
  · exact .inr ⟨hd.trans h₁, hfr.trans h₂⟩

namespace Steady

variable {c : Terms} {book book' : Book} {d d' : Desk} {tx : TxId}

theorem traces (h : Steady c book d) : d.Traced c.finished :=
  ⟨h.placed, h.touched, h.pinned, h.traced⟩

theorem next (h : Steady c book d) (ht : d'.Traced c.finished)
    (hm : Mirrors c.names book'.flat d'.store)
    (hsite : book'.flat.toSite = book.flat.toSite)
    (hgrow : ∀ n, book.flat.length n ≤ book'.flat.length n)
    (hsigned : d.store.pool.Related d'.store.pool fun _ _ g => ∀ b, g.block = some b →
      g.Rested ∨ g.modifiedBy = book'.author b)
    (hreach : ∀ i b, d'.store.blockAt? i = some b →
      d.store.blockAt? i = some b ∨ b.Reachable d.store.site) :
    Steady c book' d' := by
  refine ⟨hm, ?_, ht.placed, ht.touched, ht.pinned, ht.traced, ?_, ?_⟩
  · intro n hn
    rw [hm.length hn]
    refine Nat.le_trans ?_ (hgrow n)
    rw [← h.mirrors.length hn]
    exact h.length n hn
  · intro i g b hg hb
    obtain ⟨f, -, hs⟩ := hsigned.before hg
    exact hs b hb
  · intro i b hb
    rw [hsite]
    rcases hreach i b hb with hold | hnew
    · exact h.reached i b hold
    · exact h.mirrors.site ▸ hnew

theorem signed_of_core (h : Steady c book d) {i : Nat} {f g : Frame} {b : BlockId}
    (hf : d.store.pool.frames[i]? = some f) (hc : g.core = f.core) (hb : g.block = some b) :
    g.Rested ∨ g.modifiedBy = book.author b := by
  obtain ⟨-, -, -, -, -, hm, -⟩ := Frame.core_eq_iff.1 hc
  rcases h.signed i f b hf ((Frame.block_of_core hc).symm.trans hb) with hr | ha
  · exact .inl (Frame.rested_of_core hc hr)
  · exact .inr (hm.trans ha)

/-- The writers of the blocks that were in frames stay known after a pin, and a block that is added
has none. -/
theorem signed_pin (h : Steady c book d) {w : Wanted} {author : BlockId → Option TxId}
    (hold : ∀ i b, d.store.blockAt? i = some b → author b = book.author b)
    (hnew : ∀ i b, (∀ x, w ≠ .block x) → (d.store.pin w).1 = .ok (some i) →
      (d.store.pin w).2.blockAt? i = some b → author b = none) :
    d.store.pool.Related (d.store.pin w).2.pool fun _ _ g => ∀ b, g.block = some b →
      g.Rested ∨ g.modifiedBy = author b := by
  refine (d.store.refetched w).mono fun j f g hf hg hfg b hb => ?_
  have hkept : g.core = f.core → g.Rested ∨ g.modifiedBy = author b := by
    intro hc
    have hfb : d.store.blockAt? j = some b := by
      rw [Store.blockAt?_of_frame hf, ← Frame.block_of_core hc, hb]
    rw [hold j b hfb]
    exact h.signed_of_core hf hc hb
  cases hfg with
  | kept ht hc _ => exact hkept hc
  | cached ht hc _ => exact hkept hc
  | vacated ht h₀ hp hn =>
    rw [hb] at hn
    cases hn
  | filled ht h₀ hp hd hf' hm =>
    cases w with
    | block x => exact .inl (.inr ⟨hd, hf' x rfl⟩)
    | fresh file format =>
      exact .inr (hm.trans (hnew j b nofun ht ((Store.blockAt?_of_frame hg).trans hb)).symm)

end Steady

theorem Mirrors.blockAt?_claim_fresh {names : String → Prop} (hd : Distinct names) {flat : Flat}
    {s : Store} (h : Mirrors names flat s) {file : String} (hn : names file) {format : Formatter}
    {i : Nat} (hok : (s.claim (.fresh file format)).1 = .ok (some i)) :
    (s.claim (.fresh file format)).2.blockAt? i = some ⟨file, flat.length file⟩ := by
  obtain ⟨s₁, s₂, s₃, f, hs, hf, hi, hr, hs'⟩ := Store.filled_of_claim hok
  have h₂ := (h.still hs).flushFrame hd i
  rw [hf] at h₂
  rw [hs'.blockAt?]
  have hfill := s₂.refilled i f (.fresh file format)
  rw [hr] at hfill
  cases hfill with
  | added ha =>
    rw [(Disk.put_of_append ha).1, h₂.length hn, Store.blockAt?_set hi, if_pos rfl]

namespace Store

variable {s : Store} {w : Wanted}

theorem changes_pin_of_none (hr : ∀ i, (s.pin w).1 ≠ .ok (some i)) :
    (s.change? (.pin w)).toList = [] := by
  cases w with
  | block b => rfl
  | fresh file format => simp only [change?, Option.toList_none]

theorem changes_pin_of_some {i : Nat} (hr : (s.pin w).1 = .ok (some i)) :
    (s.change? (.pin w)).toList = w.changes := by
  cases w with
  | block b => rfl
  | fresh file format =>
    simp only [change?, hr]
    rfl

end Store

namespace Steady

variable {c : Terms} {book book' : Book} {d d' : Desk} {tx : TxId}

theorem line (h : Steady c book d) (l : Line) : Steady c book { d with line := l } :=
  ⟨h.mirrors, h.length, h.placed, h.touched, h.pinned, h.traced, h.signed, h.reached⟩

theorem missed (hd : Distinct c.names) (h : Steady c book d) {w : Wanted} (hw : c.names w.file)
    (hr : ∀ i, (d.store.pin w).1 ≠ .ok (some i)) :
    Steady c book (d.setStore (d.store.pin w).2) := by
  have hp : d.store.Permits c.names (.pin w) := by
    cases w with
    | block b => exact ⟨hw, fun _ i hi => absurd hi (hr i)⟩
    | fresh file format => exact hw
  have hm := h.mirrors.pin hd hp
  rw [Store.changes_pin_of_none hr] at hm
  exact h.next (h.traces.missed w) hm rfl (fun _ => Nat.le_refl _)
    (h.signed_pin (fun _ _ _ => rfl) fun i _ _ hi => absurd hi (hr i))
    fun _ _ => Store.reachable_of_pin

theorem got (hd : Distinct c.names) (h : Steady c book d) {w : Wanted} {i : Nat} {b : BlockId}
    (refs : Nat) (hw : w.Within c) (hr : (d.store.pin w).1 = .ok (some i))
    (hb : (d.store.pin w).2.blockAt? i = some b) :
    Steady c (book.after (signedBy tx w.changes))
      ((d.setStore (d.store.pin w).2).record tx b i refs) := by
  have hp : d.store.Permits c.names (.pin w) := by
    cases w with
    | block b => exact ⟨hw.1, fun _ _ _ => Nat.lt_of_lt_of_le hw.2 (h.length _ hw.1)⟩
    | fresh file format => exact hw
  have hm := h.mirrors.pin hd hp
  rw [Store.changes_pin_of_some hr] at hm
  have hflat := book.flat_after_signedBy tx w.changes
  refine h.next (h.traces.got refs hr hb) (hflat ▸ hm) (hflat ▸ book.flat.site_replay _)
    (fun n => hflat ▸ book.flat.length_le_replay _ n) (h.signed_pin ?_ ?_)
    fun _ _ => Store.reachable_of_pin
  · intro j x hx
    cases w with
    | block y => rfl
    | fresh file format =>
      obtain ⟨f, hf, hfx⟩ := Option.bind_eq_some_iff.1 hx
      have hsh := h.mirrors.shows hf hfx
      refine if_neg fun he => ?_
      have hin := hsh.inside
      rw [h.mirrors.length hsh.named, he] at hin
      exact Nat.lt_irrefl _ hin
  · intro j x hne hj hx
    cases w with
    | block y => exact absurd rfl (hne y)
    | fresh file format =>
      rw [Store.pin, h.mirrors.blockAt?_claim_fresh hd hw hj] at hx
      exact if_pos (Option.some.inj hx).symm

theorem repin (h : Steady c book d) {s : Store} {p : Pins} (hs : Store.Still d.store s)
    (ht : ((d.setStore s).setPins tx p).Traced c.finished) :
    Steady c book ((d.setStore s).setPins tx p) :=
  h.next ht (h.mirrors.still hs) rfl (fun _ => Nat.le_refl _)
    (hs.related.mono fun _ _ _ hf _ hfg _ hb => h.signed_of_core hf hfg hb)
    fun i _ hb => .inl (hs.blockAt? i ▸ hb)

theorem recounted (h : Steady c book d) {b : BlockId} {k : Hold} (refs : Nat)
    (hb : (d.pinsOf tx).holds.find? b = some k) :
    Steady c book (d.setPins tx { d.pinsOf tx with
      holds := (d.pinsOf tx).holds.insert b { k with refs } }) :=
  h.repin (s := d.store) ⟨rfl, rfl, rfl⟩ (h.traces.recounted refs hb)

theorem unpinned (h : Steady c book d) {b : BlockId} {k : Hold}
    (hb : (d.pinsOf tx).holds.find? b = some k) :
    Steady c book ((d.setStore (d.store.unpin k.frame).2).setPins tx { d.pinsOf tx with
      holds := (d.pinsOf tx).holds.erase b }) :=
  h.repin (Store.still_unpin ..) (h.traces.unpinned hb)

theorem emptied (h : Steady c book d) {touched : List Nat}
    (ht : c.finished tx ∨ touched = (d.pinsOf tx).touched) :
    Steady c book ((d.setStore (Desk.unpinFrames (d.heldFrames tx) d.store).2).setPins tx
      { holds := .empty, touched }) :=
  h.repin (Store.still_unpinFrames ..) (h.traces.emptied ht)

theorem flushed (hd : Distinct c.names) (h : Steady c book d) (i : Nat) :
    Steady c book (d.setStore (d.store.flushFrame i).2) := by
  have hblock := d.store.blockAt?_flushFrame i
  refine h.next (h.traces.flushed i) (h.mirrors.flushFrame hd i) rfl (fun _ => Nat.le_refl _)
    ((d.store.related_flushFrame i).mono fun j f g hf _ hfg b hgb => ?_)
    fun j b hb => .inl (hblock j ▸ hb)
  obtain ⟨hb, -, hm, hr, -⟩ := hfg
  exact (h.signed j f b hf (hb ▸ hgb)).imp hr fun ha => hm.trans ha

theorem beside (h : Steady c book d) {m : Media} (hm : Disk.Same d.store.media.disk m.disk) :
    Steady c book (d.setStore { d.store with media := m }) :=
  h.next (h.traces.congr rfl rfl) (h.mirrors.same hm) rfl (fun _ => Nat.le_refl _)
    (Pool.related_self fun j f hf b hb => h.signed j f b hf hb) fun _ _ => .inl

theorem wrote (h : Steady c book d) {b : BlockId} {k : Hold} {offset : Nat} {v : Value} {lsn : Lsn}
    {s : Store} (ht : tx.num ≠ 0) (hb : (d.pinsOf tx).holds.find? b = some k)
    (hl : lsn < wordLimit 8)
    (hw : d.store.editFrame k.frame (fun f => f.writeLogged offset v tx lsn) = (.ok (), s)) :
    Steady c (book.after (signedBy tx [.put b offset v (some lsn)])) (d.setStore s) := by
  have hplaced := h.placed tx b k hb
  have hm : Mirrors c.names
      (book.flat.replay ((d.store.blockAt? k.frame).map fun x => .put x offset v (some lsn)).toList)
      (d.store.editFrame k.frame fun f => f.writeLogged offset v tx lsn).2 :=
    h.mirrors.edit (fun n hn => by cases hn; exact hl) fun f hf =>
      ⟨if tx.num = 0 then none else some tx, Frame.writeLogged_eq_put hf ..⟩
  have hblock : ∀ j,
      (d.store.editFrame k.frame fun f => f.writeLogged offset v tx lsn).2.blockAt? j =
        d.store.blockAt? j := Store.blockAt?_editFrame fun _ _ hg => (Frame.of_writeLogged hg).2.1
  rw [hw] at hm hblock
  rw [hplaced] at hm
  refine h.next (h.traces.wrote ht hb hw) hm (book.flat.site_apply _)
    (book.flat.length_le_apply _)
    ((Store.related_editFrame hw).mono fun j f g hf _ hfg x hx => ?_)
    fun i b hb => .inl (hblock i ▸ hb)
  by_cases hj : j = k.frame
  · obtain ⟨-, hgb, -, hgm⟩ := Frame.of_writeLogged (hfg.2 hj)
    rw [if_neg ht] at hgm
    rw [← hj, Store.blockAt?_of_frame hf, ← hgb, hx] at hplaced
    exact .inr (hgm.trans (if_pos (Option.some.inj hplaced)).symm)
  · obtain rfl := hfg.1 hj
    have hne : x ≠ b := by
      intro he
      refine hj (h.mirrors.unique.apart j k.frame b ?_ hplaced)
      rw [Store.blockAt?_of_frame hf, hx, he]
    exact (h.signed j g x hf hx).imp_right fun ha => ha.trans (if_neg hne).symm

theorem move (hd : Distinct c.names) (h : Steady c book d) {cs : List Change}
    (m : Desk.Move c tx d cs d') : Steady c (book.after (signedBy tx cs)) d' := by
  cases m with
  | line l => exact h.line l
  | missed hw hr => exact h.missed hd hw hr
  | got refs hw hr hb => exact h.got hd refs hw hr hb
  | recounted refs hb => exact h.recounted refs hb
  | unpinned hb => exact h.unpinned hb
  | emptied => exact h.emptied (.inr rfl)
  | released hf => exact h.emptied (.inl hf)
  | flushed i => exact h.flushed hd i
  | beside hm => exact h.beside hm
  | wrote ht hb hl hw => exact h.wrote ht hb hl hw

theorem takes_move (hd : Distinct c.names) (h : Steady c book d) {cs : List Change}
    (m : Desk.Move c tx d cs d') : book.flat.TakesAll c.names cs := by
  cases m with
  | @got w i b refs hw hr hb =>
    cases w with
    | block b => trivial
    | fresh file format =>
      have hb := h.mirrors.blockAt?_claim_fresh hd hw hr
      exact ⟨⟨hw, h.mirrors.site ▸ Store.reachable_of_claim hr hb⟩, trivial⟩
  | @wrote b k offset v lsn s ht hb hl hw =>
    obtain ⟨f, hf, hfb⟩ := Option.bind_eq_some_iff.1 (h.placed tx b k hb)
    have hs := h.mirrors.shows hf hfb
    refine ⟨⟨hs.named, h.reached _ b (h.placed tx b k hb), ?_, ?_⟩, trivial⟩
    · rw [← h.mirrors.length hs.named]
      exact hs.inside
    · obtain ⟨g, -, -, hg⟩ := (Store.related_editFrame hw).later hf
      rw [← hs.bytes]
      exact (Frame.of_writeLogged (hg rfl)).1
  | _ => trivial

theorem moves (hd : Distinct c.names) (h : Steady c book d) {cs : List Change}
    (m : Desk.Moves c tx d cs d') :
    Steady c (book.after (signedBy tx cs)) d' ∧ book.flat.TakesAll c.names cs := by
  induction m with
  | refl => exact ⟨h, trivial⟩
  | snoc _ m ih =>
    obtain ⟨hs, ht⟩ := ih
    rw [signedBy_append, Book.after_append]
    exact ⟨hs.move hd m, ht.append (book.flat_after_signedBy tx _ ▸ hs.takes_move hd m)⟩

end Steady

theorem Desk.Moves.pinsOf_of_ne {c : Terms} {tx : TxId} {d d' : Desk} {cs : List Change}
    (m : Desk.Moves c tx d cs d') {u : TxId} (hu : u ≠ tx) : d'.pinsOf u = d.pinsOf u := by
  induction m with
  | refl => rfl
  | snoc _ m ih =>
    refine Eq.trans ?_ ih
    cases m with
    | got => exact Desk.pinsOf_setPins_of_ne _ _ hu
    | recounted => exact Desk.pinsOf_setPins_of_ne _ _ hu
    | unpinned => exact Desk.pinsOf_setPins_of_ne _ _ hu
    | emptied => exact Desk.pinsOf_setPins_of_ne _ _ hu
    | released => exact Desk.pinsOf_setPins_of_ne _ _ hu
    | _ => rfl

end PagedStore
