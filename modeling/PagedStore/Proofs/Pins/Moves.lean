import PagedStore.Proofs.Pins.Held
import PagedStore.Proofs.Pool.Unique

set_option autoImplicit false

/-!
What goes on at the desk for one transaction, as a sequence of moves: each calls the pool once and
changes what that transaction holds accordingly. A sequence is labelled with the changes that it
makes to the contents of the store. Main statements: `Desk.served_pin`, `Desk.served_resume`,
`Desk.moves_unpin`, `Desk.moves_releaseAll` and `Desk.moves_flushMine`.
-/

namespace PagedStore

/-- What is taken for granted while a transaction moves. -/
structure Terms where
  names : String → Prop
  length : String → Nat
  finished : TxId → Prop

def Terms.Has (c : Terms) (b : BlockId) : Prop := c.names b.file ∧ b.number < c.length b.file

namespace Wanted

def file : Wanted → String
  | .block b => b.file
  | .fresh file _ => file

/-- What is wanted can be had. -/
def Within (c : Terms) : Wanted → Prop
  | .block b => c.Has b
  | .fresh file _ => c.names file

def changes : Wanted → List Change
  | .block _ => []
  | .fresh file format => [.add file format]

end Wanted

namespace Desk

def heldFrames (d : Desk) (tx : TxId) : List Nat :=
  (d.pinsOf tx).holds.entries.map fun e => e.2.frame

def setStore (d : Desk) (s : Store) : Desk := { d with store := s }

/-- One move at the desk for `tx`, with the changes that it makes to the contents. -/
inductive Move (c : Terms) (tx : TxId) : Desk → List Change → Desk → Prop
  | line {d : Desk} (l : Line) : Move c tx d [] { d with line := l }
  | missed {d : Desk} {w : Wanted} (hw : c.names w.file)
      (hr : ∀ i, (d.store.pin w).1 ≠ .ok (some i)) : Move c tx d [] (d.setStore (d.store.pin w).2)
  | got {d : Desk} {w : Wanted} {i : Nat} {b : BlockId} (refs : Nat) (hw : w.Within c)
      (hr : (d.store.pin w).1 = .ok (some i)) (hb : (d.store.pin w).2.blockAt? i = some b) :
      Move c tx d w.changes ((d.setStore (d.store.pin w).2).record tx b i refs)
  | recounted {d : Desk} {b : BlockId} {h : Hold} (refs : Nat)
      (hb : (d.pinsOf tx).holds.find? b = some h) :
      Move c tx d [] (d.setPins tx { d.pinsOf tx with
        holds := (d.pinsOf tx).holds.insert b { h with refs } })
  | unpinned {d : Desk} {b : BlockId} {h : Hold} (hb : (d.pinsOf tx).holds.find? b = some h) :
      Move c tx d [] ((d.setStore (d.store.unpin h.frame).2).setPins tx { d.pinsOf tx with
        holds := (d.pinsOf tx).holds.erase b })
  | emptied {d : Desk} :
      Move c tx d [] ((d.setStore (unpinFrames (d.heldFrames tx) d.store).2).setPins tx
        { d.pinsOf tx with holds := .empty })
  | released {d : Desk} (hf : c.finished tx) :
      Move c tx d [] ((d.setStore (unpinFrames (d.heldFrames tx) d.store).2).setPins tx {})
  | flushed {d : Desk} (i : Nat) : Move c tx d [] (d.setStore (d.store.flushFrame i).2)
  | beside {d : Desk} {m : Media} (hm : Disk.Same d.store.media.disk m.disk) :
      Move c tx d [] (d.setStore { d.store with media := m })
  | wrote {d : Desk} {b : BlockId} {h : Hold} {offset : Nat} {v : Value} {lsn : Lsn} {s : Store}
      (ht : tx.num ≠ 0) (hb : (d.pinsOf tx).holds.find? b = some h) (hl : lsn < wordLimit 8)
      (hw : d.store.editFrame h.frame (fun f => f.writeLogged offset v tx lsn) = (.ok (), s)) :
      Move c tx d [.put b offset v (some lsn)] (d.setStore s)

inductive Moves (c : Terms) (tx : TxId) : Desk → List Change → Desk → Prop
  | refl (d : Desk) : Moves c tx d [] d
  | snoc {d d' d'' : Desk} {cs cs' : List Change} (h : Moves c tx d cs d')
      (m : Move c tx d' cs' d'') : Moves c tx d (cs ++ cs') d''

variable {c : Terms} {tx : TxId} {d d' d'' : Desk} {cs cs' : List Change} {w : Wanted}

theorem Move.moves (m : Move c tx d cs d') : Moves c tx d cs d' := .snoc (.refl d) m

theorem Moves.trans (h : Moves c tx d cs d') (k : Moves c tx d' cs' d'') :
    Moves c tx d (cs ++ cs') d'' := by
  induction k with
  | refl => rwa [List.append_nil]
  | snoc _ m ih =>
    rw [← List.append_assoc]
    exact .snoc ih m

theorem Moves.before (h : Moves c tx d [] d') (k : Moves c tx d' cs d'') : Moves c tx d cs d'' :=
  h.trans k

theorem Moves.after (h : Moves c tx d cs d') (k : Moves c tx d' [] d'') : Moves c tx d cs d'' := by
  have := h.trans k
  rwa [List.append_nil] at this

end Desk

def PinProgress.changes (w : Wanted) : PinProgress → List Change
  | .done (.ok _) => w.changes
  | .done (.error _) | .waits _ | .sleepsOn _ => []

/-- The blocks that a waiting transaction has given up and wants back. -/
def Stage.blocks : Stage → List BlockId
  | .pausing holds => holds.map Prod.fst
  | .regaining _ b _ rest => b :: rest.map Prod.fst
  | .first _ | .last _ => []

namespace Desk

variable {c : Terms} {tx : TxId} {d d' : Desk} {w : Wanted}

/-- A request was dealt with: its moves make the changes that its answer tells of, and if it waits
then for what can be had. -/
structure Served (c : Terms) (tx : TxId) (w : Wanted) (d : Desk) (r : PinProgress × Desk) :
    Prop where
  moves : Moves c tx d (r.1.changes w) r.2
  waits : ∀ u, r.1 = .waits u ∨ r.1 = .sleepsOn u → u.wanted = w ∧ ∀ b ∈ u.stage.blocks, c.Has b

theorem Served.before {r : PinProgress × Desk} (h : Served c tx w d' r) (m : Moves c tx d [] d') :
    Served c tx w d r := ⟨m.before h.moves, h.waits⟩

theorem served_error {e : Failure} (m : Moves c tx d [] d') :
    Served c tx w d (.done (.error e), d') := ⟨m, fun _ h => by rcases h with h | h <;> cases h⟩

theorem served_waits {u : PinWait} (m : Moves c tx d [] d') (hw : u.wanted = w)
    (hb : ∀ b ∈ u.stage.blocks, c.Has b) : Served c tx w d (.waits u, d') :=
  ⟨m, fun _ h => by rcases h with h | h <;> cases h; exact ⟨hw, hb⟩⟩

theorem served_sleepsOn {u : PinWait} (m : Moves c tx d [] d') (hw : u.wanted = w)
    (hb : ∀ b ∈ u.stage.blocks, c.Has b) : Served c tx w d (.sleepsOn u, d') :=
  ⟨m, fun _ h => by rcases h with h | h <;> cases h; exact ⟨hw, hb⟩⟩

inductive Turned (c : Terms) (tx : TxId) (w : Wanted) (d : Desk) : Turn × Desk → Prop
  | got {i : Nat} (l : Line) (hr : (d.store.pin w).1 = .ok (some i)) :
      Turned c tx w d (.got i, { d.setStore (d.store.pin w).2 with line := l })
  | other {r : Turn} {d' : Desk} (ht : ∀ i, r ≠ .got i) (m : Moves c tx d [] d')
      (hp : d'.pins = d.pins) : Turned c tx w d (r, d')

theorem moves_missed (l : Line) (hn : c.names w.file)
    (hr : ∀ i, (d.store.pin w).1 ≠ .ok (some i)) :
    Moves c tx d [] { d.setStore (d.store.pin w).2 with line := l } :=
  (Move.missed hn hr).moves.before (Move.line l).moves

theorem turned (tx : TxId) (hn : c.names w.file) (d : Desk) (ticket : Nat) (expired : Bool) :
    Turned c tx w d (d.turn ticket w expired) := by
  unfold turn
  dsimp only
  split
  · cases hr : d.store.pin w with
    | mk r s =>
      have hs : s = (d.store.pin w).2 := by rw [hr]
      have hmissed : ∀ (t : Turn) (l : Line), (∀ i, r ≠ .ok (some i)) → (∀ i, t ≠ .got i) →
          Turned c tx w d (t, { d.setStore s with line := l }) := by
        intro t l hne ht
        rw [hs]
        exact .other ht (moves_missed l hn fun i => by rw [hr]; exact hne i) rfl
      cases r with
      | error e => cases e <;> exact hmissed _ _ nofun nofun
      | ok i? =>
        cases i? with
        | none => cases expired <;> exact hmissed _ _ nofun nofun
        | some i =>
          dsimp only
          rw [hs]
          exact .got _ (by rw [hr])
  · cases expired <;> exact .other nofun (Move.line _).moves rfl

theorem finish_eq (tx : TxId) {i : Nat} (l : Line) (hr : (d.store.pin w).1 = .ok (some i)) :
    ∃ b, (d.store.pin w).2.blockAt? i = some b ∧
      ({ d.setStore (d.store.pin w).2 with line := l }).finish tx w i =
        (.done (.ok i), { (d.setStore (d.store.pin w).2).record tx b i 1 with line := l }) := by
  cases w with
  | block b => exact ⟨b, Store.blockAt?_pin hr, rfl⟩
  | fresh file format =>
    obtain ⟨b, -, hb, -⟩ := Store.claim_ok hr
    have hi : (d.store.pin (.fresh file format)).2.blockAt? i = some b := (hb i).trans (if_pos rfl)
    refine ⟨b, hi, ?_⟩
    have hbo : ({ d.setStore (d.store.pin (.fresh file format)).2 with line := l }).blockOf? i =
        some b := hi
    simp only [finish, hbo]
    rfl

theorem fst_finish {i : Nat} (l : Line) (hr : (d.store.pin w).1 = .ok (some i)) :
    (({ d.setStore (d.store.pin w).2 with line := l }).finish tx w i).1 = .done (.ok i) := by
  obtain ⟨b, -, he⟩ := finish_eq tx l hr
  rw [he]

theorem served_finish {i : Nat} (l : Line) (hr : (d.store.pin w).1 = .ok (some i))
    (hin : ∀ j, (({ d.setStore (d.store.pin w).2 with line := l }).finish tx w i).1 =
      .done (.ok j) → w.Within c) :
    Served c tx w d (({ d.setStore (d.store.pin w).2 with line := l }).finish tx w i) := by
  have hw := hin i (fst_finish l hr)
  obtain ⟨b, hb, he⟩ := finish_eq tx l hr
  rw [he]
  exact ⟨(Move.got 1 hw hr hb).moves.after (Move.line l).moves,
    fun _ h => by rcases h with h | h <;> cases h⟩

def afterTurn (got : Nat → Desk → PinProgress × Desk) (ranOut asleep : Desk → PinProgress × Desk) :
    Turn × Desk → PinProgress × Desk
  | (.got i, d) => got i d
  | (.failed e, d) => (.done (.error e), d)
  | (.ranOut, d) => ranOut d
  | (.asleep, d) => asleep d

theorem served_afterTurn {v : Wanted} (hn : c.names v.file) (ticket : Nat) (expired : Bool)
    {got : Nat → Desk → PinProgress × Desk} {ranOut asleep : Desk → PinProgress × Desk}
    (hin : ∀ j, (afterTurn got ranOut asleep (d.turn ticket v expired)).1 = .done (.ok j) →
      w.Within c)
    (hgot : ∀ i l, (d.store.pin v).1 = .ok (some i) →
      (∀ j, (got i { d.setStore (d.store.pin v).2 with line := l }).1 = .done (.ok j) →
        w.Within c) →
      Served c tx w d (got i { d.setStore (d.store.pin v).2 with line := l }))
    (hran : ∀ d', d'.pins = d.pins → Served c tx w d' (ranOut d'))
    (hsleep : ∀ d', Served c tx w d' (asleep d')) :
    Served c tx w d (afterTurn got ranOut asleep (d.turn ticket v expired)) := by
  have ht := turned tx hn d ticket expired
  generalize d.turn ticket v expired = r at ht hin ⊢
  cases ht with
  | got l hr => exact hgot _ l hr hin
  | @other r d' ht m hp =>
    cases r with
    | got i => exact absurd rfl (ht i)
    | failed e => exact served_error m
    | ranOut => exact (hran d' hp).before m
    | asleep => exact (hsleep d').before m

theorem served_regain (hn : c.names w.file) (holds : List (BlockId × Nat))
    (hs : ∀ b ∈ holds.map Prod.fst, c.Has b)
    (hin : ∀ i, (regain tx w holds d).1 = .done (.ok i) → w.Within c) :
    Served c tx w d (regain tx w holds d) := by
  have hj : Moves c tx d [] d.join.2 := (Move.line _).moves
  induction holds generalizing d with
  | nil =>
    refine Served.before ?_ hj
    exact served_afterTurn hn _ _ hin
      (fun _ => served_finish)
      (fun d' _ => served_error (.refl d')) fun d' => served_waits (.refl d') rfl nofun
  | cons hold rest ih =>
    have hb : c.Has hold.1 := hs hold.1 List.mem_cons_self
    refine Served.before ?_ hj
    refine served_afterTurn (v := .block hold.1) hb.1 _ _ hin (fun i l hr hin => ?_)
      (fun d' _ => served_error (.refl d')) fun d' => served_waits (.refl d') rfl hs
    have hgot : Moves c tx d.join.2 [] ((d.join.2.setStore _).record tx hold.1 i hold.2) :=
      (Move.got (w := .block hold.1) hold.2 hb hr (Store.blockAt?_pin hr)).moves
    exact (ih (fun b hb => hs b (List.mem_cons_of_mem _ hb)) hin (Move.line _).moves).before
      (hgot.before (Move.line l).moves)

theorem served_giveUp (hh : ∀ b h, (d.pinsOf tx).holds.find? b = some h → c.Has b) :
    Served c tx w d (d.giveUp tx w) := by
  have hm : Moves c tx d [] ((d.setStore (unpinFrames (d.heldFrames tx) d.store).2).setPins tx
      { d.pinsOf tx with holds := .empty }) := Move.emptied.moves
  unfold giveUp
  dsimp only
  split
  · exact served_error hm
  · refine served_waits (hm.before (Move.line _).moves) rfl fun b hb => ?_
    obtain ⟨b', hb', rfl⟩ : ∃ b', b' ∈ (d.pinsOf tx).holds.keys ∧ b' = b := by
      simpa [Stage.blocks, Pins.counts, (d.pinsOf tx).perm_held.mem_iff] using hb
    obtain ⟨h, hh'⟩ := Option.isSome_iff_exists.1 ((Registry.find?_isSome_iff _ _).2 hb')
    exact hh _ h hh'

theorem served_giveUp_of_pins {d' : Desk} (hp : d'.pins = d.pins)
    (hh : ∀ b h, (d.pinsOf tx).holds.find? b = some h → c.Has b) :
    Served c tx w d' (d'.giveUp tx w) :=
  served_giveUp fun b h hb => hh b h (by rwa [pinsOf, hp] at hb)

theorem served_ask (hn : c.names w.file)
    (hh : ∀ b h, (d.pinsOf tx).holds.find? b = some h → c.Has b)
    (hin : ∀ i, (d.ask tx w).1 = .done (.ok i) → w.Within c) :
    Served c tx w d (d.ask tx w) := by
  unfold ask at hin ⊢
  split at hin
  · rename_i hfull
    rw [if_pos hfull]
    exact served_error (.refl d)
  · rename_i hfull
    rw [if_neg hfull]
    cases hr : d.store.pin w with
    | mk r s =>
      obtain rfl : s = (d.store.pin w).2 := by rw [hr]
      rw [hr] at hin
      have hne : (∀ i, r ≠ .ok (some i)) → Moves c tx d [] (d.setStore (d.store.pin w).2) :=
        fun hne => moves_missed d.line hn fun i => by rw [hr]; exact hne i
      cases r with
      | error e => exact served_error (hne nofun)
      | ok i? =>
        cases i? with
        | some i =>
          have hok : (d.store.pin w).1 = .ok (some i) := by rw [hr]
          exact served_finish d.line hok hin
        | none =>
          have hj : Moves c tx d [] (Desk.join (d.setStore (d.store.pin w).2)).2 :=
            (hne nofun).before (Move.line _).moves
          refine Served.before ?_ hj
          exact served_afterTurn hn _ _ hin
            (fun _ => served_finish)
            (fun d' hp => served_giveUp_of_pins (d := d) hp hh)
            fun d' => served_waits (.refl d') rfl nofun

theorem served_pin (hn : c.names w.file)
    (hh : ∀ b h, (d.pinsOf tx).holds.find? b = some h → c.Has b)
    (hin : ∀ i, (d.pin tx w).1 = .done (.ok i) → w.Within c) :
    Served c tx w d (d.pin tx w) := by
  cases w with
  | fresh file format => exact served_ask hn hh hin
  | block b =>
    simp only [Desk.pin] at hin ⊢
    cases hb : (d.pinsOf tx).holds.find? b with
    | none =>
      simp only [hb] at hin ⊢
      exact served_ask hn hh hin
    | some h =>
      exact ⟨(Move.recounted (h.refs + 1) hb).moves, fun _ h => by rcases h with h | h <;> cases h⟩

theorem served_resume {u : PinWait} {expired : Bool} (hn : c.names u.wanted.file)
    (hs : ∀ b ∈ u.stage.blocks, c.Has b)
    (hh : ∀ b h, (d.pinsOf tx).holds.find? b = some h → c.Has b)
    (hin : ∀ i, (d.resume tx u expired).1 = .done (.ok i) → u.wanted.Within c) :
    Served c tx u.wanted d (d.resume tx u expired) := by
  obtain ⟨w, stage⟩ := u
  have hheed : ∀ ticket, Moves c tx d [] { d with line := d.line.heed ticket } :=
    fun ticket => (Move.line _).moves
  cases stage with
  | pausing holds => exact served_regain hn holds hs hin
  | first ticket =>
    refine Served.before ?_ (hheed ticket)
    exact served_afterTurn hn _ _ hin
      (fun _ => served_finish)
      (fun d' hp => served_giveUp_of_pins (d := d) hp hh)
      fun d' => served_sleepsOn (.refl d') rfl nofun
  | last ticket =>
    refine Served.before ?_ (hheed ticket)
    exact served_afterTurn hn _ _ hin
      (fun _ => served_finish)
      (fun d' _ => served_error (.refl d')) fun d' => served_sleepsOn (.refl d') rfl nofun
  | regaining ticket b refs rest =>
    have hb : c.Has b := hs b List.mem_cons_self
    refine Served.before ?_ (hheed ticket)
    refine served_afterTurn (v := .block b) hb.1 _ _ hin (fun i l hr hin => ?_)
      (fun d' _ => served_error (.refl d')) fun d' => served_sleepsOn (.refl d') rfl hs
    have hgot : Moves c tx { d with line := d.line.heed ticket } []
        ((({ d with line := d.line.heed ticket } : Desk).setStore
          (d.store.pin (.block b)).2).record tx b i refs) :=
      (Move.got (w := .block b) refs hb hr (Store.blockAt?_pin hr)).moves
    exact (served_regain hn rest (fun b hb => hs b (List.mem_cons_of_mem _ hb)) hin).before
      (hgot.before (Move.line l).moves)

theorem moves_tellFree (d : Desk) : Moves c tx d [] d.tellFree := by
  unfold tellFree
  split
  · exact (Move.line _).moves
  · exact .refl d

theorem moves_unpin (d : Desk) (b : BlockId) : Moves c tx d [] (d.unpin tx b).2 := by
  unfold Desk.unpin
  dsimp only
  split
  · exact .refl d
  · rename_i h hb
    split
    · exact (Move.recounted (h.refs - 1) hb).moves
    · have hm : Moves c tx d [] ((d.setStore (d.store.unpin h.frame).2).setPins tx
          { d.pinsOf tx with holds := (d.pinsOf tx).holds.erase b }) := (Move.unpinned hb).moves
      split
      · exact hm
      · exact hm.before (moves_tellFree _)

/-- The frames that a transaction touched are forgotten only where it ends. -/
theorem moves_releaseAll (d : Desk) (hf : (d.releaseAll tx).1 = .ok () → c.finished tx) :
    Moves c tx d [] (d.releaseAll tx).2 := by
  unfold Desk.releaseAll at hf ⊢
  dsimp only at hf ⊢
  split at hf
  · rename_i h₀
    rw [if_pos h₀]
    exact .refl d
  · rename_i h₀
    rw [if_neg h₀]
    split at hf
    · exact Move.emptied.moves
    · exact (Move.released (hf rfl)).moves.before (moves_tellFree _)

theorem moves_flushTouched (d : Desk) (t : TxId) (frames : List Nat) :
    Moves c tx d [] (d.setStore (flushTouched t frames d.store).2) := by
  induction frames generalizing d with
  | nil => exact .refl d
  | cons i rest ih =>
    have hone : Moves c tx d [] (d.setStore (d.store.flushFrame i).2) := (Move.flushed i).moves
    unfold flushTouched
    split
    · cases hr : d.store.flushFrame i with
      | mk r s =>
        rw [hr] at hone
        cases r with
        | error e => exact hone
        | ok u => exact hone.before (ih (d.setStore s))
    · exact ih d

theorem moves_flushMine (d : Desk) (t : TxId) : Moves c tx d [] (d.flushMine t).2 :=
  moves_flushTouched d t _

theorem moves_flushWhere (d : Desk) (asked : Frame → Bool) :
    Moves c tx d [] (d.setStore (d.store.flushWhere asked).2) :=
  Store.flushWhere_induct (P := fun s => Moves c tx d [] (d.setStore s))
    (fun _ i hs => hs.before (Move.flushed i).moves) (.refl d) asked

end Desk

end PagedStore
