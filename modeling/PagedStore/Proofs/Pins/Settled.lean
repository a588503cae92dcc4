import PagedStore.Proofs.Pins.Balanced

set_option autoImplicit false

/-!
What a request for a frame leaves of the accounts. Main statements: `Desk.settles_pin` and
`Desk.settles_resume`. A request that has to wait stands in line under its own ticket and can take
back all that it gave up, and a request that does not wait stands in line no more.
-/

namespace PagedStore

def PinProgress.wait? : PinProgress → Option PinWait
  | .done _ => none
  | .waits u | .sleepsOn u => some u

def Stage.ticket? : Stage → Option Nat
  | .pausing _ => none
  | .first ticket | .regaining ticket _ _ _ | .last ticket => some ticket

namespace Desk

variable {size : Nat} {tx : TxId} {d d' : Desk} {w : Wanted}

structure Awaits (d : Desk) (tx : TxId) (u : PinWait) : Prop where
  distinct : u.stage.blocks.Nodup
  given : ∀ b ∈ u.stage.blocks, (d.pinsOf tx).holds.find? b = none ∧ d.Has b
  wanted : ∀ b, u.wanted = .block b →
    (d.pinsOf tx).holds.find? b = none ∧ b ∉ u.stage.blocks

theorem Awaits.of_pinsOf {u : PinWait} (h : d.Awaits tx u) (hp : d'.pinsOf tx = d.pinsOf tx)
    (hg : ∀ n, d.store.media.disk.blocks n ≤ d'.store.media.disk.blocks n) : d'.Awaits tx u where
  distinct := h.distinct
  given b hb := by
    rw [hp]
    exact ⟨(h.given b hb).1, Nat.lt_of_lt_of_le (h.given b hb).2 (hg b.file)⟩
  wanted b hb := by
    rw [hp]
    exact h.wanted b hb

/-- What is taken for granted of an answer: nothing crashed, and a block that was got lies inside
its file. -/
structure Fair (d : Desk) (w : Wanted) (r : PinProgress × Desk) : Prop where
  whole : ∀ c, r.1 ≠ .done (.error (.crash c))
  inside : ∀ b i, w = .block b → r.1 = .done (.ok i) → d.Has b

theorem Fair.later {r : PinProgress × Desk} (h : d.Fair w r) (hf : Follows size tx d d') :
    d'.Fair w r := ⟨h.whole, fun b i hb hi => hf.has (h.inside b i hb hi)⟩

/-- A request of `tx` that was in line under the ticket `own` came to an answer. Only if it has to
wait does a ticket of its own stay in the line. -/
structure Settles (size : Nat) (tx : TxId) (w : Wanted) (own : Option Nat) (d : Desk)
    (r : PinProgress × Desk) : Prop where
  follows : Follows size tx d r.2
  awaits : ∀ u, r.1.wait? = some u → u.wanted = w ∧ r.2.Awaits tx u
  queued : ∀ k ∈ r.2.line.tickets, (k ∈ d.line.tickets ∧ own ≠ some k) ∨
    ∃ u, r.1.wait? = some u ∧ u.stage.ticket? = some k

variable {own own' : Option Nat} {r : PinProgress × Desk}

theorem Settles.before (h : Settles size tx w own' d' r) (hf : Follows size tx d d')
    (hq : ∀ k ∈ d'.line.tickets, own' = some k ∨ (k ∈ d.line.tickets ∧ own ≠ some k)) :
    Settles size tx w own d r where
  follows := hf.trans h.follows
  awaits := h.awaits
  queued k hk := by
    rcases h.queued k hk with ⟨hk', hne⟩ | hu
    · exact .inl ((hq k hk').resolve_left hne)
    · exact .inr hu

theorem settles_done {q : Outcome Nat} (hf : Follows size tx d d')
    (hq : ∀ k ∈ d'.line.tickets, k ∈ d.line.tickets ∧ own ≠ some k) :
    Settles size tx w own d (.done q, d') := ⟨hf, nofun, fun k hk => .inl (hq k hk)⟩

theorem settles_wait {u : PinWait} {p : PinProgress} {ticket : Nat} (h : d.Balanced size)
    (hp : p.wait? = some u) (ht : u.stage.ticket? = some ticket) (hw : u.wanted = w)
    (ha : d.Awaits tx u) : Settles size tx w (some ticket) d (p, d) := by
  refine ⟨h.refl, fun v hv => ?_, fun k hk => ?_⟩
  · obtain rfl : u = v := Option.some.inj (hp.symm.trans hv)
    exact ⟨hw, ha⟩
  · by_cases hkt : k = ticket
    · exact .inr ⟨u, hp, hkt ▸ ht⟩
    · exact .inl ⟨hk, fun he => hkt (Option.some.inj he).symm⟩

inductive Looked (size : Nat) (tx : TxId) (w : Wanted) (ticket : Nat) (d : Desk) :
    Turn × Desk → Prop
  | got {i : Nat} (hr : (d.store.pin w).1 = .ok (some i)) :
      Looked size tx w ticket d (.got i, (d.setStore (d.store.pin w).2).leave ticket)
  | crashed {c : Crash} {d' : Desk} : Looked size tx w ticket d (.failed (.crash c), d')
  | left {t : Turn} {d' : Desk} (ht : ∀ i, t ≠ .got i) (ha : t ≠ .asleep)
      (hf : Follows size tx d d') (hp : d'.pins = d.pins) (hl : d'.line = d.line) :
      Looked size tx w ticket d (t, d'.leave ticket)
  | stayed {d' : Desk} (hf : Follows size tx d d') (hp : d'.pins = d.pins)
      (hl : d'.line = d.line) : Looked size tx w ticket d (.asleep, d')

theorem Balanced.looked (h : d.Balanced size) (tx : TxId) (w : Wanted) (ticket : Nat)
    (expired : Bool) : Looked size tx w ticket d (d.turn ticket w expired) := by
  have hidle : ∀ s : Store, Follows size tx d (d.setStore s) → Looked size tx w ticket d
      (if expired then (.ranOut, (d.setStore s).leave ticket) else (.asleep, d.setStore s)) := by
    intro s hf
    cases expired with
    | true => exact .left nofun nofun hf rfl rfl
    | false => exact .stayed hf rfl rfl
  unfold turn
  dsimp only
  split
  · cases hr : d.store.pin w with
    | mk r s =>
      obtain rfl : s = (d.store.pin w).2 := by rw [hr]
      have hmissed : (∀ i, r ≠ .ok (some i)) → (∀ c, r ≠ .error (.crash c)) →
          Follows size tx d (d.setStore (d.store.pin w).2) := fun hne hc =>
        h.missed (by rw [hr]; exact hne) (by rw [hr]; exact hc)
      cases r with
      | error e =>
        cases e with
        | error e => exact .left nofun nofun (hmissed nofun nofun) rfl rfl
        | crash c => exact .crashed
        | endless =>
          have hne := h.even.truthful.pin_ne_endless h.even.fitted w
          rw [hr] at hne
          exact absurd rfl hne
      | ok i? =>
        cases i? with
        | none => exact hidle _ (hmissed nofun nofun)
        | some i => exact .got (by rw [hr])
  · exact hidle d.store h.refl

theorem settles_finish (h : d.Balanced size) (hw : ∀ b, w = .block b →
    (d.pinsOf tx).holds.find? b = none) {i : Nat} {l : Line} (hl : l.Measured)
    (hr : (d.store.pin w).1 = .ok (some i))
    (hq : ∀ k ∈ l.tickets, k ∈ d.line.tickets ∧ own ≠ some k)
    (hfair : d.Fair w (({ d.setStore (d.store.pin w).2 with line := l }).finish tx w i)) :
    Settles size tx w own d (({ d.setStore (d.store.pin w).2 with line := l }).finish tx w i) := by
  have hdone : (finish _ tx w i).1 = .done (.ok i) := fst_finish l hr
  obtain ⟨b, hb, he⟩ := finish_eq tx l hr
  rw [he]
  obtain ⟨hfree, hin⟩ : (d.pinsOf tx).holds.find? b = none ∧
      b.number < (d.store.pin w).2.media.disk.blocks b.file := by
    cases w with
    | block x =>
      obtain rfl : x = b := Option.some.inj ((Store.blockAt?_pin hr).symm.trans hb)
      exact ⟨hw x rfl, Nat.lt_of_lt_of_le (hfair.inside x i rfl hdone) ((h.grown_pin _).2 _)⟩
    | fresh file format =>
      obtain ⟨n, hn, hle, hlt⟩ := Store.blockAt?_claim_fresh h.even.pos hr
      obtain rfl : ⟨file, n⟩ = b := Option.some.inj (hn.symm.trans hb)
      refine ⟨Option.eq_none_iff_forall_ne_some.2 fun k hk => ?_, hlt⟩
      exact Nat.not_lt.2 hle (h.inside tx _ k hk)
  have hgot := h.got 1 hr hfree hin
  exact settles_done (hgot.trans (hgot.balanced.line hl)) hq

theorem settles_afterTurn (h : d.Balanced size) (v : Wanted) {ticket : Nat} {expired : Bool}
    (got : Nat → Desk → PinProgress × Desk) (ranOut asleep : Desk → PinProgress × Desk)
    (hfair : d.Fair w (afterTurn got ranOut asleep (d.turn ticket v expired)))
    (hgot : ∀ i, (d.store.pin v).1 = .ok (some i) →
      d.Fair w (got i ((d.setStore (d.store.pin v).2).leave ticket)) →
      Settles size tx w (some ticket) d (got i ((d.setStore (d.store.pin v).2).leave ticket)))
    (hran : ∀ d', d'.Balanced size → d'.pins = d.pins → Settles size tx w none d' (ranOut d'))
    (hsleep : ∀ d', Follows size tx d d' → d'.pins = d.pins →
      Settles size tx w (some ticket) d' (asleep d')) :
    Settles size tx w (some ticket) d (afterTurn got ranOut asleep (d.turn ticket v expired)) := by
  have hl := h.looked tx v ticket expired
  generalize d.turn ticket v expired = r at hl hfair ⊢
  cases hl with
  | got hr => exact hgot _ hr hfair
  | crashed => exact absurd rfl (hfair.whole _)
  | @left t d' ht ha hf hp hl =>
    have hleave : Follows size tx d (d'.leave ticket) := hf.trans (hf.balanced.leave ticket)
    have hq : ∀ k ∈ (d'.leave ticket).line.tickets, k ∈ d.line.tickets ∧ some ticket ≠ some k :=
      fun k hk => hl ▸ mem_tickets_leave hk
    cases t with
    | got i => exact absurd rfl (ht i)
    | asleep => exact absurd rfl ha
    | failed e => exact settles_done hleave hq
    | ranOut =>
      exact (hran _ hleave.balanced hp).before hleave fun k hk => .inr (hq k hk)
  | stayed hf hp hl =>
    refine (hsleep _ hf hp).before hf fun k hk => ?_
    rw [hl] at hk
    by_cases hkt : ticket = k
    · exact .inl (congrArg some hkt)
    · exact .inr ⟨hk, fun he => hkt (Option.some.inj he)⟩

theorem Settles.join (h : Settles size tx w (some d.join.1) d.join.2 r) (hd : d.Balanced size) :
    Settles size tx w none d r := by
  refine h.before (hd.line (Line.measured_join _)) fun k hk => ?_
  rcases Line.mem_tickets_join.1 hk with hk | rfl
  · exact .inr ⟨hk, nofun⟩
  · exact .inl rfl

theorem Balanced.heed (h : d.Balanced size) (ticket : Nat)
    (hs : Settles size tx w (some ticket) { d with line := d.line.heed ticket } r) :
    Settles size tx w (some ticket) d r := by
  refine hs.before (h.line (h.measured.heed ticket)) fun k hk => ?_
  rw [Line.tickets_heed] at hk
  by_cases hkt : ticket = k
  · exact .inl (congrArg some hkt)
  · exact .inr ⟨hk, fun he => hkt (Option.some.inj he)⟩

theorem Follows.wait (h : Follows size tx d d') (hp : d'.pins = d.pins) {u : PinWait}
    {p : PinProgress} {ticket : Nat} (hu : p.wait? = some u) (ht : u.stage.ticket? = some ticket)
    (hw : u.wanted = w) (ha : d.Awaits tx u) : Settles size tx w (some ticket) d' (p, d') :=
  settles_wait h.balanced hu ht hw (ha.of_pinsOf (pinsOf_congr hp tx) h.grown)

theorem Balanced.exhausted (h : d.Balanced size) (target : String) :
    Settles size tx w none d (exhausted tx target, d) := settles_done h.refl fun _ hk => ⟨hk, nofun⟩

theorem Awaits.join {u : PinWait} (ha : d.Awaits tx u) (h : d.Balanced size) :
    Follows size tx d d.join.2 ∧ d.join.2.Awaits tx u := by
  have hj : Follows size tx d d.join.2 := h.line (Line.measured_join _)
  exact ⟨hj, ha.of_pinsOf rfl hj.grown⟩

theorem Awaits.record {stage : Stage} {b : BlockId} {i refs : Nat} {rest : List (BlockId × Nat)}
    (h : d.Awaits tx ⟨w, stage⟩) (hb : stage.blocks = b :: rest.map Prod.fst)
    (hf : Follows size tx d (d'.record tx b i refs)) (hp : d'.pins = d.pins) :
    (d'.record tx b i refs).Awaits tx ⟨w, .pausing rest⟩ := by
  obtain ⟨hdistinct, hgiven, hwanted⟩ := h
  rw [hb] at hdistinct hgiven hwanted
  obtain ⟨hnot, hdistinct⟩ := List.nodup_cons.1 hdistinct
  have hfind : ∀ x, x ≠ b → ((d'.record tx b i refs).pinsOf tx).holds.find? x =
      (d.pinsOf tx).holds.find? x := fun x hx => by
    rw [Desk.record, pinsOf_setPins_self, pinsOf_congr hp]
    exact Registry.find?_insert_of_ne _ _ hx
  refine ⟨hdistinct, fun x hx => ?_, fun x hx => ?_⟩
  · obtain ⟨hfree, hin⟩ := hgiven x (List.mem_cons_of_mem b hx)
    rw [hfind x fun he => hnot (he ▸ hx)]
    exact ⟨hfree, hf.has hin⟩
  · obtain ⟨hfree, hx'⟩ := hwanted x hx
    rw [List.mem_cons, not_or] at hx'
    rw [hfind x hx'.1]
    exact ⟨hfree, hx'.2⟩

theorem Awaits.regained {stage : Stage} {b : BlockId} {refs ticket : Nat}
    {rest : List (BlockId × Nat)} (h : d.Awaits tx ⟨w, stage⟩)
    (hb : stage.blocks = b :: rest.map Prod.fst) (hd : d.Balanced size) {i : Nat}
    (hr : (d.store.pin (.block b)).1 = .ok (some i)) :
    let d' := ((d.setStore (d.store.pin (.block b)).2).leave ticket).record tx b i refs
    Follows size tx d d' ∧ d'.Awaits tx ⟨w, .pausing rest⟩ := by
  have hmem : b ∈ stage.blocks := hb ▸ List.mem_cons_self
  obtain ⟨hfree, hin⟩ := h.given b hmem
  have hgot := hd.got refs hr hfree (Nat.lt_of_lt_of_le hin ((hd.grown_pin _).2 _))
  have hf := hgot.trans (hgot.balanced.leave ticket)
  exact ⟨hf, h.record hb hf rfl⟩

theorem settles_regain (h : d.Balanced size) {holds : List (BlockId × Nat)}
    (ha : d.Awaits tx ⟨w, .pausing holds⟩) (hfair : d.Fair w (regain tx w holds d)) :
    Settles size tx w none d (regain tx w holds d) := by
  induction holds generalizing d with
  | nil =>
    obtain ⟨hj, ha'⟩ := ha.join h
    refine Settles.join ?_ h
    refine settles_afterTurn hj.balanced w (fun i d => d.finish tx w i)
      (fun d => (Desk.exhausted tx w.text, d)) (fun d => (.waits ⟨w, .last _⟩, d))
      (hfair.later hj) (fun i hr hfair => ?_)
      (fun d' hd _ => hd.exhausted _) fun d' hf hp => hf.wait hp rfl rfl rfl ⟨ha'.1, ha'.2, ha'.3⟩
    exact settles_finish hj.balanced (fun b hb => (ha'.wanted b hb).1)
      (Line.measured_leave ..).wakeHead hr (fun k hk => mem_tickets_leave hk) hfair
  | cons hold rest ih =>
    obtain ⟨hj, ha'⟩ := ha.join h
    refine Settles.join ?_ h
    refine settles_afterTurn hj.balanced (.block hold.1)
      (fun i d => regain tx w rest (d.record tx hold.1 i hold.2))
      (fun d => (Desk.exhausted tx hold.1.text, d))
      (fun d => (.waits ⟨w, .regaining _ hold.1 hold.2 rest⟩, d)) (hfair.later hj)
      (fun i hr hfair => ?_) (fun d' hd _ => hd.exhausted _)
      fun d' hf hp => hf.wait hp rfl rfl rfl ⟨ha'.1, ha'.2, ha'.3⟩
    obtain ⟨hf, hrest⟩ := ha'.regained rfl hj.balanced hr
    exact (ih hf.balanced hrest (hfair.later hf)).before hf fun k hk => .inr (mem_tickets_leave hk)

theorem settles_giveUp (h : d.Balanced size)
    (hw : ∀ b, w = .block b → (d.pinsOf tx).holds.find? b = none) :
    Settles size tx w none d (d.giveUp tx w) := by
  obtain ⟨hok, hf⟩ := h.emptied tx (d.pinsOf tx).touched
  have hkeys := (d.pinsOf tx).keys_counts
  have hwake := hf.trans (hf.balanced.line (Line.Measured.wakeHead h.measured))
  unfold giveUp
  rw [heldFrames] at hok
  simp only [hok]
  refine ⟨hwake, ?_, fun k hk => .inl ⟨?_, fun hu => by cases hu⟩⟩
  · rintro u ⟨⟩
    have hnone : ∀ b, (({ d with store := (unpinFrames (d.heldFrames tx) d.store).2 }.setPins tx
        { d.pinsOf tx with holds := .empty }).pinsOf tx).holds.find? b = none := fun b => by
      rw [pinsOf_setPins_self]
      rfl
    refine ⟨rfl, ⟨?_, fun b hb => ⟨hnone b, ?_⟩, fun b hb => ⟨hnone b, fun hb' => ?_⟩⟩⟩
    · show ((d.pinsOf tx).counts.map Prod.fst).Nodup
      rw [hkeys]
      exact (d.pinsOf tx).nodup_held
    · replace hb : b ∈ (d.pinsOf tx).held := hkeys ▸ hb
      obtain ⟨k, hk⟩ := Pins.mem_held.1 hb
      exact hwake.has (h.inside tx b k hk)
    · replace hb' : b ∈ (d.pinsOf tx).held := hkeys ▸ hb'
      obtain ⟨k, hk⟩ := Pins.mem_held.1 hb'
      rw [hw b hb] at hk
      cases hk
  · exact (Line.tickets_wakeHead d.line) ▸ hk

theorem settles_giveUp_of_pins (h : d'.Balanced size) (hp : d'.pins = d.pins)
    (hw : ∀ b, w = .block b → (d.pinsOf tx).holds.find? b = none) :
    Settles size tx w none d' (d'.giveUp tx w) :=
  settles_giveUp h fun b hb => by rw [pinsOf_congr hp, hw b hb]

theorem settles_ask (h : d.Balanced size)
    (hw : ∀ b, w = .block b → (d.pinsOf tx).holds.find? b = none)
    (hfair : d.Fair w (d.ask tx w)) : Settles size tx w none d (d.ask tx w) := by
  unfold ask at hfair ⊢
  split at hfair
  · rename_i hfull
    rw [if_pos hfull]
    exact h.exhausted _
  · rename_i hfull
    rw [if_neg hfull]
    cases hr : d.store.pin w with
    | mk r s =>
      obtain rfl : s = (d.store.pin w).2 := by rw [hr]
      rw [hr] at hfair
      have hmissed : (∀ i, r ≠ .ok (some i)) → (∀ c, r ≠ .error (.crash c)) →
          Follows size tx d (d.setStore (d.store.pin w).2) := fun hne hc =>
        h.missed (by rw [hr]; exact hne) (by rw [hr]; exact hc)
      cases r with
      | error e =>
        refine settles_done (hmissed nofun fun c hc => ?_) fun k hk => ⟨hk, nofun⟩
        exact hfair.whole c (congrArg _ (congrArg _ (Except.error.inj hc)))
      | ok i? =>
        cases i? with
        | some i =>
          exact settles_finish (l := d.line) h hw h.measured (by rw [hr]) (fun k hk => ⟨hk, nofun⟩)
            hfair
        | none =>
          have hf := hmissed nofun nofun
          have hj : Follows size tx d (Desk.join (d.setStore (d.store.pin w).2)).2 :=
            hf.trans (hf.balanced.line (Line.measured_join _))
          refine Settles.before (Settles.join ?_ hf.balanced) hf fun k hk => .inr ⟨hk, nofun⟩
          refine settles_afterTurn hj.balanced w (fun i d => d.finish tx w i)
            (fun d => d.giveUp tx w) (fun d => (.waits ⟨w, .first _⟩, d))
            (hfair.later hj) (fun i hr hfair => ?_)
            (fun d' hd hp => settles_giveUp_of_pins (d := d) hd hp hw)
            fun d' hf hp =>
              hf.wait hp rfl rfl rfl ⟨List.nodup_nil, nofun, fun b hb => ⟨hw b hb, nofun⟩⟩
          exact settles_finish hj.balanced hw (Line.measured_leave ..).wakeHead hr
            (fun k hk => mem_tickets_leave hk) hfair

theorem settles_pin (h : d.Balanced size) (hfair : d.Fair w (d.pin tx w)) :
    Settles size tx w none d (d.pin tx w) := by
  cases w with
  | fresh file format => exact settles_ask h (fun _ hb => by cases hb) hfair
  | block b =>
    simp only [Desk.pin] at hfair ⊢
    cases hb : (d.pinsOf tx).holds.find? b with
    | none =>
      simp only [hb] at hfair ⊢
      exact settles_ask h (fun x hx => by cases hx; exact hb) hfair
    | some k =>
      exact settles_done (h.recounted (k.refs + 1) hb) fun _ hk => ⟨hk, fun hu => by cases hu⟩

theorem settles_resume {u : PinWait} {expired : Bool} (h : d.Balanced size) (ha : d.Awaits tx u)
    (hfair : d.Fair u.wanted (d.resume tx u expired)) :
    Settles size tx u.wanted u.stage.ticket? d (d.resume tx u expired) := by
  obtain ⟨w, stage⟩ := u
  have hheed : ∀ ticket, Follows size tx d { d with line := d.line.heed ticket } := fun ticket =>
    h.line (h.measured.heed ticket)
  have hfree : ∀ b, w = .block b → (d.pinsOf tx).holds.find? b = none := fun b hb =>
    (ha.wanted b hb).1
  cases stage with
  | pausing holds => exact settles_regain h ha hfair
  | first ticket =>
    refine h.heed ticket ?_
    refine settles_afterTurn (hheed ticket).balanced w (fun i d => d.finish tx w i)
      (fun d => d.giveUp tx w) (fun d => (.sleepsOn ⟨w, .first ticket⟩, d))
      (hfair.later (hheed ticket)) (fun i hr hfair => ?_)
      (fun d' hd hp => settles_giveUp_of_pins (d := d) hd hp hfree)
      fun d' hf hp => hf.wait hp rfl rfl rfl (ha.of_pinsOf rfl (hheed ticket).grown)
    exact settles_finish (hheed ticket).balanced hfree (Line.measured_leave ..).wakeHead hr
      (fun k hk => mem_tickets_leave hk) hfair
  | last ticket =>
    refine h.heed ticket ?_
    refine settles_afterTurn (hheed ticket).balanced w (fun i d => d.finish tx w i)
      (fun d => (Desk.exhausted tx w.text, d)) (fun d => (.sleepsOn ⟨w, .last ticket⟩, d))
      (hfair.later (hheed ticket)) (fun i hr hfair => ?_) (fun d' hd _ => hd.exhausted _)
      fun d' hf hp => hf.wait hp rfl rfl rfl (ha.of_pinsOf rfl (hheed ticket).grown)
    exact settles_finish (hheed ticket).balanced hfree (Line.measured_leave ..).wakeHead hr
      (fun k hk => mem_tickets_leave hk) hfair
  | regaining ticket b refs rest =>
    have ha' : Awaits { d with line := d.line.heed ticket } tx
        ⟨w, .regaining ticket b refs rest⟩ := ha.of_pinsOf rfl (hheed ticket).grown
    refine h.heed ticket ?_
    refine settles_afterTurn (hheed ticket).balanced (.block b)
      (fun i d => regain tx w rest (d.record tx b i refs))
      (fun d => (Desk.exhausted tx b.text, d))
      (fun d => (.sleepsOn ⟨w, .regaining ticket b refs rest⟩, d))
      (hfair.later (hheed ticket)) (fun i hr hfair => ?_) (fun d' hd _ => hd.exhausted _)
      fun d' hf hp => hf.wait hp rfl rfl rfl ha'
    obtain ⟨hf, hrest⟩ := ha'.regained rfl (hheed ticket).balanced hr
    exact (settles_regain hf.balanced hrest (hfair.later hf)).before hf
      fun k hk => .inr (mem_tickets_leave hk)
end Desk

end PagedStore
