import PagedStore.Proofs.Lock.Steps

set_option autoImplicit false

/-!
Transactions that make calls at one lock table, in any interleaving: others come in between any two
requests of a call. Main statements: `Traffic.Sound.run` and `Traffic.advances_perform`.
-/

namespace PagedStore

namespace LockStep

def Asks (t : Target) (m : Mode) : LockStep → Prop
  | .acquire t' m' | .touch t' m' => t' = t ∧ m' = m
  | .drop _ _ => False

end LockStep

theorem LockTable.holds_of_take {l : LockTable} {tx u : TxId} {expired : Bool} {s : LockStep}
    {t : Target} {m : Mode} (h : ((l.take tx expired s).2.holders t).Holds u m) :
    (l.holders t).Holds u m ∨ (u = tx ∧ s.Asks t m) := by
  cases s with
  | acquire t' m' | touch t' m' =>
    have hlook : ((l.look t' tx m' false expired).2.holders t).Holds u m := by
      rw [← holders_ask]
      exact h
    rcases (holds_look ..).1 hlook with ho | ⟨rfl, rfl, rfl, -, -⟩
    · exact .inl ho
    · exact .inr ⟨rfl, rfl, rfl⟩
  | drop t' m' => exact .inl ((holds_revokeModes ..).1 h).1

/-- What a transaction of the level has of the mode it has to its end, unless it releases a
directory block. -/
def Isolation.Keeps (level : Isolation) (m : Mode) : Prop := m.isShared → level = .repeatableRead

theorem Mode.isShared_of_covers {m n : Mode} (hc : n.covers m) (hn : n.isShared) : m.isShared := by
  cases n <;> cases m <;> revert hc hn <;> decide

theorem Isolation.Keeps.of_covers {level : Isolation} {m n : Mode} (h : level.Keeps m)
    (hc : n.covers m) : level.Keeps n := fun hn => h (Mode.isShared_of_covers hc hn)

namespace Intent

def Drops (level : Isolation) (i : Intent) (t : Target) (m : Mode) : Prop :=
  ∃ s ∈ i.steps level, s.GivesUp t m

def Asks (level : Isolation) (i : Intent) (t : Target) (m : Mode) : Prop :=
  ∃ s ∈ i.steps level, s.Asks t m

/-- What can be left of the steps of an intent. -/
structure Left (level : Isolation) (i : Intent) (steps : List LockStep) : Prop where
  asked : ∀ s ∈ steps, ∀ t m, s.Asks t m → i.Asks level t m
  descends : steps.Pairwise fun s s' => s.target.depth ≤ s'.target.depth

theorem left_steps (level : Isolation) (i : Intent) : i.Left level (i.steps level) := by
  refine ⟨fun s hs t m ha => ⟨s, hs, ha⟩, ?_⟩
  cases i <;> cases level <;>
    simp [steps, coarse, changeBlock, changeRecord, LockStep.target, Target.depth]

/-- A release of a directory block gives up two modes on it; otherwise an intent gives up only what
a level does not keep. -/
theorem Drops.cases {level : Isolation} {i : Intent} {t : Target} {m : Mode}
    (h : i.Drops level t m) :
    ¬ level.Keeps m ∨ ∃ b, i = .directoryRelease b ∧ t = .block b ∧ (m = .s ∨ m = .x) := by
  obtain ⟨s, hs, hg⟩ := h
  rcases mem_steps hs with ⟨t', rfl⟩ | ⟨t', m', rfl⟩ | ⟨b, rfl, rfl | rfl⟩
  · cases level with
    | readCommitted =>
      obtain ⟨rfl, rfl⟩ := hg
      exact .inl fun hk => Isolation.noConfusion (hk rfl)
    | repeatableRead => exact hg.elim
  · exact hg.elim
  · exact .inr ⟨b, rfl, hg.1.symm, .inl hg.2.symm⟩
  · exact .inr ⟨b, rfl, hg.1.symm, .inr hg.2.symm⟩

namespace Left

variable {level : Isolation} {i : Intent} {s : LockStep} {rest : List LockStep}

theorem tail (h : i.Left level (s :: rest)) : i.Left level rest :=
  ⟨fun s' hs' => h.asked s' (List.mem_cons_of_mem s hs'), (List.pairwise_cons.1 h.descends).2⟩

theorem leaves (h : i.Left level (s :: rest)) (tx : TxId) (l : LockTable) :
    i.Left level (s.leaves tx l ++ rest) := by
  cases s with
  | acquire t m => exact h.tail
  | drop t m => exact h.tail
  | touch t m =>
    rw [LockStep.leaves]
    split
    · exact h.tail
    · refine ⟨fun s' hs' t' m' ha => ?_, List.pairwise_cons.2 (List.pairwise_cons.1 h.descends)⟩
      rcases List.mem_cons.1 hs' with rfl | hs'
      · exact ha.elim
      · exact h.tail.asked s' hs' t' m' ha

theorem waits (h : i.Left level (s :: rest)) (ha : s.Asks s.target s.mode) (tx : TxId)
    (l : LockTable) : i.Left level (.acquire s.target s.mode :: (s.leaves tx l ++ rest)) := by
  have hl := h.leaves tx l
  refine ⟨fun s' hs' t m ha' => ?_, List.pairwise_cons.2 ⟨fun s' hs' => ?_, hl.descends⟩⟩
  · rcases List.mem_cons.1 hs' with rfl | hs'
    · obtain ⟨rfl, rfl⟩ := ha'
      exact h.asked s List.mem_cons_self _ _ ha
    · exact hl.asked s' hs' t m ha'
  · rcases List.mem_append.1 hs' with hs' | hs'
    · obtain ⟨rfl, -⟩ := LockStep.GivesUp.of_leaves hs'
      exact Nat.le_refl _
    · exact (List.pairwise_cons.1 h.descends).1 s' hs'

end Left

end Intent

/-- A call that is not over. When the request that sleeps under the ticket, if there is one, has
what it asked for, the rest is to be done. -/
structure Call where
  intent : Intent
  rest : List LockStep
  ticket? : Option Nat := none
  deriving DecidableEq

/-- A lock table and the calls that transactions have under way at it, one each. -/
structure Traffic where
  table : LockTable
  calls : Registry TxId Call := .empty

/-- What can happen between transactions and a lock table. -/
inductive CallMove where
  | call (tx : TxId) (i : Intent)
  /-- A call makes its next request or release. `expired` says that a request may not wait. -/
  | advance (tx : TxId) (expired : Bool)
  /-- The request that a call waits for looks again. -/
  | relook (tx : TxId) (expired : Bool)
  | finish (tx : TxId)
  | endStatement (tx : TxId)
  | releaseAll (tx : TxId)
  | deliver
  deriving DecidableEq

namespace Traffic

def blank (place : Target → Nat) (anchors maxWait capacity : Nat) : Traffic :=
  { table := .blank place anchors maxWait capacity }

def settle (σ : Traffic) (tx : TxId) (c : Call) (ticket : Nat) : Verdict × LockTable → Traffic
  | (.granted, l) => ⟨l, σ.calls.insert tx c⟩
  | (.waits, l) => ⟨l, σ.calls.insert tx { c with ticket? := some ticket }⟩
  | (.wounded, l) | (.timedOut, l) => ⟨l, σ.calls.erase tx⟩

variable (level : TxId → Isolation)

/-- What is not possible is not done. -/
def step (σ : Traffic) : CallMove → Traffic
  | .call tx i =>
    match σ.calls.find? tx with
    | none => { σ with calls := σ.calls.insert tx { intent := i, rest := i.steps (level tx) } }
    | some _ => σ
  | .advance tx expired =>
    match σ.calls.find? tx with
    | some ⟨i, s :: rest, none⟩ =>
      σ.settle tx { intent := i, rest := s.leaves tx σ.table ++ rest } σ.table.nextTicket
        (σ.table.take tx expired s)
    | _ => σ
  | .relook tx expired =>
    match σ.calls.find? tx with
    | some ⟨i, rest, some ticket⟩ =>
      match σ.table.sleeper? ticket with
      | some s => σ.settle tx { intent := i, rest } ticket (σ.table.relook s expired)
      | none => σ
    | _ => σ
  | .finish tx =>
    match σ.calls.find? tx with
    | some ⟨_, [], none⟩ => { σ with calls := σ.calls.erase tx }
    | _ => σ
  | .endStatement tx =>
    match σ.calls.find? tx with
    | none => { σ with table := σ.table.endStatement (level tx) tx }
    | some _ => σ
  | .releaseAll tx =>
    match σ.calls.find? tx with
    | none => { σ with table := σ.table.releaseAll tx false }
    | some _ => σ
  | .deliver => { σ with table := σ.table.deliver }

def run (σ : Traffic) (moves : List CallMove) : Traffic := moves.foldl (step level) σ

theorem run_append (σ : Traffic) (moves moves' : List CallMove) :
    σ.run level (moves ++ moves') = (σ.run level moves).run level moves' := List.foldl_append

inductive Shift (σ : Traffic) : CallMove → Traffic → Prop
  | idle (move : CallMove) : Shift σ move σ
  | begin {tx : TxId} (i : Intent) (h : σ.calls.find? tx = none) : Shift σ (.call tx i)
      ⟨σ.table, σ.calls.insert tx { intent := i, rest := i.steps (level tx) }⟩
  | took {tx : TxId} {i : Intent} {s : LockStep} {rest : List LockStep} (expired : Bool)
      (h : σ.calls.find? tx = some { intent := i, rest := s :: rest }) :
      Shift σ (.advance tx expired) (σ.settle tx
        { intent := i, rest := s.leaves tx σ.table ++ rest } σ.table.nextTicket
        (σ.table.take tx expired s))
  | looked {tx : TxId} {i : Intent} {rest : List LockStep} {ticket : Nat} {s : Sleeper}
      (expired : Bool) (h : σ.calls.find? tx = some ⟨i, rest, some ticket⟩)
      (hs : σ.table.sleeper? ticket = some s) : Shift σ (.relook tx expired)
        (σ.settle tx { intent := i, rest } ticket (σ.table.relook s expired))
  | finish {tx : TxId} {i : Intent} (h : σ.calls.find? tx = some { intent := i, rest := [] }) :
      Shift σ (.finish tx) ⟨σ.table, σ.calls.erase tx⟩
  | endStatement {tx : TxId} (h : σ.calls.find? tx = none) (hl : level tx = .readCommitted) :
      Shift σ (.endStatement tx) ⟨σ.table.releaseAll tx true, σ.calls⟩
  | releaseAll {tx : TxId} (h : σ.calls.find? tx = none) :
      Shift σ (.releaseAll tx) ⟨σ.table.releaseAll tx false, σ.calls⟩
  | deliver : Shift σ .deliver ⟨σ.table.deliver, σ.calls⟩

theorem shift_step (σ : Traffic) (move : CallMove) : Shift level σ move (σ.step level move) := by
  cases move with
  | call tx i =>
    simp only [step]
    split
    · rename_i h
      exact .begin i h
    · exact .idle _
  | advance tx expired =>
    simp only [step]
    split
    · rename_i h
      exact .took expired h
    · exact .idle _
  | relook tx expired =>
    simp only [step]
    split
    · rename_i h
      split
      · rename_i hs
        exact .looked expired h hs
      · exact .idle _
    · exact .idle _
  | finish tx =>
    simp only [step]
    split
    · rename_i h
      exact .finish h
    · exact .idle _
  | endStatement tx =>
    simp only [step]
    split
    · rename_i h
      cases hl : level tx with
      | readCommitted => exact .endStatement h hl
      | repeatableRead => exact .idle _
    · exact .idle _
  | releaseAll tx =>
    simp only [step]
    split
    · rename_i h
      exact .releaseAll h
    · exact .idle _
  | deliver => exact .deliver

end Traffic

namespace CallMove

def mover? : CallMove → Option TxId
  | .call tx _ | .advance tx _ | .relook tx _ | .finish tx | .endStatement tx | .releaseAll tx =>
    some tx
  | .deliver => none

end CallMove

namespace Traffic

/-- The move may take the mode: in a call whose intent gives it up, or in a release of more. -/
def Takes (level : TxId → Isolation) (σ : Traffic) (u : TxId) (t : Target) (m : Mode) :
    CallMove → Prop
  | .advance tx _ =>
    tx = u ∧ ∃ c, σ.calls.find? tx = some c ∧ c.intent.Drops (level tx) t m
  | .endStatement tx => tx = u ∧ level tx = .readCommitted ∧ m.isShared ∧ σ.calls.find? tx = none
  | .releaseAll tx => tx = u ∧ σ.calls.find? tx = none
  | .call .. | .relook .. | .finish _ | .deliver => False

theorem Takes.mover {level : TxId → Isolation} {σ : Traffic} {u : TxId} {t : Target} {m : Mode}
    {move : CallMove} (h : σ.Takes level u t m move) : move.mover? = some u := by
  cases move with
  | advance tx expired => exact congrArg some h.1
  | endStatement tx => exact congrArg some h.1
  | releaseAll tx => exact congrArg some h.1
  | _ => exact h.elim

end Traffic

def Call.Going (level : Isolation) (l : LockTable) (tx : TxId) (c : Call) : Prop :=
  match c.ticket? with
  | none => l.Underway tx (c.intent.Drops level) (c.intent.steps level) c.rest ∧
      c.intent.Left level c.rest
  | some ticket => l.Parked tx (c.intent.Drops level) (c.intent.steps level) ticket c.rest ∧
      ∀ s, l.sleeper? ticket = some s →
        c.intent.Left level (.acquire s.target s.mode :: c.rest)

theorem Call.Going.beside {level : Isolation} {l l' : LockTable} {tx : TxId} {c : Call}
    {gone : TxId → Target → Mode → Prop} (h : c.Going level l tx) (hl : l.Loses gone l')
    (hgone : ∀ t m, ¬ gone tx t m) : c.Going level l' tx := by
  obtain ⟨i, rest, ticket?⟩ := c
  cases ticket? with
  | none => exact ⟨h.1.beside hl hgone, h.2⟩
  | some ticket =>
    refine ⟨h.1.loses hl (fun _ _ => id) fun t m hg => absurd hg (hgone t m), fun s' hs' => ?_⟩
    obtain ⟨s, hs, -, -, ht, hm⟩ := hl.recalls.sleeper ticket h.1.issued s' hs'
    rw [ht, hm]
    exact h.2 s hs

namespace Traffic

/-- What holds between any two moves. -/
structure Sound (level : TxId → Isolation) (σ : Traffic) : Prop where
  compatible : σ.table.Compatible
  numbered : σ.table.Numbered
  indexed : σ.table.Indexed
  going : ∀ tx c, σ.calls.find? tx = some c → c.Going (level tx) σ.table tx

theorem sound_blank (level : TxId → Isolation) (place : Target → Nat)
    (anchors maxWait capacity : Nat) : (blank place anchors maxWait capacity).Sound level where
  compatible := LockTable.compatible_blank place anchors maxWait capacity
  numbered := fun s hs => by cases hs
  indexed := fun t a m hm => absurd hm Holders.not_holds_none
  going := fun tx c hc => by cases hc

variable {level : TxId → Isolation} {σ τ : Traffic} {move : CallMove} {tx : TxId}

theorem table_settle (σ : Traffic) (tx : TxId) (c : Call) (ticket : Nat)
    (r : Verdict × LockTable) : (σ.settle tx c ticket r).table = r.2 := by
  obtain ⟨v, l⟩ := r
  cases v <;> rfl

theorem calls_settle_of_ne (σ : Traffic) {u : TxId} (hne : u ≠ tx) (c : Call) (ticket : Nat)
    (r : Verdict × LockTable) : (σ.settle tx c ticket r).calls.find? u = σ.calls.find? u := by
  obtain ⟨v, l⟩ := r
  cases v with
  | granted | waits => exact Registry.find?_insert_of_ne _ _ hne
  | wounded | timedOut => exact Registry.find?_erase_of_ne _ hne

theorem Shift.calls_of_ne (h : Shift level σ move τ) {u : TxId} (hne : move.mover? ≠ some u) :
    τ.calls.find? u = σ.calls.find? u := by
  have hu : ∀ {tx}, move.mover? = some tx → u ≠ tx := by
    rintro tx hm rfl
    exact hne hm
  cases h with
  | idle => rfl
  | begin i h => exact Registry.find?_insert_of_ne _ _ (hu rfl)
  | took expired h => exact σ.calls_settle_of_ne (hu rfl) ..
  | looked expired h hs => exact σ.calls_settle_of_ne (hu rfl) ..
  | finish h => exact Registry.find?_erase_of_ne _ (hu rfl)
  | endStatement h hl => rfl
  | releaseAll h => rfl
  | deliver => rfl

theorem mem_filter_isShared {m : Mode} (h : m ∈ LockTable.given true) : m.isShared :=
  (List.mem_filter.1 h).2

theorem Sound.underway (h : σ.Sound level) {i : Intent} {rest : List LockStep}
    (hc : σ.calls.find? tx = some { intent := i, rest }) :
    σ.table.Underway tx (i.Drops (level tx)) (i.steps (level tx)) rest ∧ i.Left (level tx) rest :=
  h.going tx _ hc

theorem Sound.parked (h : σ.Sound level) {i : Intent} {rest : List LockStep} {ticket : Nat}
    (hc : σ.calls.find? tx = some ⟨i, rest, some ticket⟩) :
    σ.table.Parked tx (i.Drops (level tx)) (i.steps (level tx)) ticket rest ∧
      ∀ s, σ.table.sleeper? ticket = some s →
        i.Left (level tx) (.acquire s.target s.mode :: rest) :=
  h.going tx _ hc

def InCall (σ : Traffic) (u : TxId) (i : Intent) : Prop :=
  ∃ c, σ.calls.find? u = some c ∧ c.intent = i

inductive Moved (level : TxId → Isolation) (σ : Traffic) (u : TxId) :
    LockTable → CallMove → Call → Prop
  | stays {c : Call} (move : CallMove) (h : σ.calls.find? u = some c) :
      Moved level σ u σ.table move c
  | begun (i : Intent) :
      Moved level σ u σ.table (.call u i) { intent := i, rest := i.steps (level u) }
  | went {i : Intent} {s : LockStep} {rest : List LockStep} {expired : Bool} {l : LockTable}
      (h : σ.calls.find? u = some { intent := i, rest := s :: rest })
      (ht : σ.table.take u expired s = (.granted, l)) : Moved level σ u l (.advance u expired)
        { intent := i, rest := s.leaves u σ.table ++ rest }
  | slept {i : Intent} {s : LockStep} {rest : List LockStep} {expired : Bool} {l : LockTable}
      (h : σ.calls.find? u = some { intent := i, rest := s :: rest })
      (ht : σ.table.take u expired s = (.waits, l)) : Moved level σ u l (.advance u expired)
        ⟨i, s.leaves u σ.table ++ rest, some σ.table.nextTicket⟩
  | woke {i : Intent} {rest : List LockStep} {ticket : Nat} {s : Sleeper} {expired : Bool}
      {l : LockTable} (h : σ.calls.find? u = some ⟨i, rest, some ticket⟩)
      (hs : σ.table.sleeper? ticket = some s) (hr : σ.table.relook s expired = (.granted, l)) :
      Moved level σ u l (.relook u expired) { intent := i, rest }
  | sleptOn {i : Intent} {rest : List LockStep} {ticket : Nat} {s : Sleeper} {expired : Bool}
      {l : LockTable} (h : σ.calls.find? u = some ⟨i, rest, some ticket⟩)
      (hs : σ.table.sleeper? ticket = some s) (hr : σ.table.relook s expired = (.waits, l)) :
      Moved level σ u l (.relook u expired) ⟨i, rest, some ticket⟩

theorem Shift.moved (h : Shift level σ move τ) {u : TxId} (hm : move.mover? = some u) {c : Call}
    (hc : τ.calls.find? u = some c) : Moved level σ u τ.table move c := by
  have hinsert : ∀ {c' : Call}, (σ.calls.insert u c').find? u = some c → c = c' := fun h =>
    (Option.some.inj ((Registry.find?_insert_self ..).symm.trans h)).symm
  have herase : ¬ (σ.calls.erase u).find? u = some c := fun h => by
    cases (Registry.find?_erase_self ..).symm.trans h
  cases h with
  | idle => exact .stays move hc
  | begin i hfree =>
    obtain rfl := (Option.some.inj hm).symm
    obtain rfl := hinsert hc
    exact .begun i
  | @took _ i s rest expired hfirst =>
    obtain rfl := (Option.some.inj hm).symm
    cases ht : σ.table.take u expired s with
    | mk v l =>
      rw [ht] at hc
      cases v with
      | granted =>
        obtain rfl := hinsert hc
        exact .went hfirst ht
      | waits =>
        obtain rfl := hinsert hc
        exact .slept hfirst ht
      | wounded | timedOut => exact absurd hc herase
  | @looked _ i rest ticket s expired hsleeps hs =>
    obtain rfl := (Option.some.inj hm).symm
    cases hr : σ.table.relook s expired with
    | mk v l =>
      rw [hr] at hc
      cases v with
      | granted =>
        obtain rfl := hinsert hc
        exact .woke hsleeps hs hr
      | waits =>
        obtain rfl := hinsert hc
        exact .sleptOn hsleeps hs hr
      | wounded | timedOut => exact absurd hc herase
  | finish hdone =>
    obtain rfl := (Option.some.inj hm).symm
    exact absurd hc herase
  | endStatement hfree _ | releaseAll hfree =>
    obtain rfl := (Option.some.inj hm).symm
    cases hfree.symm.trans hc
  | deliver => cases hm

theorem Moved.inCall {u : TxId} {l : LockTable} {c : Call} (h : Moved level σ u l move c) :
    σ.InCall u c.intent ∨ move = .call u c.intent := by
  cases h with
  | begun i => exact .inr rfl
  | stays _ h => exact .inl ⟨c, h, rfl⟩
  | went h _ | slept h _ | woke h _ _ | sleptOn h _ _ => exact .inl ⟨_, h, rfl⟩

theorem Shift.inCall (h : Shift level σ move τ) {u : TxId} {i : Intent} (hi : τ.InCall u i) :
    σ.InCall u i ∨ move = .call u i := by
  obtain ⟨c, hc, rfl⟩ := hi
  by_cases hm : move.mover? = some u
  · exact (h.moved hm hc).inCall
  · exact .inl ⟨c, h.calls_of_ne hm ▸ hc, rfl⟩

/-- What a level keeps is taken only by a release of everything and by that of a directory block. -/
theorem Takes.cases {u : TxId} {t : Target} {m : Mode} (h : σ.Takes level u t m move)
    (hk : (level u).Keeps m) : (move = .releaseAll u ∧ σ.calls.find? u = none) ∨
      ∃ b, t = .block b ∧ (m = .s ∨ m = .x) ∧ σ.InCall u (.directoryRelease b) := by
  cases move with
  | advance tx expired =>
    obtain ⟨rfl, c, hc, hd⟩ := h
    rcases hd.cases with hno | ⟨b, hi, ht, hm⟩
    · exact absurd hk hno
    · exact .inr ⟨b, ht, hm, c, hc, hi⟩
  | endStatement tx =>
    obtain ⟨rfl, hl, hm, -⟩ := h
    exact Isolation.noConfusion (hl.symm.trans (hk hm))
  | releaseAll tx =>
    obtain ⟨rfl, hc⟩ := h
    exact .inl ⟨rfl, hc⟩
  | _ => exact h.elim

theorem Sound.loses (h : σ.Sound level) (hs : Shift level σ move τ) :
    σ.table.Loses (fun u t m => σ.Takes level u t m move) τ.table := by
  cases hs with
  | idle => exact .refl _
  | begin i h => exact .refl _
  | @took tx i s rest expired hc =>
    rw [table_settle]
    refine ((h.underway hc).1.loses_first (Prod.eta _).symm).mono ?_
    rintro u t m ⟨rfl, hd⟩
    exact ⟨rfl, _, hc, hd⟩
  | @looked tx i rest ticket s expired hc hs =>
    rw [table_settle]
    exact (σ.table.loses_relook hs expired).mono fun u t m => False.elim
  | finish hc => exact .refl _
  | endStatement hc hl =>
    exact .one _ (.releaseAll _ true) fun u t m ⟨hu, hm⟩ => ⟨hu, hl, mem_filter_isShared hm, hc⟩
  | releaseAll hc => exact .one _ (.releaseAll _ false) fun u t m ⟨hu, _⟩ => ⟨hu, hc⟩
  | deliver => exact .one _ .deliver fun u t m ht => ht.elim

theorem Sound.going_moved (h : σ.Sound level) {l : LockTable} {c : Call}
    (hm : Moved level σ tx l move c) : c.Going (level tx) l tx := by
  cases hm with
  | stays _ hc => exact h.going tx c hc
  | begun i => exact ⟨σ.table.underway_begin fun s hs t m hg => ⟨s, hs, hg⟩, i.left_steps _⟩
  | went hc ht =>
    obtain ⟨hu, hleft⟩ := h.underway hc
    exact ⟨hu.granted ht, hleft.leaves ..⟩
  | @slept i s rest expired l hc ht =>
    obtain ⟨hu, hleft⟩ := h.underway hc
    refine ⟨hu.waits h.numbered ht, fun s' hs' => ?_⟩
    cases s with
    | drop t m => cases ht
    | acquire t m | touch t m =>
      have hask : σ.table.ask t tx m expired = (.waits, l) := ht
      have hsleep := (LockTable.sleeper?_ask h.numbered (congrArg Prod.fst hask)).2
      rw [hask] at hsleep
      obtain rfl := Option.some.inj (hsleep.symm.trans hs')
      exact hleft.waits ⟨rfl, rfl⟩ _ _
  | woke hc hs hr =>
    obtain ⟨hp, hleft⟩ := h.parked hc
    exact ⟨hp.granted hs hr, (hleft _ hs).tail⟩
  | @sleptOn i rest ticket s expired l hc hs hr =>
    have hl := σ.table.loses_relook hs expired
    rw [hr] at hl
    exact (h.going _ _ hc).beside hl fun _ _ => id

theorem Sound.step (h : σ.Sound level) (hs : Shift level σ move τ) : τ.Sound level where
  compatible := (h.loses hs).compatible h.compatible
  numbered := h.numbered.of_recalls (h.loses hs).recalls
  indexed := (h.loses hs).indexed h.indexed
  going := fun u c hc => by
    by_cases hm : move.mover? = some u
    · exact h.going_moved (hs.moved hm hc)
    · rw [hs.calls_of_ne hm] at hc
      exact (h.going u c hc).beside (h.loses hs) fun t m ht => hm ht.mover

/-- A new mode was asked for by the step that comes first in a call of its holder, or by the request
that the call waits for. -/
theorem Sound.gains (h : σ.Sound level) (hs : Shift level σ move τ) {u : TxId} {t : Target}
    {m : Mode} (hm : (τ.table.holders t).Holds u m) : (σ.table.holders t).Holds u m ∨
      ∃ i s rest, σ.InCall u i ∧ s.Asks t m ∧ i.Left (level u) (s :: rest) ∧
        σ.table.Underway u (i.Drops (level u)) (i.steps (level u)) (s :: rest) := by
  cases hs with
  | idle => exact .inl hm
  | begin i hfree => exact .inl hm
  | @took tx i s rest expired hfirst =>
    rw [table_settle] at hm
    rcases LockTable.holds_of_take hm with ho | ⟨rfl, ha⟩
    · exact .inl ho
    · obtain ⟨hu, hleft⟩ := h.underway hfirst
      exact .inr ⟨i, s, rest, ⟨_, hfirst, rfl⟩, ha, hleft, hu⟩
  | @looked tx i rest ticket s expired hsleeps hs =>
    rw [table_settle, LockTable.holders_relook] at hm
    rcases (LockTable.holds_look ..).1 hm with ho | ⟨rfl, rfl, rfl, -, -⟩
    · exact .inl ho
    · obtain ⟨hp, hleft⟩ := h.parked hsleeps
      obtain ⟨rfl, hu⟩ := hp.underway s hs
      exact .inr ⟨i, .acquire s.target s.mode, rest, ⟨_, hsleeps, rfl⟩, ⟨rfl, rfl⟩, hleft s hs, hu⟩
  | finish hdone => exact .inl hm
  | endStatement hfree _ | releaseAll hfree =>
    exact .inl ((LockTable.holds_releaseAll ..).1 hm).1
  | deliver =>
    rw [LockTable.holders_deliver] at hm
    exact .inl hm

theorem Sound.run (h : σ.Sound level) (moves : List CallMove) :
    (σ.run level moves).Sound level := by
  induction moves generalizing σ with
  | nil => exact h
  | cons move moves ih => exact ih (h.step (σ.shift_step level move))

def performed (σ : Traffic) (tx : TxId) (i : Intent) : LockProgress × LockTable → Traffic
  | (.done, l) => ⟨l, σ.calls.insert tx { intent := i, rest := [] }⟩
  | (.waits ticket rest, l) => ⟨l, σ.calls.insert tx ⟨i, rest, some ticket⟩⟩
  | (.failed _, l) => ⟨l, σ.calls.erase tx⟩

def Advances (level : TxId → Isolation) (tx : TxId) (σ τ : Traffic) : Prop :=
  ∃ moves : List CallMove, (∀ move ∈ moves, ∃ expired, move = .advance tx expired) ∧
    σ.run level moves = τ

theorem Advances.refl (level : TxId → Isolation) (tx : TxId) (σ : Traffic) :
    Advances level tx σ σ := ⟨[], nofun, rfl⟩

theorem Advances.snoc {σ τ υ : Traffic} {expired : Bool} (h : Advances level tx σ τ)
    (hs : τ.step level (.advance tx expired) = υ) : Advances level tx σ υ := by
  obtain ⟨moves, hall, rfl⟩ := h
  refine ⟨moves ++ [.advance tx expired], fun move hm => ?_,
    (run_append level σ moves [.advance tx expired]).trans hs⟩
  rcases List.mem_append.1 hm with hm | hm
  · exact hall move hm
  · exact ⟨expired, List.mem_singleton.1 hm⟩

/-- An operation that takes its steps at one go does what a call does that advances. -/
theorem advances_perform (level : TxId → Isolation) (σ : Traffic) (i : Intent)
    (steps : List LockStep) (l : LockTable) :
    Advances level tx ⟨l, σ.calls.insert tx { intent := i, rest := steps }⟩
      (σ.performed tx i (l.perform tx steps)) := by
  have hstep : ∀ {s rest l' v l''}, LockTable.take l' tx l'.impatient s = (v, l'') →
      step level ⟨l', σ.calls.insert tx { intent := i, rest := s :: rest }⟩
        (.advance tx l'.impatient) = σ.settle tx { intent := i, rest := s.leaves tx l' ++ rest }
          l'.nextTicket (v, l'') := by
    intro s rest l' v l'' ht
    simp only [step, Registry.find?_insert_self, ht]
    cases v <;> simp only [settle, Registry.insert_insert, Registry.erase_insert]
  refine LockTable.perform_induct tx
    (q := fun steps' l' => Advances level tx _ ⟨l', σ.calls.insert tx ⟨i, steps', none⟩⟩)
    (p := fun r => Advances level tx _ (σ.performed tx i r))
    (fun _ hq => hq) (fun s rest l' l'' hq ht => hq.snoc (hstep ht))
    (fun s rest l' l'' hq ht => hq.snoc (hstep ht)) (fun s rest l' v l'' err hq ht herr => ?_)
    (.refl level tx _)
  refine hq.snoc ((hstep ht).trans ?_)
  cases v with
  | granted => cases herr
  | waits => cases herr
  | wounded => rfl
  | timedOut => rfl

end Traffic

end PagedStore
