import PagedStore.Proofs.Lock.Calls

set_option autoImplicit false

/-!
Releases of directory blocks. Main statement: `lasting_locks`. What a call has taken and its level
keeps stays until the transaction releases everything, but for the two modes that a release of a
directory block gives up: those go, whoever took them (`not_lasting_locks`).
-/

namespace PagedStore

namespace Traffic

variable {level : TxId → Isolation} {σ τ : Traffic} {move : CallMove} {u : TxId} {b : BlockId}

theorem InCall.eq {i j : Intent} (h : σ.InCall u i) (h' : σ.InCall u j) : i = j := by
  obtain ⟨c, hc, rfl⟩ := h
  obtain ⟨c', hc', rfl⟩ := h'
  rw [Option.some.inj (hc.symm.trans hc')]

theorem not_asks_release {level : Isolation} {t : Target} {m : Mode} :
    ¬ (Intent.directoryRelease b).Asks level t m := by
  rintro ⟨s, hs, ha⟩
  simp only [Intent.steps, List.mem_cons, List.not_mem_nil, or_false] at hs
  rcases hs with rfl | rfl <;> exact ha

theorem Sound.holds_run (h : σ.Sound level) {moves : List CallMove} {t : Target} {m : Mode}
    (hk : (level u).Keeps m) (hall : .releaseAll u ∉ moves)
    (hblock : ∀ b, t = .block b → m = .s ∨ m = .x →
      ¬ σ.InCall u (.directoryRelease b) ∧ .call u (.directoryRelease b) ∉ moves)
    (hm : (σ.table.holders t).Holds u m) : ((σ.run level moves).table.holders t).Holds u m := by
  induction moves generalizing σ with
  | nil => exact hm
  | cons move moves ih =>
    have hs := σ.shift_step level move
    refine ih (h.step hs) (fun hr => hall (List.mem_cons_of_mem move hr)) (fun b ht hsx => ?_) ?_
    · obtain ⟨hno, hcall⟩ := hblock b ht hsx
      refine ⟨fun hi => ?_, fun hc => hcall (List.mem_cons_of_mem move hc)⟩
      rcases hs.inCall hi with hi | rfl
      · exact hno hi
      · exact hcall List.mem_cons_self
    · refine (h.loses hs).holds (fun ht => ?_) hm
      rcases ht.cases hk with ⟨rfl, -⟩ | ⟨b, ht, hsx, hi⟩
      · exact hall List.mem_cons_self
      · exact (hblock b ht hsx).1 hi

/-- What a transaction has it had before, or a call has asked for it since. -/
theorem Sound.gains_run (h : σ.Sound level) {moves : List CallMove} {t : Target} {m : Mode}
    (hm : ((σ.run level moves).table.holders t).Holds u m) : (σ.table.holders t).Holds u m ∨
      ∃ i : Intent, (σ.InCall u i ∨ .call u i ∈ moves) ∧ i.Asks (level u) t m := by
  induction moves generalizing σ with
  | nil => exact .inl hm
  | cons move moves ih =>
    have hs := σ.shift_step level move
    rcases ih (h.step hs) hm with hm | ⟨i, hi | hi, ha⟩
    · rcases h.gains hs hm with hm | ⟨i, s, rest, hi, ha, hleft, -⟩
      · exact .inl hm
      · exact .inr ⟨i, .inl hi, hleft.asked s List.mem_cons_self t m ha⟩
    · rcases hs.inCall hi with hi | rfl
      · exact .inr ⟨i, .inl hi, ha⟩
      · exact .inr ⟨i, .inr List.mem_cons_self, ha⟩
    · exact .inr ⟨i, .inr (List.mem_cons_of_mem move hi), ha⟩

theorem Sound.holds_of_release (h : σ.Sound level) (hs : Shift level σ move τ)
    (hi : σ.InCall u (.directoryRelease b)) {t : Target} {m : Mode}
    (hm : (τ.table.holders t).Holds u m) : (σ.table.holders t).Holds u m := by
  rcases h.gains hs hm with hm | ⟨i, s, rest, hi', ha, hleft, -⟩
  · exact hm
  · obtain rfl := hi'.eq hi
    exact absurd (hleft.asked s List.mem_cons_self t m ha) not_asks_release

/-- How far a release of a block is. -/
structure Frees (l : LockTable) (u : TxId) (b : BlockId) (c : Call) : Prop where
  awake : c.ticket? = none
  within : ∀ s ∈ c.rest, ∃ m, s = .drop (.block b) m
  given : ∀ m, m = .s ∨ m = .x →
    .drop (.block b) m ∈ c.rest ∨ ¬ (l.holders (.block b)).Holds u m

theorem Frees.went {l l' : LockTable} {i : Intent} {s : LockStep} {rest : List LockStep}
    {expired : Bool} (h : Frees l u b { intent := i, rest := s :: rest })
    (ht : l.take u expired s = (.granted, l')) :
    Frees l' u b { intent := i, rest := s.leaves u l ++ rest } := by
  obtain ⟨-, hwithin, hgiven⟩ := h
  obtain ⟨m, rfl⟩ := hwithin s List.mem_cons_self
  obtain rfl : l.release (.block b) u m = l' := congrArg Prod.snd ht
  refine ⟨rfl, fun s hs => hwithin s (List.mem_cons_of_mem _ hs), fun n hsx => ?_⟩
  by_cases hnm : n = m
  · subst hnm
    exact .inr fun hn => ((LockTable.holds_revokeModes ..).1 hn).2
      ⟨rfl, rfl, List.mem_singleton_self n⟩
  · refine (hgiven n hsx).imp (fun hmem => ?_) fun hno hn =>
      hno ((LockTable.holds_revokeModes ..).1 hn).1
    rcases List.mem_cons.1 hmem with he | hmem
    · cases he
      exact absurd rfl hnm
    · exact hmem

def Releases (σ : Traffic) : Prop :=
  ∀ u c b, σ.calls.find? u = some c → c.intent = .directoryRelease b → Frees σ.table u b c

theorem Releases.moved (hr : σ.Releases) {l : LockTable} {c : Call}
    (hm : Moved level σ u l move c) (hi : c.intent = .directoryRelease b) : Frees l u b c := by
  cases hm with
  | stays _ hc => exact hr u c b hc hi
  | begun i =>
    obtain rfl : i = .directoryRelease b := hi
    exact ⟨rfl, by simp [Intent.steps], by simp [Intent.steps]⟩
  | @went i s rest expired l hfirst ht => exact (hr u _ b hfirst hi).went ht
  | @slept i s rest expired l hfirst ht =>
    obtain ⟨m, rfl⟩ := (hr u _ b hfirst hi).within s List.mem_cons_self
    cases ht
  | woke hsleeps _ _ | sleptOn hsleeps _ _ => cases (hr u _ b hsleeps hi).awake

theorem Sound.releases_step (h : σ.Sound level) (hr : σ.Releases) (hs : Shift level σ move τ) :
    τ.Releases := by
  intro u c b hc hi
  by_cases hm : move.mover? = some u
  · exact hr.moved (hs.moved hm hc) hi
  · rw [hs.calls_of_ne hm] at hc
    obtain ⟨hawake, hwithin, hgiven⟩ := hr u c b hc hi
    exact ⟨hawake, hwithin, fun m hsx => (hgiven m hsx).imp_right fun hno hm =>
      hno (h.holds_of_release hs ⟨c, hc, hi⟩ hm)⟩

theorem Sound.releases_run (h : σ.Sound level) (hr : σ.Releases) (moves : List CallMove) :
    (σ.run level moves).Releases := by
  induction moves generalizing σ with
  | nil => exact hr
  | cons move moves ih =>
    have hs := σ.shift_step level move
    exact ih (h.step hs) (h.releases_step hr hs)

end Traffic

/-- When a call returns, its transaction has each mode that the call asked for and its level keeps,
or one that covers it. It has that mode until it releases everything, unless the mode is shared or
exclusive, on a block, and the transaction releases the block: when that release returns, both modes
on the block are gone, whatever call had taken them. All that a transaction has on a target it had
before, or a call has asked for it since. -/
theorem lasting_locks (level : TxId → Isolation) (place : Target → Nat)
    (anchors maxWait capacity : Nat) (before after : List CallMove) (tx : TxId) :
    let σ := (Traffic.blank place anchors maxWait capacity).run level before
    let τ := (Traffic.blank place anchors maxWait capacity).run level (before ++ after)
    (∀ i t m, σ.calls.find? tx = some { intent := i, rest := [] } →
      .acquire t m ∈ i.steps (level tx) → (level tx).Keeps m → .releaseAll tx ∉ after →
      ∃ n, n.covers m ∧ (σ.table.holders t).Holds tx n ∧
        ((∀ b, t = .block b → n = .s ∨ n = .x → .call tx (.directoryRelease b) ∉ after) →
          (τ.table.holders t).Holds tx n)) ∧
    (∀ b, τ.calls.find? tx = some { intent := .directoryRelease b, rest := [] } →
      ¬ (τ.table.holders (.block b)).Holds tx .s ∧ ¬ (τ.table.holders (.block b)).Holds tx .x) ∧
    (∀ t n, (τ.table.holders t).Holds tx n → (σ.table.holders t).Holds tx n ∨
      ∃ i : Intent, (σ.InCall tx i ∨ .call tx i ∈ after) ∧ i.Asks (level tx) t n) := by
  have hblank := Traffic.sound_blank level place anchors maxWait capacity
  have h := hblank.run before
  intro σ τ
  have hτ : τ = σ.run level after := Traffic.run_append ..
  refine ⟨fun i t m hdone hask hk hall => ?_, fun b hdone => ?_, fun t n hn => ?_⟩
  · have hi : ∀ b, i ≠ .directoryRelease b := by
      rintro b rfl
      simp [Intent.steps] at hask
    obtain ⟨n, hn, hcovers⟩ : ∃ n, (σ.table.holders t).Holds tx n ∧ n.covers m := by
      rcases (h.underway hdone).1.owed t m hask with hmem | hc | ⟨n, hcovers, hd⟩
      · cases hmem
      · exact Holders.covers_iff.1 hc
      · rcases hd.cases with hno | ⟨b, he, -⟩
        · exact absurd (hk.of_covers hcovers) hno
        · exact absurd he (hi b)
    refine ⟨n, hcovers, hn, fun hblock => hτ ▸ h.holds_run (hk.of_covers hcovers) hall ?_ hn⟩
    exact fun b ht hsx => ⟨fun hr => hi b (hr.eq ⟨_, hdone, rfl⟩).symm, hblock b ht hsx⟩
  · have hr : τ.Releases := hblank.releases_run (fun u c b hc => by cases hc) (before ++ after)
    have hgiven := (hr tx _ b hdone rfl).given
    exact ⟨(hgiven .s (.inl rfl)).resolve_left List.not_mem_nil,
      (hgiven .x (.inr rfl)).resolve_left List.not_mem_nil⟩
  · exact h.gains_run (hτ ▸ hn)

/-- A directory block is read and then its child changed. -/
def childChanged : List CallMove :=
  [.call ⟨1⟩ (.directoryRead ⟨"i", 0⟩), .advance ⟨1⟩ false, .advance ⟨1⟩ false, .finish ⟨1⟩,
    .call ⟨1⟩ (.leafChange ⟨"i", 1⟩), .advance ⟨1⟩ false, .advance ⟨1⟩ false]

def parentReleased : List CallMove :=
  [.finish ⟨1⟩, .call ⟨1⟩ (.directoryRelease ⟨"i", 0⟩), .advance ⟨1⟩ false, .advance ⟨1⟩ false]

/-- The child stays locked. -/
theorem lasting_locks_child :
    let σ := (Traffic.blank Target.spread 1 10000 1).run (fun _ => .repeatableRead) childChanged
    let τ := (Traffic.blank Target.spread 1 10000 1).run (fun _ => .repeatableRead)
      (childChanged ++ parentReleased)
    σ.calls.find? ⟨1⟩ = some { intent := .leafChange ⟨"i", 1⟩, rest := [] } ∧
      ∃ n : Mode, n.covers .x ∧ (τ.table.holders (.block ⟨"i", 1⟩)).Holds ⟨1⟩ n := by
  have hdone : ((Traffic.blank Target.spread 1 10000 1).run (fun _ => .repeatableRead)
      childChanged).calls.find? ⟨1⟩ = some { intent := .leafChange ⟨"i", 1⟩, rest := [] } := by
    decide +kernel
  obtain ⟨n, hcovers, -, hlasts⟩ := (lasting_locks (fun _ => .repeatableRead) Target.spread 1 10000
    1 childChanged parentReleased ⟨1⟩).1 (.leafChange ⟨"i", 1⟩) (.block ⟨"i", 1⟩) .x hdone
    (by decide) nofun (by decide)
  refine ⟨hdone, n, hcovers, hlasts fun b hb _ hcall => ?_⟩
  cases hb
  exact absurd hcall (by decide)

def blockChanged : List CallMove :=
  [.call ⟨1⟩ (.blockChange ⟨"i", 0⟩), .advance ⟨1⟩ false, .advance ⟨1⟩ false]

def readThere : List CallMove :=
  [.finish ⟨1⟩, .call ⟨1⟩ (.directoryRead ⟨"i", 0⟩), .advance ⟨1⟩ false, .advance ⟨1⟩ false,
    .advance ⟨1⟩ false]

/-- The lock of a block that was changed goes with a reading that had not locked anything. -/
theorem not_lasting_locks :
    let run := fun level => (Traffic.blank Target.spread 1 10000 1).run fun _ => level
    ∀ level ∈ [Isolation.readCommitted, .repeatableRead],
      let σ := run level blockChanged
      let τ := run level (blockChanged ++ readThere)
      let υ := run level (blockChanged ++ readThere ++ parentReleased)
      σ.calls.find? ⟨1⟩ = some { intent := .blockChange ⟨"i", 0⟩, rest := [] } ∧
        σ.table.modesOf (.block ⟨"i", 0⟩) ⟨1⟩ = [.x] ∧
        τ.calls.find? ⟨1⟩ = some { intent := .directoryRead ⟨"i", 0⟩, rest := [] } ∧
        τ.table.modesOf (.block ⟨"i", 0⟩) ⟨1⟩ = [.x] ∧
        υ.calls.find? ⟨1⟩ = some { intent := .directoryRelease ⟨"i", 0⟩, rest := [] } ∧
        υ.table.modesOf (.block ⟨"i", 0⟩) ⟨1⟩ = [] := by
  decide +kernel

end PagedStore
