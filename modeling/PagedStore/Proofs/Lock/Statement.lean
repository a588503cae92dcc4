import PagedStore.Proofs.Lock.Directory

set_option autoImplicit false

/-!
Statements at the level read committed. Main statement: `statement_restores`. What a statement has
taken for reading goes when it ends, and nothing else: reads leave what their transaction holds as
it was, and changes add the modes that they were granted.
-/

namespace PagedStore

namespace Intent

def isRead : Intent → Bool
  | .fileRead _ | .blockRead _ | .recordRead _ => true
  | .indexRead _ | .leafRead _ | .directoryRead _ => true
  | .fileChange _ | .blockChange _ | .recordChange _ => false
  | .indexChange _ | .leafChange _ | .directoryChange _ | .directoryRelease _ => false

def isChange : Intent → Bool
  | .fileChange _ | .blockChange _ | .recordChange _ => true
  | .indexChange _ | .leafChange _ | .directoryChange _ => true
  | .fileRead _ | .blockRead _ | .recordRead _ => false
  | .indexRead _ | .leafRead _ | .directoryRead _ | .directoryRelease _ => false

variable {level : Isolation} {i : Intent} {t : Target} {m : Mode}

theorem Asks.isShared (ha : i.Asks level t m) (hi : i.isRead) : m.isShared := by
  obtain ⟨s, hs, ha⟩ := ha
  have hall : ∀ s ∈ i.steps level, s.mode.isShared := by
    cases i <;> cases level <;> simp [isRead, steps, coarse, LockStep.mode, Mode.isShared] at hi ⊢
  cases s with
  | acquire t' m' | touch t' m' => exact ha.2 ▸ hall _ hs
  | drop t' m' => exact ha.elim

theorem Asks.ofChange (ha : i.Asks level t m) (hi : i.isChange) : m = .ix ∨ m = .x := by
  obtain ⟨s, hs, ha⟩ := ha
  have hall : ∀ s ∈ i.steps level, s.mode = .ix ∨ s.mode = .x := by
    cases i <;>
      simp [isChange, steps, changeBlock, changeRecord, LockStep.mode] at hi ⊢
  cases s with
  | acquire t' m' | touch t' m' => exact ha.2 ▸ hall _ hs
  | drop t' m' => exact ha.elim

end Intent

namespace Traffic

inductive Grants (σ : Traffic) (tx : TxId) : CallMove → Target → Mode → Prop
  | taken {i : Intent} {s : LockStep} {rest : List LockStep} {expired : Bool} {t : Target}
      {m : Mode} (hc : σ.calls.find? tx = some { intent := i, rest := s :: rest })
      (ha : s.Asks t m) (hv : (σ.table.take tx expired s).1 = .granted) :
      Grants σ tx (.advance tx expired) t m
  | woken {i : Intent} {rest : List LockStep} {ticket : Nat} {s : Sleeper} {expired : Bool}
      (hc : σ.calls.find? tx = some ⟨i, rest, some ticket⟩)
      (hs : σ.table.sleeper? ticket = some s) (hv : (σ.table.relook s expired).1 = .granted) :
      Grants σ tx (.relook tx expired) s.target s.mode

variable {level : TxId → Isolation} {σ : Traffic} {move : CallMove} {moves : List CallMove}
  {tx : TxId} {t : Target} {m : Mode}

theorem Sound.covers_of_grants (h : σ.Sound level) (hg : σ.Grants tx move t m) :
    ((σ.step level move).table.holders t).covers tx m := by
  cases hg with
  | @taken i s rest expired t m hc ha hv =>
    simp only [Traffic.step, hc, table_settle]
    cases s with
    | acquire t' m' | touch t' m' =>
      obtain ⟨rfl, rfl⟩ := ha
      have htake : σ.table.take tx expired (.acquire t' m') = (.granted, _) := Prod.ext hv rfl
      exact LockTable.covers_of_acquire htake
    | drop t' m' => exact ha.elim
  | @woken i rest ticket s expired hc hs hv =>
    obtain ⟨rfl, -⟩ := (h.parked hc).1.underway s hs
    simp only [Traffic.step, hc, hs, table_settle, LockTable.holders_relook]
    have hlook : (σ.table.look s.target s.tx s.mode true expired).1 = .granted := by
      unfold LockTable.relook at hv
      split at hv
      · cases hv
      · rename_i hl
        rw [hl]
        exact hv
    exact LockTable.covers_of_look (Prod.ext hlook rfl)

theorem Sound.holds_endStatement (h : σ.Sound level) (hl : level tx = .readCommitted)
    (hc : σ.calls.find? tx = none) : ((σ.step level (.endStatement tx)).table.holders t).Holds tx m ↔
      (σ.table.holders t).Holds tx m ∧ m.isShared = false := by
  have hstep : (σ.step level (.endStatement tx)).table = σ.table.releaseAll tx true := by
    simp only [Traffic.step, hc, hl, LockTable.endStatement]
  rw [hstep, LockTable.holds_releaseAll, ← Bool.not_eq_true]
  refine and_congr_right fun hm => not_congr ⟨fun hg => mem_filter_isShared hg.2.2, fun hs => ?_⟩
  exact ⟨h.indexed t tx m hm, rfl, List.mem_filter.2 ⟨m.mem_all, hs⟩⟩

theorem inCall_run {i : Intent} (hi : (σ.run level moves).InCall tx i) :
    σ.InCall tx i ∨ .call tx i ∈ moves := by
  induction moves generalizing σ with
  | nil => exact .inl hi
  | cons move moves ih =>
    rcases ih hi with hi | hmem
    · refine ((σ.shift_step level move).inCall hi).imp_right ?_
      rintro rfl
      exact List.mem_cons_self
    · exact .inr (List.mem_cons_of_mem move hmem)

theorem not_inCall {i : Intent} (hc : σ.calls.find? tx = none) : ¬ σ.InCall tx i := by
  rintro ⟨c, hc', -⟩
  cases hc.symm.trans hc'

theorem Sound.holds_statement (h : σ.Sound level) (hall : .releaseAll tx ∉ moves)
    (hno : ∀ b, ¬ σ.InCall tx (.directoryRelease b) ∧ .call tx (.directoryRelease b) ∉ moves)
    (hs : m.isShared = false) (hm : (σ.table.holders t).Holds tx m) :
    ((σ.run level moves).table.holders t).Holds tx m := by
  have hk : (level tx).Keeps m := fun hc => absurd hc (Bool.eq_false_iff.1 hs)
  exact h.holds_run hk hall (fun b _ _ => hno b) hm

end Traffic

/-- A transaction at the level read committed that holds no shared mode makes calls that read and
change, and others do whatever they do in between. When the statement has ended, it holds all that
it held before, and besides only what it was granted for changes: each such mode, or one that covers
it and stays. A statement that only reads leaves what it holds as it was. -/
theorem statement_restores (level : TxId → Isolation) (place : Target → Nat)
    (anchors maxWait capacity : Nat) (before statement : List CallMove) (tx : TxId)
    (hlevel : level tx = .readCommitted) :
    let run := (Traffic.blank place anchors maxWait capacity).run level
    let σ := run before
    let τ := run (before ++ statement)
    let υ := τ.step level (.endStatement tx)
    σ.calls.find? tx = none → τ.calls.find? tx = none →
    (∀ t, ¬ (σ.table.holders t).Holds tx .is ∧ ¬ (σ.table.holders t).Holds tx .s) →
    .releaseAll tx ∉ statement → (∀ i, .call tx i ∈ statement → i.isRead ∨ i.isChange) →
    (∀ t m, (σ.table.holders t).Holds tx m → (υ.table.holders t).Holds tx m) ∧
    (∀ t m, (υ.table.holders t).Holds tx m → (σ.table.holders t).Holds tx m ∨
      ((m = .ix ∨ m = .x) ∧ ∃ i, .call tx i ∈ statement ∧ i.isChange ∧
        i.Asks .readCommitted t m)) ∧
    (∀ first last, statement = first ++ last → ∀ t m, m = .ix ∨ m = .x →
      ((run (before ++ first)).table.holders t).Holds tx m → (υ.table.holders t).Holds tx m) ∧
    (∀ first move last, statement = first ++ move :: last → ∀ t m, m = .ix ∨ m = .x →
      (run (before ++ first)).Grants tx move t m →
        ∃ n, n.covers m ∧ n.isShared = false ∧ (υ.table.holders t).Holds tx n) ∧
    ((∀ i, .call tx i ∈ statement → i.isRead) →
      ∀ t m, (υ.table.holders t).Holds tx m ↔ (σ.table.holders t).Holds tx m) := by
  intro run σ τ υ hidle hover hnone hall hcalls
  have hsound : ∀ moves, (run moves).Sound level := fun moves =>
    (Traffic.sound_blank level place anchors maxWait capacity).run moves
  have hend : ∀ t m, (υ.table.holders t).Holds tx m ↔
      (τ.table.holders t).Holds tx m ∧ m.isShared = false := fun t m =>
    (hsound (before ++ statement)).holds_endStatement hlevel hover
  have hnew : ∀ t m, (σ.table.holders t).Holds tx m → m.isShared = false := by
    intro t m hm
    cases m with
    | is => exact absurd hm (hnone t).1
    | s => exact absurd hm (hnone t).2
    | ix | six | x => rfl
  have hno : ∀ b, .call tx (.directoryRelease b) ∉ statement := by
    intro b hi
    rcases hcalls _ hi with h | h <;> cases h
  have hrun : ∀ moves last, run (moves ++ last) = (run moves).run level last :=
    fun moves last => Traffic.run_append ..
  -- what is not shared stays from any moment of the statement to its end
  have hstay : ∀ first last, statement = first ++ last → ∀ t m, m.isShared = false →
      ((run (before ++ first)).table.holders t).Holds tx m → (υ.table.holders t).Holds tx m := by
    rintro first last rfl t m hs hm
    refine (hend t m).2 ⟨?_, hs⟩
    have hτ : τ = (run (before ++ first)).run level last := by
      rw [← hrun, List.append_assoc]
    rw [hτ]
    refine (hsound (before ++ first)).holds_statement (fun hr => hall (List.mem_append_right _ hr))
      (fun b => ⟨fun hi => ?_, fun hc => hno b (List.mem_append_right _ hc)⟩) hs hm
    rw [hrun before first] at hi
    rcases Traffic.inCall_run hi with hi | hi
    · exact Traffic.not_inCall hidle hi
    · exact hno b (List.mem_append_left _ hi)
  have hold : ∀ t m, (σ.table.holders t).Holds tx m → (υ.table.holders t).Holds tx m := by
    intro t m hm
    refine hstay [] statement rfl t m (hnew t m hm) ?_
    rwa [List.append_nil]
  have hfrom : ∀ t m, (υ.table.holders t).Holds tx m → (σ.table.holders t).Holds tx m ∨
      ∃ i, .call tx i ∈ statement ∧ i.isChange ∧ i.Asks .readCommitted t m := by
    intro t m hm
    obtain ⟨hm, hs⟩ := (hend t m).1 hm
    have hτ : τ = σ.run level statement := hrun before statement
    rw [hτ] at hm
    refine ((hsound before).gains_run hm).imp_right ?_
    rintro ⟨i, hi, ha⟩
    have hmem : .call tx i ∈ statement := hi.resolve_left (Traffic.not_inCall hidle)
    refine ⟨i, hmem, (hcalls i hmem).resolve_left fun hread => ?_, hlevel ▸ ha⟩
    rw [ha.isShared hread] at hs
    cases hs
  have hchanged : ∀ m : Mode, m = .ix ∨ m = .x → m.isShared = false := by
    rintro m (rfl | rfl) <;> rfl
  refine ⟨hold, fun t m hm => ?_, fun first last hsplit t m hm => ?_,
    fun first move last hsplit t m hm hg => ?_, fun hreads t m => ⟨fun hm => ?_, hold t m⟩⟩
  · refine (hfrom t m hm).imp_right ?_
    rintro ⟨i, hi, hc, ha⟩
    exact ⟨ha.ofChange hc, i, hi, hc, ha⟩
  · exact hstay first last hsplit t m (hchanged m hm)
  · have hc := (hsound (before ++ first)).covers_of_grants hg
    obtain ⟨n, hn, hcovers⟩ := Holders.covers_iff.1 hc
    have hs : n.isShared = false := Bool.eq_false_iff.2 fun hns =>
      Bool.eq_false_iff.1 (hchanged m hm) (Mode.isShared_of_covers hcovers hns)
    refine ⟨n, hcovers, hs, hstay (first ++ [move]) last (by simp [hsplit]) t n hs ?_⟩
    rw [← List.append_assoc, hrun]
    exact hn
  · refine (hfrom t m hm).resolve_right ?_
    rintro ⟨i, hi, hc, -⟩
    have hread := hreads i hi
    cases i <;> cases hc <;> cases hread

def firstCommitted (tx : TxId) : Isolation := if tx = ⟨1⟩ then .readCommitted else .repeatableRead

/-- The first transaction has changed a record, and the second a file. -/
def recordChanged : List CallMove :=
  [.call ⟨1⟩ (.recordChange ⟨⟨"a", 0⟩, 1⟩), .advance ⟨1⟩ true, .advance ⟨1⟩ true,
    .advance ⟨1⟩ true, .finish ⟨1⟩, .call ⟨2⟩ (.fileChange "b"), .advance ⟨2⟩ true, .finish ⟨2⟩]

def twiceRead : List CallMove :=
  [.call ⟨1⟩ (.recordRead ⟨⟨"a", 0⟩, 2⟩), .advance ⟨1⟩ true, .advance ⟨1⟩ true,
    .advance ⟨1⟩ true, .advance ⟨1⟩ true, .advance ⟨1⟩ true, .finish ⟨1⟩, .releaseAll ⟨3⟩,
    .call ⟨1⟩ (.leafRead ⟨"b", 0⟩), .advance ⟨1⟩ true]

def alsoChanged : List CallMove :=
  [.call ⟨1⟩ (.blockChange ⟨"c", 0⟩), .advance ⟨1⟩ true, .advance ⟨1⟩ true, .finish ⟨1⟩]

theorem statement_restores_record :
    let run := (Traffic.blank Target.spread 1 9 4).run firstCommitted
    let σ := run recordChanged
    let τ := run (recordChanged ++ twiceRead)
    let υ := run (recordChanged ++ (twiceRead ++ alsoChanged))
    firstCommitted ⟨1⟩ = .readCommitted ∧ (τ.table.holders (.record ⟨⟨"a", 0⟩, 2⟩)).Holds ⟨1⟩ .s ∧
    (∀ t m, ((τ.step firstCommitted (.endStatement ⟨1⟩)).table.holders t).Holds ⟨1⟩ m ↔
      (σ.table.holders t).Holds ⟨1⟩ m) ∧
    (∀ t m, (σ.table.holders t).Holds ⟨1⟩ m →
      ((υ.step firstCommitted (.endStatement ⟨1⟩)).table.holders t).Holds ⟨1⟩ m) ∧
    ((υ.step firstCommitted (.endStatement ⟨1⟩)).table.holders (.block ⟨"c", 0⟩)).Holds ⟨1⟩ .x := by
  intro run σ τ υ
  have hlevel : firstCommitted ⟨1⟩ = .readCommitted := rfl
  have hsound : σ.Sound firstCommitted :=
    (Traffic.sound_blank firstCommitted Target.spread 1 9 4).run recordChanged
  have hlisted : ∀ t ∈ σ.table.heldTargets ⟨1⟩,
      ¬ (σ.table.holders t).Holds ⟨1⟩ .is ∧ ¬ (σ.table.holders t).Holds ⟨1⟩ .s := by decide +kernel
  have hnone : ∀ t, ¬ (σ.table.holders t).Holds ⟨1⟩ .is ∧ ¬ (σ.table.holders t).Holds ⟨1⟩ .s :=
    fun t => ⟨fun hm => (hlisted t (hsound.indexed t _ _ hm)).1 hm,
      fun hm => (hlisted t (hsound.indexed t _ _ hm)).2 hm⟩
  have hreads : ∀ i, .call ⟨1⟩ i ∈ twiceRead → i.isRead := by
    intro i hi
    simp only [twiceRead, List.mem_cons, List.not_mem_nil, or_false, CallMove.call.injEq,
      reduceCtorEq, false_or, true_and] at hi
    rcases hi with rfl | rfl <;> rfl
  have hcalls : ∀ i, .call ⟨1⟩ i ∈ twiceRead ++ alsoChanged → i.isRead ∨ i.isChange := by
    intro i hi
    rcases List.mem_append.1 hi with hi | hi
    · exact .inl (hreads i hi)
    · simp only [alsoChanged, List.mem_cons, List.not_mem_nil, or_false, CallMove.call.injEq,
        reduceCtorEq, true_and] at hi
      exact .inr (hi ▸ rfl)
  have hidle : σ.calls.find? ⟨1⟩ = none ∧ τ.calls.find? ⟨1⟩ = none ∧ υ.calls.find? ⟨1⟩ = none := by
    decide +kernel
  obtain ⟨-, -, -, -, hsame⟩ := statement_restores firstCommitted Target.spread 1 9 4 recordChanged
    twiceRead ⟨1⟩ hlevel hidle.1 hidle.2.1 hnone (by decide) fun i hi => .inl (hreads i hi)
  obtain ⟨hold, -, hstay, -⟩ := statement_restores firstCommitted Target.spread 1 9 4 recordChanged
    (twiceRead ++ alsoChanged) ⟨1⟩ hlevel hidle.1 hidle.2.2 hnone (by decide) hcalls
  have hs : (τ.table.holders (.record ⟨⟨"a", 0⟩, 2⟩)).Holds ⟨1⟩ .s := by decide +kernel
  have hx : (υ.table.holders (.block ⟨"c", 0⟩)).Holds ⟨1⟩ .x := by decide +kernel
  refine ⟨hlevel, hs, hsame hreads, hold, hstay _ [] (List.append_nil _).symm _ .x (.inr rfl) hx⟩

end PagedStore
