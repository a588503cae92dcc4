import PagedStore.Lock.Intent
import PagedStore.Proofs.Lock.Spared

set_option autoImplicit false

/-!
The steps of an operation at a lock table, one at a time. Main statements:
`LockTable.perform_induct` and `LockTable.Underway.perform`. Between its steps an operation has what
it asked for, or has still to ask for it.
-/

namespace PagedStore

namespace LockStep

def target : LockStep → Target
  | .acquire t _ | .touch t _ | .drop t _ => t

def mode : LockStep → Mode
  | .acquire _ m | .touch _ m | .drop _ m => m

def event (tx : TxId) (expired : Bool) : LockStep → LockEvent
  | .acquire t m | .touch t m => .ask t tx m expired
  | .drop t m => .release t tx [m]

def leaves (tx : TxId) (l : LockTable) : LockStep → List LockStep
  | .touch t m => if m ∈ l.modesOf t tx then [] else [.drop t m]
  | .acquire _ _ | .drop _ _ => []

def GivesUp (t : Target) (m : Mode) : LockStep → Prop
  | .acquire _ _ => False
  | .touch t' m' | .drop t' m' => t' = t ∧ m' = m

theorem GivesUp.of_leaves {tx : TxId} {l : LockTable} {s s' : LockStep} (h : s' ∈ s.leaves tx l) :
    s' = .drop s.target s.mode ∧ s.GivesUp s.target s.mode := by
  cases s with
  | acquire t m => cases h
  | drop t m => cases h
  | touch t m =>
    rw [leaves] at h
    split at h
    · cases h
    · exact ⟨List.mem_singleton.1 h, rfl, rfl⟩

end LockStep

theorem Intent.mem_steps {level : Isolation} {i : Intent} {s : LockStep} (h : s ∈ i.steps level) :
    (∃ t, s = coarse level t) ∨ (∃ t m, s = .acquire t m) ∨
      ∃ b, i = .directoryRelease b ∧ (s = .drop (.block b) .s ∨ s = .drop (.block b) .x) := by
  cases i with
  | directoryRelease b => exact .inr (.inr ⟨b, rfl, by simpa [steps] using h⟩)
  | fileRead f => exact .inl ⟨.file f, by simpa [steps] using h⟩
  | indexRead f => exact .inl ⟨.file f, by simpa [steps] using h⟩
  | blockRead b =>
    simp only [steps, List.mem_cons, List.not_mem_nil, or_false] at h
    exact .inl (h.elim (fun e => ⟨_, e⟩) fun e => ⟨_, e⟩)
  | recordRead r =>
    simp only [steps, List.mem_cons, List.not_mem_nil, or_false] at h
    rcases h with rfl | rfl | rfl
    · exact .inl ⟨_, rfl⟩
    · exact .inl ⟨_, rfl⟩
    · exact .inr (.inl ⟨_, _, rfl⟩)
  | leafRead b | directoryRead b =>
    simp only [steps, List.mem_cons, List.not_mem_nil, or_false] at h
    exact h.elim (fun e => .inl ⟨_, e⟩) fun e => .inr (.inl ⟨_, _, e⟩)
  | fileChange f | indexChange f =>
    simp only [steps, List.mem_singleton] at h
    exact .inr (.inl ⟨_, _, h⟩)
  | blockChange b | leafChange b | directoryChange b =>
    simp only [steps, changeBlock, List.mem_cons, List.not_mem_nil, or_false] at h
    exact .inr (.inl (h.elim (fun e => ⟨_, _, e⟩) fun e => ⟨_, _, e⟩))
  | recordChange r =>
    simp only [steps, changeRecord, List.mem_cons, List.not_mem_nil, or_false] at h
    rcases h with rfl | rfl | rfl <;> exact .inr (.inl ⟨_, _, rfl⟩)

namespace LockTable

def take (l : LockTable) (tx : TxId) (expired : Bool) : LockStep → Verdict × LockTable
  | .acquire t m | .touch t m => l.ask t tx m expired
  | .drop t m => (.granted, l.release t tx m)

theorem take_snd (l : LockTable) (tx : TxId) (expired : Bool) (s : LockStep) :
    (l.take tx expired s).2 = l.step (s.event tx expired) := by cases s <;> rfl

/-- What holds before each step, of the steps that are left, and what follows at the end. -/
theorem perform_induct (tx : TxId) {q : List LockStep → LockTable → Prop}
    {p : LockProgress × LockTable → Prop}
    (hdone : ∀ l, q [] l → p (.done, l))
    (hgranted : ∀ s rest l l', q (s :: rest) l → l.take tx l.impatient s = (.granted, l') →
      q (s.leaves tx l ++ rest) l')
    (hwaits : ∀ s rest l l', q (s :: rest) l → l.take tx l.impatient s = (.waits, l') →
      p (.waits l.nextTicket (s.leaves tx l ++ rest), l'))
    (hfailed : ∀ s rest l v l' err, q (s :: rest) l → l.take tx l.impatient s = (v, l') →
      v.error? s.target tx = some err → p (.failed err, l'))
    {steps : List LockStep} {l : LockTable} (h : q steps l) : p (perform tx steps l) := by
  induction steps generalizing l with
  | nil => exact hdone l h
  | cons s rest ih =>
    have hg := fun l' => hgranted s rest l l' h
    have hw := fun l' => hwaits s rest l l' h
    have hf := fun v l' err => hfailed s rest l v l' err h
    cases s with
    | drop t m => exact ih (hg _ rfl)
    | acquire t m =>
      simp only [take, LockStep.leaves, List.nil_append, LockStep.target] at hg hw hf
      simp only [perform, lock]
      cases hr : l.ask t tx m l.impatient with
      | mk v l' =>
        cases v with
        | granted => exact ih (hg l' hr)
        | waits => exact hw l' hr
        | wounded => exact hf _ l' _ hr rfl
        | timedOut => exact hf _ l' _ hr rfl
    | touch t m =>
      simp only [take, LockStep.leaves, LockStep.target] at hg hw hf
      simp only [perform, lock]
      cases hr : l.ask t tx m l.impatient with
      | mk v l' =>
        by_cases hheld : m ∈ l.modesOf t tx
        · simp only [hheld, if_true, List.nil_append] at hg hw ⊢
          cases v with
          | granted => exact ih (hg l' hr)
          | waits => exact hw l' hr
          | wounded => exact hf _ l' _ hr rfl
          | timedOut => exact hf _ l' _ hr rfl
        · simp only [hheld, if_false] at hg hw ⊢
          cases v with
          -- what was touched is given back at once
          | granted => exact ih (hgranted (.drop t m) rest l' _ (hg l' hr) rfl)
          | waits => exact hw l' hr
          | wounded => exact hf _ l' _ hr rfl
          | timedOut => exact hf _ l' _ hr rfl

variable {tx : TxId}

theorem covers_of_look {l l' : LockTable} {t : Target} {m : Mode} {waited expired : Bool}
    (h : l.look t tx m waited expired = (.granted, l')) : (l'.holders t).covers tx m := by
  have hh := fun n => holds_look l t t tx tx m n waited expired
  have hl := looked l t tx m waited expired
  rw [h] at hh hl
  cases hl with
  | covered hc =>
    obtain ⟨n, hn, hm⟩ := Holders.covers_iff.1 hc
    exact Holders.covers_iff.2 ⟨n, (hh n).2 (.inl hn), hm⟩
  | granted hc hb => exact Holders.covers_of_holds ((hh m).2 (.inr ⟨rfl, rfl, rfl, hc, hb⟩))

theorem covers_of_acquire {l l' : LockTable} {t : Target} {m : Mode} {expired : Bool}
    (h : l.take tx expired (.acquire t m) = (.granted, l')) : (l'.holders t).covers tx m := by
  simp only [take, ask] at h
  split at h
  · cases h
  · exact covers_of_look h

/-- What one transaction may lose. -/
def Own (tx : TxId) (lost : Target → Mode → Prop) (u : TxId) (t : Target) (m : Mode) : Prop :=
  u = tx ∧ lost t m

theorem loses_take (l : LockTable) (tx : TxId) {lost : Target → Mode → Prop} (expired : Bool)
    (s : LockStep) (hs : ∀ t m, s.GivesUp t m → lost t m) :
    l.Loses (Own tx lost) (l.take tx expired s).2 := by
  rw [take_snd]
  refine .one l _ fun u t m ht => ?_
  cases s with
  | acquire t' m' => exact ht.elim
  | touch t' m' => exact ht.elim
  | drop t' m' =>
    obtain ⟨rfl, rfl, hm⟩ := ht
    exact ⟨rfl, hs t' m ⟨rfl, (List.mem_singleton.1 hm).symm⟩⟩

theorem loses_relook (l : LockTable) {ticket : Nat} {s : Sleeper} (hs : l.sleeper? ticket = some s)
    (expired : Bool) : l.Loses (fun _ _ _ => False) (l.relook s expired).2 := by
  have hstep : l.step (.relook ticket expired) = (l.relook s expired).2 := by
    simp only [step, hs]
  exact hstep ▸ .one l _ fun _ _ _ ht => ht

/-- Of the steps that an operation began with, `steps` are left: it has what the others asked for,
as far as it is not among what may be lost. -/
structure Underway (l : LockTable) (tx : TxId) (lost : Target → Mode → Prop)
    (asks steps : List LockStep) : Prop where
  last : ∀ t m, asks.getLast? = some (.acquire t m) →
    steps.getLast? = some (.acquire t m) ∨ (steps = [] ∧ (l.holders t).covers tx m)
  owed : ∀ t m, .acquire t m ∈ asks →
    .acquire t m ∈ steps ∨ (l.holders t).covers tx m ∨ ∃ n, n.covers m ∧ lost t n
  gives : ∀ s ∈ steps, ∀ t m, s.GivesUp t m → lost t m

/-- An operation sleeps under a ticket until it has what it waits for. -/
structure Parked (l : LockTable) (tx : TxId) (lost : Target → Mode → Prop) (asks : List LockStep)
    (ticket : Nat) (rest : List LockStep) : Prop where
  issued : ticket < l.nextTicket
  underway : ∀ s, l.sleeper? ticket = some s →
    s.tx = tx ∧ l.Underway tx lost asks (.acquire s.target s.mode :: rest)

theorem underway_begin (l : LockTable) {lost : Target → Mode → Prop} {asks : List LockStep}
    (hg : ∀ s ∈ asks, ∀ t m, s.GivesUp t m → lost t m) : l.Underway tx lost asks asks :=
  ⟨fun _ _ h => .inl h, fun _ _ h => .inl h, hg⟩

namespace Underway

variable {lost lost' : Target → Mode → Prop} {gone : TxId → Target → Mode → Prop}
  {asks rest : List LockStep} {s : LockStep} {l l' : LockTable}

theorem loses (h : l.Underway tx lost asks (s :: rest)) (hl : l.Loses gone l')
    (hlost : ∀ t m, lost t m → lost' t m) (hgone : ∀ t m, gone tx t m → lost' t m) :
    l'.Underway tx lost' asks (s :: rest) := by
  refine ⟨fun t m hm => .inl ?_, fun t m hm => ?_,
    fun s' hs' t m hg => hlost t m (h.gives s' hs' t m hg)⟩
  · rcases h.last t m hm with hlast | ⟨hnil, -⟩
    · exact hlast
    · cases hnil
  · rcases h.owed t m hm with hin | hc | ⟨n, hn, hln⟩
    · exact .inl hin
    · refine .inr ((hl.covers hc).imp_right ?_)
      rintro ⟨n, hn, hg⟩
      exact ⟨n, hn, hgone t n hg⟩
    · exact .inr (.inr ⟨n, hn, hlost t n hln⟩)

theorem beside {steps : List LockStep} (h : l.Underway tx lost asks steps) (hl : l.Loses gone l')
    (hgone : ∀ t m, ¬ gone tx t m) : l'.Underway tx lost asks steps := by
  have hc : ∀ {t m}, (l.holders t).covers tx m → (l'.holders t).covers tx m := by
    intro t m hc
    rcases hl.covers hc with hc | ⟨n, -, hg⟩
    · exact hc
    · exact absurd hg (hgone t n)
  exact ⟨fun t m hm => (h.last t m hm).imp_right fun ⟨hnil, hm⟩ => ⟨hnil, hc hm⟩,
    fun t m hm => (h.owed t m hm).imp_right (Or.imp_left hc), h.gives⟩

theorem gives_leaves (h : l.Underway tx lost asks (s :: rest)) {tx' : TxId} {l' : LockTable} :
    ∀ s' ∈ s.leaves tx' l' ++ rest, ∀ t m, s'.GivesUp t m → lost t m := by
  intro s' hs' t m hg
  rcases List.mem_append.1 hs' with hs' | hs'
  · obtain ⟨rfl, hsg⟩ := LockStep.GivesUp.of_leaves hs'
    obtain ⟨rfl, rfl⟩ := hg
    exact h.gives s List.mem_cons_self _ _ hsg
  · exact h.gives s' (List.mem_cons_of_mem s hs') t m hg

theorem loses_first (h : l.Underway tx lost asks (s :: rest)) {expired : Bool} {v : Verdict}
    (ht : l.take tx expired s = (v, l')) : l.Loses (Own tx lost) l' := by
  have hl := l.loses_take tx expired s fun t m => h.gives s List.mem_cons_self t m
  rwa [ht] at hl

theorem advance (h : l.Underway tx lost asks (s :: rest)) (hl : l.Loses (Own tx lost) l')
    (hs : ∀ t m, s = .acquire t m → (l'.holders t).covers tx m) :
    l'.Underway tx lost asks (s.leaves tx l ++ rest) := by
  refine ⟨fun t m hm => ?_, fun t m hm => ?_, h.gives_leaves⟩
  · rcases h.last t m hm with hlast | ⟨hnil, -⟩
    · cases rest with
      | nil =>
        obtain rfl : s = .acquire t m := Option.some.inj hlast
        exact .inr ⟨rfl, hs t m rfl⟩
      | cons s' rest =>
        rw [List.getLast?_cons_cons] at hlast
        rw [List.getLast?_append, hlast]
        exact .inl rfl
    · cases hnil
  · rcases h.owed t m hm with hin | hc | hln
    · rcases List.mem_cons.1 hin with he | hin
      · exact .inr (.inl (hs t m he.symm))
      · exact .inl (List.mem_append_right _ hin)
    · refine .inr ((hl.covers hc).imp_right ?_)
      rintro ⟨n, hn, -, hg⟩
      exact ⟨n, hn, hg⟩
    · exact .inr (.inr hln)

theorem granted (h : l.Underway tx lost asks (s :: rest)) {expired : Bool}
    (ht : l.take tx expired s = (.granted, l')) :
    l'.Underway tx lost asks (s.leaves tx l ++ rest) :=
  h.advance (h.loses_first ht) fun t m hs => by
    subst hs
    exact covers_of_acquire ht

theorem waits (h : l.Underway tx lost asks (s :: rest)) (hn : l.Numbered) {expired : Bool}
    (ht : l.take tx expired s = (.waits, l')) :
    l'.Parked tx lost asks l.nextTicket (s.leaves tx l ++ rest) := by
  have hl := h.loses_first ht
  have hask : l.ask s.target tx s.mode expired = (.waits, l') := by
    cases s with
    | acquire t m => exact ht
    | touch t m => exact ht
    | drop t m => cases ht
  have hsleep := sleeper?_ask hn (congrArg Prod.fst hask)
  rw [hask] at hsleep
  refine ⟨hsleep.1, fun u hu => ?_⟩
  obtain rfl := Option.some.inj (hsleep.2.symm.trans hu)
  refine ⟨rfl, fun t m hm => .inl ?_, fun t m hm => ?_, fun s' hs' => ?_⟩
  · rcases h.last t m hm with hlast | ⟨hnil, -⟩
    · cases rest with
      | nil =>
        obtain rfl : s = .acquire t m := Option.some.inj hlast
        rfl
      | cons s' rest =>
        rw [List.getLast?_cons_cons] at hlast
        rw [← List.cons_append, List.getLast?_append, hlast]
        rfl
    · cases hnil
  · rcases h.owed t m hm with hin | hc | hln
    · refine .inl ?_
      rcases List.mem_cons.1 hin with rfl | hin
      · exact List.mem_cons_self
      · exact List.mem_cons_of_mem _ (List.mem_append_right _ hin)
    · refine .inr ((hl.covers hc).imp_right ?_)
      rintro ⟨n, hn, -, hg⟩
      exact ⟨n, hn, hg⟩
    · exact .inr (.inr hln)
  · rcases List.mem_cons.1 hs' with rfl | hs'
    · exact fun t m hg => hg.elim
    · exact h.gives_leaves s' hs'

theorem perform {steps : List LockStep} (h : l.Underway tx lost asks steps) (hn : l.Numbered) :
    let r := perform tx steps l
    l.Loses (Own tx lost) r.2 ∧ match r.1 with
      | .done => r.2.Underway tx lost asks []
      | .failed _ => True
      | .waits ticket rest => r.2.Parked tx lost asks ticket rest := by
  refine perform_induct tx
    (q := fun steps l' => l.Loses (Own tx lost) l' ∧ l'.Underway tx lost asks steps)
    (p := fun r => l.Loses (Own tx lost) r.2 ∧ match r.1 with
      | .done => r.2.Underway tx lost asks []
      | .failed _ => True
      | .waits ticket rest => r.2.Parked tx lost asks ticket rest)
    (fun _ hq => hq) ?_ ?_ ?_ ⟨.refl l, h⟩
  · rintro s rest l₁ l₂ ⟨hl, hu⟩ ht
    exact ⟨hl.trans (hu.loses_first ht), hu.granted ht⟩
  · rintro s rest l₁ l₂ ⟨hl, hu⟩ ht
    exact ⟨hl.trans (hu.loses_first ht), hu.waits (hn.of_recalls hl.recalls) ht⟩
  · rintro s rest l₁ v l₂ err ⟨hl, hu⟩ ht -
    exact ⟨hl.trans (hu.loses_first ht), trivial⟩

end Underway

namespace Parked

variable {lost lost' : Target → Mode → Prop} {gone : TxId → Target → Mode → Prop}
  {asks rest : List LockStep} {ticket : Nat} {l l' : LockTable}

theorem loses (h : l.Parked tx lost asks ticket rest) (hl : l.Loses gone l')
    (hlost : ∀ t m, lost t m → lost' t m) (hgone : ∀ t m, gone tx t m → lost' t m) :
    l'.Parked tx lost' asks ticket rest := by
  refine ⟨Nat.lt_of_lt_of_le h.issued hl.recalls.next, fun s' hs' => ?_⟩
  obtain ⟨s, hs, -, htx, ht, hm⟩ := hl.recalls.sleeper ticket h.issued s' hs'
  obtain ⟨hsx, hu⟩ := h.underway s hs
  rw [htx, ht, hm]
  exact ⟨hsx, hu.loses hl hlost hgone⟩

theorem granted (h : l.Parked tx lost asks ticket rest) {s : Sleeper} {expired : Bool}
    (hs : l.sleeper? ticket = some s) (hr : l.relook s expired = (.granted, l')) :
    l'.Underway tx lost asks rest := by
  obtain ⟨rfl, hu⟩ := h.underway s hs
  have hl : l.Loses (Own s.tx lost) l' := by
    have hl := l.loses_relook hs expired
    rw [hr] at hl
    exact hl.mono fun _ _ _ => False.elim
  refine hu.advance hl fun t m he => ?_
  cases he
  unfold relook at hr
  split at hr
  · cases hr
  · rename_i v l₁ _ hlook
    cases hr
    have hc := covers_of_look hlook
    exact hc

end Parked

theorem error_of_perform {steps : List LockStep} {l l' : LockTable} {err : Error}
    (h : perform tx steps l = (.failed err, l')) :
    err = .wounded tx ∨ ∃ t, err = .lockTimeout tx t := by
  have hall : ∀ err, (perform tx steps l).1 = .failed err →
      err = .wounded tx ∨ ∃ t, err = .lockTimeout tx t := by
    refine perform_induct tx (q := fun _ _ => True)
      (p := fun r => ∀ err, r.1 = .failed err → err = .wounded tx ∨ ∃ t, err = .lockTimeout tx t)
      (fun _ _ _ h => by cases h) (fun _ _ _ _ _ _ => trivial)
      (fun _ _ _ _ _ _ _ h => by cases h) ?_ trivial
    rintro s rest l₁ v l₂ err - - hv err' ⟨⟩
    cases v with
    | granted | waits => cases hv
    | wounded =>
      cases hv
      exact .inl rfl
    | timedOut =>
      cases hv
      exact .inr ⟨_, rfl⟩
  rw [h] at hall
  exact hall err rfl

theorem perform_of_covers {steps : List LockStep} {l : LockTable}
    (h : ∀ s ∈ steps, ∃ t m, s = .acquire t m ∧ (l.holders t).covers tx m) :
    (perform tx steps l).1 = .done := by
  have htake : ∀ {s rest l'}, (∀ u ∈ s :: rest, ∃ t m, u = .acquire t m ∧
      ((l' : LockTable).holders t).covers tx m) → (l'.take tx l'.impatient s).1 = .granted := by
    intro s rest l' h
    obtain ⟨t, m, rfl, hc⟩ := h s List.mem_cons_self
    simp only [take, ask, look, hc, if_true]
  refine perform_induct tx (p := fun r => r.1 = .done)
    (q := fun steps l' => ∀ s ∈ steps, ∃ t m, s = .acquire t m ∧ (l'.holders t).covers tx m)
    (fun _ _ => rfl) ?_ ?_ ?_ h
  · intro s rest l₁ l₂ hq ht s' hs'
    obtain ⟨t, m, rfl, -⟩ := hq s List.mem_cons_self
    obtain ⟨t', m', rfl, hc⟩ := hq s' (List.mem_cons_of_mem _ hs')
    have hl : l₁.Loses (Own tx fun _ _ => False) l₂ := by
      have hone := l₁.loses_take tx l₁.impatient (.acquire t m) fun _ _ hg => hg
      rwa [ht] at hone
    refine ⟨t', m', rfl, (hl.covers hc).resolve_right ?_⟩
    rintro ⟨n, -, -, hn⟩
    exact hn
  · intro s rest l₁ l₂ hq ht
    have hg := htake hq
    rw [ht] at hg
    cases hg
  · intro s rest l₁ v l₂ err hq ht herr
    have hg := htake hq
    rw [ht] at hg
    obtain rfl : v = .granted := hg
    cases herr

end LockTable

end PagedStore
