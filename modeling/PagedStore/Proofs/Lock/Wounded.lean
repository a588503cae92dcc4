import PagedStore.Proofs.Lock.Wakeup

set_option autoImplicit false

/-!
Whom a request that sleeps has wounded. Main statement: `doomed_or_granted_since`. While a call
keeps its target's anchor nobody else is granted anything there, so that whoever is in the way of a
request when it falls asleep, and is younger, is doomed; those who come into its way later are not.
-/

namespace PagedStore

namespace LockTable

/-- A younger transaction holds a mode on a target that keeps `m` from `tx`. -/
structure Hinders (l : LockTable) (tx : TxId) (t : Target) (m : Mode) (b : TxId) (n : Mode) :
    Prop where
  younger : tx.IsOlder b
  holds : (l.holders t).Holds b n
  clashes : m.compatible n = false

theorem Hinders.mem_blockers {l : LockTable} {tx : TxId} {t : Target} {m : Mode} {b : TxId}
    {n : Mode} (h : l.Hinders tx t m b n) : b ∈ (l.holders t).blockers tx m :=
  Holders.mem_blockers.2 ⟨fun e => tx.not_isOlder_self (e ▸ h.younger), n, h.holds, h.clashes⟩

/-- What a step of `mover` leaves to the others: what they hold, what is listed for them, and their
doom. Modes are granted only at an anchor that is `free`. -/
structure Respects (mover : Option TxId) (free : Nat → Prop) (l l' : LockTable) : Prop where
  holds : ∀ t a n, some a ≠ mover → ((l'.holders t).Holds a n ↔ (l.holders t).Holds a n)
  gains : ∀ t a n, (l'.holders t).Holds a n → (l.holders t).Holds a n ∨ free (l.anchorOf t)
  listed : ∀ a, some a ≠ mover → l'.heldTargets a = l.heldTargets a
  doomed : ∀ a ∈ l.doomed, a ∈ l'.doomed ∨ ∀ t n, ¬ (l'.holders t).Holds a n

variable {l l' l'' : LockTable} {tx : TxId} {mover : Option TxId} {free : Nat → Prop}

theorem holders_congr (h : l'.entries = l.entries) (t : Target) : l'.holders t = l.holders t := by
  rw [holders, holders, h]

theorem heldTargets_congr (h : l'.held = l.held) (a : TxId) :
    l'.heldTargets a = l.heldTargets a := by
  rw [heldTargets, heldTargets, h]

theorem Respects.refl (l : LockTable) : Respects mover free l l :=
  ⟨fun _ _ _ _ => Iff.rfl, fun _ _ _ => .inl, fun _ _ => rfl, fun _ => .inl⟩

/-- What comes after touches neither the modes nor the lists, and pardons nobody. -/
theorem Respects.keep (h : Respects mover free l l') (he : l''.entries = l'.entries)
    (hh : l''.held = l'.held) (hd : ∀ a ∈ l'.doomed, a ∈ l''.doomed) :
    Respects mover free l l'' where
  holds t a n ha := by rw [holders_congr he, h.holds t a n ha]
  gains t a n := by
    rw [holders_congr he]
    exact h.gains t a n
  listed a ha := by rw [heldTargets_congr hh, h.listed a ha]
  doomed a ha := by
    simp only [holders_congr he]
    exact (h.doomed a ha).imp (hd a) id

theorem respects_keep (he : l'.entries = l.entries) (hh : l'.held = l.held)
    (hd : ∀ a ∈ l.doomed, a ∈ l'.doomed) : Respects mover free l l' :=
  (Respects.refl l).keep he hh hd

theorem respects_setHolders {t : Target} {h : Holders}
    (hh : ∀ a n, some a ≠ mover → (h.Holds a n ↔ (l.holders t).Holds a n))
    (hg : ∀ a n, h.Holds a n → (l.holders t).Holds a n ∨ free (l.anchorOf t)) :
    Respects mover free l (l.setHolders t h) where
  holds t' a n ha := by
    rw [holders_setHolders]
    split
    · rename_i ht
      rw [ht, hh a n ha]
    · exact Iff.rfl
  gains t' a n := by
    rw [holders_setHolders]
    split
    · rename_i ht
      rw [ht]
      exact hg a n
    · exact .inl
  listed _ _ := rfl
  doomed _ := .inl

theorem respects_setHolders_of_iff {t : Target} {h : Holders}
    (hh : ∀ a n, h.Holds a n ↔ (l.holders t).Holds a n) :
    Respects mover free l (l.setHolders t h) :=
  respects_setHolders (fun a n _ => hh a n) fun a n ha => .inl ((hh a n).1 ha)

theorem entries_rise (l : LockTable) (k : Option Nat) : (l.rise k).entries = l.entries := by
  cases k <;> rfl

theorem held_rise (l : LockTable) (k : Option Nat) : (l.rise k).held = l.held := by
  cases k <;> rfl

theorem Respects.rise (h : Respects mover free l l') (k : Option Nat) :
    Respects mover free l (l'.rise k) :=
  h.keep (entries_rise l' k) (held_rise l' k) fun _ ha => (doomed_rise l' k).symm ▸ ha

theorem respects_park (q : Query) : Respects mover free l (l.park tx q) := by
  have h : Respects mover free l (l.setHolders q.target ((l.holders q.target).await tx)) :=
    respects_setHolders_of_iff fun _ _ => Holders.holds_await
  unfold park
  cases q.ticket? with
  | none => exact h.keep rfl rfl fun _ => id
  | some ticket => exact h.keep rfl rfl fun _ => id

theorem holds_strip (l : LockTable) (t t' : Target) (tx a : TxId) (ms : List Mode) (n : Mode) :
    ((l.strip t tx ms).holders t').Holds a n ↔
      (l.holders t').Holds a n ∧ ¬ (t' = t ∧ a = tx ∧ n ∈ ms) := by
  show ((l.setHolders t ((l.holders t).revokeAll tx ms)).holders t').Holds a n ↔ _
  rw [holders_setHolders]
  split
  · rename_i ht
    subst ht
    simp [Holders.holds_revokeAll]
  · rename_i ht
    simp [ht]

theorem respects_strip (l : LockTable) (t : Target) (tx : TxId) (ms : List Mode) :
    Respects (some tx) free l (l.strip t tx ms) where
  holds t' a n ha := by
    rw [holds_strip, and_iff_left fun hc => ha (congrArg some hc.2.1)]
  gains t' a n ha := .inl ((holds_strip ..).1 ha).1
  listed _ _ := rfl
  doomed _ := .inl

theorem respects_held {l' : LockTable} (he : l'.entries = l.entries)
    (hd : ∀ a ∈ l.doomed, a ∈ l'.doomed) (hh : ∀ a, a ≠ tx → l'.heldTargets a = l.heldTargets a) :
    Respects (some tx) free l l' where
  holds t a n _ := by rw [holders_congr he]
  gains t a n ha := .inl (by rwa [holders_congr he] at ha)
  listed a ha := hh a fun e => ha (congrArg some e)
  doomed a ha := .inl (hd a ha)

theorem respects_pardon (hno : ∀ t n, ¬ (l.holders t).Holds tx n) :
    Respects mover free l { l with doomed := l.doomed.filter (· ≠ tx) } where
  holds _ _ _ _ := Iff.rfl
  gains _ _ _ := .inl
  listed _ _ := rfl
  doomed a ha := by
    by_cases hx : a = tx
    · subst hx
      exact .inr hno
    · exact .inl (List.mem_filter.2 ⟨ha, decide_eq_true hx⟩)

end LockTable

namespace Scene

/-- A request is asleep, whether it is to look again or not, and in no call. -/
def Rests (σ : Scene) (s : Sleeper) : Prop :=
  σ.phases.find? s.tx = none ∧ ∃ notified, { s with notified } ∈ σ.table.sleepers

/-- A mode on the target of a sleeping request was granted after the last look at the request. -/
def GrantedSince (σ₀ : Scene) (moves : List LockMove) (s : Sleeper) (b : TxId) (n : Mode) : Prop :=
  ∃ before m after σ τ, moves = before ++ m :: after ∧ σ₀.run before = some σ ∧
    σ.move m = some τ ∧ σ.Rests s ∧ ¬ (σ.table.holders s.target).Holds b n ∧
    (τ.table.holders s.target).Holds b n ∧ .relook s.ticket ∉ m :: after

theorem GrantedSince.snoc {σ₀ : Scene} {moves : List LockMove} {s : Sleeper} {b : TxId} {n : Mode}
    (h : GrantedSince σ₀ moves s b n) {m : LockMove} (hm : m ≠ .relook s.ticket) :
    GrantedSince σ₀ (moves ++ [m]) s b n := by
  obtain ⟨before, m', after, σ, τ, rfl, hσ, hτ, hs, hno, hyes, hr⟩ := h
  refine ⟨before, m', after ++ [m], σ, τ, by simp, hσ, hτ, hs, hno, hyes, fun hmem => ?_⟩
  rw [← List.cons_append, List.mem_append, List.mem_singleton] at hmem
  exact hmem.elim hr fun e => hm e.symm

/-- What is listed for a transaction in each phase of a call: all that it holds, but for what is
being listed or given up. -/
def Lists (σ : Scene) (a : TxId) : Option LockPhase → Prop
  | some (.unrecording t₀) | some (.listing t₀) =>
    ∀ t n, (σ.table.holders t).Holds a n → t ∈ σ.table.heldTargets a ∨ t = t₀
  | some (.releasing ms ts leaving) =>
    (leaving = true → ms = Mode.all) ∧ ∀ t n, (σ.table.holders t).Holds a n →
      t ∈ σ.table.heldTargets a ∧ (leaving = true → t ∈ ts)
  | some (.unlisting t₀ ms ts leaving) =>
    (leaving = true → ms = Mode.all) ∧ ∀ t n, (σ.table.holders t).Holds a n →
      t ∈ σ.table.heldTargets a ∧ t ≠ t₀ ∧ (leaving = true → t ∈ ts)
  | some .disowning | some .pardoning | some .forgetting =>
    ∀ t n, ¬ (σ.table.holders t).Holds a n
  | some (.recording ..) | some (.checking ..) | some (.wounding ..) | some (.posting ..) | none =>
    ∀ t n, (σ.table.holders t).Holds a n → t ∈ σ.table.heldTargets a

/-- Whom a call that is about to wait has still to wound, or has wounded already. -/
def Chases (σ : Scene) (a : TxId) : LockPhase → Prop
  | .recording q bs | .checking q bs =>
    ∀ b n, σ.table.Hinders a q.target q.mode b n → b ∈ bs
  | .wounding q vs | .posting q _ vs =>
    ∀ b n, σ.table.Hinders a q.target q.mode b n → b ∈ vs ∨ b ∈ σ.table.doomed
  | .unrecording _ | .listing _ | .releasing .. | .unlisting .. => True
  | .disowning | .pardoning | .forgetting => True

/-- What holds after every run of steps. -/
structure Chased (σ₀ : Scene) (moves : List LockMove) (σ : Scene) : Prop where
  reached : σ₀.run moves = some σ
  sound : σ.Sound
  lists : ∀ a, σ.Lists a (σ.phases.find? a)
  chases : ∀ a p, σ.phases.find? a = some p → σ.Chases a p
  wounded : ∀ s ∈ σ.table.sleepers, σ.phases.find? s.tx = none → ∀ b n,
    σ.table.Hinders s.tx s.target s.mode b n →
      b ∈ σ.table.doomed ∨ GrantedSince σ₀ moves s b n

variable {σ₀ σ τ : Scene} {moves : List LockMove} {m : LockMove} {tx : TxId}
  {mover : Option TxId} {woken : Option Nat}

theorem Lists.mono {a : TxId} {p : Option LockPhase} (h : σ.Lists a p)
    (hh : ∀ t n, (τ.table.holders t).Holds a n → (σ.table.holders t).Holds a n)
    (hl : τ.table.heldTargets a = σ.table.heldTargets a) : τ.Lists a p := by
  cases p with
  | none => exact fun t n ha => hl ▸ h t n (hh t n ha)
  | some p =>
    cases p with
    | recording | checking | wounding | posting => exact fun t n ha => hl ▸ h t n (hh t n ha)
    | unrecording | listing => exact fun t n ha => hl ▸ h t n (hh t n ha)
    | releasing | unlisting => exact ⟨h.1, fun t n ha => hl ▸ h.2 t n (hh t n ha)⟩
    | disowning | pardoning | forgetting => exact fun t n ha => h t n (hh t n ha)

theorem Chases.mono {a : TxId} {p : LockPhase} (h : σ.Chases a p)
    (hh : ∀ q b n, p.query? = some q → τ.table.Hinders a q.target q.mode b n →
      σ.table.Hinders a q.target q.mode b n ∧ (b ∈ σ.table.doomed → b ∈ τ.table.doomed)) :
    τ.Chases a p := by
  cases p with
  | recording q bs | checking q bs => exact fun b n hb => h b n (hh q b n rfl hb).1
  | wounding q vs | posting q v vs =>
    intro b n hb
    obtain ⟨hb', hd⟩ := hh q b n rfl hb
    exact (h b n hb').imp id hd
  | unrecording | listing | releasing | unlisting | disowning | pardoning | forgetting => trivial

theorem doomed_of_holds
    (hr : LockTable.Respects mover (fun x => σ.isFree x) σ.table τ.table) {t : Target}
    {b : TxId} {n : Mode} (hb : (τ.table.holders t).Holds b n) (hd : b ∈ σ.table.doomed) :
    b ∈ τ.table.doomed :=
  (hr.doomed b hd).resolve_right fun hno => hno t n hb

theorem Chased.pass (h : Chased σ₀ moves σ) (hm : σ.move m = some τ)
    (hs : LockTable.Spares mover woken σ.table τ.table)
    (hr : LockTable.Respects mover (fun x => σ.isFree x) σ.table τ.table)
    (hph : ∀ a, some a ≠ mover → τ.phases.find? a = σ.phases.find? a)
    (hre : ∀ s ∈ σ.table.sleepers, m = .relook s.ticket → some s.tx = mover)
    (hlists : ∀ a, some a = mover → τ.Lists a (τ.phases.find? a))
    (hchases : ∀ a p, some a = mover → τ.phases.find? a = some p → τ.Chases a p)
    (hasleep : ∀ s ∈ τ.table.sleepers, some s.tx = mover → τ.phases.find? s.tx = none → ∀ b n,
      τ.table.Hinders s.tx s.target s.mode b n → b ∈ τ.table.doomed) :
    Chased σ₀ (moves ++ [m]) τ := by
  constructor
  · rw [run_append, h.reached, Option.bind_some, run, hm, Option.bind_some, run]
  · exact h.sound.move hm
  · intro a
    by_cases ha : some a = mover
    · exact hlists a ha
    · rw [hph a ha]
      exact (h.lists a).mono (fun t n => (hr.holds t a n ha).1) (hr.listed a ha)
  · intro a p hp
    by_cases ha : some a = mover
    · exact hchases a p ha hp
    · rw [hph a ha] at hp
      refine (h.chases a p hp).mono fun q b n hq hb => ⟨⟨hb.younger, ?_, hb.clashes⟩, ?_⟩
      · -- nobody is granted anything where a call keeps the anchor
        refine (hr.gains q.target b n hb.holds).resolve_right fun hfree => ?_
        refine ne_anchor_of_isFree hfree hp ?_
        rw [LockPhase.anchor?, hq, Option.map_some]
      · exact doomed_of_holds hr hb.holds
  · intro s hsm hn b n hb
    by_cases ha : some s.tx = mover
    · exact .inl (hasleep s hsm ha hn b n hb)
    · rw [hph s.tx ha] at hn
      rcases hs.sleepers s hsm with ⟨notified, hold, -⟩ | ⟨he, -⟩
      · have hne : m ≠ .relook s.ticket := fun e => ha (hre { s with notified } hold e)
        by_cases hbσ : (σ.table.holders s.target).Holds b n
        · have hbefore : σ.table.Hinders s.tx s.target s.mode b n :=
            ⟨hb.younger, hbσ, hb.clashes⟩
          refine (h.wounded _ hold hn b n hbefore).imp (doomed_of_holds hr hb.holds) fun hg => ?_
          exact GrantedSince.snoc (s := s) hg hne
        · refine .inr ⟨moves, m, [], σ, τ, rfl, h.reached, hm, ⟨hn, notified, hold⟩, hbσ,
            hb.holds, fun hmem => ?_⟩
          exact hne (List.mem_singleton.1 hmem).symm
      · exact absurd he.symm ha

variable {l' : LockTable}

theorem Chased.goOn {p : LockPhase} (h : Chased σ₀ moves σ) (hm : σ.move m = some (σ.goOn tx p l'))
    (hs : LockTable.Spares (some tx) woken σ.table l')
    (hr : LockTable.Respects (some tx) (fun x => σ.isFree x) σ.table l')
    (hre : ∀ s ∈ σ.table.sleepers, m = .relook s.ticket → some s.tx = some tx)
    (hl : (σ.goOn tx p l').Lists tx (some p)) (hc : (σ.goOn tx p l').Chases tx p) :
    Chased σ₀ (moves ++ [m]) (σ.goOn tx p l') := by
  have hp : (σ.goOn tx p l').phases.find? tx = some p := (find?_goOn tx).trans (if_pos rfl)
  refine h.pass hm hs hr (fun a ha => ?_) hre ?_ ?_ ?_
  · exact (find?_goOn a).trans (if_neg fun e => ha (congrArg some e))
  · rintro a ⟨⟩
    rw [hp]
    exact hl
  · rintro a p' ⟨⟩ hp'
    rw [hp] at hp'
    cases hp'
    exact hc
  · intro s _ hx hn
    rw [Option.some.inj hx, hp] at hn
    cases hn

theorem Chased.rest (h : Chased σ₀ moves σ) (hm : σ.move m = some (σ.rest tx l'))
    (hs : LockTable.Spares (some tx) woken σ.table l')
    (hr : LockTable.Respects (some tx) (fun x => σ.isFree x) σ.table l')
    (hre : ∀ s ∈ σ.table.sleepers, m = .relook s.ticket → some s.tx = some tx)
    (hl : (σ.rest tx l').Lists tx none)
    (hw : ∀ s ∈ l'.sleepers, s.tx = tx → ∀ b n,
      l'.Hinders s.tx s.target s.mode b n → b ∈ l'.doomed) :
    Chased σ₀ (moves ++ [m]) (σ.rest tx l') := by
  have hp : (σ.rest tx l').phases.find? tx = none := (find?_rest tx).trans (if_pos rfl)
  refine h.pass hm hs hr (fun a ha => ?_) hre ?_ ?_ ?_
  · exact (find?_rest a).trans (if_neg fun e => ha (congrArg some e))
  · rintro a ⟨⟩
    rw [hp]
    exact hl
  · rintro a p' ⟨⟩ hp'
    rw [hp] at hp'
    cases hp'
  · exact fun s hsm hx _ => hw s hsm (Option.some.inj hx)

variable {q : Query}

theorem Chased.gain {hs : Holders} (h : Chased σ₀ moves σ) (hm : σ.move m = some (σ.gain tx q hs))
    (hn : σ.phases.find? tx = none) (ha : σ.isFree (σ.table.anchorOf q.target))
    (hre : ∀ s ∈ σ.table.sleepers, m = .relook s.ticket → some s.tx = some tx)
    (hh : ∀ a n, hs.Holds a n ↔ (σ.table.holders q.target).Holds a n ∨
      (a = tx ∧ hs.Holds a n)) : Chased σ₀ (moves ++ [m]) (σ.gain tx q hs) := by
  have hlist : σ.Lists tx none := hn ▸ h.lists tx
  have hsp : LockTable.Spares (some tx) none σ.table (σ.table.obtain tx q hs) :=
    (LockTable.spares_setHolders fun a n ho => Holders.holds_unawait.2
      ((hh a n).2 (.inl ho))).rise _
  have hr : LockTable.Respects (some tx) (fun x => σ.isFree x) σ.table
      (σ.table.obtain tx q hs) := by
    refine .rise (LockTable.respects_setHolders (fun a n hne => ?_) fun a n _ => .inr ha) _
    rw [Holders.holds_unawait, hh, or_iff_left fun hc => hne (congrArg some hc.1)]
  have hnew : ∀ t n, ((σ.table.obtain tx q hs).holders t).Holds tx n →
      t ∈ (σ.table.obtain tx q hs).heldTargets tx ∨ t = q.target := by
    intro t n ho
    rw [LockTable.obtain, LockTable.holders_congr (LockTable.entries_rise ..),
      LockTable.holders_setHolders] at ho
    rw [LockTable.obtain, LockTable.heldTargets_congr (LockTable.held_rise ..)]
    split at ho
    · rename_i ht
      exact .inr ht
    · exact .inl (hlist t n ho)
  refine h.goOn hm hsp hr hre ?_ ?_
  · split <;> exact hnew
  · split <;> trivial

theorem Chased.consider (h : Chased σ₀ moves σ) (hm : σ.move m = some (σ.consider tx q))
    (hn : σ.phases.find? tx = none) (ha : σ.isFree (σ.table.anchorOf q.target))
    (hre : ∀ s ∈ σ.table.sleepers, m = .relook s.ticket → some s.tx = some tx) :
    Chased σ₀ (moves ++ [m]) (σ.consider tx q) := by
  by_cases hc : (σ.table.holders q.target).covers tx q.mode
  · rw [consider_of_covers hc] at hm ⊢
    exact h.gain hm hn ha hre fun a n => ⟨.inl, fun ho => ho.elim id And.right⟩
  · by_cases hb : (σ.table.holders q.target).blockers tx q.mode = []
    · rw [consider_of_free hc hb] at hm ⊢
      refine h.gain hm hn ha hre fun a n => ?_
      rw [Holders.holds_grant_of_free hb]
      exact ⟨fun ho => ho.imp id fun hc => ⟨hc.1, .inr hc⟩, fun ho => ho.elim .inl And.right⟩
    · rw [consider_of_blocked hc hb] at hm ⊢
      have hlist : σ.Lists tx none := hn ▸ h.lists tx
      exact h.goOn hm (.refl _ _) (.refl _) hre hlist fun b n hb => hb.mem_blockers

theorem Chased.calm {p : LockPhase} (h : Chased σ₀ moves σ) (l' : LockTable)
    (hp : σ.phases.find? tx = some p) (hq : p.query? = none)
    (hs : LockTable.Spares (some tx) none σ.table l')
    (hss : l'.sleepers = σ.table.sleepers)
    (hr : LockTable.Respects (some tx) (fun x => σ.isFree x) σ.table l') :
    (∀ p' : LockPhase, p'.query? = none → σ.advance tx p = some (σ.goOn tx p' l') →
      (σ.goOn tx p' l').Lists tx (some p') →
        Chased σ₀ (moves ++ [.advance tx]) (σ.goOn tx p' l')) ∧
    (σ.advance tx p = some (σ.rest tx l') → (σ.rest tx l').Lists tx none →
      Chased σ₀ (moves ++ [.advance tx]) (σ.rest tx l')) := by
  have hz : ¬ σ.table.Sleeps tx := (called_of_calm hq).1 (h.sound.called tx p hp)
  have hmove : σ.move (.advance tx) = σ.advance tx p := by
    simp only [Scene.move, hp]
  constructor
  · intro p' hq' hm hl
    refine h.goOn (hmove.trans hm) hs hr (fun _ _ hr => by cases hr) hl ?_
    cases p' with
    | recording | checking | wounding | posting => cases hq'
    | _ => trivial
  · intro hm hl
    refine h.rest (hmove.trans hm) hs hr (fun _ _ hr => by cases hr) hl fun s hsm hx => ?_
    exact absurd ⟨s, hss ▸ hsm, hx⟩ hz

theorem move_advance {p : LockPhase} (hp : σ.phases.find? tx = some p) :
    σ.move (.advance tx) = σ.advance tx p := by
  simp only [Scene.move, hp]

/-- Whoever is in the way, and is younger, is doomed by the time a request falls asleep. -/
theorem Chased.parking (h : Chased σ₀ moves σ) (hp : σ.phases.find? tx = some (.wounding q [])) :
    Chased σ₀ (moves ++ [.advance tx]) (σ.rest tx (σ.table.park tx q)) := by
  obtain ⟨hf, -⟩ := h.sound.called tx _ hp
  have hlist : σ.Lists tx (some (.wounding q [])) := hp ▸ h.lists tx
  have hchase := h.chases tx _ hp
  have hfields : (σ.table.park tx q).doomed = σ.table.doomed ∧
      (σ.table.park tx q).held = σ.table.held := by
    unfold LockTable.park
    cases q.ticket? <;> exact ⟨rfl, rfl⟩
  have hr : ∀ mover, LockTable.Respects mover (fun x => σ.isFree x) σ.table (σ.table.park tx q) :=
    fun _ => LockTable.respects_park q
  have hholds : ∀ t a n, ((σ.table.park tx q).holders t).Holds a n →
      (σ.table.holders t).Holds a n := fun t a n => ((hr none).holds t a n fun h => by cases h).1
  refine h.rest (move_advance hp) (LockTable.spares_park hf) (hr _) (fun _ _ hm => by cases hm)
    ?_ ?_
  · intro t n ho
    show t ∈ (σ.table.park tx q).heldTargets tx
    rw [LockTable.heldTargets_congr hfields.2]
    exact hlist t n (hholds t tx n ho)
  · intro s hs hx b n hb
    obtain ⟨ht, hmode⟩ := LockTable.eq_of_mem_park hf hs hx
    rw [hx, ht, hmode] at hb
    rw [hfields.1]
    refine (hchase b n ⟨hb.younger, hholds _ _ _ hb.holds, hb.clashes⟩).resolve_left ?_
    exact List.not_mem_nil

theorem Chased.asking {p p' : LockPhase} (h : Chased σ₀ moves σ)
    (hp : σ.phases.find? tx = some p) (hq : p.query?.isSome) (hq' : p'.query?.isSome)
    (hm : σ.advance tx p = some (σ.goOn tx p' l'))
    (hs : LockTable.Spares (some tx) none σ.table l') (he : l'.entries = σ.table.entries)
    (hh : l'.held = σ.table.held) (hd : ∀ a ∈ σ.table.doomed, a ∈ l'.doomed)
    (hc : (σ.goOn tx p' l').Chases tx p') :
    Chased σ₀ (moves ++ [.advance tx]) (σ.goOn tx p' l') := by
  have hlist : σ.Lists tx (some p) := hp ▸ h.lists tx
  have hall : ∀ t n, (l'.holders t).Holds tx n → t ∈ l'.heldTargets tx := by
    intro t n ho
    rw [LockTable.holders_congr he] at ho
    rw [LockTable.heldTargets_congr hh]
    cases p with
    | recording | checking | wounding | posting => exact hlist t n ho
    | unrecording | listing | releasing | unlisting => cases hq
    | disowning | pardoning | forgetting => cases hq
  refine h.goOn ((move_advance hp).trans hm) hs (LockTable.respects_keep he hh hd)
    (fun _ _ hr => by cases hr) ?_ hc
  cases p' with
  | recording | checking | wounding | posting => exact hall
  | unrecording | listing | releasing | unlisting => cases hq'
  | disowning | pardoning | forgetting => cases hq'

/-- A step of a release: modes on a target go. With the last of them the target has still to be
struck off the list. -/
theorem Chased.releasing {ms : List Mode} {t : Target} {ts : List Target} {leaving : Bool}
    (h : Chased σ₀ moves σ) (hp : σ.phases.find? tx = some (.releasing ms (t :: ts) leaving))
    (hs : σ.advance tx (.releasing ms (t :: ts) leaving) = some τ) :
    Chased σ₀ (moves ++ [.advance tx]) τ := by
  obtain ⟨hall, hlist⟩ : σ.Lists tx (some (.releasing ms (t :: ts) leaving)) := hp ▸ h.lists tx
  have hm := move_advance hp
  rw [hs] at hm
  rw [Scene.advance] at hs
  split at hs
  · have hkept : ∀ t' n, ((σ.table.strip t tx ms).holders t').Holds tx n →
        t' ∈ σ.table.heldTargets tx ∧ (leaving = true → t' ≠ t ∧ t' ∈ ts) := by
      intro t' n ho
      obtain ⟨ho, hno⟩ := (LockTable.holds_strip ..).1 ho
      obtain ⟨hmem, hts⟩ := hlist t' n ho
      refine ⟨hmem, fun hl => ?_⟩
      have hne : t' ≠ t := fun e => hno ⟨e, rfl, hall hl ▸ Mode.mem_all n⟩
      exact ⟨hne, List.mem_of_ne_of_mem hne (hts hl)⟩
    cases hs
    refine h.goOn hm (LockTable.spares_strip ..) (LockTable.respects_strip ..)
      (fun _ _ hr => by cases hr) ?_ ?_
    · split
      · rename_i he
        refine ⟨hall, fun t' n ho => ⟨(hkept t' n ho).1, ?_, fun hl => ((hkept t' n ho).2 hl).2⟩⟩
        rintro rfl
        refine LockTable.modesOf_eq_nil.1 (List.isEmpty_iff.1 he) n ?_
        have ho' : ((σ.table.strip t' tx ms).holders t').Holds tx n := ho
        rw [LockTable.holds_strip] at ho'
        rw [Holders.holds_revokeAll]
        exact ⟨ho'.1, fun hc => ho'.2 ⟨rfl, hc⟩⟩
      · exact ⟨hall, fun t' n ho => ⟨(hkept t' n ho).1, fun hl => ((hkept t' n ho).2 hl).2⟩⟩
    · split <;> trivial
  · cases hs

theorem Chased.refused {bs : List TxId} (h : Chased σ₀ moves σ)
    (hp : σ.phases.find? tx = some (.checking q bs))
    (hs : σ.advance tx (.checking q bs) =
      some (σ.rest tx ((σ.table.stopWaiting q.target tx).rise q.ticket?))) :
    Chased σ₀ (moves ++ [.advance tx])
      (σ.rest tx ((σ.table.stopWaiting q.target tx).rise q.ticket?)) := by
  obtain ⟨hf, -, -⟩ := h.sound.called tx _ hp
  have hlist : σ.Lists tx (some (.checking q bs)) := hp ▸ h.lists tx
  have hr : ∀ mover, LockTable.Respects mover (fun x => σ.isFree x) σ.table
      ((σ.table.stopWaiting q.target tx).rise q.ticket?) := fun _ =>
    .rise (LockTable.respects_setHolders_of_iff fun _ _ => Holders.holds_unawait) _
  refine h.rest ((move_advance hp).trans hs) (LockTable.Spares.rise
    (LockTable.spares_setHolders fun a m => Holders.holds_unawait.2) _) (hr _)
    (fun _ _ hm => by cases hm) ?_ ?_
  · intro t n ho
    show t ∈ ((σ.table.stopWaiting q.target tx).rise q.ticket?).heldTargets tx
    rw [LockTable.heldTargets_congr (LockTable.held_rise ..)]
    exact hlist t n (((hr none).holds t tx n fun hm => by cases hm).1 ho)
  · exact fun s hsm hx => absurd ⟨s, hsm, hx⟩ (LockTable.not_sleeps_rise (hf.setHolders _ _))

theorem Chased.checking {bs : List TxId} (h : Chased σ₀ moves σ)
    (hp : σ.phases.find? tx = some (.checking q bs))
    (hs : σ.advance tx (.checking q bs) = some τ) : Chased σ₀ (moves ++ [.advance tx]) τ := by
  have hs' := hs
  rw [Scene.advance] at hs
  split at hs
  · cases hs
    exact h.refused hp hs'
  · cases hs
    refine h.asking hp rfl rfl hs' (.refl _ _) rfl rfl (fun _ => id) fun b n hb => .inl ?_
    exact List.mem_filter.2 ⟨h.chases tx _ hp b n hb, decide_eq_true hb.younger⟩

/-- The next victim is doomed, unless it is already, or there is no other. -/
theorem Chased.wounding {vs : List TxId} (h : Chased σ₀ moves σ)
    (hp : σ.phases.find? tx = some (.wounding q vs))
    (hs : σ.advance tx (.wounding q vs) = some τ) : Chased σ₀ (moves ++ [.advance tx]) τ := by
  have hsame : LockTable.Spares (some tx) none σ.table σ.table := .refl _ _
  have hchase := h.chases tx _ hp
  cases vs with
  | nil =>
    cases hs
    exact h.parking hp
  | cons v vs =>
    have hs' := hs
    rw [Scene.advance] at hs
    split at hs
    · rename_i hv
      cases hs
      refine h.asking hp rfl rfl hs' hsame rfl rfl (fun _ => id) fun b n hb => ?_
      rcases hchase b n hb with hm | hd
      · rcases List.mem_cons.1 hm with rfl | hm
        · exact .inr (of_decide_eq_true hv)
        · exact .inl hm
      · exact .inr hd
    · cases hs
      refine h.asking hp rfl rfl hs' { hsame with } rfl rfl
        (fun a ha => List.mem_cons_of_mem v ha) fun b n hb => ?_
      rcases hchase b n ⟨hb.younger, hb.holds, hb.clashes⟩ with hm | hd
      · rcases List.mem_cons.1 hm with rfl | hm
        · exact .inr List.mem_cons_self
        · exact .inl hm
      · exact .inr (List.mem_cons_of_mem v hd)

theorem Chased.advance {p : LockPhase} (h : Chased σ₀ moves σ) (hp : σ.phases.find? tx = some p)
    (hs : σ.advance tx p = some τ) : Chased σ₀ (moves ++ [.advance tx]) τ := by
  have hsame : LockTable.Spares (some tx) none σ.table σ.table := .refl _ _
  have hlist : σ.Lists tx (some p) := hp ▸ h.lists tx
  cases p with
  | recording q bs =>
    cases hs
    refine h.asking hp rfl rfl rfl (LockTable.spares_blocked ..) rfl rfl (fun _ => id) ?_
    exact fun b n hb => h.chases tx _ hp b n ⟨hb.younger, hb.holds, hb.clashes⟩
  | checking q bs => exact h.checking hp hs
  | wounding q vs => exact h.wounding hp hs
  | posting q v vs =>
    have hs' := hs
    rw [Scene.advance] at hs
    split at hs
    · cases hs
      refine h.asking hp rfl rfl hs' { hsame with } rfl rfl (fun _ => id) fun b n hb => ?_
      exact h.chases tx _ hp b n ⟨hb.younger, hb.holds, hb.clashes⟩
    · cases hs
  | unrecording t =>
    cases hs
    exact (h.calm _ hp rfl (LockTable.spares_forgetAnchor ..) rfl
      (LockTable.respects_keep rfl rfl fun _ => id)).1 (.listing t) rfl rfl hlist
  | listing t =>
    cases hs
    refine (h.calm (σ.table.addHeld tx t) hp rfl { hsame with } rfl
      (LockTable.respects_held rfl (fun _ => id) fun a ha => ?_)).2 rfl fun t' n ho => ?_
    · rw [LockTable.heldTargets_addHeld, if_neg ha]
    · show t' ∈ (σ.table.addHeld tx t).heldTargets tx
      rw [LockTable.heldTargets_addHeld, if_pos rfl, List.mem_insert_iff]
      exact (hlist t' n ho).symm
  | releasing ms ts leaving =>
    cases ts with
    | nil =>
      cases leaving with
      | false =>
        cases hs
        exact (h.calm _ hp rfl hsame rfl (.refl _)).2 rfl fun t n ho => (hlist.2 t n ho).1
      | true =>
        cases hs
        refine (h.calm _ hp rfl hsame rfl (.refl _)).1 .disowning rfl rfl fun t n ho => ?_
        exact List.not_mem_nil ((hlist.2 t n ho).2 rfl)
    | cons t ts => exact h.releasing hp hs
  | unlisting t ms ts leaving =>
    cases hs
    refine (h.calm (σ.table.dropHeld tx t) hp rfl { hsame with } rfl
      (LockTable.respects_held rfl (fun _ => id) fun a ha => ?_)).1 (.releasing ms ts leaving) rfl
      rfl ⟨hlist.1, fun t' n ho => ?_⟩
    · rw [LockTable.heldTargets_dropHeld, if_neg ha]
    · obtain ⟨hmem, hne, hts⟩ := hlist.2 t' n ho
      refine ⟨?_, hts⟩
      show t' ∈ (σ.table.dropHeld tx t).heldTargets tx
      rw [LockTable.heldTargets_dropHeld, if_pos rfl]
      exact List.mem_filter.2 ⟨hmem, decide_eq_true hne⟩
  | disowning =>
    cases hs
    refine (h.calm { σ.table with held := σ.table.held.erase tx } hp rfl { hsame with } rfl
      (LockTable.respects_held rfl (fun _ => id) fun a ha => ?_)).1 .pardoning rfl rfl hlist
    simp only [LockTable.heldTargets, Registry.find?_erase_of_ne _ ha]
  | pardoning =>
    cases hs
    exact (h.calm { σ.table with doomed := σ.table.doomed.filter (· ≠ tx) } hp rfl
      { hsame with } rfl (LockTable.respects_pardon hlist)).1 .forgetting rfl rfl hlist
  | forgetting =>
    cases hs
    exact (h.calm _ hp rfl (LockTable.spares_forgetAnchor ..) rfl
      (LockTable.respects_keep rfl rfl fun _ => id)).2 rfl fun t n ho => absurd ho (hlist t n)

theorem Chased.courier {c : Option Parcel} (h : Chased σ₀ moves σ)
    (hm : σ.move m = some { σ with table := l', parcel := c })
    (hre : ∀ ticket, m ≠ .relook ticket) (hs : LockTable.Spares none woken σ.table l')
    (he : l'.entries = σ.table.entries) (hh : l'.held = σ.table.held)
    (hd : l'.doomed = σ.table.doomed) :
    Chased σ₀ (moves ++ [m]) { σ with table := l', parcel := c } :=
  h.pass hm hs (LockTable.respects_keep he hh fun _ ha => hd.symm ▸ ha) (fun _ _ => rfl)
    (fun s _ hr => absurd hr (hre s.ticket)) (fun _ ha => by cases ha)
    (fun _ _ ha => by cases ha) fun _ _ ha => by cases ha

theorem Chased.begin_release {ms : List Mode} {ts : List Target} {leaving : Bool}
    (h : Chased σ₀ moves σ) (hi : σ.isIdle tx)
    (hm : σ.move m = some (σ.goOn tx (.releasing ms ts leaving) σ.table))
    (hre : ∀ ticket, m ≠ .relook ticket) (hall : leaving = true → ms = Mode.all)
    (hts : leaving = true → ts = σ.table.heldTargets tx) :
    Chased σ₀ (moves ++ [m]) (σ.goOn tx (.releasing ms ts leaving) σ.table) := by
  have hlist : σ.Lists tx none := (not_sleeps_of_isIdle hi).1 ▸ h.lists tx
  refine h.goOn hm (.refl _ _) (.refl _) (fun s _ hr => absurd hr (hre s.ticket))
    ⟨hall, fun t n ho => ⟨hlist t n ho, fun hl => ?_⟩⟩ trivial
  rw [hts hl]
  exact hlist t n ho

theorem Chased.move (h : Chased σ₀ moves σ) (hm : σ.move m = some τ) :
    Chased σ₀ (moves ++ [m]) τ := by
  have hm' := hm
  cases m with
  | ask t tx m =>
    simp only [Scene.move] at hm
    split at hm
    · rename_i hi
      cases hm
      exact h.consider hm' (not_sleeps_of_isIdle hi.1).1 hi.2 fun _ _ hr => by cases hr
    · cases hm
  | relook ticket =>
    simp only [Scene.move] at hm
    split at hm
    · cases hm
    · rename_i s hs
      split at hm
      · rename_i hi
        cases hm
        obtain ⟨hsm, hst⟩ := LockTable.mem_sleeper hs
        refine h.consider hm' (Option.isNone_iff_eq_none.1 hi.1) hi.2 fun u hu he => ?_
        cases he
        rw [h.sound.tidy.byTicket u hu s hsm hst.symm]
      · cases hm
  | release t tx ms =>
    simp only [Scene.move] at hm
    split at hm
    · rename_i hi
      cases hm
      exact h.begin_release hi hm' (fun _ hr => by cases hr) (fun hl => by cases hl)
        fun hl => by cases hl
    · cases hm
  | releaseAll tx sharedOnly =>
    simp only [Scene.move] at hm
    split at hm
    · rename_i hi
      cases hm
      refine h.begin_release hi hm' (fun _ hr => by cases hr) (fun hl => ?_) fun _ => rfl
      cases sharedOnly with
      | false => rfl
      | true => cases hl
    · cases hm
  | advance tx =>
    simp only [Scene.move] at hm
    split at hm
    · cases hm
    · rename_i p hp
      exact h.advance hp hm
  | fetch =>
    simp only [Scene.move] at hm
    split at hm
    · cases hm
      exact h.courier hm' (fun _ hr => by cases hr)
        { LockTable.Spares.refl none σ.table with } rfl rfl rfl
    · cases hm
  | address =>
    simp only [Scene.move] at hm
    split at hm
    · cases hm
      exact h.courier hm' (fun _ hr => by cases hr) (.refl none _) rfl rfl rfl
    · cases hm
  | wake =>
    simp only [Scene.move] at hm
    split at hm
    · split at hm
      · cases hm
        exact h.courier hm' (fun _ hr => by cases hr) (LockTable.spares_wakeAnchor ..) rfl rfl rfl
      · cases hm
    · cases hm

theorem chased_blank (place : Target → Nat) (anchors maxWait capacity : Nat) :
    Chased (still (.blank place anchors maxWait capacity)) []
      (still (.blank place anchors maxWait capacity)) where
  reached := rfl
  sound := sound_blank place anchors maxWait capacity
  lists _ _ _ ho := absurd ho Holders.not_holds_none
  chases _ _ hp := by cases hp
  wounded s hs := by cases hs

theorem Chased.run {later : List LockMove} (h : Chased σ₀ moves σ) (hr : σ.run later = some τ) :
    Chased σ₀ (moves ++ later) τ := by
  induction later generalizing moves σ with
  | nil =>
    cases hr
    rwa [List.append_nil]
  | cons m later ih =>
    obtain ⟨υ, hm, hr⟩ := Option.bind_eq_some_iff.1 hr
    have hnext := ih (h.move hm) hr
    rwa [List.append_assoc, List.singleton_append] at hnext

/-- After every run of the steps of the calls, and so between whole calls and when all is quiet, a
sleeping request has doomed every younger transaction that is in its way, but for one that was
granted the mode in question after the last look at the request. -/
theorem doomed_or_granted_since (place : Target → Nat) (anchors maxWait capacity : Nat)
    {moves : List LockMove} {σ : Scene}
    (hr : (still (.blank place anchors maxWait capacity)).run moves = some σ) :
    ∀ s ∈ σ.table.sleepers, σ.phases.find? s.tx = none → ∀ b n,
      σ.table.Hinders s.tx s.target s.mode b n →
        b ∈ σ.table.doomed ∨
          GrantedSince (still (.blank place anchors maxWait capacity)) moves s b n :=
  ((chased_blank place anchors maxWait capacity).run hr).wounded

/-- The first and the third transaction share a file when the second asks for all of it. It dooms
the third and sleeps, and then the fourth is let in beside the first. -/
def latecomer : List LockMove :=
  [.ask (.file "a") ⟨1⟩ .s, .advance ⟨1⟩, .ask (.file "a") ⟨3⟩ .s, .advance ⟨3⟩,
    .ask (.file "a") ⟨2⟩ .x, .advance ⟨2⟩, .advance ⟨2⟩, .advance ⟨2⟩, .advance ⟨2⟩, .advance ⟨2⟩,
    .ask (.file "a") ⟨4⟩ .s, .advance ⟨4⟩, .fetch, .address]

def waiter : Sleeper := { ticket := 0, tx := ⟨2⟩, target := .file "a", mode := .x }

theorem run_latecomer : ∃ σ, (still (.blank (fun _ => 0) 1 9 4)).run latecomer = some σ ∧
    σ.table.Quiet ∧ σ.phases.entries.isEmpty ∧ σ.parcel.isNone ∧ waiter ∈ σ.table.sleepers ∧
      (σ.table.holders waiter.target).Holds ⟨3⟩ .s ∧ ⟨3⟩ ∈ σ.table.doomed ∧
        (σ.table.holders waiter.target).Holds ⟨4⟩ .s ∧ ⟨4⟩ ∉ σ.table.doomed := by
  have hc : ((still (.blank (fun _ => 0) 1 9 4)).run latecomer).any (fun σ => decide
      (σ.table.Quiet ∧ σ.phases.entries.isEmpty ∧ σ.parcel.isNone ∧ waiter ∈ σ.table.sleepers ∧
        (σ.table.holders waiter.target).Holds ⟨3⟩ .s ∧ ⟨3⟩ ∈ σ.table.doomed ∧
          (σ.table.holders waiter.target).Holds ⟨4⟩ .s ∧ ⟨4⟩ ∉ σ.table.doomed)) := by
    decide +kernel
  obtain ⟨σ, hr, hσ⟩ := (Option.any_eq_true _ _).1 hc
  exact ⟨σ, hr, of_decide_eq_true hσ⟩

theorem doomed_or_granted_since_latecomer :
    ∃ σ, (still (.blank (fun _ => 0) 1 9 4)).run latecomer = some σ ∧
      waiter ∈ σ.table.sleepers ∧ σ.table.Hinders ⟨2⟩ (.file "a") .x ⟨3⟩ .s ∧
      (⟨3⟩ ∈ σ.table.doomed ∨
        GrantedSince (still (.blank (fun _ => 0) 1 9 4)) latecomer waiter ⟨3⟩ .s) ∧
      σ.table.Hinders ⟨2⟩ (.file "a") .x ⟨4⟩ .s ∧
      GrantedSince (still (.blank (fun _ => 0) 1 9 4)) latecomer waiter ⟨4⟩ .s := by
  obtain ⟨σ, hr, -, hp, -, hs, h3, -, h4, hno⟩ := run_latecomer
  have hn : σ.phases.find? waiter.tx = none := by
    rw [Registry.find?, List.isEmpty_iff.1 hp]
    rfl
  have hall := doomed_or_granted_since (fun _ => 0) 1 9 4 hr waiter hs hn
  have hin3 : σ.table.Hinders ⟨2⟩ (.file "a") .x ⟨3⟩ .s := ⟨by decide, h3, rfl⟩
  have hin4 : σ.table.Hinders ⟨2⟩ (.file "a") .x ⟨4⟩ .s := ⟨by decide, h4, rfl⟩
  exact ⟨σ, hr, hs, hin3, hall _ _ hin3, hin4, (hall _ _ hin4).resolve_left hno⟩

/-- All is quiet, and an older request sleeps behind a younger transaction that nobody has
doomed. -/
theorem not_all_younger_doomed :
    ∃ σ, (still (.blank (fun _ => 0) 1 9 4)).run latecomer = some σ ∧ σ.table.Quiet ∧
      σ.phases.entries.isEmpty ∧ σ.parcel.isNone ∧ ∃ s ∈ σ.table.sleepers, ∃ b n,
        σ.table.Hinders s.tx s.target s.mode b n ∧ b ∉ σ.table.doomed := by
  obtain ⟨σ, hr, hq, hp, hc, hs, -, -, h4, hno⟩ := run_latecomer
  exact ⟨σ, hr, hq, hp, hc, waiter, hs, ⟨4⟩, .s, ⟨by decide, h4, rfl⟩, hno⟩

end Scene

end PagedStore
