import PagedStore.Ident
import PagedStore.Lock.Mode

set_option autoImplicit false

/-!
Who holds which modes on one target, and who waits for it. Main statements: what `grant` and
`revoke` do to the modes held, and that nobody blocks a mode they could hold beside it.
-/

namespace PagedStore

/-- The two strongest modes have room for one holder each. -/
structure Holders where
  is : List TxId := []
  ix : List TxId := []
  s : List TxId := []
  six : Option TxId := none
  x : Option TxId := none
  waiting : List TxId := []

namespace Holders

def none : Holders := {}

def Holds (h : Holders) (tx : TxId) : Mode → Prop
  | .is => tx ∈ h.is
  | .ix => tx ∈ h.ix
  | .s => tx ∈ h.s
  | .six => h.six = some tx
  | .x => h.x = some tx

instance (h : Holders) (tx : TxId) (m : Mode) : Decidable (h.Holds tx m) := by
  cases m <;> unfold Holds <;> infer_instance

/-- The modes a transaction holds, the weakest first. -/
def modesOf (h : Holders) (tx : TxId) : List Mode := Mode.all.filter fun m => h.Holds tx m

theorem mem_modesOf {h : Holders} {tx : TxId} {m : Mode} : m ∈ h.modesOf tx ↔ h.Holds tx m := by
  simp [modesOf, Mode.mem_all]

def covers (h : Holders) (tx : TxId) (m : Mode) : Bool := (h.modesOf tx).any fun n => n.covers m

def byAge (txs : List TxId) : List TxId := (sortBy (fun a b => a.num ≤ b.num) txs).eraseDups

/-- The holders, of the modes that many can have, that are in the way of a mode. -/
def sharers (h : Holders) : Mode → List TxId
  | .is => []
  | .ix => h.s
  | .s => h.ix
  | .six => h.ix ++ h.s
  | .x => h.is ++ h.ix ++ h.s

/-- The holders of the two strongest modes that are in the way of a mode. The strongest is in the
way of every mode, the other of every mode but the weakest. -/
def owners (h : Holders) (m : Mode) : List TxId :=
  (if m = .is then [] else h.six.toList) ++ h.x.toList

/-- The others whose modes keep `m` from `tx`. -/
def blockers (h : Holders) (tx : TxId) (m : Mode) : List TxId :=
  byAge ((h.sharers m ++ h.owners m).filter (· ≠ tx))

def grant (h : Holders) (tx : TxId) : Mode → Holders
  | .is => { h with is := h.is.insert tx }
  | .ix => { h with ix := h.ix.insert tx }
  | .s => { h with s := h.s.insert tx }
  | .six => { h with six := some tx }
  | .x => { h with x := some tx }

def revoke (h : Holders) (tx : TxId) : Mode → Holders
  | .is => { h with is := h.is.filter (· ≠ tx) }
  | .ix => { h with ix := h.ix.filter (· ≠ tx) }
  | .s => { h with s := h.s.filter (· ≠ tx) }
  | .six => { h with six := h.six.filter (· ≠ tx) }
  | .x => { h with x := h.x.filter (· ≠ tx) }

def revokeAll (h : Holders) (tx : TxId) (ms : List Mode) : Holders :=
  ms.foldl (fun h m => h.revoke tx m) h

def await (h : Holders) (tx : TxId) : Holders := { h with waiting := h.waiting.insert tx }

def unawait (h : Holders) (tx : TxId) : Holders :=
  { h with waiting := h.waiting.filter (· ≠ tx) }

def isIdle (h : Holders) : Bool :=
  h.is.isEmpty && h.ix.isEmpty && h.s.isEmpty && h.six.isNone && h.x.isNone && h.waiting.isEmpty

/-- Whoever holds a mode that does not get along with the one asked for is in the way, and nobody
else is. -/
theorem mem_inTheWay {h : Holders} {other : TxId} {m : Mode} :
    other ∈ h.sharers m ++ h.owners m ↔ ∃ n, h.Holds other n ∧ m.compatible n = false := by
  rw [Mode.exists_iff]
  cases m <;> simp [sharers, owners, Holds, Mode.compatible]

theorem holds_revoke {h : Holders} {tx other : TxId} {m n : Mode} :
    (h.revoke tx m).Holds other n ↔ h.Holds other n ∧ ¬ (other = tx ∧ n = m) := by
  cases m <;> cases n <;> simp [revoke, Holds, Option.filter_eq_some_iff]

/-- A grant adds the mode and, of the two strongest, takes it from whoever had it. -/
theorem holds_grant {h : Holders} {tx other : TxId} {m n : Mode} :
    (h.grant tx m).Holds other n ↔
      (other = tx ∧ n = m) ∨ (h.Holds other n ∧ ¬ (n = m ∧ (m = .six ∨ m = .x))) := by
  cases m <;> cases n <;> simp [grant, Holds, eq_comm]

end Holders

end PagedStore
