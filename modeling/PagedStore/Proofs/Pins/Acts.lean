import PagedStore.Proofs.Pins.Balanced
import PagedStore.Proofs.Pins.Phases

set_option autoImplicit false

/-!
What can happen in a hall, said once. Main statement: `Hall.moved_of_move`. A move is an act of one
transaction, which takes it from one phase of a call to another, or something that happens to the
frames and the files beside the calls.
-/

namespace PagedStore

/-- What else happens to a store: frames are written to and written back, and files and log fail or
recover. -/
inductive Store.Beside (s : Store) : Store → Prop
  | wrote (i offset : Nat) (v : Value) (tx : TxId) (lsn : Lsn) :
      Beside s (s.editFrame i fun f => f.writeLogged offset v tx lsn).2
  | flushed (i : Nat) : Beside s (s.flushFrame i).2
  | turned {m : Media} (hm : Disk.Same s.media.disk m.disk) : Beside s { s with media := m }

namespace Hall

def put (σ : Hall) (tx : TxId) : Option PinPhase → Desk → Hall
  | none, d => σ.rest tx d
  | some p, d => σ.goOn tx p d

inductive Act (σ : Hall) (tx : TxId) : Option PinPhase → Option PinPhase → Desk → Prop
  | counted {b : BlockId} {h : Hold} {refs : Nat}
      (hb : (σ.desk.pinsOf tx).holds.find? b = some h) (hr : 0 < refs) :
      Act σ tx none none (σ.desk.recount tx b h refs)
  | idled : Act σ tx none none σ.desk
  | began {w : Wanted} (hh : (σ.desk.pinsOf tx).hold? w = none) :
      Act σ tx none (some (.trying w)) σ.desk
  | unpinned {b : BlockId} {d : Desk} (hd : σ.desk.giveBack tx b = some d) :
      Act σ tx none (some .telling) d
  | releases : Act σ tx none (some (.releasing false)) σ.desk
  | found {w : Wanted} {i : Nat} {s : Store} (hr : σ.desk.store.pin w = (.ok (some i), s)) :
      Act σ tx (some (.trying w)) none ((σ.desk.setStore s).finish tx w i).2
  | missed {w : Wanted} {s : Store} (hr : σ.desk.store.pin w = (.ok none, s)) :
      Act σ tx (some (.trying w)) (some (.drawing ⟨w, .first⟩)) (σ.desk.setStore s)
  | erred {w : Wanted} {e : Error} {s : Store}
      (hr : σ.desk.store.pin w = (.error (.error e), s)) :
      Act σ tx (some (.trying w)) none (σ.desk.setStore s)
  | drew {r : Errand} : Act σ tx (some (.drawing r)) (some (.joining r σ.desk.line.draw.1))
      (σ.desk.setLine σ.desk.line.draw.2)
  | joined {r : Errand} {k : Nat} (ho : σ.isOpen) :
      Act σ tx (some (.joining r k)) (some (.joined r k)) (σ.desk.setLine (σ.desk.line.push k))
  | lengthened {r : Errand} {k : Nat} : Act σ tx (some (.joined r k)) (some (.looking r k))
      (σ.desk.setLine σ.desk.line.measure)
  | ahead {r : Errand} {k : Nat} (hh : σ.desk.line.isHead k) :
      Act σ tx (some (.looking r k)) (some (.asking r k)) σ.desk
  | behind {r : Errand} {k : Nat} (hh : σ.desk.line.isHead k = false) :
      Act σ tx (some (.looking r k)) (some (.resting r k)) σ.desk
  | got {r : Errand} {k i : Nat} {s : Store}
      (hr : σ.desk.store.pin r.asks = (.ok (some i), s)) :
      Act σ tx (some (.asking r k)) (some (.leaving r k (.got i))) (σ.desk.setStore s)
  | none {r : Errand} {k : Nat} {s : Store} (hr : σ.desk.store.pin r.asks = (.ok none, s)) :
      Act σ tx (some (.asking r k)) (some (.resting r k)) (σ.desk.setStore s)
  | failed {r : Errand} {k : Nat} {e : Error} {s : Store}
      (hr : σ.desk.store.pin r.asks = (.error (.error e), s)) :
      Act σ tx (some (.asking r k)) (some (.leaving r k (.failed e))) (σ.desk.setStore s)
  | slept {r : Errand} {k : Nat} :
      Act σ tx (some (.resting r k)) (some (.parked r k)) σ.desk
  | ranOut {r : Errand} {k : Nat} :
      Act σ tx (some (.resting r k)) (some (.leaving r k .ranOut)) σ.desk
  | stirred {r : Errand} {k : Nat} : Act σ tx (some (.parked r k)) (some (.looking r k))
      (σ.desk.setLine (σ.desk.line.heed k))
  | left {r : Errand} {k : Nat} {o : Parting} (ho : σ.isOpen) :
      Act σ tx (some (.leaving r k o)) (some (.struck r o)) (σ.desk.setLine (σ.desk.line.strike k))
  | shortened {r : Errand} {o : Parting} : Act σ tx (some (.struck r o)) (some (.left r o))
      (σ.desk.setLine σ.desk.line.measure)
  | finished {w : Wanted} {aim : Aim} {i : Nat} (ha : aim = .first ∨ aim = .last) :
      Act σ tx (some (.left ⟨w, aim⟩ (.got i))) none (σ.desk.wakeHead.finish tx w i).2
  | regained {w : Wanted} {b : BlockId} {refs : Nat} {rest : List (BlockId × Nat)} {i : Nat} :
      Act σ tx (some (.left ⟨w, .regaining b refs rest⟩ (.got i)))
        (some (.drawing (.regain w rest))) (σ.desk.wakeHead.record tx b i refs)
  | gaveUp {r : Errand} {o : Parting} (ho : ∀ i, o ≠ .got i) :
      Act σ tx (some (.left r o)) none σ.desk.wakeHead
  | yields {w : Wanted} : Act σ tx (some (.left ⟨w, .first⟩ .ranOut))
      (some (.yielding w (σ.desk.pinsOf tx).counts false)) σ.desk.wakeHead
  | yielded {w : Wanted} {counts : List (BlockId × Nat)} {gave : Bool} {b : BlockId} {d : Desk}
      (hd : σ.desk.giveBack tx b = some d) :
      Act σ tx (some (.yielding w counts gave)) (some (.yielding w counts true)) d
  | paused {w : Wanted} {counts : List (BlockId × Nat)} {gave : Bool}
      (hs : (σ.desk.pinsOf tx).holds.size = 0) :
      Act σ tx (some (.yielding w counts gave)) (some (.pausing w counts))
        (σ.desk.setPins tx { σ.desk.pinsOf tx with holds := .empty }).wakeHead
  | resumed {w : Wanted} {counts : List (BlockId × Nat)} :
      Act σ tx (some (.pausing w counts)) (some (.drawing (.regain w counts))) σ.desk
  | released {gave : Bool} {b : BlockId} {d : Desk} (hd : σ.desk.giveBack tx b = some d) :
      Act σ tx (some (.releasing gave)) (some (.releasing true)) d
  | emptied {gave : Bool} (hs : (σ.desk.pinsOf tx).holds.size = 0) :
      Act σ tx (some (.releasing gave)) (some .telling) (σ.desk.setPins tx {})
  | heard (hw : σ.desk.line.hasWaiters) : Act σ tx (some .telling) (some .waking) σ.desk
  | alone (hw : σ.desk.line.hasWaiters = false) : Act σ tx (some .telling) none σ.desk
  | told : Act σ tx (some .waking) none σ.desk.wakeHead

inductive Moved (σ : Hall) : Hall → Prop
  | act {tx : TxId} {p' : Option PinPhase} {d : Desk}
      (ha : σ.Act tx (σ.phases.find? tx) p' d) : Moved σ (σ.put tx p' d)
  | beside {s : Store} (hs : σ.desk.store.Beside s) : Moved σ (σ.atStore s)

variable {σ τ : Hall} {tx : TxId} {p : PinPhase} {p' : Option PinPhase} {d : Desk}

theorem find?_put (σ : Hall) (tx : TxId) (p' : Option PinPhase) (d : Desk) (u : TxId) :
    (σ.put tx p' d).phases.find? u = if u = tx then p' else σ.phases.find? u := by
  cases p' with
  | none => exact Registry.find?_erase ..
  | some p => exact Registry.find?_insert ..

@[simp] theorem desk_put (σ : Hall) (tx : TxId) (p' : Option PinPhase) (d : Desk) :
    (σ.put tx p' d).desk = d := by
  cases p' <;> rfl

theorem act_of_conclude (r : Errand) (o : Parting) : ∃ p' d,
    σ.Act tx (some (.left r o)) p' d ∧ σ.conclude tx r σ.desk.wakeHead o = σ.put tx p' d := by
  obtain ⟨w, aim⟩ := r
  cases o with
  | got i =>
    cases aim with
    | first => exact ⟨_, _, .finished (.inl rfl), rfl⟩
    | regaining b refs rest => exact ⟨_, _, .regained, rfl⟩
    | last => exact ⟨_, _, .finished (.inr rfl), rfl⟩
  | failed e => exact ⟨_, _, .gaveUp nofun, rfl⟩
  | ranOut =>
    cases aim with
    | first => exact ⟨_, _, .yields, rfl⟩
    | regaining b refs rest => exact ⟨_, _, .gaveUp nofun, rfl⟩
    | last => exact ⟨_, _, .gaveUp nofun, rfl⟩

theorem act_of_advance (h : σ.advance tx p = some τ) :
    ∃ p' d, σ.Act tx (some p) p' d ∧ τ = σ.put tx p' d := by
  cases p with
  | trying w =>
    simp only [advance] at h
    split at h <;> cases h
    · exact ⟨_, _, .found ‹_›, rfl⟩
    · exact ⟨_, _, .missed ‹_›, rfl⟩
    · exact ⟨_, _, .erred ‹_›, rfl⟩
  | drawing r =>
    cases h
    exact ⟨_, _, .drew, rfl⟩
  | joining r k =>
    simp only [advance] at h
    split at h <;> cases h
    exact ⟨_, _, .joined ‹_›, rfl⟩
  | joined r k =>
    cases h
    exact ⟨_, _, .lengthened, rfl⟩
  | looking r k =>
    simp only [advance] at h
    split at h <;> cases h
    cases hh : σ.desk.line.isHead k with
    | true => exact ⟨_, _, .ahead hh, rfl⟩
    | false => exact ⟨_, _, .behind hh, rfl⟩
  | asking r k =>
    simp only [advance] at h
    split at h <;> cases h
    · exact ⟨_, _, .got ‹_›, rfl⟩
    · exact ⟨_, _, .none ‹_›, rfl⟩
    · exact ⟨_, _, .failed ‹_›, rfl⟩
  | resting r k =>
    cases h
    exact ⟨_, _, .slept, rfl⟩
  | parked r k => cases h
  | leaving r k o =>
    simp only [advance] at h
    split at h <;> cases h
    exact ⟨_, _, .left ‹_›, rfl⟩
  | struck r o =>
    cases h
    exact ⟨_, _, .shortened, rfl⟩
  | left r o =>
    simp only [advance] at h
    split at h <;> cases h
    exact act_of_conclude r o
  | yielding w counts gave =>
    simp only [advance] at h
    split at h <;> cases h
    rename_i hs
    exact ⟨_, _, .paused hs.1, rfl⟩
  | pausing w counts =>
    cases h
    exact ⟨_, _, .resumed, rfl⟩
  | releasing gave =>
    simp only [advance] at h
    split at h <;> cases h
    exact ⟨_, _, .emptied ‹_›, rfl⟩
  | telling =>
    cases h
    cases hw : σ.desk.line.hasWaiters with
    | true => exact ⟨_, _, .heard hw, rfl⟩
    | false => exact ⟨_, _, .alone hw, rfl⟩
  | waking =>
    simp only [advance] at h
    split at h <;> cases h
    exact ⟨_, _, .told, rfl⟩

theorem act_of_start (σ : Hall) (tx : TxId) (w : Wanted) :
    ∃ p' d, σ.Act tx none p' d ∧ σ.start tx w = σ.put tx p' d := by
  unfold start
  cases hh : (σ.desk.pinsOf tx).hold? w with
  | some bh =>
    cases w with
    | fresh file format => cases hh
    | block b =>
      obtain ⟨hold, hfind, rfl⟩ := Option.map_eq_some_iff.1 hh
      exact ⟨_, _, .counted hfind (Nat.succ_pos _), rfl⟩
  | none =>
    dsimp only
    split
    · exact ⟨_, _, .idled, rfl⟩
    · exact ⟨_, _, .began hh, rfl⟩

theorem moved_of_move {m : PinMove} (h : σ.move m = some τ) : σ.Moved τ := by
  have hact : ∀ {tx p}, σ.phases.find? tx = p →
      (∃ p' d, σ.Act tx p p' d ∧ τ = σ.put tx p' d) → σ.Moved τ := by
    rintro tx p rfl ⟨p', d, ha, rfl⟩
    exact .act ha
  have hidle : ∀ {tx}, σ.isIdle tx → σ.phases.find? tx = none :=
    fun h => Option.isNone_iff_eq_none.1 h
  cases m with
  | ask tx w =>
    simp only [move] at h
    split at h <;> cases h
    exact hact (hidle ‹_›) (act_of_start σ tx w)
  | unpin tx b =>
    simp only [move] at h
    split at h
    · rename_i hi
      refine hact (hidle hi) ?_
      split at h
      · cases h
      · rename_i hold hb
        split at h
        · rename_i hr
          cases h
          exact ⟨_, _, .counted hb (Nat.sub_pos_of_lt hr), rfl⟩
        · obtain ⟨d, hd, rfl⟩ := Option.map_eq_some_iff.1 h
          exact ⟨_, _, .unpinned hd, rfl⟩
    · cases h
  | releaseAll tx =>
    simp only [move] at h
    split at h
    · rename_i hi
      refine hact (hidle hi) ?_
      split at h <;> cases h
      · exact ⟨_, _, .idled, rfl⟩
      · exact ⟨_, _, .releases, rfl⟩
    · cases h
  | advance tx =>
    simp only [move] at h
    split at h
    · cases h
    · exact hact ‹_› (act_of_advance h)
  | yield tx b =>
    simp only [move] at h
    split at h
    · obtain ⟨d, hd, rfl⟩ := Option.map_eq_some_iff.1 h
      exact hact ‹_› ⟨_, _, .yielded hd, rfl⟩
    · obtain ⟨d, hd, rfl⟩ := Option.map_eq_some_iff.1 h
      exact hact ‹_› ⟨_, _, .released hd, rfl⟩
    · cases h
  | stir tx =>
    simp only [move] at h
    split at h <;> cases h
    exact hact ‹_› ⟨_, _, .stirred, rfl⟩
  | expire tx =>
    simp only [move] at h
    split at h <;> cases h
    exact hact ‹_› ⟨_, _, .ranOut, rfl⟩
  | write i offset v tx lsn =>
    cases h
    exact .beside (.wrote i offset v tx lsn)
  | flush i =>
    cases h
    exact .beside (.flushed i)
  | outage o =>
    cases h
    exact .beside (.turned (.refl _))
  | fault cause =>
    cases h
    exact .beside (.turned ⟨rfl, fun _ => rfl⟩)

theorem Runs.induct {P : Hall → Prop} (hstep : ∀ {σ τ}, P σ → σ.Moved τ → P τ)
    (h : Runs σ τ) (hσ : P σ) : P τ := by
  obtain ⟨ms, hms⟩ := h
  induction ms generalizing σ with
  | nil =>
    cases hms
    exact hσ
  | cons m ms ih =>
    obtain ⟨υ, hm, hms⟩ := Option.bind_eq_some_iff.1 hms
    exact ih (hstep hσ (moved_of_move hm)) hms

end Hall

end PagedStore
