import PagedStore.Proofs.Pins.Held
import PagedStore.Proofs.Pins.Moves

set_option autoImplicit false

/-!
The calls at a desk taken apart into the steps that those of other transactions can come between.
Each call of the pool is one step; whoever changes the line keeps it to itself until the new length
is noted, and others who want to look at the line wait. Main statements: `Hall.runs_pin`,
`Hall.runs_resume`, `Hall.runs_unpin` and `Hall.runs_releaseAll`, by which a whole call is a run of
such steps, and `Hall.Calls.runs`.
-/

namespace PagedStore

/-- What a request in line is there for. -/
inductive Aim where
  | first
  /-- A block that was given up is to be taken back, and these others after it. -/
  | regaining (block : BlockId) (refs : Nat) (rest : List (BlockId × Nat))
  | last

structure Errand where
  wanted : Wanted
  aim : Aim

namespace Errand

def asks (r : Errand) : Wanted :=
  match r.aim with
  | .first | .last => r.wanted
  | .regaining b _ _ => .block b

def regain (w : Wanted) : List (BlockId × Nat) → Errand
  | [] => ⟨w, .last⟩
  | (b, refs) :: rest => ⟨w, .regaining b refs rest⟩

end Errand

/-- What a request leaves the line with. -/
inductive Parting where
  | got (frame : Nat)
  | failed (e : Error)
  | ranOut

/-- How far a transaction has got in a call. -/
inductive PinPhase where
  /-- It is about to ask the pool, not having got into line. -/
  | trying (w : Wanted)
  /-- It is about to draw a ticket. -/
  | drawing (r : Errand)
  /-- It has a ticket and is about to get into line. -/
  | joining (r : Errand) (ticket : Nat)
  /-- It is in line, and the new length is to be noted. -/
  | joined (r : Errand) (ticket : Nat)
  /-- It is about to see whether it is at the head. -/
  | looking (r : Errand) (ticket : Nat)
  /-- It saw that it is at the head, and is about to ask the pool. -/
  | asking (r : Errand) (ticket : Nat)
  /-- It got nothing, and is about to look at the clock. -/
  | resting (r : Errand) (ticket : Nat)
  /-- It sleeps until it is signalled or a window has passed. -/
  | parked (r : Errand) (ticket : Nat)
  | leaving (r : Errand) (ticket : Nat) (o : Parting)
  /-- It is out of the line, and the new length is to be noted. -/
  | struck (r : Errand) (o : Parting)
  /-- It is about to wake the head of the line it has left. -/
  | left (r : Errand) (o : Parting)
  /-- Its patience has ended: it gives up its holds one by one. `gave` says that it has begun. -/
  | yielding (w : Wanted) (counts : List (BlockId × Nat)) (gave : Bool)
  | pausing (w : Wanted) (counts : List (BlockId × Nat))
  /-- It gives back all it holds, one by one. -/
  | releasing (gave : Bool)
  /-- It has given something back, and is about to see whether anybody waits. -/
  | telling
  | waking

namespace PinPhase

/-- It keeps the line to itself. -/
def latched : PinPhase → Bool
  | .joined _ _ | .struck _ _ => true
  | _ => false

end PinPhase

namespace Line

def draw (l : Line) : Nat × Line := (l.nextTicket, { l with nextTicket := l.nextTicket + 1 })

def push (l : Line) (ticket : Nat) : Line := { l with waiters := l.waiters ++ [{ ticket }] }

def strike (l : Line) (ticket : Nat) : Line :=
  { l with waiters := l.waiters.filter fun w => w.ticket ≠ ticket }

def measure (l : Line) : Line := { l with waiting := l.waiters.length }

theorem join_eq (l : Line) : l.join = (l.draw.1, (l.draw.2.push l.draw.1).measure) := rfl

theorem leave_eq (l : Line) (ticket : Nat) : l.leave ticket = (l.strike ticket).measure := rfl

end Line

def Pins.hold? (p : Pins) : Wanted → Option (BlockId × Hold)
  | .block b => (p.holds.find? b).map fun h => (b, h)
  | .fresh _ _ => none

namespace Desk

def setLine (d : Desk) (line : Line) : Desk := { d with line }

def recount (d : Desk) (tx : TxId) (b : BlockId) (h : Hold) (refs : Nat) : Desk :=
  d.setPins tx { d.pinsOf tx with holds := (d.pinsOf tx).holds.insert b { h with refs } }

def giveBack (d : Desk) (tx : TxId) (b : BlockId) : Option Desk :=
  match (d.pinsOf tx).holds.find? b with
  | none => none
  | some h =>
    match d.store.unpin h.frame with
    | (.error _, _) => none
    | (.ok (), s) => some ((d.setStore s).setPins tx
        { d.pinsOf tx with holds := (d.pinsOf tx).holds.erase b })

theorem of_giveBack {d d' : Desk} {tx : TxId} {b : BlockId} (h : d.giveBack tx b = some d') :
    ∃ k s, (d.pinsOf tx).holds.find? b = some k ∧ d.store.unpin k.frame = (.ok (), s) ∧
      d' = (d.setStore s).setPins tx
        { d.pinsOf tx with holds := (d.pinsOf tx).holds.erase b } := by
  unfold giveBack at h
  split at h
  · cases h
  · rename_i k hk
    split at h
    · cases h
    · rename_i s hs
      cases h
      exact ⟨k, s, hk, hs, rfl⟩

end Desk

/-- A desk with the calls that are under way, one for each transaction at most. -/
structure Hall where
  desk : Desk
  phases : Registry TxId PinPhase := .empty

inductive PinMove where
  | ask (tx : TxId) (w : Wanted)
  | unpin (tx : TxId) (b : BlockId)
  | releaseAll (tx : TxId)
  | advance (tx : TxId)
  | yield (tx : TxId) (b : BlockId)
  | stir (tx : TxId)
  | expire (tx : TxId)
  /-- A frame is written to or written back in the meantime. -/
  | write (i offset : Nat) (v : Value) (tx : TxId) (lsn : Lsn)
  | flush (i : Nat)
  | outage (o : Outage)
  | fault (cause : Option IoCause)

namespace Hall

/-- Nobody keeps the line to itself. -/
def isOpen (σ : Hall) : Bool := σ.phases.entries.all fun e => !e.2.latched

def isIdle (σ : Hall) (tx : TxId) : Bool := (σ.phases.find? tx).isNone

def goOn (σ : Hall) (tx : TxId) (p : PinPhase) (d : Desk) : Hall :=
  { desk := d, phases := σ.phases.insert tx p }

def atStore (σ : Hall) (s : Store) : Hall := { σ with desk := σ.desk.setStore s }

def media (σ : Hall) : Media := σ.desk.store.media

def atMedia (σ : Hall) (media : Media) : Hall := σ.atStore { σ.desk.store with media }

def rest (σ : Hall) (tx : TxId) (d : Desk) : Hall := { desk := d, phases := σ.phases.erase tx }

def conclude (σ : Hall) (tx : TxId) (r : Errand) (d : Desk) : Parting → Hall
  | .got i =>
    match r.aim with
    | .first | .last => σ.rest tx (d.finish tx r.wanted i).2
    | .regaining b refs rest =>
      σ.goOn tx (.drawing (.regain r.wanted rest)) (d.record tx b i refs)
  | .failed _ => σ.rest tx d
  | .ranOut =>
    match r.aim with
    | .first => σ.goOn tx (.yielding r.wanted (d.pinsOf tx).counts false) d
    | .last | .regaining _ _ _ => σ.rest tx d

/-- The next step of a call. A step that crashes is none. -/
def advance (σ : Hall) (tx : TxId) : PinPhase → Option Hall
  | .trying w =>
    match σ.desk.store.pin w with
    | (.ok (some i), s) => some (σ.rest tx ((σ.desk.setStore s).finish tx w i).2)
    | (.ok none, s) => some (σ.goOn tx (.drawing ⟨w, .first⟩) (σ.desk.setStore s))
    | (.error (.error _), s) => some (σ.rest tx (σ.desk.setStore s))
    | (.error _, _) => none
  | .drawing r =>
    some (σ.goOn tx (.joining r σ.desk.line.draw.1) (σ.desk.setLine σ.desk.line.draw.2))
  | .joining r ticket =>
    if σ.isOpen then
      some (σ.goOn tx (.joined r ticket) (σ.desk.setLine (σ.desk.line.push ticket)))
    else none
  | .joined r ticket =>
    some (σ.goOn tx (.looking r ticket) (σ.desk.setLine σ.desk.line.measure))
  | .looking r ticket =>
    if σ.isOpen then
      some (σ.goOn tx (if σ.desk.line.isHead ticket then .asking r ticket else .resting r ticket)
        σ.desk)
    else none
  | .asking r ticket =>
    match σ.desk.store.pin r.asks with
    | (.ok (some i), s) => some (σ.goOn tx (.leaving r ticket (.got i)) (σ.desk.setStore s))
    | (.ok none, s) => some (σ.goOn tx (.resting r ticket) (σ.desk.setStore s))
    | (.error (.error e), s) =>
      some (σ.goOn tx (.leaving r ticket (.failed e)) (σ.desk.setStore s))
    | (.error _, _) => none
  | .resting r ticket => some (σ.goOn tx (.parked r ticket) σ.desk)
  | .parked _ _ => none
  | .leaving r ticket o =>
    if σ.isOpen then
      some (σ.goOn tx (.struck r o) (σ.desk.setLine (σ.desk.line.strike ticket)))
    else none
  | .struck r o => some (σ.goOn tx (.left r o) (σ.desk.setLine σ.desk.line.measure))
  | .left r o => if σ.isOpen then some (σ.conclude tx r σ.desk.wakeHead o) else none
  | .yielding w counts _ =>
    if (σ.desk.pinsOf tx).holds.size = 0 ∧ σ.isOpen then
      some (σ.goOn tx (.pausing w counts)
        (σ.desk.setPins tx { σ.desk.pinsOf tx with holds := .empty }).wakeHead)
    else none
  | .pausing w counts => some (σ.goOn tx (.drawing (.regain w counts)) σ.desk)
  | .releasing _ =>
    if (σ.desk.pinsOf tx).holds.size = 0 then
      some (σ.goOn tx .telling (σ.desk.setPins tx {}))
    else none
  | .telling =>
    some (if σ.desk.line.hasWaiters then σ.goOn tx .waking σ.desk else σ.rest tx σ.desk)
  | .waking => if σ.isOpen then some (σ.rest tx σ.desk.wakeHead) else none

/-- A transaction begins to ask for what it wants. A block that it holds is only counted, and one
that holds as many blocks as there are frames is refused. -/
def start (σ : Hall) (tx : TxId) (w : Wanted) : Hall :=
  match (σ.desk.pinsOf tx).hold? w with
  | some (b, h) => σ.rest tx (σ.desk.recount tx b h (h.refs + 1))
  | none =>
    if σ.desk.store.pool.size ≤ (σ.desk.pinsOf tx).holds.size then σ.rest tx σ.desk
    else σ.goOn tx (.trying w) σ.desk

def move (σ : Hall) : PinMove → Option Hall
  | .ask tx w => if σ.isIdle tx then some (σ.start tx w) else none
  | .unpin tx b =>
    if σ.isIdle tx then
      match (σ.desk.pinsOf tx).holds.find? b with
      | none => none
      | some h =>
        if 1 < h.refs then some (σ.rest tx (σ.desk.recount tx b h (h.refs - 1)))
        else (σ.desk.giveBack tx b).map (σ.goOn tx .telling)
    else none
  | .releaseAll tx =>
    if σ.isIdle tx then
      if (σ.desk.pinsOf tx).holds.size = 0 then some (σ.rest tx σ.desk)
      else some (σ.goOn tx (.releasing false) σ.desk)
    else none
  | .advance tx =>
    match σ.phases.find? tx with
    | none => none
    | some p => σ.advance tx p
  | .yield tx b =>
    match σ.phases.find? tx with
    | some (.yielding w counts _) =>
      (σ.desk.giveBack tx b).map (σ.goOn tx (.yielding w counts true))
    | some (.releasing _) => (σ.desk.giveBack tx b).map (σ.goOn tx (.releasing true))
    | _ => none
  | .stir tx =>
    match σ.phases.find? tx with
    | some (.parked r ticket) =>
      some (σ.goOn tx (.looking r ticket) (σ.desk.setLine (σ.desk.line.heed ticket)))
    | _ => none
  | .expire tx =>
    match σ.phases.find? tx with
    | some (.resting r ticket) => some (σ.goOn tx (.leaving r ticket .ranOut) σ.desk)
    | _ => none
  | .write i offset v tx lsn =>
    some (σ.atStore (σ.desk.store.editFrame i fun f => f.writeLogged offset v tx lsn).2)
  | .flush i => some (σ.atStore (σ.desk.store.flushFrame i).2)
  | .outage o => some (σ.atMedia { σ.media with log := { σ.media.log with outage := o } })
  | .fault cause => some (σ.atMedia { σ.media with disk := { σ.media.disk with fault := cause } })

def run (σ : Hall) : List PinMove → Option Hall
  | [] => some σ
  | m :: ms => (σ.move m).bind fun τ => τ.run ms

def Runs (σ τ : Hall) : Prop := ∃ ms, σ.run ms = some τ

variable {σ τ υ : Hall} {tx : TxId} {p p' : PinPhase} {d d' : Desk}

theorem Runs.refl (σ : Hall) : Runs σ σ := ⟨[], rfl⟩

theorem Runs.move {m : PinMove} (h : σ.move m = some τ) (k : Runs τ υ) : Runs σ υ := by
  obtain ⟨ms, hms⟩ := k
  exact ⟨m :: ms, by rw [run, h, Option.bind_some, hms]⟩

theorem run_append (σ : Hall) (ms ns : List PinMove) :
    σ.run (ms ++ ns) = (σ.run ms).bind fun τ => τ.run ns := by
  induction ms generalizing σ with
  | nil => rfl
  | cons m ms ih =>
    rw [List.cons_append, run, run]
    cases σ.move m with
    | none => rfl
    | some τ => exact ih τ

theorem Runs.trans (h : Runs σ τ) (k : Runs τ υ) : Runs σ υ := by
  obtain ⟨ms, hms⟩ := h
  obtain ⟨ns, hns⟩ := k
  exact ⟨ms ++ ns, by rw [run_append, hms, Option.bind_some, hns]⟩

@[simp] theorem desk_goOn (σ : Hall) (tx : TxId) (p : PinPhase) (d : Desk) :
    (σ.goOn tx p d).desk = d := rfl

@[simp] theorem goOn_goOn (σ : Hall) (tx : TxId) (p p' : PinPhase) (d d' : Desk) :
    (σ.goOn tx p d).goOn tx p' d' = σ.goOn tx p' d' := by
  rw [goOn, goOn, goOn, Registry.insert_insert]

@[simp] theorem rest_goOn (σ : Hall) (tx : TxId) (p : PinPhase) (d d' : Desk) :
    (σ.goOn tx p d).rest tx d' = σ.rest tx d' := by
  rw [rest, goOn, rest, Registry.erase_insert]

@[simp] theorem conclude_goOn (σ : Hall) (tx : TxId) (p : PinPhase) (r : Errand) (d d' : Desk)
    (o : Parting) : (σ.goOn tx p d).conclude tx r d' o = σ.conclude tx r d' o := by
  cases o <;> simp only [conclude, goOn_goOn, rest_goOn]

def OpenTo (σ : Hall) (tx : TxId) : Prop :=
  ∀ u p, σ.phases.find? u = some p → u ≠ tx → p.latched = false

theorem isOpen_iff : σ.isOpen ↔ ∀ u p, σ.phases.find? u = some p → p.latched = false := by
  simp only [isOpen, List.all_eq_true, Bool.not_eq_true']
  exact ⟨fun h u p hp => h (u, p) (Registry.find?_eq_some_iff.1 hp),
    fun h e he => h e.1 e.2 (Registry.find?_eq_some_iff.2 he)⟩

theorem OpenTo.isOpen (h : σ.OpenTo tx) (hp : p.latched = false) (d : Desk) :
    (σ.goOn tx p d).isOpen := by
  refine isOpen_iff.2 fun u q hq => ?_
  rw [goOn, Registry.find?_insert] at hq
  split at hq
  · cases hq
    exact hp
  · rename_i hu
    exact h u q hq hu

theorem Runs.goOn (h : (σ.goOn tx p d).advance tx p = some τ) (k : Runs τ υ) :
    Runs (σ.goOn tx p d) υ := by
  refine .move (m := .advance tx) ?_ k
  simpa [Hall.move, Hall.goOn] using h

end Hall

def PinWait.phase (u : PinWait) : PinPhase :=
  match u.stage with
  | .first ticket => .parked ⟨u.wanted, .first⟩ ticket
  | .pausing counts => .pausing u.wanted counts
  | .regaining ticket b refs rest => .parked ⟨u.wanted, .regaining b refs rest⟩ ticket
  | .last ticket => .parked ⟨u.wanted, .last⟩ ticket

namespace Hall

variable {σ : Hall} {tx : TxId}

def settle (σ : Hall) (tx : TxId) : PinProgress × Desk → Hall
  | (.done _, d) => σ.rest tx d
  | (.waits u, d) | (.sleepsOn u, d) => σ.goOn tx u.phase d

/-- No call of the pool crashed. -/
def Whole (p : PinProgress) : Prop := ∀ f, p = .done (.error f) → ∃ e, f = .error e

def turned (σ : Hall) (tx : TxId) (r : Errand) (ticket : Nat) : Turn × Desk → Hall
  | (.got i, d) => σ.conclude tx r d (.got i)
  | (.failed (.error e), d) => σ.conclude tx r d (.failed e)
  | (.failed _, d) => σ.rest tx d
  | (.ranOut, d) => σ.conclude tx r d .ranOut
  | (.asleep, d) => σ.goOn tx (.parked r ticket) d

theorem runs_leaving (h : σ.OpenTo tx) (r : Errand) (ticket : Nat) (o : Parting) (d : Desk) :
    Runs (σ.goOn tx (.leaving r ticket o) d) (σ.conclude tx r (d.leave ticket) o) := by
  refine .goOn (if_pos (h.isOpen rfl d)) ?_
  rw [goOn_goOn]
  refine .goOn rfl ?_
  rw [goOn_goOn]
  refine .goOn (if_pos (h.isOpen rfl _)) ?_
  rw [conclude_goOn]
  exact .refl _

theorem runs_resting (h : σ.OpenTo tx) (r : Errand) (ticket : Nat) (expired : Bool) (d : Desk) :
    Runs (σ.goOn tx (.resting r ticket) d) (σ.turned tx r ticket
      (if expired then (.ranOut, d.leave ticket) else (.asleep, d))) := by
  cases expired with
  | false =>
    refine .goOn rfl ?_
    rw [goOn_goOn]
    exact .refl _
  | true =>
    refine .move (m := .expire tx) (τ := σ.goOn tx (.leaving r ticket .ranOut) d) ?_
      (runs_leaving h r ticket .ranOut d)
    simp [Hall.move, goOn, Registry.insert_insert]

theorem runs_turn (h : σ.OpenTo tx) (r : Errand) (ticket : Nat) (expired : Bool) (d : Desk)
    (hw : ∀ f, (d.turn ticket r.asks expired).1 = .failed f → ∃ e, f = .error e) :
    Runs (σ.goOn tx (.looking r ticket) d)
      (σ.turned tx r ticket (d.turn ticket r.asks expired)) := by
  refine .goOn (if_pos (h.isOpen rfl d)) ?_
  rw [goOn_goOn, desk_goOn]
  unfold Desk.turn at hw ⊢
  dsimp only at hw ⊢
  by_cases hh : d.line.isHead ticket
  · simp only [hh, if_true] at hw ⊢
    cases hr : d.store.pin r.asks with
    | mk q s =>
      rw [hr] at hw
      rcases q with f | _ | i
      · obtain ⟨e, rfl⟩ := hw f (by cases f <;> rfl)
        exact .goOn (by simp only [advance, desk_goOn, hr, goOn_goOn])
          (runs_leaving h r ticket (.failed e) (d.setStore s))
      · exact .goOn (by simp only [advance, desk_goOn, hr, goOn_goOn])
          (runs_resting h r ticket expired (d.setStore s))
      · exact .goOn (by simp only [advance, desk_goOn, hr, goOn_goOn])
          (runs_leaving h r ticket (.got i) (d.setStore s))
  · simp only [hh, Bool.false_eq_true, if_false]
    exact runs_resting h r ticket expired d

theorem runs_join (h : σ.OpenTo tx) (r : Errand) (d : Desk) :
    Runs (σ.goOn tx (.drawing r) d) (σ.goOn tx (.looking r d.join.1) d.join.2) := by
  refine .goOn rfl ?_
  rw [goOn_goOn]
  refine .goOn (if_pos (h.isOpen rfl _)) ?_
  rw [goOn_goOn]
  refine .goOn rfl ?_
  rw [goOn_goOn]
  exact .refl _

theorem runs_afterTurn (h : σ.OpenTo tx) (r : Errand) (ticket : Nat) (expired : Bool) (d : Desk)
    {got : Nat → Desk → PinProgress × Desk} {ranOut asleep : Desk → PinProgress × Desk}
    (hw : Whole (Desk.afterTurn got ranOut asleep (d.turn ticket r.asks expired)).1)
    (hgot : ∀ i d, Whole (got i d).1 →
      Runs (σ.conclude tx r d (.got i)) (σ.settle tx (got i d)))
    (hran : ∀ d, Whole (ranOut d).1 → Runs (σ.conclude tx r d .ranOut) (σ.settle tx (ranOut d)))
    (hsleep : ∀ d, σ.settle tx (asleep d) = σ.goOn tx (.parked r ticket) d) :
    Runs (σ.goOn tx (.looking r ticket) d)
      (σ.settle tx (Desk.afterTurn got ranOut asleep (d.turn ticket r.asks expired))) := by
  have hturn := runs_turn h r ticket expired d fun f hf => by
    generalize d.turn ticket r.asks expired = q at hw hf
    obtain ⟨t, d'⟩ := q
    obtain rfl : t = .failed f := hf
    exact hw f rfl
  refine hturn.trans ?_
  generalize d.turn ticket r.asks expired = q at hw
  obtain ⟨t, d'⟩ := q
  cases t with
  | got i => exact hgot i d' hw
  | failed f =>
    obtain ⟨e, rfl⟩ := hw f rfl
    exact .refl _
  | ranOut => exact hran d' hw
  | asleep =>
    rw [Desk.afterTurn, hsleep]
    exact .refl _

theorem settle_finish (σ : Hall) (tx : TxId) (w : Wanted) (i : Nat) (d : Desk) :
    σ.settle tx (d.finish tx w i) = σ.rest tx (d.finish tx w i).2 := by
  unfold Desk.finish
  split
  · rfl
  · split <;> rfl

theorem runs_regain (h : σ.OpenTo tx) (w : Wanted) (counts : List (BlockId × Nat)) (d : Desk)
    (hw : Whole (Desk.regain tx w counts d).1) :
    Runs (σ.goOn tx (.drawing (.regain w counts)) d)
      (σ.settle tx (Desk.regain tx w counts d)) := by
  induction counts generalizing d with
  | nil =>
    refine (runs_join h ⟨w, .last⟩ d).trans ?_
    refine runs_afterTurn h ⟨w, .last⟩ _ _ _ hw (fun i d _ => ?_) (fun d _ => .refl _) fun d => rfl
    rw [settle_finish]
    exact .refl _
  | cons c rest ih =>
    refine (runs_join h ⟨w, .regaining c.1 c.2 rest⟩ d).trans ?_
    exact runs_afterTurn h ⟨w, .regaining c.1 c.2 rest⟩ _ _ _ hw (fun i d hw => ih _ hw)
      (fun d _ => .refl _) fun d => rfl

theorem runs_emptied (phase : Bool → PinPhase)
    (hyield : ∀ gave d b d', d.giveBack tx b = some d' →
      (σ.goOn tx (phase gave) d).move (.yield tx b) = some (σ.goOn tx (phase true) d'))
    (gave : Bool) {d : Desk} {s : Store}
    (hs : Desk.unpinFrames (d.heldFrames tx) d.store = (.ok (), s)) :
    ∃ gave' d', Runs (σ.goOn tx (phase gave) d) (σ.goOn tx (phase gave') d') ∧
      (d'.pinsOf tx).holds.size = 0 ∧ (d'.pinsOf tx).touched = (d.pinsOf tx).touched ∧
      ∀ p, d'.setPins tx p = (d.setStore s).setPins tx p := by
  generalize hes : (d.pinsOf tx).holds.entries = es
  rw [Desk.heldFrames, hes] at hs
  induction es generalizing gave d with
  | nil =>
    cases hs
    exact ⟨gave, d, .refl _, by rw [Registry.size, hes]; rfl, rfl, fun _ => rfl⟩
  | cons e es ih =>
    rw [List.map_cons, Desk.unpinFrames] at hs
    cases hu : d.store.unpin e.2.frame with
    | mk q s₁ =>
      rw [hu] at hs
      cases q with
      | error f => cases hs
      | ok _ =>
        have hfind : (d.pinsOf tx).holds.find? e.1 = some e.2 :=
          Registry.find?_eq_some_iff.2 (hes ▸ List.mem_cons_self)
        have hback : d.giveBack tx e.1 = some ((d.setStore s₁).setPins tx
            { d.pinsOf tx with holds := (d.pinsOf tx).holds.erase e.1 }) := by
          simp only [Desk.giveBack, hfind, hu]
        have hrest : ((d.pinsOf tx).holds.erase e.1).entries = es := by
          -- the key does not come again
          have hd := (d.pinsOf tx).holds.distinct
          rw [hes, List.map_cons, List.nodup_cons] at hd
          simp only [Registry.erase, hes]
          rw [List.filter_cons_of_neg (by simp), List.filter_eq_self]
          exact fun x hx => decide_eq_true fun he => hd.1 (he ▸ List.mem_map_of_mem hx)
        obtain ⟨gave', d', hruns, hsize, htouched, hset⟩ :=
          ih true (d := (d.setStore s₁).setPins tx
            { d.pinsOf tx with holds := (d.pinsOf tx).holds.erase e.1 }) hs
            (by rw [Desk.pinsOf_setPins_self]; exact hrest)
        refine ⟨gave', d', .move (hyield gave d e.1 _ hback) hruns, hsize, ?_, fun p => ?_⟩
        · rw [htouched, Desk.pinsOf_setPins_self]
        · rw [hset]
          simp only [Desk.setPins, Desk.setStore, Registry.insert_insert]

theorem unpin_error {s s' : Store} {i : Nat} {f : Failure} (h : s.unpin i = (.error f, s')) :
    ∃ c, f = .crash c := by
  unfold Store.unpin Pool.unpin at h
  dsimp only at h
  split at h
  · cases h
    exact ⟨_, rfl⟩
  · split at h
    · cases h
      exact ⟨_, rfl⟩
    · cases h

theorem unpinFrames_error {frames : List Nat} {s s' : Store} {f : Failure}
    (h : Desk.unpinFrames frames s = (.error f, s')) : ∃ c, f = .crash c := by
  induction frames generalizing s with
  | nil => cases h
  | cons i rest ih =>
    rw [Desk.unpinFrames] at h
    cases hu : s.unpin i with
    | mk q s₁ =>
      rw [hu] at h
      cases q with
      | error g =>
        cases h
        exact unpin_error hu
      | ok _ => exact ih h

theorem runs_giveUp (h : σ.OpenTo tx) (w : Wanted) (d : Desk) (hw : Whole (d.giveUp tx w).1) :
    Runs (σ.conclude tx ⟨w, .first⟩ d .ranOut) (σ.settle tx (d.giveUp tx w)) := by
  unfold Desk.giveUp at hw ⊢
  dsimp only at hw ⊢
  cases hs : Desk.unpinFrames (d.heldFrames tx) d.store with
  | mk q s =>
    unfold Desk.heldFrames at hs
    rw [hs] at hw ⊢
    cases q with
    | error f =>
      obtain ⟨c, rfl⟩ := unpinFrames_error hs
      obtain ⟨e, he⟩ := hw _ rfl
      cases he
    | ok _ =>
      obtain ⟨gave, d', hruns, hsize, htouched, hset⟩ :=
        runs_emptied (σ := σ) (.yielding w (d.pinsOf tx).counts)
          (fun gave d b d' hb => by simp [Hall.move, goOn, hb, Registry.insert_insert]) false hs
      refine hruns.trans (.goOn (if_pos ⟨hsize, h.isOpen rfl d'⟩) ?_)
      have hempty : d'.setPins tx { d'.pinsOf tx with holds := .empty }
          = (d.setStore s).setPins tx { d.pinsOf tx with holds := .empty } := by
        rw [hset]
        simp only [htouched]
      rw [goOn_goOn, desk_goOn, hempty]
      exact .refl _

theorem runs_ask (h : σ.OpenTo tx) (w : Wanted) (d : Desk) (hw : Whole (d.ask tx w).1)
    (hroom : ¬ d.store.pool.size ≤ (d.pinsOf tx).holds.size) :
    Runs (σ.goOn tx (.trying w) d) (σ.settle tx (d.ask tx w)) := by
  have hstep : (σ.goOn tx (.trying w) d).advance tx (.trying w) = match d.store.pin w with
      | (.ok (some i), s) => some (σ.rest tx ((d.setStore s).finish tx w i).2)
      | (.ok none, s) => some (σ.goOn tx (.drawing ⟨w, .first⟩) (d.setStore s))
      | (.error (.error _), s) => some (σ.rest tx (d.setStore s))
      | (.error _, _) => none := by
    simp only [advance, desk_goOn, goOn_goOn, rest_goOn]
  unfold Desk.ask at hw ⊢
  rw [if_neg hroom] at hw ⊢
  cases hr : d.store.pin w with
  | mk q s =>
    rw [hr] at hw hstep
    rcases q with f | _ | i
    · obtain ⟨e, rfl⟩ := hw f rfl
      exact .goOn hstep (.refl _)
    · refine .goOn hstep ((runs_join h ⟨w, .first⟩ (d.setStore s)).trans ?_)
      exact runs_afterTurn h ⟨w, .first⟩ _ _ _ hw
        (fun i d _ => by rw [settle_finish]; exact .refl _)
        (fun d hw => runs_giveUp h w d hw) fun d => rfl
    · refine .goOn hstep ?_
      dsimp only
      rw [← Desk.setStore, settle_finish]
      exact .refl _

theorem runs_pin (h : σ.OpenTo tx) (hidle : σ.phases.find? tx = none) (w : Wanted)
    (hw : Whole (σ.desk.pin tx w).1) : Runs σ (σ.settle tx (σ.desk.pin tx w)) := by
  have hask : σ.move (.ask tx w) = some (σ.start tx w) := if_pos (by simp [isIdle, hidle])
  refine .move hask ?_
  unfold start
  cases hh : (σ.desk.pinsOf tx).hold? w with
  | some bh =>
    obtain ⟨b, hold⟩ := bh
    cases w with
    | fresh file format => cases hh
    | block c =>
      simp only [Pins.hold?, Option.map_eq_some_iff, Prod.mk.injEq] at hh
      obtain ⟨_, hfind, rfl, rfl⟩ := hh
      simp only [Desk.pin, hfind]
      exact .refl _
  | none =>
    have hpin : σ.desk.pin tx w = σ.desk.ask tx w := by
      cases w with
      | fresh file format => rfl
      | block b =>
        rw [Pins.hold?, Option.map_eq_none_iff] at hh
        simp only [Desk.pin, hh]
    rw [hpin] at hw ⊢
    dsimp only
    split
    · rename_i hfull
      rw [Desk.ask, if_pos hfull]
      exact .refl _
    · rename_i hroom
      exact runs_ask h w σ.desk hw hroom

theorem runs_resume (h : σ.OpenTo tx) (u : PinWait) (hu : σ.phases.find? tx = some u.phase)
    (expired : Bool) (hw : Whole (σ.desk.resume tx u expired).1) :
    Runs σ (σ.settle tx (σ.desk.resume tx u expired)) := by
  have hstir : ∀ r ticket, u.phase = .parked r ticket → σ.move (.stir tx) =
      some (σ.goOn tx (.looking r ticket) (σ.desk.setLine (σ.desk.line.heed ticket))) :=
    fun r ticket hp => by simp only [Hall.move, hu, hp]
  obtain ⟨w, stage⟩ := u
  cases stage with
  | pausing counts =>
    refine .move (m := .advance tx) (τ := σ.goOn tx (.drawing (.regain w counts)) σ.desk) ?_
      (runs_regain h w counts σ.desk hw)
    simp only [Hall.move, hu, PinWait.phase, advance]
  | first ticket =>
    refine .move (hstir ⟨w, .first⟩ ticket rfl) ?_
    exact runs_afterTurn h ⟨w, .first⟩ _ _ _ hw
      (fun i d _ => by rw [settle_finish]; exact .refl _)
      (fun d hw => runs_giveUp h w d hw) fun d => rfl
  | regaining ticket b refs rest =>
    refine .move (hstir ⟨w, .regaining b refs rest⟩ ticket rfl) ?_
    exact runs_afterTurn h ⟨w, .regaining b refs rest⟩ _ _ _ hw
      (fun i d hw => runs_regain h w rest _ hw) (fun d _ => .refl _) fun d => rfl
  | last ticket =>
    refine .move (hstir ⟨w, .last⟩ ticket rfl) ?_
    exact runs_afterTurn h ⟨w, .last⟩ _ _ _ hw
      (fun i d _ => by rw [settle_finish]; exact .refl _)
      (fun d _ => .refl _) fun d => rfl

theorem runs_telling (h : σ.OpenTo tx) (d : Desk) :
    Runs (σ.goOn tx .telling d) (σ.rest tx d.tellFree) := by
  refine .goOn rfl ?_
  rw [desk_goOn, Desk.tellFree]
  cases d.line.hasWaiters with
  | false =>
    simp only [Bool.false_eq_true, if_false, rest_goOn]
    exact .refl _
  | true =>
    simp only [if_true, goOn_goOn]
    refine .goOn (if_pos (h.isOpen rfl d)) ?_
    rw [rest_goOn]
    exact .refl _

theorem runs_unpin (h : σ.OpenTo tx) (hidle : σ.phases.find? tx = none) (b : BlockId)
    (hok : (σ.desk.unpin tx b).1 = .ok ()) : Runs σ (σ.rest tx (σ.desk.unpin tx b).2) := by
  have hmove : σ.isIdle tx := by simp [isIdle, hidle]
  unfold Desk.unpin at hok ⊢
  dsimp only at hok ⊢
  cases hh : (σ.desk.pinsOf tx).holds.find? b with
  | none => simp only [hh, reduceCtorEq] at hok
  | some hold =>
    simp only [hh] at hok ⊢
    by_cases hrefs : 1 < hold.refs
    · simp only [hrefs, if_true] at hok ⊢
      exact .move (m := .unpin tx b) (by simp only [Hall.move, hmove, hh, hrefs, if_true]; rfl)
        (.refl _)
    · simp only [hrefs, if_false] at hok ⊢
      cases hu : σ.desk.store.unpin hold.frame with
      | mk q s =>
        simp only [hu] at hok ⊢
        cases q with
        | error f => cases hok
        | ok _ =>
          refine .move (m := .unpin tx b) ?_ (runs_telling h _)
          simp only [Hall.move, hmove, hh, hrefs, if_true, if_false, Desk.giveBack, hu,
            Option.map_some]
          rfl

theorem runs_releaseAll (h : σ.OpenTo tx) (hidle : σ.phases.find? tx = none)
    (hok : (σ.desk.releaseAll tx).1 = .ok ()) : Runs σ (σ.rest tx (σ.desk.releaseAll tx).2) := by
  have hmove : σ.isIdle tx := by simp [isIdle, hidle]
  unfold Desk.releaseAll at hok ⊢
  dsimp only at hok ⊢
  by_cases hsize : (σ.desk.pinsOf tx).holds.size = 0
  · simp only [hsize, if_true]
    exact .move (m := .releaseAll tx) (by simp only [Hall.move, hmove, hsize, if_true]) (.refl _)
  · simp only [hsize, if_false] at hok ⊢
    cases hs : Desk.unpinFrames (σ.desk.heldFrames tx) σ.desk.store with
    | mk q s =>
      unfold Desk.heldFrames at hs
      rw [hs] at hok ⊢
      cases q with
      | error f => cases hok
      | ok _ =>
        obtain ⟨gave, d', hruns, hempty, -, hset⟩ := runs_emptied (σ := σ) .releasing
          (fun gave d b d' hb => by simp [Hall.move, goOn, hb, Registry.insert_insert]) false hs
        refine .move (m := .releaseAll tx) (τ := σ.goOn tx (.releasing false) σ.desk)
          (by simp only [Hall.move, hmove, hsize, if_true, if_false]) (hruns.trans ?_)
        refine .goOn (if_pos hempty) ?_
        rw [goOn_goOn, desk_goOn, hset]
        exact runs_telling h _

inductive Call (σ : Hall) : Hall → Prop
  | pin {tx : TxId} {w : Wanted} (hidle : σ.phases.find? tx = none)
      (hw : Whole (σ.desk.pin tx w).1) : Call σ (σ.settle tx (σ.desk.pin tx w))
  | resume {tx : TxId} {u : PinWait} {expired : Bool} (hu : σ.phases.find? tx = some u.phase)
      (hw : Whole (σ.desk.resume tx u expired).1) :
      Call σ (σ.settle tx (σ.desk.resume tx u expired))
  | unpin {tx : TxId} {b : BlockId} (hidle : σ.phases.find? tx = none)
      (hok : (σ.desk.unpin tx b).1 = .ok ()) : Call σ (σ.rest tx (σ.desk.unpin tx b).2)
  | releaseAll {tx : TxId} (hidle : σ.phases.find? tx = none)
      (hok : (σ.desk.releaseAll tx).1 = .ok ()) : Call σ (σ.rest tx (σ.desk.releaseAll tx).2)

inductive Calls (σ : Hall) : Hall → Prop
  | refl : Calls σ σ
  | snoc {τ υ : Hall} (h : Calls σ τ) (c : τ.Call υ) : Calls σ υ

/-- Every call that has not come to its end waits. -/
def Settled (σ : Hall) : Prop :=
  ∀ u p, σ.phases.find? u = some p → ∃ w : PinWait, p = w.phase

variable {τ : Hall}

theorem Settled.openTo (h : σ.Settled) (tx : TxId) : σ.OpenTo tx := by
  intro u p hp _
  obtain ⟨⟨w, stage⟩, rfl⟩ := h u p hp
  cases stage <;> rfl

theorem Settled.rest (h : σ.Settled) (tx : TxId) (d : Desk) : (σ.rest tx d).Settled :=
  fun u p hp => h u p (Registry.find?_of_erase hp).2

theorem Settled.settle (h : σ.Settled) (tx : TxId) (r : PinProgress × Desk) :
    (σ.settle tx r).Settled := by
  have hwaits : ∀ (w : PinWait) d, (σ.goOn tx w.phase d).Settled := by
    intro w d u p hp
    rw [goOn, Registry.find?_insert] at hp
    split at hp
    · cases hp
      exact ⟨w, rfl⟩
    · exact h u p hp
  obtain ⟨q, d⟩ := r
  cases q with
  | done o => exact h.rest tx d
  | waits w => exact hwaits w d
  | sleepsOn w => exact hwaits w d

/-- Whole calls, one after the other, are a run of their steps. -/
theorem Calls.runs (h : σ.Calls τ) (hσ : σ.Settled) : Runs σ τ ∧ τ.Settled := by
  induction h with
  | refl => exact ⟨.refl σ, hσ⟩
  | snoc _ c ih =>
    obtain ⟨hr, hs⟩ := ih
    cases c with
    | pin hidle hw => exact ⟨hr.trans (runs_pin (hs.openTo _) hidle _ hw), hs.settle _ _⟩
    | resume hu hw => exact ⟨hr.trans (runs_resume (hs.openTo _) _ hu _ hw), hs.settle _ _⟩
    | unpin hidle hok => exact ⟨hr.trans (runs_unpin (hs.openTo _) hidle _ hok), hs.rest _ _⟩
    | releaseAll hidle hok =>
      exact ⟨hr.trans (runs_releaseAll (hs.openTo _) hidle hok), hs.rest _ _⟩

end Hall

end PagedStore
