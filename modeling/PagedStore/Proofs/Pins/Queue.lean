import PagedStore.Proofs.Pins.Acts
import PagedStore.Proofs.Pool.Refused

set_option autoImplicit false

/-!
The line for frames loses no signal and serves its head only, whatever comes between the steps of a
call. Main statement: `Hall.no_signal_lost`. `Hall.Ordered` says that the tickets in line are those
of the requests that got in and did not leave; `Hall.Told`, that the head of the line, when it is
not to look again, is refused what it asks for, or somebody is about to wake it.
-/

namespace PagedStore

namespace PinPhase

/-- The ticket that a request has drawn and not given up. -/
def drawn? : PinPhase → Option Nat
  | .joining _ k | .joined _ k | .looking _ k | .asking _ k | .resting _ k | .parked _ k
  | .leaving _ k _ => some k
  | _ => none

def place? : PinPhase → Option Nat
  | .joined _ k | .looking _ k | .asking _ k | .resting _ k | .parked _ k | .leaving _ k _ => some k
  | _ => none

def asking? : PinPhase → Option Nat
  | .asking _ k => some k
  | _ => none

/-- By how much the line has got longer since its length was noted. -/
def unnoted? : PinPhase → Option Int
  | .joined _ _ => some 1
  | .struck _ _ => some (-1)
  | _ => none

/-- A request that has looked, and will look again when it is stirred. -/
def rests? : PinPhase → Option (Errand × Nat)
  | .resting r k | .parked r k => some (r, k)
  | _ => none

/-- A transaction has given back a frame, and has not yet told the line. -/
def released : PinPhase → Bool
  | .yielding _ _ gave | .releasing gave => gave
  | .telling | .waking => true
  | _ => false

/-- A wait begins when the request gets into line, and ends when it has woken the next. -/
def waits : PinPhase → Bool
  | .joined _ _ | .looking _ _ | .asking _ _ | .resting _ _ | .parked _ _ | .leaving _ _ _
  | .struck _ _ | .left _ _ => true
  | _ => false

def sleeps : PinPhase → Bool
  | .parked _ _ => true
  | _ => false

def departs : PinPhase → Bool
  | .struck _ _ | .left _ _ => true
  | _ => false

def owes (p : PinPhase) : Bool := p.released || p.departs

variable {p : PinPhase} {k : Nat}

theorem drawn_of_place (h : p.place? = some k) : p.drawn? = some k := by
  cases p <;> cases h <;> rfl

theorem place_of_rests {r : Errand} (h : p.rests? = some (r, k)) : p.place? = some k := by
  cases p <;> cases h <;> rfl

theorem place_of_asking (h : p.asking? = some k) : p.place? = some k := by
  cases p <;> cases h
  rfl

theorem latched_iff : p.latched = false ↔ p.unnoted? = none := by
  cases p <;> simp [latched, unnoted?]

theorem waits_of_place (h : p.place? = some k) : p.waits = true := by
  cases p <;> cases h <;> rfl

theorem exists_of_sleeps (h : p.sleeps = true) : ∃ r k, p = .parked r k := by
  cases p <;> first | exact ⟨_, _, rfl⟩ | cases h

theorem waits_of_departs (h : p.departs = true) : p.waits = true ∧ p.sleeps = false := by
  cases p <;> cases h <;> exact ⟨rfl, rfl⟩

end PinPhase

namespace Line

variable {l l' : Line} {k : Nat}

theorem isHead_iff : l.isHead k ↔ l.tickets.head? = some k := by
  rw [isHead, tickets, List.head?_map, decide_eq_true_iff]

theorem isHead_congr (h : l'.tickets = l.tickets) : l'.isHead k = l.isHead k := by
  rw [Bool.eq_iff_iff, isHead_iff, isHead_iff, h]

@[simp] theorem length_tickets (l : Line) : l.tickets.length = l.waiters.length :=
  List.length_map ..

theorem tickets_push (l : Line) (k : Nat) : (l.push k).tickets = l.tickets ++ [k] := by
  simp [tickets, push]

theorem tickets_strike (l : Line) (k : Nat) :
    (l.strike k).tickets = l.tickets.filter fun j => j ≠ k := by
  simp [tickets, strike, List.filter_map, Function.comp_def]

/-- The head of the line has a signal that it has not used up. -/
def alerted (l : Line) : Bool := l.waiters.head?.any Waiter.signalled

theorem alerted_wakeHead (hh : l.wakeHead.isHead k) : l.wakeHead.alerted := by
  cases hw : l.waiters with
  | nil => simp [isHead, wakeHead, hw] at hh
  | cons w ws => simp [alerted, wakeHead, hw]

theorem waiting_wakeHead (l : Line) : l.wakeHead.waiting = l.waiting := by
  unfold wakeHead
  split <;> rfl

theorem nextTicket_wakeHead (l : Line) : l.wakeHead.nextTicket = l.nextTicket := by
  unfold wakeHead
  split <;> rfl

theorem alerted_heed {j : Nat} (hh : l.isHead j) (hj : j ≠ k) (ha : l.alerted) :
    (l.heed k).alerted := by
  cases hw : l.waiters with
  | nil =>
    rw [isHead, hw] at hh
    cases hh
  | cons w ws =>
    simp only [isHead, hw, List.head?_cons, Option.map_some, Option.some.injEq, decide_eq_true_eq,
      alerted, Option.any_some] at hh ha
    have hne : w.ticket ≠ k := fun he => hj (hh.symm.trans he)
    simp only [alerted, heed, hw, List.map_cons, List.head?_cons, Option.any_some, if_neg hne]
    exact ha

end Line

theorem Store.Beside.refuses {s s' : Store} (h : s.Beside s') {w : Wanted} (hr : s.Refuses w) :
    s'.Refuses w := by
  cases h with
  | wrote i offset v tx lsn =>
    refine hr.same ?_ (Store.table_editFrame ..)
    exact Store.samePins_editFrame s i fun _ _ hg => (Frame.of_writeLogged hg).2.2.1
  | flushed i => exact hr.same (Store.samePins_flushFrame s i) (Store.table_flushFrame s i)
  | turned hm => exact ⟨hr.full, hr.uncached⟩

namespace Hall

variable {σ τ υ ω : Hall} {tx : TxId} {p p' : Option PinPhase} {d : Desk} {α : Type}

def read (σ : Hall) (f : PinPhase → Option α) (tx : TxId) : Option α := (σ.phases.find? tx).bind f

theorem read_put (f : PinPhase → Option α) (u : TxId) :
    (σ.put tx p' d).read f u = if u = tx then p'.bind f else σ.read f u := by
  rw [read, find?_put]
  split <;> rfl

theorem read_put_of_ne (f : PinPhase → Option α) {u : TxId} (h : u ≠ tx) :
    (σ.put tx p' d).read f u = σ.read f u := by
  rw [read_put, if_neg h]

@[simp] theorem read_put_self (f : PinPhase → Option α) :
    (σ.put tx p' d).read f tx = p'.bind f := by
  rw [read_put, if_pos rfl]

theorem read_put_of_eq {f : PinPhase → Option α} (h : p'.bind f = σ.read f tx) (u : TxId) :
    (σ.put tx p' d).read f u = σ.read f u := by
  rw [read_put]
  split
  · rename_i hu
    rw [hu, h]
  · rfl

theorem isOpen_iff_read : σ.isOpen ↔ ∀ u, σ.read PinPhase.unnoted? u = none := by
  rw [isOpen_iff]
  constructor
  · intro h u
    rw [read, Option.bind_eq_none_iff]
    exact fun p hp => PinPhase.latched_iff.1 (h u p hp)
  · intro h u p hp
    exact PinPhase.latched_iff.2 (Option.bind_eq_none_iff.1 (h u) p hp)

/-- The tickets in line are those of the requests that got in and did not leave, one for each. -/
structure Ordered (σ : Hall) : Prop where
  nodup : σ.desk.line.tickets.Nodup
  below : ∀ u k, σ.read PinPhase.drawn? u = some k → k < σ.desk.line.nextTicket
  apart : ∀ u v k, σ.read PinPhase.drawn? u = some k → σ.read PinPhase.drawn? v = some k → u = v
  placed : ∀ k, k ∈ σ.desk.line.tickets ↔ ∃ u, σ.read PinPhase.place? u = some k
  head : ∀ u k, σ.read PinPhase.asking? u = some k → σ.desk.line.isHead k

/-- The length of the line is noted, unless it has just changed, by one who keeps the line to
itself. -/
structure Noted (σ : Hall) : Prop where
  once : ∀ u v x y, σ.read PinPhase.unnoted? u = some x →
    σ.read PinPhase.unnoted? v = some y → u = v
  same : σ.isOpen → σ.desk.line.waiting = σ.desk.line.tickets.length
  changed : ∀ u x, σ.read PinPhase.unnoted? u = some x →
    (σ.desk.line.tickets.length : Int) = σ.desk.line.waiting + x

theorem drawn_of_place {u : TxId} {k : Nat} (h : σ.read PinPhase.place? u = some k) :
    σ.read PinPhase.drawn? u = some k := by
  obtain ⟨p, hp, hk⟩ := Option.bind_eq_some_iff.1 h
  exact Option.bind_eq_some_iff.2 ⟨p, hp, PinPhase.drawn_of_place hk⟩

inductive LineAct (σ : Hall) : Option PinPhase → Option PinPhase → Line → Prop
  | calm {p p' : Option PinPhase} {l : Line} (ht : l.tickets = σ.desk.line.tickets)
      (hw : l.waiting = σ.desk.line.waiting) (hn : l.nextTicket = σ.desk.line.nextTicket)
      (hd : p'.bind PinPhase.drawn? = p.bind PinPhase.drawn?)
      (hp : p'.bind PinPhase.place? = p.bind PinPhase.place?)
      (hu : p.bind PinPhase.unnoted? = none) (hu' : p'.bind PinPhase.unnoted? = none)
      (hh : ∀ k, p'.bind PinPhase.asking? = some k → σ.desk.line.isHead k) : LineAct σ p p' l
  | drew {r : Errand} : LineAct σ (some (.drawing r)) (some (.joining r σ.desk.line.draw.1))
      σ.desk.line.draw.2
  | joined {r : Errand} {k : Nat} (ho : σ.isOpen) :
      LineAct σ (some (.joining r k)) (some (.joined r k)) (σ.desk.line.push k)
  | lengthened {r : Errand} {k : Nat} :
      LineAct σ (some (.joined r k)) (some (.looking r k)) σ.desk.line.measure
  | left {r : Errand} {k : Nat} {o : Parting} (ho : σ.isOpen) :
      LineAct σ (some (.leaving r k o)) (some (.struck r o)) (σ.desk.line.strike k)
  | shortened {r : Errand} {o : Parting} :
      LineAct σ (some (.struck r o)) (some (.left r o)) σ.desk.line.measure

theorem LineAct.woken (hd : p'.bind PinPhase.drawn? = p.bind PinPhase.drawn?)
    (hp : p'.bind PinPhase.place? = p.bind PinPhase.place?)
    (hu : p.bind PinPhase.unnoted? = none) (hu' : p'.bind PinPhase.unnoted? = none)
    (hh : p'.bind PinPhase.asking? = none) : LineAct σ p p' σ.desk.line.wakeHead :=
  .calm (Line.tickets_wakeHead _) (Line.waiting_wakeHead _) (Line.nextTicket_wakeHead _) hd hp hu
    hu' fun k h => by
      rw [hh] at h
      cases h

theorem line_giveBack {d d' : Desk} {b : BlockId} (h : d.giveBack tx b = some d') :
    d'.line = d.line := by
  obtain ⟨k, s, -, -, rfl⟩ := Desk.of_giveBack h
  rfl

theorem line_finish (d : Desk) (w : Wanted) (i : Nat) : (d.finish tx w i).2.line = d.line := by
  unfold Desk.finish
  split
  · rfl
  · split <;> rfl

theorem lineAct (h : σ.Act tx p p' d) : σ.LineAct p p' d.line := by
  have hno : ∀ k, (none : Option Nat) = some k → σ.desk.line.isHead k := nofun
  cases h with
  | counted | idled | began | releases | missed | erred | got | none | failed | slept | ranOut
  | resumed | emptied | heard | alone | behind => exact .calm rfl rfl rfl rfl rfl rfl rfl hno
  | unpinned hd | yielded hd | released hd =>
    rw [line_giveBack hd]
    exact .calm rfl rfl rfl rfl rfl rfl rfl hno
  | found hr =>
    rw [line_finish]
    exact .calm rfl rfl rfl rfl rfl rfl rfl hno
  | drew => exact .drew
  | joined ho => exact .joined ho
  | lengthened => exact .lengthened
  | ahead hh =>
    refine .calm rfl rfl rfl rfl rfl rfl rfl ?_
    rintro k ⟨⟩
    exact hh
  | stirred => exact .calm (Line.tickets_heed ..) rfl rfl rfl rfl rfl rfl hno
  | left ho => exact .left ho
  | shortened => exact .shortened
  | finished ha =>
    rw [line_finish]
    exact .woken rfl rfl rfl rfl rfl
  | regained | gaveUp | yields | paused | told => exact .woken rfl rfl rfl rfl rfl

variable {l : Line}

theorem LineAct.nextTicket_le (h : σ.LineAct p p' l) : σ.desk.line.nextTicket ≤ l.nextTicket := by
  cases h with
  | calm ht hw hn => exact Nat.le_of_eq hn.symm
  | drew => exact Nat.le_succ _
  | joined | lengthened | left | shortened => exact Nat.le_refl _

theorem LineAct.drawn (h : σ.LineAct p p' l) {k : Nat} (hk : p'.bind PinPhase.drawn? = some k) :
    p.bind PinPhase.drawn? = some k ∨ (k = σ.desk.line.nextTicket ∧ k < l.nextTicket) := by
  cases h with
  | calm ht hw hn hd => exact .inl (hd ▸ hk)
  | drew =>
    cases hk
    exact .inr ⟨rfl, Nat.lt_succ_self _⟩
  | joined | lengthened => exact .inl hk
  | left | shortened => cases hk

theorem LineAct.mem_tickets (h : σ.LineAct p p' l) (hp : ∀ k, p.bind PinPhase.place? = some k →
    k ∈ σ.desk.line.tickets) (k : Nat) : k ∈ l.tickets ↔
      (k ∈ σ.desk.line.tickets ∧ p.bind PinPhase.place? ≠ some k) ∨
        p'.bind PinPhase.place? = some k := by
  have hsame : ∀ {q : Option PinPhase}, q.bind PinPhase.place? = p.bind PinPhase.place? →
      (k ∈ σ.desk.line.tickets ↔ (k ∈ σ.desk.line.tickets ∧ p.bind PinPhase.place? ≠ some k) ∨
        q.bind PinPhase.place? = some k) := by
    intro q hq
    rw [hq]
    by_cases hk : p.bind PinPhase.place? = some k
    · exact iff_of_true (hp k hk) (.inr hk)
    · exact ⟨fun h => .inl ⟨h, hk⟩, fun h => (h.resolve_right hk).1⟩
  cases h with
  | calm ht hw hn hd hpl =>
    rw [ht]
    exact hsame hpl
  | drew => exact hsame rfl
  | @joined r k₀ =>
    rw [Line.tickets_push, List.mem_append, List.mem_singleton]
    refine or_congr ⟨fun h => ⟨h, nofun⟩, And.left⟩ ?_
    exact eq_comm.trans (Option.some_inj (a := k₀)).symm
  | lengthened => exact hsame rfl
  | @left r k₀ =>
    rw [Line.tickets_strike, List.mem_filter, decide_eq_true_eq]
    refine ⟨fun h => .inl ⟨h.1, fun he => h.2 (Option.some.inj he).symm⟩, fun h => ?_⟩
    obtain ⟨hk, hne⟩ := h.resolve_right nofun
    exact ⟨hk, fun he => hne (congrArg some he.symm)⟩
  | shortened => exact hsame rfl

theorem LineAct.nodup (h : σ.LineAct p p' l) (hd : σ.desk.line.tickets.Nodup)
    (hnew : ∀ r k, p = some (.joining r k) → k ∉ σ.desk.line.tickets) : l.tickets.Nodup := by
  cases h with
  | calm ht => exact ht ▸ hd
  | drew | lengthened | shortened => exact hd
  | joined =>
    rw [Line.tickets_push]
    refine List.nodup_append.2 ⟨hd, by simp, fun a ha b hb he => hnew _ _ rfl ?_⟩
    rw [← List.mem_singleton.1 hb, ← he]
    exact ha
  | left =>
    rw [Line.tickets_strike]
    exact hd.filter _

theorem LineAct.isHead (h : σ.LineAct p p' l) {k : Nat} (hk : σ.desk.line.isHead k)
    (hne : p.bind PinPhase.place? ≠ some k) : l.isHead k := by
  rw [Line.isHead_iff] at hk ⊢
  cases h with
  | calm ht => exact ht ▸ hk
  | drew | lengthened | shortened => exact hk
  | joined => rw [Line.tickets_push, List.head?_append, hk, Option.some_or]
  | @left r k₀ =>
    rw [Line.tickets_strike]
    cases ht : σ.desk.line.tickets with
    | nil =>
      rw [ht] at hk
      cases hk
    | cons j js =>
      obtain rfl : j = k := by
        rw [ht] at hk
        exact Option.some.inj hk
      have hj : j ≠ k₀ := fun he => hne (congrArg some he.symm)
      rw [List.filter_cons_of_pos (by simpa using hj)]
      rfl

theorem LineAct.isHead_of_asking (h : σ.LineAct p p' l) {k : Nat}
    (hp : p'.bind PinPhase.asking? = some k) : l.isHead k := by
  cases h with
  | calm ht hw hn hd hpl hu hu' hh =>
    rw [Line.isHead_congr ht]
    exact hh k hp
  | drew | joined | lengthened | left | shortened => cases hp

/-- How the noted length and the length come apart, and together again. -/
theorem LineAct.noted (h : σ.LineAct p p' l) (hd : σ.desk.line.tickets.Nodup)
    (hp : ∀ k, p.bind PinPhase.place? = some k → k ∈ σ.desk.line.tickets)
    (hopen : σ.isOpen → σ.desk.line.waiting = σ.desk.line.tickets.length) :
    (l.waiting = σ.desk.line.waiting ∧ l.tickets.length = σ.desk.line.tickets.length ∧
      p'.bind PinPhase.unnoted? = p.bind PinPhase.unnoted?) ∨
    (σ.isOpen ∧ ∃ x, p'.bind PinPhase.unnoted? = some x ∧
      (l.tickets.length : Int) = l.waiting + x) ∨
    ((∃ x, p.bind PinPhase.unnoted? = some x) ∧ p'.bind PinPhase.unnoted? = none ∧
      l.waiting = l.tickets.length) := by
  cases h with
  | calm ht hw hn hd hpl hu hu' => exact .inl ⟨hw, congrArg _ ht, hu'.trans hu.symm⟩
  | drew => exact .inl ⟨rfl, rfl, rfl⟩
  | @joined r k ho =>
    refine .inr (.inl ⟨ho, 1, rfl, ?_⟩)
    have hlen := hopen ho
    have hsame : (σ.desk.line.push k).waiting = σ.desk.line.waiting := rfl
    rw [Line.tickets_push, List.length_append, List.length_singleton, hsame]
    omega
  | lengthened | shortened => exact .inr (.inr ⟨⟨_, rfl⟩, rfl, (Line.length_tickets _).symm⟩)
  | @left r k o ho =>
    refine .inr (.inl ⟨ho, -1, rfl, ?_⟩)
    have hlen := hopen ho
    have hmem := hp k rfl
    have hpos := List.length_pos_of_mem hmem
    have herase : (σ.desk.line.tickets.filter fun j => j ≠ k).length =
        σ.desk.line.tickets.length - 1 := by
      rw [← List.length_erase_of_mem hmem, hd.erase_eq_filter]
      exact congrArg _ (List.filter_congr fun j _ => by by_cases hj : j = k <;> simp [hj])
    have hsame : (σ.desk.line.strike k).waiting = σ.desk.line.waiting := rfl
    rw [Line.tickets_strike, herase, hsame]
    omega

theorem Ordered.standing (h : σ.Ordered) (tx : TxId) (k : Nat)
    (hk : (σ.phases.find? tx).bind PinPhase.place? = some k) : k ∈ σ.desk.line.tickets :=
  (h.placed k).2 ⟨tx, hk⟩

theorem Ordered.ne_place (h : σ.Ordered) {u : TxId} {k : Nat} (hu : u ≠ tx)
    (hk : σ.read PinPhase.place? u = some k) : σ.read PinPhase.place? tx ≠ some k :=
  fun he => hu (h.apart u tx k (drawn_of_place hk) (drawn_of_place he))

theorem Ordered.act (h : σ.Ordered) (hl : σ.LineAct (σ.phases.find? tx) p' d.line) :
    (σ.put tx p' d).Ordered := by
  constructor
  · rw [desk_put]
    refine hl.nodup h.nodup fun r k hp hk => ?_
    obtain ⟨u, hu⟩ := (h.placed k).1 hk
    have hut := h.apart u tx k (drawn_of_place hu) (by rw [read, hp]; rfl)
    rw [hut, read, hp] at hu
    cases hu
  · intro u k hk
    rw [desk_put]
    rw [read_put] at hk
    split at hk
    · rcases hl.drawn hk with hk | ⟨-, hlt⟩
      · exact Nat.lt_of_lt_of_le (h.below tx k hk) hl.nextTicket_le
      · exact hlt
    · exact Nat.lt_of_lt_of_le (h.below u k hk) hl.nextTicket_le
  · -- a new ticket is nobody else's
    have hnew : ∀ v k, v ≠ tx → p'.bind PinPhase.drawn? = some k →
        σ.read PinPhase.drawn? v ≠ some k := by
      intro v k hv hk hvk
      rcases hl.drawn hk with hk | ⟨rfl, -⟩
      · exact hv (h.apart v tx k hvk hk)
      · exact Nat.lt_irrefl _ (h.below v _ hvk)
    intro u v k hu hv
    rw [read_put] at hu hv
    split at hu <;> split at hv
    · rw [‹u = tx›, ‹v = tx›]
    · exact absurd hv (hnew v k ‹_› hu)
    · exact absurd hu (hnew u k ‹_› hv)
    · exact h.apart u v k hu hv
  · intro k
    rw [desk_put, hl.mem_tickets (h.standing tx)]
    constructor
    · rintro (⟨hk, hne⟩ | hk)
      · obtain ⟨u, hu⟩ := (h.placed k).1 hk
        have hut : u ≠ tx := by
          rintro rfl
          exact hne hu
        exact ⟨u, by rw [read_put_of_ne _ hut, hu]⟩
      · exact ⟨tx, by rw [read_put_self, hk]⟩
    · rintro ⟨u, hu⟩
      rw [read_put] at hu
      split at hu
      · exact .inr hu
      · exact .inl ⟨(h.placed k).2 ⟨u, hu⟩, h.ne_place ‹_› hu⟩
  · intro u k hk
    rw [desk_put]
    rw [read_put] at hk
    split at hk
    · exact hl.isHead_of_asking hk
    · rename_i hut
      obtain ⟨q, hq, hqk⟩ := Option.bind_eq_some_iff.1 hk
      have hu : σ.read PinPhase.place? u = some k :=
        Option.bind_eq_some_iff.2 ⟨q, hq, PinPhase.place_of_asking hqk⟩
      exact hl.isHead (h.head u k hk) (h.ne_place hut hu)

theorem Noted.act (h : σ.Noted) (ho : σ.Ordered)
    (hl : σ.LineAct (σ.phases.find? tx) p' d.line) : (σ.put tx p' d).Noted := by
  have hopen := isOpen_iff_read (σ := σ.put tx p' d)
  rcases hl.noted ho.nodup (ho.standing tx) h.same with
    ⟨hw, ht, hsame⟩ | ⟨hfree, y, hy, hlen⟩ | ⟨⟨y, hy⟩, hnone, hm⟩
  · have hread := read_put_of_eq (d := d) hsame
    refine ⟨fun u v x y => ?_, fun hfree => ?_, fun u x => ?_⟩
    · rw [hread, hread]
      exact h.once u v x y
    · rw [desk_put, hw, ht]
      refine h.same (isOpen_iff_read.2 fun u => ?_)
      rw [← hread, hopen.1 hfree]
    · rw [desk_put, hw, ht, hread]
      exact h.changed u x
  · -- nobody else keeps the line
    have hmine : ∀ u x, (σ.put tx p' d).read PinPhase.unnoted? u = some x → u = tx ∧ x = y := by
      intro u x hu
      rw [read_put, hy, isOpen_iff_read.1 hfree] at hu
      split at hu
      · exact ⟨‹_›, (Option.some.inj hu).symm⟩
      · cases hu
    refine ⟨fun u v x z hu hv => ?_, fun hfree => ?_, fun u x hu => ?_⟩
    · rw [(hmine u x hu).1, (hmine v z hv).1]
    · have htx := hopen.1 hfree tx
      rw [read_put_self, hy] at htx
      cases htx
    · rw [desk_put, (hmine u x hu).2]
      exact hlen
  · -- the one who kept the line has noted its length
    have hnobody : ∀ u, (σ.put tx p' d).read PinPhase.unnoted? u = none := by
      intro u
      rw [read_put, hnone]
      split
      · rfl
      · rename_i hut
        cases hu : σ.read PinPhase.unnoted? u with
        | none => rfl
        | some x => exact absurd (h.once u tx x y hu hy) hut
    refine ⟨fun u v x z hu => ?_, fun _ => ?_, fun u x hu => ?_⟩
    · rw [hnobody] at hu
      cases hu
    · rw [desk_put]
      exact hm
    · rw [hnobody] at hu
      cases hu

theorem Runs.drawn (h : Runs σ τ) {k : Nat} (hk : k < σ.desk.line.nextTicket) :
    k < τ.desk.line.nextTicket ∧ ∀ u, τ.read PinPhase.drawn? u = some k →
      σ.read PinPhase.drawn? u = some k := by
  refine Runs.induct (P := fun τ => k < τ.desk.line.nextTicket ∧ ∀ u,
    τ.read PinPhase.drawn? u = some k → σ.read PinPhase.drawn? u = some k)
    (fun {υ ω} hυ hm => ?_) h ⟨hk, fun _ h => h⟩
  cases hm with
  | @act tx p' d ha =>
    have hl := lineAct ha
    rw [desk_put]
    refine ⟨Nat.lt_of_lt_of_le hυ.1 hl.nextTicket_le, fun u hu => ?_⟩
    rw [read_put] at hu
    split at hu
    · rename_i hut
      rcases hl.drawn hu with hu | ⟨rfl, -⟩
      · exact hut ▸ hυ.2 tx hu
      · exact absurd hυ.1 (Nat.lt_irrefl _)
    · exact hυ.2 u hu
  | beside => exact hυ

def Owed (σ : Hall) : Prop := ∃ u p, σ.phases.find? u = some p ∧ p.owes = true

/-- The head of the line is not left asleep: when it is not to look again it is refused what it
asks for, or somebody is about to wake it. -/
def Told (σ : Hall) : Prop :=
  ∀ u r k, σ.read PinPhase.rests? u = some (r, k) → σ.desk.line.isHead k →
    σ.desk.line.alerted ∨ σ.Owed ∨ σ.desk.store.Refuses r.asks

/-- An act that neither wakes the head nor is to be followed by that. -/
structure Quiet (σ : Hall) (p p' : Option PinPhase) (d : Desk) : Prop where
  owes : ∀ q, p = some q → q.owes = false
  head : ∀ k, d.line.isHead k → p'.bind PinPhase.drawn? = some k ∨
    (σ.desk.line.isHead k ∧ (σ.desk.line.alerted → d.line.alerted))
  refuses : ∀ w, σ.desk.store.Refuses w → d.store.Refuses w
  own : ∀ r k, p'.bind PinPhase.rests? = some (r, k) → d.line.isHead k →
    (p.bind PinPhase.rests? = some (r, k) ∧ d.line = σ.desk.line) ∨ d.store.Refuses r.asks

inductive TellAct (σ : Hall) : Option PinPhase → Option PinPhase → Desk → Prop
  | owing {p : Option PinPhase} {q : PinPhase} {d : Desk} (ho : q.owes = true) :
      TellAct σ p (some q) d
  | waking {p p' : Option PinPhase} {d : Desk} {l : Line} (hl : d.line = l.wakeHead) :
      TellAct σ p p' d
  | alone (hw : σ.desk.line.hasWaiters = false) : TellAct σ (some .telling) none σ.desk
  | quiet {p p' : Option PinPhase} {d : Desk} (hq : σ.Quiet p p' d) : TellAct σ p p' d

theorem Quiet.still (howes : ∀ q, p = some q → q.owes = false)
    (hrests : p'.bind PinPhase.rests? = none) (hl : d.line.waiters = σ.desk.line.waiters)
    (hs : ∀ w, σ.desk.store.Refuses w → d.store.Refuses w) : σ.Quiet p p' d where
  owes := howes
  head k hk := by
    rw [Line.isHead, hl] at hk
    rw [Line.alerted, Line.alerted, hl]
    exact .inr ⟨hk, id⟩
  refuses := hs
  own r k hr := by
    rw [hrests] at hr
    cases hr

theorem refuses_pin {w : Wanted} {q : Outcome (Option Nat)} {s : Store}
    (hr : σ.desk.store.pin w = (q, s)) (v : Wanted) (h : σ.desk.store.Refuses v) : s.Refuses v := by
  have hpin := h.pin w
  rwa [hr] at hpin

theorem isHead_push {l : Line} {j k : Nat} (h : (l.push k).isHead j) :
    j = k ∨ (l.isHead j ∧ (l.push k).alerted = l.alerted) := by
  cases hw : l.waiters with
  | nil =>
    simp only [Line.isHead, Line.push, hw, List.nil_append, List.head?_cons, Option.map_some,
      Option.some.injEq, decide_eq_true_eq] at h
    exact .inl h.symm
  | cons w ws =>
    refine .inr ⟨?_, ?_⟩
    · simpa [Line.isHead, Line.push, hw] using h
    · simp [Line.alerted, Line.push, hw]

theorem tellAct (h : σ.Act tx p p' d) : σ.TellAct p p' d := by
  have hnone : ∀ q : PinPhase, none = some q → q.owes = false := fun _ h => by cases h
  have hsome : ∀ {q : PinPhase}, q.owes = false → ∀ q', some q = some q' → q'.owes = false := by
    rintro q hq q' ⟨⟩
    exact hq
  cases h with
  | counted | idled | began | releases => exact .quiet (.still hnone rfl rfl fun _ => id)
  | unpinned | left | shortened | yielded | released | emptied | heard => exact .owing rfl
  | finished =>
    refine .waking (l := σ.desk.line) ?_
    rw [line_finish]
    rfl
  | regained | gaveUp | yields | paused | told => exact .waking rfl
  | alone hw => exact .alone hw
  | @found w i s hr =>
    have hl := @line_finish tx (σ.desk.setStore s) w i
    have hs := Desk.store_finish (σ.desk.setStore s) tx w i
    exact .quiet (.still (hsome rfl) rfl (by rw [hl]; rfl) fun v hv => hs ▸ refuses_pin hr v hv)
  | missed hr | erred hr | got hr | failed hr =>
    exact .quiet (.still (hsome rfl) rfl rfl (refuses_pin hr))
  | drew | lengthened | ahead | ranOut | resumed =>
    exact .quiet (.still (hsome rfl) rfl rfl fun _ => id)
  | @joined r k ho =>
    refine .quiet ⟨hsome rfl, fun j hj => ?_, fun _ => id, fun _ _ hr => by cases hr⟩
    rcases isHead_push hj with rfl | ⟨hσ, ha⟩
    · exact .inl rfl
    · exact .inr ⟨hσ, fun h => ha.trans h⟩
  | behind hh =>
    refine .quiet ⟨hsome rfl, fun j hj => .inr ⟨hj, id⟩, fun _ => id, ?_⟩
    rintro r j ⟨⟩ hj
    rw [hh] at hj
    cases hj
  | none hr =>
    refine .quiet ⟨hsome rfl, fun j hj => .inr ⟨hj, id⟩, refuses_pin hr, ?_⟩
    rintro r j ⟨⟩ -
    have hpin := Store.refuses_of_pin (s := σ.desk.store) (by rw [hr])
    rw [hr] at hpin
    exact .inr hpin
  | slept =>
    exact .quiet ⟨hsome rfl, fun j hj => .inr ⟨hj, id⟩, fun _ => id,
      fun r k hr _ => .inl ⟨hr, rfl⟩⟩
  | @stirred r k =>
    refine .quiet ⟨hsome rfl, fun j hj => ?_, fun _ => id, fun _ _ hr => by cases hr⟩
    have hσ : σ.desk.line.isHead j := by
      rwa [← Line.isHead_congr (Line.tickets_heed σ.desk.line k)]
    by_cases hjk : j = k
    · exact .inl (congrArg some hjk.symm)
    · exact .inr ⟨hσ, Line.alerted_heed hσ hjk⟩

theorem place_of_rests {u : TxId} {r : Errand} {k : Nat}
    (h : σ.read PinPhase.rests? u = some (r, k)) : σ.read PinPhase.place? u = some k := by
  obtain ⟨p, hp, hr⟩ := Option.bind_eq_some_iff.1 h
  exact Option.bind_eq_some_iff.2 ⟨p, hp, PinPhase.place_of_rests hr⟩

/-- Whoever sleeps in line is seen by those who go by the length that was noted. -/
theorem Noted.hasWaiters (hn : σ.Noted) (ho : σ.Ordered) {u : TxId} {r : Errand} {k : Nat}
    (hu : σ.read PinPhase.rests? u = some (r, k)) : σ.desk.line.hasWaiters = true := by
  have hk : k ∈ σ.desk.line.tickets := (ho.placed k).2 ⟨u, place_of_rests hu⟩
  have hpos := List.length_pos_of_mem hk
  rw [Line.hasWaiters, decide_eq_true_iff]
  by_cases hopen : σ.isOpen
  · rw [hn.same hopen]
    exact hpos
  · rw [isOpen_iff_read, Classical.not_forall] at hopen
    obtain ⟨v, hv⟩ := hopen
    obtain ⟨x, hx⟩ := Option.ne_none_iff_exists'.1 hv
    have hlen := hn.changed v x hx
    obtain ⟨q, hq, hqx⟩ := Option.bind_eq_some_iff.1 hx
    cases q with
    | struck r' o =>
      cases hqx
      omega
    | joined r' j =>
      -- the newcomer stands behind the one who sleeps
      cases hqx
      have hj : σ.read PinPhase.place? v = some j := by
        rw [read, hq]
        rfl
      have hvu : v ≠ u := by
        rintro rfl
        rw [read, hq] at hu
        cases hu
      have hne : k ≠ j := by
        rintro rfl
        exact ho.ne_place hvu hj (place_of_rests hu)
      have hmem := (List.mem_erase_of_ne hne).2 hk
      have herase := List.length_erase_of_mem ((ho.placed j).2 ⟨v, hj⟩)
      have := List.length_pos_of_mem hmem
      omega
    | _ => cases hqx

theorem Told.act (h : σ.Told) (ho : σ.Ordered) (hn : σ.Noted) (ho' : (σ.put tx p' d).Ordered)
    (hp : σ.phases.find? tx = p) (ha : σ.TellAct p p' d) : (σ.put tx p' d).Told := by
  intro u r k hu hk
  cases ha with
  | @owing p q d hq => exact .inr (.inl ⟨tx, q, by rw [find?_put, if_pos rfl], hq⟩)
  | waking hl =>
    rw [desk_put, hl] at hk ⊢
    exact .inl (Line.alerted_wakeHead hk)
  | alone hw =>
    -- nobody sleeps
    have hut : u ≠ tx := by
      rintro rfl
      rw [read_put_self] at hu
      cases hu
    rw [read_put_of_ne _ hut] at hu
    rw [hn.hasWaiters ho hu] at hw
    cases hw
  | quiet hq =>
    have howed : σ.Owed → (σ.put tx p' d).Owed := by
      rintro ⟨v, q, hv, hqo⟩
      have hvt : v ≠ tx := by
        rintro rfl
        rw [hq.owes q (hp.symm.trans hv)] at hqo
        cases hqo
      exact ⟨v, q, by rw [find?_put, if_neg hvt, hv], hqo⟩
    rw [desk_put] at hk ⊢
    by_cases hut : u = tx
    · subst hut
      rw [read_put_self] at hu
      rcases hq.own r k hu hk with ⟨hr, hl⟩ | hr
      · rw [hl] at hk ⊢
        exact (h u r k (by rw [read, hp, hr]) hk).imp_right (Or.imp howed (hq.refuses _))
      · exact .inr (.inr hr)
    · rcases hq.head k hk with hmine | ⟨hσ, halert⟩
      · have hdrawn := drawn_of_place (place_of_rests hu)
        exact absurd (ho'.apart u tx k hdrawn (by rw [read_put_self, hmine])) hut
      · rw [read_put_of_ne _ hut] at hu
        exact (h u r k hu hσ).imp halert (Or.imp howed (hq.refuses _))

/-- What holds in every hall that the steps can lead to. -/
structure Sound (σ : Hall) : Prop where
  ordered : σ.Ordered
  noted : σ.Noted
  told : σ.Told

theorem Sound.moved (h : σ.Sound) (hm : σ.Moved τ) : τ.Sound := by
  cases hm with
  | act ha =>
    have ho := h.ordered.act (lineAct ha)
    exact ⟨ho, h.noted.act h.ordered (lineAct ha), h.told.act h.ordered h.noted ho rfl (tellAct ha)⟩
  | beside hs =>
    obtain ⟨⟨nodup, below, apart, placed, head⟩, ⟨once, same, changed⟩, told⟩ := h
    exact ⟨⟨nodup, below, apart, placed, head⟩, ⟨once, same, changed⟩, fun u r k hu hk =>
      (told u r k hu hk).imp_right (.imp_right hs.refuses)⟩

structure Vacant (σ : Hall) : Prop where
  idle : ∀ tx, σ.phases.find? tx = none
  empty : σ.desk.line.waiters = []
  noted : σ.desk.line.waiting = 0

theorem Vacant.sound (h : σ.Vacant) : σ.Sound := by
  have hread : ∀ {α : Type} (f : PinPhase → Option α) u, σ.read f u = none := fun f u => by
    rw [read, h.idle]
    rfl
  have htickets : σ.desk.line.tickets = [] := by
    rw [Line.tickets, h.empty]
    rfl
  have hno : ∀ {α : Type} {f : PinPhase → Option α} {u x}, σ.read f u ≠ some x :=
    fun {_ f u x} he => by
      rw [hread] at he
      cases he
  refine ⟨⟨?_, fun u k hu => absurd hu hno, fun u v k hu => absurd hu hno, fun k => ?_, ?_⟩,
    ⟨fun u v x y hu => absurd hu hno, fun _ => ?_, fun u x hu => absurd hu hno⟩,
    fun u r k hu => absurd hu hno⟩
  · rw [htickets]
    exact .nil
  · rw [htickets]
    refine iff_of_false List.not_mem_nil ?_
    rintro ⟨u, hu⟩
    exact hno hu
  · exact fun u k hu => absurd hu hno
  · rw [htickets, h.noted]
    rfl

theorem Runs.sound (hr : Runs σ τ) (h : σ.Sound) : τ.Sound :=
  hr.induct (P := Sound) (fun h hm => h.moved hm) h

/-- No signal is pending, no frame has been given back without the line having been told, and every
request that waits sleeps. -/
structure Calm (σ : Hall) : Prop where
  heeded : ∀ w ∈ σ.desk.line.waiters, w.signalled = false
  told : ∀ u p, σ.phases.find? u = some p → p.released = false
  asleep : ∀ u p, σ.phases.find? u = some p → p.waits = true → p.sleeps = true

instance (σ : Hall) : Decidable σ.Calm :=
  decidable_of_iff ((∀ w ∈ σ.desk.line.waiters, w.signalled = false) ∧
      ∀ e ∈ σ.phases.entries, e.2.released = false ∧ (e.2.waits = true → e.2.sleeps = true))
    ⟨fun h => ⟨h.1, fun _ _ hp => (h.2 _ (Registry.find?_eq_some_iff.1 hp)).1,
        fun _ _ hp => (h.2 _ (Registry.find?_eq_some_iff.1 hp)).2⟩,
      fun h => ⟨h.heeded, fun e he => ⟨h.told e.1 e.2 (Registry.find?_eq_some_iff.2 he),
        h.asleep e.1 e.2 (Registry.find?_eq_some_iff.2 he)⟩⟩⟩

/-- A calm hall leaves nobody asleep at the head of the line who could get a frame. -/
theorem Sound.head_refused (h : σ.Sound) (hc : σ.Calm) {w : Waiter} {ws : List Waiter}
    (hw : σ.desk.line.waiters = w :: ws) : ∃ tx r, σ.phases.find? tx = some (.parked r w.ticket) ∧
      σ.desk.store.Refuses r.asks := by
  have hhead : σ.desk.line.isHead w.ticket := by
    rw [Line.isHead, hw]
    exact decide_eq_true rfl
  have hmem : w.ticket ∈ σ.desk.line.tickets := by
    rw [Line.tickets, hw]
    exact List.mem_cons_self
  obtain ⟨tx, htx⟩ := (h.ordered.placed _).1 hmem
  obtain ⟨p, hp, hk⟩ := Option.bind_eq_some_iff.1 htx
  obtain ⟨r, k, rfl⟩ := PinPhase.exists_of_sleeps (hc.asleep tx p hp (PinPhase.waits_of_place hk))
  obtain rfl : k = w.ticket := Option.some.inj hk
  refine ⟨tx, r, hp, ?_⟩
  have hrests : σ.read PinPhase.rests? tx = some (r, w.ticket) := by
    rw [read, hp]
    rfl
  rcases h.told tx r _ hrests hhead with ha | ⟨u, q, hq, ho⟩ | hr
  · rw [Line.alerted, hw, List.head?_cons, Option.any_some,
      hc.heeded w (hw ▸ List.mem_cons_self)] at ha
    cases ha
  · rw [PinPhase.owes, hc.told u q hq, Bool.false_or] at ho
    obtain ⟨hwaits, hawake⟩ := PinPhase.waits_of_departs ho
    rw [hc.asleep u q hq hwaits] at hawake
    cases hawake
  · exact hr

/-- Between whole calls all is calm as soon as no signal is pending. -/
theorem Settled.calm (h : σ.Settled) (hs : ∀ w ∈ σ.desk.line.waiters, w.signalled = false) :
    σ.Calm := by
  refine ⟨hs, fun u p hp => ?_, fun u p hp hw => ?_⟩
  · obtain ⟨⟨w, stage⟩, rfl⟩ := h u p hp
    cases stage <;> rfl
  · obtain ⟨⟨w, stage⟩, rfl⟩ := h u p hp
    cases stage with
    | pausing => cases hw
    | first | regaining | last => rfl

/-- Whatever comes between the steps of a call, the length of the line is right whenever nobody
keeps the line to itself, only the head of the line asks the pool, whoever has left the line does
not come back under its ticket, and where all is calm the head of the line would get no frame:
every frame is pinned, and none has the block that it wants. Between whole calls all is calm as
soon as no signal is pending. -/
theorem no_signal_lost (hσ : σ.Vacant) :
    (∀ τ, Runs σ τ →
      (τ.isOpen → τ.desk.line.waiting = τ.desk.line.waiters.length) ∧
      (∀ tx r k, τ.phases.find? tx = some (.asking r k) → τ.desk.line.isHead k) ∧
      (∀ k, k ∈ τ.desk.line.tickets ↔ ∃ tx, τ.read PinPhase.place? tx = some k) ∧
      (∀ tx k υ ω, τ.read PinPhase.drawn? tx = some k → Runs τ υ →
        υ.read PinPhase.drawn? tx ≠ some k → Runs υ ω → k ∉ ω.desk.line.tickets) ∧
      (τ.Calm → ∀ w ws, τ.desk.line.waiters = w :: ws → ∃ tx r,
        τ.phases.find? tx = some (.parked r w.ticket) ∧ τ.desk.store.Refuses r.asks ∧
          (τ.desk.store.pin r.asks).1 = .ok none)) ∧
    ∀ τ, σ.Calls τ → (∀ w ∈ τ.desk.line.waiters, w.signalled = false) →
      ∀ w ws, τ.desk.line.waiters = w :: ws → ∃ tx r,
        τ.phases.find? tx = some (.parked r w.ticket) ∧ τ.desk.store.Refuses r.asks ∧
          (τ.desk.store.pin r.asks).1 = .ok none := by
  have hhead : ∀ τ, Runs σ τ → τ.Calm → ∀ w ws, τ.desk.line.waiters = w :: ws → ∃ tx r,
      τ.phases.find? tx = some (.parked r w.ticket) ∧ τ.desk.store.Refuses r.asks ∧
        (τ.desk.store.pin r.asks).1 = .ok none := by
    intro τ hr hc w ws hw
    obtain ⟨tx, r, hp, href⟩ := (hr.sound hσ.sound).head_refused hc hw
    exact ⟨tx, r, hp, href, Store.refuses_iff.2 href⟩
  refine ⟨fun τ hr => ?_, fun τ hcalls hs => ?_⟩
  · have hτ := hr.sound hσ.sound
    refine ⟨fun ho => ?_, fun tx r k hp => ?_, hτ.ordered.placed, ?_, hhead τ hr⟩
    · rw [hτ.noted.same ho, Line.length_tickets]
    · exact hτ.ordered.head tx k (by rw [read, hp]; rfl)
    · intro tx k υ ω hk hυ hgone hω hmem
      obtain ⟨u, hu⟩ := ((hω.sound (hυ.sound hτ)).ordered.placed k).1 hmem
      have hlt := hτ.ordered.below tx k hk
      have hu' := (hω.drawn (hυ.drawn hlt).1).2 u (drawn_of_place hu)
      obtain rfl := hτ.ordered.apart u tx k ((hυ.drawn hlt).2 u hu') hk
      exact hgone hu'
  · obtain ⟨hr, hsettled⟩ := hcalls.runs fun u p hp => by
      rw [hσ.idle] at hp
      cases hp
    exact hhead τ hr (hsettled.calm hs)

def oneDesk : Hall := { desk := { store := small, maxWait := 9, window := 4 } }

/-- A request is woken when the only frame has been given back, and finds it taken again by one that
did not get into line. -/
def overtaken : List PinMove :=
  [.ask ⟨1⟩ (.block ⟨"a", 0⟩), .advance ⟨1⟩] ++
    .ask ⟨2⟩ (.block ⟨"a", 1⟩) :: List.replicate 7 (.advance ⟨2⟩) ++
    .ask ⟨3⟩ (.fresh "a" .zero) :: List.replicate 6 (.advance ⟨3⟩) ++
    [.unpin ⟨1⟩ ⟨"a", 0⟩, .advance ⟨1⟩, .advance ⟨1⟩, .ask ⟨1⟩ (.block ⟨"a", 0⟩), .advance ⟨1⟩] ++
    .stir ⟨2⟩ :: List.replicate 3 (.advance ⟨2⟩)

theorem no_signal_lost_overtaken : oneDesk.Vacant ∧ ∃ τ, oneDesk.run overtaken = some τ ∧
    τ.Calm ∧ τ.desk.line.waiters = [{ ticket := 0 }, { ticket := 1 }] ∧
    τ.desk.line.waiting = 2 ∧ ∃ tx r, τ.phases.find? tx = some (.parked r 0) ∧
      τ.desk.store.Refuses r.asks ∧ (τ.desk.store.pin r.asks).1 = .ok none := by
  have hσ : oneDesk.Vacant := ⟨fun _ => rfl, rfl, rfl⟩
  have hc : (oneDesk.run overtaken).any (fun τ => decide (τ.Calm ∧ τ.isOpen ∧
      τ.desk.line.waiters = [{ ticket := 0 }, { ticket := 1 }])) := by decide +kernel
  obtain ⟨τ, hr, hτ⟩ := (Option.any_eq_true _ _).1 hc
  obtain ⟨hcalm, ho, hw⟩ := of_decide_eq_true hτ
  have h := (no_signal_lost hσ).1 τ ⟨overtaken, hr⟩
  refine ⟨hσ, τ, hr, hcalm, hw, ?_, h.2.2.2.2 hcalm _ _ hw⟩
  rw [h.1 ho, hw]
  rfl

end Hall

end PagedStore
