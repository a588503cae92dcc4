import PagedStore.Bytes
import PagedStore.Failure

set_option autoImplicit false

/-!
The log: records at positions from 1 on, and the position up to which they are durable. It can be
made to refuse one kind of call, and it remembers what it was asked to make durable.
-/

namespace PagedStore

inductive Outage where
  | none
  | append
  | flush
  deriving DecidableEq

structure Log where
  records : List Bytes := []
  durable : Lsn := 0
  /-- How often the durable position moved. -/
  flushes : Nat := 0
  outage : Outage := .none
  /-- The positions asked for since they were last collected, the earliest first. -/
  requests : List Lsn := []

namespace Log

def empty : Log := {}

def last (l : Log) : Lsn := l.records.length

def record? (l : Log) (lsn : Lsn) : Option Bytes := if lsn = 0 then none else l.records[lsn - 1]?

def append (l : Log) (record : Bytes) : Outcome Lsn × Log :=
  if l.outage = .append then (.error (.error (.io .logUnavailable)), l)
  else (.ok (l.last + 1), { l with records := l.records ++ [record] })

/-- Makes the records up to `lsn` durable, as far as there are records. -/
def flush (l : Log) (lsn : Lsn) : Outcome Unit × Log :=
  let l := { l with requests := l.requests ++ [lsn] }
  if l.outage = .flush then (.error (.error (.io .logUnavailable)), l)
  else if l.durable < min lsn l.last then
    (.ok (), { l with durable := min lsn l.last, flushes := l.flushes + 1 })
  else (.ok (), l)

def collect (l : Log) : List Lsn × Log := (l.requests, { l with requests := [] })

theorem record?_append {l l' : Log} {r : Bytes} {lsn : Lsn} (h : l.append r = (.ok lsn, l')) :
    l'.record? lsn = some r := by
  unfold append at h
  split at h
  · cases h
  · cases h; simp [record?, last]

theorem durable_flush {l l' : Log} {lsn : Lsn} (h : l.flush lsn = (.ok (), l')) :
    l'.durable = max l.durable (min lsn l.last) := by
  grind [flush, last]

end Log

end PagedStore
