import PagedStore.Frame
import PagedStore.Proofs.Disk.Contents

set_option autoImplicit false

/-!
What the operations of a frame come to: a write as a change of its page, a write-back and a filling
case by case. Main statements: `Page.lsn_put`, `write_eq`, `writeLogged_eq`, `flushed` and `filled`.
-/

namespace PagedStore

namespace Page

theorem take_overlay {xs ys : Bytes} {start k : Nat} (hk : k ≤ start) (hs : start ≤ xs.length) :
    (overlay xs start ys).take k = xs.take k := by
  rw [overlay, List.append_assoc, List.take_append_of_le_length (by simp; omega), List.take_take,
    Nat.min_eq_left hk]

theorem write_eq_ok {data data' : Bytes} {offset : Nat} {v : Value}
    (h : write data offset v = .ok data') :
    headerSize + offset + v.size ≤ data.length ∧
      data' = overlay data (headerSize + offset) v.encode := by
  unfold write at h
  split at h
  · rename_i hc
    cases h
    have hpos := v.size_pos
    rw [capacity] at hc
    exact ⟨by omega, rfl⟩
  · cases h

theorem length_write {data data' : Bytes} {offset : Nat} {v : Value}
    (h : write data offset v = .ok data') : data'.length = data.length := by
  obtain ⟨hc, rfl⟩ := write_eq_ok h
  exact length_overlay (by rw [Value.length_encode]; omega)

theorem lsn_write {data data' : Bytes} {offset : Nat} {v : Value}
    (h : write data offset v = .ok data') : lsn data' = lsn data := by
  obtain ⟨hc, rfl⟩ := write_eq_ok h
  rw [lsn, lsn, take_overlay (by omega) (by omega)]

theorem length_setLsn {data : Bytes} (h : headerSize ≤ data.length) (n : Lsn) :
    (setLsn data n).length = data.length :=
  length_overlay (by simpa using h)

theorem lsn_setLsn {data : Bytes} (h : headerSize ≤ data.length) {n : Lsn}
    (hn : n < wordLimit 8) : lsn (setLsn data n) = n := by
  have ht : ((overlay data 0 (bigEndian headerSize n)).drop 0).take
      (bigEndian headerSize n).length = bigEndian headerSize n :=
    take_drop_overlay (by simpa using h)
  rw [length_bigEndian, List.drop_zero] at ht
  rw [lsn, setLsn, ht]
  exact ofBigEndian_bigEndian_of_lt hn

def stamp (lsn? : Option Lsn) (data : Bytes) : Bytes :=
  match lsn? with
  | none => data
  | some n => if lsn data < n then setLsn data n else data

theorem length_stamp {data : Bytes} (h : headerSize ≤ data.length) (lsn? : Option Lsn) :
    (stamp lsn? data).length = data.length := by
  cases lsn? with
  | none => rfl
  | some n =>
    rw [stamp]
    split
    · exact length_setLsn h n
    · rfl

theorem lsn_stamp {data : Bytes} (h : headerSize ≤ data.length) {lsn? : Option Lsn}
    (hs : ∀ n ∈ lsn?, n < wordLimit 8) : lsn (stamp lsn? data) = max (lsn data) (lsn?.getD 0) := by
  cases lsn? with
  | none => exact (Nat.max_eq_left (Nat.zero_le _)).symm
  | some n =>
    rw [stamp, Option.getD_some]
    split
    · rename_i hlt
      rw [lsn_setLsn h (hs n rfl), Nat.max_eq_right (Nat.le_of_lt hlt)]
    · rename_i hlt
      rw [Nat.max_eq_left (Nat.not_lt.1 hlt)]

def put (data : Bytes) (offset : Nat) (v : Value) (lsn? : Option Lsn) : Except Error Bytes :=
  (write data offset v).map (stamp lsn?)

theorem put_eq_ok {data data' : Bytes} {offset : Nat} {v : Value} {lsn? : Option Lsn}
    (h : put data offset v lsn? = .ok data') :
    ∃ mid, write data offset v = .ok mid ∧ headerSize ≤ mid.length ∧ data' = stamp lsn? mid := by
  unfold put at h
  cases hw : write data offset v with
  | error e =>
    rw [hw] at h
    cases h
  | ok mid =>
    rw [hw] at h
    cases h
    have hl := length_write hw
    obtain ⟨hc, -⟩ := write_eq_ok hw
    exact ⟨mid, rfl, by omega, rfl⟩

theorem length_put {data data' : Bytes} {offset : Nat} {v : Value} {lsn? : Option Lsn}
    (h : put data offset v lsn? = .ok data') : data'.length = data.length := by
  obtain ⟨mid, hw, hm, rfl⟩ := put_eq_ok h
  rw [length_stamp hm, length_write hw]

theorem lsn_put {data data' : Bytes} {offset : Nat} {v : Value} {lsn? : Option Lsn}
    (hs : ∀ n ∈ lsn?, n < wordLimit 8) (h : put data offset v lsn? = .ok data') :
    lsn data' = max (lsn data) (lsn?.getD 0) := by
  obtain ⟨mid, hw, hm, rfl⟩ := put_eq_ok h
  rw [lsn_stamp hm hs, lsn_write hw]

end Page

theorem ofBigEndian_replicate_zero (n : Nat) : ofBigEndian (List.replicate n 0) = 0 := by
  induction n with
  | zero => rfl
  | succ n ih =>
    rw [List.replicate_succ', ofBigEndian_concat, ih]
    rfl

namespace Formatter

theorem length_page (format : Formatter) {blockSize : Nat} (h : Page.headerSize ≤ blockSize) :
    (format.page blockSize).length = blockSize := by
  simp only [page, List.length_append, List.length_replicate, format.length_payload]
  omega

theorem lsn_page (format : Formatter) (blockSize : Nat) : Page.lsn (format.page blockSize) = 0 := by
  rw [Page.lsn, page, List.take_left' (List.length_replicate ..)]
  exact ofBigEndian_replicate_zero _

end Formatter

namespace Frame

theorem write_eq (f : Frame) (offset : Nat) (v : Value) :
    f.write offset v =
      (Page.put f.data offset v none).map fun data => { f with data, dirty := true } := by
  unfold write Page.put
  cases Page.write f.data offset v <;> rfl

theorem writeLogged_eq (f : Frame) (offset : Nat) (v : Value) (tx : TxId) (n : Lsn) :
    f.writeLogged offset v tx n = (Page.write f.data offset v).map fun data => { f with
      data := if f.lsn < n then Page.setLsn data n else data, dirty := true
      modifiedBy := if tx.num = 0 then none else some tx, lsn := max f.lsn n } := by
  unfold writeLogged
  congr 1
  funext data
  dsimp only
  split
  · rename_i hlt
    rw [Nat.max_eq_right (Nat.le_of_lt hlt)]
  · rename_i hlt
    rw [Nat.max_eq_left (Nat.not_lt.1 hlt)]

theorem of_write {f g : Frame} {offset : Nat} {v : Value} (h : f.write offset v = .ok g) :
    g.block = f.block ∧ g.pins = f.pins := by
  unfold write at h
  cases hw : Page.write f.data offset v with
  | error e =>
    rw [hw] at h
    cases h
  | ok data =>
    rw [hw] at h
    cases h
    exact ⟨rfl, rfl⟩

theorem of_writeLogged {f g : Frame} {offset : Nat} {v : Value} {tx : TxId} {n : Lsn}
    (h : f.writeLogged offset v tx n = .ok g) : offset + v.size ≤ f.capacity ∧
      g.block = f.block ∧ g.pins = f.pins ∧
      g.modifiedBy = if tx.num = 0 then none else some tx := by
  rw [writeLogged_eq] at h
  cases hw : Page.write f.data offset v with
  | error e =>
    rw [hw] at h
    cases h
  | ok data =>
    rw [hw] at h
    cases h
    refine ⟨?_, rfl, rfl, rfl⟩
    unfold Page.write at hw
    split at hw
    · assumption
    · cases hw

theorem writeLogged_eq_put {f : Frame} (h : f.lsn = Page.lsn f.data) (offset : Nat) (v : Value)
    (tx : TxId) (n : Lsn) : f.writeLogged offset v tx n =
      (Page.put f.data offset v (some n)).map fun data => { f with
        data, dirty := true, modifiedBy := if tx.num = 0 then none else some tx
        lsn := max f.lsn n } := by
  rw [writeLogged_eq, Page.put]
  cases hw : Page.write f.data offset v with
  | error e => rfl
  | ok mid =>
    simp only [Except.map, Page.stamp, Page.lsn_write hw, ← h]

inductive Flushed (f : Frame) (m : Media) : Outcome Frame × Media → Prop
  | clean (hd : f.dirty = false) (hf : f.fresh = false) : Flushed f m (.ok f, m)
  | unplaced (hb : f.block = none) : Flushed f m (.ok f, m)
  | unforced {e : Failure} {m₁ : Media} (hm : m.force f.lsn = (.error e, m₁)) :
      Flushed f m (.error e, m₁)
  | unsaved {b : BlockId} {e : Failure} {m₁ : Media} {d : Disk} (hb : f.block = some b)
      (hm : m.force f.lsn = (.ok (), m₁)) (hw : m₁.disk.write b f.data = (.error e, d)) :
      Flushed f m (.error e, { m₁ with disk := d })
  | saved {b : BlockId} {m₁ : Media} {d : Disk} (hb : f.block = some b)
      (hm : m.force f.lsn = (.ok (), m₁)) (hw : m₁.disk.write b f.data = (.ok (), d)) :
      Flushed f m (.ok { f with dirty := false, fresh := false },
        { m₁ with disk := d }.note (.saved f.id m₁.log.durable))

theorem flushed (f : Frame) (m : Media) : Flushed f m (f.flush m) := by
  unfold flush
  by_cases hd : (f.dirty || f.fresh)
  · rw [if_pos hd]
    split
    · rename_i hb
      exact .unplaced hb
    · rename_i b hb
      cases hm : m.force f.lsn with
      | mk r m₁ =>
        cases r with
        | error e => exact .unforced hm
        | ok u =>
          cases hw : m₁.disk.write b f.data with
          | mk r d =>
            cases r with
            | error e =>
              simpa only [Media.save, hw] using .unsaved hb hm hw
            | ok u =>
              simpa only [Media.save, hw] using .saved hb hm hw
  · rw [if_neg hd]
    simp only [Bool.or_eq_true, not_or, Bool.not_eq_true] at hd
    exact .clean hd.1 hd.2

inductive Filled (f : Frame) (m : Media) : Wanted → Outcome BlockId × Frame × Media → Prop
  | unread {b : BlockId} {e : Failure} {d : Disk}
      (hr : m.disk.read b f.data.length = (.error e, d)) :
      Filled f m (.block b) (.error e, f, { m with disk := d })
  | read {b : BlockId} {data : Bytes} {d : Disk}
      (hr : m.disk.read b f.data.length = (.ok data, d)) :
      Filled f m (.block b) (.ok b, { f with
        data, block := some b, pins := 0, lsn := Page.lsn data, modifiedBy := none
        dirty := false, fresh := false }, { m with disk := d }.note (.filled f.id))
  | unadded {file : String} {format : Formatter} {e : Failure} {d : Disk}
      (ha : m.disk.append file = (.error e, d)) :
      Filled f m (.fresh file format) (.error e, f, { m with disk := d })
  | added {file : String} {format : Formatter} {b : BlockId} {d : Disk}
      (ha : m.disk.append file = (.ok b, d)) :
      Filled f m (.fresh file format) (.ok b, { f with
        data := format.page f.data.length, block := some b, pins := 0, lsn := 0
        modifiedBy := none, dirty := false, fresh := true },
        { m with disk := d }.note (.filled f.id))

theorem filled (f : Frame) (w : Wanted) (m : Media) : Filled f m w (f.fill w m) := by
  cases w with
  | block b =>
    cases hr : m.disk.read b f.data.length with
    | mk r d =>
      cases r with
      | error e => simpa only [fill, Media.read, hr] using .unread hr
      | ok data => simpa only [fill, Media.read, hr] using .read hr
  | fresh file format =>
    cases ha : m.disk.append file with
    | mk r d =>
      cases r with
      | error e => simpa only [fill, Media.append, ha] using .unadded ha
      | ok b => simpa only [fill, Media.append, ha] using .added ha

end Frame

namespace Log

@[simp] theorem last_flush (l : Log) (lsn : Lsn) : (l.flush lsn).2.last = l.last := by
  unfold flush
  dsimp only
  split
  · rfl
  · split <;> rfl

theorem records_flush (l : Log) (lsn : Lsn) : (l.flush lsn).2.records = l.records := by
  unfold flush
  dsimp only
  split
  · rfl
  · split <;> rfl

theorem last_append (l : Log) (record : Bytes) : l.last ≤ (l.append record).2.last := by
  unfold append
  split
  · exact Nat.le_refl _
  · simp [last]

theorem durable_append (l : Log) (record : Bytes) : (l.append record).2.durable = l.durable := by
  unfold append
  split <;> rfl

theorem durable_le_flush (l : Log) (lsn : Lsn) : l.durable ≤ (l.flush lsn).2.durable := by
  unfold flush
  dsimp only
  split
  · exact Nat.le_refl _
  · split
    · rename_i hlt
      exact Nat.le_of_lt hlt
    · exact Nat.le_refl _

end Log

namespace Media

theorem of_force {m m' : Media} {lsn : Lsn} {r : Outcome Unit} (h : m.force lsn = (r, m')) :
    m'.disk = m.disk ∧ m'.deeds = m.deeds ∧ m'.log.last = m.log.last ∧
      m.log.durable ≤ m'.log.durable := by
  unfold force at h
  split at h
  · cases h
    exact ⟨rfl, rfl, rfl, Nat.le_refl _⟩
  · cases h
    exact ⟨rfl, rfl, Log.last_flush .., Log.durable_le_flush ..⟩

theorem records_of_force {m m' : Media} {lsn : Lsn} {r : Outcome Unit}
    (h : m.force lsn = (r, m')) : m'.log.records = m.log.records := by
  unfold force at h
  split at h
  · cases h
    rfl
  · cases h
    exact m.log.records_flush lsn

/-- A position that was forced is durable, as far as there are records. -/
theorem durable_of_force {m m' : Media} {lsn : Lsn} (h : m.force lsn = (.ok (), m')) :
    min lsn m.log.last ≤ m'.log.durable := by
  unfold force at h
  split at h
  · rename_i hz
    rw [hz, Nat.zero_min]
    exact Nat.zero_le _
  · simp only [Prod.mk.injEq] at h
    obtain ⟨hr, rfl⟩ := h
    have hd : (m.log.flush lsn).2.durable = max m.log.durable (min lsn m.log.last) :=
      Log.durable_flush (Prod.ext hr rfl)
    rw [hd]
    exact Nat.le_max_right _ _

end Media

end PagedStore
