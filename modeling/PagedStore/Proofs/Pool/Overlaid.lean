import PagedStore.Proofs.Disk.Reach
import PagedStore.Proofs.Pool.Flat

set_option autoImplicit false

/-!
What changes mean to the payload of one block. Main statements: `Flat.payload_replay`, where the
payload is overlaid with one write after the other, and `Flat.getElem?_payload_replay`, that a byte
stays until it is written.
-/

namespace PagedStore

theorem drop_overlay {xs ys : Bytes} {skipped start : Nat} (h : skipped + start ≤ xs.length) :
    (overlay xs (skipped + start) ys).drop skipped = overlay (xs.drop skipped) start ys := by
  have hs : skipped ≤ (xs.take (skipped + start)).length := by
    rw [List.length_take]
    omega
  rw [overlay, overlay, List.append_assoc, List.append_assoc, List.drop_append_of_le_length hs,
    List.drop_take, List.drop_drop, Nat.add_sub_cancel_left, Nat.add_assoc]

namespace Page

theorem payload_setLsn (data : Bytes) (n : Lsn) : payload (setLsn data n) = payload data := by
  have hl : (bigEndian headerSize n).length = headerSize := length_bigEndian ..
  rw [payload, payload, setLsn, overlay, List.take_zero, List.nil_append, hl, Nat.zero_add,
    List.drop_left' hl]

theorem payload_stamp (data : Bytes) (lsn? : Option Lsn) :
    payload (stamp lsn? data) = payload data := by
  cases lsn? with
  | none => rfl
  | some n =>
    rw [stamp]
    split
    · exact payload_setLsn data n
    · rfl

theorem payload_write {data data' : Bytes} {offset : Nat} {v : Value}
    (h : write data offset v = .ok data') :
    payload data' = overlay (payload data) offset v.encode := by
  obtain ⟨hc, rfl⟩ := write_eq_ok h
  rw [payload, drop_overlay (by omega), payload]

theorem payload_put {data data' : Bytes} {offset : Nat} {v : Value} {lsn? : Option Lsn}
    (h : put data offset v lsn? = .ok data') :
    payload data' = overlay (payload data) offset v.encode := by
  obtain ⟨mid, hw, -, rfl⟩ := put_eq_ok h
  rw [payload_stamp, payload_write hw]

theorem put_of_fits {data : Bytes} {offset : Nat} {v : Value} (h : offset + v.size ≤ capacity data)
    (lsn? : Option Lsn) : ∃ data', put data offset v lsn? = .ok data' := by
  rw [put, write, if_pos h]
  exact ⟨_, rfl⟩

end Page

namespace Change

def on (b : BlockId) (bytes : Bytes) : Change → Bytes
  | .put c offset v _ => if c = b then overlay bytes offset v.encode else bytes
  | .add _ _ => bytes

def writes (b : BlockId) : Change → Bool
  | .put c _ _ _ => c = b
  | .add _ _ => false

/-- It writes byte `k` of the payload of `b`. -/
def Hits (b : BlockId) (k : Nat) : Change → Prop
  | .put c offset v _ => c = b ∧ offset ≤ k ∧ k < offset + v.size
  | .add _ _ => False

end Change

namespace Flat

/-- A change that can be made: to a block of a file of the kind that can be reached, and a write
inside a block that there is. -/
def Takes (names : String → Prop) (flat : Flat) : Change → Prop
  | .put b offset v _ => names b.file ∧ b.Reachable flat.toSite ∧
      b.number < flat.length b.file ∧ offset + v.size ≤ Page.capacity (flat.block b)
  | .add file _ => names file ∧ BlockId.Reachable ⟨file, flat.length file⟩ flat.toSite

def TakesAll (names : String → Prop) (flat : Flat) : List Change → Prop
  | [] => True
  | x :: xs => flat.Takes names x ∧ (flat.apply x).TakesAll names xs

theorem Takes.fits {names : String → Prop} {flat : Flat} {b : BlockId} {offset : Nat} {v : Value}
    {lsn? : Option Lsn} (h : flat.Takes names (.put b offset v lsn?)) :
    offset + v.encode.length ≤ (Page.payload (flat.block b)).length := by
  rw [Value.length_encode, Page.length_payload]
  exact h.2.2.2

theorem TakesAll.append {names : String → Prop} {flat : Flat} {xs ys : List Change}
    (h : flat.TakesAll names xs) (h' : (flat.replay xs).TakesAll names ys) :
    flat.TakesAll names (xs ++ ys) := by
  induction xs generalizing flat with
  | nil => exact h'
  | cons x xs ih => exact ⟨h.1, ih h.2 h'⟩

theorem site_apply (flat : Flat) (x : Change) : (flat.apply x).toSite = flat.toSite := by
  cases x with
  | put b offset v lsn? =>
    unfold apply
    dsimp only
    split <;> rfl
  | add file format => rfl

theorem site_replay (flat : Flat) (xs : List Change) : (flat.replay xs).toSite = flat.toSite := by
  induction xs generalizing flat with
  | nil => rfl
  | cons x xs ih => exact (ih _).trans (flat.site_apply x)

theorem length_le_apply (flat : Flat) (x : Change) (n : String) :
    flat.length n ≤ (flat.apply x).length n := by
  cases x with
  | put b offset v lsn? =>
    unfold apply
    dsimp only
    split <;> exact Nat.le_refl _
  | add file format =>
    simp only [apply, grow, setBlock]
    split
    · exact Nat.le_succ _
    · exact Nat.le_refl _

theorem length_le_replay (flat : Flat) (xs : List Change) (n : String) :
    flat.length n ≤ (flat.replay xs).length n := by
  induction xs generalizing flat with
  | nil => exact Nat.le_refl _
  | cons x xs ih => exact Nat.le_trans (flat.length_le_apply x n) (ih _)

variable {names : String → Prop} {flat : Flat} {b : BlockId}

theorem payload_apply {x : Change} (h : flat.Takes names x) (hb : b.number < flat.length b.file) :
    Page.payload ((flat.apply x).block b) = x.on b (Page.payload (flat.block b)) := by
  cases x with
  | put c offset v lsn? =>
    obtain ⟨data, hput⟩ := Page.put_of_fits h.2.2.2 lsn?
    simp only [apply, hput, Change.on]
    by_cases hc : c = b
    · subst hc
      simp only [setBlock, if_pos]
      exact Page.payload_put hput
    · have hne : ¬ b = c := fun e => hc e.symm
      simp [setBlock, hne, hc]
  | add file format =>
    have hne : ¬ b = ⟨file, flat.length file⟩ := by
      intro he
      rw [he] at hb
      exact Nat.lt_irrefl _ hb
    simp [apply, grow, setBlock, hne, Change.on]

theorem payload_replay {xs : List Change} (h : flat.TakesAll names xs)
    (hb : b.number < flat.length b.file) :
    Page.payload ((flat.replay xs).block b) =
      xs.foldl (Change.on b) (Page.payload (flat.block b)) := by
  induction xs generalizing flat with
  | nil => rfl
  | cons x xs ih =>
    rw [List.foldl_cons, ← payload_apply h.1 hb]
    exact ih h.2 (Nat.lt_of_lt_of_le hb (flat.length_le_apply x _))

theorem getElem?_payload_apply {x : Change} (h : flat.Takes names x)
    (hb : b.number < flat.length b.file) {k : Nat} (hk : ¬ x.Hits b k) :
    (Page.payload ((flat.apply x).block b))[k]? = (Page.payload (flat.block b))[k]? := by
  rw [payload_apply h hb]
  cases x with
  | put c offset v lsn? =>
    rw [Change.on]
    split
    · rename_i hc
      subst hc
      rw [getElem?_overlay h.fits, if_neg]
      rw [Value.length_encode]
      exact fun hin => hk ⟨rfl, hin.1, hin.2⟩
    · rfl
  | add file format => rfl

theorem getElem?_payload_replay {xs : List Change} (h : flat.TakesAll names xs)
    (hb : b.number < flat.length b.file) {k : Nat} (hk : ∀ x ∈ xs, ¬ x.Hits b k) :
    (Page.payload ((flat.replay xs).block b))[k]? = (Page.payload (flat.block b))[k]? := by
  induction xs generalizing flat with
  | nil => rfl
  | cons x xs ih =>
    rw [← getElem?_payload_apply h.1 hb (hk x List.mem_cons_self)]
    exact ih h.2 (Nat.lt_of_lt_of_le hb (flat.length_le_apply x _))
      fun y hy => hk y (List.mem_cons_of_mem _ hy)

theorem getElem?_payload_put {offset : Nat} {v : Value} {lsn? : Option Lsn}
    (h : flat.Takes names (.put b offset v lsn?)) {k : Nat} (hk : k < v.size) :
    (Page.payload ((flat.apply (.put b offset v lsn?)).block b))[offset + k]? = v.encode[k]? := by
  rw [payload_apply h h.2.2.1, Change.on, if_pos rfl, getElem?_overlay h.fits, if_pos,
    Nat.add_sub_cancel_left]
  rw [Value.length_encode]
  omega

end Flat

end PagedStore
