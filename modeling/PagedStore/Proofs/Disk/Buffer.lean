import PagedStore.Proofs.Disk.Contents

set_option autoImplicit false

/-!
The loop that reads a block into a buffer, where the operating system may hand over fewer bytes than
it is asked for. Main statement: `readInto_eq`, that neither this nor what the buffer held before
matters.
-/

namespace PagedStore

/-- What one request for `len` bytes brings: one at least where the file has one, and `grant + 1` at
most. -/
def Extents.served (file : Extents) (grant start len : Nat) : Bytes :=
  file.read start (min len (grant + 1))

theorem Extents.length_served (file : Extents) (grant start len : Nat) :
    (file.served grant start len).length = min (min len (grant + 1)) (file.size - start) :=
  length_read ..

namespace Disk

/-- Asks for what is missing in the buffer, and again behind what came, until nothing comes; the
rest of the buffer becomes zeros. `grants` says how much is handed over at a place. -/
def fillBuffer (grants : Nat → Nat) (file : Extents) (start : Nat) (buffer : Bytes) : Bytes :=
  let got := file.served (grants start) start buffer.length
  if got = [] then buffer.map fun _ => 0
  else got ++ fillBuffer grants file (start + got.length) (buffer.drop got.length)
termination_by buffer.length
decreasing_by
  rename_i hgot
  have hpos : 0 < got.length := List.length_pos_iff.2 hgot
  have hlen : got.length = _ := file.length_served (grants start) start buffer.length
  rw [List.length_drop]
  show buffer.length - got.length < buffer.length
  omega

def readInto (grants : Nat → Nat) (d : Disk) (b : BlockId) (buffer : Bytes) :
    Outcome Bytes × Disk :=
  if memoryLimit ≤ buffer.length then (.error (.crash .tooLarge), d)
  else if buffer.length ≠ d.blockSize then (.error (.crash .bufferLength), d)
  else
    match d.seek b with
    | (.error e, d) => (.error e, d)
    | (.ok (_, file, start), d) =>
      (.ok (fillBuffer grants file start buffer), { d with reads := d.reads + 1 })

theorem blockBytes_add (file : Extents) (start m n : Nat) :
    blockBytes file start (m + n) = blockBytes file start m ++ blockBytes file (start + m) n := by
  simp only [blockBytes_eq, List.range_add, List.map_append, List.map_map, Function.comp_def,
    Nat.add_assoc]

theorem served_eq (file : Extents) (grant start len : Nat) :
    file.served grant start len = blockBytes file start (file.served grant start len).length := by
  have hlen := file.length_served grant start len
  rw [blockBytes_eq, hlen, Extents.served, Extents.read_eq]
  refine List.map_congr_left fun i hi => ?_
  rw [List.mem_range] at hi
  rw [if_pos (by omega)]

theorem zeros_of_served_nil {file : Extents} {grant start : Nat} {buffer : Bytes}
    (h : file.served grant start buffer.length = []) :
    (buffer.map fun _ => 0) = blockBytes file start buffer.length := by
  have hlen := file.length_served grant start buffer.length
  rw [h, List.length_nil] at hlen
  rw [blockBytes_eq]
  refine List.ext_getElem (by simp) fun i hi _ => ?_
  rw [List.length_map] at hi
  simp only [List.getElem_map, List.getElem_range]
  rw [if_neg (by omega)]

/-- The loop gives the bytes of the block, however they were handed over. -/
theorem fillBuffer_eq (grants : Nat → Nat) (file : Extents) (start : Nat) (buffer : Bytes) :
    fillBuffer grants file start buffer = blockBytes file start buffer.length := by
  fun_induction fillBuffer grants file start buffer with
  | case1 start buffer got hgot => exact zeros_of_served_nil hgot
  | case2 start buffer got hgot ih =>
    have hle : got.length ≤ buffer.length := by
      have hlen : got.length = _ := file.length_served (grants start) start buffer.length
      omega
    obtain ⟨rest, hrest⟩ := Nat.exists_eq_add_of_le hle
    rw [ih, List.length_drop, hrest, Nat.add_sub_cancel_left, blockBytes_add]
    exact congrArg (· ++ _) (served_eq ..)

theorem readInto_eq (grants : Nat → Nat) (d : Disk) (b : BlockId) (buffer : Bytes) :
    d.readInto grants b buffer = d.read b buffer.length := by
  unfold readInto read
  split
  · rfl
  · split
    · rfl
    · rename_i hlen
      have hsize := Decidable.not_not.1 hlen
      have hs := (seek_spec d b).1
      generalize d.seek b = r at hs
      obtain ⟨r, d'⟩ := r
      cases r with
      | error e => rfl
      | ok r =>
        dsimp only
        rw [fillBuffer_eq, hsize, hs.blockSize]

end Disk

end PagedStore
