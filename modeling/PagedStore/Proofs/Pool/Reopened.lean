import PagedStore.Proofs.Disk.Reach
import PagedStore.Proofs.Pool.Claim

set_option autoImplicit false

/-!
A new pool gives every block that can be reached, with the bytes that the files have. Main
statement: `Store.pin_over`.
-/

namespace PagedStore

namespace Pool

theorem length_blanks {blockSize first count : Nat} {frames : List Frame}
    (h : blanks blockSize first count = .ok frames) : frames.length = count := by
  induction count generalizing first frames with
  | zero =>
    cases h
    rfl
  | succ count ih =>
    unfold blanks at h
    split at h
    · cases h
    · cases hrest : blanks blockSize (first + 1) count with
      | error e =>
        rw [hrest] at h
        cases h
      | ok rest =>
        rw [hrest] at h
        cases h
        rw [List.length_cons, ih hrest]

theorem scan_of_create {size stripes blockSize : Nat} {p : Pool}
    (h : create size stripes blockSize = .ok p) : 0 < p.size ∧ p.lastClaimed = p.size - 1 := by
  unfold create at h
  split at h
  · cases h
  · rename_i hsize
    split at h
    · cases h
    · split at h
      · cases h
      · split at h
        · cases h
        · rename_i frames hframes
          split at h
          · cases h
          · cases h
            have hlen := length_blanks hframes
            refine ⟨?_, ?_⟩
            · rw [Pool.size, hlen]
              exact Nat.pos_of_ne_zero hsize
            · rw [Pool.size, hlen]

theorem victim_of_create {size stripes blockSize : Nat} {p : Pool}
    (h : create size stripes blockSize = .ok p) :
    p.frames[0]? = some { id := 0, data := List.replicate blockSize 0 } ∧
      p.victim = (some 0, p) := by
  obtain ⟨hpos, hlast⟩ := scan_of_create h
  have hframe : p.frames[0]? = some { id := 0, data := List.replicate blockSize 0 } := by
    rw [List.getElem?_eq_getElem hpos]
    exact congrArg some ((create_eq_ok h).2.2 (List.getElem?_eq_getElem hpos))
  refine ⟨hframe, ?_⟩
  have horder : ∃ rest, scanOrder p.size p.lastClaimed = 0 :: rest := by
    obtain ⟨n, hn⟩ := Nat.exists_eq_succ_of_ne_zero (Nat.ne_of_gt (Nat.mul_pos Nat.two_pos hpos))
    rw [scanOrder, hn, List.range_succ_eq_map, hlast, Nat.sub_add_cancel hpos, List.map_cons,
      Nat.mod_self]
    exact ⟨_, rfl⟩
  obtain ⟨rest, horder⟩ := horder
  simp [victim, horder, scan, hframe]

end Pool

namespace Store

theorem pin_over {disk : Disk} {log : Log} {size stripes : Nat} {pool : Pool}
    (hc : Pool.create size stripes disk.blockSize = .ok pool) (hf : disk.fault = none)
    {b : BlockId} (hb : b.Reachable disk.toSite) :
    ((Store.mk { disk, log } pool).pin (.block b)).1 = .ok (some 0) ∧
      ∃ f : Frame, ((Store.mk { disk, log } pool).pin (.block b)).2.pool.frames[0]? = some f ∧
        f.block = some b ∧ f.data = disk.peek b := by
  obtain ⟨hframe, hvictim⟩ := Pool.victim_of_create hc
  obtain ⟨-, htable, -⟩ := Pool.create_eq_ok hc
  have hread := Disk.read_of_reachable hf hb
  have hlt := (List.getElem?_eq_some_iff.1 hframe).1
  cases hr : disk.read b disk.blockSize with
  | mk q d =>
    rw [hr] at hread
    obtain rfl : q = .ok (disk.peek b) := hread
    have hlen : (List.replicate disk.blockSize (0 : UInt8)).length = disk.blockSize :=
      List.length_replicate
    have hrebind : ∀ m : Media, m.disk = disk →
        Frame.rebind { id := 0, data := List.replicate disk.blockSize 0 } (.block b) m =
          (.ok b, { id := 0, data := disk.peek b, block := some b, lsn := Page.lsn (disk.peek b) },
            { m with disk := d }.note (.filled 0)) := by
      rintro m rfl
      simp only [Frame.rebind, Frame.flush, Bool.or_self, Bool.false_eq_true, if_false, Frame.fill,
        Media.read, hlen, hr]
    have hclaim := hrebind { disk, log } rfl
    simp only [pin, pinBlock, htable, Registry.find?_empty, claim, hvictim, Option.bind_some,
      hframe, Option.map_some, rebind, hclaim, Except.map, Pool.take, List.getElem?_set,
      List.length_set, hlt, if_true]
    exact ⟨trivial, _, rfl, rfl, rfl⟩

end Store

end PagedStore
