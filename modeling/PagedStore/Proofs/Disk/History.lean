import PagedStore.Proofs.Disk.Alike
import PagedStore.Proofs.Disk.Buffer

set_option autoImplicit false

/-!
Runs of the files of one directory. Main statement: `block_array`. What the files answer follows
from the blocks that were stored: a block has the bytes stored last, or zeros, and a file ends
behind the block that was stored farthest out. `Records.put` is the step that carries it.
-/

namespace PagedStore

inductive DiskCall where
  | read (b : BlockId) (len : Nat)
  | write (b : BlockId) (data : Bytes)
  | append (name : String)
  | length (name : String)
  | fault (cause : Option IoCause)
  | reopen

def DiskCall.Within (names : String → Prop) : DiskCall → Prop
  | .read b _ | .write b _ => names b.file
  | .append name | .length name => names name
  | .fault _ | .reopen => True

/-- The blocks that were stored, with their bytes, the latest first. -/
abbrev Stored := List (BlockId × Bytes)

namespace Stored

variable {past : Stored} {b c : BlockId} {data : Bytes} {name : String} {blockSize : Nat}

def last? (past : Stored) (b : BlockId) : Option Bytes :=
  (past.find? fun w => w.1 = b).map Prod.snd

/-- The bytes stored last, or zeros. -/
def bytes (past : Stored) (blockSize : Nat) (b : BlockId) : Bytes :=
  (past.last? b).getD (List.replicate blockSize 0)

def blocks (past : Stored) (name : String) : Nat :=
  ((past.filter fun w => w.1.file = name).map fun w => w.1.number + 1).foldr max 0

theorem bytes_cons : bytes ((c, data) :: past) blockSize b =
    if b = c then data else past.bytes blockSize b := by
  by_cases hb : b = c
  · simp [bytes, last?, hb]
  · have hc : ¬ c = b := fun he => hb he.symm
    simp [bytes, last?, hb, hc]

theorem blocks_cons : blocks ((b, data) :: past) name =
    if b.file = name then max (b.number + 1) (past.blocks name) else past.blocks name := by
  unfold blocks
  rw [List.filter_cons]
  by_cases hname : b.file = name
  · simp [hname]
  · simp [hname]

theorem blocks_le_cons (w : BlockId × Bytes) (past : Stored) (name : String) :
    past.blocks name ≤ blocks (w :: past) name := by
  rw [blocks_cons]
  split
  · exact Nat.le_max_right ..
  · exact Nat.le_refl _

theorem blocks_le_append (more past : Stored) (name : String) :
    past.blocks name ≤ blocks (more ++ past) name := by
  induction more with
  | nil => exact Nat.le_refl _
  | cons w more ih => exact Nat.le_trans ih (blocks_le_cons w _ name)

theorem bytes_of_blocks_le (h : past.blocks b.file ≤ b.number) :
    past.bytes blockSize b = List.replicate blockSize 0 := by
  induction past with
  | nil => rfl
  | cons w past ih =>
    obtain ⟨c, data⟩ := w
    rw [bytes_cons, if_neg, ih (Nat.le_trans (blocks_le_cons ..) h)]
    rintro rfl
    rw [blocks_cons, if_pos rfl] at h
    omega

end Stored

namespace Disk

variable {names : String → Prop} {site : Site} {past : Stored} {d d' : Disk} {b : BlockId}
  {c : DiskCall} {data : Bytes} {name : String}

theorem read_ok_iff {len : Nat} : (d.read b len).1 = .ok data ↔
    (len = d.blockSize ∧ b.Reachable d.toSite ∧ d.fault = none) ∧ data = d.peek b := by
  constructor
  · intro h
    refine ⟨?_, peek_of_read h⟩
    have hreach := reachable_of_read h
    unfold read at h
    split at h
    · cases h
    · split at h
      · cases h
      · rename_i hlen
        cases hseek : (d.seek b).1 with
        | error e =>
          rw [show d.seek b = (.error e, (d.seek b).2) from Prod.ext hseek rfl] at h
          cases h
        | ok r => exact ⟨Decidable.not_not.1 hlen, hreach, fault_of_seek hseek⟩
  · rintro ⟨⟨rfl, hreach, hfault⟩, rfl⟩
    exact read_of_reachable hfault hreach

theorem append_ok_iff (hpos : 0 < d.blockSize) : (d.append name).1 = .ok b ↔
    b = ⟨name, d.blocks name⟩ ∧ b.Reachable d.toSite ∧ d.fault = none := by
  constructor
  · intro h
    have hput : d.append name = (.ok b, (d.append name).2) := Prod.ext h rfl
    refine ⟨(put_of_append hput).1, reachable_of_append hput, ?_⟩
    have hopen := fault_openFile d name
    unfold append at h
    generalize d.openFile name = q at hopen h
    obtain ⟨q, d₁⟩ := q
    cases q with
    | error e => cases h
    | ok q =>
      dsimp only at h
      split at h
      · cases h
      · split at h
        · cases h
        · rename_i hfits
          exact hopen.symm.trans (fault_of_fits hfits)
  · rintro ⟨rfl, ⟨⟨hnamed, hadmits⟩, hsize, hend⟩, hfault⟩
    obtain ⟨p, hp⟩ := Option.isSome_iff_exists.1 hnamed
    obtain ⟨file, files, hopen⟩ := openFile_of_path? hp hadmits
    obtain ⟨-, -, hfile⟩ := (openFile_spec d name).2 p file (congrArg Prod.fst hopen)
    have hfits : fits { d with files } (file.size / d.blockSize * d.blockSize) = .ok () := by
      rw [fits, if_neg (Nat.not_le.2 hsize), if_pos (hfile ▸ hend), hfault]
    simp only [append, hopen, blocksIn, if_neg (Nat.ne_of_gt hpos), hfits]
    rw [hfile, blocks]

theorem length_ok_iff (hpos : 0 < d.blockSize) {n : Nat} : (d.length name).1 = .ok n ↔
    ((path? name).isSome ∧ d.Admits name) ∧ n = d.blocks name := by
  by_cases hnamed : (path? name).isSome ∧ d.Admits name
  · obtain ⟨p, hp⟩ := Option.isSome_iff_exists.1 hnamed.1
    obtain ⟨file, files, hopen⟩ := openFile_of_path? hp hnamed.2
    obtain ⟨-, -, hfile⟩ := (openFile_spec d name).2 p file (congrArg Prod.fst hopen)
    rw [and_iff_right hnamed]
    simp only [length, hopen, blocksIn, if_neg (Nat.ne_of_gt hpos), Except.ok.injEq]
    rw [hfile, blocks, eq_comm]
  · refine iff_of_false (fun h => hnamed ?_) fun h => hnamed h.1
    have hok := (openFile_spec d name).2
    unfold length at h
    generalize d.openFile name = q at hok h
    obtain ⟨q, d₁⟩ := q
    cases q with
    | error e => cases h
    | ok q =>
      obtain ⟨hp, hadmits, -⟩ := hok q.1 q.2 rfl
      exact ⟨hp ▸ rfl, hadmits⟩

def step (d : Disk) : DiskCall → Disk
  | .read b len => (d.read b len).2
  | .write b data => (d.write b data).2
  | .append name => (d.append name).2
  | .length name => (d.length name).2
  | .fault cause => { d with fault := cause }
  | .reopen => d.reopen d.blockSize

def run (d : Disk) (calls : List DiskCall) : Disk := calls.foldl step d

/-- The block that a call adds behind its file. -/
def added? (d : Disk) : DiskCall → Option BlockId
  | .append name => (d.append name).1.toOption
  | _ => none

/-- The block that a call stores, if it succeeds and stores one. A block that is added is stored
with zeros. -/
def stored? (d : Disk) : DiskCall → Option (BlockId × Bytes)
  | .write b data => (d.write b data).1.toOption.map fun _ => (b, data)
  | .append name => (d.added? (.append name)).map fun b => (b, List.replicate d.blockSize 0)
  | _ => none

/-- The blocks that were stored after a run, where `past` were stored before. -/
def history (d : Disk) (past : Stored) : List DiskCall → Stored
  | [] => past
  | c :: cs => (d.step c).history ((d.stored? c).toList ++ past) cs

def added (d : Disk) : List DiskCall → List BlockId
  | [] => []
  | c :: cs => (d.added? c).toList ++ (d.step c).added cs

/-- What the files answer when the blocks in `past` were stored. -/
structure Answers (names : String → Prop) (site : Site) (past : Stored) (d : Disk) : Prop where
  read : ∀ grants b buffer data, names b.file → ((d.readInto grants b buffer).1 = .ok data ↔
    (buffer.length = site.blockSize ∧ b.Reachable site ∧ d.fault = none) ∧
      data = past.bytes site.blockSize b)
  write : ∀ b data, (d.write b data).1 = .ok () ↔
    data.length = site.blockSize ∧ b.Reachable site ∧ d.fault = none
  append : ∀ name b, names name → ((d.append name).1 = .ok b ↔
    b = ⟨name, past.blocks name⟩ ∧ b.Reachable site ∧ d.fault = none)
  length : ∀ name n, names name → ((d.length name).1 = .ok n ↔
    ((path? name).isSome ∧ site.Admits name) ∧ n = past.blocks name)

def Fails (d : Disk) : DiskCall → Prop
  | .read b len => ∃ e, (d.read b len).1 = .error e
  | .write b data => ∃ e, (d.write b data).1 = .error e
  | .append name => ∃ e, (d.append name).1 = .error e
  | .length name => ∃ e, (d.length name).1 = .error e
  | .fault _ | .reopen => False

/-- What one call more changes of the answers: the block that it stores, if it stores one, and the
length of that block's file. -/
structure Advances (names : String → Prop) (d : Disk) (c : DiskCall) : Prop where
  stored : ∀ b data, d.stored? c = some (b, data) → ∀ grants buffer x,
    ((d.step c).readInto grants b buffer).1 = .ok x → x = data
  others : ∀ b, names b.file → (∀ w ∈ d.stored? c, w.1 ≠ b) →
    ∀ grants grants' buffer buffer' x y, (d.readInto grants b buffer).1 = .ok x →
      ((d.step c).readInto grants' b buffer').1 = .ok y → y = x
  lengths : ∀ name n, names name → (∀ w ∈ d.stored? c, w.1.file ≠ name) →
    (((d.step c).length name).1 = .ok n ↔ (d.length name).1 = .ok n)
  grows : ∀ name m n, names name → (d.length name).1 = .ok m →
    ((d.step c).length name).1 = .ok n → m ≤ n
  appended : ∀ name b, c = .append name → (d.append name).1 = .ok b →
    b.file = name ∧ (d.length name).1 = .ok b.number ∧
      d.stored? c = some (b, List.replicate d.blockSize 0)
  failed : d.Fails c → d.Same (d.step c)

/-- The files hold the blocks that were stored, byte by byte, and nothing behind them. -/
structure Records (names : String → Prop) (site : Site) (past : Stored) (d : Disk) : Prop where
  ofSite : d.toSite = site
  sized : ∀ w ∈ past, w.2.length = site.blockSize
  size : ∀ name, names name → (d.fileOf name).size = past.blocks name * site.blockSize
  byteAt : ∀ b i, names b.file → i < site.blockSize →
    (d.fileOf b.file).byteAt (b.number * site.blockSize + i) =
      (past.bytes site.blockSize b).getD i 0

theorem step_cases (d : Disk) (c : DiskCall) : (d.stored? c = none ∧ d.Same (d.step c)) ∨
    ∃ b data, d.stored? c = some (b, data) ∧ d.Put (d.step c) b.file b.number data ∧
      ∀ names, c.Within names → names b.file := by
  cases c with
  | read b len => exact .inl ⟨rfl, same_read d b len⟩
  | write b data =>
    simp only [stored?, step]
    cases hw : d.write b data with
    | mk r d' =>
      cases r with
      | error e => exact .inl ⟨rfl, same_of_write_error hw⟩
      | ok u => exact .inr ⟨b, data, rfl, put_of_write hw, fun _ h => h⟩
  | append name =>
    simp only [stored?, added?, step]
    cases ha : d.append name with
    | mk r d' =>
      cases r with
      | error e => exact .inl ⟨rfl, same_of_append_error ha⟩
      | ok b =>
        obtain ⟨rfl, hput⟩ := put_of_append ha
        exact .inr ⟨_, _, rfl, hput, fun _ h => h⟩
  | length name => exact .inl ⟨rfl, same_length d name⟩
  | fault cause => exact .inl ⟨rfl, ⟨rfl, fun _ => rfl⟩⟩
  | reopen => exact .inl ⟨rfl, ⟨rfl, fun _ => rfl⟩⟩

namespace Records

theorem ofSize (h : Records names site past d) : d.blockSize = site.blockSize :=
  congrArg Site.blockSize h.ofSite

theorem empty (names : String → Prop) (site : Site) :
    Records names site [] { toSite := site } where
  ofSite := rfl
  sized := nofun
  size name _ := by
    have hfile : fileOf { toSite := site } name = .empty := by
      unfold fileOf
      split <;> rfl
    rw [hfile, show Stored.blocks [] name = 0 from rfl, Nat.zero_mul]
    rfl
  byteAt b i _ hi := by
    have hfile : fileOf { toSite := site } b.file = .empty := by
      unfold fileOf
      split <;> rfl
    rw [hfile, Extents.byteAt_empty, Stored.bytes_of_blocks_le (Nat.zero_le _)]
    simp [hi]

theorem same (h : Records names site past d) (hs : d.Same d') :
    Records names site past d' where
  ofSite := hs.site.trans h.ofSite
  sized := h.sized
  size name hn := by rw [hs.fileOf, h.size name hn]
  byteAt b i hb hi := by rw [hs.fileOf, h.byteAt b i hb hi]

theorem file_eq (hd : Distinct names) (hput : d.Put d' b.file b.number data) (hb : names b.file)
    (hn : names name) : path? name = path? b.file ↔ b.file = name :=
  ⟨fun he => (hd name b.file hn hb (he ▸ hput.named) he).symm, fun he => he ▸ rfl⟩

theorem put (hd : Distinct names) (h : Records names site past d) (hb : names b.file)
    (hput : d.Put d' b.file b.number data) : Records names site ((b, data) :: past) d' where
  ofSite := hput.site.trans h.ofSite
  sized := List.forall_mem_cons.2 ⟨hput.length.trans h.ofSize, h.sized⟩
  size name hn := by
    rw [hput.size, h.size name hn, h.ofSize, Stored.blocks_cons]
    simp only [file_eq hd hput hb hn]
    split
    · rw [← Nat.succ_mul, Nat.max_comm, Nat.mul_max_mul_right]
    · rfl
  byteAt c i hc hi := by
    have hcovers : b.Covers site.blockSize c.file (c.number * site.blockSize + i) ↔ c = b := by
      constructor
      · rintro ⟨hfile, hplace⟩
        have hnumber : c.number = b.number :=
          Decidable.not_not.1 fun hne => block_disjoint hne hi hplace
        have hname := (file_eq hd hput hb hc).1 hfile
        show BlockId.mk c.file c.number = BlockId.mk b.file b.number
        rw [hnumber, hname]
      · rintro rfl
        exact ⟨rfl, Nat.le_add_right .., Nat.add_lt_add_left hi _⟩
    rw [hput.byteAt, h.ofSize, Stored.bytes_cons]
    simp only [hcovers]
    split
    · rename_i hcb
      rw [hcb, Nat.add_sub_cancel_left]
    · exact h.byteAt c i hc hi

theorem step (hd : Distinct names) (h : Records names site past d) {c : DiskCall}
    (hc : c.Within names) :
    Records names site ((d.stored? c).toList ++ past) (d.step c) := by
  rcases d.step_cases c with ⟨hnone, hs⟩ | ⟨b, data, hsome, hput, hwithin⟩
  · rw [hnone]
    exact h.same hs
  · rw [hsome]
    exact h.put hd (hwithin names hc) hput

theorem run (hd : Distinct names) (h : Records names site past d) {calls : List DiskCall}
    (hcalls : ∀ c ∈ calls, c.Within names) :
    Records names site (d.history past calls) (d.run calls) := by
  induction calls generalizing past d with
  | nil => exact h
  | cons c cs ih =>
    obtain ⟨hc, hcs⟩ := List.forall_mem_cons.1 hcalls
    exact ih (h.step hd hc) hcs

theorem blocks (hpos : 0 < site.blockSize) (h : Records names site past d) (hn : names name) :
    d.blocks name = past.blocks name := by
  rw [Disk.blocks, h.size name hn, h.ofSize, Nat.mul_div_cancel _ hpos]

theorem length_bytes (h : Records names site past d) (b : BlockId) :
    (past.bytes site.blockSize b).length = site.blockSize := by
  unfold Stored.bytes Stored.last?
  cases hfind : past.find? fun w => w.1 = b with
  | none => exact List.length_replicate
  | some w => exact h.sized w (List.mem_of_find?_eq_some hfind)

/-- A block shows what was stored there last; where its file has ended, that is nothing. -/
theorem peek (h : Records names site past d) (hb : names b.file) :
    d.peek b = past.bytes site.blockSize b := by
  rw [Disk.peek, blockBytes_eq, h.ofSize, h.size b.file hb]
  refine List.ext_getElem (by simp [h.length_bytes]) fun i hi hi' => ?_
  rw [List.length_map, List.length_range] at hi
  simp only [List.getElem_map, List.getElem_range]
  split
  · rw [h.byteAt b i hb hi, List.getD_eq_getElem?_getD, List.getElem?_eq_getElem hi',
      Option.getD_some]
  · rename_i hend
    have hbehind : past.blocks b.file ≤ b.number := by
      refine Nat.le_of_lt_succ (Nat.lt_of_mul_lt_mul_right (a := site.blockSize) ?_)
      rw [Nat.succ_mul]
      omega
    simp [Stored.bytes_of_blocks_le hbehind]

theorem answers (hpos : 0 < site.blockSize) (h : Records names site past d) :
    d.Answers names site past where
  read grants b buffer data hb := by
    rw [readInto_eq, read_ok_iff, h.ofSite, h.peek hb]
  write b data := by
    rw [write_ok_iff, h.ofSite]
  append name b hn := by
    rw [append_ok_iff (h.ofSize.symm ▸ hpos), h.ofSite, h.blocks hpos hn]
  length name n hn := by
    rw [length_ok_iff (h.ofSize.symm ▸ hpos), h.ofSite, h.blocks hpos hn]

end Records

theorem ok_of_added? (h : d.added? c = some b) : ∃ name, c = .append name ∧
    (d.append name).1 = .ok b := by
  cases c with
  | append name =>
    refine ⟨name, rfl, ?_⟩
    rw [added?] at h
    generalize (d.append name).1 = r at h
    cases r with
    | error e => cases h
    | ok b' => exact congrArg Except.ok (Option.some.inj h)
  | _ => cases h

theorem same_of_fails (h : d.Fails c) : d.Same (d.step c) := by
  rcases d.step_cases c with ⟨-, hs⟩ | ⟨b, data, hsome, -⟩
  · exact hs
  · cases c with
    | read b len => exact same_read d b len
    | write b data =>
      obtain ⟨e, he⟩ := h
      rw [stored?, he] at hsome
      cases hsome
    | append name =>
      obtain ⟨e, he⟩ := h
      rw [stored?, added?, he] at hsome
      cases hsome
    | length name => exact same_length d name
    | fault cause => cases h
    | reopen => cases h

namespace Records

theorem advances (hd : Distinct names) (hpos : 0 < site.blockSize)
    (h : Records names site past d) (hc : c.Within names) : d.Advances names c where
  stored b data hsome grants buffer x hx := by
    have hb : names b.file := by
      rcases d.step_cases c with ⟨hnone, -⟩ | ⟨b', data', hsome', -, hwithin⟩
      · rw [hsome] at hnone
        cases hnone
      · cases hsome.symm.trans hsome'
        exact hwithin names hc
    rw [((h.step hd hc).answers hpos).read grants b buffer x hb, hsome] at hx
    rw [hx.2, Option.toList_some, List.singleton_append, Stored.bytes_cons, if_pos rfl]
  others b hb hne grants grants' buffer buffer' x y hx hy := by
    rw [(h.answers hpos).read grants b buffer x hb] at hx
    rw [((h.step hd hc).answers hpos).read grants' b buffer' y hb] at hy
    rw [hx.2, hy.2]
    cases hstored : d.stored? c with
    | none => rfl
    | some w =>
      exact Stored.bytes_cons.trans (if_neg fun he => hne w hstored he.symm)
  lengths name n hn hne := by
    rw [((h.step hd hc).answers hpos).length name n hn, (h.answers hpos).length name n hn]
    cases hstored : d.stored? c with
    | none => rfl
    | some w =>
      have hblocks : Stored.blocks (w :: past) name = past.blocks name :=
        Stored.blocks_cons.trans (if_neg (hne w hstored))
      rw [Option.toList_some, List.singleton_append, hblocks]
  grows name m n hn hm hlen := by
    rw [(h.answers hpos).length name m hn] at hm
    rw [((h.step hd hc).answers hpos).length name n hn] at hlen
    rw [hm.2, hlen.2]
    exact Stored.blocks_le_append ..
  appended name b he hok := by
    subst he
    obtain ⟨rfl, hreach, -⟩ := ((h.answers hpos).append name b hc).1 hok
    refine ⟨rfl, ((h.answers hpos).length name _ hc).2 ⟨hreach.1, rfl⟩, ?_⟩
    rw [stored?, added?, hok]
    rfl
  failed hf := same_of_fails hf

/-- Whatever is added lies behind all that was stored, so nothing is added twice. -/
theorem added (hd : Distinct names) (hpos : 0 < site.blockSize) (h : Records names site past d)
    {calls : List DiskCall} (hcalls : ∀ c ∈ calls, c.Within names) :
    (∀ b ∈ d.added calls, past.blocks b.file ≤ b.number) ∧ (d.added calls).Nodup := by
  induction calls generalizing past d with
  | nil => exact ⟨nofun, List.nodup_nil⟩
  | cons c cs ih =>
    obtain ⟨hc, hcs⟩ := List.forall_mem_cons.1 hcalls
    obtain ⟨hbehind, hnodup⟩ := ih (h.step hd hc) hcs
    have hrest : ∀ b ∈ (d.step c).added cs, past.blocks b.file ≤ b.number := fun b hb =>
      Nat.le_trans (Stored.blocks_le_append ..) (hbehind b hb)
    rw [Disk.added]
    cases hadded : d.added? c with
    | none => exact ⟨hrest, hnodup⟩
    | some b =>
      obtain ⟨name, rfl, hok⟩ := ok_of_added? hadded
      have hnumber : b.number = past.blocks b.file := by
        obtain ⟨rfl, -⟩ := ((h.answers hpos).append name b hc).1 hok
        rfl
      rw [stored?, hadded] at hbehind
      refine ⟨List.forall_mem_cons.2 ⟨Nat.le_of_eq hnumber.symm, hrest⟩,
        List.nodup_cons.2 ⟨fun hb => ?_, hnodup⟩⟩
      have hle := hbehind b hb
      rw [Option.map_some, Option.toList_some, List.singleton_append, Stored.blocks_cons,
        if_pos rfl] at hle
      omega

end Records

end Disk

/-- After every run from an empty directory, calls that fail and reopenings included: a block reads
as the bytes stored there last, or zeros, whatever the buffer held; a file has as many blocks as the
largest number stored in it says; a new block goes right behind them; and it is known exactly when a
call succeeds. One call more changes what is read of the block that it stores, and nothing else; no
file gets shorter, and no block is added twice. -/
theorem block_array {names : String → Prop} (hd : Distinct names) {site : Site}
    (hpos : 0 < site.blockSize) {calls : List DiskCall} (hcalls : ∀ c ∈ calls, c.Within names) :
    let start : Disk := { toSite := site }
    (start.run calls).Answers names site (start.history [] calls) ∧
    (∀ c, c.Within names → (start.run calls).Advances names c) ∧ (start.added calls).Nodup := by
  intro start
  have h := Disk.Records.empty names site
  exact ⟨(h.run hd hcalls).answers hpos, fun c hc => (h.run hd hcalls).advances hd hpos hc,
    (h.added hd hpos hcalls).2⟩

/-- A block is written far behind the end of a file, and one is added behind it. Then a buffer has
the wrong length, the operating system refuses, and a name leads nowhere, before the directory is
opened anew. -/
def gapped : List DiskCall :=
  [.write ⟨"a", 2⟩ [1, 2], .append "a", .write ⟨"a", 1⟩ [9], .fault (some .invalidArgument),
    .write ⟨"a", 0⟩ [3, 4], .append "a", .fault none, .append "a/", .reopen]

/-- The blocks in the gap read as zeros, whatever the buffer held and however the bytes come. -/
theorem block_array_gapped : Distinct (fun n => n = "a" ∨ n = "a/") ∧ 0 < 2 ∧
    (∀ c ∈ gapped, c.Within fun n => n = "a" ∨ n = "a/") ∧
    let start : Disk := { blockSize := 2 }
    start.history [] gapped = [(⟨"a", 3⟩, [0, 0]), (⟨"a", 2⟩, [1, 2])] ∧
    start.added gapped = [⟨"a", 3⟩] ∧
    ((start.run gapped).length "a").1 = .ok 4 ∧
    ((start.run gapped).readInto (fun _ => 0) ⟨"a", 2⟩ [7, 7]).1 = .ok [1, 2] ∧
    ((start.run gapped).readInto (fun _ => 0) ⟨"a", 1⟩ [7, 7]).1 = .ok [0, 0] ∧
    ∀ x, (((start.run gapped).step (.write ⟨"a", 1⟩ [5, 6])).readInto (fun _ => 1) ⟨"a", 2⟩
      [0, 0]).1 = .ok x → x = [1, 2] := by
  have hd : Distinct fun n => n = "a" ∨ n = "a/" := by
    rintro m n (rfl | rfl) (rfl | rfl)
    all_goals decide
  have hcalls : ∀ c ∈ gapped, c.Within fun n => n = "a" ∨ n = "a/" := by
    simp [gapped, DiskCall.Within]
  obtain ⟨hanswers, hadvances, -⟩ := @block_array _ hd { blockSize := 2 } Nat.two_pos gapped hcalls
  have hpast : Disk.history { blockSize := 2 } [] gapped =
      [(⟨"a", 3⟩, [0, 0]), (⟨"a", 2⟩, [1, 2])] := by decide +kernel
  rw [hpast] at hanswers
  have hfault : (Disk.run { blockSize := 2 } gapped).fault = none := by decide +kernel
  have hwritten := (hanswers.read (fun _ => 0) ⟨"a", 2⟩ [7, 7] [1, 2] (.inl rfl)).2
    ⟨⟨rfl, ⟨by decide, by decide, by decide⟩, hfault⟩, by decide⟩
  have hgap := (hanswers.read (fun _ => 0) ⟨"a", 1⟩ [7, 7] [0, 0] (.inl rfl)).2
    ⟨⟨rfl, ⟨by decide, by decide, by decide⟩, hfault⟩, by decide⟩
  have hother : ∀ w ∈ (Disk.run { blockSize := 2 } gapped).stored? (.write ⟨"a", 1⟩ [5, 6]),
      w.1 ≠ ⟨"a", 2⟩ := by decide +kernel
  exact ⟨hd, Nat.two_pos, hcalls, hpast, by decide +kernel,
    (hanswers.length "a" 4 (.inl rfl)).2 (by decide), hwritten, hgap,
    fun x => (hadvances (.write ⟨"a", 1⟩ [5, 6]) (.inl rfl)).others ⟨"a", 2⟩ (.inl rfl) hother
      _ _ _ _ _ x hwritten⟩

end PagedStore
