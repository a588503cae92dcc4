import PagedStore.Proofs.Pool.Pinned
import PagedStore.Proofs.Pool.Reopened

set_option autoImplicit false

/-!
Whether the table of a pool tells the truth. Main statement: `truthful_table`. Every entry points to
a frame with its block until a pin crashes between emptying a frame and correcting the table; a pin
of what the frame had goes round in its loop for ever then.
-/

namespace PagedStore

theorem Frame.blank_eq_ok {id blockSize : Nat} {f : Frame} (h : blank id blockSize = .ok f) :
    blockSize < memoryLimit := by
  unfold blank at h
  split at h
  · cases h
  · split at h
    · cases h
    · rename_i hlimit
      exact Nat.lt_of_not_le hlimit

theorem Pool.limit_of_create {size stripes blockSize : Nat} {p : Pool}
    (h : create size stripes blockSize = .ok p) : blockSize < memoryLimit := by
  obtain ⟨hframe, -⟩ := victim_of_create h
  unfold create at h
  split at h
  · cases h
  · split at h
    · cases h
    · split at h
      · cases h
      · split at h
        · cases h
        · rename_i frames hframes
          split at h
          · cases h
          · cases h
            exact Frame.blank_eq_ok (blanks_eq_ok hframes hframe)

namespace Frame

theorem length_of_write {f g : Frame} {offset : Nat} {v : Value} (h : f.write offset v = .ok g) :
    g.data.length = f.data.length := by
  rw [write_eq] at h
  cases hput : Page.put f.data offset v none with
  | error e =>
    rw [hput] at h
    cases h
  | ok data =>
    rw [hput] at h
    cases h
    exact Page.length_put hput

theorem length_of_writeLogged {f g : Frame} {offset : Nat} {v : Value} {tx : TxId} {n : Lsn}
    (h : f.writeLogged offset v tx n = .ok g) : g.data.length = f.data.length := by
  rw [writeLogged_eq] at h
  cases hw : Page.write f.data offset v with
  | error e =>
    rw [hw] at h
    cases h
  | ok data =>
    rw [hw] at h
    cases h
    have hlen := Page.length_write hw
    obtain ⟨hroom, -⟩ := Page.write_eq_ok hw
    dsimp only
    split
    · rw [Page.length_setLsn (by omega), hlen]
    · exact hlen

end Frame

namespace Store

/-- Every entry of the table points to a frame with its block. -/
def Truthful (s : Store) : Prop := ∀ b i, s.pool.table.find? b = some i → s.blockAt? i = some b

/-- The frames have the size of a block, which is that of a page in memory. -/
structure Fitted (size : Nat) (s : Store) : Prop where
  sized : s.blockSize = size
  room : Page.headerSize < size
  limit : size < memoryLimit
  frames : ∀ (i : Nat) (f : Frame), s.pool.frames[i]? = some f → f.data.length = size

def scanned (s : Store) : Store := { s with pool := s.pool.victim.2 }

/-- The offset of a block is past what a word can hold. -/
def Overflows (s : Store) (b : BlockId) : Prop := Disk.offsetLimit ≤ b.number * s.blockSize

/-- A pin that crashes on the offset of its block when the frame it takes has been written back and
emptied, and the table still names that frame for what it had. -/
structure Strands (s : Store) (b : BlockId) : Prop where
  absent : s.pool.table.find? b = none
  overflows : s.Overflows b
  vacates : ∃ i c, s.pool.victim.1 = some i ∧ (s.scanned.flushFrame i).1 = .ok () ∧
    s.pool.table.find? c = some i

def Misleads (s : Store) : PoolCall → Prop
  | .pin (.block b) => s.Strands b
  | _ => False

def Unmisled (s : Store) : List PoolCall → Prop
  | [] => True
  | c :: cs => ¬ s.Misleads c ∧ (s.step c).Unmisled cs

variable {size : Nat} {s s' : Store}

section Fits

theorem Fitted.pos (h : s.Fitted size) : 0 < s.blockSize :=
  Nat.lt_of_lt_of_eq (Nat.zero_lt_of_lt h.room) h.sized.symm

theorem Fitted.still (h : s.Fitted size) (hs : Still s s') : s'.Fitted size where
  sized := by
    rw [blockSize, hs.media]
    exact h.sized
  room := h.room
  limit := h.limit
  frames := by
    intro i f hf
    obtain ⟨g, hg, hc⟩ := hs.frame hf
    rw [← (Frame.core_eq_iff.1 hc).2.1]
    exact h.frames i g hg

theorem Fitted.set (h : s.Fitted size) {i : Nat} {g : Frame} {m : Media}
    {t : Registry BlockId Nat} (hm : m.disk.blockSize = s.blockSize) (hg : g.data.length = size) :
    Fitted size
      { media := m, pool := { s.pool with frames := s.pool.frames.set i g, table := t } } where
  sized := hm.trans h.sized
  room := h.room
  limit := h.limit
  frames := by
    intro j f hf
    rcases getElem?_set_cases hf with ⟨-, rfl⟩ | ⟨-, hf⟩
    · exact hg
    · exact h.frames j f hf

theorem Fitted.flushFrame (h : s.Fitted size) (i : Nat) : (s.flushFrame i).2.Fitted size where
  sized := (blockSize_flushFrame s i).trans h.sized
  room := h.room
  limit := h.limit
  frames := by
    have hfl := flushedAt s i
    generalize s.flushFrame i = r at hfl
    cases hfl with
    | idle => exact h.frames
    | unforced hf hm => exact h.frames
    | unsaved hf hb hm hw => exact h.frames
    | @saved f b m d hf hb hm hw =>
      intro j g hg
      rcases getElem?_set_cases hg with ⟨-, rfl⟩ | ⟨-, hg⟩
      · exact h.frames i f hf
      · exact h.frames j g hg

theorem Fitted.refill (h : s.Fitted size) {i : Nat} {f : Frame} {w : Wanted}
    (hi : s.pool.frames[i]? = some f) : (s.refill i f w).2.Fitted size := by
  have hlen := h.frames i f hi
  have hfill := s.refilled i f w
  generalize s.refill i f w = r at hfill
  cases hfill with
  | @unread b e d hr =>
    have hs := Disk.same_read s.media.disk b f.data.length
    rw [hr] at hs
    exact h.set hs.blockSize hlen
  | @read b data d hr =>
    have hs := Disk.same_read s.media.disk b f.data.length
    have hp := Disk.peek_of_read (congrArg Prod.fst hr)
    rw [hr] at hs
    refine h.set hs.blockSize ?_
    show data.length = size
    rw [hp, Disk.length_peek]
    exact h.sized
  | unadded ha => exact h.set (Disk.same_of_append_error ha).blockSize hlen
  | @added file format b d ha =>
    refine h.set (Disk.put_of_append ha).2.blockSize ?_
    show (format.page f.data.length).length = size
    rw [Formatter.length_page _ (hlen ▸ Nat.le_of_lt h.room), hlen]

theorem Fitted.claim (h : s.Fitted size) (w : Wanted) : (s.claim w).2.Fitted size := by
  have hcl := claimed s w
  generalize s.claim w = r at hcl
  have hflush : ∀ {s₁ s₂ : Store} {i : Nat} {r : Outcome Unit}, Still s s₁ →
      s₁.flushFrame i = (r, s₂) → s₂.Fitted size := by
    intro s₁ s₂ i r hs hf
    have h₂ := (h.still hs).flushFrame i
    rwa [hf] at h₂
  have hfill : ∀ {s₂ s₃ : Store} {i : Nat} {f : Frame} {r : Outcome Unit}, s₂.Fitted size →
      s₂.pool.frames[i]? = some f → s₂.refill i f w = (r, s₃) → s₃.Fitted size := by
    intro s₂ s₃ i f r h₂ hi hr
    have h₃ := h₂.refill (w := w) hi
    rwa [hr] at h₃
  cases hcl with
  | full hs => exact h.still hs
  | unflushed hs hf => exact hflush hs hf
  | unfilled hs hf hi hc hr => exact hfill (hflush hs hf) hi hr
  | filled hs hf hi hc hr hs' => exact (hfill (hflush hs hf) hi hr).still hs'

theorem Fitted.editFrame (h : s.Fitted size) (i : Nat) {edit : Frame → Except Error Frame}
    (he : ∀ f g, edit f = .ok g → g.data.length = f.data.length) :
    (s.editFrame i edit).2.Fitted size := by
  unfold Store.editFrame
  split
  · exact h
  · rename_i f hf
    split
    · exact h
    · rename_i g hg
      exact h.set (t := s.pool.table) rfl ((he f g hg).trans (h.frames i f hf))

theorem Fitted.beside (h : s.Fitted size) {m : Media}
    (hm : m.disk.blockSize = s.media.disk.blockSize) : Fitted size { s with media := m } :=
  ⟨hm.trans h.sized, h.room, h.limit, h.frames⟩

theorem Fitted.buffer (h : s.Fitted size) {i : Nat} {f : Frame}
    (hi : s.pool.frames[i]? = some f) :
    f.data.length = s.media.disk.blockSize ∧ s.media.disk.blockSize < memoryLimit :=
  ⟨(h.frames i f hi).trans h.sized.symm, lt_of_eq_of_lt h.sized h.limit⟩

theorem Fitted.step (h : s.Fitted size) (c : PoolCall) : (s.step c).Fitted size := by
  cases c with
  | pin w =>
    cases w with
    | fresh file format => exact h.claim (.fresh file format)
    | block b =>
      show (s.pinBlock b).2.Fitted size
      unfold pinBlock
      split
      · exact h.claim (.block b)
      · split
        · exact h.still ⟨Pool.map_core_take .., Pool.table_take .., rfl⟩
        · exact h
  | unpin i => exact h.still (still_unpin s i)
  | flush i => exact h.flushFrame i
  | flushAll => exact flushWhere_induct (fun _ i hs => hs.flushFrame i) h _
  | flushFor tx => exact flushWhere_induct (fun _ i hs => hs.flushFrame i) h _
  | write i offset v => exact h.editFrame i fun _ _ => Frame.length_of_write
  | writeLogged i offset v tx lsn => exact h.editFrame i fun _ _ => Frame.length_of_writeLogged
  | log l => exact ⟨h.sized, h.room, h.limit, h.frames⟩
  | fault cause => exact ⟨h.sized, h.room, h.limit, h.frames⟩

theorem Fitted.run (h : s.Fitted size) (calls : List PoolCall) : (s.run calls).Fitted size := by
  induction calls generalizing s with
  | nil => exact h
  | cons c cs ih => exact ih (h.step c)

theorem fitted_over {disk : Disk} {log : Log} {size stripes : Nat} {pool : Pool}
    (hc : Pool.create size stripes disk.blockSize = .ok pool) :
    (Store.over disk log pool).Fitted disk.blockSize := by
  obtain ⟨hroom, -, hframes⟩ := Pool.create_eq_ok hc
  refine ⟨rfl, hroom, Pool.limit_of_create hc, fun i f hf => ?_⟩
  rw [hframes hf]
  exact List.length_replicate

end Fits

section Truth

theorem Truthful.congr (h : s.Truthful) (hb : ∀ i, s'.blockAt? i = s.blockAt? i)
    (ht : s'.pool.table = s.pool.table) : s'.Truthful := by
  intro b i hi
  rw [ht] at hi
  rw [hb, h b i hi]

theorem Truthful.still (h : s.Truthful) (hs : Still s s') : s'.Truthful :=
  h.congr hs.blockAt? hs.table

theorem Truthful.flushFrame (h : s.Truthful) (i : Nat) : (s.flushFrame i).2.Truthful :=
  h.congr (blockAt?_flushFrame s i) (table_flushFrame s i)

theorem refill_eq_error {i : Nat} {f : Frame} {w : Wanted} {e : Failure}
    (hi : s.pool.frames[i]? = some f) (hr : s.refill i f w = (.error e, s')) :
    (∀ j, s'.blockAt? j = if j = i then none else s.blockAt? j) ∧
      s'.pool.table = retable s.pool.table i f.block none (.error e) := by
  obtain ⟨m, rfl⟩ := emptied_of_refill hr
  exact ⟨blockAt?_set hi, rfl⟩

theorem Fitted.error_of_refill (h : s.Fitted size) {i : Nat} {f : Frame} {w : Wanted} {e : Failure}
    (hi : s.pool.frames[i]? = some f) (hr : s.refill i f w = (.error e, s')) :
    (∃ e', e = .error e') ∨ ∃ b, w = .block b ∧ s.Overflows b := by
  obtain ⟨hlen, hlimit⟩ := h.buffer hi
  have hfill := s.refilled i f w
  rw [hr] at hfill
  cases hfill with
  | @unread b e d hread =>
    rw [hlen] at hread
    exact (Disk.read_eq_error hlimit hread).imp id fun ho => ⟨b, rfl, ho⟩
  | unadded hadd =>
    refine .inl (Disk.append_eq_error ?_ hlimit hadd)
    have hroom := h.room
    have hsized : s.media.disk.blockSize = size := h.sized
    omega

theorem Fitted.refill_of_overflow (h : s.Fitted size) {i : Nat} {f : Frame} {b : BlockId}
    (hi : s.pool.frames[i]? = some f) (ho : s.Overflows b) :
    (s.refill i f (.block b)).1 = .error (.crash .offsetOverflow) := by
  obtain ⟨hlen, hlimit⟩ := h.buffer hi
  simp only [Store.refill, Frame.fill, Media.read, hlen, Disk.read_of_overflow hlimit ho,
    Except.map]

theorem claim_of_rebind {i : Nat} {f : Frame} {w : Wanted} {r : Outcome Unit} {s' : Store}
    (hv : s.pool.victim.1 = some i) (hf : s.scanned.pool.frames[i]? = some f)
    (hr : s.scanned.rebind i f w = (r, s')) :
    (s.claim w).1 = r.map (fun _ => some i) ∧ ∀ e, r = .error e → (s.claim w).2 = s' := by
  have hf' : s.pool.victim.2.frames[i]? = some f := hf
  have hr' : rebind { s with pool := s.pool.victim.2 } i f w = (r, s') := hr
  simp only [claim, hv, hf', Option.bind_some, Option.map_some, hr']
  cases r with
  | error e => exact ⟨rfl, fun _ _ => rfl⟩
  | ok u => exact ⟨rfl, fun _ he => by cases he⟩

theorem claim_of_victim {i : Nat} (hv : s.pool.victim.1 = some i) (w : Wanted) :
    (∃ e, s.scanned.flushFrame i = (.error e, (s.claim w).2) ∧ (s.claim w).1 = .error e) ∨
    ∃ s₂ f, s.scanned.flushFrame i = (.ok (), s₂) ∧ s₂.pool.frames[i]? = some f ∧
      ((∃ e, s₂.refill i f w = (.error e, (s.claim w).2) ∧ (s.claim w).1 = .error e) ∨
        (∃ s₃, s₂.refill i f w = (.ok (), s₃)) ∧ (s.claim w).1 = .ok (some i)) := by
  obtain ⟨f, hf, -⟩ := s.pool.related_victim.2 i hv
  replace hf : s.scanned.pool.frames[i]? = some f := hf
  cases hr : f.flush s.scanned.media with
  | mk r m =>
    cases r with
    | error e =>
      obtain ⟨hanswer, hstore⟩ := claim_of_rebind (w := w) hv hf (rebind_of_unflushed hf hr)
      refine .inl ⟨e, ?_, hanswer⟩
      rw [hstore e rfl]
      simp only [flushFrame, hf, hr]
    | ok g =>
      refine .inr ⟨{ s.scanned with media := m }.setFrame i g, g, ?_, ?_, ?_⟩
      · simp only [flushFrame, hf, hr, setFrame]
      · have := (List.getElem?_eq_some_iff.1 hf).1
        simp [setFrame, this]
      · cases hfill : ({ s.scanned with media := m }.setFrame i g).refill i g w with
        | mk r s₃ =>
          obtain ⟨hanswer, hstore⟩ :=
            claim_of_rebind (w := w) hv hf ((rebind_of_flushed hr).trans hfill)
          cases r with
          | error e => exact .inl ⟨e, by rw [hstore e rfl], hanswer⟩
          | ok u => exact .inr ⟨⟨s₃, rfl⟩, hanswer⟩

theorem claim_of_full (hv : s.pool.victim.1 = none) (w : Wanted) :
    s.claim w = (.ok none, s.scanned) := by
  simp only [claim, hv, Option.bind_none, scanned]

theorem Truthful.claim_ok (h : s.Truthful) {w : Wanted} {i : Nat}
    (hok : (s.claim w).1 = .ok (some i)) : (s.claim w).2.Truthful := by
  obtain ⟨b, -, hblocks, htable⟩ := Store.claim_ok hok
  intro c j hj
  rw [htable, Registry.find?_insert] at hj
  rw [hblocks]
  split at hj
  · rename_i hcb
    rw [if_pos (Option.some.inj hj).symm, hcb]
  · rename_i hcb
    have hold : s.blockAt? i ≠ some c := by
      intro hc
      rw [hc, forget, Registry.find?_erase_self] at hj
      cases hj
    rw [find?_forget hold] at hj
    have hcj := h c j hj
    have hne : j ≠ i := by
      rintro rfl
      exact hold hcj
    rw [if_neg hne, hcj]

theorem Truthful.refill_error_iff (h : s.Truthful) (hfit : s.Fitted size) {i : Nat} {f : Frame}
    {w : Wanted} {e : Failure} (hi : s.pool.frames[i]? = some f)
    (hr : s.refill i f w = (.error e, s')) :
    s'.Truthful ↔ ¬ ∃ b, w = .block b ∧ s.Overflows b ∧ ∃ c, s.pool.table.find? c = some i := by
  obtain ⟨hblocks, htable⟩ := refill_eq_error hi hr
  rw [← blockAt?_of_frame hi] at htable
  constructor
  · -- the entry that the frame had before is still there
    rintro ht ⟨b, rfl, ho, c, hc⟩
    have hcrash := hfit.refill_of_overflow hi ho
    rw [hr] at hcrash
    cases hcrash
    have hempty := ht c i (htable ▸ hc)
    rw [hblocks, if_pos rfl] at hempty
    cases hempty
  · intro hn c j hj
    rw [htable] at hj
    rw [hblocks]
    rcases hfit.error_of_refill hi hr with ⟨e', rfl⟩ | ⟨b, rfl, ho⟩
    · have hold : s.blockAt? i ≠ some c := by
        intro hc
        simp only [retable, hc, forget, if_true, Registry.find?_erase_self] at hj
        cases hj
      simp only [retable, if_true, find?_forget hold] at hj
      have hcj := h c j hj
      have hne : j ≠ i := by
        rintro rfl
        exact hold hcj
      rw [if_neg hne, hcj]
    · have hcrash := hfit.refill_of_overflow hi ho
      rw [hr] at hcrash
      cases hcrash
      have hne : j ≠ i := by
        rintro rfl
        exact hn ⟨b, rfl, ho, c, hj⟩
      rw [if_neg hne, h c j hj]

/-- A claim crashes where it would have to take a frame from a block to give it to one whose offset
overflows. All other claims leave the table telling the truth. -/
theorem Truthful.claim_iff (h : s.Truthful) (hfit : s.Fitted size) (w : Wanted) :
    (s.claim w).2.Truthful ↔ ¬ ∃ b, w = .block b ∧ s.Overflows b ∧ ∃ i c,
      s.pool.victim.1 = some i ∧ (s.scanned.flushFrame i).1 = .ok () ∧
        s.pool.table.find? c = some i := by
  have hs : Still s s.scanned := still_victim s
  cases hv : s.pool.victim.1 with
  | none =>
    rw [claim_of_full hv]
    exact iff_of_true (h.still hs) fun ⟨_, _, _, _, _, hi, _⟩ => by cases hi
  | some i =>
    have h₁ := (h.still hs).flushFrame i
    have hfit₁ := (hfit.still hs).flushFrame i
    have ht₁ := (table_flushFrame s.scanned i).trans hs.table
    have hsize := blockSize_flushFrame s.scanned i
    rcases claim_of_victim hv w with ⟨e, hf, -⟩ | ⟨s₂, f, hf, hi, hrest⟩
    · rw [hf] at h₁
      refine iff_of_true h₁ ?_
      rintro ⟨b, -, -, j, c, hj, hok, -⟩
      cases hj
      rw [hf] at hok
      cases hok
    · rw [hf] at h₁ hfit₁ ht₁ hsize
      dsimp only at h₁ hfit₁ ht₁ hsize
      have hover : ∀ b, s₂.Overflows b ↔ s.Overflows b := by
        intro b
        rw [Overflows, Overflows, hsize]
        rfl
      rcases hrest with ⟨e, hr, -⟩ | ⟨⟨s₃, hr⟩, hok⟩
      · rw [h₁.refill_error_iff hfit₁ hi hr, ht₁]
        refine not_congr (exists_congr fun b => and_congr_right fun _ => ?_)
        rw [hover]
        refine and_congr_right fun _ => ⟨fun ⟨c, hc⟩ => ⟨i, c, rfl, by rw [hf], hc⟩, ?_⟩
        rintro ⟨j, c, hj, -, hc⟩
        cases hj
        exact ⟨c, hc⟩
      · refine iff_of_true (h.claim_ok hok) ?_
        rintro ⟨b, rfl, ho, -⟩
        have hcrash := hfit₁.refill_of_overflow hi ((hover b).2 ho)
        rw [hr] at hcrash
        cases hcrash

theorem Truthful.pinBlock_iff (h : s.Truthful) (hfit : s.Fitted size) (b : BlockId) :
    (s.pinBlock b).2.Truthful ↔ ¬ s.Strands b := by
  unfold pinBlock
  cases ht : s.pool.table.find? b with
  | some i =>
    refine iff_of_true ?_ fun hs => ?_
    · dsimp only
      split
      · exact h.still ⟨Pool.map_core_take .., Pool.table_take .., rfl⟩
      · exact h
    · have habsent := hs.absent
      rw [ht] at habsent
      cases habsent
  | none =>
    dsimp only
    rw [h.claim_iff hfit]
    refine not_congr ⟨?_, fun hs => ⟨b, rfl, hs.overflows, hs.vacates⟩⟩
    rintro ⟨c, hc, ho, hv⟩
    cases hc
    exact ⟨ht, ho, hv⟩

/-- One call: the table goes on telling the truth if and only if the call does not crash on its way
from one block to another. -/
theorem Truthful.step_iff (h : s.Truthful) (hfit : s.Fitted size) (c : PoolCall) :
    (s.step c).Truthful ↔ ¬ s.Misleads c := by
  cases c with
  | pin w =>
    cases w with
    | block b => exact h.pinBlock_iff hfit b
    | fresh file format =>
      refine iff_of_true ((h.claim_iff hfit (.fresh file format)).2 ?_) id
      rintro ⟨b, hb, -⟩
      cases hb
  | unpin i => exact iff_of_true (h.still (still_unpin s i)) id
  | flush i => exact iff_of_true (h.flushFrame i) id
  | flushAll => exact iff_of_true (flushWhere_induct (fun _ i hs => hs.flushFrame i) h _) id
  | flushFor tx => exact iff_of_true (flushWhere_induct (fun _ i hs => hs.flushFrame i) h _) id
  | write i offset v =>
    exact iff_of_true (h.congr (blockAt?_editFrame fun _ _ hg => (Frame.of_write hg).1)
      (table_editFrame ..)) id
  | writeLogged i offset v tx lsn =>
    exact iff_of_true (h.congr (blockAt?_editFrame fun _ _ hg => (Frame.of_writeLogged hg).2.1)
      (table_editFrame ..)) id
  | log l => exact iff_of_true (h.congr (fun _ => rfl) rfl) id
  | fault cause => exact iff_of_true (h.congr (fun _ => rfl) rfl) id

/-- All along a run the table tells the truth if and only if no call of it misleads. -/
theorem Truthful.run_iff (h : s.Truthful) (hfit : s.Fitted size) (calls : List PoolCall) :
    (∀ n, (s.run (calls.take n)).Truthful) ↔ s.Unmisled calls := by
  induction calls generalizing s with
  | nil => exact iff_of_true (fun n => by rwa [List.take_nil]) trivial
  | cons c cs ih =>
    constructor
    · intro hall
      have hc : (s.step c).Truthful := hall 1
      exact ⟨(h.step_iff hfit c).1 hc, (ih hc (hfit.step c)).1 fun n => hall (n + 1)⟩
    · rintro ⟨hm, hcs⟩ n
      cases n with
      | zero => exact h
      | succ n => exact (ih ((h.step_iff hfit c).2 hm) (hfit.step c)).2 hcs n

theorem Fitted.unmisled (hfit : s.Fitted size) {calls : List PoolCall}
    (h : ∀ b, .pin (.block b) ∈ calls → b.number * size < Disk.offsetLimit) :
    s.Unmisled calls := by
  induction calls generalizing s with
  | nil => trivial
  | cons c cs ih =>
    refine ⟨fun hm => ?_, ih (hfit.step c) fun b hb => h b (List.mem_cons_of_mem _ hb)⟩
    unfold Misleads at hm
    split at hm
    · have hover := hm.overflows
      rw [Overflows, hfit.sized] at hover
      exact Nat.not_lt.2 hover (h _ List.mem_cons_self)
    · exact hm

theorem truthful_over {disk : Disk} {log : Log} {size stripes : Nat} {pool : Pool}
    (hc : Pool.create size stripes disk.blockSize = .ok pool) :
    (Store.over disk log pool).Truthful := by
  intro b i hi
  obtain ⟨-, htable, -⟩ := Pool.create_eq_ok hc
  have hnone : (Registry.empty : Registry BlockId Nat).find? b = some i := htable ▸ hi
  cases hnone

end Truth

/-- The loop in a pin goes round once: it comes to an end, or finds that the frame in the table has
another block, and that all is as it was. -/
def pinTurn (s : Store) (b : BlockId) : Option (Outcome (Option Nat) × Store) :=
  match s.pool.table.find? b with
  | none => some (s.claim (.block b))
  | some i =>
    if s.blockAt? i = some b then some (.ok (some i), { s with pool := s.pool.take i }) else none

/-- What the loop has come to after so many turns. -/
def pinLoop (s : Store) (b : BlockId) : Nat → Option (Outcome (Option Nat) × Store)
  | 0 => none
  | turns + 1 =>
    match s.pinTurn b with
    | some r => some r
    | none => s.pinLoop b turns

theorem pinBlock_of_pinLoop {b : BlockId} {turns : Nat} {r : Outcome (Option Nat) × Store}
    (h : s.pinLoop b turns = some r) : s.pinBlock b = r := by
  induction turns with
  | zero => cases h
  | succ turns ih =>
    unfold pinLoop at h
    split at h
    · rename_i r' hr
      cases h
      cases ht : s.pool.table.find? b with
      | none =>
        simp only [pinTurn, ht] at hr
        simp only [pinBlock, ht]
        exact Option.some.inj hr
      | some i =>
        simp only [pinTurn, ht] at hr
        simp only [pinBlock, ht]
        split at hr
        · rename_i hb
          exact (if_pos hb).trans (Option.some.inj hr)
        · cases hr
    · exact ih h

theorem Truthful.pinTurn (h : s.Truthful) (b : BlockId) :
    s.pinTurn b = some (s.pinBlock b) := by
  have hone : (s.pinTurn b).isSome := by
    unfold Store.pinTurn
    split
    · rfl
    · rename_i i ht
      rw [if_pos (h b i ht)]
      rfl
  obtain ⟨r, hr⟩ := Option.isSome_iff_exists.1 hone
  have hloop : s.pinLoop b 1 = some r := by
    unfold pinLoop
    rw [hr]
  rw [hr, pinBlock_of_pinLoop hloop]

/-- Where the table lies about a block, a pin of it never comes back. -/
theorem pinLoop_of_lie {b : BlockId} {i : Nat} (ht : s.pool.table.find? b = some i)
    (hb : s.blockAt? i ≠ some b) (turns : Nat) : s.pinLoop b turns = none := by
  have hturn : s.pinTurn b = none := by
    simp only [pinTurn, ht, if_neg hb]
  induction turns with
  | zero => rfl
  | succ turns ih =>
    unfold pinLoop
    rw [hturn]
    exact ih

end Store

/-- In every state of a run of a new pool every entry of the table points to a frame with its block,
if and only if no pin of the run crashes on an overflow after it has emptied a frame that the table
names; where the offsets of all blocks pinned fit into a word, none does. Where the table tells the
truth, a pin comes to an end in its first turn. Where it does not, a pin of the block in question
goes round for ever. -/
theorem truthful_table {disk : Disk} {log : Log} {size stripes : Nat} {pool : Pool}
    (hc : Pool.create size stripes disk.blockSize = .ok pool) (calls : List PoolCall) :
    let s := fun n => (Store.over disk log pool).run (calls.take n)
    ((∀ n, (s n).Truthful) ↔ (Store.over disk log pool).Unmisled calls) ∧
    ((∀ b, .pin (.block b) ∈ calls → b.number * disk.blockSize < Disk.offsetLimit) →
      (Store.over disk log pool).Unmisled calls) ∧
    ∀ n, ((s n).Truthful → ∀ b, (s n).pinTurn b = some ((s n).pin (.block b))) ∧
      ∀ b i, (s n).pool.table.find? b = some i → (s n).blockAt? i ≠ some b →
        ∀ turns, (s n).pinLoop b turns = none := by
  have hfit : (Store.over disk log pool).Fitted disk.blockSize := Store.fitted_over hc
  refine ⟨(Store.truthful_over hc).run_iff hfit calls, hfit.unmisled, fun n => ⟨?_, ?_⟩⟩
  · exact fun ht b => ht.pinTurn b
  · exact fun b i hi hb turns => Store.pinLoop_of_lie hi hb turns

theorem truthful_table_reload :
    Pool.create 1 1 12 = .ok oneFrame ∧ ∀ n, (small.run (reload.take n)).Truthful := by
  have hc : Pool.create 1 1 12 = .ok oneFrame := rfl
  obtain ⟨hiff, hfits, -⟩ := @truthful_table { blockSize := 12 } .empty 1 1 oneFrame hc reload
  refine ⟨hc, hiff.2 (hfits fun b hb => ?_)⟩
  simp only [reload, List.mem_cons, PoolCall.pin.injEq, Wanted.block.injEq, reduceCtorEq,
    List.not_mem_nil, false_or, or_false] at hb
  rw [hb]
  decide

/-- The first block of a file is pinned and given back, and then a block so far out that its offset
is no word. The frame is empty, the table still names it, and the first block can never be pinned
again. -/
theorem not_truthful_table :
    Pool.create 1 1 12 = .ok oneFrame ∧
      let s := small.run [.pin (.block ⟨"f", 0⟩), .unpin 0, .pin (.block ⟨"f", Disk.endLimit⟩)]
      s.pool.table.find? ⟨"f", 0⟩ = some 0 ∧ s.blockAt? 0 = none ∧ ¬ s.Truthful ∧
        ∀ turns, s.pinLoop ⟨"f", 0⟩ turns = none := by
  have ht : (small.run [.pin (.block ⟨"f", 0⟩), .unpin 0,
      .pin (.block ⟨"f", Disk.endLimit⟩)]).pool.table.find? ⟨"f", 0⟩ = some 0 := by
    decide +kernel
  have hb : (small.run [.pin (.block ⟨"f", 0⟩), .unpin 0,
      .pin (.block ⟨"f", Disk.endLimit⟩)]).blockAt? 0 = none := by
    decide +kernel
  have hlie : (small.run [.pin (.block ⟨"f", 0⟩), .unpin 0,
      .pin (.block ⟨"f", Disk.endLimit⟩)]).blockAt? 0 ≠ some ⟨"f", 0⟩ := by
    intro h
    rw [hb] at h
    cases h
  exact ⟨rfl, ht, hb, fun h => hlie (h _ 0 ht), Store.pinLoop_of_lie ht hlie⟩

end PagedStore
