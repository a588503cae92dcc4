import PagedStore.Proofs.Engine.Kept
import PagedStore.Proofs.Pool.Counted

set_option autoImplicit false

/-!
A store whose frames have just the pins that are accounted for. Main statements: `Store.Even.got`,
`Store.Even.missed` and `Store.Even.unpinFrames`, what the calls of the pool do to the accounts, and
`Store.blockAt?_claim_fresh`, that a new block is none of those inside its file.
-/

namespace PagedStore

namespace Disk

theorem fits_ne_endless (d : Disk) (start : Nat) : d.fits start ≠ .error .endless := by
  unfold fits
  split
  · nofun
  · split
    · split <;> nofun
    · nofun

theorem seek_ne_endless (d : Disk) (b : BlockId) : (d.seek b).1 ≠ .error .endless := by
  unfold seek offset
  split
  · rename_i e he
    split at he <;> cases he
    nofun
  · rename_i start _
    cases hopen : d.openFile b.file with
    | mk q d' =>
      cases q with
      | error e =>
        obtain ⟨e', rfl⟩ := openFile_eq_error hopen
        nofun
      | ok q =>
        have hfits := d'.fits_ne_endless start
        dsimp only
        cases hf : d'.fits start with
        | error e =>
          rw [hf] at hfits
          exact fun he => hfits (congrArg _ (Except.error.inj he))
        | ok u => nofun

theorem write_ne_endless (d : Disk) (b : BlockId) (data : Bytes) :
    (d.write b data).1 ≠ .error .endless := by
  have hseek := d.seek_ne_endless b
  unfold write
  split
  · nofun
  · split
    · rename_i e d' hs
      rw [hs] at hseek
      exact fun he => hseek (congrArg _ (Except.error.inj he))
    · nofun

end Disk

theorem Media.force_ne_endless (m : Media) (lsn : Lsn) : (m.force lsn).1 ≠ .error .endless := by
  unfold force Log.flush
  split
  · nofun
  · dsimp only
    split
    · nofun
    · split <;> nofun

namespace Store

variable {size : Nat} {s s' : Store} {w : Wanted}

def Grown (length : String → Nat) (s : Store) : Prop :=
  0 < s.blockSize ∧ ∀ n, length n ≤ s.media.disk.blocks n

variable {length : String → Nat}

theorem Grown.same (h : s.Grown length) (hs : Disk.Same s.media.disk s'.media.disk) :
    s'.Grown length :=
  ⟨lt_of_lt_of_eq h.1 hs.blockSize.symm, fun n => hs.blocks n ▸ h.2 n⟩

theorem Grown.put (h : s.Grown length) {name : String} {number : Nat} {data : Bytes}
    (hp : Disk.Put s.media.disk s'.media.disk name number data) : s'.Grown length := by
  refine ⟨lt_of_lt_of_eq h.1 hp.blockSize.symm, fun n => ?_⟩
  rw [hp.blocks h.1]
  split
  · exact Nat.le_trans (h.2 n) (Nat.le_max_left ..)
  · exact h.2 n

theorem kept_grown (length : String → Nat) : Store.Kept (Grown length) where
  still hs h := h.same (hs.media ▸ .refl _)
  flush {s} i h := by
    have hfl := flushedAt s i
    generalize s.flushFrame i = r at hfl
    cases hfl with
    | idle => exact h
    | unforced hf hm => exact h.same ((Media.of_force hm).1 ▸ .refl _)
    | unsaved hf hb hm hw => exact h.same ((Media.of_force hm).1 ▸ Disk.same_of_write_error hw)
    | saved hf hb hm hw => exact h.put ((Media.of_force hm).1 ▸ Disk.put_of_write hw)
  refill {s i f} w hi hc h := by
    have hfill := s.refilled i f w
    generalize s.refill i f w = r at hfill
    cases hfill with
    | @unread b e d hr =>
      have hs := Disk.same_read s.media.disk b f.data.length
      rw [hr] at hs
      exact h.same hs
    | @read b data d hr =>
      have hs := Disk.same_read s.media.disk b f.data.length
      rw [hr] at hs
      exact h.same hs
    | unadded ha => exact h.same (Disk.same_of_append_error ha)
    | added ha => exact h.put (Disk.put_of_append ha).2

/-- A new block lies behind the blocks that its file had, and inside the file that it has then. -/
theorem blockAt?_claim_fresh (hpos : 0 < s.blockSize) {file : String} {format : Formatter} {i : Nat}
    (hok : (s.claim (.fresh file format)).1 = .ok (some i)) :
    ∃ n, (s.claim (.fresh file format)).2.blockAt? i = some ⟨file, n⟩ ∧
      s.media.disk.blocks file ≤ n ∧
        n < (s.claim (.fresh file format)).2.media.disk.blocks file := by
  obtain ⟨s₁, s₂, s₃, f, hs, hf, hi, hr, hs'⟩ := filled_of_claim hok
  have h₂ : s₂.Grown s.media.disk.blocks := by
    have hk := kept_grown s.media.disk.blocks
    have hflush := hk.flush i (hk.still hs ⟨hpos, fun _ => Nat.le_refl _⟩)
    rwa [hf] at hflush
  rw [hs'.blockAt?, hs'.media]
  have hfill := s₂.refilled i f (.fresh file format)
  rw [hr] at hfill
  cases hfill with
  | @added file format b d ha =>
    obtain ⟨rfl, hput⟩ := Disk.put_of_append ha
    refine ⟨s₂.media.disk.blocks file, ?_, h₂.2 file, ?_⟩
    · rw [blockAt?_set hi, if_pos rfl]
    · show _ < d.blocks file
      rw [hput.blocks h₂.1, if_pos rfl]
      exact Nat.lt_of_lt_of_le (Nat.lt_succ_self _) (Nat.le_max_right ..)

theorem flushFrame_ne_endless (s : Store) (i : Nat) : (s.flushFrame i).1 ≠ .error .endless := by
  have hfl := flushedAt s i
  generalize s.flushFrame i = r at hfl
  cases hfl with
  | idle => nofun
  | @unforced f e m hf hm =>
    have hne := s.media.force_ne_endless f.lsn
    rwa [hm] at hne
  | @unsaved f b e m d hf hb hm hw =>
    have hne := m.disk.write_ne_endless b f.data
    rwa [hw] at hne
  | saved hf hb hm hw => nofun

/-- Where the table tells the truth every pin comes to an end. -/
theorem Truthful.pin_ne_endless (h : s.Truthful) (hfit : s.Fitted size) (w : Wanted) :
    (s.pin w).1 ≠ .error .endless := by
  have hclaim : ∀ w, (s.claim w).1 ≠ .error .endless := by
    intro w he
    have hcl := claimed s w
    generalize s.claim w = r at hcl he
    cases hcl with
    | full hs => cases he
    | @unflushed s₁ s₂ i e hs hf =>
      have hne := s₁.flushFrame_ne_endless i
      rw [hf] at hne
      exact hne (congrArg _ (Except.error.inj he))
    | @unfilled s₁ s₂ s₃ i f e hs hf hi hc hr =>
      have hfit₂ := (hfit.still hs).flushFrame i
      rw [hf] at hfit₂
      obtain rfl : e = .endless := Except.error.inj he
      rcases hfit₂.error_of_refill hi hr with ⟨e', he'⟩ | ⟨b, rfl, ho⟩
      · cases he'
      · have hcrash := hfit₂.refill_of_overflow hi ho
        rw [hr] at hcrash
        cases hcrash
    | filled hs hf hi hc hr hs' => cases he
  cases w with
  | fresh file format => exact hclaim _
  | block b =>
    simp only [pin, pinBlock]
    split
    · exact hclaim _
    · rename_i i ht
      have hb : s.pool.frames[i]?.bind Frame.block = some b := h b i ht
      rw [if_pos hb]
      intro he
      cases he

theorem Truthful.pin (h : s.Truthful) (hfit : s.Fitted size)
    (hc : ∀ c, (s.pin w).1 ≠ .error (.crash c)) : (s.pin w).2.Truthful := by
  refine (h.step_iff hfit (.pin w)).2 fun hm => ?_
  cases w with
  | fresh file format => exact hm
  | block b =>
    obtain ⟨habsent, hover, i, c, hv, hok, -⟩ : s.Strands b := hm
    refine hc .offsetOverflow ?_
    simp only [Store.pin, pinBlock, habsent]
    have hfit₁ := (hfit.still s.still_victim).flushFrame i
    have hsize := blockSize_flushFrame s.scanned i
    rcases claim_of_victim hv (.block b) with ⟨e, hf, -⟩ | ⟨s₂, f, hf, hi, hrest⟩
    · rw [hf] at hok
      cases hok
    · change (s.scanned.flushFrame i).2.Fitted size at hfit₁
      rw [hf] at hfit₁ hsize
      have hcrash := hfit₁.refill_of_overflow hi (b := b) (by
        rw [Overflows, hsize]
        exact hover)
      rcases hrest with ⟨e, hr, he⟩ | ⟨⟨s₃, hr⟩, -⟩
      · rw [hr] at hcrash
        cases hcrash
        exact he
      · rw [hr] at hcrash
        cases hcrash

theorem unpinFrames_ok {frames : List Nat} (hf : ∀ j, frames.count j ≤ s.pool.pinsAt j) :
    (Desk.unpinFrames frames s).1 = .ok () ∧
      (∀ j, (Desk.unpinFrames frames s).2.pool.pinsAt j + frames.count j = s.pool.pinsAt j) ∧
      (s.pool.Counted → (Desk.unpinFrames frames s).2.pool.Counted) := by
  induction frames generalizing s with
  | nil => exact ⟨rfl, fun _ => rfl, id⟩
  | cons i rest ih =>
    simp only [List.count_cons, beq_iff_eq] at hf ⊢
    have hi : 0 < s.pool.pinsAt i := by
      have := hf i
      rw [if_pos rfl] at this
      omega
    obtain ⟨hok, hpins, hcount⟩ := Pool.unpin_ok hi
    have hone : (s.unpin i).1 = .ok () ∧ (s.unpin i).2.pool = (s.pool.unpin i).2 := ⟨hok, rfl⟩
    unfold Desk.unpinFrames
    generalize s.unpin i = r at hone
    obtain ⟨q, s'⟩ := r
    obtain ⟨rfl, hpool⟩ := hone
    rw [← hpool] at hpins hcount
    dsimp only at hpins hcount
    obtain ⟨hok', hpins', hcount'⟩ := ih (s := s') fun j => by
      have h₁ := hf j
      have h₂ := hpins j
      omega
    refine ⟨hok', fun j => ?_, hcount' ∘ hcount⟩
    rw [← hpins j, ← hpins' j]
    exact (Nat.add_assoc ..).symm

/-- The frames have just these pins, and are free otherwise. -/
structure Even (size : Nat) (pins : Nat → Nat) (s : Store) : Prop where
  fitted : s.Fitted size
  truthful : s.Truthful
  counted : s.pool.Counted
  pinned : ∀ i, s.pool.pinsAt i = pins i

namespace Even

variable {pins : Nat → Nat}

theorem congr {pins' : Nat → Nat} (h : s.Even size pins) (hp : ∀ i, pins' i = pins i) :
    s.Even size pins' := ⟨h.fitted, h.truthful, h.counted, fun i => (h.pinned i).trans (hp i).symm⟩

theorem pos (h : s.Even size pins) : 0 < s.blockSize := h.fitted.pos

theorem got (h : s.Even size pins) {i : Nat} (hr : (s.pin w).1 = .ok (some i)) :
    (s.pin w).2.Even size fun j => pins j + if i = j then 1 else 0 where
  fitted := h.fitted.step (.pin w)
  truthful := h.truthful.pin h.fitted fun c hc => by rw [hr] at hc; cases hc
  counted := counted_pin h.counted
  pinned j := by rw [pinsAt_pin hr, h.pinned]

theorem missed (h : s.Even size pins) (hr : ∀ i, (s.pin w).1 ≠ .ok (some i))
    (hc : ∀ c, (s.pin w).1 ≠ .error (.crash c)) : (s.pin w).2.Even size pins where
  fitted := h.fitted.step (.pin w)
  truthful := h.truthful.pin h.fitted hc
  counted := counted_pin h.counted
  pinned j := by rw [pinsAt_pin_of_none hr, h.pinned]

theorem unpin (h : s.Even size pins) {i : Nat} (hi : 0 < pins i) :
    (s.unpin i).1 = .ok () ∧ (s.unpin i).2.Even size fun j => pins j - if i = j then 1 else 0 := by
  obtain ⟨hok, hpins, hcount⟩ := Pool.unpin_ok ((h.pinned i).symm ▸ hi)
  have hs := still_unpin s i
  exact ⟨hok, h.fitted.still hs, h.truthful.still hs, hcount h.counted, fun j =>
    Nat.eq_sub_of_add_eq ((hpins j).trans (h.pinned j))⟩

theorem unpinFrames (h : s.Even size pins) {frames : List Nat}
    (hf : ∀ j, frames.count j ≤ pins j) : (Desk.unpinFrames frames s).1 = .ok () ∧
      (Desk.unpinFrames frames s).2.Even size fun j => pins j - frames.count j := by
  obtain ⟨hok, hpins, hcount⟩ := unpinFrames_ok fun j => (h.pinned j).symm ▸ hf j
  have hs := still_unpinFrames frames s
  exact ⟨hok, h.fitted.still hs, h.truthful.still hs, hcount h.counted, fun j =>
    Nat.eq_sub_of_add_eq ((hpins j).trans (h.pinned j))⟩

theorem flushFrame (h : s.Even size pins) (i : Nat) : (s.flushFrame i).2.Even size pins where
  fitted := h.fitted.flushFrame i
  truthful := h.truthful.flushFrame i
  counted := h.counted.same (samePins_flushFrame s i)
  pinned j := ((samePins_flushFrame s i).pinsAt j).trans (h.pinned j)

theorem writeLogged (h : s.Even size pins) (i offset : Nat) (v : Value) (tx : TxId) (lsn : Lsn) :
    (s.editFrame i fun f => f.writeLogged offset v tx lsn).2.Even size pins := by
  have hsame : s.pool.SamePins (s.editFrame i fun f => f.writeLogged offset v tx lsn).2.pool :=
    samePins_editFrame s i fun _ _ hg => (Frame.of_writeLogged hg).2.2.1
  exact ⟨h.fitted.editFrame i fun _ _ => Frame.length_of_writeLogged,
    h.truthful.congr (blockAt?_editFrame fun _ _ hg => (Frame.of_writeLogged hg).2.1)
      (table_editFrame ..),
    h.counted.same hsame, fun j => (hsame.pinsAt j).trans (h.pinned j)⟩

theorem beside (h : s.Even size pins) {m : Media}
    (hm : m.disk.blockSize = s.media.disk.blockSize) : Even size pins { s with media := m } :=
  ⟨h.fitted.beside hm, h.truthful.congr (fun _ => rfl) rfl, h.counted, h.pinned⟩

end Even

theorem even_over {disk : Disk} {log : Log} {size stripes : Nat} {pool : Pool}
    (hc : Pool.create size stripes disk.blockSize = .ok pool) :
    (Store.over disk log pool).Even disk.blockSize fun _ => 0 where
  fitted := fitted_over hc
  truthful := truthful_over hc
  counted := Pool.counted_of_create hc
  pinned i := Pool.pinsAt_of_create hc i

theorem Even.free (h : s.Even size fun _ => 0) :
    s.pool.free = s.pool.size ∧ ∀ (i : Nat) f, s.pool.frames[i]? = some f → f.pins = 0 := by
  have hpins : ∀ (i : Nat) f, s.pool.frames[i]? = some f → f.pins = 0 := fun i f hf =>
    (Pool.pinsAt_of_frame hf).symm.trans (h.pinned i)
  refine ⟨?_, hpins⟩
  rw [h.counted, Pool.count_eq_size fun n hn => ?_]
  obtain ⟨f, hf, rfl⟩ := List.mem_map.1 hn
  obtain ⟨i, hi⟩ := List.mem_iff_getElem?.1 hf
  exact hpins i f hi

end Store

end PagedStore
