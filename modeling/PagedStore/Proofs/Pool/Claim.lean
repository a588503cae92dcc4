import PagedStore.Pool
import PagedStore.Proofs.Pool.Frame

set_option autoImplicit false

/-!
The calls of a pool taken apart: what they do beside pins and second chances is to write frames
back, to empty a frame and to fill it. Main statements: `rebind_of_flushed`, `claimed` and
`flushWhere_induct`.
-/

namespace PagedStore

/-- A frame but for its pins and its second chance. -/
def Frame.core (f : Frame) : Frame := { f with pins := 0, recent := false }

theorem Frame.core_eq_iff {f g : Frame} : f.core = g.core ↔
    f.id = g.id ∧ f.data = g.data ∧ f.block = g.block ∧ f.dirty = g.dirty ∧ f.fresh = g.fresh ∧
      f.modifiedBy = g.modifiedBy ∧ f.lsn = g.lsn := by
  simp [core]

theorem Frame.block_of_core {f g : Frame} (h : f.core = g.core) : f.block = g.block :=
  (core_eq_iff.1 h).2.2.1

namespace Store

def site (s : Store) : Site := s.media.disk.toSite

/-- At most pins, second chances and counts changed. -/
structure Still (s s' : Store) : Prop where
  frames : s'.pool.frames.map Frame.core = s.pool.frames.map Frame.core
  table : s'.pool.table = s.pool.table
  media : s'.media = s.media

theorem Still.symm {s s' : Store} (h : Still s s') : Still s' s :=
  ⟨h.frames.symm, h.table.symm, h.media.symm⟩

theorem Still.frame {s s' : Store} (h : Still s s') {i : Nat} {f' : Frame}
    (hf : s'.pool.frames[i]? = some f') : ∃ f, s.pool.frames[i]? = some f ∧ f.core = f'.core := by
  have hm : (s.pool.frames.map Frame.core)[i]? = some f'.core := by
    rw [← h.frames, List.getElem?_map, hf]
    rfl
  rw [List.getElem?_map, Option.map_eq_some_iff] at hm
  exact hm

end Store

theorem set_getElem?_self {α : Type} {xs : List α} {i : Nat} {x : α} (h : xs[i]? = some x) :
    xs.set i x = xs := by
  obtain ⟨hi, rfl⟩ := List.getElem?_eq_some_iff.1 h
  exact List.set_getElem_self hi

theorem map_set_of_eq {α β : Type} {xs : List α} {i : Nat} {x y : α} {f : α → β}
    (hx : xs[i]? = some x) (hy : f y = f x) : (xs.set i y).map f = xs.map f := by
  rw [List.map_set]
  exact set_getElem?_self (by rw [List.getElem?_map, hx, hy]; rfl)

theorem getElem?_set_cases {α : Type} {xs : List α} {i j : Nat} {x y : α}
    (h : (xs.set i x)[j]? = some y) : (j = i ∧ y = x) ∨ (j ≠ i ∧ xs[j]? = some y) := by
  rw [List.getElem?_set] at h
  split at h
  · rename_i hij
    split at h
    · exact .inl ⟨hij.symm, (Option.some.inj h).symm⟩
    · cases h
  · rename_i hij
    exact .inr ⟨fun e => hij e.symm, h⟩

namespace Pool

theorem blanks_eq_ok {blockSize first count : Nat} {frames : List Frame}
    (h : blanks blockSize first count = .ok frames) {i : Nat} {f : Frame}
    (hf : frames[i]? = some f) : Frame.blank (first + i) blockSize = .ok f := by
  induction count generalizing first frames i with
  | zero =>
    cases h
    cases hf
  | succ count ih =>
    unfold blanks at h
    split at h
    · cases h
    · rename_i g hg
      cases hrest : blanks blockSize (first + 1) count with
      | error e =>
        rw [hrest] at h
        cases h
      | ok rest =>
        rw [hrest] at h
        cases h
        cases i with
        | zero =>
          cases hf
          exact hg
        | succ i =>
          rw [← ih hrest hf]
          congr 1
          omega

theorem create_eq_ok {size stripes blockSize : Nat} {p : Pool}
    (h : create size stripes blockSize = .ok p) : Page.headerSize < blockSize ∧ p.table = .empty ∧
      ∀ {i : Nat} {f : Frame}, p.frames[i]? = some f →
        f = { id := i, data := List.replicate blockSize 0 } := by
  have hblank : ∀ {i : Nat} {f : Frame}, Frame.blank i blockSize = .ok f →
      Page.headerSize < blockSize ∧ f = { id := i, data := List.replicate blockSize 0 } := by
    intro i f hf
    unfold Frame.blank at hf
    split at hf
    · cases hf
    · rename_i hroom
      split at hf
      · cases hf
      · cases hf
        exact ⟨Nat.lt_of_not_le hroom, rfl⟩
  unfold create at h
  split at h
  · cases h
  · rename_i hsize
    split at h
    · cases h
    · split at h
      · cases h
      · split at h
        · cases h
        · rename_i frames hframes
          split at h
          · cases h
          · cases h
            refine ⟨?_, rfl, ?_⟩
            · obtain ⟨n, rfl⟩ := Nat.exists_eq_succ_of_ne_zero hsize
              unfold blanks at hframes
              split at hframes
              · cases hframes
              · rename_i f hf
                exact (hblank hf).1
            · intro i f hf
              have hb := blanks_eq_ok hframes hf
              rw [Nat.zero_add] at hb
              exact (hblank hb).2

theorem map_scan {β : Type} {g : Frame → β} (hg : ∀ f : Frame, g { f with recent := false } = g f)
    (order : List Nat) (frames : List Frame) : (scan order frames).2.map g = frames.map g := by
  induction order generalizing frames with
  | nil => rfl
  | cons i rest ih =>
    unfold scan
    split
    · exact ih frames
    · rename_i f hf
      split
      · exact ih frames
      · split
        · rw [ih]
          exact map_set_of_eq hf (hg f)
        · rfl

theorem map_core_take (p : Pool) (i : Nat) :
    (p.take i).frames.map Frame.core = p.frames.map Frame.core := by
  unfold take
  split
  · rfl
  · rename_i f hf
    exact map_set_of_eq hf rfl

theorem table_take (p : Pool) (i : Nat) : (p.take i).table = p.table := by
  unfold take
  split <;> rfl

theorem map_core_unpin (p : Pool) (i : Nat) :
    (p.unpin i).2.frames.map Frame.core = p.frames.map Frame.core := by
  unfold unpin
  split
  · rfl
  · rename_i f hf
    split
    · rfl
    · rename_i g hg
      refine map_set_of_eq hf ?_
      unfold Frame.unpin? at hg
      split at hg
      · cases hg
      · cases hg
        rfl

theorem table_unpin (p : Pool) (i : Nat) : (p.unpin i).2.table = p.table := by
  unfold unpin
  split
  · rfl
  · split <;> rfl

end Pool

namespace Store

theorem still_victim (s : Store) : Still s { s with pool := s.pool.victim.2 } :=
  ⟨Pool.map_scan (fun _ => rfl) _ _, rfl, rfl⟩

theorem still_take (s : Store) (i last : Nat) :
    Still s { s with pool := { s.pool.take i with lastClaimed := last } } :=
  ⟨Pool.map_core_take .., Pool.table_take .., rfl⟩

theorem still_unpin (s : Store) (i : Nat) : Still s (s.unpin i).2 :=
  ⟨Pool.map_core_unpin .., Pool.table_unpin .., rfl⟩

def blockAt? (s : Store) (i : Nat) : Option BlockId := s.pool.frames[i]?.bind Frame.block

theorem Still.blockAt? {s s' : Store} (h : Still s s') (i : Nat) :
    s'.blockAt? i = s.blockAt? i := by
  have hmap : ∀ t : Store, t.blockAt? i = (t.pool.frames.map Frame.core)[i]?.bind Frame.block := by
    intro t
    rw [Store.blockAt?, List.getElem?_map]
    cases t.pool.frames[i]? <;> rfl
  rw [hmap, hmap, h.frames]

def setFrame (s : Store) (i : Nat) (f : Frame) : Store :=
  { s with pool := { s.pool with frames := s.pool.frames.set i f } }

theorem setFrame_self {s : Store} {i : Nat} {f : Frame} (h : s.pool.frames[i]? = some f) :
    s.setFrame i f = s := by
  rw [setFrame, set_getElem?_self h]

theorem find?_forget {table : Registry BlockId Nat} {old : Option BlockId} {c : BlockId}
    (h : old ≠ some c) : (forget table old).find? c = table.find? c := by
  cases old with
  | none => rfl
  | some b => exact Registry.find?_erase_of_ne _ fun e => h (e ▸ rfl)

/-- The part of `rebind` after the write-back. -/
def refill (s : Store) (i : Nat) (f : Frame) (w : Wanted) : Outcome Unit × Store :=
  let (r, g, media) := { f with block := none }.fill w s.media
  (r.map fun _ => (), { s with
    media
    pool := { s.pool with
      frames := s.pool.frames.set i g
      table := retable s.pool.table i f.block g.block r } })

inductive Refilled (s : Store) (i : Nat) (f : Frame) : Wanted → Outcome Unit × Store → Prop
  | unread {b : BlockId} {e : Failure} {d : Disk}
      (hr : s.media.disk.read b f.data.length = (.error e, d)) :
      Refilled s i f (.block b) (.error e,
        { media := { s.media with disk := d }
          pool := { s.pool with
            frames := s.pool.frames.set i { f with block := none }
            table := retable s.pool.table i f.block none (.error e) } })
  | read {b : BlockId} {data : Bytes} {d : Disk}
      (hr : s.media.disk.read b f.data.length = (.ok data, d)) :
      Refilled s i f (.block b) (.ok (),
        { media := { s.media with disk := d }.note (.filled f.id)
          pool := { s.pool with
            frames := s.pool.frames.set i { f with
              data, block := some b, pins := 0, lsn := Page.lsn data, modifiedBy := none
              dirty := false, fresh := false }
            table := (forget s.pool.table f.block).insert b i } })
  | unadded {file : String} {format : Formatter} {e : Failure} {d : Disk}
      (ha : s.media.disk.append file = (.error e, d)) :
      Refilled s i f (.fresh file format) (.error e,
        { media := { s.media with disk := d }
          pool := { s.pool with
            frames := s.pool.frames.set i { f with block := none }
            table := retable s.pool.table i f.block none (.error e) } })
  | added {file : String} {format : Formatter} {b : BlockId} {d : Disk}
      (ha : s.media.disk.append file = (.ok b, d)) :
      Refilled s i f (.fresh file format) (.ok (),
        { media := { s.media with disk := d }.note (.filled f.id)
          pool := { s.pool with
            frames := s.pool.frames.set i { f with
              data := format.page f.data.length, block := some b, pins := 0, lsn := 0
              modifiedBy := none, dirty := false, fresh := true }
            table := (forget s.pool.table f.block).insert b i } })

theorem refilled (s : Store) (i : Nat) (f : Frame) (w : Wanted) :
    Refilled s i f w (s.refill i f w) := by
  have hfill := Frame.filled { f with block := none } w s.media
  unfold refill
  generalize Frame.fill { f with block := none } w s.media = r at hfill
  cases hfill with
  | unread hr => exact .unread hr
  | read hr => exact .read hr
  | unadded ha => exact .unadded ha
  | added ha => exact .added ha

theorem emptied_of_refill {s s' : Store} {i : Nat} {f : Frame} {w : Wanted} {e : Failure}
    (hr : s.refill i f w = (.error e, s')) : ∃ m, s' = { media := m, pool := { s.pool with
      frames := s.pool.frames.set i { f with block := none }
      table := retable s.pool.table i f.block none (.error e) } } := by
  have hfill := s.refilled i f w
  rw [hr] at hfill
  cases hfill with
  | unread hread => exact ⟨_, rfl⟩
  | unadded hadd => exact ⟨_, rfl⟩

inductive FlushedAt (s : Store) (i : Nat) : Outcome Unit × Store → Prop
  | idle : FlushedAt s i (.ok (), s)
  | unforced {f : Frame} {e : Failure} {m : Media} (hf : s.pool.frames[i]? = some f)
      (hm : s.media.force f.lsn = (.error e, m)) : FlushedAt s i (.error e, { s with media := m })
  | unsaved {f : Frame} {b : BlockId} {e : Failure} {m : Media} {d : Disk}
      (hf : s.pool.frames[i]? = some f) (hb : f.block = some b)
      (hm : s.media.force f.lsn = (.ok (), m)) (hw : m.disk.write b f.data = (.error e, d)) :
      FlushedAt s i (.error e, { s with media := { m with disk := d } })
  | saved {f : Frame} {b : BlockId} {m : Media} {d : Disk} (hf : s.pool.frames[i]? = some f)
      (hb : f.block = some b) (hm : s.media.force f.lsn = (.ok (), m))
      (hw : m.disk.write b f.data = (.ok (), d)) :
      FlushedAt s i (.ok (), { s with
        media := { m with disk := d }.note (.saved f.id m.log.durable) }.setFrame i
          { f with dirty := false, fresh := false })

theorem table_flushFrame (s : Store) (i : Nat) : (s.flushFrame i).2.pool.table = s.pool.table := by
  unfold flushFrame
  split
  · rfl
  · split <;> rfl

theorem flushedAt (s : Store) (i : Nat) : FlushedAt s i (s.flushFrame i) := by
  unfold flushFrame
  split
  · exact .idle
  · rename_i f hf
    have hidle : FlushedAt s i (.ok (), s.setFrame i f) := by
      rw [setFrame_self hf]
      exact .idle
    have hfl := Frame.flushed f s.media
    generalize f.flush s.media = r at hfl
    cases hfl with
    | clean hd hfr => exact hidle
    | unplaced hb => exact hidle
    | unforced hm => exact .unforced hf hm
    | unsaved hb hm hw => exact .unsaved hf hb hm hw
    | saved hb hm hw => exact .saved hf hb hm hw

end Store

theorem Frame.block_of_flush {f g : Frame} {m m' : Media} (h : f.flush m = (.ok g, m')) :
    g.block = f.block := by
  have hf := Frame.flushed f m
  rw [h] at hf
  cases hf <;> rfl

def Frame.Rested (f : Frame) : Prop := f.block = none ∨ (f.dirty = false ∧ f.fresh = false)

theorem Frame.rested_of_flush {f g : Frame} {m m' : Media} (h : f.flush m = (.ok g, m')) :
    g.Rested := by
  have hf := Frame.flushed f m
  rw [h] at hf
  cases hf with
  | clean hd hf => exact .inr ⟨hd, hf⟩
  | unplaced hb => exact .inl hb
  | saved hb hm hw => exact .inr ⟨rfl, rfl⟩

namespace Store

/-- What finding a frame for what is wanted can come to. -/
inductive Claimed (s : Store) (w : Wanted) : Outcome (Option Nat) × Store → Prop
  | full {s' : Store} (hs : Still s s') : Claimed s w (.ok none, s')
  | unflushed {s₁ s₂ : Store} {i : Nat} {e : Failure} (hs : Still s s₁)
      (hf : s₁.flushFrame i = (.error e, s₂)) : Claimed s w (.error e, s₂)
  | unfilled {s₁ s₂ s₃ : Store} {i : Nat} {f : Frame} {e : Failure} (hs : Still s s₁)
      (hf : s₁.flushFrame i = (.ok (), s₂)) (hi : s₂.pool.frames[i]? = some f) (hc : f.Rested)
      (hr : s₂.refill i f w = (.error e, s₃)) : Claimed s w (.error e, s₃)
  | filled {s₁ s₂ s₃ s₄ : Store} {i : Nat} {f : Frame} (hs : Still s s₁)
      (hf : s₁.flushFrame i = (.ok (), s₂)) (hi : s₂.pool.frames[i]? = some f) (hc : f.Rested)
      (hr : s₂.refill i f w = (.ok (), s₃)) (hs' : Still s₃ s₄) : Claimed s w (.ok (some i), s₄)

theorem rebind_of_unflushed {s : Store} {i : Nat} {f : Frame} {w : Wanted} {e : Failure}
    {m : Media} (hi : s.pool.frames[i]? = some f) (hr : f.flush s.media = (.error e, m)) :
    s.rebind i f w = (.error e, { s with media := m }) := by
  simp only [rebind, Frame.rebind, hr, Except.map]
  refine congrArg (Prod.mk _) ?_
  have ht : retable s.pool.table i f.block f.block (.error e) = s.pool.table := by
    unfold retable
    cases e with
    | error e =>
      cases f.block <;> rfl
    | crash c => rfl
    | endless => rfl
  rw [ht, set_getElem?_self hi]

theorem rebind_of_flushed {s : Store} {i : Nat} {f g : Frame} {w : Wanted} {m : Media}
    (hr : f.flush s.media = (.ok g, m)) :
    s.rebind i f w = ({ s with media := m }.setFrame i g).refill i g w := by
  simp only [rebind, Frame.rebind, hr, refill, setFrame, List.set_set, Frame.block_of_flush hr]

theorem found_frame {found : Option Nat} {frames : List Frame} {i : Nat} {f : Frame}
    (h : (found.bind fun i => frames[i]?.map fun f => (i, f)) = some (i, f)) :
    found = some i ∧ frames[i]? = some f := by
  simp only [Option.bind_eq_some_iff, Option.map_eq_some_iff, Prod.mk.injEq] at h
  obtain ⟨j, hj, g, hg, rfl, rfl⟩ := h
  exact ⟨hj, hg⟩

theorem claimed (s : Store) (w : Wanted) : Claimed s w (s.claim w) := by
  have hv := still_victim s
  unfold claim
  generalize s.pool.victim = v at hv
  obtain ⟨found, pool⟩ := v
  dsimp only at hv ⊢
  split
  · exact .full hv
  · rename_i i f hfound
    have hi : (Store.mk s.media pool).pool.frames[i]? = some f := (found_frame hfound).2
    generalize Store.mk s.media pool = s₁ at hv hi ⊢
    cases hr : f.flush s₁.media with
    | mk r m =>
      cases r with
      | error e =>
        rw [rebind_of_unflushed hi hr]
        refine .unflushed hv (i := i) ?_
        simp only [flushFrame, hi, hr]
      | ok g =>
        rw [rebind_of_flushed hr]
        have hf : s₁.flushFrame i = (.ok (), { s₁ with media := m }.setFrame i g) := by
          simp only [flushFrame, hi, hr, setFrame]
        have hi' : ({ s₁ with media := m }.setFrame i g).pool.frames[i]? = some g := by
          have := (List.getElem?_eq_some_iff.1 hi).1
          simp [setFrame, this]
        have hc := Frame.rested_of_flush hr
        cases hfill : ({ s₁ with media := m }.setFrame i g).refill i g w with
        | mk r s₃ =>
          cases r with
          | error e => exact .unfilled hv hf hi' hc hfill
          | ok u => exact .filled hv hf hi' hc hfill (still_take s₃ i i)

theorem filled_of_claim {s : Store} {w : Wanted} {i : Nat} (h : (s.claim w).1 = .ok (some i)) :
    ∃ s₁ s₂ s₃ f, Still s s₁ ∧ s₁.flushFrame i = (.ok (), s₂) ∧ s₂.pool.frames[i]? = some f ∧
      s₂.refill i f w = (.ok (), s₃) ∧ Still s₃ (s.claim w).2 := by
  have hcl := claimed s w
  generalize s.claim w = r at hcl h
  cases hcl with
  | full hs => cases h
  | unflushed hs hf => cases h
  | unfilled hs hf hi hc hr => cases h
  | filled hs hf hi hc hr hs' =>
    cases h
    exact ⟨_, _, _, _, hs, hf, hi, hr, hs'⟩

theorem blockAt?_refill {s s' : Store} {i : Nat} {f g : Frame} {b : BlockId}
    (hi : s.pool.frames[i]? = some f) (hr : s.refill i g (.block b) = (.ok (), s')) :
    s'.blockAt? i = some b := by
  have hlt := (List.getElem?_eq_some_iff.1 hi).1
  have hfill := s.refilled i g (.block b)
  rw [hr] at hfill
  cases hfill with
  | read hread => simp [blockAt?, hlt]

theorem blockAt?_pin {s : Store} {b : BlockId} {i : Nat}
    (h : (s.pin (.block b)).1 = .ok (some i)) : (s.pin (.block b)).2.blockAt? i = some b := by
  simp only [pin, pinBlock] at h ⊢
  cases ht : s.pool.table.find? b with
  | none =>
    simp only [ht] at h ⊢
    obtain ⟨s₁, s₂, s₃, f, -, -, hi, hr, hs'⟩ := filled_of_claim h
    rw [hs'.blockAt?, blockAt?_refill hi hr]
  | some j =>
    simp only [ht] at h ⊢
    split at h
    · rename_i hj
      cases h
      rw [if_pos hj]
      have hs : Still s { s with pool := s.pool.take i } :=
        ⟨Pool.map_core_take .., Pool.table_take .., rfl⟩
      rw [hs.blockAt?]
      exact hj
    · cases h

theorem media_editFrame (s : Store) (i : Nat) (edit : Frame → Except Error Frame) :
    (s.editFrame i edit).2.media = s.media := by
  unfold editFrame
  split
  · rfl
  · split <;> rfl

theorem before_editFrame {s : Store} {i j : Nat} {edit : Frame → Except Error Frame} {g : Frame}
    (hg : (s.editFrame i edit).2.pool.frames[j]? = some g) :
    s.pool.frames[j]? = some g ∨ ∃ f, j = i ∧ s.pool.frames[j]? = some f ∧ edit f = .ok g := by
  unfold editFrame at hg
  split at hg
  · exact .inl hg
  · rename_i f hf
    split at hg
    · exact .inl hg
    · rename_i g' hg'
      rcases getElem?_set_cases hg with ⟨rfl, rfl⟩ | ⟨-, hg⟩
      · exact .inr ⟨f, rfl, hf, hg'⟩
      · exact .inl hg

theorem editFrame_eq_error {s s' : Store} {i : Nat} {edit : Frame → Except Error Frame} {e : Error}
    (h : s.editFrame i edit = (.error e, s')) : s' = s := by
  unfold editFrame at h
  split at h
  · cases h
  · split at h <;> cases h
    rfl

theorem flushWhere_induct {P : Store → Prop} (hp : ∀ s i, P s → P (s.flushFrame i).2) {s : Store}
    (hs : P s) (asked : Frame → Bool) : P (s.flushWhere asked).2 := by
  have key : ∀ (fs pre : List Frame) (m : Media),
      P { media := m, pool := { s.pool with frames := pre ++ fs } } →
      P { media := (flushFrames asked fs m).2.2
          pool := { s.pool with frames := pre ++ (flushFrames asked fs m).2.1 } } := by
    intro fs
    induction fs with
    | nil => exact fun _ _ h => h
    | cons f fs ih =>
      intro pre m h
      have hskip := ih (pre ++ [f]) m
      have hone := hp _ pre.length h
      unfold flushFrame at hone
      unfold flushFrames
      simp only [List.append_assoc, List.singleton_append] at hskip
      simp only [List.getElem?_append_right (Nat.le_refl _), Nat.sub_self,
        List.getElem?_cons_zero] at hone
      split
      · cases hr : f.flush m with
        | mk r m' =>
          rw [hr] at hone
          cases r with
          | error e => exact hone
          | ok g =>
            have hnext := ih (pre ++ [g]) m'
            simp only [List.append_assoc, List.singleton_append] at hnext
            refine hnext ?_
            simpa using hone
      · exact hskip h
  exact key s.pool.frames [] s.media hs

end Store

end PagedStore
