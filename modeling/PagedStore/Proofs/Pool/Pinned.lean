import PagedStore.Pins.Desk
import PagedStore.Proofs.Disk.Reach
import PagedStore.Proofs.Pool.Unique

set_option autoImplicit false

/-!
What the calls of a pool do to each frame and its pins. Main statement: `Store.refetched`. A pin
leaves every frame as it was that has pins and is not the answer, and adds a pin to the answer.
-/

namespace PagedStore

/-- What asking the pool for something can do to a frame. `taken` says that the frame is the
answer. -/
inductive Frame.Refetched (f : Frame) (w : Wanted) (taken : Prop) : Frame → Prop
  | kept {g : Frame} (ht : ¬ taken) (hc : g.core = f.core) (hp : g.pins = f.pins) :
      Refetched f w taken g
  | cached {g : Frame} (ht : taken) (hc : g.core = f.core) (hp : g.pins = f.pins + 1) :
      Refetched f w taken g
  | vacated {g : Frame} (ht : ¬ taken) (h₀ : f.pins = 0) (hp : g.pins = 0) (hb : g.block = none)
      (hm : g.modifiedBy = f.modifiedBy) : Refetched f w taken g
  | filled {g : Frame} (ht : taken) (h₀ : f.pins = 0) (hp : g.pins = 1) (hd : g.dirty = false)
      (hf : ∀ b, w = .block b → g.fresh = false) (hm : g.modifiedBy = none) :
      Refetched f w taken g

/-- Every frame is still there, and is related to what it was before. -/
def Pool.Related (p p' : Pool) (R : Nat → Frame → Frame → Prop) : Prop :=
  ∀ j : Nat, (p.frames[j]? = none ∧ p'.frames[j]? = none) ∨
    ∃ f g, p.frames[j]? = some f ∧ p'.frames[j]? = some g ∧ R j f g

namespace Pool

variable {p p' p'' : Pool} {R R' R'' : Nat → Frame → Frame → Prop}

theorem related_self (h : ∀ (j : Nat) f, p.frames[j]? = some f → R j f f) : p.Related p R := by
  intro j
  cases hf : p.frames[j]? with
  | none => exact .inl ⟨rfl, rfl⟩
  | some f => exact .inr ⟨f, f, rfl, rfl, h j f hf⟩

theorem related_refl (h : ∀ j f, R j f f) : p.Related p R := related_self fun j f _ => h j f

theorem Related.trans (h : p.Related p' R) (h' : p'.Related p'' R')
    (hr : ∀ j f g k, R j f g → R' j g k → R'' j f k) : p.Related p'' R'' := by
  intro j
  rcases h j with ⟨hn, hn'⟩ | ⟨f, g, hf, hg, hfg⟩
  · rcases h' j with ⟨-, hn''⟩ | ⟨g, k, hg, -, -⟩
    · exact .inl ⟨hn, hn''⟩
    · rw [hn'] at hg
      cases hg
  · rcases h' j with ⟨hn', -⟩ | ⟨g', k, hg', hk, hgk⟩
    · rw [hg] at hn'
      cases hn'
    · obtain rfl : g = g' := Option.some.inj (hg.symm.trans hg')
      exact .inr ⟨f, k, hf, hk, hr j f g k hfg hgk⟩

theorem Related.size (h : p.Related p' R) :
    p'.size = p.size := by
  have hnone : ∀ j : Nat, p'.frames[j]? = none ↔ p.frames[j]? = none := fun j => by
    rcases h j with ⟨hn, hn'⟩ | ⟨f, g, hf, hg, -⟩
    · exact iff_of_true hn' hn
    · rw [hf, hg]
      exact iff_of_false nofun nofun
  simp only [List.getElem?_eq_none_iff] at hnone
  exact Nat.le_antisymm ((hnone p.size).2 (Nat.le_refl _)) ((hnone p'.size).1 (Nat.le_refl _))

theorem Related.mono (h : p.Related p' R)
    (hr : ∀ (j : Nat) f g, p.frames[j]? = some f → p'.frames[j]? = some g → R j f g → R' j f g) :
    p.Related p' R' := by
  intro j
  rcases h j with hn | ⟨f, g, hf, hg, hfg⟩
  · exact .inl hn
  · exact .inr ⟨f, g, hf, hg, hr j f g hf hg hfg⟩

theorem Related.before (h : p.Related p' R) {j : Nat} {g : Frame} (hg : p'.frames[j]? = some g) :
    ∃ f, p.frames[j]? = some f ∧ R j f g := by
  rcases h j with ⟨-, hn⟩ | ⟨f, g', hf, hg', hfg⟩
  · rw [hg] at hn
    cases hn
  · obtain rfl := Option.some.inj (hg.symm.trans hg')
    exact ⟨f, hf, hfg⟩

theorem Related.later (h : p.Related p' R) {j : Nat} {f : Frame} (hf : p.frames[j]? = some f) :
    ∃ g, p'.frames[j]? = some g ∧ R j f g := by
  rcases h j with ⟨hn, -⟩ | ⟨f', g, hf', hg, hfg⟩
  · rw [hf] at hn
    cases hn
  · obtain rfl := Option.some.inj (hf.symm.trans hf')
    exact ⟨g, hg, hfg⟩

theorem related_set {i : Nat} {f g : Frame} {t : Registry BlockId Nat} {n : Int} {l : Nat}
    (hf : p.frames[i]? = some f) (hi : R i f g) (hj : ∀ j f, j ≠ i → R j f f) :
    p.Related { frames := p.frames.set i g, table := t, free := n, lastClaimed := l } R := by
  intro j
  have hlt := (List.getElem?_eq_some_iff.1 hf).1
  by_cases he : i = j
  · subst he
    exact .inr ⟨f, g, hf, by rw [List.getElem?_set, if_pos rfl, if_pos hlt], hi⟩
  · cases hk : p.frames[j]? with
    | none => exact .inl ⟨rfl, by rw [List.getElem?_set, if_neg he, hk]⟩
    | some k =>
      exact .inr ⟨k, k, rfl, by rw [List.getElem?_set, if_neg he, hk], hj j k fun e => he e.symm⟩

theorem related_scan (order : List Nat) (p : Pool) :
    p.Related { p with frames := (scan order p.frames).2 }
        (fun _ f g => g.core = f.core ∧ g.pins = f.pins) ∧
      ∀ i, (scan order p.frames).1 = some i →
        ∃ f, (scan order p.frames).2[i]? = some f ∧ f.pins = 0 := by
  induction order generalizing p with
  | nil => exact ⟨related_refl fun _ _ => ⟨rfl, rfl⟩, nofun⟩
  | cons i rest ih =>
    unfold scan
    cases hf : p.frames[i]? with
    | none => exact ih p
    | some f =>
      dsimp only
      split
      · exact ih p
      · rename_i hp
        split
        · let q : Pool := { p with frames := p.frames.set i { f with recent := false } }
          obtain ⟨hrest, hfound⟩ := ih q
          have hset : p.Related q (fun _ f g => g.core = f.core ∧ g.pins = f.pins) :=
            related_set hf ⟨rfl, rfl⟩ fun _ _ _ => ⟨rfl, rfl⟩
          exact ⟨hset.trans hrest fun _ _ _ _ h h' => ⟨h'.1.trans h.1, h'.2.trans h.2⟩, hfound⟩
        · refine ⟨related_refl fun _ _ => ⟨rfl, rfl⟩, ?_⟩
          rintro j ⟨⟩
          exact ⟨f, hf, Classical.not_not.1 hp⟩

theorem related_victim (p : Pool) :
    p.Related p.victim.2 (fun _ f g => g.core = f.core ∧ g.pins = f.pins) ∧
      ∀ i, p.victim.1 = some i → ∃ f, p.victim.2.frames[i]? = some f ∧ f.pins = 0 :=
  related_scan _ p

end Pool

namespace Frame

theorem of_flush {f g : Frame} {m m' : Media} (h : f.flush m = (.ok g, m')) :
    g.block = f.block ∧ g.pins = f.pins ∧ g.modifiedBy = f.modifiedBy := by
  have hf := flushed f m
  rw [h] at hf
  cases hf <;> exact ⟨rfl, rfl, rfl⟩

theorem refetched_rebind {f : Frame} {w : Wanted} {m : Media} (h₀ : f.pins = 0) (taken : Prop) :
    (∀ e, (f.rebind w m).1 = .error e → ¬ taken → f.Refetched w taken (f.rebind w m).2.1) ∧
      ∀ b, (f.rebind w m).1 = .ok b → taken → f.Refetched w taken (f.rebind w m).2.1.pin := by
  unfold rebind
  cases hfl : f.flush m with
  | mk r m' =>
    cases r with
    | error e => exact ⟨fun _ _ ht => .kept ht rfl rfl, nofun⟩
    | ok g =>
      obtain ⟨-, hp, hm⟩ := of_flush hfl
      have hfill := filled { g with block := none } w m'
      dsimp only
      generalize Frame.fill { g with block := none } w m' = r at hfill
      cases hfill with
      | unread hr => exact ⟨fun _ _ ht => .vacated ht h₀ (hp.trans h₀) rfl hm, nofun⟩
      | unadded ha => exact ⟨fun _ _ ht => .vacated ht h₀ (hp.trans h₀) rfl hm, nofun⟩
      | read hr => exact ⟨nofun, fun _ _ ht => .filled ht h₀ rfl rfl (fun _ _ => rfl) rfl⟩
      | added ha => exact ⟨nofun, fun _ _ ht => .filled ht h₀ rfl rfl nofun rfl⟩

theorem Refetched.of_same {f g k : Frame} {w : Wanted} {taken : Prop} (hc : g.core = f.core)
    (hp : g.pins = f.pins) (h : g.Refetched w taken k) : f.Refetched w taken k := by
  have hm : g.modifiedBy = f.modifiedBy := (core_eq_iff.1 hc).2.2.2.2.2.1
  cases h with
  | kept ht hc' hp' => exact .kept ht (hc'.trans hc) (hp'.trans hp)
  | cached ht hc' hp' => exact .cached ht (hc'.trans hc) (by rw [hp', hp])
  | vacated ht h₀ hp' hb hm' => exact .vacated ht (hp ▸ h₀) hp' hb (hm'.trans hm)
  | filled ht h₀ hp' hd hf hm' => exact .filled ht (hp ▸ h₀) hp' hd hf hm'

theorem Refetched.block {f g : Frame} {w : Wanted} {taken : Prop} (h : f.Refetched w taken g)
    (hp : 0 < f.pins) : g.block = f.block := by
  cases h with
  | kept ht hc _ => exact block_of_core hc
  | cached ht hc _ => exact block_of_core hc
  | vacated ht h₀ => exact absurd h₀ (Nat.pos_iff_ne_zero.1 hp)
  | filled ht h₀ => exact absurd h₀ (Nat.pos_iff_ne_zero.1 hp)

theorem Refetched.pins_le {f g : Frame} {w : Wanted} {taken : Prop} (h : f.Refetched w taken g) :
    f.pins ≤ g.pins ∧ (taken → f.pins + 1 ≤ g.pins) := by
  cases h with
  | kept ht hc hp => exact ⟨Nat.le_of_eq hp.symm, fun h => absurd h ht⟩
  | cached ht hc hp => exact ⟨by omega, fun _ => by omega⟩
  | vacated ht h₀ => exact ⟨by omega, fun h => absurd h ht⟩
  | filled ht h₀ hp => exact ⟨by omega, fun _ => by omega⟩

theorem Refetched.modifiedBy {f g : Frame} {w : Wanted} {taken : Prop}
    (h : f.Refetched w taken g) {tx : TxId} (hg : g.modifiedBy = some tx) :
    f.modifiedBy = some tx := by
  cases h with
  | kept ht hc _ => exact (core_eq_iff.1 hc).2.2.2.2.2.1 ▸ hg
  | cached ht hc _ => exact (core_eq_iff.1 hc).2.2.2.2.2.1 ▸ hg
  | vacated ht h₀ hp hb hm => exact hm ▸ hg
  | filled ht h₀ hp hd hf hm =>
    rw [hm] at hg
    cases hg

end Frame

namespace Store

theorem refetched_claim (s : Store) (w : Wanted) :
    s.pool.Related (s.claim w).2.pool
      fun j f g => f.Refetched w ((s.claim w).1 = .ok (some j)) g := by
  obtain ⟨hv, hfound⟩ := s.pool.related_victim
  unfold claim
  generalize s.pool.victim = v at hv hfound
  obtain ⟨found, pool⟩ := v
  dsimp only at hv hfound ⊢
  split
  · exact hv.mono fun _ _ _ _ _ h => .kept nofun h.1 h.2
  · rename_i i f hif
    have hi := found_frame hif
    obtain ⟨f', hf', h₀⟩ := hfound i hi.1
    obtain rfl : f = f' := Option.some.inj (hi.2.symm.trans hf')
    have hlt := (List.getElem?_eq_some_iff.1 hi.2).1
    have herr := fun taken => (Frame.refetched_rebind (w := w) (m := s.media) h₀ taken).1
    have hok := fun taken => (Frame.refetched_rebind (w := w) (m := s.media) h₀ taken).2
    unfold rebind
    dsimp only
    generalize f.rebind w s.media = r at herr hok
    obtain ⟨r, g, m⟩ := r
    -- the victim goes through all of it, and the other frames through nothing
    have hset : ∀ (q : Outcome (Option Nat)) (k : Frame) t n l, f.Refetched w (q = .ok (some i)) k →
        (∀ j, j ≠ i → q ≠ .ok (some j)) →
        pool.Related { frames := pool.frames.set i k, table := t, free := n, lastClaimed := l }
          fun j f g => f.Refetched w (q = .ok (some j)) g :=
      fun q k t n l hk hj => Pool.related_set hi.2 hk fun j _ hne => .kept (hj j hne) rfl rfl
    cases r with
    | error e =>
      dsimp only [Except.map]
      exact hv.trans (hset (.error e) g _ _ _ (herr _ e rfl nofun) nofun) fun _ _ _ _ h h' =>
        Frame.Refetched.of_same h.1 h.2 h'
    | ok b =>
      have hself : (pool.frames.set i g)[i]? = some g := by
        rw [List.getElem?_set, if_pos rfl, if_pos hlt]
      dsimp only [Except.map]
      simp only [Pool.take, hself, List.set_set]
      have hothers : ∀ j, j ≠ i → (.ok (some i) : Outcome (Option Nat)) ≠ .ok (some j) :=
        fun j hne he => hne (Option.some.inj (Except.ok.inj he)).symm
      exact hv.trans (hset (.ok (some i)) g.pin _ _ _ (hok _ b rfl rfl) hothers)
        fun _ _ _ _ h h' => Frame.Refetched.of_same h.1 h.2 h'

theorem refetched (s : Store) (w : Wanted) :
    s.pool.Related (s.pin w).2.pool
      fun j f g => f.Refetched w ((s.pin w).1 = .ok (some j)) g := by
  cases w with
  | fresh file format => exact refetched_claim s _
  | block b =>
    simp only [pin, pinBlock]
    cases ht : s.pool.table.find? b with
    | none => exact refetched_claim s _
    | some i =>
      dsimp only
      split
      · rename_i hb
        obtain ⟨f, hf, -⟩ := Option.bind_eq_some_iff.1 hb
        simp only [Pool.take, hf]
        refine Pool.related_set hf (.cached rfl rfl rfl) fun j _ hne => .kept ?_ rfl rfl
        exact fun e => hne (Option.some.inj (Except.ok.inj e)).symm
      · exact Pool.related_refl fun _ _ => .kept (fun h => by cases h) rfl rfl

theorem related_flushFrame (s : Store) (i : Nat) :
    s.pool.Related (s.flushFrame i).2.pool fun j f g =>
      g.block = f.block ∧ g.pins = f.pins ∧ g.modifiedBy = f.modifiedBy ∧
        (f.Rested → g.Rested) ∧ (j ≠ i → g = f) ∧
        (j = i → (s.flushFrame i).1 = .ok () → g.Rested) := by
  unfold flushFrame
  cases hf : s.pool.frames[i]? with
  | none =>
    refine Pool.related_self fun j f hj => ⟨rfl, rfl, rfl, id, fun _ => rfl, fun he => ?_⟩
    rw [he, hf] at hj
    cases hj
  | some f =>
    dsimp only
    cases hr : f.flush s.media with
    | mk r m =>
      cases r with
      | error e => exact Pool.related_refl fun _ _ => ⟨rfl, rfl, rfl, id, fun _ => rfl, nofun⟩
      | ok g =>
        obtain ⟨hb, hp, hm⟩ := Frame.of_flush hr
        have hg := Frame.rested_of_flush hr
        exact Pool.related_set hf ⟨hb, hp, hm, fun _ => hg, fun h => absurd rfl h, fun _ _ => hg⟩
          fun j _ hne => ⟨rfl, rfl, rfl, id, fun _ => rfl, fun h => absurd h hne⟩

theorem related_unpin (s : Store) (i : Nat) :
    s.pool.Related (s.unpin i).2.pool fun j f g =>
      g.core = f.core ∧ f.pins ≤ g.pins + if i = j then 1 else 0 := by
  have hrefl : s.pool.Related s.pool fun j f g =>
      g.core = f.core ∧ f.pins ≤ g.pins + if i = j then 1 else 0 :=
    Pool.related_refl fun _ _ => ⟨rfl, Nat.le_add_right ..⟩
  unfold Store.unpin Pool.unpin
  dsimp only
  cases hf : s.pool.frames[i]? with
  | none => exact hrefl
  | some f =>
    dsimp only
    cases hu : f.unpin? with
    | none => exact hrefl
    | some g =>
      unfold Frame.unpin? at hu
      split at hu
      · cases hu
      · cases hu
        refine Pool.related_set hf ⟨rfl, ?_⟩ fun _ _ _ => ⟨rfl, Nat.le_add_right ..⟩
        rw [if_pos rfl]
        exact Nat.le_add_of_sub_le (Nat.le_refl _)

theorem Still.related {s s' : Store} (h : Still s s') :
    s.pool.Related s'.pool fun _ f g => g.core = f.core := by
  intro j
  cases hg : s'.pool.frames[j]? with
  | some g =>
    obtain ⟨f, hf, hc⟩ := h.frame hg
    exact .inr ⟨f, g, hf, rfl, hc.symm⟩
  | none =>
    cases hf : s.pool.frames[j]? with
    | none => exact .inl ⟨rfl, rfl⟩
    | some f =>
      obtain ⟨g, hg', -⟩ := h.symm.frame hf
      rw [hg] at hg'
      cases hg'

theorem still_unpinFrames (frames : List Nat) (s : Store) :
    Still s (Desk.unpinFrames frames s).2 := by
  induction frames generalizing s with
  | nil => exact ⟨rfl, rfl, rfl⟩
  | cons i rest ih =>
    have hone := still_unpin s i
    unfold Desk.unpinFrames
    cases hr : s.unpin i with
    | mk r s' =>
      rw [hr] at hone
      cases r with
      | error e => exact hone
      | ok u =>
        have hrest := ih s'
        exact ⟨hrest.frames.trans hone.frames, hrest.table.trans hone.table,
          hrest.media.trans hone.media⟩

theorem related_unpinFrames (frames : List Nat) (s : Store) :
    s.pool.Related (Desk.unpinFrames frames s).2.pool fun j f g =>
      g.core = f.core ∧ f.pins ≤ g.pins + frames.count j := by
  induction frames generalizing s with
  | nil => exact Pool.related_refl fun _ _ => ⟨rfl, Nat.le_add_right ..⟩
  | cons i rest ih =>
    have hone := related_unpin s i
    unfold Desk.unpinFrames
    cases hr : s.unpin i with
    | mk r s' =>
      rw [hr] at hone
      cases r with
      | error e =>
        refine hone.mono fun j f g _ _ h => ⟨h.1, Nat.le_trans h.2 (Nat.add_le_add_left ?_ _)⟩
        simp only [List.count_cons, beq_iff_eq]
        exact Nat.le_add_left ..
      | ok u =>
        refine hone.trans (ih s') fun j f g k h h' => ⟨h'.1.trans h.1, ?_⟩
        have h₁ := h.2
        have h₂ := h'.2
        simp only [List.count_cons, beq_iff_eq]
        omega

theorem related_editFrame {s s' : Store} {i : Nat} {edit : Frame → Except Error Frame}
    (hr : s.editFrame i edit = (.ok (), s')) :
    s.pool.Related s'.pool fun j f g => (j ≠ i → g = f) ∧ (j = i → edit f = .ok g) := by
  unfold editFrame at hr
  cases hf : s.pool.frames[i]? with
  | none =>
    rw [hf] at hr
    cases hr
    refine Pool.related_self fun j f hj => ⟨fun _ => rfl, fun he => ?_⟩
    rw [he, hf] at hj
    cases hj
  | some f =>
    simp only [hf] at hr
    cases he : edit f with
    | error e =>
      rw [he] at hr
      cases hr
    | ok g =>
      rw [he] at hr
      cases hr
      exact Pool.related_set hf ⟨fun h => absurd rfl h, fun _ => he⟩ fun j _ hne =>
        ⟨fun _ => rfl, fun h => absurd h hne⟩

theorem site_flushFrame (s : Store) (i : Nat) : (s.flushFrame i).2.site = s.site := by
  have hfl := flushedAt s i
  generalize s.flushFrame i = r at hfl
  cases hfl with
  | idle => rfl
  | unforced hf hm => exact congrArg Disk.toSite (Media.of_force hm).1
  | unsaved hf hb hm hw =>
    have hforce := congrArg Disk.toSite (Media.of_force hm).1
    exact (Disk.same_of_write_error hw).site.trans hforce
  | saved hf hb hm hw =>
    have hforce := congrArg Disk.toSite (Media.of_force hm).1
    exact (Disk.put_of_write hw).site.trans hforce

theorem blockSize_flushFrame (s : Store) (i : Nat) :
    (s.flushFrame i).2.blockSize = s.blockSize := congrArg Site.blockSize (s.site_flushFrame i)

theorem reachable_of_claim {s : Store} {w : Wanted} {i : Nat} {b : BlockId}
    (h : (s.claim w).1 = .ok (some i)) (hb : (s.claim w).2.blockAt? i = some b) :
    b.Reachable s.site := by
  obtain ⟨s₁, s₂, s₃, f, hs, hf, hi, hr, hs'⟩ := filled_of_claim h
  have hsite := site_flushFrame s₁ i
  rw [hf, site, site, hs.media] at hsite
  rw [hs'.blockAt?] at hb
  rw [site, ← hsite]
  have hfill := s₂.refilled i f w
  rw [hr] at hfill
  cases hfill with
  | read hread =>
    rw [blockAt?_set hi, if_pos rfl] at hb
    cases hb
    exact Disk.reachable_of_read (congrArg Prod.fst hread)
  | added hadd =>
    rw [blockAt?_set hi, if_pos rfl] at hb
    cases hb
    exact Disk.reachable_of_append hadd

/-- A frame that the pool gives has its block from before, or one that can be reached. -/
theorem reachable_of_pin {s : Store} {w : Wanted} {i : Nat} {b : BlockId}
    (h : (s.pin w).2.blockAt? i = some b) : s.blockAt? i = some b ∨ b.Reachable s.site := by
  have hclaim : (s.claim w).2.blockAt? i = some b →
      s.blockAt? i = some b ∨ b.Reachable s.site := by
    intro hb
    obtain ⟨g, hg, hgb⟩ := Option.bind_eq_some_iff.1 hb
    obtain ⟨f, hf, hfg⟩ := (refetched_claim s w).before hg
    have hsame : g.core = f.core → s.blockAt? i = some b := fun hc => by
      rw [blockAt?_of_frame hf, ← Frame.block_of_core hc, hgb]
    cases hfg with
    | kept ht hc _ => exact .inl (hsame hc)
    | cached ht hc _ => exact .inl (hsame hc)
    | vacated ht h₀ hp hn =>
      rw [hgb] at hn
      cases hn
    | filled ht => exact .inr (reachable_of_claim ht hb)
  cases w with
  | fresh file format => exact hclaim h
  | block c =>
    simp only [pin, pinBlock] at h
    split at h
    · exact hclaim h
    · rename_i j _
      split at h
      · have hs : Still s { s with pool := s.pool.take j } :=
          ⟨Pool.map_core_take .., Pool.table_take .., rfl⟩
        exact .inl (hs.blockAt? i ▸ h)
      · exact .inl h

end Store

end PagedStore
