import PagedStore.Proofs.Pool.Claim

set_option autoImplicit false

/-!
A pool over a disk shows what a store without a pool has: every block with its bytes, changed by the
writes made through frames and by the blocks added, and by nothing else. Main statements: `Mirrors`
is kept when a frame is written back (`flushFrame`), emptied (`vacate`), filled (`load`, `extend`)
and changed (`set`).
-/

namespace PagedStore

inductive Change where
  | put (b : BlockId) (offset : Nat) (v : Value) (lsn? : Option Lsn)
  | add (file : String) (format : Formatter)

structure Flat extends Site where
  length : String → Nat
  block : BlockId → Bytes

namespace Flat

def ofDisk (d : Disk) : Flat := ⟨d.toSite, d.blocks, d.peek⟩

def setBlock (flat : Flat) (b : BlockId) (data : Bytes) : Flat :=
  { flat with block := fun c => if c = b then data else flat.block c }

def grow (flat : Flat) (file : String) : Flat :=
  { flat with length := fun n => if n = file then flat.length n + 1 else flat.length n }

def apply (flat : Flat) : Change → Flat
  | .put b offset v lsn? =>
    match Page.put (flat.block b) offset v lsn? with
    | .error _ => flat
    | .ok data => flat.setBlock b data
  | .add file format =>
    (flat.setBlock ⟨file, flat.length file⟩ (format.page flat.blockSize)).grow file

def replay (flat : Flat) (changes : List Change) : Flat := changes.foldl apply flat

theorem block_add (flat : Flat) (file : String) (format : Formatter) :
    (flat.apply (.add file format)).block ⟨file, flat.length file⟩ = format.page flat.blockSize :=
  if_pos rfl

theorem lt_length_add (flat : Flat) (file : String) (format : Formatter) :
    flat.length file < (flat.apply (.add file format)).length file := by
  simp only [apply, grow, setBlock, if_pos]
  exact Nat.lt_succ_self _

end Flat

/-- A frame has the bytes of its block, and so has the disk while there is nothing to write. -/
structure Shows (names : String → Prop) (flat : Flat) (d : Disk) (f : Frame) (b : BlockId) :
    Prop where
  named : names b.file
  inside : b.number < d.blocks b.file
  bytes : f.data = flat.block b
  rested : f.dirty = false → f.fresh = false → d.peek b = f.data

theorem Shows.core {names : String → Prop} {flat : Flat} {d : Disk} {f g : Frame} {b : BlockId}
    (h : Shows names flat d f b) (hc : f.core = g.core) : Shows names flat d g b := by
  obtain ⟨-, hdata, -, hdirty, hfresh, -⟩ := Frame.core_eq_iff.1 hc
  exact ⟨h.named, h.inside, hdata ▸ h.bytes,
    fun hd hf => (h.rested (hdirty.trans hd) (hfresh.trans hf)).trans hdata⟩

/-- What holds between a store and the flat store that it stands for. -/
structure Mirrors (names : String → Prop) (flat : Flat) (s : Store) : Prop where
  room : Page.headerSize < s.blockSize
  site : flat.toSite = s.site
  sized : ∀ {i : Nat} {f : Frame}, s.pool.frames[i]? = some f → f.data.length = s.blockSize
  stamped : ∀ {i : Nat} {f : Frame}, s.pool.frames[i]? = some f → f.lsn = Page.lsn f.data
  table : ∀ {i : Nat} {f : Frame} {b : BlockId}, s.pool.frames[i]? = some f → f.block = some b →
    s.pool.table.find? b = some i
  shows : ∀ {i : Nat} {f : Frame} {b : BlockId}, s.pool.frames[i]? = some f → f.block = some b →
    Shows names flat s.media.disk f b
  rest : ∀ {b : BlockId}, names b.file →
    (∀ (i : Nat) (f : Frame), s.pool.frames[i]? = some f → f.block ≠ some b) →
    s.media.disk.peek b = flat.block b
  length : ∀ {n : String}, names n → s.media.disk.blocks n = flat.length n

/-- The flat store and the disk change at most in one block, and files do not get shorter. -/
structure Beside (names : String → Prop) (b? : Option BlockId) (flat flat' : Flat)
    (d d' : Disk) : Prop where
  flatSite : flat'.toSite = flat.toSite
  site : d'.toSite = d.toSite
  length : ∀ n, names n → d'.blocks n = flat'.length n
  grow : ∀ n, names n → d.blocks n ≤ d'.blocks n
  block : ∀ c, names c.file → b? ≠ some c → flat'.block c = flat.block c
  peek : ∀ c, names c.file → b? ≠ some c → d'.peek c = d.peek c

namespace Mirrors

variable {names : String → Prop} {flat flat' : Flat} {s s' : Store}

theorem size (h : Mirrors names flat s) : flat.blockSize = s.blockSize :=
  congrArg Site.blockSize h.site

theorem still (h : Mirrors names flat s) (hs : Store.Still s s') : Mirrors names flat s' := by
  have hsite : s'.site = s.site := by rw [Store.site, hs.media, ← Store.site]
  have hsize : s'.blockSize = s.blockSize := congrArg Site.blockSize hsite
  refine ⟨hsize ▸ h.room, h.site.trans hsite.symm, ?_, ?_, ?_, ?_, ?_, ?_⟩
  · intro i f' hf'
    obtain ⟨f, hf, hc⟩ := hs.frame hf'
    rw [hsize, ← h.sized hf, (Frame.core_eq_iff.1 hc).2.1]
  · intro i f' hf'
    obtain ⟨f, hf, hc⟩ := hs.frame hf'
    obtain ⟨-, hdata, -, -, -, -, hlsn⟩ := Frame.core_eq_iff.1 hc
    rw [← hlsn, ← hdata, h.stamped hf]
  · intro i f' b hf' hb
    obtain ⟨f, hf, hc⟩ := hs.frame hf'
    rw [hs.table]
    exact h.table hf ((Frame.block_of_core hc).trans hb)
  · intro i f' b hf' hb
    obtain ⟨f, hf, hc⟩ := hs.frame hf'
    rw [hs.media]
    exact (h.shows hf ((Frame.block_of_core hc).trans hb)).core hc
  · intro b hb hfree
    rw [hs.media]
    refine h.rest hb fun i f hf hfb => ?_
    obtain ⟨f', hf', hc⟩ := hs.symm.frame hf
    exact hfree i f' hf' ((Frame.block_of_core hc.symm).symm.trans hfb)
  · intro n hn
    rw [hs.media]
    exact h.length hn

theorem same (h : Mirrors names flat s) {m : Media} (hs : Disk.Same s.media.disk m.disk) :
    Mirrors names flat { s with media := m } := by
  refine ⟨?_, ?_, ?_, h.stamped, h.table, ?_, ?_, ?_⟩
  · exact Nat.lt_of_lt_of_eq h.room hs.blockSize.symm
  · exact h.site.trans hs.site.symm
  · exact fun hf => (h.sized hf).trans hs.blockSize.symm
  · intro i f b hf hb
    have hh := h.shows hf hb
    exact ⟨hh.named, (hs.blocks _).symm ▸ hh.inside, hh.bytes,
      fun hd hfr => (hs.peek b).trans (hh.rested hd hfr)⟩
  · exact fun hb hfree => (hs.peek _).trans (h.rest hb hfree)
  · exact fun hn => (hs.blocks _).trans (h.length hn)

theorem beside (h : Mirrors names flat s) {d : Disk} (hs : Disk.Same s.media.disk d)
    (b? : Option BlockId) : Beside names b? flat flat s.media.disk d where
  flatSite := rfl
  site := hs.site
  length n hn := (hs.blocks n).trans (h.length hn)
  grow n _ := Nat.le_of_eq (hs.blocks n).symm
  block _ _ _ := rfl
  peek c _ _ := hs.peek c

/-- One frame changes, and with it at most what is stored of the block it has then. A block that
it gives up was written back. -/
theorem set (h : Mirrors names flat s) {i : Nat} {f g : Frame} {m : Media}
    {t : Registry BlockId Nat} (hf : s.pool.frames[i]? = some f)
    (hlen : g.data.length = f.data.length) (hstamp : g.lsn = Page.lsn g.data)
    (hbeside : Beside names g.block flat flat' s.media.disk m.disk)
    (hleft : ∀ c, f.block = some c → g.block ≠ some c → s.media.disk.peek c = f.data)
    (htable : ∀ j f' c, j ≠ i → s.pool.frames[j]? = some f' → f'.block = some c →
      t.find? c = some j)
    (hself : ∀ b, g.block = some b → t.find? b = some i ∧ Shows names flat' m.disk g b) :
    Mirrors names flat'
      { media := m, pool := { s.pool with frames := s.pool.frames.set i g, table := t } } := by
  have hi := (List.getElem?_eq_some_iff.1 hf).1
  have hsize : m.disk.blockSize = s.blockSize := congrArg Site.blockSize hbeside.site
  -- No other frame has the block that the frame has now: the table names only one.
  have hother : ∀ j f' c, j ≠ i → s.pool.frames[j]? = some f' → f'.block = some c →
      g.block ≠ some c := by
    intro j f' c hj hf' hc hg
    have h₁ := htable j f' c hj hf' hc
    rw [(hself c hg).1] at h₁
    exact hj (Option.some.inj h₁).symm
  refine ⟨?_, ?_, ?_, ?_, ?_, ?_, ?_, ?_⟩
  · exact Nat.lt_of_lt_of_eq h.room hsize.symm
  · exact hbeside.flatSite.trans (h.site.trans hbeside.site.symm)
  · intro j f' hj
    refine Eq.trans ?_ hsize.symm
    rcases getElem?_set_cases hj with ⟨-, rfl⟩ | ⟨-, hj⟩
    · exact hlen.trans (h.sized hf)
    · exact h.sized hj
  · intro j f' hj
    rcases getElem?_set_cases hj with ⟨-, rfl⟩ | ⟨-, hj⟩
    · exact hstamp
    · exact h.stamped hj
  · intro j f' c hj hc
    rcases getElem?_set_cases hj with ⟨rfl, rfl⟩ | ⟨hne, hj⟩
    · exact (hself c hc).1
    · exact htable j f' c hne hj hc
  · intro j f' c hj hc
    rcases getElem?_set_cases hj with ⟨rfl, rfl⟩ | ⟨hne, hj⟩
    · exact (hself c hc).2
    · have hsh := h.shows hj hc
      have hgc := hother j f' c hne hj hc
      refine ⟨hsh.named, Nat.lt_of_lt_of_le hsh.inside (hbeside.grow _ hsh.named), ?_, ?_⟩
      · rw [hbeside.block c hsh.named hgc]
        exact hsh.bytes
      · intro hd hfr
        exact (hbeside.peek c hsh.named hgc).trans (hsh.rested hd hfr)
  · intro c hc hfree
    have hself' : (s.pool.frames.set i g)[i]? = some g := by simp [hi]
    have hgc : g.block ≠ some c := hfree i g hself'
    show m.disk.peek c = flat'.block c
    rw [hbeside.peek c hc hgc, hbeside.block c hc hgc]
    by_cases hfc : f.block = some c
    · rw [hleft c hfc hgc]
      exact (h.shows hf hfc).bytes
    · refine h.rest hc fun j f' hj hjc => ?_
      by_cases hji : j = i
      · subst hji
        rw [hf, Option.some.injEq] at hj
        exact hfc (hj ▸ hjc)
      · refine hfree j f' ?_ hjc
        rw [← hj]
        exact List.getElem?_set_ne fun e => hji e.symm
  · exact fun {n} hn => hbeside.length n hn

theorem setSame (h : Mirrors names flat s) {i : Nat} {f g : Frame} {m : Media}
    (hf : s.pool.frames[i]? = some f) (hblock : g.block = f.block)
    (hlen : g.data.length = f.data.length) (hstamp : g.lsn = Page.lsn g.data)
    (hbeside : Beside names g.block flat flat' s.media.disk m.disk)
    (hshows : ∀ b, g.block = some b → Shows names flat' m.disk g b) :
    Mirrors names flat' ({ s with media := m }.setFrame i g) := by
  refine h.set hf hlen hstamp hbeside ?_ ?_ ?_
  · intro c hc hne
    exact absurd (hblock.trans hc) hne
  · exact fun j f' c _ hj hc => h.table hj hc
  · intro b hb
    exact ⟨h.table hf (hblock.symm.trans hb), hshows b hb⟩

end Mirrors

theorem Disk.Put.beside {names : String → Prop} (hd : Distinct names) {d d' : Disk} {b : BlockId}
    {data : Bytes} (hp : d.Put d' b.file b.number data) (hb : names b.file)
    (hn : b.number ≤ d.blocks b.file) (hpos : 0 < d.blockSize) :
    d'.peek b = data ∧ (∀ c, names c.file → c ≠ b → d'.peek c = d.peek c) ∧
      ∀ n, names n → d'.blocks n =
        if n = b.file then max (d.blocks n) (b.number + 1) else d.blocks n := by
  have hsame : ∀ n, names n → path? n = path? b.file → n = b.file := by
    intro n hn' he
    exact hd n b.file hn' hb (he ▸ hp.named) he
  refine ⟨by rw [hp.peek hn, if_pos ⟨rfl, rfl⟩], ?_, ?_⟩
  · intro c hc hne
    rw [hp.peek hn, if_neg]
    rintro ⟨hpath, hnum⟩
    have hfile := hsame _ hc hpath
    refine hne ?_
    show BlockId.mk c.file c.number = BlockId.mk b.file b.number
    rw [hfile, hnum]
  · intro n hn'
    rw [hp.blocks hpos]
    by_cases he : n = b.file
    · rw [if_pos (by rw [he]), if_pos he]
    · rw [if_neg fun h => he (hsame n hn' h), if_neg he]

namespace Mirrors

variable {names : String → Prop} {flat flat' : Flat} {s s' : Store}

theorem pos (h : Mirrors names flat s) : 0 < s.media.disk.blockSize :=
  Nat.lt_of_le_of_lt (Nat.zero_le _) h.room

theorem flushFrame (hd : Distinct names) (h : Mirrors names flat s) (i : Nat) :
    Mirrors names flat (s.flushFrame i).2 := by
  have hfl := Store.flushedAt s i
  generalize s.flushFrame i = r at hfl
  cases hfl with
  | idle => exact h
  | unforced hf hm => exact h.same ((Media.of_force hm).1 ▸ .refl _)
  | unsaved hf hb hm hw => exact h.same ((Media.of_force hm).1 ▸ Disk.same_of_write_error hw)
  | @saved f b m d hf hb hm hw =>
    rw [(Media.of_force hm).1] at hw
    have hsh := h.shows hf hb
    have hput := Disk.put_of_write hw
    obtain ⟨hself, hother, hlen⟩ := hput.beside hd hsh.named (Nat.le_of_lt hsh.inside) h.pos
    have hblocks : ∀ n, names n → d.blocks n = s.media.disk.blocks n := by
      intro n hn
      rw [hlen n hn]
      split
      · rename_i he
        have := hsh.inside
        rw [he]
        omega
      · rfl
    have hstamp := h.stamped hf
    refine h.setSame hf rfl rfl hstamp ⟨rfl, hput.site, ?_, ?_, ?_, ?_⟩ ?_
    · exact fun n hn => (hblocks n hn).trans (h.length hn)
    · exact fun n hn => Nat.le_of_eq (hblocks n hn).symm
    · exact fun _ _ _ => rfl
    · exact fun c hc hne => hother c hc fun e => hne (e ▸ hb)
    · intro c hc
      obtain rfl : b = c := Option.some.inj (hb.symm.trans hc)
      refine ⟨hsh.named, ?_, hsh.bytes, fun _ _ => hself⟩
      rw [show (Media.note _ _).disk = d from rfl, hblocks _ hsh.named]
      exact hsh.inside

theorem peek_of_rested (h : Mirrors names flat s) {i : Nat} {f : Frame}
    (hf : s.pool.frames[i]? = some f) (hr : f.Rested) {c : BlockId} (hc : f.block = some c) :
    s.media.disk.peek c = f.data := by
  rcases hr with hnone | ⟨hd, hfr⟩
  · rw [hnone] at hc
    cases hc
  · exact (h.shows hf hc).rested hd hfr

theorem apart (h : Mirrors names flat s) {i j : Nat} {f f' : Frame} {c : BlockId}
    (hf : s.pool.frames[i]? = some f) (hf' : s.pool.frames[j]? = some f') (hc : f'.block = some c)
    (hne : j ≠ i) : f.block ≠ some c := by
  intro hfc
  have h₁ := h.table hf hfc
  rw [h.table hf' hc] at h₁
  exact hne (Option.some.inj h₁)

theorem unframed (h : Mirrors names flat s) {b : BlockId} (hb : s.pool.table.find? b = none)
    (i : Nat) (f : Frame) (hf : s.pool.frames[i]? = some f) : f.block ≠ some b := by
  intro hfb
  have h₁ := h.table hf hfb
  rw [hb] at h₁
  cases h₁

theorem vacate (h : Mirrors names flat s) {i : Nat} {f : Frame} {m : Media}
    (hf : s.pool.frames[i]? = some f) (hr : f.Rested) (hs : Disk.Same s.media.disk m.disk)
    (e : Failure) : Mirrors names flat { media := m, pool := { s.pool with
      frames := s.pool.frames.set i { f with block := none }
      table := Store.retable s.pool.table i f.block none (.error e) } } := by
  have hstamp := h.stamped hf
  refine h.set hf rfl hstamp (h.beside hs _) ?_ ?_ ?_
  · exact fun c hc _ => h.peek_of_rested hf hr hc
  · intro j f' c hne hj hc
    have ht := h.table hj hc
    cases e with
    | error e => exact (Store.find?_forget (h.apart hf hj hc hne)).trans ht
    | crash c => exact ht
    | endless => exact ht
  · exact fun b hb => by cases hb

theorem load (h : Mirrors names flat s) {i : Nat} {f : Frame} {b : BlockId} {data : Bytes}
    {d : Disk} {m : Media} (hf : s.pool.frames[i]? = some f) (hc : f.Rested) (hb : names b.file)
    (hin : b.number < s.media.disk.blocks b.file) (ht : s.pool.table.find? b = none)
    (hr : s.media.disk.read b f.data.length = (.ok data, d)) (hm : m.disk = d) :
    Mirrors names flat { media := m, pool := { s.pool with
      frames := s.pool.frames.set i { f with
        data, block := some b, pins := 0, lsn := Page.lsn data, modifiedBy := none
        dirty := false, fresh := false }
      table := (Store.forget s.pool.table f.block).insert b i } } := by
  have hs : Disk.Same s.media.disk d := by
    have := Disk.same_read s.media.disk b f.data.length
    rwa [hr] at this
  have hdata : data = s.media.disk.peek b := Disk.peek_of_read (congrArg Prod.fst hr)
  subst hm
  refine h.set hf ?_ rfl (h.beside hs _) ?_ ?_ ?_
  · rw [hdata, Disk.length_peek]
    exact (h.sized hf).symm
  · exact fun c hfc _ => h.peek_of_rested hf hc hfc
  · intro j f' c hne hj hjc
    have hcb : c ≠ b := fun e => h.unframed ht j f' hj (e ▸ hjc)
    rw [Registry.find?_insert_of_ne _ _ hcb, Store.find?_forget (h.apart hf hj hjc hne)]
    exact h.table hj hjc
  · intro c hcb
    obtain rfl : b = c := Option.some.inj hcb
    refine ⟨Registry.find?_insert_self .., hb, (hs.blocks _).symm ▸ hin, ?_, fun _ _ => ?_⟩
    · exact hdata.trans (h.rest hb (h.unframed ht))
    · exact (hs.peek b).trans hdata.symm

theorem extend (hd : Distinct names) (h : Mirrors names flat s) {i : Nat} {f : Frame}
    {file : String} {format : Formatter} {b : BlockId} {d : Disk} {m : Media}
    (hf : s.pool.frames[i]? = some f) (hc : f.Rested) (hn : names file)
    (ha : s.media.disk.append file = (.ok b, d)) (hm : m.disk = d) :
    Mirrors names (flat.apply (.add file format)) { media := m, pool := { s.pool with
      frames := s.pool.frames.set i { f with
        data := format.page f.data.length, block := some b, pins := 0, lsn := 0
        modifiedBy := none, dirty := false, fresh := true }
      table := (Store.forget s.pool.table f.block).insert b i } } := by
  obtain ⟨rfl, hput⟩ := Disk.put_of_append ha
  subst hm
  obtain ⟨hself, hother, hlen⟩ := hput.beside (b := ⟨file, s.media.disk.blocks file⟩) hd hn
    (Nat.le_refl _) h.pos
  have hlast := h.length hn
  have hpage : (format.page f.data.length).length = f.data.length :=
    format.length_page (h.sized hf ▸ Nat.le_of_lt h.room)
  have hnew : ∀ (j : Nat) (f' : Frame), s.pool.frames[j]? = some f' →
      f'.block ≠ some ⟨file, s.media.disk.blocks file⟩ := by
    intro j f' hj hjc
    exact Nat.lt_irrefl _ (h.shows hj hjc).inside
  have hblock : (flat.apply (.add file format)).block ⟨file, s.media.disk.blocks file⟩ =
      format.page flat.blockSize := by
    rw [hlast]
    exact flat.block_add file format
  refine h.set hf hpage (format.lsn_page _).symm ⟨rfl, hput.site, ?_, ?_, ?_, ?_⟩ ?_ ?_ ?_
  · intro n hn'
    rw [hlen n hn', h.length hn']
    simp only [Flat.apply, Flat.setBlock, Flat.grow]
    split
    · rename_i he
      rw [he, hlast]
      omega
    · rfl
  · intro n hn'
    rw [hlen n hn']
    split <;> omega
  · intro c hc' hne
    have hcb : c ≠ ⟨file, flat.length file⟩ := fun e => hne (by rw [e, hlast])
    simp [Flat.apply, Flat.setBlock, Flat.grow, hcb]
  · exact fun c hc' hne => hother c hc' fun e => hne (e ▸ rfl)
  · exact fun c hfc _ => h.peek_of_rested hf hc hfc
  · intro j f' c hne hj hjc
    have hcb : c ≠ ⟨file, s.media.disk.blocks file⟩ := fun e => hnew j f' hj (e ▸ hjc)
    rw [Registry.find?_insert_of_ne _ _ hcb, Store.find?_forget (h.apart hf hj hjc hne)]
    exact h.table hj hjc
  · intro c hcb
    obtain rfl := Option.some.inj hcb
    refine ⟨Registry.find?_insert_self .., hn, ?_, ?_, ?_⟩
    · rw [hlen _ hn, if_pos rfl]
      show s.media.disk.blocks file < max _ (s.media.disk.blocks file + 1)
      omega
    · rw [hblock, h.size, ← h.sized hf]
    · exact fun _ hfr => by cases hfr

end Mirrors

end PagedStore
