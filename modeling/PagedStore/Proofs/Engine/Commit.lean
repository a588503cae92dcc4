import PagedStore.Proofs.Engine.Sound
import PagedStore.Proofs.Page.Codec
import PagedStore.Proofs.Pool.Reopened

set_option autoImplicit false

/-!
What is in the files when a transaction has committed. A commit writes back the frames that the
transaction was the last to change, and no other. Main statements: `committed_writes` and
`committed_appends`.
-/

namespace PagedStore

/-- No frame has anything of the block that is still to be written back. -/
def Store.Rests (s : Store) (b : BlockId) : Prop :=
  ∀ (i : Nat) f, s.pool.frames[i]? = some f → f.block = some b → f.Rested

def lastWriter (b : BlockId) : List (TxId × Change) → Option TxId
  | [] => none
  | e :: es => (lastWriter b es).or (if e.2.writes b then some e.1 else none)

theorem Book.author_after {book : Book} {b : BlockId} (hb : b.number < book.flat.length b.file)
    (es : List (TxId × Change)) :
    (book.after es).author b = (lastWriter b es).or (book.author b) := by
  induction es generalizing book with
  | nil => rfl
  | cons e es ih =>
    have hb' := Nat.lt_of_lt_of_le hb (book.flat.length_le_apply e.2 b.file)
    have hone : (book.note e.1 e.2).author b =
        (if e.2.writes b then some e.1 else none).or (book.author b) := by
      obtain ⟨tx, x⟩ := e
      cases x with
      | put c offset v lsn? =>
        by_cases hc : c = b
        · simp [note, Change.writes, hc]
        · have hne : ¬ b = c := fun h => hc h.symm
          simp [note, Change.writes, hc, hne]
      | add file format =>
        have hne : b ≠ ⟨file, book.flat.length file⟩ := by
          rintro rfl
          exact Nat.lt_irrefl _ hb
        simp [note, Change.writes, hne]
    rw [lastWriter, Option.or_assoc, ← hone]
    exact ih hb'

namespace Mirrors

variable {names : String → Prop} {flat : Flat} {s s' : Store} {b : BlockId}

theorem peek_flushFrame (hd : Distinct names) (h : Mirrors names flat s) (hb : names b.file)
    {i : Nat} (hi : s.blockAt? i ≠ some b) :
    (s.flushFrame i).2.media.disk.peek b = s.media.disk.peek b := by
  have hfl := Store.flushedAt s i
  generalize s.flushFrame i = r at hfl
  cases hfl with
  | idle => rfl
  | unforced hf hm => exact congrArg (Disk.peek · b) (Media.of_force hm).1
  | unsaved hf hc hm hw =>
    have hs := (Disk.same_of_write_error hw).peek b
    rwa [(Media.of_force hm).1] at hs
  | @saved f c m d hf hc hm hw =>
    rw [(Media.of_force hm).1] at hw
    have hsh := h.shows hf hc
    refine ((Disk.put_of_write hw).beside hd hsh.named (Nat.le_of_lt hsh.inside) h.pos).2.1 b hb ?_
    rintro rfl
    exact hi ((Store.blockAt?_of_frame hf).trans hc)

theorem flushTouched (hd : Distinct names) (h : Mirrors names flat s) {tx : TxId}
    {frames : List Nat} (hr : Desk.flushTouched tx frames s = (.ok (), s')) :
    Mirrors names flat s' ∧
      (s.pool.Related s'.pool fun j f g => g.block = f.block ∧ g.modifiedBy = f.modifiedBy ∧
        (f.Rested → g.Rested) ∧ (j ∈ frames → f.modifiedBy = some tx → g.Rested)) ∧
      ∀ b, names b.file → (∀ (i : Nat) f, s.pool.frames[i]? = some f → f.block = some b →
        f.modifiedBy ≠ some tx) → s'.media.disk.peek b = s.media.disk.peek b := by
  induction frames generalizing s with
  | nil =>
    cases hr
    exact ⟨h, Pool.related_refl fun _ _ => ⟨rfl, rfl, id, nofun⟩, fun _ _ _ => rfl⟩
  | cons i rest ih =>
    unfold Desk.flushTouched at hr
    split at hr
    · rename_i hi
      obtain ⟨fi, hfi, hmine⟩ := Option.bind_eq_some_iff.1 hi
      have hone := s.related_flushFrame i
      have h₁ := h.flushFrame hd i
      have hpeek := fun b hb hne => h.peek_flushFrame hd (b := b) (i := i) hb hne
      cases hfl : s.flushFrame i with
      | mk r s₁ =>
        rw [hfl] at hr hone h₁ hpeek
        cases r with
        | error e => cases hr
        | ok _ =>
          obtain ⟨h₂, hrel, hrest⟩ := ih h₁ hr
          refine ⟨h₂, hone.trans hrel fun j f g k hfg hgk => ?_, fun b hb hnot => ?_⟩
          · obtain ⟨hb, -, hm, hres, -, hself⟩ := hfg
            obtain ⟨hb', hm', hres', hin'⟩ := hgk
            refine ⟨hb'.trans hb, hm'.trans hm, hres' ∘ hres, fun hj hmod => ?_⟩
            rcases List.mem_cons.1 hj with rfl | hj
            · exact hres' (hself rfl rfl)
            · exact hin' hj (hm.trans hmod)
          · refine (hrest b hb fun j g hg hgb => ?_).trans (hpeek b hb fun he => ?_)
            · obtain ⟨f, hf, hfb, -, hm, -⟩ := hone.before hg
              rw [hm]
              exact hnot j f hf (hfb ▸ hgb)
            · exact hnot i fi hfi ((Store.blockAt?_of_frame hfi).symm.trans he) hmine
    · rename_i hi
      obtain ⟨h₂, hrel, hrest⟩ := ih h hr
      refine ⟨h₂, hrel.mono fun j f g hf _ hfg => ?_, hrest⟩
      obtain ⟨hb, hm, hres, hin⟩ := hfg
      refine ⟨hb, hm, hres, fun hj hmod => ?_⟩
      rcases List.mem_cons.1 hj with rfl | hj
      · rw [hf, Option.bind_some] at hi
        exact absurd hmod hi
      · exact hin hj hmod

end Mirrors

theorem Desk.media_releaseAll (d : Desk) (tx : TxId) :
    (d.releaseAll tx).2.store.media = d.store.media := by
  have hm := (Store.still_unpinFrames ((d.pinsOf tx).holds.entries.map fun e => e.2.frame)
    d.store).media
  unfold releaseAll
  dsimp only
  split
  · rfl
  · split
    · exact hm
    · rw [store_tellFree]
      exact hm

namespace Engine

theorem media_letGo (e : Engine) (tx : TxId) : (e.letGo tx).2.media = e.media := by
  have hm : (e.atDesk fun d => d.releaseAll tx).2.media = e.media := e.desk.media_releaseAll tx
  unfold letGo
  generalize e.atDesk (fun d => d.releaseAll tx) = r at hm
  obtain ⟨q, e'⟩ := r
  cases q with
  | error err => exact hm
  | ok _ =>
    refine Eq.trans ?_ hm
    rw [media, store_finish]
    rfl

theorem commit_ok {e e' : Engine} {tx : TxId} (h : e.commit tx = (.ok (), e')) :
    ¬ e.isFinished tx ∧ ∃ s,
      Desk.flushTouched tx (e.desk.pinsOf tx).touched e.desk.store = (.ok (), s) ∧
        e'.media.disk = s.media.disk := by
  unfold commit at h
  split at h
  · cases h
  · rename_i hfin
    refine ⟨hfin, ?_⟩
    unfold makeDurable atDesk Desk.flushMine at h
    dsimp only at h
    cases hfl : Desk.flushTouched tx (e.desk.pinsOf tx).touched e.desk.store with
    | mk q s =>
      rw [hfl] at h
      cases q with
      | error err => cases h
      | ok _ =>
        refine ⟨s, rfl, ?_⟩
        dsimp only at h
        split at h
        · cases h
        · rename_i e₁ he₁
          have hmedia := congrArg (fun r => r.2.media.disk) he₁
          have hlast := e₁.media_letGo tx
          rw [h] at hlast
          rw [hlast, ← hmedia]
          exact (Media.of_force (m := s.media) (Prod.ext rfl rfl)).1

theorem store_of_create {settings : Settings} {disk : Disk} {e : Engine}
    (h : create settings disk = .ok e) : ∃ pool,
      Pool.create settings.poolSize settings.stripes settings.blockSize = .ok pool ∧
        e.desk.store = ⟨{ disk := disk.reopen settings.blockSize, log := .empty }, pool⟩ := by
  obtain ⟨pool, locks, hpool, -, rfl⟩ := create_eq_ok h
  exact ⟨pool, hpool, rfl⟩

theorem reopened {settings : Settings} {disk : Disk} {e : Engine}
    (h : create settings disk = .ok e) (hs : settings.blockSize = disk.blockSize) {b : BlockId}
    (hb : b.Reachable disk.toSite) : ∃ i, (e.desk.store.pin (.block b)).1 = .ok (some i) ∧
      ∃ f : Frame, (e.desk.store.pin (.block b)).2.pool.frames[i]? = some f ∧ f.block = some b ∧
        f.data = disk.peek b := by
  obtain ⟨pool, hpool, hstore⟩ := store_of_create h
  rw [hs] at hpool hstore
  have hsame : Disk.Same disk (disk.reopen disk.blockSize) := Disk.same_reopen rfl
  rw [hstore, ← hsame.peek b]
  exact ⟨0, @Store.pin_over (disk.reopen disk.blockSize) .empty _ _ _ hpool rfl _ hb⟩

end Engine

namespace Running

variable {names : String → Prop} {book : Book} {r : Running} {tx : TxId} {e' : Engine}

/-- A commit brings a block up to date where the transaction was the last to write to it, or nothing
of it was left to be written back; and otherwise it leaves the block in its file as it was. -/
theorem Sound.commit (hd : Distinct names) (h : r.Sound names book)
    (hc : r.engine.commit tx = (.ok (), e')) :
    e'.media.disk.toSite = book.flat.toSite ∧
      (∀ n, names n → e'.media.disk.blocks n = book.flat.length n) ∧
      ∀ b, names b.file →
        (book.author b = some tx ∨ r.store.Rests b → e'.media.disk.peek b = book.flat.block b) ∧
        (book.author b ≠ some tx → ¬ r.store.Rests b →
          e'.media.disk.peek b = r.store.media.disk.peek b) := by
  obtain ⟨hfin, s, hfl, hdisk⟩ := Engine.commit_ok hc
  obtain ⟨hm, hrel, hrest⟩ := h.steady.mirrors.flushTouched hd hfl
  rw [hdisk]
  refine ⟨hm.site.symm, fun n hn => hm.length hn, fun b hb => ⟨fun hcase => ?_, fun ha hr => ?_⟩⟩
  · by_cases hframed : ∃ (i : Nat) (g : Frame), s.pool.frames[i]? = some g ∧ g.block = some b
    · obtain ⟨i, g, hg, hgb⟩ := hframed
      obtain ⟨f, hf, hfb, -, hkept, hmine⟩ := hrel.before hg
      have hfb' : f.block = some b := hfb ▸ hgb
      have hrested : g.Rested := by
        rcases hcase with ha | hr
        · rcases h.steady.signed i f b hf hfb' with hr | hmod
          · exact hkept hr
          · rw [ha] at hmod
            refine hmine ((h.steady.traced i f tx hf hmod).resolve_left hfin) hmod
        · exact hkept (hr i f hf hfb')
      exact (hm.peek_of_rested hg hrested hgb).trans (hm.shows hg hgb).bytes
    · exact hm.rest hb fun i g hg hgb => hframed ⟨i, g, hg, hgb⟩
  · refine hrest b hb fun i f hf hfb hmod => hr fun j g hg hgb => ?_
    obtain rfl : j = i := h.steady.mirrors.unique.apart j i b
      ((Store.blockAt?_of_frame hg).trans hgb) ((Store.blockAt?_of_frame hf).trans hfb)
    obtain rfl := Option.some.inj (hg.symm.trans hf)
    rcases h.steady.signed j g b hg hgb with hrested | hauthor
    · exact hrested
    · exact absurd (hauthor.symm.trans hmod) ha

theorem run_append (r : Running) (acts acts' : List Act) :
    r.run (acts ++ acts') = (r.run acts).run acts' := List.foldl_append

theorem orderly_append {acts acts' : List Act} (h : r.Orderly names (acts ++ acts')) :
    r.Orderly names acts ∧ (r.run acts).Orderly names acts' := by
  induction acts generalizing r with
  | nil => exact ⟨trivial, h⟩
  | cons a as ih =>
    obtain ⟨hp, hl, h⟩ := h
    obtain ⟨h₁, h₂⟩ := ih h
    exact ⟨⟨hp, hl, h₁⟩, h₂⟩

theorem goes_split (hd : Distinct names) {settings : Settings} {disk : Disk} {e : Engine}
    (h : Engine.create settings disk = .ok e) {before after : List Act} {a : Act}
    (ho : Orderly names ⟨e, []⟩ (before ++ a :: after)) : ∃ book : Book,
      (run ⟨e, []⟩ before).Sound names book ∧ book.flat.blockSize = settings.blockSize ∧
      Goes names book ((run ⟨e, []⟩ before).change? a).toList ((run ⟨e, []⟩ before).step a) ∧
      Goes names (book.after ((run ⟨e, []⟩ before).change? a).toList)
        (((run ⟨e, []⟩ before).step a).changes after) (run ⟨e, []⟩ (before ++ a :: after)) := by
  obtain ⟨ho₁, hp, hfits, ho₂⟩ := orderly_append ho
  have h₁ := Sound.run hd (sound_create h) ho₁
  have h₂ := h₁.sound.step hd hp hfits
  rw [run_append]
  refine ⟨_, h₁.sound, ?_, h₂, h₂.sound.run hd ho₂⟩
  rw [Book.flat_after, Flat.site_replay]
  rfl

/-- A commit, in terms of what changed since a block was there. An engine that is opened then reads
what the file has. -/
theorem Goes.commit (hd : Distinct names) {es : List (TxId × Change)} (h : Goes names book es r)
    (hc : r.engine.commit tx = (.ok (), e')) {b : BlockId} (hn : names b.file)
    (hin : b.number < book.flat.length b.file) (hreach : b.Reachable book.flat.toSite) :
    ((lastWriter b es).or (book.author b) = some tx ∨ r.store.Rests b →
      b.number < e'.media.disk.blocks b.file ∧
        e'.media.disk.peek b = (book.flat.replay (es.map Prod.snd)).block b) ∧
    ((lastWriter b es).or (book.author b) ≠ some tx → ¬ r.store.Rests b →
      e'.media.disk.peek b = r.store.media.disk.peek b) ∧
    ∀ (settings : Settings) (e'' : Engine), settings.blockSize = book.flat.blockSize →
      Engine.create settings e'.media.disk = .ok e'' →
      ∃ i, (e''.desk.store.pin (.block b)).1 = .ok (some i) ∧ ∃ f : Frame,
        (e''.desk.store.pin (.block b)).2.pool.frames[i]? = some f ∧ f.block = some b ∧
          f.data = e'.media.disk.peek b := by
  obtain ⟨hsite, hblocks, hcommit⟩ := h.sound.commit hd hc
  obtain ⟨hcurrent, hleft⟩ := hcommit b hn
  rw [Book.author_after hin] at hcurrent hleft
  rw [Book.flat_after] at hsite hblocks hcurrent
  rw [Flat.site_replay] at hsite
  refine ⟨fun hcase => ⟨?_, hcurrent hcase⟩, hleft, fun settings e'' hs he'' => ?_⟩
  · rw [hblocks _ hn]
    exact Nat.lt_of_lt_of_le hin (Flat.length_le_replay _ _ _)
  · exact Engine.reopened he'' (hs.trans (congrArg Site.blockSize hsite.symm)) (hsite ▸ hreach)

end Running

/-- In every orderly run of transactions, when `tx` commits after it wrote `v` to a block: where no
other transaction wrote to the block later, or nothing of it was left to be written back, every byte
of `v` that was not written over is in the file, and an engine opened over the files reads `v` where
none was; and otherwise the commit leaves the block in its file as it was. -/
theorem committed_writes {names : String → Prop} (hd : Distinct names) {settings : Settings}
    {disk : Disk} {e : Engine} (h : Engine.create settings disk = .ok e) {before after : List Act}
    {a : Act} (ho : Running.Orderly names ⟨e, []⟩ (before ++ a :: after)) {tx : TxId} {b : BlockId}
    {offset : Nat} {v : Value} {lsn? : Option Lsn}
    (hw : (Running.run ⟨e, []⟩ before).change? a = some (tx, .put b offset v lsn?)) {e' : Engine}
    (hc : (Running.run ⟨e, []⟩ (before ++ a :: after)).engine.commit tx = (.ok (), e')) :
    let s := (Running.run ⟨e, []⟩ (before ++ a :: after)).store
    let later := ((Running.run ⟨e, []⟩ before).step a).changes after
    (((∀ u, lastWriter b later = some u → u = tx) ∨ s.Rests b) →
      b.number < e'.media.disk.blocks b.file ∧
      (∀ k < v.size, (∀ x ∈ later, ¬ x.2.Hits b (offset + k)) →
        (Page.payload (e'.media.disk.peek b))[offset + k]? = v.encode[k]?) ∧
      (v.size < wordLimit 4 → (∀ k < v.size, ∀ x ∈ later, ¬ x.2.Hits b (offset + k)) →
        ∀ (settings' : Settings) (e'' : Engine), settings'.blockSize = settings.blockSize →
          Engine.create settings' e'.media.disk = .ok e'' →
          ∃ i, (e''.desk.store.pin (.block b)).1 = .ok (some i) ∧ ∃ f : Frame,
            (e''.desk.store.pin (.block b)).2.pool.frames[i]? = some f ∧ f.block = some b ∧
              f.read offset v.kind = .ok v)) ∧
    (¬ (∀ u, lastWriter b later = some u → u = tx) → ¬ s.Rests b →
      e'.media.disk.peek b = s.media.disk.peek b) := by
  intro s later
  obtain ⟨book, -, hsize, hput, hgo⟩ := Running.goes_split hd h ho
  rw [hw, Option.toList_some] at hput hgo
  obtain ⟨hn, hreach, hin, -⟩ := hput.takes.1
  have hin' : b.number < (book.after [(tx, .put b offset v lsn?)]).flat.length b.file :=
    Nat.lt_of_lt_of_le hin (book.flat.length_le_apply _ _)
  have hsite : (book.after [(tx, .put b offset v lsn?)]).flat.toSite = book.flat.toSite :=
    book.flat.site_apply _
  obtain ⟨hcurrent, hleft, hreopened⟩ := hgo.commit hd hc hn hin' (hsite ▸ hreach)
  have hone : (book.after [(tx, .put b offset v lsn?)]).author b = some tx := if_pos rfl
  have hiff : (∀ u, lastWriter b later = some u → u = tx) ↔
      (lastWriter b later).or ((book.after [(tx, .put b offset v lsn?)]).author b) = some tx := by
    rw [hone]
    cases lastWriter b later <;> simp
  rw [hiff]
  refine ⟨fun hcase => ?_, hleft⟩
  obtain ⟨hinside, hpeek⟩ := hcurrent hcase
  have hbyte : ∀ k < v.size, (∀ x ∈ later, ¬ x.2.Hits b (offset + k)) →
      (Page.payload (e'.media.disk.peek b))[offset + k]? = v.encode[k]? := by
    intro k hk hclear
    rw [hpeek, Flat.getElem?_payload_replay hgo.takes hin']
    · exact Flat.getElem?_payload_put hput.takes.1 hk
    · intro x hx
      obtain ⟨y, hy, rfl⟩ := List.mem_map.1 hx
      exact hclear y hy
  refine ⟨hinside, hbyte, fun hv hclear settings' e'' hs he'' => ?_⟩
  obtain ⟨i, hpin, f, hf, hfb, hdata⟩ :=
    hreopened settings' e'' (hs.trans (hsize.symm.trans (congrArg Site.blockSize hsite).symm)) he''
  have hrun := Nat.lt_of_le_of_lt v.runLength_le_size hv
  refine ⟨i, hpin, f, hf, hfb, Page.read_of_bytes hrun fun k hk => ?_⟩
  rw [hdata]
  exact hbyte k hk (hclear k hk)

def oneBlock : Disk := (Disk.write { blockSize := 16 } ⟨"f", 0⟩ (List.replicate 16 0)).2

def paired : Settings :=
  { poolSize := 2, blockSize := 16, stripes := 1, anchors := 1, wakeups := 1 }

def opened (disk : Disk) : Engine where
  desk :=
    { store := .over (disk.reopen 16) .empty
        { frames := (List.range 2).map fun i => { id := i, data := List.replicate 16 0 }
          free := 2, lastClaimed := 1 }
      maxWait := 10000, window := 50 }
  locks := { anchors := 1, maxWait := 10000, wakeups := { capacity := 1 } }

def bothPinned : List Act :=
  [.begin .repeatableRead, .begin .repeatableRead,
    .request ⟨0, ⟨1⟩⟩ (.pin (.block ⟨"f", 0⟩)), .request ⟨1, ⟨2⟩⟩ (.pin (.block ⟨"f", 0⟩))]

def firstWrite : Act := .request ⟨2, ⟨1⟩⟩ (.write ⟨⟨"f", 0⟩, 0⟩ 0 (.int 7))

def secondWrite : Act := .request ⟨3, ⟨2⟩⟩ (.write ⟨⟨"f", 0⟩, 1⟩ 4 (.int 9))

theorem orderly_bothWrites : Running.Orderly (fun n => n = "f") ⟨opened oneBlock, []⟩
    (bothPinned ++ [firstWrite, secondWrite]) := by
  simp only [bothPinned, firstWrite, secondWrite, List.cons_append, List.nil_append,
    Running.Orderly]
  exact ⟨trivial, by decide +kernel, trivial, by decide +kernel,
    Running.permits_pin (by decide +kernel) rfl (by decide +kernel), by decide +kernel,
    Running.permits_pin (by decide +kernel) rfl (by decide +kernel), by decide +kernel,
    ⟨by decide +kernel, trivial, nofun⟩, by decide +kernel,
    ⟨by decide +kernel, trivial, nofun⟩, by decide +kernel, trivial⟩

/-- The one that wrote last commits. -/
theorem committed_writes_last : Engine.create paired oneBlock = .ok (opened oneBlock) ∧
    ∃ e', (Running.run ⟨opened oneBlock, []⟩
      (bothPinned ++ [firstWrite, secondWrite])).engine.commit ⟨2⟩ = (.ok (), e') ∧
      ∃ i, ((opened e'.media.disk).desk.store.pin (.block ⟨"f", 0⟩)).1 = .ok (some i) ∧
        ∃ f : Frame, ((opened e'.media.disk).desk.store.pin (.block ⟨"f", 0⟩)).2.pool.frames[i]? =
          some f ∧ f.block = some ⟨"f", 0⟩ ∧ f.read 4 .int = .ok (.int 9) := by
  have hd : Distinct fun n => n = "f" := fun m n hm hn _ _ => hm.trans hn.symm
  have hopen (disk : Disk) : Engine.create paired disk = .ok (opened disk) := rfl
  have ho : Running.Orderly (fun n => n = "f") ⟨opened oneBlock, []⟩
      ((bothPinned ++ [firstWrite]) ++ secondWrite :: []) := orderly_bothWrites
  have hw : (Running.run ⟨opened oneBlock, []⟩ (bothPinned ++ [firstWrite])).change? secondWrite =
      some (⟨2⟩, .put ⟨"f", 0⟩ 4 (.int 9) (some 2)) := rfl
  have hc : (Running.run ⟨opened oneBlock, []⟩
      ((bothPinned ++ [firstWrite]) ++ secondWrite :: [])).engine.commit ⟨2⟩ = (.ok (), _) :=
    Prod.ext rfl rfl
  obtain ⟨-, -, hread⟩ := (committed_writes hd (hopen _) ho hw hc).1 (.inl nofun)
  exact ⟨hopen _, _, hc, hread (by decide) (fun _ _ => nofun) paired _ rfl (hopen _)⟩

/-- The other one commits, and its bytes are not in the file. -/
theorem not_committed_writes : Engine.create paired oneBlock = .ok (opened oneBlock) ∧
    Running.Orderly (fun n => n = "f") ⟨opened oneBlock, []⟩
      (bothPinned ++ firstWrite :: [secondWrite]) ∧
    (Running.run ⟨opened oneBlock, []⟩ bothPinned).change? firstWrite =
      some (⟨1⟩, .put ⟨"f", 0⟩ 0 (.int 7) (some 1)) ∧
    (∀ x ∈ ((Running.run ⟨opened oneBlock, []⟩ bothPinned).step firstWrite).changes [secondWrite],
      ∀ k < 4, ¬ x.2.Hits ⟨"f", 0⟩ k) ∧
    ∃ e', (Running.run ⟨opened oneBlock, []⟩
      (bothPinned ++ firstWrite :: [secondWrite])).engine.commit ⟨1⟩ = (.ok (), e') ∧
      (Page.payload (e'.media.disk.peek ⟨"f", 0⟩))[3]? = some 0 ∧
      (Value.int 7).encode[3]? = some 7 := by
  have hlater : ((Running.run ⟨opened oneBlock, []⟩ bothPinned).step firstWrite).changes
      [secondWrite] = [(⟨2⟩, .put ⟨"f", 0⟩ 4 (.int 9) (some 2))] := rfl
  refine ⟨rfl, orderly_bothWrites, rfl, ?_, _, Prod.ext rfl rfl, by decide +kernel, by decide⟩
  rw [hlater]
  intro x hx k hk
  obtain rfl := List.mem_singleton.1 hx
  rintro ⟨-, hle, -⟩
  omega

theorem Formatter.payload_page (format : Formatter) (blockSize : Nat) :
    Page.payload (format.page blockSize) = format.payload (blockSize - Page.headerSize) := by
  rw [Page.payload, page, List.drop_left' List.length_replicate]

/-- In every orderly run of transactions, when `tx` commits after it added a block: where `tx` was
the last to write to the block, or nothing of it was left to be written back, the file has the
payload that the formatter made, overlaid with all writes to it since, and so has an engine opened
over the files; and otherwise the commit leaves the block in its file as it was. That is so where
nobody wrote to the block and the pool has not written it back. -/
theorem committed_appends {names : String → Prop} (hd : Distinct names) {settings : Settings}
    {disk : Disk} {e : Engine} (h : Engine.create settings disk = .ok e) {before after : List Act}
    {a : Act} (ho : Running.Orderly names ⟨e, []⟩ (before ++ a :: after)) {tx : TxId}
    {file : String} {format : Formatter}
    (hw : (Running.run ⟨e, []⟩ before).change? a = some (tx, .add file format)) {e' : Engine}
    (hc : (Running.run ⟨e, []⟩ (before ++ a :: after)).engine.commit tx = (.ok (), e')) :
    let b : BlockId := ⟨file, (Running.run ⟨e, []⟩ before).store.media.disk.blocks file⟩
    let s := (Running.run ⟨e, []⟩ (before ++ a :: after)).store
    let later := ((Running.run ⟨e, []⟩ before).step a).changes after
    let payload := later.foldl (fun bytes x => x.2.on b bytes)
      (format.payload (settings.blockSize - Page.headerSize))
    (lastWriter b later = some tx ∨ s.Rests b →
      b.number < e'.media.disk.blocks file ∧ Page.payload (e'.media.disk.peek b) = payload ∧
      ∀ (settings' : Settings) (e'' : Engine), settings'.blockSize = settings.blockSize →
        Engine.create settings' e'.media.disk = .ok e'' →
        ∃ i, (e''.desk.store.pin (.block b)).1 = .ok (some i) ∧ ∃ f : Frame,
          (e''.desk.store.pin (.block b)).2.pool.frames[i]? = some f ∧ f.block = some b ∧
            Page.payload f.data = payload) ∧
    (lastWriter b later ≠ some tx → ¬ s.Rests b →
      e'.media.disk.peek b = s.media.disk.peek b) := by
  intro b s later payload
  obtain ⟨book, hsound, hsize, hadd, hgo⟩ := Running.goes_split hd h ho
  rw [hw, Option.toList_some] at hadd hgo
  obtain ⟨hn, hreach⟩ := hadd.takes.1
  have hnumber : b.number = book.flat.length file := hsound.steady.mirrors.length hn
  have hb : b = ⟨file, book.flat.length file⟩ := congrArg (BlockId.mk file) hnumber
  rw [← hb] at hreach
  let flat := (book.after [(tx, .add file format)]).flat
  have hflat : flat = (book.flat.setBlock b (format.page book.flat.blockSize)).grow file := by
    rw [hb]
    rfl
  have hin : b.number < flat.length b.file := by
    rw [hflat, hnumber]
    simp [Flat.grow, Flat.setBlock, b]
  have hsite : flat.toSite = book.flat.toSite := book.flat.site_apply _
  obtain ⟨hcurrent, hleft, hreopened⟩ := hgo.commit hd hc hn hin (hsite ▸ hreach)
  have hnone : (book.after [(tx, .add file format)]).author b = none := if_pos hb
  rw [hnone, Option.or_none] at hcurrent hleft
  refine ⟨fun hcase => ?_, hleft⟩
  obtain ⟨hinside, hpeek⟩ := hcurrent hcase
  have hpayload : Page.payload (e'.media.disk.peek b) = payload := by
    rw [hpeek, Flat.payload_replay hgo.takes hin, List.foldl_map]
    refine congrArg (later.foldl fun bytes x => x.2.on b bytes) ?_
    show Page.payload (flat.block b) = _
    rw [hflat, ← hsize, ← format.payload_page]
    simp [Flat.grow, Flat.setBlock]
  refine ⟨hinside, hpayload, fun settings' e'' hs he'' => ?_⟩
  obtain ⟨i, hpin, f, hf, hfb, hdata⟩ :=
    hreopened settings' e'' (hs.trans (hsize.symm.trans (congrArg Site.blockSize hsite).symm)) he''
  exact ⟨i, hpin, f, hf, hfb, hdata ▸ hpayload⟩

def addBlock : Act := .request ⟨0, ⟨1⟩⟩ (.append "f" (.fill 5))

def writeAdded : Act := .request ⟨1, ⟨1⟩⟩ (.write ⟨⟨"f", 0⟩, 0⟩ 2 (.int 7))

theorem orderly_addBlock : Running.Orderly (fun n => n = "f") ⟨opened { blockSize := 16 }, []⟩
    [.begin .repeatableRead, addBlock, writeAdded] := by
  simp only [addBlock, writeAdded, Running.Orderly]
  exact ⟨trivial, by decide +kernel, ⟨by decide +kernel, rfl, nofun⟩, by decide +kernel,
    ⟨by decide +kernel, trivial, nofun⟩, by decide +kernel, trivial⟩

/-- The transaction writes to its block before it commits. -/
theorem committed_appends_written :
    Engine.create paired { blockSize := 16 } = .ok (opened { blockSize := 16 }) ∧
    ∃ e', (Running.run ⟨opened { blockSize := 16 }, []⟩
      [.begin .repeatableRead, addBlock, writeAdded]).engine.commit ⟨1⟩ = (.ok (), e') ∧
      Page.payload (e'.media.disk.peek ⟨"f", 0⟩) = [5, 5, 0, 0, 0, 7, 5, 5] := by
  have hd : Distinct fun n => n = "f" := fun m n hm hn _ _ => hm.trans hn.symm
  have hopen (disk : Disk) : Engine.create paired disk = .ok (opened disk) := rfl
  have ho : Running.Orderly (fun n => n = "f") ⟨opened { blockSize := 16 }, []⟩
      ([.begin .repeatableRead] ++ addBlock :: [writeAdded]) := orderly_addBlock
  have hw : (Running.run ⟨opened { blockSize := 16 }, []⟩ [.begin .repeatableRead]).change?
      addBlock = some (⟨1⟩, .add "f" (.fill 5)) := rfl
  have hc : (Running.run ⟨opened { blockSize := 16 }, []⟩
      ([.begin .repeatableRead] ++ addBlock :: [writeAdded])).engine.commit ⟨1⟩ = (.ok (), _) :=
    Prod.ext rfl rfl
  obtain ⟨-, hpayload, -⟩ := (committed_appends hd (hopen _) ho hw hc).1 (.inl rfl)
  exact ⟨hopen _, _, hc, hpayload⟩

/-- The transaction commits at once, and the file has zeros. -/
theorem not_committed_appends :
    Engine.create paired { blockSize := 16 } = .ok (opened { blockSize := 16 }) ∧
    Running.Orderly (fun n => n = "f") ⟨opened { blockSize := 16 }, []⟩
      ([.begin .repeatableRead] ++ [addBlock]) ∧
    (Running.run ⟨opened { blockSize := 16 }, []⟩ [.begin .repeatableRead]).change? addBlock =
      some (⟨1⟩, .add "f" (.fill 5)) ∧
    ∃ e', (Running.run ⟨opened { blockSize := 16 }, []⟩
      ([.begin .repeatableRead] ++ [addBlock])).engine.commit ⟨1⟩ = (.ok (), e') ∧
      Page.payload (e'.media.disk.peek ⟨"f", 0⟩) = List.replicate 8 0 ∧
      (Formatter.fill 5).payload 8 = List.replicate 8 5 := by
  have ho : Running.Orderly (fun n => n = "f") ⟨opened { blockSize := 16 }, []⟩
      (([.begin .repeatableRead] ++ [addBlock]) ++ [writeAdded]) := orderly_addBlock
  exact ⟨rfl, (Running.orderly_append ho).1, rfl, _, Prod.ext rfl rfl, by decide +kernel, rfl⟩

end PagedStore
