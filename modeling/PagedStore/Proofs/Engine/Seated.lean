import PagedStore.Proofs.Engine.Cleared
import PagedStore.Proofs.Engine.Inert

set_option autoImplicit false

/-!
Whatever happens to a pool and at its desk, a transaction holds a block in a frame that there is.
Main statement: `Running.seated_step`.
-/

namespace PagedStore

namespace Desk

structure Seated (n : Nat) (d : Desk) : Prop where
  size : d.store.pool.size = n
  holds : ∀ tx b h, (d.pinsOf tx).holds.find? b = some h → h.frame < n

variable {c : Terms} {size : Nat} {tx : TxId} {d d' : Desk} {cs : List Change} {w : Wanted}
  {s : Store} {p : Pins}

theorem Seated.congr (h : d.Seated size) (hs : d'.store.pool.size = size) (hp : d'.pins = d.pins) :
    d'.Seated size :=
  ⟨hs, fun tx b k hk => h.holds tx b k (by rwa [pinsOf, hp] at hk)⟩

theorem Seated.setPins (h : d.Seated size) (hp : ∀ b k, p.holds.find? b = some k → k.frame < size) :
    (d.setPins tx p).Seated size := by
  refine ⟨h.size, fun u b k hk => ?_⟩
  by_cases hu : u = tx
  · rw [hu, pinsOf_setPins_self] at hk
    exact hp b k hk
  · rw [pinsOf_setPins_of_ne _ _ hu] at hk
    exact h.holds u b k hk

theorem Seated.insert (h : d.Seated size) {b : BlockId} {k : Hold} (hk : k.frame < size)
    (touched : List Nat) :
    (d.setPins tx { holds := (d.pinsOf tx).holds.insert b k, touched }).Seated size := by
  refine h.setPins fun x k' hx => ?_
  rw [Registry.find?_insert] at hx
  split at hx
  · cases hx
    exact hk
  · exact h.holds tx x k' hx

theorem lt_size_of_blockAt? {i : Nat} {b : BlockId} (h : s.blockAt? i = some b) :
    i < s.pool.size := by
  obtain ⟨f, hf, -⟩ := Option.bind_eq_some_iff.1 h
  exact (List.getElem?_eq_some_iff.1 hf).1

theorem Move.seated (m : Move c tx d cs d') (h : d.Seated size) : d'.Seated size := by
  have hk := (Engine.kept_size size).toKept
  cases m with
  | line l => exact h.congr h.size rfl
  | missed hw hr => exact h.congr (hk.pin h.size _) rfl
  | @got w i b refs hw hr hb =>
    have hs : (d.setStore (d.store.pin w).2).Seated size := h.congr (hk.pin h.size w) rfl
    exact hs.insert (k := ⟨i, refs⟩) (hs.size ▸ lt_size_of_blockAt? hb) _
  | @recounted b k refs hb => exact h.insert (k := ⟨k.frame, refs⟩) (h.holds tx b k hb) _
  | @unpinned b k hb =>
    have hs : (d.setStore (d.store.unpin k.frame).2).Seated size :=
      h.congr (hk.unpin h.size _) rfl
    exact hs.setPins fun x k' hx => h.holds tx x k' (Registry.find?_of_erase hx).2
  | emptied | released hf =>
    have hs : (d.setStore (unpinFrames (d.heldFrames tx) d.store).2).Seated size :=
      h.congr (hk.unpinFrames h.size _) rfl
    exact hs.setPins fun x k hx => by cases hx
  | flushed i => exact h.congr (hk.flush i h.size) rfl
  | beside hm => exact h.congr h.size rfl
  | wrote ht hb hl hw => exact h.congr ((Store.related_editFrame hw).size.trans h.size) rfl

theorem Moves.seated (m : Moves c tx d cs d') (h : d.Seated size) : d'.Seated size := by
  induction m with
  | refl => exact h
  | snoc _ m ih => exact m.seated ih

theorem Seated.pin (h : d.Seated size) (tx : TxId) (w : Wanted) : (d.pin tx w).2.Seated size := by
  obtain ⟨_, _, m⟩ := d.exists_moves_pin tx w fun _ => True
  exact m.seated h

theorem Seated.resume (h : d.Seated size) (tx : TxId) (u : PinWait) (expired : Bool) :
    (d.resume tx u expired).2.Seated size := by
  obtain ⟨_, _, m⟩ := d.exists_moves_resume tx u expired fun _ => True
  exact m.seated h

theorem Seated.unpin (h : d.Seated size) (tx : TxId) (b : BlockId) :
    (d.unpin tx b).2.Seated size := (moves_unpin (c := .roomy 0) d b).seated h

theorem Seated.releaseAll (h : d.Seated size) (tx : TxId) : (d.releaseAll tx).2.Seated size :=
  (moves_releaseAll (c := .roomy 0) d fun _ => trivial).seated h

theorem Seated.flushMine (h : d.Seated size) (tx : TxId) : (d.flushMine tx).2.Seated size := by
  have m : Moves (.roomy 0) tx d [] (d.flushMine tx).2 := moves_flushMine d tx
  exact m.seated h

theorem Seated.frame {b : BlockId} {i : Nat} (h : d.Seated size) (hi : d.frameOf? tx b = some i) :
    ∃ f, d.store.pool.frames[i]? = some f := by
  obtain ⟨k, hk, rfl⟩ := Option.map_eq_some_iff.1 hi
  have hlt : k.frame < d.store.pool.size := h.size.symm ▸ h.holds tx b k hk
  exact ⟨_, List.getElem?_eq_getElem hlt⟩

end Desk

namespace Engine

variable {size : Nat} {e : Engine}

theorem seated_pinned (k : Task) (thenLock : Bool) {r : PinProgress × Desk} (h : r.2.Seated size) :
    (e.pinned k thenLock r).2.desk.Seated size := (e.desk_pinned k thenLock r).symm ▸ h

section

variable (h : e.desk.Seated size)

include h

theorem seated_logWrite (tx : TxId) (r : RecordId) (offset : Nat) (v : Value) :
    (e.logWrite tx r offset v).2.desk.Seated size := by
  obtain ⟨log, hlog⟩ := e.logWrite_snd tx r offset v
  rw [hlog]
  exact h.congr h.size rfl

theorem seated_writeHeld (tx : TxId) (r : RecordId) (offset : Nat) (v : Value) :
    (e.writeHeld tx r offset v).2.desk.Seated size :=
  h.congr ((kept_size size).writeHeld h.size tx r offset v) (e.pins_writeHeld tx r offset v)

theorem seated_proceed (k : Task) (w : Work) : (e.proceed k w).2.desk.Seated size := by
  cases w with
  | answer a => exact h
  | length file => exact h.congr h.size rfl
  | read r offset kind => exact h
  | write r offset v => exact seated_writeHeld h k.tx r offset v
  | extend file format => exact seated_pinned k true (h.pin k.tx _)

theorem seated_lockedWork (k : Task) (steps : List LockStep) (w : Work) :
    (e.lockedWork k steps w).2.desk.Seated size := by
  unfold lockedWork locked
  split
  · rename_i locks _
    exact seated_proceed (e := { e with locks }) h k w
  · exact h
  · exact h

theorem seated_active (k : Task) {next : Engine → Progress × Engine}
    (hnext : (next e).2.desk.Seated size) : (e.active k next).2.desk.Seated size := by
  unfold active
  split
  · exact h
  · exact hnext

theorem seated_request (k : Task) (q : Request) : (e.request k q).2.desk.Seated size := by
  cases q with
  | lock steps => exact seated_lockedWork h k _ _
  | intent i => exact seated_lockedWork h k _ _
  | pin w => exact seated_active h k (seated_pinned k false (h.pin k.tx w))
  | append file format => exact seated_active h k (seated_lockedWork h k _ _)
  | length file => exact seated_active h k (seated_lockedWork h k _ _)
  | read r offset kind => exact seated_active h k (seated_lockedWork h k _ _)
  | write r offset v => exact seated_active h k (seated_lockedWork h k _ _)

theorem seated_resume (id : Nat) (expired : Bool) :
    (e.resume id expired).2.desk.Seated size := by
  unfold Engine.resume
  split
  · exact h
  · exact seated_pinned _ _ (h.resume _ _ _)
  · split
    · exact h
    · split
      · rename_i locks _
        exact seated_lockedWork (e := { e with locks }) h _ _ _
      · exact h
      · exact h
      · exact h

theorem seated_updateTx (tx : TxId) (f : Transaction → Transaction) :
    (e.updateTx tx f).desk.Seated size := by
  unfold updateTx
  split <;> exact h

theorem seated_letGo (tx : TxId) : (e.letGo tx).2.desk.Seated size := by
  have hr : (e.atDesk fun d => d.releaseAll tx).2.desk.Seated size := h.releaseAll tx
  unfold letGo
  generalize e.atDesk (fun d => d.releaseAll tx) = r at hr
  obtain ⟨q, e'⟩ := r
  cases q with
  | error err => exact hr
  | ok _ => exact seated_updateTx (e := e'.releaseLocks tx) hr tx _

theorem seated_makeDurable (tx : TxId) : (e.makeDurable tx).2.desk.Seated size := by
  have hf : (e.atDesk fun d => d.flushMine tx).2.desk.Seated size := h.flushMine tx
  unfold makeDurable
  generalize e.atDesk (fun d => d.flushMine tx) = r at hf
  obtain ⟨q, e'⟩ := r
  cases q with
  | error err => exact hf
  | ok _ => exact hf.congr hf.size rfl

theorem seated_commit (tx : TxId) : (e.commit tx).2.desk.Seated size := by
  have hm := seated_makeDurable h tx
  unfold commit
  split
  · exact h
  · generalize e.makeDurable tx = r at hm
    obtain ⟨q, e'⟩ := r
    cases q with
    | error err => exact hm
    | ok _ => exact seated_letGo hm tx

theorem seated_rollback (tx : TxId) : (e.rollback tx).2.desk.Seated size := by
  unfold rollback
  split
  · exact h
  · exact seated_letGo h tx

theorem seated_drop (tx : TxId) : (e.drop tx).2.desk.Seated size := by
  unfold drop
  split
  · exact h.releaseAll tx
  · exact seated_letGo h tx

end

end Engine

namespace Running

variable {size : Nat} {r : Running}

theorem seated_step (h : r.engine.desk.Seated size) (hl : r.Logged) (a : Act) :
    (r.step a).engine.desk.Seated size := by
  have hsize := kept_step (Engine.kept_size size) hl h.size a
  cases a with
  | begin level => exact h
  | enroll tx level => exact h
  | request k q => exact Engine.seated_request h k q
  | resume id expired => exact Engine.seated_resume h id expired
  | logWrite tx record offset v =>
    have hw := Engine.seated_logWrite h tx record offset v
    simp only [step]
    generalize r.engine.logWrite tx record offset v = q at hw
    obtain ⟨q, e⟩ := q
    cases q <;> exact hw
  | applyWrite place =>
    refine h.congr hsize ?_
    simp only [step]
    split
    · rfl
    · exact r.engine.pins_applyWrite _
  | unpin tx b => exact h.unpin tx b
  | endStatement tx => exact h
  | releaseLocks tx => exact h
  | commit tx => exact Engine.seated_commit h tx
  | rollback tx => exact Engine.seated_rollback h tx
  | drop tx => exact Engine.seated_drop h tx
  | flushMine tx => exact h.flushMine tx
  | deliver => exact h
  | poolPin w | poolUnpin i | flush i | flushAll | flushFor tx | append record | flushLog lsn
  | length file | outage o | fault cause => exact h.congr hsize rfl

end Running

theorem Engine.seated_create {settings : Settings} {disk : Disk} {e : Engine}
    (h : Engine.create settings disk = .ok e) : e.desk.Seated e.pool.size := by
  obtain ⟨pool, locks, -, -, rfl⟩ := Engine.create_eq_ok h
  refine ⟨rfl, fun tx b k hk => ?_⟩
  cases hk

end PagedStore
