import PagedStore.Frame
import PagedStore.Registry

set_option autoImplicit false

/-!
A fixed number of frames over the blocks of a disk. A frame that nobody has pinned can be given to
another block; which one is decided by a scan that gives every recently pinned frame a second
chance.
-/

namespace PagedStore

structure Pool where
  frames : List Frame
  table : Registry BlockId Nat := .empty
  /-- A count of the frames that are not pinned. -/
  free : Int
  /-- The frame that was given to another block last. -/
  lastClaimed : Nat

structure Store where
  media : Media
  pool : Pool

namespace Pool

def blanks (blockSize : Nat) : (first count : Nat) → Outcome (List Frame)
  | _, 0 => .ok []
  | first, count + 1 =>
    match Frame.blank first blockSize with
    | .error e => .error e
    | .ok f => (blanks blockSize (first + 1) count).map (f :: ·)

/-- The bytes that a pool has for each frame, beside the frame. -/
def handleSize : Nat := 8

/-- A pool of empty frames. The latches that calls of different threads take are in `stripes`
groups of one byte each; of them there has to be one, too. -/
def create (size stripes blockSize : Nat) : Outcome Pool :=
  if size = 0 then .error (.crash .noFrames)
  else if stripes = 0 then .error (.crash .noStripes)
  else if memoryLimit ≤ size * handleSize then .error (.crash .tooLarge)
  else
    match blanks blockSize 0 size with
    | .error e => .error e
    | .ok frames =>
      if memoryLimit ≤ stripes then .error (.crash .tooLarge)
      else .ok { frames, free := size, lastClaimed := size - 1 }

def size (p : Pool) : Nat := p.frames.length

/-- The count of free frames as a word of 64 bits. -/
def available (p : Pool) : Nat := (p.free % (wordLimit 8 : Nat)).toNat

def contains (p : Pool) (b : BlockId) : Bool := p.table.contains b

def frameOf? (p : Pool) (b : BlockId) : Option Frame :=
  match p.table.find? b with
  | none => none
  | some i => p.frames[i]?

def take (p : Pool) (i : Nat) : Pool :=
  match p.frames[i]? with
  | none => p
  | some f => { p with
      frames := p.frames.set i f.pin, free := if f.pins = 0 then p.free - 1 else p.free }

def unpin (p : Pool) (i : Nat) : Outcome Unit × Pool :=
  match p.frames[i]? with
  | none => (.error (.crash (.notPinned i)), p)
  | some f =>
    match f.unpin? with
    | none => (.error (.crash (.notPinned f.id)), p)
    | some g => (.ok (), { p with
        frames := p.frames.set i g, free := if g.pins = 0 then p.free + 1 else p.free })

/-- The places the scan for a victim looks at, in order: two laps from behind the last victim. -/
def scanOrder (size lastClaimed : Nat) : List Nat :=
  (List.range (2 * size)).map fun step => ((lastClaimed + 1) % size + step) % size

/-- Looks for a frame that is neither pinned nor has its second chance, which those that it passes
over lose. -/
def scan : List Nat → List Frame → Option Nat × List Frame
  | [], frames => (none, frames)
  | i :: rest, frames =>
    match frames[i]? with
    | none => scan rest frames
    | some f =>
      if f.pins ≠ 0 then scan rest frames
      else if f.recent then scan rest (frames.set i { f with recent := false })
      else (some i, frames)

def victim (p : Pool) : Option Nat × Pool :=
  let r := scan (scanOrder p.size p.lastClaimed) p.frames
  (r.1, { p with frames := r.2 })

end Pool

namespace Store

def blockSize (s : Store) : Nat := s.media.disk.blockSize

def forget (table : Registry BlockId Nat) : Option BlockId → Registry BlockId Nat
  | none => table
  | some b => table.erase b

/-- The table after frame `i`, which held `old`, was asked to hold another block. `left` is the
block it holds when that failed. A crash comes before the table is touched. -/
def retable (table : Registry BlockId Nat) (i : Nat) (old left : Option BlockId) :
    Outcome BlockId → Registry BlockId Nat
  | .ok b => (forget table old).insert b i
  | .error (.error _) => if left = none then forget table old else table
  | .error _ => table

def rebind (s : Store) (i : Nat) (f : Frame) (w : Wanted) : Outcome Unit × Store :=
  let (r, g, media) := f.rebind w s.media
  (r.map fun _ => (), { s with
    media
    pool := { s.pool with
      frames := s.pool.frames.set i g
      table := retable s.pool.table i f.block g.block r } })

/-- Finds a frame for what is wanted and pins it, or finds every frame pinned. -/
def claim (s : Store) (w : Wanted) : Outcome (Option Nat) × Store :=
  let (found, pool) := s.pool.victim
  let s := { s with pool }
  match found.bind fun i => pool.frames[i]?.map fun f => (i, f) with
  | none => (.ok none, s)
  | some (i, f) =>
    match s.rebind i f w with
    | (.error e, s) => (.error e, s)
    | (.ok (), s) => (.ok (some i), { s with pool := { s.pool.take i with lastClaimed := i } })

/-- Pins the frame that has `b`, which it is given first where there is none. A table entry
that points to a frame with another block would be tried for ever. -/
def pinBlock (s : Store) (b : BlockId) : Outcome (Option Nat) × Store :=
  match s.pool.table.find? b with
  | none => s.claim (.block b)
  | some i =>
    if (s.pool.frames[i]?.bind Frame.block) = some b then
      (.ok (some i), { s with pool := s.pool.take i })
    else (.error .endless, s)

def pin (s : Store) : Wanted → Outcome (Option Nat) × Store
  | .block b => s.pinBlock b
  | .fresh file format => s.claim (.fresh file format)

def unpin (s : Store) (i : Nat) : Outcome Unit × Store :=
  let r := s.pool.unpin i
  (r.1, { s with pool := r.2 })

/-- Writes back the frames asked for, in order, up to the first that fails. -/
def flushFrames (asked : Frame → Bool) : List Frame → Media → Outcome Unit × List Frame × Media
  | [], m => (.ok (), [], m)
  | f :: fs, m =>
    if asked f then
      match f.flush m with
      | (.error e, m) => (.error e, f :: fs, m)
      | (.ok f, m) =>
        let (r, fs, m) := flushFrames asked fs m
        (r, f :: fs, m)
    else
      let (r, fs, m) := flushFrames asked fs m
      (r, f :: fs, m)

def flushWhere (s : Store) (asked : Frame → Bool) : Outcome Unit × Store :=
  let (r, frames, media) := flushFrames asked s.pool.frames s.media
  (r, { s with media, pool := { s.pool with frames } })

def flushAll (s : Store) : Outcome Unit × Store := s.flushWhere fun _ => true

def flushFor (s : Store) (tx : TxId) : Outcome Unit × Store :=
  s.flushWhere fun f => f.modifiedBy = some tx

def flushFrame (s : Store) (i : Nat) : Outcome Unit × Store :=
  match s.pool.frames[i]? with
  | none => (.ok (), s)
  | some f =>
    match f.flush s.media with
    | (.error e, media) => (.error e, { s with media })
    | (.ok f, media) =>
      (.ok (), { s with media, pool := { s.pool with frames := s.pool.frames.set i f } })

def editFrame (s : Store) (i : Nat) (edit : Frame → Except Error Frame) :
    Except Error Unit × Store :=
  match s.pool.frames[i]? with
  | none => (.ok (), s)
  | some f =>
    match edit f with
    | .error e => (.error e, s)
    | .ok f => (.ok (), { s with pool := { s.pool with frames := s.pool.frames.set i f } })

end Store

end PagedStore
