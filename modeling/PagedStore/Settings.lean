set_option autoImplicit false

/-!
The measures of a store, with the values it has when nobody says otherwise.
-/

namespace PagedStore

/-- Times are in milliseconds. -/
structure Settings where
  poolSize : Nat := 64
  blockSize : Nat := 4096
  /-- The longest wait for a lock, or in line for a frame. -/
  maxWait : Nat := 10000
  /-- How long a request in line sleeps before it looks again. -/
  window : Nat := 50
  stripes : Nat := 16
  anchors : Nat := 64
  wakeups : Nat := 1024
  deriving DecidableEq

inductive Setting where
  | poolSize
  | blockSize
  | maxWait
  | window
  | stripes
  | anchors
  | wakeups
  deriving DecidableEq

namespace Settings

def standard : Settings := {}

def set (s : Settings) (n : Nat) : Setting → Settings
  | .poolSize => { s with poolSize := n }
  | .blockSize => { s with blockSize := n }
  | .maxWait => { s with maxWait := n }
  | .window => { s with window := n }
  | .stripes => { s with stripes := n }
  | .anchors => { s with anchors := n }
  | .wakeups => { s with wakeups := n }

def setAll (s : Settings) (changes : List (Setting × Nat)) : Settings :=
  changes.foldl (fun s c => s.set c.2 c.1) s

end Settings

end PagedStore
