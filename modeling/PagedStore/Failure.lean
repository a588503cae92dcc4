import PagedStore.Ident

set_option autoImplicit false

/-!
How a call can fail: with an error that its caller may handle, with a crash where a rule between
caller and store was broken, or by never coming back.
-/

namespace PagedStore

inductive IoCause where
  | notFound
  | notDirectory
  | isDirectory
  | invalidArgument
  | nameTooLong
  | nulInName
  | logUnavailable
  | other (text : String)
  deriving DecidableEq

def IoCause.text : IoCause → String
  | .notFound => "No such file or directory (os error 2)"
  | .notDirectory => "Not a directory (os error 20)"
  | .isDirectory => "Is a directory (os error 21)"
  | .invalidArgument => "Invalid argument (os error 22)"
  | .nameTooLong => "File name too long (os error 36)"
  | .nulInName => "file name contained an unexpected NUL byte"
  | .logUnavailable => "log unavailable"
  | .other text => text

inductive Error where
  | io (cause : IoCause)
  | outOfBounds (offset len size : Nat)
  | invalidUtf8
  | exhausted (tx : TxId) (target : String)
  | lockTimeout (tx : TxId) (target : Target)
  | wounded (tx : TxId)
  | finished (tx : TxId)
  deriving DecidableEq

namespace Error

def message : Error → String
  | .io cause => s!"I/O error: {cause.text}"
  | .outOfBounds offset len size =>
      s!"Offset {offset} with length {len} is outside the {size}-byte page"
  | .invalidUtf8 => "Stored string is not valid UTF-8"
  | .exhausted tx target => s!"Transaction {tx.text} exhausted the buffer pool while pinning {target}"
  | .lockTimeout tx target =>
      s!"Transaction {tx.text} timed out waiting for a lock on {target.text}"
  | .wounded tx => s!"Transaction {tx.text} was wounded by an older transaction"
  | .finished tx => s!"Transaction {tx.text} has already committed or rolled back"

/-- The whole transaction has to be rolled back and run again. -/
def isAbort : Error → Bool
  | .exhausted .. | .lockTimeout .. | .wounded _ => true
  | .io _ | .outOfBounds .. | .invalidUtf8 | .finished _ => false

end Error

inductive Crash where
  | offsetOverflow
  | zeroBlockSize
  | bufferLength
  | tooLarge
  | queueTooLong
  | noHeaderRoom
  | noFrames
  | noStripes
  | noAnchors
  | notPinned (frame : Nat)
  | notHeld (tx : TxId) (block : BlockId)
  | accessUnpinned (tx : TxId) (block : BlockId)
  deriving DecidableEq

/-- The text of a crash; three kinds have none of their own. -/
def Crash.message? : Crash → Option String
  | .offsetOverflow | .zeroBlockSize | .bufferLength => none
  | .tooLarge => some "capacity overflow"
  | .queueTooLong => some "bounded channel capacity is too large"
  | .noHeaderRoom => some "block size must leave room for the LSN header"
  | .noFrames => some "pool_size must be > 0"
  | .noStripes => some "stripes must be > 0"
  | .noAnchors => some "anchors must be > 0"
  | .notPinned frame => some s!"unpin of unpinned FrameId({frame})"
  | .notHeld tx block => some s!"{tx.text} unpinned {block.text} which it does not hold"
  | .accessUnpinned tx block => some s!"{tx.text} accessed {block.text} without pinning it"

inductive Failure where
  | error (e : Error)
  | crash (c : Crash)
  /-- The call retries for ever. -/
  | endless
  deriving DecidableEq

abbrev Outcome (α : Type) := Except Failure α

end PagedStore
