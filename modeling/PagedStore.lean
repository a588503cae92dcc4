import PagedStore.Session.Run
import PagedStore.Proofs.Lock.Run
import PagedStore.Proofs.Lock.Wakeup
import PagedStore.Proofs.Lock.Hierarchy
import PagedStore.Proofs.Lock.Directory
import PagedStore.Proofs.Pool.Run
import PagedStore.Proofs.Engine.WriteAhead
import PagedStore.Proofs.Engine.Commit
import PagedStore.Proofs.Engine.Repeatable
import PagedStore.Proofs.Pool.Truthful
import PagedStore.Proofs.Engine.Redo
import PagedStore.Proofs.Lock.Wounded
import PagedStore.Proofs.Pool.Counted
import PagedStore.Proofs.Engine.Accounted
import PagedStore.Proofs.Engine.Cleared
import PagedStore.Proofs.Lock.Indexes
import PagedStore.Proofs.Engine.Inert
import PagedStore.Proofs.Pins.Queue
import PagedStore.Proofs.Pins.Shared
import PagedStore.Proofs.Lock.Instant
import PagedStore.Proofs.Lock.Doomed
import PagedStore.Proofs.Lock.Statement
import PagedStore.Proofs.Engine.Seated
import PagedStore.Proofs.Engine.Atomic
import PagedStore.Proofs.Pool.Chance
import PagedStore.Proofs.Pins.Alone
import PagedStore.Proofs.Engine.Flushed
import PagedStore.Proofs.Engine.Outcome
import PagedStore.Proofs.Page.Codec
import PagedStore.Proofs.Pool.Leases
import PagedStore.Proofs.Pool.Checkpoint
import PagedStore.Proofs.Pool.Failed
import PagedStore.Proofs.Pool.Dated
import PagedStore.Proofs.Disk.History
