import QueryCache.Cache.Custom
import QueryCache.Entries.Lemmas
import QueryCache.Json.Access
import QueryCache.Proofs.Cache.Honesty
import QueryCache.Proofs.Cache.Namespaces
import QueryCache.Proofs.Key.Identity
import QueryCache.Proofs.Key.JsonParameter
import QueryCache.Proofs.Layer.Accepted
import QueryCache.Proofs.Layer.FailedClear
import QueryCache.Proofs.Layer.InsertionOrder
import QueryCache.Proofs.Layer.MoreRoom
import QueryCache.Proofs.Layer.ReadCount
import QueryCache.Proofs.Layer.RecentKeys
import QueryCache.Proofs.Layer.RefusedPut
import QueryCache.Proofs.Layer.Schedule
import QueryCache.Proofs.Layer.SoftEntries
import QueryCache.Proofs.Layer.Stampede
import QueryCache.Proofs.Layer.Transparent
import QueryCache.Proofs.Layer.WeakEntries
import QueryCache.Proofs.Query.ClosedSession
import QueryCache.Proofs.Query.ConcurrentUnits
import QueryCache.Proofs.Query.FlushAtCommit
import QueryCache.Proofs.Query.KeySeparation
import QueryCache.Proofs.Query.LocalFlush
import QueryCache.Proofs.Query.Memoization
import QueryCache.Proofs.Query.Transparency
import QueryCache.Proofs.Query.UnitAtClose
import QueryCache.Proofs.Transaction.FailedCommit
import QueryCache.Proofs.Transaction.FlushOrder
import QueryCache.Proofs.Transaction.Isolation
import QueryCache.Proofs.Transaction.NoLockLeft
import QueryCache.Proofs.Transaction.RetriedCommit
import QueryCache.Proofs.Transaction.SingleLoader
import QueryCache.Query.Samples
import QueryCache.Settings.Codec
import QueryCache.Text.Hexadecimal
import QueryCache.Workbench.Workshop
