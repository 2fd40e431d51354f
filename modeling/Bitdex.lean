import Bitdex.Index.Dirty
import Bitdex.Index.Fused
import Bitdex.Write.Computed
import Bitdex.Executor.Prefilter
import Bitdex.Cache.Radix
import Bitdex.Cache.Pages
import Bitdex.Store.Rewrite
import Bitdex.Store.WalRun
import Bitdex.Store.Dictionary
import Bitdex.Sync.CopyCsv
import Bitdex.Docs.Cache
import Bitdex.Docs.Bulk
import Bitdex.Engine.Puts
import Bitdex.Engine.Walk
import Bitdex.Engine.Offset
import Bitdex.Engine.Unloaded
import Bitdex.Engine.Worker
import Bitdex.Dump.Save
import Bitdex.Engine.SaveUnload
import Bitdex.Engine.Deleted
import Bitdex.Engine.Isolation
import Bitdex.Engine.Bulk
import Bitdex.Buckets.Snapping
import Bitdex.Buckets.Clock
import Bitdex.Buckets.Reconcile
import Bitdex.Buckets.Restore
import Bitdex.Buckets.Expiry
import Bitdex.Dump.Deferral
import Bitdex.Dump.Fields
