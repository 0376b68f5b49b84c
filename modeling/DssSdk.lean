import DssSdk.Lib.JudyArray
import DssSdk.BlockAllocator.SeekOptimizer
import DssSdk.BlockAllocator.SeekInvariant
import DssSdk.BlockAllocator.Bitmap
import DssSdk.BlockAllocator.Impresario
import DssSdk.BlockAllocator.BitmapDisk
import DssSdk.BlockAllocator.IoTaskOrderer
import DssSdk.BlockAllocator.MetaSyncOrder
import DssSdk.BlockAllocator.DirtyMeta
import DssSdk.Kvtrans.Store
import DssSdk.Kvtrans.Handlers
import DssSdk.Kvtrans.KeyOps
import DssSdk.Lib.Program
import DssSdk.Kvtrans.Frames
import DssSdk.Kvtrans.HandlerOutcome
import DssSdk.Kvtrans.UpdateOutcome
import DssSdk.Kvtrans.KeyOpsOutcome
import DssSdk.Kvtrans.ValOpsOutcome
import DssSdk.Kvtrans.MetaSync
import DssSdk.Kvtrans.WaitQueue
import DssSdk.LockService.Service
import DssSdk.LockService.Exclusion
import DssSdk.LockService.Completion
import DssSdk.Lib.PrefixTree
import DssSdk.Listing.Update
import DssSdk.Listing.Paths
import DssSdk.Listing.Requests
import DssSdk.Listing.KeySet
import DssSdk.Listing.Boot
import DssSdk.Listing.Zones
import DssSdk.Fuse.Map
import DssSdk.Fuse.Pairs
import DssSdk.Fuse.Module
import DssSdk.Fuse.Exclusion
import DssSdk.Fuse.Atomicity
import DssSdk.IoTask.Progress
import DssSdk.Lib.SortedTable
import DssSdk.ListTree.Tree
import DssSdk.Host.ListingCache
import DssSdk.Host.ListingKeys
import DssSdk.ListTree.KeySet
import DssSdk.Host.ReadCache
import DssSdk.Host.Transparency
import DssSdk.Lib.CellMemory
import DssSdk.Lib.TailQueue
import DssSdk.Wal.Map
import DssSdk.Wal.MapInvariant
import DssSdk.Wal.BucketList
import DssSdk.Wal.Zone
import DssSdk.Wal.FlushAccount
import DssSdk.Wal.Quiet
import DssSdk.Wal.ReadYourWrites
import DssSdk.BlockAllocator.DirtyRanges
import DssSdk.Qos.Conservation
import DssSdk.BlockAllocator.SeekComplete
import DssSdk.BlockAllocator.Contract
import DssSdk.Framework.Independence
import DssSdk.Rdd.Conservation
import DssSdk.Lib.ByteMemory
import DssSdk.Listing.Read
import DssSdk.Net.Request
import DssSdk.Net.Outcome
import DssSdk.Host.RemoteListing
import DssSdk.Host.RemoteTree
import DssSdk.Iter.Pool
import DssSdk.Iter.Pages
import DssSdk.Iter.OnceEach
import DssSdk.BlockAllocator.CheckBlocks
import DssSdk.BlockAllocator.SeekEmpty
import DssSdk.Layout.PhysicalSize
import DssSdk.Layout.Unformatted
import DssSdk.Layout.Formatter
import DssSdk.BlockAllocator.Simbmap
import DssSdk.BlockAllocator.SimbmapContract
import DssSdk.Kvtrans.BlockStates
import DssSdk.Lib.Extents
import DssSdk.Kvtrans.DataBlocks
import DssSdk.Kvtrans.DeletedBlocks
import DssSdk.Kvtrans.SlotKeys
import DssSdk.Lib.IntFields
import DssSdk.Wal.RecordCodec
import DssSdk.Kvtrans.Statistics
import DssSdk.Framework.CoreBalance
import DssSdk.Host.PathProgress
import DssSdk.Host.PathRetry
import DssSdk.Host.PathAccount
import DssSdk.Qos.Charge
import DssSdk.Wal.ZoneLayout
import DssSdk.Listing.Paging
import DssSdk.Host.KeyFilter
import DssSdk.ListTree.Paging
import DssSdk.Wal.FlushPoll
import DssSdk.Wal.LogRecovery
import DssSdk.Framework.SessionIds
import DssSdk.IoTask.OpRanges
import DssSdk.Kd.Rendezvous
import DssSdk.Lib.Ring
import DssSdk.Utils.ItemCache
import DssSdk.Utils.Mallocator
import DssSdk.Lib.Histogram
import DssSdk.Utils.LatencyCount
import DssSdk.Lib.ShiftRegister
import DssSdk.Utils.Crc32
import DssSdk.Lib.Sextets
import DssSdk.Utils.Base64
import DssSdk.Kvtrans.CacheTable
import DssSdk.Net.NetModule
import DssSdk.Net.ModuleSharing
import DssSdk.Framework.ModuleHandshake
import DssSdk.Framework.ModulePipes
import DssSdk.Lib.Pattern
import DssSdk.Ufm.SpdkConfig
import DssSdk.Ufm.EntryLines
import DssSdk.Ufm.Kept
import DssSdk.Ufm.Rewriting
import DssSdk.Ufm.Saving
import DssSdk.Ufm.DriveData
import DssSdk.Host.LruCache
import DssSdk.Lib.ByteRegions
import DssSdk.Stats.Counters
import DssSdk.Stats.Sampling
import DssSdk.Stats.SampledFiles
import DssSdk.Kvtrans.BootTable
import DssSdk.Kvtrans.StoredValues
import DssSdk.Kvtrans.OneBlock
import DssSdk.Kvtrans.EntryBlock
import DssSdk.Kvtrans.KeyMap
import DssSdk.Kvtrans.DiskMap
