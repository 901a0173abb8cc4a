import FlashSpark.Bugs.FooterShift
import FlashSpark.Bugs.FreeGroupBeforeCheck
import FlashSpark.Bugs.LooseProfile
import FlashSpark.Bugs.PaddedOutput
import FlashSpark.Bugs.PageOffset
import FlashSpark.Bugs.QueuedGrammar
import FlashSpark.Bugs.RangeAfterAttach
import FlashSpark.Bugs.ShortWrite
import FlashSpark.Bugs.SkippedLogprobs
import FlashSpark.Bugs.UnstoppedGuard
import FlashSpark.Bugs.UnstoppedLaunch
import FlashSpark.Core.Buckets
import FlashSpark.Core.Crash
import FlashSpark.Core.Double
import FlashSpark.Core.IpAddress
import FlashSpark.Core.Kernel
import FlashSpark.Core.LTS
import FlashSpark.Core.Launch
import FlashSpark.Core.Mem
import FlashSpark.Core.Network
import FlashSpark.Core.PosixPath
import FlashSpark.Core.Py
import FlashSpark.Core.Ragged
import FlashSpark.Core.Raise
import FlashSpark.Core.Search
import FlashSpark.Core.SetAssoc
import FlashSpark.Core.Split
import FlashSpark.Core.Stream
import FlashSpark.Core.Strided
import FlashSpark.Core.Sweep
import FlashSpark.Core.Tensor
import FlashSpark.Core.Threads
import FlashSpark.Core.Tiles
import FlashSpark.Core.TopK
import FlashSpark.L1Layout.EntryBytes
import FlashSpark.L1Layout.PageSplit
import FlashSpark.L1Layout.SlotAddress
import FlashSpark.L2Store.Accounting
import FlashSpark.L2Store.EngramBackend
import FlashSpark.L2Store.Fetch
import FlashSpark.L2Store.Lookup
import FlashSpark.L2Store.PackEngram
import FlashSpark.L2Store.PackComplete
import FlashSpark.L2Store.PackVerified
import FlashSpark.L2Store.PackWrite
import FlashSpark.L2Store.PinScales
import FlashSpark.L2Store.Refines
import FlashSpark.L2Store.Staging
import FlashSpark.L2Store.Store
import FlashSpark.L2Store.TpShard
import FlashSpark.L3Engram.EngramHasher
import FlashSpark.L3Engram.HashIds
import FlashSpark.L3Engram.HashRange
import FlashSpark.L3Engram.History
import FlashSpark.L3Engram.IncrementalHash
import FlashSpark.L3Engram.LivePadding
import FlashSpark.L3Engram.PrimeLayout
import FlashSpark.L3Engram.StreamRun
import FlashSpark.L3Indexer.CandidateBlocks
import FlashSpark.L3Indexer.CandidateGraphs
import FlashSpark.L3Indexer.DensePrefill
import FlashSpark.L3Indexer.IndexerPaths
import FlashSpark.L3Indexer.IndexerRow
import FlashSpark.L3Indexer.LateLayerTail
import FlashSpark.L3Indexer.Scores
import FlashSpark.L3Indexer.TailLayout
import FlashSpark.L3Indexer.TopkPages
import FlashSpark.L3Indexer.TwoLevelPass
import FlashSpark.L3PairState.C2Kernel
import FlashSpark.L3PairState.PairPartners
import FlashSpark.L3PairState.PairSequential
import FlashSpark.L3PairState.RingRun
import FlashSpark.L4Scheduler.BatchResult
import FlashSpark.L4Scheduler.Grammar
import FlashSpark.L4Scheduler.PrefillLogprobs
import FlashSpark.L4Scheduler.Rejection
import FlashSpark.L4Scheduler.SpecDecode
import FlashSpark.L4Scheduler.VerifyBuckets
import FlashSpark.L5Concurrency.Pool
import FlashSpark.L5Concurrency.PoolInv
import FlashSpark.L5Concurrency.PoolSafety
import FlashSpark.L5Concurrency.ProcessGroups
import FlashSpark.L5Concurrency.TensorDict
import FlashSpark.L6Operations.Cluster
import FlashSpark.L6Operations.Guard
import FlashSpark.L6Operations.Overlays
import FlashSpark.L6Operations.Profile
import FlashSpark.L6Operations.Traces
