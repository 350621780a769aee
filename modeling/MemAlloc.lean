import MemAlloc.Lib.Words
import MemAlloc.Lib.Spans
import MemAlloc.Lib.ByteMemory
import MemAlloc.Lib.Links
import MemAlloc.Lib.Runs
import MemAlloc.Lib.Malloc
import MemAlloc.Lib.LifoPool
import MemAlloc.BlockPool
import MemAlloc.BlockPoolInvariant
import MemAlloc.BlockPoolRefinement
import MemAlloc.Arena
import MemAlloc.ArenaRuns
import MemAlloc.CentralHeap
import MemAlloc.SingleThreadAlloc
import MemAlloc.AllocatorInvariant
import MemAlloc.AllocatorOperations
import MemAlloc.Construction
import MemAlloc.Client
import MemAlloc.StatsLedger
import MemAlloc.ThreadPoolAlloc
import MemAlloc.ThreadRegions
import MemAlloc.ThreadInvariant
import MemAlloc.ThreadSafety
import MemAlloc.ThreadRuns
import MemAlloc.Lib.Totals
import MemAlloc.StatsRegistry
import MemAlloc.RegistrySystem
import MemAlloc.RegistryRuns
import MemAlloc.RegistrySafety
import MemAlloc.EventRing
import MemAlloc.MallocRegistry
import MemAlloc.AllocatorRuns
import MemAlloc.CentralHeapRuns
import MemAlloc.RegistryFailures
import MemAlloc.RefillFailures
import MemAlloc.Classification
import MemAlloc.Fragmentation
import MemAlloc.RequestTotals
import MemAlloc.TornTotals
import MemAlloc.OccupancyWalk
import MemAlloc.NewDelete
import MemAlloc.ThreadHomes
import MemAlloc.FallbackInvariant
import MemAlloc.FreeSafety
import MemAlloc.FallbackFrees
import MemAlloc.ServedPointers
import MemAlloc.UndisturbedRuns
import MemAlloc.DeleteEffects
import MemAlloc.EventFeed
import MemAlloc.OverAllocation
import MemAlloc.GroundedRuns
import MemAlloc.NewOutcomes
import MemAlloc.Registration
import MemAlloc.DeleteOutcomes
import MemAlloc.Lifecycle
import MemAlloc.EventLedgers
import MemAlloc.RingStorage
import MemAlloc.LargeAlignment
import MemAlloc.EmptyBlocks
import MemAlloc.Alignment
import MemAlloc.ChunkHeaders
import MemAlloc.ChunkCounts
import MemAlloc.EventTimes
import MemAlloc.Lib.Calls
import MemAlloc.OverrideCalls
import MemAlloc.NestedCalls
import MemAlloc.RelativeAllocator
import MemAlloc.RelativeRefinement
import MemAlloc.ScheduleRuns
import MemAlloc.ScheduleIndependence
import MemAlloc.Lib.Programs
import MemAlloc.ThreadViews
import MemAlloc.Tasks
import MemAlloc.GrantedCalls
import MemAlloc.Bench
import MemAlloc.Batches
import MemAlloc.FragReport
import MemAlloc.Workers
import MemAlloc.Lib.CallRules
import MemAlloc.Lib.LockOrder
import MemAlloc.LockDiscipline
import MemAlloc.Deadlocks
import MemAlloc.FragDetect
import MemAlloc.Footprint
import MemAlloc.GlobalStatsWindow
import MemAlloc.PoolBars
import MemAlloc.ThreadIds
import MemAlloc.Lib.ObjectStore
import MemAlloc.OutRegions
import MemAlloc.NewObjects
import MemAlloc.NewCalls
import MemAlloc.NewCallOutcomes
import MemAlloc.SettledCalls
