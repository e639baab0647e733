import Lru.Memory.Guard
import Lru.Cache.SharedSlot
import Lru.Compact.Additions
import Lru.Persist.FailedLoad
import Lru.SharedMemory.Crash
import Lru.Filter.Strategies
import Lru.Replica.DefaultKeys
import Lru.Warm.LastTick
import Lru.Tiered.SharedFetch
import Lru.Reshard.Contents
import Lru.Persist.Usable
import Lru.Mm.Promotion
import Lru.Mm.Hits
import Lru.Mm.Updates
import Lru.Mm.GhostRuns
import Lru.Compact.Budget
import Lru.TopK.Guarantee
import Lru.Reshard.Resize
import Lru.Mm.ShardedStats
import Lru.Cache.ForceEvict
import Lru.Mm.Barrier
import Lru.Mm.SketchBound
import Lru.Pool.Rebalance
import Lru.Tiered.Breaker
import Lru.Filter.TrackingWindow
import Lru.HashTable.HazptrWalk
import Lru.HashTable.Selection
import Lru.Warm.Waiters
import Lru.Epoch.Guards
import Lru.Cache.Seqlock
import Lru.Memory.CompressedRegion
