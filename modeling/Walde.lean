import Walde.BaselineThreads
import Walde.BatchConsistency
import Walde.CapacityBound
import Walde.ConcurrentStripes
import Walde.CsvHeader
import Walde.Delivery
import Walde.Exclusivity
import Walde.FreeList
import Walde.HitRates
import Walde.L2History
import Walde.ListSystem
import Walde.LruReplay
import Walde.QueueSizing
import Walde.ReadBack
import Walde.RefillCounts
import Walde.Removal
import Walde.ScanBursts
import Walde.StaleReads
import Walde.StripeRefinement
import Walde.StripedLruCache
import Walde.TraceReplay
import Walde.WTinyLfuLockstep
import Walde.WTinyLfuReads
import Walde.WTinyLfuReplay
