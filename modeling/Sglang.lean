import Sglang.Rolling.Schedule
import Sglang.Rolling.CacheRun
import Sglang.Sparse.Calibration
import Sglang.Sparse.Kernels
import Sglang.Sparse.FastArReads
import Sglang.Sparse.FastArVideos
import Sglang.Sparse.MsaVideos
import Sglang.Sparse.HistoryMemos
import Sglang.Sparse.Sta
import Sglang.Mem.PrefixMap
import Sglang.Sched.Retraction
import Sglang.Sched.Admission
import Sglang.Sched.NoRequestLost
import Sglang.Spec.GreedyLossless
import Sglang.Eplb.Relocation
import Sglang.Lora.InUse
import Sglang.Session.NotWedged
import Sglang.Spec.SampleLaw
import Sglang.Sched.PrefillDelayer
import Sglang.Unified.PageConservation
import Sglang.Parallel.ZigzagLossless
import Sglang.Ngram.SamCorrect
import Sglang.Ngram.IncrementalMatch
import Sglang.Gateway.CircuitBreaker
import Sglang.Gateway.TokenBucket
import Sglang.Gateway.TreeLocks
import Sglang.Router.ProbeSlot
import Sglang.Sparse.FlopsMatched
import Sglang.Sparse.OsaValid
import Sglang.Gateway.Bucket
import Sglang.Gateway.WorkerRegistry
import Sglang.Sched.IgnoreEos
import Sglang.Sched.StopStrings
import Sglang.Lora.Drainer
