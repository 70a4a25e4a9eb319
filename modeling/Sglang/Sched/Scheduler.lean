import Sglang.Sched.PrefillAdder

/-!
# The next prefill batch

`_get_new_batch_prefill_raw` goes through the waiting queue, admits requests to a new batch and,
where the batch is full and priorities allow it, preempts running requests for the sake of a waiting
one.
-/

namespace Sglang
structure RunningBatch where
  reqs : List Nat := []
  batchIsFull : Bool := false
  deriving DecidableEq

structure Scheduler where
  pool : KvPool
  waitingQueue : List Nat := []
  chunkedReq : Option Nat := none
  enablePriorityPreemption : Bool := false
  scheduleLowPriorityValuesFirst : Bool := false
  prioritySchedulingPreemptionThreshold : Int := 0
  enableHierarchicalCache : Bool := false
  isMixedChunk : Bool := false
  ppMaxMicroBatchSize : Nat
  /-- the number of rows of `req_to_token_pool` -/
  reqToTokenPoolSize : Nat
  newTokenRatio : ℚ := 1
  maxPrefillTokens : Nat
  chunkedPrefillSize : Option Nat := none
  prefillMaxRequests : Option Nat := none
  truncationAlignSize : Option Nat := none
  dsaPrefillCpInSeqSplit : Bool := false
  clipMaxNewTokens : Nat := 4096

structure PassInput where
  /-- `get_ready_grammar_requests` -/
  readyGrammarRequests : List Nat := []
  /-- `min_free_slots_delayer.should_delay` -/
  delayForFreeSlots : Bool := false
  /-- `calc_priority` -/
  calcPriority : List Nat → List Nat := id
  /-- `TEST_RETRACT`, with too large a running batch -/
  testRetractNoPrefill : Bool := false
  /-- `predict_next_chunk_size`, with dynamic chunking -/
  dynamicChunkSize : Option Nat := none
  allowPrefill : Bool := true
  canScheduleLora : Nat → Bool := fun _ => true
  prefetchDone : Nat → Bool := fun _ => true
  /-- `_compute_max_prefix_len` of a request -/
  maxPrefixLen : Nat → Nat
  /-- whether log-probabilities or input embeddings keep the batches from being mixed -/
  mixable : Bool := true
  /-- the orders in which free pages are handed out, one for each place that asks for some -/
  pick : Nat → Nat → Nat → Nat := fun _ _ => id

namespace Scheduler
variable (sch : Scheduler) (inp : PassInput) (pool : KvPool) (running : RunningBatch)
  (ad : PrefillAdder) (full : Bool)

/-- `get_num_allocatable_reqs`; a request holds a row of the pool while it has KV. -/
def getNumAllocatableReqs (runningBs : Nat) : Int :=
  min ((sch.ppMaxMicroBatchSize : Int) - runningBs)
    ((sch.reqToTokenPoolSize : Int) - pool.reqs.countP fun r => r.row.isSome)

/-- `init_next_round_input`. -/
def matchReq (rid : Nat) : Except PoolError (MatchResult × KvPool) :=
  match pool.req? rid with
  | none => .error .noRequest
  | some r => do
    let key : RadixKey :=
      { tokenIds := r.tokens, extraKey := r.extraKey, limit := some (inp.maxPrefixLen rid) }
    let (m, cache) ← KvPool.liftCache (pool.cache.matchPrefix key)
    return (m, { pool with cache := cache }.setReq (r.matched m))

/-- If the batch is full, only after a preemption. -/
def makeRoom (pick : Nat → Nat → Nat) (full : Bool) (rid : Nat) (ad : PrefillAdder) :
    Except PoolError (Bool × PrefillAdder) :=
  if full then
    if sch.enablePriorityPreemption then
      ad.preemptToSchedule pick sch.scheduleLowPriorityValuesFirst rid
    else .ok (false, ad)
  else .ok (true, ad)

def admitLoop (sch : Scheduler) (inp : PassInput) :
    List Nat → PrefillAdder → Bool → Except PoolError (PrefillAdder × Bool)
  | [], ad, full => .ok (ad, full)
  | rid :: rest, ad, full =>
    if inp.canScheduleLora rid = false then admitLoop sch inp rest ad full
    else do
      let full := full ||
        decide ((ad.canRunList.length : Int) ≥ sch.getNumAllocatableReqs ad.pool ad.running.length)
      let (goOn, ad) ← sch.makeRoom (inp.pick (rest.length + 1)) full rid ad
      if goOn = false then .ok (ad, full)
      else if inp.prefetchDone rid = false then admitLoop sch inp rest ad full
      else
        let (m, pool) ← matchReq inp ad.pool rid
        let (res, ad) ← { ad with pool := pool }.addOneReq rid m sch.truncationAlignSize
        match res with
        | .continues => admitLoop sch inp rest ad full
        | .noToken =>
          if sch.enableHierarchicalCache then
            .ok (ad, decide (ad.canRunList.length > 0) || !ad.running.isEmpty)
          else .ok (ad, true)
        | .other => .ok (ad, full)

def newAdder (running : List Nat) : PrefillAdder :=
  let chunkedPrefillSize :=
    if sch.chunkedReq.isSome then inp.dynamicChunkSize.orElse fun _ => sch.chunkedPrefillSize
    else sch.chunkedPrefillSize
  PrefillAdder.init {
    pool := sch.pool
    running := running
    newTokenRatio := sch.newTokenRatio
    remInputTokens := sch.maxPrefillTokens
    remChunkTokens := chunkedPrefillSize.map Int.ofNat
    prioritySchedulingPreemptionThreshold := sch.prioritySchedulingPreemptionThreshold
    prefillMaxRequests := sch.prefillMaxRequests
    dsaPrefillCpInSeqSplit := sch.dsaPrefillCpInSeqSplit
    allowPrefill := inp.allowPrefill
    clipMaxNewTokens := sch.clipMaxNewTokens } (if sch.isMixedChunk then running.length else 0)

/-- `_refresh_fill_ids` and the range of one token. -/
def refreshFillIds (rid : Nat) : KvPool :=
  (pool.req? rid).elim pool fun r => pool.setReq
    { r with fullUntruncatedFillIds := r.tokens, extendEnd := r.tokens.length }

/-- With mixed chunks, unfinished requests join the batch. -/
def mixWithRunning : Except PoolError (Option (List Nat) × RunningBatch × Scheduler) :=
  if sch.isMixedChunk ∧ ad.running ≠ [] ∧ inp.mixable then
    let kept := ad.running.filter fun rid => (sch.pool.req? rid).all fun r => !r.finished
    if kept = [] then .ok (some ad.canRunList, { batchIsFull := full }, sch)
    else do
      let pool ← sch.pool.allocForDecode (inp.pick 0 1) kept
      return (some (ad.canRunList ++ kept), { batchIsFull := full },
        { sch with pool := kept.foldl refreshFillIds pool })
  else .ok (some ad.canRunList, { reqs := ad.running, batchIsFull := full }, sch)

/-- The end of a pass that has admitted something. -/
def makeBatch : Except PoolError (Option (List Nat) × RunningBatch × Scheduler) :=
  if ad.newChunkedReq.isSome ∧ sch.chunkedReq.isSome then .error .assertion
  else do
    let batch := ad.canRunList.map fun rid =>
      (rid, ((ad.pool.req? rid).map Req.extendEnd).getD 0)
    let pool ← ad.pool.allocForExtend (inp.pick 0 0) batch
    mixWithRunning { sch with
      pool := pool
      waitingQueue := (sch.waitingQueue.filter fun rid => rid ∉ ad.canRunList) ++ ad.preemptList
      chunkedReq := if ad.newChunkedReq.isSome then ad.newChunkedReq else sch.chunkedReq } inp ad full

def startChunked : Except PoolError (Option Nat × PrefillAdder) :=
  match sch.chunkedReq with
  | some rid => ad.addChunkedReq rid
  | none => .ok (none, ad)

def prefillPass : Except PoolError (Option (List Nat) × RunningBatch × Scheduler) := do
  let (chunkedReq, ad) ← sch.startChunked (sch.newAdder inp running.reqs)
  let sch := { sch with chunkedReq := chunkedReq }
  let (ad, full) ← sch.admitLoop inp sch.waitingQueue ad running.batchIsFull
  if ad.canRunList = [] then
    .ok (none, { reqs := ad.running, batchIsFull := full }, { sch with pool := ad.pool })
  else sch.makeBatch inp ad full

def getNewBatchPrefillRaw : Except PoolError (Option (List Nat) × RunningBatch × Scheduler) :=
  let sch := { sch with waitingQueue := sch.waitingQueue ++ inp.readyGrammarRequests }
  -- with preemption the batch is tried even if it is full
  let running := { running with batchIsFull := running.batchIsFull && !sch.enablePriorityPreemption }
  if (running.batchIsFull ∨ sch.waitingQueue = []) ∧ sch.chunkedReq = none then
    .ok (none, running, sch)
  else if inp.delayForFreeSlots ∧ sch.chunkedReq = none then .ok (none, running, sch)
  else if sch.getNumAllocatableReqs sch.pool running.reqs.length ≤ 0 ∧ sch.chunkedReq = none ∧
      sch.enablePriorityPreemption = false then
    .ok (none, { running with batchIsFull := true }, sch)
  else
    let sch := { sch with waitingQueue := inp.calcPriority sch.waitingQueue }
    if inp.testRetractNoPrefill then .ok (none, running, sch)
    else sch.prefillPass inp running
end Scheduler
end Sglang
