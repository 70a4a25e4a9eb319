import Sglang.Sched.Decode

/-!
# Admission of requests to a prefill batch

`PrefillAdder` admits requests one after the other, against budgets.
-/

namespace Sglang
inductive AddReqResult
  | continues
  /-- no token left -/
  | noToken
  /-- other reasons to stop adding requests -/
  | other
  deriving DecidableEq

structure PrefillAdder where
  pool : KvPool
  /-- the requests of `running_batch` -/
  running : List Nat
  newTokenRatio : ℚ
  remInputTokens : Int
  remChunkTokens : Option Int
  remTotalTokenOffset : ℚ := 0
  curRemTokenOffset : Int := 0
  /-- what each request has left to generate and occupies, in ascending order -/
  reqStates : Option (List (ℚ × Nat)) := none
  canRunList : List Nat := []
  preemptList : List Nat := []
  newChunkedReq : Option Nat := none
  prioritySchedulingPreemptionThreshold : Int := 0
  prefillMaxRequests : Option Nat := none
  dsaPrefillCpInSeqSplit : Bool := false
  /-- the answer of the prefill delayer, if there is one; it is the same for a whole pass -/
  allowPrefill : Bool := true
  /-- `CLIP_MAX_NEW_TOKENS` -/
  clipMaxNewTokens : Nat := 4096

def ignoreEosReserveTokens : Nat := 1

namespace PrefillAdder
def pageSize (ad : PrefillAdder) : Nat := ad.pool.alloc.pageSize

variable (prioritySign : Int) (ad : PrefillAdder) (rid : Nat) (r : Req) (m : MatchResult)
  (q : NodePath) (truncationAlignSize : Option Nat) (totalTokens : Int)

def runningRequestTotalTokenOffset : ℚ :=
  (min ((r.maxNewTokens : Int) - r.outputIds.length) ad.clipMaxNewTokens : Int) * ad.newTokenRatio

def runningReqs : List Req := ad.running.filterMap ad.pool.req?

/-- `__init__`: mixed chunks and the running requests reduce what is left. -/
def init (numMixedDecodeTokens : Nat) : PrefillAdder :=
  { ad with
    remInputTokens := ad.remInputTokens - numMixedDecodeTokens
    remChunkTokens := ad.remChunkTokens.map (· - numMixedDecodeTokens)
    remTotalTokenOffset := numMixedDecodeTokens +
      (ad.runningReqs.map ad.runningRequestTotalTokenOffset).sum
    curRemTokenOffset := numMixedDecodeTokens
    reqStates := none
    canRunList := []
    preemptList := []
    newChunkedReq := none }

def availableAndEvictable : Int :=
  ad.pool.alloc.availableSize + ad.pool.cache.evictableSize

def remTotalTokens : ℚ := ad.availableAndEvictable - ad.remTotalTokenOffset

def curRemTokens : Int := ad.availableAndEvictable - ad.curRemTokenOffset

def ceilPagedTokens (tokens : Int) : Int := -(-tokens / ad.pageSize) * ad.pageSize

def budgetState : AddReqResult :=
  if ad.remTotalTokens ≤ 0 ∨ ad.curRemTokens ≤ 0 then .noToken
  else if ad.remInputTokens ≤ 0 then .other
  else if ad.remChunkTokens.any (· ≤ 0) then .other
  else .continues

def updatePrefillBudget (extendInputLen maxNewTokens : Int) : PrefillAdder :=
  let extendInputLen := ad.ceilPagedTokens extendInputLen
  let pageOverhead : Int := ad.pageSize
  { ad with
    remTotalTokenOffset := ad.remTotalTokenOffset + (extendInputLen + maxNewTokens + pageOverhead : Int)
    curRemTokenOffset := ad.curRemTokenOffset + (extendInputLen + pageOverhead)
    remInputTokens := ad.remInputTokens - extendInputLen
    remChunkTokens := ad.remChunkTokens.map (· - extendInputLen) }

def schedule (extendLen : Int) : PrefillAdder :=
  { ad with
    pool := ad.pool.setReq { r with extendEnd := (r.prefixIndices.length + extendLen).toNat }
    canRunList := ad.canRunList ++ [r.rid] }

def truncate (x : ℚ) : Int := if 0 ≤ x then ⌊x⌋ else ⌈x⌉

def addChunkedReq : Except PoolError (Option Nat × PrefillAdder) :=
  match ad.pool.req? rid, ad.remChunkTokens with
  | some r, some remChunkTokens =>
    let remTokens := min remChunkTokens (truncate ad.remTotalTokens)
    -- the chunked request must be added; otherwise, it will cause a memory leak
    let remTokens := if remTokens ≤ 0 then remChunkTokens else remTokens
    let candExtendInputLen : Int := r.tokens.length - r.prefixIndices.length
    let truncated := decide (candExtendInputLen > remTokens)
    let newLen := min candExtendInputLen remTokens
    let maxNewTokens := if truncated then 0 else min r.maxNewTokens ad.clipMaxNewTokens
    .ok (if truncated then some rid else none,
      (ad.schedule r newLen).updatePrefillBudget newLen maxNewTokens)
  | _, _ => .error .noRequest

/-! ## Requests that ignore the end of sequence -/

def reqState : Option (ℚ × Nat) :=
  let newTokenRatio : ℚ := if r.ignoreEos then 1 else ad.newTokenRatio
  let tokensLeft : ℚ := r.maxNewTokens * newTokenRatio - r.outputIds.length
  let tokensOccupied := r.originInputIds.length + r.outputIds.length
  if tokensLeft ≤ 0 then none else some (tokensLeft, tokensOccupied)

/-- The loop of the insertion ends at the last entry if no entry is as large. -/
def insertState (states : List (ℚ × Nat)) (state : ℚ × Nat) : List (ℚ × Nat) :=
  let i := (states.findIdx? fun x => state.1 ≤ x.1).getD (states.length - 1)
  states.insertIdx i state

def statesWith : List (ℚ × Nat) :=
  match ad.reqStates with
  | none =>
    let canRun := ad.canRunList.filterMap ad.pool.req?
    (((r :: ad.runningReqs) ++ canRun).filterMap ad.reqState).insertionSort fun x y => x.1 ≤ y.1
  | some states => ((ad.reqState r).map (insertState states)).getD states

/-- The requests finish one by one, the shortest first, and leave their tokens. -/
def fitsToTheEnd (curRemTokens : Int) : Nat → List (ℚ × Nat) → Bool
  | _, [] => true
  | tokensFreed, (tokensLeft, tokensOccupied) :: states =>
    let bs := states.length + 1
    let minFreeTokens : ℚ := curRemTokens + tokensFreed - tokensLeft * bs
    if minFreeTokens ≤ ignoreEosReserveTokens * bs then false
    else fitsToTheEnd curRemTokens (tokensFreed + tokensOccupied) states

def addOneReqIgnoreEos : Except PoolError (AddReqResult × PrefillAdder) :=
  let candExtendInputLen : Int := r.tokens.length - r.prefixIndices.length
  let pagedInput := ad.ceilPagedTokens candExtendInputLen
  if (pagedInput : ℚ) > min (ad.curRemTokens : ℚ) ad.remTotalTokens then .ok (.noToken, ad)
  else
    let states := ad.statesWith r
    let ad := { ad with reqStates := some states }
    if fitsToTheEnd (ad.curRemTokens - pagedInput) 0 states = false then .ok (.noToken, ad)
    else if ad.allowPrefill = false then .ok (.other, ad)
    else
      let whole := match ad.remChunkTokens with
        | none => true
        | some remChunkTokens => decide (candExtendInputLen ≤ remChunkTokens)
      if whole then
        let ad := (ad.schedule r candExtendInputLen).updatePrefillBudget candExtendInputLen
          (min r.maxNewTokens ad.clipMaxNewTokens)
        .ok (ad.budgetState, ad)
      else
        let truncLen := ad.remChunkTokens.getD 0
        if truncLen ≤ 0 then .ok (.other, ad)
        else if r.prefixIndices.length ≠ 0 then .error .assertion
        else
          let ad := { (ad.schedule r truncLen).updatePrefillBudget truncLen 0 with
            newChunkedReq := some r.rid }
          .ok (ad.budgetState, ad)

/-! ## The usual admission -/

def incLockRef (ad : PrefillAdder) (q : NodePath) : PrefillAdder :=
  { ad with pool := { ad.pool with cache := (ad.pool.cache.incLockRef q).2 } }

def decLockRef (ad : PrefillAdder) (q : NodePath) : PrefillAdder :=
  { ad with pool := { ad.pool with cache := (ad.pool.cache.decLockRef q).2 } }

/-- A chunk: whole pages, aligned, up to a page boundary. -/
def chunkLen (remChunkTokens : Int) (prefixLen : Nat)
    (truncationAlignSize : Option Nat) : Option Int :=
  let truncLen := remChunkTokens / ad.pageSize * ad.pageSize
  if truncLen ≤ 0 then none
  else if truncationAlignSize.any (fun (k : Nat) => truncLen < k) then none
  else
    let truncLen : Int := match truncationAlignSize with
      | none => truncLen
      | some k => k * (truncLen / k)
    let nowInputLen := (truncLen + prefixLen) / ad.pageSize * ad.pageSize
    let truncLen := nowInputLen - prefixLen
    if truncLen ≤ 0 then none else some truncLen

/-- `add_one_req` under the temporary lock, and whether the request was admitted. -/
def addLocked : AddReqResult × PrefillAdder × Bool :=
  let candExtendInputLen : Int := r.tokens.length - r.prefixIndices.length
  let inputTokens := ad.ceilPagedTokens candExtendInputLen
  -- `rem_total_tokens` may decrease after the lock acquisition
  if (totalTokens : ℚ) ≥ ad.remTotalTokens then (.noToken, ad, false)
  else
    match ad.remChunkTokens with
    | none =>
      if ad.canRunList.length ≠ 0 ∧ inputTokens ≥ ad.remInputTokens then (.other, ad, false)
      else
        (.continues, ((ad.schedule r candExtendInputLen).incLockRef q).updatePrefillBudget inputTokens
          (min r.maxNewTokens ad.clipMaxNewTokens), true)
    | some remChunkTokens =>
      if inputTokens ≤ remChunkTokens then
        (.continues, ((ad.schedule r candExtendInputLen).incLockRef q).updatePrefillBudget inputTokens
          (min r.maxNewTokens ad.clipMaxNewTokens), true)
      else
        match ad.chunkLen remChunkTokens r.prefixIndices.length truncationAlignSize with
        | none => (.other, ad, false)
        | some truncLen =>
          (.continues, { ((ad.schedule r truncLen).incLockRef q).updatePrefillBudget truncLen 0 with
            newChunkedReq := some r.rid }, true)

/-- `with self._lock_node(..)`: the temporary lock is given up in the end. -/
def addUnderLock : AddReqResult × PrefillAdder :=
  let (res, ad, added) := (ad.incLockRef q).addLocked r q truncationAlignSize totalTokens
  let ad := ad.decLockRef q
  (if added then ad.budgetState else res, ad)

def addOneReq : Except PoolError (AddReqResult × PrefillAdder) :=
  match ad.pool.req? rid with
  | none => .error .noRequest
  | some r₀ =>
    let r := r₀.matched m
    if ad.allowPrefill = false then .ok (.other, ad)
    else if ad.dsaPrefillCpInSeqSplit ∧ ad.canRunList.length ≥ 1 then .ok (.other, ad)
    else if ad.prefillMaxRequests.any (fun x => ad.canRunList.length ≥ x) then .ok (.other, ad)
    else if r.ignoreEos ∧ ad.pool.cache.disable then ad.addOneReqIgnoreEos r
    else
      let maxNew := min (r.maxNewTokens - r.outputIds.length) ad.clipMaxNewTokens
      let candExtendInputLen : Int := r.tokens.length - r.prefixIndices.length
      let totalTokens : Int := candExtendInputLen + maxNew + ad.pageSize
      let realInputTokens := ad.ceilPagedTokens candExtendInputLen
      if (totalTokens : ℚ) ≥ ad.remTotalTokens then .ok (.noToken, ad)
      else if ad.remChunkTokens = none ∧ ad.canRunList.length ≠ 0 ∧
          realInputTokens ≥ ad.remInputTokens then .ok (.other, ad)
      else
        .ok (ad.addUnderLock r m.lastNode truncationAlignSize totalTokens)

/-! ## Preemption -/

/-- The priority of a request; with priority scheduling every queued request has one. -/
def priorityOf : Int := r.priority.getD 0

def preemptionKey : Int × Int :=
  (priorityOf r * (-prioritySign), -r.waitQueueEntryTime)

def PreemptedBefore (r' : Req) : Prop :=
  (preemptionKey prioritySign r).1 < (preemptionKey prioritySign r').1 ∨
    (preemptionKey prioritySign r).1 = (preemptionKey prioritySign r').1 ∧
      (preemptionKey prioritySign r).2 ≤ (preemptionKey prioritySign r').2

instance (prioritySign : Int) : DecidableRel (PreemptedBefore prioritySign) := fun _ _ =>
  inferInstanceAs (Decidable (_ ∨ _))

/-- The running requests that go, until there is room or the priorities are too close. -/
def preemptible (ad : PrefillAdder) (prioritySign : Int) (req : Req) :
    ℚ → List Req → List Req × ℚ
  | minTokensToRemove, [] => ([], minTokensToRemove)
  | minTokensToRemove, runningReq :: rest =>
    let priorityDiff := (priorityOf req - priorityOf runningReq) * (-prioritySign)
    if priorityDiff > ad.prioritySchedulingPreemptionThreshold then
      let minTokensToRemove := minTokensToRemove - ad.runningRequestTotalTokenOffset runningReq
      if minTokensToRemove ≤ 0 then ([runningReq], minTokensToRemove)
      else
        let (more, minTokensToRemove) := preemptible ad prioritySign req minTokensToRemove rest
        (runningReq :: more, minTokensToRemove)
    else ([], minTokensToRemove)

def releasePreempted (pick : Nat → Nat → Nat) (batchSize : Nat) (preempted : List Nat) :
    Nat → PrefillAdder → List Nat → Except PoolError PrefillAdder
  | _, ad, [] => .ok ad
  | releaseCounter, ad, rid :: rest =>
    if rid ∈ preempted then
      match ad.pool.req? rid with
      | none => .error .noRequest
      | some r => do
        let releaseCounter := releaseCounter + 1
        let pool ← ad.pool.releaseReq (pick releaseCounter) rid
          ((batchSize - releaseCounter) * ad.pool.args.retractDecodeSteps)
        releasePreempted pick batchSize preempted releaseCounter { ad with
          pool := pool
          remTotalTokenOffset := ad.remTotalTokenOffset - ad.runningRequestTotalTokenOffset r } rest
    else releasePreempted pick batchSize preempted releaseCounter ad rest

def preemptToSchedule (pick : Nat → Nat → Nat) (lowPriorityValuesFirst : Bool)
    (rid : Nat) : Except PoolError (Bool × PrefillAdder) :=
  match ad.pool.req? rid with
  | none => .error .noRequest
  | some req =>
    let prioritySign : Int := if lowPriorityValuesFirst then 1 else -1
    -- a finished request may still be in the batch, with its slots already given back
    let validRunningReqs := ad.runningReqs.filter fun r => r.rid ∉ ad.preemptList ∧ !r.finished
    let sortedValidRunningReqs := validRunningReqs.insertionSort (PreemptedBefore prioritySign)
    -- nothing has been filled in yet for a request that no pass has matched
    let minTokensToRemove : ℚ := (req.fullUntruncatedFillIds.length - req.prefixIndices.length +
      min req.maxNewTokens ad.clipMaxNewTokens : Int) - ad.remTotalTokens
    let (preemptibleReqs, minTokensToRemove) :=
      ad.preemptible prioritySign req minTokensToRemove sortedValidRunningReqs
    if preemptibleReqs.length = 0 ∨ minTokensToRemove > 0 then .ok (false, ad)
    else do
      let preempted := preemptibleReqs.map Req.rid
      let ad' ← releasePreempted pick ad.running.length preempted 0 ad ad.running
      return (true, { ad' with
        running := ad'.running.filter fun rid => rid ∉ preempted
        preemptList := ad'.preemptList ++ preempted })
end PrefillAdder
end Sglang
