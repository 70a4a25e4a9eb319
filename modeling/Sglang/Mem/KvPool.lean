import Sglang.Mem.Ledger

/-!
# Requests and their KV slots

A request owns slots of the pool through its row of `req_to_token`.
-/

namespace Sglang
open PathTree

inductive PoolError
  | cache (e : RadixError)
  /-- `Out of memory`, with the number of tokens asked for -/
  | outOfMemory (numTokens : Nat)
  /-- `Unexpected overallocated KV cache` -/
  | overallocated (committed allocated : Nat)
  /-- an operation on a request that does not hold what it needs -/
  | noRequest
  /-- a failed assertion of the scheduler -/
  | assertion
  deriving DecidableEq

structure Req where
  rid : Nat
  originInputIds : List Nat
  outputIds : List Nat := []
  extraKey : Option String := none
  reasoningTokens : Nat := 0
  priority : Option Int := none
  /-- `sampling_params.max_new_tokens` -/
  maxNewTokens : Nat := 0
  ignoreEos : Bool := false
  finished : Bool := false
  waitQueueEntryTime : Int := 0
  prefixIndices : List Nat := []
  lastNode : Option NodePath := none
  cacheProtectedLen : Nat := 0
  kvCommittedLen : Nat := 0
  /-- the row of `req_to_token` up to `kv_allocated_len`, while the request has KV -/
  row : Option (List Nat) := none
  /-- `extend_range.end` -/
  extendEnd : Nat := 0
  /-- empty until the first `init_next_round_input` -/
  fullUntruncatedFillIds : List Nat := []
  deriving DecidableEq

structure MemArgs where
  speculative : Bool := false
  /-- `SGLANG_RETRACT_DECODE_STEPS` -/
  retractDecodeSteps : Nat := 20
  stripThinkingCache : Bool := false
  deriving DecidableEq

structure KvPool where
  args : MemArgs := {}
  cache : RadixCache
  alloc : PagedAllocator
  reqs : List Req := []
  deriving DecidableEq

namespace Req
variable (r : Req)

def tokens : List Nat := r.originInputIds ++ r.outputIds

def fillIds : List Nat := r.tokens.take r.extendEnd

def kvAllocatedLen : Nat := (r.row.getD []).length

/-- `effective_kv_committed_len`: only the prompt counts if the thinking is stripped. -/
def effectiveKvCommittedLen (args : MemArgs) : Nat :=
  if args.stripThinkingCache ∧ 0 < r.reasoningTokens then
    min r.kvCommittedLen r.originInputIds.length
  else r.kvCommittedLen

/-- The request with the prefix that it has been matched with. -/
def matched (m : MatchResult) : Req :=
  { r with
    prefixIndices := m.deviceIndices
    lastNode := some m.lastNode
    cacheProtectedLen := m.deviceIndices.length
    fullUntruncatedFillIds := r.tokens }

def resetForRetract : Req :=
  { r with
    prefixIndices := []
    lastNode := none
    cacheProtectedLen := 0
    extendEnd := 0
    kvCommittedLen := 0 }

def released : Req := { r with row := none }.resetForRetract
end Req

def writeRow (row : List Nat) (start : Nat) (values : List Nat) : List Nat :=
  row.take start ++ values ++ row.drop (start + values.length)

/-- A flat list of slots cut into pieces of the given lengths. -/
def splitLens : List Nat → List Nat → List (List Nat)
  | [], _ => []
  | n :: ns, xs => xs.take n :: splitLens ns (xs.drop n)

namespace KvPool
variable (a : PagedAllocator) (s : KvPool) (r : Req) (pick : Nat → Nat) (batch : List (Nat × Nat))
  (seqLen rid numTokens : Nat)

def req? : Option Req := Keyed.get? Req.rid rid s.reqs

def setReq : KvPool :=
  { s with reqs := Keyed.update Req.rid r.rid (fun _ => r) s.reqs }

def liftCache {α : Type} (x : Except RadixError α) : Except PoolError α := x.mapError .cache

def evict (s : KvPool) (pick : Nat → Nat) (numTokens : Nat) : Except PoolError KvPool := do
  let (ns, cache) ← liftCache (s.cache.evict pick numTokens)
  return { s with cache := cache, alloc := freeNodes s.alloc ns }

def evictFromTreeCache : Except PoolError KvPool :=
  if s.alloc.availableSize < numTokens then s.evict pick numTokens else return s

/-! ## Admission -/

/-- `init_next_round_input` and the admission's lock; the key is capped below the input. -/
def matchAndLock (limit : Nat) : Except PoolError KvPool :=
  match s.req? rid with
  | none => .error .noRequest
  | some r => do
    let key : RadixKey := { tokenIds := r.tokens, extraKey := r.extraKey, limit := some limit }
    let (m, cache) ← liftCache (s.cache.matchPrefix key)
    return { s with cache := (cache.incLockRef m.lastNode).2 }.setReq (r.matched m)

/-! ## Allocation -/

variable (es : List ExtendReq)

/-- The new slots of each request, by token or by page. -/
def allocSlots : Option (List (List Nat) × PagedAllocator) :=
  if a.pageSize = 1 then do
    let (out, a) ← a.alloc (es.map ExtendReq.extendLen).sum
    return (splitLens (es.map ExtendReq.extendLen) out, a)
  else a.allocExtend es

/-- The tokens to make room for; with pages, a page more for each request. -/
def evictTarget (p numTokens bs : Nat) : Nat := if p = 1 then numTokens else numTokens + bs * p

def allocWithEvict : Except PoolError (List (List Nat) × KvPool) := do
  let numTokens := (es.map ExtendReq.extendLen).sum
  let s ← s.evictFromTreeCache pick (evictTarget s.alloc.pageSize numTokens es.length)
  match allocSlots s.alloc es with
  | none => .error (.outOfMemory numTokens)
  | some (outs, a) => return (outs, { s with alloc := a })

/-- As `alloc_for_extend` sees it. -/
def extendReq : ExtendReq :=
  { prefixLen := r.prefixIndices.length
    seqLen := seqLen
    lastLoc := (r.prefixIndices.getLast?.map Int.ofNat).getD (-1) }

/-- The row holds the prefix and the new slots, all committed. -/
def extended (out : List Nat) : Req :=
  { r with
    row := some (r.prefixIndices ++ out)
    extendEnd := seqLen
    kvCommittedLen := seqLen }

def batchReqs : Option (List (Req × Nat)) :=
  batch.mapM fun b => (s.req? b.1).map fun r => (r, b.2)

def allocForExtend : Except PoolError KvPool :=
  match s.batchReqs batch with
  | none => .error .noRequest
  | some rs => do
    let (outs, s) ← s.allocWithEvict pick (rs.map fun r => extendReq r.1 r.2)
    return (rs.zip outs).foldl (fun s ro => s.setReq (extended ro.1.1 ro.1.2 ro.2)) s

/-- As `alloc_for_decode` sees it. -/
def decodeReq : ExtendReq :=
  { prefixLen := r.kvCommittedLen
    seqLen := r.kvCommittedLen + 1
    lastLoc := ((r.row.getD [])[r.kvCommittedLen - 1]?.map Int.ofNat).getD (-1) }

def allocDecodeSlots : Option (List Nat × PagedAllocator) :=
  if a.pageSize = 1 then a.alloc es.length else a.allocDecode es

variable {es}

def decoded (out : Nat) : Req :=
  { r with
    row := some (writeRow (r.row.getD []) r.kvCommittedLen [out])
    kvCommittedLen := r.kvCommittedLen + 1 }

/-- `alloc_for_decode` and the commit of `prepare_for_decode`. -/
def allocForDecode (batch : List Nat) : Except PoolError KvPool :=
  match s.batchReqs (batch.map fun rid => (rid, 0)) with
  | none => .error .noRequest
  | some rs => do
    let s ← s.evictFromTreeCache pick (rs.length * s.alloc.pageSize)
    match allocDecodeSlots s.alloc (rs.map fun r => decodeReq r.1) with
    | none => .error (.outOfMemory rs.length)
    | some (outs, a) =>
      return (rs.zip outs).foldl (fun s ro => s.setReq (decoded ro.1.1 ro.2)) { s with alloc := a }

/-- As `alloc_for_spec_decode` sees it. -/
def specReq (reserve : Nat) : ExtendReq :=
  { prefixLen := r.kvAllocatedLen
    seqLen := max r.kvAllocatedLen (r.kvCommittedLen + reserve)
    lastLoc := ((r.row.getD []).getLast?.map Int.ofNat).getD (-1) }

def specExtended (out : List Nat) : Req :=
  { r with row := some (writeRow (r.row.getD []) r.kvAllocatedLen out) }

/-- `alloc_for_spec_decode`: up to `reserve` slots past the committed length. -/
def allocForSpecDecode (batch : List Nat) (reserve : Nat) : Except PoolError KvPool :=
  match s.batchReqs (batch.map fun rid => (rid, 0)) with
  | none => .error .noRequest
  | some rs =>
    let es := rs.map fun r => specReq r.1 reserve
    if (es.map ExtendReq.extendLen).sum > 0 then do
      let (outs, s) ← s.allocWithEvict pick es
      return (rs.zip outs).foldl (fun s ro => s.setReq (specExtended ro.1.1 ro.2)) s
    else return s

/-! ## Handing over and giving back -/

def radixKeyOf (c : RadixCache) (r : Req) (tokenIds : List Nat) : RadixKey :=
  RadixKey.pageAligned { tokenIds := tokenIds, extraKey := r.extraKey, isBigram := c.isEagle }
    c.pageSize

def cacheUnfinishedReq : Except PoolError KvPool :=
  match s.req? rid with
  | none => .error .noRequest
  | some r =>
    match r.row with
    | none => .error .noRequest
    | some row =>
      if s.cache.disable then return s
      else do
        let tokenIds := r.fillIds
        let kvIndices := row.take tokenIds.length
        let radixKey := radixKeyOf s.cache r tokenIds
        let values := kvIndices.take radixKey.len
        let (result, cache) ← liftCache (s.cache.insert radixKey (some values))
        let alloc := s.alloc.free (pySlice kvIndices r.cacheProtectedLen result.prefixLen)
        let (m, cache) ← liftCache (cache.matchPrefix radixKey)
        let newIndices := m.deviceIndices
        if newIndices.length ≠ radixKey.len then
          .error (.cache (.indicesLength newIndices.length radixKey.len))
        else
          let row := writeRow row r.cacheProtectedLen (newIndices.drop r.cacheProtectedLen)
          let cache := match r.lastNode with
            | some q => (cache.decLockRef q).2
            | none => cache
          let cache := (cache.incLockRef m.lastNode).2
          let prefixIndices :=
            if newIndices.length < kvIndices.length then
              newIndices ++ kvIndices.drop newIndices.length
            else newIndices
          return { s with cache := cache, alloc := alloc }.setReq
            { r with
              row := some row
              cacheProtectedLen := newIndices.length
              prefixIndices := prefixIndices
              lastNode := some m.lastNode }

def cacheFinishedReq (row : List Nat) (isInsert : Bool) (kvLen : Nat) : Except PoolError KvPool :=
  let isInsert := isInsert && !s.cache.disableFinishedInsert
  if s.cache.disable then return { s with alloc := s.alloc.free (row.take kvLen) }
  else do
    let tokenIds := r.tokens.take kvLen
    let kvIndices := row.take tokenIds.length
    let radixKey := radixKeyOf s.cache r tokenIds
    let keyLen := radixKey.len
    let values := kvIndices.take keyLen
    let (s, freeEnd) ←
      if isInsert then do
        let (result, cache) ← liftCache (s.cache.insert radixKey (some values))
        pure ({ s with cache := cache }, result.prefixLen)
      else pure (s, keyLen)
    -- the duplicates (or everything), then the unaligned tail
    let alloc := s.alloc.free (pySlice kvIndices r.cacheProtectedLen freeEnd)
    let alloc := alloc.free (kvIndices.drop keyLen)
    let cache := match r.lastNode with
      | some q => (s.cache.decLockRef q).2
      | none => s.cache
    return { s with cache := cache, alloc := alloc }

def releaseOverallocated (row : List Nat) (startP : Nat) : Except PoolError KvPool :=
  let endP := row.length
  if s.args.speculative = false ∧ s.args.stripThinkingCache = false ∧ startP ≠ endP then
    .error (.overallocated startP endP)
  else
    let startP := if s.alloc.pageSize > 1 then ceilAlign startP s.alloc.pageSize else startP
    if startP < endP then return { s with alloc := s.alloc.free (pySlice row startP endP) }
    else return s

def releaseKvCache (isInsert : Bool) : Except PoolError KvPool :=
  match s.req? rid with
  | none => .error .noRequest
  | some r =>
    match r.row with
    | none => .error .noRequest
    | some row => do
      let committed := r.effectiveKvCommittedLen s.args
      let s ← s.cacheFinishedReq r row isInsert committed
      let s ← s.releaseOverallocated row committed
      return s.setReq { r with row := none }

def finishReq (isInsert : Bool) : Except PoolError KvPool := do
  let s ← s.releaseKvCache rid isInsert
  return { s with reqs := Keyed.remove Req.rid rid s.reqs }

/-- A retracted request gives its slots back, room is made for the others, and it starts over. -/
def releaseReq : Except PoolError KvPool := do
  let s ← s.releaseKvCache rid false
  let s ← s.evictFromTreeCache pick numTokens
  match s.req? rid with
  | none => .error .noRequest
  | some r => return s.setReq r.resetForRetract
end KvPool
end Sglang
