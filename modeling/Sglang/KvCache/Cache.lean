import Sglang.Lib.Tensor

/-!
# The causal self-attention K/V cache

The model of `CausalSelfAttentionKVCache` (`layers/kvcache/causal_attention_cache.py`).
-/

namespace Sglang
structure CausalAttentionKVView (α : Type) where
  kv : Tensor α
  localStartIndex : Int
  localEndIndex : Int
  visibleLocalEnd : Int
  visibleGlobalEnd : Int

/-- `CausalSelfAttentionKVCache`. The `*Int` fields are the host mirrors of the two cursor
tensors. -/
structure CausalSelfAttentionKVCache (α : Type) where
  kv : Tensor α
  globalEndIndex : Int
  localEndIndex : Int
  globalEndIndexInt : Option Int
  localEndIndexInt : Option Int
  sinkTokens : Nat
  attentionWindowSize : Int
  allowGrowth : Bool
  globalSinkTokens : Nat
  pinnedStart : Int
  pinnedLen : Int

/-- The arguments of one `update_and_get_attention_kv` call. -/
structure UpdateCall (α : Type) where
  kv : Tensor α
  currentChunkStart : Int
  cacheHeadStart : Option Nat
  recentWindowTokens : Option Int
  debugName : String

inductive CacheError where
  | missingHeadStart (debugName : String) (cacheHeads inputHeads : Nat)
  | invalidWriteRange (debugName : String)
      (localStart localEnd globalEnd prevLocalEnd cacheSize newTokens start stop : Int)
  | negativeRecentWindow
deriving DecidableEq

def CacheError.message : CacheError → String
  | .missingHeadStart name cacheHeads inputHeads =>
    s!"{name} requires cache_head_start when cache heads " ++
      s!"({cacheHeads}) differ from input heads ({inputHeads})."
  | .invalidWriteRange name localStart localEnd globalEnd prevLocalEnd cacheSize newTokens start
      stop =>
    s!"Invalid {name} write range: local=[{localStart}, {localEnd}), global_end={globalEnd}, " ++
      s!"prev_local_end={prevLocalEnd}, kv_cache_size={cacheSize}, " ++
      s!"num_new_tokens={newTokens}, current_start={start}, current_end={stop}"
  | .negativeRecentWindow => "recent_window_tokens must be non-negative or None"

/-- Where a call writes its chunk, and the cursors it leaves. -/
structure Placement where
  localStart : Int
  localEnd : Int
  updatedLocalEnd : Int
  updatedGlobalEnd : Int

namespace UpdateCall
variable {α : Type}

def numNewTokens (a : UpdateCall α) : Int := a.kv.tokens

def currentChunkEnd (a : UpdateCall α) : Int := a.currentChunkStart + a.numNewTokens
end UpdateCall

namespace CausalSelfAttentionKVCache
variable {α : Type}

section
variable (c : CausalSelfAttentionKVCache α) (hs : HeadSlice)

def cacheSize : Int := c.kv.tokens

def create (kv : Tensor α) (useIntIndices : Bool) (sinkTokens : Nat) (attentionWindowSize : Int)
    (allowGrowth : Bool) (globalSinkTokens : Nat) : CausalSelfAttentionKVCache α where
  kv
  globalEndIndex := 0
  localEndIndex := 0
  globalEndIndexInt := if useIntIndices then some 0 else none
  localEndIndexInt := if useIntIndices then some 0 else none
  sinkTokens
  attentionWindowSize := if attentionWindowSize = 0 then kv.tokens else attentionWindowSize
  allowGrowth
  globalSinkTokens
  pinnedStart := -1
  pinnedLen := 0

def hasPinnedSink : Bool := 0 ≤ c.pinnedStart ∧ 0 < c.pinnedLen

def effectiveSinkTokens : Int :=
  if c.hasPinnedSink then
    if c.pinnedStart = c.globalSinkTokens then c.globalSinkTokens + c.pinnedLen
    else c.globalSinkTokens
  else max c.globalSinkTokens c.sinkTokens

/-- `_read_indices`: the cursors, copied to the host mirrors when one is missing. -/
def readIndices : (Int × Int) × CausalSelfAttentionKVCache α :=
  match c.globalEndIndexInt, c.localEndIndexInt with
  | some g, some l => ((g, l), c)
  | _, _ => ((c.globalEndIndex, c.localEndIndex),
      { c with globalEndIndexInt := some c.globalEndIndex,
               localEndIndexInt := some c.localEndIndex })

def writeIndices (g l : Int) : CausalSelfAttentionKVCache α :=
  if c.globalEndIndexInt = some g ∧ c.localEndIndexInt = some l then c
  else
    { c with globalEndIndexInt := c.globalEndIndexInt.map fun _ => g,
             localEndIndexInt := c.localEndIndexInt.map fun _ => l,
             globalEndIndex := g, localEndIndex := l }

def growToFit [Zero α] (c : CausalSelfAttentionKVCache α) (requiredTokens : Int) :
    CausalSelfAttentionKVCache α :=
  if requiredTokens ≤ c.cacheSize then c
  else
    let newCacheSize := max requiredTokens (c.cacheSize * 2)
    { c with kv := c.kv.grow newCacheSize.toNat 0,
             attentionWindowSize :=
               if c.attentionWindowSize = c.cacheSize then newCacheSize
               else c.attentionWindowSize }

def cacheHeadSlice (a : UpdateCall α) : Except CacheError HeadSlice :=
  if c.kv.heads = a.kv.heads then .ok none
  else match a.cacheHeadStart with
    | none => .error (.missingHeadStart a.debugName c.kv.heads a.kv.heads)
    | some start => .ok (some (start, a.kv.heads))

/-- The rows past the sink and the evicted ones move down, with a pinned sink past the sink. -/
def evict (sinkTokens localEndPrev numEvicted : Int) : CausalSelfAttentionKVCache α :=
  let numRolled := max 0 (localEndPrev - numEvicted - sinkTokens)
  { c with
    kv := if 0 < numRolled
      then c.kv.moveRows hs sinkTokens.toNat (sinkTokens + numEvicted).toNat numRolled.toNat
      else c.kv,
    pinnedStart := if c.hasPinnedSink ∧ sinkTokens ≤ c.pinnedStart
      then c.pinnedStart - numEvicted else c.pinnedStart }

def place [Zero α] (c : CausalSelfAttentionKVCache α) (hs : HeadSlice) (a : UpdateCall α)
    (globalEnd localEndPrev : Int) : Placement × CausalSelfAttentionKVCache α :=
  let windowStart := globalEnd - localEndPrev
  if a.currentChunkEnd ≤ globalEnd then
    ({ localStart := a.currentChunkStart - windowStart
       localEnd := a.currentChunkStart - windowStart + a.numNewTokens
       updatedLocalEnd := localEndPrev
       updatedGlobalEnd := globalEnd }, c)
  else
    let appended := a.currentChunkEnd - globalEnd
    let sinkTokens := c.effectiveSinkTokens
    let c := if c.allowGrowth then c.growToFit (localEndPrev + appended) else c
    if c.cacheSize < localEndPrev + appended then
      ({ localStart := c.cacheSize - a.numNewTokens
         localEnd := c.cacheSize
         updatedLocalEnd := c.cacheSize
         updatedGlobalEnd := a.currentChunkEnd },
        c.evict hs sinkTokens localEndPrev (localEndPrev + appended - c.cacheSize))
    else
      ({ localStart := localEndPrev + appended - a.numNewTokens
         localEnd := localEndPrev + appended
         updatedLocalEnd := localEndPrev + appended
         updatedGlobalEnd := a.currentChunkEnd }, c)

def pinnedSlices (attnStart updatedLocalEnd : Int) : List (Int × Int) :=
  let sink := c.effectiveSinkTokens
  let prependSink := 0 < sink ∧ 0 < attnStart
  let prependPinned := c.hasPinnedSink ∧ sink ≤ c.pinnedStart ∧ c.pinnedStart < attnStart
  let pinned := (c.pinnedStart, c.pinnedStart + c.pinnedLen)
  if prependSink ∧ prependPinned then
    let window := max 0 (c.attentionWindowSize - (sink + c.pinnedLen))
    [(0, sink), pinned, (max sink (updatedLocalEnd - window), updatedLocalEnd)]
  else if prependSink then
    let window := max 0 (c.attentionWindowSize - sink)
    [(0, sink), (max sink (updatedLocalEnd - window), updatedLocalEnd)]
  else if prependPinned then
    let window := max 0 (c.attentionWindowSize - c.pinnedLen)
    [pinned, (max 0 (updatedLocalEnd - window), updatedLocalEnd)]
  else [(attnStart, updatedLocalEnd)]

def visibleSlices (localStart updatedLocalEnd attnStart : Int)
    (recentWindowTokens : Option Int) : Except CacheError (List (Int × Int)) :=
  match recentWindowTokens with
  | none =>
    .ok (if 0 < c.globalSinkTokens ∨ c.hasPinnedSink then c.pinnedSlices attnStart updatedLocalEnd
      else [(attnStart, updatedLocalEnd)])
  | some r =>
    if r < 0 then .error .negativeRecentWindow
    else
      let sinkEnd := min c.effectiveSinkTokens updatedLocalEnd
      let recentStart := max sinkEnd (localStart - r)
      if recentStart ≤ sinkEnd then .ok [(0, updatedLocalEnd)]
      else
        .ok ((if 0 < sinkEnd then [(0, sinkEnd)] else []) ++
          (if c.hasPinnedSink ∧ sinkEnd ≤ c.pinnedStart ∧ c.pinnedStart < recentStart
            then [(c.pinnedStart, c.pinnedStart + c.pinnedLen)] else []) ++
          [(recentStart, updatedLocalEnd)])

def catCacheSlices (slices : List (Int × Int)) : Tensor α :=
  c.kv.catSlices hs (slices.map fun s => (s.1.toNat, s.2.toNat))
end

def updateAndGetAttentionKv [Zero α] (c : CausalSelfAttentionKVCache α) (a : UpdateCall α) :
    Except CacheError (CausalAttentionKVView α) × CausalSelfAttentionKVCache α :=
  match c.cacheHeadSlice a with
  | .error e => (.error e, c)
  | .ok hs =>
    let ((globalEnd, localEndPrev), c) := c.readIndices
    let (p, c) := c.place hs a globalEnd localEndPrev
    if p.localStart < 0 ∨ c.cacheSize < p.localEnd ∨ p.localEnd - p.localStart ≠ a.numNewTokens then
      (.error (.invalidWriteRange a.debugName p.localStart p.localEnd globalEnd localEndPrev
        c.cacheSize a.numNewTokens a.currentChunkStart a.currentChunkEnd), c)
    else
      let attnStart := max 0 (p.updatedLocalEnd - c.attentionWindowSize)
      let c := { c with kv := c.kv.assign hs p.localStart.toNat a.kv }
      match c.visibleSlices p.localStart p.updatedLocalEnd attnStart a.recentWindowTokens with
      | .error e => (.error e, c)
      | .ok slices =>
        (.ok { kv := c.catCacheSlices hs slices
               localStartIndex := p.localStart
               localEndIndex := p.localEnd
               visibleLocalEnd := p.updatedLocalEnd
               visibleGlobalEnd := p.updatedGlobalEnd },
          c.writeIndices p.updatedGlobalEnd p.updatedLocalEnd)
end CausalSelfAttentionKVCache
end Sglang
