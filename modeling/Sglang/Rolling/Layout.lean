import Sglang.KvCache.Segments
import Sglang.Rolling.Stage

/-!
# The Rolling Forcing cache layout

The model of `compute_rolling_cache_layout`, `visible_key_segments`, `visible_key_rope_starts` and
the cached branches of `RollingForcingWanSelfAttention.forward`
(`models/dits/rolling_forcing_wanvideo.py`).
-/

namespace Sglang
/-- The K/V of a token, with the rotations applied to the key. -/
structure KVCell where
  token : Int
  ropes : List Int
deriving DecidableEq

structure RollingConfig where
  frameSeqlen : Nat
  numFramesPerBlock : Nat
  maxAttentionTokens : Nat
  sinkTokens : Nat

section
variable (cfg : RollingConfig) (c : RollingCache) (currentStart qTokens : Int)
  (updatingCache : Bool) (localStart : Int)

def RollingConfig.blockTokens : Nat := cfg.numFramesPerBlock * cfg.frameSeqlen

/-- `RollingForcingSelfAttentionKVCache`, whose host mirrors agree with its cursors. -/
structure RollingCache where
  kv : List (Option KVCell)
  globalEndIndex : Int
  localEndIndex : Int

structure RollingCacheLayout where
  updatingCache : Bool
  numNewTokens : Int
  numEvictedTokens : Int
  numRolledTokens : Int
  localStartIndex : Int
  localEndIndex : Int
  globalEndAfter : Int
  localEndAfter : Int
  workingStart : Int
  workingEnd : Int
  anchorStartFrame : Int
  anchorRopeStart : Int

inductive LayoutError where
  | wentBackwards (cacheEnd globalEndIndex : Int)
  | negativeAnchor
deriving DecidableEq

def LayoutError.message : LayoutError → String
  | .wentBackwards cacheEnd globalEndIndex =>
    s!"rolling cache went backwards: cache_end={cacheEnd}, " ++
      s!"global_end_index={globalEndIndex}"
  | .negativeAnchor => ""

structure WorkingRange where
  workingStart : Int
  workingEnd : Int
  anchorStartFrame : Int

def workingRange (newLocalEnd : Int) : Except LayoutError WorkingRange :=
  if localStart ≤ 0 then .ok ⟨0, 0, -1⟩
  else if updatingCache then
    let workingStart := max 0 (newLocalEnd - cfg.maxAttentionTokens)
    .ok ⟨workingStart, newLocalEnd, if workingStart = 0 then 0 else -1⟩
  else
    let workingCacheMax := cfg.maxAttentionTokens - qTokens - cfg.blockTokens
    let workingStart := max (cfg.blockTokens : Int) (localStart - workingCacheMax)
    let workingFrames := (localStart - workingStart) / cfg.frameSeqlen
    let anchorStartFrame := currentStart / cfg.frameSeqlen - workingFrames - cfg.numFramesPerBlock
    if anchorStartFrame < 0 then .error .negativeAnchor
    else .ok ⟨workingStart, localStart, anchorStartFrame⟩

structure BlockPlacement where
  numNewTokens : Int
  numEvictedTokens : Int
  numRolledTokens : Int
  newLocalEnd : Int

def placeBlock (cacheEnd : Int) : Except LayoutError BlockPlacement :=
  let cacheSize : Int := c.kv.length
  let numNewTokens := cacheEnd - c.globalEndIndex
  if numNewTokens < 0 then .error (.wentBackwards cacheEnd c.globalEndIndex)
  else if 0 < numNewTokens ∧ cacheSize < numNewTokens + c.localEndIndex then
    let numEvictedTokens := numNewTokens + c.localEndIndex - cacheSize
    .ok { numNewTokens, numEvictedTokens
          numRolledTokens := c.localEndIndex - numEvictedTokens - cfg.sinkTokens
          newLocalEnd := c.localEndIndex + numNewTokens - numEvictedTokens }
  else
    .ok { numNewTokens, numEvictedTokens := 0, numRolledTokens := 0
          newLocalEnd := c.localEndIndex + numNewTokens }

def computeRollingCacheLayout : Except LayoutError RollingCacheLayout := do
  let cacheEnd := currentStart + cfg.blockTokens
  let p ← placeBlock cfg c cacheEnd
  let localStart := p.newLocalEnd - cfg.blockTokens
  let range ← workingRange cfg currentStart qTokens updatingCache localStart p.newLocalEnd
  return {
    updatingCache
    numNewTokens := p.numNewTokens
    numEvictedTokens := p.numEvictedTokens
    numRolledTokens := p.numRolledTokens
    localStartIndex := localStart
    localEndIndex := p.newLocalEnd
    globalEndAfter := if 0 < p.numNewTokens then cacheEnd else c.globalEndIndex
    localEndAfter := if 0 < p.numNewTokens then p.newLocalEnd else c.localEndIndex
    workingStart := range.workingStart
    workingEnd := range.workingEnd
    anchorStartFrame := range.anchorStartFrame
    anchorRopeStart := if 0 ≤ range.anchorStartFrame
      then range.anchorStartFrame * cfg.frameSeqlen else -1 }

def cacheRangeSegments (localEnd sinkTokens windowStart : Int) : List (Int × Int) :=
  (if localStart < sinkTokens then [(localStart, min localEnd sinkTokens - localStart)] else []) ++
  (if sinkTokens < localEnd
    then [(windowStart + max localStart sinkTokens, localEnd - max localStart sinkTokens)] else [])
end

namespace RollingCacheLayout
def visibleKeySegments (layout : RollingCacheLayout) (sinkTokens blockTokens currentStart
    numQueryTokens : Int) : List (Int × Int) :=
  if layout.localStartIndex = 0 then [(currentStart, numQueryTokens)]
  else
    let windowStart := layout.globalEndAfter - layout.localEndAfter
    let working :=
      cacheRangeSegments layout.workingStart layout.workingEnd sinkTokens windowStart
    if layout.updatingCache then working
    else [(0, blockTokens)] ++ working ++ [(currentStart, numQueryTokens)]

def visibleKeyRopeStarts (layout : RollingCacheLayout) (keySegments : List (Int × Int)) :
    Option (List Int) :=
  if layout.updatingCache ∨ layout.localStartIndex = 0 then none
  else if layout.anchorRopeStart ≤ 0 then none
  else some (layout.anchorRopeStart :: (keySegments.drop 1).map (·.1))
end RollingCacheLayout

section
variable (start : Int) (cfg : RollingConfig) (c : RollingCache) (layout : RollingCacheLayout)

/-- The first cell is rotated to position `start`. -/
def applyRotaryEmb (cells : List (Option KVCell)) : List (Option KVCell) :=
  cells.mapIdx fun j cell => cell.map fun x => { x with ropes := (start + j) :: x.ropes }

/-- The K/V before any rotation. -/
def freshCells (n : Nat) : List (Option KVCell) :=
  (List.range n).map fun j : Nat => some ⟨start + j, []⟩

def writeFirstBlock (key ropedKey : List (Option KVCell)) : RollingCache :=
  let rolled :=
    if 0 < layout.numEvictedTokens ∧ 0 < layout.numRolledTokens then
      let src := (cfg.sinkTokens + layout.numEvictedTokens).toNat
      splice c.kv cfg.sinkTokens (c.kv.extract src (src + layout.numRolledTokens.toNat))
    else c.kv
  let written := if layout.localStartIndex = 0 then key else ropedKey
  { kv := splice rolled layout.localStartIndex.toNat (written.take cfg.blockTokens)
    globalEndIndex := layout.globalEndAfter
    localEndIndex := layout.localEndAfter }

def reropeAnchor : List (Option KVCell) :=
  applyRotaryEmb (layout.anchorStartFrame * cfg.frameSeqlen) (c.kv.take cfg.blockTokens)

def attendedCells (ropedKey : List (Option KVCell)) : List (Option KVCell) :=
  if layout.localStartIndex = 0 then ropedKey
  else
    let working := c.kv.extract layout.workingStart.toNat layout.workingEnd.toNat
    if layout.updatingCache then
      if 0 ≤ layout.anchorStartFrame then splice working 0 (reropeAnchor cfg c layout) else working
    else reropeAnchor cfg c layout ++ working ++ ropedKey

structure RollingCall where
  currentStart : Nat
  qTokens : Nat
  updatingCache : Bool

structure RollingPass where
  layout : RollingCacheLayout
  cache : RollingCache
  attended : List (Option KVCell)

def rollingForward (call : RollingCall) : Except LayoutError RollingPass := do
  let layout ←
    computeRollingCacheLayout cfg c call.currentStart call.qTokens call.updatingCache
  let key := freshCells call.currentStart call.qTokens
  let ropedKey := applyRotaryEmb call.currentStart key
  let c := writeFirstBlock cfg c layout key ropedKey
  return ⟨layout, c, attendedCells cfg c layout ropedKey⟩

/-- A denoise pass on the window's tokens, then an updating pass on its first block. -/
def windowCalls (bound : Nat × Nat) : List RollingCall :=
  [⟨bound.1 * cfg.blockTokens, (bound.2 + 1 - bound.1) * cfg.blockTokens, false⟩,
   ⟨bound.1 * cfg.blockTokens, cfg.blockTokens, true⟩]

def rollingCalls (numBlocks numSteps : Nat) : List RollingCall :=
  (buildRollingWindowBounds numBlocks numSteps).flatMap (windowCalls cfg)
end

def runRollingCalls (cfg : RollingConfig) :
    List RollingCall → RollingCache → Except LayoutError (List RollingPass)
  | [], _ => .ok []
  | call :: calls, c => do
    let pass ← rollingForward cfg c call
    let passes ← runRollingCalls cfg calls pass.cache
    return pass :: passes

def emptyRollingCache (cacheSize : Nat) : RollingCache := ⟨List.replicate cacheSize none, 0, 0⟩
end Sglang
