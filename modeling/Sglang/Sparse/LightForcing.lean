import Sglang.Lib.Scores
import Sglang.Sparse.ChunkMemo
import Sglang.Sparse.SegmentPlan

/-!
# LightForcing

The sparsity of a chunk follows a schedule over the whole video, dense for chunk 0.
-/

namespace Sglang
/-- What the tensor library leaves open: how a top-k breaks ties, and `1 / sqrt n`. -/
structure SelectionNumerics where
  frames : Ranking ℚ
  blocks : Ranking (WithBot ℚ)
  invSqrt : Nat → ℚ

/-- For small runs. -/
def SelectionNumerics.small : SelectionNumerics where
  frames := .stable
  blocks := .stable
  invSqrt _ := 1

/-! ## The schedule -/

/-- The keys that a chunk of `frames` visible frames reads, in frames; -1 is no cap. -/
def cappedFrames (localAttnSize : Int) (frames : Nat) : ℚ :=
  (if localAttnSize = -1 then (frames : Int) else min (frames : Int) localAttnSize : Int)

open List (range)

def calculateChunkSparsities (invSqrt : Nat → ℚ) (numOutputFrames framesPerBlock : Nat)
    (localAttnSize : Int) (sparsity sparsityBase : ℚ) : List ℚ :=
  let counts : List Nat := (range (numOutputFrames + 1)).filter fun c =>
    decide (2 * framesPerBlock ≤ c) && c % framesPerBlock == 0
  let kvLengths := counts.map (cappedFrames localAttnSize)
  let alphas := counts.map invSqrt
  let targetFlops := (kvLengths.map ((1 - sparsity) * ·)).sum
  let baseFlops := (kvLengths.map ((1 - sparsityBase) * ·)).sum
  let weightedFlops := (List.zipWith (· * ·) alphas kvLengths).sum
  if weightedFlops = 0 then 0 :: List.replicate alphas.length sparsityBase
  else
    let beta := (targetFlops - baseFlops) / weightedFlops
    0 :: alphas.map fun alpha => sparsityBase - alpha * beta

lemma calculateChunkSparsities_zero (invSqrt : Nat → ℚ) (numOutputFrames framesPerBlock : Nat)
    (localAttnSize : Int) (sparsity sparsityBase : ℚ) :
    (calculateChunkSparsities invSqrt numOutputFrames framesPerBlock localAttnSize sparsity
      sparsityBase).getD 0 0 = 0 := by
  unfold calculateChunkSparsities
  extract_lets
  split <;> rfl

/-! ## Pooling -/

def blocksPerFrame (frameSeqlen block : Nat) : Nat := (frameSeqlen + block - 1) / block

/-- No block crosses a frame boundary. -/
def frameAlignedBlockBounds (numFrames frameSeqlen block : Nat) : List Nat × List Nat :=
  let lo := (range numFrames).flatMap fun f =>
    (range (blocksPerFrame frameSeqlen block)).map fun b =>
      f * frameSeqlen + min (b * block) frameSeqlen
  (lo, (lo.tail ++ [numFrames * frameSeqlen]).map (min · (numFrames * frameSeqlen)))

/-- `mean_pool_blocks` for one head; a short last block is divided by its true length. -/
def meanPoolBlocks (x : Nat → List ℚ) (length block group : Nat) : List (List ℚ) :=
  (range (length / group)).flatMap fun row =>
    (range (blocksPerFrame group block)).map fun b =>
      vecMean ((range (min block (group - b * block))).map fun i =>
        x (row * group + b * block + i))

def poolFrames (pooledKey : List (List ℚ)) (numFrames size : Nat) : List (List ℚ) :=
  (range numFrames).map fun f => vecMean ((pooledKey.drop (f * size)).take size)

/-! ## Selection -/

/-- The leading frames, the ones nearest the chunk, and the best between. -/
structure FrameBudget where
  keepFrames : Int
  keepSink : Int
  keepNear : Int
  deriving DecidableEq

inductive KeepError where
  | negative
  | tooMany
  deriving DecidableEq

def KeepError.message : KeepError → String
  | .negative => "keep_sink and keep_near must be non-negative."
  | .tooMany => "keep_sink + keep_near must be <= keep_frames."

section
variable (num : SelectionNumerics) (b : FrameBudget)

def FrameBudget.check : Except KeepError Unit :=
  if b.keepSink < 0 ∨ b.keepNear < 0 then .error .negative
  else if b.keepFrames < b.keepSink + b.keepNear then .error .tooMany
  else .ok ()

def selectMiddleFrames (ranking : Ranking ℚ) (b : FrameBudget) (pooledQuery : List ℚ)
    (pooledFrames : List (List ℚ)) (pastFrames : Nat) : Except KeepError (List Nat) :=
  b.check.map fun _ =>
    let middle := (pooledFrames.take (pastFrames - b.keepNear.toNat)).drop b.keepSink.toNat
    (ranking.topk (b.keepFrames - b.keepSink - b.keepNear).toNat (middle.map (dot pooledQuery))).map
      (· + b.keepSink.toNat)

def eligibleFrame (pastFrames : Nat) (keptMiddle : List Nat) (f : Nat) : Bool :=
  keptMiddle.contains f || decide ((f : Int) < b.keepSink) ||
    decide ((pastFrames : Int) - b.keepNear ≤ f)

/-- The scores of the key blocks; those of frames that are not eligible are minus infinity. -/
def blockScores (size pastFrames : Nat)
    (pooledQuery : List ℚ) (pooledKey : List (List ℚ)) : Except KeepError (List (WithBot ℚ)) :=
  let scores : List ℚ := pooledKey.map (dot pooledQuery)
  if b.keepFrames < pastFrames then
    (selectMiddleFrames num.frames b pooledQuery
        (poolFrames pooledKey (pooledKey.length / size) size) pastFrames).map fun keptMiddle =>
      scores.mapIdx fun i score =>
        if eligibleFrame b pastFrames keptMiddle (i / size) then (score : WithBot ℚ) else ⊥
  else .ok (scores.map fun score => (score : WithBot ℚ))

def blockMask (kvBlocks : Nat) (lut : List Nat) : List Bool :=
  (range kvBlocks).map fun i => lut.contains i

def lightforcingBlockMask (size pastFrames topk : Nat)
    (pooledQuery pooledKey : List (List ℚ)) : Except KeepError (List (List Bool)) :=
  pooledQuery.mapM fun q =>
    (blockScores num b size pastFrames q pooledKey).map fun scores =>
      blockMask scores.length (num.blocks.topk topk scores)
end

/-! ## The backend -/

structure LightForcingConfig where
  blockQ : Nat := 128
  blockK : Nat := 128
  sparsity : ℚ := 22 / 25
  sparsityBase : ℚ := 49 / 50
  keepFrames : Int := 6
  keepSink : Int := 1
  keepNear : Int := 2
  numOutputFrames : Nat := 21
  localAttnSize : Int := -1

namespace LightForcingConfig
def budget (c : LightForcingConfig) : FrameBudget :=
  { keepFrames := c.keepFrames, keepSink := c.keepSink, keepNear := c.keepNear }

inductive Error where
  | blockQ (n : Nat)
  | keep (e : KeepError)
  deriving DecidableEq

def Error.message : Error → String
  | .blockQ n => s!"block_q must be a power of two >= 16, got {n}"
  | .keep e => e.message
end LightForcingConfig

structure LightForcing where
  config : LightForcingConfig
  blockQ_ok : ¬ (config.blockQ < 16 ∨ config.blockQ &&& (config.blockQ - 1) ≠ 0)
  budget_ok : config.budget.check = .ok ()

/-- The tensors of a call by batch element, token and head. -/
structure BatchTensors where
  batch : Nat
  query : Nat → Nat → Nat → List ℚ
  key : Nat → Nat → Nat → List ℚ

namespace BatchTensors
def meanQuery (t : BatchTensors) (i head : Nat) : List ℚ :=
  vecMean ((range t.batch).map fun b => t.query b i head)

def meanKey (t : BatchTensors) (i head : Nat) : List ℚ :=
  vecMean ((range t.batch).map fun b => t.key b i head)
end BatchTensors

def truncate (x : ℚ) : Int := if 0 ≤ x then ⌊x⌋ else ⌈x⌉

abbrev PoolSignature := Option KeySegments × Nat × Nat

abbrev PooledKeys := List (List (List ℚ))

def VisibleLayout.historyTokens (layout : VisibleLayout) : Nat :=
  (layout.numFrames - layout.queryFrames) * layout.frameSeqlen

def poolHistory (blockK : Nat) (call : SparseAttentionCall BatchTensors) (layout : VisibleLayout) :
    PooledKeys :=
  (range call.heads).map fun head =>
    meanPoolBlocks (call.tensors.meanKey · head) layout.historyTokens blockK layout.frameSeqlen

/-- The history, then the chunk's own keys. -/
def pooledKeyOf (blockK : Nat) (call : SparseAttentionCall BatchTensors) (layout : VisibleLayout)
    (pooledHistory : PooledKeys) (head : Nat) : List (List ℚ) :=
  pooledHistory.getD head [] ++
    meanPoolBlocks (fun i => call.tensors.meanKey (layout.historyTokens + i) head)
      (call.kvLen - layout.historyTokens) blockK layout.frameSeqlen

def pooledQueryOf (blockQ : Nat) (call : SparseAttentionCall BatchTensors) (head : Nat) :
    List (List ℚ) :=
  meanPoolBlocks (call.tensors.meanQuery · head) call.queryTokens blockQ call.queryTokens

def SameHistoryKeys (call call' : SparseAttentionCall BatchTensors) : Prop :=
  ∀ b head, ∀ i < call.kvLen - call.queryTokens, call'.tensors.key b i head = call.tensors.key b i head

namespace LightForcing
variable (lf : LightForcing) (num : SelectionNumerics) {L : VisibleLayout}

def init (c : LightForcingConfig) : Except LightForcingConfig.Error LightForcing :=
  if hq : c.blockQ < 16 ∨ c.blockQ &&& (c.blockQ - 1) ≠ 0 then .error (.blockQ c.blockQ)
  else
    match hb : c.budget.check with
    | .error e => .error (.keep e)
    | .ok () => .ok ⟨c, hq, hb⟩

section
variable (call : SparseAttentionCall BatchTensors) (layout : VisibleLayout)

/-- `_chunk_sparsity`. The source keeps the schedules by `frames_per_block`, all that they take from
a call. -/
def chunkSparsity : ℚ :=
  let schedule := calculateChunkSparsities num.invSqrt lf.config.numOutputFrames
    layout.framesPerBlock lf.config.localAttnSize lf.config.sparsity lf.config.sparsityBase
  schedule.getD (min layout.queryChunkIndex (schedule.length - 1)) 0

lemma chunkSparsity_zero (h : L.queryChunkIndex = 0) : lf.chunkSparsity num L = 0 := by
  unfold chunkSparsity
  simp only [h, Nat.zero_min]
  exact calculateChunkSparsities_zero _ _ _ _ _ _

def kvBlocks : Nat :=
  layout.numFrames * blocksPerFrame layout.frameSeqlen lf.config.blockK

def topk : Int :=
  min (lf.kvBlocks layout) (truncate ((1 - lf.chunkSparsity num layout) * lf.kvBlocks layout))

def pooledHistory : MemoMethod BatchTensors PoolSignature PooledKeys where
  signature call layout := (call.keySegments, call.kvLen, layout.frameSeqlen)
  compute _ call layout := poolHistory lf.config.blockK call layout
  warmStarts := false
  compute_cold _ _ _ _ := rfl

def plan (pooledHistory : PooledKeys) (topk : Nat) : Except KeepError (List (List RangeRow)) :=
  let bounds := frameAlignedBlockBounds layout.numFrames layout.frameSeqlen lf.config.blockK
  (range call.heads).mapM fun head =>
    (lightforcingBlockMask num lf.config.budget
        (blocksPerFrame layout.frameSeqlen lf.config.blockK)
        (layout.numFrames - layout.queryFrames) topk
        (pooledQueryOf lf.config.blockQ call head)
        (pooledKeyOf lf.config.blockK call layout pooledHistory head)).map fun masks =>
      masks.map fun mask => maskToRanges mask bounds.1 bounds.2

def prepare (s : ChunkMemo PoolSignature PooledKeys) (call : SparseAttentionCall BatchTensors)
    (layout : VisibleLayout) : ChunkMemo PoolSignature PooledKeys ×
      Option (PooledKeys × Except KeepError (List (List RangeRow))) :=
  if call.kvLen ≤ call.queryTokens then (s, none)
  else if lf.chunkSparsity num layout ≤ 0 then (s, none)
  else if lf.topk num layout ≤ 0 ∨ lf.kvBlocks layout ≤ lf.topk num layout then (s, none)
  else
    let found := lf.pooledHistory.lookup s call layout
    (found.1, some (found.2, lf.plan num call layout found.2 (lf.topk num layout).toNat))

def reaches : Bool :=
  decide (call.queryTokens < call.kvLen ∧ 0 < lf.chunkSparsity num layout ∧
    0 < lf.topk num layout ∧ lf.topk num layout < lf.kvBlocks layout)
end

def backend : MemoBackend BatchTensors PoolSignature PooledKeys
    (Except KeepError (List (List RangeRow))) where
  toMemoMethod := lf.pooledHistory
  prepare := lf.prepare num
  reaches := lf.reaches num
  SameHistory := SameHistoryKeys
  prepare_of_away s call layout h := by
    simp only [reaches, decide_eq_false_iff_not] at h
    unfold prepare
    split_ifs with hlen hsparsity htopk
    · rfl
    · rfl
    · rfl
    · exact absurd ⟨by omega, not_le.mp hsparsity, by omega⟩ h
  prepare_of_reaches s call layout h := by
    simp only [reaches, decide_eq_true_eq] at h
    obtain ⟨hlen, hsparsity, hpos, hlt⟩ := h
    rw [prepare, if_neg (by omega), if_neg (not_le.mpr hsparsity), if_neg (by omega)]
    exact ⟨_, rfl⟩

lemma not_reaches_of_chunk_zero {call : SparseAttentionCall BatchTensors}
    (h : L.queryChunkIndex = 0) : (lf.backend num).reaches call L = false := by
  show lf.reaches num call L = false
  simp [reaches, lf.chunkSparsity_zero num h]
end LightForcing
end Sglang
