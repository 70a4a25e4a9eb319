import Sglang.Lib.BucketSort

/-!
# The zigzag split of context-parallel prefill

`prepare_context_parallel_metadata` cuts each sequence of a batch into `2 * cp_size` blocks.
-/

namespace Sglang.Parallel
open List (range zipWith replicate)

inductive Err
  | indexError
  | assertion
  deriving DecidableEq

def rangeUp (start stop step : Nat) : List Nat :=
  (range ((stop - start + step - 1) / step)).map fun k => start + step * k

def rangeDown (start step : Nat) : List Nat :=
  (range ((start + step - 1) / step)).map fun k => start - step * k

structure ContextParallelMetadata where
  splitList : List Nat
  zigzagIndex : List Nat
  cpReverseIndex : List Nat
  reverseSplitLen : List Nat
  perRankActualToken : List Nat
  maxRankLen : List Nat
  kvLenPrevList : List Nat
  kvLenNextList : List Nat
  actualSeqQPrevList : List Nat
  actualSeqQNextList : List Nat
  cuSeqlensQPrev : List Nat
  cuSeqlensQNext : List Nat
  totalQPrevTokens : Nat
  totalQNextTokens : Nat
  maxSeqlenQPrev : Nat
  maxSeqlenQNext : Nat
  totalSeqLens : Nat
  bs : Nat

def addToLast (n : Nat) (xs : List Nat) : List Nat := xs.dropLast ++ (xs.getLast?.map (· + n)).toList

/-- The first blocks are longer by one. -/
def blockSizes (cpSegmentNum len : Nat) : List Nat :=
  (range cpSegmentNum).map fun i =>
    if i < len % cpSegmentNum then len / cpSegmentNum + 1 else len / cpSegmentNum

def prefixOffsets (seqsLen : Option (List Nat)) (extendSeqsLen : List Nat) : List Nat :=
  match seqsLen with
  | some seqs =>
    if seqs.length = extendSeqsLen.length then zipWith (· - ·) seqs extendSeqsLen
    else replicate extendSeqsLen.length 0
  | none => replicate extendSeqsLen.length 0

def rankTokens (cpSize : Nat) (blocks : List (List Nat)) : List Nat :=
  (range cpSize).map fun r =>
    (blocks.map fun blk => blk.getD r 0 + blk.getD (cpSize * 2 - 1 - r) 0).sum

def zigzagIndex (cpRank cpSize bs : Nat) : List Nat :=
  rangeUp cpRank (cpRank + bs * (cpSize * 2)) (cpSize * 2) ++
    rangeUp (cpSize * 2 - cpRank - 1) (bs * (cpSize * 2)) (cpSize * 2)

def cpReverseIndex (cpSize bs : Nat) : List Nat :=
  (range bs).flatMap fun batchId =>
    rangeUp batchId (cpSize * 2 * bs) (2 * bs) ++ rangeDown ((cpSize * 2 - 1) * bs + batchId) (2 * bs)

def reverseSplitLen (cpSize : Nat) (blocks : List (List Nat)) : List Nat :=
  (range cpSize).flatMap fun r =>
    (blocks.map fun blk => blk.getD r 0) ++ (blocks.map fun blk => blk.getD (cpSize * 2 - 1 - r) 0)

def assert (cond : Prop) [Decidable cond] : Except Err Unit := if cond then .ok () else .error .assertion

/-- The assertions at the end. -/
def checkMetadata (m : ContextParallelMetadata) (cpSize : Nat) : Except Err Unit := do
  assert (m.splitList.length = m.bs * (cpSize * 2))
  assert (m.splitList.sum = m.totalSeqLens)
  assert (m.zigzagIndex.length = 2 * m.bs)
  assert (m.cpReverseIndex.length = m.bs * (cpSize * 2))
  assert (m.cpReverseIndex.insertionSort (· ≤ ·) = range (m.bs * (cpSize * 2)))
  assert (m.perRankActualToken.sum = m.totalSeqLens)

def metadataOf (cpRank cpSize : Nat) (offsets extendSeqsLen : List Nat) (nsaMode : Bool) :
    ContextParallelMetadata :=
  let bs := extendSeqsLen.length
  let cpSegmentNum := cpSize * 2
  let blocks := extendSeqsLen.map (blockSizes cpSegmentNum)
  let perRank := rankTokens cpSize blocks
  let kvLen := fun (n offset : Nat) (blk : List Nat) =>
    if nsaMode then (blk.take n).sum else offset + (blk.take n).sum
  let qPrev := blocks.map fun blk => blk.getD cpRank 0
  let qNext := blocks.map fun blk => blk.getD (cpSegmentNum - cpRank - 1) 0
  { splitList := blocks.flatten
    zigzagIndex := zigzagIndex cpRank cpSize bs
    cpReverseIndex := cpReverseIndex cpSize bs
    reverseSplitLen := reverseSplitLen cpSize blocks
    perRankActualToken := perRank
    maxRankLen := replicate cpSize (perRank.foldl max 0)
    kvLenPrevList := zipWith (kvLen (cpRank + 1)) offsets blocks
    kvLenNextList := zipWith (kvLen (cpSegmentNum - cpRank)) offsets blocks
    actualSeqQPrevList := qPrev
    actualSeqQNextList := qNext
    cuSeqlensQPrev := 0 :: cumsum qPrev
    cuSeqlensQNext := 0 :: cumsum qNext
    totalQPrevTokens := (0 :: cumsum qPrev).getLastD 0
    totalQNextTokens := (0 :: cumsum qNext).getLastD 0
    maxSeqlenQPrev := qPrev.foldl max 0
    maxSeqlenQNext := qNext.foldl max 0
    totalSeqLens := extendSeqsLen.sum
    bs := bs }

def prepareContextParallelMetadata (kvLen cpRank cpSize : Nat) (seqsLen : Option (List Nat))
    (extendSeqsLen : List Nat) (nsaMode : Bool) : Except Err ContextParallelMetadata :=
  let padLen := kvLen - extendSeqsLen.sum
  if padLen > 0 ∧ extendSeqsLen = [] then .error .indexError
  else do
    let extendPadded := addToLast padLen extendSeqsLen
    let seqsPadded := seqsLen.map fun seqs =>
      if seqs.length = extendSeqsLen.length then addToLast padLen seqs else seqs
    let m := metadataOf cpRank cpSize (prefixOffsets seqsPadded extendPadded) extendPadded nsaMode
    checkMetadata m cpSize
    return m

/-! ## Tensors -/

variable {α : Type} (m : ContextParallelMetadata)

def cpSplitAndRebuildData (x : List α) : Option (List α) := do
  let pieces ← torchSplit m.splitList x
  let own ← pick pieces m.zigzagIndex
  torchCat own

def padToMaxRankLen (zero : α) (x : List α) : List α :=
  x ++ replicate (m.maxRankLen.getD 0 0 - x.length) zero

def removePadding (gathered : List α) : Option (List α) := do
  let outputs ← torchSplit m.maxRankLen gathered
  torchCat (zipWith (fun out len => out.take len) outputs m.perRankActualToken)

/-- `cp_all_gather_rerange_output` and `cp_all_gather_rerange_kv_cache` after the all-gather. -/
def cpAllGatherRerange (gathered : List α) : Option (List α) := do
  let output ← removePadding m gathered
  let outputs ← torchSplit m.reverseSplitLen output
  let ordered ← pick outputs m.cpReverseIndex
  torchCat ordered

def cpAttnForwardExtend {β : Type} (attnFn : List α → List Nat → List Nat → Nat → List β) (q : List α) :
    List β :=
  attnFn (q.take m.totalQPrevTokens) m.cuSeqlensQPrev m.kvLenPrevList m.maxSeqlenQPrev ++
    attnFn (q.drop m.totalQPrevTokens) m.cuSeqlensQNext m.kvLenNextList m.maxSeqlenQNext
end Sglang.Parallel
