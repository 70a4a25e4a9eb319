import Sglang.Lib.BucketSort
import Sglang.Lib.Scores
import Sglang.Sparse.Base
import Sglang.Sparse.SegmentPlan

/-!
# FAST-AR: compressed history and bucketed reads

The history keys of a layer are merged along time (`temporalMerge`) and the survivors of each head
are stored by their hash bucket.
-/

namespace Sglang
open List Function
open List (range zipWith range')

structure FastArConfig where
  block : Nat := 128
  mergeThreshold : ℚ := 9 / 10
  hashBits : Nat := 6
  probeHamming : Nat := 1
  denseSteps : Nat := 1
  seed : Nat := 0

def FastArConfig.numBuckets (c : FastArConfig) : Nat := 2 ^ c.hashBits

/-! ## TempCache -/

section
variable {κ : Type} (similar : κ → κ → Bool) (frameSeqlen : Nat) (key : Nat → κ)
  (value : Nat → List ℚ)

/-- The key at place `p` of frame `f` merges into the next frame. -/
def merges (f p : Nat) : Bool :=
  similar (key (f * frameSeqlen + p)) (key ((f + 1) * frameSeqlen + p))

def groupSize : Nat → Nat → Nat
  | 0, _ => 1
  | f + 1, p => 1 + if merges similar frameSeqlen key f p then groupSize f p else 0

/-- The sum of the values of the group that ends in frame `f`. -/
def valueSum : Nat → Nat → List ℚ
  | 0, p => value p
  | f + 1, p =>
    if merges similar frameSeqlen key f p then
      zipWith (· + ·) (value ((f + 1) * frameSeqlen + p)) (valueSum f p)
    else value ((f + 1) * frameSeqlen + p)

/-- A key stays if it does not merge into the next frame. -/
def keepKey (numFrames f p : Nat) : Bool :=
  if f + 1 < numFrames then !merges similar frameSeqlen key f p else true

/-- `temporal_merge` for one head: what is kept, group sizes and mean values, by flat position. -/
def temporalMerge (numFrames : Nat) : List Bool × List Nat × List (List ℚ) :=
  let positions := range (numFrames * frameSeqlen)
  (positions.map fun i =>
      keepKey similar frameSeqlen key numFrames (i / frameSeqlen) (i % frameSeqlen),
    positions.map fun i => groupSize similar frameSeqlen key (i / frameSeqlen) (i % frameSeqlen),
    positions.map fun i =>
      (valueSum similar frameSeqlen key value (i / frameSeqlen) (i % frameSeqlen)).map
        (· / groupSize similar frameSeqlen key (i / frameSeqlen) (i % frameSeqlen)))
end

/-! ## AnnSA -/

def signLshBucket (projection : List (List ℚ)) (v : List ℚ) : Nat :=
  ((range projection.length).map fun bit =>
    if 0 < dot v (projection.getD bit []) then 2 ^ bit else 0).sum

/-- With the buckets one bit away. -/
def hammingStep (bits : Nat) (present : List Bool) : List Bool :=
  (range present.length).map fun j =>
    present.getD j false || (range bits).any fun bit => present.getD (j ^^^ (1 <<< bit)) false

def hammingExpand (bits radius : Nat) (present : List Bool) : List Bool :=
  (hammingStep bits)^[radius] present

@[simp] lemma length_hammingExpand (bits radius : Nat) (present : List Bool) :
    (hammingExpand bits radius present).length = present.length := by
  unfold hammingExpand
  induction radius generalizing present with
  | zero => rfl
  | succ n ih => rw [iterate_succ_apply, ih]; simp [hammingStep]

/-- The bits in which two bucket ids differ. -/
def differingBits (bits i j : Nat) : Finset Nat :=
  (Finset.range bits).filter fun b => i.testBit b ≠ j.testBit b

section
variable {bits i j b : Nat}

lemma differingBits_flip (hb : b < bits) : differingBits bits i (j ^^^ 1 <<< b) =
    if b ∈ differingBits bits i j then (differingBits bits i j).erase b
    else insert b (differingBits bits i j) := by
  ext c
  simp only [differingBits, Finset.mem_filter, Finset.mem_range, Nat.testBit_xor, Nat.one_shiftLeft,
    Nat.testBit_two_pow]
  grind

lemma eq_of_differingBits (hi : i < 2 ^ bits) (hj : j < 2 ^ bits) (h : differingBits bits i j = ∅) :
    i = j := by
  refine Nat.eq_of_testBit_eq fun c => ?_
  rcases lt_or_ge c bits with hc | hc
  · exact not_not.mp (Finset.filter_eq_empty_iff.mp h (Finset.mem_range.mpr hc))
  · have hle : 2 ^ bits ≤ 2 ^ c := Nat.pow_le_pow_right two_pos hc
    rw [Nat.testBit_lt_two_pow (by omega), Nat.testBit_lt_two_pow (by omega)]

theorem hammingExpand_iff (radius : Nat) {present : List Bool} (hlen : present.length = 2 ^ bits)
    (hj : j < 2 ^ bits) : (hammingExpand bits radius present).getD j false ↔
      ∃ i, present.getD i false ∧ (differingBits bits i j).card ≤ radius := by
  induction radius generalizing j with
  | zero =>
    refine ⟨fun h => ⟨j, h, by simp [differingBits]⟩, fun ⟨i, hi, h⟩ => ?_⟩
    have hlt : i < 2 ^ bits := by grind
    rwa [← eq_of_differingBits hlt hj (Finset.card_eq_zero.mp (by omega))]
  | succ r ih => ?_
  have hstep : (hammingExpand bits (r + 1) present).getD j false ↔
      (hammingExpand bits r present).getD j false ∨
        ∃ b < bits, (hammingExpand bits r present).getD (j ^^^ 1 <<< b) false := by
    rw [hammingExpand, iterate_succ_apply', ← hammingExpand]
    simp [hammingStep, hlen, hj]
  have hflip {b : Nat} (hb : b < bits) : j ^^^ 1 <<< b < 2 ^ bits := by
    rw [Nat.one_shiftLeft]
    exact Nat.xor_lt_two_pow hj (Nat.pow_lt_pow_right one_lt_two hb)
  rw [hstep, ih hj]
  constructor
  · rintro (⟨i, hi, h⟩ | ⟨b, hb, h⟩)
    · exact ⟨i, hi, by omega⟩
    · obtain ⟨i, hi, h⟩ := (ih (hflip hb)).mp h
      rw [differingBits_flip hb] at h
      exact ⟨i, hi, by grind⟩
  · rintro ⟨i, hi, h⟩
    rcases (differingBits bits i j).eq_empty_or_nonempty with h0 | ⟨b, hb⟩
    · exact .inl ⟨i, hi, by simp [h0]⟩
    · have hlt : b < bits := by simpa using (Finset.mem_filter.mp hb).1
      refine .inr ⟨b, hlt, (ih (hflip hlt)).mpr ⟨i, hi, ?_⟩⟩
      rw [differingBits_flip hlt, if_pos hb, Finset.card_erase_of_mem hb]
      omega

theorem hammingExpand_two_bits : (hammingExpand 2 1 [true, false, false, false]).getD 3 false ↔
    ∃ i, [true, false, false, false].getD i false ∧ (differingBits 2 i 3).card ≤ 1 :=
  hammingExpand_iff 1 rfl (by decide)
end

/-! ## The packed history of a head -/

structure HeadKeys (numBuckets : Nat) where
  keep : List Bool
  buckets : List Nat
  length_eq : keep.length = buckets.length
  bucket_lt : ∀ b ∈ buckets, b < numBuckets

namespace HeadKeys
variable {numBuckets : Nat} (h : HeadKeys numBuckets)

def keptCount : Nat := h.keep.countP id

/-- The sort key: a dropped key sorts past every bucket. -/
def tags : List Nat :=
  zipWith (fun keep bucket => if keep then bucket else numBuckets) h.keep h.buckets

/-- `counts`: the kept keys of each bucket, by a scatter that sends dropped keys to bucket 0 with
weight 0. -/
def bucketCounts : List Nat :=
  (range numBuckets).map fun b =>
    (zipWith (fun keep bucket => if bucket * keep.toNat = b then keep.toNat else 0)
      h.keep h.buckets).sum
end HeadKeys

/-- Packed history positions, padded to `kept`, with the bounds of buckets and own chunk. -/
structure PackedHead where
  order : List Nat
  bucketStarts : List Nat
  bucketEnds : List Nat
  deriving DecidableEq

/-- The packing of `_build_compressed_history` for one head. -/
def packHead {numBuckets : Nat} (kept ownLen : Nat) (h : HeadKeys numBuckets) : PackedHead :=
  let counts := h.bucketCounts
  let ends := cumsum counts
  let starts := zipWith (· - ·) ends counts
  { order := (stableArgsort h.tags).take kept
    bucketStarts := starts ++ [kept]
    bucketEnds := ends ++ [kept + ownLen] }

def longestKept {numBuckets : Nat} (heads : List (HeadKeys numBuckets)) : Nat :=
  (heads.map HeadKeys.keptCount).max?.getD 0

section
variable (c : FastArConfig) (queryBuckets : List Nat) (b : Nat)

def presentBuckets : List Bool :=
  let blockBuckets := ((sortedTags queryBuckets).drop (b * c.block)).take c.block
  (range c.numBuckets).map fun k => blockBuckets.contains k

def selectedBuckets : List Bool :=
  hammingExpand c.hashBits c.probeHamming (presentBuckets c queryBuckets b)

/-- The key ranges of one head and query block; the own chunk is always selected. -/
def planRow (packed : PackedHead) (queryBuckets : List Nat) (b : Nat) : RangeRow :=
  maskToRanges (selectedBuckets c queryBuckets b ++ [true]) packed.bucketStarts packed.bucketEnds
end

/-! ## The compressed history of a layer -/

/-- Which keys are similar enough to merge, and the random projections of a seed. -/
structure FastArNumerics where
  similar : ℚ → List ℚ → List ℚ → Bool
  randn : Nat → Nat → Nat → Nat → Nat → Nat → List ℚ

structure FastArTensors where
  query : Nat → Nat → List ℚ
  key : Nat → Nat → List ℚ
  value : Nat → Nat → List ℚ

/-- `CompressedHistory`; the logit bias is the logarithm of `groupSizes`. -/
structure CompressedHistory where
  heads : List PackedHead
  key : List (List (List ℚ))
  value : List (List (List ℚ))
  groupSizes : List (List Nat)
  projection : List (List (List ℚ))
  kept : Nat

lemma signLshBucket_lt (projection : List (List ℚ)) (v : List ℚ) :
    signLshBucket projection v < 2 ^ projection.length := by
  unfold signLshBucket
  generalize projection.length = n
  induction n with
  | zero => simp
  | succ n ih =>
    rw [range_succ, map_append, sum_append, Nat.pow_succ]
    simp only [map_cons, map_nil, sum_singleton]
    split <;> omega

section
variable (c : FastArConfig) (num : FastArNumerics) (call : SparseAttentionCall FastArTensors)
  (layout : VisibleLayout) (historyLen : Nat)

variable (history : CompressedHistory) (head : Nat)

def projectionOf : List (List ℚ) :=
  (range c.hashBits).map
    (num.randn (c.seed * 1013 + call.layerIndex) call.numLocalHeads call.headDim c.hashBits head)

def mergedHead : List Bool × List Nat × List (List ℚ) :=
  temporalMerge (num.similar c.mergeThreshold) layout.frameSeqlen (call.tensors.key · head)
    (call.tensors.value · head) (historyLen / layout.frameSeqlen)

/-- Which history keys of a head are kept, and the buckets. -/
def headKeys : HeadKeys c.numBuckets where
  keep := (mergedHead c num call layout historyLen head).1
  buckets := (range (historyLen / layout.frameSeqlen * layout.frameSeqlen)).map fun i =>
    signLshBucket (projectionOf c num call head) (call.tensors.key i head)
  length_eq := by simp [mergedHead, temporalMerge]
  bucket_lt := by
    simp only [mem_map]
    rintro b ⟨i, -, rfl⟩
    have := signLshBucket_lt (projectionOf c num call head) (call.tensors.key i head)
    simpa [projectionOf, FastArConfig.numBuckets] using this

def buildCompressedHistory : CompressedHistory :=
  let heads := range call.numLocalHeads
  let ownLen := call.kvLen - historyLen
  let kept := longestKept (heads.map (headKeys c num call layout historyLen))
  let order (head : Nat) := (packHead kept ownLen (headKeys c num call layout historyLen head)).order
  { heads := heads.map fun head => packHead kept ownLen (headKeys c num call layout historyLen head)
    key := heads.map fun head => (order head).map (call.tensors.key · head)
    value := heads.map fun head => (order head).map fun i =>
      (mergedHead c num call layout historyLen head).2.2.getD i []
    groupSizes := heads.map fun head =>
      (order head).mapIdx (fun p i =>
        if p < (headKeys c num call layout historyLen head).keptCount then
          (mergedHead c num call layout historyLen head).2.1.getD i 1
        else 1) ++ List.replicate ownLen 1
    projection := heads.map (projectionOf c num call)
    kept := kept }

def queryBuckets : List Nat :=
  (range call.queryTokens).map fun r =>
    signLshBucket (history.projection.getD head []) (call.tensors.query r head)

/-- The key ranges of every head and query block, and what they index, history first. -/
structure FastArExecution where
  rows : List (List RangeRow)
  queryPermutation : List (List Nat)
  key : List (List (List ℚ))
  value : List (List (List ℚ))

def execution : FastArExecution where
  rows := history.heads.mapIdx fun head packed =>
    (range ((call.queryTokens + c.block - 1) / c.block)).map
      (planRow c packed (queryBuckets call history head))
  queryPermutation := (range call.numLocalHeads).map fun head =>
    stableArgsort (queryBuckets call history head)
  key := history.key.mapIdx fun head keys =>
    keys ++ (range' historyLen (call.kvLen - historyLen)).map (call.tensors.key · head)
  value := history.value.mapIdx fun head values =>
    values ++ (range' historyLen (call.kvLen - historyLen)).map (call.tensors.value · head)
end

/-! ## The backend -/

abbrev FastArSignature := Option KeySegments × Nat × Nat

structure FastArState where
  geometry : Option ChunkGeometry
  history : LayoutCache FastArSignature CompressedHistory
  stepOfLayer : Nat → Option (Nat × Nat)

namespace FastArState
def initial : FastArState := { geometry := none, history := .empty, stepOfLayer := fun _ => none }

def beginForward (s : FastArState) (g : ChunkGeometry) : FastArState := { s with geometry := some g }

/-- The calls of the layer in this chunk. -/
def stepOf (s : FastArState) (layer chunk : Nat) : Nat :=
  match s.stepOfLayer layer with
  | none => 0
  | some stored => if stored.1 = chunk then stored.2 + 1 else 0
end FastArState

variable (c : FastArConfig) (num : FastArNumerics)

variable (s : FastArState) (call : SparseAttentionCall FastArTensors) (layout : VisibleLayout)

def historyLen : Nat := call.kvLen - call.queryTokens

def fastArSignature : FastArSignature :=
  (call.keySegments, historyLen call, call.numLocalHeads)

def compressedHistory : FastArState × CompressedHistory :=
  match s.history.get call.layerIndex (fastArSignature call) with
  | some history => (s, history)
  | none =>
    let history := buildCompressedHistory c num call layout (historyLen call)
    ({ s with history := s.history.put call.layerIndex (fastArSignature call) history }, history)

def fastArPrepare : FastArState × Option (CompressedHistory × FastArExecution) :=
  if call.kvLen ≤ call.queryTokens then (s, none)
  else
    let step := s.stepOf call.layerIndex layout.queryChunkIndex
    let s := { s with
      stepOfLayer := update s.stepOfLayer call.layerIndex (some (layout.queryChunkIndex, step)) }
    if step < c.denseSteps then (s, none)
    else
      let found := compressedHistory c num s call layout
      (found.1, some (found.2, execution c call (historyLen call) found.2))

def fastArAttend : FastArState × Option (CompressedHistory × FastArExecution) :=
  match layoutOf s.geometry call with
  | .error _ => (s, none)
  | .ok layout => fastArPrepare c num s call layout
end Sglang
