import Sglang.Lib.BucketSort
import Sglang.Lib.Scores
import Sglang.Sparse.ChunkMemo
import Sglang.Sparse.SegmentPlan

/-!
# SVG2: semantic clusters of the history keys

The history keys of each head are clustered by k-means and reordered so that a cluster is one
segment of the key axis; the chunk's own keys stay in place as one more segment.
-/

namespace Sglang
open List
open List (range zipWith)

structure Svg2Config where
  block : Nat := 128
  clusterSize : Nat := 256
  kmeansIters : Nat := 4
  kmeansWarmIters : Nat := 2
  topP : ℚ := 9 / 10

/-- The position of a largest value, softmax, a descending sort, and logarithms. -/
structure Svg2Numerics where
  argmax : List ℚ → Nat
  argmax_lt : ∀ xs, xs ≠ [] → argmax xs < xs.length
  softmax : List ℚ → List ℚ
  descending : Ranking ℚ
  log : Nat → ℚ

structure Svg2Tensors where
  query : Nat → Nat → List ℚ
  key : Nat → Nat → List ℚ
  softmaxScale : ℚ

/-! ## k-means -/

section
variable (num : Svg2Numerics) (keys : Nat → List ℚ) (historyLen numClusters : Nat)

/-- `linspace(0, history_len - 1, num_clusters).long()`. -/
def clusterSeeds : List Nat :=
  (range numClusters).map fun i => i * (historyLen - 1) / (numClusters - 1)

section
variable (iters : Nat) (initial : Option (List (List ℚ))) (fit : List Nat × List (List ℚ))

/-- After the carried ones of a warm start. -/
def initialCentroids : List (List ℚ) :=
  let carried := (initial.getD []).take numClusters
  carried ++ ((clusterSeeds historyLen numClusters).drop carried.length).map keys

/-- The nearest centroid: the largest of `2 k·c - c·c`. -/
def nearest (centroids : List (List ℚ)) (k : List ℚ) : Nat :=
  num.argmax (centroids.map fun c => 2 * dot k c - dot c c)

/-- One iteration; an empty cluster keeps its centroid. -/
def kmeansStep : List Nat × List (List ℚ) :=
  let labels := (range historyLen).map fun i => nearest num fit.2 (keys i)
  (labels, fit.2.mapIdx fun j c =>
    let members := (range historyLen).filter fun i => labels.getD i 0 == j
    if members = [] then c else vecMean (members.map keys))

/-- Without iterations all labels are 0. -/
def kmeans : List Nat × List (List ℚ) :=
  (kmeansStep num keys historyLen)^[iters]
    (List.replicate historyLen 0, initialCentroids keys historyLen numClusters initial)

structure HeadClustering where
  permutation : List Nat
  centroids : List (List ℚ)
  segmentStarts : List Nat
  segmentEnds : List Nat
  logSize : List ℚ
  deriving DecidableEq

def clusterHead (ownChunkLen : Nat) (initial : Option (List (List ℚ))) : HeadClustering :=
  let fit := kmeans num keys historyLen numClusters iters initial
  let counts := tagCounts fit.1 numClusters
  let ends := cumsum counts
  let starts := zipWith (· - ·) ends counts
  { permutation := stableArgsort fit.1
    centroids := fit.2
    segmentStarts := starts ++ [historyLen]
    segmentEnds := ends ++ [historyLen + ownChunkLen]
    logSize := counts.map fun n => num.log (max n 1) }

/-! ## The clusters partition the history -/

lemma length_initialCentroids (initial : Option (List (List ℚ))) :
    (initialCentroids keys historyLen numClusters initial).length = numClusters := by
  simp only [initialCentroids, length_append, length_take, length_map,
    length_drop, clusterSeeds, length_range]
  omega

structure FitOk : Prop where
  labels : fit.1.length = historyLen
  labels_lt : ∀ label ∈ fit.1, label < numClusters
  centroids : fit.2.length = numClusters
end

variable {numClusters}

lemma kmeansStep_ok {fit : List Nat × List (List ℚ)} (hpos : 0 < numClusters)
    (h : FitOk historyLen numClusters fit) :
    FitOk historyLen numClusters (kmeansStep num keys historyLen fit) where
  labels := by simp [kmeansStep]
  labels_lt := by
    simp only [kmeansStep, mem_map]
    rintro label ⟨i, -, rfl⟩
    have hne : fit.2.map (fun c => 2 * dot (keys i) c - dot c c) ≠ [] := by
      rw [← length_pos_iff, length_map, h.centroids]
      exact hpos
    have hlt := num.argmax_lt _ hne
    rwa [length_map, h.centroids] at hlt
  centroids := by simpa [kmeansStep] using h.centroids

lemma kmeans_ok (hpos : 0 < numClusters) (iters : Nat) (initial : Option (List (List ℚ))) :
    FitOk historyLen numClusters (kmeans num keys historyLen numClusters iters initial) := by
  unfold kmeans
  induction iters with
  | zero =>
    refine ⟨by simp, ?_, length_initialCentroids keys historyLen numClusters initial⟩
    intro label hmem
    rw [eq_of_mem_replicate hmem]
    exact hpos
  | succ n ih =>
    rw [Function.iterate_succ_apply']
    exact kmeansStep_ok num keys historyLen hpos ih

/-- A bijection of the history, each place of which is in one cluster's segment. -/
structure IsPartition (historyLen numClusters : Nat) (h : HeadClustering) : Prop where
  perm : h.permutation.Perm (range historyLen)
  segment : ∀ x < historyLen, ∃! t, t < numClusters ∧
    h.segmentStarts.getD t 0 ≤ x ∧ x < h.segmentEnds.getD t 0
  inside : ∀ t < numClusters, h.segmentEnds.getD t 0 ≤ historyLen

lemma clusterHead_bounds (iters ownChunkLen : Nat) (initial : Option (List (List ℚ))) {t : Nat}
    (ht : t < numClusters) : let labels := (kmeans num keys historyLen numClusters iters initial).1
    let head := clusterHead num keys historyLen numClusters iters ownChunkLen initial
    head.segmentStarts.getD t 0 = tagStart labels t ∧
      head.segmentEnds.getD t 0 = tagStart labels (t + 1) := by
  intro labels head
  have hstarts : t < (zipWith (· - ·) (cumsum (tagCounts labels numClusters))
      (tagCounts labels numClusters)).length := by simpa using ht
  have hends : t < (cumsum (tagCounts labels numClusters)).length := by simpa using ht
  refine ⟨?_, ?_⟩
  · exact (getD_append _ _ _ _ hstarts).trans (getD_sub_tagCounts labels ht)
  · exact (getD_append _ _ _ _ hends).trans (getD_cumsum_tagCounts labels ht)

lemma clusterHead_partition (hpos : 0 < numClusters) (iters ownChunkLen : Nat)
    (initial : Option (List (List ℚ))) : IsPartition historyLen numClusters
      (clusterHead num keys historyLen numClusters iters ownChunkLen initial) := by
  have hfit := kmeans_ok num keys historyLen hpos iters initial
  have hbounds {t : Nat} (ht : t < numClusters) :=
    clusterHead_bounds num keys historyLen iters ownChunkLen initial ht
  set labels := (kmeans num keys historyLen numClusters iters initial).1
  refine ⟨?_, fun x hx => ?_, fun t ht => ?_⟩
  · have hperm := stableArgsort_perm labels
    rw [hfit.labels] at hperm
    exact hperm
  · -- the cluster of a place is the label that stands there
    have hx : x < labels.length := by rwa [hfit.labels]
    have hlt : tagAt labels x < numClusters := by
      rw [tagAt_lt_iff hx, tagStart_eq_length hfit.labels_lt]
      exact hx
    refine ⟨tagAt labels x, ⟨hlt, ?_⟩, ?_⟩
    · rw [(hbounds hlt).1, (hbounds hlt).2]
      exact (tagAt_eq_iff hx _).mp rfl
    · rintro t ⟨ht, hsegment⟩
      rw [(hbounds ht).1, (hbounds ht).2] at hsegment
      exact ((tagAt_eq_iff hx t).mpr hsegment).symm
  · rw [(hbounds ht).2, ← hfit.labels]
    exact tagStart_le_length labels _
end

/-! ## Selection -/

/-- `select_clusters_by_top_p`: clusters whose exclusive cumulative mass is at most `top_p`. -/
def selectClustersByTopP (num : Svg2Numerics) (topP : ℚ) (logits : List ℚ) : List Bool :=
  let probabilities := num.softmax logits
  let order := num.descending.order probabilities
  let ordered := order.map fun i => probabilities.getD i 0
  (range logits.length).map fun i =>
    let place := order.idxOf i
    decide (place = 0 ∨ (ordered.take place).sum ≤ topP)

/-- Key segments, history length and number of clusters. -/
abbrev ClusterSignature := Option KeySegments × Nat × Nat

/-- The ranges of every head and query block, and the orders of keys and queries. -/
structure Svg2Execution where
  rows : List (List RangeRow)
  keyOrder : List (List Nat)
  queryPermutation : List (List Nat)

def Svg2Tensors.historyTokens (call : SparseAttentionCall Svg2Tensors) : Nat :=
  call.kvLen - call.queryTokens

namespace Svg2Config
open Svg2Tensors
variable (c : Svg2Config) (num : Svg2Numerics) {call : SparseAttentionCall Svg2Tensors}

section
variable (call : SparseAttentionCall Svg2Tensors) (head : Nat) (h : HeadClustering)

def numClusters : Nat :=
  historyTokens call / c.clusterSize

/-- The memo of `_clustering`; the previous clustering seeds the new one. -/
def clustering : MemoMethod Svg2Tensors ClusterSignature (List HeadClustering) where
  signature call _ := (call.keySegments, historyTokens call, c.numClusters call)
  compute previous call _ :=
    let start := if 0 < c.kmeansWarmIters then previous else none
    let iters := if start.isSome then c.kmeansWarmIters else c.kmeansIters
    (range call.heads).map fun head =>
      clusterHead num (call.tensors.key · head) (historyTokens call) (c.numClusters call) iters
        (call.kvLen - historyTokens call)
        (start.map fun heads => ((heads[head]?).map HeadClustering.centroids).getD [])
  warmStarts := decide (0 < c.kmeansWarmIters)
  compute_cold h _ _ _ := by simp only [of_decide_eq_false h, if_false]

/-- The order of a head's queries: by their nearest centroid. -/
def queryOrder : List Nat :=
  stableArgsort ((range call.queryTokens).map fun i =>
    nearest num h.centroids (call.tensors.query i head))

def selectClusters : List (List Bool) :=
  let order := queryOrder num call head h
  (range ((call.queryTokens + c.block - 1) / c.block)).map fun b =>
    let rows := (order.drop (b * c.block)).take c.block
    let blockMean := vecMean (rows.map fun i => call.tensors.query i head)
    let logits := zipWith (fun centroid logSize =>
      dot blockMean centroid * call.tensors.softmaxScale + logSize) h.centroids h.logSize
    selectClustersByTopP num c.topP logits ++ [true]

/-- The end of `prepare`: nothing if every segment is kept. -/
def execution (heads : List HeadClustering) : Option Svg2Execution :=
  let keep := heads.mapIdx fun head h => c.selectClusters num call head h
  if keep.all fun rows => rows.all fun row => row.all id then none
  else
    some
      { rows := zipWith (fun rows h =>
          rows.map fun row => maskToRanges row h.segmentStarts h.segmentEnds) keep heads
        keyOrder := heads.map fun h =>
          h.permutation ++ List.range' (historyTokens call) (call.kvLen - historyTokens call)
        queryPermutation := heads.mapIdx fun head h => queryOrder num call head h }

def prepare (s : ChunkMemo ClusterSignature (List HeadClustering))
    (call : SparseAttentionCall Svg2Tensors) (layout : VisibleLayout) :
    ChunkMemo ClusterSignature (List HeadClustering) ×
      Option (List HeadClustering × Option Svg2Execution) :=
  if historyTokens call = 0 ∨ c.numClusters call < 2 then (s, none)
  else
    let found := (c.clustering num).lookup s call layout
    (found.1, some (found.2, c.execution num call found.2))

def SameHistory (call' : SparseAttentionCall Svg2Tensors) : Prop :=
  ∀ head, ∀ i < historyTokens call, call'.tensors.key i head = call.tensors.key i head

def reaches : Bool :=
  decide (0 < historyTokens call ∧ 2 ≤ c.numClusters call)
end

section
variable (s : ChunkMemo ClusterSignature (List HeadClustering)) (L : VisibleLayout)

lemma prepare_of_not_reaches (h : c.reaches call = false) : c.prepare num s call L = (s, none) := by
  simp only [reaches, decide_eq_false_iff_not] at h
  exact if_pos (by omega)

lemma prepare_eq_of_reaches (h : c.reaches call = true) : c.prepare num s call L =
      (((c.clustering num).lookup s call L).1, some (((c.clustering num).lookup s call L).2,
          c.execution num call ((c.clustering num).lookup s call L).2)) := by
  simp only [reaches, decide_eq_true_eq] at h
  exact if_neg (by omega)
end

def backend : MemoBackend Svg2Tensors ClusterSignature (List HeadClustering)
    (Option Svg2Execution) where
  toMemoMethod := c.clustering num
  prepare := c.prepare num
  reaches call _ := c.reaches call
  SameHistory := SameHistory
  prepare_of_away s _ layout h := c.prepare_of_not_reaches num s layout h
  prepare_of_reaches s _ layout h := ⟨_, c.prepare_eq_of_reaches num s layout h⟩

lemma compute_partition (previous : Option (List HeadClustering))
    (call : SparseAttentionCall Svg2Tensors) (L : VisibleLayout) (h : c.reaches call = true) :
    ∀ head ∈ (c.clustering num).compute previous call L,
      IsPartition (historyTokens call) (c.numClusters call) head := by
  simp only [reaches, decide_eq_true_eq] at h
  simp only [clustering, mem_map]
  rintro _ ⟨head, -, rfl⟩
  exact clusterHead_partition num _ _ (by omega) _ _ _
end Svg2Config
end Sglang
