import Sglang.Sparse.LightForcing
import Sglang.Sparse.Osa

/-!
# Mixed Sparse Attention

A taxonomy gives every head a family: a static pattern, or blocks chosen by content.
-/

namespace Sglang
/-! ## Configuration -/

inductive ContentSchedule where
  | constant
  | flopsMatched
  | lightforcing
  deriving DecidableEq

def ContentSchedule.ofString : String → Option ContentSchedule
  | "constant" => some .constant
  | "flops_matched" => some .flopsMatched
  | "lightforcing" => some .lightforcing
  | _ => none

structure MsaConfig where
  taxonomyPath : String := ""
  contentDensity : ℚ := 1 / 5
  diffuseDensity : ℚ := 1 / 10
  blockQ : Nat := 128
  blockK : Nat := 128
  keepFrames : Int := 6
  keepSink : Int := 1
  keepNear : Int := 2
  replanEachStep : Bool := false
  replanInterval : Nat := 0
  stepDensityScale : List ℚ := []
  contentSchedule : String := "constant"
  scheduleNumFrames : Option Nat := none
  scheduleFloorDensity : ℚ := 1 / 20
  scheduleWindowFrames : Int := -1
  lfSparsity : ℚ := 0
  lfSparsityBase : ℚ := 49 / 50
  lfNumOutputFrames : Nat := 0
  lfLocalAttnSize : Int := -1

namespace MsaConfig
def budget (c : MsaConfig) : FrameBudget :=
  { keepFrames := c.keepFrames, keepSink := c.keepSink, keepNear := c.keepNear }

def scales (c : MsaConfig) : List ℚ := if c.stepDensityScale = [] then [1] else c.stepDensityScale
end MsaConfig

/-- The families; any family that is not static selects by content. -/
inductive Family where
  | rows
  | shortwin
  | diffuse
  | content
  deriving DecidableEq

namespace Family
def ofString : String → Family
  | "local" => .rows
  | "shortwin" => .shortwin
  | "diffuse" => .diffuse
  | _ => .content

def isStatic (f : Family) : Bool := f ≠ .content
end Family

structure HeadSpec where
  family : Family
  r : Nat := 0
  m : Nat := 0
  deriving DecidableEq

/-- `load_taxonomy`, from the records of the file: family, `r` and `m`, 0 where absent. -/
def loadTaxonomy (records : String → Option (String × Option Nat × Option Nat)) (head : String) :
    Option HeadSpec :=
  (records head).map fun (family, r, m) =>
    { family := Family.ofString family, r := r.getD 0, m := m.getD 0 }

inductive MsaError where
  | noTaxonomy
  | unknownSchedule (name : String)
  | needsNumFrames
  | needsLightforcing
  | lacksHead (path head : String)
  | tooManyRanges
  | keep (e : KeepError)
  deriving DecidableEq

def MsaError.message : MsaError → String
  | .noTaxonomy => "msa needs taxonomy_path in --sparse-attention-config"
  | .unknownSchedule name =>
    "unknown content_schedule '" ++ name ++ "' (use 'constant' or 'flops_matched')"
  | .needsNumFrames => "content_schedule='flops_matched' needs schedule_num_frames"
  | .needsLightforcing =>
    "content_schedule='lightforcing' needs lf_sparsity and lf_num_output_frames"
  | .lacksHead path head => s!"taxonomy {path} lacks {head}"
  | .tooManyRanges => ""
  | .keep e => e.message

structure MixedSparseAttention where
  config : MsaConfig
  taxonomy : String → Option HeadSpec
  schedule : ContentSchedule
  schedule_frames : schedule = .flopsMatched → config.scheduleNumFrames.getD 0 ≠ 0
  lightforcing_set : schedule = .lightforcing → config.lfSparsity ≠ 0 ∧ config.lfNumOutputFrames ≠ 0

namespace MixedSparseAttention
def init (c : MsaConfig) (records : String → Option (String × Option Nat × Option Nat)) :
    Except MsaError MixedSparseAttention :=
  if c.taxonomyPath = "" then .error .noTaxonomy
  else
    match ContentSchedule.ofString c.contentSchedule with
    | none => .error (.unknownSchedule c.contentSchedule)
    | some schedule =>
      if hf : schedule = .flopsMatched → c.scheduleNumFrames.getD 0 ≠ 0 then
        if hl : schedule = .lightforcing → c.lfSparsity ≠ 0 ∧ c.lfNumOutputFrames ≠ 0 then
          .ok ⟨c, loadTaxonomy records, schedule, hf, hl⟩
        else .error .needsLightforcing
      else .error .needsNumFrames
end MixedSparseAttention

/-! ## Static heads -/

/-- The spans of the tokens `[lo, hi)`, one per frame they touch. `fuel` bounds the frames. -/
def spansFrom (frameSeqlen hi : Nat) : Nat → Nat → List (Nat × Nat)
  | 0, _ => []
  | fuel + 1, lo =>
    if lo < hi then
      let step := min hi ((lo / frameSeqlen + 1) * frameSeqlen)
      (lo % frameSeqlen, (step - 1) % frameSeqlen + 1) :: spansFrom frameSeqlen hi fuel step
    else []

/-- `within_frame_query_spans`. Each round of the source's loop passes at least one token. -/
def withinFrameQuerySpans (qBlock blockM qLen frameSeqlen : Nat) : List (Nat × Nat) :=
  let lo := qBlock * blockM
  let hi := min qLen ((qBlock + 1) * blockM)
  spansFrom frameSeqlen hi (hi - lo) lo

/-- One round of the merge; the last merged range comes first. -/
def mergeRange (merged : List (Nat × Nat)) (r : Nat × Nat) : List (Nat × Nat) :=
  match merged with
  | [] => [r]
  | last :: rest =>
    if r.1 ≤ last.2 then (last.1, max last.2 r.2) :: rest else r :: last :: rest

/-- `local_ranges`: the row windows of a local head's query block. -/
def localRanges (qBlock radius blockM qLen frameSeqlen gridHeight gridWidth : Nat) :
    List (Nat × Nat) :=
  let ranges := (withinFrameQuerySpans qBlock blockM qLen frameSeqlen).map fun (spanLo, spanHi) =>
    let rowLo := spanLo / gridWidth - radius
    let rowHi := min (gridHeight - 1) ((spanHi - 1) / gridWidth + radius)
    (rowLo * gridWidth, (rowHi + 1) * gridWidth)
  let sorted := ranges.insertionSort fun a b => a.1 < b.1 ∨ (a.1 = b.1 ∧ a.2 ≤ b.2)
  (sorted.foldl mergeRange []).reverse

def diffuseFrameStep (density : ℚ) : Nat := (max 1 (roundHalfEven (1 / density))).toNat

def maxStaticRanges : Nat := 8

structure StaticHead where
  headId : Nat
  frameLo : Nat
  frameStep : Nat
  frameTail : Nat
  ranges : List (List (Nat × Nat))
  deriving DecidableEq

namespace MixedSparseAttention
variable (msa : MixedSparseAttention)

variable (layer headStart head : Nat) (geometry : ChunkGeometry)

/-- The key of a head in the taxonomy; the layer has at least two digits. -/
def headKey : String :=
  "L" ++ (if layer < 10 then "0" else "") ++ toString layer ++ "_h" ++ toString head

def specOf : Except MsaError (Nat × HeadSpec) :=
  match msa.taxonomy (headKey layer (headStart + head)) with
  | none => .error (.lacksHead msa.config.taxonomyPath (headKey layer (headStart + head)))
  | some spec => .ok (head, spec)

/-- `_split_heads`: the static heads with their specs, and the content heads. -/
def splitHeads (numLocalHeads : Nat) : Except MsaError (List (Nat × HeadSpec) × List Nat) :=
  ((List.range numLocalHeads).mapM (msa.specOf layer headStart)).map fun specs =>
    (specs.filter (·.2.family.isStatic), (specs.filter (!·.2.family.isStatic)).map Prod.fst)

/-- One head of `_static_plan`. A shortwin head never loses the frames of the query itself. -/
def staticHead (layout : VisibleLayout) (qLen head : Nat) (spec : HeadSpec) : StaticHead :=
  let qBlocks := List.range (blocksPerFrame qLen msa.config.blockQ)
  let whole := qBlocks.map fun _ => [(0, layout.frameSeqlen)]
  match spec.family with
  | .shortwin =>
    { headId := head, frameLo := layout.numFrames - max spec.m layout.queryFrames, frameStep := 1,
      frameTail := 0, ranges := whole }
  | .diffuse =>
    { headId := head, frameLo := 0, frameStep := diffuseFrameStep msa.config.diffuseDensity,
      frameTail := min layout.queryFrames layout.numFrames, ranges := whole }
  | _ =>
    { headId := head, frameLo := 0, frameStep := 1, frameTail := 0,
      ranges := qBlocks.map fun qBlock =>
        localRanges qBlock spec.r msa.config.blockQ qLen layout.frameSeqlen geometry.gridHeight
          geometry.gridWidth }

/-- `_static_plan`, past its memo; a query block of too many ranges fails the assertion. -/
def buildStaticPlan (static : List (Nat × HeadSpec))
    (layout : VisibleLayout) (qLen : Nat) : Except MsaError (List StaticHead) :=
  let plan := static.map fun (head, spec) => msa.staticHead geometry layout qLen head spec
  if plan.all fun head => head.ranges.all fun ranges => ranges.length ≤ maxStaticRanges then
    .ok plan
  else .error .tooManyRanges
end MixedSparseAttention

/-! ## The state -/

abbrev ContentPlan := List (List RangeRow)

abbrev ContentSignature := Option KeySegments × Nat

/-- The plan of each step, the blocks it keeps, and the calls so far. -/
structure ContentEntry where
  stepPlans : List ContentPlan
  stepTopks : List Nat
  kvBlocks : Nat
  calls : Nat

structure MsaState where
  geometry : Option ChunkGeometry
  staticCache : LayoutCache (Nat × Nat × Nat) (List StaticHead)
  pooledHistory : LayoutCache PoolSignature PooledKeys
  contentCache : LayoutCache ContentSignature ContentEntry
  contentIds : Nat × Nat → Option (List Nat)
  schedule : Option (List ℚ)

namespace MsaState
def initial : MsaState where
  geometry := none
  staticCache := .empty
  pooledHistory := .empty
  contentCache := .empty
  contentIds := fun _ => none
  schedule := none

def beginForward (s : MsaState) (g : ChunkGeometry) : MsaState := { s with geometry := some g }
end MsaState

/-! ## Content heads -/

structure ContentRanking where
  lut : List (List (List Nat))
  topk : Nat
  kvBlocks : Nat

def poolSignature (call : SparseAttentionCall BatchTensors) (layout : VisibleLayout) :
    PoolSignature :=
  (call.keySegments, layout.kvLen, layout.frameSeqlen)

def contentSignature (call : SparseAttentionCall BatchTensors) : ContentSignature :=
  (call.keySegments, call.kvLen)

namespace MixedSparseAttention
variable (msa : MixedSparseAttention) (num : SelectionNumerics)

def solveSchedule (framesPerBlock : Nat) : List ℚ :=
  let c := msa.config
  match msa.schedule with
  | .lightforcing =>
    (calculateChunkSparsities num.invSqrt c.lfNumOutputFrames framesPerBlock c.lfLocalAttnSize
      c.lfSparsity c.lfSparsityBase).map fun sparsity =>
        if sparsity ≤ 0 then 1 else max 0 (1 - sparsity)
  | _ =>
    flopsMatchedDensities num.invSqrt (c.scheduleNumFrames.getD 0) framesPerBlock
      c.scheduleWindowFrames c.contentDensity c.scheduleFloorDensity

variable (density : ℚ) (s : MsaState) (geometry : ChunkGeometry)
  (call : SparseAttentionCall BatchTensors) (layout : VisibleLayout) (ranking : ContentRanking)
  (content : List Nat) (inCacheUpdate : Bool)

def callDensity : MsaState × ℚ :=
  match msa.schedule with
  | .constant => (s, msa.config.contentDensity)
  | _ =>
    let densities := s.schedule.getD (msa.solveSchedule num layout.framesPerBlock)
    ({ s with schedule := some densities },
      densities.getD (min layout.queryChunkIndex (densities.length - 1)) 0)

def kvBlocks : Nat :=
  layout.numFrames * blocksPerFrame layout.frameSeqlen msa.config.blockK

def contentTopk : Nat :=
  let c := msa.config
  let kvBlocks := msa.kvBlocks layout
  let topk : Int := min kvBlocks (max 1 (truncate (density * kvBlocks)))
  if c.keepFrames < ((layout.numFrames - layout.queryFrames : Nat) : Int) then
    let eligibleFrames := c.keepFrames + c.keepSink + c.keepNear + layout.queryFrames
    (min topk (eligibleFrames * blocksPerFrame layout.frameSeqlen c.blockK)).toNat
  else topk.toNat

/-- The scoring of `_content_lut`, over given pooled history keys. -/
def rankBlocks (pooledHistory : PooledKeys) : Except KeepError ContentRanking :=
  let c := msa.config
  let topk := msa.contentTopk density layout
  (content.mapM fun head =>
    (pooledQueryOf c.blockQ call head).mapM fun q =>
      (blockScores num c.budget (blocksPerFrame layout.frameSeqlen c.blockK)
        (layout.numFrames - layout.queryFrames) q
        (pooledKeyOf c.blockK call layout pooledHistory head)).map (num.blocks.topk topk)).map
    fun lut => { lut := lut, topk := topk, kvBlocks := msa.kvBlocks layout }

def pooledHistoryFor : MsaState × PooledKeys :=
  match s.pooledHistory.get call.layerIndex (poolSignature call layout) with
  | some pooled => (s, pooled)
  | none =>
    let pooled := poolHistory msa.config.blockK call layout
    ({ s with
        pooledHistory := s.pooledHistory.put call.layerIndex (poolSignature call layout) pooled },
      pooled)

def contentLut : MsaState × Except KeepError ContentRanking :=
  let density := msa.callDensity num s layout
  let pooled := msa.pooledHistoryFor density.1 call layout
  (pooled.1, msa.rankBlocks num density.2 call layout content pooled.2)

/-- `step_topks`: never below the floor of the schedule, never above the ranking. -/
def stepTopks : List Nat :=
  let floorBlocks := max 1 (roundHalfEven (msa.config.scheduleFloorDensity * ranking.kvBlocks))
  msa.config.scales.map fun scale =>
    (min (ranking.topk : Int) (max floorBlocks (roundHalfEven (ranking.topk * scale)))).toNat

/-- Prefixes of the ranking. -/
def stepPlans : List ContentPlan :=
  let bounds := frameAlignedBlockBounds layout.numFrames layout.frameSeqlen msa.config.blockK
  (msa.stepTopks ranking).map fun stepTopk =>
    ranking.lut.map fun head => head.map fun row =>
      maskToRanges (blockMask ranking.kvBlocks (row.take stepTopk)) bounds.1 bounds.2

def replans (calls : Nat) : Bool :=
  msa.config.replanEachStep ||
    (decide (0 < msa.config.replanInterval) && calls % msa.config.replanInterval == 0)

def rankedEntry (calls : Nat) : MsaState × Except KeepError ContentEntry :=
  let found := msa.contentLut num s call layout content
  (found.1, found.2.map fun ranking =>
    { stepPlans := msa.stepPlans layout ranking
      stepTopks := msa.stepTopks ranking
      kvBlocks := ranking.kvBlocks
      calls := calls })

/-- The stored plans unless due, or those of a new ranking, which keeps the count. -/
def contentEntry : MsaState × Except KeepError ContentEntry :=
  match s.contentCache.get call.layerIndex (contentSignature call) with
  | some entry =>
    if msa.replans entry.calls then msa.rankedEntry num s call layout content entry.calls
    else (s, .ok entry)
  | none => msa.rankedEntry num s call layout content 0

/-- What the content kernel runs: its heads and their plan. -/
structure ContentRun where
  headIds : List Nat
  plan : ContentPlan

/-- The cache refresh takes the fullest one. -/
def stepIndex (entry : ContentEntry) : Nat :=
  if inCacheUpdate then 0 else min entry.calls (entry.stepPlans.length - 1)

/-- The content branch of `attend`: one more call is stored, and a plan runs. -/
def contentBranch : MsaState × Except KeepError ContentRun :=
  let found := msa.contentEntry num s call layout content
  match found.2 with
  | .error e => (found.1, .error e)
  | .ok entry =>
    let idsKey := (call.layerIndex, call.headStart)
    let ids := (found.1.contentIds idsKey).getD content
    ({ found.1 with
        contentCache := found.1.contentCache.put call.layerIndex (contentSignature call)
          { entry with calls := entry.calls + 1 }
        contentIds := Function.update found.1.contentIds idsKey (some ids) },
      .ok { headIds := ids, plan := entry.stepPlans.getD (stepIndex inCacheUpdate entry) [] })

/-! ## One call -/

def staticPlan (layer : Nat)
    (static : List (Nat × HeadSpec)) (layout : VisibleLayout) (qLen : Nat) :
    MsaState × Except MsaError (List StaticHead) :=
  let signature := (layout.numFrames, layout.frameSeqlen, qLen)
  match s.staticCache.get layer signature with
  | some plan => (s, .ok plan)
  | none =>
    match msa.buildStaticPlan geometry static layout qLen with
    | .error e => (s, .error e)
    | .ok plan => ({ s with staticCache := s.staticCache.put layer signature plan }, .ok plan)

structure MsaRun where
  static : Option (List StaticHead)
  content : Option ContentRun

def staticBranch (static : List (Nat × HeadSpec)) (layout : VisibleLayout) :
    MsaState × Except MsaError (Option (List StaticHead)) :=
  if static = [] then (s, .ok none)
  else
    let found := msa.staticPlan s geometry call.layerIndex static layout call.queryTokens
    (found.1, found.2.map some)

structure SparseHeads where
  layout : VisibleLayout
  static : Option (List StaticHead)
  content : List Nat

/-- The heads of both kinds, and the plan of the static ones. -/
def sparseHeads : MsaState × Except MsaError (Option SparseHeads) :=
  match msa.splitHeads call.layerIndex call.headStart call.numLocalHeads with
  | .error e => (s, .error e)
  | .ok (static, content) =>
    let found := msa.staticBranch s geometry call static layout
    (found.1, found.2.map fun plan => some { layout := layout, static := plan, content := content })

/-- `attend` up to the content heads: nothing for a dense call. -/
def beforeContent : MsaState × Except MsaError (Option SparseHeads) :=
  match s.geometry, layoutOf s.geometry call with
  | some geometry, .ok layout =>
    if call.kvLen ≤ call.queryTokens then (s, .ok none)
    else if geometry.gridHeight * geometry.gridWidth ≠ layout.frameSeqlen then (s, .ok none)
    else if msa.schedule = .lightforcing then
      let density := msa.callDensity num s layout
      if 1 ≤ density.2 then (density.1, .ok none)
      else msa.sparseHeads density.1 geometry call layout
    else msa.sparseHeads s geometry call layout
  | _, _ => (s, .ok none)

/-- `attend`, up to the kernels: nothing for a dense call, and the error that a call raises. -/
def attend : MsaState × Except MsaError (Option MsaRun) :=
  let first := msa.beforeContent num s call
  match first.2 with
  | .error e => (first.1, .error e)
  | .ok none => (first.1, .ok none)
  | .ok (some heads) =>
    if heads.content = [] then (first.1, .ok (some { static := heads.static, content := none }))
    else
      let second :=
        msa.contentBranch num first.1 call heads.layout heads.content inCacheUpdate
      match second.2 with
      | .error e => (second.1, .error (.keep e))
      | .ok run => (second.1, .ok (some { static := heads.static, content := some run }))
end MixedSparseAttention
end Sglang
