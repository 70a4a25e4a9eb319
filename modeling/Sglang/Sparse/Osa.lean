import Sglang.Sparse.Base

/-!
# Oracle Sparse Attention

Chunk 0 of a video runs dense and measures, for every layer, the attention mass of each key tile of
a frame as seen from each query tile.
-/

namespace Sglang
open Function

open List (range)

/-- A sort of positions by value. Which of two equal values comes first is left open. -/
structure Argsort (r : ℚ → ℚ → Prop) where
  toFun : List ℚ → List Nat
  perm : ∀ xs, (toFun xs).Perm (range xs.length)
  sorted : ∀ xs, ((toFun xs).map fun i => xs.getD i 0).Pairwise r

/-- The softmax probabilities, the two argsorts, and `1 / sqrt n`. -/
structure OsaNumerics (τ : Type) where
  probs : SparseAttentionCall τ → Nat → Nat → Nat → ℚ
  descending : Argsort (· ≥ ·)
  ascending : Argsort (· ≤ ·)
  invSqrt : Nat → ℚ

inductive ChunkSchedule where
  | constant
  | flopsMatched
  deriving DecidableEq

structure OsaConfig where
  density : Option ℚ := none
  sparsity : Option ℚ := none
  sinkChunks : Nat := 1
  sinkLatentFrames : Option Nat := none
  numRecentFrames : Nat := 2
  keepOwnChunkFull : Bool := true
  keepSinkFull : Bool := true
  keepRecentFramesFull : Bool := true
  denseFirstSteps : Nat := 0
  denseCacheUpdate : Bool := false
  chunkSchedule : ChunkSchedule := .constant
  scheduleNumFrames : Option Nat := none
  scheduleWindowFrames : Int := -1
  scheduleFloorDensity : ℚ := 1 / 50
  demandWeighted : Bool := false
  demandWOwn : ℚ := 8
  demandWRecent : ℚ := 4
  demandWSink : ℚ := 5 / 2
  demandWHistScale : ℚ := 8
  chargeExemptFrames : Bool := true
  replanEachChunk : Bool := false
  replanQueryStride : Nat := 32
  flatRowDense : Bool := false
  flatRowRetention : ℚ := 1 / 2
  flatRowMaxFraction : ℚ := 1 / 4
  spatialTile : Nat := 64
  queryTile : Nat := 128
  calibrationQueryStride : Nat := 8

namespace OsaConfig
inductive Error where
  | bothSet
  | badDensity
  | needsNumFrames
  | replanCombined
  deriving DecidableEq

def Error.message : Error → String
  | .bothSet => "set either density or sparsity, not both"
  | .badDensity => "osa needs density in (0, 1] (or the equivalent sparsity in [0, 1))"
  | .needsNumFrames =>
    "chunk_schedule='flops_matched' needs schedule_num_frames (the video's latent frame count)"
  | .replanCombined =>
    "replan_each_chunk replaces the frozen replicated pattern; demand_weighted and flat_row_dense " ++
      "describe that pattern and cannot be combined with it"

def givenDensity (c : OsaConfig) : Option ℚ := c.density <|> c.sparsity.map (1 - ·)
end OsaConfig

structure OracleSparseAttention where
  config : OsaConfig
  density : ℚ
  density_pos : 0 < density
  density_le_one : density ≤ 1
  schedule_frames : config.chunkSchedule = .flopsMatched → config.scheduleNumFrames.getD 0 ≠ 0
  replan_alone : config.replanEachChunk = true →
    config.demandWeighted = false ∧ config.flatRowDense = false

namespace OracleSparseAttention
def init (c : OsaConfig) : Except OsaConfig.Error OracleSparseAttention :=
  if c.density.isSome ∧ c.sparsity.isSome then .error .bothSet
  else
    match c.givenDensity with
    | none => .error .badDensity
    | some d =>
      if hd : 0 < d ∧ d ≤ 1 then
        if hs : c.chunkSchedule = .flopsMatched → c.scheduleNumFrames.getD 0 ≠ 0 then
          if hr : c.replanEachChunk = true → c.demandWeighted = false ∧ c.flatRowDense = false then
            .ok ⟨c, d, hd.1, hd.2, hs, hr⟩
          else .error .replanCombined
        else .error .needsNumFrames
      else .error .badDensity
end OracleSparseAttention

/-! ## Measurements -/

section
variable {τ : Type}

def sampledPositions (queryTokens stride : Nat) : List Nat :=
  (range queryTokens).filter fun p => p % stride == 0

/-- The mass of query tile `t` on tokens `[k * tile, (k + 1) * tile)` of frame `f`. -/
def tileMass (probs : Nat → Nat → ℚ) (positions : List Nat) (frameSeqlen spatialTile f k : Nat) :
    ℚ :=
  (positions.map fun p =>
    ((range spatialTile).map fun w =>
      if k * spatialTile + w < frameSeqlen then probs p (f * frameSeqlen + k * spatialTile + w)
      else 0).sum).sum

def tilePositions (queryTokens stride frameSeqlen queryTile t : Nat) : List Nat :=
  (sampledPositions queryTokens stride).filter fun p => p % frameSeqlen / queryTile == t

/-- With the short last one. -/
def tilesOf (frameSeqlen size : Nat) : Nat := (frameSeqlen + size - 1) / size

/-- `measure_section_tile_mass`: the mean mass, the key axis folded modulo the frame. -/
def measureSectionTileMass (num : OsaNumerics τ) (call : SparseAttentionCall τ)
    (layout : VisibleLayout) (queryStride queryTile spatialTile : Nat) : Rows ℚ :=
  (range call.heads).map fun h =>
    (range (tilesOf layout.frameSeqlen queryTile)).map fun t =>
      let positions := tilePositions call.queryTokens queryStride layout.frameSeqlen queryTile t
      (range (tilesOf layout.frameSeqlen spatialTile)).map fun k =>
        ((range layout.numFrames).map fun f =>
          tileMass (num.probs call h) positions layout.frameSeqlen spatialTile f k).sum /
            max positions.length 1

/-- `measure_visible_tile_mass`: the same with the frame axis kept; one list per frame. -/
def measureVisibleTileMass (num : OsaNumerics τ) (call : SparseAttentionCall τ)
    (layout : VisibleLayout) (queryStride queryTile spatialTile : Nat) : Rows (List ℚ) :=
  (range call.heads).map fun h =>
    (range (tilesOf layout.frameSeqlen queryTile)).map fun t =>
      let positions := tilePositions call.queryTokens queryStride layout.frameSeqlen queryTile t
      (range layout.numFrames).map fun f =>
        (range (tilesOf layout.frameSeqlen spatialTile)).map fun k =>
          tileMass (num.probs call h) positions layout.frameSeqlen spatialTile f k /
            max positions.length 1
end

/-! ## Budgets -/

/-- `round`: to the nearest integer, a half to the even one. -/
def roundHalfEven (x : ℚ) : Int :=
  let below := ⌊x⌋
  if x - below < 1 / 2 then below
  else if 1 / 2 < x - below then below + 1
  else if below % 2 = 0 then below else below + 1

def clip (n lo hi : Int) : Int := min (max n lo) hi

def flopsMatchedDensities (invSqrt : Nat → ℚ) (numFrames framesPerBlock : Nat) (windowFrames : Int)
    (meanDensity floorDensity : ℚ) : List ℚ :=
  let counts : List Nat := (range (numFrames + 1)).filter fun c =>
    decide (2 * framesPerBlock ≤ c) && c % framesPerBlock == 0
  let kv : List ℚ := counts.map fun (c : Nat) =>
    (if windowFrames < 0 then (c : Int) else min (c : Int) windowFrames : Int)
  let alphas := counts.map invSqrt
  let target := (kv.map (meanDensity * ·)).sum
  let base := (kv.map (floorDensity * ·)).sum
  let weighted := (List.zipWith (· * ·) alphas kv).sum
  if weighted = 0 then 1 :: List.replicate counts.length meanDensity
  else
    let beta := (target - base) / weighted
    1 :: alphas.map fun a => min 1 (max floorDensity (floorDensity + a * beta))

/-- The tiles of a frame of weight `w`. If the weights sum to 0 the share is infinite or NaN, whose
count keeps nothing. -/
def demandCount (budget total w : ℚ) (tile numTiles : Nat) : Nat :=
  if total = 0 then
    if budget * w = 0 then 0 else if 0 < budget * w then numTiles else min 1 numTiles
  else (clip (roundHalfEven (budget * w / total / tile)) 1 numTiles).toNat

def maskFrames (mask : List Bool) : List Nat :=
  (range mask.length).filter fun f => mask.getD f false

def frameAges (layout : VisibleLayout) (queryChunkOffset : Int) : List Int :=
  let own := (maskFrames (layout.framesOfOffset queryChunkOffset)).map fun f =>
    layout.globalFrameIds.getD f 0
  let ownStart := own.min?.getD 0
  layout.globalFrameIds.map fun f => ownStart - f

namespace OracleSparseAttention
variable (osa : OracleSparseAttention) (invSqrt : Nat → ℚ) (schedule : Option (List ℚ))
  (ascending : Argsort (· ≤ ·)) (density : ℚ) (layout : VisibleLayout) (own : List Bool)
  (ages : List Int)

def sinkFrames (framesPerBlock : Nat) : Nat :=
  osa.config.sinkLatentFrames.getD (osa.config.sinkChunks * framesPerBlock)

def isRecent (age : Int) : Bool :=
  decide (0 < age ∧ age ≤ osa.config.numRecentFrames)

def wholeFrameMask : List Bool :=
  let sink := layout.sinkFrames (osa.sinkFrames layout.framesPerBlock)
  (range layout.numFrames).map fun f =>
    (osa.config.keepOwnChunkFull && own.getD f false) ||
      (osa.config.keepSinkFull && sink.getD f false) ||
      (osa.config.keepRecentFramesFull && osa.isRecent (ages.getD f 0))

def demandWeights (full : List Bool) : List ℚ :=
  let c := osa.config
  let sink := layout.sinkFrames (osa.sinkFrames layout.framesPerBlock)
  (maskFrames (full.map (!·))).map fun f =>
    let age := ages.getD f 0
    if osa.isRecent age then c.demandWRecent
    else if own.getD f false then c.demandWOwn
    else if sink.getD f false then c.demandWSink
    else min (max (c.demandWHistScale / max (age : ℚ) 1) 1) c.demandWRecent

/-- Stored, or solved for this layout. -/
def scheduleFor : List ℚ :=
  schedule.getD <| flopsMatchedDensities invSqrt (osa.config.scheduleNumFrames.getD 0)
    layout.framesPerBlock osa.config.scheduleWindowFrames osa.density
    osa.config.scheduleFloorDensity

def callDensity : ℚ :=
  match osa.config.chunkSchedule with
  | .constant => osa.density
  | .flopsMatched =>
    let densities := osa.scheduleFor invSqrt schedule layout
    densities.getD (min layout.queryChunkIndex (densities.length - 1)) 0

/-- What is left for the frames that are not whole. -/
def patternBudget (numFull : Nat) : ℚ :=
  let budget := density * layout.numFrames * layout.frameSeqlen
  if osa.config.chargeExemptFrames then budget - numFull * layout.frameSeqlen else budget

/-- `_flat_rows`: the query tiles of low retention at `kRef` tiles, the worst first. -/
def flatRows (retention : Option (Rows ℚ)) (kRef : Nat) : List Nat :=
  match retention with
  | none => []
  | some curves =>
    let perRow : List ℚ := (range curves.rows).map fun t =>
      (curves.map fun head => (head.getD t []).getD (kRef - 1) 0).sum / curves.length
    let cap := ⌊(perRow.length : ℚ) * osa.config.flatRowMaxFraction⌋.toNat
    let rows := (range perRow.length).filter fun t =>
      decide (perRow.getD t 0 < osa.config.flatRowRetention)
    if cap = 0 then []
    else if cap < rows.length then
      ((ascending.toFun (rows.map fun t => perRow.getD t 0)).take cap).map fun i => rows.getD i 0
    else rows

def flatTokenIndex (rows : List Nat) : Option (List Nat) :=
  if rows.isEmpty then none
  else
    some <| (range layout.queryFrames).flatMap fun frame => rows.flatMap fun row =>
      List.range' (frame * layout.frameSeqlen + row * osa.config.queryTile)
        (min ((row + 1) * osa.config.queryTile) layout.frameSeqlen - row * osa.config.queryTile)

/-- `_chunk_plan`: one query chunk's plan and flat rows; no plan where everything is kept. -/
def chunkPlan (order : Rows Nat) (queryChunkOffset : Nat)
    (retention : Option (Rows ℚ)) : Option BlockSparsePlan × List Nat :=
  let tile := osa.config.spatialTile
  let own := layout.framesOfOffset queryChunkOffset
  if own.any id then
    let ages := frameAges layout queryChunkOffset
    let full := osa.wholeFrameMask layout own ages
    let hist := maskFrames (full.map (!·))
    let whole := maskFrames full
    let budget := osa.patternBudget density layout whole.length
    if hist.length = 0 ∨ budget ≥ hist.length * layout.frameSeqlen then (none, [])
    else
      let plan (tiles : Rows Nat) (counts : Option (List Nat)) :=
        buildBlockPlan tiles (hist.map (· * layout.frameSeqlen)) (whole.map (· * layout.frameSeqlen))
          layout.frameSeqlen osa.config.queryTile tile layout.kvLen counts
      if osa.config.demandWeighted then
        let weights := osa.demandWeights layout own ages full
        let counts := weights.map (demandCount budget weights.sum · tile order.width)
        let kRef := (clip (roundHalfEven ((counts.sum : ℚ) / counts.length)) 1 order.width).toNat
        (some (plan order (some counts)), osa.flatRows ascending retention kRef)
      else
        let tilesKept :=
          (min (max 1 (roundHalfEven (budget / (hist.length * tile)))) order.width).toNat
        (some (plan (order.mapRows (·.take tilesKept)) none), osa.flatRows ascending retention tilesKept)
  else (none, [])
end OracleSparseAttention

/-! ## The backend's state -/

/-- One plan with the tokens of its flat rows, or one plan per chunk of a window. -/
inductive OsaEntry where
  | single (plan : BlockSparsePlan) (flatIndex : Option (List Nat))
  | window (plans : List (Option BlockSparsePlan))
  deriving DecidableEq

inductive OsaDecline where
  | layout (reason : DenseReason)
  | cacheUpdate
  | firstSteps
  | calibration
  | neverCalibrated (layer : Nat)
  | ragged (queryFrames framesPerBlock : Nat)
  | headCount (calibrated layer numLocalHeads : Nat)
  | replanWindow (queryFrames framesPerBlock : Nat)
  | keepsEverything
  deriving DecidableEq

abbrev OsaSignature := Option KeySegments × Nat × Nat × Nat

structure OsaState where
  geometry : Option ChunkGeometry
  sectionMass : Nat → Option (Rows ℚ)
  sectionOrder : Nat → Option (Rows Nat)
  retention : Nat → Option (Rows ℚ)
  plans : LayoutCache OsaSignature (Option OsaEntry)
  lastChunkIndex : Int
  forwardsThisChunk : Nat
  schedule : Option (List ℚ)

namespace OsaState
def initial : OsaState where
  geometry := none
  sectionMass := fun _ => none
  sectionOrder := fun _ => none
  retention := fun _ => none
  plans := .empty
  lastChunkIndex := -1
  forwardsThisChunk := 0
  schedule := none

variable (s : OsaState) (geometry : ChunkGeometry)

def reset : OsaState :=
  { initial with geometry := s.geometry, schedule := s.schedule }

def onBeginForward : OsaState :=
  let chunkIndex : Int := geometry.queryChunkIndex
  let s := if chunkIndex < s.lastChunkIndex then s.reset else s
  { s with
    forwardsThisChunk := if chunkIndex ≠ s.lastChunkIndex then 0 else s.forwardsThisChunk + 1
    lastChunkIndex := chunkIndex }

def beginForward : OsaState :=
  ({ s with geometry := some geometry } : OsaState).onBeginForward geometry
end OsaState

namespace OracleSparseAttention
variable {τ : Type} (osa : OracleSparseAttention) (num : OsaNumerics τ)

variable (fullTiles : Nat) (mass : Rows ℚ) (density : ℚ) (s : OsaState)
  (call : SparseAttentionCall τ) (inCacheUpdate : Bool) (layout : VisibleLayout) (order : Rows Nat)

def massOrder : Rows Nat :=
  mass.mapRows fun row => num.descending.toFun (row.take fullTiles)

/-- The share of a row's mass in its `i + 1` heaviest tiles. -/
def retentionCurve : Rows ℚ :=
  mass.mapRows fun row =>
    let sorted := (row.take fullTiles).insertionSort (· ≥ ·)
    let cumulative := (range sorted.length).map fun i => (sorted.take (i + 1)).sum
    cumulative.map (· / max (cumulative.getLastD 0) (1 / 1000000000))

/-- The layer's frozen order, frozen now if need be; `none` without a measurement. -/
def frozenOrder (layer : Nat) (layout : VisibleLayout) : Option (Rows Nat × OsaState) :=
  match s.sectionOrder layer with
  | some order => some (order, s)
  | none =>
    (s.sectionMass layer).map fun mass =>
      let fullTiles := layout.frameSeqlen / osa.config.spatialTile
      let order := massOrder num fullTiles mass
      (order,
        { s with
          sectionOrder := update s.sectionOrder layer (some order)
          retention :=
            if osa.config.flatRowDense then
              update s.retention layer (some (retentionCurve fullTiles mass))
            else s.retention
          sectionMass := update s.sectionMass layer none })

/-- Nothing where all chunks keep everything. -/
def buildEntry (retention : Option (Rows ℚ)) : Option OsaEntry :=
  let numQueryChunks := layout.queryFrames / layout.framesPerBlock
  if numQueryChunks = 1 then
    let planned := osa.chunkPlan num.ascending density layout order 0 retention
    planned.1.map fun plan => .single plan (osa.flatTokenIndex layout planned.2)
  else
    let plans := (range numQueryChunks).map fun offset =>
      (osa.chunkPlan num.ascending density layout order offset none).1
    if plans.all Option.isNone then none else some (.window plans)

/-- The schedule after a call: solved by the first chunk that asks for a density. -/
def scheduleAfter (schedule : Option (List ℚ)) (layout : VisibleLayout) (numQueryChunks : Nat) :
    Option (List ℚ) :=
  let asked := (range numQueryChunks).any fun offset => (layout.framesOfOffset offset).any id
  if osa.config.chunkSchedule = .flopsMatched ∧ asked = true then
    some (osa.scheduleFor num.invSqrt schedule layout)
  else schedule

def signature : OsaSignature :=
  (call.keySegments, layout.queryFrames, call.headStart, call.numLocalHeads)

def entryResult : Option OsaEntry → Except OsaDecline OsaEntry
  | none => .error .keepsEverything
  | some entry => .ok entry

/-- The plan of a call whose layer has the frozen `order`. -/
def plannedCall : OsaState × Except OsaDecline OsaEntry :=
  if layout.queryFrames % layout.framesPerBlock ≠ 0 then
    (s, .error (.ragged layout.queryFrames layout.framesPerBlock))
  else
    match s.plans.get call.layerIndex (signature call layout) with
    | some cached => (s, entryResult cached)
    | none =>
      if order.length ≠ call.numLocalHeads then
        (s, .error (.headCount order.length call.layerIndex call.numLocalHeads))
      else
        let entry := osa.buildEntry num (osa.callDensity num.invSqrt s.schedule layout) layout order
          (s.retention call.layerIndex)
        ({ s with
            plans := s.plans.put call.layerIndex (signature call layout) entry
            schedule := osa.scheduleAfter num s.schedule layout
              (layout.queryFrames / layout.framesPerBlock) },
          entryResult entry)

/-- `_measured_chunk_plan`: each row buys its heaviest tiles in the frames that are not whole. -/
def measuredChunkPlan : Option BlockSparsePlan :=
  let tile := osa.config.spatialTile
  let fullTiles := layout.frameSeqlen / tile
  let own := layout.framesOfOffset 0
  if own.any id then
    let full := osa.wholeFrameMask layout own (frameAges layout 0)
    let hist := maskFrames (full.map (!·))
    let whole := maskFrames full
    let budget := osa.patternBudget density layout whole.length
    if hist.length = 0 ∨ budget ≥ hist.length * layout.frameSeqlen then none
    else
      let totalKept :=
        (min (max 1 (roundHalfEven (budget / tile))) (hist.length * fullTiles : Nat)).toNat
      let tileStarts : Rows Nat :=
        (measureVisibleTileMass num call layout osa.config.replanQueryStride osa.config.queryTile
          tile).map fun head => head.map fun frames =>
            let candidates := hist.flatMap fun f => (frames.getD f []).take fullTiles
            ((num.descending.toFun candidates).take totalKept).map fun top =>
              hist.getD (top / fullTiles) 0 * layout.frameSeqlen + top % fullTiles * tile
      some (buildMeasuredBlockPlan tileStarts (whole.map (· * layout.frameSeqlen))
        layout.frameSeqlen osa.config.queryTile tile layout.kvLen)
  else none

def replanEntry : OsaState × Except OsaDecline OsaEntry :=
  if layout.queryFrames % layout.framesPerBlock ≠ 0 ∨
      layout.queryFrames / layout.framesPerBlock ≠ 1 then
    (s, .error (.replanWindow layout.queryFrames layout.framesPerBlock))
  else
    match s.plans.get call.layerIndex (signature call layout) with
    | some cached => (s, entryResult cached)
    | none =>
      let entry := (osa.measuredChunkPlan num (osa.callDensity num.invSqrt s.schedule layout) call
        layout).map fun plan => OsaEntry.single plan none
      ({ s with
          plans := s.plans.put call.layerIndex (signature call layout) entry
          schedule := osa.scheduleAfter num s.schedule layout 1 },
        entryResult entry)

def measured : Rows ℚ :=
  measureSectionTileMass num call layout osa.config.calibrationQueryStride osa.config.queryTile
    osa.config.spatialTile

def preparePlan : OsaState × Except OsaDecline OsaEntry :=
  if osa.config.denseCacheUpdate && inCacheUpdate then (s, .error .cacheUpdate)
  else if 0 < osa.config.denseFirstSteps ∧ inCacheUpdate = false ∧
      s.forwardsThisChunk < osa.config.denseFirstSteps then
    (s, .error .firstSteps)
  else if layout.queryChunkIndex = 0 then
    -- the refresh pass runs after the last denoising step and must not overwrite its measurement
    if inCacheUpdate = false ∧ osa.config.replanEachChunk = false then
      ({ s with
          sectionMass := update s.sectionMass call.layerIndex (some (osa.measured num call layout)) },
        .error .calibration)
    else (s, .error .calibration)
  else if osa.config.replanEachChunk then osa.replanEntry num s call layout
  else
    match osa.frozenOrder num s call.layerIndex layout with
    | none => (s, .error (.neverCalibrated call.layerIndex))
    | some frozen => osa.plannedCall num frozen.2 call layout frozen.1

def runnable : Except OsaDecline OsaEntry → Except OsaDecline OsaEntry
  | .ok (.window plans) =>
    if plans.any Option.isNone then .error .keepsEverything else .ok (.window plans)
  | result => result

/-- `attend`, up to the kernels: the entry that runs, or why the call runs dense. -/
def attend : OsaState × Except OsaDecline OsaEntry :=
  match layoutOf s.geometry call with
  | .error reason => (s, .error (.layout reason))
  | .ok layout =>
    let prepared := osa.preparePlan num s call inCacheUpdate layout
    (prepared.1, runnable prepared.2)
end OracleSparseAttention
end Sglang
