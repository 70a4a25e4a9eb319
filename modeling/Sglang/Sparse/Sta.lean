import Sglang.Lib.BucketSort
import Sglang.Lib.Run
import Sglang.Sparse.Base
import Sglang.Sparse.SegmentPlan

/-!
# Sliding Tile Attention and its plan memo

STA cuts every latent frame into spatial tiles, orders the tokens tile by tile and lets a query tile
read a window of key tiles that is clamped to the canvas.
-/

namespace Sglang
open List

structure StaConfig where
  kernelT : Nat := 5
  kernelH : Nat := 3
  kernelW : Nat := 3
  tileH : Nat := 0
  tileW : Nat := 0
  block : Nat := 128
  denseSinkFrames : Nat := 0
  deriving DecidableEq

/-! ## Tiles -/

def divisors (n : Nat) : List Nat := (range' 1 n).filter fun d => n % d == 0

/-- Distance from 64 tokens, and anisotropy. -/
def tileScore (degenerate : Bool) (th tw : Nat) : ℚ :=
  let ratio : ℚ := if degenerate then 1 else (max th tw : Nat) / (min th tw : Nat)
  |((th * tw : Nat) : ℚ) - 64| + 2 * (ratio - 1)

/-- The first divisor pair of the lowest score. A grid has one, so the default is never taken. -/
def pickTile (extent otherExtent : Nat) : Nat × Nat :=
  let degenerate := min extent otherExtent == 1
  let pairs := (divisors extent).flatMap fun th => (divisors otherExtent).map fun tw => (th, tw)
  let best := pairs.foldl
    (fun best (pair : Nat × Nat) =>
      let score := tileScore degenerate pair.1 pair.2
      match best with
      | none => some (score, pair)
      | some (lowest, _) => if score < lowest then some (score, pair) else best)
    (none : Option (ℚ × Nat × Nat))
  (best.map Prod.snd).getD (0, 0)

def tileMajorPermutation (gridH gridW tileH tileW : Nat) : List Nat :=
  let tilesW := gridW / tileW
  stableArgsort <| (range (gridH * gridW)).map fun token =>
    let row := token / gridW
    let col := token % gridW
    let tileId := row / tileH * tilesW + col / tileW
    let within := row % tileH * tileW + col % tileW
    tileId * (tileH * tileW) + within

/-- The window of `kernel` cells around a position, clamped to the canvas. -/
def clampedWindow (extent kernel position : Nat) : List Bool :=
  if extent ≤ kernel then replicate extent true
  else
    let half := kernel / 2
    let center := min (max position half) (extent - 1 - half)
    (range extent).map fun x => decide (center - x ≤ half ∧ x - center ≤ half)

def buildStaTileMask (c : StaConfig) (numFrames queryFrames gridH gridW tileH tileW : Nat) :
    List (List Bool) :=
  let tilesH := gridH / tileH
  let tilesW := gridW / tileW
  let timeKeep (f : Nat) : List Bool :=
    (clampedWindow numFrames c.kernelT (numFrames - queryFrames + f)).mapIdx fun x keep =>
      keep || decide (x < c.denseSinkFrames)
  let spatial (th tw : Nat) : List Bool :=
    (clampedWindow tilesH c.kernelH th).flatMap fun rowKeep =>
      (clampedWindow tilesW c.kernelW tw).map fun colKeep => rowKeep && colKeep
  (range queryFrames).flatMap fun f =>
    (range tilesH).flatMap fun th =>
      (range tilesW).map fun tw =>
        (timeKeep f).flatMap fun keep => (spatial th tw).map fun inside => keep && inside

/-! ## Plans -/

/-- The key ranges, and the tile-major orders of queries and keys. -/
structure StaPlan where
  rows : List (List RangeRow)
  blockM : Nat
  queryIndex : List Nat
  keyIndex : List Nat
  deriving DecidableEq

structure StaTiling where
  tileH : Nat
  tileW : Nat
  permutation : List Nat
  deriving DecidableEq

/-- `none` if the tile does not divide the grid. -/
def freshTiling (c : StaConfig) (gridH gridW : Nat) : Option StaTiling :=
  let (tileH, tileW) :=
    if c.tileH = 0 ∨ c.tileW = 0 then pickTile gridH gridW else (c.tileH, c.tileW)
  if gridH % tileH ≠ 0 ∨ gridW % tileW ≠ 0 then none
  else
    some
      { tileH := tileH
        tileW := tileW
        permutation := tileMajorPermutation gridH gridW tileH tileW }

def frameIndex (frames frameSeqlen : Nat) (permutation : List Nat) : List Nat :=
  (range frames).flatMap fun f => permutation.map fun i => f * frameSeqlen + i

def buildPlan (c : StaConfig) (layout : VisibleLayout) (gridH gridW : Nat) (tiling : StaTiling)
    (numHeads : Nat) : Option StaPlan :=
  let tileTokens := tiling.tileH * tiling.tileW
  let tileMask := buildStaTileMask c layout.numFrames layout.queryFrames gridH gridW tiling.tileH
    tiling.tileW
  if tileMask.all fun row => row.all id then none
  else
    let qLen := layout.queryFrames * layout.frameSeqlen
    let qBlocks := (qLen + c.block - 1) / c.block
    let keyTiles := (tileMask.headD []).length
    let rowTile (i : Nat) : Nat := min (i / tileTokens) (tileMask.length - 1)
    -- a query block reads what any of the tiles that its rows fall in reads
    let mask (b : Nat) : List Bool :=
      let first := rowTile (b * c.block)
      let last := rowTile (min ((b + 1) * c.block) qLen - 1)
      (range keyTiles).map fun k =>
        (tileMask.extract first (last + 1)).any fun row => row.getD k false
    let starts := (range keyTiles).map fun k => k * tileTokens
    let ends := (range keyTiles).map fun k => (k + 1) * tileTokens
    some
      { rows := replicate numHeads <|
          (range qBlocks).map fun b => maskToRanges (mask b) starts ends
        blockM := c.block
        queryIndex := frameIndex layout.queryFrames layout.frameSeqlen tiling.permutation
        keyIndex := frameIndex layout.numFrames layout.frameSeqlen tiling.permutation }

lemma buildPlan_congr {c : StaConfig} {L layout' : VisibleLayout} (gridH gridW : Nat)
    (tiling : StaTiling) (numHeads : Nat) (hn : L.numFrames = layout'.numFrames)
    (hq : L.queryFrames = layout'.queryFrames) (hs : L.frameSeqlen = layout'.frameSeqlen) :
    buildPlan c L gridH gridW tiling numHeads = buildPlan c layout' gridH gridW tiling numHeads := by
  unfold buildPlan
  rw [hn, hq, hs]

/-! ## The backend -/

abbrev StaSignature := Nat × Nat × Nat

structure StaAttention where
  plans : LayoutCache StaSignature (Option StaPlan)
  tiling : Option ((Nat × Nat) × StaTiling)

namespace StaAttention
def initial : StaAttention := { plans := LayoutCache.empty, tiling := none }

/-- `_frame_tiling`: the kept tiling of the grid, or a new one. -/
def frameTiling (c : StaConfig) (s : StaAttention) (gridH gridW : Nat) :
    StaAttention × Option StaTiling :=
  match s.tiling with
  | some (grid, tiling) =>
    if grid = (gridH, gridW) then (s, some tiling) else renew
  | none => renew
where
  renew : StaAttention × Option StaTiling :=
    match freshTiling c gridH gridW with
    | none => (s, none)
    | some tiling => ({ s with tiling := some ((gridH, gridW), tiling) }, some tiling)

variable {τ : Type}

variable (c : StaConfig) (s : StaAttention) (geometry : ChunkGeometry)
  (call : SparseAttentionCall τ)

/-- Up to the gathers. -/
def prepare (layout : VisibleLayout) : StaAttention × Option StaPlan :=
  -- ramp-up: the view holds nothing beyond the query
  if call.kvLen ≤ call.queryTokens then (s, none)
  else if geometry.gridHeight * geometry.gridWidth ≠ layout.frameSeqlen then (s, none)
  else
    match s.frameTiling c geometry.gridHeight geometry.gridWidth with
    | (s, none) => (s, none)
    | (s, some tiling) =>
      let signature := (layout.numFrames, call.queryTokens, call.numLocalHeads)
      match s.plans.get layout.numFrames signature with
      | some cached => (s, cached)
      | none =>
        let cached := buildPlan c layout geometry.gridHeight geometry.gridWidth tiling
          call.numLocalHeads
        ({ s with plans := s.plans.put layout.numFrames signature cached }, cached)

def attend : StaAttention × Option StaPlan :=
  match layoutOf (some geometry) call with
  | .error _ => (s, none)
  | .ok layout => s.prepare c geometry call layout

/-! ## What a call gives without a memo -/

def reached : Option (VisibleLayout × StaTiling) :=
  match layoutOf (some geometry) call with
  | .error _ => none
  | .ok layout =>
    if call.kvLen ≤ call.queryTokens then none
    else if geometry.gridHeight * geometry.gridWidth ≠ layout.frameSeqlen then none
    else (freshTiling c geometry.gridHeight geometry.gridWidth).map fun tiling => (layout, tiling)

def scratchPlan : Option StaPlan :=
  match reached c geometry call with
  | none => none
  | some (layout, tiling) =>
    buildPlan c layout geometry.gridHeight geometry.gridWidth tiling call.numLocalHeads
end StaAttention

/-! ## Calls in a row -/

/-- The backend and the calls it has answered, with their geometries. -/
structure StaRun (τ : Type) where
  backend : StaAttention
  calls : List (ChunkGeometry × SparseAttentionCall τ)

namespace StaRun
open StaAttention
variable {τ : Type} {c : StaConfig}

def initial : StaRun τ := { backend := StaAttention.initial, calls := [] }

section
variable (c : StaConfig) (r : StaRun τ) (e : ChunkGeometry × SparseAttentionCall τ)
  (calls : List (ChunkGeometry × SparseAttentionCall τ)) (n : Nat)

def next : StaRun τ :=
  { backend := (r.backend.attend c e.1 e.2).1, calls := e :: r.calls }

def slot : Option Nat :=
  (reached c e.1 e.2).map fun x => x.1.numFrames

def lastAt : Option (ChunkGeometry × SparseAttentionCall τ) :=
  calls.find? fun e => slot c e == some n

def SameGrid : Prop :=
  ∀ n, slot c e = some n → ∀ e', lastAt c r.calls n = some e' →
    e'.2.queryTokens = e.2.queryTokens → e'.2.numLocalHeads = e.2.numLocalHeads →
    e'.1.gridHeight = e.1.gridHeight ∧ e'.1.gridWidth = e.1.gridWidth

def expected : Option (StaSignature × Option StaPlan) :=
  (lastAt c calls n).map fun e =>
    ((n, e.2.queryTokens, e.2.numLocalHeads), scratchPlan c e.1 e.2)

structure Inv : Prop where
  tiling : ∀ gridH gridW t, r.backend.tiling = some ((gridH, gridW), t) →
    freshTiling c gridH gridW = some t
  plans : ∀ n, r.backend.plans n = expected c r.calls n
end

lemma inv_initial : Inv c (initial : StaRun τ) where
  tiling _ _ _ h := by cases h
  plans _ := rfl

variable {s : StaAttention} {geo : ChunkGeometry} {call : SparseAttentionCall τ}
  {L : VisibleLayout} {tiling : StaTiling}

lemma frameTiling_spec (gridH gridW : Nat)
    (h : ∀ gridH gridW t, s.tiling = some ((gridH, gridW), t) → freshTiling c gridH gridW = some t) :
    (s.frameTiling c gridH gridW).2 = freshTiling c gridH gridW ∧
      (s.frameTiling c gridH gridW).1.plans = s.plans ∧
      ∀ gridH' gridW' t, (s.frameTiling c gridH gridW).1.tiling = some ((gridH', gridW'), t) →
        freshTiling c gridH' gridW' = some t := by
  have hrenew : (frameTiling.renew c s gridH gridW).2 = freshTiling c gridH gridW ∧
      (frameTiling.renew c s gridH gridW).1.plans = s.plans ∧
      ∀ gridH' gridW' t, (frameTiling.renew c s gridH gridW).1.tiling = some ((gridH', gridW'), t) →
        freshTiling c gridH' gridW' = some t := by
    unfold frameTiling.renew
    rcases hf : freshTiling c gridH gridW with _ | tiling
    · exact ⟨rfl, rfl, h⟩
    refine ⟨rfl, rfl, ?_⟩
    rintro gridH' gridW' t ht
    cases ht
    exact hf
  unfold frameTiling
  rcases ht : s.tiling with _ | ent
  · exact hrenew
  obtain ⟨⟨kh, kw⟩, tiling⟩ := ent
  dsimp only
  by_cases hg : (kh, kw) = (gridH, gridW)
  · cases hg
    rw [if_pos rfl]
    exact ⟨(h _ _ _ ht).symm, rfl, h⟩
  · rw [if_neg hg]
    exact hrenew

variable (h : ∀ gridH gridW t, s.tiling = some ((gridH, gridW), t) → freshTiling c gridH gridW = some t)
include h

lemma attend_of_not_reached (hr : reached c geo call = none) :
    (s.attend c geo call).2 = none ∧ (s.attend c geo call).1.plans = s.plans ∧
      ∀ gridH gridW t, (s.attend c geo call).1.tiling = some ((gridH, gridW), t) →
        freshTiling c gridH gridW = some t := by
  unfold reached at hr
  rcases hl : layoutOf (some geo) call with e | L
  · have hdense : s.attend c geo call = (s, none) := by simp only [attend, hl]
    rw [hdense]
    exact ⟨rfl, rfl, h⟩
  have hprepare : s.attend c geo call = s.prepare c geo call L := by
    simp only [attend, hl]
  rw [hprepare]
  simp only [hl] at hr
  unfold prepare
  by_cases hkv : call.kvLen ≤ call.queryTokens
  · rw [if_pos hkv]
    exact ⟨rfl, rfl, h⟩
  rw [if_neg hkv] at hr ⊢
  by_cases hg : geo.gridHeight * geo.gridWidth ≠ L.frameSeqlen
  · rw [if_pos hg]
    exact ⟨rfl, rfl, h⟩
  rw [if_neg hg] at hr ⊢
  rw [Option.map_eq_none_iff] at hr
  obtain ⟨h2, hp, ht⟩ := frameTiling_spec geo.gridHeight geo.gridWidth h
  grind

/-- A call at the memo runs the stored plan, or its own, which is then stored. -/
lemma attend_of_reached (hr : reached c geo call = some (L, tiling)) :
    let sig := (L.numFrames, call.queryTokens, call.numLocalHeads)
    let plan := (s.plans.get L.numFrames sig).getD (scratchPlan c geo call)
    (s.attend c geo call).2 = plan ∧
      (s.attend c geo call).1.plans = s.plans.put L.numFrames sig plan ∧
      ∀ gridH gridW t, (s.attend c geo call).1.tiling = some ((gridH, gridW), t) →
        freshTiling c gridH gridW = some t := by
  have hscratch : scratchPlan c geo call = buildPlan c L geo.gridHeight
      geo.gridWidth tiling call.numLocalHeads := by
    simp only [scratchPlan, hr]
  rw [hscratch]
  unfold attend
  unfold reached at hr
  rcases hl : layoutOf (some geo) call with e | l
  · rw [hl] at hr
    cases hr
  simp only [hl] at hr
  split_ifs at hr with hkv hg
  obtain ⟨t, hf, ht⟩ := Option.map_eq_some_iff.mp hr
  cases ht
  simp only [prepare, hkv, if_false, hg]
  obtain ⟨h2, hp, ht⟩ := frameTiling_spec geo.gridHeight geo.gridWidth h
  rw [hf] at h2
  generalize s.frameTiling c geo.gridHeight geo.gridWidth = x at h2 hp ht
  obtain ⟨s', tiling'⟩ := x
  subst h2
  dsimp only at hp ht ⊢
  rw [hp]
  cases hget : s.plans.get L.numFrames (L.numFrames, call.queryTokens, call.numLocalHeads) with
  | some cached => exact ⟨rfl, hp.trans (LayoutCache.put_eq_self hget).symm, ht⟩
  | none => exact ⟨rfl, rfl, ht⟩

omit h

lemma reached_spec (h : reached c geo call = some (L, tiling)) :
    geo.gridHeight * geo.gridWidth = L.frameSeqlen ∧ L.queryFrames = call.queryTokens / L.frameSeqlen ∧
      freshTiling c geo.gridHeight geo.gridWidth = some tiling := by
  unfold reached at h
  rcases hl : layoutOf (some geo) call with e | l
  · rw [hl] at h
    cases h
  simp only [hl] at h
  split_ifs at h with hkv hg
  obtain ⟨t, hf, ht⟩ := Option.map_eq_some_iff.mp h
  cases ht
  obtain ⟨g, segments, -, -, hv⟩ := layoutOf_ok hl
  exact ⟨not_ne_iff.mp hg, visibleLayout_queryFrames hv, hf⟩

lemma scratchPlan_eq {n : Nat} {e e' : ChunkGeometry × SparseAttentionCall τ}
    (he : slot c e = some n) (he' : slot c e' = some n)
    (hq : e'.2.queryTokens = e.2.queryTokens) (hh : e'.2.numLocalHeads = e.2.numLocalHeads)
    (hgrid : e'.1.gridHeight = e.1.gridHeight ∧ e'.1.gridWidth = e.1.gridWidth) :
    scratchPlan c e'.1 e'.2 = scratchPlan c e.1 e.2 := by
  obtain ⟨⟨L, tiling⟩, hr, hn⟩ := Option.map_eq_some_iff.mp he
  obtain ⟨⟨layout', tiling'⟩, hr', hn'⟩ := Option.map_eq_some_iff.mp he'
  obtain ⟨hs, hqf, hf⟩ := reached_spec hr
  obtain ⟨hs', hqf', hf'⟩ := reached_spec hr'
  rw [hgrid.1, hgrid.2] at hs' hf'
  have hseq : layout'.frameSeqlen = L.frameSeqlen := hs'.symm.trans hs
  have htiling : tiling' = tiling := Option.some.inj (hf'.symm.trans hf)
  simp only [scratchPlan, hr, hr', htiling, hh, hgrid.1, hgrid.2]
  exact buildPlan_congr _ _ _ _ (hn'.trans hn.symm) (by rw [hqf', hqf, hq, hseq]) hseq

lemma slot_of_lastAt {calls : List (ChunkGeometry × SparseAttentionCall τ)} {n : Nat}
    {e : ChunkGeometry × SparseAttentionCall τ} (h : lastAt c calls n = some e) :
    slot c e = some n := by
  simpa using List.find?_some h

lemma inv_next {r : StaRun τ} (e : ChunkGeometry × SparseAttentionCall τ) (h : Inv c r)
    (hg : SameGrid c r e) :
    (r.backend.attend c e.1 e.2).2 = scratchPlan c e.1 e.2 ∧ Inv c (next c r e) := by
  rcases hr : reached c e.1 e.2 with _ | x
  · have hslot : slot c e = none := by rw [slot, hr]; rfl
    obtain ⟨hout, hplans, htiling⟩ := attend_of_not_reached h.tiling hr
    refine ⟨by rw [hout, scratchPlan, hr], htiling, fun n => ?_⟩
    have hlast : lastAt c (e :: r.calls) n = lastAt c r.calls n := by
      simp [lastAt, hslot]
    simp only [next, hplans, expected, hlast, h.plans]
  obtain ⟨L, tiling⟩ := x
  have hslot : slot c e = some L.numFrames := by rw [slot, hr]; rfl
  obtain ⟨hout, hplans, htiling⟩ := attend_of_reached h.tiling hr
  -- a hit is the plan of the last call at the slot, which has the same grid
  have hplan : ((r.backend.plans.get L.numFrames
      (L.numFrames, e.2.queryTokens, e.2.numLocalHeads)).getD (scratchPlan c e.1 e.2)) =
      scratchPlan c e.1 e.2 := by
    rcases hget : r.backend.plans.get L.numFrames (L.numFrames, e.2.queryTokens, e.2.numLocalHeads) with _ | cached
    · rfl
    have hentry := (h.plans L.numFrames).symm.trans (LayoutCache.get_eq_some.mp hget)
    obtain ⟨e', hlast, heq⟩ := Option.map_eq_some_iff.mp hentry
    simp only [Prod.mk.injEq, true_and] at heq
    obtain ⟨⟨hq, hh⟩, rfl⟩ := heq
    exact scratchPlan_eq hslot (slot_of_lastAt hlast) hq hh (hg _ hslot e' hlast hq hh)
  rw [hplan] at hout hplans
  refine ⟨hout, htiling, fun n => ?_⟩
  simp only [next, hplans]
  by_cases hn : n = L.numFrames
  · subst hn
    simp [expected, lastAt, hslot]
  · have hlast : lastAt c (e :: r.calls) n = lastAt c r.calls n := by
      simp [lastAt, hslot, Ne.symm hn]
    rw [LayoutCache.put_ne _ hn, h.plans, expected, expected, hlast]

lemma inv_of_run {past : List (ChunkGeometry × SparseAttentionCall τ)} {r : StaRun τ}
    (hr : Run (next c) (SameGrid c) initial past r) : Inv c r :=
  hr.invariant (I := fun _ r => Inv c r) inv_initial fun _ _ e h hok => (inv_next e h hok).2

/-- In every run under the condition, a call runs what is built for it from scratch. -/
theorem plans_are_fresh {past : List (ChunkGeometry × SparseAttentionCall τ)} {r : StaRun τ}
    (hr : Run (next c) (SameGrid c) initial past r) (geometry : ChunkGeometry)
    (call : SparseAttentionCall τ) (hg : SameGrid c r (geometry, call)) :
    (r.backend.attend c geometry call).2 = scratchPlan c geometry call :=
  (inv_next (geometry, call) (inv_of_run hr) hg).1

/-! ## Landscape and portrait -/

/-- One row of tiles of one token, a query block for each token. -/
def smallConfig : StaConfig :=
  { kernelT := 1, kernelH := 1, kernelW := 3, tileH := 1, tileW := 1, block := 1 }

def smallGeometry (gridH gridW : Nat) : ChunkGeometry :=
  { frameSeqlen := 2, framesPerBlock := 1, queryTokenStart := 2
    gridHeight := gridH, gridWidth := gridW }

def smallCall : SparseAttentionCall Unit :=
  { layerIndex := 0, queryTokens := 2, kvLen := 4, heads := 1, headDim := 16
    keySegments := some [(0, 4)], headStart := 0, numLocalHeads := 1
    keySegmentRopeStarts := none, tensors := () }

theorem second_landscape_plan :
    SameGrid smallConfig (next smallConfig initial (smallGeometry 1 2, smallCall))
        (smallGeometry 1 2, smallCall) ∧
      ((next smallConfig initial (smallGeometry 1 2, smallCall)).backend.attend smallConfig
        (smallGeometry 1 2) smallCall).2 = scratchPlan smallConfig (smallGeometry 1 2) smallCall := by
  have hfirst : SameGrid smallConfig initial (smallGeometry 1 2, smallCall) :=
    nofun
  have hsecond : SameGrid smallConfig (next smallConfig initial (smallGeometry 1 2, smallCall))
      (smallGeometry 1 2, smallCall) := by
    intro n _ e' he'
    have hmem : e' ∈ [(smallGeometry 1 2, smallCall)] := mem_of_find?_eq_some he'
    grind
  exact ⟨hsecond, plans_are_fresh (.step _ .start hfirst) _ _ hsecond⟩

theorem stale_portrait_plan :
    let r := next smallConfig initial (smallGeometry 1 2, smallCall)
    (r.backend.attend smallConfig (smallGeometry 2 1) smallCall).2 ≠
      scratchPlan smallConfig (smallGeometry 2 1) smallCall := by
  decide +kernel
end StaRun
end Sglang
