import Sglang.Sparse.Osa

/-!
# What an oracle plan costs

The plans of `_chunk_plan` and `_measured_chunk_plan` as lists of blocks: how many blocks a row has,
and how far `kept_tokens` is from the density that was asked for.
-/

namespace Sglang
open List OracleSparseAttention
open OracleSparseAttention (init)

/-! ## Rounding -/

section
variable (x : ℚ) (cap : Nat)

lemma abs_roundHalfEven_sub : |(roundHalfEven x : ℚ) - x| ≤ 1 / 2 := by
  have hle := Int.floor_le x
  have hlt := Int.lt_floor_add_one x
  rw [abs_le, roundHalfEven]
  split_ifs <;> push_cast <;> constructor <;> linarith

/-- A number of tiles, rounded, at least 1 and at most `cap`. -/
def tileCount : Nat := (min (max 1 (roundHalfEven x)) cap).toNat

lemma cast_tileCount : (tileCount x cap : Int) = min (max 1 (roundHalfEven x)) cap := by
  rw [tileCount]
  omega

lemma tileCount_le : tileCount x cap ≤ cap := by
  have := cast_tileCount x cap
  omega
end

variable {cap : Nat} {α β : Type} {mask : List Bool} {t : Rows α} {f n : Nat}

lemma tileCount_pos (x : ℚ) (h : 0 < cap) : 0 < tileCount x cap := by
  have := cast_tileCount x cap
  omega

lemma tileCount_of_cap_le {x : ℚ} (h : cap ≤ x) : tileCount x cap = cap := by
  have hround := (abs_le.mp (abs_roundHalfEven_sub x)).1
  have hcap : (cap : Int) ≤ roundHalfEven x := by
    have : (cap : ℚ) < (roundHalfEven x + 1 : Int) := by push_cast; linarith
    have : ((cap : Int) : ℚ) < (roundHalfEven x + 1 : Int) := by exact_mod_cast this
    have := Int.cast_lt.mp this
    omega
  have := cast_tileCount x cap
  omega

/-- Below the cap a count is at most one tile away from what was asked for. -/
lemma abs_tileCount_sub {x : ℚ} (hx : 0 ≤ x) (h : x ≤ cap) :
    |(tileCount x cap : ℚ) - x| ≤ 1 := by
  obtain ⟨hlo, hhi⟩ := abs_le.mp (abs_roundHalfEven_sub x)
  have hcast : (tileCount x cap : ℚ) = min (max 1 (roundHalfEven x : ℚ)) cap := by
    exact_mod_cast congrArg (Int.cast (R := ℚ)) (cast_tileCount x cap)
  rw [hcast, abs_le]
  constructor
  · have : x - 1 ≤ min (max 1 (roundHalfEven x : ℚ)) cap :=
      le_min ((by linarith : x - 1 ≤ roundHalfEven x).trans (le_max_right ..)) (by linarith)
    linarith
  · have : min (max 1 (roundHalfEven x : ℚ)) cap ≤ x + 1 :=
      (min_le_left ..).trans (max_le (by linarith) (by linarith))
    linarith

/-- Tiles of size `unit` bought from `budget`, of which `cap` can be had. -/
lemma abs_spent_le {budget unit slack : ℚ} (cap : Nat) (hunit : 0 < unit) (hslack : unit ≤ slack)
    (hpos : 0 ≤ budget) (hcap : budget ≤ cap * unit + slack) :
    |tileCount (budget / unit) cap * unit - budget| ≤ slack := by
  have hback : budget / unit * unit = budget := div_mul_cancel₀ budget hunit.ne'
  obtain hle | hge := le_total (budget / unit) cap
  · have hone := abs_tileCount_sub (div_nonneg hpos hunit.le) hle
    calc |tileCount (budget / unit) cap * unit - budget|
        = |tileCount (budget / unit) cap - budget / unit| * unit := by
          rw [← abs_of_pos hunit, ← abs_mul, abs_of_pos hunit, sub_mul, hback]
      _ ≤ 1 * unit := mul_le_mul_of_nonneg_right hone hunit.le
      _ ≤ slack := by rwa [one_mul]
  · have hover := (le_div_iff₀ hunit).mp hge
    rw [tileCount_of_cap_le hge, abs_le]
    constructor <;> linarith

lemma demandCount_le (budget total w : ℚ) (tile n : Nat) : demandCount budget total w tile n ≤ n := by
  rw [demandCount, clip]
  split_ifs <;> omega

lemma demandCount_eq_tileCount {total : ℚ} (h : total ≠ 0) (budget w : ℚ) (tile n : Nat) :
    demandCount budget total w tile n = tileCount (budget * w / total / tile) n := by
  rw [demandCount, if_neg h, clip, tileCount, max_comm]

/-! ## Frames -/

lemma mem_maskFrames : f ∈ maskFrames mask ↔ f < mask.length ∧ mask.getD f false = true := by
  simp [maskFrames]

lemma maskFrames_nodup (mask : List Bool) : (maskFrames mask).Nodup :=
  nodup_range.filter _

lemma maskFrames_not (mask : List Bool) :
    maskFrames (mask.map (!·)) = (range mask.length).filter fun f => !(mask.getD f false) := by
  rw [maskFrames, length_map]
  refine filter_congr fun f hf => ?_
  have h := mem_range.mp hf
  simp [getD_eq_getElem?_getD, getElem?_eq_getElem h]

lemma mem_maskFrames_not :
    f ∈ maskFrames (mask.map (!·)) ↔ f < mask.length ∧ mask.getD f false = false := by
  simp [maskFrames_not]

lemma length_maskFrames_add (mask : List Bool) :
    (maskFrames mask).length + (maskFrames (mask.map (!·))).length = mask.length := by
  rw [maskFrames_not, maskFrames, ← length_append]
  have := (filter_append_perm (fun f => mask.getD f false) (range mask.length)).length_eq
  simpa using this

/-! ## Blocks -/

section
/-- The token start of tile `p.2` of frame `p.1`. -/
def blockStart (frameSeqlen tile : Nat) (p : Nat × Nat) : Nat := p.1 * frameSeqlen + p.2 * tile

def histBlocks (hist counts row : List Nat) : List (Nat × Nat) :=
  (hist.zip counts).flatMap fun p => ((row.take p.2).insertionSort (· ≤ ·)).map (p.1, ·)

variable {frameSeqlen fs tile : Nat} {whole hist counts row : List Nat}

lemma wholeStarts_eq (whole : List Nat) (fs tile : Nat) : wholeStarts (whole.map (· * fs)) fs tile =
      (whole ×ˢ range (fs / tile)).map (blockStart fs tile) := by
  simp [wholeStarts, blockStart, SProd.sprod, product, flatMap_map, map_flatMap, Function.comp_def]

lemma histStarts_some (hist counts row : List Nat) (fs tile : Nat) :
    histStarts (hist.map (· * fs)) (some counts) tile row =
      (histBlocks hist counts row).map (blockStart fs tile) := by
  simp [histStarts, histBlocks, frameStarts, blockStart, zip_map_left, flatMap_map,
    map_flatMap, Function.comp_def]

lemma histStarts_none (offs row : List Nat) (k : Nat) : histStarts offs none tile (row.take k) =
      histStarts offs (some (replicate offs.length k)) tile row := by
  induction offs with
  | nil => rfl
  | cons offset offs ih =>
    simp only [histStarts, flatMap_cons, length_cons, replicate_succ, zip_cons_cons] at ih ⊢
    rw [ih]

lemma length_histBlocks (h : hist.length = counts.length) (hrow : ∀ c ∈ counts, c ≤ row.length) :
    (histBlocks hist counts row).length = counts.sum := by
  induction hist generalizing counts with
  | nil => rw [eq_nil_of_length_eq_zero h.symm]; rfl
  | cons f hist ih => ?_
  obtain _ | ⟨c, counts⟩ := counts
  · cases h
  have hc := hrow c mem_cons_self
  have := ih (by simpa using h) fun c hc => hrow c (mem_cons_of_mem _ hc)
  simp only [histBlocks, zip_cons_cons, flatMap_cons, length_append] at this ⊢
  rw [this, length_map, length_insertionSort, length_take, sum_cons]
  omega
end

/-! ## The plans -/

lemma Rows.mapRows_mapRows {α β γ : Type} (f : List α → List β) (g : List β → List γ)
    (t : Rows α) : (t.mapRows f).mapRows g = t.mapRows fun row => g (f row) := by
  simp [Rows.mapRows, Function.comp_def]

lemma Rows.rows_mapRows (f : List α → List β) (t : Rows α) : (t.mapRows f).rows = t.rows := by
  cases t <;> simp [Rows.rows, Rows.mapRows]

/-- Each row orders the full tiles of a frame, and there is a row. -/
structure Calibrated (order : Rows Nat) (fullTiles : Nat) : Prop where
  perm : ∀ head ∈ order, ∀ row ∈ head, row.Perm (List.range fullTiles)
  nonempty : ∃ row head heads, order = (row :: head) :: heads

lemma Rows.width_eq {α : Type} {t : Rows α} (h : ∃ row head heads, t = (row :: head) :: heads)
    (hlen : ∀ head ∈ t, ∀ row ∈ head, row.length = n) : t.width = n := by
  obtain ⟨row, head, heads, rfl⟩ := h
  exact hlen _ mem_cons_self row mem_cons_self

lemma Rows.exists_mapRows (f : List α → List β) (h : ∃ row head heads, t = (row :: head) :: heads) :
    ∃ row head heads, t.mapRows f = (row :: head) :: heads := by
  obtain ⟨row, head, heads, rfl⟩ := h
  exact ⟨f row, head.map f, Rows.mapRows f heads, rfl⟩

lemma Rows.forall_mapRows {f : List α → List β} {p : List β → Prop} :
    (∀ head ∈ t.mapRows f, ∀ row ∈ head, p row) ↔ ∀ head ∈ t, ∀ row ∈ head, p (f row) := by
  simp [Rows.mapRows]

lemma Calibrated.width {ord : Rows Nat} (h : Calibrated ord n) : ord.width = n :=
  Rows.width_eq h.nonempty fun head hhead row hrow => by
    rw [(h.perm head hhead row hrow).length_eq, length_range]

/-- What a plan is made from. -/
structure PlanRequest where
  osa : OracleSparseAttention
  density : ℚ
  layout : VisibleLayout
  offset : Nat

namespace PlanRequest
section
variable (q : PlanRequest)

def tile : Nat := q.osa.config.spatialTile

def fullTiles : Nat := q.layout.frameSeqlen / q.tile

abbrev Visible : Prop := (q.layout.framesOfOffset q.offset).any id = true

def full : List Bool :=
  q.osa.wholeFrameMask q.layout (q.layout.framesOfOffset q.offset) (frameAges q.layout q.offset)

def whole : List Nat := maskFrames q.full

/-- The frames that are not kept whole. -/
def pattern : List Nat := maskFrames (q.full.map (!·))

def budget : ℚ := q.osa.patternBudget q.density q.layout q.whole.length

def weights : List ℚ :=
  q.osa.demandWeights q.layout (q.layout.framesOfOffset q.offset) (frameAges q.layout q.offset) q.full

/-- The tiles that `_chunk_plan` keeps of each patterned frame. -/
def counts (numTiles : Nat) : List Nat :=
  if q.osa.config.demandWeighted then
    q.weights.map (demandCount q.budget q.weights.sum · q.tile numTiles)
  else .replicate q.pattern.length (tileCount (q.budget / (q.pattern.length * q.tile)) numTiles)

def measuredTiles : Nat := tileCount (q.budget / q.tile) (q.pattern.length * q.fullTiles)

/-- Nothing is left out of the plan. -/
def KeepsAll : Prop :=
  q.pattern.length = 0 ∨ q.budget ≥ q.pattern.length * q.layout.frameSeqlen
deriving Decidable

def rowStarts (blocks : List (Nat × Nat)) : List Nat :=
  (q.whole ×ˢ List.range q.fullTiles ++ blocks).map (blockStart q.layout.frameSeqlen q.tile)

def planOf (starts : Rows Nat) (qTiles : Nat) : BlockSparsePlan :=
  .ofStarts starts qTiles q.layout.frameSeqlen q.osa.config.queryTile q.tile q.layout.kvLen

def topBlocks (tops : List Nat) : List (Nat × Nat) :=
  tops.map fun top => (q.pattern.getD (top / q.fullTiles) 0, top % q.fullTiles)
end

variable {q : PlanRequest} {ord : Rows Nat} {ws : List ℚ}

lemma length_full : q.full.length = q.layout.numFrames := by
  simp [full, wholeFrameMask]

lemma length_frames : q.whole.length + q.pattern.length = q.layout.numFrames := by
  rw [whole, pattern, length_maskFrames_add, length_full]

lemma length_weights : q.weights.length = q.pattern.length := by
  simp [weights, demandWeights, pattern]

lemma length_counts (numTiles : Nat) : (q.counts numTiles).length = q.pattern.length := by
  rw [counts]
  split
  · rw [length_map, length_weights]
  · rw [length_replicate]

lemma counts_le {numTiles : Nat} : ∀ c ∈ q.counts numTiles, c ≤ numTiles := by
  rw [counts]
  split
  · exact forall_mem_map.mpr fun w _ => demandCount_le ..
  · intro c hc
    rw [eq_of_mem_replicate hc]
    exact tileCount_le ..

lemma length_rowStarts (blocks : List (Nat × Nat)) :
    (q.rowStarts blocks).length = q.whole.length * q.fullTiles + blocks.length := by
  rw [rowStarts, length_map, length_append, length_product, length_range]

lemma length_countedRow (horder : Calibrated ord q.fullTiles)
    {head : List (List Nat)} (hhead : head ∈ ord) {row : List Nat} (hrow : row ∈ head) :
    (q.rowStarts (histBlocks q.pattern (q.counts ord.width) row)).length =
      q.whole.length * q.fullTiles + (q.counts q.fullTiles).sum := by
  have hlen : row.length = q.fullTiles := by
    rw [(horder.perm head hhead row hrow).length_eq, length_range]
  rw [length_rowStarts, horder.width, length_histBlocks (length_counts _).symm fun c hc =>
    hlen ▸ counts_le c hc]

/-- What `_chunk_plan` returns where the query chunk is visible. -/
lemma chunkPlan_fst (hown : q.Visible) (ascending : Argsort (· ≤ ·)) (ord : Rows Nat)
    (retention : Option (Rows ℚ)) :
    (q.osa.chunkPlan ascending q.density q.layout ord q.offset retention).1 =
      if q.KeepsAll then none
      else some (q.planOf (ord.mapRows fun row =>
        q.rowStarts (histBlocks q.pattern (q.counts ord.width) row)) ord.rows) := by
  rw [chunkPlan, if_pos hown]
  by_cases hall : q.KeepsAll
  · exact (congrArg Prod.fst (if_pos hall)).trans (if_pos hall).symm
  refine (congrArg Prod.fst (if_neg hall)).trans (.trans ?_ (if_neg hall).symm)
  by_cases hd : q.osa.config.demandWeighted = true
  · simp only [hd, if_true, buildBlockPlan, counts, wholeStarts_eq, histStarts_some, rowStarts,
      map_append]
    rfl
  simp only [hd, Bool.false_eq_true, if_false, buildBlockPlan, counts, Rows.mapRows_mapRows,
    Rows.rows_mapRows, histStarts_none, wholeStarts_eq, length_map, histStarts_some,
    rowStarts, map_append]
  rfl

lemma chunkPlan_eq_some {ascending : Argsort (· ≤ ·)}
    {retention : Option (Rows ℚ)} {plan : BlockSparsePlan}
    (h : (q.osa.chunkPlan ascending q.density q.layout ord q.offset retention).1 = some plan) :
    ¬ q.KeepsAll ∧ plan = q.planOf (ord.mapRows fun row =>
      q.rowStarts (histBlocks q.pattern (q.counts ord.width) row)) ord.rows := by
  have hown : q.Visible := by
    by_contra hown
    rw [chunkPlan, if_neg hown] at h
    cases h
  rw [chunkPlan_fst hown] at h
  split at h
  case isTrue => cases h
  case isFalse hall => exact ⟨hall, (Option.some.inj h).symm⟩

section
variable {τ : Type} {num : OsaNumerics τ} {call : SparseAttentionCall τ} {plan : BlockSparsePlan}
  {frames : List (List ℚ)} {head : List (List (List ℚ))}

section
variable (q : PlanRequest) (num : OsaNumerics τ) (frames : List (List ℚ))

/-- What `_measured_chunk_plan` measures. -/
def masses (call : SparseAttentionCall τ) : Rows (List ℚ) :=
  measureVisibleTileMass num call q.layout q.osa.config.replanQueryStride q.osa.config.queryTile
    q.tile

def candidates : List ℚ :=
  q.pattern.flatMap fun f => (frames.getD f []).take q.fullTiles

/-- The positions of the heaviest tiles. -/
def tops : List Nat :=
  (num.descending.toFun (q.candidates frames)).take q.measuredTiles
end

lemma measuredChunkPlan_eq (hown : q.Visible) (hzero : q.offset = 0) (num : OsaNumerics τ)
    (call : SparseAttentionCall τ) :
    q.osa.measuredChunkPlan num q.density call q.layout =
      if q.KeepsAll then none
      else some (q.planOf ((q.masses num call).mapRows fun frames =>
        (q.rowStarts (q.topBlocks (q.tops num frames))).insertionSort (· ≤ ·))
        (q.masses num call).rows) := by
  obtain ⟨osa, density, L, offset⟩ := q
  subst hzero
  refine (if_pos hown).trans ?_
  by_cases hall : PlanRequest.KeepsAll ⟨osa, density, L, 0⟩
  · exact (if_pos hall).trans (if_pos hall).symm
  refine (if_neg hall).trans (.trans (congrArg some ?_) (if_neg hall).symm)
  rw [buildMeasuredBlockPlan]
  refine congrArg₂ (planOf ⟨osa, density, L, 0⟩) ?_ (Rows.rows_mapRows ..)
  refine (Rows.mapRows_mapRows ..).trans (congrArg (Rows.mapRows · _) (funext fun frames => ?_))
  rw [wholeStarts_eq, rowStarts, map_append, topBlocks, map_map]
  rfl

lemma length_candidates (hhead : head ∈ q.masses num call) (hframes : frames ∈ head) :
    (q.candidates frames).length = q.pattern.length * q.fullTiles := by
  have hfull : q.fullTiles ≤ tilesOf q.layout.frameSeqlen q.tile := by
    rw [fullTiles, tilesOf]
    obtain hz | hz := eq_zero_or_pos q.tile
    · simp [hz]
    · exact Nat.div_le_div_right (by omega)
  have hlen : ∀ f ∈ q.pattern, ((frames.getD f []).take q.fullTiles).length = q.fullTiles := by
    intro f hf
    have hlt : f < q.layout.numFrames := length_full (q := q) ▸ (mem_maskFrames_not.mp hf).1
    obtain ⟨h, -, rfl⟩ := mem_map.mp hhead
    obtain ⟨t, -, rfl⟩ := mem_map.mp hframes
    simpa [getD_eq_getElem?_getD, hlt] using hfull
  rw [candidates, length_flatMap, map_congr_left hlen, map_const', sum_replicate]
  rfl

lemma length_tops (hhead : head ∈ q.masses num call) (hframes : frames ∈ head) :
    (q.tops num frames).length = q.measuredTiles := by
  rw [tops, length_take, (num.descending.perm _).length_eq, length_range,
    length_candidates hhead hframes]
  exact min_eq_left (tileCount_le ..)

lemma exists_masses (q : PlanRequest) (num : OsaNumerics τ) (hheads : 0 < call.heads)
    (htiles : 0 < tilesOf q.layout.frameSeqlen q.osa.config.queryTile) :
    ∃ row head heads, q.masses num call = (row :: head) :: heads := by
  obtain ⟨m, hm⟩ := Nat.exists_eq_add_one_of_ne_zero hheads.ne'
  obtain ⟨k, hk⟩ := Nat.exists_eq_add_one_of_ne_zero htiles.ne'
  rw [masses, measureVisibleTileMass, hm, hk, range_succ_eq_map, range_succ_eq_map]
  exact ⟨_, _, _, rfl⟩
end

/-! ## Accuracy -/

/-- A plan is within one tile per frame of the density; without one, every key fits. -/
def Accurate (q : PlanRequest) : Option BlockSparsePlan → Prop
  | some plan => |(plan.keptTokens : ℚ) - q.density * q.layout.kvLen| ≤ q.tile * q.layout.numFrames
  | none => (q.layout.kvLen : ℚ) ≤ q.density * q.layout.kvLen

lemma cast_frameSeqlen_le (htile : 0 < q.tile) :
    (q.layout.frameSeqlen : ℚ) ≤ q.fullTiles * q.tile + q.tile := by
  exact_mod_cast (Nat.lt_div_mul_add (a := q.layout.frameSeqlen) htile).le

lemma budget_le (hall : ¬ q.KeepsAll) (htile : 0 < q.tile) :
    0 < q.pattern.length ∧ q.budget ≤ q.pattern.length * (q.fullTiles * q.tile + q.tile) := by
  obtain ⟨hn, hlt⟩ := not_or.mp hall
  refine ⟨pos_of_ne_zero hn, (not_le.mp hlt).le.trans ?_⟩
  exact mul_le_mul_of_nonneg_left (cast_frameSeqlen_le htile) (Nat.cast_nonneg _)

section
variable (hcharge : q.osa.config.chargeExemptFrames = true)
include hcharge

lemma budget_eq : q.budget = q.density * q.layout.kvLen - q.whole.length * q.layout.frameSeqlen := by
  rw [budget, patternBudget, if_pos hcharge, VisibleLayout.kvLen]
  push_cast
  ring

lemma accurate_none (hall : q.KeepsAll) (hpos : 0 ≤ q.budget) : q.Accurate none := by
  have hkv : (q.layout.kvLen : ℚ) = (q.whole.length + q.pattern.length) * q.layout.frameSeqlen := by
    rw [VisibleLayout.kvLen, ← length_frames]
    push_cast
    ring
  have hleft := budget_eq hcharge
  rw [Accurate]
  obtain hnone | hge := hall
  · rw [hnone] at hkv
    push_cast at hkv
    linarith
  · linarith

/-- Whole frames lose less than a tile each to their tail. -/
lemma accurate_some {plan : BlockSparsePlan} (tiles : Nat) (htile : 0 < q.tile)
    (hkept : plan.keptTokens = (q.whole.length * q.fullTiles + tiles) * q.tile)
    (hspent : |tiles * (q.tile : ℚ) - q.budget| ≤ q.pattern.length * q.tile) :
    q.Accurate (some plan) := by
  have hlo : (q.whole.length : ℚ) * (q.fullTiles * q.tile) ≤ q.whole.length * q.layout.frameSeqlen :=
    mul_le_mul_of_nonneg_left (by exact_mod_cast Nat.div_mul_le_self ..) (Nat.cast_nonneg _)
  have hhi : (q.whole.length : ℚ) * q.layout.frameSeqlen ≤
      q.whole.length * (q.fullTiles * q.tile + q.tile) :=
    mul_le_mul_of_nonneg_left (cast_frameSeqlen_le htile) (Nat.cast_nonneg _)
  rw [budget_eq hcharge, abs_le] at hspent
  rw [Accurate, hkept, ← length_frames, abs_le]
  push_cast
  constructor <;> linarith [hspent.1, hspent.2]

lemma accurate_chunkPlan (htile : 0 < q.tile) (hdemand : q.osa.config.demandWeighted = false)
    {ord : Rows Nat} (horder : Calibrated ord q.fullTiles) (hown : q.Visible)
    (hpos : 0 ≤ q.budget) (ascending : Argsort (· ≤ ·)) (retention : Option (Rows ℚ)) :
    q.Accurate (q.osa.chunkPlan ascending q.density q.layout ord q.offset retention).1 := by
  rw [chunkPlan_fst hown]
  split
  case isTrue hall => exact accurate_none hcharge hall hpos
  case isFalse hall =>
    obtain ⟨hn, hle⟩ := budget_le hall htile
    refine accurate_some hcharge (q.counts q.fullTiles).sum htile
      (congrArg (· * _) (Rows.width_eq (Rows.exists_mapRows _ horder.nonempty)
        (Rows.forall_mapRows.mpr fun head hhead row hrow => length_countedRow horder hhead hrow))) ?_
    have hunit : (0 : ℚ) < q.pattern.length * q.tile := by exact_mod_cast mul_pos hn htile
    have := abs_spent_le q.fullTiles hunit le_rfl hpos (by linarith)
    rw [counts, if_neg (by simp [hdemand]), sum_replicate, nsmul_eq_mul]
    push_cast
    rwa [mul_comm (_ : ℚ) (tileCount _ _ : ℚ), mul_assoc]

lemma accurate_measuredChunkPlan (htile : 0 < q.tile) (hquery : 0 < q.osa.config.queryTile)
    (hown : q.Visible) (hzero : q.offset = 0) (hpos : 0 ≤ q.budget) {τ : Type} (num : OsaNumerics τ)
    (call : SparseAttentionCall τ) (hheads : 0 < call.heads) :
    q.Accurate (q.osa.measuredChunkPlan num q.density call q.layout) := by
  rw [measuredChunkPlan_eq hown hzero]
  split
  case isTrue hall => exact accurate_none hcharge hall hpos
  case isFalse hall =>
    obtain ⟨hn, hle⟩ := budget_le hall htile
    have hseqlen : 0 < q.layout.frameSeqlen := by
      refine Nat.pos_of_ne_zero fun hz => hall (.inr ?_)
      simpa [hz] using hpos
    have hrows := exists_masses q num hheads (Nat.div_pos (by omega) hquery)
    refine accurate_some hcharge q.measuredTiles htile
      (congrArg (· * _) (Rows.width_eq (Rows.exists_mapRows _ hrows)
        (Rows.forall_mapRows.mpr fun head hhead row hrow => ?_))) ?_
    · rw [length_insertionSort, length_rowStarts, topBlocks, length_map,
        length_tops hhead hrow]
    have hunit : (0 : ℚ) < q.tile := Nat.cast_pos.mpr htile
    have hone : (1 : ℚ) ≤ q.pattern.length := Nat.one_le_cast.mpr hn
    refine abs_spent_le _ hunit (le_mul_of_one_le_left hunit.le hone) hpos ?_
    push_cast
    linarith
end

/-! ## Weights -/

end PlanRequest

/-! ## Results -/

open PlanRequest

/-- Both paths that buy tiles without weights keep at most one tile per visible frame more or less
than the density asks for, and make no plan only where the density allows every key. -/
theorem osa_budget_accurate (q : PlanRequest) (htile : 0 < q.tile)
    (hcharge : q.osa.config.chargeExemptFrames = true) (hown : q.Visible) (hpos : 0 ≤ q.budget) :
    (q.osa.config.demandWeighted = false →
      ∀ (ascending : Argsort (· ≤ ·)) (order : Rows Nat) (retention : Option (Rows ℚ)),
        Calibrated order q.fullTiles →
        q.Accurate (q.osa.chunkPlan ascending q.density q.layout order q.offset retention).1) ∧
    (0 < q.osa.config.queryTile → q.offset = 0 →
      ∀ (τ : Type) (num : OsaNumerics τ) (call : SparseAttentionCall τ), 0 < call.heads →
        q.Accurate (q.osa.measuredChunkPlan num q.density call q.layout)) :=
  ⟨fun hdemand ascending _ retention horder =>
      accurate_chunkPlan hcharge htile hdemand horder hown hpos ascending retention,
    fun hquery hzero _ num call hheads =>
      accurate_measuredChunkPlan hcharge htile hquery hown hzero hpos num call hheads⟩

/-- Three frames of ten tiles, of which the last one asks. -/
def threeFrames : VisibleLayout where
  globalFrameIds := [0, 1, 1 + 1]
  chunkOffsets := [-2, -1, 0]
  positionalFrameIds := [0, 1, 1 + 1]
  frameSeqlen := 640
  framesPerBlock := 1
  queryFrames := 1
  queryChunkIndex := 2

def threeFramesConfig (density : ℚ) (demandWeighted : Bool) : OsaConfig where
  density := some density
  keepOwnChunkFull := false
  keepSinkFull := false
  keepRecentFramesFull := false
  demandWeighted := demandWeighted

section
variable (d : ℚ) (demandWeighted w : Bool)

lemma threeFrames_knob : (threeFramesConfig d w).chunkSchedule ≠ .flopsMatched :=
  nofun

lemma threeFrames_no_replan : (threeFramesConfig d w).replanEachChunk ≠ true :=
  nofun

def threeFramesOsa (hpos : 0 < d) (hle : d ≤ 1) (demandWeighted : Bool) : OracleSparseAttention :=
  ⟨threeFramesConfig d demandWeighted, d, hpos, hle, fun h => absurd h (threeFrames_knob _ _),
    fun h => absurd h (threeFrames_no_replan _ _)⟩

lemma half_positive : 0 < (1 / 2 : ℚ) := by norm_num

lemma half_le : (1 / 2 : ℚ) ≤ 1 := by norm_num

/-- Half of the three frames. -/
def halfRequest : PlanRequest :=
  ⟨threeFramesOsa (1 / 2) half_positive half_le demandWeighted, 1 / 2, threeFrames, 0⟩
end

theorem osa_budget_accurate_half :
    (halfRequest false).Visible ∧ ∀ ascending, (halfRequest false).Accurate
      ((threeFramesOsa (1 / 2) half_positive half_le false).chunkPlan ascending (1 / 2) threeFrames
        [[List.range 10]] 0 none).1 :=
  ⟨by decide, fun ascending => (osa_budget_accurate (halfRequest false) (by decide) rfl (by decide)
    (by decide +kernel)).1 rfl ascending [[range 10]] none ⟨by decide, _, _, _, rfl⟩⟩

end Sglang
