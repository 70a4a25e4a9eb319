import Sglang.Sparse.Osa

/-!
# The density schedule in exact arithmetic

`flops_matched_densities` solves the slope of `floor + beta / sqrt c` for the mean and clamps the
entries afterwards.
-/

namespace Sglang
open List

section
variable {K : Type*} [Field K] [LinearOrder K]

/-- The frame counts of the chunks after the first one. -/
def chunkCounts (numFrames framesPerBlock : Nat) : List Nat :=
  (List.range (numFrames + 1)).filter fun c =>
    decide (2 * framesPerBlock ≤ c) && c % framesPerBlock == 0

/-- The keys that a chunk of `c` frames sees, in frames. -/
def chunkKv (windowFrames : Int) (c : Nat) : K :=
  ((if windowFrames < 0 then (c : Int) else min (c : Int) windowFrames : Int) : K)

/-- `flops_matched_densities` over the numbers `K`, where `invSqrt c` stands for `1 / sqrt c`. -/
def exactDensities (invSqrt : Nat → K) (numFrames framesPerBlock : Nat) (windowFrames : Int)
    (meanDensity floorDensity : K) : List K :=
  let counts := chunkCounts numFrames framesPerBlock
  let kv := counts.map (chunkKv windowFrames)
  let alphas := counts.map invSqrt
  let target := (kv.map (meanDensity * ·)).sum
  let base := (kv.map (floorDensity * ·)).sum
  let weighted := (List.zipWith (· * ·) alphas kv).sum
  if weighted = 0 then 1 :: List.replicate counts.length meanDensity
  else
    let beta := (target - base) / weighted
    1 :: alphas.map fun a => min 1 (max floorDensity (floorDensity + a * beta))

/-- The schedule of the backend is the one over the rationals. -/
lemma exactDensities_rat : exactDensities (K := ℚ) = flopsMatchedDensities := rfl

/-- The slope that is solved for the mean keeps the first chunk at or below 1. -/
def FirstChunkFits (invSqrt : Nat → K) (numFrames framesPerBlock : Nat) (windowFrames : Int)
    (meanDensity floorDensity : K) : Prop :=
  let counts := chunkCounts numFrames framesPerBlock
  (meanDensity - floorDensity) * invSqrt (2 * framesPerBlock) * (counts.map (chunkKv windowFrames)).sum ≤
    (1 - floorDensity) * (counts.map fun c => invSqrt c * chunkKv windowFrames c).sum
end

lemma mem_chunkCounts {nf b c : Nat} : c ∈ chunkCounts nf b ↔ c ≤ nf ∧ 2 * b ≤ c ∧ c % b = 0 := by
  simp [chunkCounts]

lemma chunkCounts_pairwise (nf b : Nat) : (chunkCounts nf b).Pairwise (· < ·) :=
  List.Pairwise.filter _ pairwise_lt_range

section
variable {K : Type*} [Field K] [LinearOrder K] [IsStrictOrderedRing K]

lemma chunkKv_nonneg (wf : Int) (c : Nat) : (0 : K) ≤ chunkKv wf c := by
  rw [chunkKv, Int.cast_nonneg_iff]
  split <;> omega

lemma chunkKv_pos {wf : Int} {c : Nat} (hc : 0 < c) (hw : wf ≠ 0) : (0 : K) < chunkKv wf c := by
  rw [chunkKv, Int.cast_pos]
  split <;> omega
end

/-! ## A clamped line -/

section
variable {K : Type*} [Field K] [LinearOrder K] [IsStrictOrderedRing K]
  {cs : List Nat} {α kv : Nat → K} {mean floor : K}

/-- The slope with which `floor + slope * α` has the mean `mean` under the weights `kv`. -/
def slope (cs : List Nat) (α kv : Nat → K) (mean floor : K) : K :=
  (mean - floor) * (cs.map kv).sum / (cs.map fun c => α c * kv c).sum

omit [LinearOrder K] [IsStrictOrderedRing K] in
lemma sum_line (hw : (cs.map fun c => α c * kv c).sum ≠ 0) :
    (cs.map fun c => (floor + α c * slope cs α kv mean floor) * kv c).sum = mean * (cs.map kv).sum := by
  have hsplit : ∀ c, (floor + α c * slope cs α kv mean floor) * kv c =
      floor * kv c + slope cs α kv mean floor * (α c * kv c) := fun c => by ring
  simp only [hsplit, sum_map_add, sum_map_mul_left]
  rw [slope, div_mul_cancel₀ _ hw]
  ring

variable (hα : ∀ c ∈ cs, 0 < α c) (hkv : ∀ c ∈ cs, 0 ≤ kv c)
include hα hkv

lemma weighted_nonneg : 0 ≤ (cs.map fun c => α c * kv c).sum :=
  sum_nonneg (forall_mem_map.mpr fun c hc => mul_nonneg (hα c hc).le (hkv c hc))

lemma slope_nonneg (hfm : floor ≤ mean) : 0 ≤ slope cs α kv mean floor :=
  div_nonneg (mul_nonneg (sub_nonneg.mpr hfm) (sum_nonneg (forall_mem_map.mpr hkv)))
    (weighted_nonneg hα hkv)

lemma kv_eq_zero (hw : (cs.map fun c => α c * kv c).sum = 0) {c : Nat} (hc : c ∈ cs) : kv c = 0 := by
  have hle : α c * kv c ≤ 0 := by
    rw [← hw]
    refine single_le_sum (fun y hy => ?_) _ (mem_map_of_mem hc)
    obtain ⟨d, hd, rfl⟩ := mem_map.mp hy
    exact mul_nonneg (hα d hd).le (hkv d hd)
  exact (mul_eq_zero.mp (hle.antisymm (mul_nonneg (hα c hc).le (hkv c hc)))).resolve_left (hα c hc).ne'

/-- The clamped line keeps the mean exactly when its highest point is at most 1. -/
lemma sum_clamped_iff (hw : (cs.map fun c => α c * kv c).sum ≠ 0) (hfm : floor ≤ mean) {m : Nat}
    (hm : m ∈ cs) (hfirst : ∀ c ∈ cs, α c ≤ α m) (hpos : 0 < kv m) :
    (cs.map fun c => min 1 (max floor (floor + α c * slope cs α kv mean floor)) * kv c).sum =
        mean * (cs.map kv).sum ↔
      (mean - floor) * α m * (cs.map kv).sum ≤ (1 - floor) * (cs.map fun c => α c * kv c).sum := by
  have hbeta := slope_nonneg hα hkv hfm
  have hcond : (mean - floor) * α m * (cs.map kv).sum ≤
      (1 - floor) * (cs.map fun c => α c * kv c).sum ↔ floor + α m * slope cs α kv mean floor ≤ 1 := by
    rw [← div_le_iff₀ ((weighted_nonneg hα hkv).lt_of_ne' hw), ← le_sub_iff_add_le', slope,
      mul_div_assoc', ← mul_assoc, mul_comm (α m)]
  rw [hcond, ← sum_line hw]
  have hmax : ∀ c ∈ cs, max floor (floor + α c * slope cs α kv mean floor) =
      floor + α c * slope cs α kv mean floor := fun c hc =>
    max_eq_right (le_add_of_nonneg_right (mul_nonneg (hα c hc).le hbeta))
  constructor
  · intro hsum
    by_contra hgt
    rw [not_le] at hgt
    refine absurd hsum (ne_of_lt (sum_lt_sum _ _ (fun c hc => ?_) ⟨m, hm, ?_⟩))
    · rw [hmax c hc]
      exact mul_le_mul_of_nonneg_right (min_le_right ..) (hkv c hc)
    · rw [hmax m hm, min_eq_left hgt.le]
      exact mul_lt_mul_of_pos_right hgt hpos
  intro hfit
  refine congrArg sum (map_congr_left fun c hc => ?_)
  have := mul_le_mul_of_nonneg_right (hfirst c hc) hbeta
  rw [hmax c hc, min_eq_right (by linarith)]
end

/-! ## The schedule -/

section
variable {K : Type*} [Field K] [LinearOrder K] [IsStrictOrderedRing K]
omit [IsStrictOrderedRing K] in
lemma exactDensities_tail (invSqrt : Nat → K) (nf b : Nat) (wf : Int)
    (mean floor : K) (cs : List Nat) (hcs : chunkCounts nf b = cs) :
    (exactDensities invSqrt nf b wf mean floor).tail =
      if (cs.map fun c => invSqrt c * chunkKv wf c).sum = 0 then cs.map fun _ => mean
      else cs.map fun c => min 1 (max floor
        (floor + invSqrt c * slope cs invSqrt (chunkKv wf) mean floor)) := by
  have hw : zipWith (· * ·) (cs.map invSqrt) (cs.map (chunkKv wf)) =
      cs.map fun c => invSqrt c * chunkKv wf c := by
    rw [zipWith_map, zipWith_self]
  have hscale (x : K) : ((cs.map (chunkKv wf)).map (x * ·)).sum = x * (cs.map (chunkKv wf)).sum := by
    rw [sum_map_mul_left, map_id']
  simp only [exactDensities, hcs, hw, slope, sub_mul, hscale]
  split
  · rw [tail_cons, map_const']
  · rw [tail_cons, map_map]
    rfl

variable {invSqrt : Nat → K} (hpos : ∀ c, 0 < c → 0 < invSqrt c)
  (hanti : ∀ c d, 0 < c → c ≤ d → invSqrt d ≤ invSqrt c)
  {numFrames nf b : Nat} (hb : 0 < b) {windowFrames wf : Int} {mean floor : K}

include hpos hanti hb

lemma exactDensities_shape (hfm : floor ≤ mean) (hm : mean ≤ 1) :
    (exactDensities invSqrt nf b wf mean floor).tail.Pairwise (· ≥ ·) ∧
      ∀ d ∈ (exactDensities invSqrt nf b wf mean floor).tail, floor ≤ d ∧ d ≤ 1 := by
  have hc0 : ∀ c ∈ chunkCounts nf b, 0 < c := fun c hc => by
    have := (mem_chunkCounts.mp hc).2.1
    omega
  rw [exactDensities_tail _ _ _ _ _ _ _ rfl]
  split
  · refine ⟨?_, forall_mem_map.mpr fun _ _ => ⟨hfm, hm⟩⟩
    rw [map_const']
    exact pairwise_replicate.mpr (.inr le_rfl)
  refine ⟨pairwise_map.mpr ?_, forall_mem_map.mpr fun c _ =>
    ⟨le_min (hfm.trans hm) (le_max_left ..), min_le_left ..⟩⟩
  refine (chunkCounts_pairwise nf b).imp_of_mem fun {c d} hc _ hcd => ?_
  refine min_le_min_left 1 (max_le_max_left floor (add_le_add_right ?_ floor))
  exact mul_le_mul_of_nonneg_right (hanti c d (hc0 c hc) hcd.le)
    (slope_nonneg (fun c hc => hpos c (hc0 c hc)) (fun c _ => chunkKv_nonneg wf c) hfm)

lemma exactDensities_mean_iff (hfm : floor ≤ mean) :
    (zipWith (· * ·) (exactDensities invSqrt nf b wf mean floor).tail
        ((chunkCounts nf b).map (chunkKv wf))).sum = mean * ((chunkCounts nf b).map (chunkKv wf)).sum ↔
    FirstChunkFits invSqrt nf b wf mean floor := by
  have hα : ∀ c ∈ chunkCounts nf b, 0 < invSqrt c := fun c hc => by
    have := (mem_chunkCounts.mp hc).2.1
    exact hpos c (by omega)
  have hkv : ∀ c ∈ chunkCounts nf b, (0 : K) ≤ chunkKv wf c :=
    fun c _ => chunkKv_nonneg wf c
  rw [exactDensities_tail _ _ _ _ _ _ _ rfl, FirstChunkFits]
  split
  case isTrue hw =>
    have hzero : (chunkCounts nf b).map (chunkKv wf) = (chunkCounts nf b).map fun _ => (0 : K) :=
      map_congr_left fun c hc => kv_eq_zero hα hkv hw hc
    rw [hw, hzero, zipWith_map, zipWith_self]
    simp
  case isFalse hw =>
    rw [zipWith_map, zipWith_self]
    -- Some chunk sees keys, so there is a first chunk and it sees keys.
    obtain ⟨c, hc⟩ : ∃ c, c ∈ chunkCounts nf b := by
      by_contra hnone
      exact hw (by rw [eq_nil_iff_forall_not_mem.mpr (not_exists.mp hnone)]; rfl)
    have hfirst : 2 * b ∈ chunkCounts nf b := by
      rw [mem_chunkCounts] at hc ⊢
      exact ⟨hc.2.1.trans hc.1, le_rfl, Nat.mul_mod_left 2 b⟩
    refine sum_clamped_iff hα hkv hw hfm hfirst (fun c hc => ?_) ?_
    · exact hanti (2 * b) c (by omega) (mem_chunkCounts.mp hc).2.1
    · refine chunkKv_pos (by omega) fun hzero => hw ?_
      simp [hzero, chunkKv]
end

lemma inv_sqrt_pos (c : Nat) (hc : 0 < c) : 0 < 1 / √(c : ℝ) :=
  one_div_pos.mpr (Real.sqrt_pos.mpr (Nat.cast_pos.mpr hc))

lemma inv_sqrt_anti (c d : Nat) (hc : 0 < c) (hcd : c ≤ d) : 1 / √(d : ℝ) ≤ 1 / √(c : ℝ) :=
  one_div_le_one_div_of_le (Real.sqrt_pos.mpr (Nat.cast_pos.mpr hc))
    (Real.sqrt_le_sqrt (Nat.cast_le.mpr hcd))

/-- The later entries never rise, stay between the floor and 1, and meet the mean. -/
def MeetsMean (numFrames framesPerBlock : Nat) (windowFrames : Int) (mean floor : ℝ) : Prop :=
  let later := (exactDensities (fun c => 1 / √(c : ℝ)) numFrames framesPerBlock windowFrames mean
    floor).tail
  let kv := (chunkCounts numFrames framesPerBlock).map (chunkKv windowFrames)
  later.Pairwise (· ≥ ·) ∧ (∀ d ∈ later, floor ≤ d ∧ d ≤ 1) ∧
    (List.zipWith (· * ·) later kv).sum = mean * kv.sum

/-- The schedule does what it is for exactly when the solved line is at most 1 at the first chunk;
the clamp at 1 takes away from the mean otherwise. -/
theorem meetsMean_iff (numFrames framesPerBlock : Nat) (hblock : 0 < framesPerBlock)
    (windowFrames : Int) (mean floor : ℝ) (_hfloor : 0 < floor) (hfm : floor ≤ mean)
    (hm : mean ≤ 1) :
    MeetsMean numFrames framesPerBlock windowFrames mean floor ↔
      FirstChunkFits (fun c => 1 / √(c : ℝ)) numFrames framesPerBlock windowFrames mean floor := by
  rw [← exactDensities_mean_iff inv_sqrt_pos inv_sqrt_anti hblock hfm]
  refine ⟨fun h => h.2.2, fun h => and_assoc.mp ⟨?_, h⟩⟩
  exact exactDensities_shape inv_sqrt_pos inv_sqrt_anti hblock hfm hm

lemma firstChunkFits_nine (mean floor : ℝ) :
    FirstChunkFits (fun c => 1 / √(c : ℝ)) 9 3 (-1) mean floor ↔
      (mean - floor) * (1 / √6) * 15 ≤ (1 - floor) * (1 / √6 * 6 + 3) := by
  have hcounts : chunkCounts 9 3 = [6, 9] := by decide
  have hnine : √(9 : ℝ) = 3 := by
    rw [show (9 : ℝ) = 3 ^ 2 by norm_num, Real.sqrt_sq (by norm_num)]
  simp only [FirstChunkFits, hcounts, chunkKv, map_cons, map_nil, sum_cons, sum_nil]
  norm_num [hnine]

lemma sqrt_six_bounds : 2 < √(6 : ℝ) ∧ √(6 : ℝ) < 5 / 2 :=
  ⟨(Real.lt_sqrt (by norm_num)).mpr (by norm_num), (Real.sqrt_lt' (by norm_num)).mpr (by norm_num)⟩

theorem meetsMean_iff_tenth : MeetsMean 9 3 (-1) (1 / 10) (1 / 50) := by
  refine (meetsMean_iff 9 3 (by decide) (-1) (1 / 10) (1 / 50) (by norm_num) (by norm_num)
    (by norm_num)).mpr ((firstChunkFits_nine ..).mpr ?_)
  have := one_div_pos.mpr (two_pos.trans sqrt_six_bounds.1)
  linarith

theorem not_meetsMean_high : ¬ MeetsMean 9 3 (-1) (19 / 20) (1 / 50) := by
  intro h
  have hfits := (firstChunkFits_nine _ _).mp ((exactDensities_mean_iff inv_sqrt_pos inv_sqrt_anti
    (by decide) (by norm_num)).mp h.2.2)
  have := one_div_lt_one_div_of_lt (two_pos.trans sqrt_six_bounds.1) sqrt_six_bounds.2
  linarith
end Sglang
