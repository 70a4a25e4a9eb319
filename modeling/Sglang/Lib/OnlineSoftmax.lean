import Mathlib

/-!
# Online softmax over tiles

A row of attention reads a list of keys, each a score and a value in a real vector space.
-/

namespace Sglang
open List

noncomputable def weight (s : WithBot ℝ) : ℝ := s.recBotCoe 0 fun a => 2 ^ a

noncomputable def shifted (s m : WithBot ℝ) : ℝ :=
  s.recBotCoe 0 fun a => m.recBotCoe 0 fun b => 2 ^ (a - b)

@[simp] lemma weight_bot : weight ⊥ = 0 := rfl

@[simp] lemma weight_coe (a : ℝ) : weight a = 2 ^ a := rfl

@[simp] lemma shifted_bot (m : WithBot ℝ) : shifted ⊥ m = 0 := rfl

@[simp] lemma shifted_coe (a b : ℝ) : shifted a b = 2 ^ (a - b) := rfl

lemma weight_nonneg (s : WithBot ℝ) : 0 ≤ weight s := by
  induction s with
  | bot => simp
  | coe a => simp only [weight_coe]; positivity

lemma shifted_trans {s m n : WithBot ℝ} (hsm : s ≤ m) (hmn : m ≤ n) :
    shifted s m * shifted m n = shifted s n := by
  induction s with
  | bot => simp
  | coe a =>
    lift m to ℝ using ne_bot_of_le_ne_bot WithBot.coe_ne_bot hsm with b
    lift n to ℝ using ne_bot_of_le_ne_bot WithBot.coe_ne_bot hmn with c
    simp only [shifted_coe, ← Real.rpow_add two_pos]
    ring_nf

lemma shifted_mul_weight {s m : WithBot ℝ} (h : s ≤ m) : shifted s m * weight m = weight s := by
  induction s with
  | bot => simp
  | coe a =>
    lift m to ℝ using ne_bot_of_le_ne_bot WithBot.coe_ne_bot h with b
    simp only [shifted_coe, weight_coe, ← Real.rpow_add two_pos]
    ring_nf

variable {V : Type}

abbrev ScoredKeys (V : Type) := List (WithBot ℝ × V)

noncomputable def weightSum (w : WithBot ℝ → ℝ) (keys : ScoredKeys V) : ℝ :=
  (keys.map fun k => w k.1).sum

@[simp] lemma weightSum_append (w : WithBot ℝ → ℝ) (xs ys : ScoredKeys V) :
    weightSum w (xs ++ ys) = weightSum w xs + weightSum w ys := by
  simp [weightSum]

noncomputable def maxScore (keys : ScoredKeys V) : WithBot ℝ :=
  keys.foldr (fun k m => max k.1 m) ⊥

lemma maxScore_append (xs ys : ScoredKeys V) :
    maxScore (xs ++ ys) = max (maxScore xs) (maxScore ys) := by
  induction xs with
  | nil => simp [maxScore]
  | cons k xs ih =>
    show max k.1 (maxScore (xs ++ ys)) = max (max k.1 (maxScore xs)) (maxScore ys)
    rw [ih, max_assoc]

variable {keys : ScoredKeys V}

lemma le_maxScore {k : WithBot ℝ × V} (h : k ∈ keys) : k.1 ≤ maxScore keys := by
  induction keys with
  | nil => cases h
  | cons k' keys ih =>
    obtain rfl | h := mem_cons.mp h
    · exact le_max_left _ _
    · exact (ih h).trans (le_max_right ..)

lemma weightSum_masked (h : ∀ k ∈ keys, k.1 = ⊥) : weightSum weight keys = 0 := by
  refine sum_eq_zero fun x hx => ?_
  obtain ⟨k, hk, rfl⟩ := mem_map.mp hx
  rw [h k hk, weight_bot]

lemma weightSum_pos (h : ∃ k ∈ keys, k.1 ≠ ⊥) : 0 < weightSum weight keys := by
  obtain ⟨k, hk, hne⟩ := h
  have hpos : 0 < weight k.1 := by
    lift k.1 to ℝ using hne with a
    simp only [weight_coe]
    positivity
  have hnonneg : ∀ x ∈ keys.map fun k => weight k.1, 0 ≤ x := by
    simp only [mem_map]
    rintro x ⟨k', -, rfl⟩
    exact weight_nonneg k'.1
  exact hpos.trans_le (single_le_sum hnonneg _ (mem_map.mpr ⟨k, hk, rfl⟩))

variable [AddCommGroup V] [Module ℝ V] {xs ys : ScoredKeys V}

/-- The weighted sum of the values, given the weight of a score. -/
noncomputable def weightedSum (w : WithBot ℝ → ℝ) (keys : ScoredKeys V) : V :=
  (keys.map fun k => w k.1 • k.2).sum

noncomputable def softmaxMean (keys : ScoredKeys V) : V :=
  (weightSum weight keys)⁻¹ • weightedSum weight keys

@[simp] lemma weightedSum_append (w : WithBot ℝ → ℝ) (xs ys : ScoredKeys V) :
    weightedSum w (xs ++ ys) = weightedSum w xs + weightedSum w ys := by
  simp [weightedSum]

lemma softmaxMean_eq_of_sums (hw : weightSum weight xs = weightSum weight ys)
    (hv : weightedSum weight xs = weightedSum weight ys) : softmaxMean xs = softmaxMean ys := by
  rw [softmaxMean, hw, hv, softmaxMean]

lemma softmaxMean_perm (h : xs.Perm ys) : softmaxMean xs = softmaxMean ys :=
  softmaxMean_eq_of_sums (h.map _).sum_eq (h.map _).sum_eq

lemma weightedSum_masked {keys : ScoredKeys V} (h : ∀ k ∈ keys, k.1 = ⊥) :
    weightedSum weight keys = 0 := by
  refine sum_eq_zero fun x hx => ?_
  obtain ⟨k, hk, rfl⟩ := mem_map.mp hx
  rw [h k hk, weight_bot, zero_smul]

/-! ## The online state -/

structure OnlineState (V : Type) where
  rowMax : WithBot ℝ
  rowSum : ℝ
  acc : V

namespace OnlineState
def empty : OnlineState V := { rowMax := ⊥, rowSum := 0, acc := 0 }

noncomputable def absorb (st : OnlineState V) (tile : ScoredKeys V) : OnlineState V :=
  let newMax := max st.rowMax (maxScore tile)
  let rescale := shifted st.rowMax newMax
  { rowMax := newMax
    rowSum := st.rowSum * rescale + weightSum (shifted · newMax) tile
    acc := rescale • st.acc + weightedSum (shifted · newMax) tile }

noncomputable def merge (st₀ st₁ : OnlineState V) : OnlineState V :=
  let m := max st₀.rowMax st₁.rowMax
  let w₀ := shifted st₀.rowMax m
  let w₁ := shifted st₁.rowMax m
  { rowMax := m
    rowSum := st₀.rowSum * w₀ + st₁.rowSum * w₁
    acc := w₀ • st₀.acc + w₁ • st₁.acc }

open Classical in
noncomputable def normalized (st : OnlineState V) : V :=
  (if st.rowSum = 0 then 1 else st.rowSum)⁻¹ • st.acc

noncomputable def summary (keys : ScoredKeys V) : OnlineState V where
  rowMax := maxScore keys
  rowSum := weightSum (shifted · (maxScore keys)) keys
  acc := weightedSum (shifted · (maxScore keys)) keys

lemma summary_nil : summary ([] : ScoredKeys V) = empty := rfl

variable {keys : ScoredKeys V}

lemma weightSum_rescale {n : WithBot ℝ} (h : maxScore keys ≤ n) :
    weightSum (shifted · n) keys = (summary keys).rowSum * shifted (maxScore keys) n := by
  simp only [summary, weightSum, ← sum_map_mul_right]
  exact congrArg sum <| map_congr_left fun k hk => (shifted_trans (le_maxScore hk) h).symm

lemma weightedSum_rescale {n : WithBot ℝ} (h : maxScore keys ≤ n) :
    weightedSum (shifted · n) keys = shifted (maxScore keys) n • (summary keys).acc := by
  simp only [summary, weightedSum, smul_sum, map_map]
  refine congrArg sum <| map_congr_left fun k hk => ?_
  simp only [Function.comp_apply, smul_smul, ← shifted_trans (le_maxScore hk) h, mul_comm]

lemma absorb_summary (keys tile : ScoredKeys V) :
    (summary keys).absorb tile = summary (keys ++ tile) := by
  have hle : maxScore keys ≤ max (maxScore keys) (maxScore tile) := le_max_left _ _
  simp only [absorb, summary, maxScore_append, weightSum_append, weightedSum_append]
  rw [weightSum_rescale hle, weightedSum_rescale hle]
  rfl

lemma foldl_absorb (tiles : List (ScoredKeys V)) (keys : ScoredKeys V) :
    tiles.foldl absorb (summary keys) = summary (keys ++ tiles.flatten) := by
  induction tiles generalizing keys with
  | nil => simp
  | cons tile tiles ih => simp [absorb_summary, ih]

lemma merge_summary (xs ys : ScoredKeys V) : merge (summary xs) (summary ys) = summary (xs ++ ys) := by
  have hx : maxScore xs ≤ max (maxScore xs) (maxScore ys) := le_max_left _ _
  have hy : maxScore ys ≤ max (maxScore xs) (maxScore ys) := le_max_right _ _
  simp only [merge, summary, maxScore_append, weightSum_append, weightedSum_append]
  rw [weightSum_rescale hx, weightSum_rescale hy, weightedSum_rescale hx, weightedSum_rescale hy]
  rfl

lemma normalized_summary (h : ∃ k ∈ keys, k.1 ≠ ⊥) : (summary keys).normalized = softmaxMean keys := by
  have hsum : (summary keys).rowSum * weight (maxScore keys) = weightSum weight keys := by
    simp only [summary, weightSum, ← sum_map_mul_right]
    exact congrArg sum <| map_congr_left fun k hk => shifted_mul_weight (le_maxScore hk)
  have hacc : weight (maxScore keys) • (summary keys).acc = weightedSum weight keys := by
    simp only [summary, weightedSum, smul_sum, map_map]
    refine congrArg sum <| map_congr_left fun k hk => ?_
    simp only [Function.comp_apply, smul_smul, ← shifted_mul_weight (le_maxScore hk), mul_comm]
  have hpos := weightSum_pos h
  have hl : (summary keys).rowSum ≠ 0 := by
    grind
  have hw : weight (maxScore keys) ≠ 0 := by
    grind
  rw [normalized, if_neg hl, softmaxMean, ← hsum, ← hacc, smul_smul, mul_inv, mul_assoc,
    inv_mul_cancel₀ hw, mul_one]
end OnlineState
end Sglang
