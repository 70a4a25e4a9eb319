import Mathlib

/-!
# Drawing from a list of weights with a coin

Two ways to draw an item of a list with one uniform coin.
-/

namespace Sglang
open List MeasureTheory ProbabilityTheory
open ENNReal (ofReal)
open MeasurableSpace (comap)

section
variable {α K : Type} [Field K] [LinearOrder K]

/-- The first item at which the running sum, from `acc` on, reaches the coin. -/
def pickBelow (w : α → K) (coin : K) : K → List α → Option α
  | _, [] => none
  | acc, x :: xs => if coin ≤ acc + w x then some x else pickBelow w coin (acc + w x) xs

/-- The first item of positive weight at which the running sum, from `acc` on, exceeds `u`. -/
def inverseCdf (w : α → K) (u : K) : K → List α → Option α
  | _, [] => none
  | acc, x :: xs => if 0 < w x ∧ u < acc + w x then some x else inverseCdf w u (acc + w x) xs

variable {w : α → K} {u acc : K} {xs : List α} {x : α}

lemma mem_of_pickBelow (h : pickBelow w u acc xs = some x) : x ∈ xs := by
  induction xs generalizing acc with
  | nil => cases h
  | cons y ys ih =>
    rw [pickBelow] at h
    grind

lemma mem_of_inverseCdf (h : inverseCdf w u acc xs = some x) : x ∈ xs := by
  induction xs generalizing acc with
  | nil => cases h
  | cons y ys ih =>
    rw [inverseCdf] at h
    grind

variable [IsStrictOrderedRing K]

variable (hw : ∀ x ∈ xs, 0 ≤ w x)
include hw

lemma sum_map_nonneg : 0 ≤ (xs.map w).sum :=
  sum_nonneg (forall_mem_map.mpr hw)

/-- A run through the items that goes on while the sum is `P`: an item is taken by an interval. -/
lemma scan_interval (f : K → K → List α → Option α) (P : K → K → Prop)
    (hP : ∀ u s t, s ≤ t → P u t → P u s) (hmem : ∀ u acc ys, f u acc ys = some x → x ∈ ys)
    (hgo : ∀ u acc y ys, P u (acc + w y) → f u acc (y :: ys) = f u (acc + w y) ys)
    (hstop : ∀ u acc y ys, P u acc → ¬P u (acc + w y) → f u acc (y :: ys) = some y)
    (hnd : xs.Nodup) (hx : x ∈ xs) (acc : K) : ∃ a, acc ≤ a ∧ a + w x ≤ acc + (xs.map w).sum ∧
      ∀ u, P u acc → (f u acc xs = some x ↔ P u a ∧ ¬P u (a + w x)) := by
  induction xs generalizing acc with
  | nil => cases hx
  | cons y ys ih => ?_
  rw [forall_mem_cons] at hw
  rw [nodup_cons] at hnd
  simp only [map_cons, sum_cons]
  rcases mem_cons.mp hx with rfl | hin
  · refine ⟨acc, le_rfl, by linarith [sum_map_nonneg hw.2], fun u hu => ?_⟩
    by_cases hb : P u (acc + w x)
    · rw [hgo _ _ _ _ hb]
      exact ⟨fun h => absurd (hmem _ _ _ h) hnd.1, fun h => absurd hb h.2⟩
    · simp [hstop _ _ _ _ hu hb, hu, hb]
  obtain ⟨a, ha, hsum, hiff⟩ := ih hw.2 hnd.2 hin (acc + w y)
  refine ⟨a, by linarith [hw.1], by linarith, fun u hu => ?_⟩
  by_cases hb : P u (acc + w y)
  · rw [hgo _ _ _ _ hb]
    exact hiff u hb
  · have hne : y ≠ x := fun e => hnd.1 (e ▸ hin)
    rw [hstop _ _ _ _ hu hb]
    exact ⟨fun h => absurd (Option.some_inj.mp h) hne, fun h => absurd (hP _ _ _ ha h.1) hb⟩

lemma pickBelow_interval (hnd : xs.Nodup) (hx : x ∈ xs) (acc : K) :
    ∃ a, acc ≤ a ∧ a + w x ≤ acc + (xs.map w).sum ∧
      ∀ u, acc < u → (pickBelow w u acc xs = some x ↔ a < u ∧ u ≤ a + w x) := by
  simpa only [not_lt] using scan_interval hw (pickBelow w) (fun u s => s < u)
    (fun _ _ _ => lt_of_le_of_lt) (fun _ _ _ => mem_of_pickBelow) (fun _ _ _ _ h => if_neg h.not_ge)
    (fun _ _ _ _ _ h => if_pos (not_lt.mp h)) hnd hx acc

lemma pickBelow_eq_none (hu : acc < u) : pickBelow w u acc xs = none ↔ acc + (xs.map w).sum < u := by
  induction xs generalizing acc with
  | nil => simpa [pickBelow] using hu
  | cons y ys ih => ?_
  rw [forall_mem_cons] at hw
  rw [pickBelow, map_cons, sum_cons, ← add_assoc]
  by_cases hle : u ≤ acc + w y
  · rw [if_pos hle]
    refine ⟨fun h => (Option.some_ne_none _ h).elim, fun h => ?_⟩
    linarith [sum_map_nonneg hw.2]
  grind

lemma inverseCdf_interval (hnd : xs.Nodup) (hx : x ∈ xs) (acc : K) :
    ∃ a, acc ≤ a ∧ a + w x ≤ acc + (xs.map w).sum ∧
      ∀ u, acc ≤ u → (inverseCdf w u acc xs = some x ↔ a ≤ u ∧ u < a + w x) := by
  -- an item without weight is passed over, like one whose sum stays below the level
  simpa only [not_le] using scan_interval hw (inverseCdf w) (fun u s => s ≤ u) (fun _ _ _ => le_trans)
    (fun _ _ _ => mem_of_inverseCdf) (fun _ _ _ _ h => if_neg fun hc => hc.2.not_ge h)
    (fun _ _ _ _ hu h => if_pos ⟨by linarith, not_le.mp h⟩) hnd hx acc

lemma inverseCdf_ne_none (hacc : acc ≤ u) (hu : u < acc + (xs.map w).sum) :
    inverseCdf w u acc xs ≠ none := by
  induction xs generalizing acc with
  | nil =>
    grind
  | cons y ys ih =>
    rw [forall_mem_cons] at hw
    rw [map_cons, sum_cons, ← add_assoc] at hu
    rw [inverseCdf]
    grind
end

/-! ## One coin -/

noncomputable def coinLaw : Measure ℝ := volume.restrict (Set.Ico 0 1)

instance : IsProbabilityMeasure coinLaw :=
  ⟨by rw [coinLaw, Measure.restrict_apply_univ, Real.volume_Ico]; simp⟩

lemma coinLaw_mem : ∀ᵐ u ∂coinLaw, u ∈ Set.Ico (0 : ℝ) 1 :=
  ae_restrict_mem measurableSet_Ico

lemma coinLaw_Ico {a b : ℝ} (ha : 0 ≤ a) (hb : b ≤ 1) : coinLaw (Set.Ico a b) = ofReal (b - a) := by
  have hsub : Set.Ico a b ⊆ Set.Ico 0 1 := fun u hu => ⟨ha.trans hu.1, hu.2.trans_le hb⟩
  rw [coinLaw, Measure.restrict_apply measurableSet_Ico, Set.inter_eq_self_of_subset_left hsub,
    Real.volume_Ico]

lemma coinLaw_singleton (a : ℝ) : coinLaw {a} = 0 :=
  le_antisymm ((Measure.restrict_apply_le ..).trans_eq Real.volume_singleton) bot_le

lemma coinLaw_Ioc {a b : ℝ} (ha : 0 ≤ a) (hb : b ≤ 1) : coinLaw (Set.Ioc a b) = ofReal (b - a) := by
  have : NullSingletonClass coinLaw := ⟨coinLaw_singleton⟩
  rw [measure_congr Ico_ae_eq_Ioc.symm, coinLaw_Ico ha hb]

lemma coinLaw_pos : ∀ᵐ u ∂coinLaw, (0 : ℝ) < u := by
  have hne : ∀ᵐ u ∂coinLaw, u ≠ (0 : ℝ) := measure_eq_zero_iff_ae_notMem.mp (coinLaw_singleton 0)
  filter_upwards [coinLaw_mem, hne] with u hmem hne
  exact lt_of_le_of_ne hmem.1 hne.symm

section
variable {α : Type} {w : α → ℝ} {xs : List α} {x : α}

lemma measurable_pickBelow (w : α → ℝ) (acc : ℝ) (xs : List α) :
    Measurable[_, ⊤] fun u => pickBelow w u acc xs := by
  induction xs generalizing acc with
  | nil => exact @measurable_const _ _ ⊤ _ _
  | cons y ys ih => exact Measurable.ite measurableSet_Iic (@measurable_const _ _ ⊤ _ _) (ih _)

lemma measurable_inverseCdf (w : α → ℝ) (acc : ℝ) (xs : List α) :
    Measurable[_, ⊤] fun u => inverseCdf w u acc xs := by
  induction xs generalizing acc with
  | nil => exact @measurable_const _ _ ⊤ _ _
  | cons y ys ih =>
    exact Measurable.ite ((MeasurableSet.const _).inter measurableSet_Iio)
      (@measurable_const _ _ ⊤ _ _) (ih _)

variable (hw : ∀ x ∈ xs, 0 ≤ w x)
include hw

lemma coinLaw_pickBelow (hsum : (xs.map w).sum ≤ 1) (hnd : xs.Nodup)
    (hx : x ∈ xs) : coinLaw {u | pickBelow w u 0 xs = some x} = ofReal (w x) := by
  obtain ⟨a, ha, hle, hiff⟩ := pickBelow_interval hw hnd hx 0
  have hset : {u | pickBelow w u 0 xs = some x} =ᵐ[coinLaw] Set.Ioc a (a + w x) := by
    refine Filter.eventuallyEq_set.mpr ?_
    filter_upwards [coinLaw_pos] with u hu
    exact hiff u hu
  rw [measure_congr hset, coinLaw_Ioc ha (by linarith), add_sub_cancel_left]

lemma coinLaw_pickBelow_none :
    coinLaw {u | pickBelow w u 0 xs = none} = ofReal (1 - (xs.map w).sum) := by
  have hset : {u | pickBelow w u 0 xs = none} =ᵐ[coinLaw] Set.Ioc (xs.map w).sum 1 := by
    refine Filter.eventuallyEq_set.mpr ?_
    filter_upwards [coinLaw_pos, coinLaw_mem] with u hu hmem
    refine (pickBelow_eq_none hw hu).trans ?_
    grind
  rw [measure_congr hset, coinLaw_Ioc (sum_map_nonneg hw) le_rfl]

lemma coinLaw_inverseCdf (hpos : 0 < (xs.map w).sum) (hnd : xs.Nodup)
    (hx : x ∈ xs) : coinLaw {u | inverseCdf w (u * (xs.map w).sum) 0 xs = some x} =
      ofReal (w x / (xs.map w).sum) := by
  obtain ⟨a, ha, hle, hiff⟩ := inverseCdf_interval hw hnd hx 0
  generalize (xs.map w).sum = total at *
  have hset : {u | inverseCdf w (u * total) 0 xs = some x} =ᵐ[coinLaw]
      Set.Ico (a / total) ((a + w x) / total) := by
    refine Filter.eventuallyEq_set.mpr ?_
    filter_upwards [coinLaw_mem] with u hu
    refine (hiff _ (mul_nonneg hu.1 hpos.le)).trans ?_
    rw [Set.mem_Ico, div_le_iff₀ hpos, lt_div_iff₀ hpos]
  rw [measure_congr hset, coinLaw_Ico (div_nonneg ha hpos.le) ((div_le_one hpos).mpr (by linarith)),
    ← sub_div, add_sub_cancel_left]
end

/-! ## Independent coins -/

variable {Ω ι : Type}

structure Coins [MeasurableSpace Ω] (coin : ι → Ω → ℝ) (μ : Measure Ω) : Prop where
  measurable : ∀ i, Measurable (coin i)
  indep : iIndepFun coin μ
  law : ∀ i, μ.map (coin i) = coinLaw

@[reducible]
def decidedBy (coin : ι → Ω → ℝ) (S : Set ι) : MeasurableSpace Ω :=
  ⨆ i ∈ S, comap (coin i) Real.measurableSpace

variable {coin : ι → Ω → ℝ} {S : Set ι} {i : ι} {E : Set Ω} {B : Set ℝ}

lemma decidedBy_inter (hE : MeasurableSet[decidedBy coin S] E) (hB : MeasurableSet B) :
    MeasurableSet[decidedBy coin (insert i S)] (E ∩ Set.preimage (coin i) B) := by
  have hmono : decidedBy coin S ≤ decidedBy coin (insert i S) :=
    biSup_mono fun _ => Set.mem_insert_of_mem i
  have hi : comap (coin i) Real.measurableSpace ≤ decidedBy coin (insert i S) :=
    le_biSup (fun i => comap (coin i) Real.measurableSpace) (Set.mem_insert i S)
  exact MeasurableSet.inter (hmono _ hE) (hi _ ⟨B, hB, rfl⟩)

variable [MeasurableSpace Ω] {μ : Measure Ω}

lemma Coins.measure_inter (h : Coins coin μ) (hi : i ∉ S) (hE : MeasurableSet[decidedBy coin S] E)
    (hB : MeasurableSet B) : μ (E ∩ Set.preimage (coin i) B) = μ E * coinLaw B := by
  have hindep : Indep (decidedBy coin S) (decidedBy coin {i}) μ :=
    indep_iSup_of_disjoint (fun i => (h.measurable i).comap_le) h.indep
      (Set.disjoint_singleton_right.mpr hi)
  have hone : MeasurableSet[decidedBy coin {i}] (Set.preimage (coin i) B) :=
    le_biSup (fun i => comap (coin i) Real.measurableSpace) (Set.mem_singleton i) _ ⟨B, hB, rfl⟩
  rw [(Indep_iff _ _ μ).mp hindep E _ hE hone, ← h.law i, Measure.map_apply (h.measurable i) hB]

lemma Coins.ae {p : ℝ → Prop} (h : Coins coin μ) (i : ι) (hp : ∀ᵐ u ∂coinLaw, p u) :
    ∀ᵐ ω ∂μ, p (coin i ω) := by
  rw [← h.law i] at hp
  exact ae_of_ae_map (h.measurable i).aemeasurable hp

lemma Coins.pi (ι : Type) [Fintype ι] :
    Coins (fun (i : ι) (ω : ι → ℝ) => ω i) (Measure.pi fun _ => coinLaw) where
  measurable := measurable_pi_apply
  indep := iIndepFun_pi (X := fun _ => id) fun _ => aemeasurable_id
  law := fun i => (measurePreserving_eval (fun _ : ι => coinLaw) i).map_eq
end Sglang
