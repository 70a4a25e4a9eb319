import Sglang.Spec.SampleTree

/-!
# Sampling along a draft tree keeps the target distribution

The tokens that a request is given by `TreeSpeculativeSamplingTargetOnly` have the law of sampling token
by token from the target distributions.
-/

namespace Sglang.Spec
open List MeasureTheory ProbabilityTheory PMF
open ENNReal (ofReal ofReal_toReal ofReal_zero tsum_eq_zero)

/-- Sampling token by token from the target, until no child matches or after `k` steps. -/
noncomputable def targetLaw {d : Nat} (target : Nat → PMF (Fin d)) (token : Nat → Int)
    (kids : Nat → List Nat) : Nat → Nat → PMF (List (Fin d))
  | 0, v => (target v).map fun t => [t]
  | k + 1, v => (target v).bind fun t =>
    match (kids v).find? fun c => decide (token c = (t : Nat)) with
    | none => PMF.pure [t]
    | some c => (targetLaw target token kids k c).map (t :: ·)

section
variable {d : Nat} {target : Nat → PMF (Fin d)} {token : Nat → Int} {kids : Nat → List Nat}

lemma map_cons_apply {α : Type} (law : PMF (List α)) (x : α) (xs : List α) :
    law.map (x :: ·) (x :: xs) = law xs := by
  rw [map_apply, tsum_eq_single xs]
  · exact if_pos rfl
  · exact fun ys hne => if_neg fun e => hne (cons.inj e).2.symm

lemma targetLaw_nil (k v : Nat) : targetLaw target token kids k v [] = 0 := by
  rcases k with _ | k
  · rw [targetLaw, map_apply, tsum_eq_zero]
    exact fun t => if_neg (cons_ne_nil _ _).symm
  rw [targetLaw, bind_apply, tsum_eq_zero]
  intro t
  refine mul_eq_zero_of_right _ ?_
  split
  · exact pure_apply_of_ne _ _ (cons_ne_nil _ _).symm
  simp

lemma targetLaw_zero (v : Nat) (t : Fin d) (rest : List (Fin d)) :
    targetLaw target token kids 0 v (t :: rest) = if rest = [] then target v t else 0 := by
  rw [targetLaw, map_apply]
  split
  · rename_i hrest
    rw [tsum_eq_single t, hrest, if_pos rfl]
    exact fun x hne => if_neg fun e => hne (cons.inj e).1.symm
  · rename_i hrest
    exact tsum_eq_zero.mpr fun x => if_neg fun e => hrest (cons.inj e).2

lemma targetLaw_succ (k v : Nat) (t : Fin d) (rest : List (Fin d)) :
    targetLaw target token kids (k + 1) v (t :: rest) = target v t *
      match (kids v).find? fun c => decide (token c = (t : Nat)) with
      | none => if rest = [] then 1 else 0
      | some c => targetLaw target token kids k c rest := by
  rw [targetLaw, bind_apply, tsum_eq_single t]
  · congr 1
    split
    · simp
    · exact map_cons_apply _ t rest
  intro x hne
  refine mul_eq_zero_of_right _ ?_
  split
  · exact pure_apply_of_ne _ _ fun e => hne (cons.inj e).1.symm
  · rw [map_apply, tsum_eq_zero]
    exact fun _ => if_neg fun e => hne (cons.inj e).1.symm
end

/-! ## The last draw -/

section
variable {d : Nat} {w : Nat → ℝ}

lemma measurableSet_finalDraw (d : Nat) (w : Nat → ℝ) (t : Int) :
    MeasurableSet {u | finalDraw d w u = t} := by
  have hcdf : Measurable[_, ⊤] fun u : ℝ =>
      inverseCdf w (u * ((range d).map w).sum) 0 (range d) :=
    (measurable_inverseCdf w 0 (range d)).comp (measurable_id.mul_const _)
  exact hcdf (t := {found | sampledOrLast d w found = t}) trivial

lemma coinLaw_finalDraw (hw : ∀ i < d, 0 ≤ w i) {t : Nat} (ht : t < d) :
    ofReal ((range d).map w).sum * coinLaw {u | finalDraw d w u = t} = ofReal (w t) := by
  have hw' : ∀ i ∈ range d, 0 ≤ w i := fun i hi => hw i (mem_range.mp hi)
  have hle : w t ≤ ((range d).map w).sum :=
    single_le_sum (forall_mem_map.mpr hw') _ (mem_map.mpr ⟨t, mem_range.mpr ht, rfl⟩)
  rcases (sum_map_nonneg hw').eq_or_lt with hzero | hpos
  · have hwt : w t = 0 := le_antisymm (hzero ▸ hle) (hw t ht)
    rw [← hzero, hwt, ofReal_zero, zero_mul]
  have hset : {u | finalDraw d w u = t} =ᵐ[coinLaw]
      {u | inverseCdf w (u * ((range d).map w).sum) 0 (range d) = some t} := by
    refine Filter.eventuallyEq_set.mpr ?_
    filter_upwards [coinLaw_mem] with u hu
    have hfound : inverseCdf w (u * ((range d).map w).sum) 0 (range d) ≠ none := by
      refine inverseCdf_ne_none hw' (mul_nonneg hu.1 hpos.le) ?_
      rw [zero_add]
      exact mul_lt_of_lt_one_left hpos hu.2
    obtain ⟨i, hi⟩ := Option.ne_none_iff_exists'.mp hfound
    simp only [finalDraw, sampledOrLast, hi, Option.some_inj, Nat.cast_inj]
  rw [measure_congr hset, coinLaw_inverseCdf hw' hpos nodup_range (mem_range.mpr ht),
    ← ENNReal.ofReal_mul hpos.le, mul_div_cancel₀ _ hpos.ne']
end

/-! ## The target distribution of a node -/

section
variable {a : SampleArgs ℝ} {bx v : Nat} {cs : List Nat} {target : PMF (Fin a.d)} {i : Nat}

/-- The probabilities of a node are those of a distribution. -/
def HoldsLaw (a : SampleArgs ℝ) (bx v : Nat) (target : PMF (Fin a.d)) : Prop :=
  ∀ t : Fin a.d, targetProb a bx v (t : Nat) = (target t).toReal

lemma HoldsLaw.nonneg (h : HoldsLaw a bx v target) (hi : i < a.d) : 0 ≤ targetProb a bx v i := by
  rw [h ⟨i, hi⟩]
  exact ENNReal.toReal_nonneg

lemma HoldsLaw.total (h : HoldsLaw a bx v target) :
    ∑ i ∈ Finset.range a.d, targetProb a bx v (i : Nat) = 1 := by
  have hone := tsum_coe target
  rw [tsum_fintype] at hone
  rw [Finset.sum_range, Finset.sum_congr rfl fun t _ => h t,
    ← ENNReal.toReal_sum fun t _ => apply_ne_top target t, hone, ENNReal.toReal_one]

/-- The children carry different tokens of the vocabulary. -/
structure Siblings (a : SampleArgs ℝ) (bx : Nat) (cs : List Nat) : Prop where
  nodup : cs.Nodup
  vocab : ∀ c ∈ cs, ∃ t < a.d, draftToken a bx c = (t : Nat)
  distinct : ∀ c ∈ cs, ∀ c' ∈ cs, draftToken a bx c = draftToken a bx c' → c = c'

lemma Siblings.nil : Siblings a bx [] := ⟨nodup_nil, nofun, nofun⟩

lemma HoldsLaw.nonneg_child (h : HoldsLaw a bx v target) (hcs : Siblings a bx cs) {c : Nat}
    (hc : c ∈ cs) : 0 ≤ targetProb a bx v (draftToken a bx c) := by
  obtain ⟨t, ht, htok⟩ := hcs.vocab c hc
  rw [htok]
  exact h.nonneg ht

lemma residual_eq (h : HoldsLaw a bx v target) (hi : i < a.d) :
    residual a bx v cs i =
      if (i : Int) ∈ cs.map (draftToken a bx) then 0 else targetProb a bx v i := by
  rw [residual]
  split
  · rw [sub_self, max_self]
  · rw [sub_zero, max_eq_left (h.nonneg hi)]

lemma residual_total (h : HoldsLaw a bx v target) (hcs : Siblings a bx cs) :
    ((range a.d).map (residual a bx v cs)).sum =
      1 - (cs.map fun c => targetProb a bx v (draftToken a bx c)).sum := by
  -- the tokens of the children, as a part of the vocabulary
  have hnat : ∀ c ∈ cs, ((draftToken a bx c).toNat : Int) = draftToken a bx c := by
    intro c hc
    obtain ⟨t, -, htok⟩ := hcs.vocab c hc
    rw [htok, Int.toNat_natCast]
  have hinj : Set.InjOn (fun c => (draftToken a bx c).toNat) cs.toFinset := by
    intro c hc c' hc' heq
    rw [SetLike.mem_coe, mem_toFinset] at hc hc'
    refine hcs.distinct c hc c' hc' ?_
    grind
  have hsub : cs.toFinset.image (fun c => (draftToken a bx c).toNat) ⊆ Finset.range a.d := by
    intro i hi
    obtain ⟨c, hc, rfl⟩ := Finset.mem_image.mp hi
    obtain ⟨t, ht, htok⟩ := hcs.vocab c (mem_toFinset.mp hc)
    grind
  have hmem : ∀ i : Nat, (i : Int) ∈ cs.map (draftToken a bx) ↔
      i ∈ cs.toFinset.image fun c => (draftToken a bx c).toNat := by
    intro i
    rw [mem_map, Finset.mem_image]
    refine exists_congr fun c => ?_
    rw [mem_toFinset]
    grind
  have hleft : ((range a.d).map (residual a bx v cs)).sum =
      ∑ i ∈ Finset.range a.d \ cs.toFinset.image (fun c => (draftToken a bx c).toNat),
        targetProb a bx v (i : Nat) := by
    rw [← sum_toFinset _ nodup_range, toFinset_range, Finset.sdiff_eq_filter, Finset.sum_filter]
    refine Finset.sum_congr rfl fun i hi => ?_
    rw [residual_eq h (Finset.mem_range.mp hi), ite_not]
    exact if_congr (hmem i) rfl rfl
  have hright : (cs.map fun c => targetProb a bx v (draftToken a bx c)).sum =
      ∑ i ∈ cs.toFinset.image (fun c => (draftToken a bx c).toNat), targetProb a bx v (i : Nat) := by
    rw [Finset.sum_image hinj, ← sum_toFinset _ hcs.nodup]
    refine Finset.sum_congr rfl fun c hc => ?_
    rw [hnat c (mem_toFinset.mp hc)]
  rw [hleft, hright, eq_sub_iff_add_eq, Finset.sum_sdiff hsub, h.total]

lemma residual_nonneg (a : SampleArgs ℝ) (bx v : Nat) (cs : List Nat) (i : Nat) :
    0 ≤ residual a bx v cs i :=
  le_max_right _ _

lemma children_total_le (h : HoldsLaw a bx v target) (hcs : Siblings a bx cs) :
    (cs.map fun c => targetProb a bx v (draftToken a bx c)).sum ≤ 1 := by
  have hnonneg : 0 ≤ ((range a.d).map (residual a bx v cs)).sum :=
    sum_map_nonneg fun i _ => residual_nonneg a bx v cs i
  rw [residual_total h hcs] at hnonneg
  exact sub_nonneg.mp hnonneg

lemma acceptChild_eq_pickBelow (hsingle : a.thresholdSingle = 1) (hthr : a.thresholdAcc = 1)
    (hcoin : a.uniformSamples (entry a.numDraftTokens bx v) ≤ 1)
    (hcs : ∀ c ∈ cs, 0 ≤ targetProb a bx v (draftToken a bx c)) {acc : ℝ} (hacc : 0 ≤ acc) :
    acceptChild a bx v acc cs = pickBelow (fun c => targetProb a bx v (draftToken a bx c))
      (a.uniformSamples (entry a.numDraftTokens bx v)) acc cs := by
  induction cs generalizing acc with
  | nil => rfl
  | cons c cs ih => ?_
  rw [forall_mem_cons] at hcs
  have hcond : (a.uniformSamples (entry a.numDraftTokens bx v) ≤
      (acc + targetProb a bx v (draftToken a bx c)) / a.thresholdAcc ∨
      a.thresholdSingle ≤ targetProb a bx v (draftToken a bx c)) ↔
      a.uniformSamples (entry a.numDraftTokens bx v) ≤
        acc + targetProb a bx v (draftToken a bx c) := by
    rw [hsingle, hthr, div_one]
    exact ⟨fun h => h.elim id fun hone => by linarith, .inl⟩
  rw [acceptChild, pickBelow, ih hcs.2 (add_nonneg hacc hcs.1)]
  exact if_congr hcond rfl rfl
end

lemma sampleTokens_eq_cons {a : SampleArgs ℝ} {bx v k : Nat} {kids : Nat → List Nat}
    {found : Option Nat} (hfound : acceptChild a bx v 0 (kids v) = found) (x : Int) (xs : List Int) :
    sampleTokens a bx kids (k + 1) v = x :: xs ↔
      (found = none ∧ finalDraw a.d (residual a bx v (kids v)) (a.uniformSamplesForFinalSampling bx) = x ∧
        xs = []) ∨ ∃ c, found = some c ∧ draftToken a bx c = x ∧ sampleTokens a bx kids k c = xs := by
  rw [sampleTokens, hfound]
  grind

/-! ## The coins of a request -/

def SampleArgs.toss {K : Type} (a : SampleArgs K) (uniform final : Int → K) : SampleArgs K :=
  { a with uniformSamples := uniform, uniformSamplesForFinalSampling := final }

def requestCoins {Ω : Type} (n bx : Nat) (uniform final : Int → Ω → ℝ) : Option (Fin n) → Ω → ℝ
  | none => final bx
  | some v => uniform (entry n bx v)

/-- Tokens of the vocabulary as they stand in the tables. -/
def tokenIds {d : Nat} (toks : List (Fin d)) : List Int := toks.map fun t : Fin d => ((t : Nat) : Int)

def coinsOf (n : Nat) (above : List Nat) : Set (Option (Fin n)) := {i | ∃ u ∈ i, (u : Nat) ∈ above}

lemma none_notMem_coinsOf (n : Nat) (above : List Nat) : none ∉ coinsOf n above := by
  rintro ⟨u, hu, -⟩
  cases hu

lemma insert_coinsOf {n v : Nat} (above : List Nat) (hv : v < n) :
    insert (some ⟨v, hv⟩) (coinsOf n above) = coinsOf n (above ++ [v]) := by
  ext i
  rcases i with _ | u
  · refine iff_of_false ?_ (none_notMem_coinsOf n _)
    rintro (h | h)
    · cases h
    · exact none_notMem_coinsOf n above h
  have hmem : ∀ xs : List Nat, some u ∈ coinsOf n xs ↔ (u : Nat) ∈ xs := fun xs => by
    simp [coinsOf]
  grind

structure HoldsLaws (a : SampleArgs ℝ) (bx : Nat) (kids : Nat → List Nat)
    (target : Nat → PMF (Fin a.d)) : Prop where
  tree : IsTree a.numDraftTokens kids
  siblings : ∀ v < a.numDraftTokens, Siblings a bx (kids v)
  law : ∀ v < a.numDraftTokens, HoldsLaw a bx v (target v)

section
variable {Ω : Type} {a : SampleArgs ℝ} {bx : Nat} {kids : Nat → List Nat}
variable {target : Nat → PMF (Fin a.d)} {uniform final : Int → Ω → ℝ} {above : List Nat} {v c : Nat}
variable {E : Set Ω} {t : Fin a.d}

noncomputable def picked (a : SampleArgs ℝ) (bx : Nat) (kids : Nat → List Nat) (uniform : Int → Ω → ℝ) (v : Nat)
    (ω : Ω) : Option Nat :=
  pickBelow (fun c => targetProb a bx v (draftToken a bx c)) (uniform (entry a.numDraftTokens bx v) ω) 0
    (kids v)

noncomputable def walkTokens (a : SampleArgs ℝ) (bx : Nat) (kids : Nat → List Nat) (uniform final : Int → Ω → ℝ)
    (k v : Nat) (ω : Ω) : List Int :=
  sampleTokens (a.toss (uniform · ω) (final · ω)) bx kids k v

lemma walkTokens_ne_nil (k : Nat) (ω : Ω) : walkTokens a bx kids uniform final k v ω ≠ [] := by
  cases k with
  | zero => exact cons_ne_nil _ _
  | succ k =>
    rw [walkTokens, sampleTokens]
    split <;> exact cons_ne_nil _ _

lemma coin_notMem_coinsOf {n : Nat} (hv : v < n) (hmet : v ∉ above) :
    some ⟨v, hv⟩ ∉ coinsOf n above := by
  rintro ⟨u, heq, hu⟩
  grind

/-- The coins of the nodes `above` decide about `E`. -/
abbrev Decided (a : SampleArgs ℝ) (bx : Nat) (uniform final : Int → Ω → ℝ) (above : List Nat)
    (E : Set Ω) : Prop :=
  MeasurableSet[decidedBy (requestCoins a.numDraftTokens bx uniform final)
    (coinsOf a.numDraftTokens above)] E

lemma decidedBy_picked (kids : Nat → List Nat) (hv : v < a.numDraftTokens) (found : Option Nat)
    (hE : Decided a bx uniform final above E) :
    Decided a bx uniform final (above ++ [v]) (E ∩ {ω | picked a bx kids uniform v ω = found}) := by
  rw [Decided, ← insert_coinsOf above hv]
  exact decidedBy_inter hE (measurable_pickBelow (fun c => targetProb a bx v (draftToken a bx c)) 0
    (kids v) (t := {x | x = found}) trivial)

variable [MeasurableSpace Ω] {μ : Measure Ω}
  (hcoins : Coins (requestCoins a.numDraftTokens bx uniform final) μ)

include hcoins

lemma measure_picked (hv : v < a.numDraftTokens) (hmet : v ∉ above) (found : Option Nat)
    (hE : Decided a bx uniform final above E) :
    μ (E ∩ {ω | picked a bx kids uniform v ω = found}) =
      μ E * coinLaw {u | pickBelow (fun c => targetProb a bx v (draftToken a bx c)) u 0 (kids v) =
        found} :=
  hcoins.measure_inter (coin_notMem_coinsOf hv hmet) hE
    (measurable_pickBelow _ 0 (kids v) (t := {x | x = found}) trivial)

section
variable (hlaws : HoldsLaws a bx kids target) (hv : v < a.numDraftTokens) (hmet : v ∉ above)
  (hE : Decided a bx uniform final above E)
include hlaws hv hmet hE

lemma measure_picked_child (hc : c ∈ kids v) (htok : draftToken a bx c = (t : Nat)) :
    μ (E ∩ {ω | picked a bx kids uniform v ω = some c}) = μ E * target v t := by
  have hsib := hlaws.siblings v hv
  have hlaw := hlaws.law v hv
  rw [measure_picked hcoins hv hmet _ hE, coinLaw_pickBelow (fun c hc => hlaw.nonneg_child hsib hc)
    (children_total_le hlaw hsib) hsib.nodup hc, htok, hlaw t,
    ofReal_toReal (apply_ne_top _ _)]

lemma measure_passed_drawn (t : Fin a.d) : μ (E ∩ {ω | picked a bx kids uniform v ω = none} ∩
      {ω | finalDraw a.d (residual a bx v (kids v)) (final bx ω) = (t : Nat)}) =
      μ E * ofReal (residual a bx v (kids v) t) := by
  set rest := (residual a bx v (kids v))
  have hsib := hlaws.siblings v hv
  have hlaw := hlaws.law v hv
  have hdrawn := hcoins.measure_inter (none_notMem_coinsOf _ _) (decidedBy_picked kids hv none hE)
    (measurableSet_finalDraw a.d rest (t : Nat))
  calc μ (E ∩ {ω | picked a bx kids uniform v ω = none} ∩
        {ω | finalDraw a.d rest (final bx ω) = (t : Nat)})
      = μ (E ∩ {ω | picked a bx kids uniform v ω = none}) *
        coinLaw {u | finalDraw a.d rest u = (t : Nat)} := hdrawn
    _ = μ E * (ofReal ((range a.d).map rest).sum *
        coinLaw {u | finalDraw a.d rest u = (t : Nat)}) := by
        rw [measure_picked hcoins hv hmet _ hE,
          coinLaw_pickBelow_none fun c hc => hlaw.nonneg_child hsib hc, residual_total hlaw hsib, mul_assoc]
    _ = μ E * ofReal (residual a bx v (kids v) t) := by
        rw [coinLaw_finalDraw (fun i _ => residual_nonneg a bx v (kids v) i) t.isLt]
end

lemma measure_drawn (hlaw : HoldsLaw a bx v (target v))
    (hE : Decided a bx uniform final above E) (t : Fin a.d) :
    μ (E ∩ {ω | finalDraw a.d (residual a bx v []) (final bx ω) = (t : Nat)}) = μ E * target v t := by
  have hdraw := coinLaw_finalDraw (fun i _ => residual_nonneg a bx v [] i) t.isLt
  rw [residual_total hlaw .nil, map_nil, sum_nil, sub_zero, ENNReal.ofReal_one, one_mul,
    residual_eq hlaw t.isLt, map_nil, if_neg not_mem_nil, hlaw t,
    ofReal_toReal (apply_ne_top _ _)] at hdraw
  rw [← hdraw]
  exact hcoins.measure_inter (none_notMem_coinsOf _ above) hE (measurableSet_finalDraw _ _ _)

/-! ### The first token of a walk -/

variable (hlaws : HoldsLaws a bx kids target) (hsingle : a.thresholdSingle = 1)
  (hthr : a.thresholdAcc = 1)

include hlaws hsingle hthr

lemma walkTokens_cons (hv : v < a.numDraftTokens) (k : Nat) (t : Fin a.d) (rest : List (Fin a.d)) :
    ∀ᵐ ω ∂μ, (walkTokens a bx kids uniform final (k + 1) v ω = tokenIds (t :: rest) ↔
      (picked a bx kids uniform v ω = none ∧
        finalDraw a.d (residual a bx v (kids v)) (final bx ω) = (t : Nat) ∧ tokenIds rest = []) ∨
      ∃ c, picked a bx kids uniform v ω = some c ∧ draftToken a bx c = (t : Nat) ∧
        walkTokens a bx kids uniform final k c ω = tokenIds rest) := by
  filter_upwards [hcoins.ae (some ⟨v, hv⟩) coinLaw_mem] with ω hω
  have hfound : acceptChild (a.toss (uniform · ω) (final · ω)) bx v 0 (kids v) =
      picked a bx kids uniform v ω :=
    acceptChild_eq_pickBelow (a := a.toss (uniform · ω) (final · ω)) hsingle hthr hω.2.le
      (fun c hc => (hlaws.law v hv).nonneg_child (hlaws.siblings v hv) hc) le_rfl
  exact sampleTokens_eq_cons hfound (t : Nat) (tokenIds rest)

lemma measure_walk_other (hv : v < a.numDraftTokens) (hmet : v ∉ above)
    (hE : Decided a bx uniform final above E)
    (hother : ∀ c ∈ kids v, draftToken a bx c ≠ (t : Nat)) (k : Nat) (rest : List (Fin a.d)) :
    μ (E ∩ {ω | walkTokens a bx kids uniform final (k + 1) v ω = tokenIds (t :: rest)}) =
      μ E * (target v t * if rest = [] then 1 else 0) := by
  have hset : (E ∩ {ω | walkTokens a bx kids uniform final (k + 1) v ω = tokenIds (t :: rest)} :
      Set Ω) =ᵐ[μ] (E ∩ {ω | picked a bx kids uniform v ω = none} ∩
        {ω | finalDraw a.d (residual a bx v (kids v)) (final bx ω) = (t : Nat)} ∩ {_ω | rest = []} :
      Set Ω) := by
    refine Filter.eventuallyEq_set.mpr ?_
    filter_upwards [walkTokens_cons hcoins hlaws hsingle hthr hv k t rest] with ω hω
    constructor
    · rintro ⟨hωE, htoks⟩
      rcases hω.mp htoks with ⟨hpick, hdraw, hrest⟩ | ⟨c, hpick, htok, -⟩
      · exact ⟨⟨⟨hωE, hpick⟩, hdraw⟩, map_eq_nil_iff.mp hrest⟩
      · exact absurd htok (hother c (mem_of_pickBelow hpick))
    · rintro ⟨⟨⟨hωE, hpick⟩, hdraw⟩, hrest⟩
      exact ⟨hωE, hω.mpr (.inl ⟨hpick, hdraw, map_eq_nil_iff.mpr hrest⟩)⟩
  rw [measure_congr hset]
  by_cases hrest : rest = []
  · have hres : residual a bx v (kids v) t = (target v t).toReal := by
      have hnot : ((t : Nat) : Int) ∉ (kids v).map (draftToken a bx) := by
        grind
      rw [residual_eq (hlaws.law v hv) t.isLt, if_neg hnot, hlaws.law v hv t]
    have huniv : {_ω : Ω | rest = []} = Set.univ := Set.eq_univ_of_forall fun _ => hrest
    rw [huniv, Set.inter_univ, measure_passed_drawn hcoins hlaws hv hmet hE t, hres,
      ofReal_toReal (apply_ne_top _ _), if_pos hrest, mul_one]
  · have hempty : {_ω : Ω | rest = []} = ∅ := Set.eq_empty_of_forall_notMem fun _ => hrest
    rw [hempty, Set.inter_empty, measure_empty, if_neg hrest, mul_zero, mul_zero]

lemma measure_walk_child (hv : v < a.numDraftTokens) (hmet : v ∉ above)
    (hE : Decided a bx uniform final above E) (hc : c ∈ kids v)
    (htok : draftToken a bx c = (t : Nat)) (k : Nat) (rest : List (Fin a.d)) :
    μ (E ∩ {ω | walkTokens a bx kids uniform final (k + 1) v ω = tokenIds (t :: rest)}) =
      μ (E ∩ {ω | picked a bx kids uniform v ω = some c} ∩
        {ω | walkTokens a bx kids uniform final k c ω = tokenIds rest}) := by
  have hres : residual a bx v (kids v) t = 0 := by
    rw [residual_eq (hlaws.law v hv) t.isLt, if_pos (mem_map.mpr ⟨c, hc, htok⟩)]
  have hnull := measure_passed_drawn hcoins hlaws hv hmet hE t
  rw [hres, ofReal_zero, mul_zero] at hnull
  refine measure_congr (Filter.eventuallyEq_set.mpr ?_)
  filter_upwards [walkTokens_cons hcoins hlaws hsingle hthr hv k t rest,
    measure_eq_zero_iff_ae_notMem.mp hnull] with ω hω hnot
  constructor
  · rintro ⟨hωE, htoks⟩
    rcases hω.mp htoks with ⟨hpick, hdraw, -⟩ | ⟨c', hpick, htok', hrest⟩
    · exact absurd ⟨⟨hωE, hpick⟩, hdraw⟩ hnot
    · obtain rfl := (hlaws.siblings v hv).distinct c' (mem_of_pickBelow hpick) c hc
        (htok'.trans htok.symm)
      exact ⟨⟨hωE, hpick⟩, hrest⟩
  grind

/-- The tokens of a walk have the target's law, whatever the coins above decided. -/
lemma walkTokens_law (hd : Descent a.numDraftTokens kids above v)
    (hE : Decided a bx uniform final above E) (k : Nat) (toks : List (Fin a.d)) :
    μ (E ∩ {ω | walkTokens a bx kids uniform final k v ω = tokenIds toks}) =
      μ E * targetLaw target (draftToken a bx) kids k v toks := by
  have hnil : ∀ k v E, μ (E ∩ {ω | walkTokens a bx kids uniform final k v ω = []}) = 0 := by
    intro k v E
    have hempty : {ω | walkTokens a bx kids uniform final k v ω = []} = ∅ :=
      Set.eq_empty_of_forall_notMem fun ω => walkTokens_ne_nil k ω
    rw [hempty, Set.inter_empty, measure_empty]
  induction k generalizing v above E toks with
  | zero =>
    rcases toks with _ | ⟨t, rest⟩
    · rw [targetLaw_nil, mul_zero]
      exact hnil 0 v E
    rw [targetLaw_zero]
    by_cases hrest : rest = []
    · subst hrest
      rw [if_pos rfl, ← measure_drawn hcoins (hlaws.law v hd.lt) hE t]
      refine congrArg (fun s => μ (E ∩ s)) (Set.ext fun ω => ?_)
      exact singleton_inj
    have hempty : {ω | walkTokens a bx kids uniform final 0 v ω = tokenIds (t :: rest)} = ∅ :=
      Set.eq_empty_of_forall_notMem fun ω hω =>
        hrest (map_eq_nil_iff.mp (cons.inj hω).2.symm)
    rw [hempty, Set.inter_empty, measure_empty, if_neg hrest, mul_zero]
  | succ k ih =>
    rcases toks with _ | ⟨t, rest⟩
    · rw [targetLaw_nil, mul_zero]
      exact hnil (k + 1) v E
    rw [targetLaw_succ]
    rcases hfind : (kids v).find? fun c => decide (draftToken a bx c = (t : Nat)) with _ | c
    · refine measure_walk_other hcoins hlaws hsingle hthr hd.lt hd.notMem hE (fun c hc => ?_) k rest
      simpa using find?_eq_none.mp hfind c hc
    have hc : c ∈ kids v := mem_of_find?_eq_some hfind
    have htok : draftToken a bx c = (t : Nat) := by
      simpa using find?_some hfind
    rw [measure_walk_child hcoins hlaws hsingle hthr hd.lt hd.notMem hE hc htok,
      ih (hd.child hlaws.tree hc) (decidedBy_picked kids hd.lt _ hE),
      measure_picked_child hcoins hlaws hd.lt hd.notMem hE hc htok, mul_assoc]
end

/-- In any block order, emitted lists have the probability of sampling token by token from the
target distributions of the nodes on the way, up to the limit. -/
theorem sampling_keeps_target_law {Ω : Type} [MeasurableSpace Ω] {μ : Measure Ω}
    [IsProbabilityMeasure μ] (a : SampleArgs ℝ) (bs fuel : Nat) (kids : Nat → Nat → List Nat)
    (target : Nat → Nat → PMF (Fin a.d)) (uniform final : Int → Ω → ℝ) (order : List Nat)
    (out : SampleOut ℝ) (hspec : 0 < a.numSpeculativeTokens)
    (hn : 0 < a.numDraftTokens) (hsingle : a.thresholdSingle = 1) (hthr : a.thresholdAcc = 1)
    (htree : ∀ bx < bs, HoldsLinks a.numDraftTokens bx a.links (kids bx))
    (htok : ∀ bx < bs, TokensIn a bx (kids bx))
    (hdistinct : ∀ bx < bs, ∀ v < a.numDraftTokens, ∀ c ∈ kids bx v, ∀ c' ∈ kids bx v,
      draftToken a bx c = draftToken a bx c' → c = c')
    (htarget : ∀ bx < bs, ∀ v < a.numDraftTokens, HoldsLaw a bx v (target bx v))
    (hcoins : ∀ bx < bs, Coins (requestCoins a.numDraftTokens bx uniform final) μ)
    (horder : order.Perm (List.range bs))
    (hzero : ∀ bx < bs, Fresh a bx [] out) (hfuel : a.numDraftTokens ≤ fuel) :
    ∃ result : Ω → SampleOut ℝ,
      (∀ ω, sampleGrid (a.toss (uniform · ω) (final · ω)) fuel order out = some (result ω)) ∧
      ∀ bx < bs, ∀ toks, μ {ω | (result ω).emitted a bx = tokenIds toks} =
        targetLaw (target bx) (draftToken a bx) (kids bx) (a.numSpeculativeTokens - 1) 0 toks := by
  have hin : ∀ {bx}, bx ∈ order ↔ bx < bs := horder.mem_iff.trans mem_range
  have hrun : ∀ ω, ∃ out', sampleGrid (a.toss (uniform · ω) (final · ω)) fuel order out = some out' ∧
      ∀ bx ∈ order, out'.emitted a bx =
        walkTokens a bx (kids bx) uniform final (a.numSpeculativeTokens - 1) 0 ω := fun ω =>
    sampleGrid_emitted (a := a.toss (uniform · ω) (final · ω)) hfuel hn hspec
      (fun bx hbx => htree bx (hin.mp hbx)) (fun bx hbx => htok bx (hin.mp hbx))
      (horder.nodup_iff.mpr nodup_range) out fun bx hbx => hzero bx (hin.mp hbx)
  choose result hresult hemitted using hrun
  refine ⟨result, hresult, fun bx hbx toks => ?_⟩
  have hlaws : HoldsLaws a bx (kids bx) (target bx) := by
    have ht := (htree bx hbx).encodes.tree
    exact ⟨ht, fun v hv => ⟨ht.nodup v hv, htok bx hbx v hv, hdistinct bx hbx v hv⟩, htarget bx hbx⟩
  have hlaw := walkTokens_law (E := Set.univ) (hcoins bx hbx) hlaws hsingle hthr (.root hn)
    MeasurableSet.univ (a.numSpeculativeTokens - 1) toks
  rw [Set.univ_inter, measure_univ, one_mul] at hlaw
  grind

noncomputable def oneDraft : SampleArgs ℝ where
  candidates := fun _ => 0
  links := ⟨fun i => i, fun i => if i = 0 then 1 else -1, fun _ => -1⟩
  uniformSamples := fun _ => 0
  uniformSamplesForFinalSampling := fun _ => 0
  targetProbs := fun _ => (1 + 1)⁻¹
  numSpeculativeTokens := 2
  numDraftTokens := 2
  d := 2
  thresholdSingle := 1
  thresholdAcc := 1

noncomputable def evenTarget : PMF (Fin oneDraft.d) := PMF.uniformOfFintype (Fin 2)

lemma evenTarget_apply (t : Fin oneDraft.d) : evenTarget t = 2⁻¹ := by
  refine (uniformOfFintype_apply (α := Fin 2) t).trans ?_
  rw [Fintype.card_fin, Nat.cast_ofNat]

theorem other_token_emitted_half :
    ∃ result : (Option (Fin 2) → ℝ) → SampleOut ℝ,
      (∀ ω, sampleGrid (oneDraft.toss (fun i => if i = 0 then ω (some 0) else ω (some 1))
        fun _ => ω none) 2 [0] ⟨⟨fun _ => 0, fun _ => 0, fun _ => 0⟩, fun _ => 0⟩ = some (result ω)) ∧
      Measure.pi (fun _ => coinLaw) {ω | (result ω).emitted oneDraft 0 = [1]} = 2⁻¹ := by
  have hcoins : requestCoins (Ω := Option (Fin 2) → ℝ) 2 0
      (fun i ω => if i = 0 then ω (some 0) else ω (some 1)) (fun _ ω => ω none) = fun i ω => ω i := by
    funext i ω
    rcases i with _ | v
    · rfl
    · fin_cases v <;> rfl
  have htree : HoldsLinks oneDraft.numDraftTokens 0 oneDraft.links fun v => if v = 0 then [1] else [] := by
    refine ⟨⟨⟨by decide, by decide, by decide⟩, fun p hp => ?_⟩, fun v _ => rfl⟩
    have hp : p = 0 ∨ p = 1 := by
      change p < 2 at hp
      omega
    rcases hp with rfl | rfl
    · exact ⟨rfl, rfl⟩
    · rfl
  have hone : ∀ (p : Nat → Prop), p 0 → ∀ bx < 1, p bx := fun p h bx hbx => by
    obtain rfl : bx = 0 := by omega
    exact h
  obtain ⟨result, hrun, hlaw⟩ := sampling_keeps_target_law
    (μ := Measure.pi fun _ : Option (Fin 2) => coinLaw) oneDraft 1 2
    (fun _ v => if v = 0 then [1] else []) (fun _ _ => evenTarget)
    (fun i ω => if i = 0 then ω (some 0) else ω (some 1)) (fun _ ω => ω none) [0]
    ⟨⟨fun _ => 0, fun _ => 0, fun _ => 0⟩, fun _ => 0⟩ (by decide) (by decide) rfl rfl
    (hone _ htree) (fun _ _ _ _ _ _ => ⟨0, by decide, rfl⟩) (by decide)
    (fun _ _ _ _ t => by rw [evenTarget_apply]; norm_num [targetProb, oneDraft]) (hone _ (by
      show Coins (requestCoins 2 0 _ _) _
      rw [hcoins]
      exact .pi _)) (by decide) (fun _ _ _ _ _ _ _ => rfl) (by decide)
  refine ⟨result, hrun, (hlaw 0 (by decide) [⟨1, by decide⟩]).trans ?_⟩
  refine (targetLaw_succ 0 0 _ _).trans ?_
  rw [evenTarget_apply]
  simp [draftToken, oneDraft]
end Sglang.Spec
