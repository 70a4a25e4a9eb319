import Sglang.Sparse.OsaBudget

/-!
# The block lists of oracle plans are safe to walk

The block kernel has no mask: a plan must have blocks, all rows of one length, and no row may leave
the view or name a block twice.
-/

namespace Sglang
open List
open OracleSparseAttention (init patternBudget)

/-- Full tiles of one frame or of two do not overlap. -/
lemma blockStart_apart {fs tile : Nat} {p p' : Nat × Nat} (hp : p.2 < fs / tile)
    (hp' : p'.2 < fs / tile) (hne : p ≠ p') : blockStart fs tile p + tile ≤ blockStart fs tile p' ∨
      blockStart fs tile p' + tile ≤ blockStart fs tile p := by
  have hend {k m : Nat} (h : k < m) : k * tile + tile ≤ m * tile := by
    rw [← Nat.succ_mul]
    exact Nat.mul_le_mul_right tile h
  have hfull := Nat.div_mul_le_self fs tile
  have hframe {f f' k k' : Nat} (hk : k < fs / tile) (h : f < f') :
      f * fs + k * tile + tile ≤ f' * fs + k' * tile := by
    have := hend hk
    have := Nat.mul_le_mul_right fs (Nat.succ_le_of_lt h)
    rw [Nat.succ_mul] at this
    omega
  obtain ⟨f, k⟩ := p
  obtain ⟨f', k'⟩ := p'
  simp only [blockStart]
  obtain h | rfl | h := lt_trichotomy f f'
  · exact .inl (hframe hp h)
  · obtain h | rfl | h := lt_trichotomy k k'
    · exact .inl (by have := hend h; omega)
    · exact absurd rfl hne
    · exact .inr (by have := hend h; omega)
  · exact .inr (hframe hp' h)

variable {hist counts row : List Nat}

lemma histBlocks_nodup (hhist : hist.Nodup) (hlen : hist.length ≤ counts.length) (hrow : row.Nodup) :
    (histBlocks hist counts row).Nodup := by
  refine nodup_flatMap.mpr ⟨fun p _ => ?_, ?_⟩
  · refine List.Nodup.map (fun _ _ h => (Prod.mk.inj h).2) ?_
    exact (perm_insertionSort ..).nodup_iff.mpr (hrow.sublist (take_sublist ..))
  have hfst : (hist.zip counts).Pairwise fun p p' => p.1 ≠ p'.1 := by
    refine pairwise_map.mp ?_
    rwa [map_fst_zip hlen]
  refine hfst.imp fun {p p'} hne x hx hx' => hne ?_
  obtain ⟨_, _, rfl⟩ := mem_map.mp hx
  obtain ⟨_, _, h⟩ := mem_map.mp hx'
  exact (Prod.mk.inj h).1.symm

lemma mem_histBlocks {p : Nat × Nat} (h : p ∈ histBlocks hist counts row) : p.1 ∈ hist ∧ p.2 ∈ row := by
  obtain ⟨⟨f, c⟩, hf, hp⟩ := mem_flatMap.mp h
  obtain ⟨k, hk, rfl⟩ := mem_map.mp hp
  exact ⟨(of_mem_zip hf).1, mem_of_mem_take ((perm_insertionSort ..).mem_iff.mp hk)⟩

namespace PlanRequest
structure ValidRow (q : PlanRequest) (row : List Nat) : Prop where
  nodup : row.Nodup
  /-- no key is in two blocks -/
  apart : row.Pairwise fun s s' => s + q.tile ≤ s' ∨ s' + q.tile ≤ s
  bounded : ∀ s ∈ row, s + q.tile ≤ q.layout.kvLen
  inFrame : ∀ s ∈ row, ∃ f < q.layout.numFrames, ∃ k < q.fullTiles,
    s = f * q.layout.frameSeqlen + k * q.tile
  whole : ∀ f ∈ q.whole, ∀ k < q.fullTiles, f * q.layout.frameSeqlen + k * q.tile ∈ row

def ValidPlan (q : PlanRequest) (plan : BlockSparsePlan) : Prop :=
  plan.keyTile = q.tile ∧ ∃ n > 0, ∀ head ∈ plan.starts, ∀ row ∈ head, row.length = n ∧ q.ValidRow row

/-- With weights, some frame is whole or the shares of the patterned frames are numbers. -/
def Spends (q : PlanRequest) : Prop :=
  q.osa.config.demandWeighted = true → q.whole ≠ [] ∨ q.weights.sum ≠ 0 ∨
    (q.density ≠ 0 ∧ ∃ w ∈ q.weights, w ≠ 0) ∨ 1 ≤ q.density

variable {q : PlanRequest}

lemma lt_numFrames_of_whole {f : Nat} (h : f ∈ q.whole) : f < q.layout.numFrames :=
  length_full (q := q) ▸ (mem_maskFrames.mp h).1

lemma lt_numFrames_of_pattern {f : Nat} (h : f ∈ q.pattern) : f < q.layout.numFrames :=
  length_full (q := q) ▸ (mem_maskFrames_not.mp h).1

lemma not_mem_pattern {f : Nat} (h : f ∈ q.whole) : f ∉ q.pattern := fun h' => by
  have hfull := (mem_maskFrames.mp h).2
  rw [(mem_maskFrames_not.mp h').2] at hfull
  cases hfull

lemma validRow_of_perm (htile : 0 < q.tile) {blocks : List (Nat × Nat)} (hnodup : blocks.Nodup)
    (hblocks : ∀ p ∈ blocks, p.1 ∈ q.pattern ∧ p.2 < q.fullTiles) {row : List Nat}
    (hrow : row.Perm (q.rowStarts blocks)) : q.ValidRow row := by
  have hmem : ∀ p ∈ q.whole ×ˢ range q.fullTiles ++ blocks,
      p.1 < q.layout.numFrames ∧ p.2 < q.fullTiles := by
    intro p hp
    obtain hp | hp := mem_append.mp hp
    · obtain ⟨hf, hk⟩ := mem_product.mp hp
      exact ⟨lt_numFrames_of_whole hf, mem_range.mp hk⟩
    · exact ⟨lt_numFrames_of_pattern (hblocks p hp).1, (hblocks p hp).2⟩
  have hframe : ∀ s ∈ row, ∃ f < q.layout.numFrames, ∃ k < q.fullTiles,
      s = f * q.layout.frameSeqlen + k * q.tile := by
    intro s hs
    obtain ⟨p, hp, rfl⟩ := mem_map.mp (hrow.mem_iff.mp hs)
    exact ⟨p.1, (hmem p hp).1, p.2, (hmem p hp).2, rfl⟩
  have hapart : row.Pairwise fun s s' => s + q.tile ≤ s' ∨ s' + q.tile ≤ s := by
    refine (hrow.pairwise_iff fun h => h.symm).mpr (pairwise_map.mpr ?_)
    have hall : (q.whole ×ˢ range q.fullTiles ++ blocks).Nodup :=
      ((maskFrames_nodup _).product nodup_range).append hnodup fun p hp hp' =>
        not_mem_pattern (mem_product.mp hp).1 (hblocks p hp').1
    exact hall.imp_of_mem fun hp hp' => blockStart_apart (hmem _ hp).2 (hmem _ hp').2
  refine ⟨hapart.imp fun h => by omega, hapart, fun s hs => ?_, hframe, fun f hf k hk => ?_⟩
  · obtain ⟨f, hf, k, hk, rfl⟩ := hframe s hs
    have hlast := Nat.mul_le_mul_right q.layout.frameSeqlen (Nat.succ_le_of_lt hf)
    have htile := Nat.mul_le_mul_right q.tile (Nat.succ_le_of_lt hk)
    have hfull : q.fullTiles * q.tile ≤ q.layout.frameSeqlen := Nat.div_mul_le_self ..
    rw [Nat.succ_mul] at hlast htile
    rw [VisibleLayout.kvLen]
    omega
  · refine hrow.mem_iff.mpr (mem_map.mpr ⟨(f, k), ?_, rfl⟩)
    exact mem_append_left _ (mem_product.mpr ⟨hf, mem_range.mpr hk⟩)

lemma validRow_counted (htile : 0 < q.tile) {row : List Nat}
    (hrow : row.Perm (range q.fullTiles)) (numTiles : Nat) :
    q.ValidRow (q.rowStarts (histBlocks q.pattern (q.counts numTiles) row)) := by
  refine validRow_of_perm htile (histBlocks_nodup (maskFrames_nodup _) (length_counts _).ge
    (hrow.nodup_iff.mpr nodup_range)) (fun p hp => ?_) (List.Perm.refl _)
  obtain ⟨hf, hk⟩ := mem_histBlocks hp
  exact ⟨hf, mem_range.mp (hrow.mem_iff.mp hk)⟩

lemma validRow_measured (htile : 0 < q.tile) (hfull : 0 < q.fullTiles) {τ : Type}
    {num : OsaNumerics τ} {call : SparseAttentionCall τ} {head : List (List (List ℚ))}
    {frames : List (List ℚ)} (hhead : head ∈ q.masses num call) (hframes : frames ∈ head) :
    q.ValidRow ((q.rowStarts (q.topBlocks (q.tops num frames))).insertionSort (· ≤ ·)) := by
  have hperm := num.descending.perm (q.candidates frames)
  rw [length_candidates hhead hframes] at hperm
  have hlt : ∀ t ∈ q.tops num frames, t / q.fullTiles < q.pattern.length := fun t ht => by
    have := mem_range.mp (hperm.mem_iff.mp (mem_of_mem_take ht))
    exact Nat.div_lt_of_lt_mul (by rwa [mul_comm])
  refine validRow_of_perm htile ?_ ?_ (perm_insertionSort ..)
  · refine List.Nodup.map_on (fun t ht t' ht' h => ?_)
      ((hperm.nodup_iff.mpr nodup_range).sublist (take_sublist ..))
    obtain ⟨hf, hk⟩ := Prod.mk.inj h
    have hnodup : q.pattern.Nodup := maskFrames_nodup _
    rw [getD_eq_getElem _ _ (hlt t ht), getD_eq_getElem _ _ (hlt t' ht'), hnodup.getElem_inj_iff] at hf
    rw [← Nat.div_add_mod t q.fullTiles, hf, hk, Nat.div_add_mod]
  · refine forall_mem_map.mpr fun t ht => ⟨?_, Nat.mod_lt t hfull⟩
    rw [getD_eq_getElem _ _ (hlt t ht)]
    exact getElem_mem _

lemma budget_of_whole_nil (hwhole : q.whole = []) : q.pattern.length = q.layout.numFrames ∧
      q.budget = q.density * (q.layout.numFrames * q.layout.frameSeqlen) := by
  have hlen := length_frames (q := q)
  rw [hwhole, length_nil, zero_add] at hlen
  refine ⟨hlen, ?_⟩
  rw [budget, patternBudget, hwhole, ← mul_assoc]
  simp

lemma keepsAll_iff (hwhole : q.whole = []) (hframes : 0 < q.layout.numFrames)
    (hseqlen : 0 < q.layout.frameSeqlen) : q.KeepsAll ↔ 1 ≤ q.density := by
  obtain ⟨hlen, hbudget⟩ := budget_of_whole_nil hwhole
  have hkv : (0 : ℚ) < q.layout.numFrames * q.layout.frameSeqlen := by
    exact_mod_cast mul_pos hframes hseqlen
  rw [KeepsAll, hlen, hbudget, or_iff_right hframes.ne', ge_iff_le, le_mul_iff_one_le_left hkv]

/-- Some block is kept unless every share is NaN. -/
lemma length_pos (hfull : 0 < q.fullTiles) (hall : ¬ q.KeepsAll) (hspends : q.Spends) :
    0 < q.whole.length * q.fullTiles + (q.counts q.fullTiles).sum := by
  have hn := Nat.pos_of_ne_zero (not_or.mp hall).1
  by_cases hdemand : q.osa.config.demandWeighted = true
  swap
  · rw [counts, if_neg hdemand, sum_replicate, nsmul_eq_mul]
    exact Nat.add_pos_right _ (Nat.mul_pos hn (tileCount_pos _ hfull))
  by_cases hwhole : q.whole = []
  swap
  · exact Nat.add_pos_left (Nat.mul_pos (length_pos_iff.mpr hwhole) hfull) _
  obtain ⟨hlen, hbudget⟩ := budget_of_whole_nil hwhole
  have hseqlen : 0 < q.layout.frameSeqlen := hfull.trans_le (Nat.div_le_self ..)
  -- one share that is a number is enough
  suffices hcount : ∃ w ∈ q.weights, 0 < demandCount q.budget q.weights.sum w q.tile q.fullTiles by
    obtain ⟨w, hw, hcount⟩ := hcount
    refine Nat.add_pos_right _ (hcount.trans_le ?_)
    rw [counts, if_pos hdemand]
    exact single_le_sum (fun _ _ => zero_le) _ (mem_map_of_mem hw)
  by_cases hsum : q.weights.sum = 0
  swap
  · obtain ⟨w, hw⟩ := exists_mem_of_length_pos (length_weights (q := q) ▸ hn)
    exact ⟨w, hw, by rw [demandCount_eq_tileCount hsum]; exact tileCount_pos _ hfull⟩
  obtain h | h | ⟨hdensity, w, hw, hne⟩ | hone := hspends hdemand
  · exact absurd hwhole h
  · exact absurd hsum h
  · have hkv : (q.layout.numFrames * q.layout.frameSeqlen : ℚ) ≠ 0 := by
      exact_mod_cast (Nat.mul_pos (hlen ▸ hn) hseqlen).ne'
    refine ⟨w, hw, ?_⟩
    rw [demandCount, if_pos hsum, if_neg (mul_ne_zero (hbudget ▸ mul_ne_zero hdensity hkv) hne)]
    split <;> omega
  · exact absurd ((keepsAll_iff hwhole (hlen ▸ hn) hseqlen).mpr hone) hall

lemma counts_eq_zero (hdemand : q.osa.config.demandWeighted = true) (hwhole : q.whole = [])
    (hsum : q.weights.sum = 0) (hzero : q.density ≠ 0 → ∀ w ∈ q.weights, w = 0) (numTiles : Nat) :
    (q.counts numTiles).sum = 0 := by
  rw [counts, if_pos hdemand]
  refine sum_eq_zero (forall_mem_map.mpr fun w hw => ?_)
  have hshare : q.budget * w = 0 := by
    by_cases hdensity : q.density = 0
    · rw [(budget_of_whole_nil hwhole).2, hdensity, zero_mul, zero_mul]
    · rw [hzero hdensity w hw, mul_zero]
  rw [demandCount, if_pos hsum, if_pos hshare]
end PlanRequest

open PlanRequest

/-- Every plan of the three paths is valid, unless no frame is whole and all shares of the patterned
frames are 0 / 0: they are NaN then and the plan has no block. -/
theorem validPlan_iff (q : PlanRequest) (hown : q.Visible) (htile : 0 < q.tile)
    (hseqlen : q.tile ≤ q.layout.frameSeqlen)
    (hshape : q.layout.chunkOffsets.length = q.layout.numFrames)
    (order : Rows Nat) (horder : Calibrated order q.fullTiles) (ascending : Argsort (· ≤ ·))
    (retention : Option (Rows ℚ)) :
    ((∀ plan, (q.osa.chunkPlan ascending q.density q.layout order q.offset retention).1 = some plan →
        q.ValidPlan plan) ∧
      (q.offset = 0 → ∀ (τ : Type) (num : OsaNumerics τ) (call : SparseAttentionCall τ) plan,
        q.osa.measuredChunkPlan num q.density call q.layout = some plan → q.ValidPlan plan)) ↔
    q.Spends := by
  have hfull : 0 < q.fullTiles := Nat.div_pos hseqlen htile
  constructor
  · rintro ⟨hvalid, -⟩ hdemand
    by_contra hnot
    obtain ⟨hwhole, hsum, hzero, hlt⟩ : q.whole = [] ∧ q.weights.sum = 0 ∧
        (q.density ≠ 0 → ∀ w ∈ q.weights, w = 0) ∧ q.density < 1 := by
      push Not at hnot
      exact hnot
    have hframes : 0 < q.layout.numFrames := by
      rw [← hshape]
      refine Nat.pos_of_ne_zero fun hz => ?_
      have hnil := eq_nil_of_length_eq_zero hz
      simp [Visible, VisibleLayout.framesOfOffset, hnil] at hown
    have hall := mt (keepsAll_iff hwhole hframes (by omega)).mp (not_le.mpr hlt)
    obtain ⟨-, n, hn, hrows⟩ := hvalid _ ((chunkPlan_fst hown ..).trans (if_neg hall))
    obtain ⟨row, head, heads, rfl⟩ := horder.nonempty
    have hlen := (hrows _ mem_cons_self _ mem_cons_self).1
    rw [length_countedRow horder mem_cons_self mem_cons_self, hwhole,
      counts_eq_zero hdemand hwhole hsum hzero] at hlen
    simp at hlen
    omega
  intro hspends
  refine ⟨fun plan hplan => ?_, fun hzero τ num call plan hplan => ?_⟩
  · obtain ⟨hall, rfl⟩ := chunkPlan_eq_some hplan
    exact ⟨rfl, _, length_pos hfull hall hspends,
      Rows.forall_mapRows.mpr fun head hhead row hrow =>
        ⟨length_countedRow horder hhead hrow,
          validRow_counted htile (horder.perm head hhead row hrow) _⟩⟩
  rw [measuredChunkPlan_eq hown hzero] at hplan
  split at hplan
  case isTrue => cases hplan
  case isFalse hall =>
    obtain rfl := (Option.some.inj hplan).symm
    have hn := Nat.pos_of_ne_zero (not_or.mp hall).1
    refine ⟨rfl, q.whole.length * q.fullTiles + q.measuredTiles,
      Nat.add_pos_right _ (tileCount_pos _ (Nat.mul_pos hn hfull)),
      Rows.forall_mapRows.mpr fun head hhead row hrow =>
        ⟨?_, validRow_measured htile hfull hhead hrow⟩⟩
    rw [length_insertionSort, length_rowStarts, topBlocks, length_map, length_tops hhead hrow]

theorem validPlan_iff_half : (halfRequest true).Spends ∧ ∀ ascending plan,
      ((threeFramesOsa (1 / 2) half_positive half_le true).chunkPlan ascending (1 / 2) threeFrames
        [[List.range 10]] 0 none).1 = some plan → (halfRequest true).ValidPlan plan := by
  have hspends : (halfRequest true).Spends := fun _ => .inr (.inl (by decide +kernel))
  exact ⟨hspends, fun ascending => ((validPlan_iff (halfRequest true) (by decide) (by decide)
    (by decide) rfl [[range 10]] ⟨by decide, _, _, _, rfl⟩ ascending none).mpr
      hspends).1⟩

theorem zero_weights_plan_empty :
    ∃ q : PlanRequest, init { threeFramesConfig (1 / 2) true with
        demandWOwn := 0, demandWRecent := 0, demandWSink := 0 } = .ok q.osa ∧
      q.Visible ∧ q.tile ≤ q.layout.frameSeqlen ∧
      ∀ ascending, ∃ plan, (q.osa.chunkPlan ascending q.density q.layout [[List.range 10]] q.offset
        none).1 = some plan ∧ plan.starts = [[[]]] ∧ ¬ q.ValidPlan plan := by
  refine ⟨⟨⟨{ threeFramesConfig (1 / 2) true with
      demandWOwn := 0, demandWRecent := 0, demandWSink := 0 }, 1 / 2, half_positive, half_le,
    nofun, nofun⟩, 1 / 2, threeFrames, 0⟩, ?_, by decide, by decide, fun ascending => ?_⟩
  · norm_num [init, threeFramesConfig, OsaConfig.givenDensity]
    rfl
  rw [chunkPlan_fst (by decide), if_neg (by decide +kernel)]
  refine ⟨_, rfl, by decide +kernel, ?_⟩
  rintro ⟨-, n, hn, hrows⟩
  have hlen := (hrows [[]] (by decide +kernel) [] (by decide)).1
  exact hn.ne hlen
end Sglang
