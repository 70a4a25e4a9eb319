import Sglang.Lib.Blocks
import Sglang.Lib.OnlineSoftmax
import Sglang.Sparse.Base

/-!
# The two sparse-attention kernels

The range kernel walks the key ranges of a query block with one online-softmax chain; the last tile
of a range is masked.
-/

namespace Sglang
open List OnlineState

/-! ## One row -/

section
variable {V : Type} [AddCommGroup V] [Module ℝ V] (score : Nat → ℝ) (value : Nat → V)

variable (start blockN keyTile : Nat) (starts : List Nat)

/-- The keys `[start, start + length)` with their scores. -/
noncomputable def keysFrom (length : Nat) : ScoredKeys V :=
  (List.range length).map fun c => ((score (start + c) : WithBot ℝ), value (start + c))

noncomputable def listedKeys : ScoredKeys V :=
  starts.flatMap fun start => keysFrom score value start keyTile

/-- The loop over pairs of blocks: the even ones on chain 0, the odd ones on chain 1. -/
noncomputable def blockChains (half : Nat) : OnlineState V × OnlineState V :=
  (List.range half).foldl
    (fun chains index =>
      (chains.1.absorb (keysFrom score value (starts.getD (2 * index) 0) keyTile),
        chains.2.absorb (keysFrom score value (starts.getD (2 * index + 1) 0) keyTile)))
    (.empty, .empty)

/-- `_block_sparse_attn_kernel` on one row. An odd last block goes to chain 0. -/
noncomputable def blockRow : V :=
  let chains := blockChains score value keyTile starts (starts.length / 2)
  let chain₀ :=
    if starts.length % 2 = 1 then
      chains.1.absorb (keysFrom score value (starts.getD (starts.length - 1) 0) keyTile)
    else chains.1
  (OnlineState.merge chain₀ chains.2).normalized

noncomputable def rangeTile (rangeEnd tileStart : Nat) : ScoredKeys V :=
  (List.range blockN).map fun c =>
    if tileStart + c < rangeEnd then ((score (tileStart + c) : WithBot ℝ), value (tileStart + c))
    else (⊥, 0)

def rangeStep (stop step : Nat) : List Nat :=
  (List.range ((stop - start + step - 1) / step)).map fun t => start + t * step

/-- The inner loop of the range kernel: the tiles of one range. -/
noncomputable def rangeChain (st : OnlineState V) (range : Nat × Nat) : OnlineState V :=
  (rangeStep range.1 range.2 blockN).foldl
    (fun st tileStart => st.absorb (rangeTile score value blockN range.2 tileStart)) st

/-- `_range_sparse_attn_kernel` on one row; the score holds the bias where there is one. -/
noncomputable def rangeRow (ranges : List (Nat × Nat)) : V :=
  (ranges.foldl (rangeChain score value blockN) OnlineState.empty).normalized
end

def rangeBlockN : Nat := 64

/-! ## The block kernel's programs -/

/-- The row of the output that row `i` of program `(pidM, pidBh)` stores to: batch, token, head. -/
def programCell (numHeads numQFrames frameSeqlen blockM pidM pidBh i : Nat) :
    Option (Nat × Nat × Nat) :=
  let qTile := pidM / numQFrames
  let qFrame := pidM % numQFrames
  let tileBase := qTile * blockM
  if tileBase + i < frameSeqlen then
    some (pidBh / numHeads, qFrame * frameSeqlen + tileBase + i, pidBh % numHeads)
  else none

/-! ## The keys of the two chains -/

variable {α : Type}

lemma append_middle_perm (a b c d : List α) : ((a ++ b) ++ (c ++ d)).Perm ((a ++ c) ++ (b ++ d)) := by
  simp only [append_assoc]
  refine Perm.append_left a ?_
  simp only [← append_assoc]
  exact perm_append_comm.append_right d

lemma flatMap_range_mul (f : Nat → α) (n m : Nat) :
    ((range n).flatMap fun t => (range m).map fun c => f (t * m + c)) = (range (n * m)).map f := by
  rw [range_mul, map_flatMap]
  simp [Function.comp_def]

lemma flatMap_pairs_perm (f : Nat → List α) (half : Nat) :
    ((range half).flatMap (fun i => f (2 * i)) ++
      (range half).flatMap fun i => f (2 * i + 1)).Perm ((range (2 * half)).flatMap f) := by
  induction half with
  | zero => simp
  | succ n ih =>
    have hrange : range (2 * (n + 1)) = range (2 * n) ++ [2 * n, 2 * n + 1] := by
      rw [show 2 * (n + 1) = 2 * n + 1 + 1 by ring, range_succ, range_succ]
      simp
    simp only [hrange, range_succ, flatMap_append, flatMap_cons, flatMap_nil, append_nil]
    exact (append_middle_perm ..).trans (ih.append_right _)

section
variable {V : Type} (score : Nat → ℝ) (value : Nat → V)

noncomputable def chainKeys (keyTile : Nat) (starts : List Nat) : ScoredKeys V :=
  let half := starts.length / 2
  let block (i : Nat) := keysFrom score value (starts.getD i 0) keyTile
  ((List.range half).flatMap (fun i => block (2 * i)) ++
      if starts.length % 2 = 1 then block (starts.length - 1) else []) ++
    (List.range half).flatMap fun i => block (2 * i + 1)

lemma listedKeys_eq_range (kt : Nat) (sts : List Nat) :
    listedKeys score value kt sts = (range sts.length).flatMap fun i =>
      keysFrom score value (sts.getD i 0) kt := by
  conv_lhs => rw [listedKeys, ← map_getD_range sts 0, flatMap_map]

lemma chainKeys_perm (kt : Nat) (sts : List Nat) :
    (chainKeys score value kt sts).Perm (listedKeys score value kt sts) := by
  rw [listedKeys_eq_range, chainKeys]
  have hpairs := flatMap_pairs_perm (fun i => keysFrom score value (sts.getD i 0) kt) (sts.length / 2)
  by_cases hodd : sts.length % 2 = 1
  · obtain ⟨half, hn⟩ : ∃ half, sts.length = 2 * half + 1 := ⟨sts.length / 2, by omega⟩
    rw [show sts.length / 2 = half by omega] at hpairs ⊢
    rw [if_pos hodd, hn, range_succ, flatMap_append, flatMap_singleton, Nat.add_sub_cancel]
    simpa using (append_middle_perm _ _ _ []).trans (hpairs.append_right _)
  · have hn : 2 * (sts.length / 2) = sts.length := by omega
    rw [hn] at hpairs
    simpa [hodd] using hpairs

lemma listedKeys_unmasked {kt : Nat} {sts : List Nat} (ht : 0 < kt)
    (hs : sts ≠ []) : ∃ k ∈ listedKeys score value kt sts, k.1 ≠ ⊥ := by
  obtain ⟨start, rest, rfl⟩ := exists_cons_of_ne_nil hs
  refine ⟨((score (start + 0) : WithBot ℝ), value (start + 0)), ?_, WithBot.coe_ne_bot⟩
  simp only [listedKeys, flatMap_cons, mem_append, keysFrom, mem_map]
  exact .inl ⟨0, mem_range.mpr ht, rfl⟩
end

/-! ## Both kernels compute the softmax mean -/

section
variable {V : Type} [AddCommGroup V] [Module ℝ V] (score : Nat → ℝ) (value : Nat → V)
  {sts : List Nat} {kt : Nat}

/-- After `half` pairs, chain 0 has read the even blocks and chain 1 the odd ones. -/
lemma blockChains_eq (kt : Nat) (sts : List Nat) (half : Nat) :
    blockChains score value kt sts half =
      (.summary ((range half).flatMap fun i =>
          keysFrom score value (sts.getD (2 * i) 0) kt),
        .summary ((range half).flatMap fun i =>
          keysFrom score value (sts.getD (2 * i + 1) 0) kt)) := by
  induction half with
  | zero => rfl
  | succ n ih => ?_
  have hstep : blockChains score value kt sts (n + 1) =
      ((blockChains score value kt sts n).1.absorb (keysFrom score value (sts.getD (2 * n) 0) kt),
        (blockChains score value kt sts n).2.absorb (keysFrom score value (sts.getD (2 * n + 1) 0) kt)) := by
    simp only [blockChains, range_succ, foldl_append, foldl_cons, foldl_nil]
  rw [hstep, ih]
  simp only [absorb_summary, range_succ, flatMap_append, flatMap_singleton]

lemma blockRow_eq_summary (kt : Nat) (sts : List Nat) :
    blockRow score value kt sts = (summary (chainKeys score value kt sts)).normalized := by
  simp only [blockRow, chainKeys, blockChains_eq]
  split
  · rw [absorb_summary, merge_summary]
  · rw [merge_summary, append_nil]

lemma blockRow_eq_softmaxMean (ht : 0 < kt) (hs : sts ≠ []) :
    blockRow score value kt sts = softmaxMean (listedKeys score value kt sts) := by
  have hperm := chainKeys_perm score value kt sts
  obtain ⟨k, hk, hne⟩ := listedKeys_unmasked score value ht hs
  rw [blockRow_eq_summary, normalized_summary ⟨k, hperm.mem_iff.mpr hk, hne⟩, softmaxMean_perm hperm]

noncomputable def rangeKeys (blockN : Nat) (range : Nat × Nat) : ScoredKeys V :=
  (rangeStep range.1 range.2 blockN).flatMap (rangeTile score value blockN range.2)

lemma foldl_rangeChain (blockN : Nat) (ranges : List (Nat × Nat)) (keys : ScoredKeys V) :
    ranges.foldl (rangeChain score value blockN) (.summary keys) =
      .summary (keys ++ ranges.flatMap (rangeKeys score value blockN)) := by
  induction ranges generalizing keys with
  | nil => simp
  | cons range ranges ih =>
    have hchain : rangeChain score value blockN (.summary keys) range =
        .summary (keys ++ rangeKeys score value blockN range) := by
      rw [rangeChain, ← foldl_map, foldl_absorb]
      rfl
    grind

omit [Module ℝ V] in
lemma rangeKeys_eq {blockN : Nat} (hn : 0 < blockN) (start length : Nat) :
    ∃ masked : ScoredKeys V, (∀ k ∈ masked, k.1 = ⊥) ∧
      rangeKeys score value blockN (start, start + length) =
        keysFrom score value start length ++ masked := by
  let cell (j : Nat) : WithBot ℝ × V :=
    if start + j < start + length then ((score (start + j) : WithBot ℝ), value (start + j))
    else (⊥, 0)
  have hkeys : rangeKeys score value blockN (start, start + length) =
      (range ((length + blockN - 1) / blockN * blockN)).map cell := by
    simp only [rangeKeys, rangeStep, flatMap_map, rangeTile, Nat.add_sub_cancel_left,
      add_assoc, ← flatMap_range_mul, cell]
  obtain ⟨rest, hrest⟩ : ∃ rest, (length + blockN - 1) / blockN * blockN = length + rest :=
    Nat.exists_eq_add_of_le (by have := Nat.lt_div_mul_add hn (a := length + blockN - 1); omega)
  refine ⟨(range rest).map fun c => cell (length + c), ?_, ?_⟩
  · grind
  · rw [hkeys, hrest, range_add, map_append, map_map, keysFrom]
    refine congrArg (· ++ _) (map_congr_left fun c hc => ?_)
    exact if_pos (by have := mem_range.mp hc; omega)

lemma sums_rangeKeys {blockN : Nat} (hn : 0 < blockN) (kt : Nat) (sts : List Nat) :
    let ranged := (sts.map fun start => (start, start + kt)).flatMap
      (rangeKeys score value blockN)
    weightSum weight ranged = weightSum weight (listedKeys score value kt sts) ∧
      weightedSum weight ranged = weightedSum weight (listedKeys score value kt sts) ∧
      listedKeys score value kt sts ⊆ ranged := by
  induction sts with
  | nil => simp [listedKeys]
  | cons start sts ih => ?_
  obtain ⟨masked, hm, hk⟩ := rangeKeys_eq score value hn start kt
  obtain ⟨hw, hv, hs⟩ := ih
  simp only [map_cons, flatMap_cons, listedKeys, hk, append_assoc] at hw hv hs ⊢
  refine ⟨?_, ?_, ?_⟩
  · simp only [weightSum_append, hw, weightSum_masked hm, zero_add]
  · simp only [weightedSum_append, hv, weightedSum_masked hm, zero_add]
  grind

lemma rangeRow_eq_softmaxMean {blockN : Nat} (hn : 0 < blockN) (ht : 0 < kt) (hs : sts ≠ []) :
    rangeRow score value blockN (sts.map fun start => (start, start + kt)) =
      softmaxMean (listedKeys score value kt sts) := by
  obtain ⟨hw, hv, hsub⟩ := sums_rangeKeys score value hn kt sts
  obtain ⟨k, hk, hne⟩ := listedKeys_unmasked score value ht hs
  rw [rangeRow, ← summary_nil, foldl_rangeChain, nil_append, normalized_summary ⟨k, hsub hk, hne⟩]
  exact softmaxMean_eq_of_sums hw hv
end

/-! ## The grid -/

variable {numQFrames numHeads blockM fs b f r h : Nat}

lemma programCell_eq_iff {pidM pidBh i : Nat} (hr : r < fs) (hi : i < blockM) :
    programCell numHeads numQFrames fs blockM pidM pidBh i = some (b, f * fs + r, h) ↔
      (pidBh / numHeads = b ∧ pidBh % numHeads = h) ∧ pidM % numQFrames = f ∧
        pidM / numQFrames = r / blockM ∧ i = r % blockM := by
  have hrow (q : Nat) : q * blockM + i = r ↔ q = r / blockM ∧ i = r % blockM := by
    constructor
    · intro h
      refine eq_of_mul_add_eq hi (Nat.mod_lt _ (by omega)) ?_
      rw [h, mul_comm, Nat.div_add_mod]
    · rintro ⟨rfl, rfl⟩
      rw [mul_comm, Nat.div_add_mod]
  rw [← hrow]
  unfold programCell
  simp only
  split
  next hlt =>
    simp only [Option.some.injEq, Prod.mk.injEq, add_assoc]
    constructor
    · rintro ⟨hb, hrow, hh⟩
      obtain ⟨hf, hr⟩ := eq_of_mul_add_eq hlt hr hrow
      exact ⟨⟨hb, hh⟩, hf, hr⟩
    · rintro ⟨⟨rfl, rfl⟩, rfl, rfl⟩
      exact ⟨rfl, rfl, rfl⟩
  next hge =>
    simp only [reduceCtorEq, false_iff]
    rintro ⟨-, -, rfl⟩
    exact hge hr

lemma programCell_existsUnique {batch qTiles : Nat}
    (hm : 0 < blockM) (hq : qTiles = (fs + blockM - 1) / blockM) (hb : b < batch)
    (hf : f < numQFrames) (hr : r < fs) (hh : h < numHeads) :
    ∃! p : Nat × Nat × Nat, (p.1 < numQFrames * qTiles ∧ p.2.1 < batch * numHeads ∧ p.2.2 < blockM) ∧
      programCell numHeads numQFrames fs blockM p.1 p.2.1 p.2.2 = some (b, f * fs + r, h) := by
  have hmod : r % blockM < blockM := Nat.mod_lt _ hm
  have htile : r / blockM < qTiles := by
    rw [hq, Nat.lt_iff_add_one_le, Nat.le_div_iff_mul_le hm, Nat.succ_mul]
    have := Nat.div_mul_le_self r blockM
    omega
  refine ⟨(r / blockM * numQFrames + f, b * numHeads + h, r % blockM), ⟨⟨?_, ?_, hmod⟩, ?_⟩, ?_⟩
  · calc r / blockM * numQFrames + f < r / blockM * numQFrames + numQFrames := by omega
      _ ≤ qTiles * numQFrames := block_end_le htile
      _ = numQFrames * qTiles := mul_comm _ _
  · calc b * numHeads + h < b * numHeads + numHeads := by omega
      _ ≤ batch * numHeads := block_end_le hb
  · rw [programCell_eq_iff hr hmod]
    exact ⟨div_mod_of_block hh, (div_mod_of_block hf).2, (div_mod_of_block hf).1, rfl⟩
  · rintro ⟨pidM, pidBh, i⟩ ⟨⟨-, -, hi⟩, hcell⟩
    obtain ⟨⟨rfl, rfl⟩, rfl, htile, rfl⟩ := (programCell_eq_iff hr hi).mp hcell
    rw [← htile, Nat.div_add_mod', Nat.div_add_mod']

/-! ## The kernels agree -/

/-- Both kernels return the softmax mean of the listed keys in any block order, and each output row
is stored once. -/
theorem kernels_agree {V : Type} [AddCommGroup V] [Module ℝ V] (score : Nat → ℝ) (value : Nat → V)
    {keyTile queryTile qTilesPerFrame frameSeqlen : Nat} {starts : List Nat} (ht : 0 < keyTile)
    (hs : starts ≠ []) (hm : 0 < queryTile)
    (hq : qTilesPerFrame = (frameSeqlen + queryTile - 1) / queryTile) :
    blockRow score value keyTile starts =
        rangeRow score value rangeBlockN (starts.map fun start => (start, start + keyTile)) ∧
      blockRow score value keyTile starts = softmaxMean (listedKeys score value keyTile starts) ∧
      0 < weightSum weight (listedKeys score value keyTile starts) ∧
      (∀ reordered : List Nat, reordered.Perm starts →
        blockRow score value keyTile reordered = blockRow score value keyTile starts) ∧
      ∀ batch numHeads numQFrames b f r h, b < batch → h < numHeads → f < numQFrames →
        r < frameSeqlen → ∃! p : Nat × Nat × Nat,
          (p.1 < numQFrames * qTilesPerFrame ∧ p.2.1 < batch * numHeads ∧ p.2.2 < queryTile) ∧
          programCell numHeads numQFrames frameSeqlen queryTile p.1 p.2.1 p.2.2 =
            some (b, f * frameSeqlen + r, h) := by
  have hblock := blockRow_eq_softmaxMean score value ht hs
  refine ⟨?_, hblock, weightSum_pos (listedKeys_unmasked score value ht hs), ?_, ?_⟩
  · rw [hblock, rangeRow_eq_softmaxMean score value (by decide) ht hs]
  · intro reordered hperm
    have hne : reordered ≠ [] := fun h => hs (nil_perm.mp (h ▸ hperm))
    rw [hblock, blockRow_eq_softmaxMean score value ht hne]
    exact softmaxMean_perm (hperm.flatMap_right _)
  · exact fun batch numHeads numQFrames b f r h hb hh hf hr =>
      programCell_existsUnique hm hq hb hf hr hh

theorem kernels_agree_three_blocks :
    blockRow (fun n => (n : ℝ)) (fun n => (n : ℝ)) 2 [4, 0, 8] =
      rangeRow (fun n => (n : ℝ)) (fun n => (n : ℝ)) rangeBlockN [(4, 6), (0, 2), (8, 10)] :=
  (kernels_agree (fun n => (n : ℝ)) (fun n => (n : ℝ)) (by decide : 0 < 2)
    (by decide : [4, 0, 8] ≠ []) (by decide : 0 < 128)
    (by decide : 13 = (1560 + 128 - 1) / 128)).1
end Sglang
