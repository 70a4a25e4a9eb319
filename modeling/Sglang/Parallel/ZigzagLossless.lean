import Sglang.Parallel.Zigzag

/-!
# The zigzag split is lossless

The blocks of all ranks are each block of each sequence once (`zigzag_perm`), and `cp_reverse_index`
is the inverse of their order (`reverse_zigzag`).
-/

namespace Sglang.Parallel
open List Function
open List (range)
open Option (bind_some getD_some map_some)
open Prod (fst snd)

/-! ## Orders -/

lemma rangeUp_eq {start stop step n : Nat} (h : (stop - start + step - 1) / step = n) :
    rangeUp start stop step = (range n).map fun k => start + step * k := by
  rw [rangeUp, h]

variable {cpSize cp bs : Nat}

lemma zigzagIndex_eq {r : Nat} (hr : r < cp) :
    zigzagIndex r cp bs = ((range bs).map fun s => r + cp * 2 * s) ++
      (range bs).map fun s => cp * 2 - r - 1 + cp * 2 * s := by
  have hfirst : (r + bs * (cp * 2) - r + cp * 2 - 1) / (cp * 2) = bs := by
    rw [Nat.div_eq_iff (by omega)]
    omega
  have hsecond : (bs * (cp * 2) - (cp * 2 - r - 1) + cp * 2 - 1) / (cp * 2) = bs := by
    rw [Nat.div_eq_iff (by omega)]
    rcases eq_zero_or_pos bs with rfl | hpos
    · omega
    · omega
  rw [zigzagIndex, rangeUp_eq hfirst, rangeUp_eq hsecond]

section
variable {r s : Nat} (hr : r < cp) (hs : s < bs)
include hr hs

lemma zigzagIndex_prev : (zigzagIndex r cp bs)[s]? = some (s * (cp * 2) + r) := by
  rw [zigzagIndex_eq hr, getElem?_append_left (by simpa using hs), getElem?_map,
    getElem?_range hs, map_some]
  ring

lemma zigzagIndex_next : (zigzagIndex r cp bs)[bs + s]? = some (s * (cp * 2) + (cp * 2 - r - 1)) := by
  rw [zigzagIndex_eq hr, getElem?_append_right (by simp), length_map, length_range,
    Nat.add_sub_cancel_left, getElem?_map, getElem?_range hs, map_some]
  ring
end

lemma length_zigzagIndex {r : Nat} (hr : r < cp) : (zigzagIndex r cp bs).length = 2 * bs := by
  rw [zigzagIndex_eq hr, length_append, length_map, length_map, length_range]
  omega

lemma rank_products (bs : Nat) (hcp : 0 < cp) :
    bs ≤ cp * bs ∧ cp * 2 * bs = 2 * (cp * bs) ∧ cp * (2 * bs) = 2 * (cp * bs) ∧
      (cp * 2 - 1) * bs = 2 * (cp * bs) - bs := by
  refine ⟨Nat.le_mul_of_pos_left bs hcp, by ring, by ring, ?_⟩
  rw [Nat.sub_mul, one_mul]
  ring

/-- The first blocks of the ranks upwards, then the second ones downwards. -/
lemma cpReverseIndex_eq (hcp : 0 < cp) :
    cpReverseIndex cp bs = (range bs).flatMap fun b =>
      ((range cp).map fun k => k * (2 * bs) + b) ++
        (range cp).map fun k => (cp - 1 - k) * (2 * bs) + (bs + b) := by
  refine flatMap_congr fun b hb => ?_
  have hb := mem_range.mp hb
  obtain ⟨hle, h1, h2, h3⟩ := rank_products bs hcp
  have hfirst : (cp * 2 * bs - b + 2 * bs - 1) / (2 * bs) = cp := by
    rw [Nat.div_eq_iff (by omega), h1, h2]
    omega
  have hsecond : ((cp * 2 - 1) * bs + b + 2 * bs - 1) / (2 * bs) = cp := by
    rw [Nat.div_eq_iff (by omega), h3, h2]
    omega
  rw [rangeUp_eq hfirst, rangeDown, hsecond]
  congr 1
  · exact map_congr_left fun k _ => by ring
  · refine map_congr_left fun k hk => ?_
    obtain ⟨r, rfl⟩ : ∃ r, cp = k + r + 1 := ⟨cp - k - 1, by have := mem_range.mp hk; omega⟩
    grind

lemma length_cpReverseIndex (hcp : 0 < cp) : (cpReverseIndex cp bs).length = bs * (cp * 2) := by
  rw [cpReverseIndex_eq hcp]
  refine length_flatMap_range fun b _ => ?_
  grind

/-- The blocks of all ranks, in the order of the gathered tensor. -/
def gatheredIndex (cpSize bs : Nat) : List Nat := (range cpSize).flatMap fun r => zigzagIndex r cpSize bs

lemma length_gatheredIndex : (gatheredIndex cp bs).length = bs * (cp * 2) := by
  rw [gatheredIndex, length_flatMap_range fun r hr => length_zigzagIndex hr]
  ring

lemma gatheredIndex_prev {r s : Nat} (hr : r < cp) (hs : s < bs) :
    (gatheredIndex cp bs)[r * (2 * bs) + s]? = some (s * (cp * 2) + r) := by
  rw [gatheredIndex, getElem?_flatMap_range (fun r hr => length_zigzagIndex hr) hr (by omega),
    zigzagIndex_prev hr hs]

lemma gatheredIndex_next {r s : Nat} (hr : r < cp) (hs : s < bs) :
    (gatheredIndex cp bs)[r * (2 * bs) + (bs + s)]? = some (s * (cp * 2) + (cp * 2 - r - 1)) := by
  rw [gatheredIndex, getElem?_flatMap_range (fun r hr => length_zigzagIndex hr) hr (by omega),
    zigzagIndex_next hr hs]

lemma reverse_zigzag (hcp : 0 < cp) :
    (cpReverseIndex cp bs).map (fun i => (gatheredIndex cp bs).getD i 0) = range (bs * (cp * 2)) := by
  rw [cpReverseIndex_eq hcp, map_flatMap, range_mul]
  refine flatMap_congr fun b hb => ?_
  have hb := mem_range.mp hb
  rw [map_append, show cp * 2 = cp + cp by omega, range_add, map_append, map_map, map_map, map_map]
  congr 1
  · refine map_congr_left fun k hk => ?_
    have := gatheredIndex_prev (mem_range.mp hk) hb
    rw [comp_apply, getD_eq_getElem?_getD, this]
    simp [mul_two]
  refine map_congr_left fun k hk => ?_
  have hk := mem_range.mp hk
  have hr : cp - 1 - k < cp := by omega
  have := gatheredIndex_next hr hb
  rw [comp_apply, getD_eq_getElem?_getD, this, getD_some, comp_apply, mul_two]
  omega

lemma mem_cpReverseIndex_lt (hcp : 0 < cp) {i : Nat} (hi : i ∈ cpReverseIndex cp bs) :
    i < (gatheredIndex cp bs).length := by
  rw [cpReverseIndex_eq hcp, mem_flatMap] at hi
  obtain ⟨b, hb, hi⟩ := hi
  have hb := mem_range.mp hb
  rw [mem_append, mem_map, mem_map] at hi
  rcases hi with ⟨k, hk, rfl⟩ | ⟨k, hk, rfl⟩
  · exact List.getElem?_eq_some_iff.mp (gatheredIndex_prev (mem_range.mp hk) hb) |>.1
  · have hr : cp - 1 - k < cp := by omega
    exact List.getElem?_eq_some_iff.mp (gatheredIndex_next hr hb) |>.1

lemma zigzag_perm (hcp : 0 < cp) :
    (cpReverseIndex cp bs).Perm (range (bs * (cp * 2))) ∧
      (gatheredIndex cp bs).Perm (range (bs * (cp * 2))) :=
  perm_range_of_inverse (length_cpReverseIndex hcp) length_gatheredIndex
    (fun _ hi => mem_cpReverseIndex_lt hcp hi) (reverse_zigzag hcp)

/-! ## Blocks -/

@[simp]
lemma length_blockSizes (n len : Nat) : (blockSizes n len).length = n := by simp [blockSizes]

lemma getD_blockSizes {n len i : Nat} (hi : i < n) :
    (blockSizes n len).getD i 0 = len / n + if i < len % n then 1 else 0 := by
  rw [getD_eq_getElem _ _ (by simpa using hi)]
  simp only [blockSizes, getElem_map, getElem_range]
  split <;> rfl

lemma sum_map_lt_range (n k base : Nat) :
    ((range n).map fun i => if i < k then base + 1 else base).sum = n * base + min n k := by
  induction n with
  | zero => simp
  | succ n ih =>
    rw [range_succ, map_append, sum_append, ih, map_singleton, sum_singleton, Nat.succ_mul]
    split <;> omega

lemma sum_blockSizes {n : Nat} (hn : 0 < n) (len : Nat) : (blockSizes n len).sum = len := by
  have hlt := Nat.mod_lt len hn
  have hdiv := Nat.div_add_mod len n
  rw [blockSizes, sum_map_lt_range]
  omega

lemma rank_blocks_le (len : Nat) {r r' : Nat} (hr : r < cp) (hr' : r' < cp) :
    (blockSizes (cp * 2) len).getD r 0 + (blockSizes (cp * 2) len).getD (cp * 2 - 1 - r) 0 ≤
      (blockSizes (cp * 2) len).getD r' 0 + (blockSizes (cp * 2) len).getD (cp * 2 - 1 - r') 0 + 1 := by
  rw [getD_blockSizes (by omega), getD_blockSizes (by omega), getD_blockSizes (by omega),
    getD_blockSizes (by omega)]
  split <;> split <;> split <;> split <;> omega

/-! ## Pieces -/

def seqBlocks (cpSize : Nat) (ext : List Nat) : List (List Nat) := ext.map (blockSizes (cpSize * 2))

section
variable {ext : List Nat}

lemma sum_splitList (hcp : 0 < cp) : (seqBlocks cp ext).flatten.sum = ext.sum := by
  rw [sum_flatten, seqBlocks, map_map]
  congr 1
  conv_rhs => rw [← map_id ext]
  exact map_congr_left fun len _ => sum_blockSizes (by omega) len

lemma map_length_seqBlocks : (seqBlocks cp ext).map List.length = replicate ext.length (cp * 2) := by
  rw [seqBlocks, map_map, eq_replicate_iff]
  exact ⟨by simp, by simp⟩

lemma length_splitList : (seqBlocks cp ext).flatten.length = ext.length * (cp * 2) := by
  rw [length_flatten, map_length_seqBlocks, sum_replicate_nat]

lemma getElem?_splitList {s i : Nat} (hs : s < ext.length) (hi : i < cp * 2) :
    (seqBlocks cp ext).flatten[s * (cp * 2) + i]? = some
    ((blockSizes (cp * 2) (ext.getD s 0)).getD i 0) := by
  have hp : (seqBlocks cp ext)[s]? = some (blockSizes (cp * 2) (ext.getD s 0)) := by
    rw [seqBlocks, getElem?_map, getElem?_eq_getElem hs, map_some, getD_eq_getElem _ _ hs]
  have := getElem?_flatten_piece hp (by rwa [length_blockSizes])
  rw [map_length_seqBlocks, take_replicate, sum_replicate_nat, min_eq_left hs.le] at this
  rw [this, getD_eq_getElem?_getD (i := i), getElem?_eq_getElem (by rwa [length_blockSizes]), getD_some]

lemma map_getD_seqBlocks {i : Nat} (hi : i < cp * 2) :
    (seqBlocks cp ext).map (fun blk => blk.getD i 0) =
      (range ext.length).map fun s => (seqBlocks cp ext).flatten.getD (i + cp * 2 * s) 0 := by
  apply ext_getElem
  · simp [seqBlocks]
  intro s hs hs'
  have hs : s < ext.length := by simpa [seqBlocks] using hs
  rw [getElem_map, getElem_map, getElem_range, getD_eq_getElem?_getD (i := i + _),
    show i + cp * 2 * s = s * (cp * 2) + i by ring, getElem?_splitList hs hi]
  simp [seqBlocks, hs]

lemma rank_lengths {r : Nat} (hr : r < cp) :
    (zigzagIndex r cp ext.length).map (fun i => (seqBlocks cp ext).flatten.getD i 0) =
      (seqBlocks cp ext).map (fun blk => blk.getD r 0) ++
        (seqBlocks cp ext).map (fun blk => blk.getD (cp * 2 - 1 - r) 0) := by
  rw [zigzagIndex_eq hr, map_append, map_map, map_map, map_getD_seqBlocks (by omega),
    map_getD_seqBlocks (by omega), show cp * 2 - 1 - r = cp * 2 - r - 1 by omega]
  rfl

lemma reverseSplitLen_eq :
    reverseSplitLen cp (seqBlocks cp ext) =
      (gatheredIndex cp ext.length).map fun i => (seqBlocks cp ext).flatten.getD i 0 := by
  rw [reverseSplitLen, gatheredIndex, map_flatMap]
  exact flatMap_congr fun r hr => (rank_lengths (mem_range.mp hr)).symm

lemma rankTokens_eq : rankTokens cp (seqBlocks cp ext) = (range cp).map fun r =>
    ((zigzagIndex r cp ext.length).map fun i => (seqBlocks cp ext).flatten.getD i 0).sum := by
  refine map_congr_left fun r hr => ?_
  rw [rank_lengths (mem_range.mp hr), sum_append, ← sum_map_add]

lemma sum_rankTokens (hcp : 0 < cp) : (rankTokens cp (seqBlocks cp ext)).sum = ext.sum := by
  have hsum : (rankTokens cp (seqBlocks cp ext)).sum =
      ((gatheredIndex cp ext.length).map fun i => (seqBlocks cp ext).flatten.getD i 0).sum := by
    rw [rankTokens_eq, gatheredIndex, map_flatMap, flatMap_def, sum_flatten, map_map]
    rfl
  have hperm : (gatheredIndex cp ext.length).Perm _ := (zigzag_perm hcp).2
  rw [hsum, (hperm.map _).sum_eq, ← length_splitList, map_getD_range, sum_splitList hcp]
end

/-! ## Tensors -/

/-- The tensor of a rank, from the blocks of all sequences. -/
def rankRows {α : Type} (cpSize : Nat) (ext : List Nat) (x : List α) (r : Nat) : List α :=
  ((zigzagIndex r cpSize ext.length).map fun i =>
    (splitPieces (seqBlocks cpSize ext).flatten x).getD i []).flatten

section
variable {α : Type} {ext : List Nat} {x : List α}

/-- The metadata of a rank for the padded lengths `ext`. -/
abbrev rankMeta (cpSize : Nat) (offsets ext : List Nat) (r : Nat) : ContextParallelMetadata :=
  metadataOf r cpSize offsets ext false

variable {offsets : List Nat}

lemma map_length_pieces (hcp : 0 < cp) (hx : x.length = ext.sum) :
    (splitPieces (seqBlocks cp ext).flatten x).map List.length = (seqBlocks cp ext).flatten :=
  map_length_splitPieces ((sum_splitList hcp).trans hx.symm)

lemma length_pieces (hcp : 0 < cp) (hx : x.length = ext.sum) :
    (splitPieces (seqBlocks cp ext).flatten x).length = ext.length * (cp * 2) := by
  have := congrArg List.length (map_length_pieces hcp hx)
  rwa [length_map, length_splitList] at this

variable {r : Nat}

lemma zigzagIndex_lt {i : Nat} (hr : r < cp) (hi : i ∈ zigzagIndex r cp bs) : i < bs * (cp * 2) := by
  have hmem : i ∈ gatheredIndex cp bs := mem_flatMap.mpr ⟨r, mem_range.mpr hr, hi⟩
  exact mem_range.mp ((zigzag_perm (by omega)).2.mem_iff.mp hmem)

lemma map_length_picked (hcp : 0 < cp) (hx : x.length = ext.sum) (idx : List Nat)
    (hidx : ∀ i ∈ idx, i < ext.length * (cp * 2)) :
    (idx.map fun i => (splitPieces (seqBlocks cp ext).flatten x).getD i []).map List.length =
      idx.map fun i => (seqBlocks cp ext).flatten.getD i 0 := by
  rw [map_map]
  refine map_congr_left fun i hi => ?_
  have hlt : i < (splitPieces (seqBlocks cp ext).flatten x).length := by
    rw [length_pieces hcp hx]
    exact hidx i hi
  have := congrArg (·.getD i 0) (map_length_pieces hcp hx)
  grind

lemma cpSplitAndRebuildData_eq (hr : r < cp) (hne : ext ≠ []) (hx : x.length = ext.sum) :
    cpSplitAndRebuildData (rankMeta cp offsets ext r) x = some (rankRows cp ext x r) := by
  set ps := (splitPieces (seqBlocks cp ext).flatten x)
  have hcp : 0 < cp := by omega
  have hpos : 0 < ext.length := length_pos_iff.mpr hne
  have hsplit : torchSplit (seqBlocks cp ext).flatten x =
      some ps := if_pos ((sum_splitList hcp).trans hx.symm)
  have hpick : pick ps (zigzagIndex r cp ext.length) = _ :=
    pick_eq_some [] fun i hi => (length_pieces hcp hx).symm ▸ zigzagIndex_lt hr hi
  have hcat : torchCat ((zigzagIndex r cp ext.length).map fun i =>
      ps.getD i []) = some (rankRows cp ext x r) := by
    refine torchCat_of_ne_nil fun he => ?_
    have := congrArg List.length he
    rw [length_map, length_zigzagIndex hr, length_nil] at this
    omega
  change (torchSplit (seqBlocks cp ext).flatten x).bind (fun ps =>
    (pick ps (zigzagIndex r cp ext.length)).bind torchCat) = _
  rw [hsplit, bind_some, hpick, bind_some, hcat]

lemma length_rankRows (hr : r < cp) (hx : x.length = ext.sum) :
    (rankRows cp ext x r).length = (rankTokens cp (seqBlocks cp ext)).getD r 0 := by
  have hcp : 0 < cp := by omega
  have hlen : r < (rankTokens cp (seqBlocks cp ext)).length := by simpa [rankTokens] using hr
  rw [rankRows, length_flatten, map_length_picked hcp hx _ fun i hi => zigzagIndex_lt hr hi,
    getD_eq_getElem _ _ hlen]
  simp only [rankTokens_eq, getElem_map, getElem_range]

def maxTokens (cpSize : Nat) (ext : List Nat) : Nat := (rankTokens cpSize (seqBlocks cpSize ext)).foldl max 0

lemma padToMaxRankLen_eq (hcp : 0 < cp) (zero : α) (y : List α) :
    padToMaxRankLen (rankMeta cp offsets ext r) zero y =
      y ++ replicate (maxTokens cp ext - y.length) zero := by
  have : (rankMeta cp offsets ext r).maxRankLen.getD 0 0 = maxTokens cp ext := by
    change (replicate cp (maxTokens cp ext)).getD 0 0 = _
    grind
  rw [padToMaxRankLen, this]

lemma length_rankRows_le (hr : r < cp) (hx : x.length = ext.sum) :
    (rankRows cp ext x r).length ≤ maxTokens cp ext := by
  rw [length_rankRows hr hx]
  have hlen : r < (rankTokens cp (seqBlocks cp ext)).length := by simpa [rankTokens] using hr
  rw [getD_eq_getElem _ _ hlen]
  exact (max?_eq_some_iff.mp max?_cons').2 _ (mem_cons_of_mem 0 (getElem_mem hlen))

def allGather (cpSize : Nat) (offsets ext : List Nat) (zero : α) (x : List α) : List α :=
  (range cpSize).flatMap fun r =>
    padToMaxRankLen (rankMeta cpSize offsets ext r) zero (rankRows cpSize ext x r)

lemma removePadding_eq {q : Nat} (hcp : 0 < cp) (hx : x.length = ext.sum) (zero : α) :
    removePadding (rankMeta cp offsets ext q) (allGather cp offsets ext zero x) =
      some ((range cp).flatMap (rankRows cp ext x)) := by
  have hlens : (rankMeta cp offsets ext q).maxRankLen = ((range cp).map fun r =>
      padToMaxRankLen (rankMeta cp offsets ext r) zero (rankRows cp ext x r)).map List.length := by
    change replicate cp (maxTokens cp ext) = _
    rw [map_map, eq_comm, eq_replicate_iff]
    refine ⟨by simp, fun n hn => ?_⟩
    obtain ⟨r, hr, rfl⟩ := mem_map.mp hn
    have := length_rankRows_le (mem_range.mp hr) hx
    rw [comp_apply, padToMaxRankLen_eq hcp, length_append, length_replicate]
    omega
  have hsplit := torchSplit_flatten ((range cp).map fun r =>
    padToMaxRankLen (rankMeta cp offsets ext r) zero (rankRows cp ext x r))
  rw [← hlens, ← flatMap_def] at hsplit
  have htake : zipWith (fun out len => out.take len) ((range cp).map fun r =>
        padToMaxRankLen (rankMeta cp offsets ext r) zero (rankRows cp ext x r))
      (rankTokens cp (seqBlocks cp ext)) = (range cp).map (rankRows cp ext x) := by
    apply ext_getElem
    · simp [rankTokens]
    intro r hr hr'
    have hr : r < cp := by simpa using hr'
    have hlen := length_rankRows (x := x) hr hx
    rw [getD_eq_getElem _ _ (by simpa [rankTokens] using hr)] at hlen
    simp only [getElem_zipWith, getElem_map, getElem_range]
    rw [← hlen, padToMaxRankLen_eq hcp, take_left]
  change (torchSplit (rankMeta cp offsets ext q).maxRankLen _).bind (fun outs => torchCat (zipWith
    (fun out len => out.take len) outs (rankTokens cp (seqBlocks cp ext)))) = _
  rw [allGather, hsplit, bind_some, htake, torchCat_of_ne_nil (by simpa using hcp.ne'), ← flatMap_def]

lemma cpAllGatherRerange_eq {q : Nat} (hcp : 0 < cp) (hne : ext ≠ []) (hx : x.length = ext.sum)
    (zero : α) :
    cpAllGatherRerange (rankMeta cp offsets ext q) (allGather cp offsets ext zero x) = some x := by
  have hpos : 0 < ext.length := length_pos_iff.mpr hne
  set ps := splitPieces (seqBlocks cp ext).flatten x
  have hplen : ps.length = ext.length * (cp * 2) := length_pieces hcp hx
  have hrows : (range cp).flatMap (rankRows cp ext x) =
      ((gatheredIndex cp ext.length).map fun i => ps.getD i []).flatten := by
    rw [gatheredIndex, map_flatMap, flatMap_def, flatMap_def, flatten_flatten, map_map]
    rfl
  have hmem : ∀ i ∈ gatheredIndex cp ext.length, i < ext.length * (cp * 2) := fun i hi =>
    mem_range.mp ((zigzag_perm hcp).2.mem_iff.mp hi)
  have hsplit := torchSplit_flatten ((gatheredIndex cp ext.length).map fun i => ps.getD i [])
  rw [map_length_picked hcp hx _ hmem, ← reverseSplitLen_eq] at hsplit
  have hpick : pick ((gatheredIndex cp ext.length).map fun i => ps.getD i [])
      (cpReverseIndex cp ext.length) = some ps :=
    pick_pick (fun i hi => mem_cpReverseIndex_lt hcp hi) (by rw [reverse_zigzag hcp, hplen])
  have hpne : ps ≠ [] := by
    intro he
    rw [he, length_nil] at hplen
    have := mul_pos hpos (show 0 < cp * 2 by omega)
    omega
  change (removePadding ..).bind (fun output => (torchSplit (reverseSplitLen cp (seqBlocks cp ext)) output).bind
    fun outputs => (pick outputs (cpReverseIndex cp ext.length)).bind torchCat) = _
  rw [removePadding_eq hcp hx, bind_some, hrows, hsplit, bind_some, hpick, bind_some,
    torchCat_of_ne_nil hpne, flatten_splitPieces ((sum_splitList hcp).trans hx.symm)]
end

/-! ## Causal masks -/

lemma sum_take_succ {xs : List Nat} {i : Nat} (hi : i < xs.length) :
    (xs.take (i + 1)).sum = (xs.take i).sum + xs.getD i 0 := by
  rw [getD_eq_getElem _ _ hi, List.sum_take_succ _ _ hi]

lemma getD_accumulate {xs : List Nat} {s : Nat} (hs : s ≤ xs.length) :
    (0 :: cumsum xs).getD s 0 = (xs.take s).sum := by
  cases s with
  | zero => simp
  | succ s =>
    rw [getD_cons_succ, getD_eq_getElem _ _ (by rw [length_cumsum]; omega)]
    simp [cumsum]

lemma getLastD_accumulate (xs : List Nat) : (0 :: cumsum xs).getLastD 0 = xs.sum := by
  have h : (0 :: cumsum xs).getD xs.length 0 = _ := getD_accumulate le_rfl
  rw [take_length, getD_eq_getElem _ _ (by simp)] at h
  rw [← h, getLastD_eq_getLast?, getLast?_eq_getElem?]
  simp

section
variable {α : Type} {ext : List Nat} {x : List α}
variable {s i j r : Nat}

lemma sum_take_splitList (hcp : 0 < cp) (hs : s < ext.length) (hi : i < cp * 2) :
    ((seqBlocks cp ext).flatten.take (s * (cp * 2) + i)).sum =
      (ext.take s).sum + ((blockSizes (cp * 2) (ext.getD s 0)).take i).sum := by
  have hsplit : seqBlocks cp ext = seqBlocks cp (ext.take s) ++
      blockSizes (cp * 2) (ext.getD s 0) :: seqBlocks cp (ext.drop (s + 1)) := by
    conv_lhs => rw [← take_append_drop s ext, drop_eq_getElem_cons hs]
    rw [getD_eq_getElem _ _ hs, seqBlocks, map_append, map_cons]
    rfl
  have hlen : (seqBlocks cp (ext.take s)).flatten.length = s * (cp * 2) := by
    rw [length_splitList, length_take_of_le hs.le]
  rw [hsplit, flatten_append, ← hlen, take_length_add_append, sum_append, sum_splitList hcp,
    flatten_cons, take_append_of_le_length (by rw [length_blockSizes]; omega)]

lemma getElem?_piece (hcp : 0 < cp) (hx : x.length = ext.sum) (hs : s < ext.length)
    (hi : i < cp * 2) (hj : j < (blockSizes (cp * 2) (ext.getD s 0)).getD i 0) :
    ∃ p, (splitPieces (seqBlocks cp ext).flatten x)[s * (cp * 2) + i]? = some p ∧
      p.length = (blockSizes (cp * 2) (ext.getD s 0)).getD i 0 ∧
      p[j]? = x[(ext.take s).sum + (((blockSizes (cp * 2) (ext.getD s 0)).take i).sum + j)]? := by
  have hmul : (s + 1) * (cp * 2) ≤ ext.length * (cp * 2) := Nat.mul_le_mul_right _ hs
  have hlt : s * (cp * 2) + i < (splitPieces (seqBlocks cp ext).flatten x).length := by
    rw [length_pieces hcp hx]
    rw [Nat.succ_mul] at hmul
    omega
  refine ⟨_, getElem?_eq_getElem hlt, ?_⟩
  have hl := congrArg (·[s * (cp * 2) + i]?) (map_length_pieces hcp hx)
  simp only [getElem?_map, getElem?_eq_getElem hlt, map_some, getElem?_splitList hs hi,
    Option.some.injEq] at hl
  refine ⟨hl, ?_⟩
  have := getElem?_flatten_piece (getElem?_eq_getElem hlt) (j := j) (by rwa [hl])
  rw [← this, flatten_splitPieces ((sum_splitList hcp).trans hx.symm), map_length_pieces hcp hx,
    sum_take_splitList hcp hs hi, add_assoc]

/-- Row `j` of a half's block: token `pos`, with `kvLen - (block length - 1 - j)` keys. -/
def CausalRow (half x : List α) (cu kvLen qLen : List Nat) (prefixLen start len s j : Nat) : Prop :=
  ∃ pos < len, half[cu.getD s 0 + j]? = x[start + pos]? ∧
    (kvLen.getD s 0 : Int) - (qLen.getD s 0 - 1 - j) = prefixLen + pos + 1

variable {offsets : List Nat}

lemma map_length_rank (hr : r < cp) (hx : x.length = ext.sum) :
    ((zigzagIndex r cp ext.length).map fun i =>
        (splitPieces (seqBlocks cp ext).flatten x).getD i []).map List.length =
      (rankMeta cp offsets ext r).actualSeqQPrevList ++
        (rankMeta cp offsets ext r).actualSeqQNextList := by
  rw [map_length_picked (by omega) hx _ fun i hi => zigzagIndex_lt hr hi, rank_lengths hr,
    show cp * 2 - 1 - r = cp * 2 - r - 1 by omega]
  rfl

lemma actualSeqQ_getD {n : Nat} (hs : s < ext.length) :
    ((seqBlocks cp ext).map fun blk => blk.getD n 0).getD s 0 =
      (blockSizes (cp * 2) (ext.getD s 0)).getD n 0 := by
  rw [getD_eq_getElem _ _ (by simpa [seqBlocks] using hs), getD_eq_getElem ext _ hs]
  simp [seqBlocks]

lemma kvLen_getD (n : Nat) (hs : s < ext.length) (ho : offsets.length = ext.length)
    (hn : n < cp * 2) :
    (zipWith (fun offset blk => offset + (take (n + 1) blk).sum) offsets (seqBlocks cp ext)).getD s 0 =
      offsets.getD s 0 + (((blockSizes (cp * 2) (ext.getD s 0)).take n).sum +
        (blockSizes (cp * 2) (ext.getD s 0)).getD n 0) := by
  have hlen : s < (zipWith (fun offset blk => offset + (take (n + 1) blk).sum) offsets
      (seqBlocks cp ext)).length := by
    rw [length_zipWith, ho, seqBlocks, length_map, min_self]
    exact hs
  rw [getD_eq_getElem _ _ hlen, getElem_zipWith, ← sum_take_succ (by rwa [length_blockSizes]),
    getD_eq_getElem offsets _ (by omega), getD_eq_getElem ext _ hs]
  simp [seqBlocks]

lemma causalRow_of_block (hcp : 0 < cp) (hx : x.length = ext.sum) {n : Nat} (hs : s < ext.length)
    (hn : n < cp * 2) (ho : offsets.length = ext.length) (half : List α) (cu : List Nat)
    (hj : j < ((seqBlocks cp ext).map fun blk => blk.getD n 0).getD s 0)
    (hrow : ∀ p, (splitPieces (seqBlocks cp ext).flatten x)[s * (cp * 2) + n]? = some p → j < p.length →
      half[cu.getD s 0 + j]? = p[j]?) :
    CausalRow half x cu
      (zipWith (fun offset blk => offset + (take (n + 1) blk).sum) offsets (seqBlocks cp ext))
      ((seqBlocks cp ext).map fun blk => blk.getD n 0) (offsets.getD s 0) (ext.take s).sum (ext.getD s 0)
      s j := by
  rw [actualSeqQ_getD hs] at hj
  obtain ⟨p, hp, hlen, hitem⟩ := getElem?_piece hcp hx hs hn hj
  refine ⟨((blockSizes (cp * 2) (ext.getD s 0)).take n).sum + j, ?_, ?_, ?_⟩
  · have hlt : n < (blockSizes (cp * 2) (ext.getD s 0)).length := by rwa [length_blockSizes]
    have hsucc := sum_take_succ hlt
    have hle := (take_sublist (n + 1) (blockSizes (cp * 2) (ext.getD s 0))).sum_le_sum (by simp)
    rw [sum_blockSizes (by omega)] at hle
    omega
  · rw [hrow p hp (by rwa [hlen]), hitem]
  · rw [kvLen_getD n hs ho hn, actualSeqQ_getD hs]
    omega

variable (offsets) in
lemma getElem?_rankRows (hr : r < cp) (hx : x.length = ext.sum) {k : Nat} {p : List α}
    (hk : (zigzagIndex r cp ext.length)[k]? = some i)
    (hp : (splitPieces (seqBlocks cp ext).flatten x)[i]? = some p) (hj : j < p.length) :
    (rankRows cp ext x r)[(((rankMeta cp offsets ext r).actualSeqQPrevList ++
      (rankMeta cp offsets ext r).actualSeqQNextList).take k).sum + j]? = p[j]? := by
  rw [← map_length_rank hr hx]
  refine getElem?_flatten_piece ?_ hj
  grind

lemma length_actualSeqQPrev (r : Nat) :
    (rankMeta cp offsets ext r).actualSeqQPrevList.length = ext.length := by
  simp [metadataOf]

lemma rank_prev_rows (hr : r < cp) (hx : x.length = ext.sum) (hs : s < ext.length)
    (ho : offsets.length = ext.length) : let R := rankMeta cp offsets ext r
    j < R.actualSeqQPrevList.getD s 0 → CausalRow ((rankRows cp ext x r).take R.totalQPrevTokens) x
      R.cuSeqlensQPrev R.kvLenPrevList R.actualSeqQPrevList (offsets.getD s 0) (ext.take s).sum
      (ext.getD s 0) s j := by
  intro R hj
  have hlen : R.actualSeqQPrevList.length = ext.length := length_actualSeqQPrev r
  refine causalRow_of_block (by omega) hx hs (by omega) ho _ _ hj fun p hp hjp => ?_
  have hrow := getElem?_rankRows offsets hr hx (zigzagIndex_prev hr hs) hp hjp
  rw [take_append_of_le_length (hs.le.trans_eq hlen.symm)] at hrow
  have hcu : R.cuSeqlensQPrev.getD s 0 = (R.actualSeqQPrevList.take s).sum := getD_accumulate (hlen ▸ hs.le)
  have htotal : R.totalQPrevTokens = R.actualSeqQPrevList.sum := getLastD_accumulate _
  have hle := (take_sublist (s + 1) R.actualSeqQPrevList).sum_le_sum (by simp)
  rw [sum_take_succ (by omega)] at hle
  rw [hcu, htotal, getElem?_take_of_lt (by omega), hrow]

lemma rank_next_rows (hr : r < cp) (hx : x.length = ext.sum) (hs : s < ext.length)
    (ho : offsets.length = ext.length) : let R := rankMeta cp offsets ext r
    j < R.actualSeqQNextList.getD s 0 → CausalRow ((rankRows cp ext x r).drop R.totalQPrevTokens) x
      R.cuSeqlensQNext R.kvLenNextList R.actualSeqQNextList (offsets.getD s 0) (ext.take s).sum
      (ext.getD s 0) s j := by
  intro R hj
  have hlen : R.actualSeqQPrevList.length = ext.length := length_actualSeqQPrev r
  have hkv : R.kvLenNextList = zipWith
      (fun offset blk => offset + (take (cp * 2 - r - 1 + 1) blk).sum) offsets (seqBlocks cp ext) := by
    rw [show cp * 2 - r - 1 + 1 = cp * 2 - r by omega]
    rfl
  rw [hkv]
  refine causalRow_of_block (by omega) hx hs (by omega) ho _ _ hj fun p hp hjp => ?_
  have hrow := getElem?_rankRows offsets hr hx (zigzagIndex_next hr hs) hp hjp
  have hcu : R.cuSeqlensQNext.getD s 0 = (R.actualSeqQNextList.take s).sum :=
    getD_accumulate (by simp; omega)
  have htotal : R.totalQPrevTokens = R.actualSeqQPrevList.sum := getLastD_accumulate _
  rw [← hlen, take_length_add_append, sum_append, add_assoc] at hrow
  rw [hcu, htotal, getElem?_drop, hrow]
end

/-! ## Padding -/

section
variable {n : Nat} {xs : List Nat}

lemma addToLast_concat (ys : List Nat) (y : Nat) : addToLast n (ys ++ [y]) = ys ++ [y + n] := by
  simp [addToLast]

@[simp]
lemma length_addToLast : (addToLast n xs).length = xs.length := by
  rcases eq_nil_or_concat xs with rfl | ⟨ys, y, rfl⟩
  · rfl
  · rw [concat_eq_append, addToLast_concat]
    simp

lemma sum_addToLast (h : xs ≠ []) : (addToLast n xs).sum = xs.sum + n := by
  rcases eq_nil_or_concat xs with rfl | ⟨ys, y, rfl⟩
  · exact absurd rfl h
  · rw [concat_eq_append, addToLast_concat, sum_append, sum_append, sum_singleton,
      sum_singleton, add_assoc]

lemma take_addToLast {s : Nat} (hs : s < xs.length) : (addToLast n xs).take s = xs.take s := by
  rcases eq_nil_or_concat xs with rfl | ⟨ys, y, rfl⟩
  · rfl
  · rw [concat_eq_append, length_append, length_singleton] at hs
    rw [concat_eq_append, addToLast_concat, take_append_of_le_length (by omega),
      take_append_of_le_length (by omega)]

lemma prefixOffsets_padded (reqs : List (Nat × Nat)) :
    prefixOffsets (some (addToLast n (reqs.map fun q => q.1 + q.2))) (addToLast n (reqs.map snd)) =
      reqs.map fst := by
  have hsub : ∀ rs : List (Nat × Nat), zipWith (· - ·) (rs.map fun q => q.1 + q.2) (rs.map snd) =
      rs.map fst := fun rs => by
    simp
  rw [prefixOffsets, if_pos (by simp)]
  rcases eq_nil_or_concat reqs with rfl | ⟨rs, q, rfl⟩
  · rfl
  rw [concat_eq_append, map_append, map_append, map_append, map_singleton,
    map_singleton, addToLast_concat, addToLast_concat, zipWith_append (by simp), hsub]
  congr 1
  simp only [zipWith_cons_cons, zipWith_nil_left, map_cons, map_nil]
  congr 1
  omega
end

/-! ## The metadata -/

lemma checkMetadata_ok {r : Nat} (hr : r < cp) (offsets ext : List Nat) :
    checkMetadata (rankMeta cp offsets ext r) cp = .ok () := by
  set R := rankMeta cp offsets ext r
  have hcp : 0 < cp := by omega
  have hsort : (cpReverseIndex cp ext.length).insertionSort (· ≤ ·) = range (ext.length * (cp * 2)) := by
    refine List.Perm.eq_of_pairwise' (r := (· ≤ ·)) (pairwise_insertionSort ..) ?_ ?_
    · exact pairwise_le_range
    · exact (perm_insertionSort ..).trans (zigzag_perm hcp).1
  have h1 : R.splitList.length = R.bs * (cp * 2) := length_splitList
  have h2 : R.splitList.sum = R.totalSeqLens :=
    sum_splitList hcp
  have h3 : R.zigzagIndex.length = 2 * R.bs :=
    length_zigzagIndex hr
  have h4 : R.cpReverseIndex.length = R.bs * (cp * 2) := length_cpReverseIndex hcp
  have h5 : R.cpReverseIndex.insertionSort (· ≤ ·) = range (R.bs * (cp * 2)) := hsort
  have h6 : R.perRankActualToken.sum =
      R.totalSeqLens := sum_rankTokens hcp
  simp only [checkMetadata, assert, if_pos h1, if_pos h2, if_pos h3, if_pos h4, if_pos h5, if_pos h6]
  rfl

lemma prepare_eq {r : Nat} (hr : r < cp) (reqs : List (Nat × Nat)) (hne : reqs ≠ []) (kvl : Nat) :
    prepareContextParallelMetadata kvl r cp (some (reqs.map fun q => q.1 + q.2)) (reqs.map snd)
        false =
      .ok (rankMeta cp (reqs.map fst) (addToLast (kvl - (reqs.map snd).sum) (reqs.map snd)) r) := by
  rw [prepareContextParallelMetadata, if_neg fun h => hne (map_eq_nil_iff.mp h.2)]
  simp only [map_some, length_map, if_true, prefixOffsets_padded]
  rw [checkMetadata_ok hr]
  rfl

structure Lossless {α : Type} (cpSize : Nat) (md : Nat → ContextParallelMetadata) (reqs : List (Nat × Nat))
    (kvLen : Nat) (zero : α) (x : List α) (rows : Nat → List α) : Prop where
  /-- Each rank takes its rows. -/
  split : ∀ r < cpSize, cpSplitAndRebuildData (md r) x = some (rows r)
  /-- Each rank gets all rows back from the all-gather, in the original order. -/
  gathered : ∀ q < cpSize, cpAllGatherRerange (md q)
    ((range cpSize).flatMap fun r => padToMaxRankLen (md r) zero (rows r)) = some x
  /-- In both calls of attention, each row looks at the keys up to its own. -/
  causal : ∀ r < cpSize, ∀ p ∈ (cpAttnForwardExtend (md r)
      (fun half cu kvLen _ => [(half, cu, kvLen)]) (rows r)).zip
        [(md r).actualSeqQPrevList, (md r).actualSeqQNextList],
    ∀ s < reqs.length, ∀ j < p.2.getD s 0,
      CausalRow p.1.1 x p.1.2.1 p.1.2.2 p.2 ((reqs.map fst).getD s 0) ((reqs.map snd).take s).sum
        ((addToLast (kvLen - (reqs.map snd).sum) (reqs.map snd)).getD s 0) s j
  /-- The ranks get about the same number of tokens. -/
  balanced : ∀ r < cpSize, ∀ r' < cpSize, (rows r).length ≤ (rows r').length + reqs.length

lemma rankTokens_balanced (ext : List Nat) {r r' : Nat} (hr : r < cp) (hr' : r' < cp) :
    (rankTokens cp (seqBlocks cp ext)).getD r 0 ≤
      (rankTokens cp (seqBlocks cp ext)).getD r' 0 + ext.length := by
  rw [getD_eq_getElem _ _ (by simpa [rankTokens] using hr),
    getD_eq_getElem _ _ (by simpa [rankTokens] using hr')]
  simp only [rankTokens, seqBlocks, getElem_map, getElem_range, map_map]
  induction ext with
  | nil => simp
  | cons len ext ih =>
    have := rank_blocks_le len hr hr'
    grind

/-- For all ranks, batches and padded lengths the assertions hold, the ranks' blocks are all blocks
once, and tensors are split and gathered without loss under the right masks. -/
theorem zigzag_lossless (cpSize : Nat) (hcp : 1 ≤ cpSize) (reqs : List (Nat × Nat))
    (hne : reqs ≠ [])
    (kvLen : Nat) (hkv : (reqs.map snd).sum ≤ kvLen) :
    ∃ md : Nat → ContextParallelMetadata,
      (∀ r < cpSize, prepareContextParallelMetadata kvLen r cpSize (some (reqs.map fun q => q.1 + q.2))
        (reqs.map snd) false = .ok (md r)) ∧
      ((range cpSize).flatMap fun r => (md r).zigzagIndex).Perm (range (reqs.length * (cpSize * 2))) ∧
      ∀ (α : Type) (zero : α) (x : List α), x.length = kvLen →
        ∃ rows, Lossless cpSize md reqs kvLen zero x rows := by
  set ext := addToLast (kvLen - (reqs.map snd).sum) (reqs.map snd) with hext
  have hlen : ext.length = reqs.length := by simp [hext]
  have hsum : ext.sum = kvLen := by
    rw [hext, sum_addToLast (by simpa using hne)]
    omega
  have hextne : ext ≠ [] := by
    grind
  refine ⟨rankMeta cpSize (reqs.map fst) ext, fun r hr => prepare_eq hr reqs hne kvLen, ?_, ?_⟩
  · rw [← hlen]
    exact (zigzag_perm hcp).2
  intro α zero x hx
  have hx : x.length = ext.sum := hx.trans hsum.symm
  have ho : (reqs.map fst).length = ext.length := by rw [length_map, hlen]
  have hstart : ∀ s < reqs.length, (ext.take s).sum = ((reqs.map snd).take s).sum := fun s hs => by
    rw [hext, take_addToLast (by simpa using hs)]
  refine ⟨rankRows cpSize ext x, ?_, ?_, ?_, ?_⟩
  · exact fun r hr => cpSplitAndRebuildData_eq hr hextne hx
  · exact fun q _ => cpAllGatherRerange_eq hcp hextne hx zero
  · rintro r hr p (_ | ⟨_, _ | ⟨_, ⟨⟩⟩⟩) s hs j hj <;> rw [← hstart s hs]
    · exact rank_prev_rows hr hx (hlen ▸ hs) ho hj
    · exact rank_next_rows hr hx (hlen ▸ hs) ho hj
  · intro r hr r' hr'
    rw [length_rankRows hr hx, length_rankRows hr' hx, ← hlen]
    exact rankTokens_balanced ext hr hr'

theorem zigzag_lossless_two_ranks :
    ∃ md : Nat → ContextParallelMetadata,
      (∀ r < 2, prepareContextParallelMetadata 9 r 2 (some ([(3, 5), (0, 2)].map fun q => q.1 + q.2))
        ([(3, 5), (0, 2)].map snd) false = .ok (md r)) ∧
      ((range 2).flatMap fun r => (md r).zigzagIndex).Perm (range (2 * (2 * 2))) ∧
      ∀ (α : Type) (zero : α) (x : List α), x.length = 9 →
        ∃ rows, Lossless 2 md [(3, 5), (0, 2)] 9 zero x rows :=
  zigzag_lossless 2 (by decide) [(3, 5), (0, 2)] (by decide) 9 (by decide)
end Sglang.Parallel
