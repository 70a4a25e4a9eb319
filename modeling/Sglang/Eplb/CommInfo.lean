import Sglang.Eplb.ExpertLocation

/-!
# The assignment of receivers to senders

Each rank decides by itself from whom it receives an expert and to whom it sends one.
-/

namespace Sglang.Eplb
open List

lemma chunkIndex_spec {M K i : Nat} (hK : 0 < K) (hi : i < M) :
    chunkIndexFromElementIndex M K i < K ∧ ∀ c < K, (chunkIndexFromElementIndex M K i = c ↔
      (elementSliceFromChunkIndex M K c).1 ≤ i ∧ i < (elementSliceFromChunkIndex M K c).2) := by
  have hsplit := Nat.div_add_mod M K
  have hr := Nat.mod_lt M hK
  rw [chunkIndexFromElementIndex]
  dsimp only [elementSliceFromChunkIndex]
  generalize M / K = q at hsplit ⊢
  generalize M % K = r at hsplit hr ⊢
  have hlong : r * (q + 1) = r * q + r := Nat.mul_succ r q
  by_cases hi' : i < r * (q + 1)
  · rw [if_pos hi']
    have hlt : i / (q + 1) < r := Nat.div_lt_of_lt_mul (by rwa [mul_comm])
    refine ⟨by omega, fun c hc => ?_⟩
    by_cases hcr : c < r
    · rw [if_pos hcr, min_eq_left (le_of_lt hcr), Nat.div_eq_iff (show 0 < q + 1 by omega)]
      grind
    · have : r * q ≤ c * q := Nat.mul_le_mul_right q (by omega)
      omega
  rw [if_neg hi']
  have hq : 0 < q := by
    grind
  have hKq : K * q = r * q + (K - r) * q := by
    rw [← add_mul]
    congr 1
    omega
  have hlt : (i - r * (q + 1)) / q < K - r := (Nat.div_lt_iff_lt_mul hq).mpr (by omega)
  refine ⟨by omega, fun c hc => ?_⟩
  by_cases hcr : c < r
  · rw [if_pos hcr, min_eq_left (le_of_lt hcr)]
    have hstop : (c + 1) * (q + 1) ≤ r * (q + 1) := Nat.mul_le_mul_right _ hcr
    grind
  · obtain ⟨t, rfl⟩ := Nat.exists_eq_add_of_le (Nat.le_of_not_lt hcr)
    rw [if_neg hcr, min_eq_right (by omega), Nat.add_left_cancel_iff, Nat.div_eq_iff hq]
    grind

lemma mem_slice {xs : List Nat} {start stop v : Nat} : v ∈ (xs.take stop).drop start ↔
    ∃ i, ∃ hi : i < xs.length, start ≤ i ∧ i < stop ∧ xs[i] = v := by
  constructor
  · intro hv
    obtain ⟨j, hj, rfl⟩ := mem_iff_getElem.mp hv
    grind
  rintro ⟨i, hi, hstart, hstop, rfl⟩
  refine mem_iff_getElem.mpr ⟨i - start, ?_, ?_⟩
  · rw [length_drop, length_take]
    omega
  grind

namespace ChunkUtils
variable {u : ChunkUtils}
variable (hnd : u.elementValues.Nodup)
include hnd

lemma chunkValueFromElementValue_getElem (hK : 0 < u.chunkValues.length)
    {i : Nat} (hi : i < u.elementValues.length) : u.chunkValueFromElementValue u.elementValues[i] =
      u.chunkValues[chunkIndexFromElementIndex u.elementValues.length u.chunkValues.length i]? := by
  have hidx : u.elementValues.idxOf? u.elementValues[i] = some i := by
    refine idxOf?_eq_some_iff.mpr ⟨hi, rfl, fun j hj heq => ?_⟩
    have := hnd.getElem_inj_iff.mp heq
    omega
  rw [chunkValueFromElementValue, hidx, Option.bind_eq_bind, Option.bind_some]
  exact if_neg (by omega)

lemma elementValues_spec (hnd' : u.chunkValues.Nodup) {c : Nat} (hc : c ∈ u.chunkValues) :
    ∃ vs, u.elementValuesFromChunkValue c = some vs ∧ vs.Nodup ∧
      ∀ v, v ∈ vs ↔ v ∈ u.elementValues ∧ u.chunkValueFromElementValue v = some c := by
  have hK : 0 < u.chunkValues.length := length_pos_of_mem hc
  rw [elementValuesFromChunkValue]
  by_cases hempty : u.elementValues.length = 0
  · grind
  rw [if_neg hempty]
  obtain ⟨k, hk⟩ := Option.isSome_iff_exists.mp (show (u.chunkValues.idxOf? c).isSome by
    grind)
  obtain ⟨hklt, rfl, -⟩ := idxOf?_eq_some_iff.mp hk
  rw [hk]
  refine ⟨_, rfl, (hnd.sublist (take_sublist ..)).sublist (drop_sublist ..), fun v => ?_⟩
  rw [mem_slice]
  constructor
  · rintro ⟨i, hi, hstart, hstop, rfl⟩
    have hchunk := ((chunkIndex_spec hK hi).2 k hklt).mpr ⟨hstart, hstop⟩
    refine ⟨getElem_mem _, ?_⟩
    rw [chunkValueFromElementValue_getElem hnd hK hi, hchunk, getElem?_eq_getElem hklt]
  rintro ⟨hv, hchunk⟩
  obtain ⟨i, hi, rfl⟩ := mem_iff_getElem.mp hv
  rw [chunkValueFromElementValue_getElem hnd hK hi] at hchunk
  obtain ⟨hlt, hval⟩ := List.getElem?_eq_some_iff.mp hchunk
  obtain ⟨hstart, hstop⟩ :=
    ((chunkIndex_spec hK hi).2 k hklt).mp (hnd'.getElem_inj_iff.mp hval)
  exact ⟨i, hi, hstart, hstop, rfl⟩

lemma chunkValue_spec (hK : u.chunkValues ≠ []) {v : Nat}
    (hv : v ∈ u.elementValues) : ∃ c ∈ u.chunkValues, u.chunkValueFromElementValue v = some c := by
  have hlen : 0 < u.chunkValues.length := length_pos_of_ne_nil hK
  obtain ⟨i, hi, rfl⟩ := mem_iff_getElem.mp hv
  have hlt := (chunkIndex_spec hlen hi).1
  refine ⟨_, getElem_mem hlt, ?_⟩
  rw [chunkValueFromElementValue_getElem hnd hlen hi, getElem?_eq_getElem hlt]
end ChunkUtils

/-- In a sorted list, removing neighbours that are equal removes all duplicates. -/
lemma deduplicateOrdered_spec {arr : List Nat} (h : arr.Pairwise (· ≤ ·)) :
    (deduplicateOrdered arr).Pairwise (· < ·) ∧ ∀ x, x ∈ deduplicateOrdered arr ↔ x ∈ arr := by
  have key : ∀ (arr out : List Nat), arr.Pairwise (· ≤ ·) → out.Pairwise (· < ·) →
      (∀ x ∈ out, ∀ y ∈ arr, x ≤ y) →
      (arr.foldl (fun output item =>
        if output.getLast? = some item then output else output ++ [item]) out).Pairwise (· < ·) ∧
      ∀ x, x ∈ arr.foldl (fun output item =>
        if output.getLast? = some item then output else output ++ [item]) out ↔ x ∈ out ∨ x ∈ arr := by
    intro arr
    induction arr with
    | nil => exact fun out _ hout _ => ⟨hout, by simp⟩
    | cons y arr ih => ?_
    intro out harr hout hle
    obtain ⟨hy, harr⟩ := pairwise_cons.mp harr
    have hle' : ∀ x ∈ out, x ≤ y := fun x hx => hle x hx y mem_cons_self
    rw [foldl_cons]
    by_cases hlast : out.getLast? = some y
    · rw [if_pos hlast]
      obtain ⟨hsorted, hmem⟩ := ih out harr hout fun x hx z hz => hle x hx z (mem_cons_of_mem _ hz)
      refine ⟨hsorted, fun x => (hmem x).trans ?_⟩
      have hyout : y ∈ out := mem_of_getLast? hlast
      rw [mem_cons]
      constructor
      · rintro (hx | hx)
        · exact .inl hx
        · exact .inr (.inr hx)
      rintro (hx | rfl | hx)
      · exact .inl hx
      · exact .inl hyout
      · exact .inr hx
    rw [if_neg hlast]
    -- the last element is the largest, so that `y` is larger than all
    have hlt : ∀ x ∈ out, x < y := by
      intro x hx
      refine lt_of_le_of_ne (hle' x hx) ?_
      rintro rfl
      obtain rfl | ⟨init, last, rfl⟩ := eq_nil_or_concat out
      · cases hx
      rw [concat_eq_append] at hlast hx hout hle'
      rw [getLast?_append_of_ne_nil _ (by simp)] at hlast
      rcases mem_append.mp hx with hinit | hx
      · have h1 := (pairwise_append.mp hout).2.2 x hinit last mem_cons_self
        have h2 := hle' last (mem_append_right _ mem_cons_self)
        omega
      · exact hlast (by rw [mem_singleton.mp hx]; rfl)
    obtain ⟨hsorted, hmem⟩ := ih (out ++ [y]) harr
      (pairwise_append.mpr ⟨hout, pairwise_singleton .., fun x hx z hz => by
        rw [mem_singleton.mp hz]
        exact hlt x hx⟩)
      (fun x hx z hz => by
        rcases mem_append.mp hx with hx | hx
        · exact hle x hx z (mem_cons_of_mem _ hz)
        · rw [mem_singleton.mp hx]
          exact hy z hz)
    refine ⟨hsorted, fun x => (hmem x).trans ?_⟩
    rw [mem_append, mem_singleton, mem_cons, or_assoc]
  obtain ⟨hsorted, hmem⟩ := key arr [] h List.Pairwise.nil (nofun)
  exact ⟨hsorted, fun x => (hmem x).trans (by simp)⟩

namespace Relocation
variable {m : Relocation} {e : Nat}

def Holds (m : Relocation) (rank e : Nat) : Prop := ∃ x ∈ m.localRange rank, m.oldAt x = some e

def Wants (m : Relocation) (rank e : Nat) : Prop := ∃ x ∈ m.localRange rank, m.newAt x = some e

variable {x r node : Nat}

lemma mem_localRange {rank : Nat} : x ∈ m.localRange rank ↔ rank * m.numLocalPhysicalExperts ≤ x ∧
      x < rank * m.numLocalPhysicalExperts + m.numLocalPhysicalExperts := by
  rw [localRange, mem_range'_1]

lemma rankOf_eq {rank : Nat} (h : x ∈ m.localRange rank) : m.rankOf x = rank := by
  have hx := mem_localRange.mp h
  rw [rankOf, Nat.div_eq_iff (by omega)]
  omega

lemma mem_localRange_rankOf (hx : x < m.numPhysicalExperts) : x ∈ m.localRange (m.rankOf x) := by
  have hpos : 0 < m.numLocalPhysicalExperts := by
    rw [numPhysicalExperts, m.old_length] at hx
    exact Nat.pos_of_mul_pos_left (Nat.zero_lt_of_lt hx)
  have hmod := Nat.mod_lt x hpos
  have hdiv := Nat.div_add_mod x m.numLocalPhysicalExperts
  rw [mem_localRange, rankOf, mul_comm]
  omega

lemma oldAt_lt (h : m.oldAt x = some e) : x < m.numPhysicalExperts :=
  (List.getElem?_eq_some_iff.mp h).1

lemma newAt_lt (h : m.newAt x = some e) : x < m.numPhysicalExperts := by
  have := (List.getElem?_eq_some_iff.mp h).1
  rwa [m.new_length, ← m.old_length] at this

lemma deduplicate_ranks (p : Nat → Bool) (k : Nat) :
    (deduplicateOrdered (((range k).filter p).map m.rankOf)).Pairwise (· < ·) ∧
      ∀ r, r ∈ deduplicateOrdered (((range k).filter p).map m.rankOf) ↔
        ∃ x < k, p x = true ∧ m.rankOf x = r := by
  have hsorted : (((range k).filter p).map m.rankOf).Pairwise (· ≤ ·) := by
    refine pairwise_map.mpr ((pairwise_lt_range.filter p).imp fun h => ?_)
    exact Nat.div_le_div_right (le_of_lt h)
  obtain ⟨h1, h2⟩ := deduplicateOrdered_spec hsorted
  refine ⟨h1, fun r => (h2 r).trans ?_⟩
  simp only [mem_map, mem_filter, mem_range, and_assoc]

lemma mem_allSrcRanks : r ∈ m.allSrcRanks e ↔ m.Holds r e := by
  rw [allSrcRanks, (deduplicate_ranks ..).2]
  constructor
  · rintro ⟨x, hx, hold, rfl⟩
    exact ⟨x, mem_localRange_rankOf hx, of_decide_eq_true hold⟩
  · rintro ⟨x, hx, hold⟩
    exact ⟨x, oldAt_lt hold, decide_eq_true hold, rankOf_eq hx⟩

lemma mem_needCommDstRanks : r ∈ m.needCommDstRanks e ↔ m.Wants r e ∧ ¬ m.Holds r e := by
  rw [needCommDstRanks, (deduplicate_ranks ..).2]
  constructor
  · rintro ⟨x, hx, hcond, rfl⟩
    obtain ⟨hnew, hout⟩ := of_decide_eq_true hcond
    exact ⟨⟨x, mem_localRange_rankOf hx, hnew⟩, mt mem_allSrcRanks.mpr hout⟩
  rintro ⟨⟨x, hx, hnew⟩, hout⟩
  refine ⟨x, newAt_lt hnew, decide_eq_true ⟨hnew, fun hin => ?_⟩, rankOf_eq hx⟩
  rw [rankOf_eq hx] at hin
  exact hout (mem_allSrcRanks.mp hin)

lemma nodup_allSrcRanks (m : Relocation) (e : Nat) : (m.allSrcRanks e).Nodup :=
  (deduplicate_ranks ..).1.imp fun h => ne_of_lt h

lemma nodup_needCommDstRanks (m : Relocation) (e : Nat) : (m.needCommDstRanks e).Nodup :=
  (deduplicate_ranks ..).1.imp fun h => ne_of_lt h

def NodeHolds (m : Relocation) (node e : Nat) : Prop := ∃ s, m.Holds s e ∧ m.nodeOf s = node

lemma mem_selfNodeSrcRanks :
    r ∈ (m.computeCommInfo node e).sameNodeMapping.chunkValues ↔ m.Holds r e ∧ m.nodeOf r = node := by
  rw [computeCommInfo, mem_filter, mem_allSrcRanks, decide_eq_true_iff]

lemma mem_needCommSelfNodeDstRanks : r ∈ (m.computeCommInfo node e).needCommSelfNodeDstRanks ↔
      m.NodeHolds node e ∧ r ∈ m.needCommDstRanks e ∧ m.nodeOf r = node := by
  have hnode : ((m.allSrcRanks e).filter fun x => m.nodeOf x = node).length > 0 ↔
      m.NodeHolds node e := by
    rw [gt_iff_lt, length_pos_iff_exists_mem]
    exact exists_congr fun s => mem_selfNodeSrcRanks
  rw [computeCommInfo]
  grind

lemma mem_needCommCrossNodeDstRanks : r ∈ (m.computeCommInfo node e).crossNodeMapping.elementValues ↔
      r ∈ m.needCommDstRanks e ∧ ¬ m.NodeHolds (m.nodeOf r) e := by
  rw [computeCommInfo, mem_filter, decide_eq_true_iff, mem_map]
  refine and_congr_right fun _ => not_congr (exists_congr fun s => ?_)
  rw [mem_allSrcRanks]

lemma nodup_sameNode (m : Relocation) (node e : Nat) :
    (m.computeCommInfo node e).sameNodeMapping.chunkValues.Nodup ∧
      (m.computeCommInfo node e).sameNodeMapping.elementValues.Nodup := by
  refine ⟨(m.nodup_allSrcRanks e).filter _, ?_⟩
  rw [computeCommInfo]
  split
  · exact (m.nodup_needCommDstRanks e).filter _
  · exact nodup_nil

lemma nodup_crossNode (m : Relocation) (node e : Nat) :
    (m.computeCommInfo node e).crossNodeMapping.chunkValues.Nodup ∧
      (m.computeCommInfo node e).crossNodeMapping.elementValues.Nodup :=
  ⟨m.nodup_allSrcRanks e, (m.nodup_needCommDstRanks e).filter _⟩

lemma chosenSrcRank_spec {d : Nat} (hd : d ∈ m.needCommDstRanks e) (he : ∃ s, m.Holds s e) :
    ∃ s, m.chosenSrcRank d e = some s ∧ m.Holds s e := by
  obtain ⟨s₀, hs0⟩ := he
  rw [chosenSrcRank]
  by_cases hself : d ∈ (m.computeCommInfo (m.nodeOf d) e).needCommSelfNodeDstRanks
  · rw [if_pos hself]
    obtain ⟨⟨s₁, hs1⟩, -⟩ := mem_needCommSelfNodeDstRanks.mp hself
    obtain ⟨s, hs, hchosen⟩ := ChunkUtils.chunkValue_spec (nodup_sameNode m (m.nodeOf d) e).2
      (ne_nil_of_mem (mem_selfNodeSrcRanks.mpr hs1)) hself
    exact ⟨s, hchosen, (mem_selfNodeSrcRanks.mp hs).1⟩
  rw [if_neg hself]
  have hcross : d ∈ (m.computeCommInfo (m.nodeOf d) e).crossNodeMapping.elementValues := by
    refine mem_needCommCrossNodeDstRanks.mpr ⟨hd, fun hnode => hself ?_⟩
    exact mem_needCommSelfNodeDstRanks.mpr ⟨hnode, hd, rfl⟩
  obtain ⟨s, hs, hchosen⟩ := ChunkUtils.chunkValue_spec (nodup_crossNode m (m.nodeOf d) e).2
    (ne_nil_of_mem (mem_allSrcRanks.mpr hs0)) hcross
  exact ⟨s, hchosen, mem_allSrcRanks.mp hs⟩

lemma mem_allDstRanks {s : Nat} (hs : m.Holds s e) : ∃ ds, m.allDstRanks s e = some ds ∧ ds.Nodup ∧
      ∀ d, d ∈ ds ↔ d ∈ m.needCommDstRanks e ∧ m.chosenSrcRank d e = some s := by
  have hnode : m.NodeHolds (m.nodeOf s) e := ⟨s, hs, rfl⟩
  obtain ⟨same, hsame, hnd, hmem⟩ := ChunkUtils.elementValues_spec
    (nodup_sameNode m (m.nodeOf s) e).2 (nodup_sameNode m (m.nodeOf s) e).1
    (mem_selfNodeSrcRanks.mpr ⟨hs, rfl⟩)
  obtain ⟨cross, hcross, hnd', hmem'⟩ := ChunkUtils.elementValues_spec
    (nodup_crossNode m (m.nodeOf s) e).2 (nodup_crossNode m (m.nodeOf s) e).1
    (mem_allSrcRanks.mpr hs)
  have helem : ∀ d, d ∈ (m.computeCommInfo (m.nodeOf s) e).sameNodeMapping.elementValues ↔
      d ∈ m.needCommDstRanks e ∧ m.nodeOf d = m.nodeOf s := fun d =>
    mem_needCommSelfNodeDstRanks.trans (and_iff_right hnode)
  refine ⟨same ++ cross, by rw [allDstRanks, hsame, hcross]; rfl, ?_, fun d => ?_⟩
  · -- a node with the expert is served by the mapping of the node, the others by the other mapping
    refine nodup_append.mpr ⟨hnd, hnd', fun d hd d' hd' heq => ?_⟩
    subst heq
    obtain ⟨-, hnode'⟩ := (helem d).mp ((hmem d).mp hd).1
    obtain ⟨-, hout⟩ := mem_needCommCrossNodeDstRanks.mp ((hmem' d).mp hd').1
    exact hout (hnode' ▸ hnode)
  rw [mem_append, hmem, hmem', helem, mem_needCommCrossNodeDstRanks, chosenSrcRank]
  by_cases hself : d ∈ (m.computeCommInfo (m.nodeOf d) e).needCommSelfNodeDstRanks
  · obtain ⟨hheld, hneed, -⟩ := mem_needCommSelfNodeDstRanks.mp hself
    rw [if_pos hself]
    constructor
    · grind
    rintro ⟨-, hchosen⟩
    -- the chosen rank is on the node of `d`
    obtain ⟨c, hc, hchosen'⟩ := ChunkUtils.chunkValue_spec (nodup_sameNode m (m.nodeOf d) e).2
      (by
        obtain ⟨s₁, hs1⟩ := hheld
        exact ne_nil_of_mem (mem_selfNodeSrcRanks.mpr hs1)) hself
    obtain rfl : s = c := Option.some.inj (hchosen.symm.trans hchosen')
    have hnode' : m.nodeOf s = m.nodeOf d := (mem_selfNodeSrcRanks.mp hc).2
    grind
  rw [if_neg hself]
  have hout : d ∈ m.needCommDstRanks e → ¬ m.NodeHolds (m.nodeOf d) e := fun hneed hheld =>
    hself (mem_needCommSelfNodeDstRanks.mpr ⟨hheld, hneed, rfl⟩)
  constructor
  · rintro (⟨⟨hneed, hnode'⟩, -⟩ | ⟨⟨hneed, -⟩, hchosen⟩)
    · exact absurd (hnode' ▸ hnode) (hout hneed)
    · exact ⟨hneed, hchosen⟩
  · rintro ⟨hneed, hchosen⟩
    exact .inr ⟨⟨hneed, hout hneed⟩, hchosen⟩
end Relocation
end Sglang.Eplb
