import Sglang.Lib.Blocks

/-!
# Positions sorted by a tag

`stableArgsort tags` lists the positions of `tags` by ascending tag, equal tags in the order of the
positions.
-/

namespace Sglang
open List

section
variable (tags : List Nat)

/-- The positions of `tags` by ascending tag; the sort is stable. -/
def stableArgsort : List Nat :=
  (List.range tags.length).insertionSort fun i j => tags.getD i 0 ≤ tags.getD j 0

lemma stableArgsort_perm : (stableArgsort tags).Perm (range tags.length) :=
  perm_insertionSort _ _

@[simp] lemma length_stableArgsort : (stableArgsort tags).length = tags.length := by
  rw [(stableArgsort_perm tags).length_eq, length_range]

def sortedTags : List Nat := (stableArgsort tags).map fun i => tags.getD i 0

lemma sortedTags_sorted : (sortedTags tags).Pairwise (· ≤ ·) := by
  let byTag (i j : Nat) : Prop := tags.getD i 0 ≤ tags.getD j 0
  rw [sortedTags, pairwise_map]
  exact pairwise_insertionSort byTag _

lemma sortedTags_perm : (sortedTags tags).Perm tags := by
  have h := (stableArgsort_perm tags).map fun i => tags.getD i 0
  rwa [map_getD_range] at h

/-- The number of tags below `t`: where the run of `t` starts. -/
def tagStart (t : Nat) : Nat := tags.countP fun x => decide (x < t)
end

variable {p n t : Nat} {tags : List Nat}

lemma lt_countP_iff {xs : List Nat} (hs : xs.Pairwise (· ≤ ·)) (hp : p < xs.length)
    (t : Nat) : xs.getD p 0 < t ↔ p < xs.countP fun x => decide (x < t) := by
  induction xs generalizing p with
  | nil => simp at hp
  | cons x xs ih => ?_
  obtain ⟨hx, hs⟩ := pairwise_cons.mp hs
  by_cases hlt : x < t
  · grind
  have hnone : xs.countP (fun x => decide (x < t)) = 0 := by
    rw [countP_eq_zero]
    intro y hy
    have := hx y hy
    simp only [decide_eq_true_eq]
    omega
  cases p with
  | zero => simp [hlt, hnone]
  | succ p =>
    have := ih hs (p := p) (by simpa using hp)
    simpa [hlt, hnone] using this

lemma getD_sortedTags (hp : p < tags.length) :
    (sortedTags tags).getD p 0 = tags.getD ((stableArgsort tags).getD p 0) 0 := by
  have h : p < (stableArgsort tags).length := by simpa using hp
  simp [sortedTags, getD_eq_getElem?_getD, getElem?_eq_getElem h]

lemma tagStart_le_length (tags : List Nat) (t : Nat) : tagStart tags t ≤ tags.length :=
  countP_le_length

lemma tagStart_eq_length (h : ∀ t ∈ tags, t < n) : tagStart tags n = tags.length :=
  countP_eq_length.mpr fun t ht => decide_eq_true (h t ht)

lemma tagStart_mono {u : Nat} (h : t ≤ u) : tagStart tags t ≤ tagStart tags u := by
  refine countP_mono_left fun x _ hx => ?_
  simp only [decide_eq_true_eq] at hx ⊢
  omega

def tagAt (tags : List Nat) (p : Nat) : Nat := tags.getD ((stableArgsort tags).getD p 0) 0

lemma tagAt_lt_iff (hp : p < tags.length) (t : Nat) : tagAt tags p < t ↔ p < tagStart tags t := by
  have hlen : p < (sortedTags tags).length := by simpa [sortedTags] using hp
  rw [tagAt, ← getD_sortedTags hp, lt_countP_iff (sortedTags_sorted tags) hlen,
    (sortedTags_perm tags).countP_eq]
  rfl

lemma tagAt_eq_iff (hp : p < tags.length) (t : Nat) :
    tagAt tags p = t ↔ tagStart tags t ≤ p ∧ p < tagStart tags (t + 1) := by
  have hlo := tagAt_lt_iff hp t
  have hhi := tagAt_lt_iff hp (t + 1)
  omega

variable (tags : List Nat)

lemma tagStart_succ (t : Nat) : tagStart tags (t + 1) = tagStart tags t + tags.count t := by
  induction tags with
  | nil => rfl
  | cons x tags ih =>
    simp only [tagStart, countP_cons, count_cons, decide_eq_true_eq, beq_iff_eq] at ih ⊢
    split <;> split <;> split <;> omega

/-! ## Cumulated counts -/

def cumsum (xs : List Nat) : List Nat := (List.range xs.length).map fun i => (xs.take (i + 1)).sum

@[simp] lemma length_cumsum (xs : List Nat) : (cumsum xs).length = xs.length := by
  simp [cumsum]

def tagCounts (n : Nat) : List Nat := (List.range n).map fun t => tags.count t

lemma sum_take_tagCounts (h : t ≤ n) : ((tagCounts tags n).take t).sum = tagStart tags t := by
  induction t with
  | zero => simp [tagStart]
  | succ t ih =>
    have hget : (tagCounts tags n)[t]? = some (tags.count t) := by
      simp [tagCounts, getElem?_range (show t < n by omega)]
    rw [take_add_one, hget, sum_append, ih (by omega), tagStart_succ]
    simp

lemma getD_cumsum_tagCounts (h : t < n) :
    (cumsum (tagCounts tags n)).getD t 0 = tagStart tags (t + 1) := by
  have hlen : t < (tagCounts tags n).length := by simpa [tagCounts] using h
  rw [cumsum, getD_eq_getElem?_getD, getElem?_map, getElem?_range hlen]
  exact sum_take_tagCounts tags h

@[simp] lemma length_tagCounts (n : Nat) : (tagCounts tags n).length = n := by
  simp [tagCounts]

lemma getD_sub_tagCounts (h : t < n) :
    (zipWith (· - ·) (cumsum (tagCounts tags n)) (tagCounts tags n)).getD t 0 = tagStart tags t := by
  have hend := getD_cumsum_tagCounts tags h
  have hlen : t < (cumsum (tagCounts tags n)).length := by simpa using h
  rw [getD_eq_getElem?_getD, getElem?_eq_getElem hlen, Option.getD_some] at hend
  have hcount : (tagCounts tags n)[t]? = some (tags.count t) := by
    simp [tagCounts, getElem?_range h]
  rw [getD_eq_getElem?_getD, getElem?_zipWith, getElem?_eq_getElem hlen, hcount, hend, tagStart_succ]
  simp

variable {tags}
end Sglang
