import Mathlib

/-!
# Slots in pages

A pool of slots is cut in pages of `p` slots: page `P` has the slots `P * p` to `P * p + p - 1`.
-/

namespace Sglang
open List

/-- The pages that `n` slots take, the last one perhaps in part. -/
def pagesUp (p n : Nat) : Nat := (n + p - 1) / p

def pageIds (p : Nat) (v : List Nat) : List Nat :=
  (List.range (pagesUp p v.length)).map fun j => v.getD (j * p) 0 / p

/-- Each slot is at its place in the page of the first slot of its page. -/
def Paged (p : Nat) (v : List Nat) : Prop :=
  ∀ i, i < v.length → v.getD i 0 = v.getD (i / p * p) 0 / p * p + i % p

instance (p : Nat) (v : List Nat) : Decidable (Paged p v) :=
  inferInstanceAs (Decidable (∀ i, i < v.length → _))

/-- `torch.unique`: the elements in ascending order, each once. -/
def unique (xs : List Nat) : List Nat := xs.dedup.insertionSort (· ≤ ·)

variable {p : Nat} {v a b : List Nat} {n : Nat} {m j : Nat}

lemma mem_unique {x : Nat} {xs : List Nat} : x ∈ unique xs ↔ x ∈ xs := by
  rw [unique, mem_insertionSort, mem_dedup]

lemma nodup_unique (xs : List Nat) : (unique xs).Nodup :=
  (perm_insertionSort ..).nodup_iff.mpr (nodup_dedup xs)

/-! ## Counting pages -/

variable (hp : 0 < p)
include hp

lemma pagesUp_zero : pagesUp p 0 = 0 := by
  exact Nat.div_eq_of_lt (by omega)

lemma lt_pagesUp_iff {n : Nat} : j < pagesUp p n ↔ j * p < n := by
  rw [pagesUp, Nat.lt_iff_add_one_le, Nat.le_div_iff_mul_le hp, Nat.succ_mul]
  omega

lemma pagesUp_mul_add (k n : Nat) : pagesUp p (k * p + n) = k + pagesUp p n := by
  rw [pagesUp, pagesUp, show k * p + n + p - 1 = n + p - 1 + k * p by omega,
    Nat.add_mul_div_right _ _ hp, add_comm]

lemma pagesUp_mul (k : Nat) : pagesUp p (k * p) = k := by
  have := pagesUp_mul_add hp k 0
  rwa [add_zero, pagesUp_zero hp, add_zero] at this

lemma pagesUp_of_dvd (hd : p ∣ n) : pagesUp p n = n / p := by
  obtain ⟨k, rfl⟩ := hd
  rw [Nat.mul_comm, pagesUp_mul hp, Nat.mul_div_cancel _ hp]

omit hp

lemma pagesUp_mul_add_lt {k : Nat} (h0 : 0 < m) (hm : m ≤ p) : pagesUp p (k * p + m) = k + 1 := by
  have hp : 0 < p := by omega
  rw [pagesUp_mul_add hp, pagesUp, Nat.div_eq_of_lt_le (k := 1)] <;> omega

lemma pagesUp_mono {n : Nat} (h : m ≤ n) : pagesUp p m ≤ pagesUp p n :=
  Nat.div_le_div_right (by omega)

include hp

lemma le_pagesUp_mul (n : Nat) : n ≤ pagesUp p n * p := by
  by_contra hlt
  have := (lt_pagesUp_iff hp (n := n) (j := pagesUp p n)).mpr (by omega)
  omega

lemma pagesUp_le {n k : Nat} (h : n ≤ k * p) : pagesUp p n ≤ k := by
  have := pagesUp_mono (p := p) h
  rwa [pagesUp_mul hp] at this

lemma pagesUp_mul_lt (n : Nat) : pagesUp p n * p < n + p := by
  rw [pagesUp]
  have := Nat.div_mul_le_self (n + p - 1) p
  omega

omit hp

def ceilAlign (n p : Nat) : Nat := (n + p - 1) / p * p

lemma ceilAlign_eq (n : Nat) : ceilAlign n p = pagesUp p n * p := rfl

/-! ## Cutting at a page boundary -/

@[simp]
lemma length_pageIds : (pageIds p v).length = pagesUp p v.length := by simp [pageIds]

lemma getD_pageIds (h : j < pagesUp p v.length) : (pageIds p v).getD j 0 = v.getD (j * p) 0 / p := by
  simp [pageIds, getD_eq_getElem?_getD, h]

lemma pageIds_append (hp : 0 < p) (hd : p ∣ a.length) :
    pageIds p (a ++ b) = pageIds p a ++ pageIds p b := by
  obtain ⟨k, hk⟩ := hd
  rw [Nat.mul_comm] at hk
  have hlen : pagesUp p (a ++ b).length = pagesUp p a.length + pagesUp p b.length := by
    rw [length_append, hk, pagesUp_mul_add hp, pagesUp_mul hp]
  rw [pageIds, hlen, hk, pagesUp_mul hp, range_add, map_append, map_map, pageIds,
    pageIds, hk, pagesUp_mul hp]
  congr 1
  · refine map_congr_left fun j hj => ?_
    have hj : j < k := mem_range.mp hj
    rw [getD_append _ _ _ _ (by rw [hk]; exact Nat.mul_lt_mul_of_pos_right hj hp)]
  · refine map_congr_left fun j _ => ?_
    rw [Function.comp, getD_append_right _ _ _ _ (by rw [hk, Nat.add_mul]; omega), hk,
      Nat.add_mul, Nat.add_sub_cancel_left]

namespace Paged
lemma append_iff (hp : 0 < p) (hd : p ∣ a.length) : Paged p (a ++ b) ↔ Paged p a ∧ Paged p b := by
  obtain ⟨k, hk⟩ := hd
  rw [mul_comm] at hk
  have hleft : ∀ i < a.length, i / p * p < a.length := fun i hi =>
    lt_of_le_of_lt (Nat.div_mul_le_self i p) hi
  have hright : ∀ i, (a.length + i) / p * p = a.length + i / p * p := fun i => by
    rw [hk, add_comm (k * p), Nat.add_mul_div_right _ _ hp, add_mul, add_comm]
  have hmod : ∀ i, (a.length + i) % p = i % p := fun i => by
    rw [hk, add_comm, Nat.add_mul_mod_self_right]
  have hgetL : ∀ i < a.length, (a ++ b).getD i 0 = a.getD i 0 := fun i hi =>
    getD_append _ _ _ _ hi
  have hgetR : ∀ i, (a ++ b).getD (a.length + i) 0 = b.getD i 0 := fun i => by
    grind
  constructor
  · intro h
    refine ⟨fun i hi => ?_, fun i hi => ?_⟩
    · have := h i (by rw [length_append]; omega)
      rwa [hgetL i hi, hgetL _ (hleft i hi)] at this
    · have := h (a.length + i) (by rw [length_append]; omega)
      rwa [hgetR, hright, hgetR, hmod] at this
  rintro ⟨ha, hb⟩ i hi
  rcases lt_or_ge i a.length with hlt | hge
  · rw [hgetL i hlt, hgetL _ (hleft i hlt)]
    exact ha i hlt
  · obtain ⟨j, rfl⟩ := Nat.exists_eq_add_of_le hge
    rw [hgetR, hright, hgetR, hmod]
    exact hb j (by rw [length_append] at hi; omega)

lemma nil : Paged p [] := fun _ hi => absurd hi (Nat.not_lt_zero _)

variable {k : Nat}

lemma take_drop (hp : 0 < p) (h : Paged p v) (hk : k * p ≤ v.length) :
    Paged p (v.take (k * p)) ∧ Paged p (v.drop (k * p)) := by
  rw [← append_iff hp, take_append_drop]
  · exact h
  · rw [length_take, min_eq_left hk]
    exact dvd_mul_left _ _

lemma div_eq (h : Paged p v) (hp : 0 < p) {i : Nat} (hi : i < v.length) :
    v.getD i 0 / p = (pageIds p v).getD (i / p) 0 := by
  have hlt : i / p < pagesUp p v.length :=
    (lt_pagesUp_iff hp).mpr (lt_of_le_of_lt (Nat.div_mul_le_self i p) hi)
  rw [getD_pageIds hlt, h i hi, add_comm, Nat.add_mul_div_right _ _ hp,
    Nat.div_eq_of_lt (Nat.mod_lt i hp), zero_add]

lemma mem_pages (h : Paged p v) (hp : 0 < p) {x : Nat} : x ∈ v.map (· / p) ↔ x ∈ pageIds p v := by
  rw [mem_map, pageIds, mem_map]
  constructor
  · rintro ⟨s, hs, rfl⟩
    obtain ⟨i, hi, rfl⟩ := getElem_of_mem hs
    have hlt : i / p < pagesUp p v.length :=
      (lt_pagesUp_iff hp).mpr (lt_of_le_of_lt (Nat.div_mul_le_self i p) hi)
    refine ⟨i / p, mem_range.mpr hlt, ?_⟩
    have := h.div_eq hp hi
    rw [getD_pageIds hlt, getD_eq_getElem _ _ hi] at this
    exact this.symm
  · rintro ⟨j, hj, rfl⟩
    have hlt := (lt_pagesUp_iff hp).mp (mem_range.mp hj)
    grind

lemma unique_perm (h : Paged p v) (hp : 0 < p) (hn : (pageIds p v).Nodup) :
    (unique (v.map (· / p))).Perm (pageIds p v) := by
  rw [perm_ext_iff_of_nodup (nodup_unique _) hn]
  intro x
  rw [mem_unique, h.mem_pages hp]
end Paged

include hp

lemma pageIds_take_append_drop {k : Nat} (hk : k * p ≤ v.length) :
    pageIds p v = pageIds p (v.take (k * p)) ++ pageIds p (v.drop (k * p)) := by
  rw [← pageIds_append hp, take_append_drop]
  rw [length_take, min_eq_left hk]
  exact dvd_mul_left _ _

lemma pageIds_drop {k : Nat} (hk : k * p ≤ v.length) :
    pageIds p (v.drop (k * p)) = (pageIds p v).drop k := by
  have hlen : (pageIds p (v.take (k * p))).length = k := by
    rw [length_pageIds, length_take, min_eq_left hk, pagesUp_mul hp]
  rw [pageIds_take_append_drop hp hk, drop_left' hlen]

@[simp]
lemma pageIds_nil : pageIds p [] = [] := by
  rw [pageIds, length_nil, pagesUp_zero hp]
  rfl

omit hp

lemma pageIds_one : pageIds 1 v = v := by
  refine ext_getElem (by simp [pagesUp]) fun j hj hj' => ?_
  simp only [pageIds, getElem_map, getElem_range, Nat.mul_one, Nat.div_one]
  exact getD_eq_getElem _ _ hj'

/-! ## Cutting anywhere -/

lemma Paged.take (h : Paged p v) (n : Nat) : Paged p (v.take n) := by
  intro i hi
  rw [length_take] at hi
  have hle := Nat.div_mul_le_self i p
  have hget : ∀ j ≤ i, (v.take n).getD j 0 = v.getD j 0 := fun j hj => by
    grind
  rw [hget i le_rfl, hget _ hle]
  exact h i (by omega)

lemma Paged.of_prefix (h : Paged p v) (ha : a <+: v) : Paged p a := by
  rw [prefix_iff_eq_take.mp ha]
  exact h.take _

lemma Paged.drop (h : Paged p v) (hp : 0 < p) (hd : p ∣ m) : Paged p (v.drop m) := by
  rcases lt_or_ge v.length m with hlt | hle
  · rw [drop_of_length_le (le_of_lt hlt)]
    exact .nil
  · obtain ⟨k, rfl⟩ := hd
    rw [mul_comm] at hle ⊢
    exact (h.take_drop hp hle).2

include hp

lemma pageIds_take_up (hn : n ≤ v.length) : pageIds p (v.take n) = (pageIds p v).take (pagesUp p n) := by
  have hmono := pagesUp_mono (p := p) hn
  refine ext_getElem (by simp [hn, hmono]) fun j hj _ => ?_
  rw [length_pageIds, length_take, min_eq_left hn] at hj
  have hlt : j * p < n := (lt_pagesUp_iff hp).mp hj
  simp only [getElem_map, getElem_range, getElem_take, pageIds]
  grind

lemma pageIds_cut (hn : n ≤ v.length) :
    pageIds p v = pageIds p (v.take n) ++ pageIds p (v.drop (ceilAlign n p)) := by
  rw [pageIds_take_up hp hn]
  rcases lt_or_ge v.length (ceilAlign n p) with hlt | hge
  · -- the cut is in the last page
    have hle := pagesUp_mono (p := p) (le_of_lt hlt)
    rw [ceilAlign_eq, pagesUp_mul hp] at hle
    rw [drop_of_length_le (le_of_lt hlt), pageIds_nil hp, append_nil,
      take_of_length_le (by rwa [length_pageIds])]
  · rw [ceilAlign_eq] at hge ⊢
    rw [pageIds_drop hp hge, take_append_drop]

lemma pageIds_slice {n : Nat} (hd : p ∣ m) (hm : m ≤ n) (hn : n ≤ v.length) :
    pageIds p (v.drop m) = pageIds p ((v.take n).drop m) ++ pageIds p (v.drop (ceilAlign n p)) := by
  have hceil : ceilAlign (n - m) p + m = ceilAlign n p := by
    obtain ⟨k, rfl⟩ := hd
    obtain ⟨j, rfl⟩ := Nat.exists_eq_add_of_le hm
    rw [ceilAlign_eq, ceilAlign_eq, Nat.add_sub_cancel_left, Nat.mul_comm p k, pagesUp_mul_add hp,
      Nat.add_mul, Nat.add_comm]
  rw [pageIds_cut hp (v := v.drop m) (n := n - m) (by rw [length_drop]; omega), drop_drop,
    Nat.add_comm m, hceil, drop_take]

lemma ceilAlign_of_dvd (hd : p ∣ n) : ceilAlign n p = n := by
  rw [ceilAlign_eq, pagesUp_of_dvd hp hd, Nat.div_mul_cancel hd]
end Sglang
