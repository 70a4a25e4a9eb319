import Mathlib

/-!
# The length of the common prefix of two lists
-/

namespace Sglang
open List
variable {α β : Type} [DecidableEq α] [DecidableEq β]

/-- The number of leading places at which two lists agree. -/
def commonLen : List α → List α → Nat
  | a :: as, b :: bs => if a = b then commonLen as bs + 1 else 0
  | _, _ => 0

variable {as bs : List α} {i : Nat}

lemma le_commonLen_iff :
    i ≤ commonLen as bs ↔ i ≤ as.length ∧ i ≤ bs.length ∧ as.take i = bs.take i := by
  fun_induction commonLen as bs generalizing i with
  | case1 as b bs ih =>
    cases i with
    | zero => simp
    | succ i => simp [ih]
  | case2 a as b bs hne =>
    cases i with
    | zero => simp
    | succ i => simp [hne]
  | case3 as bs hnil =>
    constructor
    · intro h
      obtain rfl : i = 0 := by omega
      simp
    rintro ⟨h1, h2, -⟩
    rcases as with _ | ⟨a, as⟩
    · exact h1
    cases bs with
    | nil => exact h2
    | cons b bs => exact (hnil a as b bs rfl rfl).elim

lemma commonLen_le_left : commonLen as bs ≤ as.length := (le_commonLen_iff.mp le_rfl).1

lemma commonLen_le_right : commonLen as bs ≤ bs.length := (le_commonLen_iff.mp le_rfl).2.1

lemma eq_commonLen {n : Nat}
    (h : ∀ i, i ≤ n ↔ i ≤ as.length ∧ i ≤ bs.length ∧ as.take i = bs.take i) :
    n = commonLen as bs :=
  le_antisymm (le_commonLen_iff.mpr ((h n).mp le_rfl)) ((h _).mpr (le_commonLen_iff.mp le_rfl))

lemma commonLen_take {m n : Nat} :
    commonLen (as.take m) (bs.take n) = min (commonLen as bs) (min m n) := by
  symm
  refine eq_commonLen fun i => ?_
  simp only [Nat.le_min, le_commonLen_iff, length_take, take_take]
  constructor
  · rintro ⟨⟨ha, hb, he⟩, hm, hn⟩
    rw [min_eq_left hm, min_eq_left hn]
    exact ⟨⟨hm, ha⟩, ⟨hn, hb⟩, he⟩
  · rintro ⟨⟨hm, ha⟩, ⟨hn, hb⟩, he⟩
    rw [min_eq_left hm, min_eq_left hn] at he
    exact ⟨⟨ha, hb, he⟩, hm, hn⟩

lemma commonLen_map {f : α → β} (hf : f.Injective) :
    commonLen (as.map f) (bs.map f) = commonLen as bs := by
  refine eq_commonLen fun i => ?_
  rw [le_commonLen_iff, length_map, length_map, ← map_take, ← map_take,
    (map_injective_iff.mpr hf).eq_iff]

def pairs (as : List α) : List (α × α) := as.zip as.tail

omit [DecidableEq α] in
@[simp]
lemma length_pairs : (pairs as).length = as.length - 1 := by simp [pairs]

omit [DecidableEq α] in
lemma pairs_take : pairs (as.take (i + 1)) = (pairs as).take i := by
  rw [pairs, pairs, zip_eq_zipWith, zip_eq_zipWith, take_zipWith]
  rcases as with _ | ⟨a, as⟩
  · simp
  refine ext_getElem? fun j => ?_
  grind

omit [DecidableEq α] in
lemma pairs_drop : pairs (as.drop i) = (pairs as).drop i := by
  rw [pairs, pairs, zip_eq_zipWith, zip_eq_zipWith, drop_zipWith, tail_drop, drop_tail]

omit [DecidableEq α] in
lemma pairs_take_eq_iff (ha : i + 1 ≤ as.length) (hb : i + 1 ≤ bs.length) (hi : 0 < i) :
    (pairs as).take i = (pairs bs).take i ↔ as.take (i + 1) = bs.take (i + 1) := by
  constructor
  swap
  · intro h
    rw [← pairs_take, ← pairs_take, h]
  intro h
  refine ext_getElem? fun j => ?_
  have hpair : ∀ j < i, as[j]? = bs[j]? ∧ as[j + 1]? = bs[j + 1]? := by
    intro j hj
    have := congrArg (fun l => l[j]?) h
    grind [pairs]
  rcases lt_or_ge j i with hj | hj
  · grind
  · obtain ⟨i, rfl⟩ : ∃ k, i = k + 1 := ⟨i - 1, by omega⟩
    grind

lemma commonLen_pairs : commonLen (pairs as) (pairs bs) = commonLen as bs - 1 := by
  symm
  refine eq_commonLen fun i => ?_
  rw [length_pairs, length_pairs]
  rcases i with _ | i
  · simp
  have hshift : i + 1 ≤ commonLen as bs - 1 ↔ i + 1 + 1 ≤ commonLen as bs := by omega
  rw [hshift, le_commonLen_iff]
  constructor
  · rintro ⟨ha, hb, he⟩
    exact ⟨by omega, by omega, (pairs_take_eq_iff ha hb (by omega)).mpr he⟩
  · rintro ⟨ha, hb, he⟩
    exact ⟨by omega, by omega, (pairs_take_eq_iff (by omega) (by omega) (by omega)).mp he⟩
end Sglang
