import Mathlib

/-!
# Vectors, means and rankings

Vectors are lists of rationals.
-/

namespace Sglang
def dot (x y : List ℚ) : ℚ := (List.zipWith (· * ·) x y).sum

def vecAdd (x y : List ℚ) : List ℚ := List.zipWith (· + ·) x y

def vecMean : List (List ℚ) → List ℚ
  | [] => []
  | v :: vs => (vs.foldl vecAdd v).map (· / (vs.length + 1))

structure Ranking (α : Type) [LE α] where
  order : List α → List Nat
  perm : ∀ xs, (order xs).Perm (List.range xs.length)
  sorted : ∀ xs, (order xs).Pairwise fun i j =>
    ∀ x y, xs[i]? = some x → xs[j]? = some y → y ≤ x

namespace Ranking
def topk {α : Type} [LE α] (r : Ranking α) (k : Nat) (xs : List α) : List Nat := (r.order xs).take k

variable {α : Type} [LinearOrder α]

def before (xs : List α) (i j : Nat) : Bool :=
  match xs[i]?, xs[j]? with
  | some x, some y => decide (y ≤ x)
  | some _, none => true
  | none, some _ => false
  | none, none => true

lemma before_total (xs : List α) (i j : Nat) : before xs i j ∨ before xs j i := by
  unfold before
  cases xs[i]? <;> cases xs[j]? <;> simp [le_total]

lemma before_trans (xs : List α) {i j k : Nat} (hij : before xs i j) (hjk : before xs j k) :
    before xs i k := by
  unfold before at *
  grind

def stable : Ranking α where
  order xs := (List.range xs.length).insertionSort fun i j => before xs i j
  perm xs := List.perm_insertionSort _ _
  sorted xs := by
    have : Std.Total fun i j => before xs i j = true := ⟨before_total xs⟩
    have : IsTrans Nat fun i j => before xs i j = true := ⟨fun _ _ _ => before_trans xs⟩
    refine (List.pairwise_insertionSort (fun i j => before xs i j = true) _).imp ?_
    intro i j h x y hx hy
    simpa [before, hx, hy] using h
end Ranking
end Sglang
