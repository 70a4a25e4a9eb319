import Mathlib

/-!
# Message exchange in rounds

Parties send messages to each other in rounds.
-/

namespace Sglang
open List

/-- Who sends and receives what, to or from whom, in which round. -/
structure Exchange (ρ τ : Type) where
  sends : ρ → ρ → Nat → List τ
  recvs : ρ → ρ → Nat → List τ
  rounds : Nat

namespace Exchange
variable {ρ τ : Type} {parties : List ρ} {x : Exchange ρ τ} {finished : ρ → Nat}

def upTo (f : Nat → List τ) (k : Nat) : List τ := (List.range k).flatMap f

section
variable (x : Exchange ρ τ) (parties : List ρ) (finished : ρ → Nat)

def posted (p : ρ) : Nat := min (finished p + 1) x.rounds

structure CanFinish (r : ρ) : Prop where
  todo : finished r < x.rounds
  sends : ∀ p ∈ parties, x.sends r p (finished r) ≠ [] →
    (upTo (x.sends r p) (finished r + 1)).length ≤ (upTo (x.recvs p r) (x.posted finished p)).length
  recvs : ∀ p ∈ parties, x.recvs r p (finished r) ≠ [] →
    (upTo (x.recvs r p) (finished r + 1)).length ≤ (upTo (x.sends p r) (x.posted finished p)).length

/-- In every round the sends from one party to another are the receives there. -/
def Matched : Prop :=
  ∀ s ∈ parties, ∀ d ∈ parties, ∀ k < x.rounds, x.sends s d k = x.recvs d s k
end

lemma upTo_congr {f g : Nat → List τ} {k : Nat} (h : ∀ i < k, f i = g i) : upTo f k = upTo g k :=
  flatMap_congr fun i hi => h i (mem_range.mp hi)

lemma length_upTo_le (f : Nat → List τ) {j k : Nat} (h : j ≤ k) :
    (upTo f j).length ≤ (upTo f k).length := by
  obtain ⟨d, rfl⟩ := Nat.exists_eq_add_of_le h
  rw [upTo, upTo, range_add, flatMap_append, length_append]
  exact Nat.le_add_right _ _

/-- As long as a party has something to do, some party can finish its round. -/
lemma progress (hm : x.Matched parties) (htodo : ∃ r ∈ parties, finished r < x.rounds) :
    ∃ r ∈ parties, x.CanFinish parties finished r := by
  obtain ⟨r₀, hr0, hlt0⟩ := htodo
  obtain ⟨r, hfirst⟩ : ∃ r, argmin finished parties = some r :=
    Option.ne_none_iff_exists'.mp (argmin_eq_none.not.mpr (ne_nil_of_mem hr0))
  have hr : r ∈ parties := argmin_mem hfirst
  have hmin : ∀ p ∈ parties, finished r ≤ finished p := fun p hp => le_of_mem_argmin hp hfirst
  have hlt : finished r < x.rounds := lt_of_le_of_lt (hmin r₀ hr0) hlt0
  have hposted : ∀ p ∈ parties, finished r + 1 ≤ x.posted finished p := fun p hp =>
    Nat.le_min.mpr ⟨Nat.succ_le_succ (hmin p hp), hlt⟩
  refine ⟨r, hr, hlt, fun p hp _ => ?_, fun p hp _ => ?_⟩
  · rw [upTo_congr fun i hi => hm r hr p hp i (by omega)]
    exact length_upTo_le _ (hposted p hp)
  · rw [upTo_congr fun i hi => (hm p hp r hr i (by omega)).symm]
    exact length_upTo_le _ (hposted p hp)

def remaining (x : Exchange ρ τ) (parties : List ρ) (finished : ρ → Nat) : Nat :=
  (parties.map fun p => x.rounds - finished p).sum

lemma remaining_finish [DecidableEq ρ] {r : ρ} (hr : r ∈ parties) (h : x.CanFinish parties finished r) :
    x.remaining parties (Function.update finished r (finished r + 1)) <
      x.remaining parties finished := by
  have hlt := h.todo
  refine sum_lt_sum _ _ (fun p _ => ?_) ⟨r, hr, ?_⟩
  · grind
  · rw [Function.update_self]
    omega
end Exchange
end Sglang
