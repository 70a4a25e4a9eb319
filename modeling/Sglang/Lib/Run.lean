import Mathlib

/-!
# Runs of a machine and their invariants

A machine has a type of states, a type of inputs and a total step function.
-/

namespace Sglang
variable {σ ι : Type} {next : σ → ι → σ} {ok ok' : σ → ι → Prop} {s₀ s : σ} {past : List ι}

/-- `past` leads from `s₀` to `s` by admitted inputs, the newest input first. -/
inductive Run (next : σ → ι → σ) (ok : σ → ι → Prop) (s₀ : σ) : List ι → σ → Prop
  | start : Run next ok s₀ [] s₀
  | step {past : List ι} {s : σ} (i : ι) :
      Run next ok s₀ past s → ok s i → Run next ok s₀ (i :: past) (next s i)

namespace Run
variable {I : List ι → σ → Prop}

/-- What holds initially and is kept by every admitted step holds along every run. -/
lemma invariant (h0 : I [] s₀) (hstep : ∀ past s i, I past s → ok s i → I (i :: past) (next s i))
    (hr : Run next ok s₀ past s) : I past s := by
  induction hr with
  | start => exact h0
  | step i _ hok ih => exact hstep _ _ i ih hok

lemma mono (h0 : I [] s₀) (hstep : ∀ past s i, I past s → ok s i → I (i :: past) (next s i))
    (himp : ∀ past s i, I past s → ok s i → ok' s i) (hr : Run next ok s₀ past s) :
    Run next ok' s₀ past s := by
  induction hr with
  | start => exact .start
  | step i hr hok ih => exact .step i ih (himp _ _ i (hr.invariant h0 hstep) hok)
end Run

/-- The inputs are admitted one after the other, the oldest first. -/
def Admitted (next : σ → ι → σ) (ok : σ → ι → Prop) : σ → List ι → Prop
  | _, [] => True
  | s, i :: is => ok s i ∧ Admitted next ok (next s i) is

instance Admitted.decidable [∀ s i, Decidable (ok s i)] :
    (s : σ) → (is : List ι) → Decidable (Admitted next ok s is)
  | _, [] => .isTrue trivial
  | s, i :: is => @instDecidableAnd _ _ _ (Admitted.decidable (next s i) is)

lemma Run.of_admitted (is : List ι) (hr : Run next ok s₀ past s) (h : Admitted next ok s is) :
    Run next ok s₀ (is.reverse ++ past) (is.foldl next s) := by
  induction is generalizing s past with
  | nil => exact hr
  | cons i is ih =>
    rw [List.reverse_cons, List.append_assoc]
    exact ih (hr.step i h.1) h.2

/-! ## Endless runs -/

variable {input : Nat → ι}

def trace (next : σ → ι → σ) (s₀ : σ) (input : Nat → ι) : Nat → σ
  | 0 => s₀
  | n + 1 => next (trace next s₀ input n) (input n)

lemma trace_until {P : σ → Prop} {A : ι → Prop} (hkeep : ∀ s i, P s → ¬A i → P (next s i)) {n : Nat}
    (h : P (trace next s₀ input n)) (hcome : ∃ m ≥ n, A (input m)) :
    ∃ m ≥ n, A (input m) ∧ P (trace next s₀ input m) := by
  obtain ⟨m, hm, hA⟩ := hcome
  obtain ⟨k, rfl⟩ := Nat.exists_eq_add_of_le hm
  clear hm
  -- by the distance to the input
  induction k generalizing n with
  | zero => exact ⟨n, le_refl n, hA, h⟩
  | succ k ih => ?_
  by_cases hn : A (input n)
  · exact ⟨n, le_refl n, hn, h⟩
  have hA' : A (input (n + 1 + k)) := by rwa [add_assoc, add_comm 1 k]
  have h' : P (trace next s₀ input (n + 1)) := hkeep _ _ h hn
  obtain ⟨m, hm, hres⟩ := ih h' hA'
  exact ⟨m, by omega, hres⟩

lemma trace_eq_of_stays {n : Nat}
    (h : ∀ m ≥ n, next (trace next s₀ input n) (input m) = trace next s₀ input n) {m : Nat}
    (hm : n ≤ m) : trace next s₀ input m = trace next s₀ input n := by
  obtain ⟨k, rfl⟩ := Nat.exists_eq_add_of_le hm
  clear hm
  induction k with
  | zero => rfl
  | succ k ih => rw [Nat.add_succ, trace, ih, h _ (Nat.le_add_right n k)]
end Sglang
