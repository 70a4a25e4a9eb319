import Mathlib

/-!
# Values that go up along links

Each node may have a link to another one. `sendUp` combines the value of a node into that of its
link.
-/

namespace Sglang
open List
variable {M : Type} {link : Nat → Option Nat} {op : M → M → M} {l : List Nat}
  {g : Nat → M} {v t : Nat}

def sendUp (link : Nat → Option Nat) (op : M → M → M) (g : Nat → M) (v : Nat) : Nat → M :=
  match link v with
  | none => g
  | some t => Function.update g t (op (g t) (g v))

lemma sendUp_of_ne (h : link v ≠ some t) : sendUp link op g v t = g t := by
  unfold sendUp
  cases e : link v with
  | none => rfl
  | some t' =>
    grind

lemma sendUp_link (h : link v = some t) : sendUp link op g v t = op (g t) (g v) := by
  unfold sendUp
  rw [h]
  exact Function.update_self ..

variable (horder : l.Pairwise fun a b => link b ≠ some a)
include horder

variable (hself : ∀ v ∈ l, link v ≠ some v)
include hself

lemma foldl_sendUp (g : Nat → M) (t : Nat) :
    l.foldl (sendUp link op) g t =
      ((l.filter fun v => decide (link v = some t)).map (l.foldl (sendUp link op) g)).foldl op (g t) := by
  induction l generalizing g t with
  | nil => rfl
  | cons v l ih => ?_
  obtain ⟨hv, hl⟩ := pairwise_cons.mp horder
  have hself' : ∀ x ∈ l, link x ≠ some x := fun x hx => hself x (mem_cons_of_mem _ hx)
  rw [foldl_cons]
  -- nothing that comes later links to `v`
  have hval : l.foldl (sendUp link op) (sendUp link op g v) v = g v := by
    have hnone : (l.filter fun x => decide (link x = some v)) = [] :=
      filter_eq_nil_iff.mpr fun x hx => by simpa using hv x hx
    rw [ih hl hself', hnone, map_nil, foldl_nil, sendUp_of_ne (hself v mem_cons_self)]
  by_cases ht : link v = some t
  · rw [filter_cons_of_pos (by simpa using ht), map_cons, foldl_cons, hval, ih hl hself',
      sendUp_link ht]
  · rw [filter_cons_of_neg (by simpa using ht), ih hl hself', sendUp_of_ne ht]

lemma foldl_sendUp_add (g : Nat → Nat) (t : Nat) :
    l.foldl (sendUp link (· + ·)) g t =
      g t + ((l.filter fun v => decide (link v = some t)).map (l.foldl (sendUp link (· + ·)) g)).sum := by
  rw [foldl_sendUp horder hself]
  generalize (l.filter fun v => decide (link v = some t)).map (l.foldl (sendUp link (· + ·)) g) = xs
  generalize g t = a
  induction xs generalizing a with
  | nil => rfl
  | cons x xs ih => rw [foldl_cons, ih, sum_cons, Nat.add_assoc]

lemma foldl_sendUp_max [LinearOrder M] (g : Nat → M) (t : Nat) : (l.foldl (sendUp link max) g t = g t ∨
        ∃ v ∈ l, link v = some t ∧ l.foldl (sendUp link max) g t = l.foldl (sendUp link max) g v) ∧
      g t ≤ l.foldl (sendUp link max) g t ∧
      ∀ v ∈ l, link v = some t → l.foldl (sendUp link max) g v ≤ l.foldl (sendUp link max) g t := by
  obtain ⟨h1, h2⟩ := max?_eq_some_iff.mp
    (max?_cons'.trans (congrArg some (foldl_sendUp horder hself g t).symm))
  rw [mem_cons] at h1
  rw [forall_mem_cons] at h2
  refine ⟨h1.imp_right fun hm => ?_, h2.1, fun v hv hl => h2.2 _ (mem_map.mpr ⟨v, ?_, rfl⟩)⟩
  · obtain ⟨v, hv, hev⟩ := mem_map.mp hm
    obtain ⟨hvl, hlv⟩ := mem_filter.mp hv
    exact ⟨v, hvl, of_decide_eq_true hlv, hev.symm⟩
  · exact mem_filter.mpr ⟨hv, decide_eq_true hl⟩
end Sglang
