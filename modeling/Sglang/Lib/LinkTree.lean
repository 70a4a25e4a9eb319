import Mathlib

/-!
# Trees by first child and next sibling

The nodes of a tree are numbers; a tree is given by the list of children of every node.
-/

namespace Sglang
open List

def Chain (sibling : Nat → Int) : Int → List Nat → Prop
  | c, [] => c = -1
  | c, x :: xs => c = x ∧ Chain sibling (sibling x) xs

/-- Child lists: every node but the root is in at most one of them, once. -/
structure IsTree (n : Nat) (kids : Nat → List Nat) : Prop where
  bound : ∀ p < n, ∀ i ∈ kids p, 0 < i ∧ i < n
  nodup : ∀ p < n, (kids p).Nodup
  unique : ∀ p < n, ∀ q < n, ∀ i ∈ kids p, i ∈ kids q → p = q

/-- The tables of first children and next siblings of a tree of `n` nodes. -/
structure Encodes (n : Nat) (next sibling : Nat → Int) (kids : Nat → List Nat) : Prop where
  tree : IsTree n kids
  chain : ∀ p < n, Chain sibling (next p) (kids p)

variable {sibling : Nat → Int}

lemma Chain.congr {sibling' : Nat → Int} {c : Int} {xs : List Nat} (h : Chain sibling c xs)
    (heq : ∀ x ∈ xs, sibling' x = sibling x) : Chain sibling' c xs := by
  induction xs generalizing c with
  | nil => exact h
  | cons x xs ih =>
    refine ⟨h.1, ?_⟩
    rw [heq x mem_cons_self]
    exact ih h.2 fun y hy => heq y (mem_cons_of_mem _ hy)

lemma IsTree.length_kids {n : Nat} {kids : Nat → List Nat} (h : IsTree n kids) {p : Nat}
    (hp : p < n) : (kids p).length < n := by
  have hsub : kids p ⊆ range' 1 (n - 1) := fun i hi => by
    have := h.bound p hp i hi
    rw [mem_range'_1]
    omega
  have hlen := (subperm_of_subset (h.nodup p hp) hsub).length_le
  rw [length_range'] at hlen
  omega

def orNone (found : Option Nat) : Int := (found.map Int.ofNat).getD (-1)

lemma chain_filter {q : Nat → Bool} {n : Nat}
    (h : ∀ x < n, q x = true → sibling x = orNone ((range' (x + 1) (n - (x + 1))).find? q)) (s : Nat) :
    Chain sibling (orNone ((range' s (n - s)).find? q)) ((range' s (n - s)).filter q) := by
  by_cases hs : s < n
  swap
  · rw [show n - s = 0 by omega]
    rfl
  have hsplit : range' s (n - s) = s :: range' (s + 1) (n - (s + 1)) := by
    rw [show n - s = n - (s + 1) + 1 by omega, range'_succ]
  rw [hsplit]
  cases hq : q s with
  | true =>
    rw [find?_cons_of_pos hq, filter_cons_of_pos hq]
    refine ⟨rfl, ?_⟩
    rw [h s hs hq]
    exact chain_filter h (s + 1)
  | false =>
    rw [find?_cons_of_neg (by simp [hq]), filter_cons_of_neg (by simp [hq])]
    exact chain_filter h (s + 1)
termination_by n - s

/-! ## Paths -/

def IsPath (kids : Nat → List Nat) : Nat → List Nat → Prop
  | _, [] => True
  | v, c :: cs => c ∈ kids v ∧ IsPath kids c cs

/-- At most `k` steps down, each to the first child that passes. -/
def descend (pass : Nat → Nat → Bool) (kids : Nat → List Nat) : Nat → Nat → List Nat
  | 0, _ => []
  | k + 1, v =>
    match (kids v).find? (pass v) with
    | none => []
    | some c => c :: descend pass kids k c

/-- Each node of the path passes the test at the one above it. -/
def Passes (pass : Nat → Nat → Bool) : Nat → List Nat → Prop
  | _, [] => True
  | v, c :: cs => pass v c = true ∧ Passes pass c cs

section
variable {pass : Nat → Nat → Bool} {kids : Nat → List Nat}

lemma descend_spec (pass : Nat → Nat → Bool) (kids : Nat → List Nat) (k v : Nat) :
    IsPath kids v (descend pass kids k v) ∧ Passes pass v (descend pass kids k v) ∧
      (descend pass kids k v).length ≤ k := by
  induction k generalizing v with
  | zero => exact ⟨trivial, trivial, le_rfl⟩
  | succ k ih => ?_
  rw [descend]
  rcases hc : (kids v).find? (pass v) with _ | c
  · exact ⟨trivial, trivial, Nat.zero_le _⟩
  obtain ⟨hpath, hpass, hlen⟩ := ih c
  exact ⟨⟨mem_of_find?_eq_some hc, hpath⟩, ⟨find?_some hc, hpass⟩, Nat.succ_le_succ hlen⟩

variable {n v : Nat} {above : List Nat} {path : List Nat}

lemma IsPath.in_descend (ht : IsTree n kids) (hone : ∀ v < n, ∀ c ∈ kids v, ∀ d ∈ kids v,
    pass v c = true → pass v d = true → c = d) {k : Nat} (hv : v < n)
    (hpath : IsPath kids v path) (hpass : Passes pass v path) (hlen : path.length ≤ k) :
    path <+: descend pass kids k v := by
  induction path generalizing k v with
  | nil => exact nil_prefix
  | cons c cs ih => ?_
  obtain ⟨k, rfl⟩ : ∃ k', k = k' + 1 := ⟨k - 1, by rw [length_cons] at hlen; omega⟩
  rw [descend]
  rcases hd : (kids v).find? (pass v) with _ | d
  · exact absurd hpass.1 (by simpa using find?_eq_none.mp hd c hpath.1)
  obtain rfl : c = d :=
    hone v hv c hpath.1 d (mem_of_find?_eq_some hd) hpass.1 (find?_some hd)
  exact (prefix_cons_inj c).mpr
    (ih (ht.bound v hv c hpath.1).2 hpath.2 hpass.2 (Nat.le_of_succ_le_succ hlen))

lemma IsPath.bound (ht : IsTree n kids) (hv : v < n) (h : IsPath kids v path) : ∀ i ∈ path, i < n := by
  induction path generalizing v with
  | nil => exact nofun
  | cons c cs ih =>
    have hc := (ht.bound v hv c h.1).2
    exact forall_mem_cons.mpr ⟨hc, ih hc h.2⟩

/-- The way from the root down to `v` through `above`, without repetition. -/
structure Descent (n : Nat) (kids : Nat → List Nat) (above : List Nat) (v : Nat) : Prop where
  bound : ∀ x ∈ above ++ [v], x < n
  nodup : (above ++ [v]).Nodup
  parent : ∀ x ∈ above ++ [v], x = 0 ∨ ∃ y ∈ above, x ∈ kids y

lemma Descent.root (hn : 0 < n) : Descent n kids [] 0 :=
  ⟨by simpa using hn, by simp, by simp⟩

lemma Descent.lt (h : Descent n kids above v) : v < n :=
  h.bound v (mem_append_right _ mem_cons_self)

lemma Descent.notMem (h : Descent n kids above v) : v ∉ above :=
  fun hv => (nodup_append.mp h.nodup).2.2 v hv v mem_cons_self rfl

lemma Descent.child {c : Nat} (ht : IsTree n kids) (h : Descent n kids above v)
    (hc : c ∈ kids v) : Descent n kids (above ++ [v]) c := by
  obtain ⟨hpos, hlt⟩ := ht.bound v h.lt c hc
  have hfresh : c ∉ above ++ [v] := by
    intro hmem
    rcases h.parent c hmem with rfl | ⟨y, hy, hcy⟩
    · exact absurd hpos (lt_irrefl 0)
    · obtain rfl := ht.unique y (h.bound y (mem_append_left _ hy)) v h.lt c hcy hc
      exact h.notMem hy
  refine ⟨fun x hx => ?_, ?_, fun x hx => ?_⟩
  · rcases mem_append.mp hx with hx | hx
    · exact h.bound x hx
    · exact mem_singleton.mp hx ▸ hlt
  · exact nodup_append.mpr ⟨h.nodup, pairwise_singleton _ c,
      fun x hx y hy e => hfresh (mem_singleton.mp hy ▸ e ▸ hx)⟩
  rcases mem_append.mp hx with hx | hx
  · exact (h.parent x hx).imp_right fun ⟨y, hy, hxy⟩ => ⟨y, mem_append_left _ hy, hxy⟩
  · refine .inr ⟨v, mem_append_right _ mem_cons_self, ?_⟩
    exact mem_singleton.mp hx ▸ hc
end

/-! ## Tables in memory -/

abbrev Buffer := Int → Int
end Sglang
