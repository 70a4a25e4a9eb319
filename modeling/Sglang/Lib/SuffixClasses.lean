import Mathlib

/-!
# Automata of the parts of a word

`EndsAt w u i` says that an occurrence of `u` in `w` ends at `i`.
-/

namespace Sglang
open List Function
open Function (update)
open Set (mem_insert mem_insert_iff mem_insert_of_mem)
variable {α : Type}

lemma snoc_suffix_concat {w u : List α} {c d : α} : u ++ [d] <:+ w ++ [c] ↔ u <:+ w ∧ d = c := by
  rw [← reverse_prefix, reverse_append, reverse_append, ← reverse_prefix]
  simp [cons_prefix_cons, and_comm]

def EndsAt (w u : List α) (i : Nat) : Prop := i ≤ w.length ∧ u <:+ w.take i

namespace EndsAt
variable {w u v : List α} {i : Nat} {c d : α}

lemma length_le (h : EndsAt w u i) : u.length ≤ i := by
  have := h.2.length_le
  grind

lemma of_suffix (h : EndsAt w u i) (hv : v <:+ u) : EndsAt w v i := ⟨h.1, hv.trans h.2⟩

lemma suffix (h : EndsAt w u i) (h' : EndsAt w v i) (hl : u.length ≤ v.length) : u <:+ v :=
  suffix_of_suffix_length_le h.2 h'.2 hl

lemma nil (hi : i ≤ w.length) : EndsAt w [] i := ⟨hi, nil_suffix⟩

lemma whole_iff : EndsAt w u w.length ↔ u <:+ w := by simp [EndsAt]

lemma of_whole (h : u <:+ w) : EndsAt w u w.length := whole_iff.mpr h

lemma concat_iff : EndsAt (w ++ [c]) u i ↔ EndsAt w u i ∨ i = w.length + 1 ∧ u <:+ w ++ [c] := by
  unfold EndsAt
  rw [length_append, length_singleton]
  constructor
  · rintro ⟨hi, hu⟩
    by_cases hlt : i ≤ w.length
    · rw [take_append_of_le_length hlt] at hu
      exact .inl ⟨hlt, hu⟩
    · obtain rfl : i = w.length + 1 := by omega
      rw [take_of_length_le (by simp)] at hu
      exact .inr ⟨rfl, hu⟩
  rintro (⟨hi, hu⟩ | ⟨rfl, hu⟩)
  · rw [take_append_of_le_length hi]
    exact ⟨by omega, hu⟩
  · rw [take_of_length_le (by simp)]
    exact ⟨le_rfl, hu⟩

lemma concat_of_le (hi : i ≤ w.length) : EndsAt (w ++ [c]) u i ↔ EndsAt w u i := by
  rw [concat_iff]
  grind

lemma snoc_iff : EndsAt w (u ++ [d]) (i + 1) ↔ EndsAt w u i ∧ w[i]? = some d := by
  unfold EndsAt
  by_cases hi : i < w.length
  · rw [take_add_one, getElem?_eq_getElem hi, Option.toList_some, snoc_suffix_concat]
    grind
  constructor
  · omega
  · rintro ⟨-, hd⟩
    rw [getElem?_eq_none (by omega)] at hd
    cases hd

lemma snoc_pos (h : EndsAt w (u ++ [d]) i) : ∃ j, i = j + 1 := by
  have := h.length_le
  rw [length_append, length_singleton] at this
  exact ⟨i - 1, by omega⟩

lemma exists_iff : (∃ i, EndsAt w u i) ↔ u <:+: w := by
  constructor
  · rintro ⟨i, -, hu⟩
    exact hu.isInfix.trans (List.take_prefix ..).isInfix
  · rintro ⟨a, b, rfl⟩
    refine ⟨(a ++ u).length, by simp, a, ?_⟩
    rw [take_left]
end EndsAt

/-! ## Automata -/

/-- States with their longest words, links and transitions. -/
structure WordAutomaton (α : Type) where
  states : Set Nat
  word : Nat → List α
  link : Nat → Option Nat
  next : Nat → α → Option Nat

namespace WordAutomaton
variable {A : WordAutomaton α} {w u : List α} {v t q k i : Nat} {c d : α}

section
variable (A : WordAutomaton α) (w : List α)

structure InClass (v : Nat) (u : List α) : Prop where
  mem : v ∈ A.states
  suffix : u <:+ A.word v
  long : ∀ t, A.link v = some t → (A.word t).length < u.length

/-- The classes are the parts of `w`, and the transitions lead from class to class. -/
structure Reads : Prop where
  root : 0 ∈ A.states ∧ A.word 0 = [] ∧ A.link 0 = none
  link_mem : ∀ v ∈ A.states, v ≠ 0 →
    ∃ t ∈ A.states, A.link v = some t ∧ A.word t <:+ A.word v ∧ (A.word t).length < (A.word v).length
  occurs : ∀ v ∈ A.states, ∃ i, EndsAt w (A.word v) i
  same : ∀ v u i, A.InClass v u → EndsAt w u i → EndsAt w (A.word v) i
  cover : ∀ u i, EndsAt w u i → ∃ v, A.InClass v u
  unique : ∀ v t u, A.InClass v u → A.InClass t u → v = t
  step : ∀ v u d i, A.InClass v u → EndsAt w (u ++ [d]) i → ∃ t, A.next v d = some t ∧ A.InClass t (u ++ [d])
  step_occurs : ∀ v ∈ A.states, ∀ d t, A.next v d = some t → ∃ i, EndsAt w (A.word v ++ [d]) i

/-- The word of a link ends where the word itself does not. -/
def Strict : Prop :=
  ∀ v ∈ A.states, ∀ t, A.link v = some t → ∃ i, EndsAt w (A.word t) i ∧ ¬EndsAt w (A.word v) i
end

def run (A : WordAutomaton α) : Nat → List α → Option Nat
  | v, [] => some v
  | v, c :: cs => (A.next v c).bind fun t => A.run t cs

lemma run_append (v : Nat) (u u' : List α) : A.run v (u ++ u') =
    (A.run v u).bind fun t => A.run t u' := by
  induction u generalizing v with
  | nil => rfl
  | cons c u ih =>
    rw [cons_append, run, run]
    cases A.next v c with
    | none => rfl
    | some t => exact ih t

namespace Reads
variable (h : A.Reads w)
include h

lemma link_spec (hv : v ∈ A.states) (ht : A.link v = some t) :
    t ∈ A.states ∧ A.word t <:+ A.word v ∧ (A.word t).length < (A.word v).length := by
  have h0 : v ≠ 0 := by
    rintro rfl
    rw [h.root.2.2] at ht
    cases ht
  obtain ⟨t', hm, e, hs⟩ := h.link_mem v hv h0
  obtain rfl := Option.some.inj (ht.symm.trans e)
  exact ⟨hm, hs⟩

lemma inClass_word (hv : v ∈ A.states) : A.InClass v (A.word v) :=
  ⟨hv, suffix_rfl, fun _ ht => (h.link_spec hv ht).2.2⟩

lemma inClass_root : A.InClass 0 [] := by
  have := h.inClass_word h.root.1
  rwa [h.root.2.1] at this

lemma word_inj (hv : v ∈ A.states) (ht : t ∈ A.states) (e : A.word v = A.word t) : v = t :=
  h.unique v t _ (h.inClass_word hv) (e ▸ h.inClass_word ht)

lemma endsAt_iff (hc : A.InClass v u) : EndsAt w u i ↔ EndsAt w (A.word v) i :=
  ⟨h.same v u i hc, fun he => he.of_suffix hc.suffix⟩

lemma step_class (hc : A.InClass v u) (ht : A.next v d = some t) : A.InClass t (u ++ [d]) := by
  obtain ⟨i, hi⟩ := h.step_occurs v hc.mem d t ht
  have hi' : EndsAt w (u ++ [d]) i := by
    obtain ⟨j, rfl⟩ := hi.snoc_pos
    rw [EndsAt.snoc_iff] at hi ⊢
    exact ⟨(h.endsAt_iff hc).mpr hi.1, hi.2⟩
  obtain ⟨t', e, hc'⟩ := h.step v u d i hc hi'
  rw [ht] at e
  exact Option.some.inj e ▸ hc'

lemma run_iff : A.run 0 u = some v ↔ (∃ i, EndsAt w u i) ∧ A.InClass v u := by
  induction u using reverseRecOn generalizing v with
  | nil =>
    constructor
    · intro e
      cases e
      exact ⟨⟨0, .nil (Nat.zero_le _)⟩, h.inClass_root⟩
    · rintro ⟨-, hc⟩
      rw [run, h.unique v 0 [] hc h.inClass_root]
  | append_singleton u d ih => ?_
  rw [run_append, Option.bind_eq_some_iff]
  constructor
  · rintro ⟨t, ht, hr⟩
    obtain ⟨-, hc⟩ := ih.mp ht
    obtain ⟨t', hn, e⟩ := Option.bind_eq_some_iff.mp hr
    obtain rfl := Option.some.inj e
    have hc' := h.step_class hc hn
    obtain ⟨i, hi⟩ := h.occurs t' hc'.mem
    exact ⟨⟨i, hi.of_suffix hc'.suffix⟩, hc'⟩
  rintro ⟨⟨i, hi⟩, hc⟩
  obtain ⟨j, rfl⟩ := hi.snoc_pos
  have hu := (EndsAt.snoc_iff.mp hi).1
  obtain ⟨t, ht⟩ := h.cover u j hu
  obtain ⟨t', hn, hc'⟩ := h.step t u d _ ht hi
  refine ⟨t, ih.mpr ⟨⟨j, hu⟩, ht⟩, ?_⟩
  rw [run, hn, Option.bind_some, run, h.unique v t' _ hc hc']

lemma run_eq_iff (hs : A.Strict w) {u u' : List α} (hu : A.run 0 u = some v)
    (hu' : A.run 0 u' = some t) : v = t ↔ ∀ i, EndsAt w u i ↔ EndsAt w u' i := by
  obtain ⟨⟨i, hi⟩, hc⟩ := h.run_iff.mp hu
  obtain ⟨-, hc'⟩ := h.run_iff.mp hu'
  constructor
  · rintro rfl j
    rw [h.endsAt_iff hc, h.endsAt_iff hc']
  intro hall
  -- the shorter of the two longest words lies in the class of the other one
  have key : ∀ v t u u', A.InClass v u → A.InClass t u' → (∀ i, EndsAt w u i ↔ EndsAt w u' i) →
      EndsAt w u i → (A.word v).length ≤ (A.word t).length → v = t := by
    intro v t u u' hc hc' hall hi hle
    have hv := h.same v u i hc hi
    have ht := h.same t u' i hc' ((hall i).mp hi)
    have hsuf := hv.suffix ht hle
    refine h.unique v t _ (h.inClass_word hc.mem) ⟨hc'.mem, hsuf, fun s hs' => ?_⟩
    by_contra hlong
    obtain ⟨j, hj, hnj⟩ := hs t hc'.mem s hs'
    have hvs : A.word v <:+ A.word s :=
      suffix_of_suffix_length_le hsuf (h.link_spec hc'.mem hs').2.1 (by omega)
    exact hnj (h.same t u' j hc' ((hall j).mp ((h.endsAt_iff hc).mpr (hj.of_suffix hvs))))
  grind
end Reads

variable (h : A.Reads w)
include h

lemma Reads.mem_of_link (hv : v ∈ A.states) (ht : A.link v = some t) : t ∈ A.states :=
  (h.link_spec hv ht).1

lemma Reads.endsAt_iff_child (hv : v ∈ A.states) : EndsAt w (A.word v) i ↔
      i = (A.word v).length ∧ A.word v <+: w ∨ ∃ t ∈ A.states, A.link t = some v ∧ EndsAt w (A.word t) i := by
  constructor
  swap
  · rintro (⟨rfl, hp⟩ | ⟨t, ht, e, hi⟩)
    · exact ⟨hp.length_le, by rw [← prefix_iff_eq_take.mp hp]⟩
    exact hi.of_suffix (h.link_spec ht e).2.1
  intro hi
  rcases eq_or_lt_of_le hi.length_le with e | hlt
  · refine .inl ⟨e.symm, ?_⟩
    have : A.word v = w.take i := hi.2.eq_of_length (by rw [length_take, ← e]; have := hi.1; omega)
    rw [this]
    exact take_prefix _ _
  obtain ⟨b, hb⟩ := hi.2
  rcases eq_nil_or_concat' b with rfl | ⟨b', a, rfl⟩
  · have := congrArg length hb
    have := hi.1
    grind
  have ha : EndsAt w (a :: A.word v) i := ⟨hi.1, b', by rw [← hb]; simp⟩
  obtain ⟨t, ht⟩ := h.cover _ _ ha
  refine .inr ⟨t, ht.mem, ?_, h.same t _ i ht ha⟩
  have h0 : t ≠ 0 := by
    rintro rfl
    have := ht.suffix.length_le
    rw [h.root.2.1] at this
    exact Nat.not_succ_le_zero _ this
  obtain ⟨t', ht', e, hs, -⟩ := h.link_mem t ht.mem h0
  have hle := ht.long t' e
  rw [length_cons, Nat.lt_succ_iff] at hle
  have hvt : A.word v <:+ A.word t := (suffix_cons _ _).trans ht.suffix
  rcases lt_or_eq_of_le hle with hlt' | heq
  · -- the word of `v` would be in the class of the child
    have hc : A.InClass t (A.word v) := ⟨ht.mem, hvt, fun x hx => by
      rw [e] at hx
      rwa [← Option.some.inj hx]⟩
    have := ht.suffix.length_le
    rw [h.unique t v _ hc (h.inClass_word hv), length_cons] at this
    omega
  · rw [e, h.word_inj ht' hv ((suffix_of_suffix_length_le hs hvt hle).eq_of_length heq)]

lemma Reads.child_unique {t' : Nat} (ht : t ∈ A.states) (ht' : t' ∈ A.states)
    (e : A.link t = some v) (e' : A.link t' = some v) (hi : EndsAt w (A.word t) i)
    (hi' : EndsAt w (A.word t') i) : t = t' := by
  -- the shorter of the two words is in both classes
  wlog hle : (A.word t).length ≤ (A.word t').length generalizing t t'
  · exact (this ht' ht e' e hi' hi (by omega)).symm
  refine h.unique t t' (A.word t) (h.inClass_word ht) ⟨ht', hi.suffix hi' hle, fun x hx => ?_⟩
  rw [e'] at hx
  cases hx
  exact (h.inClass_word ht).long _ e

omit h

structure Agrees (A B : WordAutomaton α) : Prop where
  states : ∀ v, v ∈ B.states ↔ v ∈ A.states
  word : ∀ v ∈ A.states, B.word v = A.word v
  link : ∀ v ∈ A.states, B.link v = A.link v
  next : ∀ v ∈ A.states, ∀ d, B.next v d = A.next v d

variable {B : WordAutomaton α}
include h

lemma Reads.agrees_inClass (hb : A.Agrees B) : B.InClass v u ↔ A.InClass v u := by
  constructor
  · rintro ⟨hm, hs, hl⟩
    have hm' := (hb.states v).mp hm
    refine ⟨hm', hb.word v hm' ▸ hs, fun t ht => ?_⟩
    rw [← hb.word t (h.mem_of_link hm' ht)]
    exact hl t ((hb.link v hm').trans ht)
  rintro ⟨hm, hs, hl⟩
  refine ⟨(hb.states v).mpr hm, (hb.word v hm).symm ▸ hs, fun t ht => ?_⟩
  rw [hb.link v hm] at ht
  rw [hb.word t (h.mem_of_link hm ht)]
  exact hl t ht

lemma Reads.agrees (hb : A.Agrees B) : B.Reads w := by
  have hcls := fun v u => h.agrees_inClass (v := v) (u := u) hb
  refine ⟨?_, ?_, ?_, ?_, ?_, ?_, ?_, ?_⟩
  · obtain ⟨h0, hw, hl⟩ := h.root
    exact ⟨(hb.states 0).mpr h0, (hb.word 0 h0).trans hw, (hb.link 0 h0).trans hl⟩
  · intro v hv h0
    have hv' := (hb.states v).mp hv
    obtain ⟨t, ht, e, hs, hl⟩ := h.link_mem v hv' h0
    refine ⟨t, (hb.states t).mpr ht, (hb.link v hv').trans e, ?_⟩
    rw [hb.word v hv', hb.word t ht]
    exact ⟨hs, hl⟩
  · intro v hv
    have hv' := (hb.states v).mp hv
    rw [hb.word v hv']
    exact h.occurs v hv'
  · intro v u i hc hi
    have hc' := (hcls v u).mp hc
    rw [hb.word v hc'.mem]
    exact h.same v u i hc' hi
  · intro u i hi
    obtain ⟨v, hv⟩ := h.cover u i hi
    exact ⟨v, (hcls v u).mpr hv⟩
  · intro v t u hv ht
    exact h.unique v t u ((hcls v u).mp hv) ((hcls t u).mp ht)
  · intro v u d i hc hi
    have hc' := (hcls v u).mp hc
    obtain ⟨t, ht, htc⟩ := h.step v u d i hc' hi
    exact ⟨t, (hb.next v hc'.mem d).trans ht, (hcls t _).mpr htc⟩
  intro v hv d t ht
  have hv' := (hb.states v).mp hv
  rw [hb.word v hv']
  exact h.step_occurs v hv' d t ((hb.next v hv' d).symm.trans ht)

lemma Reads.agrees_strict (hs : A.Strict w) (hb : A.Agrees B) : B.Strict w := by
  intro v hv t ht
  have hv' := (hb.states v).mp hv
  rw [hb.link v hv'] at ht
  rw [hb.word v hv', hb.word t (h.mem_of_link hv' ht)]
  exact hs v hv' t ht

omit h

/-! ## Cutting a class in two -/

/-- The new state `k` stands for the words of `q` that are not longer than `z`. -/
def split (A : WordAutomaton α) (q k : Nat) (z : List α) : WordAutomaton α where
  states := insert k A.states
  word := update A.word k z
  link := update (update A.link k (A.link q)) q (some k)
  next v d :=
    if v = k then A.next q d
    else if A.next v d = some q ∧ (A.word v).length + 1 ≤ z.length then some k
    else A.next v d

section
variable {z : List α}

lemma split_word_of_mem (hk : k ∉ A.states) (hv : v ∈ A.states) : (A.split q k z).word v = A.word v :=
  update_of_ne (ne_of_mem_of_not_mem hv hk) _ _

lemma split_word_new : (A.split q k z).word k = z := update_self ..

lemma split_link_new (hk : k ∉ A.states) (hq : q ∈ A.states) : (A.split q k z).link k = A.link q := by
  change update (update A.link k (A.link q)) q (some k) k = _
  grind

lemma split_link_old (hk : k ∉ A.states) (hv : v ∈ A.states) (hvq : v ≠ q) :
    (A.split q k z).link v = A.link v := by
  change update (update A.link k (A.link q)) q (some k) v = _
  grind

lemma split_link_self : (A.split q k z).link q = some k := update_self ..

lemma split_next_of_mem (hk : k ∉ A.states) (hv : v ∈ A.states) :
    (A.split q k z).next v d =
      if A.next v d = some q ∧ (A.word v).length + 1 ≤ z.length then some k else A.next v d :=
  if_neg (ne_of_mem_of_not_mem hv hk)

lemma split_next_new : (A.split q k z).next k d = A.next q d := if_pos rfl

lemma Reads.split_inClass (h : A.Reads w) (hk : k ∉ A.states) (hz : A.InClass q z) :
    (A.split q k z).InClass v u ↔
      v = k ∧ A.InClass q u ∧ u.length ≤ z.length ∨ A.InClass v u ∧ (v = q → z.length < u.length) := by
  have hlen : ∀ s t, s ∈ A.states → A.link s = some t → ((A.split q k z).word t) = A.word t := by
    intro s t hs ht
    exact split_word_of_mem hk (h.mem_of_link hs ht)
  constructor
  · rintro ⟨hmem, hsuf, hlong⟩
    rcases mem_insert_iff.mp hmem with rfl | hv
    · rw [split_word_new] at hsuf
      refine .inl ⟨rfl, ⟨hz.mem, hsuf.trans hz.suffix, fun t ht => ?_⟩, hsuf.length_le⟩
      rw [← hlen q t hz.mem ht]
      exact hlong t (by rwa [split_link_new hk hz.mem])
    rw [split_word_of_mem hk hv] at hsuf
    by_cases hvq : v = q
    · subst hvq
      have hzu := hlong k split_link_self
      rw [split_word_new] at hzu
      exact .inr ⟨⟨hv, hsuf, fun t ht => (hz.long t ht).trans hzu⟩, fun _ => hzu⟩
    · refine .inr ⟨⟨hv, hsuf, fun t ht => ?_⟩, fun e => absurd e hvq⟩
      rw [← hlen v t hv ht]
      exact hlong t (by rwa [split_link_old hk hv hvq])
  rintro (⟨rfl, hc, hle⟩ | ⟨hc, hlong⟩)
  · refine ⟨mem_insert .., ?_, fun t ht => ?_⟩
    · rw [split_word_new]
      exact suffix_of_suffix_length_le hc.suffix hz.suffix hle
    · rw [split_link_new hk hz.mem] at ht
      rw [hlen q t hz.mem ht]
      exact hc.long t ht
  refine ⟨mem_insert_of_mem _ hc.mem, by rw [split_word_of_mem hk hc.mem]; exact hc.suffix, fun t ht => ?_⟩
  by_cases hvq : v = q
  · subst hvq
    rw [split_link_self] at ht
    cases ht
    rw [split_word_new]
    exact hlong rfl
  · rw [split_link_old hk hc.mem hvq] at ht
    rw [hlen v t hc.mem ht]
    exact hc.long t ht

/-- The words of a class that lead to `q` lead to one side of the cut. -/
def CutClean (A : WordAutomaton α) (q : Nat) (z : List α) : Prop :=
  ∀ v u d, A.InClass v u → A.next v d = some q → u.length + 1 ≤ z.length → (A.word v).length + 1 ≤ z.length

lemma Reads.split (h : A.Reads w) (hk : k ∉ A.states) (hz : A.InClass q z)
    (hlt : z.length < (A.word q).length) (hclean : A.CutClean q z) : (A.split q k z).Reads w := by
  have hq0 : q ≠ 0 := by
    rintro rfl
    rw [h.root.2.1] at hlt
    exact Nat.not_lt_zero _ hlt
  have hcls := fun v u => h.split_inClass (v := v) (u := u) hk hz
  refine
    { root := ⟨mem_insert_of_mem _ h.root.1, ?_, ?_⟩, link_mem := ?_, occurs := ?_, same := ?_, cover := ?_
      unique := ?_, step := ?_, step_occurs := ?_ }
  · rw [split_word_of_mem hk h.root.1, h.root.2.1]
  · rw [split_link_old hk h.root.1 hq0.symm, h.root.2.2]
  · intro v hmem hv0
    rcases mem_insert_iff.mp hmem with rfl | hv
    · obtain ⟨t, hm, e, hs, -⟩ := h.link_mem q hz.mem hq0
      have hl := hz.long t e
      refine ⟨t, mem_insert_of_mem _ hm, by rwa [split_link_new hk hz.mem], ?_⟩
      rw [split_word_new, split_word_of_mem hk hm]
      exact ⟨suffix_of_suffix_length_le hs hz.suffix hl.le, hl⟩
    by_cases hvq : v = q
    · subst hvq
      refine ⟨k, mem_insert .., split_link_self, ?_⟩
      rw [split_word_new, split_word_of_mem hk hv]
      exact ⟨hz.suffix, hlt⟩
    obtain ⟨t, hm, e, hs⟩ := h.link_mem v hv hv0
    refine ⟨t, mem_insert_of_mem _ hm, by rwa [split_link_old hk hv hvq], ?_⟩
    rw [split_word_of_mem hk hv, split_word_of_mem hk hm]
    exact hs
  · intro v hv
    rcases mem_insert_iff.mp hv with rfl | hv
    · obtain ⟨i, hi⟩ := h.occurs q hz.mem
      exact ⟨i, by rw [split_word_new]; exact hi.of_suffix hz.suffix⟩
    · rw [split_word_of_mem hk hv]
      exact h.occurs v hv
  · intro v u i hc hi
    rcases (hcls v u).mp hc with ⟨rfl, hc, -⟩ | ⟨hc, -⟩
    · rw [split_word_new]
      exact (h.same q u i hc hi).of_suffix hz.suffix
    · rw [split_word_of_mem hk hc.mem]
      exact h.same v u i hc hi
  · intro u i hi
    obtain ⟨v, hc⟩ := h.cover u i hi
    by_cases hv : v = q ∧ u.length ≤ z.length
    · exact ⟨k, (hcls k u).mpr (.inl ⟨rfl, hv.1 ▸ hc, hv.2⟩)⟩
    grind
  · intro v t u hv ht
    rcases (hcls v u).mp hv with ⟨rfl, hc, hle⟩ | ⟨hc, hlong⟩ <;>
      rcases (hcls t u).mp ht with ⟨rfl, hc', hle'⟩ | ⟨hc', hlong'⟩
    · rfl
    · have := hlong' (h.unique t q u hc' hc)
      omega
    · have := hlong (h.unique v q u hc hc')
      omega
    · exact h.unique v t u hc hc'
  · intro v u d i hc hi
    -- the class that the old transition leads to, and the side of the cut
    have hside : ∀ s, A.InClass s u → ∃ t, A.next s d = some t ∧ A.InClass t (u ++ [d]) := fun s hs =>
      h.step s u d i hs hi
    rcases (hcls v u).mp hc with ⟨rfl, hcq, hle⟩ | ⟨hcv, -⟩
    · obtain ⟨t, e, ht⟩ := hside q hcq
      refine ⟨t, by rw [split_next_new, e], (hcls t _).mpr (.inr ⟨ht, fun etq => ?_⟩)⟩
      -- a transition from `q` to itself would make its word longer
      subst etq
      have := (h.step_class (h.inClass_word hz.mem) e).suffix.length_le
      grind
    obtain ⟨t, e, ht⟩ := hside v hcv
    by_cases hcond : A.next v d = some q ∧ (A.word v).length + 1 ≤ z.length
    · have htq : t = q := Option.some.inj (e.symm.trans hcond.1)
      refine ⟨k, by rw [split_next_of_mem hk hcv.mem, if_pos hcond], (hcls k _).mpr (.inl ⟨rfl, htq ▸ ht, ?_⟩)⟩
      have := hcv.suffix.length_le
      grind
    refine ⟨t, by rw [split_next_of_mem hk hcv.mem, if_neg hcond, e], (hcls t _).mpr (.inr ⟨ht, fun etq => ?_⟩)⟩
    rw [length_append, length_singleton]
    by_contra hshort
    rw [etq] at e
    exact hcond ⟨e, hclean v u d hcv e (by omega)⟩
  intro v hv d t ht
  rcases mem_insert_iff.mp hv with rfl | hv
  · rw [split_next_new] at ht
    obtain ⟨i, hi⟩ := h.step_occurs q hz.mem d t ht
    refine ⟨i, ?_⟩
    obtain ⟨j, rfl⟩ := hi.snoc_pos
    rw [split_word_new, EndsAt.snoc_iff]
    rw [EndsAt.snoc_iff] at hi
    exact ⟨hi.1.of_suffix hz.suffix, hi.2⟩
  rw [split_word_of_mem hk hv]
  rw [split_next_of_mem hk hv] at ht
  by_cases hcond : A.next v d = some q ∧ (A.word v).length + 1 ≤ z.length
  · exact h.step_occurs v hv d q hcond.1
  · rw [if_neg hcond] at ht
    exact h.step_occurs v hv d t ht
end

/-! ## One more letter -/

/-- The new state `k` stands for the suffixes of `w ++ [c]` that are longer than the word of `q`. -/
def append [DecidableEq α] (A : WordAutomaton α) (w : List α) (c : α) (q k : Nat) : WordAutomaton α where
  states := insert k A.states
  word := update A.word k (w ++ [c])
  link := update A.link k (some q)
  next v d :=
    if v = k then none
    else if d = c ∧ A.word v <:+ w ∧ (A.word q).length ≤ (A.word v).length then some k
    else A.next v d

/-- The word of `q` is the longest suffix of `w ++ [c]` that is a part of `w`. -/
structure LongestOld (A : WordAutomaton α) (w : List α) (c : α) (q : Nat) : Prop where
  mem : q ∈ A.states
  suffix : A.word q <:+ w ++ [c]
  longest : ∀ u i, u <:+ w ++ [c] → EndsAt w u i → u.length ≤ (A.word q).length

include h

lemma Reads.same_whole (hl : A.LongestOld w c q) (hc : A.InClass v u)
    (hu : u <:+ w ++ [c]) : A.word v <:+ w ++ [c] := by
  obtain ⟨i, hi⟩ := h.occurs q hl.mem
  obtain ⟨j, hj⟩ := h.occurs v hc.mem
  have hle := hl.longest u j hu (hj.of_suffix hc.suffix)
  have huq : u <:+ A.word q := suffix_of_suffix_length_le hu hl.suffix hle
  have hvi := h.same v u i hc (hi.of_suffix huq)
  rcases le_total (A.word v).length (A.word q).length with hvq | hqv
  · exact (hvi.suffix hi hvq).trans hl.suffix
  -- then the word of `q` lies in the class of `v`
  have hcq : A.InClass v (A.word q) :=
    ⟨hc.mem, hi.suffix hvi hqv, fun t ht => (hc.long t ht).trans_le hle⟩
  rw [h.unique v q _ hcq (h.inClass_word hl.mem)]
  exact hl.suffix

lemma Reads.length_lt_of_old (hl : A.LongestOld w c q) (hc : A.InClass v u)
    (hv : A.word v <:+ w) (hu : u.length + 1 ≤ (A.word q).length) :
    (A.word v).length + 1 ≤ (A.word q).length := by
  obtain ⟨i, hi⟩ := h.occurs q hl.mem
  have hsuf : u ++ [c] <:+ A.word q := by
    refine suffix_of_suffix_length_le ?_ hl.suffix (by simpa using hu)
    exact snoc_suffix_concat.mpr ⟨hc.suffix.trans hv, rfl⟩
  have hui := hi.of_suffix hsuf
  obtain ⟨j, rfl⟩ := hui.snoc_pos
  rw [EndsAt.snoc_iff] at hui
  have hvj : EndsAt w (A.word v ++ [c]) (j + 1) := EndsAt.snoc_iff.mpr ⟨h.same v u j hc hui.1, hui.2⟩
  have := hl.longest _ _ (snoc_suffix_concat.mpr ⟨hv, rfl⟩) hvj
  simpa using this

omit h

variable [DecidableEq α]

lemma append_word_of_mem (hk : k ∉ A.states) (hv : v ∈ A.states) :
    (A.append w c q k).word v = A.word v :=
  update_of_ne (ne_of_mem_of_not_mem hv hk) _ _

lemma append_word_new : (A.append w c q k).word k = w ++ [c] := update_self ..

lemma append_link_of_mem (hk : k ∉ A.states) (hv : v ∈ A.states) :
    (A.append w c q k).link v = A.link v :=
  update_of_ne (ne_of_mem_of_not_mem hv hk) _ _

lemma append_link_new : (A.append w c q k).link k = some q := update_self ..

lemma append_next_of_mem (hk : k ∉ A.states) (hv : v ∈ A.states) :
    (A.append w c q k).next v d =
      if d = c ∧ A.word v <:+ w ∧ (A.word q).length ≤ (A.word v).length then some k else A.next v d :=
  if_neg (ne_of_mem_of_not_mem hv hk)

lemma Reads.append_inClass (h : A.Reads w) (hk : k ∉ A.states) (hq : q ∈ A.states) :
    (A.append w c q k).InClass v u ↔
      v = k ∧ u <:+ w ++ [c] ∧ (A.word q).length < u.length ∨ A.InClass v u := by
  constructor
  · rintro ⟨hmem, hsuf, hlong⟩
    rcases mem_insert_iff.mp hmem with rfl | hv
    · rw [append_word_new] at hsuf
      have := hlong q append_link_new
      rw [append_word_of_mem hk hq] at this
      exact .inl ⟨rfl, hsuf, this⟩
    rw [append_word_of_mem hk hv] at hsuf
    refine .inr ⟨hv, hsuf, fun t ht => ?_⟩
    have := hlong t (by rwa [append_link_of_mem hk hv])
    rwa [append_word_of_mem hk (h.mem_of_link hv ht)] at this
  rintro (⟨rfl, hsuf, hlen⟩ | hc)
  · refine ⟨mem_insert .., by rwa [append_word_new], fun t ht => ?_⟩
    rw [append_link_new] at ht
    cases ht
    rwa [append_word_of_mem hk hq]
  refine ⟨mem_insert_of_mem _ hc.mem, by rw [append_word_of_mem hk hc.mem]; exact hc.suffix, fun t ht => ?_⟩
  rw [append_link_of_mem hk hc.mem] at ht
  rw [append_word_of_mem hk (h.mem_of_link hc.mem ht)]
  exact hc.long t ht

lemma Reads.append (h : A.Reads w) (hk : k ∉ A.states) (hl : A.LongestOld w c q) :
    (A.append w c q k).Reads (w ++ [c]) := by
  have hcls := fun v u => h.append_inClass (v := v) (u := u) (c := c) hk hl.mem
  obtain ⟨iq, hiq⟩ := h.occurs q hl.mem
  refine
    { root := ⟨mem_insert_of_mem _ h.root.1, ?_, ?_⟩, link_mem := ?_, occurs := ?_, same := ?_, cover := ?_
      unique := ?_, step := ?_, step_occurs := ?_ }
  · rw [append_word_of_mem hk h.root.1, h.root.2.1]
  · rw [append_link_of_mem hk h.root.1, h.root.2.2]
  · intro v hmem hv0
    rcases mem_insert_iff.mp hmem with rfl | hv
    · refine ⟨q, mem_insert_of_mem _ hl.mem, append_link_new, ?_⟩
      rw [append_word_new, append_word_of_mem hk hl.mem]
      refine ⟨hl.suffix, ?_⟩
      have h1 := hiq.length_le
      have h2 := hiq.1
      grind
    obtain ⟨t, hm, e, hs⟩ := h.link_mem v hv hv0
    refine ⟨t, mem_insert_of_mem _ hm, by rwa [append_link_of_mem hk hv], ?_⟩
    rw [append_word_of_mem hk hv, append_word_of_mem hk hm]
    exact hs
  · intro v hmem
    rcases mem_insert_iff.mp hmem with rfl | hv
    · exact ⟨_, by rw [append_word_new]; exact .of_whole suffix_rfl⟩
    · obtain ⟨i, hi⟩ := h.occurs v hv
      exact ⟨i, by rw [append_word_of_mem hk hv]; exact EndsAt.concat_iff.mpr (.inl hi)⟩
  · intro v u i hc hi
    rcases (hcls v u).mp hc with ⟨rfl, hsuf, hlen⟩ | hc
    · rw [append_word_new]
      rcases EndsAt.concat_iff.mp hi with hi | ⟨rfl, -⟩
      · have := hl.longest u i hsuf hi
        omega
      · exact EndsAt.concat_iff.mpr (.inr ⟨rfl, suffix_rfl⟩)
    rw [append_word_of_mem hk hc.mem]
    rcases EndsAt.concat_iff.mp hi with hi | ⟨rfl, hu⟩
    · exact EndsAt.concat_iff.mpr (.inl (h.same v u i hc hi))
    · exact EndsAt.concat_iff.mpr (.inr ⟨rfl, h.same_whole hl hc hu⟩)
  · intro u i hi
    by_cases hold : ∃ j, EndsAt w u j
    · obtain ⟨j, hj⟩ := hold
      obtain ⟨v, hc⟩ := h.cover u j hj
      exact ⟨v, (hcls v u).mpr (.inr hc)⟩
    have hu := ((EndsAt.concat_iff.mp hi).resolve_left fun hi => hold ⟨i, hi⟩).2
    refine ⟨k, (hcls k u).mpr (.inl ⟨rfl, hu, ?_⟩)⟩
    by_contra hle
    exact hold ⟨iq, hiq.of_suffix (suffix_of_suffix_length_le hu hl.suffix (by omega))⟩
  · intro v t u hv ht
    -- the words of the new class are new
    have hnew : ∀ s, (u <:+ w ++ [c] ∧ (A.word q).length < u.length) → A.InClass s u → False := by
      rintro s ⟨hu, hlen⟩ hs
      obtain ⟨i, hi⟩ := h.occurs s hs.mem
      have := hl.longest u i hu (hi.of_suffix hs.suffix)
      omega
    rcases (hcls v u).mp hv with ⟨rfl, hc⟩ | hc <;> rcases (hcls t u).mp ht with ⟨rfl, hc'⟩ | hc'
    · rfl
    · exact (hnew t hc hc').elim
    · exact (hnew v hc' hc).elim
    · exact h.unique v t u hc hc'
  · intro v u d i hin hi
    obtain ⟨j, rfl⟩ := hi.snoc_pos
    have hj := (EndsAt.snoc_iff.mp hi).1
    rcases (hcls v u).mp hin with ⟨rfl, hsuf, hlen⟩ | hc
    · -- nothing follows the new words
      have hjw : j ≤ w.length := by
        have := hi.1
        grind
      have := hl.longest u j hsuf ((EndsAt.concat_of_le hjw).mp hj)
      omega
    rw [append_next_of_mem hk hc.mem]
    by_cases hcond : d = c ∧ A.word v <:+ w ∧ (A.word q).length ≤ (A.word v).length
    · obtain ⟨rfl, hvw, hlong⟩ := hcond
      rw [if_pos ⟨rfl, hvw, hlong⟩]
      refine ⟨k, rfl, (hcls k _).mpr (.inl ⟨rfl, snoc_suffix_concat.mpr ⟨hc.suffix.trans hvw, rfl⟩, ?_⟩)⟩
      rw [length_append, length_singleton]
      by_contra hshort
      have := h.length_lt_of_old hl hc hvw (by omega)
      omega
    rw [if_neg hcond]
    -- the longer word is a part of `w`
    have hold : ∃ m, EndsAt w (u ++ [d]) m := by
      rcases EndsAt.concat_iff.mp hi with hi | ⟨-, hsuf⟩
      · exact ⟨_, hi⟩
      obtain ⟨huw, rfl⟩ := snoc_suffix_concat.mp hsuf
      have hvw : A.word v <:+ w := EndsAt.whole_iff.mp (h.same v u _ hc (.of_whole huw))
      refine ⟨iq, hiq.of_suffix (suffix_of_suffix_length_le hsuf hl.suffix ?_)⟩
      have := hc.suffix.length_le
      grind
    obtain ⟨m, hm⟩ := hold
    obtain ⟨t, e, ht⟩ := h.step v u d m hc hm
    exact ⟨t, e, (hcls t _).mpr (.inr ht)⟩
  · intro v hmem d t ht
    rcases mem_insert_iff.mp hmem with rfl | hv
    · have hnone : (A.append w c q v).next v d = none := if_pos rfl
      rw [hnone] at ht
      cases ht
    rw [append_word_of_mem hk hv]
    rw [append_next_of_mem hk hv] at ht
    by_cases hcond : d = c ∧ A.word v <:+ w ∧ (A.word q).length ≤ (A.word v).length
    · obtain ⟨rfl, hvw, -⟩ := hcond
      exact ⟨_, .of_whole (snoc_suffix_concat.mpr ⟨hvw, rfl⟩)⟩
    · rw [if_neg hcond] at ht
      obtain ⟨i, hi⟩ := h.step_occurs v hv d t ht
      exact ⟨i, EndsAt.concat_iff.mpr (.inl hi)⟩

lemma Reads.append_strict (h : A.Reads w) (hk : k ∉ A.states) (hl : A.LongestOld w c q)
    (hs : ∀ v ∈ A.states, ∀ t, A.link v = some t →
      (∃ i, EndsAt w (A.word t) i ∧ ¬EndsAt w (A.word v) i) ∨
        A.word t <:+ w ++ [c] ∧ ¬A.word v <:+ w ++ [c]) : (A.append w c q k).Strict (w ++ [c]) := by
  intro v hmem t ht
  rcases mem_insert_iff.mp hmem with rfl | hv
  · rw [append_link_new] at ht
    cases ht
    obtain ⟨i, hi⟩ := h.occurs q hl.mem
    rw [append_word_new, append_word_of_mem hk hl.mem]
    refine ⟨i, EndsAt.concat_iff.mpr (.inl hi), fun hw => ?_⟩
    have h1 := hw.length_le
    have h2 := hi.1
    grind
  rw [append_link_of_mem hk hv] at ht
  rw [append_word_of_mem hk hv, append_word_of_mem hk (h.mem_of_link hv ht)]
  rcases hs v hv t ht with ⟨i, hi, hn⟩ | ⟨hyes, hno⟩
  · exact ⟨i, EndsAt.concat_iff.mpr (.inl hi), fun hw => hn ((EndsAt.concat_of_le hi.1).mp hw)⟩
  refine ⟨w.length + 1, EndsAt.concat_iff.mpr (.inr ⟨rfl, hyes⟩), fun hw => ?_⟩
  rcases EndsAt.concat_iff.mp hw with hw | ⟨-, hw⟩
  · have := hw.1
    omega
  · exact hno hw
end WordAutomaton
end Sglang
