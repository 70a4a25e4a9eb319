import Sglang.Lib.SendUp
import Sglang.Ngram.SamExtend

/-!
# The suffix automaton is right

Tokens come in any chunks.
-/

namespace Sglang.Ngram
open List

namespace SuffixAutomaton
open WordAutomaton
variable {α : Type} {s s' : SuffixAutomaton α} {w u : List α} {v t x : Nat} {word : Nat → List α}

/-! ## The tokens -/

structure Fed (s : SuffixAutomaton α) (w : List α) : Prop where
  built : ∃ word, Built s w word
  pos : s.pos = w.length
  sawToken : s.sawToken = true ↔ w ≠ []
  finalized : s.finalized = false

lemma fed_reset : Fed (reset : SuffixAutomaton α) [] := by
  refine ⟨⟨fun _ => [], ?_⟩, rfl, by simp [reset], rfl⟩
  have hcls : ∀ v u, ((reset : SuffixAutomaton α).view fun _ => []).InClass v u ↔ v = 0 ∧ u = [] := by
    intro v u
    constructor
    · rintro ⟨hm, hs, -⟩
      have hm' : v < 1 := hm
      exact ⟨by omega, suffix_nil.mp hs⟩
    · rintro ⟨rfl, rfl⟩
      exact ⟨Nat.zero_lt_one, suffix_rfl, nofun⟩
  have hmem : ∀ v ∈ ((reset : SuffixAutomaton α).view fun _ => []).states, v = 0 := fun v hv => by
    have hv' : v < 1 := hv
    omega
  have hends : ∀ (u : List α) i, EndsAt [] u i → u = [] := fun u i h => by
    have := h.length_le.trans h.1
    exact eq_nil_of_length_eq_zero (Nat.le_zero.mp this)
  refine ⟨⟨⟨Nat.zero_lt_one, rfl, rfl⟩, ?_, ?_, ?_, ?_, ?_, ?_, ?_⟩, ?_, ?_, Nat.zero_lt_one, rfl, ?_, ?_⟩
  · intro v hv h0
    exact absurd (hmem v hv) h0
  · exact fun v _ => ⟨0, EndsAt.nil zero_le⟩
  · intro v u i hc hi
    exact EndsAt.nil hi.1
  · intro u i hi
    exact ⟨0, (hcls 0 u).mpr ⟨rfl, hends u i hi⟩⟩
  · grind
  · grind
  · intro v hv d t ht
    cases ht
  · intro v hv t ht
    cases ht
  · exact fun v _ => rfl
  · intro v hv h0
    exact absurd (hmem v hv) h0
  · exact le_rfl

variable [DecidableEq α]

lemma Fed.appendToken (h : Fed s w) (tok : α) :
    ∃ s', s.appendToken tok = .ok s' ∧ Fed s' (w ++ [tok]) := by
  obtain ⟨word, hb⟩ := h.built
  have hb' : Built { s with pos := s.pos + 1 : SuffixAutomaton α } w word := { hb with }
  obtain ⟨s', word', e, hs', hpos, hsaw, hfin⟩ := hb'.extend tok (show (s.pos : Int) = w.length by rw [h.pos])
  refine ⟨{ s' with sawToken := true }, ?_, ⟨word', { hs' with }⟩, ?_, by simp, hfin.trans h.finalized⟩
  · rw [SuffixAutomaton.appendToken, e]
    rfl
  · rw [length_append, length_singleton, ← h.pos]
    exact hpos

lemma Fed.appendTokens (h : Fed s w) (toks : List α) :
    ∃ s', s.appendTokens toks = .ok s' ∧ Fed s' (w ++ toks) := by
  have hfold : ∀ (toks : List α) (s : SuffixAutomaton α) (w : List α), Fed s w →
      ∃ s', toks.foldlM SuffixAutomaton.appendToken s = .ok s' ∧ Fed s' (w ++ toks) := by
    intro toks
    induction toks with
    | nil => exact fun s w h => ⟨s, rfl, by rwa [append_nil]⟩
    | cons c cs ih => ?_
    intro s w h
    obtain ⟨s₁, e₁, h1⟩ := h.appendToken c
    obtain ⟨s₂, e₂, h2⟩ := ih s₁ _ h1
    refine ⟨s₂, ?_, by rwa [append_assoc] at h2⟩
    rw [foldlM_cons, e₁]
    exact e₂
  rw [SuffixAutomaton.appendTokens, h.finalized]
  exact hfold toks s w h

lemma Fed.chunks (h : Fed s w) (chunks : List (List α)) :
    ∃ s', chunks.foldlM SuffixAutomaton.appendTokens s = .ok s' ∧ Fed s' (w ++ chunks.flatten) := by
  induction chunks generalizing s w with
  | nil => exact ⟨s, rfl, by rwa [flatten_nil, append_nil]⟩
  | cons c cs ih =>
    obtain ⟨s₁, e₁, h1⟩ := h.appendTokens c
    obtain ⟨s₂, e₂, h2⟩ := ih h1
    refine ⟨s₂, ?_, by rwa [append_assoc] at h2⟩
    rw [foldlM_cons, e₁]
    exact e₂

omit [DecidableEq α]

/-! ## The counters go up -/

lemma pushUp_states (v x : Nat) :
    (s.pushUp x).states v =
      { s.states v with
        occCount := sendUp (fun v => (s.states v).link) (· + ·) (fun v => (s.states v).occCount) x v
        maxEndPos := sendUp (fun v => (s.states v).link) max (fun v => (s.states v).maxEndPos) x v } := by
  by_cases hv : (s.states x).link = some v
  · rw [sendUp_link hv, sendUp_link hv, pushUp, hv]
    exact Function.update_self ..
  rw [sendUp_of_ne hv, sendUp_of_ne hv, pushUp]
  rcases hl : (s.states x).link with _ | t
  · rfl
  refine Function.update_of_ne ?_ _ _
  rintro rfl
  exact hv hl

lemma foldl_pushUp_states (l : List Nat) (s : SuffixAutomaton α) (v : Nat) :
    (l.foldl pushUp s).states v =
      { s.states v with
        occCount := l.foldl (sendUp (fun v => (s.states v).link) (· + ·)) (fun v => (s.states v).occCount) v
        maxEndPos := l.foldl (sendUp (fun v => (s.states v).link) max) (fun v => (s.states v).maxEndPos) v } := by
  induction l generalizing s with
  | nil => rfl
  | cons x l ih =>
    rw [foldl_cons, ih]
    simp only [pushUp_states, foldl_cons]

lemma foldl_pushUp_size (l : List Nat) (s : SuffixAutomaton α) : (l.foldl pushUp s).size = s.size := by
  induction l generalizing s with
  | nil => rfl
  | cons x l ih =>
    rw [foldl_cons, ih]
    unfold pushUp
    split <;> rfl

def ends (w u : List α) : Set Nat := { i | EndsAt w u i }

lemma ends_finite (w u : List α) : (ends w u).Finite :=
  (Set.finite_le_nat w.length).subset fun _ hi => hi.1

variable (h : Built s w word)
include h

lemma SortedByLen.children_first {order : List Nat} (ho : SortedByLen s order) :
    order.reverse.Pairwise fun a b => (s.states b).link ≠ some a := by
  rw [pairwise_reverse]
  refine ho.sorted.imp_of_mem fun {v t} hv ht hle hl => ?_
  have hmem : ∀ v ∈ order, v < s.size := fun v hv => mem_range.mp (ho.perm.mem_iff.mp hv)
  have := (h.reads.inClass_word (hmem v hv)).long t hl
  rw [h.maxLen v (hmem v hv), h.maxLen t (hmem t ht)] at hle
  exact absurd this (not_lt.mpr hle)

lemma Built.link_ne_self (hv : v < s.size) : (s.states v).link ≠ some v := fun hl =>
  lt_irrefl _ ((h.reads.inClass_word hv).long v hl)

lemma Built.upward {P : Nat → Prop}
    (hstep : ∀ v < s.size, v ≠ 0 → (∀ t < s.size, t ≠ 0 → (s.states t).link = some v → P t) → P v)
    (hv : v < s.size) (h0 : v ≠ 0) : P v := by
  -- on the letters that are left: links lead to shorter words
  induction hn : w.length - (word v).length using Nat.strong_induction_on generalizing v with
  | _ n ih =>
    refine hstep v hv h0 fun t ht ht0 hl => ih _ ?_ ht ht0 rfl
    have hlt : (word v).length < (word t).length := (h.reads.inClass_word ht).long v hl
    obtain ⟨i, hi⟩ := h.reads.occurs t ht
    have : (word t).length ≤ w.length := hi.length_le.trans hi.1
    omega

lemma Built.ncard_ends (hv : v < s.size) (h0 : v ≠ 0) :
    (ends w (word v)).ncard = (s.states v).occCount +
      ∑ t ∈ (Finset.range s.size).filter fun t => (s.states t).link = some v, (ends w (word t)).ncard := by
  set C := (Finset.range s.size).filter fun t => (s.states t).link = some v with hC
  have hCmem : ∀ t, t ∈ C ↔ t < s.size ∧ (s.states t).link = some v := by simp [hC]
  set B : Finset Nat := C.biUnion fun t => (ends_finite w (word t)).toFinset with hB
  have hBmem : ∀ i, i ∈ B ↔ ∃ t < s.size, (s.states t).link = some v ∧ EndsAt w (word t) i := by
    intro i
    simp only [hB, Finset.mem_biUnion, hCmem, Set.Finite.mem_toFinset, and_assoc]
    rfl
  have hBcard : B.card = ∑ t ∈ C, (ends w (word t)).ncard := by
    rw [hB, Finset.card_biUnion]
    · exact Finset.sum_congr rfl fun t _ => (Set.ncard_eq_toFinset_card _ (ends_finite w (word t))).symm
    intro t ht t' ht' hne
    refine Finset.disjoint_left.mpr fun i hi hi' => ?_
    obtain ⟨htm, htl⟩ := (hCmem t).mp ht
    obtain ⟨htm', htl'⟩ := (hCmem t').mp ht'
    exact hne (h.reads.child_unique htm htm' htl htl' ((ends_finite ..).mem_toFinset.mp hi)
      ((ends_finite ..).mem_toFinset.mp hi'))
  have hiff : ∀ i, i ∈ ends w (word v) ↔ i = (word v).length ∧ word v <+: w ∨ i ∈ B := by
    intro i
    rw [hBmem]
    exact h.reads.endsAt_iff_child hv
  have hc := h.counted v hv h0
  rw [← hBcard]
  by_cases hp : word v <+: w
  · have hnot : (word v).length ∉ B := by
      intro hm
      obtain ⟨t, ht, hl, hi⟩ := (hBmem _).mp hm
      exact absurd hi.length_le (not_le.mpr ((h.reads.inClass_word ht).long v hl))
    have heq : ends w (word v) = ↑(insert (word v).length B) := by
      grind
    rw [heq, Set.ncard_coe_finset, Finset.card_insert_of_notMem hnot, hc.first hp, add_comm]
  have heq : ends w (word v) = ↑B := by
    ext i
    rw [hiff, Finset.mem_coe]
    simp [hp]
  rw [heq, Set.ncard_coe_finset, hc.clone hp, zero_add]

lemma Built.ne_zero_of_link (hl : (s.states t).link = some v) : t ≠ 0 := by
  rintro rfl
  have : (s.states 0).link = none := h.reads.root.2.2
  rw [hl] at this
  cases this

omit h

section
variable {order : List Nat} (h : Built s w word) (ho : SortedByLen s order)
include h ho

omit h in
lemma SortedByLen.mem_iff : v ∈ order.reverse ↔ v < s.size := by
  rw [mem_reverse, ho.perm.mem_iff, mem_range]

lemma Built.propagate_occ (hv : v < s.size) (h0 : v ≠ 0) :
    ((s.propagate order).states v).occCount = (ends w (word v)).ncard := by
  have hrec := foldl_sendUp_add (ho.children_first h) (fun v hv => h.link_ne_self (ho.mem_iff.mp hv))
    (fun v => (s.states v).occCount)
  rw [propagate, foldl_pushUp_states]
  refine h.upward (P := fun v => order.reverse.foldl (sendUp (fun v => (s.states v).link) (· + ·))
    (fun v => (s.states v).occCount) v = (ends w (word v)).ncard) (fun v hv h0 ih => ?_) hv h0
  rw [hrec, h.ncard_ends hv h0]
  congr 1
  set l := order.reverse.filter fun t => decide ((s.states t).link = some v) with hl
  have hnd : l.Nodup := (nodup_reverse.mpr (ho.perm.nodup_iff.mpr nodup_range)).filter _
  have hfin : l.toFinset = (Finset.range s.size).filter fun t => (s.states t).link = some v := by
    ext t
    rw [mem_toFinset, hl, mem_filter, ho.mem_iff, Finset.mem_filter, Finset.mem_range, decide_eq_true_eq]
  rw [← sum_toFinset _ hnd, hfin]
  refine Finset.sum_congr rfl fun t ht => ?_
  obtain ⟨htm, htl⟩ := Finset.mem_filter.mp ht
  exact ih t (Finset.mem_range.mp htm) (h.ne_zero_of_link htl) htl

lemma Built.propagate_endPos (hv : v < s.size) (h0 : v ≠ 0) :
    ∃ m, IsGreatest (ends w (word v)) m ∧ ((s.propagate order).states v).maxEndPos = (m : Int) - 1 := by
  have hrec := foldl_sendUp_max (ho.children_first h) (fun v hv => h.link_ne_self (ho.mem_iff.mp hv))
    (fun v => (s.states v).maxEndPos)
  rw [propagate, foldl_pushUp_states]
  refine h.upward (P := fun v => ∃ m, IsGreatest (ends w (word v)) m ∧
    order.reverse.foldl (sendUp (fun v => (s.states v).link) max) (fun v => (s.states v).maxEndPos) v =
      (m : Int) - 1) (fun v hv h0 ih => ?_) hv h0
  obtain ⟨hone, hown, hchild⟩ := hrec v
  obtain ⟨m₀, hm0, hends0⟩ := (h.counted v hv h0).endPos
  -- the value is that of a place of the word
  have hmem : ∃ m ∈ ends w (word v), order.reverse.foldl (sendUp (fun v => (s.states v).link) max)
      (fun v => (s.states v).maxEndPos) v = (m : Int) - 1 := by
    rcases hone with e | ⟨t, ht, hl, e⟩
    · exact ⟨m₀, hends0, e.trans hm0⟩
    · have htm := ho.mem_iff.mp ht
      obtain ⟨m, hm, em⟩ := ih t htm (h.ne_zero_of_link hl) hl
      exact ⟨m, (h.reads.endsAt_iff_child hv).mpr (.inr ⟨t, htm, hl, hm.1⟩), e.trans em⟩
  obtain ⟨m, hm, em⟩ := hmem
  refine ⟨m, ⟨hm, fun i hi => ?_⟩, em⟩
  rcases (h.reads.endsAt_iff_child hv).mp hi with ⟨rfl, -⟩ | ⟨t, ht, hl, hi'⟩
  · exact hm.length_le
  obtain ⟨m', hm', em'⟩ := ih t ht (h.ne_zero_of_link hl) hl
  have h1 := hchild t (ho.mem_iff.mpr ht) hl
  have h2 : i ≤ m' := hm'.2 hi'
  omega
end

/-! ## Reading -/

section
variable (s : SuffixAutomaton α)

lemma walk_eq_run (word : Nat → List α) (v : Nat) (u : List α) : s.walk v u = (s.view word).run v u := by
  induction u generalizing v with
  | nil => rfl
  | cons c u ih =>
    exact congrArg _ (funext fun t => ih t)

lemma finalize_next (order : List Nat) (v : Nat) :
    ((s.finalize order).states v).next = (s.states v).next := by
  unfold finalize
  split
  · rfl
  split
  · rfl
  · change ((order.reverse.foldl pushUp { s with finalized := true : SuffixAutomaton α }).states v).next = _
    rw [foldl_pushUp_states]

lemma finalize_walk (order : List Nat) (v : Nat) (u : List α) :
    (s.finalize order).walk v u = s.walk v u := by
  induction u generalizing v with
  | nil => rfl
  | cons c u ih =>
    rw [walk, walk, finalize_next]
    exact congrArg _ (funext fun t => ih t)

lemma finalize_size (order : List Nat) : (s.finalize order).size = s.size := by
  unfold finalize
  split
  · rfl
  · split
    · rfl
    · exact foldl_pushUp_size order.reverse { s with finalized := true }

lemma exists_sortedByLen : ∃ order, SortedByLen s order := by
  refine ⟨(range s.size).mergeSort fun v t => decide ((s.states v).maxLen ≤ (s.states t).maxLen),
    mergeSort_perm .., ?_⟩
  refine (pairwise_mergeSort ?_ ?_ _).imp fun h => of_decide_eq_true h
  · simp only [decide_eq_true_eq]
    omega
  grind
end

/-- The automaton of the appended tokens, whatever the chunks and the order of equal lengths. -/
theorem suffix_automaton_correct [DecidableEq α] (chunks : List (List α)) :
    ∃ s, chunks.foldlM SuffixAutomaton.appendTokens reset = .ok s ∧ (∃ order, SortedByLen s order) ∧
      ∀ order, SortedByLen s order →
        (∀ u, (∃ v, (s.finalize order).walk 0 u = some v) ↔ u <:+: chunks.flatten) ∧
        (∀ u v, (s.finalize order).walk 0 u = some v → v ≠ 0 →
          ((s.finalize order).states v).occCount = (ends chunks.flatten u).ncard ∧
          ∃ m, IsGreatest (ends chunks.flatten u) m ∧
            ((s.finalize order).states v).maxEndPos = (m : Int) - 1) ∧
        (∀ u u' v v', (s.finalize order).walk 0 u = some v → (s.finalize order).walk 0 u' = some v' →
          (v = v' ↔ ends chunks.flatten u = ends chunks.flatten u')) ∧
        (s.finalize order).size ≤ max 2 (2 * chunks.flatten.length) := by
  obtain ⟨s, e, hfed⟩ := fed_reset.chunks chunks
  rw [nil_append] at hfed
  obtain ⟨word, hb⟩ := hfed.built
  have hwalk : ∀ order u v, (s.finalize order).walk 0 u = some v ↔
      (∃ i, EndsAt chunks.flatten u i) ∧ (s.view word).InClass v u := by
    intro order u v
    rw [finalize_walk, walk_eq_run s word]
    exact hb.reads.run_iff
  refine ⟨s, e, exists_sortedByLen s, fun order ho => ⟨fun u => ?_, fun u v hu h0 => ?_, fun u u' v v' hu hu' => ?_, ?_⟩⟩
  · rw [← EndsAt.exists_iff]
    constructor
    · grind
    · rintro ⟨i, hi⟩
      obtain ⟨v, hv⟩ := hb.reads.cover u i hi
      exact ⟨v, (hwalk order u v).mpr ⟨⟨i, hi⟩, hv⟩⟩
  · obtain ⟨-, hc⟩ := (hwalk order u v).mp hu
    have hends : ends chunks.flatten u = ends chunks.flatten (word v) :=
      Set.ext fun i => hb.reads.endsAt_iff hc
    -- a state other than the initial one has a token
    have hsaw : s.sawToken = true := by
      refine hfed.sawToken.mpr fun hnil => ?_
      have hsize := hb.size_le
      have hv : v < s.size := hc.mem
      rw [hnil, length_nil] at hsize
      omega
    have hfin : s.finalize order =
        { { s with finalized := true : SuffixAutomaton α }.propagate order with loaded := true } := by
      simp [finalize, hfed.finalized, hsaw]
    have hb' : Built { s with finalized := true : SuffixAutomaton α } chunks.flatten word := { hb with }
    have ho' : SortedByLen { s with finalized := true : SuffixAutomaton α } order := { ho with }
    rw [hends, hfin]
    exact ⟨hb'.propagate_occ ho' hc.mem h0, hb'.propagate_endPos ho' hc.mem h0⟩
  · rw [finalize_walk, walk_eq_run s word] at hu hu'
    rw [hb.reads.run_eq_iff hb.strict hu hu', Set.ext_iff]
    rfl
  · have := hb.size_le
    rw [finalize_size]
    omega
end SuffixAutomaton
end Sglang.Ngram
