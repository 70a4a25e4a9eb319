import Sglang.Lib.SuffixClasses
import Sglang.Ngram.SuffixAutomaton

/-!
# One more token in the suffix automaton

`extend_` takes an automaton of the parts of `w` to one of the parts of `w ++ [token]`.
-/

namespace Sglang.Ngram
namespace SuffixAutomaton
open WordAutomaton
open Set (mem_insert_iff)
open List (length_append length_singleton)

open Function (update update_self update_of_ne)
variable {α : Type} {s s' : SuffixAutomaton α} {w : List α} {token : α} {d : α} {p v t : Nat}
  {word : Nat → List α}

def view (s : SuffixAutomaton α) (word : Nat → List α) : WordAutomaton α where
  states := { v | v < s.size }
  word := word
  link v := (s.states v).link
  next v d := (s.states v).next d

def withNext (s : SuffixAutomaton α) (f : Nat → α → Option Nat) : SuffixAutomaton α :=
  { s with states := fun v => { s.states v with next := f v } }

lemma withNext_next (f : Nat → α → Option Nat) : ((s.withNext f).states v).next = f v := rfl

lemma withNext_link (f : Nat → α → Option Nat) : ((s.withNext f).states v).link =
    (s.states v).link := rfl

lemma withNext_self : s.withNext (fun v => (s.states v).next) = s := rfl

lemma link_bound {A : WordAutomaton α} (h : A.Reads w) (hp : p ∈ A.states) (hpw : A.word p <:+ w)
    (hv : v ∈ A.states) (hvw : A.word v <:+ w) (hlt : (A.word v).length < (A.word p).length)
    (ht : A.link p = some t) : (A.word v).length ≤ (A.word t).length := by
  by_contra hlong
  have hc : A.InClass p (A.word v) :=
    ⟨hp, List.suffix_of_suffix_length_le hvw hpw hlt.le, fun t' ht' => by
      grind⟩
  rw [h.unique p v _ hc (h.inClass_word hv)] at hlt
  exact lt_irrefl _ hlt

def Before (A : WordAutomaton α) (w : List α) (p : Option Nat) (v : Nat) : Prop :=
  v ∈ A.states ∧ A.word v <:+ w ∧ ∀ p', p = some p' → (A.word p').length < (A.word v).length

lemma before_link {A : WordAutomaton α} (h : A.Reads w) (hp : p ∈ A.states) (hpw : A.word p <:+ w) :
    Before A w (A.link p) v ↔ v = p ∨ Before A w (some p) v := by
  constructor
  · rintro ⟨hv, hvw, hlong⟩
    by_cases hvp : v = p
    · exact .inl hvp
    refine .inr ⟨hv, hvw, fun p' e => ?_⟩
    cases e
    by_contra hle
    rcases Nat.lt_or_eq_of_le (not_lt.mp hle) with hlt | heq
    swap
    · refine hvp (h.word_inj hv hp ?_)
      exact (List.suffix_of_suffix_length_le hvw hpw heq.le).eq_of_length heq
    rcases hl : A.link p with _ | t
    · -- only the initial state has no link, and its word is empty
      by_cases h0 : p = 0
      · rw [h0, h.root.2.1] at hlt
        exact Nat.not_lt_zero _ hlt
      · obtain ⟨t, -, e, -⟩ := h.link_mem p hp h0
        rw [hl] at e
        cases e
    have h1 := hlong t hl
    have h2 := link_bound h hp hpw hv hvw hlt hl
    omega
  rintro (rfl | ⟨hv, hvw, hlong⟩)
  · exact ⟨hp, hpw, fun t ht => (h.inClass_word hp).long t ht⟩
  · refine ⟨hv, hvw, fun t ht => ?_⟩
    exact ((h.inClass_word hp).long t ht).trans (hlong p rfl)

/-- A state on the walk, with the fuel for what is left of it. -/
def OnWalk (A : WordAutomaton α) (w : List α) (p : Option Nat) (fuel : Nat) : Prop :=
  ∀ v, p = some v → v ∈ A.states ∧ A.word v <:+ w ∧ (A.word v).length < fuel

lemma OnWalk.link {A : WordAutomaton α} (h : A.Reads w) {fuel : Nat}
    (hp : OnWalk A w (some p) (fuel + 1)) : OnWalk A w (A.link p) fuel := by
  intro t ht
  obtain ⟨hm, hs, hl⟩ := hp p rfl
  obtain ⟨htm, hts, htl⟩ := h.link_spec hm ht
  exact ⟨htm, hts.trans hs, by omega⟩

lemma not_before_self {A : WordAutomaton α} : ¬Before A w (some p) p := fun h => lt_irrefl _
    (h.2.2 p rfl)

open Classical in
noncomputable def led (A : WordAutomaton α) (w : List α) (token : α) (t : Nat) (on : Nat → Prop)
    (g : Nat → α → Option Nat) (p : Option Nat) (v : Nat) (d : α) : Option Nat :=
  if d = token ∧ Before A w p v ∧ on v then some t else g v d

variable {A : WordAutomaton α} {on : Nat → Prop} {g : Nat → α → Option Nat}

lemma led_self : led A w token t on g (some p) p token = g p token :=
  if_neg fun h => not_before_self h.2.1

lemma led_start {p : Option Nat} (h : ∀ v, Before A w p v → ¬on v) : led A w token t on g p = g := by
  funext v d
  exact if_neg fun x => h v x.2.1 x.2.2

lemma led_of_not_mem {p : Option Nat} (hv : v ∉ A.states) : led A w token t on g p v d = g v d :=
  if_neg fun x => hv x.2.1.1

lemma led_congr {p : Option Nat} {g' : Nat → α → Option Nat} (hv : g v d = g' v d) :
    led A w token t on g p v d = led A w token t on g' p v d := by
  unfold led
  rw [hv]

section
variable [DecidableEq α] {cur q clone : Nat}

lemma withNext_setNext (f : Nat → α → Option Nat) :
    (s.withNext f).setNext p token t = s.withNext (update f p (update (f p) token (some t))) := by
  unfold withNext setNext modifyState
  congr 1
  grind

lemma led_link (h : A.Reads w) (hp : p ∈ A.states) (hpw : A.word p <:+ w) (hon : on p) :
    update (led A w token t on g (some p)) p (update (led A w token t on g (some p) p) token (some t)) =
      led A w token t on g (A.link p) := by
  funext v d
  have hb := before_link (v := v) h hp hpw
  by_cases hv : v = p
  · subst hv
    rw [update_self]
    by_cases hd : d = token
    · subst hd
      rw [update_self, led, if_pos ⟨rfl, hb.mpr (.inl rfl), hon⟩]
    · rw [update_of_ne hd, led, led, if_neg fun x => hd x.1, if_neg fun x => hd x.1]
  · rw [update_of_ne hv, led, led]
    rw [propext (hb.trans (or_iff_right hv))]

/-- The first loop stops at the first state on the walk that has a transition. -/
lemma setMissing_spec (s : SuffixAutomaton α) (token : α) (cur : Nat) (g : Nat → α → Option Nat)
    (h : A.Reads w) (hlink : ∀ v ∈ A.states, (s.states v).link = A.link v)
    (fuel : Nat) (p : Option Nat) (hp : OnWalk A w p fuel)
    (hnone : ∀ v, Before A w p v → g v token = none) :
    ∃ p', setMissing token cur fuel p (s.withNext (led A w token cur (fun _ => True) g p)) =
        .ok (p', s.withNext (led A w token cur (fun _ => True) g p')) ∧
      (∀ v, p' = some v → v ∈ A.states ∧ A.word v <:+ w ∧ g v token ≠ none) ∧
      ∀ v, Before A w p' v → g v token = none := by
  induction fuel generalizing p with
  | zero =>
    cases p with
    | none => exact ⟨none, rfl, by simp, hnone⟩
    | some p => exact absurd (hp p rfl).2.2 (Nat.not_lt_zero _)
  | succ fuel ih => ?_
  rcases p with _ | p
  · exact ⟨none, rfl, by simp, hnone⟩
  obtain ⟨hm, hs, hl⟩ := hp p rfl
  have hnext : ((s.withNext (led A w token cur (fun _ => True) g (some p))).states p).next token =
      g p token := by rw [withNext_next, led_self]
  by_cases hg : g p token = none
  · rw [setMissing, if_pos (hnext.trans hg), withNext_setNext, led_link h hm hs trivial]
    rw [withNext_link, hlink p hm]
    refine ih (A.link p) (hp.link h) fun v hv => ?_
    rcases (before_link h hm hs).mp hv with rfl | hb
    · exact hg
    · exact hnone v hb
  · refine ⟨some p, ?_, fun v e => ?_, hnone⟩
    · rw [setMissing, if_neg (hnext.trans_ne hg)]
    grind

lemma redirect_spec (s : SuffixAutomaton α) (token : α) (q clone : Nat) (on : Nat → Prop)
    (g : Nat → α → Option Nat) (h : A.Reads w) (hlink : ∀ v ∈ A.states, (s.states v).link = A.link v)
    (hdown : ∀ v ∈ A.states, ∀ t, on v → A.link v = some t → on t)
    (hsome : ∀ v ∈ A.states, A.word v <:+ w → on v → g v token ≠ none)
    (fuel : Nat) (p : Option Nat) (hp : OnWalk A w p fuel) (hpon : ∀ v, p = some v → on v)
    (hall : ∀ v, Before A w p v → on v → g v token = some q) :
    ∃ p', redirect token q clone fuel p (s.withNext (led A w token clone on g p)) =
        .ok (s.withNext (led A w token clone on g p')) ∧
      (∀ v, p' = some v → v ∈ A.states ∧ A.word v <:+ w ∧ on v ∧ g v token ≠ some q) ∧
      ∀ v, Before A w p' v → on v → g v token = some q := by
  induction fuel generalizing p with
  | zero =>
    cases p with
    | none => exact ⟨none, rfl, by simp, hall⟩
    | some p => exact absurd (hp p rfl).2.2 (Nat.not_lt_zero _)
  | succ fuel ih => ?_
  rcases p with _ | p
  · exact ⟨none, rfl, by simp, hall⟩
  obtain ⟨hm, hs, hl⟩ := hp p rfl
  have hnext : ((s.withNext (led A w token clone on g (some p))).states p).next token = g p token := by
    rw [withNext_next, led_self]
  obtain ⟨t, ht⟩ := Option.ne_none_iff_exists'.mp (hsome p hm hs (hpon p rfl))
  rw [redirect, hnext, ht]
  dsimp only
  by_cases hq : t = q
  · subst hq
    rw [if_pos rfl, withNext_setNext, led_link h hm hs (hpon p rfl)]
    rw [withNext_link, hlink p hm]
    refine ih (A.link p) (hp.link h) (fun v hv => hdown p hm v (hpon p rfl) hv) fun v hv hon => ?_
    rcases (before_link h hm hs).mp hv with rfl | hb
    · exact ht
    · exact hall v hb hon
  refine ⟨some p, ?_, fun v e => ?_, hall⟩
  · exact if_neg hq
  cases e
  refine ⟨hm, hs, hpon _ rfl, fun e => ?_⟩
  rw [ht] at e
  exact hq (Option.some.inj e)
end

/-! ## The automaton built so far -/

/-- One occurrence for states that are not clones, and some place where the word ends. -/
structure Counted (x : SamState α) (u w : List α) : Prop where
  first : u <+: w → x.occCount = 1
  clone : ¬u <+: w → x.occCount = 0
  endPos : ∃ m : Nat, x.maxEndPos = (m : Int) - 1 ∧ EndsAt w u m

lemma Counted.concat {x : SamState α} {u : List α} (h : Counted x u w) : Counted x u (w ++ [token]) := by
  obtain ⟨m, hm, hu⟩ := h.endPos
  have hlen : u.length ≤ w.length := hu.length_le.trans hu.1
  have hpre : u <+: w ++ [token] ↔ u <+: w :=
    ⟨fun hp => List.prefix_of_prefix_length_le hp (List.prefix_append ..) hlen,
      fun hp => hp.trans (List.prefix_append _ _)⟩
  refine ⟨fun hp => h.first (hpre.mp hp), fun hp => h.clone fun hp' => hp (hpre.mpr hp'), m, hm, ?_⟩
  exact EndsAt.concat_iff.mpr (.inl hu)

structure Built (s : SuffixAutomaton α) (w : List α) (word : Nat → List α) : Prop where
  reads : (s.view word).Reads w
  strict : (s.view word).Strict w
  maxLen : ∀ v < s.size, (s.states v).maxLen = (word v).length
  last_lt : s.last < s.size
  last_word : word s.last = w
  counted : ∀ v < s.size, v ≠ 0 → Counted (s.states v) (word v) w
  size_le : s.size ≤ max 1 (2 * w.length)

lemma Built.append [DecidableEq α] {B : WordAutomaton α} {q cur : Nat} (hB : B.Reads w)
    (hcur : cur ∉ B.states) (hl : B.LongestOld w token q) (hs : ∀ v ∈ B.states, ∀ t, B.link v = some t →
      (∃ i, EndsAt w (B.word t) i ∧ ¬EndsAt w (B.word v) i) ∨
        B.word t <:+ w ++ [token] ∧ ¬B.word v <:+ w ++ [token])
    (hstates : ∀ v, v < s'.size ↔ v = cur ∨ v ∈ B.states)
    (hlink : ∀ v ∈ B.states, (s'.states v).link = B.link v) (hlinkc : (s'.states cur).link = some q)
    (hnext : ∀ v ∈ B.states, ∀ d, (s'.states v).next d = (B.append w token q cur).next v d)
    (hnextc : ∀ d, (s'.states cur).next d = none)
    (hlen : ∀ v ∈ B.states, (s'.states v).maxLen = (B.word v).length)
    (hlenc : (s'.states cur).maxLen = w.length + 1)
    (hcount : ∀ v ∈ B.states, v ≠ 0 → Counted (s'.states v) (B.word v) w)
    (hoccc : (s'.states cur).occCount = 1) (hposc : (s'.states cur).maxEndPos = w.length)
    (hlast : s'.last = cur) (hsize : s'.size ≤ 2 * (w.length + 1)) :
    Built s' (w ++ [token]) (B.append w token q cur).word := by
  set B' := B.append w token q cur
  have hword : ∀ v ∈ B.states, B'.word v = B.word v := fun v hv =>
    append_word_of_mem hcur hv
  have hwordc : B'.word cur = w ++ [token] := append_word_new
  have hag : B'.Agrees (s'.view B'.word) := by
    refine ⟨fun v => ?_, fun v _ => rfl, fun v hv => ?_, fun v hv d => ?_⟩
    · exact (hstates v).trans mem_insert_iff.symm
    · rcases mem_insert_iff.mp hv with rfl | hv
      · exact hlinkc.trans append_link_new.symm
      · exact (hlink v hv).trans (append_link_of_mem hcur hv).symm
    · rcases mem_insert_iff.mp hv with rfl | hv
      · exact (hnextc d).trans (if_pos rfl).symm
      · exact hnext v hv d
  have hreads := hB.append hcur hl
  refine ⟨hreads.agrees hag, hreads.agrees_strict (hB.append_strict hcur hl hs) hag, ?_, ?_, ?_, ?_, ?_⟩
  · grind
  · exact (hstates _).mpr (.inl hlast)
  · rw [hlast, hwordc]
  · intro v hv h0
    rcases (hstates v).mp hv with rfl | hv
    · rw [hwordc]
      refine ⟨fun _ => hoccc, fun hn => absurd List.prefix_rfl hn, w.length + 1, by omega, ?_⟩
      exact EndsAt.concat_iff.mpr (.inr ⟨rfl, List.suffix_rfl⟩)
    · rw [hword v hv]
      exact (hcount v hv h0).concat
  grind

/-! ## Where the first loop stops -/

section
variable {A : WordAutomaton α} {u z : List α} {i q : Nat}

section
variable (h : A.Reads w)
include h

lemma suffix_of_class (hc : A.InClass v u) (hu : u <:+ w) : A.word v <:+ w :=
  EndsAt.whole_iff.mp (h.same v u _ hc (.of_whole hu))

lemma old_bound {p : Option Nat} (hnone : ∀ v, Before A w p v → A.next v token = none)
    (hu : u <:+ w) (hi : EndsAt w (u ++ [token]) i) : ¬∀ P, p = some P →
    (A.word P).length < u.length := by
  intro hlong
  obtain ⟨v, hv⟩ := h.cover u _ (.of_whole hu)
  obtain ⟨t, ht, -⟩ := h.step v u token i hv hi
  have hb : Before A w p v :=
    ⟨hv.mem, suffix_of_class h hv hu, fun P e => (hlong P e).trans_le hv.suffix.length_le⟩
  rw [hnone v hb] at ht
  cases ht

lemma longestOld_root (hnone : ∀ v, Before A w none v → A.next v token = none) :
    A.LongestOld w token 0 := by
  refine ⟨h.root.1, ?_, fun u i hu hi => ?_⟩
  · rw [h.root.2.1]
    exact List.nil_suffix
  rcases List.eq_nil_or_concat' u with rfl | ⟨u', d, rfl⟩
  · exact Nat.zero_le _
  · obtain ⟨hu', rfl⟩ := snoc_suffix_concat.mp hu
    exact absurd (nofun) (old_bound h hnone hu' hi)

variable (hnone : ∀ v, Before A w (some p) v → A.next v token = none)
include hnone

lemma old_bound_some
    (hu : u <:+ w ++ [token]) (hi : EndsAt w u i) : u.length ≤ (A.word p).length + 1 := by
  rcases List.eq_nil_or_concat' u with rfl | ⟨u', d, rfl⟩
  · exact Nat.zero_le _
  · obtain ⟨hu', rfl⟩ := snoc_suffix_concat.mp hu
    have := old_bound h hnone hu' hi
    grind

lemma longestOld_of_length (hp : p ∈ A.states) (hpw : A.word p <:+ w) (hq : A.next p token = some q)
    (hlen : (A.word p).length + 1 = (A.word q).length) : A.LongestOld w token q := by
  have hc := h.step_class (h.inClass_word hp) hq
  have he : A.word p ++ [token] = A.word q := hc.suffix.eq_of_length (by simpa using hlen)
  refine ⟨hc.mem, ?_, fun u i hu hi => hlen ▸ old_bound_some h hnone hu hi⟩
  rw [← he]
  exact snoc_suffix_concat.mpr ⟨hpw, rfl⟩
end

structure Cut (A : WordAutomaton α) (w : List α) (token : α) (p q : Nat) : Prop where
  mem : p ∈ A.states
  suffix : A.word p <:+ w
  next : A.next p token = some q
  short : (A.word p).length + 1 < (A.word q).length
  none : ∀ v, Before A w (some p) v → A.next v token = none

namespace Cut
variable (hc : Cut A w token p q) (h : A.Reads w) {k : Nat}
include hc h

lemma inClass : A.InClass q (A.word p ++ [token]) := h.step_class (h.inClass_word hc.mem) hc.next

lemma on_walk (hv : A.InClass v u) (hd : A.next v d = some q) (hle : u.length ≤ (A.word p).length) :
    u <:+ A.word p ∧ d = token := by
  have hu := h.step_class hv hd
  have hsuf : u ++ [d] <:+ A.word p ++ [token] :=
    List.suffix_of_suffix_length_le hu.suffix (hc.inClass h).suffix (by simpa using hle)
  exact snoc_suffix_concat.mp hsuf

lemma clean : A.CutClean q (A.word p ++ [token]) := by
  intro v u d hv hd hle
  rw [length_append, length_singleton] at hle ⊢
  obtain ⟨hu, rfl⟩ := hc.on_walk h hv hd (by omega)
  have hvw := suffix_of_class h hv (hu.trans hc.suffix)
  obtain ⟨i, hi⟩ := h.step_occurs v hv.mem d q hd
  have := old_bound_some h hc.none (snoc_suffix_concat.mpr ⟨hvw, rfl⟩) hi
  rwa [length_append, length_singleton] at this

lemma word_occurs : ∃ i, EndsAt w (A.word p ++ [token]) i := h.step_occurs p hc.mem token q hc.next

omit h in
lemma word_suffix : A.word p ++ [token] <:+ w ++ [token] := snoc_suffix_concat.mpr ⟨hc.suffix, rfl⟩

omit h in
lemma length_lt : (A.word p ++ [token]).length < (A.word q).length := by
  rw [length_append, length_singleton]
  exact hc.short

lemma not_suffix : ¬A.word q <:+ w ++ [token] := by
  intro hq
  obtain ⟨i, hi⟩ := h.occurs q (hc.inClass h).mem
  have := old_bound_some h hc.none hq hi
  have := hc.short
  omega

lemma reads (hk : k ∉ A.states) : (A.split q k (A.word p ++ [token])).Reads w :=
  h.split hk (hc.inClass h) hc.length_lt (hc.clean h)

lemma longestOld : (A.split q k (A.word p ++ [token])).LongestOld w token k := by
  refine ⟨Set.mem_insert .., ?_, fun u i hu hi => ?_⟩
  · rw [split_word_new]
    exact hc.word_suffix
  · rw [split_word_new, length_append, length_singleton]
    exact old_bound_some h hc.none hu hi

lemma strict (hs : A.Strict w) (hk : k ∉ A.states) (hv : v ∈ (A.split q k (A.word p ++ [token])).states)
    (ht : (A.split q k (A.word p ++ [token])).link v = some t) :
    (∃ i, EndsAt w ((A.split q k (A.word p ++ [token])).word t) i ∧
        ¬EndsAt w ((A.split q k (A.word p ++ [token])).word v) i) ∨
      (A.split q k (A.word p ++ [token])).word t <:+ w ++ [token] ∧
        ¬(A.split q k (A.word p ++ [token])).word v <:+ w ++ [token] := by
  have hq := (hc.inClass h).mem
  rcases mem_insert_iff.mp hv with rfl | hv
  · rw [split_link_new hk hq] at ht
    obtain ⟨i, hi, hn⟩ := hs q hq t ht
    rw [split_word_new, split_word_of_mem hk (h.mem_of_link hq ht)]
    exact .inl ⟨i, hi, fun hz => hn (h.same q _ i (hc.inClass h) hz)⟩
  rw [split_word_of_mem hk hv]
  by_cases hvq : v = q
  · subst hvq
    rw [split_link_self] at ht
    cases ht
    rw [split_word_new]
    exact .inr ⟨hc.word_suffix, hc.not_suffix h⟩
  · rw [split_link_old hk hv hvq] at ht
    rw [split_word_of_mem hk (h.mem_of_link hv ht)]
    exact .inl (hs v hv t ht)

lemma next_ne_none (hv : v ∈ A.states) (hvw : A.word v <:+ w)
    (hle : (A.word v).length ≤ (A.word p).length) : A.next v token ≠ Option.none := by
  obtain ⟨i, hi⟩ := hc.word_occurs h
  have hsuf : A.word v ++ [token] <:+ A.word p ++ [token] :=
    snoc_suffix_concat.mpr ⟨List.suffix_of_suffix_length_le hvw hc.suffix hle, rfl⟩
  obtain ⟨t, ht, -⟩ := h.step v _ token i (h.inClass_word hv) (hi.of_suffix hsuf)
  rw [ht]
  exact Option.some_ne_none t

lemma next_between {e : Nat} (he : e ∈ A.states) (hew : A.word e <:+ w)
    (hep : (A.word e).length ≤ (A.word p).length) (hv : v ∈ A.states) (hvq : A.next v token = some q)
    (hve : (A.word v).length ≤ (A.word e).length) : A.next e token = some q := by
  obtain ⟨i, hi⟩ := hc.word_occurs h
  have hsuf : A.word e ++ [token] <:+ A.word p ++ [token] :=
    snoc_suffix_concat.mpr ⟨List.suffix_of_suffix_length_le hew hc.suffix hep, rfl⟩
  have hq := hc.inClass h
  have hin : A.InClass q (A.word e ++ [token]) := by
    refine ⟨hq.mem, hsuf.trans hq.suffix, fun t ht => ?_⟩
    have := (h.step_class (h.inClass_word hv) hvq).long t ht
    rw [length_append] at this ⊢
    omega
  obtain ⟨t, ht, htc⟩ := h.step e _ token i (h.inClass_word he) (hi.of_suffix hsuf)
  rw [ht, h.unique t q _ htc hin]
end Cut
end

variable {A : WordAutomaton α} {x : SamState α} {pos : Int} {q : Nat} {f f' : Nat → α → Option Nat}

def withCur (s : SuffixAutomaton α) (pos : Int) : SuffixAutomaton α :=
  s.pushState { maxLen := (s.states s.last).maxLen + 1, occCount := 1, maxEndPos := pos }

lemma pushState_of_ne (hv : v ≠ s.size) : (s.pushState x).states v = s.states v :=
  update_of_ne hv _ _

lemma pushState_new : (s.pushState x).states s.size = x := update_self ..

lemma setLink_self : (s.setLink v t).states v = { s.states v with link := some t } := update_self ..

lemma setLink_of_ne {v' : Nat} (hv : v' ≠ v) : (s.setLink v t).states v' = s.states v' :=
  update_of_ne hv _ _

lemma withCur_of_ne (hv : v ≠ s.size) : (s.withCur pos).states v = s.states v := pushState_of_ne hv

def withClone (s : SuffixAutomaton α) (p q : Nat) : SuffixAutomaton α :=
  s.pushState { s.states q with maxLen := (s.states p).maxLen + 1, occCount := 0 }

lemma Cut.counted_clone (hc : Cut A w token p q) (h : A.Reads w) (hq : Counted x (A.word q) w)
    {y : SamState α} (hocc : y.occCount = 0) (hend : y.maxEndPos = x.maxEndPos) : Counted y
    (A.word p ++ [token]) w := by
  obtain ⟨m, hm, hu⟩ := hq.endPos
  refine ⟨fun hp => ?_, fun _ => hocc, m, hend.trans hm, hu.of_suffix (hc.inClass h).suffix⟩
  have hat : EndsAt w (A.word p ++ [token]) (A.word p ++ [token]).length :=
    ⟨hp.length_le, by rw [← List.prefix_iff_eq_take.mp hp]⟩
  have := (h.same q _ _ (hc.inClass h) hat).length_le
  have := hc.length_lt
  omega

def cloned (s : SuffixAutomaton α) (pos : Int) (f f' : Nat → α → Option Nat) (p q : Nat) : SuffixAutomaton α :=
  { (((((s.withCur pos).withNext f).withClone p q).withNext f').setLink q (s.size + 1)).setLink s.size
      (s.size + 1) with last := s.size }

lemma withClone_of_ne (hv : v ≠ s.size + 1) :
    ((((s.withCur pos).withNext f).withClone p q).withNext f').states v =
      { (s.withCur pos).states v with next := f' v } := by
  change { (((s.withCur pos).withNext f).withClone p q).states v with next := f' v } = _
  have hne : v ≠ ((s.withCur pos).withNext f).size := hv
  rw [withClone, pushState_of_ne hne]
  rfl

lemma cloned_old (hv : v < s.size) (hvq : v ≠ q) :
    (s.cloned pos f f' p q).states v = { s.states v with next := f' v } := by
  change (setLink (setLink _ q (s.size + 1)) s.size (s.size + 1)).states v = _
  rw [setLink_of_ne (by omega), setLink_of_ne hvq, withClone_of_ne (by omega), withCur_of_ne (by omega)]

lemma cloned_self (hq : q < s.size) :
    (s.cloned pos f f' p q).states q =
    { s.states q with next := f' q, link := some (s.size + 1) } := by
  change (setLink (setLink _ q (s.size + 1)) s.size (s.size + 1)).states q = _
  rw [setLink_of_ne (by omega), setLink_self, withClone_of_ne (by omega), withCur_of_ne (by omega)]

lemma cloned_clone (hp : p < s.size) (hq : q < s.size) :
    (s.cloned pos f f' p q).states (s.size + 1) =
      { s.states q with maxLen := (s.states p).maxLen + 1, occCount := 0, next := f' (s.size + 1) } := by
  set t := ((s.withCur pos).withNext f)
  change (setLink (setLink _ q (s.size + 1)) s.size (s.size + 1)).states (s.size + 1) = _
  rw [setLink_of_ne (by omega), setLink_of_ne (by omega)]
  have hnew : (t.withClone p q).states (s.size + 1) =
      { t.states q with
        maxLen := (t.states p).maxLen + 1, occCount := 0 } := pushState_new
  change { (t.withClone p q).states (s.size + 1) with next := f' (s.size + 1) } = _
  rw [hnew]
  change { (s.withCur pos).states q with
    maxLen := ((s.withCur pos).states p).maxLen + 1, occCount := 0, next := f' (s.size + 1) } = _
  rw [withCur_of_ne (by omega), withCur_of_ne (by omega)]

lemma cloned_cur (hq : q < s.size) :
    (s.cloned pos f f' p q).states s.size =
      { link := some (s.size + 1), maxLen := (s.states s.last).maxLen + 1, next := f' s.size, occCount := 1,
        maxEndPos := pos } := by
  change (setLink (setLink _ q (s.size + 1)) s.size (s.size + 1)).states s.size = _
  rw [setLink_self, setLink_of_ne (by omega), withClone_of_ne (by omega), withCur, pushState_new]

lemma fresh_clone {z : List α} : s.size + 1 ∉ (s.view word).states ∧
    s.size ∉ ((s.view word).split q (s.size + 1) z).states := by
  have hk : ¬s.size + 1 < s.size := by omega
  refine ⟨hk, fun hv => ?_⟩
  rcases mem_insert_iff.mp hv with e | hv
  · omega
  · exact lt_irrefl s.size hv

variable [DecidableEq α] {cur clone : Nat} {g : Nat → α → Option Nat}

lemma Cut.led_led (hc : Cut A w token p q) (h : A.Reads w) (hk : clone ∉ A.states)
    (hcur : cur ∉ (A.split q clone (A.word p ++ [token])).states) {p' : Option Nat}
    (hstop : ∀ e, p' = some e →
      e ∈ A.states ∧ A.word e <:+ w ∧ (A.word e).length ≤ (A.word p).length ∧ A.next e token ≠ some q)
    (hall : ∀ v, Before A w p' v → (A.word v).length ≤ (A.word p).length → A.next v token = some q)
    (hg : ∀ d, g v d = led A w token cur (fun _ => True) A.next (some p) v d) (hv : v ∈ A.states) :
    led A w token clone (fun v => (A.word v).length ≤ (A.word p).length) g p' v d =
      ((A.split q clone (A.word p ++ [token])).append w token clone cur).next v d := by
  rw [append_next_of_mem hcur (Set.mem_insert_of_mem _ hv), split_word_of_mem hk hv, split_word_new,
    split_next_of_mem hk hv, length_append, length_singleton]
  unfold led
  rw [hg d]
  unfold led
  by_cases hnew : d = token ∧ A.word v <:+ w ∧ (A.word p).length + 1 ≤ (A.word v).length
  · -- a state before the stop of the first loop
    obtain ⟨hd, hvw, hlt⟩ := hnew
    have hb : Before A w (some p) v := by
      refine ⟨hv, hvw, fun p' e => ?_⟩
      cases e
      exact hlt
    grind
  rw [if_neg hnew]
  have hnb : ¬(d = token ∧ Before A w (some p) v ∧ True) := by
    rintro ⟨hd, hb, -⟩
    exact hnew ⟨hd, hb.2.1, hb.2.2 p rfl⟩
  rw [if_neg hnb]
  by_cases hq : A.next v d = some q ∧ (A.word v).length + 1 ≤ (A.word p).length + 1
  · obtain ⟨hnext, hle⟩ := hq
    obtain ⟨hsuf, rfl⟩ := hc.on_walk h (h.inClass_word hv) hnext (by omega)
    have hb : Before A w p' v := by
      refine ⟨hv, hsuf.trans hc.suffix, fun e he => ?_⟩
      obtain ⟨hem, hew, hep, hne⟩ := hstop e he
      by_contra hle'
      exact hne (hc.next_between h hem hew hep hv hnext (not_lt.mp hle'))
    rw [if_pos ⟨rfl, hb, by omega⟩, if_pos ⟨hnext, hle⟩]
  grind

lemma Cut.led_clone (hc : Cut A w token p q) (h : A.Reads w)
    (hcur : cur ∉ (A.split q clone (A.word p ++ [token])).states) :
    led A w token cur (fun _ => True) A.next (some p) q d =
      ((A.split q clone (A.word p ++ [token])).append w token clone cur).next clone d := by
  rw [append_next_of_mem hcur (Set.mem_insert ..), split_word_new, split_next_new, led]
  have hq := hc.inClass h
  have hiff : A.word q <:+ w ↔ A.word p ++ [token] <:+ w :=
    ⟨fun hs => hq.suffix.trans hs, fun hs => suffix_of_class h hq hs⟩
  have hb : Before A w (some p) q ↔ A.word p ++ [token] <:+ w := by
    refine ⟨fun hb => hiff.mp hb.2.1, fun hs => ⟨hq.mem, hiff.mpr hs, fun p' e => ?_⟩⟩
    cases e
    have := hc.short
    omega
  rw [propext hb]
  simp

lemma Cut.redirect (hc : Cut A w token p q) (s : SuffixAutomaton α) (cur clone fuel : Nat)
    (h : A.Reads w) (hlink : ∀ v ∈ A.states, (s.states v).link = A.link v)
    (hnext : ∀ v ∈ A.states, ∀ d, (s.states v).next d = led A w token cur (fun _ => True) A.next (some p) v d)
    (hk : clone ∉ A.states) (hcur : cur ∉ (A.split q clone (A.word p ++ [token])).states)
    (hfuel : w.length < fuel) :
    ∃ f, redirect token q clone fuel (some p) s = .ok (s.withNext f) ∧
      (∀ v ∈ A.states, ∀ d,
        f v d = ((A.split q clone (A.word p ++ [token])).append w token clone cur).next v d) ∧
      ∀ v ∉ A.states, ∀ d, f v d = (s.states v).next d := by
  have hold : ∀ v ∈ A.states, (A.word v).length ≤ (A.word p).length → (s.states v).next token = A.next v token := by
    intro v hv hle
    rw [hnext v hv, led, if_neg]
    rintro ⟨-, hb, -⟩
    have := hb.2.2 p rfl
    omega
  obtain ⟨p', e, hstop, hall⟩ := redirect_spec s token q clone
    (fun v => (A.word v).length ≤ (A.word p).length) (fun v => (s.states v).next) h hlink
    (fun v hm t hv ht => ((h.inClass_word hm).long t ht).le.trans hv)
    (fun v hv hvw hle => by
      rw [hold v hv hle]
      exact hc.next_ne_none h hv hvw hle)
    fuel (some p)
    (by
      intro v hv
      cases hv
      exact ⟨hc.mem, hc.suffix, hc.suffix.length_le.trans_lt hfuel⟩)
    (fun v hv => by rw [Option.some.inj hv])
    (fun v hv hle => absurd (hv.2.2 p rfl) (not_lt.mpr hle))
  rw [led_start fun v hv hle => absurd (hv.2.2 p rfl) (not_lt.mpr hle), withNext_self] at e
  refine ⟨_, e, fun v hv d => ?_, fun v hv d => led_of_not_mem hv⟩
  refine hc.led_led h hk hcur ?_ ?_ (hnext v hv) hv
  · grind
  · intro v hv hle
    rw [← hold v hv.1 hle]
    exact hall v hv hle

lemma led_eq_append {p : Option Nat} (hcur : cur ∉ A.states) (hv : v ∈ A.states)
    (hb : ∀ P, p = some P → (A.word P).length + 1 = (A.word q).length)
    (hn : p = none → A.word q = []) :
    led A w token cur (fun _ => True) A.next p v d = (A.append w token q cur).next v d := by
  rw [append_next_of_mem hcur hv, led]
  have hiff : Before A w p v ∧ True ↔ A.word v <:+ w ∧ (A.word q).length ≤ (A.word v).length := by
    rcases p with _ | P
    · simp [Before, hv, hn rfl]
    have := hb P rfl
    simp only [Before, hv, true_and, and_true, Option.some.injEq, forall_eq', ← this, Nat.succ_le_iff]
  grind

variable (h : Built s w word)
include h

lemma Built.link (hpos : pos = w.length) {f : Nat → α → Option Nat}
    (hl : (s.view word).LongestOld w token q)
    (hf : ∀ v ∈ (s.view word).states, ∀ d, f v d = ((s.view word).append w token q s.size).next v d)
    (hfc : ∀ d, f s.size d = none) :
    Built { ((s.withCur pos).withNext f).setLink s.size q with last := s.size } (w ++ [token])
      ((s.view word).append w token q s.size).word := by
  have hne : ∀ v ∈ (s.view word).states, v ≠ s.size := fun v hv => ne_of_lt hv
  have hold : ∀ v ∈ (s.view word).states, (((s.withCur pos).withNext f).setLink s.size q).states v =
    { s.states v with next := f v } := by
    intro v hv
    rw [setLink_of_ne (hne v hv)]
    change { (s.withCur pos).states v with next := f v } = _
    rw [withCur_of_ne (hne v hv)]
  have hnew : (((s.withCur pos).withNext f).setLink s.size q).states s.size =
      { link := some q, maxLen := w.length + 1, next := f s.size, occCount := 1, maxEndPos := pos } := by
    rw [setLink_self]
    change { (s.withCur pos).states s.size with next := f s.size, link := some q } = _
    rw [withCur, pushState_new, h.maxLen _ h.last_lt, h.last_word]
  have hsize := h.size_le
  refine .append h.reads (fun hv => lt_irrefl s.size hv) hl (fun v hv t ht => .inl (h.strict v hv t ht))
    ?_ ?_ ?_ ?_ ?_ ?_ ?_ ?_ ?_ ?_ rfl ?_
  · intro v
    change v < s.size + 1 ↔ v = s.size ∨ v < s.size
    omega
  · intro v hv
    rw [hold v hv]
    rfl
  · rw [hnew]
  · intro v hv d
    rw [hold v hv]
    exact hf v hv d
  · intro d
    rw [hnew]
    exact hfc d
  · intro v hv
    rw [hold v hv]
    exact h.maxLen v hv
  · rw [hnew]
  · intro v hv h0
    rw [hold v hv]
    obtain ⟨h1, h2, h3⟩ := h.counted v hv h0
    exact ⟨h1, h2, h3⟩
  · rw [hnew]
  · rw [hnew, hpos]
  · change s.size + 1 ≤ 2 * (w.length + 1)
    omega

lemma Built.cloned (hpos : pos = w.length) (hc : Cut (s.view word) w token p q)
    (hf : ∀ v ∈ insert (s.size + 1) (s.view word).states, ∀ d, f' v d =
      (((s.view word).split q (s.size + 1) (word p ++ [token])).append w token (s.size + 1) s.size).next v d)
        (hfc : ∀ d, f' s.size d = none) : Built (s.cloned pos f f' p q) (w ++ [token])
      (((s.view word).split q (s.size + 1) (word p ++ [token])).append w token (s.size + 1) s.size).word := by
  set split := ((s.view word).split q (s.size + 1) (word p ++ [token]))
  have hq : q < s.size := (hc.inClass h.reads).mem
  have hp : p < s.size := hc.mem
  obtain ⟨hk, hcur⟩ : _ ∧ s.size ∉ split.states := fresh_clone
  have hw : 1 ≤ w.length := by
    obtain ⟨i, hi⟩ := hc.word_occurs h.reads
    have := hi.length_le.trans hi.1
    grind
  have hsize := h.size_le
  have hword : ∀ v ∈ (s.view word).states,
      split.word v = word v := fun v hv => split_word_of_mem hk hv
  have hstate : ∀ v ∈ (s.view word).states, ∃ l,
      (s.cloned pos f f' p q).states v = { s.states v with next := f' v, link := l } ∧
        l = split.link v := by
    intro v hv
    by_cases hvq : v = q
    · subst hvq
      exact ⟨_, cloned_self hv, split_link_self.symm⟩
    · exact ⟨_, cloned_old hv hvq, (split_link_old hk hv hvq).symm⟩
  refine .append (hc.reads h.reads hk) hcur (hc.longestOld h.reads)
    (fun v hv t ht => hc.strict h.reads h.strict hk hv ht) ?_ ?_ ?_ ?_ ?_ ?_ ?_ ?_ ?_ ?_ rfl ?_
  · intro v
    change v < s.size + 1 + 1 ↔ v = s.size ∨ v ∈ insert (s.size + 1) (s.view word).states
    rw [mem_insert_iff]
    change _ ↔ v = s.size ∨ v = s.size + 1 ∨ v < s.size
    omega
  · intro v hv
    rcases mem_insert_iff.mp hv with rfl | hv
    · rw [cloned_clone hp hq]
      exact (split_link_new hk hq).symm
    grind
  · rw [cloned_cur hq]
  · intro v hv d
    rw [← hf v hv d]
    rcases mem_insert_iff.mp hv with rfl | hv
    · rw [cloned_clone hp hq]
    · obtain ⟨l, e, -⟩ := hstate v hv
      rw [e]
  · intro d
    rw [cloned_cur hq]
    exact hfc d
  · intro v hv
    rcases mem_insert_iff.mp hv with rfl | hv
    · rw [cloned_clone hp hq, h.maxLen p hp, split_word_new, length_append, length_singleton]
    · obtain ⟨l, e, -⟩ := hstate v hv
      rw [e, hword v hv]
      exact h.maxLen v hv
  · rw [cloned_cur hq, h.maxLen _ h.last_lt, h.last_word]
  · intro v hv h0
    rcases mem_insert_iff.mp hv with rfl | hv
    · rw [split_word_new]
      have hq0 : q ≠ 0 := by
        rintro rfl
        have := hc.short
        rw [h.reads.root.2.1] at this
        exact Nat.not_lt_zero _ this
      exact hc.counted_clone h.reads (h.counted q hq hq0) (by rw [cloned_clone hp hq]) (by rw [cloned_clone hp hq])
    obtain ⟨l, e, -⟩ := hstate v hv
    rw [e, hword v hv]
    obtain ⟨h1, h2, h3⟩ := h.counted v hv h0
    exact ⟨h1, h2, h3⟩
  · rw [cloned_cur hq]
  · rw [cloned_cur hq, hpos]
  · change s.size + 1 + 1 ≤ 2 * (w.length + 1)
    omega

lemma Built.setMissing (token : α) (pos : Int) :
    ∃ p, setMissing token s.size ((s.states s.last).maxLen + 1) (some s.last) (s.withCur pos) =
        .ok (p, (s.withCur pos).withNext (led (s.view word) w token s.size (fun _ => True)
          (fun v => ((s.withCur pos).states v).next) p)) ∧
      (∀ v, p = some v → v < s.size ∧ word v <:+ w ∧ (s.states v).next token ≠ none) ∧
      ∀ v, Before (s.view word) w p v → (s.states v).next token = none := by
  have hnot : ∀ v, ¬Before (s.view word) w (some s.last) v := by
    rintro v ⟨hv, hvw, hlong⟩
    have := hlong s.last rfl
    change (word s.last).length < (word v).length at this
    rw [h.last_word] at this
    exact absurd hvw.length_le (not_le.mpr this)
  have hnext : ∀ v < s.size, ((s.withCur pos).states v).next = (s.states v).next := fun v hv => by
    rw [withCur_of_ne (by omega)]
  obtain ⟨p, e, hp, hnone⟩ := setMissing_spec (s.withCur pos) token s.size
    (fun v => ((s.withCur pos).states v).next) h.reads
    (fun v hv => by rw [withCur_of_ne (ne_of_lt hv)]; rfl) ((s.states s.last).maxLen + 1)
    (some s.last)
    (by
      intro v hv
      cases hv
      refine ⟨h.last_lt, ?_, ?_⟩
      · change word s.last <:+ w
        rw [h.last_word]
      · rw [h.maxLen _ h.last_lt]
        exact Nat.lt_succ_self _)
    (fun v hv => absurd hv (hnot v))
  rw [led_start fun v hv => absurd hv (hnot v), withNext_self] at e
  refine ⟨p, e, fun v hv => ?_, fun v hv => ?_⟩
  · obtain ⟨hm, hs, hg⟩ := hp v hv
    exact ⟨hm, hs, by rwa [hnext v hm] at hg⟩
  · rw [← hnext v hv.1]
    exact hnone v hv

lemma Built.extend (token : α) (hpos : pos = w.length) :
    ∃ s' word', s.extend token pos = .ok s' ∧ Built s' (w ++ [token]) word' ∧ s'.pos = s.pos ∧
      s'.sawToken = s.sawToken ∧ s'.finalized = s.finalized := by
  obtain ⟨p, e, hp, hnone⟩ := h.setMissing token pos
  have hext : s.extend token pos =
      (SuffixAutomaton.setMissing token s.size ((s.states s.last).maxLen + 1) (some s.last) (s.withCur pos)).bind
        fun r => r.2.linkNew token s.size ((s.states s.last).maxLen + 1) r.1 := rfl
  rw [hext, e]
  set A := s.view word
  set f := led A w token s.size (fun _ => True) (fun v => ((s.withCur pos).states v).next) p with hf
  have hcur : s.size ∉ A.states := fun hv => lt_irrefl s.size hv
  have hfA : ∀ v ∈ A.states, ∀ d, f v d = led A w token s.size (fun _ => True) A.next p v d := by
    intro v hv d
    refine led_congr ?_
    rw [withCur_of_ne (ne_of_lt hv)]
    rfl
  have hfc : ∀ d, f s.size d = none := by
    intro d
    rw [hf, led_of_not_mem hcur, withCur, pushState_new]
  rcases p with _ | p
  · refine ⟨_, _, rfl, h.link hpos (longestOld_root h.reads hnone) (fun v hv d => ?_) hfc, rfl, rfl, rfl⟩
    rw [hfA v hv]
    exact led_eq_append hcur hv (by simp) fun _ => h.reads.root.2.1
  obtain ⟨hm, hs, hne⟩ := hp p rfl
  obtain ⟨q, hq⟩ := Option.ne_none_iff_exists'.mp hne
  have hqc : A.InClass q (word p ++ [token]) := h.reads.step_class (h.reads.inClass_word hm) hq
  have hqs : q < s.size := hqc.mem
  set t := (s.withCur pos).withNext f
  have hget : ((t.states p).next token).getD 0 = q := by
    rw [withNext_next, hfA p hm, led_self]
    change ((s.states p).next token).getD 0 = q
    rw [hq]
    rfl
  have hlen : ∀ v < s.size, (t.states v).maxLen = (word v).length := by
    intro v hv
    rw [← h.maxLen v hv]
    change ((s.withCur pos).states v).maxLen = _
    rw [withCur_of_ne (by omega)]
  change ∃ s' word', linkOrClone _ token s.size p _ _ = _ ∧ _
  rw [hget, linkOrClone]
  by_cases hl : (word p).length + 1 = (word q).length
  · rw [if_pos (by rw [hlen p hm, hlen q hqs, hl])]
    refine ⟨_, _, rfl, h.link hpos (longestOld_of_length h.reads hnone hm hs hq hl) (fun v hv d => ?_) hfc,
      rfl, rfl, rfl⟩
    rw [hfA v hv]
    exact led_eq_append hcur hv (fun P e => Option.some.inj e ▸ hl) (by simp)
  rw [if_neg (by rwa [hlen p hm, hlen q hqs])]
  have hshort : (word p).length + 1 < (word q).length := by
    have := hqc.suffix.length_le
    rw [length_append, length_singleton] at this
    exact lt_of_le_of_ne this hl
  have hc : Cut A w token p q := ⟨hm, hs, hq, hshort, hnone⟩
  obtain ⟨hk, hcur'⟩ : _ ∧ s.size ∉ (A.split q (s.size + 1) (word p ++ [token])).states := fresh_clone
  have hst : ∀ v ∈ A.states, (t.withClone p q).states v = { s.states v with next := f v } := by
    intro v hv
    have hv' : v < s.size := hv
    have hne : v ≠ t.size := by
      change v ≠ s.size + 1
      omega
    rw [withClone, pushState_of_ne hne]
    change { (s.withCur pos).states v with next := f v } = _
    rw [withCur_of_ne (by omega)]
  obtain ⟨f', e', hf', hrest⟩ := hc.redirect (t.withClone p q) s.size
    (s.size + 1) ((s.states s.last).maxLen + 1) h.reads
    (fun v hv => by rw [hst v hv]; rfl) (fun v hv d => by rw [hst v hv]; exact hfA v hv d) hk hcur'
    (by rw [h.maxLen _ h.last_lt, h.last_word]; exact Nat.lt_succ_self _)
  refine ⟨s.cloned pos f f' p q, _, ?_, h.cloned hpos hc (fun v hv d => ?_) (fun d => ?_), rfl, rfl, rfl⟩
  · exact congrArg (fun r => Except.bind r _) e'
  · rcases mem_insert_iff.mp hv with rfl | hv
    · have hnew : (t.withClone p q).states (s.size + 1) =
          { t.states q with
            maxLen := (t.states p).maxLen + 1, occCount := 0 } := pushState_new
      rw [hrest _ hk, hnew]
      exact (hfA q hqs d).trans (hc.led_clone h.reads hcur')
    · exact hf' v hv d
  · have hne : s.size ≠ t.size := ne_of_lt (Nat.lt_succ_self _)
    rw [hrest _ hcur, withClone, pushState_of_ne hne]
    exact hfc d
end SuffixAutomaton
end Sglang.Ngram
