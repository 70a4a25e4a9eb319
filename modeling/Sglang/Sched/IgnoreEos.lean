import Sglang.Sched.PrefillAdder

/-!
# Requests that ignore the end of sequence

`add_one_req_ignore_eos` lets the requests of its list generate to their ends before it admits
another one. The list is meant to be in ascending order. An entry that is larger than all others is
inserted before the last one.
-/

namespace Sglang.PrefillAdder
open List
variable {ad ad' : PrefillAdder} {r : Req} {states : List (ℚ × Nat)} {x : ℚ × Nat}

section
variable (states : List (ℚ × Nat)) (ad : PrefillAdder) (r : Req)

def Ascending : Prop := states.Pairwise fun x y => x.1 ≤ y.1

/-- What the listed requests need at step `t` beyond what they occupy: a token for each step, until
they end and leave what they occupy. -/
def needAt (t : Nat) : ℚ :=
  (states.map fun x => if (t : ℚ) ≤ x.1 then (t : ℚ) else -x.2).sum

def pagedInput : Int :=
  ad.ceilPagedTokens (r.tokens.length - r.prefixIndices.length)

/-- The request is refused before it is put on the list. -/
def Refused : Prop :=
  (ad.pagedInput r : ℚ) > min (ad.curRemTokens : ℚ) ad.remTotalTokens

/-- The entry of a request that is put on the list is not larger than the last one. -/
def InOrder : Prop :=
  ¬ad.Refused r → ∀ states ∈ ad.reqStates, ∀ x ∈ ad.reqState r, ∀ y ∈ states.getLast?, x.1 ≤ y.1

/-- One call; one that raises is not followed by another. -/
def nextIgnoreEos : PrefillAdder :=
  match ad.addOneReqIgnoreEos r with
  | .ok (_, ad') => ad'
  | .error _ => ad
end

/-! ## The order -/

lemma insertState_cons {y : ℚ × Nat} (hx : ¬x.1 ≤ y.1) (hs : states ≠ []) :
    insertState (y :: states) x = y :: insertState states x := by
  obtain ⟨n, hn⟩ := Nat.exists_eq_succ_of_ne_zero (mt length_eq_zero_iff.mp hs)
  unfold insertState
  cases hi : states.findIdx? fun z => x.1 ≤ z.1 with
  | none => simp [findIdx?_cons, hx, hi, hn]
  | some i => simp [findIdx?_cons, hx, hi]

lemma ascending_insertState (hs : Ascending states) :
    Ascending (insertState states x) ↔ ∀ y ∈ states.getLast?, x.1 ≤ y.1 := by
  induction states with
  | nil => simp [insertState, Ascending]
  | cons y states ih => ?_
  obtain ⟨hy, hs'⟩ := pairwise_cons.mp hs
  by_cases hx : x.1 ≤ y.1
  · have hall : ∀ z ∈ y :: states, x.1 ≤ z.1 :=
      forall_mem_cons.mpr ⟨hx, fun z hz => hx.trans (hy z hz)⟩
    have hfirst : insertState (y :: states) x = x :: y :: states := by
      simp [insertState, findIdx?_cons, hx]
    rw [hfirst]
    exact iff_of_true (pairwise_cons.mpr ⟨hall, hs⟩) fun z hz => hall z (mem_of_getLast? hz)
  by_cases hne : states = []
  · subst hne
    simp [insertState, findIdx?_cons, hx, Ascending]
  · rw [insertState_cons hx hne, getLast?_cons_of_ne_nil hne, ← ih hs']
    refine pairwise_cons.trans (and_iff_right fun z hz => ?_)
    rcases eq_or_mem_of_mem_insertIdx hz with rfl | hz
    · exact (not_le.mp hx).le
    · exact hy z hz

/-! ## The simulation -/

lemma needAt_le (states : List (ℚ × Nat)) (t : Nat) : needAt states t ≤ t * states.length := by
  induction states with
  | nil => simp [needAt]
  | cons x states ih =>
    simp only [needAt, map_cons, sum_cons, length_cons, Nat.cast_succ] at ih ⊢
    have : (0 : ℚ) ≤ x.2 := Nat.cast_nonneg _
    have : (0 : ℚ) ≤ t := Nat.cast_nonneg _
    split <;> linarith

/-- The first request that has not ended bounds the need, whatever the order. -/
lemma needAt_le_of_fits {free : Int} (h0 : 0 ≤ free) (t freed : Nat)
    (h : fitsToTheEnd free freed states = true) : needAt states t ≤ free + freed := by
  induction states generalizing freed with
  | nil =>
    have : (0 : ℚ) ≤ free + freed := by positivity
    simpa [needAt] using this
  | cons x states ih => ?_
  rw [fitsToTheEnd] at h
  split_ifs at h with hmin
  have hrest := ih (freed + x.2) h
  have hneed : needAt (x :: states) t = (if (t : ℚ) ≤ x.1 then (t : ℚ) else -x.2) + needAt states t :=
    sum_cons
  rw [hneed]
  by_cases ht : (t : ℚ) ≤ x.1
  · have hall := needAt_le states t
    have hbs : (0 : ℚ) ≤ (states.length : ℚ) + 1 := by positivity
    have hmul := mul_le_mul_of_nonneg_right ht hbs
    simp only [ignoreEosReserveTokens, Nat.cast_one, one_mul] at hmin
    rw [if_pos ht]
    push_cast at hmin
    linarith
  · rw [if_neg ht]
    push_cast at hrest
    linarith

lemma admitted_fits {res : AddReqResult} (h : ad.addOneReqIgnoreEos r = .ok (res, ad'))
    (hadd : ad'.canRunList ≠ ad.canRunList) :
    ¬ad.Refused r ∧ fitsToTheEnd (ad.curRemTokens - ad.pagedInput r) 0 (ad.statesWith r) = true := by
  rw [addOneReqIgnoreEos] at h
  dsimp only at h
  split_ifs at h with hgate hend
  · cases h
    exact absurd rfl hadd
  · cases h
    exact absurd rfl hadd
  all_goals exact ⟨hgate, Bool.of_not_eq_false hend⟩

lemma reqStates_next (ad : PrefillAdder) (r : Req) : (ad.nextIgnoreEos r).reqStates = ad.reqStates ∨
    ¬ad.Refused r ∧ (ad.nextIgnoreEos r).reqStates = some (ad.statesWith r) := by
  unfold nextIgnoreEos addOneReqIgnoreEos
  dsimp only
  split_ifs with hgate <;> first | exact .inl rfl | exact .inr ⟨hgate, rfl⟩

lemma ascending_statesWith (h : ∀ states ∈ ad.reqStates, Ascending states) :
    Ascending (ad.statesWith r) ↔
      ∀ states ∈ ad.reqStates, ∀ x ∈ ad.reqState r, ∀ y ∈ states.getLast?, x.1 ≤ y.1 := by
  unfold statesWith
  rcases hs : ad.reqStates with _ | states
  · have : Std.Total fun x y : ℚ × Nat => x.1 ≤ y.1 := ⟨fun x y => le_total x.1 y.1⟩
    have : IsTrans (ℚ × Nat) fun x y => x.1 ≤ y.1 := ⟨fun _ _ _ hx hy => hx.trans hy⟩
    exact iff_of_true (pairwise_insertionSort ..) nofun
  have hasc := h states hs
  cases hx : ad.reqState r with
  | none => simpa using hasc
  | some x => simpa using ascending_insertState hasc

/-- After calls that kept the order, a call keeps it exactly if its entry is not larger than the
last one. What it admits fits to the end after any calls. -/
theorem ignoreEos_order_iff (ad : PrefillAdder) (r : Req) :
    (∀ ad₀ past, ad₀.reqStates = none → Run nextIgnoreEos InOrder ad₀ past ad →
      ((¬ad.Refused r → Ascending (ad.statesWith r)) ↔ ad.InOrder r)) ∧
    ∀ res ad', ad.addOneReqIgnoreEos r = .ok (res, ad') → ad'.canRunList ≠ ad.canRunList →
      ∀ t, needAt (ad.statesWith r) t ≤ (ad.curRemTokens - ad.pagedInput r : Int) := by
  refine ⟨fun ad₀ past h0 hr => ?_, fun res ad' h hadd t => ?_⟩
  swap
  · obtain ⟨hgate, hfits⟩ := admitted_fits h hadd
    have hle : ad.pagedInput r ≤ ad.curRemTokens := by
      have := (le_min_iff.mp (not_lt.mp hgate)).1
      exact_mod_cast this
    simpa using needAt_le_of_fits (sub_nonneg.mpr hle) t 0 hfits
  have hasc : ∀ states ∈ ad.reqStates, Ascending states := by
    refine hr.invariant (I := fun _ ad => ∀ states ∈ ad.reqStates, Ascending states)
      (by simp [h0]) fun _ ad r ih hok => ?_
    rcases reqStates_next ad r with e | ⟨hgate, e⟩
    · rw [e]
      exact ih
    · rw [e]
      rintro _ ⟨⟩
      exact (ascending_statesWith ih).mpr (hok hgate)
  rw [ascending_statesWith hasc, InOrder]

/-- An adder over fifty free slots. -/
def freshAdder : PrefillAdder where
  pool := {
    cache := { pageSize := 1, disable := true }
    alloc := { pageSize := 1, numPages := 50, freePages := range' 1 50 } }
  running := []
  newTokenRatio := 1
  remInputTokens := 50
  remChunkTokens := none

def asks (n : Nat) : Req where
  rid := n
  originInputIds := [1]
  maxNewTokens := n
  ignoreEos := true

/-- A request for five tokens after one for ten. -/
theorem shorter_request_last :
    let ad := freshAdder.nextIgnoreEos (asks 10)
    Ascending (ad.statesWith (asks 5)) ∧
      ∀ t, needAt (ad.statesWith (asks 5)) t ≤ (ad.curRemTokens - ad.pagedInput (asks 5) : Int) := by
  intro ad
  obtain ⟨horder, hneed⟩ := ignoreEos_order_iff ad (asks 5)
  have hadded : (ad.addOneReqIgnoreEos (asks 5)).toOption.any (·.2.canRunList.length == 2) := by
    decide +kernel
  rcases h : ad.addOneReqIgnoreEos (asks 5) with e | ⟨res, ad'⟩
  · simp [h, Except.toOption] at hadded
  refine ⟨(horder freshAdder _ rfl (.step (asks 10) .start fun _ => nofun)).mpr ?_ ?_,
    hneed res ad' h fun heq => ?_⟩
  · unfold InOrder Refused
    decide +kernel
  · unfold Refused
    decide +kernel
  · rw [h, Except.toOption, Option.any_some, heq] at hadded
    exact absurd hadded (by decide +kernel)

/-- A request for ten tokens after one for five. -/
theorem longer_request_before_last : ∃ (ad₀ ad : PrefillAdder) (past : List Req) (r : Req),
    ad₀.reqStates = none ∧ Run nextIgnoreEos InOrder ad₀ past ad ∧
      ¬ad.Refused r ∧ ¬Ascending (ad.statesWith r) := by
  refine ⟨freshAdder, _, _, asks 10, rfl, .step (asks 5) .start fun _ => nofun, ?_, ?_⟩
  · unfold Refused
    decide +kernel
  · unfold Ascending
    decide +kernel
end Sglang.PrefillAdder
