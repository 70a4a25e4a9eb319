import Mathlib

/-!
# Stop strings

A stop string is looked for in the text of the last tokens only, one more than the longest stop
string has in the tokenizer's own encoding.
-/

namespace Sglang.Finish
open List

/-- A tokenizer that decodes token by token. -/
structure Tokenizer where
  text : Int → List Char
  encode : List Char → List Int
  eosTokenId : Int
  additionalStopTokenIds : List Int

def Tokenizer.decode (tk : Tokenizer) (ids : List Int) : List Char := ids.flatMap tk.text

/-- A pattern with its `re.search` and `get_max_seq_length`. -/
structure StopRegex where
  search : List Char → Bool
  maxSeqLength : Nat

structure SamplingParams where
  maxNewTokens : Nat
  ignoreEos : Bool
  stopTokenIds : List Int
  stopStrs : List (List Char)
  stopRegexStrs : List StopRegex

/-- As `normalize` sets it. -/
def SamplingParams.stopStrMaxLen (p : SamplingParams) (tk : Tokenizer) : Nat :=
  p.stopStrs.foldl (fun len s => max len (tk.encode s).length) 0

def SamplingParams.stopRegexMaxLen (p : SamplingParams) : Nat :=
  p.stopRegexStrs.foldl (fun len x => max len x.maxSeqLength) 0

inductive FinishReason
  | abort
  | length (length : Nat)
  | matchedToken (matched : Int)
  | matchedStr (matched : List Char)
  | matchedRegex (matched : StopRegex)

/-- `decoded_text` is the empty string throughout, and no check reads `finished_len`. -/
structure Req where
  tokenizer : Tokenizer
  samplingParams : SamplingParams
  eosTokenIds : List Int
  vocabSize : Int
  outputIds : List Int := []
  toFinish : Option FinishReason := none
  finishedReason : Option FinishReason := none

/-- The slice `ids[-n:]`, which is the whole list for `n = 0`. -/
def lastIds (n : Nat) (ids : List Int) : List Int := if n = 0 then ids else ids.drop (ids.length - n)

namespace Req
variable (r : Req)

section
variable (id : Int) (new : List Int) (newAcceptedLen : Nat)

def stopMatchTailLen : Nat :=
  min (max (r.samplingParams.stopStrMaxLen r.tokenizer + 1) (r.samplingParams.stopRegexMaxLen + 1) +
    (newAcceptedLen - 1)) r.outputIds.length

def tailStr : List Char :=
  r.tokenizer.decode (lastIds (r.stopMatchTailLen newAcceptedLen) r.outputIds)

def isStopToken : Bool :=
  id ∈ r.samplingParams.stopTokenIds || id ∈ r.eosTokenIds || id == r.tokenizer.eosTokenId ||
    id ∈ r.tokenizer.additionalStopTokenIds

def checkTokenBasedFinish : Option FinishReason :=
  if r.samplingParams.ignoreEos then none else (new.find? r.isStopToken).map .matchedToken

def checkStrBasedFinish : Option FinishReason :=
  let tail := r.tailStr newAcceptedLen
  ((r.samplingParams.stopStrs.find? fun s => s <:+: tail ∨ s <:+: []).map .matchedStr).or
    ((r.samplingParams.stopRegexStrs.find? fun x => x.search tail).map .matchedRegex)

def outOfVocab : Bool := id ≥ r.vocabSize || id < 0

def checkVocabBoundaryFinish : Option FinishReason :=
  (new.find? r.outOfVocab).map fun _ => .matchedStr "NaN happened".toList

/-- The output in which that check has replaced the first bad token, by an eos token if it can. -/
def sanitizedIds : List Int :=
  match new.findIdx? r.outOfVocab, (r.eosTokenIds ++ r.samplingParams.stopTokenIds).head? with
  | some i, some id => r.outputIds.set (r.outputIds.length - new.length + i) id
  | _, _ => r.outputIds
end

/-- `terminated` is what the grammar answers, if there is one. -/
def updateFinishState (terminated : Bool) (newAcceptedLen : Nat) : Req :=
  if r.finishedReason.isSome then r
  else match r.toFinish with
  | some reason => { r with finishedReason := some reason, toFinish := none }
  | none =>
    if r.outputIds.length ≥ r.samplingParams.maxNewTokens then
      { r with finishedReason := some (.length r.samplingParams.maxNewTokens) }
    else if terminated then
      { r with finishedReason := some (.matchedToken (r.outputIds.getLastD 0)) }
    else
      let new := lastIds newAcceptedLen r.outputIds
      match ((r.checkVocabBoundaryFinish new).or (r.checkStrBasedFinish newAcceptedLen)).or
          (r.checkTokenBasedFinish new) with
      | none => r
      | some reason => { r with outputIds := r.sanitizedIds new, finishedReason := some reason }
end Req

/-! ## One token per step -/

/-- A token, an abort that has come in since the last one, and the answer of the grammar. -/
structure Arrival where
  token : Int
  toFinish : Option FinishReason := none
  terminated : Bool := false

namespace Req
variable (r : Req) (a : Arrival) (s : List Char)

def extend : Req :=
  { r with outputIds := r.outputIds ++ [a.token], toFinish := a.toFinish.or r.toFinish }

def accept : Req := (r.extend a).updateFinishState a.terminated 1

/-- A last few tokens spell `s`. -/
def SpelledAtEnd : Prop :=
  ∃ k ≤ max (r.samplingParams.stopStrMaxLen r.tokenizer) r.samplingParams.stopRegexMaxLen + 1,
    s <:+: r.tokenizer.decode (r.outputIds.drop (r.outputIds.length - k))

/-- Something other than the stop string `s` ends the request. -/
def EndsAnyway : Prop :=
  (r.extend a).toFinish ≠ none ∨ r.samplingParams.maxNewTokens ≤ r.outputIds.length + 1 ∨
  a.terminated = true ∨ r.outOfVocab a.token = true ∨
  (∃ s' ∈ r.samplingParams.stopStrs, s' ≠ s ∧ (r.extend a).SpelledAtEnd s') ∨
  (∃ x ∈ r.samplingParams.stopRegexStrs, x.search ((r.extend a).tailStr 1) = true) ∨
  r.samplingParams.ignoreEos = false ∧ r.isStopToken a.token = true

/-- The text of the output contains `s` for the first time with the token that arrives. -/
def FirstContains : Prop :=
  ¬s <:+: r.tokenizer.decode r.outputIds ∧ s <:+: r.tokenizer.decode (r.extend a).outputIds

variable {r s}

lemma spelledAtEnd_iff : r.SpelledAtEnd s ↔ s <:+: r.tailStr 1 := by
  have htail : r.tailStr 1 = r.tokenizer.decode (r.outputIds.drop (r.outputIds.length -
      (max (r.samplingParams.stopStrMaxLen r.tokenizer) r.samplingParams.stopRegexMaxLen + 1))) := by
    rw [tailStr, lastIds, stopMatchTailLen]
    split
    · rw [length_eq_zero_iff.mp (show r.outputIds.length = 0 by omega), drop_nil]
    · congr 2
      omega
  rw [htail]
  refine ⟨fun ⟨k, hk, h⟩ => h.trans ?_, fun h => ⟨_, le_rfl, h⟩⟩
  obtain ⟨ids, hids⟩ : r.outputIds.drop (r.outputIds.length - k) <:+ r.outputIds.drop _ :=
    drop_suffix_drop_left r.outputIds (Nat.sub_le_sub_left hk _)
  rw [← hids, Tokenizer.decode, Tokenizer.decode, flatMap_append]
  exact (suffix_append ..).isInfix

lemma checkStrBasedFinish_eq_none :
    r.checkStrBasedFinish 1 = none ↔ (∀ s ∈ r.samplingParams.stopStrs, ¬r.SpelledAtEnd s) ∧
      ∀ x ∈ r.samplingParams.stopRegexStrs, ¬x.search (r.tailStr 1) = true := by
  simp only [checkStrBasedFinish, Option.or_eq_none_iff, Option.map_eq_none_iff, find?_eq_none,
    spelledAtEnd_iff, decide_eq_true_eq, not_or]
  refine and_congr_left fun _ => forall₂_congr fun s _ => and_iff_left_of_imp fun h h' => ?_
  -- the empty string is in the tail as well
  exact h (infix_nil.mp h' ▸ nil_infix)

lemma accept_unfinished (h : r.finishedReason = none) :
    (r.accept a).finishedReason = none ↔ (r.extend a).toFinish = none ∧
      r.outputIds.length + 1 < r.samplingParams.maxNewTokens ∧ a.terminated = false ∧
      r.outOfVocab a.token = false ∧ (r.extend a).checkStrBasedFinish 1 = none ∧
      (r.samplingParams.ignoreEos = false → r.isStopToken a.token = false) := by
  have hlast : lastIds 1 (r.extend a).outputIds = [a.token] := by simp [lastIds, extend]
  have hgo : ¬(r.extend a).finishedReason.isSome := by simp [extend, h]
  have hvocab : (r.extend a).checkVocabBoundaryFinish [a.token] = none ↔
      r.outOfVocab a.token = false := by simp [checkVocabBoundaryFinish, outOfVocab, extend]
  have htoken : (r.extend a).checkTokenBasedFinish [a.token] = none ↔
      (r.samplingParams.ignoreEos = false → r.isStopToken a.token = false) := by
    simp [checkTokenBasedFinish, isStopToken, extend]
  rw [accept, updateFinishState, if_neg hgo, hlast, ← hvocab, ← htoken]
  have hlen : (r.extend a).outputIds.length = r.outputIds.length + 1 := length_append
  have hparams : (r.extend a).samplingParams = r.samplingParams := rfl
  rcases (r.extend a).toFinish with _ | reason
  swap
  · simp
  dsimp only
  rw [hlen, hparams]
  split_ifs with hmax hterm
  · simp [Nat.not_lt.mpr hmax]
  · simp [hterm]
  simp only [hterm, Nat.lt_of_not_le hmax, true_and, ← Option.or_eq_none_iff, ← Option.or_assoc]
  split
  next hnone =>
    rw [hnone]
    exact iff_of_true h rfl
  next hsome => simp [hsome]

/-- A token, also the one that completes a stop string, ends the request exactly if the string lies in
the last few tokens or something else ends it. -/
theorem stop_string_ends_iff (hgo : r.finishedReason = none) (hs : s ∈ r.samplingParams.stopStrs) :
    (r.accept a).finishedReason ≠ none ↔ (r.extend a).SpelledAtEnd s ∨ r.EndsAnyway a s := by
  have hsplit : (∀ s' ∈ r.samplingParams.stopStrs, ¬(r.extend a).SpelledAtEnd s') ↔
      ¬(r.extend a).SpelledAtEnd s ∧
        ¬∃ s' ∈ r.samplingParams.stopStrs, s' ≠ s ∧ (r.extend a).SpelledAtEnd s' := by
    grind
  have hstr := checkStrBasedFinish_eq_none (r := r.extend a)
  change _ ↔ (∀ s' ∈ r.samplingParams.stopStrs, _) ∧ ∀ x ∈ r.samplingParams.stopRegexStrs, _ at hstr
  rw [← not_iff_not, not_not, accept_unfinished a hgo, hstr, hsplit, EndsAnyway]
  grind

/-! ## A stop string in more tokens than its encoding has -/

/-- Token 3 spells what tokens 0, 1 and 2 spell together, token 4 what 1 and 2 spell. -/
def smallTokenizer : Tokenizer where
  text id := [['a'], ['b'], ['c'], ['a', 'b', 'c'], ['b', 'c']].getD id.toNat []
  encode _ := [3]
  eosTokenId := 5
  additionalStopTokenIds := []

def smallReq : Req where
  tokenizer := smallTokenizer
  samplingParams := ⟨10, false, [], [['a', 'b', 'c']], []⟩
  eosTokenIds := []
  vocabSize := 6

theorem stop_string_in_two_tokens :
    let r := smallReq.accept { token := 0 }
    r.finishedReason = none ∧ (r.accept { token := 4 }).finishedReason ≠ none :=
  ⟨rfl, (stop_string_ends_iff { token := 4 } rfl (mem_singleton_self _)).mpr
    (.inl ⟨2, by decide, by decide⟩)⟩

theorem stop_string_missed :
    let r := (smallReq.accept { token := 0 }).accept { token := 1 }
    r.finishedReason = none ∧ r.FirstContains { token := 2 } ['a', 'b', 'c'] ∧
      (r.accept { token := 2 }).finishedReason = none := by
  refine ⟨?_, ⟨?_, ?_⟩, ?_⟩
  · rfl
  · decide
  · decide
  · rfl
end Req

/-! ## The length of a stop regex -/

/-- A parsed pattern: a subpattern is a list of tokens, `BRANCH` has two branches, and a repeat up to
`MAXREPEAT` has no upper bound. -/
inductive Pattern where
  | nil
  | cons (token rest : Pattern)
  /-- `LITERAL`, `IN` or `ANY` -/
  | single (accepts : Char → Bool)
  | subpattern (inner : Pattern)
  | branch (p q : Pattern)
  /-- `MAX_REPEAT` or `MIN_REPEAT` -/
  | repeats (lo : Nat) (hi : Option Nat) (inner : Pattern)
  /-- `AT`, of what stands before and after -/
  | at_ (holds : List Char → List Char → Bool)
  | other (reads : List Char → List Char → List Char → Bool)

namespace Pattern
def maxLen : Nat := 2 ^ 30

/-- `_max_length_from_subpattern` -/
def maxLength : Pattern → Nat
  | .nil | .at_ _ => 0
  | .cons token rest => token.maxLength + rest.maxLength
  | .single _ => 1
  | .subpattern inner => inner.maxLength
  | .branch p q => max p.maxLength q.maxLength
  | .repeats _ (some hi) inner => hi * inner.maxLength
  | .repeats _ none _ | .other _ => maxLen

/-- Whether `w` is matched between two texts. -/
def Matches : Pattern → (before w after : List Char) → Prop
  | .nil, _, w, _ => w = []
  | .cons token rest, b, w, a =>
    ∃ u v, w = u ++ v ∧ token.Matches b u (v ++ a) ∧ rest.Matches (b ++ u) v a
  | .single accepts, _, w, _ => ∃ c, accepts c ∧ w = [c]
  | .subpattern inner, b, w, a => inner.Matches b w a
  | .branch p q, b, w, a => p.Matches b w a ∨ q.Matches b w a
  | .repeats lo hi inner, b, w, a => ∃ ws, w = ws.flatten ∧ lo ≤ ws.length ∧ (∀ n ∈ hi, ws.length ≤ n) ∧
    ∀ u x v, ws = u ++ x :: v → inner.Matches (b ++ u.flatten) x (v.flatten ++ a)
  | .at_ holds, b, w, a => w = [] ∧ holds b a
  | .other reads, b, w, a => reads b w a

/-- With bounded repeats; if `plain`, without anchors and with satisfiable sets. -/
def Built (plain : Bool) : Pattern → Prop
  | .nil => True
  | .cons p q | .branch p q => p.Built plain ∧ q.Built plain
  | .single accepts => plain → ∃ c, accepts c
  | .subpattern inner => inner.Built plain
  | .repeats lo hi inner => (∃ n ∈ hi, lo ≤ n) ∧ inner.Built plain
  | .at_ _ => plain = false
  | .other _ => False

variable {p : Pattern} {b w a : List Char}

lemma length_le (hp : p.Built false) (h : p.Matches b w a) : w.length ≤ p.maxLength := by
  induction p generalizing b w a with
  | nil => simp [show w = [] from h]
  | cons p q ihp ihq =>
    obtain ⟨u, v, rfl, hu, hv⟩ := h
    rw [length_append]
    exact Nat.add_le_add (ihp hp.1 hu) (ihq hp.2 hv)
  | single accepts =>
    obtain ⟨c, -, rfl⟩ := h
    exact le_rfl
  | subpattern p ih => exact ih hp h
  | branch p q ihp ihq => exact le_max_iff.mpr (h.imp (ihp hp.1) (ihq hp.2))
  | repeats lo hi p ih =>
    obtain ⟨⟨n, rfl, -⟩, hp⟩ := hp
    obtain ⟨ws, rfl, -, hn, h⟩ := h
    have hle : ∀ k ∈ ws.map length, k ≤ p.maxLength := forall_mem_map.mpr fun x hx => by
      obtain ⟨u, v, e⟩ := append_of_mem hx
      exact ih hp (h u x v e)
    rw [length_flatten, maxLength]
    exact (sum_le_card_nsmul _ _ hle).trans (by simpa using Nat.mul_le_mul_right _ (hn n rfl))
  | at_ holds => simp [h.1]
  | other reads => exact hp.elim

lemma exists_longest (hp : p.Built true) : ∃ w, w.length = p.maxLength ∧ ∀ b a, p.Matches b w a := by
  induction p with
  | nil => exact ⟨[], rfl, fun _ _ => rfl⟩
  | cons p q ihp ihq =>
    obtain ⟨u, hu, hpu⟩ := ihp hp.1
    obtain ⟨v, hv, hqv⟩ := ihq hp.2
    exact ⟨u ++ v, by rw [length_append, hu, hv, maxLength], fun _ _ => ⟨u, v, rfl, hpu _ _, hqv _ _⟩⟩
  | single accepts =>
    obtain ⟨c, hc⟩ := hp rfl
    exact ⟨[c], rfl, fun _ _ => ⟨c, hc, rfl⟩⟩
  | subpattern p ih => exact ih hp
  | branch p q ihp ihq =>
    rcases le_total p.maxLength q.maxLength with h | h
    · obtain ⟨w, hw, hm⟩ := ihq hp.2
      exact ⟨w, hw.trans (max_eq_right h).symm, fun b a => .inr (hm b a)⟩
    · obtain ⟨w, hw, hm⟩ := ihp hp.1
      exact ⟨w, hw.trans (max_eq_left h).symm, fun b a => .inl (hm b a)⟩
  | repeats lo hi p ih =>
    obtain ⟨⟨n, rfl, hn⟩, hp⟩ := hp
    obtain ⟨w, hw, hm⟩ := ih hp
    refine ⟨(replicate n w).flatten, by simp [hw, maxLength], fun b a => ?_⟩
    refine ⟨replicate n w, rfl, by simpa using hn, by simp, fun u x v e => ?_⟩
    obtain rfl : x = w := eq_of_mem_replicate (e ▸ mem_append_right u mem_cons_self)
    exact hm _ _
  | at_ holds => cases hp
  | other reads => exact hp.elim

theorem maxLength_bounds (hp : p.Built false) : (∀ b w a, p.Matches b w a → w.length ≤ p.maxLength) ∧
    (p.Built true → ∃ w, w.length = p.maxLength ∧ ∀ b a, p.Matches b w a) :=
  ⟨fun _ _ _ => length_le hp, exists_longest⟩

theorem maxLength_bounds_repeats :
    ∃ w, w.length = 3 ∧ ∀ b a, (repeats 1 (some 3) (single fun _ => true)).Matches b w a :=
  (maxLength_bounds (p := repeats 1 (some 3) (single fun _ => true)) ⟨⟨3, rfl, by decide⟩, fun _ => ⟨'a', rfl⟩⟩).2
    ⟨⟨3, rfl, by decide⟩, fun _ => ⟨'a', rfl⟩⟩
end Pattern
end Sglang.Finish
