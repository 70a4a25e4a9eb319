import Mathlib

/-!
# The suffix automaton of the n-gram corpus

`SuffixAutomaton` of `ngram_corpus/suffix_automaton.cpp`: tokens are appended one by one, with a new
state for each and sometimes a clone of an old one, and at the end the counters go up along the
suffix links.
-/

namespace Sglang.Ngram
inductive SamErr
  | finalized
  | outOfFuel
  deriving DecidableEq

structure SamState (α : Type) where
  link : Option Nat := none
  maxLen : Nat := 0
  next : α → Option Nat := fun _ => none
  occCount : Nat := 0
  maxEndPos : Int := -1

structure SuffixAutomaton (α : Type) where
  states : Nat → SamState α := fun _ => {}
  size : Nat := 1
  last : Nat := 0
  pos : Nat := 0
  sawToken : Bool := false
  finalized : Bool := false
  loaded : Bool := false

namespace SuffixAutomaton
variable {α : Type}

def reset : SuffixAutomaton α := {}

section
variable (s : SuffixAutomaton α) (v : Nat) (order : List Nat)

def modifyState (f : SamState α → SamState α) : SuffixAutomaton α :=
  { s with states := Function.update s.states v (f (s.states v)) }

def pushState (x : SamState α) : SuffixAutomaton α :=
  { s with states := Function.update s.states s.size x, size := s.size + 1 }

def setLink (t : Nat) : SuffixAutomaton α :=
  s.modifyState v fun x => { x with link := some t }

/-! ## The end -/

def pushUp : SuffixAutomaton α :=
  match (s.states v).link with
  | none => s
  | some t =>
    s.modifyState t fun x =>
      { x with
        occCount := x.occCount + (s.states v).occCount
        maxEndPos := max x.maxEndPos (s.states v).maxEndPos }

/-- `propagateOccurrencesAndRecency_`, with the states in an order of ascending `max_len`. -/
def propagate : SuffixAutomaton α := order.reverse.foldl pushUp s

def finalize : SuffixAutomaton α :=
  if s.finalized then s
  else if !s.sawToken then { s with finalized := true }
  else { { s with finalized := true : SuffixAutomaton α }.propagate order with loaded := true }

structure SortedByLen : Prop where
  perm : order.Perm (List.range s.size)
  sorted : order.Pairwise fun v t => (s.states v).maxLen ≤ (s.states t).maxLen
end

def walk (s : SuffixAutomaton α) : Nat → List α → Option Nat
  | v, [] => some v
  | v, c :: cs => ((s.states v).next c).bind fun t => s.walk t cs

/-! ## One more token -/

variable [DecidableEq α]

variable (s : SuffixAutomaton α) (token : α)

def setNext (v : Nat) (token : α) (t : Nat) : SuffixAutomaton α :=
  s.modifyState v fun x => { x with next := Function.update x.next token (some t) }

/-- The first loop of `extend_`: missing transitions lead to `cur`. -/
def setMissing (token : α) (cur : Nat) :
    Nat → Option Nat → SuffixAutomaton α → Except SamErr (Option Nat × SuffixAutomaton α)
  | _, none, s => .ok (none, s)
  | 0, some _, _ => .error .outOfFuel
  | fuel + 1, some p, s =>
    if (s.states p).next token = none then
      setMissing token cur fuel (s.states p).link (s.setNext p token cur)
    else .ok (some p, s)

/-- The second loop of `extend_`; reading a missing transition makes one to state 0. -/
def redirect (token : α) (q clone : Nat) :
    Nat → Option Nat → SuffixAutomaton α → Except SamErr (SuffixAutomaton α)
  | _, none, s => .ok s
  | 0, some _, _ => .error .outOfFuel
  | fuel + 1, some p, s =>
    match (s.states p).next token with
    | none =>
      if 0 = q then redirect token q clone fuel (s.states p).link (s.setNext p token clone)
      else .ok (s.setNext p token 0)
    | some t =>
      if t = q then redirect token q clone fuel (s.states p).link (s.setNext p token clone) else .ok s

def linkOrClone (cur p q fuel : Nat) : Except SamErr (SuffixAutomaton α) :=
  if (s.states p).maxLen + 1 = (s.states q).maxLen then .ok { s.setLink cur q with last := cur }
  else do
    let clone := s.size
    let s' ← redirect token q clone fuel (some p)
      (s.pushState { s.states q with maxLen := (s.states p).maxLen + 1, occCount := 0 })
    return { (s'.setLink q clone).setLink cur clone with last := cur }

/-- `extend_` after the first loop. -/
def linkNew (cur fuel : Nat) : Option Nat → Except SamErr (SuffixAutomaton α)
  | none => .ok { s.setLink cur 0 with last := cur }
  | some p => s.linkOrClone token cur p (((s.states p).next token).getD 0) fuel

def extend (pos : Int) : Except SamErr (SuffixAutomaton α) := do
  let cur := s.size
  let fuel := (s.states s.last).maxLen + 1
  let r ← setMissing token cur fuel (some s.last)
    (s.pushState { maxLen := (s.states s.last).maxLen + 1, occCount := 1, maxEndPos := pos })
  r.2.linkNew token cur fuel r.1

def appendToken : Except SamErr (SuffixAutomaton α) := do
  let s' ← { s with pos := s.pos + 1 : SuffixAutomaton α }.extend token s.pos
  return { s' with sawToken := true }

def appendTokens (tokens : List α) : Except SamErr (SuffixAutomaton α) :=
  if s.finalized then .error .finalized else tokens.foldlM appendToken s
end SuffixAutomaton
end Sglang.Ngram
