import Mathlib

/-!
# The n-gram trie

`Trie` of `ngram_corpus/trie.cpp` and the suffix matcher with cached anchors.
-/

namespace Sglang.Ngram
inductive TrieErr
  | insufficientNodes
  | stillHasChildren
  | emptyList
  | emptyPool
  | badIterator
  deriving DecidableEq

structure TrieNode where
  child : List (Int × Nat) := []
  token : Int := 0
  parent : Nat := 0
  lru : List Nat := []
  freq : Nat := 0
  version : Nat := 1
  sortedChildren : List Nat := []

structure Trie where
  /-- `nodes_` with its size -/
  nodes : Nat → TrieNode := fun _ => {}
  capacity : Nat
  maxTrieDepth : Nat
  /-- `node_pool_` and `free_node_count_` -/
  nodePool : Nat → Nat := id
  freeNodeCount : Nat
  globalLru : List Nat := []
  root : Nat := 0
  trieEpoch : Nat := 1

section
variable (l : List Nat) (nodes : Nat → TrieNode) (n : Nat)

def CompareByFreq (a b : Nat) : Prop :=
  (nodes b).freq < (nodes a).freq ∨
    (nodes b).freq = (nodes a).freq ∧
      ((nodes a).token < (nodes b).token ∨ (nodes a).token = (nodes b).token ∧ a < b)

instance (nodes : Nat → TrieNode) : DecidableRel (CompareByFreq nodes) := fun _ _ =>
  inferInstanceAs (Decidable (_ ∨ _ ∧ (_ ∨ _ ∧ _)))

/-- `multiset::erase` by key: the range of the elements that are neither before nor after it. -/
def eraseKey (l : List Nat) : List Nat :=
  l.takeWhile (fun x => decide (CompareByFreq nodes x n)) ++
    (l.dropWhile fun x => decide (CompareByFreq nodes x n)).dropWhile fun x => !decide
    (CompareByFreq nodes n x)

def eraseAt : Except TrieErr (List Nat) :=
  if n ∈ l then .ok (l.erase n) else .error .badIterator

def spliceFront : Except TrieErr (List Nat) := do
  let l' ← eraseAt l n
  return n :: l'
end

namespace Trie
variable (s : Trie) (tokens : List Int) (cursor : Nat) (token : Int) (node : Nat)

def modifyNode (n : Nat) (f : TrieNode → TrieNode) : Trie :=
  { s with nodes := Function.update s.nodes n (f (s.nodes n)) }

def getNode : Except TrieErr (Nat × Trie) :=
  match s.freeNodeCount with
  | 0 => .error .emptyPool
  | k + 1 =>
    .ok (s.nodePool k,
      { s with freeNodeCount := k }.modifyNode (s.nodePool k) fun x => { version := x.version })

def init (capacity maxTrieDepth : Nat) : Except TrieErr Trie := do
  let (root, s) ← getNode { capacity, maxTrieDepth, freeNodeCount := capacity }
  return { s with root }

/-! ## Insertion -/

def enter : Trie :=
  let s := s.modifyNode cursor fun x => { x with child := x.child ++ [(token, node)], lru := node :: x.lru }
  let s := { s with globalLru := s.globalLru ++ [node] }
  s.modifyNode node fun x => { x with token, parent := cursor, freq := 1 }

def insertSorted : Trie :=
  s.modifyNode cursor fun x =>
    { x with sortedChildren := x.sortedChildren.orderedInsert (CompareByFreq s.nodes) node }

def countUp : Trie :=
  let s := s.modifyNode cursor fun x => { x with sortedChildren := eraseKey s.nodes node x.sortedChildren }
  s.modifyNode node fun x => { x with freq := x.freq + 1 }

def touch : Except TrieErr Trie := do
  let s := (s.countUp cursor node).insertSorted cursor node
  let lru ← spliceFront (s.nodes cursor).lru node
  return s.modifyNode cursor fun x => { x with lru }

def visit : Except TrieErr (Nat × Trie) :=
  match (s.nodes cursor).child.lookup token with
  | none => do
    let (node, s) ← s.getNode
    return (node, (s.enter cursor token node).insertSorted cursor node)
  | some node => do
    let s ← s.touch cursor node
    return (node, s)

def visitAll (s : Trie) (cursor : Nat) : List Int → Except TrieErr (List Nat × Trie)
  | [] => .ok ([], s)
  | token :: tokens => do
    let (node, s) ← s.visit cursor token
    let (path, s) ← s.visitAll node tokens
    return (node :: path, s)

def freshen (path : List Nat) : Except TrieErr Trie := do
  let globalLru ← path.reverse.foldlM spliceFront s.globalLru
  return { s with globalLru }

def evictLast : Except TrieErr Trie :=
  match s.globalLru.getLast? with
  | none => .error .emptyList
  | some last =>
    if (s.nodes last).child.isEmpty then do
      let parent := (s.nodes last).parent
      let lru ← eraseAt (s.nodes parent).lru last
      let s := { s with globalLru := s.globalLru.dropLast }
      let s := s.modifyNode parent fun x =>
        { x with
          lru
          sortedChildren := eraseKey s.nodes last x.sortedChildren
          child := x.child.eraseP fun c => c.1 == (s.nodes last).token }
      let s := s.modifyNode last fun x => { x with version := x.version + 1 }
      return { s with
        nodePool := Function.update s.nodePool s.freeNodeCount last, freeNodeCount := s.freeNodeCount + 1 }
    else .error .stillHasChildren

def evictMany : Nat → Trie → Except TrieErr Trie
  | 0, s => .ok s
  | count + 1, s => do
    let s ← s.evictLast
    evictMany count s

def squeeze (count : Nat) : Except TrieErr Trie :=
  if s.freeNodeCount + count ≤ s.capacity then evictMany count s else .error .insufficientNodes

def makeRoom (len : Nat) : Except TrieErr Trie :=
  if s.freeNodeCount < len then s.squeeze (len - s.freeNodeCount) else .ok s

def insertPath : Except TrieErr Trie := do
  let s ← s.makeRoom tokens.length
  let (path, s) ← s.visitAll s.root tokens
  s.freshen path

def insert (s : Trie) : List Int → Except TrieErr Trie
  | [] => .ok s
  | token :: tokens => do
    let s' ← s.insertPath ((token :: tokens).take s.maxTrieDepth)
    s'.insert tokens

def reset : Except TrieErr Trie := do
  let (root, s) ← getNode
    { s with trieEpoch := s.trieEpoch + 1, globalLru := [], nodePool := id, freeNodeCount := s.capacity }
  return { s with root }

def findFrom (s : Trie) : Nat → List Int → Option Nat
  | n, [] => some n
  | n, token :: tokens => ((s.nodes n).child.lookup token).bind fun c => s.findFrom c tokens

def find : Option Nat := s.findFrom s.root tokens
end Trie

/-! ## Matching -/

structure NodeRef where
  ptr : Option Nat := none
  version : Nat := 0
  deriving DecidableEq

structure MatchState where
  trieEpoch : Nat := 0
  processedTotalLen : Nat := 0
  anchors : List NodeRef := []
  deriving DecidableEq

namespace Trie
variable (s : Trie) (context : List Int) (state : MatchState) (token : Int) (totalLen : Nat)

def capture : Option Nat → NodeRef
  | none => {}
  | some n => { ptr := some n, version := (s.nodes n).version }

def resolve (ref : NodeRef) : Option Nat :=
  match ref.ptr with
  | none => none
  | some n => if state.trieEpoch ≠ s.trieEpoch ∨ (s.nodes n).version ≠ ref.version then none else some n

def validateMatchState : Bool :=
  state.trieEpoch == s.trieEpoch &&
    state.anchors.all fun ref => ref.ptr.isNone || (s.resolve state ref).isSome

def rebuildMatchState : MatchState where
  trieEpoch := s.trieEpoch
  processedTotalLen := totalLen
  anchors := (List.range (min context.length s.maxTrieDepth)).map fun k =>
    s.capture (s.find (context.drop (context.length - (k + 1))))

def advanceRef (prev : NodeRef) : Option NodeRef :=
  match prev.ptr with
  | none => some {}
  | some _ => (s.resolve state prev).map fun n => s.capture ((s.nodes n).child.lookup token)

def advanceToken : Option MatchState := do
  let nextDepth := min (state.anchors.length + 1) s.maxTrieDepth
  let rest ← (state.anchors.take (nextDepth - 1)).mapM (s.advanceRef state token)
  return { state with
    anchors := (s.capture ((s.nodes s.root).child.lookup token) :: rest).take nextDepth }

/-- `advanceMatchState_`; `none` is the answer false, after which the state is rebuilt. -/
def advanceMatchState (tokens : List Int) (totalLen : Nat) : Option MatchState :=
  if s.validateMatchState state then do
    let state ← tokens.foldlM s.advanceToken state
    return { state with processedTotalLen := totalLen }
  else none

def canAdvance : Bool :=
  state.trieEpoch == s.trieEpoch && decide (state.processedTotalLen ≤ totalLen) &&
    decide (totalLen - state.processedTotalLen ≤ context.length) &&
    state.anchors.length == min state.processedTotalLen s.maxTrieDepth

def matchContext : MatchState :=
  let advanced :=
    if s.canAdvance context state totalLen then
      s.advanceMatchState state (context.drop (context.length - (totalLen - state.processedTotalLen))) totalLen
    else none
  advanced.getD (s.rebuildMatchState context totalLen)

end Trie
end Sglang.Ngram
