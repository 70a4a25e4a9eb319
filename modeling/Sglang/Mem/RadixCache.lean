import Sglang.Lib.PathTree
import Sglang.Mem.RadixKey

/-!
# The radix cache

`RadixCache`: a compressed prefix tree of KV slots.
-/

namespace Sglang
open PathTree

/-- The path of a node: what stands for a reference to it. -/
abbrev NodePath := List Cell

structure TreeNode where
  parent : NodePath
  /-- the key of the parent's `children` under which the node is found -/
  slot : ChildKey
  key : RadixKey
  value : List Nat
  lockRef : Int := 0
  deriving DecidableEq

def TreeNode.bump (d : Int) (n : TreeNode) : TreeNode := { n with lockRef := n.lockRef + d }

instance : PathNode TreeNode Cell := ⟨TreeNode.parent, fun n => n.key.cells⟩

structure RadixCache where
  disable : Bool := false
  pageSize : Nat
  isEagle : Bool := false
  disableFinishedInsert : Bool := false
  nodes : List TreeNode := []
  evictableSize : Int := 0
  protectedSize : Int := 0
  evictableLeaves : List NodePath := []
  deriving DecidableEq

structure MatchResult where
  deviceIndices : List Nat
  lastNode : NodePath
  deriving DecidableEq

structure InsertResult where
  prefixLen : Nat
  lastNode : NodePath
  deriving DecidableEq

namespace RadixCache
variable (c : RadixCache) (node child : TreeNode) (splitLen : Nat) (key : RadixKey) (q : NodePath)

def node? : Option TreeNode := Keyed.get? path q c.nodes

def child? (ck : ChildKey) : Option TreeNode :=
  c.nodes.find? fun n => n.parent = q ∧ n.slot = ck

def lockRef (c : RadixCache) (q : NodePath) : Int :=
  if q = [] then 1 else ((c.node? q).map TreeNode.lockRef).getD 0

def hasNoChild : Bool := c.nodes.all fun n => n.parent ≠ q

def updateLeafStatus : RadixCache :=
  { c with
    evictableLeaves :=
      if 0 < c.lockRef q then c.evictableLeaves.filter (· ≠ q)
      else if !c.hasNoChild q then c.evictableLeaves.filter (· ≠ q)
      else if q ∈ c.evictableLeaves then c.evictableLeaves
      else q :: c.evictableLeaves }

/-! ## Lookup -/

def splitUpper : TreeNode :=
  { parent := child.parent
    slot := child.key.childKey c.pageSize
    key := child.key.takeUnits splitLen
    value := child.value.take splitLen
    lockRef := child.lockRef }

def splitLower : TreeNode :=
  { parent := path (c.splitUpper child splitLen)
    slot := (child.key.dropUnits splitLen).childKey c.pageSize
    key := child.key.dropUnits splitLen
    value := child.value.drop splitLen
    lockRef := child.lockRef }

def splitNode : RadixCache :=
  { c with
    nodes := c.splitUpper child splitLen :: c.splitLower child splitLen ::
      Keyed.remove path (path child) c.nodes }

/-- Every round consumes a part of `key`. -/
def matchPrefixLoop (c : RadixCache) :
    Nat → NodePath → RadixKey → List Nat → Except RadixError (MatchResult × RadixCache)
  | 0, node, _, value => .ok (⟨value, node⟩, c)
  | fuel + 1, node, key, value =>
    if 0 < key.len then
      match c.child? node (key.childKey c.pageSize) with
      | none => .ok (⟨value, node⟩, c)
      | some child => do
        let prefixLen ← child.key.matchLen key c.pageSize
        if prefixLen < child.key.len then
          let newNode := c.splitUpper child prefixLen
          .ok (⟨value ++ newNode.value, path newNode⟩, c.splitNode child prefixLen)
        else
          matchPrefixLoop c fuel (path child) (key.dropUnits prefixLen) (value ++ child.value)
    else .ok (⟨value, node⟩, c)

def matchPrefixHelper : Except RadixError (MatchResult × RadixCache) :=
  c.matchPrefixLoop key.len [] key []

def matchPrefix : Except RadixError (MatchResult × RadixCache) :=
  let key := key.toBigramView c.isEagle
  if c.disable || key.len = 0 then .ok (⟨[], []⟩, c)
  else
    let key := key.pageAligned c.pageSize
    if key.len = 0 then .ok (⟨[], []⟩, c) else c.matchPrefixHelper key

/-! ## Insertion -/

structure Cursor where
  node : NodePath
  key : RadixKey
  value : List Nat
  totalPrefixLength : Nat
  deriving DecidableEq

/-- The loop of `_insert_helper`. -/
def insertLoop : Nat → RadixCache → Cursor → Except RadixError (Cursor × RadixCache)
  | 0, c, cur => .ok (cur, c)
  | fuel + 1, c, cur =>
    if 0 < cur.key.len then
      match c.child? cur.node (cur.key.childKey c.pageSize) with
      | none => .ok (cur, c)
      | some child => do
        let prefixLen ← child.key.matchLen cur.key c.pageSize
        let next node : Cursor :=
          { node := node
            key := cur.key.dropUnits prefixLen
            value := cur.value.drop prefixLen
            totalPrefixLength := cur.totalPrefixLength + prefixLen }
        if prefixLen < child.key.len then
          insertLoop fuel (c.splitNode child prefixLen) (next (path (c.splitUpper child prefixLen)))
        else insertLoop fuel c (next (path child))
    else .ok (cur, c)

/-- The leaf that `_insert_helper` adds for the rest of the key. -/
def newLeaf (cur : Cursor) : TreeNode :=
  { parent := cur.node
    slot := cur.key.childKey c.pageSize
    key := cur.key
    value := cur.value }

/-- `node.children[child_key] = new_node`. -/
def addLeaf (leaf : TreeNode) : RadixCache :=
  let c := { c with nodes := leaf :: c.nodes, evictableSize := c.evictableSize + leaf.key.len }
  (c.updateLeafStatus leaf.parent).updateLeafStatus (path leaf)

def insertHelper (value : List Nat) : Except RadixError (InsertResult × RadixCache) := do
  if key.len = 0 then return (⟨0, []⟩, c)
  let (cur, c) ← insertLoop key.len c ⟨[], key, value, 0⟩
  if 0 < cur.key.len then
    let leaf := c.newLeaf cur
    return (⟨cur.totalPrefixLength, path leaf⟩, c.addLeaf leaf)
  else return (⟨cur.totalPrefixLength, cur.node⟩, c)

/-- `insert`. Without a value the token ids themselves are stored. -/
def insert (value : Option (List Nat)) : Except RadixError (InsertResult × RadixCache) :=
  if c.disable then .ok (⟨0, []⟩, c)
  else
    let view := (key.toBigramView c.isEagle).pageAligned c.pageSize
    let value := match value with
      | some v => (key.bigramValue c.isEagle v).take view.len
      | none => view.tokenIds.take view.len
    c.insertHelper view value

/-! ## Eviction -/

/-- What `_delete_leaf` does to the tree and its counters. -/
def removeLeaf : RadixCache :=
  let c := { c with
    nodes := Keyed.remove path (path node) c.nodes
    evictableSize := c.evictableSize - node.key.len
    evictableLeaves := c.evictableLeaves.filter (· ≠ path node) }
  c.updateLeafStatus node.parent

def deleteLeaf : Except RadixError RadixCache :=
  if c.child? node.parent (node.key.childKey c.pageSize) = some node then .ok (c.removeLeaf node)
  else .error .noChildKey

structure Eviction where
  cache : RadixCache
  heap : List NodePath
  freed : List TreeNode := []
  numEvicted : Nat := 0
  deriving DecidableEq

/-- One popped node: its slots are freed, and an unlocked leaf parent goes on the heap. -/
def evictOne (e : Eviction) (q : NodePath) (heap : List NodePath) : Except RadixError Eviction :=
  match e.cache.node? q with
  | none => .error .noChildKey
  | some x => do
    let cache ← e.cache.deleteLeaf x
    return {
      cache := cache
      heap := if cache.hasNoChild x.parent && cache.lockRef x.parent = 0 then x.parent :: heap
        else heap
      freed := x :: e.freed
      numEvicted := e.numEvicted + x.value.length }

/-- The loop of `evict`. `pick` stands for the heap order: it names the element popped. -/
def evictLoop (pick : Nat → Nat) (numTokens : Nat) : Nat → Eviction → Except RadixError Eviction
  | 0, e => .ok e
  | fuel + 1, e =>
    if e.numEvicted < numTokens then
      match e.heap[pick fuel % e.heap.length]? with
      | none => .ok e
      | some q => do
        let e ← evictOne e q (e.heap.eraseIdx (pick fuel % e.heap.length))
        evictLoop pick numTokens fuel e
    else .ok e

/-- `evict`: the nodes freed, in order; each round removes one. -/
def evict (pick : Nat → Nat) (numTokens : Nat) : Except RadixError (List TreeNode × RadixCache) :=
  if c.disable then .ok ([], c)
  else do
    let e ← evictLoop pick numTokens c.nodes.length { cache := c, heap := c.evictableLeaves }
    return (e.freed.reverse, e.cache)

/-! ## Locks -/

/-- The node's count changes by `d`; at `crossing` its length changes sides. -/
def lockStep (crossing d : Int) (n : TreeNode) : RadixCache :=
  let c := if n.lockRef = crossing then
      { c with
        evictableSize := c.evictableSize - d * n.key.len
        protectedSize := c.protectedSize + d * n.key.len }
    else c
  let c := { c with nodes := Keyed.update path (path n) (TreeNode.bump d) c.nodes }
  c.updateLeafStatus (path n)

/-- `inc_lock_ref` and `dec_lock_ref` from a node to the root. -/
def lockWalk (crossing d : Int) : Nat → RadixCache → NodePath → Int → Int × RadixCache
  | 0, c, _, delta => (delta, c)
  | fuel + 1, c, q, delta =>
    match c.node? q with
    | none => (delta, c)
    | some n =>
      lockWalk crossing d fuel (c.lockStep crossing d n) n.parent
        (if n.lockRef = crossing then delta - d * n.key.len else delta)

def incLockRef : Int × RadixCache :=
  if c.disable then (0, c) else lockWalk 0 1 q.length c q 0

def decLockRef : Int × RadixCache :=
  if c.disable then (0, c) else lockWalk 1 (-1) q.length c q 0
end RadixCache
end Sglang
