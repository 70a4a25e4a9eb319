import Sglang.Lib.Writes
import Sglang.Mem.Allocator

/-!
# `MultiEndedAllocator`

The allocator of one sub-pool of a `UnifiedKVPool`.
-/

namespace Sglang.Unified
inductive Grow
  | up
  | down
  deriving DecidableEq

namespace Grow
/-- The page `k` pages further from the end at which the pool starts. -/
def outward : Grow → Int → Int → Int
  | up, p, k => p + k
  | down, p, k => p - k

/-- The page `k` pages nearer to the end at which the pool starts. -/
def inward : Grow → Int → Int → Int
  | up, p, k => p - k
  | down, p, k => p + k

/-- `p` is nearer than `q` to the end at which the pool starts. -/
def Deeper : Grow → Int → Int → Prop
  | up, p, q => p < q
  | down, p, q => q < p

instance (g : Grow) (p q : Int) : Decidable (g.Deeper p q) := by
  cases g <;> unfold Deeper <;> infer_instance

def outermostFirst : Grow → List Int → List Int
  | up, ps => ps.reverse
  | down, ps => ps

def dropOuter : Grow → Nat → List Int → List Int
  | up, n, ps => ps.take (ps.length - n)
  | down, n, ps => ps.drop n

def dropInner : Grow → Nat → List Int → List Int
  | up, n, ps => ps.drop n
  | down, n, ps => ps.take (ps.length - n)
end Grow

abbrev Event := Nat

inductive Err
  | indexError
  | shapeMismatch
  | staleSlot
  | corruptState
  | notOwner
  | notAligned
  | outOfRoom
  | outOfFuel
  deriving DecidableEq

structure SubPool where
  grow : Grow
  numPages : Nat
  minPageIndex : Nat
  entryBytesPerPage : Nat
  pageSize : Nat
  totalBytes : Nat
  isIdOwner : Bool
  lazyCompaction : Bool
  /-- `SGLANG_SORT_FREE_LIST_AFTER_MERGE` -/
  sortFreeListAfterMerge : Bool := false
  lazyMaxMovesPerCall : Int := 4096
  minPageIndex_pos : 0 < minPageIndex
  minPageIndex_le : minPageIndex ≤ numPages
  entryBytesPerPage_pos : 0 < entryBytesPerPage
  pageSize_pos : 0 < pageSize

structure MultiEnded (α : Type) where
  pool : SubPool
  watermarkPhysical : Int
  virtualToPhysical : Nat → Option Int
  physicalToVirtual : Int → Option Nat
  freeVirtualIds : List Nat
  freePhysPages : List Int := []
  pendingReuse : List (Event × List Int) := []
  pendingReusePagesCpu : List Int := []
  livePageCount : Int := 0
  latestForwardDoneEvent : Option Event := none
  inflightForward : Option (Event × List Nat) := none
  isNotInFreeGroup : Bool := true
  freeGroup : List (List Nat) := []
  /-- The contents of the physical pages. -/
  data : Int → α

def pagesFrom (lo : Int) (n : Nat) : List Int := (List.range n).map fun i => lo + (i : Nat)

namespace MultiEnded
variable {α : Type}

section
variable (a : MultiEnded α) (peer : Option (MultiEnded α)) (virtualIds freeIndex vPages : List Nat)
  (physicalIds : List Int) (numPages n : Nat)

def base : Int :=
  match a.pool.grow with
  | .up => a.pool.minPageIndex
  | .down => (a.pool.numPages : Int) - 1

/-- `clear`: the virtual and the physical page 0 are bound to each other; they take padding. -/
def clear : MultiEnded α :=
  { a with
    watermarkPhysical := a.base
    virtualToPhysical := fun v => if v = 0 then some 0 else none
    physicalToVirtual := fun p => if p = 0 then some 0 else none
    freeVirtualIds :=
      if a.pool.isIdOwner then List.range' a.pool.minPageIndex (a.pool.numPages - a.pool.minPageIndex)
      else []
    isNotInFreeGroup := true
    freeGroup := []
    freePhysPages := []
    pendingReuse := []
    pendingReusePagesCpu := []
    livePageCount := 0
    inflightForward := none
    latestForwardDoneEvent := none }

def init (pool : SubPool) (data : Int → α) : MultiEnded α :=
  { pool := pool, watermarkPhysical := 0, virtualToPhysical := fun _ => none,
    physicalToVirtual := fun _ => none, freeVirtualIds := [], data := data : MultiEnded α }.clear

/-! ## Sizes -/

def allocatedPages : Int :=
  match a.pool.grow with
  | .up => max 0 (a.watermarkPhysical - a.pool.minPageIndex)
  | .down => max 0 (a.pool.numPages - 1 - a.watermarkPhysical)

def byteHighFrontier : Int :=
  match a.pool.grow with
  | .up => a.watermarkPhysical * a.pool.entryBytesPerPage
  | .down => a.pool.numPages * a.pool.entryBytesPerPage

def byteLowFrontier : Int :=
  match a.pool.grow with
  | .up => a.pool.minPageIndex * a.pool.entryBytesPerPage
  | .down => (a.watermarkPhysical + 1) * a.pool.entryBytesPerPage

/-- The bytes between this pool and its peer, if one is bound. -/
def currentGapBytes : Int :=
  match a.pool.grow with
  | .up =>
    let peerLow := (peer.map byteLowFrontier).getD a.pool.totalBytes
    max 0 (peerLow - a.byteHighFrontier)
  | .down =>
    let peerHigh := (peer.map byteHighFrontier).getD 0
    max 0 (a.byteLowFrontier - peerHigh)

/-- `available_size`: the tokens that can be given out as things stand. -/
def availableSize : Int :=
  let pagesByBytes := a.currentGapBytes peer / a.pool.entryBytesPerPage
  let pagesByIndexSpace := (a.pool.numPages : Int) - a.pool.minPageIndex - a.allocatedPages
  let pagesExtend := min pagesByBytes pagesByIndexSpace
  let pagesDrain : Int := if a.pool.lazyCompaction then a.freePhysPages.length else 0
  (pagesExtend + pagesDrain) * a.pool.pageSize

/-! ## Physical pages -/

/-- `_extend_watermark`; `none` where the source returns `False`. -/
def extendWatermark : Option (MultiEnded α) :=
  match a.pool.grow with
  | .up =>
    let newWm := a.watermarkPhysical + numPages
    if newWm > a.pool.numPages then none
    else if peer.any fun q => newWm > q.byteLowFrontier / a.pool.entryBytesPerPage then none
    else some { a with watermarkPhysical := newWm }
  | .down =>
    let newWm := a.watermarkPhysical - numPages
    if newWm < (a.pool.minPageIndex : Int) - 1 then none
    else if peer.any fun q => newWm + 1 < q.byteHighFrontier / a.pool.entryBytesPerPage then none
    else some { a with watermarkPhysical := newWm }

def extendWatermarkEager : Option (MultiEnded α) :=
  match a.pool.grow with
  | .up =>
    let newWm := a.watermarkPhysical + numPages
    if newWm > a.pool.numPages then none else some { a with watermarkPhysical := newWm }
  | .down =>
    let newWm := a.watermarkPhysical - numPages
    if newWm < (a.pool.minPageIndex : Int) - 1 then none
    else some { a with watermarkPhysical := newWm }

/-- The holes that are filled first: with sorting those deepest in the pool, else the first ones. -/
def drainHoles : List Int × List Int :=
  let holes := a.freePhysPages
  match a.pool.sortFreeListAfterMerge, a.pool.grow with
  | true, .down => ((holes.drop (holes.length - n)).reverse, holes.take (holes.length - n))
  | _, _ => (holes.take n, holes.drop n)

/-- `_take_physical_arange`: the pages of an extension, ascending. -/
def takePhysicalArange : List Int :=
  match a.pool.grow with
  | .up => pagesFrom (a.watermarkPhysical - n) n
  | .down => pagesFrom (a.watermarkPhysical + 1) n

/-- The pages of an extension that is made when holes have been filled. -/
def extendedPages : List Int :=
  match a.pool.grow with
  | .up => pagesFrom (a.watermarkPhysical - n) n
  | .down => (pagesFrom (a.watermarkPhysical + 1) n).reverse

/-- `take_physical` after extending by `needMore` pages: holes first. -/
def takeDrained (nDrain needMore : Nat) : List Int × MultiEnded α :=
  let (drained, rest) := a.drainHoles nDrain
  let extended := if nDrain = 0 then a.takePhysicalArange needMore else a.extendedPages needMore
  (drained ++ extended,
    { a with freePhysPages := rest, livePageCount := a.livePageCount + (nDrain + needMore : Nat) })

/-- `take_physical` in lazy mode: the watermark is extended first, so a failure changes nothing. -/
def takePhysical : Option (List Int × MultiEnded α) :=
  let nDrain := min numPages a.freePhysPages.length
  let needMore := numPages - nDrain
  if needMore > 0 then (a.extendWatermark peer needMore).map fun a => a.takeDrained nDrain needMore
  else some (a.takeDrained nDrain 0)

/-- The two tables, written at virtual and physical pages one by one. -/
def bound : MultiEnded α :=
  { a with
    virtualToPhysical := writeAll a.virtualToPhysical (virtualIds.zip (physicalIds.map some))
    physicalToVirtual := writeAll a.physicalToVirtual (physicalIds.zip (virtualIds.map some)) }

def bind : Except Err (MultiEnded α) :=
  if virtualIds.any fun v => v > a.pool.numPages then .error .indexError
  else if virtualIds.length ≠ physicalIds.length then .error .shapeMismatch
  else .ok (a.bound virtualIds physicalIds)

/-- `alloc_bind_inplace`: as many pages in a row as there are virtual pages. -/
def allocBindInplace (startPhys : Int) : Except Err (MultiEnded α) :=
  if vPages.any fun v => v > a.pool.numPages then .error .indexError
  else .ok (a.bound vPages (pagesFrom startPhys vPages.length))

/-- The extension that `_alloc_bind_fast_or_slow` makes: in eager mode the peer is not looked at. -/
def extension : Option (MultiEnded α) :=
  if a.pool.lazyCompaction then a.extendWatermark peer numPages else a.extendWatermarkEager numPages

def startPhys (g : Grow) (startWm : Int) (n : Nat) : Int :=
  match g with
  | .up => startWm
  | .down => startWm - n + 1

def counted : MultiEnded α :=
  if a.pool.lazyCompaction then { a with livePageCount := a.livePageCount + n } else a

/-- The fast path of `_alloc_bind_fast_or_slow`: the next pages in a row. -/
def allocBindFast : Except Err (Option (MultiEnded α)) :=
  match a.extension peer n with
  | none => .ok none
  | some a' => do
    let a' ← a'.allocBindInplace vPages (startPhys a.pool.grow a.watermarkPhysical n)
    return some (a'.counted n)

/-- The slow path of `_alloc_bind_fast_or_slow`: holes are filled first. -/
def allocBindSlow : Except Err (Option (MultiEnded α)) :=
  match a.takePhysical peer n with
  | none => .ok none
  | some (physPages, a) => do
    let a ← a.bind vPages physPages
    return some a

def allocBindFastOrSlow : Except Err (Option (MultiEnded α)) :=
  if n = 0 then .ok (some a)
  else if !a.pool.lazyCompaction || a.freePhysPages.isEmpty then a.allocBindFast peer vPages n
  else a.allocBindSlow peer vPages n

/-! ## Compaction at once -/

/-- The copy of whole pages, as `move_kv_cache` makes it. -/
def moveData (data : Int → α) (srcs dsts : List Int) : Int → α :=
  writeAll data (dsts.zip (srcs.map data))

def vacatedBand (g : Grow) (oldWm : Int) (k : Nat) : List Int :=
  match g with
  | .up => pagesFrom (oldWm - k) k
  | .down => pagesFrom (oldWm + 1) k

/-- A page is in use by its place: between the end at which the pool starts and the watermark. -/
def InBand (p : Int) : Prop :=
  match a.pool.grow with
  | .up => a.pool.minPageIndex ≤ p ∧ p < a.watermarkPhysical
  | .down => a.watermarkPhysical < p ∧ p < a.pool.numPages

instance (a : MultiEnded α) (p : Int) : Decidable (a.InBand p) := by
  unfold InBand
  split <;> exact inferInstance

def compactPending (freed : List Int) : Except Err (MultiEnded α) :=
  let freedSet := freed.dedup
  let k := freedSet.length
  if k = 0 then .ok a
  else
    let g := a.pool.grow
    let oldWm := a.watermarkPhysical
    let newWm := g.inward oldWm k
    if g.Deeper newWm a.base then .error .corruptState
    else if ¬∀ h ∈ freedSet, a.InBand h then .error .corruptState
    else
      let band := vacatedBand g oldWm k
      let srcs := band.filter fun s => s ∉ freedSet
      let dsts := (freedSet.filter fun h => g.Deeper h newWm).insertionSort (· ≤ ·)
      if srcs.length ≠ dsts.length then .error .corruptState
      else
        let vMoved := srcs.map a.physicalToVirtual
        .ok { a with
          watermarkPhysical := newWm
          data := moveData a.data srcs dsts
          -- the entry -1 stands for the last row of the table
          virtualToPhysical := writeAll a.virtualToPhysical
            ((vMoved.map fun v => v.getD a.pool.numPages).zip (dsts.map some))
          physicalToVirtual :=
            writeAll (writeAll a.physicalToVirtual (band.map fun p => (p, none))) (dsts.zip vMoved) }

/-! ## Freeing -/

/-- The pages of freed tokens; of single tokens, nothing is looked at in lazy mode. -/
def freedVirtualPages : List Nat :=
  if a.pool.lazyCompaction && a.pool.pageSize == 1 then freeIndex
  else unique (freeIndex.map (· / a.pool.pageSize))

def mergedHoles (holes : List Int) : List Int :=
  if a.pool.sortFreeListAfterMerge then holes.insertionSort (· ≤ ·) else holes

/-- What the table holds for the freed pages; -1 for one that is not bound. -/
def freedPhysicalPages : List Int :=
  vPages.map fun v => (a.virtualToPhysical v).getD (-1)

/-- The virtual pages are bound no more; their owner can give them out again. -/
def unbound : MultiEnded α :=
  { a with
    virtualToPhysical := writeAll a.virtualToPhysical (vPages.map fun v => (v, none))
    freeVirtualIds := if a.pool.isIdOwner then a.freeVirtualIds ++ vPages else a.freeVirtualIds }

/-- Nothing is checked here, so a page that is not bound puts -1 on the list of holes. -/
def freeLazy : Except Err (MultiEnded α) :=
  let vPages := a.freedVirtualPages freeIndex
  if vPages.any fun v => v > a.pool.numPages then .error .indexError
  else
    let freed := a.freedPhysicalPages vPages
    .ok { a.unbound vPages with
      physicalToVirtual := writeAll a.physicalToVirtual (freed.map fun p => (p, none))
      freePhysPages := a.mergedHoles (a.freePhysPages ++ freed)
      livePageCount := a.livePageCount - freed.length }

def freeEager : Except Err (MultiEnded α) :=
  let vPages := a.freedVirtualPages freeIndex
  if vPages.any fun v => v > a.pool.numPages then .error .indexError
  else
    let freed := a.freedPhysicalPages vPages
    if freed.any fun p => p < 0 then .error .staleSlot
    else (a.unbound vPages).compactPending freed

def free : Except Err (MultiEnded α) :=
  if freeIndex.isEmpty then .ok a
  else if !a.isNotInFreeGroup then .ok { a with freeGroup := a.freeGroup ++ [freeIndex] }
  else if a.pool.lazyCompaction then a.freeLazy freeIndex
  else a.freeEager freeIndex
end

section
variable (a : MultiEnded α) (done : Event → Bool) (startHint : Option Int)

def freeGroupBegin : MultiEnded α :=
  { a with isNotInFreeGroup := false, freeGroup := [] }

def freeGroupEnd : Except Err (MultiEnded α) :=
  if a.freeGroup.isEmpty then .ok { a with isNotInFreeGroup := true }
  else { a with isNotInFreeGroup := true, freeGroup := [] : MultiEnded α }.free a.freeGroup.flatten

/-! ## Forward passes -/

def setLatestForwardDoneEvent (event : Option Event) : MultiEnded α :=
  { a with latestForwardDoneEvent := event }

def setInflightForward (forwardDone : Event) (outCacheLoc : Option (List Nat)) : MultiEnded α :=
  if !a.pool.lazyCompaction then a
  else
    match outCacheLoc with
    | none | some [] => { a with inflightForward := none }
    | some loc => { a with inflightForward := some (forwardDone, loc) }

/-- `_materialize_inflight_write_set`: the pages about to be written; unbound tokens map to page 0.
-/
def materializeInflightWriteSet : Except Err (Option (List Int) × MultiEnded α) :=
  match a.inflightForward with
  | none => .ok (none, a)
  | some (event, loc) =>
    if done event then .ok (none, { a with inflightForward := none })
    else if loc.any fun t => t / a.pool.pageSize > a.pool.numPages then .error .indexError
    else .ok (some (loc.map fun t => (a.virtualToPhysical (t / a.pool.pageSize)).getD 0), a)

/-! ## Lazy compaction -/

/-- Pages whose event has fired become holes. An urgent drain waits for the events. -/
def drainPendingReuse (urgent : Bool) (done : Event → Bool) : MultiEnded α :=
  let ready := a.pendingReuse.filter fun e => done e.1 || urgent
  if ready.isEmpty then a
  else
    let pages := ready.flatMap Prod.snd
    { a with
      pendingReuse := a.pendingReuse.filter fun e => !(done e.1 || urgent)
      pendingReusePagesCpu := a.pendingReusePagesCpu.filter fun p => p ∉ pages
      freePhysPages := a.mergedHoles (a.freePhysPages ++ pages) }

def maybeDrainPendingReuse : MultiEnded α :=
  if a.pool.lazyCompaction then a.drainPendingReuse false done else a

/-- The loop of `_topmost_survivor`, with `k` pages to go from `p` and the holes not yet passed. -/
def survivorLoop (g : Grow) (pending : List Int) : Nat → Int → List Int → Option Int × List Int
  | 0, _, outer => (none, outer)
  | k + 1, p, outer =>
    let outer := outer.dropWhile fun h => g.Deeper p h
    let isHole := outer.head? == some p
    if isHole || p ∈ pending then
      survivorLoop g pending k (g.inward p 1) (if isHole then outer.tail else outer)
    else (some p, outer)

/-- The page from which `_topmost_survivor` starts: the hint, if it lies below the watermark. -/
def survivorStart : Int :=
  match startHint with
  | none => a.pool.grow.inward a.watermarkPhysical 1
  | some hint =>
    if a.pool.grow.Deeper hint a.watermarkPhysical then hint
    else a.pool.grow.inward a.watermarkPhysical 1

def pagesInside (p : Int) : Int :=
  match a.pool.grow with
  | .up => p - a.pool.minPageIndex + 1
  | .down => a.pool.numPages - p

/-- `_topmost_survivor`: the outermost page in use, from the hint on. -/
def topmostSurvivor (outer : List Int) : Option Int × List Int :=
  let p := a.survivorStart startHint
  survivorLoop a.pool.grow a.pendingReusePagesCpu (a.pagesInside p).toNat p outer

/-- How many holes, from the outermost on, touch the watermark. -/
def absorbCount (g : Grow) : Int → List Int → Nat
  | _, [] => 0
  | wm, h :: holes => if h = g.inward wm 1 then absorbCount g (g.inward wm 1) holes + 1 else 0

/-- `_absorb_boundary_holes`: the watermark goes back over them. -/
def absorbBoundaryHoles : MultiEnded α :=
  let g := a.pool.grow
  let n := absorbCount g a.watermarkPhysical (g.outermostFirst a.freePhysPages)
  { a with
    watermarkPhysical := g.inward a.watermarkPhysical n
    freePhysPages := g.dropOuter n a.freePhysPages }

def settleInflightForward : MultiEnded α :=
  if a.latestForwardDoneEvent.isSome then { a with inflightForward := none } else a

def setPending (event : Event) (pages : List Int) : List (Event × List Int) → List (Event × List Int)
  | [] => [(event, pages)]
  | e :: es => if e.1 = event then (event, pages) :: es else e :: setPending event pages es

/-- `_commit_move_batch`: pages copied and bound anew, and what `released_fired` gains. -/
def commitMoveBatch (srcs dsts : List Int) (vMoveds : List Nat)
    (latestEvent : Option Event) (done : Event → Bool) : MultiEnded α × List (List Int) :=
  if srcs.isEmpty then (a, [])
  else
    let a := { a with
      data := moveData a.data srcs dsts
      virtualToPhysical := writeAll a.virtualToPhysical (vMoveds.zip (dsts.map some))
      physicalToVirtual := writeAll
        (writeAll a.physicalToVirtual (dsts.zip (vMoveds.map some))) (srcs.map fun p => (p, none)) }
    match latestEvent with
    | none => (a, [srcs])
    | some event =>
      if done event then (a, [srcs])
      else ({ a with
        pendingReuse := setPending event srcs a.pendingReuse
        pendingReusePagesCpu := a.pendingReusePagesCpu ++ srcs }, [])
end

/-- The variables of the survivor walk. The cursors into the holes are the lists of those to come. -/
structure Walk (α : Type) where
  alloc : MultiEnded α
  cursor : Option Int := none
  outer : List Int
  inner : List Int
  srcs : List Int := []
  dsts : List Int := []
  vMoveds : List Nat := []
  writeSet : Option (List Int)
  latestEvent : Option Event
  releasedFired : List (List Int) := []
  nDstConsumed : Nat := 0
  nMoves : Nat := 0

variable (w : Walk α) (a : MultiEnded α) (urgent : Bool) (moveCap : Option Int)
  (peer : Option (MultiEnded α)) (reqs : List ExtendReq) (done : Event → Bool)

def Walk.commit : Walk α :=
  let (alloc, released) := w.alloc.commitMoveBatch w.srcs w.dsts w.vMoveds w.latestEvent done
  { w with
    alloc := alloc
    releasedFired := w.releasedFired ++ released
    nMoves := w.nMoves + w.srcs.length }

def Walk.materialize : Except Err (Walk α) :=
  match w.writeSet with
  | some _ => .ok w
  | none => do
    let (writeSet, alloc) ← w.alloc.materializeInflightWriteSet done
    return { w with writeSet := some (writeSet.getD []), alloc := alloc }

/-- An urgent walk makes its moves and waits for the forward pass before it goes on. -/
def Walk.settle : Walk α :=
  let w := w.commit done
  { w with
    srcs := []
    dsts := []
    vMoveds := []
    alloc := { w.alloc with inflightForward := none }
    writeSet := some []
    latestEvent := none }

def Walk.move (src dst : Int) (vMoved : Nat) : Walk α :=
  { w with
    inner := w.inner.tail
    nDstConsumed := w.nDstConsumed + 1
    srcs := w.srcs ++ [src]
    dsts := w.dsts ++ [dst]
    vMoveds := w.vMoveds ++ [vMoved]
    cursor := some (w.alloc.pool.grow.inward src 1) }

/-- The survivor moves unless the cursors have crossed; the flag says whether to go on. -/
def Walk.moveOrStop (moveCap : Option Int) (src dst : Int) : Except Err (Bool × Walk α) :=
  if w.alloc.pool.grow.Deeper src dst then .ok (false, w)
  else
    match w.alloc.physicalToVirtual src with
    | none => .error .corruptState
    | some vMoved =>
      let w := w.move src dst vMoved
      .ok (!moveCap.any fun cap => (w.srcs.length : Int) ≥ cap, w)

/-- A survivor that the forward pass is about to write stops the walk, or is waited for. -/
def Walk.consider (src dst : Int) : Except Err (Bool × Walk α) := do
  let w ← w.materialize done
  if src ∈ w.writeSet.getD [] then return (urgent, if urgent then w.settle done else w)
  else w.moveOrStop moveCap src dst

def Walk.step : Except Err (Bool × Walk α) :=
  match w.inner.head? with
  | none => .ok (false, w)
  | some dst =>
    let (src?, outer) := w.alloc.topmostSurvivor w.cursor w.outer
    match src? with
    | none => .ok (false, { w with outer := outer })
    | some src => { w with outer := outer : Walk α }.consider urgent moveCap done src dst

def walkLoop (urgent : Bool) (moveCap : Option Int) (done : Event → Bool) :
    Nat → Walk α → Except Err (Walk α)
  | 0, _ => .error .outOfFuel
  | fuel + 1, w => do
    let (goOn, w) ← w.step urgent moveCap done
    if goOn then walkLoop urgent moveCap done fuel w else return w

/-- An urgent pass takes the watermark back, another one swaps filled holes for left pages. -/
def Walk.exit (singlePassAbsorb : Bool) (numHoles : Nat) : MultiEnded α :=
  let a := w.alloc
  if singlePassAbsorb then
    { a with
      watermarkPhysical := a.pool.grow.inward a.watermarkPhysical numHoles
      freePhysPages := [] }
  else
    let holes := a.pool.grow.dropInner w.nDstConsumed a.freePhysPages
    { a with
      freePhysPages :=
        if w.releasedFired.flatten.isEmpty then holes else a.mergedHoles (holes ++ w.releasedFired.flatten) }

/-- `_flush` up to the walk: the list of holes ascends, and none of them touches the watermark. -/
def prepareFlush : MultiEnded α :=
  let a := a.drainPendingReuse urgent done
  let a := { a with
    freePhysPages :=
      if a.pool.sortFreeListAfterMerge then a.freePhysPages
      else a.freePhysPages.insertionSort (· ≤ ·) }
  a.absorbBoundaryHoles

def flush : Except Err (Nat × MultiEnded α) :=
  if !a.pool.lazyCompaction then .ok (0, a)
  else do
    let a := a.prepareFlush urgent done
    let holes := a.freePhysPages
    let singlePassAbsorb := urgent && !holes.isEmpty
    let a := if singlePassAbsorb then a.settleInflightForward else a
    let w ← walkLoop urgent (if urgent then none else some a.pool.lazyMaxMovesPerCall) done
      (holes.length + 2)
      { alloc := a
        outer := a.pool.grow.outermostFirst holes
        inner := (a.pool.grow.outermostFirst holes).reverse
        writeSet := if singlePassAbsorb then some [] else none
        latestEvent := if singlePassAbsorb then none else a.latestForwardDoneEvent }
    let w := w.commit done
    return (w.nMoves, w.exit singlePassAbsorb holes.length)

def flushOpportunistic : Except Err (Nat × MultiEnded α) :=
  if !a.pool.lazyCompaction then .ok (0, a)
  else if a.freePhysPages.isEmpty && a.pendingReuse.isEmpty then .ok (0, a)
  else a.flush false done

/-! ## Allocation -/

/-- `_flush_peer_for_alloc`, if there is not enough room: whether there is then, and the peer. -/
def roomWithPeer (needTokens : Nat)
    (done : Event → Bool) : Except Err (Bool × Option (MultiEnded α)) :=
  if needTokens ≤ a.availableSize peer then .ok (true, peer)
  else
    match a.pool.lazyCompaction, peer with
    | true, some q => do
      let (_, q) ← q.flush true done
      return (needTokens ≤ a.availableSize (some q), some q)
    | _, _ => .ok (false, peer)

def tokensOf (vPages : List Nat) : List Nat :=
  vPages.flatMap fun q => (List.range a.pool.pageSize).map (q * a.pool.pageSize + ·)

/-- What an allocation leaves: the tokens, if there was room, and the two allocators. -/
structure Allocated (α β : Type) where
  tokens : Option β
  self : MultiEnded α
  peer : Option (MultiEnded α)

def alloc (needSize : Nat) (done : Event → Bool) : Except Err (Allocated α (List Nat)) :=
  if !a.pool.isIdOwner then .error .notOwner
  else if needSize = 0 then .ok ⟨some [], a, peer⟩
  else if needSize % a.pool.pageSize ≠ 0 then .error .notAligned
  else do
    let (room, peer) ← a.roomWithPeer peer needSize done
    if !room then return ⟨none, a, peer⟩
    let numPages := needSize / a.pool.pageSize
    let vPages := a.freeVirtualIds.take numPages
    let taken := { a with freeVirtualIds := a.freeVirtualIds.drop numPages }
    match ← taken.allocBindFastOrSlow peer vPages numPages with
    | none => return ⟨none, a, peer⟩
    | some a => return ⟨some (a.tokensOf vPages), a, peer⟩

/-- `alloc_with_virtual`: physical pages for virtual pages of the peer. -/
def allocWithVirtual (virtualPages : List Nat) : Except Err (MultiEnded α) :=
  if virtualPages.isEmpty then .ok a
  else do
    match ← a.allocBindFastOrSlow peer virtualPages virtualPages.length with
    | none => .error .outOfRoom
    | some a => return a

/-- `alloc_extend` and `alloc_decode`: `kernel` gives the tokens, from the free virtual pages. -/
def allocPaged {β : Type} (a : MultiEnded α) (peer : Option (MultiEnded α)) (numNewPages : Nat)
    (kernel : List Nat → β) (done : Event → Bool) : Except Err (Allocated α β) :=
  if !a.pool.isIdOwner then .error .notOwner
  else if numNewPages > a.freeVirtualIds.length then .ok ⟨none, a, peer⟩
  else do
    let (room, peer) ← a.roomWithPeer peer (numNewPages * a.pool.pageSize) done
    if !room then return ⟨none, a, peer⟩
    let outIndices := kernel a.freeVirtualIds
    match ← a.allocBindFastOrSlow peer (a.freeVirtualIds.take numNewPages) numNewPages with
    | none => return ⟨none, a, peer⟩
    | some a => return ⟨some outIndices, { a with freeVirtualIds := a.freeVirtualIds.drop numNewPages }, peer⟩

def numNewPagesExtend : Nat :=
  (reqs.map (ExtendReq.numNewPages a.pool.pageSize)).sum

def numNewPagesDecode : Nat :=
  reqs.countP fun r => r.seqLen % a.pool.pageSize = 1

def allocExtend : Except Err (Allocated α (List (List Nat))) :=
  a.allocPaged peer (a.numNewPagesExtend reqs) (extendAll a.pool.pageSize reqs) done

def allocDecode : Except Err (Allocated α (List Nat)) :=
  a.allocPaged peer (a.numNewPagesDecode reqs) (decodeAll a.pool.pageSize reqs) done
end MultiEnded
end Sglang.Unified
