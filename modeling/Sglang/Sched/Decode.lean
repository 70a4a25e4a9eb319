import Sglang.Mem.KvPoolRelease

/-!
# Room for the next decode step

Before a decode step the scheduler asks whether the running batch fits (`check_decode_mem`): it
estimates the slots of the new pages, makes room in the tree and compares.
-/

namespace Sglang
/-- What the order of retraction depends on. -/
structure RetractionArgs where
  byPriority : Bool := false
  lowValuesFirst : Bool := false
  deriving DecidableEq

def sysMaxsize : Int := 9223372036854775807

namespace Req
def lengthKey (r : Req) : Int × Int := (r.outputIds.length, -r.originInputIds.length)

/-- `retraction_key`; the policy by length leaves the first part out. -/
def retractionKey (args : RetractionArgs) (r : Req) : Int × Int × Int :=
  if args.byPriority then
    let prioritySign : Int := if args.lowValuesFirst then 1 else -1
    let priority := r.priority.getD (if args.lowValuesFirst then sysMaxsize else -sysMaxsize - 1)
    (priority * (-prioritySign), r.lengthKey)
  else (0, r.lengthKey)

def Preferred (args : RetractionArgs) (r r' : Req) : Prop :=
  let k := r.retractionKey args
  let k' := r'.retractionKey args
  k'.1 < k.1 ∨ k'.1 = k.1 ∧ (k'.2.1 < k.2.1 ∨ k'.2.1 = k.2.1 ∧ k'.2.2 ≤ k.2.2)

instance (args : RetractionArgs) : DecidableRel (Preferred args) := fun _ _ =>
  inferInstanceAs (Decidable (_ ∨ _))
end Req

namespace KvPool
variable (s : KvPool) (pick : Nat → Nat → Nat) (reserve : Nat) (args : RetractionArgs)
  (rids : List Nat)

def selected : Option (List Req) :=
  (s.batchReqs (rids.map fun rid => (rid, 0))).map fun rs => rs.map Prod.fst

def newTokensRequiredNextDecode (requests : List Req) : Nat :=
  let pageSize := s.alloc.pageSize
  if s.args.speculative then
    (requests.map fun r =>
      let x := r.kvCommittedLen + reserve - r.kvAllocatedLen
      let cur := r.kvAllocatedLen
      let nxt := cur + x
      ceilAlign nxt pageSize - ceilAlign cur pageSize).sum
  else
    let newPages := requests.countP fun r => r.kvCommittedLen % pageSize = 0
    newPages * pageSize

def checkDecodeMem (pick : Nat → Nat) (reserve : Nat) (rids : List Nat) :
    Except PoolError (Bool × KvPool) :=
  match s.selected rids with
  | none => .error .noRequest
  | some requests => do
    let numTokens := s.newTokensRequiredNextDecode reserve requests
    let s ← s.evictFromTreeCache pick numTokens
    return (decide (s.alloc.availableSize ≥ numTokens), s)

/-- `_get_decode_retraction_order`, most preferred first; a speculative batch is cut from the back.
-/
def getDecodeRetractionOrder : Except PoolError (List Nat) :=
  match s.selected rids with
  | none => .error .noRequest
  | some requests =>
    if s.args.speculative then return rids
    else return (requests.insertionSort (Req.Preferred args)).map Req.rid

/-- The loop of `retract_decode`, over the reversed order; it ends with one request left. -/
def retractLoop (pick : Nat → Nat → Nat) (reserve : Nat) :
    Bool → KvPool → List Nat → List Nat → Except PoolError (KvPool × List Nat × List Nat)
  | _, s, [], retracted => return (s, [], retracted)
  | firstIter, s, [idx], retracted => do
    let s ← if firstIter then pure s else (·.2) <$> s.checkDecodeMem (pick 2) reserve [idx]
    return (s, [idx], retracted)
  | firstIter, s, idx :: next :: rest, retracted => do
    let n := rest.length + 2
    let (fits, s) ← if firstIter then pure (false, s)
      else s.checkDecodeMem (pick (2 * n)) reserve (idx :: next :: rest).reverse
    if fits then return (s, idx :: next :: rest, retracted)
    else
      let s ← s.releaseReq (pick (2 * n + 1)) idx ((n - 1) * s.args.retractDecodeSteps)
      retractLoop pick reserve false s (next :: rest) (retracted ++ [idx])

structure Retraction where
  kept : List Nat
  retracted : List Nat := []
  aborted : List Nat := []
  deriving DecidableEq

def retractDecode : Except PoolError (KvPool × Retraction) := do
  let sortedIndices ← s.getDecodeRetractionOrder args rids
  let (s, left, retracted) ← retractLoop pick reserve true s sortedIndices.reverse []
  match left with
  | [] => .error .noRequest
  | [lastIdx] => do
    let (fits, s) ← s.checkDecodeMem (pick 0) reserve [lastIdx]
    if fits then return (s, { kept := [lastIdx], retracted := retracted })
    else
      -- even the last remaining request cannot fit in memory
      let s ← s.releaseReq (pick 1) lastIdx 0
      return (s, { kept := [], retracted := retracted, aborted := [lastIdx] })
  | left => return (s, { kept := left.reverse, retracted := retracted })

def prepareForDecode (pick : Nat → Nat) (reserve : Nat) (rids : List Nat) :
    Except PoolError KvPool :=
  if s.args.speculative then s.allocForSpecDecode pick rids reserve else s.allocForDecode pick rids

/-- `update_running_batch` from the check on, without finished requests. -/
def updateRunningBatch (testRetract : Bool) (rids : List Nat) :
    Except PoolError (KvPool × Retraction) :=
  if rids.isEmpty then return (s, { kept := [] })
  else do
    let n := rids.length
    let (fits, s) ← s.checkDecodeMem (pick (2 * n + 2)) reserve rids
    let (s, out) ← if !fits || testRetract then s.retractDecode pick reserve args rids
      else pure (s, { kept := rids })
    if out.kept.isEmpty then return (s, out)
    else
      let s ← s.prepareForDecode (pick (2 * n + 3)) reserve out.kept
      return (s, out)
end KvPool
end Sglang
