import Sglang.Lib.Keyed
import Sglang.Lib.Rounds
import Sglang.Lib.Writes

/-!
# Relocation of expert weights

`update_expert_weights_single_layer` moves the weights of one layer from an old to a new placement
of the logical experts on the physical slots.
-/

namespace Sglang.Eplb
open List (range range')

def deduplicateOrdered (arr : List Nat) : List Nat :=
  arr.foldl (fun output item =>
    if output.getLast? = some item then output else output ++ [item]) []

structure ChunkUtils where
  chunkValues : List Nat
  elementValues : List Nat

def chunkIndexFromElementIndex (numElements numChunks elementIndex : Nat) : Nat :=
  let shortChunkSize := numElements / numChunks
  let numLongChunks := numElements % numChunks
  let numElementsForLongChunks := numLongChunks * (shortChunkSize + 1)
  if elementIndex < numElementsForLongChunks then elementIndex / (shortChunkSize + 1)
  else numLongChunks + (elementIndex - numElementsForLongChunks) / shortChunkSize

def elementSliceFromChunkIndex (numElements numChunks chunkIndex : Nat) : Nat × Nat :=
  let shortChunkSize := numElements / numChunks
  let numLongChunks := numElements % numChunks
  let start := chunkIndex * shortChunkSize + min chunkIndex numLongChunks
  (start, start + shortChunkSize + if chunkIndex < numLongChunks then 1 else 0)

namespace ChunkUtils
def chunkValueFromElementValue (u : ChunkUtils) (elementValue : Nat) : Option Nat := do
  let elementIndex ← u.elementValues.idxOf? elementValue
  let numChunks := u.chunkValues.length
  if numChunks = 0 then none
  else u.chunkValues[chunkIndexFromElementIndex u.elementValues.length numChunks elementIndex]?

def elementValuesFromChunkValue (u : ChunkUtils) (chunkValue : Nat) : Option (List Nat) :=
  if u.elementValues.length = 0 then some []
  else do
    let chunkIndex ← u.chunkValues.idxOf? chunkValue
    let slice := elementSliceFromChunkIndex u.elementValues.length u.chunkValues.length chunkIndex
    return (u.elementValues.take slice.2).drop slice.1
end ChunkUtils

/-- An old and a new placement; each logical expert has a physical one. -/
structure Relocation where
  numNodes : Nat
  numGpuPerNode : Nat
  numLocalPhysicalExperts : Nat
  oldPhysicalToLogicalMap : List Nat
  newPhysicalToLogicalMap : List Nat
  numTensors : Nat
  /-- `SGLANG_EPLB_P2P_BATCH_CHUNK_SIZE` -/
  batchChunkSize : Nat
  old_length : oldPhysicalToLogicalMap.length = numNodes * numGpuPerNode * numLocalPhysicalExperts
  new_length : newPhysicalToLogicalMap.length = numNodes * numGpuPerNode * numLocalPhysicalExperts
  old_lt : ∀ e ∈ oldPhysicalToLogicalMap, e < oldPhysicalToLogicalMap.length
  new_mem : ∀ e ∈ newPhysicalToLogicalMap, e ∈ oldPhysicalToLogicalMap
  chunk_pos : 0 < batchChunkSize

structure P2POp where
  isSend : Bool
  peer : Nat
  tensor : Nat
  location : Nat
  deriving DecidableEq

inductive RecvCase
  | unchanged
  | sameGpu (src : Nat)
  /-- the expert is received for an earlier slot of the rank -/
  | freeRider (src : Nat)
  /-- the expert is received from another rank -/
  | fetch (logicalExpertId srcRank : Nat)
  deriving DecidableEq

structure CommInfo where
  sameNodeMapping : ChunkUtils
  crossNodeMapping : ChunkUtils
  needCommSelfNodeDstRanks : List Nat

namespace Relocation
variable (m : Relocation)

def worldSize : Nat := m.numNodes * m.numGpuPerNode

def numPhysicalExperts : Nat := m.oldPhysicalToLogicalMap.length

section
variable (p : Plan) (active : Nat → Bool) (src x rank dst batch logicalExpertId : Nat)

def oldAt : Option Nat := m.oldPhysicalToLogicalMap[x]?

def newAt : Option Nat := m.newPhysicalToLogicalMap[x]?

def rankOf : Nat := x / m.numLocalPhysicalExperts

def nodeOf : Nat := rank / m.numGpuPerNode

def localRange : List Nat :=
  range' (rank * m.numLocalPhysicalExperts) m.numLocalPhysicalExperts

/-! ## Who sends to whom -/

def allSrcRanks : List Nat :=
  deduplicateOrdered (((range m.numPhysicalExperts).filter fun x =>
    m.oldAt x = some logicalExpertId).map m.rankOf)

def needCommDstRanks : List Nat :=
  deduplicateOrdered (((range m.numPhysicalExperts).filter fun x =>
    m.newAt x = some logicalExpertId ∧ m.rankOf x ∉ m.allSrcRanks logicalExpertId).map m.rankOf)

def computeCommInfo (selfNodeId logicalExpertId : Nat) : CommInfo :=
  let allSrcRanks := m.allSrcRanks logicalExpertId
  let allSrcNodes := allSrcRanks.map m.nodeOf
  let selfNodeSrcRanks := allSrcRanks.filter fun x => m.nodeOf x = selfNodeId
  let needCommDstRanks := m.needCommDstRanks logicalExpertId
  let needCommSelfNodeDstRanks :=
    if selfNodeSrcRanks.length > 0 then needCommDstRanks.filter fun x => m.nodeOf x = selfNodeId
    else []
  let needCommCrossNodeDstRanks := needCommDstRanks.filter fun x => m.nodeOf x ∉ allSrcNodes
  { sameNodeMapping := ⟨selfNodeSrcRanks, needCommSelfNodeDstRanks⟩
    crossNodeMapping := ⟨allSrcRanks, needCommCrossNodeDstRanks⟩
    needCommSelfNodeDstRanks := needCommSelfNodeDstRanks }

def chosenSrcRank : Option Nat :=
  let info := m.computeCommInfo (m.nodeOf rank) logicalExpertId
  if rank ∈ info.needCommSelfNodeDstRanks then info.sameNodeMapping.chunkValueFromElementValue rank
  else info.crossNodeMapping.chunkValueFromElementValue rank

def allDstRanks : Option (List Nat) := do
  let info := m.computeCommInfo (m.nodeOf rank) logicalExpertId
  let sameNodeDstRanks ← info.sameNodeMapping.elementValuesFromChunkValue rank
  let crossNodeDstRanks ← info.crossNodeMapping.elementValuesFromChunkValue rank
  return sameNodeDstRanks ++ crossNodeDstRanks

/-! ## What a rank does -/

def handleRecvOfDstExpertLocation : Option RecvCase := do
  let logicalExpertId ← m.newAt dst
  if m.oldAt dst = some logicalExpertId then return .unchanged
  else
    match (m.localRange rank).find? fun src => m.oldAt src = some logicalExpertId with
    | some src => return .sameGpu src
    | none =>
      let before := range' (rank * m.numLocalPhysicalExperts)
        (dst - rank * m.numLocalPhysicalExperts)
      match before.find? fun src => m.newAt src = some logicalExpertId with
      | some src => return .freeRider src
      | none =>
        let srcRank ← m.chosenSrcRank rank logicalExpertId
        return .fetch logicalExpertId srcRank

def handleRecv : Option (List (Nat × RecvCase)) :=
  (m.localRange rank).mapM fun dst => (m.handleRecvOfDstExpertLocation rank dst).map (Prod.mk dst)

def recvInfo : Nat × RecvCase → Option (Nat × List P2POp)
  | (dst, .fetch logicalExpertId srcRank) =>
    some (logicalExpertId, (range m.numTensors).map fun i => ⟨false, srcRank, i, dst⟩)
  | _ => none

def copyInfo : Nat × RecvCase → Option (Nat × Nat)
  | (_, .unchanged) => none
  | (dst, .sameGpu _) => some (dst, dst)
  | (dst, .freeRider src) => some (src, dst)
  | (dst, .fetch _ _) => some (dst, dst)

/-- The copy within the rank that is made at once, to a temporary buffer. -/
def tempInfo : Nat × RecvCase → Option (Nat × Nat)
  | (dst, .sameGpu src) => some (dst, src)
  | _ => none

def isendInfo (src : Nat) : Option (Nat × List P2POp) := do
  let allDstRanks ← m.allDstRanks rank logicalExpertId
  return (logicalExpertId, allDstRanks.flatMap fun dstRank =>
    (range m.numTensors).map fun i => ⟨true, dstRank, i, src⟩)

/-- `_create_isend_ops`, with the expert ids that have been handled. -/
def createIsendOps (rank : Nat) : List Nat → List Nat → Option (List (Nat × List P2POp))
  | _, [] => some []
  | handled, src :: rest => do
    let logicalExpertId ← m.oldAt src
    if logicalExpertId ∈ handled then createIsendOps rank handled rest
    else
      let info ← m.isendInfo rank logicalExpertId src
      let infos ← createIsendOps rank (logicalExpertId :: handled) rest
      return info :: infos

/-- `_filter_p2p_ops` on one entry: the entry, and whether the expert is missing. -/
def filterInfo (info : Nat × List P2POp) : (Nat × List P2POp) × Bool :=
  if info.2.any fun op => op.isSend then ((info.1, info.2.filter fun op => active op.peer), false)
  else if info.2.any fun op => !active op.peer then ((info.1, []), true)
  else (info, false)

structure Plan where
  cases : List (Nat × RecvCase)
  p2pOpInfos : List (Nat × List P2POp)
  missingLogicalExpertsInfo : List Nat

def plan : Option Plan := do
  let cases ← m.handleRecv rank
  let isendInfos ← m.createIsendOps rank [] (m.localRange rank)
  let filtered := (cases.filterMap m.recvInfo ++ isendInfos).map (filterInfo active)
  return {
    cases := cases
    p2pOpInfos := filtered.map Prod.fst
    missingLogicalExpertsInfo := (filtered.filter Prod.snd).map fun x => x.1.1 }

/-- `ops_by_expert`: the last entry of an expert among the sorted entries. -/
def opsByExpert (eid : Nat) : List P2POp :=
  let sortedInfos := p.p2pOpInfos.insertionSort fun x y => x.1 ≤ y.1
  ((Keyed.get? Prod.fst eid sortedInfos.reverse).map Prod.snd).getD []

/-- The operations of a batch; a rank with nothing in it does not take part. -/
def batchOps : List P2POp :=
  let start := batch * m.batchChunkSize
  let stop := min (start + m.batchChunkSize) m.numPhysicalExperts
  (range' start (stop - start)).flatMap (opsByExpert p)

def numBatches : Nat := (m.numPhysicalExperts + m.batchChunkSize - 1) / m.batchChunkSize

/-! ## All ranks together -/

def sendsTo : List P2POp :=
  (m.batchOps p batch).filter fun op => op.isSend && op.peer == dst

def recvsFrom : List P2POp :=
  (m.batchOps p batch).filter fun op => !op.isSend && op.peer == src
end

/-- The logical expert and the tensor that an operation is about. -/
def tag (op : P2POp) : Option Nat × Nat :=
  (if op.isSend then m.oldAt op.location else m.newAt op.location, op.tensor)

def exchange (plans : Nat → Plan) : Exchange Nat (Option Nat × Nat) where
  sends s d k := (m.sendsTo (plans s) d k).map m.tag
  recvs d s k := (m.recvsFrom (plans d) s k).map m.tag
  rounds := m.numBatches

variable {ω : Type}

abbrev Tensors (ω : Type) := Nat × Nat → ω

variable (plans : Nat → Plan) (ranks : List Nat) (weights temp : Nat → Tensors ω) (d : Nat)

/-- What `d` gets from `s`, sends and receives matched in order; the weights sent are the old ones.
-/
def received (s d : Nat) : List ((Nat × Nat) × ω) :=
  let sent := Exchange.upTo (m.sendsTo (plans s) d) m.numBatches
  let expected := Exchange.upTo (m.recvsFrom (plans d) s) m.numBatches
  (sent.zip expected).map fun x =>
    ((x.2.tensor, x.2.location), weights s (x.1.tensor, x.1.location))

def copies (source : Tensors ω) (pairs : List (Nat × Nat)) : List ((Nat × Nat) × ω) :=
  pairs.flatMap fun x => (range m.numTensors).map fun i => ((i, x.2), source (i, x.1))

def tempBuffers : Tensors ω :=
  let sameGpu := ((plans d).cases.filterMap tempInfo).map Prod.swap
  writeAll (writeAll (temp d) (m.copies (weights d) sameGpu))
    (ranks.flatMap fun s => m.received plans weights s d)

def updatedWeights : Tensors ω :=
  writeAll (weights d)
    (m.copies (m.tempBuffers plans ranks weights temp d) ((plans d).cases.filterMap copyInfo))
end Relocation
end Sglang.Eplb
