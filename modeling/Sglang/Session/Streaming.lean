import Sglang.Lib.Keyed
import Sglang.Lib.Paging

/-!
# A streaming session and the requests of it

One streaming session through its life: `Session` and `SessionController`
(`session/session_controller.py`), the slot that keeps its KV between the turns
(`session/streaming_session.py`), and what the scheduler does to the requests of the session
(`managers/scheduler.py`, `managers/schedule_batch.py`, `mem_cache/common.py`).
-/

namespace Sglang.Streaming
/-- The fields of `session_params` that a streaming session reads. -/
structure SessionParams where
  replace : Bool
  dropPreviousOutput : Bool
  offset : Option Int
  deriving DecidableEq

/-- `FINISH_ABORT` with its message, or any other reason. -/
inductive FinishReason
  | abort (message : String)
  | stop
  deriving DecidableEq

def FinishReason.isAbort : FinishReason → Bool
  | .abort _ => true
  | .stop => false

/-- A node of the tree underneath, or the sentinel of a session. -/
inductive TreeNode
  | tree (node : Nat)
  | virtual
  deriving DecidableEq

structure ReqKvInfo where
  kvAllocatedLen : Nat
  deriving DecidableEq

inductive Place
  | waiting
  | running
  | gone
  deriving DecidableEq

structure Req where
  rid : Nat
  accepted : Bool
  /-- `req.session is not None`. -/
  attached : Bool
  toFinish : Option FinishReason
  finishedReason : Option FinishReason
  place : Place
  retractedStain : Bool
  /-- `len(origin_input_ids)` and `len(output_ids)`. -/
  inputLen : Nat
  outputLen : Nat
  finishedLen : Option Nat
  reqPoolIdx : Option Nat
  kv : Option ReqKvInfo
  kvCommittedLen : Nat
  lastNode : Option TreeNode
  cacheProtectedLen : Nat
  deriving DecidableEq

structure SessionSlot where
  reqPoolIdx : Option Nat
  kvCommittedLen : Nat
  kv : Option ReqKvInfo
  lastNode : Option TreeNode
  cacheProtectedLen : Nat
  deriving DecidableEq

structure Session where
  inflight : Bool
  closeOnFinish : Bool
  /-- `req_nodes`, which holds at most one request. -/
  node : Option Nat
  /-- The session has been removed from the controller. -/
  deleted : Bool
  deriving DecidableEq

inductive Effect
  | free (row start stop : Nat)
  | freeRow (row : Nat)
  | unlock (node : TreeNode)
  deriving DecidableEq

structure State where
  session : Session
  slot : Option SessionSlot
  reqs : List Req
  nextRid : Nat
  lastReapTime : Int
  effects : List Effect
  deriving DecidableEq

/-! ## `Session` -/

namespace Session
/-- `create_req` of a streaming session: only plain appends, one at a time. -/
def createReq (params : SessionParams) (s : Session) : Except String Session :=
  if s.inflight then .error "Streaming session already has an active request."
  else if params.replace then .error "Streaming sessions do not support replace."
  else if params.dropPreviousOutput then
    .error "Streaming sessions do not support drop_previous_output."
  else if params.offset.getD 0 ≠ 0 then .error "Streaming sessions do not support offset."
  else .ok { s with inflight := true }

def abortReq (s : Session) : Session := { s with inflight := false }
end Session

/-! ## `Req` -/

namespace Req
def created (rid : Nat) (accepted : Bool) (inputLen : Nat) : Req where
  rid := rid
  accepted := accepted
  attached := true
  toFinish := none
  finishedReason := none
  place := .waiting
  retractedStain := false
  inputLen := inputLen
  outputLen := 0
  finishedLen := none
  reqPoolIdx := none
  kv := none
  kvCommittedLen := 0
  lastNode := none
  cacheProtectedLen := 0

def finished (r : Req) : Bool := r.finishedReason.isSome

def detach (r : Req) : Req := { r with attached := false }

def setFinishWithAbort (message : String) (r : Req) : Req :=
  { r with inputLen := 1, toFinish := some (.abort message) }

/-- `update_finish_state`, where `reason` is what the checks after the first two find. -/
def updateFinishState (reason : FinishReason) (len : Option Nat) (r : Req) : Req :=
  match r.toFinish with
  | some abort => { r with finishedReason := some abort, toFinish := none }
  | none => { r with finishedReason := some reason, finishedLen := len }

def resetForRetract (r : Req) : Req :=
  { r with lastNode := none, cacheProtectedLen := 0, retractedStain := true, kvCommittedLen := 0 }

def leave (r : Req) : Req := { r with place := .gone }
end Req

/-! ## The slot -/

namespace SessionSlot
def saveFromReq (r : Req) (isFirst : Bool) (slot : SessionSlot) : SessionSlot × Req :=
  let slot := { slot with
    reqPoolIdx := r.reqPoolIdx
    kvCommittedLen := r.kvCommittedLen
    kv := r.kv }
  let slot :=
    if isFirst then { slot with lastNode := r.lastNode, cacheProtectedLen := r.cacheProtectedLen }
    else slot
  (slot, { r with reqPoolIdx := none, kv := none })

def restoreToReq (slot : SessionSlot) (r : Req) : Req :=
  { r with reqPoolIdx := slot.reqPoolIdx, kvCommittedLen := slot.kvCommittedLen, kv := slot.kv }
end SessionSlot

def freeKvAligned (pageSize : Nat) (row : Option Nat) (target stop : Nat) : List Effect :=
  if stop ≤ target then []
  else
    let start := if pageSize > 1 then ceilAlign target pageSize else target
    if start < stop then row.toList.map fun row => .free row start stop else []

namespace State
def start : State where
  session := ⟨false, false, none, false⟩
  slot := none
  reqs := []
  nextRid := 0
  lastReapTime := 0
  effects := []

def req? (rid : Nat) (s : State) : Option Req := Keyed.get? Req.rid rid s.reqs

section
variable (pageSize keyLen node matched : Nat) (r : Req) (s : State)

def setReq : State :=
  { s with reqs := Keyed.update Req.rid r.rid (fun _ => r) s.reqs }

def addReq : State :=
  { s with reqs := s.reqs ++ [r], nextRid := s.nextRid + 1 }

def releaseSession : State :=
  match s.slot with
  | none => s
  | some slot =>
    let unlock := slot.lastNode.toList.map .unlock
    let freed := match slot.kv with
      | none => []
      | some kv =>
        (if slot.cacheProtectedLen < kv.kvAllocatedLen then
          slot.reqPoolIdx.toList.map fun row => .free row slot.cacheProtectedLen kv.kvAllocatedLen
        else []) ++ slot.reqPoolIdx.toList.map .freeRow
    { s with slot := none, effects := s.effects ++ unlock ++ freed }

/-- The request becomes the node; the node before it (maybe itself) leaves the session. -/
def finishReq : State × Req :=
  let session := { s.session with inflight := false, node := some r.rid }
  match s.session.node with
  | none => ({ s with session }, r)
  | some prev =>
    ({ s with session, reqs := Keyed.update Req.rid prev Req.detach s.reqs },
      if prev = r.rid then r.detach else r)

def trimOvershoot (finishedLen : Nat) (s : State) : State × Req :=
  let target := r.inputLen + finishedLen
  let allocated := (r.kv.map ReqKvInfo.kvAllocatedLen).getD 0
  ({ s with effects := s.effects ++ freeKvAligned pageSize r.reqPoolIdx target allocated },
    { r with
      kv := r.kv.map fun kv => { kv with kvAllocatedLen := min kv.kvAllocatedLen target }
      kvCommittedLen := min r.kvCommittedLen target
      outputLen := min r.outputLen finishedLen })

/-- `try_cache_finished_req` of an aborted request: all KV of the session goes. -/
def cacheAborted : State × Req :=
  let slot := s.slot.getD {
    reqPoolIdx := r.reqPoolIdx, kvCommittedLen := 0, kv := r.kv, lastNode := r.lastNode,
    cacheProtectedLen := r.cacheProtectedLen }
  let own := (r.kv.map ReqKvInfo.kvAllocatedLen).getD 0
  let slot := { slot with kv := slot.kv.map fun kv => { kv with
    kvAllocatedLen := max kv.kvAllocatedLen own } }
  let s := releaseSession { s with slot := some slot }
  ({ s with session := s.session.abortReq }, { r with reqPoolIdx := none, kv := none })

/-- Up to the finished length. -/
def saveToSlot : State × Req :=
  let isFirst := s.slot.isNone
  let slot := s.slot.getD ⟨none, 0, none, none, 0⟩
  let finishedLen := r.finishedLen.getD r.outputLen
  let target := r.inputLen + finishedLen
  let (s, r) := s.trimOvershoot pageSize r finishedLen
  let (slot, r) := slot.saveFromReq r isFirst
  let allocated := (slot.kv.map ReqKvInfo.kvAllocatedLen).getD 0
  ({ s with slot := some { slot with kvCommittedLen := min target allocated } }, r)

/-- Finished, or released to be retracted. -/
def cacheFinished : State × Req :=
  let (s, r) := s.saveToSlot pageSize r
  s.finishReq r

/-- `release_kv_cache`. A request off the session gives its KV to the tree underneath. -/
def releaseKvCache : State × Req :=
  if r.attached then
    if (r.finishedReason.map FinishReason.isAbort).getD false then s.cacheAborted r
    else s.cacheFinished pageSize r
  else (s, { r with reqPoolIdx := none, kv := none })

/-- The slot's KV, cut to the key. -/
def matchSlot (slot : SessionSlot) (r : Req) (s : State) : State :=
  let r := slot.restoreToReq r
  let prefixLen := min r.kvCommittedLen keyLen
  let allocated := (slot.kv.map ReqKvInfo.kvAllocatedLen).getD 0
  let kv : Option ReqKvInfo := some { kvAllocatedLen := prefixLen }
  { s with
    slot := some { slot with kv, kvCommittedLen := min slot.kvCommittedLen prefixLen }
    effects := s.effects ++ freeKvAligned pageSize slot.reqPoolIdx prefixLen allocated }.setReq
    { r with
      kv
      kvCommittedLen := min r.kvCommittedLen prefixLen
      lastNode := some .virtual
      cacheProtectedLen := slot.cacheProtectedLen }

/-- `match_prefix` of the tree underneath: it matched `matched` tokens, up to `node`. -/
def matchTree : State :=
  s.setReq { r with lastNode := some (.tree node), cacheProtectedLen := matched }

/-- `init_next_round_input`: a request to be aborted leaves the session and clears its flag. -/
def matchPrefix : State :=
  match s.slot with
  | none => s.matchTree node matched r
  | some slot =>
    if r.attached && slot.kv.isSome then
      if r.toFinish.isSome then
        { s with session := s.session.abortReq }.matchTree node matched r.detach
      else s.matchSlot pageSize keyLen slot r
    else s.matchTree node matched r

def release (after : Req → Req) (s : State) : State :=
  let (s, r) := s.releaseKvCache pageSize r
  s.setReq (after r)

def finish (reason : FinishReason) (len : Option Nat) (r : Req) (s : State) : State :=
  s.release pageSize (r.updateFinishState reason len) Req.leave

def abortChunked : State :=
  s.release pageSize { r with finishedReason := some (.abort "Aborted"), toFinish := none } Req.leave

def retract : State :=
  s.release pageSize r fun r => { r.resetForRetract with place := .waiting }

def abortOutOfMemory : State :=
  let message := "Out of memory even after retracting all other requests " ++
    "in the decode batch. Aborting the last request."
  s.release pageSize { r with toFinish := some (.abort message) } fun r => r.resetForRetract.leave

/-- The request is added to a batch or takes a step in it. -/
def run (row committed allocated output : Nat) (r : Req) (s : State) : State :=
  s.setReq { r with
    place := .running
    reqPoolIdx := some (r.reqPoolIdx.getD row)
    kv := some { kvAllocatedLen := allocated }
    kvCommittedLen := committed
    outputLen := output }

/-! ## `SessionController` -/

def allRequestsFinished : Bool :=
  match s.session.node with
  | none => true
  | some rid => ((s.req? rid).map Req.finished).getD true

def doClose : State :=
  if s.session.inflight || !s.allRequestsFinished then
    { s with session := { s.session with closeOnFinish := true } }
  else
    let reqs := match s.session.node with
      | none => s.reqs
      | some rid => Keyed.update Req.rid rid Req.detach s.reqs
    let s := { s with reqs }.releaseSession
    { s with session := { s.session with deleted := true } }

def close : State := if s.session.deleted then s else s.doClose

/-- The first half of `maybe_reap`: the closes that had to wait. -/
def reapPending : State :=
  if !s.session.deleted && s.session.closeOnFinish && s.allRequestsFinished then
    { s with session := { s.session with closeOnFinish := false } }.doClose
  else s
end

/-- `maybe_reap`; `timedOut` is what `is_timed_out` answers. -/
def maybeReap (now interval : Int) (timedOut : Bool) (s : State) : State :=
  if now - s.lastReapTime > interval then
    let s := { s with lastReapTime := now }.reapPending
    if !s.session.deleted && timedOut then s.doClose else s
  else s

/-- A generation request; a closed or closing session gives one without a session. -/
def create (params : SessionParams) (inputLen : Nat) (s : State) : State :=
  if s.session.deleted || s.session.closeOnFinish then s
  else
    match s.session.createReq params with
    | .ok session => { s with session }.addReq (.created s.nextRid true inputLen)
    | .error message =>
      s.addReq ((Req.created s.nextRid false inputLen).setFinishWithAbort message)
end State

inductive Event
  | create (params : SessionParams) (inputLen : Nat)
  /-- `set_finish_with_abort` of a waiting request. -/
  | reject (rid : Nat) (message : String)
  /-- `abort_request` or a timeout finds the request in the running batch. -/
  | abortRunning (rid : Nat) (message : String)
  /-- `init_next_round_input` of a waiting request. -/
  | matchPrefix (rid keyLen node matched : Nat)
  /-- The request enters a batch or takes a step in it. -/
  | run (rid row committed allocated output : Nat)
  | finish (rid : Nat) (reason : FinishReason) (len : Option Nat)
  | abortChunked (rid : Nat)
  /-- `retract_decode`, or a preemption: the request waits again. -/
  | retract (rid : Nat)
  /-- `retract_decode` aborts the last request for lack of memory. -/
  | abortOutOfMemory (rid : Nat)
  /-- The request leaves or does not enter the waiting queue. -/
  | drop (rid : Nat)
  | close
  | maybeReap (now interval : Int) (timedOut : Bool)
  deriving DecidableEq

/-- What `f` does to the request, if it is at one of the places. -/
def State.withReq (rid : Nat) (places : List Place) (f : Req → State → State) (s : State) : State :=
  match s.req? rid with
  | none => s
  | some r => if r.place ∈ places then f r s else s

def State.next (pageSize : Nat) (s : State) : Event → State
  | .create params inputLen => s.create params inputLen
  | .reject rid message =>
    s.withReq rid [.waiting] fun r s => s.setReq (r.setFinishWithAbort message)
  | .abortRunning rid message =>
    s.withReq rid [.running] fun r s => s.setReq { r with toFinish := some (.abort message) }
  | .matchPrefix rid keyLen node matched =>
    s.withReq rid [.waiting] (State.matchPrefix pageSize keyLen node matched)
  | .run rid row committed allocated output =>
    s.withReq rid [.waiting, .running] (State.run row committed allocated output)
  | .finish rid reason len => s.withReq rid [.running] (State.finish pageSize reason len)
  | .abortChunked rid => s.withReq rid [.running] (State.abortChunked pageSize)
  | .retract rid => s.withReq rid [.running] (State.retract pageSize)
  | .abortOutOfMemory rid => s.withReq rid [.running] (State.abortOutOfMemory pageSize)
  | .drop rid => s.withReq rid [.waiting] fun r s => s.setReq r.leave
  | .close => s.close
  | .maybeReap now interval timedOut => s.maybeReap now interval timedOut

def Event.rid? : Event → Option Nat
  | .reject rid _ | .abortRunning rid _ | .matchPrefix rid _ _ _ | .run rid _ _ _ _
  | .finish rid _ _ | .abortChunked rid | .retract rid | .abortOutOfMemory rid | .drop rid => some rid
  | _ => none
end Sglang.Streaming
