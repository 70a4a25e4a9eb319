import Sglang.Lib.Keyed

/-!
# The registry of LoRA adapters under asyncio

`LoRARegistry` (`lora/lora_registry.py`) with the `ConcurrentCounter` of each adapter
(`utils/common.py`), its `RWLock` (`utils/aio_rwlock.py`) and the event loop that runs the calls.
-/

namespace Sglang.Lora
inductive Exn
  | valueError
  | keyError
  | assertionError
  deriving DecidableEq

/-- The writer calls; `unload` is `unregister` and `wait_for_unload`. -/
inductive WriterOp (Name Id : Type)
  | register (name : Name) (id : Id)
  | unload (name : Name)
  | acquire (name : Name)
  | acquireList (names : List (Option Name))
  deriving DecidableEq

inductive ReaderOp (Id : Type)
  | release (id : Id)
  | releaseList (ids : List (Option Id))
  deriving DecidableEq

inductive Frame (Name Id : Type)
  /-- In `acquire_writer`. -/
  | writer (op : WriterOp Name Id)
  /-- In `acquire_reader`. -/
  | reader (op : ReaderOp Id)
  /-- At the start of a child that increments the counter of `id`. -/
  | increment (parent : Nat) (id : Id)
  /-- At the start of a child that decrements the counter of `id`. -/
  | decrement (parent : Nat) (id : Id)
  /-- In the `gather` of `acquire`, with `left` children to report. -/
  | acquiring (ids : List (Option Id)) (left : Nat)
  /-- In the `gather` of `release`, with `left` children to report. -/
  | releasing (left : Nat)
  /-- In `wait_for_zero` of the counter of `id`. -/
  | waitForZero (id : Id)
  deriving DecidableEq

variable {Name Id : Type}

def ReaderOp.ids : ReaderOp Id → List Id
  | .release id => [id]
  | .releaseList ids => ids.reduceOption

def Frame.report : Frame Name Id → Frame Name Id
  | .acquiring ids left => .acquiring ids (left - 1)
  | .releasing left => .releasing (left - 1)
  | f => f

def Frame.complete : Frame Name Id → Bool
  | .acquiring _ left => left = 0
  | .releasing left => left = 0
  | _ => false

structure Task (Name Id : Type) where
  tid : Nat
  frame : Frame Name Id

inductive Handle
  | step (tid : Nat)
  | childDone (parent : Nat)

structure RWLock where
  readers : Nat
  writerActive : Bool
  waitingWriters : Nat
  /-- The tasks in `_cond.wait()`. -/
  waiters : List Nat

/-- The tables, least recently used name first, and what the callers saw. -/
structure Tables (Name Id : Type) where
  registry : List (Name × Id)
  /-- The keys of `_counters`. -/
  counters : List Id
  /-- The value of the counter object made for an id, also after it left `_counters`. -/
  count : Id → Int
  held : List Id
  unloaded : List Id
  used : List Id
  raised : List Exn

structure State (Name Id : Type) extends Tables Name Id where
  tasks : List (Task Name Id)
  nextTid : Nat
  ready : List Handle
  lock : RWLock
  /-- The tasks that wait on the condition of a counter. -/
  zeroWaiters : Id → List Nat

variable [DecidableEq Name] [DecidableEq Id]

namespace Tables
def names (d : Tables Name Id) : List Name := d.registry.map Prod.fst

def raise (e : Exn) (d : Tables Name Id) : Tables Name Id := { d with raised := e :: d.raised }

def addCount (id : Id) (n : Int) (d : Tables Name Id) : Tables Name Id :=
  { d with count := fun i => if i = id then d.count i + n else d.count i }

def registerAdapter (name : Name) (id : Id) (d : Tables Name Id) : Tables Name Id :=
  if name ∈ d.names then d.raise .valueError
  else
    { d with
      registry := d.registry ++ [(name, id)]
      counters := d.counters.insert id
      count := fun i => if i = id then 0 else d.count i }
end Tables

def lookup (name : Name) (registry : List (Name × Id)) : Option (List (Name × Id) × Id) :=
  (Keyed.get? Prod.fst name registry).map fun entry =>
    (Keyed.remove Prod.fst name registry ++ [entry], entry.2)

/-- `[_lookup(name) for name in lora_name]`; a missing name raises after the earlier ones have
moved. -/
def lookupAll :
    List (Option Name) → List (Name × Id) → List (Name × Id) × Option (List (Option Id))
  | [], registry => (registry, some [])
  | none :: names, registry =>
    let (registry, ids) := lookupAll names registry
    (registry, ids.map (none :: ·))
  | some name :: names, registry =>
    match lookup name registry with
    | none => (registry, none)
    | some (registry, id) =>
      let (registry, ids) := lookupAll names registry
      (registry, ids.map (some id :: ·))

namespace State
def start : State Name Id where
  registry := []
  counters := []
  count := fun _ => 0
  held := []
  unloaded := []
  used := []
  raised := []
  tasks := []
  nextTid := 0
  ready := []
  lock := ⟨0, false, 0, []⟩
  zeroWaiters := fun _ => []

def withTables (f : Tables Name Id → Tables Name Id) (s : State Name Id) : State Name Id :=
  { s with toTables := f s.toTables }

section
variable (t : Nat) (op : WriterOp Name Id) (ids : List (Option Id)) (f : Frame Name Id) (id : Id)
  (s : State Name Id)

def suspend : State Name Id :=
  { s with tasks := ⟨t, f⟩ :: s.tasks }

def spawn (f : Frame Name Id) : State Name Id :=
  { s with
    tasks := ⟨s.nextTid, f⟩ :: s.tasks
    nextTid := s.nextTid + 1
    ready := s.ready ++ [.step s.nextTid] }

def notifyLock : State Name Id :=
  { s with
    ready := s.ready ++ s.lock.waiters.map .step
    lock := { s.lock with waiters := [] } }

/-- `notify_all` of the condition of the counter of `id`. -/
def notifyZero : State Name Id :=
  { s with
    ready := s.ready ++ (s.zeroWaiters id).map .step
    zeroWaiters := fun i => if i = id then [] else s.zeroWaiters i }

/-- The writer's loop test fails: the lock can be taken. -/
def writable : Bool := !(s.lock.writerActive || s.lock.readers > 0)

def takeWriter : State Name Id :=
  { s with
    lock := { s.lock with writerActive := true, waitingWriters := s.lock.waitingWriters - 1 } }

def releaseWriter : State Name Id :=
  { s with lock := { s.lock with writerActive := false } }.notifyLock

def takeReader : State Name Id :=
  { s with lock := { s.lock with readers := s.lock.readers + 1 } }

def releaseReader : State Name Id :=
  let s := { s with lock := { s.lock with readers := s.lock.readers - 1 } }
  if s.lock.readers = 0 then s.notifyLock else s

def waitLock : State Name Id :=
  { s with lock := { s.lock with waiters := s.lock.waiters ++ [t] } }.suspend t f

def decrement : State Name Id :=
  (s.withTables (·.addCount id (-1))).notifyZero id

/-- `wait_for_zero` from its test on, then `del self._counters[lora_id]`. -/
def waitForZero (t : Nat) (id : Id) (s : State Name Id) : State Name Id :=
  if s.count id = 0 then
    { s with counters := s.counters.erase id, unloaded := id :: s.unloaded }
  else
    { s with
      zeroWaiters := fun i => if i = id then s.zeroWaiters i ++ [t] else s.zeroWaiters i }.suspend t
        (.waitForZero id)

def waitForUnload : State Name Id :=
  if id ∈ s.counters then s.waitForZero t id else s.withTables (·.raise .assertionError)

/-- `asyncio.gather` of one coroutine for each id; the caller suspends at `f`. -/
def gather (child : Id → Frame Name Id) (f : Nat → Frame Name Id) (ids : List Id)
    (s : State Name Id) : State Name Id :=
  ((ids.map child).foldl spawn s).suspend t (f ids.length)

def acquired : State Name Id :=
  { s with held := ids.reduceOption ++ s.held }

def countOne : State Name Id :=
  if id ∈ s.counters then (s.withTables (·.addCount id 1)).acquired [some id]
  else s.withTables (·.raise .keyError)

/-- `acquire` after the lookup: all counters are read first, and a `gather` of nothing does not
suspend. -/
def countAll : State Name Id :=
  if ∀ id ∈ ids.reduceOption, id ∈ s.counters then
    if ids.reduceOption = [] then s.acquired ids
    else s.gather t (.increment t) (.acquiring ids) ids.reduceOption
  else s.withTables (·.raise .keyError)

/-- A call with the writer side, from the moment it has it. -/
def runWriter : State Name Id :=
  match op with
  | .register name id => (s.withTables (·.registerAdapter name id)).releaseWriter
  | .unload name =>
    match Keyed.get? Prod.fst name s.registry with
    | none => (s.withTables (·.raise .valueError)).releaseWriter
    | some entry =>
      { s with registry := Keyed.remove Prod.fst name s.registry }.releaseWriter.waitForUnload t
        entry.2
  | .acquire name =>
    match lookup name s.registry with
    | none => (s.withTables (·.raise .valueError)).releaseWriter
    | some (registry, id) => { s with registry }.releaseWriter.countOne id
  | .acquireList names =>
    match lookupAll names s.registry with
    | (registry, none) => { s with registry, raised := .valueError :: s.raised }.releaseWriter
    | (registry, some ids) => { s with registry }.releaseWriter.countAll t ids

/-- A call with the reader side, from the moment it has it. -/
def runReader (op : ReaderOp Id) (s : State Name Id) : State Name Id :=
  match op with
  | .release id =>
    if id ∈ s.counters then (s.decrement id).releaseReader
    else (s.withTables (·.raise .keyError)).releaseReader
  | .releaseList ids =>
    if ∀ id ∈ ids.reduceOption, id ∈ s.counters then
      if ids.reduceOption = [] then s.releaseReader
      else s.gather t (.decrement t) .releasing ids.reduceOption
    else (s.withTables (·.raise .keyError)).releaseReader

def childDone (parent : Nat) (s : State Name Id) : State Name Id :=
  { s with ready := s.ready ++ [.childDone parent] }

/-- From `f` to the next suspension or the end. -/
def resume : State Name Id :=
  match f with
  | .writer op => if s.writable then s.takeWriter.runWriter t op else s.waitLock t (.writer op)
  | .reader op =>
    if s.lock.writerActive || s.lock.waitingWriters > 0 then s.waitLock t (.reader op)
    else s.takeReader.runReader t op
  | .increment parent id => (s.withTables (·.addCount id 1)).childDone parent
  | .decrement parent id => (s.decrement id).childDone parent
  | .acquiring ids _ => s.acquired ids
  | .releasing _ => s.releaseReader
  | .waitForZero id => s.waitForZero t id

def task? : Option (Task Name Id) := Keyed.get? Task.tid t s.tasks

def onChildDone (parent : Nat) (s : State Name Id) : State Name Id :=
  match s.task? parent with
  | none => s
  | some task =>
    let frame := task.frame.report
    { s with
      tasks := Keyed.update Task.tid parent (fun x => { x with frame := x.frame.report }) s.tasks
      ready := s.ready ++ if frame.complete then [.step parent] else [] }

def tick : State Name Id :=
  match s.ready with
  | [] => s
  | .step t :: rest =>
    match s.task? t with
    | none => { s with ready := rest }
    | some task =>
      { s with ready := rest, tasks := Keyed.remove Task.tid t s.tasks }.resume t task.frame
  | .childDone parent :: rest => { s with ready := rest }.onChildDone parent

/-- `acquire_writer` counts the call as waiting first. -/
def callWriter : State Name Id :=
  let s := match op with
    | .register _ id => { s with used := id :: s.used }
    | _ => s
  { s with
    nextTid := s.nextTid + 1
    lock := { s.lock with waitingWriters := s.lock.waitingWriters + 1 } }.resume s.nextTid (.writer op)
end

def callReader (op : ReaderOp Id) (s : State Name Id) : State Name Id :=
  { s with nextTid := s.nextTid + 1, held := s.held.diff op.ids }.resume s.nextTid
    (.reader op)
end State

inductive Event (Name Id : Type)
  | write (op : WriterOp Name Id)
  | read (op : ReaderOp Id)
  | tick

def State.next (s : State Name Id) : Event Name Id → State Name Id
  | .write op => s.callWriter op
  | .read op => s.callReader op
  | .tick => s.tick

def State.Legal (s : State Name Id) : Event Name Id → Prop
  | .write (.register _ id) => id ∉ s.used
  | .read op => ∀ id ∈ op.ids, op.ids.count id ≤ s.held.count id
  | _ => True

instance (s : State Name Id) : (e : Event Name Id) → Decidable (s.Legal e)
  | .write (.register _ id) => inferInstanceAs (Decidable (id ∉ s.used))
  | .write (.unload _) => .isTrue trivial
  | .write (.acquire _) => .isTrue trivial
  | .write (.acquireList _) => .isTrue trivial
  | .read op => inferInstanceAs (Decidable (∀ id ∈ op.ids, op.ids.count id ≤ s.held.count id))
  | .tick => .isTrue trivial
end Sglang.Lora
