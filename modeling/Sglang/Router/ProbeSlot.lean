import Sglang.Lib.Run

/-!
# The probe slot of the router's circuit breaker

`allow` gives the one probe of a half-open breaker to a request, and only a recorded outcome takes
it back.
-/

namespace Sglang.Router
open Function

inductive BreakerMode where
  | closed
  | opened (openedAt : Nat)
  | halfOpen (probeInFlight : Bool)
  deriving DecidableEq

structure ProbeConfig where
  threshold : Nat
  coolDown : Nat
  threshold_pos : 0 < threshold

/-- `Inner`. -/
structure ProbeBreaker where
  state : BreakerMode
  consecutiveFailures : Nat
  deriving DecidableEq

namespace ProbeBreaker
variable (cfg : ProbeConfig)

variable (b : ProbeBreaker) (now : Nat)

def allow : Bool × ProbeBreaker :=
  match b.state with
  | .closed => (true, b)
  | .opened openedAt =>
    if cfg.coolDown ≤ now - openedAt then (true, { b with state := .halfOpen true }) else (false, b)
  | .halfOpen probeInFlight =>
    if probeInFlight then (false, b) else (true, { b with state := .halfOpen true })

def recordSuccess (_ : ProbeBreaker) : ProbeBreaker := { state := .closed, consecutiveFailures := 0 }

def recordFailure : ProbeBreaker :=
  match b.state with
  | .opened _ => b
  | _ =>
    { state := if cfg.threshold ≤ b.consecutiveFailures + 1 then .opened now else b.state
      consecutiveFailures := b.consecutiveFailures + 1 }

def record (ok : Bool) : ProbeBreaker :=
  if ok then b.recordSuccess else b.recordFailure cfg now
end ProbeBreaker

inductive CallPhase where
  | new
  | rejected
  /-- at `send().await` -/
  | sending (streaming : Bool)
  /-- at `bytes().await` -/
  | reading (serverError : Bool)
  /-- the spawned pump, with or without the completion hook -/
  | pumping (hook : Bool)
  | ended
  deriving DecidableEq

namespace CallPhase
/-- The future waits at an await point. -/
def Awaits : CallPhase → Bool
  | .sending _ | .reading _ => true
  | _ => false

def InFlight : CallPhase → Bool
  | .sending _ | .reading _ | .pumping _ => true
  | _ => false
end CallPhase

/-- A call, and how often it has recorded an outcome. -/
structure ProxyCall where
  phase : CallPhase := .new
  records : Nat := 0
  deriving DecidableEq

/-- What the pump meets: a chunk, its error flag and whether the client took it, or a panic. -/
inductive PumpStep where
  | chunk (isErr delivered : Bool)
  | panicked
  deriving DecidableEq

def pumpOutcome : List PumpStep → Bool
  | [] => true
  | .panicked :: _ => false
  | .chunk isErr delivered :: steps => if isErr then false else if delivered then pumpOutcome steps else true

inductive ProxyEvent (n : Nat) where
  | tick (d : Nat)
  /-- the call up to its first await: whether the url parses and the path joins it -/
  | forward (i : Fin n) (streaming parses joins : Bool)
  /-- the request was sent: an error, or headers with or without a server error -/
  | sent (i : Fin n) (serverError : Option Bool)
  | body (i : Fin n) (ok : Bool)
  | pumped (i : Fin n) (steps : List PumpStep)
  /-- the client has gone, or the stale token has won -/
  | dropped (i : Fin n)
  deriving DecidableEq

structure ProxyState (n : Nat) where
  breaker : ProbeBreaker
  now : Nat
  calls : Fin n → ProxyCall

namespace ProxyState
variable {n : Nat} (cfg : ProbeConfig)

def initial (n : Nat) : ProxyState n :=
  { breaker := ⟨.closed, 0⟩, now := 0, calls := fun _ => {} }

section
variable (s : ProxyState n) (i : Fin n) (phase : CallPhase)

/-- The call goes on without an outcome. -/
def move : ProxyState n :=
  { s with calls := Function.update s.calls i { s.calls i with phase := phase } }

/-- The call records an outcome. -/
def settle (ok : Bool) : ProxyState n :=
  { s with
    breaker := s.breaker.record cfg s.now ok
    calls := Function.update s.calls i { phase := phase, records := (s.calls i).records + 1 } }

def next : ProxyEvent n → ProxyState n
  | .tick d => { s with now := s.now + d }
  | .forward i streaming parses joins =>
    if (s.calls i).phase = .new then
      let a := s.breaker.allow cfg s.now
      let s := { s with breaker := a.2 }
      if !a.1 then s.move i .rejected
      else if !parses then s.settle cfg i .ended false
      else if !joins then s.move i .ended
      else s.move i (.sending streaming)
    else s
  | .sent i serverError =>
    match (s.calls i).phase, serverError with
    | .sending _, none => s.settle cfg i .ended false
    | .sending false, some e => s.move i (.reading e)
    | .sending true, some true => s.settle cfg i (.pumping false) false
    | .sending true, some false => s.move i (.pumping true)
    | _, _ => s
  | .body i ok =>
    match (s.calls i).phase with
    | .reading serverError => s.settle cfg i .ended (ok && !serverError)
    | _ => s
  | .pumped i steps =>
    match (s.calls i).phase with
    | .pumping true => s.settle cfg i .ended (pumpOutcome steps)
    | .pumping false => s.move i .ended
    | _ => s
  | .dropped i => if (s.calls i).phase.Awaits then s.move i .ended else s

/-- The path joins the url, and no future is dropped while it waits. -/
def Finishes : ProxyEvent n → Prop
  | .forward _ _ _ joins => joins = true
  | .dropped i => (s.calls i).phase.Awaits = false
  | _ => True

instance (s : ProxyState n) : DecidablePred s.Finishes := fun e => by
  cases e <;> unfold Finishes <;> infer_instance

/-- The outcomes that a call has recorded at a phase. -/
def CallPhase.recorded : CallPhase → Nat
  | .pumping false | .ended => 1
  | _ => 0

structure Inv : Prop where
  records : ∀ i, (s.calls i).records = CallPhase.recorded (s.calls i).phase
  failures : s.breaker.state ≠ .closed → cfg.threshold ≤ s.breaker.consecutiveFailures
  probe : ∀ b, s.breaker.state = .halfOpen b → b = true ∧ ∃ i, (s.calls i).phase.InFlight = true ∧
    (s.calls i).phase ≠ .pumping false
end

variable {cfg} {s : ProxyState n} {i : Fin n} {phase : CallPhase}

lemma record_spec (hf : s.breaker.state ≠ .closed → cfg.threshold ≤ s.breaker.consecutiveFailures)
    (ok : Bool) : (∀ b, (s.breaker.record cfg s.now ok).state ≠ .halfOpen b) ∧
    ((s.breaker.record cfg s.now ok).state ≠ .closed →
      cfg.threshold ≤ (s.breaker.record cfg s.now ok).consecutiveFailures) := by
  unfold ProbeBreaker.record ProbeBreaker.recordSuccess ProbeBreaker.recordFailure
  cases ok
  swap
  · simp
  cases hs : s.breaker.state with
  | opened t => simp_all
  | closed =>
    rw [if_neg Bool.false_ne_true]
    simp only
    split
    next hle => exact ⟨nofun, fun _ => hle⟩
    next => exact ⟨nofun, fun h => absurd rfl h⟩
  | halfOpen b =>
    have := hf (by simp [hs])
    rw [if_neg Bool.false_ne_true, if_pos (by omega)]
    exact ⟨nofun, fun _ => by simp only; omega⟩

open CallPhase

lemma inv_settle (hr : ∀ i, (s.calls i).records = recorded (s.calls i).phase)
    (hf : s.breaker.state ≠ .closed → cfg.threshold ≤ s.breaker.consecutiveFailures) (ok : Bool)
    (hold : recorded (s.calls i).phase = 0) (hnew : recorded phase = 1) :
    Inv cfg (s.settle cfg i phase ok) := by
  obtain ⟨hno, hfail⟩ := record_spec hf ok
  refine ⟨fun j => ?_, hfail, fun b hb => absurd hb (hno b)⟩
  by_cases hj : j = i
  · subst hj
    simp [settle, hr, hold, hnew]
  · simpa [settle, update_of_ne hj] using hr j

lemma Inv.move (h : Inv cfg s) (hrec : recorded phase = recorded (s.calls i).phase)
    (hprobe : (s.calls i).phase.InFlight = true ∧ (s.calls i).phase ≠ .pumping false →
      phase.InFlight = true ∧ phase ≠ .pumping false) : Inv cfg (s.move i phase) := by
  refine ⟨fun j => ?_, h.failures, fun b hb => ?_⟩
  · by_cases hj : j = i
    · subst hj
      simp [ProxyState.move, h.records, hrec]
    · simpa [ProxyState.move, update_of_ne hj] using h.records j
  obtain ⟨hb, j, hj⟩ := h.probe b hb
  refine ⟨hb, j, ?_⟩
  by_cases hji : j = i
  · subst hji
    simpa [ProxyState.move] using hprobe hj
  · simpa [ProxyState.move, update_of_ne hji] using hj

lemma Inv.admit (h : Inv cfg s) (hnew : (s.calls i).phase = .new) (streaming parses : Bool) :
    Inv cfg (s.next cfg (.forward i streaming parses true)) := by
  simp only [next, hnew, if_true, Bool.not_true, Bool.false_eq_true, if_false]
  rcases ha : s.breaker.allow cfg s.now with ⟨ok, b⟩
  have hf := h.failures
  unfold ProbeBreaker.allow at ha
  rcases ok with _ | _
  · obtain rfl : s.breaker = b := by
      split at ha <;> (try split at ha) <;> cases ha <;> rfl
    exact h.move (by simp [hnew, recorded]) (by simp [hnew, CallPhase.InFlight])
  have hb : (b.state ≠ .closed → cfg.threshold ≤ b.consecutiveFailures) ∧
      ∀ p, b.state = .halfOpen p → p = true := by
    split at ha <;> (try split at ha) <;> cases ha <;> simp_all
  simp only [Bool.not_true, Bool.false_eq_true, if_false]
  rcases parses with _ | _
  · exact inv_settle (s := { s with breaker := b }) h.records hb.1 false (by
      simp [hnew, recorded]) rfl
  refine ⟨fun j => ?_, hb.1, fun p hp => ⟨hb.2 p hp, i, by simp [ProxyState.move, CallPhase.InFlight]⟩⟩
  by_cases hj : j = i
  · subst hj
    simp [ProxyState.move, h.records, hnew, recorded]
  · simpa [ProxyState.move, update_of_ne hj] using h.records j

lemma Inv.next (h : Inv cfg s) (e : ProxyEvent n) (he : s.Finishes e) : Inv cfg (s.next cfg e) := by
  cases e with
  | tick d => exact ⟨h.records, h.failures, h.probe⟩
  | forward i streaming parses joins =>
    obtain rfl : joins = true := he
    by_cases hnew : (s.calls i).phase = .new
    · exact h.admit hnew streaming parses
    · simp only [ProxyState.next, if_neg hnew]
      exact h
  | sent i serverError =>
    simp only [ProxyState.next]
    split
    next hp => exact inv_settle h.records h.failures _ (by rw [hp]; rfl) rfl
    next hp => exact h.move (by rw [hp]; rfl) fun _ => ⟨rfl, nofun⟩
    next hp => exact inv_settle h.records h.failures _ (by rw [hp]; rfl) rfl
    next hp => exact h.move (by rw [hp]; rfl) fun _ => ⟨rfl, nofun⟩
    next => exact h
  | body i ok =>
    simp only [ProxyState.next]
    split
    next hp => exact inv_settle h.records h.failures _ (by rw [hp]; rfl) rfl
    next => exact h
  | pumped i steps =>
    simp only [ProxyState.next]
    split
    next hp => exact inv_settle h.records h.failures _ (by rw [hp]; rfl) rfl
    next hp => exact h.move (by rw [hp]; rfl) fun hn => absurd hp hn.2
    next => exact h
  | dropped i =>
    have he : (s.calls i).phase.Awaits = false := he
    simp only [ProxyState.next, he]
    exact h

/-- In runs where paths join and no waiting future is dropped, ended calls recorded an outcome, a
probe is in flight, and an idle breaker admits a request after some time. -/
theorem probe_slot_released {past : List (ProxyEvent n)}
    (hr : Run (next cfg) Finishes (initial n) past s) :
    (∀ i, (s.calls i).phase = .ended → (s.calls i).records = 1) ∧
    (∀ b, s.breaker.state = .halfOpen b → ∃ i, (s.calls i).phase.InFlight = true) ∧
    ((∀ i, (s.calls i).phase.InFlight = false) → ∃ d, (s.breaker.allow cfg (s.now + d)).1 = true) := by
  have h : Inv cfg s := hr.invariant (I := fun _ s => Inv cfg s)
    ⟨fun _ => rfl, fun h => absurd rfl h, fun _ hb => by cases hb⟩ fun _ _ e h he => h.next e he
  have hprobe : ∀ b, s.breaker.state = .halfOpen b → ∃ i, (s.calls i).phase.InFlight = true := fun b hb =>
    let ⟨_, i, hi⟩ := h.probe b hb
    ⟨i, hi.1⟩
  refine ⟨fun i hi => by rw [h.records, hi]; rfl, hprobe, fun hnone => ?_⟩
  cases hs : s.breaker.state with
  | closed => exact ⟨0, by simp [ProbeBreaker.allow, hs]⟩
  | opened t =>
    refine ⟨t + cfg.coolDown, ?_⟩
    have : cfg.coolDown ≤ s.now + (t + cfg.coolDown) - t := by omega
    simp [ProbeBreaker.allow, hs, this]
  | halfOpen b =>
    obtain ⟨i, hi⟩ := hprobe b hs
    rw [hnone i] at hi
    cases hi

/-! ## A dropped probe -/

/-- One failure opens the breaker for ten ticks. -/
def strict : ProbeConfig := { threshold := 1, coolDown := 10, threshold_pos := Nat.one_pos }

def request : Fin 2 := ⟨0, Nat.two_pos⟩

def probe : Fin 2 := ⟨1, Nat.one_lt_two⟩

def probing (more : List (ProxyEvent 2)) : List (ProxyEvent 2) :=
  [.forward request false true true, .sent request none, .tick 10, .forward probe false true true] ++ more

theorem probe_slot_released_after_body :
    (((probing [.sent 1 (some false), .body 1 true]).foldl (next strict)
      (initial 2)).calls 1).records = 1 :=
  (probe_slot_released (Run.start.of_admitted _ (by decide))).1 1 (by decide)

theorem dropped_probe_keeps_slot :
    Run (next strict) (fun _ _ => True) (initial 2) ((probing [.dropped 1]).reverse ++ [])
      ((probing [.dropped 1]).foldl (next strict) (initial 2)) ∧
    let s := (probing [.dropped 1]).foldl (next strict) (initial 2)
    (s.calls 1 = { phase := .ended, records := 0 }) ∧ (∀ i, (s.calls i).phase.InFlight = false) ∧
    s.breaker.state = .halfOpen true ∧ ∀ d, (s.breaker.allow strict (s.now + d)).1 = false :=
  ⟨Run.start.of_admitted _ (by decide), by decide, by decide, by decide, fun _ => rfl⟩
end ProxyState
end Sglang.Router
