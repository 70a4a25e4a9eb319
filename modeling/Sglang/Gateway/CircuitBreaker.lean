import Sglang.Lib.Run

/-!
# The lock-free circuit breaker of the gateway

Threads run `can_execute`, `record_success` and `record_failure` over shared atomics; each atomic
operation and each read of the clock is one step.
-/

namespace Sglang.Gateway
open List
open List.Subset (refl)

inductive CircuitState where
  | closed
  | opened
  | halfOpen
  deriving DecidableEq

structure CircuitBreakerConfig where
  failureThreshold : Nat
  successThreshold : Nat
  /-- `timeout_duration` in milliseconds -/
  timeoutMs : Nat

/-- The atomics. -/
structure CircuitBreaker where
  state : CircuitState := .closed
  consecutiveFailures : Nat := 0
  consecutiveSuccesses : Nat := 0
  totalFailures : Nat := 0
  totalSuccesses : Nat := 0
  lastFailureTimeMs : Nat := 0
  lastStateChangeMs : Nat
  deriving DecidableEq

/-- One atomic operation or one read of the clock, with the local values it needs. -/
inductive BreakerOp where
  /-- the load with which `check_and_update_state_returning` starts -/
  | loadState
  | loadChange
  | readTimeoutClock (lastChangeMs : Nat)
  | compareExchange
  /-- the load after a lost exchange -/
  | reload
  | readChangeClock
  /-- `openings` is what had been recorded when the clock was read -/
  | storeChange (now : Nat) (openings : List Nat)
  | storeFailures
  | storeSuccesses
  | addTotalSuccesses
  | addSuccesses
  | loadForSuccess (successes : Nat)
  | addTotalFailures
  | addFailures
  | readFailureClock (failures : Nat)
  | storeFailureTime (now : Nat)
  | loadForFailure (failures : Nat)
  | swap (new : CircuitState)
  /-- `can_execute` returns -/
  | answer (allowed : Bool)
  deriving DecidableEq

/-- Operations whose outcome decides what follows. -/
def BreakerOp.branches : BreakerOp → Bool
  | .readChangeClock | .storeChange _ _ | .storeFailures | .storeSuccesses | .addTotalSuccesses
  | .addTotalFailures | .storeFailureTime _ => false
  | _ => true

inductive BreakerCall where
  | canExecute
  | recordSuccess
  | recordFailure
  deriving DecidableEq

/-- What a call does up to its first branch. -/
def BreakerCall.program : BreakerCall → List BreakerOp
  | .canExecute => [.loadState]
  | .recordSuccess => [.addTotalSuccesses, .storeFailures, .addSuccesses]
  | .recordFailure => [.addTotalFailures, .storeSuccesses, .addFailures]

/-- The rest of a thread's call, and the openings at its last load of the state. -/
structure BreakerThread where
  program : List BreakerOp := []
  seen : List Nat := []
  deriving DecidableEq

/-- The breaker under `n` threads, with the times of its openings. -/
structure BreakerState (n : Nat) where
  breaker : CircuitBreaker
  now : Nat
  threads : Fin n → BreakerThread
  openings : List Nat

inductive BreakerEvent (n : Nat) where
  | tick (ms : Nat)
  | call (i : Fin n) (c : BreakerCall)
  | step (i : Fin n)
  deriving DecidableEq

/-- What an operation leaves behind. -/
structure BreakerEffect where
  breaker : CircuitBreaker
  follow : List BreakerOp
  openings : List Nat
  seen : List Nat

/-- The counters that `transition_to` resets. -/
def CircuitState.resets : CircuitState → List BreakerOp
  | .closed => [.storeFailures, .storeSuccesses]
  | .opened => [.storeSuccesses]
  | .halfOpen => [.storeFailures, .storeSuccesses]

/-- The atomic counters wrap around. -/
def fetchAdd (width count : Nat) : Nat := (count + 1) % 2 ^ width

def CircuitBreakerConfig.exec (c : CircuitBreakerConfig) (b : CircuitBreaker) (now : Nat)
    (openings seen : List Nat) : BreakerOp → BreakerEffect
  | .loadState =>
    { breaker := b, openings := openings, seen := openings
      follow := if b.state = .opened then [.loadChange] else [.answer true] }
  | .loadChange => ⟨b, [.readTimeoutClock b.lastStateChangeMs], openings, seen⟩
  | .readTimeoutClock last =>
    ⟨b, if c.timeoutMs ≤ now - last then [.compareExchange] else [.answer false], openings, seen⟩
  | .compareExchange =>
    if b.state = .opened then
      ⟨{ b with state := .halfOpen },
        .readChangeClock :: CircuitState.halfOpen.resets ++ [.answer true], openings, seen⟩
    else ⟨b, [.reload], openings, seen⟩
  | .reload => ⟨b, [.answer (b.state ≠ .opened)], openings, seen⟩
  | .readChangeClock => ⟨b, [.storeChange now openings], openings, seen⟩
  | .storeChange t _ => ⟨{ b with lastStateChangeMs := t }, [], openings, seen⟩
  | .storeFailures => ⟨{ b with consecutiveFailures := 0 }, [], openings, seen⟩
  | .storeSuccesses => ⟨{ b with consecutiveSuccesses := 0 }, [], openings, seen⟩
  | .addTotalSuccesses => ⟨{ b with totalSuccesses := fetchAdd 64 b.totalSuccesses }, [], openings, seen⟩
  | .addSuccesses =>
    ⟨{ b with consecutiveSuccesses := fetchAdd 32 b.consecutiveSuccesses },
      [.loadForSuccess (fetchAdd 32 b.consecutiveSuccesses)], openings, seen⟩
  | .loadForSuccess successes =>
    { breaker := b, openings := openings, seen := openings
      follow := if b.state = .halfOpen ∧ c.successThreshold ≤ successes then [.swap .closed] else [] }
  | .addTotalFailures => ⟨{ b with totalFailures := fetchAdd 64 b.totalFailures }, [], openings, seen⟩
  | .addFailures =>
    ⟨{ b with consecutiveFailures := fetchAdd 32 b.consecutiveFailures },
      [.readFailureClock (fetchAdd 32 b.consecutiveFailures)], openings, seen⟩
  | .readFailureClock failures => ⟨b, [.storeFailureTime now, .loadForFailure failures], openings, seen⟩
  | .storeFailureTime t => ⟨{ b with lastFailureTimeMs := t }, [], openings, seen⟩
  | .loadForFailure failures =>
    { breaker := b, openings := openings, seen := openings
      follow := match b.state with
        | .closed => if c.failureThreshold ≤ failures then [.swap .opened] else []
        | .halfOpen => [.swap .opened]
        | .opened => [] }
  | .swap new =>
    if b.state = new then ⟨b, [], openings, seen⟩
    else
      ⟨{ b with state := new }, .readChangeClock :: new.resets,
        if new = .opened then now :: openings else openings, seen⟩
  | .answer _ => ⟨b, [], openings, seen⟩

namespace BreakerState
variable {n : Nat}

/-- A new breaker, and threads without a call. -/
def initial (n start : Nat) : BreakerState n :=
  { breaker := { lastStateChangeMs := start }, now := start, threads := fun _ => {}, openings := [] }

def next (c : CircuitBreakerConfig) (s : BreakerState n) : BreakerEvent n → BreakerState n
  | .tick ms => { s with now := s.now + ms }
  | .call i call =>
    if (s.threads i).program = [] then
      { s with threads := Function.update s.threads i { s.threads i with program := call.program } }
    else s
  | .step i =>
    match (s.threads i).program with
    | [] => s
    | op :: rest =>
      let e := c.exec s.breaker s.now s.openings (s.threads i).seen op
      { s with
        breaker := e.breaker
        openings := e.openings
        threads := Function.update s.threads i { program := e.follow ++ rest, seen := e.seen } }

/-- An operation that belongs to a change of state whose time is not stored yet. -/
def ChangePending : BreakerOp → Prop
  | .readChangeClock | .storeChange _ _ => True
  | _ => False

instance : DecidablePred ChangePending := fun op => by
  cases op <;> unfold ChangePending <;> infer_instance

/-- Changes have stored their times when one is loaded, and no opening overtakes a thread that
leaves `opened` or stores a time. -/
def Orderly (s : BreakerState n) (th : BreakerThread) : BreakerOp → Prop
  | .loadChange => ∀ j, ∀ op ∈ (s.threads j).program, ¬ChangePending op
  | .compareExchange => th.seen = s.openings
  | .swap new => new ≠ .opened → th.seen = s.openings
  | .storeChange _ openings => openings = s.openings
  | _ => True

instance (s : BreakerState n) (th : BreakerThread) : DecidablePred (Orderly s th) := fun op => by
  cases op <;> unfold Orderly <;> infer_instance

/-- The condition on one event. -/
def Undisturbed (s : BreakerState n) : BreakerEvent n → Prop
  | .step i => ∀ op ∈ (s.threads i).program.head?, s.Orderly (s.threads i) op
  | _ => True

instance (s : BreakerState n) : DecidablePred s.Undisturbed := fun e => by
  cases e <;> unfold Undisturbed <;> infer_instance

variable {c : CircuitBreakerConfig} {s : BreakerState n} {openings seen : List Nat}

section
variable (c : CircuitBreakerConfig) (now : Nat) (openings : List Nat)

/-- All openings lie at least the timeout in the past. -/
def Over : Prop :=
  ∀ t ∈ openings, t + c.timeoutMs ≤ now

/-- What a thread knows when it is at an operation. -/
def Knows (seen : List Nat) : BreakerOp → Prop
  | .readTimeoutClock last => seen = openings → ∀ t ∈ openings, t ≤ last
  | .compareExchange => seen = openings → Over c now openings
  | .swap new => new ≠ .opened → seen = openings → Over c now openings
  | .storeChange t openings' => openings' <:+ openings ∧ (openings' = openings → ∀ t' ∈ openings, t' ≤ t)
  | .answer allowed => allowed = true → Over c now seen
  | _ => True

/-- A branching operation is the last one of its call's program. -/
def WellFormed : List BreakerOp → Prop
  | [] => True
  | op :: rest => (op.branches = true → rest = []) ∧ WellFormed rest

/-- The invariant of undisturbed runs. -/
structure Inv (s : BreakerState n) : Prop where
  past : ∀ t ∈ s.openings, t ≤ s.now
  elapsed : s.breaker.state ≠ .opened → Over c s.now s.openings
  change : (∃ j, ∃ op ∈ (s.threads j).program, ChangePending op) ∨
    ∀ t ∈ s.openings, t ≤ s.breaker.lastStateChangeMs
  seen : ∀ i, (s.threads i).seen <:+ s.openings
  form : ∀ i, WellFormed (s.threads i).program
  knows : ∀ i, ∀ op ∈ (s.threads i).program, Knows c s.now s.openings (s.threads i).seen op
end

lemma Over.mono {now now' : Nat} {l l' : List Nat} (h : Over c now l) (hn : now ≤ now')
    (hl : l' ⊆ l) : Over c now' l' := fun t ht => (h t (hl ht)).trans hn

lemma Knows.later {now now' : Nat} {op : BreakerOp}
    (h : Knows c now openings seen op) (hn : now ≤ now') : Knows c now' openings seen op := by
  cases op <;> unfold Knows at h ⊢ <;> first | exact h | skip
  case compareExchange => exact fun e => (h e).mono hn (refl _)
  case swap => exact fun hc e => (h hc e).mono hn (refl _)
  case answer => exact fun ha => (h ha).mono hn (refl _)

/-- A thread that an opening overtakes knows nothing of the present openings. -/
lemma Knows.overtaken {now t : Nat} {op : BreakerOp}
    (h : Knows c now openings seen op) (hs : seen <:+ openings) : Knows c now
    (t :: openings) seen op := by
  have hne : ∀ {l : List Nat}, l <:+ openings → l ≠ t :: openings := fun hl e => by
    have := hl.length_le
    rw [e, length_cons] at this
    omega
  cases op <;> unfold Knows at h ⊢ <;> first | exact h | skip
  case readTimeoutClock => exact fun e => absurd e (hne hs)
  case compareExchange => exact fun e => absurd e (hne hs)
  case swap => exact fun _ e => absurd e (hne hs)
  case storeChange => exact ⟨h.1.trans (suffix_cons ..), fun e => absurd e (hne h.1)⟩

def after (s : BreakerState n) (i : Fin n) (e : BreakerEffect) (rest : List BreakerOp) : BreakerState n :=
  { s with
    breaker := e.breaker
    openings := e.openings
    threads := Function.update s.threads i { program := e.follow ++ rest, seen := e.seen } }

variable {i : Fin n} {e : BreakerEffect} {op : BreakerOp} {rest : List BreakerOp}

lemma program_after_self : ((s.after i e rest).threads i).program = e.follow ++ rest := by
  simp [after]

lemma threads_after_of_ne {j : Fin n} (h : j ≠ i) : (s.after i e rest).threads j = s.threads j :=
  Function.update_of_ne h _ _

lemma Inv.after (h : Inv c s) (hopen : e.openings = s.openings ∨ e.openings = s.now :: s.openings)
    (hover : e.breaker.state ≠ .opened → Over c s.now e.openings)
    (hchange : (∃ j, ∃ op ∈ ((s.after i e rest).threads j).program, ChangePending op) ∨
      ∀ t ∈ e.openings, t ≤ e.breaker.lastStateChangeMs)
    (hseen : e.seen <:+ e.openings) (hform : WellFormed (e.follow ++ rest))
    (hknows : ∀ op ∈ e.follow ++ rest, Knows c s.now e.openings e.seen op) :
    Inv c (s.after i e rest) := by
  refine ⟨fun t ht => ?_, hover, hchange, fun j => ?_, fun j => ?_, fun j => ?_⟩
  · have ht : t ∈ e.openings := ht
    rcases hopen with ho | ho <;> rw [ho] at ht
    · exact h.past t ht
    · exact (mem_cons.mp ht).elim (fun e => e.le) (h.past t)
  all_goals by_cases hj : j = i
  · subst hj
    simpa [BreakerState.after] using hseen
  · rw [threads_after_of_ne hj]
    refine (h.seen j).trans ?_
    rcases hopen with ho | ho <;> simp [BreakerState.after, ho]
  · subst hj
    rwa [program_after_self]
  · rw [threads_after_of_ne hj]
    exact h.form j
  · subst hj
    simpa [BreakerState.after] using hknows
  rw [threads_after_of_ne hj]
  intro op hop
  have hk := h.knows j op hop
  change Knows c s.now e.openings _ op
  rcases hopen with ho | ho <;> rw [ho]
  · exact hk
  · exact hk.overtaken (h.seen j)

lemma pending_after (hp : (s.threads i).program = op :: rest) (hop : ¬ChangePending op) {j : Fin n}
    {op' : BreakerOp} (hm : op' ∈ (s.threads j).program) (hc : ChangePending op') :
    ∃ j, ∃ op ∈ ((s.after i e rest).threads j).program, ChangePending op := by
  by_cases hj : j = i
  · subst hj
    rw [hp] at hm
    refine ⟨j, op', ?_, hc⟩
    rw [program_after_self]
    rcases mem_cons.mp hm with rfl | hm
    · exact absurd hc hop
    · exact mem_append_right _ hm
  · exact ⟨j, op', by rwa [threads_after_of_ne hj], hc⟩

lemma Inv.quiet (h : Inv c s) (hp : (s.threads i).program = op :: rest) (hop : ¬ChangePending op)
    (hs : e.breaker.state = s.breaker.state)
    (hl : e.breaker.lastStateChangeMs = s.breaker.lastStateChangeMs) (ho : e.openings = s.openings)
    (hseen : e.seen <:+ s.openings) (hform : WellFormed (e.follow ++ rest))
    (hknows : ∀ op ∈ e.follow ++ rest, Knows c s.now s.openings e.seen op) : Inv c
    (s.after i e rest) := by
  refine h.after (.inl ho) ?_ ?_ (ho ▸ hseen) hform (ho ▸ hknows)
  · rw [hs, ho]
    exact h.elapsed
  · rw [hl, ho]
    exact h.change.imp_left fun ⟨j, op', hm, hc⟩ => pending_after hp hop hm hc

open CircuitBreakerConfig

lemma Inv.exec (h : Inv c s) (hp : (s.threads i).program = op :: rest)
    (ho : s.Orderly (s.threads i) op) :
    Inv c (s.after i (c.exec s.breaker s.now s.openings (s.threads i).seen op) rest) := by
  have hform := h.form i
  have hknows := h.knows i
  rw [hp] at hform hknows
  obtain ⟨hlast, hform⟩ := hform
  obtain ⟨hop, hrest⟩ := forall_mem_cons.mp hknows
  have hseen := h.seen i
  -- the operations that branch are the last of their call
  cases op with
  | loadState =>
    obtain rfl := hlast rfl
    refine h.quiet hp id rfl rfl rfl (suffix_refl _) ?_ ?_
    · simp only [exec]
      split <;> simp [WellFormed]
    simp only [exec]
    split
    · simp [Knows]
    next hne => simpa [Knows] using h.elapsed hne
  | loadChange =>
    obtain rfl := hlast rfl
    refine h.quiet hp id rfl rfl rfl hseen (by simp [exec, WellFormed]) ?_
    have hchange := h.change.resolve_left fun ⟨j, op, hm, hc⟩ => ho j op hm hc
    simpa [exec, Knows] using fun _ => hchange
  | readTimeoutClock last =>
    obtain rfl := hlast rfl
    refine h.quiet hp id rfl rfl rfl hseen ?_ ?_ <;> simp only [exec]
    · split <;> simp [WellFormed]
    split
    next hle =>
      simp only [append_nil, mem_singleton, forall_eq, Knows]
      intro he t ht
      have := hop he t ht
      have := h.past t ht
      omega
    · simp [Knows]
  | compareExchange =>
    obtain rfl := hlast rfl
    have hover := hop ho
    by_cases hst : s.breaker.state = .opened
    · simp only [exec, if_pos hst]
      refine h.after (.inl rfl) (fun _ => hover) (.inl ⟨i, .readChangeClock, ?_, trivial⟩) hseen ?_ ?_
      · simp [BreakerState.after]
      · simp [CircuitState.resets, WellFormed, BreakerOp.branches]
      · simp only [CircuitState.resets, append_nil, cons_append, nil_append,
          forall_mem_cons, Knows]
        exact ⟨trivial, trivial, trivial, fun _ => ho ▸ hover, nofun⟩
    · simp only [exec, if_neg hst]
      exact h.quiet hp id rfl rfl rfl hseen (by simp [WellFormed]) (by simp [Knows])
  | reload =>
    obtain rfl := hlast rfl
    refine h.quiet hp id rfl rfl rfl hseen (by simp [exec, WellFormed]) ?_
    simp only [exec, append_nil, mem_singleton, forall_eq, Knows]
    intro hst
    exact (h.elapsed (by simpa using hst)).mono le_rfl hseen.subset
  | readChangeClock =>
    refine h.after (.inl rfl) h.elapsed (.inl ⟨i, .storeChange s.now s.openings, ?_, trivial⟩) hseen ?_ ?_
    · simp [BreakerState.after, exec]
    · simpa [exec, WellFormed, BreakerOp.branches] using hform
    · simp only [exec, cons_append, nil_append, forall_mem_cons, Knows]
      exact ⟨⟨suffix_refl _, fun _ => h.past⟩, hrest⟩
  | storeChange t openings =>
    exact h.after (.inl rfl) h.elapsed (.inr (hop.2 ho)) hseen hform hrest
  | storeFailures | storeSuccesses | addTotalSuccesses | addTotalFailures | storeFailureTime t
  | answer allowed => exact h.quiet hp id rfl rfl rfl hseen hform hrest
  | addSuccesses | addFailures =>
    obtain rfl := hlast rfl
    exact h.quiet hp id rfl rfl rfl hseen (by simp [exec, WellFormed]) (by simp [exec, Knows])
  | readFailureClock failures =>
    obtain rfl := hlast rfl
    exact h.quiet hp id rfl rfl rfl hseen
      (by simp [exec, WellFormed, BreakerOp.branches])
      (by simp [exec, Knows])
  | loadForSuccess successes =>
    obtain rfl := hlast rfl
    refine h.quiet hp id rfl rfl rfl (suffix_refl _) ?_ ?_ <;> simp only [exec]
    · split <;> simp [WellFormed]
    split
    next hst =>
      simp only [append_nil, mem_singleton, forall_eq, Knows]
      exact fun _ _ => h.elapsed (by rw [hst.1]; decide)
    · simp
  | loadForFailure failures =>
    obtain rfl := hlast rfl
    refine h.quiet hp id rfl rfl rfl (suffix_refl _) ?_ ?_ <;> simp only [exec]
    · cases s.breaker.state <;> simp only
      · split <;> simp [WellFormed]
      all_goals simp [WellFormed]
    · cases s.breaker.state <;> simp only
      · split <;> simp [Knows]
      all_goals simp [Knows]
  | swap new =>
    obtain rfl := hlast rfl
    by_cases hst : s.breaker.state = new
    · simp only [exec, if_pos hst]
      exact h.quiet hp id rfl rfl rfl hseen trivial nofun
    simp only [exec, if_neg hst]
    refine h.after ?_ ?_ (.inl ⟨i, .readChangeClock, ?_, trivial⟩) ?_ ?_ ?_
    · split <;> simp
    · intro hne
      rw [if_neg hne]
      exact hop hne (ho hne)
    · simp [BreakerState.after]
    · split
      · exact hseen.trans (suffix_cons ..)
      · exact hseen
    · cases new <;> simp [CircuitState.resets, WellFormed, BreakerOp.branches]
    · cases new <;> simp [CircuitState.resets, Knows]

lemma inv_initial (c : CircuitBreakerConfig) (n start : Nat) : Inv c (initial n start) :=
  ⟨nofun, fun _ => nofun, .inr nofun, fun _ => suffix_refl _, fun _ => trivial, fun _ => nofun⟩

lemma Inv.next (h : Inv c s) (e : BreakerEvent n) (he : s.Undisturbed e) : Inv c (s.next c e) := by
  cases e with
  | tick ms =>
    have hn : s.now ≤ s.now + ms := Nat.le_add_right _ _
    exact ⟨fun t ht => (h.past t ht).trans hn, fun hs => (h.elapsed hs).mono hn (refl _), h.change,
      h.seen, h.form, fun i op hop => (h.knows i op hop).later hn⟩
  | call i call =>
    simp only [BreakerState.next]
    split
    next hidle =>
      have hcall : Inv c (s.after i ⟨s.breaker, call.program, s.openings, (s.threads i).seen⟩ []) := by
        refine h.after (.inl rfl) h.elapsed (h.change.imp_left fun ⟨j, op, hm, hc⟩ => ?_) (h.seen i)
          (by cases call <;> simp [BreakerCall.program, WellFormed, BreakerOp.branches])
          (by cases call <;> simp [BreakerCall.program, Knows])
        have hj : j ≠ i := fun e => by simp [e, hidle] at hm
        exact ⟨j, op, by rwa [threads_after_of_ne hj], hc⟩
      simpa [BreakerState.after] using hcall
    · exact h
  | step i =>
    simp only [BreakerState.next]
    split
    · exact h
    next op rest hp => exact h.exec hp (he op (by simp [hp]))

/-- In every undisturbed run, `can_execute` returns true only the timeout after every opening before
its load. -/
theorem open_means_open (c : CircuitBreakerConfig) {n start : Nat} {past : List (BreakerEvent n)}
    {s : BreakerState n} (hr : Run (next c) Undisturbed (initial n start) past s) (i : Fin n)
    (rest : List BreakerOp) (hp : (s.threads i).program = .answer true :: rest) (t : Nat)
    (ht : t ∈ (s.threads i).seen) : t + c.timeoutMs ≤ s.now := by
  have h : Inv c s := hr.invariant (I := fun _ s => Inv c s) (inv_initial c n start)
    fun _ _ e h he => h.next e he
  exact h.knows i (.answer true) (hp ▸ mem_cons_self) rfl t ht

/-! ## A change overtaken before its time is stored -/

/-- One failure opens the breaker for ten milliseconds. -/
def hairTrigger : CircuitBreakerConfig := { failureThreshold := 1, successThreshold := 1, timeoutMs := 10 }

def failing (ops : Nat) : List (BreakerEvent 2) :=
  [.tick 100, .call 0 .recordFailure] ++ List.replicate ops (.step 0)

/-- Thread 1 asks whether it may execute. -/
def asking (ops : Nat) : List (BreakerEvent 2) := .call 1 .canExecute :: List.replicate ops (.step 1)

theorem open_means_open_after_timeout :
    100 + hairTrigger.timeoutMs ≤
      ((failing 10 ++ .tick 10 :: asking 8).foldl (next hairTrigger) (initial 2 0)).now :=
  open_means_open hairTrigger (Run.start.of_admitted _ (by decide)) 1 [] (by decide) 100 (by decide)

/-- Thread 0 has opened the breaker and not yet stored the time: thread 1 sees it open since 0. -/
theorem opened_without_timeout :
    Run (next hairTrigger) (fun _ _ => True) (initial 2 0) ((failing 7 ++ asking 8).reverse ++ [])
      ((failing 7 ++ asking 8).foldl (next hairTrigger) (initial 2 0)) ∧
        ((failing 7 ++ asking 8).foldl (next hairTrigger) (initial 2 0)).threads 1 = ⟨[.answer true], [100]⟩ ∧
          ((failing 7 ++ asking 8).foldl (next hairTrigger) (initial 2 0)).now < 100 + hairTrigger.timeoutMs :=
  ⟨Run.start.of_admitted _ (by decide), by decide, by decide⟩
end BreakerState
end Sglang.Gateway
