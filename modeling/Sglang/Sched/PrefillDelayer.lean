import Sglang.Lib.Run

/-!
# `PrefillDelayer`

Ranks that schedule in lockstep decide together whether prefill is allowed in a pass.
-/

namespace Sglang.Sched
open List

structure DelayState where
  delayedCount : Nat := 0
  startTime : ℚ
  deriving DecidableEq

open DelayState (delayedCount)

def DelayState.bumpDelayedCount (s : DelayState) : DelayState :=
  { s with delayedCount := s.delayedCount + 1 }

inductive PrefillableStatus
  | all
  | none
  | mixed
  deriving DecidableEq

inductive DelayReason
  | tokenWatermark
  | delay
  | waitSuccess
  | noWait
  | empty
  | waitTimeout
  deriving DecidableEq

structure NegotiateOutput where
  nextState : Option DelayState
  inputEstimation : PrefillableStatus
  outputAllow : Bool
  outputReason : DelayReason
  numPrefillable : Int
  numTokenWatermarkForceAllow : Int
  waitForwardPasses : Nat := 0
  waitSeconds : ℚ := 0
  deriving DecidableEq

structure DelayInfo where
  prefillable : Int
  tokenWatermarkForceAllow : Int
  runningBatch : Int
  maxPrefillBs : Int
  waitingQueueLen : Int
  deriving DecidableEq

open DelayInfo (prefillable tokenWatermarkForceAllow runningBatch maxPrefillBs)

/-- The arguments, with their defaults. -/
structure NegotiateArgs where
  localPrefillable : Bool
  runningBatch : Int := 0
  maxPrefillBs : Int := 0
  maxRunningRequests : Int := 0
  waitingQueueLen : Int := 0
  deriving DecidableEq

/-- `time.perf_counter` at the places where it is called. -/
structure ClockReads where
  wait : ℚ
  elapsed : ℚ
  start : ℚ
  deriving DecidableEq

structure DelayerConfig where
  maxDelayPasses : Int
  tokenUsageLowWatermark : Option ℚ
  queueMinRatio : Option ℚ
  maxDelayMs : Option ℚ
  dpSize : Nat
  enableDpAttention : Bool
  dpSize_pos : 0 < dpSize

structure Delayer where
  currState : Option DelayState := none
  skipFirstDelayer : Bool := true
  deriving DecidableEq

/-! ## The decision -/

section
variable (rows : List DelayInfo) (f : DelayInfo → Int)

def columnMax : Int := (rows.map f).max?.getD 0

def columnMin : Int := (rows.map f).min?.getD 0

def prefillableStatus : PrefillableStatus :=
  if columnMin rows prefillable > 0 then .all
  else if columnMax rows prefillable = 0 then .none
  else .mixed
end

def truncate (q : ℚ) : Int := if 0 ≤ q then q.floor else q.ceil

namespace DelayerConfig
variable (cfg : DelayerConfig)

/-- 5000 ms if it is not set. -/
def delayCapMs : ℚ := cfg.maxDelayMs.getD 5000

section
variable (maxRunningRequests : Int) (prev : Option DelayState) (clock : ClockReads)
  (rows : List DelayInfo)

def timedOut : Bool :=
  prev.any fun s => (clock.elapsed - s.startTime) * 1000 ≥ cfg.delayCapMs

def queueCondition : Bool :=
  match cfg.queueMinRatio with
  | none => false
  | some ratio =>
    let running := columnMax rows runningBatch
    if running > 0 then
      let queueMinEffective := min (truncate (running * ratio)) (columnMax rows maxPrefillBs)
      queueMinEffective > 0 && columnMax rows DelayInfo.waitingQueueLen < queueMinEffective &&
        !cfg.timedOut prev clock
    else false

/-- The request limit that the free slots are counted from. -/
def requestLimit : Int :=
  if cfg.enableDpAttention then maxRunningRequests
  else (maxRunningRequests + cfg.dpSize - 1) / cfg.dpSize

def slotCondition : Bool :=
  cfg.requestLimit maxRunningRequests - columnMax rows runningBatch <
    columnMax rows maxPrefillBs

def localInfo (args : NegotiateArgs) (tokenUsage : ℚ) : DelayInfo :=
  { prefillable := if args.localPrefillable then 1 else 0
    tokenWatermarkForceAllow :=
      if args.localPrefillable && cfg.tokenUsageLowWatermark.any (fun x => tokenUsage < x) then 1 else 0
    runningBatch := args.runningBatch
    maxPrefillBs := args.maxPrefillBs
    waitingQueueLen := args.waitingQueueLen }

def release (reason : DelayReason) : NegotiateOutput :=
  { nextState := none
    inputEstimation := prefillableStatus rows
    outputAllow := true
    outputReason := reason
    numPrefillable := (rows.map prefillable).sum
    numTokenWatermarkForceAllow := (rows.map tokenWatermarkForceAllow).sum
    waitForwardPasses := (prev.map delayedCount).getD 0
    waitSeconds := (prev.map fun s => clock.wait - s.startTime).getD 0 }
end

def delay (prev : Option DelayState) (clock : ClockReads) (rows : List DelayInfo) : NegotiateOutput :=
  { nextState := some (prev.getD { startTime := clock.start }).bumpDelayedCount
    inputEstimation := prefillableStatus rows
    outputAllow := false
    outputReason := .delay
    numPrefillable := (rows.map prefillable).sum
    numTokenWatermarkForceAllow := (rows.map tokenWatermarkForceAllow).sum }

/-- `_negotiate_should_allow_prefill_pure` after the all-gather. -/
def negotiatePure (d : Delayer) (maxRunningRequests : Int) (clock : ClockReads)
    (rows : List DelayInfo) : NegotiateOutput × Bool :=
  let prev := d.currState
  let forceAllow := columnMax rows tokenWatermarkForceAllow > 0
  match prefillableStatus rows with
  | .all =>
    if forceAllow then (release prev clock rows .tokenWatermark, d.skipFirstDelayer)
    else if cfg.slotCondition maxRunningRequests rows || cfg.queueCondition prev clock rows then
      if d.skipFirstDelayer then
        (release prev clock rows (if prev.isSome then .waitSuccess else .noWait), false)
      else (delay prev clock rows, d.skipFirstDelayer)
    else (release prev clock rows (if prev.isSome then .waitSuccess else .noWait), d.skipFirstDelayer)
  | .none => (release prev clock rows .empty, d.skipFirstDelayer)
  | .mixed =>
    if forceAllow then (release prev clock rows .tokenWatermark, d.skipFirstDelayer)
    else if ((prev.map delayedCount).getD 0 : Nat) < cfg.maxDelayPasses - 1 then
      (delay prev clock rows, d.skipFirstDelayer)
    else (release prev clock rows .waitTimeout, d.skipFirstDelayer)

variable {d : Delayer} {m : Int} {clock : ClockReads} {rows : List DelayInfo}

def Forced (rows : List DelayInfo) : Prop :=
  prefillableStatus rows ≠ .none ∧ columnMax rows tokenWatermarkForceAllow > 0

lemma negotiatePure_forced (h : Forced rows) : cfg.negotiatePure d m clock rows =
      (release d.currState clock rows .tokenWatermark, d.skipFirstDelayer) := by
  obtain ⟨hn, hf⟩ := h
  unfold negotiatePure
  cases hs : prefillableStatus rows <;> simp_all

lemma negotiatePure_none (h : prefillableStatus rows = .none) :
    cfg.negotiatePure d m clock rows = (release d.currState clock rows .empty, d.skipFirstDelayer) := by
  simp only [negotiatePure, h]

lemma negotiatePure_all (h : prefillableStatus rows = .all) (hf : ¬Forced rows) :
    cfg.negotiatePure d m clock rows =
      let reason := if d.currState.isSome then DelayReason.waitSuccess else .noWait
      if cfg.slotCondition m rows || cfg.queueCondition d.currState clock rows then
        if d.skipFirstDelayer then (release d.currState clock rows reason, false)
        else (delay d.currState clock rows, d.skipFirstDelayer)
      else (release d.currState clock rows reason, d.skipFirstDelayer) := by
  have hw : ¬columnMax rows tokenWatermarkForceAllow > 0 := fun hw => hf ⟨by simp [h], hw⟩
  simp only [negotiatePure, h, hw, if_false]

lemma negotiatePure_mixed (h : prefillableStatus rows = .mixed) (hf : ¬Forced rows) :
    cfg.negotiatePure d m clock rows =
      if ((d.currState.map delayedCount).getD 0 : Nat) < cfg.maxDelayPasses - 1 then
        (delay d.currState clock rows, d.skipFirstDelayer)
      else (release d.currState clock rows .waitTimeout, d.skipFirstDelayer) := by
  have hw : ¬columnMax rows tokenWatermarkForceAllow > 0 := fun hw => hf ⟨by simp [h], hw⟩
  simp only [negotiatePure, h, hw, if_false]
end DelayerConfig

/-! ## One pass of one rank -/

structure Executor where
  delayer : Delayer
  result : Option NegotiateOutput := none
  /-- The rows this rank has put into an all-gather. -/
  gathers : List DelayInfo := []

structure RankPass where
  calls : List NegotiateArgs
  tokenUsage : ℚ
  clock : ClockReads

namespace Executor
variable (cfg : DelayerConfig) (rows : List DelayInfo) (pass : RankPass)

/-- Only the first call in a pass takes part in an all-gather. -/
def negotiateShouldAllowPrefill (x : Executor) (args : NegotiateArgs) : Executor :=
  if x.result.isSome then x
  else
    let (out, skip) := cfg.negotiatePure x.delayer args.maxRunningRequests pass.clock rows
    { delayer := { currState := out.nextState, skipFirstDelayer := skip }
      result := some out
      gathers := x.gathers ++ [cfg.localInfo args pass.tokenUsage] }

def finalize (x : Executor) : Executor :=
  if x.result.isSome then x
  else x.negotiateShouldAllowPrefill cfg rows pass { localPrefillable := false }
end Executor

section
variable (cfg : DelayerConfig) (rows : List DelayInfo) (pass : RankPass) (d : Delayer)

/-- `get_new_batch_prefill`, as far as the delayer is concerned. -/
def runPass : Executor :=
  (pass.calls.foldl (Executor.negotiateShouldAllowPrefill cfg rows pass) { delayer := d }).finalize
    cfg rows pass

/-- Those of the first call, or those of `finalize`. -/
def RankPass.args : NegotiateArgs := pass.calls.headD { localPrefillable := false }

lemma foldl_negotiate_of_called {cfg : DelayerConfig} {rows : List DelayInfo} {pass : RankPass}
    {x : Executor} (h : x.result.isSome) (calls : List NegotiateArgs) :
    calls.foldl (Executor.negotiateShouldAllowPrefill cfg rows pass) x = x := by
  induction calls with
  | nil => rfl
  | cons args calls ih =>
    rw [foldl_cons, Executor.negotiateShouldAllowPrefill, if_pos h, ih]

lemma runPass_eq : runPass cfg rows pass d =
      let out := cfg.negotiatePure d pass.args.maxRunningRequests pass.clock rows
      { delayer := { currState := out.1.nextState, skipFirstDelayer := out.2 }
        result := some out.1
        gathers := [cfg.localInfo pass.args pass.tokenUsage] } := by
  obtain ⟨calls, usage, clock⟩ := pass
  rcases calls with _ | ⟨args, calls⟩
  · rfl
  rw [runPass, foldl_cons, foldl_negotiate_of_called rfl]
  rfl

def passAllow : Bool :=
  (runPass cfg rows pass d).result.any NegotiateOutput.outputAllow

/-! ## Agreement -/

structure SameDelay (d' : Delayer) : Prop where
  skip : d.skipFirstDelayer = d'.skipFirstDelayer
  count : d.currState.map delayedCount = d'.currState.map delayedCount
end

def SameOutcome (o o' : NegotiateOutput × Bool) : Prop :=
  o.1.outputAllow = o'.1.outputAllow ∧ SameDelay ⟨o.1.nextState, o.2⟩ ⟨o'.1.nextState, o'.2⟩

section
open DelayerConfig
variable {cfg : DelayerConfig} {d d' : Delayer} {clock clock' : ClockReads} {rows : List DelayInfo}
  {m m' : Int}

lemma sameOutcome_release (prev prev' : Option DelayState) (reason reason' : DelayReason)
    {skip skip' : Bool} (h : skip = skip') :
    SameOutcome (release prev clock rows reason, skip) (release prev' clock' rows reason', skip') :=
  ⟨rfl, h, rfl⟩

lemma SameDelay.delay (h : SameDelay d d') :
    SameOutcome (delay d.currState clock rows, d.skipFirstDelayer)
      (delay d'.currState clock' rows, d'.skipFirstDelayer) := by
  refine ⟨rfl, h.skip, ?_⟩
  have hc := h.count
  cases hd : d.currState <;> cases hd' : d'.currState <;> simp [hd, hd'] at hc
  · rfl
  · simp [DelayerConfig.delay, DelayState.bumpDelayedCount, hc]

lemma queueCondition_congr {prev prev' : Option DelayState}
    (ht : cfg.queueMinRatio = none ∨ cfg.timedOut prev clock = cfg.timedOut prev' clock') :
    cfg.queueCondition prev clock rows = cfg.queueCondition prev' clock' rows := by
  unfold queueCondition
  rcases ht with ht | ht <;> rw [ht]

lemma SameDelay.negotiatePure (h : SameDelay d d')
    (ht : cfg.queueMinRatio = none ∨ cfg.timedOut d.currState clock = cfg.timedOut d'.currState clock')
    (hm : prefillableStatus rows = .all → m = m') :
    SameOutcome (cfg.negotiatePure d m clock rows) (cfg.negotiatePure d' m' clock' rows) := by
  by_cases hf : Forced rows
  · rw [negotiatePure_forced cfg hf, negotiatePure_forced cfg hf]
    exact sameOutcome_release _ _ _ _ h.skip
  cases hs : prefillableStatus rows with
  | none =>
    rw [negotiatePure_none cfg hs, negotiatePure_none cfg hs]
    exact sameOutcome_release _ _ _ _ h.skip
  | all =>
    rw [negotiatePure_all cfg hs hf, negotiatePure_all cfg hs hf, hm hs, queueCondition_congr ht]
    by_cases hc : (cfg.slotCondition m' rows || cfg.queueCondition d'.currState clock' rows) = true
    · rw [if_pos hc, if_pos hc]
      by_cases hk : d'.skipFirstDelayer = true
      · rw [if_pos (h.skip.trans hk), if_pos hk]
        exact sameOutcome_release _ _ _ _ rfl
      · rw [if_neg (h.skip ▸ hk), if_neg hk]
        exact h.delay
    · rw [if_neg hc, if_neg hc]
      exact sameOutcome_release _ _ _ _ h.skip
  | mixed =>
    rw [negotiatePure_mixed cfg hs hf, negotiatePure_mixed cfg hs hf, h.count]
    by_cases hc : (((d'.currState.map delayedCount).getD 0 : Nat) : Int) < cfg.maxDelayPasses - 1
    · rw [if_pos hc, if_pos hc]
      exact h.delay
    · rw [if_neg hc, if_neg hc]
      exact sameOutcome_release _ _ _ _ h.skip
end

/-! ## All ranks -/

structure GlobalPass (ρ : Type) where
  gathered : List DelayInfo
  rank : ρ → RankPass

def delayersNext {ρ : Type} (cfg : DelayerConfig) (s : ρ → Delayer) (pass : GlobalPass ρ) : ρ → Delayer :=
  fun r => (runPass cfg pass.gathered (pass.rank r) (s r)).delayer

def SameLimit {ρ : Type} (limit : Int) (pass : GlobalPass ρ) : Prop :=
  ∀ r, ∀ args ∈ (pass.rank r).calls, args.maxRunningRequests = limit

/-- The clocks agree on whether the cap is reached, or the queue trigger is off. -/
def ClocksAgree {ρ : Type} (cfg : DelayerConfig) (s : ρ → Delayer) (pass : GlobalPass ρ) : Prop :=
  cfg.queueMinRatio = none ∨ ∀ r r',
    cfg.timedOut (s r).currState (pass.rank r).clock = cfg.timedOut (s r').currState (pass.rank r').clock

/-- If all gathered rows are prefillable, each rank's scheduler has asked. -/
def AllAsk {ρ : Type} (pass : GlobalPass ρ) : Prop :=
  prefillableStatus pass.gathered = .all → ∀ r, (pass.rank r).calls ≠ []

/-- The passes in which the ranks can be relied on to agree. -/
structure PassOk {ρ : Type} (cfg : DelayerConfig) (limit : Int) (s : ρ → Delayer) (pass : GlobalPass ρ) :
    Prop where
  limit : SameLimit limit pass
  clocks : ClocksAgree cfg s pass
  ask : AllAsk pass

section
variable {ρ : Type} {cfg : DelayerConfig} {limit : Int} {s : ρ → Delayer} {pass : GlobalPass ρ}

lemma PassOk.args_eq (h : PassOk cfg limit s pass) (hs : prefillableStatus pass.gathered = .all)
    (r : ρ) : (pass.rank r).args.maxRunningRequests = limit := by
  have hask := h.ask hs r
  have hlim := h.limit r
  unfold RankPass.args
  cases hc : (pass.rank r).calls with
  | nil => exact absurd hc hask
  | cons args calls => exact hlim args (hc ▸ mem_cons_self)

lemma PassOk.sameOutcome (h : PassOk cfg limit s pass) {r r' : ρ} (hs : SameDelay (s r) (s r')) :
    passAllow cfg pass.gathered (pass.rank r) (s r) = passAllow cfg pass.gathered (pass.rank r') (s r') ∧
      SameDelay (delayersNext cfg s pass r) (delayersNext cfg s pass r') := by
  have := hs.negotiatePure (h.clocks.imp_right fun hc => hc r r')
    fun hst => (h.args_eq hst r).trans (h.args_eq hst r').symm
  simpa only [passAllow, delayersNext, runPass_eq, Option.any_some, SameOutcome] using this

/-- In every run the ranks agree on decisions and delayed passes, with one all-gather a pass. -/
theorem ranks_agree {past : List (GlobalPass ρ)} (cfg : DelayerConfig) (limit : Int)
    (hr : Run (delayersNext cfg) (PassOk cfg limit) (fun _ : ρ => {}) past s) :
    (∀ r r', (s r).currState.map delayedCount = (s r').currState.map delayedCount) ∧
      (∀ pass, PassOk cfg limit s pass → ∀ r r',
        passAllow cfg pass.gathered (pass.rank r) (s r) =
          passAllow cfg pass.gathered (pass.rank r') (s r')) ∧
      ∀ (pass : GlobalPass ρ) (r : ρ),
        (runPass cfg pass.gathered (pass.rank r) (s r)).gathers.length = 1 := by
  have hsame : ∀ r r', SameDelay (s r) (s r') := by
    refine hr.invariant (I := fun _ s => ∀ r r', SameDelay (s r) (s r')) ?_ ?_
    · exact fun r r' => ⟨rfl, rfl⟩
    · exact fun _ s pass ih hok r r' => (hok.sameOutcome (ih r r')).2
  refine ⟨fun r r' => (hsame r r').count, fun pass hok r r' => (hok.sameOutcome (hsame r r')).1, ?_⟩
  intro pass r
  rw [runPass_eq]
  rfl
end

/-- A delayer with the queue trigger on and a cap of 100 ms. -/
def queueDelayer : DelayerConfig :=
  { maxDelayPasses := 30, tokenUsageLowWatermark := none, queueMinRatio := some 1, maxDelayMs := some 100,
    dpSize := 2, enableDpAttention := true, dpSize_pos := by decide }

def queuePass (time : Bool → ℚ) : GlobalPass Bool :=
  { gathered := [⟨1, 0, 4, 2, 0⟩, ⟨1, 0, 4, 2, 0⟩]
    rank := fun r =>
      { calls := [⟨true, 4, 2, 100, 0⟩], tokenUsage := 1, clock := ⟨time r, time r, time r⟩ } }

lemma sameLimit_queuePass (time : Bool → ℚ) : SameLimit 100 (queuePass time) := by
  intro r args h
  rw [mem_singleton.mp h]

/-- In the third pass in a row both ranks have been delayed twice. -/
theorem ranks_agree_delayed_twice :
    ∃ past s, Run (delayersNext queueDelayer) (PassOk queueDelayer 100) (fun _ : Bool => {}) past s ∧
      (s true).currState.map delayedCount = some 2 ∧
      ∀ r r', (s r).currState.map delayedCount = (s r').currState.map delayedCount := by
  have hlimit := sameLimit_queuePass fun _ => 0
  have hr : Run (delayersNext queueDelayer) (PassOk queueDelayer 100) (fun _ : Bool => {}) _ _ :=
    .step _ (.step _ (.step _ .start ⟨hlimit, .inr (by decide +kernel), nofun⟩)
      ⟨hlimit, .inr (by decide +kernel), nofun⟩) ⟨hlimit, .inr (by decide +kernel), nofun⟩
  exact ⟨_, _, hr, by decide +kernel, (ranks_agree queueDelayer 100 hr).1⟩

/-- The ranks gather the same tables, yet one allows prefill and the other does not: their clocks
differ. -/
theorem clocks_split_ranks :
    ∃ (cfg : DelayerConfig) (limit : Int) (past : List (GlobalPass Bool)) (s : Bool → Delayer)
      (pass : GlobalPass Bool),
      Run (delayersNext cfg) (fun _ p => SameLimit limit p) (fun _ => {}) past s ∧
        SameLimit limit pass ∧ AllAsk pass ∧
        passAllow cfg pass.gathered (pass.rank true) (s true) ≠
          passAllow cfg pass.gathered (pass.rank false) (s false) := by
  refine ⟨queueDelayer, 100, _, _, queuePass fun r => if r then 1 / 5 else 1 / 20,
    .step (queuePass fun _ => 0) (.step (queuePass fun _ => 0) .start (sameLimit_queuePass _))
      (sameLimit_queuePass _), sameLimit_queuePass _, ?_, ?_⟩
  · intro _ r h
    cases h
  · decide +kernel

/-! ## An idle server -/

open DelayerConfig
variable {cfg : DelayerConfig} {d : Delayer} {rows : List DelayInfo}

lemma negotiatePure_idle {m : Int} (clock : ClockReads) (hrun : columnMax rows runningBatch = 0)
    (hslot : prefillableStatus rows = .all → cfg.slotCondition m rows = false) :
    (cfg.negotiatePure d m clock rows).1.outputAllow = true ∨
      (((d.currState.map delayedCount).getD 0 : Nat) : Int) < cfg.maxDelayPasses - 1 ∧
        ((cfg.negotiatePure d m clock rows).1.nextState.map delayedCount).getD 0 =
          (d.currState.map delayedCount).getD 0 + 1 := by
  by_cases hf : Forced rows
  · exact .inl (by rw [negotiatePure_forced cfg hf]; rfl)
  cases hs : prefillableStatus rows with
  | none => exact .inl (by rw [negotiatePure_none cfg hs]; rfl)
  | all =>
    have hq : cfg.queueCondition d.currState clock rows = false := by
      unfold queueCondition
      grind
    rw [negotiatePure_all cfg hs hf, hslot hs, hq]
    exact .inl rfl
  | mixed => ?_
  rw [negotiatePure_mixed cfg hs hf]
  by_cases hc : (((d.currState.map delayedCount).getD 0 : Nat) : Int) < cfg.maxDelayPasses - 1
  · rw [if_pos hc]
    refine .inr ⟨hc, ?_⟩
    cases d.currState <;> simp [DelayerConfig.delay, DelayState.bumpDelayedCount]
  · rw [if_neg hc]
    exact .inl rfl

def delayerAfter (cfg : DelayerConfig) (gathered : Nat → List DelayInfo) (passes : Nat → RankPass)
    (d : Delayer) : Nat → Delayer
  | 0 => d
  | n + 1 => (runPass cfg (gathered n) (passes n) (delayerAfter cfg gathered passes d n)).delayer

lemma columnMax_eq_zero {f : DelayInfo → Int} (h : ∀ row ∈ rows, f row = 0) : columnMax rows f = 0 := by
  unfold columnMax
  rcases hm : (rows.map f).max? with _ | x
  · rfl
  obtain ⟨row, hrow, rfl⟩ := mem_map.mp (List.max?_mem hm)
  exact h row hrow

lemma columnMax_le {f : DelayInfo → Int} {b : Int} (hne : rows ≠ []) (h : ∀ row ∈ rows, f row ≤ b) :
    columnMax rows f ≤ b := by
  unfold columnMax
  rcases hm : (rows.map f).max? with _ | x
  · exact absurd (map_eq_nil_iff.mp (List.max?_eq_none_iff.mp hm)) hne
  obtain ⟨row, hrow, rfl⟩ := mem_map.mp (List.max?_mem hm)
  exact h row hrow

lemma ne_nil_of_all (h : prefillableStatus rows = .all) : rows ≠ [] := by
  rintro rfl
  exact absurd h (by decide)

/-- If nothing runs, prefill is allowed within `max(2, max_delay_passes)` passes, if no batch
exceeds the limit of the free slots. -/
theorem idle_server_allows_prefill (cfg : DelayerConfig) (limit : Int) (gathered : Nat → List DelayInfo)
    (passes : Nat → RankPass) (d : Delayer) (hrun : ∀ i, ∀ row ∈ gathered i, row.runningBatch = 0)
    (hmax : ∀ i, ∀ row ∈ gathered i, row.maxPrefillBs ≤ limit)
    (hlimit : ∀ i, ∀ args ∈ (passes i).calls, args.maxRunningRequests = limit)
    (hscale : cfg.enableDpAttention = true ∨
      ∀ i, ∀ row ∈ gathered i, row.maxPrefillBs ≤ cfg.requestLimit limit)
    (hask : ∀ i, prefillableStatus (gathered i) = .all → (passes i).calls ≠ []) :
    ∃ i < max 2 cfg.maxDelayPasses.toNat,
      passAllow cfg (gathered i) (passes i) (delayerAfter cfg gathered passes d i) = true := by
  have hfits : ∀ i, ∀ row ∈ gathered i, row.maxPrefillBs ≤ cfg.requestLimit limit := by
    intro i row hrow
    rcases hscale with hdp | hscale
    · rw [requestLimit, if_pos hdp]
      exact hmax i row hrow
    · exact hscale i row hrow
  have hidle : ∀ i, prefillableStatus (gathered i) = .all →
      cfg.slotCondition (passes i).args.maxRunningRequests (gathered i) = false := by
    intro i hall
    have hargs : (passes i).args.maxRunningRequests = limit := by
      have hl := hlimit i
      unfold RankPass.args
      cases hc : (passes i).calls with
      | nil => exact absurd hc (hask i hall)
      | cons args calls => exact hl args (hc ▸ mem_cons_self)
    have hle := columnMax_le (ne_nil_of_all hall) (hfits i)
    rw [slotCondition, hargs, columnMax_eq_zero (hrun i)]
    simpa using hle
  by_contra hno
  push Not at hno
  -- as long as all passes are delayed, the count grows with the passes
  have hcount : ∀ n, n ≤ max 2 cfg.maxDelayPasses.toNat →
      n ≤ ((delayerAfter cfg gathered passes d n).currState.map delayedCount).getD 0 ∧
        (0 < n → ((n - 1 : Nat) : Int) < cfg.maxDelayPasses - 1) := by
    intro n
    induction n with
    | zero => exact fun _ => ⟨zero_le, fun h => absurd h (lt_irrefl 0)⟩
    | succ n ih => ?_
    intro hn
    have hdel := hno n (by omega)
    rw [passAllow, runPass_eq] at hdel
    rcases negotiatePure_idle (d := delayerAfter cfg gathered passes d n) (passes n).clock
      (columnMax_eq_zero (hrun n)) (hidle n) with hallow | ⟨hlt, hnext⟩
    · exact absurd hallow hdel
    · rw [delayerAfter, runPass_eq]
      grind
  have := (hcount _ le_rfl).2 (by omega)
  omega

theorem idle_server_allows_prefill_mixed :
    ∃ i < max 2 3, passAllow { queueDelayer with maxDelayPasses := 3 } [⟨1, 0, 0, 4, 1⟩, ⟨0, 0, 0, 0, 0⟩]
      { calls := [⟨true, 0, 4, 8, 1⟩], tokenUsage := 1, clock := ⟨0, 0, 0⟩ }
      (delayerAfter { queueDelayer with maxDelayPasses := 3 }
        (fun _ => [⟨1, 0, 0, 4, 1⟩, ⟨0, 0, 0, 0, 0⟩])
        (fun _ => { calls := [⟨true, 0, 4, 8, 1⟩], tokenUsage := 1, clock := ⟨0, 0, 0⟩ }) {} i) = true :=
  idle_server_allows_prefill { queueDelayer with maxDelayPasses := 3 } 8 _ _ {}
    (fun _ => by decide) (fun _ => by decide) (fun _ => by decide) (.inl rfl) (fun _ _ => by decide)

def plainDelayer : DelayerConfig :=
  { maxDelayPasses := 3, tokenUsageLowWatermark := none, queueMinRatio := none, maxDelayMs := none,
    dpSize := 2, enableDpAttention := false, dpSize_pos := by decide }

/-- Idle server, waiting request, yet prefill is delayed in every pass. -/
theorem scaled_limit_starves :
    ∃ (cfg : DelayerConfig) (limit : Int) (row : DelayInfo) (pass : RankPass) (d : Delayer),
      row.runningBatch = 0 ∧ 0 < row.prefillable ∧ row.maxPrefillBs ≤ limit ∧
        (∀ args ∈ pass.calls, args.maxRunningRequests = limit) ∧ pass.calls ≠ [] ∧
        ∀ i, passAllow cfg [row] pass (delayerAfter cfg (fun _ => [row]) (fun _ => pass) d i) = false := by
  refine ⟨plainDelayer, 4, ⟨1, 0, 0, 4, 1⟩,
    { calls := [⟨true, 0, 4, 4, 1⟩], tokenUsage := 1, clock := ⟨0, 0, 0⟩ },
    { skipFirstDelayer := false },
    rfl, by decide, by decide, by decide, by decide, ?_⟩
  have hall : prefillableStatus [⟨1, 0, 0, 4, 1⟩] = .all := by decide
  have hforced : ¬Forced [⟨1, 0, 0, 4, 1⟩] := fun h => absurd h.2 (by decide)
  have hslot : plainDelayer.slotCondition 4 [⟨1, 0, 0, 4, 1⟩] = true := by decide
  -- a delayer that has skipped its first delay waits and stays as it is
  have hstep : ∀ d : Delayer, d.skipFirstDelayer = false →
      plainDelayer.negotiatePure d 4 ⟨0, 0, 0⟩ [⟨1, 0, 0, 4, 1⟩] =
        (DelayerConfig.delay d.currState ⟨0, 0, 0⟩ [⟨1, 0, 0, 4, 1⟩], false) := by
    intro d hd
    rw [negotiatePure_all plainDelayer hall hforced, hslot, Bool.true_or, if_pos rfl, hd]
    rfl
  intro i
  generalize hpass : ({ calls := [⟨true, 0, 4, 4, 1⟩], tokenUsage := 1, clock := ⟨0, 0, 0⟩ } : RankPass) = pass
  have hskip : (delayerAfter plainDelayer (fun _ => [⟨1, 0, 0, 4, 1⟩]) (fun _ => pass)
      { skipFirstDelayer := false } i).skipFirstDelayer = false := by
    induction i with
    | zero => rfl
    | succ i ih =>
      subst hpass
      exact congrArg Prod.snd (hstep _ ih)
  subst hpass
  exact congrArg (fun o => o.1.outputAllow) (hstep _ hskip)

/-! ## How long prefill waits -/

variable (cfg d rows) (pass : RankPass)

def Delayer.waited : Nat := (d.currState.map delayedCount).getD 0

lemma runPass_waited : ∃ out d' sent, runPass cfg rows pass d = ⟨d', some out, sent⟩ ∧
    if out.outputAllow then d'.waited = 0 ∧ out.waitForwardPasses = d.waited
    else d'.waited = d.waited + 1 ∧
      (prefillableStatus rows = .mixed → d.waited + 1 < cfg.maxDelayPasses) := by
  rw [runPass_eq]
  refine ⟨_, _, _, rfl, ?_⟩
  unfold negotiatePure Delayer.waited
  cases prefillableStatus rows <;> cases d.currState <;>
    grind [release, delay, DelayState.bumpDelayedCount]

/-- The delayer after the passes, newest first, and how many have passed since prefill was allowed. -/
def waitAfter : List (List DelayInfo × RankPass) → Delayer × Nat
  | [] => ({}, 0)
  | (rows, pass) :: past =>
    let (d, n) := waitAfter past
    ((runPass cfg rows pass d).delayer, if passAllow cfg rows pass d then 0 else n + 1)

/-- In every run a release reports the passes prefill has waited for, and ranks that are not all
prefillable wait for fewer than `max_delay_passes`. -/
theorem wait_reported_exactly (past : List (List DelayInfo × RankPass)) :
    ∃ out, (runPass cfg rows pass (waitAfter cfg past).1).result = some out ∧
      if out.outputAllow then out.waitForwardPasses = (waitAfter cfg past).2
      else prefillableStatus rows = .mixed → (waitAfter cfg past).2 + 1 < cfg.maxDelayPasses := by
  have hcount : (waitAfter cfg past).1.waited = (waitAfter cfg past).2 := by
    induction past with
    | nil => rfl
    | cons p past ih =>
      obtain ⟨out, d', sent, hrun, hstep⟩ := runPass_waited cfg (waitAfter cfg past).1 p.1 p.2
      simp only [waitAfter, passAllow, hrun]
      grind
  obtain ⟨out, d', sent, hrun, hstep⟩ := runPass_waited cfg (waitAfter cfg past).1 rows pass
  exact ⟨out, by rw [hrun], by grind⟩
end Sglang.Sched
