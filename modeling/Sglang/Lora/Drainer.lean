import Mathlib

/-!
# Draining of LoRA adapters

`LoRADrainer` (`lora/lora_drainer.py`). The ids are opaque; `none` is the base model. Python's sets
are iterated in any order, so `_update_draining_loras` is a relation.
-/

namespace Sglang.Lora.Drainer
open Function List

structure Req where
  loraId : Option Nat
  maxNewTokens : Nat
  outputLen : Nat := 0
  /-- `time.monotonic() - wait_queue_entry_time` at the call. -/
  waited : ℚ := 0
  deriving DecidableEq

def Req.remaining (r : Req) : Nat := r.maxNewTokens - r.outputLen

structure AdapterStats where
  numWaitingReqs : Nat := 0
  maxWaitTimeSecs : ℚ := 0
  maxRemainingTokens : Nat := 0
  isDrainingFor : Option Nat := none

def AdapterStats.drainFor (st : AdapterStats) (t : Option Nat) : AdapterStats :=
  { st with isDrainingFor := t }

def AdapterStats.isStarving (st : AdapterStats) (drainWaitThreshold : ℚ) : Prop :=
  drainWaitThreshold < st.maxWaitTimeSecs ∧ 0 < st.numWaitingReqs

structure LoRADrainer where
  maxLorasPerBatch : Nat
  maxWaitTimeSecs : ℚ := 0

/-- `adapter_to_stats`, a `defaultdict`. -/
abbrev Stats := Option Nat → AdapterStats

def updateAdapterStats (s : Stats) (waiting running : List Req) : Stats := fun id =>
  let waits := waiting.filter (·.loraId = id)
  let runs := running.filter (·.loraId = id)
  { numWaitingReqs := waits.length
    maxWaitTimeSecs := (waits.map (·.waited)).foldl max 0
    maxRemainingTokens := (runs.map (·.remaining)).foldl max 0
    isDrainingFor := (s id).isDrainingFor }

def runningAdapterIds (running : List Req) : Finset (Option Nat) :=
  (running.map (·.loraId)).toFinset

/-- The loop that gives each starving adapter an eligible one with the fewest tokens left. -/
inductive Assign : Stats → List (Option Nat) → Finset (Option Nat) → Stats → Prop
  | done {s eligible} : Assign s [] eligible s
  | noneLeft {s starving} : Assign s starving ∅ s
  | mark {s s' t rest eligible} (a : Option Nat) : a ∈ eligible →
      (∀ b ∈ eligible, (s a).maxRemainingTokens ≤ (s b).maxRemainingTokens) →
      Assign (update s a ((s a).drainFor t)) rest (eligible.erase a) s' →
      Assign s (t :: rest) eligible s'

section
variable (d : LoRADrainer) (w : ℚ) (s : Stats) (waiting running : List Req) (s' : Stats)
  (ids : Finset (Option Nat))

/-- A mark for the base model is `None`, so it does not count as one. -/
def IsTarget (id : Option Nat) : Prop := id ≠ none ∧ ∃ a, (s a).isDrainingFor = id

/-- The early return, for a batch that is not full, is a loop over no adapter. -/
def UpdateDrainingLoras : Prop :=
  ∃ order : List (Option Nat), order.Nodup ∧
    (∀ id, id ∈ order ↔ d.maxLorasPerBatch ≤ (runningAdapterIds running).card ∧
      (s id).isStarving d.maxWaitTimeSecs ∧ ¬IsTarget s id) ∧
    order.Pairwise (fun a b => (s b).maxWaitTimeSecs ≤ (s a).maxWaitTimeSecs) ∧
    Assign s order ((runningAdapterIds running).filter fun a => (s a).isDrainingFor = none) s'

def updateFullyDrainedLoras : Stats := fun id =>
  if id ∈ runningAdapterIds running then s id else (s id).drainFor none

def UpdateDrainingState : Prop :=
  ∃ marked, UpdateDrainingLoras d (updateAdapterStats s waiting running) running marked ∧
    s' = updateFullyDrainedLoras marked running

/-- `DRAIN_SCHEDULE_TOLERANCE` is 1.2. -/
def canSchedule (req : Req) : Prop :=
  (s req.loraId).isDrainingFor = none ∨ 5 * req.maxNewTokens ≤ 6 * (s req.loraId).maxRemainingTokens

/-- No two adapters drain for the same one. -/
def Distinct : Prop :=
  ∀ a a' b, (s a).isDrainingFor = some b → (s a').isDrainingFor = some b → a = a'

def Starves (id : Option Nat) : Prop :=
  ∃ r ∈ waiting, r.loraId = id ∧ w < max 0 r.waited

/-- What draining is for, after a call. -/
structure TargetsStarving : Prop where
  served : ∀ id ∉ ids, Starves w waiting id →
    (id ≠ none ∧ ∃ a ∈ ids, (s a).isDrainingFor = id) ∨ ∀ a ∈ ids, (s a).isDrainingFor ≠ none
  apart : ∀ a b, (s a).isDrainingFor = some b → some b ≠ a ∧ some b ∉ ids
  distinct : Distinct s

/-- Before a call: the base model does not starve, no running adapter starves or is drained for,
and what drains for a starving adapter is running. -/
structure Separated : Prop where
  base : ¬Starves w waiting none
  batch : ∀ id ∈ ids, ¬Starves w waiting id
  targets : ∀ a ∈ ids, ∀ b, (s a).isDrainingFor = some b → some b ∉ ids
  drainers : ∀ a ∉ ids, ∀ b, (s a).isDrainingFor = some b → ¬Starves w waiting (some b)
end

/-- The states that calls with any queues and batches lead to. -/
inductive Reached (d : LoRADrainer) : Stats → Prop
  | init : Reached d fun _ => {}
  | call {s s' waiting running} : Reached d s → UpdateDrainingState d s waiting running s' →
      Reached d s'

variable {d : LoRADrainer} {w : ℚ} {s s' : Stats} {waiting running : List Req}
  {order : List (Option Nat)} {eligible : Finset (Option Nat)} {a : Option Nat}

/-! ## The loop -/

/-- Only marks of eligible adapters change, and they become starving adapters. -/
lemma Assign.marks (h : Assign s order eligible s') (a : Option Nat) :
    ∃ t, s' a = (s a).drainFor t ∧ (t = (s a).isDrainingFor ∨ a ∈ eligible ∧ t ∈ order) := by
  induction h with
  | done | noneLeft => exact ⟨_, rfl, .inl rfl⟩
  | @mark s _ t _ _ b hb _ _ ih => ?_
  obtain ⟨u, hu, hmem⟩ := ih
  refine ⟨u, ?_⟩
  by_cases hab : a = b
  · subst hab
    rw [update_self] at hu hmem
    exact ⟨hu, .inr ⟨hb, by simp_all [AdapterStats.drainFor]⟩⟩
  · rw [update_of_ne hab] at hu hmem
    exact ⟨hu, hmem.imp_right fun h => ⟨Finset.mem_of_mem_erase h.1, .tail _ h.2⟩⟩

lemma Assign.frame (h : Assign s order eligible s') (ha : a ∉ eligible) : s' a = s a := by
  obtain ⟨_, ht, rfl | hnew⟩ := h.marks a
  · exact ht
  · exact absurd hnew.1 ha

lemma Assign.covers (h : Assign s order eligible s') (hnone : none ∉ order) :
    (∀ t ∈ order, ∃ a ∈ eligible, (s' a).isDrainingFor = t) ∨
      ∀ a ∈ eligible, (s' a).isDrainingFor ≠ none := by
  induction h with
  | done => exact .inl (by simp)
  | noneLeft => exact .inr (by simp)
  | @mark s s' t rest eligible a ha _ hrest ih => ?_
  have hat : (s' a).isDrainingFor = t := by
    rw [hrest.frame (Finset.notMem_erase a eligible), update_self]
    rfl
  rcases ih fun hm => hnone (.tail _ hm) with hall | hfull
  · left
    grind
  · right
    grind

lemma Assign.distinct (h : Assign s order eligible s') (hd : Distinct s) (hn : order.Nodup)
    (hnew : ∀ t ∈ order, ¬IsTarget s t) : Distinct s' := by
  induction h with
  | done | noneLeft => exact hd
  | @mark s _ t rest _ b _ _ _ ih => ?_
  refine ih ?_ hn.of_cons fun u hu => ?_
  · intro a a' c ha ha'
    have := hnew t (by simp)
    grind [Distinct, IsTarget, AdapterStats.drainFor]
  · have := hnew u (.tail _ hu)
    grind [IsTarget, AdapterStats.drainFor, nodup_cons]

/-! ## One call -/

lemma lt_foldl_max {α : Type} [LinearOrder α] {t x : α} {l : List α} :
    t < l.foldl max x ↔ t < x ∨ ∃ y ∈ l, t < y := by
  induction l generalizing x with
  | nil => simp
  | cons y l ih => simp [ih, or_assoc]

lemma isStarving_iff (s : Stats) (running : List Req) {id : Option Nat} :
    (updateAdapterStats s waiting running id).isStarving w ↔ Starves w waiting id := by
  simp only [AdapterStats.isStarving, updateAdapterStats, lt_foldl_max, length_pos_iff_exists_mem]
  simp only [mem_map, mem_filter, Starves, lt_max_iff]
  grind

lemma drainingFor_eq_some {b : Nat} : (updateFullyDrainedLoras s running a).isDrainingFor = some b ↔
      a ∈ runningAdapterIds running ∧ (s a).isDrainingFor = some b := by
  simp only [updateFullyDrainedLoras, AdapterStats.drainFor]
  grind

lemma Reached.distinct (h : Reached d s) : Distinct s := by
  induction h with
  | init => simp [Distinct]
  | call _ hcall ih =>
    obtain ⟨marked, ⟨order, hn, hmem, -, hassign⟩, rfl⟩ := hcall
    have hd := hassign.distinct ih hn fun t ht => ((hmem t).mp ht).2.2
    exact fun a a' b ha ha' =>
      hd a a' b (drainingFor_eq_some.mp ha).2 (drainingFor_eq_some.mp ha').2

/-- Every call with a full batch that separates starving from running adapters drains for the
starving ones, whatever the calls before it were. -/
theorem targets_starving (hr : Reached d s)
    (hsep : Separated d.maxWaitTimeSecs s waiting (runningAdapterIds running))
    (hmax : d.maxLorasPerBatch ≤ (runningAdapterIds running).card)
    (h : UpdateDrainingState d s waiting running s') :
    TargetsStarving d.maxWaitTimeSecs s' waiting (runningAdapterIds running) := by
  have hd := (hr.call h).distinct
  obtain ⟨marked, ⟨order, -, hmem, -, hassign⟩, rfl⟩ := h
  simp only [isStarving_iff] at hmem
  refine ⟨fun id _ hst => ?_, fun a b hab => ?_, hd⟩
  swap
  · obtain ⟨ha, hab⟩ := drainingFor_eq_some.mp hab
    have hb : some b ∉ runningAdapterIds running := by
      obtain ⟨t, ht, hold | hnew⟩ := hassign.marks a
      · rw [ht, hold] at hab
        exact hsep.targets a ha b hab
      · rw [ht] at hab
        subst hab
        exact fun hrun => hsep.batch _ hrun ((hmem _).mp hnew.2).2.1
    exact ⟨fun hba => hb (hba ▸ ha), hb⟩
  have hkeep : ∀ a, (s a).isDrainingFor ≠ none → (marked a).isDrainingFor = (s a).isDrainingFor :=
    fun a ha => by rw [hassign.frame fun h => ha (Finset.mem_filter.mp h).2]; rfl
  obtain ⟨b, rfl⟩ := Option.ne_none_iff_exists'.mp fun h => hsep.base (h ▸ hst)
  by_cases htarget : IsTarget s (some b)
  · obtain ⟨-, a, ha⟩ := htarget
    have haR : a ∈ runningAdapterIds running :=
      by_contra fun hnot => hsep.drainers a hnot b ha hst
    have hab : (marked a).isDrainingFor = some b := by rw [hkeep a (by simp [ha]), ha]
    exact .inl ⟨by simp, a, haR, drainingFor_eq_some.mpr ⟨haR, hab⟩⟩
  rcases hassign.covers fun hn => hsep.base ((hmem none).mp hn).2.1 with hc | hc
  · obtain ⟨a, ha, hab⟩ := hc _ ((hmem _).mpr ⟨hmax, hst, htarget⟩)
    have haR := Finset.mem_of_mem_filter a ha
    exact .inl ⟨by simp, a, haR, drainingFor_eq_some.mpr ⟨haR, hab⟩⟩
  · refine .inr fun a haR => ?_
    rw [updateFullyDrainedLoras, if_pos haR]
    by_cases ha : (s a).isDrainingFor = none
    · exact hc a (Finset.mem_filter.mpr ⟨haR, ha⟩)
    · rwa [hkeep a ha]

/-- After a call that finds adapter 0 alone in the batch and `t` starving. -/
def markZero (waiting running : List Req) (t : Option Nat) : Stats := fun id =>
  (updateAdapterStats (fun _ => {}) waiting running id).drainFor (if id = some 0 then t else none)

variable {t : Option Nat}

lemma markZero_call (hrun : runningAdapterIds running = {some 0})
    (hst : ∀ id, Starves w waiting id ↔ id = t) (hs : ∀ a, (s a).isDrainingFor = none) :
    UpdateDrainingState ⟨1, w⟩ s waiting running (markZero waiting running t) := by
  refine ⟨_, ⟨[t], nodup_singleton t, fun id => ?_, pairwise_singleton ..,
    .mark (some 0) ?_ ?_ .done⟩, ?_⟩
  · have : ¬IsTarget (updateAdapterStats s waiting running) id :=
      fun ⟨hne, a, ha⟩ => hne (ha.symm.trans (hs a))
    simp [isStarving_iff, hst, hrun, this]
  · simp [hrun, updateAdapterStats, hs]
  · simp +contextual [hrun]
  · ext1 id
    by_cases hid : id = some 0 <;> simp [markZero, updateFullyDrainedLoras, hrun, hid] <;> rfl

lemma markZero_again (hrun : runningAdapterIds running = {some 0})
    (hst : ∀ id, Starves w waiting id ↔ id = t) (ht : t ≠ none) (hs : (s (some 0)).isDrainingFor = t) :
    UpdateDrainingState ⟨1, w⟩ s waiting running (markZero waiting running t) := by
  refine ⟨_, ⟨[], nodup_nil, fun id => ?_, .nil, .done⟩, ?_⟩
  · simp only [isStarving_iff, hst, not_mem_nil, false_iff, not_and, not_not]
    rintro - rfl
    exact ⟨ht, some 0, hs⟩
  · ext1 id
    by_cases hid : id = some 0 <;> simp [markZero, updateFullyDrainedLoras, hrun, hid, ← hs] <;> rfl

/-- One request of adapter 0 with `m` tokens left. -/
def lone (m : Nat) : List Req := [⟨some 0, m + 1, 1, 0⟩]

/-- Adapter 0 runs while 1 starves. -/
theorem drains_for_starving : ∃ s : Stats, TargetsStarving 1 s [⟨some 1, 4, 0, 2⟩] {some 0} ∧
      (s (some 0)).isDrainingFor = some 1 := by
  have hst (id) : Starves 1 [⟨some 1, 4, 0, 2⟩] id ↔ id = some 1 := by
    simp [Starves, eq_comm]
  have hcall : UpdateDrainingState ⟨1, 1⟩ (fun _ => {}) _ (lone 3) _ :=
    markZero_call rfl hst fun _ => rfl
  refine ⟨_, targets_starving .init ⟨?_, ?_, ?_, ?_⟩ ?_ hcall, rfl⟩
  all_goals simp [hst, runningAdapterIds, lone]

/-- Adapter 0 runs while another request for it waits too long: it drains for itself. -/
theorem drains_for_itself :
    ∃ s : Stats, UpdateDrainingState ⟨1, 1⟩ (fun _ => {}) [⟨some 0, 4, 0, 2⟩] (lone 3) s ∧
      (s (some 0)).isDrainingFor = some 0 ∧ ¬TargetsStarving 1 s [⟨some 0, 4, 0, 2⟩] {some 0} := by
  have hst (id) : Starves 1 [⟨some 0, 4, 0, 2⟩] id ↔ id = some 0 := by
    simp [Starves, eq_comm]
  exact ⟨_, markZero_call rfl hst fun _ => rfl, rfl, fun h => (h.apart (some 0) 0 rfl).1 rfl⟩

/-! ## Passes of the scheduler -/

/-- Requests that reach `max_new_tokens` stop. -/
def generate (reqs : List Req) (tokens : List Nat) : List Req :=
  ((reqs.zip tokens).map fun (r, n) => { r with outputLen := r.outputLen + n }).filter
    fun r => r.outputLen < r.maxNewTokens

/-- One pass: the drainer is updated, requests that it allows are admitted, and every running
request gets at least one token. -/
def Pass (d : LoRADrainer) (before after : Stats × List Req) : Prop :=
  ∃ waiting admitted : List Req, ∃ tokens : List Nat,
    UpdateDrainingState d before.1 waiting before.2 after.1 ∧
    admitted <+ waiting ∧ (∀ r ∈ admitted, canSchedule after.1 r) ∧
    tokens.length = (before.2 ++ admitted).length ∧ (∀ n ∈ tokens, 1 ≤ n) ∧
    after.2 = generate (before.2 ++ admitted) tokens

/-- In this run the first pass marks `a`, with `m` as its `max_remaining_tokens`. -/
structure Marks (d : LoRADrainer) (run : Nat → Stats × List Req) (a : Option Nat) (m : Nat) :
    Prop where
  pass : ∀ n, Pass d (run n) (run (n + 1))
  unmarked : ((run 0).1 a).isDrainingFor = none
  marked : ((run 1).1 a).isDrainingFor ≠ none
  remaining : ((run 1).1 a).maxRemainingTokens = m

lemma mem_generate {reqs : List Req} {tokens : List Nat} (htok : ∀ n ∈ tokens, 1 ≤ n) {r : Req}
    (h : r ∈ generate reqs tokens) :
    0 < r.remaining ∧ ∃ r₀ ∈ reqs, r₀.loraId = r.loraId ∧ r.remaining < r₀.remaining := by
  obtain ⟨hmap, hlt⟩ := mem_filter.mp h
  obtain ⟨⟨r₀, n⟩, hzip, rfl⟩ := mem_map.mp hmap
  obtain ⟨hr, hn⟩ := of_mem_zip hzip
  have := htok n hn
  simp only [decide_eq_true_eq] at hlt
  refine ⟨?_, r₀, hr, rfl, ?_⟩ <;> simp only [Req.remaining] <;> omega

section
variable {before after : Stats × List Req}

lemma Pass.lt_remaining (h : Pass d before after) {k : Nat} :
    k < (after.1 a).maxRemainingTokens ↔ ∃ r ∈ before.2, r.loraId = a ∧ k < r.remaining := by
  obtain ⟨waiting, -, -, ⟨_, ⟨_, -, -, -, hassign⟩, hafter⟩, -⟩ := h
  obtain ⟨_, ht, -⟩ := hassign.marks a
  have hsame : (after.1 a).maxRemainingTokens =
      (updateAdapterStats before.1 waiting before.2 a).maxRemainingTokens := by
    rw [hafter, updateFullyDrainedLoras]
    split_ifs <;> rw [ht] <;> rfl
  rw [hsame, updateAdapterStats, lt_foldl_max]
  simp [and_assoc]

/-- While an adapter runs it stays marked. -/
lemma Pass.stays_marked (h : Pass d before after)
    (hm : (before.1 a).isDrainingFor ≠ none) (hrun : ∃ r ∈ before.2, r.loraId = a) :
    (after.1 a).isDrainingFor ≠ none := by
  obtain ⟨_, -, -, ⟨_, ⟨_, -, -, -, hassign⟩, hafter⟩, -⟩ := h
  have ha : a ∈ runningAdapterIds before.2 := by simpa [runningAdapterIds] using hrun
  rw [hafter, updateFullyDrainedLoras, if_pos ha, hassign.frame fun h => hm (Finset.mem_filter.mp h).2]
  exact hm

/-- With at most four tokens left, 1.2 times as many are no more. -/
lemma Pass.shrinks (h : Pass d before after)
    (hm : (after.1 a).isDrainingFor ≠ none) (h4 : (after.1 a).maxRemainingTokens ≤ 4) {r : Req}
    (hr : r ∈ after.2) (ha : r.loraId = a) : r.remaining < (after.1 a).maxRemainingTokens := by
  have hmax := h.lt_remaining (a := a) (k := (after.1 a).maxRemainingTokens)
  obtain ⟨waiting, admitted, tokens, -, -, hcan, -, htok, hafter⟩ := h
  obtain ⟨-, r₀, hr0, hid, hlt⟩ := mem_generate htok (hafter ▸ hr)
  refine hlt.trans_le ?_
  rcases mem_append.mp hr0 with hrun | hnew
  · by_contra hgt
    exact lt_irrefl _ (hmax.mpr ⟨r₀, hrun, hid.trans ha, not_le.mp hgt⟩)
  · have htol := (hcan r₀ hnew).resolve_left (by rwa [hid, ha])
    rw [hid, ha] at htol
    simp only [Req.remaining]
    omega
end

variable {run : Nat → Stats × List Req} {m : Nat}

/-- As long as `a` runs, each pass leaves it fewer tokens. -/
lemma Marks.shrinks (h : Marks d run a m) (hm : m ≤ 4) {n : Nat}
    (hrun : ∀ k < n, ∃ r ∈ (run (k + 1)).2, r.loraId = a) :
    ((run (n + 1)).1 a).isDrainingFor ≠ none ∧ ((run (n + 1)).1 a).maxRemainingTokens + n ≤ m := by
  induction n with
  | zero => exact ⟨h.marked, h.remaining.le⟩
  | succ n ih => ?_
  obtain ⟨hmark, hle⟩ := ih fun k hk => hrun k (by omega)
  have hless : ∀ r ∈ (run (n + 1)).2, r.loraId = a →
      r.remaining < ((run (n + 1)).1 a).maxRemainingTokens := fun r hr =>
    (h.pass n).shrinks hmark (by omega) hr
  obtain ⟨r, hr, ha⟩ := hrun n (by omega)
  have hpos := hless r hr ha
  refine ⟨(h.pass (n + 1)).stays_marked hmark ⟨r, hr, ha⟩, ?_⟩
  by_contra hgt
  obtain ⟨r', hr', ha', hlt⟩ := (h.pass (n + 1)).lt_remaining.mp
    (show ((run (n + 1)).1 a).maxRemainingTokens - 1 < ((run (n + 1 + 1)).1 a).maxRemainingTokens by
      omega)
  have := hless r' hr' ha'
  omega

lemma Marks.ends (h : Marks d run a m) (hm : m ≤ 4) : ∃ n ≤ m, ∀ r ∈ (run (n + 1)).2, r.loraId ≠ a := by
  by_contra hnot
  push Not at hnot
  obtain ⟨hmark, hle⟩ := h.shrinks hm fun k hk => hnot k (le_of_lt hk)
  obtain ⟨r, hr, ha⟩ := hnot m le_rfl
  have := (h.pass m).shrinks hmark (by omega) hr ha
  omega

/-- Adapter 0 has `m` tokens left; 1 starves, and a request for 0 with one token more waits. -/
def feeding (m : Nat) : List Req := [⟨some 1, 1, 0, 2⟩, ⟨some 0, m + 1, 0, 0⟩]

def fed (m n : Nat) : Stats × List Req :=
  (if n = 0 then fun _ => {} else markZero (feeding m) (lone m) (some 1), lone m)

lemma fed_update (m n : Nat) :
    UpdateDrainingState ⟨1, 1⟩ (fed m n).1 (feeding m) (lone m) (fed m (n + 1)).1 := by
  have hst (id : Option Nat) : Starves 1 (feeding m) id ↔ id = some 1 := by
    simp [Starves, feeding, eq_comm]
  cases n with
  | zero => exact markZero_call rfl hst fun _ => rfl
  | succ n => exact markZero_again rfl hst (by simp) rfl

lemma fed_marks (hm : 5 ≤ m) : Marks ⟨1, 1⟩ (fed m) (some 0) m := by
  have hmax (n : Nat) : ((fed m (n + 1)).1 (some 0)).maxRemainingTokens = m := by
    change max 0 (m + 1 - 1) = m
    omega
  refine ⟨fun n => ?_, rfl, by simp [fed, markZero, AdapterStats.drainFor], hmax 0⟩
  refine ⟨feeding m, [⟨some 0, m + 1, 0, 0⟩], [m, 1], fed_update m n, .cons _ (.refl _), ?_, rfl,
    ?_, ?_⟩
  · simp only [mem_singleton, forall_eq]
    refine .inr ?_
    rw [hmax]
    change 5 * (m + 1) ≤ 6 * m
    omega
  · simp
    omega
  · change lone m = filter _ [_, _]
    rw [filter_cons_of_neg (by simp [add_comm]), filter_cons_of_pos (by simp; omega), filter_nil, lone]

/-- Draining ends within a bound exactly if at most four tokens were left. -/
theorem draining_ends_iff (m : Nat) : (∃ bound, ∀ d run a, Marks d run a m →
      ∃ n ≤ bound, ∀ r ∈ (run (n + 1)).2, r.loraId ≠ a) ↔ m ≤ 4 := by
  refine ⟨fun ⟨bound, h⟩ => ?_, fun hm => ⟨m, fun _ _ _ h => h.ends hm⟩⟩
  by_contra hm
  obtain ⟨n, -, hn⟩ := h _ _ _ (fed_marks (m := m) (by omega))
  exact hn _ (mem_singleton_self _) rfl

/-- Six tokens are at most 1.2 times five. -/
theorem draining_never_ends :
    Marks ⟨1, 1⟩ (fed 5) (some 0) 5 ∧ ∀ n, ∃ r ∈ (fed 5 n).2, r.loraId = some 0 := by
  exact ⟨fed_marks le_rfl, fun n => ⟨_, mem_singleton_self _, rfl⟩⟩
end Sglang.Lora.Drainer
