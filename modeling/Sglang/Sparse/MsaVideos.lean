import Sglang.Lib.Run
import Sglang.Sparse.Msa

/-!
# Mixed Sparse Attention across videos

The memos of a layer are keyed by the key segments; the count of calls that picks the step of a call
is one of them, denoising and refresh calls advance it alike, and nothing is reset.
-/

namespace Sglang
open MixedSparseAttention

/-! ## What a call does to the memos -/

/-- Neither memo of the content heads changes, nor the geometry. -/
structure MsaState.SameMemos (s s' : MsaState) : Prop where
  geometry : s'.geometry = s.geometry
  pooled : s'.pooledHistory = s.pooledHistory
  content : s'.contentCache = s.contentCache

namespace MixedSparseAttention
variable (msa : MixedSparseAttention) (num : SelectionNumerics) (s : MsaState)
  (call : SparseAttentionCall BatchTensors) (L : VisibleLayout) (content : List Nat)

lemma callDensity_memos : s.SameMemos (msa.callDensity num s L).1 := by
  unfold callDensity
  split <;> exact ⟨rfl, rfl, rfl⟩

section
variable (geometry : ChunkGeometry)

lemma staticPlan_memos (layer : Nat) (static : List (Nat × HeadSpec))
    (qLen : Nat) : s.SameMemos (msa.staticPlan s geometry layer static L qLen).1 := by
  unfold staticPlan
  dsimp only
  split
  · exact ⟨rfl, rfl, rfl⟩
  · split <;> exact ⟨rfl, rfl, rfl⟩

lemma staticBranch_memos (static : List (Nat × HeadSpec)) :
    s.SameMemos (msa.staticBranch s geometry call static L).1 := by
  unfold staticBranch
  split
  · exact ⟨rfl, rfl, rfl⟩
  · exact msa.staticPlan_memos s L geometry call.layerIndex static call.queryTokens

structure HeadsOf (heads : SparseHeads) : Prop where
  layout : heads.layout = L
  split : ∃ static, msa.splitHeads call.layerIndex call.headStart call.numLocalHeads =
    .ok (static, heads.content)

lemma sparseHeads_spec : s.SameMemos (msa.sparseHeads s geometry call L).1 ∧
      ∀ heads, (msa.sparseHeads s geometry call L).2 = .ok (some heads) → HeadsOf msa call L heads := by
  unfold sparseHeads
  rcases hsplit : msa.splitHeads call.layerIndex call.headStart call.numLocalHeads with e | split
  · exact ⟨⟨rfl, rfl, rfl⟩, nofun⟩
  obtain ⟨static, content⟩ := split
  refine ⟨msa.staticBranch_memos s call L geometry static, fun heads h => ?_⟩
  simp only at h
  rcases hplan : (msa.staticBranch s geometry call static L).2 with e | plan
  · rw [hplan] at h
    cases h
  rw [hplan] at h
  cases h
  exact ⟨rfl, static, hsplit⟩
end

lemma beforeContent_spec : s.SameMemos (msa.beforeContent num s call).1 ∧
      ∀ heads, (msa.beforeContent num s call).2 = .ok (some heads) →
        ∃ L, layoutOf s.geometry call = .ok L ∧ HeadsOf msa call L heads := by
  have same : s.SameMemos s := ⟨rfl, rfl, rfl⟩
  unfold beforeContent
  split
  next geometry L hg hl =>
    split_ifs
    · exact ⟨same, nofun⟩
    · exact ⟨same, nofun⟩
    · have hd := msa.callDensity_memos num s L
      dsimp only
      split_ifs
      · exact ⟨hd, nofun⟩
      obtain ⟨hm, hh⟩ :=
        msa.sparseHeads_spec (msa.callDensity num s L).1 call L geometry
      exact ⟨⟨hm.geometry.trans hd.geometry, hm.pooled.trans hd.pooled,
        hm.content.trans hd.content⟩, fun heads h => ⟨L, hl, hh heads h⟩⟩
    · obtain ⟨hm, hh⟩ := msa.sparseHeads_spec s call L geometry
      exact ⟨hm, fun heads h => ⟨L, hl, hh heads h⟩⟩
  · exact ⟨same, nofun⟩

/-- A ranking reads its layer's stored pooled keys or the call's own, which are then stored. -/
structure PoolStep (s' : MsaState) (pooled : PooledKeys) : Prop where
  geometry : s'.geometry = s.geometry
  content : s'.contentCache = s.contentCache
  memo : (s.pooledHistory.get call.layerIndex (poolSignature call L) = some pooled ∧
      s'.pooledHistory = s.pooledHistory) ∨
    (s.pooledHistory.get call.layerIndex (poolSignature call L) = none ∧
      pooled = poolHistory msa.config.blockK call L ∧
      s'.pooledHistory = s.pooledHistory.put call.layerIndex (poolSignature call L) pooled)

lemma pooledHistoryFor_spec :
    PoolStep msa s call L (msa.pooledHistoryFor s call L).1 (msa.pooledHistoryFor s call L).2 := by
  unfold pooledHistoryFor
  cases hg : s.pooledHistory.get call.layerIndex (poolSignature call L) with
  | some pooled => exact ⟨rfl, rfl, .inl ⟨hg, rfl⟩⟩
  | none => exact ⟨rfl, rfl, .inr ⟨hg, rfl, rfl⟩⟩

def entryOf (ranking : ContentRanking) (calls : Nat) : ContentEntry where
  stepPlans := msa.stepPlans L ranking
  stepTopks := msa.stepTopks ranking
  kvBlocks := ranking.kvBlocks
  calls := calls

lemma rankedEntry_spec (calls : Nat) :
    ∃ pooled, PoolStep msa s call L (msa.rankedEntry num s call L content calls).1 pooled ∧
      (msa.rankedEntry num s call L content calls).2 =
        (msa.rankBlocks num (msa.callDensity num s L).2 call L content pooled).map
          fun ranking => entryOf msa L ranking calls := by
  have hd := msa.callDensity_memos num s L
  have hp := msa.pooledHistoryFor_spec (msa.callDensity num s L).1 call L
  refine ⟨_, ⟨hp.geometry.trans hd.geometry, hp.content.trans hd.content, ?_⟩, rfl⟩
  have hmemo := hp.memo
  rw [hd.pooled] at hmemo
  exact hmemo

def storedCalls : Option Nat :=
  (s.contentCache.get call.layerIndex (contentSignature call)).map ContentEntry.calls

def ranksAfter : Option Nat → Bool
  | none => true
  | some calls => msa.replans calls

structure RunsEntry (inCacheUpdate : Bool) (s' : MsaState) (entry : ContentEntry)
    (result : MsaState × Except KeepError ContentRun) : Prop where
  geometry : result.1.geometry = s'.geometry
  pooled : result.1.pooledHistory = s'.pooledHistory
  content : result.1.contentCache = s'.contentCache.put call.layerIndex (contentSignature call)
    { entry with calls := entry.calls + 1 }
  run : ∃ ids, result.2 =
    .ok { headIds := ids, plan := entry.stepPlans.getD (stepIndex inCacheUpdate entry) [] }

def RanksAnew (inCacheUpdate : Bool) (calls : Nat)
    (result : MsaState × Except KeepError ContentRun) : Prop :=
  ∃ s' pooled, PoolStep msa s call L s' pooled ∧
    ((∃ e, result = (s', .error e)) ∨
      ∃ ranking,
        msa.rankBlocks num (msa.callDensity num s L).2 call L content pooled = .ok ranking ∧
        RunsEntry call inCacheUpdate s' (entryOf msa L ranking calls) result)

lemma contentBranch_of_ranked {calls : Nat} (upd : Bool)
    (h : msa.contentEntry num s call L content = msa.rankedEntry num s call L content calls) :
    RanksAnew msa num s call L content upd calls (msa.contentBranch num s call L content upd) := by
  obtain ⟨pooled, hpool, hresult⟩ := msa.rankedEntry_spec num s call L content calls
  refine ⟨_, pooled, hpool, ?_⟩
  unfold contentBranch
  rw [h]
  rcases hr : msa.rankBlocks num (msa.callDensity num s L).2 call L content pooled with e | ranking
  · rw [hr] at hresult
    simp only [hresult]
    exact .inl ⟨e, rfl⟩
  rw [hr] at hresult
  simp only [hresult]
  exact .inr ⟨ranking, rfl, rfl, rfl, rfl, _, rfl⟩

lemma contentBranch_cases (upd : Bool) :
    (∃ entry, s.contentCache.get call.layerIndex (contentSignature call) = some entry ∧
        msa.replans entry.calls = false ∧
        RunsEntry call upd s entry (msa.contentBranch num s call L content upd)) ∨
      (ranksAfter msa (storedCalls s call) = true ∧
        RanksAnew msa num s call L content upd ((storedCalls s call).getD 0)
          (msa.contentBranch num s call L content upd)) := by
  unfold storedCalls
  rcases hg : s.contentCache.get call.layerIndex (contentSignature call) with _ | entry
  · exact .inr ⟨rfl, msa.contentBranch_of_ranked num s call L content upd
      (by rw [contentEntry, hg]; rfl)⟩
  cases hreplan : msa.replans entry.calls with
  | true => exact .inr ⟨hreplan, msa.contentBranch_of_ranked num s call L content
      upd (by simp only [contentEntry, hg, hreplan, if_true]; rfl)⟩
  | false => ?_
  refine .inl ⟨entry, rfl, hreplan, ?_⟩
  have hentry : msa.contentEntry num s call L content = (s, .ok entry) := by
    simp only [contentEntry, hg, hreplan, Bool.false_eq_true, if_false]
  unfold contentBranch
  rw [hentry]
  exact ⟨rfl, rfl, rfl, _, rfl⟩
end MixedSparseAttention

/-! ## A backend and the present video -/

/-- `content` and `pooled` mirror the memos' signatures, counts and whether they are of the present
video; `steps` counts denoising calls with content heads in the chunk. -/
structure MsaRecord where
  log : CallLog BatchTensors
  content : LayoutCache ContentSignature (Nat × Bool)
  pooled : LayoutCache PoolSignature Bool
  steps : Nat → Nat

namespace MsaRecord
def empty : MsaRecord :=
  { log := [], content := .empty, pooled := .empty, steps := fun _ => 0 }

variable (msa : MixedSparseAttention) (r : MsaRecord) (call : SparseAttentionCall BatchTensors)

def newVideo : MsaRecord where
  log := []
  content := r.content.mapValues fun entry => (entry.1, false)
  pooled := r.pooled.mapValues fun _ => false
  steps := fun _ => 0

def callsUnder : Option Nat :=
  (r.content.get call.layerIndex (contentSignature call)).map Prod.fst

def rankedHere : Bool :=
  ((r.content.get call.layerIndex (contentSignature call)).map Prod.snd).getD false

def ranks : Bool :=
  ranksAfter msa (r.callsUnder call)

def contentCall (layout : VisibleLayout) (inCacheUpdate returned : Bool) : MsaRecord :=
  let l := call.layerIndex
  let pool := poolSignature call layout
  { r with
    pooled :=
      if r.ranks msa call then r.pooled.put l pool ((r.pooled.get l pool).getD true) else r.pooled
    content :=
      if returned then
        r.content.put l (contentSignature call)
          ((r.callsUnder call).getD 0 + 1, r.ranks msa call || r.rankedHere call)
      else r.content
    steps :=
      if returned && !inCacheUpdate then Function.update r.steps l (r.steps l + 1) else r.steps }
end MsaRecord

structure MsaVideo where
  backend : MsaState
  clock : VideoClock
  record : MsaRecord

namespace MsaVideo
variable (msa : MixedSparseAttention) (num : SelectionNumerics)

def initial : MsaVideo := { backend := .initial, clock := .initial, record := .empty }

section
variable (s : MsaState) (r : MsaRecord) (call : SparseAttentionCall BatchTensors)
  (inCacheUpdate : Bool) (log : CallLog BatchTensors) (layer : Nat)

def contentLayout : Option VisibleLayout :=
  match (msa.beforeContent num s call).2 with
  | .ok (some heads) => if heads.content = [] then none else some heads.layout
  | _ => none

def recordCall : MsaRecord :=
  let r := { r with log := (s.geometry, call) :: r.log }
  match contentLayout msa num s call with
  | none => r
  | some layout =>
    r.contentCall msa call layout inCacheUpdate (msa.attend num s call inCacheUpdate).2.isOk

def next (v : MsaVideo) (e : Event BatchTensors) : MsaVideo :=
  match e with
  | .newVideo => { v with clock := v.clock.next e, record := v.record.newVideo }
  | .beginForward g =>
    { backend := v.backend.beginForward g
      clock := v.clock.next e
      record :=
        if v.clock.chunk = some g.queryChunkIndex then v.record
        else { v.record with steps := fun _ => 0 } }
  | .attend call inCacheUpdate =>
    { backend := (msa.attend num v.backend call inCacheUpdate).1
      clock := v.clock.next e
      record := recordCall msa num v.backend v.record call inCacheUpdate }

/-- The events of the pipelines: the chunk indices of a video start at 0 and never decrease. -/
def Admits (v : MsaVideo) (e : Event BatchTensors) : Prop := v.clock.Admits e

/-- A call that reuses plans comes after a ranking under its signature in the present video, one that
reuses pooled keys after their pooling in it, and a denoising call after as many calls under its
signature as in its chunk. -/
structure Kept (layout : VisibleLayout) : Prop where
  plans : r.ranks msa call = false → r.rankedHere call = true
  pooled : r.ranks msa call = true →
    r.pooled.get call.layerIndex (poolSignature call layout) ≠ some false
  steps : inCacheUpdate = false →
    min ((r.callsUnder call).getD 0) (msa.config.scales.length - 1) =
      min (r.steps call.layerIndex) (msa.config.scales.length - 1)

def InStep (v : MsaVideo) (e : Event BatchTensors) : Prop :=
  ∀ call inCacheUpdate layout, e = .attend call inCacheUpdate →
    contentLayout msa num v.backend call = some layout → Kept msa v.record call inCacheUpdate layout

def PooledFrom (signature : PoolSignature) (pooled : PooledKeys) : Prop :=
  ∃ call layout, log.Has layer call layout ∧ poolSignature call layout = signature ∧
    pooled = poolHistory msa.config.blockK call layout

/-- The plans were cut from a ranking of the present video. -/
def RankedFrom (plans : List ContentPlan) : Prop :=
  ∃ s call layout static content pooled ranking, log.Has layer call layout ∧
    msa.splitHeads layer call.headStart call.numLocalHeads = .ok (static, content) ∧
    PooledFrom msa log layer (poolSignature call layout) pooled ∧
    msa.rankBlocks num (msa.callDensity num s layout).2 call layout content pooled = .ok ranking ∧
    plans = msa.stepPlans layout ranking
end

variable {msa num} {v : MsaVideo} {log log' : CallLog BatchTensors} {s : MsaState} {r : MsaRecord}
  {layer : Nat} {plans : List ContentPlan}

lemma PooledFrom.mono {signature : PoolSignature} {pooled : PooledKeys}
    (h : PooledFrom msa log layer signature pooled) (hsub : log ⊆ log') :
    PooledFrom msa log' layer signature pooled := by
  obtain ⟨call, L, hc, hs, hp⟩ := h
  exact ⟨call, L, hc.mono hsub, hs, hp⟩

lemma RankedFrom.mono (h : RankedFrom msa num log layer plans) (hsub : log ⊆ log') :
    RankedFrom msa num log' layer plans := by
  obtain ⟨s, call, L, static, content, pooled, ranking, hc, hsplit, hp, hr, rfl⟩ := h
  exact ⟨s, call, L, static, content, pooled, ranking, hc.mono hsub, hsplit, hp.mono hsub, hr,
    rfl⟩

lemma RankedFrom.length_eq
    (h : RankedFrom msa num log layer plans) : plans.length = msa.config.scales.length := by
  obtain ⟨-, -, L, -, -, -, ranking, -, -, -, -, rfl⟩ := h
  simp [stepPlans, stepTopks]

/-! ## The invariant -/

variable (msa num)

structure MemosOk (log : CallLog BatchTensors) (s : MsaState) (r : MsaRecord) : Prop where
  content : s.contentCache.Agree
    (fun layer _ entry shadow => entry.calls = shadow.1 ∧
      (shadow.2 = true → RankedFrom msa num log layer entry.stepPlans)) r.content
  pooled : s.pooledHistory.Agree
    (fun layer signature pooled here => here = true → PooledFrom msa log layer signature pooled)
    r.pooled

variable {msa num}
variable (h : MemosOk msa num log s r)
include h

lemma MemosOk.mono (hsub : log ⊆ log') : MemosOk msa num log' s r where
  content := h.content.mono fun _ _ _ _ hr => ⟨hr.1, fun hh => (hr.2 hh).mono hsub⟩
  pooled := h.pooled.mono fun _ _ _ _ hp hh => (hp hh).mono hsub

lemma MemosOk.newVideo : MemosOk msa num [] s r.newVideo where
  content := by
    dsimp only [MsaRecord.newVideo]
    refine LayoutCache.Agree.mapValues h.content ?_
    simp
  pooled := by
    dsimp only [MsaRecord.newVideo]
    refine LayoutCache.Agree.mapValues h.pooled ?_
    nofun

lemma MemosOk.get_content (call : SparseAttentionCall BatchTensors) :
    storedCalls s call = r.callsUnder call ∧
      ∀ entry, s.contentCache.get call.layerIndex (contentSignature call) = some entry →
        r.callsUnder call = some entry.calls ∧
        (r.rankedHere call = true → RankedFrom msa num log call.layerIndex entry.stepPlans) := by
  unfold storedCalls MsaRecord.callsUnder MsaRecord.rankedHere
  have hrel := h.content.get call.layerIndex (contentSignature call)
  revert hrel
  generalize s.contentCache.get call.layerIndex (contentSignature call) = x
  generalize r.content.get call.layerIndex (contentSignature call) = y
  rintro (⟨hcalls, hranked⟩ | _)
  · grind
  · exact ⟨rfl, nofun⟩

omit h

section
variable {call : SparseAttentionCall BatchTensors} {L : VisibleLayout} {s' : MsaState}
  {pooled : PooledKeys}

lemma MemosOk.pool (h : MemosOk msa num log s r) (hp : PoolStep msa s call L s' pooled)
    (hhas : log.Has call.layerIndex call L)
    (hk : r.pooled.get call.layerIndex (poolSignature call L) ≠ some false) :
    PooledFrom msa log call.layerIndex (poolSignature call L) pooled ∧
      s'.pooledHistory.Agree
        (fun layer signature pooled here => here = true → PooledFrom msa log layer signature pooled)
        (r.pooled.put call.layerIndex (poolSignature call L)
          ((r.pooled.get call.layerIndex (poolSignature call L)).getD true)) := by
  have hrel := h.pooled.get call.layerIndex (poolSignature call L)
  obtain ⟨hget, hsame⟩ | ⟨hget, hnew, hput⟩ := hp.memo
  · rw [hget] at hrel
    rcases hg : r.pooled.get call.layerIndex (poolSignature call L) with _ | here
    · rw [hg] at hrel
      cases hrel
    rw [hg] at hrel hk
    cases hrel with
    | some hfrom =>
      rcases here with _ | _
      · exact absurd rfl hk
      refine ⟨hfrom rfl, ?_⟩
      rw [hsame, ← LayoutCache.put_eq_self hget]
      exact h.pooled.put hfrom
  have hfrom : PooledFrom msa log call.layerIndex (poolSignature call L) pooled :=
    ⟨call, L, hhas, rfl, hnew⟩
  refine ⟨hfrom, ?_⟩
  rw [hput]
  exact h.pooled.put fun _ => hfrom

def PlanOfStep (msa : MixedSparseAttention) (num : SelectionNumerics) (log : CallLog BatchTensors)
    (layer step : Nat) (plan : ContentPlan) : Prop :=
  ∃ plans, RankedFrom msa num log layer plans ∧ plans[step]? = some plan

/-- 0 for a refresh, else the earlier denoising calls of the chunk, up to the last step. -/
def stepOfCall (msa : MixedSparseAttention) (r : MsaRecord)
    (call : SparseAttentionCall BatchTensors) (inCacheUpdate : Bool) : Nat :=
  if inCacheUpdate then 0 else min (r.steps call.layerIndex) (msa.config.scales.length - 1)

lemma scales_length_pos (c : MsaConfig) : 0 < c.scales.length := by
  unfold MsaConfig.scales
  grind

variable {content : List Nat} {upd : Bool} {entry : ContentEntry}
  {result : MsaState × Except KeepError ContentRun}

lemma Kept.planOfStep (hk : Kept msa r call upd L) (hrun : RunsEntry call upd s' entry result)
    (hcalls : entry.calls = (r.callsUnder call).getD 0)
    (hfrom : RankedFrom msa num log call.layerIndex entry.stepPlans) {run : ContentRun}
    (h : result.2 = .ok run) :
    PlanOfStep msa num log call.layerIndex (stepOfCall msa r call upd) run.plan := by
  obtain ⟨ids, hok⟩ := hrun.run
  rw [h] at hok
  cases hok
  have hpos := scales_length_pos msa.config
  have hstep : stepIndex upd entry = stepOfCall msa r call upd := by
    unfold stepIndex stepOfCall
    cases upd with
    | true => rfl
    | false =>
      rw [hfrom.length_eq, hcalls, hk.steps rfl]
  have hlt : stepOfCall msa r call upd < entry.stepPlans.length := by
    rw [hfrom.length_eq]
    unfold stepOfCall
    split <;> omega
  refine ⟨entry.stepPlans, hfrom, ?_⟩
  grind

lemma MemosOk.store (h : MemosOk msa num log s r) (hcontent : s'.contentCache = s.contentCache)
    (hrun : RunsEntry call upd s' entry result) (hcalls : entry.calls = (r.callsUnder call).getD 0)
    (hfrom : RankedFrom msa num log call.layerIndex entry.stepPlans) (here : Bool) :
    result.1.contentCache.Agree
      (fun layer _ entry shadow => entry.calls = shadow.1 ∧
        (shadow.2 = true → RankedFrom msa num log layer entry.stepPlans))
      (r.content.put call.layerIndex (contentSignature call)
        ((r.callsUnder call).getD 0 + 1, here)) := by
  rw [hrun.content, hcontent]
  exact h.content.put ⟨by rw [hcalls], fun _ => hfrom⟩

lemma MemosOk.contentBranch (h : MemosOk msa num log s r) (hhas : log.Has call.layerIndex call L)
    (hsplit : ∃ static, msa.splitHeads call.layerIndex call.headStart call.numLocalHeads =
      .ok (static, content)) (hk : Kept msa r call upd L)
    (hresult : msa.contentBranch num s call L content upd = result) :
    MemosOk msa num log result.1 (r.contentCall msa call L upd result.2.isOk) ∧
      ∀ run, result.2 = .ok run → PlanOfStep msa num log call.layerIndex
        (stepOfCall msa r call upd) run.plan := by
  obtain ⟨hstored, hget⟩ := h.get_content call
  obtain ⟨entry, hentry, hreplan, hrun⟩ | ⟨hranks, s', pooled, hpool, hcases⟩ :=
    msa.contentBranch_cases num s call L content upd
  · -- the stored plans
    rw [hresult] at hrun
    obtain ⟨hunder, hfrom⟩ := hget entry hentry
    have hranks : r.ranks msa call = false := by rw [MsaRecord.ranks, hunder]; exact hreplan
    have hfrom := hfrom (hk.plans hranks)
    have hcalls : entry.calls = (r.callsUnder call).getD 0 := by rw [hunder]; rfl
    obtain ⟨ids, hok⟩ := hrun.run
    refine ⟨⟨?_, ?_⟩, fun run => hk.planOfStep hrun hcalls hfrom⟩
    · simp only [MsaRecord.contentCall, hok]
      exact h.store rfl hrun hcalls hfrom _
    · simp only [MsaRecord.contentCall, hranks, hrun.pooled]
      exact h.pooled
  have hranks : r.ranks msa call = true := by rw [MsaRecord.ranks, ← hstored]; exact hranks
  obtain ⟨hpooled, hagree⟩ := h.pool hpool hhas (hk.pooled hranks)
  obtain ⟨e, herror⟩ | ⟨ranking, hranking, hrun⟩ := hcases
  · -- the ranking raises: the keys are pooled, the plans stay
    rw [hresult] at herror
    subst herror
    refine ⟨⟨?_, ?_⟩, nofun⟩
    · rw [hpool.content]
      exact h.content
    · simp only [MsaRecord.contentCall, hranks, if_true]
      exact hagree
  rw [hresult] at hrun
  obtain ⟨static, hsplit⟩ := hsplit
  have hfrom : RankedFrom msa num log call.layerIndex
      (entryOf msa L ranking ((storedCalls s call).getD 0)).stepPlans :=
    ⟨s, call, L, static, content, pooled, ranking, hhas, hsplit, hpooled, hranking, rfl⟩
  have hcalls : (entryOf msa L ranking ((storedCalls s call).getD 0)).calls =
      (r.callsUnder call).getD 0 := by rw [hstored]; rfl
  obtain ⟨ids, hok⟩ := hrun.run
  refine ⟨⟨?_, ?_⟩, fun run => hk.planOfStep hrun hcalls hfrom⟩
  · simp only [MsaRecord.contentCall, hok]
    exact h.store hpool.content hrun hcalls hfrom _
  · simp only [MsaRecord.contentCall, hranks, hrun.pooled, if_true]
    exact hagree
end

/-! ## One call -/

variable {call : SparseAttentionCall BatchTensors} {upd : Bool}

section
variable (msa : MixedSparseAttention) (num : SelectionNumerics)

lemma attend_of_no_content {s : MsaState} (upd : Bool) (h : contentLayout msa num s call = none) :
    s.SameMemos (msa.attend num s call upd).1 ∧
      ∀ run, (msa.attend num s call upd).2 = .ok (some run) → run.content = none := by
  have hsame := (msa.beforeContent_spec num s call).1
  unfold contentLayout at h
  rcases hb : (msa.beforeContent num s call).2 with e | found
  · simp only [attend, hb]
    exact ⟨hsame, nofun⟩
  rcases found with _ | heads
  · simp only [attend, hb]
    exact ⟨hsame, nofun⟩
  simp only [hb] at h
  by_cases hc : heads.content = []
  · simp only [attend, hb, if_pos hc]
    grind
  · rw [if_neg hc] at h
    cases h

lemma attend_of_content {s : MsaState} {L : VisibleLayout} (upd : Bool)
    (h : contentLayout msa num s call = some L) :
    ∃ heads, HeadsOf msa call L heads ∧ layoutOf s.geometry call = .ok L ∧
      let result := msa.contentBranch num (msa.beforeContent num s call).1 call L heads.content
        upd
      (msa.attend num s call upd).1 = result.1 ∧
        (msa.attend num s call upd).2.isOk = result.2.isOk ∧
        ∀ run content, (msa.attend num s call upd).2 = .ok (some run) →
          run.content = some content → result.2 = .ok content := by
  unfold contentLayout at h
  rcases hb : (msa.beforeContent num s call).2 with e | found
  · rw [hb] at h
    cases h
  rcases found with _ | heads
  · rw [hb] at h
    cases h
  simp only [hb] at h
  by_cases hc : heads.content = []
  · rw [if_pos hc] at h
    cases h
  rw [if_neg hc] at h
  cases h
  obtain ⟨L, hl, hof⟩ := (msa.beforeContent_spec num s call).2 heads hb
  obtain rfl := hof.layout
  refine ⟨heads, hof, hl, ?_⟩
  simp only [attend, hb, if_neg hc]
  cases (msa.contentBranch num (msa.beforeContent num s call).1 call heads.layout heads.content
      upd).2 with
  | error e => exact ⟨rfl, rfl, nofun⟩
  | ok run =>
    refine ⟨rfl, rfl, ?_⟩
    rintro _ _ ⟨⟩ ⟨⟩
    rfl
end

include h

lemma MemosOk.of_same {s' : MsaState} (hs : s.SameMemos s') : MemosOk msa num log s' r where
  content := by rw [hs.content]; exact h.content
  pooled := by rw [hs.pooled]; exact h.pooled

omit h

def Inv (msa : MixedSparseAttention) (num : SelectionNumerics) (v : MsaVideo) : Prop :=
  MemosOk msa num v.record.log v.backend v.record

lemma Inv.attend (h : Inv msa num v) (hd : InStep msa num v (.attend call upd)) :
    Inv msa num (next msa num v (.attend call upd)) ∧
      ∀ run content, (msa.attend num v.backend call upd).2 = .ok (some run) →
        run.content = some content →
        PlanOfStep msa num ((v.backend.geometry, call) :: v.record.log) call.layerIndex
          (stepOfCall msa v.record call upd) content.plan := by
  have hmono : MemosOk msa num ((v.backend.geometry, call) :: v.record.log) v.backend v.record :=
    MemosOk.mono h (List.subset_cons_self ..)
  rcases hl : contentLayout msa num v.backend call with _ | L
  · obtain ⟨hsame, hnone⟩ := attend_of_no_content msa num upd hl
    have hkept := hmono.of_same hsame
    simp only [Inv, next, recordCall, hl]
    refine ⟨⟨hkept.content, hkept.pooled⟩, fun run content hrun hcontent => ?_⟩
    rw [hnone run hrun] at hcontent
    cases hcontent
  obtain ⟨heads, hof, hlayout, hstate, hok, hplan⟩ :=
    attend_of_content msa num upd hl
  have hbefore := hmono.of_same (msa.beforeContent_spec num v.backend call).1
  obtain ⟨hinv, hstep⟩ := hbefore.contentBranch (CallLog.has_cons _ hlayout) hof.split
    (hd call upd L rfl hl) rfl
  simp only [Inv, next, recordCall, hl, hstate, hok]
  exact ⟨⟨hinv.content, hinv.pooled⟩, fun run content hrun hcontent =>
    hstep content (hplan run content hrun hcontent)⟩

lemma inv_next (e : Event BatchTensors) (h : Inv msa num v) (hd : InStep msa num v e) :
    Inv msa num (next msa num v e) := by
  cases e with
  | newVideo => exact MemosOk.newVideo h
  | attend call upd => exact (h.attend hd).1
  | beginForward g =>
    unfold Inv next
    dsimp only
    split <;> exact ⟨h.content, h.pooled⟩

/-- A run over videos in which every step meets the condition. -/
abbrev InStepRun (msa : MixedSparseAttention) (num : SelectionNumerics) :
    List (Event BatchTensors) → MsaVideo → Prop :=
  Run (next msa num) (fun v e => Admits v e ∧ InStep msa num v e) initial

lemma inv_of_run {past : List (Event BatchTensors)} (hr : InStepRun msa num past v) : Inv msa num v :=
  hr.invariant (I := fun _ v => Inv msa num v)
    (show Inv msa num initial from ⟨LayoutCache.agree_empty, LayoutCache.agree_empty⟩)
    fun _ _ e h hok => inv_next e h hok.2

/-- In every run under the condition, the `i`-th denoising call of a chunk runs the plan of step `i`
of a ranking of its own video, and a refresh that of step 0. -/
theorem plans_step_by_step {past : List (Event BatchTensors)} (hr : InStepRun msa num past v)
    (call : SparseAttentionCall BatchTensors) (inCacheUpdate : Bool)
    (hd : InStep msa num v (.attend call inCacheUpdate)) (run : MsaRun) (content : ContentRun)
    (hrun : (msa.attend num v.backend call inCacheUpdate).2 = .ok (some run))
    (hcontent : run.content = some content) :
    PlanOfStep msa num ((v.backend.geometry, call) :: v.record.log) call.layerIndex
      (if inCacheUpdate then 0
        else min (v.record.steps call.layerIndex) (msa.config.scales.length - 1)) content.plan :=
  ((inv_of_run hr).attend hd).2 run content hrun hcontent

/-! ## Two clips in a row -/

def scaledMsa (scales : List ℚ) : MixedSparseAttention where
  config := { taxonomyPath := "taxonomy.json", blockQ := 1, blockK := 1, stepDensityScale := scales }
  taxonomy _ := some { family := .content }
  schedule := .constant
  schedule_frames := nofun
  lightforcing_set := nofun

def smallMsa : MixedSparseAttention := scaledMsa []

def smallCall (first second : ℚ) (frames : Nat) : SparseAttentionCall BatchTensors :=
  clipCall
    { batch := 1
      query := fun _ _ _ => [1]
      key := fun _ i _ => if i = 0 then [first] else [second] } 1 frames

def stateAfter (msa : MixedSparseAttention) (past : List (Event BatchTensors)) : MsaVideo :=
  past.foldr (fun e v => next msa .small v e) initial

def smallState : List (Event BatchTensors) → MsaVideo := stateAfter smallMsa

/-- Half the blocks from the second step on. -/
def twoScales : MixedSparseAttention := scaledMsa [1, 1 / 2]

def twoClips : List (Event BatchTensors) :=
  .beginForward (clipGeometry 1 1 1) :: clipChunk (smallCall 2 1) 1 ++ .newVideo ::
    clipChunk (smallCall 1 2) 2 ++ clipChunk (smallCall 1 2) 1

def clipAfterStill : List (Event BatchTensors) :=
  .beginForward (clipGeometry 1 1 1) :: clipChunk (smallCall 2 1) 2 ++ clipChunk (smallCall 2 1) 1 ++
    .newVideo :: clipChunk (smallCall 1 2) 1

def planOf (result : Except MsaError (Option MsaRun)) : Option ContentPlan :=
  match result with
  | .ok (some run) => run.content.map ContentRun.plan
  | _ => none

lemma exists_of_planOf {result : Except MsaError (Option MsaRun)} {plan : ContentPlan}
    (h : planOf result = some plan) :
    ∃ run content, result = .ok (some run) ∧ run.content = some content ∧ content.plan = plan := by
  unfold planOf at h
  split at h
  next run =>
    obtain ⟨content, hc, hp⟩ := Option.map_eq_some_iff.mp h
    exact ⟨run, content, rfl, hc, hp⟩
  · cases h

lemma inStep_of_no_content (h : contentLayout msa num v.backend call = none) :
    InStep msa num v (.attend call upd) := by
  rintro _ _ L ⟨⟩ hl
  rw [h] at hl
  cases hl

/-- Reused plans and pooled keys of the present video, and as many calls as the chunk has made. -/
lemma inStep_of_record (hplans : v.record.ranks msa call = false → v.record.rankedHere call = true)
    (hpooled : v.record.ranks msa call = true → v.record.pooled call.layerIndex = none)
    (hsteps : (v.record.callsUnder call).getD 0 = v.record.steps call.layerIndex) :
    InStep msa num v (.attend call upd) := by
  rintro _ _ L ⟨⟩ -
  refine ⟨hplans, fun hr => ?_, fun _ => by rw [hsteps]⟩
  simp [LayoutCache.get, hpooled hr]

lemma run_clipAfterStill :
    InStepRun twoScales .small clipAfterStill (stateAfter twoScales clipAfterStill) := by
  iterate 8 refine .step _ ?_ ?_
  · exact .start
  · exact ⟨rfl, nofun⟩
  · exact ⟨rfl, inStep_of_no_content (by decide +kernel)⟩
  · exact ⟨trivial, nofun⟩
  · exact ⟨rfl, nofun⟩
  · exact ⟨rfl, inStep_of_no_content (by decide +kernel)⟩
  · exact ⟨zero_le, nofun⟩
  · exact ⟨rfl, inStep_of_record (by decide +kernel) (fun _ => rfl) (by decide +kernel)⟩
  · exact ⟨le_rfl, nofun⟩

theorem second_call_plan :
    let v := stateAfter twoScales clipAfterStill
    ∃ run content,
      (twoScales.attend .small v.backend (smallCall 2 1 2) false).2 = .ok (some run) ∧
      run.content = some content ∧
      PlanOfStep twoScales .small ((v.backend.geometry, smallCall 2 1 2) :: v.record.log) 0 1
        content.plan := by
  intro v
  have hplan : planOf (twoScales.attend .small v.backend (smallCall 2 1 2) false).2 =
      some [[{ rangeStarts := [0], rangeEnds := [1], rangeCount := 1 }]] := by decide +kernel
  obtain ⟨run, content, hrun, hcontent, -⟩ := exists_of_planOf hplan
  exact ⟨run, content, hrun, hcontent, plans_step_by_step run_clipAfterStill (smallCall 2 1 2) false
    (inStep_of_record (by decide +kernel) (by decide +kernel) (by decide +kernel)) run content hrun
    hcontent⟩

lemma run_twoClips :
    Run (next smallMsa .small) Admits initial twoClips (smallState twoClips) := by
  iterate 8 refine .step _ ?_ ?_
  · exact .start
  · exact rfl
  · exact rfl
  · exact zero_le
  · exact rfl
  · exact trivial
  · exact rfl
  · exact rfl
  · exact zero_le

/-- The layout of a small call in the last of `frames` chunks. -/
def smallLayout (frames : Nat) : VisibleLayout where
  globalFrameIds := (List.range frames).map fun i => (i : Int)
  chunkOffsets := (List.range frames).map fun i => (i : Int) - (frames - 1 : Nat)
  positionalFrameIds := (List.range frames).map fun i => (i : Int)
  frameSeqlen := 1
  framesPerBlock := 1
  queryFrames := 1
  queryChunkIndex := frames - 1

def secondClip : CallLog BatchTensors :=
  [(some (clipGeometry 1 1 1), smallCall 2 1 2), (some (clipGeometry 1 1 0), smallCall 2 1 1)]

lemma has_secondClip {L : VisibleLayout} (h : secondClip.Has layer call L) :
    ∃ frames, (frames = 1 ∨ frames = 2) ∧ call = smallCall 2 1 frames ∧ L = smallLayout frames := by
  obtain ⟨-, g, hmem, hl⟩ := h
  obtain heq | hmem := List.mem_cons.mp hmem
  · cases heq
    cases hl
    exact ⟨2, .inr rfl, rfl, rfl⟩
  cases List.mem_singleton.mp hmem
  cases hl
  exact ⟨1, .inl rfl, rfl, rfl⟩

lemma rankedFrom_secondClip (h : RankedFrom smallMsa .small secondClip 0 plans) :
    plans = [[[{ rangeStarts := [0], rangeEnds := [1], rangeCount := 1 }]]] := by
  obtain ⟨s, call, L, static, content, pooled, ranking, hcall, hsplit, hpooled, hranking, rfl⟩ :=
    h
  obtain ⟨call', layout', hcall', hsignature, rfl⟩ := hpooled
  obtain ⟨frames, hframes, rfl, rfl⟩ := has_secondClip hcall
  obtain ⟨frames', hframes', rfl, rfl⟩ := has_secondClip hcall'
  have hsame : frames' = frames := by
    obtain rfl | rfl := hframes <;> obtain rfl | rfl := hframes' <;>
      first | rfl | exact absurd hsignature (by decide)
  subst hsame
  have hcontent : content = [0] := by
    have : smallMsa.splitHeads 0 0 1 = .ok (static, content) := hsplit
    cases this
    rfl
  subst hcontent
  have hplans : ∀ n ∈ [1, 2],
      ((smallMsa.rankBlocks .small (1 / 5) (smallCall 2 1 n) (smallLayout n) [0]
        (poolHistory 1 (smallCall 2 1 n) (smallLayout n))).toOption.map
          (smallMsa.stepPlans (smallLayout n))) =
        some [[[{ rangeStarts := [0], rangeEnds := [1], rangeCount := 1 }]]] := by decide +kernel
  have hn : frames' ∈ [1, 2] := by
    obtain rfl | rfl := hframes <;> decide
  have heval := hplans frames' hn
  have hranking : smallMsa.rankBlocks .small (1 / 5) (smallCall 2 1 frames')
      (smallLayout frames') [0] (poolHistory 1 (smallCall 2 1 frames') (smallLayout frames')) =
        .ok ranking := hranking
  rw [hranking] at heval
  exact Option.some.inj heval

theorem earlier_video_ranking :
    Run (next smallMsa .small) Admits initial twoClips (smallState twoClips) ∧
    Admits (smallState twoClips) (.attend (smallCall 2 1 2) false) ∧
    (smallState twoClips).record.steps 0 = 0 ∧
    ∃ run content,
      (smallMsa.attend .small (smallState twoClips).backend (smallCall 2 1 2) false).2 =
        .ok (some run) ∧
      run.content = some content ∧
      content.plan = [[{ rangeStarts := [1], rangeEnds := [2], rangeCount := 1 }]] ∧
      ∀ step, ¬ PlanOfStep smallMsa .small
        (((smallState twoClips).backend.geometry, smallCall 2 1 2) ::
          (smallState twoClips).record.log) 0 step content.plan := by
  have hplan : planOf (smallMsa.attend .small (smallState twoClips).backend
      (smallCall 2 1 2) false).2 =
        some [[{ rangeStarts := [1], rangeEnds := [2], rangeCount := 1 }]] := by decide +kernel
  obtain ⟨run, content, hrun, hcontent, heq⟩ := exists_of_planOf hplan
  refine ⟨run_twoClips, rfl, by decide +kernel, run, content, hrun, hcontent, heq, ?_⟩
  rintro step ⟨plans, hfrom, hget⟩
  rw [rankedFrom_secondClip hfrom, heq] at hget
  grind
end MsaVideo
end Sglang
