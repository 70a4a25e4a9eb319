import Sglang.Lib.Run
import Sglang.Sparse.FastAr

/-!
# FAST-AR across videos

The backend keys a stored history by the key segments and counts the calls of a layer by the chunk
index; neither names the video, and nothing is reset.
-/

namespace Sglang
open Function List

structure FastArRecord where
  log : CallLog FastArTensors
  seen : Nat → Bool
  sparse : Nat → Bool
  count : Nat → Nat

namespace FastArRecord
def empty : FastArRecord :=
  { log := [], seen := fun _ => false, sparse := fun _ => false, count := fun _ => 0 }
end FastArRecord

structure FastArVideo where
  backend : FastArState
  clock : VideoClock
  record : FastArRecord

namespace FastArVideo
variable (c : FastArConfig) (num : FastArNumerics)

def initial : FastArVideo := { backend := .initial, clock := .initial, record := .empty }

section
variable (s : FastArState) (call : SparseAttentionCall FastArTensors)

def HasHistory (layout : VisibleLayout) : Prop :=
  layoutOf s.geometry call = .ok layout ∧ call.queryTokens < call.kvLen

def hasHistory : Bool :=
  (layoutOf s.geometry call).isOk && decide (call.queryTokens < call.kvLen)

def recordCall (r : FastArRecord) (call : SparseAttentionCall FastArTensors) : FastArRecord :=
  let l := call.layerIndex
  if hasHistory s call then
    { log := (s.geometry, call) :: r.log
      seen := update r.seen l true
      sparse := update r.sparse l (r.sparse l || (fastArAttend c num s call).2.isSome)
      count := update r.count l (r.count l + 1) }
  else { r with log := (s.geometry, call) :: r.log }

def next (v : FastArVideo) (e : Event FastArTensors) : FastArVideo :=
  match e with
  | .newVideo => { v with clock := v.clock.next e, record := .empty }
  | .beginForward g =>
    { backend := v.backend.beginForward g
      clock := v.clock.next e
      record :=
        if v.clock.chunk = some g.queryChunkIndex then v.record
        else { v.record with count := fun _ => 0 } }
  | .attend call _ =>
    { backend := (fastArAttend c num v.backend call).1
      clock := v.clock.next e
      record := recordCall c num v.backend v.record call }

def SameHistory (call' : SparseAttentionCall FastArTensors) : Prop :=
  ∀ i < historyLen call, ∀ head, call'.tensors.key i head = call.tensors.key i head ∧
    call'.tensors.value i head = call.tensors.value i head
end

/-- Chunk indices never decrease, and a layer's history is constant within a chunk. -/
def Admits (v : FastArVideo) (e : Event FastArTensors) : Prop :=
  v.clock.Admits e ∧ ∀ call inCacheUpdate, e = .attend call inCacheUpdate →
    ∀ g call', (some g, call') ∈ v.record.log → some g.queryChunkIndex = v.clock.chunk →
      call'.layerIndex = call.layerIndex → SameHistory call call'

/-- A last call of an earlier video was in another chunk, a sparse one under another signature. -/
def Distinct (v : FastArVideo) (e : Event FastArTensors) : Prop :=
  ∀ call inCacheUpdate layout, e = .attend call inCacheUpdate →
    HasHistory v.backend call layout →
      (v.record.seen call.layerIndex = false → ∀ stored,
        v.backend.stepOfLayer call.layerIndex = some stored → stored.1 ≠ layout.queryChunkIndex) ∧
      (v.record.sparse call.layerIndex = false → c.denseSteps ≤ v.record.count call.layerIndex →
        ∀ entry, v.backend.history call.layerIndex = some entry → entry.1 ≠ fastArSignature call)

def BuiltFrom (log : CallLog FastArTensors) (layer : Nat) (signature : FastArSignature)
    (history : CompressedHistory) : Prop :=
  ∃ call layout, log.Has layer call layout ∧ fastArSignature call = signature ∧
    history = buildCompressedHistory c num call layout (historyLen call)

variable {c num} {v : FastArVideo}

lemma BuiltFrom.mono {log log' : CallLog FastArTensors} {layer : Nat}
    {sig : FastArSignature} {history : CompressedHistory}
    (h : BuiltFrom c num log layer sig history) (hsub : log ⊆ log') :
    BuiltFrom c num log' layer sig history := by
  obtain ⟨call, L, hc, hs, hh⟩ := h
  exact ⟨call, L, hc.mono hsub, hs, hh⟩

variable {s : FastArState} {call : SparseAttentionCall FastArTensors} {L : VisibleLayout}
   {k : Nat} {inCacheUpdate upd : Bool}

lemma hasHistory_iff : hasHistory s call = true ↔ ∃ L, HasHistory s call L := by
  unfold hasHistory HasHistory
  cases layoutOf s.geometry call <;> simp [Except.isOk, Except.toBool]

/-! ## One call -/

lemma fastArAttend_of_no_history
    (h : hasHistory s call = false) : fastArAttend c num s call = (s, none) := by
  unfold fastArAttend
  rcases hl : layoutOf s.geometry call with _ | L
  · rfl
  have hle : call.kvLen ≤ call.queryTokens := by
    by_contra hlt
    have := hasHistory_iff.mpr ⟨L, hl, not_le.mp hlt⟩
    rw [h] at this
    cases this
  exact if_pos hle

/-- A sparse call leaves the stored or a new history under its signature, for its layer only. -/
structure SparseCall (c : FastArConfig) (num : FastArNumerics) (s : FastArState)
    (call : SparseAttentionCall FastArTensors) (layout : VisibleLayout) (s' : FastArState)
    (history : CompressedHistory) : Prop where
  geometry : s'.geometry = s.geometry
  steps : s'.stepOfLayer = update s.stepOfLayer call.layerIndex
    (some (layout.queryChunkIndex, s.stepOf call.layerIndex layout.queryChunkIndex))
  others : ∀ l, l ≠ call.layerIndex → s'.history l = s.history l
  own : s'.history call.layerIndex = some (fastArSignature call, history)
  origin : s.history call.layerIndex = some (fastArSignature call, history) ∨
    history = buildCompressedHistory c num call layout (historyLen call)

lemma fastArAttend_of_history (c : FastArConfig) (num : FastArNumerics) (h : HasHistory s call L) :
    (s.stepOf call.layerIndex L.queryChunkIndex < c.denseSteps ∧
      fastArAttend c num s call = ({ s with
        stepOfLayer := update s.stepOfLayer call.layerIndex
          (some (L.queryChunkIndex, s.stepOf call.layerIndex L.queryChunkIndex)) },
        none)) ∨
      c.denseSteps ≤ s.stepOf call.layerIndex L.queryChunkIndex ∧
        ∃ s' history execution, fastArAttend c num s call = (s', some (history, execution)) ∧
          SparseCall c num s call L s' history := by
  have hle : ¬ call.kvLen ≤ call.queryTokens := not_le.mpr h.2
  simp only [fastArAttend, h.1, fastArPrepare, if_neg hle]
  by_cases hd : s.stepOf call.layerIndex L.queryChunkIndex < c.denseSteps
  · exact .inl ⟨hd, if_pos hd⟩
  rw [if_neg hd]
  refine .inr ⟨not_lt.mp hd, _, _, _, rfl, ?_⟩
  unfold compressedHistory
  cases hg : s.history.get call.layerIndex (fastArSignature call) with
  | some history =>
    have hget := LayoutCache.get_eq_some.mp hg
    exact ⟨rfl, rfl, fun _ _ => rfl, hget, .inl hget⟩
  | none =>
    exact ⟨rfl, rfl, fun l hl => LayoutCache.put_ne _ hl .., LayoutCache.put_self .., .inr rfl⟩

/-! ## The invariant -/

variable (c num)

structure DuringVideo (v : FastArVideo) (k : Nat) : Prop where
  geometry : ∃ g, v.backend.geometry = some g ∧ g.queryChunkIndex = k
  counted : ∀ l, 0 < v.record.count l → v.backend.stepOfLayer l = some (k, v.record.count l - 1)
  earlier : ∀ l, v.record.count l = 0 → v.record.seen l = true →
    ∃ stored, v.backend.stepOfLayer l = some stored ∧ stored.1 < k
  history : ∀ l, v.record.sparse l = true → ∃ entry, v.backend.history l = some entry ∧
    BuiltFrom c num v.record.log l entry.1 entry.2

def Inv (v : FastArVideo) : Prop :=
  match v.clock.chunk with
  | none => v.record = .empty
  | some k => DuringVideo c num v k

variable {c num} {e : Event FastArTensors}

lemma DuringVideo.stepOf_eq (h : DuringVideo c num v k)
    (hd : Distinct c v (.attend call upd)) (hh : HasHistory v.backend call L) :
    L.queryChunkIndex = k ∧ v.backend.stepOf call.layerIndex L.queryChunkIndex =
      v.record.count call.layerIndex := by
  have hk : L.queryChunkIndex = k := by
    obtain ⟨g, hg, hgk⟩ := h.geometry
    have := hh.1
    rw [hg] at this
    rw [queryChunkIndex_of_layoutOf this, hgk]
  refine ⟨hk, ?_⟩
  obtain ⟨hchunk, -⟩ := hd call upd L rfl hh
  unfold FastArState.stepOf
  by_cases hcount : 0 < v.record.count call.layerIndex
  · simp only [h.counted _ hcount, hk, if_true]
    omega
  have hzero : v.record.count call.layerIndex = 0 := by omega
  rw [hzero]
  rcases hs : v.backend.stepOfLayer call.layerIndex with _ | stored
  · rfl
  have hne : stored.1 ≠ L.queryChunkIndex := by
    rcases hseen : v.record.seen call.layerIndex with _ | _
    · exact hchunk hseen stored hs
    obtain ⟨stored', hs', hlt⟩ := h.earlier _ hzero hseen
    rw [hs'] at hs
    cases hs
    omega
  exact if_neg hne

/-- The invariant after a counted call that leaves a history of the present video. -/
lemma DuringVideo.after_call
    {s' : FastArState} (h : DuringVideo c num v k) (hh : hasHistory v.backend call = true)
    (hg : s'.geometry = v.backend.geometry)
    (hsteps : s'.stepOfLayer = update v.backend.stepOfLayer call.layerIndex
      (some (k, v.record.count call.layerIndex)))
    (hother : ∀ l ≠ call.layerIndex, s'.history l = v.backend.history l)
    (hown :
      (v.record.sparse call.layerIndex || (fastArAttend c num v.backend call).2.isSome) = true →
      ∃ ent, s'.history call.layerIndex = some ent ∧
        BuiltFrom c num ((v.backend.geometry, call) :: v.record.log) call.layerIndex ent.1
          ent.2) :
    DuringVideo c num
      { backend := s', clock := v.clock, record := recordCall c num v.backend v.record call } k := by
  rw [recordCall, if_pos hh]
  refine ⟨by rw [hg]; exact h.geometry, fun l hc => ?_, fun l hc hs => ?_, fun l hs => ?_⟩ <;>
    simp only [hsteps] at * <;> by_cases hl : l = call.layerIndex
  · subst hl
    simp
  · simp only [update_of_ne hl] at hc ⊢
    exact h.counted l hc
  · subst hl
    simp at hc
  · simp only [update_of_ne hl] at hc hs ⊢
    exact h.earlier l hc hs
  · subst hl
    grind
  · simp only [update_of_ne hl] at hs
    obtain ⟨ent, he, hb⟩ := h.history l hs
    exact ⟨ent, (hother l hl).trans he, hb.mono (subset_cons_self ..)⟩

/-- The invariant, a history of the present video, and dense first calls. -/
structure CallOk (c : FastArConfig) (num : FastArNumerics) (v : FastArVideo) (k : Nat)
    (call : SparseAttentionCall FastArTensors) (inCacheUpdate : Bool) : Prop where
  inv : DuringVideo c num (next c num v (.attend call inCacheUpdate)) k
  history : ∀ history execution, (fastArAttend c num v.backend call).2 = some (history, execution) →
    BuiltFrom c num ((v.backend.geometry, call) :: v.record.log) call.layerIndex
      (fastArSignature call) history
  dense : hasHistory v.backend call = true → v.record.count call.layerIndex < c.denseSteps →
    (fastArAttend c num v.backend call).2 = none

lemma DuringVideo.callOk (h : DuringVideo c num v k)
    (hd : Distinct c v (.attend call upd)) : CallOk c num v k call upd := by
  rcases hh : hasHistory v.backend call with _ | _
  · have hat : fastArAttend c num v.backend call = (v.backend, none) :=
      fastArAttend_of_no_history hh
    refine ⟨?_, fun _ _ he => ?_, fun hh' => ?_⟩
    · simp only [next, hat, recordCall, hh]
      refine ⟨h.geometry, h.counted, h.earlier, fun l hs => ?_⟩
      obtain ⟨ent, he, hb⟩ := h.history l hs
      exact ⟨ent, he, hb.mono (subset_cons_self ..)⟩
    · rw [hat] at he
      cases he
    · rw [hh] at hh'
      cases hh'
  obtain ⟨L, hlay⟩ := hasHistory_iff.mp hh
  obtain ⟨hk, hstep⟩ := h.stepOf_eq hd hlay
  obtain ⟨hlt, hat⟩ | ⟨hge, s', history, execution, hat, hcall⟩ :=
    fastArAttend_of_history c num hlay
  · rw [hstep, hk] at hat
    refine ⟨?_, fun _ _ he => ?_, fun _ _ => by rw [hat]⟩
    · simp only [next, hat]
      refine h.after_call hh rfl rfl (fun _ _ => rfl) fun hs => ?_
      rw [hat, Option.isSome_none, Bool.or_false] at hs
      obtain ⟨ent, he, hb⟩ := h.history _ hs
      exact ⟨ent, he, hb.mono (subset_cons_self ..)⟩
    · rw [hat] at he
      cases he
  have hbuilt : BuiltFrom c num ((v.backend.geometry, call) :: v.record.log) call.layerIndex
      (fastArSignature call) history := by
    obtain hstored | hnew := hcall.origin
    · -- a stored history of this signature was stored in the present video
      rcases hsp : v.record.sparse call.layerIndex with _ | _
      · have hne := (hd call upd L rfl hlay).2 hsp (hstep ▸ hge) _ hstored
        exact absurd rfl hne
      obtain ⟨ent, he, hb⟩ := h.history _ hsp
      rw [hstored] at he
      cases he
      exact hb.mono (subset_cons_self ..)
    · exact ⟨call, L, CallLog.has_cons _ hlay.1, rfl, hnew⟩
  refine ⟨?_, fun history' execution' he => ?_, fun _ hlt => ?_⟩
  · simp only [next, hat]
    refine h.after_call hh hcall.geometry ?_ hcall.others fun _ => ⟨_, hcall.own, hbuilt⟩
    rw [hcall.steps, hstep, hk]
  · rw [hat] at he
    cases he
    exact hbuilt
  · omega

lemma inv_next (e : Event FastArTensors) (h : Inv c num v) (ha : Admits v e)
    (hd : Distinct c v e) : Inv c num (next c num v e) := by
  cases e with
  | newVideo => rfl
  | attend call upd =>
    obtain ⟨k, hk⟩ := Option.isSome_iff_exists.mp ha.1
    have hnext : (next c num v (.attend call upd)).clock.chunk = some k := hk
    rw [Inv, hk] at h
    rw [Inv, hnext]
    exact (h.callOk hd).inv
  | beginForward g => ?_
  have hclock := ha.1
  unfold VideoClock.Admits at hclock
  unfold Inv at h
  rcases hk : v.clock.chunk with _ | k
  · rw [hk] at h
    simp only [next, hk, h]
    refine ⟨⟨g, rfl, rfl⟩, fun l hc => ?_, fun l _ hs => ?_, fun l hs => ?_⟩
    · simp [FastArRecord.empty] at hc
    · simp [FastArRecord.empty] at hs
    · simp [FastArRecord.empty] at hs
  rw [hk] at h hclock
  have hle : k ≤ g.queryChunkIndex := hclock
  by_cases heq : k = g.queryChunkIndex
  · simp only [next, hk, heq]
    exact ⟨⟨g, rfl, rfl⟩, heq ▸ h.counted, heq ▸ h.earlier, h.history⟩
  simp only [next, hk, Option.some.injEq, if_neg heq]
  refine ⟨⟨g, rfl, rfl⟩, fun l hc => by simp at hc, fun l _ hs => ?_, h.history⟩
  by_cases hc : 0 < v.record.count l
  · exact ⟨_, h.counted l hc, by simp only; omega⟩
  · obtain ⟨stored, hst, hlt⟩ := h.earlier l (by omega) hs
    exact ⟨stored, hst, by omega⟩

/-- A run over videos in which every step meets the condition. -/
abbrev DistinctRun (c : FastArConfig) (num : FastArNumerics) :
    List (Event FastArTensors) → FastArVideo → Prop :=
  Run (next c num) (fun v e => Admits v e ∧ Distinct c v e) initial

lemma inv_of_run {past : List (Event FastArTensors)} (hr : DistinctRun c num past v) : Inv c num v :=
  hr.invariant (I := fun _ v => Inv c num v) (show Inv c num initial from rfl)
    fun _ _ e h hok => inv_next e h hok.1 hok.2

/-- In every run under the condition, sparse calls read histories of their own video, and the first
`dense_steps` run dense. -/
theorem history_from_own_video {past : List (Event FastArTensors)} (hr : DistinctRun c num past v)
    (call : SparseAttentionCall FastArTensors) (inCacheUpdate : Bool)
    (ha : Admits v (.attend call inCacheUpdate)) (hd : Distinct c v (.attend call inCacheUpdate)) :
    (∀ history execution, (fastArAttend c num v.backend call).2 = some (history, execution) →
      BuiltFrom c num ((v.backend.geometry, call) :: v.record.log) call.layerIndex
        (fastArSignature call) history) ∧
    (hasHistory v.backend call = true → v.record.count call.layerIndex < c.denseSteps →
      (fastArAttend c num v.backend call).2 = none) := by
  obtain ⟨k, hk⟩ := Option.isSome_iff_exists.mp ha.1
  have h := inv_of_run hr
  rw [Inv, hk] at h
  exact ⟨(h.callOk hd).history, (h.callOk hd).dense⟩

lemma exists_of_mem_key {n : Nat} {keys : List (List ℚ)} {k : List ℚ}
    (hkeys : keys ∈ (buildCompressedHistory c num call L n).key) (hk : k ∈ keys) :
    ∃ i head, k = call.tensors.key i head := by
  simp only [buildCompressedHistory, mem_map] at hkeys
  grind

/-! ## Two clips in a row -/

/-- One hash bit; two keys merge only if they are equal. -/
def smallConfig : FastArConfig := { block := 1, hashBits := 1 }

def smallNumerics : FastArNumerics where
  similar _ x y := decide (x = y)
  randn _ _ _ _ _ _ := [1]

def smallCall (content : ℚ) (frames : Nat) : SparseAttentionCall FastArTensors :=
  clipCall { query := fun _ _ => [1], key := fun _ _ => [content], value := fun _ _ => [content] }
    1 frames

def twoClips : List (Event FastArTensors) :=
  .beginForward (clipGeometry 1 1 1) :: clipChunk (smallCall 2) 1 ++ .newVideo ::
    clipChunk (smallCall 1) 2 ++ clipChunk (smallCall 1) 2 ++ clipChunk (smallCall 1) 1

def smallState (past : List (Event FastArTensors)) : FastArVideo :=
  past.foldr (fun e v => next smallConfig smallNumerics v e) initial

def clipAfterStill : List (Event FastArTensors) :=
  .beginForward (clipGeometry 1 1 1) :: clipChunk (smallCall 2) 2 ++ clipChunk (smallCall 2) 1 ++
    .newVideo :: clipChunk (smallCall 1) 1

lemma admits_of_tensors
    (h : v.clock.chunk.isSome = true) (hlog : ∀ p ∈ v.record.log, p.2.tensors = call.tensors) :
    Admits v (.attend call upd) := by
  refine ⟨h, ?_⟩
  rintro _ _ ⟨⟩ g call' hmem - - i - head
  rw [hlog _ hmem]
  exact ⟨rfl, rfl⟩

lemma distinct_of_fresh
    (hs : v.backend.stepOfLayer call.layerIndex = none ∨ v.record.seen call.layerIndex = true)
    (hh : v.backend.history call.layerIndex = none) : Distinct c v (.attend call upd) := by
  rintro _ _ L ⟨⟩ -
  refine ⟨fun hseen stored hst => ?_, fun _ _ ent he => ?_⟩
  · obtain hn | ht := hs
    · rw [hn] at hst
      cases hst
    · rw [ht] at hseen
      cases hseen
  · rw [hh] at he
    cases he

lemma run_clipAfterStill :
    DistinctRun smallConfig smallNumerics clipAfterStill (smallState clipAfterStill) := by
  iterate 8 refine .step _ ?_ ?_
  · exact .start
  · exact ⟨⟨rfl, nofun⟩, nofun⟩
  · exact ⟨admits_of_tensors rfl nofun, distinct_of_fresh (.inl rfl) rfl⟩
  · exact ⟨⟨trivial, nofun⟩, nofun⟩
  · exact ⟨⟨rfl, nofun⟩, nofun⟩
  · exact ⟨admits_of_tensors rfl nofun, distinct_of_fresh (.inl rfl) rfl⟩
  · exact ⟨⟨zero_le, nofun⟩, nofun⟩
  · exact ⟨admits_of_tensors rfl (forall_mem_cons.mpr ⟨rfl, nofun⟩),
      distinct_of_fresh (.inl rfl) rfl⟩
  · exact ⟨⟨le_rfl, nofun⟩, nofun⟩

theorem second_step_history : ∃ history execution,
      (fastArAttend smallConfig smallNumerics (smallState clipAfterStill).backend
        (smallCall 2 2)).2 = some (history, execution) ∧ BuiltFrom smallConfig smallNumerics
        (((smallState clipAfterStill).backend.geometry, smallCall 2 2) ::
          (smallState clipAfterStill).record.log) 0 (fastArSignature (smallCall 2 2)) history := by
  have hsome : (fastArAttend smallConfig smallNumerics (smallState clipAfterStill).backend
      (smallCall 2 2)).2.isSome = true := by decide +kernel
  obtain ⟨⟨history, execution⟩, he⟩ := Option.isSome_iff_exists.mp hsome
  refine ⟨history, execution, he, (history_from_own_video run_clipAfterStill (smallCall 2 2) false
    (admits_of_tensors rfl ?_) (distinct_of_fresh (.inr rfl) rfl)).1 history execution he⟩
  exact forall_mem_cons.mpr ⟨rfl, forall_mem_cons.mpr ⟨rfl, nofun⟩⟩

lemma run_twoClips :
    Run (next smallConfig smallNumerics) Admits initial twoClips (smallState twoClips) := by
  iterate 10 refine .step _ ?_ ?_
  · exact .start
  · exact ⟨rfl, nofun⟩
  · exact admits_of_tensors rfl nofun
  · exact ⟨zero_le, nofun⟩
  · exact admits_of_tensors rfl (forall_mem_cons.mpr ⟨rfl, nofun⟩)
  · exact ⟨le_rfl, nofun⟩
  · exact admits_of_tensors rfl (forall_mem_cons.mpr ⟨rfl,
      forall_mem_cons.mpr ⟨rfl, nofun⟩⟩)
  · exact ⟨trivial, nofun⟩
  · exact ⟨rfl, nofun⟩
  · exact admits_of_tensors rfl nofun
  · exact ⟨zero_le, nofun⟩

/-- The first call of the second clip's second chunk is sparse, and reads the keys of the first
clip. -/
theorem earlier_video_history :
    Run (next smallConfig smallNumerics) Admits initial twoClips (smallState twoClips) ∧
    Admits (smallState twoClips) (.attend (smallCall 2 2) false) ∧
    (smallState twoClips).record.count 0 < smallConfig.denseSteps ∧
    hasHistory (smallState twoClips).backend (smallCall 2 2) = true ∧ ∃ history execution,
      (fastArAttend smallConfig smallNumerics (smallState twoClips).backend (smallCall 2 2)).2 =
        some (history, execution) ∧ history.key = [[[1]]] ∧ ¬ BuiltFrom smallConfig smallNumerics
        (((smallState twoClips).backend.geometry, smallCall 2 2) :: (smallState twoClips).record.log)
        0 (fastArSignature (smallCall 2 2)) history := by
  refine ⟨run_twoClips, admits_of_tensors rfl (forall_mem_cons.mpr ⟨rfl, nofun⟩), by decide,
    by decide +kernel, ?_⟩
  have hkey : ((fastArAttend smallConfig smallNumerics (smallState twoClips).backend
      (smallCall 2 2)).2.map fun r => r.1.key) = some [[[1]]] := by decide +kernel
  obtain ⟨⟨history, execution⟩, he, hk⟩ := Option.map_eq_some_iff.mp hkey
  refine ⟨history, execution, he, hk, ?_⟩
  rintro ⟨call, layout, ⟨-, g, hmem, -⟩, hsig, rfl⟩
  obtain heq | hmem := mem_cons.mp hmem
  · -- the present call: its keys are 2
    cases heq
    have hmem : [[1]] ∈ (buildCompressedHistory smallConfig smallNumerics (smallCall 2 2) layout
        (historyLen (smallCall 2 2))).key := hk ▸ mem_singleton_self _
    obtain ⟨i, head, hkey⟩ := exists_of_mem_key hmem (mem_singleton_self _)
    exact absurd hkey (show ([1] : List ℚ) ≠ [2] by decide)
  -- the call of chunk 0: it has no history
  obtain heq : (g, call) = (some (clipGeometry 1 1 0), smallCall 2 1) := mem_singleton.mp hmem
  cases heq
  exact absurd hsig (by decide)
end FastArVideo
end Sglang
