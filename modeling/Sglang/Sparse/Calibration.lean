import Sglang.Lib.Run
import Sglang.Sparse.Osa

/-!
# Where the plans of Oracle Sparse Attention come from

One backend serves any number of videos.
-/

namespace Sglang
open List Function OracleSparseAttention
variable {τ : Type}

/-! ## A backend and the present video -/

/-- The last measurement of each layer in the present video, and its calls. -/
structure VideoRecord (τ : Type) where
  measured : Nat → Option (Rows ℚ)
  calls : CallLog τ

namespace VideoRecord
def empty : VideoRecord τ := { measured := fun _ => none, calls := [] }

def AttendedInChunkZero (r : VideoRecord τ) (layer : Nat) : Prop :=
  ∃ g call, (some g, call) ∈ r.calls ∧ g.queryChunkIndex = 0 ∧ call.layerIndex = layer
end VideoRecord

structure OsaVideo (τ : Type) where
  backend : OsaState
  clock : VideoClock
  record : VideoRecord τ

namespace OsaVideo
variable (osa : OracleSparseAttention) (num : OsaNumerics τ)

def initial : OsaVideo τ := { backend := .initial, clock := .initial, record := .empty }

/-- `dense_first_steps`. -/
def skipped (s : OsaState) : Bool :=
  decide (0 < osa.config.denseFirstSteps ∧ s.forwardsThisChunk < osa.config.denseFirstSteps)

def measurement (s : OsaState) (call : SparseAttentionCall τ) (inCacheUpdate : Bool) :
    Option (Rows ℚ) :=
  match layoutOf s.geometry call with
  | .error _ => none
  | .ok layout =>
    if layout.queryChunkIndex = 0 ∧ inCacheUpdate = false ∧ skipped osa s = false then
      some (osa.measured num call layout)
    else none

def recordCall (s : OsaState) (r : VideoRecord τ) (call : SparseAttentionCall τ)
    (inCacheUpdate : Bool) : VideoRecord τ where
  measured :=
    match measurement osa num s call inCacheUpdate with
    | none => r.measured
    | some mass => Function.update r.measured call.layerIndex (some mass)
  calls := (s.geometry, call) :: r.calls

/-- One event: the backend is not told of a new video, its record starts afresh. -/
def next (v : OsaVideo τ) (e : Event τ) : OsaVideo τ :=
  match e with
  | .newVideo => { v with clock := v.clock.next e, record := .empty }
  | .beginForward g => { v with backend := v.backend.beginForward g, clock := v.clock.next e }
  | .attend call inCacheUpdate =>
    { backend := (osa.attend num v.backend call inCacheUpdate).1
      clock := v.clock.next e
      record := recordCall osa num v.backend v.record call inCacheUpdate }

/-- Chunk indices start at 0 and never decrease; a layer is attended in chunk 0 first. -/
def Admits (v : OsaVideo τ) (e : Event τ) : Prop :=
  v.clock.Admits e ∧
    ∀ call inCacheUpdate, e = .attend call inCacheUpdate → v.clock.chunk ≠ some 0 →
      v.record.AttendedInChunkZero call.layerIndex

/-- Without a reset, a layer attended after chunk 0 was measured in this video. -/
def Calibrated (v : OsaVideo τ) (e : Event τ) : Prop :=
  ∀ call inCacheUpdate, e = .attend call inCacheUpdate → v.clock.carried = true →
    v.clock.chunk ≠ some 0 → (v.record.measured call.layerIndex).isSome = true
end OsaVideo

/-! ## Provenance -/

section
variable (osa : OracleSparseAttention) (num : OsaNumerics τ)

/-- The order and the retention are of the layer's last measurement in the present video. -/
def FromMeasurement (r : VideoRecord τ) (layer : Nat) (order : Rows Nat)
    (retention : Option (Rows ℚ)) : Prop :=
  ∃ mass call layout, r.measured layer = some mass ∧ r.calls.Has layer call layout ∧
    order = massOrder num (layout.frameSeqlen / osa.config.spatialTile) mass ∧
    retention = if osa.config.flatRowDense then
      some (retentionCurve (layout.frameSeqlen / osa.config.spatialTile) mass) else none

def PlanFrom (r : VideoRecord τ) (layer : Nat) (order : Rows Nat) (retention : Option (Rows ℚ))
    (key : OsaSignature) (entry : Option OsaEntry) : Prop :=
  ∃ call layout density, r.calls.Has layer call layout ∧ signature call layout = key ∧
    entry = osa.buildEntry num density layout order retention

variable {osa num} {r r' : VideoRecord τ} {layer : Nat} {retention : Option (Rows ℚ)}
  {ord : Rows Nat}

lemma FromMeasurement.mono (h : FromMeasurement osa num r layer ord retention)
    (hm : r'.measured layer = r.measured layer) (hc : r.calls ⊆ r'.calls) :
    FromMeasurement osa num r' layer ord retention := by
  obtain ⟨mass, call, L, hmass, hcall, ho, hret⟩ := h
  exact ⟨mass, call, L, hm.trans hmass, hcall.mono hc, ho, hret⟩

lemma PlanFrom.mono {key : OsaSignature}
    {entry : Option OsaEntry} (h : PlanFrom osa num r layer ord retention key entry)
    (hc : r.calls ⊆ r'.calls) : PlanFrom osa num r' layer ord retention key entry := by
  obtain ⟨call, L, density, hcall, hk, he⟩ := h
  exact ⟨call, L, density, hcall.mono hc, hk, he⟩
end

/-! ## What a call does -/

namespace OracleSparseAttention
variable {osa : OracleSparseAttention} {num : OsaNumerics τ} {s : OsaState}
  {call : SparseAttentionCall τ} {inCacheUpdate upd : Bool} {layout L : VisibleLayout}
  {entry : OsaEntry}

lemma frozenOrder_cases {layer : Nat} {ord : Rows Nat} {s' : OsaState}
    (h : osa.frozenOrder num s layer L = some (ord, s')) :
    (s.sectionOrder layer = some ord ∧ s' = s) ∨
      ∃ mass, s.sectionOrder layer = none ∧ s.sectionMass layer = some mass ∧
        ord = massOrder num (L.frameSeqlen / osa.config.spatialTile) mass ∧
        s' = { s with
          sectionOrder := update s.sectionOrder layer (some ord)
          retention :=
            if osa.config.flatRowDense then
              update s.retention layer
                (some (retentionCurve (L.frameSeqlen / osa.config.spatialTile) mass))
            else s.retention
          sectionMass := update s.sectionMass layer none } := by
  unfold frozenOrder at h
  cases ho : s.sectionOrder layer with
  | some stored =>
    grind
  | none =>
    simp only [ho, Option.map_eq_some_iff, Prod.mk.injEq] at h
    grind

lemma plannedCall_cases (osa : OracleSparseAttention) (num : OsaNumerics τ) (s : OsaState)
    (call : SparseAttentionCall τ) (L : VisibleLayout) (ord : Rows Nat) :
    (∃ decline, osa.plannedCall num s call L ord = (s, .error decline)) ∨
      (∃ cached, s.plans call.layerIndex = some (signature call L, cached) ∧
        osa.plannedCall num s call L ord = (s, entryResult cached)) ∨
      ∃ density schedule,
        let entry := osa.buildEntry num density L ord (s.retention call.layerIndex)
        osa.plannedCall num s call L ord =
          ({ s with
              plans := s.plans.put call.layerIndex (signature call L) entry
              schedule := schedule }, entryResult entry) := by
  unfold plannedCall
  by_cases hr : L.queryFrames % L.framesPerBlock ≠ 0
  · exact .inl ⟨_, if_pos hr⟩
  rw [if_neg hr]
  cases hg : s.plans.get call.layerIndex (signature call L) with
  | some cached => exact .inr (.inl ⟨cached, LayoutCache.get_eq_some.mp hg, rfl⟩)
  | none =>
    by_cases hh : ord.length ≠ call.numLocalHeads
    · exact .inl ⟨_, if_pos hh⟩
    · exact .inr (.inr ⟨_, _, if_neg hh⟩)

lemma runnable_ok {result : Except OsaDecline OsaEntry}
    (h : runnable result = .ok entry) : result = .ok entry := by
  unfold runnable at h
  split at h
  · split_ifs at h
    exact h
  · exact h

lemma entryResult_ok {cached : Option OsaEntry}
    (h : entryResult cached = .ok entry) : cached = some entry := by
  cases cached with
  | none => cases h
  | some e => cases h; rfl

lemma preparePlan_cases (num : OsaNumerics τ) (upd : Bool)
    (hreplan : osa.config.replanEachChunk = false) (hl : layoutOf s.geometry call = .ok L) :
    ((∃ decline, osa.preparePlan num s call upd L = (s, .error decline)) ∧
        OsaVideo.measurement osa num s call upd = none) ∨
      (∃ mass decline, OsaVideo.measurement osa num s call upd = some mass ∧
        osa.preparePlan num s call upd L =
          ({ s with sectionMass := update s.sectionMass call.layerIndex (some mass) }, .error decline)) ∨
      ∃ ord s', L.queryChunkIndex ≠ 0 ∧
        OsaVideo.measurement osa num s call upd = none ∧
        osa.frozenOrder num s call.layerIndex L = some (ord, s') ∧
        osa.preparePlan num s call upd L = osa.plannedCall num s' call L ord := by
  set dense := osa.config.denseFirstSteps
  simp only [OsaVideo.measurement, hl, OsaVideo.skipped, decide_eq_false_iff_not]
  unfold preparePlan
  by_cases hu : osa.config.denseCacheUpdate && upd
  · have hupd : upd = true := (Bool.and_eq_true_iff.mp hu).2
    exact .inl ⟨⟨_, if_pos hu⟩, by simp [hupd]⟩
  rw [if_neg hu]
  by_cases hf : 0 < dense ∧ upd = false ∧ s.forwardsThisChunk < dense
  · exact .inl ⟨⟨_, if_pos hf⟩, if_neg fun h => h.2.2 ⟨hf.1, hf.2.2⟩⟩
  rw [if_neg hf]
  by_cases hz : L.queryChunkIndex = 0
  · rw [if_pos hz]
    cases upd with
    | true => exact .inl ⟨⟨.calibration, by simp⟩, by simp⟩
    | false =>
      have hskip : ¬ (0 < dense ∧ s.forwardsThisChunk < dense) := fun h => hf ⟨h.1, rfl, h.2⟩
      exact .inr (.inl ⟨osa.measured num call L, .calibration, if_pos ⟨hz, rfl, hskip⟩,
        if_pos ⟨rfl, hreplan⟩⟩)
  rw [if_neg hz, if_neg (by simp [hreplan])]
  have hm : ¬ (L.queryChunkIndex = 0 ∧ upd = false ∧ ¬ (0 < dense ∧ s.forwardsThisChunk < dense)) :=
    fun h => hz h.1
  cases ho : osa.frozenOrder num s call.layerIndex L with
  | none => exact .inl ⟨⟨_, rfl⟩, if_neg hm⟩
  | some frozen => exact .inr (.inr ⟨frozen.1, frozen.2, hz, if_neg hm, rfl, rfl⟩)
end OracleSparseAttention

/-! ## The invariant -/

namespace OsaState
structure Extends (s s' : OsaState) : Prop where
  last : s'.lastChunkIndex = s.lastChunkIndex
  geometry : s'.geometry = s.geometry
  orders : ∀ l order, s.sectionOrder l = some order → s'.sectionOrder l = some order

variable {s' : OsaState}

lemma Extends.trans {s s'' : OsaState} (h : s.Extends s') (h' : s'.Extends s'') : s.Extends s'' where
  last := h'.last.trans h.last
  geometry := h'.geometry.trans h.geometry
  orders l ord ho := h'.orders l ord (h.orders l ord ho)

lemma extends_of_frozenOrder {osa : OracleSparseAttention} {num : OsaNumerics τ}
    {s : OsaState} {layer : Nat} {L : VisibleLayout} {ord : Rows Nat}
    (h : osa.frozenOrder num s layer L = some (ord, s')) : s.Extends s' := by
  obtain ⟨-, rfl⟩ | ⟨mass, ho, -, -, rfl⟩ := frozenOrder_cases h
  · exact ⟨rfl, rfl, fun _ _ ho => ho⟩
  · refine ⟨rfl, rfl, fun l other hother => ?_⟩
    grind

lemma extends_plannedCall (osa : OracleSparseAttention) (num : OsaNumerics τ) (s : OsaState)
    (call : SparseAttentionCall τ) (L : VisibleLayout) (ord : Rows Nat) :
    s.Extends (osa.plannedCall num s call L ord).1 := by
  obtain ⟨_, he⟩ | ⟨_, -, he⟩ | ⟨_, _, he⟩ := plannedCall_cases osa num s call L ord <;>
    rw [he] <;> exact ⟨rfl, rfl, fun _ _ ho => ho⟩

variable {g : ChunkGeometry}

lemma beginForward_of_le {s : OsaState} (h : s.lastChunkIndex ≤ g.queryChunkIndex) :
    ∃ n, s.beginForward g =
      { s with geometry := some g, forwardsThisChunk := n, lastChunkIndex := g.queryChunkIndex } := by
  refine ⟨if (g.queryChunkIndex : Int) ≠ s.lastChunkIndex then 0 else s.forwardsThisChunk + 1, ?_⟩
  simp only [beginForward, onBeginForward, if_neg (not_lt.mpr h)]

lemma beginForward_of_lt {s : OsaState} (h : (g.queryChunkIndex : Int) < s.lastChunkIndex) :
    s.beginForward g =
      { initial with
        geometry := some g
        schedule := s.schedule
        lastChunkIndex := g.queryChunkIndex } := by
  have hne : (g.queryChunkIndex : Int) ≠ -1 := by omega
  simp only [beginForward, onBeginForward, if_pos h, reset, initial, if_pos hne]

def NothingFrozen (s : OsaState) : Prop :=
  ∀ l, s.sectionOrder l = none ∧ s.retention l = none ∧ s.plans l = none
end OsaState

/-- What a layer stores is of the present video; before the freeze, unless not reset and not
measured. -/
structure LayerOk (osa : OracleSparseAttention) (num : OsaNumerics τ) (carried : Bool)
    (r : VideoRecord τ) (s : OsaState) (l : Nat) : Prop where
  unfrozen : s.sectionOrder l = none → s.retention l = none ∧ s.plans l = none ∧
    (carried = false ∨ (r.measured l).isSome = true → s.sectionMass l = r.measured l)
  frozen : ∀ order, s.sectionOrder l = some order →
    FromMeasurement osa num r l order (s.retention l) ∧
      ∀ key entry, s.plans l = some (key, entry) → PlanFrom osa num r l order (s.retention l) key entry

namespace LayerOk
variable {osa : OracleSparseAttention} {num : OsaNumerics τ} {carried : Bool}
  {r r' : VideoRecord τ} {s : OsaState} {l : Nat} {ord : Rows Nat}

lemma mono (h : LayerOk osa num carried r s l) (hm : r'.measured l = r.measured l)
    (hc : r.calls ⊆ r'.calls) : LayerOk osa num carried r' s l where
  unfrozen ho := by rw [hm]; exact h.unfrozen ho
  frozen ord ho := by
    obtain ⟨hf, hp⟩ := h.frozen ord ho
    exact ⟨hf.mono hm hc, fun key entry he => (hp key entry he).mono hc⟩

lemma measure (h : LayerOk osa num carried r s l) (hnone : s.sectionOrder l = none)
    (layer : Nat) (mass : Rows ℚ) (hm : r'.measured = update r.measured layer (some mass))
    (hc : r.calls ⊆ r'.calls) :
    LayerOk osa num carried r'
      { s with sectionMass := update s.sectionMass layer (some mass) } l := by
  by_cases hl : l = layer
  · subst hl
    obtain ⟨hr, hp, -⟩ := h.unfrozen hnone
    refine ⟨fun _ => ⟨hr, hp, fun _ => ?_⟩, fun ord ho => ?_⟩
    · simp [hm]
    grind
  have h' : LayerOk osa num carried r' s l := h.mono (by simp [hm, hl]) hc
  refine ⟨fun ho => ?_, h'.frozen⟩
  obtain ⟨hr, hp, hmass⟩ := h'.unfrozen ho
  exact ⟨hr, hp, fun hcar => by simp [hl, hmass hcar]⟩

variable (h : ∀ l, LayerOk osa num carried r s l)
include h

lemma freeze {layer : Nat} {call : SparseAttentionCall τ} {L : VisibleLayout} {s' : OsaState}
    (hcall : r.calls.Has layer call L) (hm : carried = true → (r.measured layer).isSome = true)
    (hf : osa.frozenOrder num s layer L = some (ord, s')) :
    (∀ l, LayerOk osa num carried r s' l) ∧ s'.sectionOrder layer = some ord := by
  obtain ⟨ho, rfl⟩ | ⟨mass, ho, hmass, hord, rfl⟩ := OracleSparseAttention.frozenOrder_cases hf
  · exact ⟨h, ho⟩
  obtain ⟨hr, hp, hown⟩ := (h layer).unfrozen ho
  have hown' : s.sectionMass layer = r.measured layer := by
    grind
  have hfrom : FromMeasurement osa num r layer ord (if osa.config.flatRowDense then
      some (retentionCurve (L.frameSeqlen / osa.config.spatialTile) mass) else none) :=
    ⟨mass, call, L, hown' ▸ hmass, hcall, hord, rfl⟩
  refine ⟨fun l => ?_, by simp⟩
  by_cases hl : l = layer
  · subst hl
    refine ⟨fun hn => by simp at hn, fun o ho' => ?_⟩
    obtain rfl : ord = o := by simpa using ho'
    refine ⟨?_, fun key entry he => ?_⟩
    · convert hfrom using 1
      split <;> simp [hr]
    · rw [show s.plans l = some (key, entry) from he] at hp
      cases hp
  have hret : (if osa.config.flatRowDense then update s.retention layer
      (some (retentionCurve (L.frameSeqlen / osa.config.spatialTile) mass))
      else s.retention) l = s.retention l := by
    split <;> simp [hl]
  refine ⟨?_, ?_⟩ <;> simp only [hret, update_of_ne hl]
  · exact (h l).unfrozen
  · exact (h l).frozen

lemma planned {call : SparseAttentionCall τ} {L : VisibleLayout}
    (hcall : r.calls.Has call.layerIndex call L) (ho : s.sectionOrder call.layerIndex = some ord) :
    (∀ l, LayerOk osa num carried r (osa.plannedCall num s call L ord).1 l) ∧
      ∀ entry, (osa.plannedCall num s call L ord).2 = .ok entry →
        PlanFrom osa num r call.layerIndex ord (s.retention call.layerIndex)
          (signature call L) (some entry) := by
  obtain ⟨decline, he⟩ | ⟨cached, hp, he⟩ | ⟨density, schedule, he⟩ :=
    OracleSparseAttention.plannedCall_cases osa num s call L ord
  · grind
  · rw [he]
    refine ⟨h, fun entry hok => ?_⟩
    obtain rfl : cached = some entry := entryResult_ok hok
    exact ((h call.layerIndex).frozen ord ho).2 _ _ hp
  rw [he]
  have hplan (entry : Option OsaEntry) (hb : entry = osa.buildEntry num density L ord
      (s.retention call.layerIndex)) : PlanFrom osa num r call.layerIndex ord
        (s.retention call.layerIndex) (signature call L) entry :=
    ⟨call, L, density, hcall, rfl, hb⟩
  refine ⟨fun l => ?_, fun entry hok => hplan _ (entryResult_ok hok).symm⟩
  by_cases hl : l = call.layerIndex
  · subst hl
    refine ⟨fun hn => ?_, fun o ho' => ?_⟩
    · grind
    obtain rfl : ord = o := by
      grind
    refine ⟨((h call.layerIndex).frozen ord ho).1, fun key entry hput => ?_⟩
    simp only [LayoutCache.put_self] at hput
    cases hput
    exact hplan _ rfl
  · refine ⟨fun hn => ?_, fun o ho' => ?_⟩ <;> simp only [LayoutCache.put_ne _ hl]
    · exact (h l).unfrozen hn
    · exact (h l).frozen o ho'
end LayerOk

namespace OsaVideo
variable (osa : OracleSparseAttention) (num : OsaNumerics τ)

structure DuringVideo (v : OsaVideo τ) (c : Nat) : Prop where
  last : v.backend.lastChunkIndex = c
  geometry : ∃ g, v.backend.geometry = some g ∧ g.queryChunkIndex = c
  unfrozen : c = 0 → ∀ l, v.backend.sectionOrder l = none
  layers : ∀ l, LayerOk osa num v.clock.carried v.record v.backend l

/-- Before a video's first forward: nothing was frozen, or a reset comes, or nothing is to be reset.
-/
structure BetweenVideos (v : OsaVideo τ) : Prop where
  record : v.record = .empty
  carried : v.clock.carried = true → v.backend.lastChunkIndex = 0 ∧ v.backend.NothingFrozen
  fresh : v.clock.carried = false → 1 ≤ v.backend.lastChunkIndex ∨
    v.backend.lastChunkIndex = -1 ∧ v.backend.NothingFrozen ∧ ∀ l, v.backend.sectionMass l = none

def Inv (v : OsaVideo τ) : Prop :=
  match v.clock.chunk with
  | none => BetweenVideos v
  | some c => DuringVideo osa num v c

variable {osa num} {v : OsaVideo τ}

lemma inv_initial : Inv osa num (initial : OsaVideo τ) :=
  show BetweenVideos initial from
    { record := rfl
      carried := nofun
      fresh := fun _ => .inr ⟨rfl, fun _ => ⟨rfl, rfl, rfl⟩, fun _ => rfl⟩ }

lemma DuringVideo.nothingFrozen (h : DuringVideo osa num v 0) : v.backend.NothingFrozen := by
  intro l
  have ho := h.unfrozen rfl l
  obtain ⟨hr, hp, -⟩ := (h.layers l).unfrozen ho
  exact ⟨ho, hr, hp⟩

lemma inv_newVideo (h : Inv osa num v) : Inv osa num (next osa num v .newVideo) := by
  unfold Inv at h
  rcases hc : v.clock.chunk with _ | c
  · rw [hc] at h
    refine ⟨rfl, ?_, ?_⟩ <;> simp only [next, VideoClock.next, hc]
    · exact h.carried
    · exact h.fresh
  rw [hc] at h
  refine ⟨rfl, ?_, ?_⟩ <;> simp only [next, VideoClock.next, hc]
  · intro h0
    have : c = 0 := by simpa using h0
    subst this
    exact ⟨h.last, h.nothingFrozen⟩
  intro h0
  have : c ≠ 0 := by simpa using h0
  have := h.last
  exact .inl (by omega)

lemma inv_beginForward {g : ChunkGeometry} (h : Inv osa num v)
    (ha : v.clock.Admits (.beginForward g : Event τ)) :
    Inv osa num (next osa num v (.beginForward g)) := by
  unfold Inv at h
  unfold VideoClock.Admits at ha
  rcases hc : v.clock.chunk with _ | c
  swap
  · rw [hc] at h ha
    have hle : v.backend.lastChunkIndex ≤ g.queryChunkIndex := by
      rw [h.last]; exact Int.ofNat_le.mpr ha
    obtain ⟨n, hb⟩ := OsaState.beginForward_of_le hle
    simp only [next, hb]
    refine ⟨rfl, ⟨g, rfl, rfl⟩, fun h0 => h.unfrozen ?_, fun l => ?_⟩
    · exact Nat.le_zero.mp (h0 ▸ ha)
    · exact ⟨(h.layers l).unfrozen, (h.layers l).frozen⟩
  rw [hc] at h ha
  have hzero : g.queryChunkIndex = 0 := ha
  by_cases hreset : 1 ≤ v.backend.lastChunkIndex
  · -- the chunk index decreases, nothing of the earlier videos stays
    simp only [next, OsaState.beginForward_of_lt (show (g.queryChunkIndex : Int) <
      v.backend.lastChunkIndex by omega), h.record]
    refine ⟨rfl, ⟨g, rfl, rfl⟩, fun _ _ => rfl, fun l => ⟨fun _ => ⟨rfl, rfl, fun _ => rfl⟩, ?_⟩⟩
    intro ord ho
    cases ho
  have hlast : v.backend.lastChunkIndex ≤ g.queryChunkIndex := by omega
  obtain ⟨hfrozen, hmass⟩ : v.backend.NothingFrozen ∧
      (v.clock.carried = false → ∀ l, v.backend.sectionMass l = none) := by
    cases hcar : v.clock.carried with
    | true => exact ⟨(h.carried hcar).2, nofun⟩
    | false =>
      obtain hl | ⟨-, hf, hm⟩ := h.fresh hcar
      · exact absurd hl hreset
      · exact ⟨hf, fun _ => hm⟩
  obtain ⟨n, hb⟩ := OsaState.beginForward_of_le hlast
  simp only [next, hb, h.record]
  refine ⟨rfl, ⟨g, rfl, rfl⟩, fun _ l => (hfrozen l).1, fun l => ⟨fun _ => ?_, ?_⟩⟩
  · refine ⟨(hfrozen l).2.1, (hfrozen l).2.2, ?_⟩
    rintro (hcar | hm)
    · exact hmass hcar l
    · cases hm
  · intro ord ho
    rw [(hfrozen l).1] at ho
    cases ho

variable {call : SparseAttentionCall τ} {upd : Bool} {c : Nat} {past : List (Event τ)}

lemma recordCall_measured (h : measurement osa num v.backend call upd = none) :
    (recordCall osa num v.backend v.record call upd).measured = v.record.measured := by
  simp only [recordCall, h]

/-- The invariant, the earlier frozen orders, and a plan of the present video. -/
structure AttendOk (osa : OracleSparseAttention) (num : OsaNumerics τ) (v : OsaVideo τ) (c : Nat)
    (call : SparseAttentionCall τ) (inCacheUpdate : Bool) : Prop where
  inv : DuringVideo osa num (next osa num v (.attend call inCacheUpdate)) c
  orders : ∀ l order, v.backend.sectionOrder l = some order →
    (osa.attend num v.backend call inCacheUpdate).1.sectionOrder l = some order
  plan : ∀ entry, (osa.attend num v.backend call inCacheUpdate).2 = .ok entry →
    ∃ layout order retention, layoutOf v.backend.geometry call = .ok layout ∧
      FromMeasurement osa num (recordCall osa num v.backend v.record call inCacheUpdate)
        call.layerIndex order retention ∧
      PlanFrom osa num (recordCall osa num v.backend v.record call inCacheUpdate)
        call.layerIndex order retention (signature call layout) (some entry)

lemma DuringVideo.attendOk_of_same {decline : OsaDecline} (h : DuringVideo osa num v c)
    (hs : osa.attend num v.backend call upd = (v.backend, .error decline))
    (hm : measurement osa num v.backend call upd = none) : AttendOk osa num v c call upd where
  inv := by
    simp only [next, hs]
    refine ⟨h.last, h.geometry, h.unfrozen, fun l => (h.layers l).mono ?_ ?_⟩
    · rw [recordCall_measured hm]
    · exact subset_cons_self _ _
  orders l ord ho := by rw [hs]; exact ho
  plan entry he := by rw [hs] at he; cases he

section
variable (hreplan : osa.config.replanEachChunk = false)
include hreplan

lemma DuringVideo.attendOk (hc : v.clock.chunk = some c)
    (hcal : Calibrated v (.attend call upd)) (h : DuringVideo osa num v c) :
    AttendOk osa num v c call upd := by
  set rec := recordCall osa num v.backend v.record call upd
  rcases hl : layoutOf v.backend.geometry call with reason | L
  · have hat : osa.attend num v.backend call upd =
        (v.backend, .error (.layout reason)) := by simp only [attend, hl]
    exact h.attendOk_of_same hat (by simp only [measurement, hl])
  have hat : osa.attend num v.backend call upd =
      ((osa.preparePlan num v.backend call upd L).1,
        runnable (osa.preparePlan num v.backend call upd L).2) := by
    simp only [attend, hl]
  have hchunk : L.queryChunkIndex = c := by
    obtain ⟨g, hg, hgc⟩ := h.geometry
    rw [hg] at hl
    rw [queryChunkIndex_of_layoutOf hl, hgc]
  have hsub : v.record.calls ⊆ rec.calls :=
    subset_cons_self _ _
  obtain ⟨⟨decline, hp⟩, hm⟩ | ⟨mass, decline, hm, hp⟩ | ⟨ord, s', hz, hm, hf, hp⟩ :=
    preparePlan_cases num upd hreplan hl
  · rw [hp] at hat
    exact h.attendOk_of_same hat hm
  · -- a measurement: chunk 0, so the layer is not frozen
    have hzero : c = 0 := by
      simp only [measurement, hl] at hm
      split_ifs at hm with hif
      exact hchunk ▸ hif.1
    rw [hp] at hat
    refine ⟨?_, fun l ord ho => ?_, fun entry he => ?_⟩
    · simp only [next, hat]
      refine ⟨h.last, h.geometry, h.unfrozen, fun l => ?_⟩
      exact (h.layers l).measure (h.unfrozen hzero l) _ mass (by simp only [recordCall, hm]) hsub
    · rw [hat]; exact ho
    · rw [hat] at he; cases he
  have hne : c ≠ 0 := hchunk ▸ hz
  have hcall : rec.calls.Has call.layerIndex call L := CallLog.has_cons v.record.calls hl
  have hmeas := recordCall_measured (v := v) hm
  have hlayers : ∀ l, LayerOk osa num v.clock.carried rec v.backend l :=
    fun l => (h.layers l).mono (by rw [hmeas]) hsub
  obtain ⟨hfrozen, ho⟩ := LayerOk.freeze hlayers hcall (fun hcar => by
    rw [hmeas]
    exact hcal call upd rfl hcar (by simp [hc, hne])) hf
  obtain ⟨hplanned, hentry⟩ := LayerOk.planned hfrozen hcall ho
  rw [hp] at hat
  have hext := (OsaState.extends_of_frozenOrder hf).trans
    (OsaState.extends_plannedCall osa num s' call L ord)
  refine ⟨?_, fun l o => ?_, fun entry he => ?_⟩
  · simp only [next, hat]
    refine ⟨hext.last.trans h.last, ?_, fun h0 => absurd h0 hne, hplanned⟩
    rw [hext.geometry]
    exact h.geometry
  · rw [hat]
    exact hext.orders l o
  · rw [hat] at he
    exact ⟨L, ord, _, hl, ((hfrozen _).frozen ord ho).1, hentry entry (runnable_ok he)⟩

lemma inv_attend (h : Inv osa num v)
    (ha : Admits v (.attend call upd)) (hcal : Calibrated v (.attend call upd)) :
    ∃ c, v.clock.chunk = some c ∧ AttendOk osa num v c call upd := by
  obtain ⟨c, hc⟩ := Option.isSome_iff_exists.mp ha.1
  rw [Inv, hc] at h
  exact ⟨c, hc, h.attendOk hreplan hc hcal⟩

lemma inv_next (e : Event τ) (h : Inv osa num v) (ha : Admits v e) (hcal : Calibrated v e) :
    Inv osa num (next osa num v e) := by
  cases e with
  | newVideo => exact inv_newVideo h
  | beginForward g => exact inv_beginForward h ha.1
  | attend call upd =>
    obtain ⟨c, hc, hok⟩ := inv_attend hreplan h ha hcal
    have hnext : (next osa num v (.attend call upd)).clock.chunk = some c := hc
    rw [Inv, hnext]
    exact hok.inv
end

abbrev CalibratedRun (osa : OracleSparseAttention) (num : OsaNumerics τ) :
    List (Event τ) → OsaVideo τ → Prop :=
  Run (next osa num) (fun v e => Admits v e ∧ Calibrated v e) initial

section
variable (hreplan : osa.config.replanEachChunk = false) (hr : CalibratedRun osa num past v)
include hreplan hr

lemma inv_of_run : Inv osa num v :=
  hr.invariant (I := fun _ v => Inv osa num v) inv_initial
    fun _ _ e h hok => inv_next hreplan e h hok.1 hok.2

lemma layers_of_run (hc : v.clock.chunk = some c) (l : Nat) :
    LayerOk osa num v.clock.carried v.record v.backend l := by
  have h := inv_of_run hreplan hr
  rw [Inv, hc] at h
  exact h.layers l

lemma sectionOrder_next {e : Event τ} {l : Nat} {ord : Rows Nat}
    (hc : v.clock.chunk.isSome = true) (he : e ≠ .newVideo) (ha : Admits v e)
    (hcal : Calibrated v e) (ho : v.backend.sectionOrder l = some ord) :
    (next osa num v e).backend.sectionOrder l = some ord := by
  have h := inv_of_run hreplan hr
  cases e with
  | newVideo => exact absurd rfl he
  | beginForward g =>
    obtain ⟨c, hc⟩ := Option.isSome_iff_exists.mp hc
    have hle : c ≤ g.queryChunkIndex := by
      have := ha.1
      rwa [VideoClock.Admits, hc] at this
    rw [Inv, hc] at h
    have hlast : v.backend.lastChunkIndex ≤ g.queryChunkIndex := by
      rw [h.last]; exact Int.ofNat_le.mpr hle
    obtain ⟨n, hb⟩ := OsaState.beginForward_of_le hlast
    simp only [next, hb]
    exact ho
  | attend call upd =>
    obtain ⟨c, -, hok⟩ := inv_attend hreplan h ha hcal
    exact hok.orders l ord ho
end

/-- In every run under the condition, plans come from the layer's last measurement in their own
video, and a frozen order stays until the video ends. -/
theorem plans_from_own_video {past : List (Event τ)}
    (hreplan : osa.config.replanEachChunk = false) (hr : CalibratedRun osa num past v) :
    (∀ call inCacheUpdate entry, Admits v (.attend call inCacheUpdate) →
      Calibrated v (.attend call inCacheUpdate) →
      (osa.attend num v.backend call inCacheUpdate).2 = .ok entry →
      ∃ layout order retention, layoutOf v.backend.geometry call = .ok layout ∧
        let record := (next osa num v (.attend call inCacheUpdate)).record
        FromMeasurement osa num record call.layerIndex order retention ∧
        PlanFrom osa num record call.layerIndex order retention (signature call layout) (some entry)) ∧
    (v.clock.chunk.isSome = true → ∀ l,
      (v.backend.sectionOrder l = none → v.backend.retention l = none ∧ v.backend.plans l = none) ∧
      ∀ order, v.backend.sectionOrder l = some order →
        FromMeasurement osa num v.record l order (v.backend.retention l) ∧
        ∀ key entry, v.backend.plans l = some (key, entry) →
          PlanFrom osa num v.record l order (v.backend.retention l) key entry) ∧
    (v.clock.chunk.isSome = true → ∀ e l order, e ≠ .newVideo → Admits v e → Calibrated v e →
      v.backend.sectionOrder l = some order →
      (next osa num v e).backend.sectionOrder l = some order) := by
  refine ⟨fun call inCacheUpdate entry ha hcal he => ?_, fun hc l => ?_, ?_⟩
  · obtain ⟨c, -, hok⟩ := inv_attend hreplan (inv_of_run hreplan hr) ha hcal
    exact hok.plan entry he
  · obtain ⟨c, hc⟩ := Option.isSome_iff_exists.mp hc
    have hl := layers_of_run hreplan hr hc l
    exact ⟨fun ho => ⟨(hl.unfrozen ho).1, (hl.unfrozen ho).2.1⟩, hl.frozen⟩
  · exact fun hc e l order he ha hcal ho => sectionOrder_next hreplan hr hc he ha hcal ho
end OsaVideo

/-! ## A video that the backend takes for the one before -/

def Argsort.stable (r : ℚ → ℚ → Prop) [DecidableRel r] [Std.Total r] [IsTrans ℚ r] : Argsort r where
  toFun xs := (range xs.length).insertionSort fun i j => r (xs.getD i 0) (xs.getD j 0)
  perm xs := perm_insertionSort _ _
  sorted xs := by
    let byValue (i j : Nat) : Prop := r (xs.getD i 0) (xs.getD j 0)
    have : Std.Total byValue := ⟨fun _ _ => Std.Total.total _ _⟩
    have : IsTrans Nat byValue := ⟨fun _ _ _ => IsTrans.trans _ _ _⟩
    rw [pairwise_map]
    exact pairwise_insertionSort byValue _

namespace OsaVideo
/-- Half of the keys, one token per tile, no frame kept whole. -/
def smallOsa : OracleSparseAttention where
  config :=
    { density := some (1 / 2)
      keepOwnChunkFull := false
      keepSinkFull := false
      keepRecentFramesFull := false
      spatialTile := 1
      queryTile := 1
      calibrationQueryStride := 1 }
  density := 1 / 2
  density_pos := by norm_num
  density_le_one := by norm_num
  schedule_frames := fun h => by cases h
  replan_alone := nofun

def smallNumerics : OsaNumerics Unit where
  probs _ _ _ k := if k = 0 then 1 else 0
  descending := .stable _
  ascending := .stable _
  invSqrt _ := 1

def smallCall (frames : Nat) : SparseAttentionCall Unit := clipCall () 2 (2 * frames)

def smallGeometry (chunk : Nat) : ChunkGeometry := clipGeometry 2 1 (2 * chunk)

def smallEntry : OsaEntry :=
  .single
    { starts := [[[0, 2], [0, 2]]]
      qTilesPerFrame := 2
      frameSeqlen := 2
      queryTile := 1
      keyTile := 1
      keptTokens := 2
      density := 1 / 2 }
    none

def clipAfterClip : List (Event Unit) :=
  [.beginForward (smallGeometry 1), .attend (smallCall 1) true, .attend (smallCall 1) false,
    .beginForward (smallGeometry 0), .newVideo, .attend (smallCall 1) false,
    .beginForward (smallGeometry 0)]

def imageAfterClip : List (Event Unit) :=
  [.beginForward (smallGeometry 1), .attend (smallCall 1) true, .beginForward (smallGeometry 0),
    .newVideo, .attend (smallCall 1) false, .beginForward (smallGeometry 0)]

def smallState (past : List (Event Unit)) : OsaVideo Unit :=
  past.foldr (fun e v => next smallOsa smallNumerics v e) initial

variable {v : OsaVideo τ} {e : Event τ}

lemma admits_chunk_zero {call : SparseAttentionCall τ} {upd : Bool}
    (h : v.clock.chunk = some 0) : Admits v (.attend call upd) :=
  ⟨by simp [VideoClock.Admits, h], fun _ _ _ hne => absurd h hne⟩

lemma calibrated_chunk_zero (h : v.clock.chunk = some 0) : Calibrated v e :=
  fun _ _ _ _ hne => absurd h hne

lemma run_clipAfterClip :
    CalibratedRun smallOsa smallNumerics clipAfterClip (smallState clipAfterClip) := by
  iterate 7 refine .step _ ?_ ?_
  · exact .start
  · exact ⟨⟨rfl, nofun⟩, nofun⟩
  · exact ⟨admits_chunk_zero rfl, calibrated_chunk_zero rfl⟩
  · exact ⟨⟨trivial, nofun⟩, nofun⟩
  · exact ⟨⟨rfl, nofun⟩, nofun⟩
  · exact ⟨admits_chunk_zero rfl, calibrated_chunk_zero rfl⟩
  · exact ⟨admits_chunk_zero rfl, calibrated_chunk_zero rfl⟩
  · exact ⟨⟨zero_le, nofun⟩, nofun⟩

lemma run_imageAfterClip :
    Run (next smallOsa smallNumerics) Admits initial imageAfterClip (smallState imageAfterClip) := by
  iterate 6 refine .step _ ?_ ?_
  · exact .start
  · exact ⟨rfl, nofun⟩
  · exact admits_chunk_zero rfl
  · exact ⟨trivial, nofun⟩
  · exact ⟨rfl, nofun⟩
  · exact admits_chunk_zero rfl
  · exact ⟨zero_le, nofun⟩

theorem second_clip_plan :
    (smallOsa.attend smallNumerics (smallState clipAfterClip).backend (smallCall 2) false).2 =
      .ok smallEntry ∧
    ∃ layout order retention,
      layoutOf (smallState clipAfterClip).backend.geometry (smallCall 2) = .ok layout ∧
      let record :=
        (next smallOsa smallNumerics (smallState clipAfterClip) (.attend (smallCall 2) false)).record
      FromMeasurement smallOsa smallNumerics record 0 order retention ∧
      PlanFrom smallOsa smallNumerics record 0 order retention (signature (smallCall 2) layout)
        (some smallEntry) := by
  have hplan : (smallOsa.attend smallNumerics (smallState clipAfterClip).backend (smallCall 2)
      false).2 = .ok smallEntry := by decide +kernel
  refine ⟨hplan, (plans_from_own_video rfl run_clipAfterClip).1 (smallCall 2) false smallEntry
    ⟨rfl, ?_⟩ ?_ hplan⟩
  · rintro call inCacheUpdate ⟨⟩ -
    exact ⟨smallGeometry 0, smallCall 1, mem_cons_self, rfl, rfl⟩
  · rintro call inCacheUpdate ⟨⟩ - -
    rfl

theorem earlier_video_plans : smallOsa.config.replanEachChunk = false ∧
    Run (next smallOsa smallNumerics) Admits initial imageAfterClip (smallState imageAfterClip) ∧
    Admits (smallState imageAfterClip) (.attend (smallCall 2) false) ∧
    (smallOsa.attend smallNumerics (smallState imageAfterClip).backend (smallCall 2) false).2 =
      .ok smallEntry ∧ ¬ ∃ order retention, FromMeasurement smallOsa smallNumerics
      (next smallOsa smallNumerics (smallState imageAfterClip) (.attend (smallCall 2) false)).record
      0 order retention := by
  refine ⟨rfl, run_imageAfterClip, ⟨rfl, ?_⟩, by decide +kernel, ?_⟩
  · rintro call inCacheUpdate ⟨⟩ -
    exact ⟨smallGeometry 0, smallCall 1, mem_cons_self, rfl, rfl⟩
  rintro ⟨order, retention, mass, call, layout, hmass, -⟩
  cases hmass
end OsaVideo
end Sglang
