import Sglang.Lib.Run
import Sglang.Sparse.ChunkMemo

/-!
# Videos through a backend with a chunk memo

The only sign of a new video is a chunk index below the last one, so a video that stays in chunk 0
is followed by no reset.
-/

namespace Sglang
open LayoutCache
variable {τ κ β ρ : Type}

/-- With the calls of the present video, the layers it has looked up, its number, and for each layer
the videos from whose keys the stored value was computed. -/
structure MemoVideo (τ κ β : Type) where
  backend : ChunkMemo κ β
  clock : VideoClock
  log : CallLog τ
  reached : Nat → Bool
  video : Nat
  origins : Nat → List Nat

/-- Computed for a logged call of the layer, from nothing or from such a value. -/
inductive Built (m : MemoMethod τ κ β) (log : CallLog τ) (layer : Nat) : κ → β → Prop
  | cold {call : SparseAttentionCall τ} {layout : VisibleLayout} :
      log.Has layer call layout →
      Built m log layer (m.signature call layout) (m.compute none call layout)
  | warm {call : SparseAttentionCall τ} {layout : VisibleLayout} {signature : κ} {start : β} :
      log.Has layer call layout → Built m log layer signature start →
      Built m log layer (m.signature call layout) (m.compute (some start) call layout)

lemma Built.mono {m : MemoMethod τ κ β} {log log' : CallLog τ} {layer : Nat} {sig : κ}
    {val : β} (h : Built m log layer sig val) (hsub : log ⊆ log') : Built m log' layer sig val := by
  induction h with
  | cold hc => exact .cold (hc.mono hsub)
  | warm hc _ ih => exact .warm (hc.mono hsub) ih

namespace MemoVideo
variable [DecidableEq κ] (b : MemoBackend τ κ β ρ)

def initial : MemoVideo τ κ β where
  backend := .initial
  clock := .initial
  log := []
  reached _ := false
  video := 0
  origins _ := []

variable (v : MemoVideo τ κ β)

/-- The videos behind the value that a call uses: those of the stored value if the call hits it, and
if a new value starts from it. -/
def sources (call : SparseAttentionCall τ) (layout : VisibleLayout) : List Nat :=
  match v.backend.entries call.layerIndex with
  | none => [v.video]
  | some entry =>
    if entry.1 = b.signature call layout then v.origins call.layerIndex
    else v.video :: if b.warmStarts then v.origins call.layerIndex else []

def next (e : Event τ) : MemoVideo τ κ β :=
  match e with
  | .newVideo =>
    { v with clock := v.clock.next e, log := [], reached := fun _ => false, video := v.video + 1 }
  | .beginForward g => { v with backend := v.backend.beginForward g, clock := v.clock.next e }
  | .attend call _ =>
    let layout := b.reachedLayout v.backend.geometry call
    { v with
      backend := (b.attend v.backend call).1
      clock := v.clock.next e
      log := (v.backend.geometry, call) :: v.log
      reached := if layout.isSome then Function.update v.reached call.layerIndex true else v.reached
      origins := layout.elim v.origins fun layout =>
        Function.update v.origins call.layerIndex (sources b v call layout) }

/-- Chunk indices never decrease, forwards are announced, and a layer's history is constant within a
chunk. -/
def Admits (e : Event τ) : Prop :=
  v.clock.Admits e ∧ ∀ call inCacheUpdate, e = .attend call inCacheUpdate →
    ∀ g call', (some g, call') ∈ v.log → some g.queryChunkIndex = v.clock.chunk →
      call'.layerIndex = call.layerIndex → b.SameHistory call call'

variable {v}

section
variable (v : MemoVideo τ κ β) (e : Event τ)

/-- When a video first looks a layer up, nothing is stored, or only under another signature and for
a method that does not start from it. -/
def Fresh : Prop :=
  ∀ call inCacheUpdate layout, e = .attend call inCacheUpdate →
    b.reachedLayout v.backend.geometry call = some layout →
      v.reached call.layerIndex = false → ∀ entry, v.backend.entries call.layerIndex = some entry →
        entry.1 ≠ b.signature call layout ∧ b.warmStarts = false

def Quiet : Prop :=
  ∀ call inCacheUpdate layout, e = .attend call inCacheUpdate →
    b.reachedLayout v.backend.geometry call = some layout → layout.queryChunkIndex ≠ 0

/-- The value and all it was started from were computed in calls of the present video. -/
def UsesOwn (call : SparseAttentionCall τ) : Prop :=
  ∀ value r, (b.attend v.backend call).2 = some (value, r) →
    ∃ layout, b.reachedLayout v.backend.geometry call = some layout ∧
      Built b.toMemoMethod ((v.backend.geometry, call) :: v.log) call.layerIndex
        (b.signature call layout) value ∧ ∀ video ∈ sources b v call layout, video = v.video

structure DuringVideo (k : Nat) : Prop where
  last : v.backend.lastChunkIndex = k
  built : ∀ l, v.reached l = true → ∃ entry, v.backend.entries l = some entry ∧
    Built b.toMemoMethod v.log l entry.1 entry.2
  origins : ∀ l, v.reached l = true → ∀ video ∈ v.origins l, video = v.video

def Inv : Prop :=
  match v.clock.chunk with
  | none => v.reached = fun _ => false
  | some k => DuringVideo b v k
end

variable {b} {v : MemoVideo τ κ β}
variable {k : Nat} {call : SparseAttentionCall τ} {upd : Bool} {past : List (Event τ)}

lemma DuringVideo.sources_own {L : VisibleLayout} (h : DuringVideo b v k)
    (hf : Fresh b v (.attend call upd)) (hl : b.reachedLayout v.backend.geometry call = some L) :
    ∀ video ∈ sources b v call L, video = v.video := by
  have hfresh := hf call upd L rfl hl
  have hown := h.origins call.layerIndex
  unfold sources
  cases hr : v.reached call.layerIndex <;> grind

lemma DuringVideo.lookup {L : VisibleLayout} (h : DuringVideo b v k)
    (hf : Fresh b v (.attend call upd)) (hl : b.reachedLayout v.backend.geometry call = some L) :
    Built b.toMemoMethod ((v.backend.geometry, call) :: v.log) call.layerIndex
        (b.signature call L) (b.lookup v.backend call L).2 ∧
      (b.lookup v.backend call L).1 =
        { v.backend with
          entries := v.backend.entries.put call.layerIndex (b.signature call L)
            (b.lookup v.backend call L).2 } := by
  have hhas : CallLog.Has ((v.backend.geometry, call) :: v.log) call.layerIndex call L :=
    CallLog.has_cons _ (b.reachedLayout_eq_some hl).1
  have hsub : v.log ⊆ (v.backend.geometry, call) :: v.log := List.subset_cons_self _ _
  have hfresh := hf call upd L rfl hl
  obtain ⟨val, hstored, hlook⟩ | ⟨hother, hlook⟩ := b.lookup_cases v.backend call L
  · -- the stored value of this signature: the present video has stored it
    rw [hlook]
    refine ⟨?_, ?_⟩
    · rcases hr : v.reached call.layerIndex with _ | _
      · exact absurd rfl (hfresh hr _ hstored).1
      obtain ⟨ent, he, hb⟩ := h.built _ hr
      rw [hstored] at he
      cases he
      exact hb.mono hsub
    · rw [put_eq_self (get_eq_some.mpr hstored)]
  rw [hlook]
  refine ⟨?_, rfl⟩
  unfold ChunkMemo.stored
  cases hr : v.reached call.layerIndex with
  | true =>
    obtain ⟨ent, he, hb⟩ := h.built _ hr
    simp only [he, Option.map_some]
    exact .warm hhas (hb.mono hsub)
  | false =>
    rcases he : v.backend.entries call.layerIndex with _ | ent
    · exact .cold hhas
    rw [Option.map_some, b.compute_cold (hfresh hr ent he).2]
    exact .cold hhas

lemma DuringVideo.attend (h : DuringVideo b v k) (hf : Fresh b v (.attend call upd)) :
    DuringVideo b (next b v (.attend call upd)) k ∧ UsesOwn b v call := by
  unfold UsesOwn
  have hsub : v.log ⊆ (v.backend.geometry, call) :: v.log := List.subset_cons_self _ _
  rcases hl : b.reachedLayout v.backend.geometry call with _ | L
  · have hat := b.attend_of_none hl
    simp only [next, hat, hl]
    refine ⟨⟨h.last, fun l hr => ?_, h.origins⟩, nofun⟩
    obtain ⟨ent, he, hb⟩ := h.built l hr
    exact ⟨ent, he, hb.mono hsub⟩
  obtain ⟨r, hat⟩ := b.attend_of_some hl
  obtain ⟨hbuilt, hstate⟩ := h.lookup hf hl
  have hown := h.sources_own hf hl
  simp only [next, hat, hl, Option.isSome_some, if_true]
  refine ⟨⟨by rw [hstate]; exact h.last, fun l hr => ?_, fun l hr => ?_⟩, ?_⟩
  · rw [hstate]
    by_cases hlayer : l = call.layerIndex
    · subst hlayer
      exact ⟨_, put_self .., hbuilt⟩
    · simp only [Function.update_of_ne hlayer] at hr
      obtain ⟨ent, he, hb⟩ := h.built l hr
      exact ⟨ent, (put_ne _ hlayer ..).trans he, hb.mono hsub⟩
  · by_cases hlayer : l = call.layerIndex
    · subst hlayer
      simpa using hown
    · simp only [Function.update_of_ne hlayer, Option.elim_some] at hr ⊢
      exact h.origins l hr
  grind

lemma inv_next (e : Event τ) (h : Inv b v) (ha : Admits b v e) (hf : Fresh b v e) :
    Inv b (next b v e) := by
  cases e with
  | newVideo => rfl
  | attend call upd =>
    obtain ⟨k, hk⟩ := Option.isSome_iff_exists.mp ha.1
    have hnext : (next b v (.attend call upd)).clock.chunk = some k := hk
    rw [Inv, hk] at h
    rw [Inv, hnext]
    exact (h.attend hf).1
  | beginForward g => ?_
  have hclock := ha.1
  unfold VideoClock.Admits at hclock
  unfold Inv at h
  rcases hk : v.clock.chunk with _ | k
  · rw [hk] at h
    have hnot : ∀ l, v.reached l ≠ true := by simp [h]
    exact ⟨rfl, fun l hr => absurd hr (hnot l), fun l hr => absurd hr (hnot l)⟩
  rw [hk] at h hclock
  have hle : v.backend.lastChunkIndex ≤ g.queryChunkIndex := by
    rw [h.last]
    exact Int.ofNat_le.mpr hclock
  refine ⟨rfl, fun l hr => ?_, h.origins⟩
  simp only [next, ChunkMemo.beginForward_entries_of_le hle]
  exact h.built l hr

abbrev FreshRun (b : MemoBackend τ κ β ρ) : List (Event τ) → MemoVideo τ κ β → Prop :=
  Run (next b) (fun v e => Admits b v e ∧ Fresh b v e) initial

lemma inv_of_run (hr : FreshRun b past v) : Inv b v :=
  hr.invariant (I := fun _ v => Inv b v) (show Inv b initial from rfl)
    fun _ _ e h hok => inv_next e h hok.1 hok.2

lemma built_of_run (hr : FreshRun b past v)
    (ha : Admits b v (.attend call upd)) (hf : Fresh b v (.attend call upd)) : UsesOwn b v call := by
  obtain ⟨k, hk⟩ := Option.isSome_iff_exists.mp ha.1
  have hinv := inv_of_run hr
  rw [Inv, hk] at hinv
  exact (hinv.attend hf).2

/-! ## Quiet first chunks -/

lemma attend_entries (b : MemoBackend τ κ β ρ) (s : ChunkMemo κ β) (call : SparseAttentionCall τ) :
    (b.attend s call).1.geometry = s.geometry ∧ (b.attend s call).1.lastChunkIndex = s.lastChunkIndex ∧
      ∀ l, (b.attend s call).1.entries l = s.entries l ∨
        (l = call.layerIndex ∧ (b.reachedLayout s.geometry call).isSome = true) := by
  rcases hl : b.reachedLayout s.geometry call with _ | L
  · rw [b.attend_of_none hl]
    exact ⟨rfl, rfl, fun _ => .inl rfl⟩
  obtain ⟨r, hat⟩ := b.attend_of_some hl
  rw [hat]
  obtain ⟨val, -, hlook⟩ | ⟨-, hlook⟩ := b.lookup_cases s call L <;> rw [hlook]
  · exact ⟨rfl, rfl, fun _ => .inl rfl⟩
  refine ⟨rfl, rfl, fun l => ?_⟩
  by_cases hlayer : l = call.layerIndex
  · exact .inr ⟨hlayer, rfl⟩
  · exact .inl (put_ne _ hlayer ..)

variable (b)

/-- With a quiet chunk 0, only layers looked up in the present video have entries. -/
structure CleanVideo (v : MemoVideo τ κ β) (k : Nat) : Prop where
  last : v.backend.lastChunkIndex = k
  geometry : ∃ g, v.backend.geometry = some g ∧ g.queryChunkIndex = k
  unreached : ∀ l, v.reached l = false → v.backend.entries l = none
  start : k = 0 → ∀ l, v.backend.entries l = none

/-- Between videos, entries mean that the next forward clears them. -/
def Clean (v : MemoVideo τ κ β) : Prop :=
  match v.clock.chunk with
  | none => 0 < v.backend.lastChunkIndex ∨ ∀ l, v.backend.entries l = none
  | some k => CleanVideo v k

variable {b}

lemma CleanVideo.attend (h : CleanVideo v k) (hq : Quiet b v (.attend call upd)) :
    CleanVideo (next b v (.attend call upd)) k := by
  obtain ⟨hg, hlast, hentries⟩ := attend_entries b v.backend call
  -- a call that looks its value up is past chunk 0
  have hpast : (b.reachedLayout v.backend.geometry call).isSome = true → k ≠ 0 := by
    intro hs
    obtain ⟨L, hl⟩ := Option.isSome_iff_exists.mp hs
    obtain ⟨g, hgeometry, hgk⟩ := h.geometry
    have hlayout := (b.reachedLayout_eq_some hl).1
    rw [hgeometry] at hlayout
    rw [← hgk, ← queryChunkIndex_of_layoutOf hlayout]
    exact hq call upd L rfl hl
  refine ⟨hlast.trans h.last, ?_, fun l hr => ?_, fun hk l => ?_⟩
  · simpa only [next, hg] using h.geometry
  · obtain hsame | ⟨rfl, hs⟩ := hentries l
    · have hr : v.reached l = false := by
        simp only [next] at hr
        split at hr
        · by_cases hlayer : l = call.layerIndex
          · subst hlayer
            simp at hr
          · simpa only [Function.update_of_ne hlayer] using hr
        · exact hr
      exact hsame.trans (h.unreached l hr)
    · simp [next, hs] at hr
  · obtain hsame | ⟨-, hs⟩ := hentries l
    · exact hsame.trans (h.start hk l)
    · exact absurd hk (hpast hs)

lemma clean_next (e : Event τ) (h : Clean v) (ha : Admits b v e) (hq : Quiet b v e) :
    Clean (next b v e) := by
  cases e with
  | newVideo =>
    unfold Clean at h
    show 0 < v.backend.lastChunkIndex ∨ ∀ l, v.backend.entries l = none
    rcases hk : v.clock.chunk with _ | k
    · rw [hk] at h
      exact h
    rw [hk] at h
    cases k with
    | zero => exact .inr (h.start rfl)
    | succ k => exact .inl (by rw [h.last]; omega)
  | attend call upd =>
    obtain ⟨k, hk⟩ := Option.isSome_iff_exists.mp ha.1
    have hnext : (next b v (.attend call upd)).clock.chunk = some k := hk
    rw [Clean, hk] at h
    rw [Clean, hnext]
    exact h.attend hq
  | beginForward g =>
    have hclock := ha.1
    unfold VideoClock.Admits at hclock
    unfold Clean at h
    rcases hk : v.clock.chunk with _ | k
    · rw [hk] at h hclock
      have hzero : g.queryChunkIndex = 0 := hclock
      have hnone : ∀ l, (v.backend.beginForward g).entries l = none := by
        by_cases hlt : (g.queryChunkIndex : Int) < v.backend.lastChunkIndex
        · rw [ChunkMemo.beginForward_entries_of_lt hlt]
          exact fun _ => rfl
        · rw [ChunkMemo.beginForward_entries_of_le (by omega)]
          grind
      exact ⟨rfl, ⟨g, rfl, rfl⟩, fun l _ => hnone l, fun _ => hnone⟩
    rw [hk] at h hclock
    have hle : k ≤ g.queryChunkIndex := hclock
    have hentries : (v.backend.beginForward g).entries = v.backend.entries :=
      ChunkMemo.beginForward_entries_of_le (by rw [h.last]; omega)
    refine ⟨rfl, ⟨g, rfl, rfl⟩, fun l hr => ?_, fun hz l => ?_⟩ <;>
      simp only [next, hentries]
    · exact h.unreached l hr
    · exact h.start (by omega) l

lemma fresh_of_clean {e : Event τ} (h : Clean v) (ha : Admits b v e) : Fresh b v e := by
  rintro call upd L rfl - hr ent he
  obtain ⟨k, hk⟩ := Option.isSome_iff_exists.mp ha.1
  rw [Clean, hk] at h
  rw [h.unreached _ hr] at he
  cases he

lemma fresh_of_quiet (hr : Run (next b) (fun v e => Admits b v e ∧ Quiet b v e) initial past v) :
    FreshRun b past v ∧ Clean v := by
  have hstep : ∀ (past : List (Event τ)) (v : MemoVideo τ κ β) (e : Event τ), Clean v →
      Admits b v e ∧ Quiet b v e → Clean (next b v e) :=
    fun _ _ e h hok => clean_next e h hok.1 hok.2
  have hinit : Clean (initial : MemoVideo τ κ β) := .inr fun _ => rfl
  exact ⟨hr.mono (I := fun _ v => Clean v) hinit hstep fun _ _ _ h hok =>
      ⟨hok.1, fresh_of_clean h hok.1⟩,
    hr.invariant (I := fun _ v => Clean v) hinit hstep⟩

/-! ## What every value satisfies -/

lemma valid_of_run {P : κ → β → Prop}
    (hnew : ∀ start call L, b.reaches call L = true → P (b.signature call L) (b.compute start call L))
    {ok : MemoVideo τ κ β → Event τ → Prop} (hr : Run (next b) ok initial past v) {val : β} {r : ρ}
    (h : (b.attend v.backend call).2 = some (val, r)) :
    ∃ L, b.reachedLayout v.backend.geometry call = some L ∧ P (b.signature call L) val := by
  have hkept : v.backend.Holds P := by
    refine hr.invariant (I := fun _ v => v.backend.Holds P) nofun ?_
    intro _ v e hv _
    cases e with
    | newVideo => exact hv
    | beginForward g => exact hv.beginForward g
    | attend call _ => exact (b.attend_holds hnew hv call).1
  exact (b.attend_holds hnew hkept call).2 val r h
end MemoVideo
end Sglang
