import Sglang.Sparse.Base

/-!
# A memo that a decreasing chunk index clears

LightForcing and SVG2 keep one value per layer under a signature of the call, and forget everything
when the chunk index of a forward is below the last one.
-/

namespace Sglang
/-- The state of such a backend; `lastChunkIndex` starts at -1. -/
structure ChunkMemo (κ β : Type) where
  geometry : Option ChunkGeometry
  entries : LayoutCache κ β
  lastChunkIndex : Int

namespace ChunkMemo
variable {κ β : Type}

def initial : ChunkMemo κ β := { geometry := none, entries := .empty, lastChunkIndex := -1 }

/-- `_on_begin_forward`: a new video restarts the chunk counter. -/
def onBeginForward (s : ChunkMemo κ β) (g : ChunkGeometry) : ChunkMemo κ β :=
  { s with
    entries := if (g.queryChunkIndex : Int) < s.lastChunkIndex then .empty else s.entries
    lastChunkIndex := g.queryChunkIndex }

/-- `begin_forward`: stamps the geometry and calls the hook. -/
def beginForward (s : ChunkMemo κ β) (g : ChunkGeometry) : ChunkMemo κ β :=
  { s with geometry := some g }.onBeginForward g

variable {s : ChunkMemo κ β} {g : ChunkGeometry}

lemma beginForward_entries_of_le
    (h : s.lastChunkIndex ≤ g.queryChunkIndex) : (s.beginForward g).entries = s.entries :=
  if_neg (Int.not_lt.mpr h)

lemma beginForward_entries_of_lt
    (h : (g.queryChunkIndex : Int) < s.lastChunkIndex) : (s.beginForward g).entries = .empty :=
  if_pos h

/-- The value that the layer has stored, whatever its signature. -/
def stored (s : ChunkMemo κ β) (layer : Nat) : Option β := (s.entries layer).map Prod.snd

/-- Every stored value satisfies `P` under its signature. -/
def Holds (P : κ → β → Prop) (s : ChunkMemo κ β) : Prop :=
  ∀ layer signature value, s.entries layer = some (signature, value) → P signature value

lemma Holds.beginForward {P : κ → β → Prop} (h : s.Holds P)
    (g : ChunkGeometry) : (s.beginForward g).Holds P := by
  intro layer sig val he
  by_cases hlt : (g.queryChunkIndex : Int) < s.lastChunkIndex
  · rw [beginForward_entries_of_lt hlt] at he
    cases he
  · rw [beginForward_entries_of_le (Int.not_lt.mp hlt)] at he
    exact h layer sig val he
end ChunkMemo

/-- The signature of a call and its value, which starts from the stored one if `warmStarts`. -/
structure MemoMethod (τ κ β : Type) where
  signature : SparseAttentionCall τ → VisibleLayout → κ
  compute : Option β → SparseAttentionCall τ → VisibleLayout → β
  warmStarts : Bool
  compute_cold : warmStarts = false → ∀ start call layout,
    compute start call layout = compute none call layout

namespace MemoMethod
variable {τ κ β : Type} [DecidableEq κ] (m : MemoMethod τ κ β)

/-- Stored, or new and stored. -/
def lookup (s : ChunkMemo κ β) (call : SparseAttentionCall τ) (layout : VisibleLayout) :
    ChunkMemo κ β × β :=
  match s.entries.get call.layerIndex (m.signature call layout) with
  | some value => (s, value)
  | none =>
    let value := m.compute (s.stored call.layerIndex) call layout
    ({ s with entries := s.entries.put call.layerIndex (m.signature call layout) value }, value)

lemma lookup_cases (s : ChunkMemo κ β) (call : SparseAttentionCall τ) (L : VisibleLayout) :
    (∃ val, s.entries call.layerIndex = some (m.signature call L, val) ∧ m.lookup s call L = (s, val)) ∨
      ((∀ ent, s.entries call.layerIndex = some ent → ent.1 ≠ m.signature call L) ∧
        let val := m.compute (s.stored call.layerIndex) call L
        m.lookup s call L =
          ({ s with entries := s.entries.put call.layerIndex (m.signature call L) val }, val)) := by
  unfold lookup
  cases hg : s.entries.get call.layerIndex (m.signature call L) with
  | some val => exact .inl ⟨val, LayoutCache.get_eq_some.mp hg, rfl⟩
  | none =>
    refine .inr ⟨?_, rfl⟩
    rintro ⟨sig, val⟩ he rfl
    rw [LayoutCache.get_eq_some.mpr he] at hg
    cases hg

lemma lookup_holds {P : κ → β → Prop} {s : ChunkMemo κ β} {call : SparseAttentionCall τ}
    {L : VisibleLayout}
    (hnew : ∀ start, P (m.signature call L) (m.compute start call L)) (h : s.Holds P) :
    P (m.signature call L) (m.lookup s call L).2 ∧ (m.lookup s call L).1.Holds P := by
  obtain ⟨val, hstored, hlook⟩ | ⟨-, hlook⟩ := m.lookup_cases s call L <;> rw [hlook]
  · exact ⟨h _ _ _ hstored, h⟩
  refine ⟨hnew _, fun layer sig val he => ?_⟩
  by_cases hlayer : layer = call.layerIndex
  · subst hlayer
    have hself := (LayoutCache.put_self s.entries call.layerIndex (m.signature call L)
      (m.compute (s.stored call.layerIndex) call L)).symm.trans he
    cases hself
    exact hnew _
  · exact h layer sig val ((LayoutCache.put_ne _ hlayer ..).symm.trans he)
end MemoMethod

/-- A method with one memo; `SameHistory` says that two calls see the same history. -/
structure MemoBackend (τ κ β ρ : Type) [DecidableEq κ] extends MemoMethod τ κ β where
  prepare : ChunkMemo κ β → SparseAttentionCall τ → VisibleLayout → ChunkMemo κ β × Option (β × ρ)
  reaches : SparseAttentionCall τ → VisibleLayout → Bool
  SameHistory : SparseAttentionCall τ → SparseAttentionCall τ → Prop
  prepare_of_away : ∀ s call layout, reaches call layout = false → prepare s call layout = (s, none)
  prepare_of_reaches : ∀ s call layout, reaches call layout = true →
    ∃ r, prepare s call layout =
      ((toMemoMethod.lookup s call layout).1, some ((toMemoMethod.lookup s call layout).2, r))

namespace MemoBackend
variable {τ κ β ρ : Type} [DecidableEq κ] (b : MemoBackend τ κ β ρ)

def attend (s : ChunkMemo κ β) (call : SparseAttentionCall τ) : ChunkMemo κ β × Option (β × ρ) :=
  match layoutOf s.geometry call with
  | .error _ => (s, none)
  | .ok layout => b.prepare s call layout

def reachedLayout (geometry : Option ChunkGeometry) (call : SparseAttentionCall τ) :
    Option VisibleLayout :=
  match layoutOf geometry call with
  | .error _ => none
  | .ok layout => if b.reaches call layout then some layout else none

variable {call : SparseAttentionCall τ} {s : ChunkMemo κ β} {L : VisibleLayout}

lemma reachedLayout_eq_some {geo : Option ChunkGeometry} (h : b.reachedLayout geo call = some L) :
    layoutOf geo call = .ok L ∧ b.reaches call L = true := by
  unfold reachedLayout at h
  split at h
  · cases h
  next layout' hl =>
    split at h
    · cases h
      exact ⟨hl, ‹_›⟩
    · cases h

lemma attend_of_none (h : b.reachedLayout s.geometry call = none) : b.attend s call = (s, none) := by
  unfold attend
  unfold reachedLayout at h
  rcases hl : layoutOf s.geometry call with _ | L
  · rfl
  rw [hl] at h
  refine b.prepare_of_away s call L ?_
  by_contra hr
  simp [hr] at h

lemma attend_of_some (h : b.reachedLayout s.geometry call = some L) :
    ∃ r, b.attend s call = ((b.lookup s call L).1, some ((b.lookup s call L).2, r)) := by
  obtain ⟨hl, hr⟩ := b.reachedLayout_eq_some h
  rw [attend, hl]
  exact b.prepare_of_reaches s call L hr

lemma attend_holds {P : κ → β → Prop} (hnew : ∀ start call L, b.reaches call L = true →
      P (b.signature call L) (b.compute start call L)) (h : s.Holds P) (call : SparseAttentionCall τ) :
    (b.attend s call).1.Holds P ∧ ∀ val r, (b.attend s call).2 = some (val, r) →
        ∃ L, b.reachedLayout s.geometry call = some L ∧ P (b.signature call L) val := by
  rcases hl : b.reachedLayout s.geometry call with _ | L
  · rw [b.attend_of_none hl]
    exact ⟨h, nofun⟩
  obtain ⟨r, hat⟩ := b.attend_of_some hl
  obtain ⟨hvalue, hkept⟩ := b.lookup_holds
    (fun start => hnew start call L (b.reachedLayout_eq_some hl).2) h
  grind
end MemoBackend
end Sglang
