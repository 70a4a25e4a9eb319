import Mathlib

/-!
# The contract of a sparse-attention backend

A backend sees one self-attention call at a time and either runs a plan or declines, in which case
the caller runs dense attention.
-/

namespace Sglang
structure ChunkGeometry where
  frameSeqlen : Nat
  framesPerBlock : Nat
  queryTokenStart : Nat
  gridHeight : Nat
  gridWidth : Nat
  deriving DecidableEq

namespace ChunkGeometry
def chunkTokens (g : ChunkGeometry) : Nat := g.frameSeqlen * g.framesPerBlock

def queryChunkIndex (g : ChunkGeometry) : Nat := g.queryTokenStart / g.chunkTokens
end ChunkGeometry

/-- Global `(token_start, length)`, in key order. -/
abbrev KeySegments := List (Int × Int)

/-- The visible key axis: one entry of each list per visible frame. -/
structure VisibleLayout where
  globalFrameIds : List Int
  chunkOffsets : List Int
  positionalFrameIds : List Int
  frameSeqlen : Nat
  framesPerBlock : Nat
  queryFrames : Nat
  queryChunkIndex : Nat
  deriving DecidableEq

namespace VisibleLayout
variable (layout : VisibleLayout)

def numFrames : Nat := layout.globalFrameIds.length

def kvLen : Nat := layout.numFrames * layout.frameSeqlen

def framesOfOffset (offset : Int) : List Bool :=
  layout.chunkOffsets.map (· == offset)

/-- The mask of the first `numSinkFrames` frames of the video. -/
def sinkFrames (numSinkFrames : Nat) : List Bool :=
  layout.globalFrameIds.map fun f => decide (f < (numSinkFrames : Int))
end VisibleLayout

def arange (lo hi : Int) : List Int := (List.range (hi - lo).toNat).map fun i => lo + (i : Int)

section
variable (frameSeqlen : Nat) (keySegments : KeySegments)

def alignedSegment (segment : Int × Int) : Bool :=
  segment.1 % frameSeqlen == 0 && segment.2 % frameSeqlen == 0

def alignedRopeStarts : Option (List Int) → Bool
  | none => true
  | some starts =>
    starts.length == keySegments.length && starts.all fun start => start % frameSeqlen == 0

def segmentFrames (starts : List Int) (keySegments : KeySegments) : List Int :=
  (starts.zip keySegments).flatMap fun (start, segment) =>
    arange (start / frameSeqlen) ((start + segment.2) / frameSeqlen)

/-- Coordinates of the visible keys; `none` if not aligned to latent frames. -/
def visibleLayout (geometry : ChunkGeometry) (queryTokens : Nat)
    (ropeStarts : Option (List Int)) : Option VisibleLayout :=
  let frameSeqlen := geometry.frameSeqlen
  if geometry.queryTokenStart % frameSeqlen == 0 && queryTokens % frameSeqlen == 0 &&
      keySegments.all (alignedSegment frameSeqlen) &&
      alignedRopeStarts frameSeqlen keySegments ropeStarts then
    let starts := keySegments.map Prod.fst
    let globalFrameIds := segmentFrames frameSeqlen starts keySegments
    some
      { globalFrameIds := globalFrameIds
        chunkOffsets := globalFrameIds.map fun f =>
          f / geometry.framesPerBlock - geometry.queryChunkIndex
        positionalFrameIds := segmentFrames frameSeqlen (ropeStarts.getD starts) keySegments
        frameSeqlen := frameSeqlen
        framesPerBlock := geometry.framesPerBlock
        queryFrames := queryTokens / frameSeqlen
        queryChunkIndex := geometry.queryChunkIndex }
  else none
end

section
variable {keySegments : KeySegments} {geometry : ChunkGeometry} {queryTokens : Nat}
  {ropeStarts : Option (List Int)} {L : VisibleLayout}

variable (h : visibleLayout keySegments geometry queryTokens ropeStarts = some L)
include h

lemma visibleLayout_queryChunkIndex : L.queryChunkIndex = geometry.queryChunkIndex := by
  simp only [visibleLayout] at h
  split at h
  · cases h; rfl
  · cases h

lemma visibleLayout_queryFrames : L.queryFrames = queryTokens / L.frameSeqlen := by
  simp only [visibleLayout] at h
  split at h
  · cases h; rfl
  · cases h
end

/-! ## Backends -/

/-- One layer's self-attention call; `keySegments` is `none` for a view without latent frames. -/
structure SparseAttentionCall (τ : Type) where
  layerIndex : Nat
  queryTokens : Nat
  kvLen : Nat
  heads : Nat
  headDim : Nat
  keySegments : Option KeySegments
  headStart : Nat
  numLocalHeads : Nat
  keySegmentRopeStarts : Option (List Int)
  tensors : τ

inductive DenseReason where
  | noGeometry
  | notMapped
  | headDim (n : Nat)
  | lengthMismatch
  | notAligned
  deriving DecidableEq

/-- Or the reason to run dense. -/
def layoutOf {τ : Type} (geometry : Option ChunkGeometry) (call : SparseAttentionCall τ) :
    Except DenseReason VisibleLayout :=
  match geometry with
  | none => .error .noGeometry
  | some g =>
    match call.keySegments with
    | none => .error .notMapped
    | some segments =>
      if call.headDim &&& (call.headDim - 1) ≠ 0 ∨ call.headDim < 16 then
        .error (.headDim call.headDim)
      else if (segments.map Prod.snd).sum ≠ call.kvLen then .error .lengthMismatch
      else
        match visibleLayout segments g call.queryTokens call.keySegmentRopeStarts with
        | none => .error .notAligned
        | some layout => .ok layout

variable {L : VisibleLayout}

lemma layoutOf_ok {τ : Type} {geo : Option ChunkGeometry} {call : SparseAttentionCall τ}
    (h : layoutOf geo call = .ok L) : ∃ g segments, geo = some g ∧ call.keySegments = some segments ∧
      visibleLayout segments g call.queryTokens call.keySegmentRopeStarts = some L := by
  unfold layoutOf at h
  split at h
  · cases h
  next g =>
    split at h
    · cases h
    next segments hs =>
      split_ifs at h
      split at h
      · cases h
      next layout' hl =>
        cases h
        exact ⟨g, segments, rfl, hs, hl⟩

lemma queryChunkIndex_of_layoutOf {τ : Type} {g : ChunkGeometry} {call : SparseAttentionCall τ}
    (h : layoutOf (some g) call = .ok L) : L.queryChunkIndex = g.queryChunkIndex := by
  obtain ⟨g', segments, hg, -, hl⟩ := layoutOf_ok h
  cases hg
  exact visibleLayout_queryChunkIndex hl

/-! ## The per-layer memo -/

def LayoutCache (κ β : Type) := Nat → Option (κ × β)

namespace LayoutCache
variable {κ β : Type} {layer : Nat} {sig : κ} {val : β}

def empty : LayoutCache κ β := fun _ => none

variable (c : LayoutCache κ β)

def get [DecidableEq κ] (layer : Nat) (signature : κ) : Option β :=
  match c layer with
  | none => none
  | some entry => if entry.1 = signature then some entry.2 else none

def put (layer : Nat) (signature : κ) (value : β) : LayoutCache κ β :=
  Function.update c layer (some (signature, value))

lemma get_eq_some [DecidableEq κ] {c : LayoutCache κ β} :
    c.get layer sig = some val ↔ c layer = some (sig, val) := by
  unfold get
  grind

@[simp] lemma put_self (layer : Nat) (sig : κ) (val : β) :
    c.put layer sig val layer = some (sig, val) :=
  Function.update_self layer _ c

lemma put_ne {other : Nat} (h : other ≠ layer) (sig : κ)
    (val : β) : c.put layer sig val other = c other :=
  Function.update_of_ne h _ c

lemma put_eq_self [DecidableEq κ] {c : LayoutCache κ β}
    (h : c.get layer sig = some val) : c.put layer sig val = c := by
  funext other
  by_cases ho : other = layer
  · subst ho
    rw [put_self, get_eq_some.mp h]
  · exact put_ne c ho sig val

def mapValues {γ : Type} (f : β → γ) (c : LayoutCache κ β) : LayoutCache κ γ :=
  fun layer => (c layer).map fun entry => (entry.1, f entry.2)

/-! ### Two memos that are kept side by side -/

def Agree {γ : Type} (R : Nat → κ → β → γ → Prop) (c : LayoutCache κ β) (d : LayoutCache κ γ) :
    Prop :=
  ∀ layer, Option.Rel (fun x y => x.1 = y.1 ∧ R layer x.1 x.2 y.2) (c layer) (d layer)

variable {γ δ : Type} {R : Nat → κ → β → γ → Prop} {c : LayoutCache κ β} {d : LayoutCache κ γ}

lemma agree_empty : Agree R empty empty := fun _ => .none

variable (h : Agree R c d)
include h

lemma Agree.get [DecidableEq κ] (layer : Nat) (sig : κ) :
    Option.Rel (R layer sig) (c.get layer sig) (d.get layer sig) := by
  unfold LayoutCache.get
  have hl := h layer
  revert hl
  generalize c layer = x
  generalize d layer = y
  rintro (⟨hk, hr⟩ | _)
  · next a b =>
    by_cases ha : a.1 = sig
    · simpa only [ha, ← hk, if_true] using Option.Rel.some (ha ▸ hr)
    · simpa only [← hk, ha, if_false] using Option.Rel.none
  · exact .none

lemma Agree.put {layer : Nat} {sig : κ} {x : β} {y : γ}
    (hr : R layer sig x y) : Agree R (c.put layer sig x) (d.put layer sig y) := by
  intro other
  by_cases ho : other = layer
  · subst ho
    simpa only [put_self] using Option.Rel.some ⟨rfl, hr⟩
  · rw [put_ne _ ho, put_ne _ ho]
    exact h other

lemma Agree.mapValues {R' : Nat → κ → β → δ → Prop} {f : γ → δ}
    (himp : ∀ layer sig x y, R layer sig x y → R' layer sig x (f y)) : Agree R' c (d.mapValues f) := by
  intro layer
  unfold LayoutCache.mapValues
  have hl := h layer
  revert hl
  generalize c layer = x
  generalize d layer = y
  rintro (⟨hk, hr⟩ | _)
  · exact .some ⟨hk, himp _ _ _ _ hr⟩
  · exact .none

lemma Agree.mono {R' : Nat → κ → β → γ → Prop}
    (himp : ∀ layer sig x y, R layer sig x y → R' layer sig x y) : Agree R' c d := by
  have hid : d.mapValues id = d := funext fun _ => Option.map_id'
  exact hid ▸ h.mapValues himp
end LayoutCache

/-! ## Videos through one backend -/

/-- What happens to a backend, and the boundary between two videos, of which it is not told. -/
inductive Event (τ : Type) where
  | newVideo
  | beginForward (geometry : ChunkGeometry)
  | attend (call : SparseAttentionCall τ) (inCacheUpdate : Bool)

/-- The chunk of the last forward, and whether later videos stayed in chunk 0. -/
structure VideoClock where
  chunk : Option Nat
  carried : Bool
  deriving DecidableEq

namespace VideoClock
def initial : VideoClock := { chunk := none, carried := false }

def next {τ : Type} (c : VideoClock) : Event τ → VideoClock
  | .newVideo =>
    { chunk := none
      carried := match c.chunk with
        | none => c.carried
        | some chunk => chunk == 0 }
  | .beginForward g => { c with chunk := some g.queryChunkIndex }
  | .attend _ _ => c

/-- Chunk indices never decrease, and a forward is announced before its layers attend. -/
def Admits {τ : Type} (c : VideoClock) : Event τ → Prop
  | .newVideo => True
  | .beginForward g => c.chunk.elim (g.queryChunkIndex = 0) (· ≤ g.queryChunkIndex)
  | .attend _ _ => c.chunk.isSome = true
end VideoClock

abbrev CallLog (τ : Type) := List (Option ChunkGeometry × SparseAttentionCall τ)

namespace CallLog
variable {τ : Type} {call : SparseAttentionCall τ} {L : VisibleLayout}

def Has (log : CallLog τ) (layer : Nat) (call : SparseAttentionCall τ) (layout : VisibleLayout) :
    Prop :=
  call.layerIndex = layer ∧ ∃ g, (g, call) ∈ log ∧ layoutOf g call = .ok layout

lemma Has.mono {log log' : CallLog τ} {layer : Nat} (h : log.Has layer call L) (hsub : log ⊆ log') :
    log'.Has layer call L := by
  obtain ⟨hl, g, hm, hg⟩ := h
  exact ⟨hl, g, hsub hm, hg⟩

lemma has_cons (log : CallLog τ) {g : Option ChunkGeometry} (h : layoutOf g call = .ok L) :
    Has ((g, call) :: log) call.layerIndex call L :=
  ⟨rfl, g, List.mem_cons_self, h⟩
end CallLog

/-- Frames of one row of `width` tokens. -/
def clipGeometry (width framesPerBlock start : Nat) : ChunkGeometry where
  frameSeqlen := width
  framesPerBlock := framesPerBlock
  queryTokenStart := start
  gridHeight := 1
  gridWidth := width

/-- A call of layer 0 with one head that sees all keys from the first on. -/
def clipCall {τ : Type} (tensors : τ) (queryTokens kvLen : Nat) : SparseAttentionCall τ where
  layerIndex := 0
  queryTokens := queryTokens
  kvLen := kvLen
  heads := 1
  headDim := 16
  keySegments := some [(0, kvLen)]
  headStart := 0
  numLocalHeads := 1
  keySegmentRopeStarts := none
  tensors := tensors

/-- The start of the last of `frames` one-token chunks and its first call. -/
def clipChunk {τ : Type} (call : Nat → SparseAttentionCall τ) (frames : Nat) : List (Event τ) :=
  [.attend (call frames) false, .beginForward (clipGeometry 1 1 (frames - 1))]

/-! ## The block list of a replicated frame pattern

A plan lists, for each head and each query tile of a frame, the token starts of the key blocks that
the block kernel reads.
-/

abbrev Rows (α : Type) := List (List (List α))

namespace Rows
variable {α β : Type}

def rows (t : Rows α) : Nat := (t.headD []).length

def width (t : Rows α) : Nat := ((t.headD []).headD []).length

def mapRows (f : List α → List β) (t : Rows α) : Rows β := t.map fun head => head.map f
end Rows

/-- Blocks of `keyTile` tokens per query tile. -/
structure BlockSparsePlan where
  starts : Rows Nat
  qTilesPerFrame : Nat
  frameSeqlen : Nat
  queryTile : Nat
  keyTile : Nat
  keptTokens : Nat
  density : ℚ
  deriving DecidableEq

def BlockSparsePlan.ofStarts (starts : Rows Nat) (qTiles frameSeqlen queryTile keyTile kvLen : Nat) :
    BlockSparsePlan where
  starts := starts
  qTilesPerFrame := qTiles
  frameSeqlen := frameSeqlen
  queryTile := queryTile
  keyTile := keyTile
  keptTokens := starts.width * keyTile
  density := (starts.width * keyTile : Nat) / kvLen

/-- Every full tile of the whole frames; the short tail of a frame is left out. -/
def wholeStarts (wholeOffsets : List Nat) (frameSeqlen keyTile : Nat) : List Nat :=
  wholeOffsets.flatMap fun offset =>
    (List.range (frameSeqlen / keyTile)).map fun tile => offset + tile * keyTile

def frameStarts (keyTile offset : Nat) (tiles : List Nat) : List Nat :=
  (tiles.insertionSort (· ≤ ·)).map fun tile => offset + tile * keyTile

/-- The tiles of a row in every frame, or its first `counts[j]` tiles in frame `j`. -/
def histStarts (histOffsets : List Nat) (histTileCounts : Option (List Nat)) (keyTile : Nat)
    (tiles : List Nat) : List Nat :=
  match histTileCounts with
  | none => histOffsets.flatMap fun offset => frameStarts keyTile offset tiles
  | some counts =>
    (histOffsets.zip counts).flatMap fun (offset, count) =>
      frameStarts keyTile offset (tiles.take count)

def buildBlockPlan (tiles : Rows Nat) (histOffsets wholeOffsets : List Nat)
    (frameSeqlen queryTile keyTile kvLen : Nat) (histTileCounts : Option (List Nat)) :
    BlockSparsePlan :=
  .ofStarts
    (tiles.mapRows fun row =>
      wholeStarts wholeOffsets frameSeqlen keyTile ++ histStarts histOffsets histTileCounts keyTile row)
    tiles.rows frameSeqlen queryTile keyTile kvLen

def buildMeasuredBlockPlan (tileStarts : Rows Nat) (wholeOffsets : List Nat)
    (frameSeqlen queryTile keyTile kvLen : Nat) : BlockSparsePlan :=
  .ofStarts
    (tileStarts.mapRows fun row =>
      (wholeStarts wholeOffsets frameSeqlen keyTile ++ row).insertionSort (· ≤ ·))
    tileStarts.rows frameSeqlen queryTile keyTile kvLen
end Sglang
