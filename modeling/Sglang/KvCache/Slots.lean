import Sglang.KvCache.Cache
import Sglang.Lib.Run

/-!
# Which token a cache slot holds

The cache without a global or a pinned sink.
-/

namespace Sglang
open Tensor

namespace UpdateCall
variable {α : Type}

section
variable (a : UpdateCall α) (heads : Nat)

/-- The heads of a cache with `heads` heads that the call writes. -/
def headSliceFor : HeadSlice :=
  if heads = a.kv.heads then none else some (a.cacheHeadStart.getD 0, a.kv.heads)

/-- A head slice inside the cache, given when the head counts differ, and no negative recent window.
-/
structure ValidFor : Prop where
  headStart : heads ≠ a.kv.heads → ∃ s, a.cacheHeadStart = some s ∧ s + a.kv.heads ≤ heads
  recent : ∀ r, a.recentWindowTokens = some r → 0 ≤ r
  start_nonneg : 0 ≤ a.currentChunkStart

/-- The K/V that the call writes for token `t` in head `h`. -/
def written (h : Nat) (t : Int) : Option α :=
  if (a.headSliceFor heads).Has h ∧ a.currentChunkStart ≤ t ∧ t < a.currentChunkEnd then
    a.kv.cell (h - (a.headSliceFor heads).first) (t - a.currentChunkStart).toNat
  else none
end

variable {a : UpdateCall α} {heads h : Nat}

lemma head_lt (hlt : h < heads) (hh : (a.headSliceFor heads).Has h) :
    h - (a.headSliceFor heads).first < a.kv.heads := by
  by_cases he : heads = a.kv.heads
  · simp only [HeadSlice.first]; omega
  · simp only [headSliceFor, he, if_false] at hh ⊢
    obtain ⟨h1, h2⟩ := hh
    simp only [HeadSlice.first]; omega

lemma exists_written {t : Int} (hlt : h < heads)
    (hh : (a.headSliceFor heads).Has h) (h1 : a.currentChunkStart ≤ t)
    (h2 : t < a.currentChunkEnd) : ∃ x, a.written heads h t = some x := by
  unfold written
  rw [if_pos ⟨hh, h1, h2⟩]
  apply exists_cell (head_lt hlt hh)
  simp only [currentChunkEnd, numNewTokens] at h2
  omega

lemma written_eq_none {t : Int}
    (ht : t < a.currentChunkStart ∨ a.currentChunkEnd ≤ t) : a.written heads h t = none := by
  unfold written
  rw [if_neg (by omega)]

lemma start_le_end (a : UpdateCall α) : a.currentChunkStart ≤ a.currentChunkEnd := by
  simp only [currentChunkEnd, numNewTokens]; omega
end UpdateCall

/-- The K/V most recently written for token `t` in head `h`. -/
def lastWritten {α : Type} (heads : Nat) : List (UpdateCall α) → Nat → Int → Option α
  | [], _, _ => none
  | a :: past, h, t => (a.written heads h t).or (lastWritten heads past h t)

def slotToken (sink shift : Int) (i : Nat) : Int := if (i : Int) < sink then i else i + shift

namespace CausalSelfAttentionKVCache
variable {α : Type}

section
variable (c : CausalSelfAttentionKVCache α) (a : UpdateCall α)

/-- A cache without a global or a pinned sink, whose host mirrors agree with the cursors. -/
structure Plain : Prop where
  noGlobalSink : c.globalSinkTokens = 0
  noPinnedSink : c.pinnedLen = 0
  globalMirror : c.globalEndIndexInt = none ∨ c.globalEndIndexInt = some c.globalEndIndex
  localMirror : c.localEndIndexInt = none ∨ c.localEndIndexInt = some c.localEndIndex

def shift : Int := c.globalEndIndex - c.localEndIndex

def shiftAfter : Int :=
  if a.currentChunkEnd ≤ c.globalEndIndex ∨ c.allowGrowth then c.shift
  else c.shift + max 0 (c.localEndIndex + (a.currentChunkEnd - c.globalEndIndex) - c.cacheSize)

/-- The chunk starts at or before the global end, and past the sink and what was evicted. -/
structure WellPlaced : Prop where
  valid : a.ValidFor c.kv.heads
  start_le : a.currentChunkStart ≤ c.globalEndIndex
  clear : c.shiftAfter a = 0 ∨ c.sinkTokens + c.shiftAfter a ≤ a.currentChunkStart

/-- Ordered cursors; full once it has evicted; a growing cache never evicts. -/
structure Filled : Prop where
  nonneg : 0 ≤ c.localEndIndex
  fits : c.localEndIndex ≤ c.cacheSize
  ordered : c.localEndIndex ≤ c.globalEndIndex
  full : c.localEndIndex < c.globalEndIndex → c.localEndIndex = c.cacheSize
  grown : c.allowGrowth = true → c.globalEndIndex = c.localEndIndex

def SlotsHold (past : List (UpdateCall α)) (h : Nat) : Prop :=
  ∀ i : Nat, (i : Int) < c.localEndIndex →
    ∃ x, lastWritten c.kv.heads past h (slotToken c.sinkTokens c.shift i) = some x ∧
      c.kv.cell h i = some x
end

section
variable {c : CausalSelfAttentionKVCache α}

lemma Plain.hasPinnedSink (hp : c.Plain) : c.hasPinnedSink = false := by
  simp [CausalSelfAttentionKVCache.hasPinnedSink, hp.noPinnedSink]

lemma Plain.effectiveSinkTokens (hp : c.Plain) : c.effectiveSinkTokens = c.sinkTokens := by
  simp [CausalSelfAttentionKVCache.effectiveSinkTokens, hp.hasPinnedSink, hp.noGlobalSink]

lemma Plain.readIndices (hp : c.Plain) :
    c.readIndices = ((c.globalEndIndex, c.localEndIndex),
      { c with globalEndIndexInt := some c.globalEndIndex,
               localEndIndexInt := some c.localEndIndex }) := by
  unfold CausalSelfAttentionKVCache.readIndices
  rcases hp.globalMirror with hg | hg <;> rcases hp.localMirror with hl | hl <;> rw [hg, hl]
  simp [← hg, ← hl]

def withMirrors (c : CausalSelfAttentionKVCache α) : CausalSelfAttentionKVCache α :=
  { c with globalEndIndexInt := some c.globalEndIndex, localEndIndexInt := some c.localEndIndex }

lemma writeIndices_eq (hg : c.globalEndIndexInt = some c.globalEndIndex)
    (hl : c.localEndIndexInt = some c.localEndIndex) (g l : Int) :
    c.writeIndices g l = { c with globalEndIndex := g, localEndIndex := l,
                                  globalEndIndexInt := some g, localEndIndexInt := some l } := by
  unfold writeIndices
  rw [hg, hl]
  split
  · rename_i h
    obtain ⟨h1, h2⟩ := h
    simp only [Option.some.injEq] at h1 h2
    simp [← h1, ← h2, ← hg, ← hl]
  · rfl

lemma cacheHeadSlice_eq {a : UpdateCall α} (ha : a.ValidFor c.kv.heads) :
    c.cacheHeadSlice a = .ok (a.headSliceFor c.kv.heads) := by
  unfold cacheHeadSlice UpdateCall.headSliceFor
  by_cases he : c.kv.heads = a.kv.heads
  · rw [if_pos he, if_pos he]
  · obtain ⟨s, hs, -⟩ := ha.headStart he
    rw [if_neg he, if_neg he, hs]
    rfl

lemma growToFit_spec [Zero α] (required : Int) :
    ∃ kv w, c.growToFit required = { c with kv := kv, attentionWindowSize := w } ∧
      kv.heads = c.kv.heads ∧ required ≤ kv.tokens ∧ c.cacheSize ≤ kv.tokens ∧
      ∀ h i : Nat, (i : Int) < c.cacheSize → kv.cell h i = c.kv.cell h i := by
  unfold growToFit
  split
  · rename_i hle
    exact ⟨c.kv, c.attentionWindowSize, rfl, rfl, hle, le_refl _, fun _ _ _ => rfl⟩
  refine ⟨_, _, rfl, heads_grow .., ?_, ?_, ?_⟩
  iterate 2 simp only [cacheSize, tokens_grow] at *; omega
  · intro h i hi
    exact cell_grow (by simp only [cacheSize] at hi; omega)
end

/-- After growth and eviction of `ev` tokens: the sink stays, the other cells have moved down by
`ev`. -/
structure Room (c : CausalSelfAttentionKVCache α) (a : UpdateCall α) (kv : Tensor α) : Prop where
  heads : kv.heads = c.kv.heads
  fits : max c.globalEndIndex a.currentChunkEnd - c.shiftAfter a ≤ kv.tokens
  full : 0 < c.shiftAfter a → max c.globalEndIndex a.currentChunkEnd - c.shiftAfter a = kv.tokens
  cell : ∀ h i : Nat, (a.headSliceFor c.kv.heads).Has h →
    (i : Int) < c.globalEndIndex - c.shiftAfter a →
    kv.cell h i =
      c.kv.cell h (if (i : Int) < c.sinkTokens then i else i + (c.shiftAfter a - c.shift).toNat)

variable {c : CausalSelfAttentionKVCache α} {a : UpdateCall α}

lemma evict_spec (hp : c.Plain) (hs : HeadSlice) (ev : Int) (hev : 0 ≤ ev)
    (hfits : c.localEndIndex ≤ c.cacheSize) :
    ∃ kv, c.evict hs c.sinkTokens c.localEndIndex ev = { c with kv := kv } ∧
      kv.heads = c.kv.heads ∧ kv.tokens = c.kv.tokens ∧
      ∀ h i : Nat, hs.Has h → (i : Int) < c.localEndIndex - ev →
        kv.cell h i = c.kv.cell h (if (i : Int) < c.sinkTokens then i else i + ev.toNat) := by
  have hsize : (c.kv.tokens : Int) = c.cacheSize := rfl
  unfold evict
  simp only [hp.hasPinnedSink, Bool.false_eq_true, false_and, if_false]
  split
  · refine ⟨_, rfl, heads_moveRows .., rfl, ?_⟩
    intro h i hh hi
    rw [cell_moveRows (by omega) (by omega)]
    by_cases hsink : (i : Int) < c.sinkTokens
    · rw [if_neg (by omega), if_pos hsink]
    · rw [if_pos ⟨hh, by omega, by omega⟩, if_neg hsink]
      congr 1
      omega
  · refine ⟨c.kv, rfl, rfl, rfl, ?_⟩
    intro h i _ hi
    rw [if_pos (by omega)]

lemma place_spec [Zero α] (a : UpdateCall α) (hp : c.Plain) (hf : c.Filled) :
    ∃ kv w, c.place (a.headSliceFor c.kv.heads) a c.globalEndIndex c.localEndIndex =
        (⟨a.currentChunkStart - c.shiftAfter a, a.currentChunkEnd - c.shiftAfter a,
          max c.globalEndIndex a.currentChunkEnd - c.shiftAfter a,
          max c.globalEndIndex a.currentChunkEnd⟩,
          { c with kv := kv, attentionWindowSize := w }) ∧ c.Room a kv := by
  have hstop : a.currentChunkEnd = a.currentChunkStart + a.numNewTokens := rfl
  obtain ⟨hnonneg, hfits, hord, hfull, hgrown⟩ := hf
  by_cases hend : a.currentChunkEnd ≤ c.globalEndIndex
  · -- The window stays where it is.
    have hS : c.shiftAfter a = c.shift := by unfold shiftAfter; rw [if_pos (.inl hend)]
    have hs : c.shift = c.globalEndIndex - c.localEndIndex := rfl
    refine ⟨c.kv, c.attentionWindowSize, ?_, rfl, ?_, ?_, ?_⟩
    · unfold place
      rw [if_pos hend]
      congr 2 <;> omega
    · simp only [cacheSize] at hfits; omega
    · intro h0
      have := hfull (by omega)
      simp only [cacheSize] at this; omega
    · simp [hS]
  have hs : c.shift = c.globalEndIndex - c.localEndIndex := rfl
  set new := a.currentChunkEnd - c.globalEndIndex
  by_cases hg : c.allowGrowth = true
  · -- The buffer grows, so nothing has ever been evicted.
    have hS : c.shiftAfter a = c.shift := by unfold shiftAfter; rw [if_pos (.inr hg)]
    obtain ⟨kv, w, hgrow, hheads, hreq, hsize, hcell⟩ :=
      c.growToFit_spec (c.localEndIndex + new)
    have hzero := hgrown hg
    refine ⟨kv, w, ?_, hheads, by omega, by omega, ?_⟩
    · unfold place
      simp only []
      rw [if_neg hend, if_pos hg, hgrow, if_neg (by simp only [cacheSize]; omega)]
      congr 2 <;> omega
    grind
  have hfit : (c.kv.tokens : Int) = c.cacheSize := rfl
  by_cases hev : c.cacheSize < c.localEndIndex + new
  · -- The oldest tokens past the sink make room; the chunk ends at the end of the buffer.
    have hS : c.shiftAfter a = a.currentChunkEnd - c.cacheSize := by
      unfold shiftAfter
      rw [if_neg (by simp [hend, hg])]
      omega
    obtain ⟨kv, hkv, hheads, htokens, hcell⟩ := evict_spec hp (a.headSliceFor c.kv.heads)
      (c.localEndIndex + new - c.cacheSize) (by omega) hfits
    refine ⟨kv, c.attentionWindowSize, ?_, hheads, by omega, by omega, ?_⟩
    · unfold place
      simp only []
      rw [if_neg hend, if_neg hg, if_pos hev, hp.effectiveSinkTokens, hkv]
      congr 2 <;> omega
    grind
  -- The chunk fits after the previous one.
  have hS : c.shiftAfter a = c.shift := by
    unfold shiftAfter
    omega
  refine ⟨c.kv, c.attentionWindowSize, ?_, rfl, by omega, by omega, ?_⟩
  · unfold place
    simp only []
    rw [if_neg hend, if_neg hg, if_neg hev]
    congr 2 <;> omega
  · simp [hS]

structure Updated (c : CausalSelfAttentionKVCache α) (a : UpdateCall α)
    (view : CausalAttentionKVView α) (c' : CausalSelfAttentionKVCache α) : Prop where
  plain : c'.Plain
  filled : c'.Filled
  heads : c'.kv.heads = c.kv.heads
  sink : c'.sinkTokens = c.sinkTokens
  growth : c'.allowGrowth = c.allowGrowth
  globalEnd : c'.globalEndIndex = max c.globalEndIndex a.currentChunkEnd
  shift : c'.shift = c.shiftAfter a
  written : ∀ h i : Nat, (a.headSliceFor c.kv.heads).Has h → h < c.kv.heads →
    a.currentChunkStart ≤ i + c.shiftAfter a → i + c.shiftAfter a < a.currentChunkEnd →
    c'.kv.cell h i = a.written c.kv.heads h (i + c.shiftAfter a)
  kept : ∀ h i : Nat, (a.headSliceFor c.kv.heads).Has h → h < c.kv.heads →
    i + c.shiftAfter a < a.currentChunkStart ∨ a.currentChunkEnd ≤ i + c.shiftAfter a →
    (i : Int) < c.globalEndIndex - c.shiftAfter a →
    c'.kv.cell h i =
      c.kv.cell h (if (i : Int) < c.sinkTokens then i else i + (c.shiftAfter a - c.shift).toNat)
  visibleLocalEnd : view.visibleLocalEnd = c'.localEndIndex
  visibleGlobalEnd : view.visibleGlobalEnd = c'.globalEndIndex
  viewed : ∃ slices,
    c'.visibleSlices (a.currentChunkStart - c.shiftAfter a) c'.localEndIndex
      (max 0 (c'.localEndIndex - c'.attentionWindowSize)) a.recentWindowTokens = .ok slices ∧
    view.kv = c'.catCacheSlices (a.headSliceFor c.kv.heads) slices

lemma le_shiftAfter : c.shift ≤ c.shiftAfter a := by
  unfold shiftAfter
  split <;> omega

lemma Filled.shift_nonneg (hf : c.Filled) : 0 ≤ c.shift := by
  have := hf.ordered
  unfold shift
  omega

lemma visibleSlices_ok (ha : a.ValidFor c.kv.heads) (ls le st : Int) :
    ∃ slices, c.visibleSlices ls le st a.recentWindowTokens = .ok slices := by
  unfold visibleSlices
  rcases hr : a.recentWindowTokens with _ | r
  · exact ⟨_, rfl⟩
  have := ha.recent r hr
  simp only [if_neg (show ¬ r < 0 by omega)]
  split <;> exact ⟨_, rfl⟩

def commit (c : CausalSelfAttentionKVCache α) (a : UpdateCall α) (kv : Tensor α) (w : Int) :
    CausalSelfAttentionKVCache α :=
  { c with kv := kv.assign (a.headSliceFor c.kv.heads)
             (a.currentChunkStart - c.shiftAfter a).toNat a.kv,
           attentionWindowSize := w,
           globalEndIndex := max c.globalEndIndex a.currentChunkEnd,
           localEndIndex := max c.globalEndIndex a.currentChunkEnd - c.shiftAfter a,
           globalEndIndexInt := some (max c.globalEndIndex a.currentChunkEnd),
           localEndIndexInt := some (max c.globalEndIndex a.currentChunkEnd - c.shiftAfter a) }

variable {kv : Tensor α}
  {c' : CausalSelfAttentionKVCache α} {view : CausalAttentionKVView α} {past : List (UpdateCall α)}

lemma Room.inside (hw : c.WellPlaced a) (room : c.Room a kv) :
    0 ≤ a.currentChunkStart - c.shiftAfter a ∧ a.currentChunkEnd - c.shiftAfter a ≤ kv.tokens := by
  have hclear := hw.clear
  have hstart := hw.valid.start_nonneg
  have hfits := room.fits
  omega

lemma updateAndGetAttentionKv_eq [Zero α] (hp : c.Plain) (hw : c.WellPlaced a)
    {w : Int} (room : c.Room a kv)
    (hplace : c.withMirrors.place (a.headSliceFor c.kv.heads) a c.globalEndIndex c.localEndIndex =
      (⟨a.currentChunkStart - c.shiftAfter a, a.currentChunkEnd - c.shiftAfter a,
        max c.globalEndIndex a.currentChunkEnd - c.shiftAfter a,
        max c.globalEndIndex a.currentChunkEnd⟩,
        { c.withMirrors with kv := kv, attentionWindowSize := w })) {slices : List (Int × Int)}
    (hslices : (c.commit a kv w).visibleSlices (a.currentChunkStart - c.shiftAfter a)
      (c.commit a kv w).localEndIndex
      (max 0 ((c.commit a kv w).localEndIndex - (c.commit a kv w).attentionWindowSize))
      a.recentWindowTokens = .ok slices) :
    c.updateAndGetAttentionKv a =
      (.ok ⟨(c.commit a kv w).catCacheSlices (a.headSliceFor c.kv.heads) slices,
          a.currentChunkStart - c.shiftAfter a, a.currentChunkEnd - c.shiftAfter a,
          (c.commit a kv w).localEndIndex, (c.commit a kv w).globalEndIndex⟩,
        c.commit a kv w) := by
  obtain ⟨h1, h2⟩ := room.inside hw
  set start := a.currentChunkStart - c.shiftAfter a
  have hlen : a.currentChunkEnd - c.shiftAfter a - start =
      a.numNewTokens := by simp only [UpdateCall.currentChunkEnd]; omega
  unfold updateAndGetAttentionKv
  rw [cacheHeadSlice_eq hw.valid, hp.readIndices]
  simp only []
  rw [← withMirrors, hplace]
  rw [if_neg (by simp only [cacheSize]; omega)]
  -- The slices read neither cursor, so those of the committed cache are those of the call.
  have hsame : visibleSlices { c.withMirrors with
      kv := kv.assign (a.headSliceFor c.kv.heads) start.toNat a.kv,
      attentionWindowSize := w } start
      (max c.globalEndIndex a.currentChunkEnd - c.shiftAfter a)
      (max 0 (max c.globalEndIndex a.currentChunkEnd - c.shiftAfter a - w))
      a.recentWindowTokens = .ok slices := hslices
  rw [hsame]
  rw [writeIndices_eq rfl rfl]
  rfl

lemma commit_plain (hp : c.Plain) (a : UpdateCall α) (kv : Tensor α) (w : Int) :
    (c.commit a kv w).Plain := ⟨hp.noGlobalSink, hp.noPinnedSink, .inr rfl, .inr rfl⟩

lemma commit_filled (hf : c.Filled) (room : c.Room a kv) (w : Int) : (c.commit a kv w).Filled := by
  have hS0 := hf.shift_nonneg
  have hS := c.le_shiftAfter (a := a)
  have hfits := room.fits
  have hfull := room.full
  have hnonneg := hf.nonneg
  have hord := hf.ordered
  refine ⟨?_, hfits, ?_, ?_, ?_⟩
  · show 0 ≤ max c.globalEndIndex a.currentChunkEnd - c.shiftAfter a
    omega
  · show max c.globalEndIndex a.currentChunkEnd - c.shiftAfter a ≤
      max c.globalEndIndex a.currentChunkEnd
    omega
  · intro h
    exact hfull (by simp only [commit] at h; omega)
  intro hg
  have hz := hf.grown hg
  show max c.globalEndIndex a.currentChunkEnd = max c.globalEndIndex a.currentChunkEnd - c.shiftAfter a
  unfold shiftAfter
  rw [if_pos (.inr hg)]
  unfold shift
  omega

lemma updateAndGetAttentionKv_spec [Zero α] (hp : c.Plain) (hf : c.Filled) (hw : c.WellPlaced a) :
    ∃ view c', c.updateAndGetAttentionKv a = (.ok view, c') ∧ c.Updated a view c' := by
  obtain ⟨kv, w, hplace, roomM⟩ := place_spec (c := c.withMirrors) a
    ⟨hp.noGlobalSink, hp.noPinnedSink, .inr rfl, .inr rfl⟩
    ⟨hf.nonneg, hf.fits, hf.ordered, hf.full, hf.grown⟩
  have room : c.Room a kv := ⟨roomM.heads, roomM.fits, roomM.full, roomM.cell⟩
  obtain ⟨h1, h2⟩ := room.inside hw
  have hlen : a.currentChunkEnd = a.currentChunkStart + a.kv.tokens := rfl
  have hheads : (c.commit a kv w).kv.heads = c.kv.heads := by
    show (kv.assign ..).heads = _
    rw [heads_assign, room.heads]
  obtain ⟨slices, hslices⟩ := (c.commit a kv w).visibleSlices_ok (a := a)
    (by rw [hheads]; exact hw.valid) (a.currentChunkStart - c.shiftAfter a)
    (c.commit a kv w).localEndIndex
    (max 0 ((c.commit a kv w).localEndIndex - (c.commit a kv w).attentionWindowSize))
  have hcell : ∀ h i : Nat, (a.headSliceFor c.kv.heads).Has h → h < c.kv.heads →
      (c.commit a kv w).kv.cell h i =
        if a.currentChunkStart ≤ i + c.shiftAfter a ∧ i + c.shiftAfter a < a.currentChunkEnd
        then a.written c.kv.heads h (i + c.shiftAfter a) else kv.cell h i := by
    intro h i hh hlt
    show (kv.assign ..).cell h i = _
    rw [cell_assign (by omega) fun _ => UpdateCall.head_lt hlt hh, room.heads]
    by_cases hin : a.currentChunkStart ≤ i + c.shiftAfter a ∧ i + c.shiftAfter a < a.currentChunkEnd
    · rw [if_pos ⟨hh, hlt, by omega, by omega⟩, if_pos hin, UpdateCall.written, if_pos ⟨hh, hin⟩]
      congr 1
      omega
    · rw [if_neg (by omega), if_neg hin]
  refine ⟨_, _, updateAndGetAttentionKv_eq hp hw room hplace hslices, commit_plain hp a kv w,
    commit_filled hf room w, hheads, rfl, rfl, rfl, ?_, ?_, ?_, rfl, rfl, slices, hslices, rfl⟩
  · simp only [shift, commit]
    omega
  · grind
  · intro h i hh hlt hout hi
    rw [hcell h i hh hlt, if_neg (by omega), room.cell h i hh hi]

lemma Updated.localEndIndex (hu : c.Updated a view c') :
    c'.localEndIndex = max c.globalEndIndex a.currentChunkEnd - c.shiftAfter a := by
  have hs := hu.shift
  have hg := hu.globalEnd
  unfold CausalSelfAttentionKVCache.shift at hs
  omega

lemma Updated.slotsHold {h : Nat} (hu : c.Updated a view c') (hf : c.Filled)
    (hw : c.WellPlaced a) (hlt : h < c.kv.heads) (hh : (a.headSliceFor c.kv.heads).Has h)
    (hold : c.SlotsHold past h) : c'.SlotsHold (a :: past) h := by
  have hS0 := hf.shift_nonneg
  have hS := c.le_shiftAfter (a := a)
  have hclear := hw.clear
  have hstart := hw.start_le
  have hL' := hu.localEndIndex
  intro i hi
  rw [hu.heads, hu.sink, hu.shift]
  by_cases hin : a.currentChunkStart ≤ i + c.shiftAfter a ∧ i + c.shiftAfter a < a.currentChunkEnd
  · -- A slot of the chunk: the cell and the most recent write are the call's.
    have htok : slotToken c.sinkTokens (c.shiftAfter a) i = i + c.shiftAfter a := by
      unfold slotToken; split <;> omega
    obtain ⟨x, hx⟩ := UpdateCall.exists_written hlt hh hin.1 hin.2
    refine ⟨x, ?_, ?_⟩
    · rw [htok, lastWritten, hx, Option.some_or]
    · rw [hu.written h i hh hlt hin.1 hin.2, hx]
  -- Any other slot: its token was in the window before, at the slot it came from.
  have htok : slotToken c.sinkTokens (c.shiftAfter a) i =
      slotToken c.sinkTokens c.shift
        (if (i : Int) < c.sinkTokens then i else i + (c.shiftAfter a - c.shift).toNat) := by
    unfold slotToken
    grind
  have hold' : (i : Int) < c.globalEndIndex - c.shiftAfter a := by omega
  obtain ⟨x, hlast, hcell⟩ := hold
    (if (i : Int) < c.sinkTokens then i else i + (c.shiftAfter a - c.shift).toNat)
    (by simp only [CausalSelfAttentionKVCache.shift] at *; split <;> omega)
  have hnone : a.written c.kv.heads h (slotToken c.sinkTokens (c.shiftAfter a) i) = none := by
    apply UpdateCall.written_eq_none
    unfold slotToken
    split <;> omega
  refine ⟨x, ?_, ?_⟩
  · rw [lastWritten, hnone, Option.none_or, htok, hlast]
  · rw [hu.kept h i hh hlt (by omega) hold', hcell]

/-- The chunk starts at or before the global end, reaches it, and fits past the sink. -/
structure WindowCall (c : CausalSelfAttentionKVCache α) (a : UpdateCall α) : Prop where
  valid : a.ValidFor c.kv.heads
  start_le : a.currentChunkStart ≤ c.globalEndIndex
  le_end : c.globalEndIndex ≤ a.currentChunkEnd
  length_le : a.numNewTokens ≤ c.cacheSize - c.sinkTokens

lemma WindowCall.wellPlaced (hf : c.Filled) (ha : c.WindowCall a) : c.WellPlaced a := by
  refine ⟨ha.valid, ha.start_le, ?_⟩
  have hle := ha.le_end
  have hlen := ha.length_le
  have hstop : a.currentChunkEnd = a.currentChunkStart + a.numNewTokens := rfl
  obtain ⟨hnonneg, hfits, hord, hfull, hgrown⟩ := hf
  unfold shiftAfter
  simp only [shift]
  split
  · rename_i h
    rcases h with h | h
    · omega
    · have := hgrown h; omega
  omega

def next [Zero α] (c : CausalSelfAttentionKVCache α) (a : UpdateCall α) :
    CausalSelfAttentionKVCache α := (c.updateAndGetAttentionKv a).2

structure Tracked (heads h : Nat) (past : List (UpdateCall α)) (c : CausalSelfAttentionKVCache α) :
    Prop where
  plain : c.Plain
  filled : c.Filled
  heads_eq : c.kv.heads = heads
  slots : (∀ a ∈ past, (a.headSliceFor heads).Has h) → c.SlotsHold past h

lemma Tracked.create (kv : Tensor α) (useIntIndices : Bool) (s : Nat) (w : Int)
    (allowGrowth : Bool) (h : Nat) :
    Tracked kv.heads h [] (create kv useIntIndices s w allowGrowth 0) := by
  refine ⟨⟨rfl, rfl, ?_, ?_⟩, ⟨?_, ?_, ?_, ?_, ?_⟩, rfl, ?_⟩
  iterate 2 cases useIntIndices <;> simp [CausalSelfAttentionKVCache.create]
  · exact le_refl _
  · exact Int.natCast_nonneg _
  · exact le_refl _
  · exact fun h => absurd h (lt_irrefl _)
  · exact fun _ => rfl
  · intro _ i hi
    simp only [CausalSelfAttentionKVCache.create] at hi
    omega

lemma Tracked.step [Zero α] {heads h : Nat} (hlt : h < heads)
    (ht : Tracked heads h past c) (hw : c.WellPlaced a) : Tracked heads h (a :: past) (c.next a) := by
  obtain ⟨view, c', heq, hu⟩ := updateAndGetAttentionKv_spec ht.plain ht.filled hw
  have hn : c.next a = c' := by unfold next; rw [heq]
  rw [hn]
  refine ⟨hu.plain, hu.filled, hu.heads.trans ht.heads_eq, ?_⟩
  intro hcarry
  have hheads := ht.heads_eq
  subst hheads
  exact hu.slotsHold ht.filled hw hlt (hcarry a (List.mem_cons_self ..))
    (ht.slots fun b hb => hcarry b (List.mem_cons_of_mem _ hb))

/-- After any run of window calls on head `h`, sink slots hold the latest K/V of the token of their
number, the others that of their number plus `global_end - local_end`, the fill fits, and the next
call does not raise. -/
theorem slots_hold_along_runs [Zero α] {kv : Tensor α} {useIntIndices allowGrowth : Bool} {s : Nat}
    {w : Int} {past : List (UpdateCall α)} {h : Nat}
    (hr : Run next WindowCall (create kv useIntIndices s w allowGrowth 0) past c)
    (hlt : h < kv.heads) (hcarry : ∀ a ∈ past, (a.headSliceFor kv.heads).Has h) :
    (∀ i : Nat, (i : Int) < min (s : Int) c.localEndIndex →
      ∃ x, lastWritten kv.heads past h i = some x ∧ c.kv.cell h i = some x) ∧
    (∀ i : Nat, s ≤ i → (i : Int) < c.localEndIndex →
      ∃ x, lastWritten kv.heads past h (i + (c.globalEndIndex - c.localEndIndex)) = some x ∧
        c.kv.cell h i = some x) ∧ c.localEndIndex ≤ c.cacheSize ∧
    ∀ a, c.WindowCall a → ∃ view, (c.updateAndGetAttentionKv a).1 = .ok view := by
  have hsink : c.sinkTokens = s ∧ Tracked kv.heads h past c := by
    refine hr.invariant (I := fun past c => c.sinkTokens = s ∧ Tracked kv.heads h past c)
      ⟨rfl, Tracked.create ..⟩ ?_
    rintro past c a ⟨hs, ht⟩ ha
    have hw := ha.wellPlaced ht.filled
    refine ⟨?_, ht.step hlt hw⟩
    obtain ⟨view, c', heq, hu⟩ := updateAndGetAttentionKv_spec ht.plain ht.filled hw
    simp only [next, heq, hu.sink, hs]
  obtain ⟨hs, ht⟩ := hsink
  have hold := ht.slots hcarry
  unfold SlotsHold at hold
  rw [ht.heads_eq, hs] at hold
  refine ⟨?_, ?_, ht.filled.fits, ?_⟩
  · intro i hi
    obtain ⟨x, hx⟩ := hold i (by omega)
    rw [slotToken, if_pos (by omega)] at hx
    exact ⟨x, hx⟩
  · intro i hsi hi
    obtain ⟨x, hx⟩ := hold i hi
    rw [slotToken, if_neg (by omega)] at hx
    exact ⟨x, hx⟩
  intro a ha
  obtain ⟨view, c', heq, -⟩ :=
    updateAndGetAttentionKv_spec ht.plain ht.filled (ha.wellPlaced ht.filled)
  exact ⟨view, by rw [heq]⟩

def oneHeadBuffer (n : Nat) : Tensor Nat := ⟨n, [List.replicate n 0], by simp⟩

def oneHeadCall (start : Int) (recent : Option Int) (rows : List Nat) : UpdateCall Nat where
  kv := ⟨rows.length, [rows], by simp⟩
  currentChunkStart := start
  cacheHeadStart := none
  recentWindowTokens := recent
  debugName := "causal KV cache"

lemma oneHeadCall_valid {start : Int} {recent : Option Int} (h : 0 ≤ start)
    (hr : ∀ r, recent = some r → 0 ≤ r) (rows : List Nat) :
    (oneHeadCall start recent rows).ValidFor 1 :=
  ⟨fun hne => absurd rfl hne, hr, h⟩

/-- The chunks `[0, 3)`, `[2, 4)` and `[4, 6)`, the newest first. -/
def overlappingChunks : List (UpdateCall Nat) :=
  [oneHeadCall 4 none [41, 51], oneHeadCall 2 none [21, 31], oneHeadCall 0 none [1, 11, 20]]

theorem slots_hold_small_run : ∃ c : CausalSelfAttentionKVCache Nat,
      Run next WindowCall (create (oneHeadBuffer 4) true 1 0 false 0) overlappingChunks c ∧
      c.kv.cols = [[1, 31, 41, 51]] ∧
      ∃ x, lastWritten 1 overlappingChunks 0 3 = some x ∧ c.kv.cell 0 1 = some x := by
  have hr : Run next WindowCall (create (oneHeadBuffer 4) true 1 0 false 0) overlappingChunks _ :=
    .step _ (.step _ (.step _ .start
      ⟨oneHeadCall_valid (by decide) (by decide) _, by decide, by decide, by decide⟩)
      ⟨oneHeadCall_valid (by decide) (by decide) _, by decide, by decide, by decide⟩)
      ⟨oneHeadCall_valid (by decide) (by decide) _, by decide, by decide, by decide⟩
  refine ⟨_, hr, by decide, ?_⟩
  exact (slots_hold_along_runs hr (h := 0) (by decide) (by decide)).2.1 1 (by decide) (by decide)

/-- `[0, 4)` of both heads, then `[4, 6)` of head 0 and of head 1, the newest first. -/
def headByHead : List (UpdateCall Nat) :=
  [{ oneHeadCall 4 none [50, 60] with cacheHeadStart := some 1 },
    { oneHeadCall 4 none [5, 6] with cacheHeadStart := some 0 },
    { oneHeadCall 0 none [] with kv := ⟨4, [[1, 2, 3, 4], [10, 20, 30, 40]], by simp⟩ }]

/-- The cursors are shared but only the heads of a call are rolled: slot 0 of head 1 still holds
token 0 where it should hold token 2. -/
theorem uncarried_head_keeps_token : ∃ c : CausalSelfAttentionKVCache Nat,
      Run next WindowCall (create ⟨4, List.replicate 2 [0, 0, 0, 0], by simp⟩ true 0 0 false 0)
        headByHead c ∧ c.globalEndIndex - c.localEndIndex = 2 ∧ c.kv.cell 1 0 = some 10 ∧
      lastWritten 2 headByHead 1 0 = some 10 ∧ lastWritten 2 headByHead 1 2 = some 30 := by
  refine ⟨_, .step _ (.step _ (.step _ .start ⟨⟨by decide, by decide, by decide⟩, ?_, ?_, ?_⟩)
    ⟨⟨by decide, by decide, by decide⟩, ?_, ?_, ?_⟩) ⟨⟨by decide, by decide, by decide⟩, ?_, ?_, ?_⟩,
    ?_⟩
  all_goals decide
end CausalSelfAttentionKVCache
end Sglang
