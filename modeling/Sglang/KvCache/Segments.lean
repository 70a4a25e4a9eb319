import Sglang.KvCache.Slots

/-!
# The global tokens of a cache view

`visible_key_segments` (`models/dits/causal_wanvideo.py`) rebuilds the global positions of the keys
of a view from the view's length and cursors alone.
-/

namespace Sglang
open List Function CausalSelfAttentionKVCache
variable {α : Type}

section
variable (s : Int × Int) (slices segments : List (Int × Int)) (c : CausalSelfAttentionKVCache α)

/-- `visible_key_segments`: global `(token_start, length)` ranges of the keys of a view. -/
def visibleKeySegments (view : CausalAttentionKVView α) : Option (List (Int × Int)) :=
  if c.globalSinkTokens ≠ 0 ∨ 0 < c.pinnedLen then none
  else
    let numKeys : Int := view.kv.tokens
    let localEnd := view.visibleLocalEnd
    let localStart := localEnd - numKeys
    let shift := view.visibleGlobalEnd - localEnd
    let sink := min (c.sinkTokens : Int) localEnd
    if sink ≤ localStart then some [(localStart + shift, numKeys)]
    else if localEnd ≤ sink then some [(localStart, numKeys)]
    else some [(localStart, sink - localStart), (sink + shift, localEnd - sink)]

def segmentTokens : List Int :=
  segments.flatMap fun s => (List.range s.2.toNat).map fun j : Nat => s.1 + j

def sliceSlots : List Nat :=
  slices.flatMap fun s => List.range' s.1.toNat (s.2.toNat - s.1.toNat)

/-- The recent window reaches back to the sink, or there is nothing to reach or to skip. -/
def RecentReachesSink (a : UpdateCall α) : Prop :=
  ∀ r, a.recentWindowTokens = some r →
    min (c.sinkTokens : Int) (max c.globalEndIndex a.currentChunkEnd - c.shiftAfter a) ≤ 0 ∨
    a.currentChunkStart - c.shiftAfter a - r ≤
      min (c.sinkTokens : Int) (max c.globalEndIndex a.currentChunkEnd - c.shiftAfter a)

private lemma map_range_eq_map_range' {f : Nat → Int} {first : Int} {st n : Nat}
    (h : ∀ i < n, f (st + i) = first + i) :
    (range n).map (fun j : Nat => first + j) = (range' st n).map f := by
  apply ext_getElem?
  grind

lemma sliceSlots_cons :
    sliceSlots (s :: slices) = range' s.1.toNat (s.2.toNat - s.1.toNat) ++ sliceSlots slices := rfl

lemma segmentTokens_cons :
    segmentTokens (s :: segments) =
      (range s.2.toNat).map (fun j : Nat => s.1 + j) ++ segmentTokens segments := rfl
end

lemma segmentTokens_head (first : Int) {n : Int} (hn : 0 < n) (segments : List (Int × Int)) :
    ∃ rest, segmentTokens ((first, n) :: segments) = first :: rest := by
  obtain ⟨k, hk⟩ : ∃ k : Nat, n.toNat = k + 1 := ⟨n.toNat - 1, by omega⟩
  rw [segmentTokens_cons, hk, range_succ_eq_map, map_cons, cons_append]
  exact ⟨_, congrArg₂ cons (add_zero first) rfl⟩

namespace CausalSelfAttentionKVCache
variable {c c' : CausalSelfAttentionKVCache α} {a : UpdateCall α} {view : CausalAttentionKVView α}
variable {slices : List (Int × Int)}

lemma Plain.visibleSlices_cases (hp : c.Plain) {ls le st : Int} {recent : Option Int}
    (h : c.visibleSlices ls le st recent = .ok slices) (hst : 0 ≤ st) (hls : ls ≤ le) (hle : 0 ≤ le) :
    (∃ st', 0 ≤ st' ∧ slices = [(st', le)] ∧ ∀ r, recent = some r →
      min (c.sinkTokens : Int) le ≤ 0 ∨ ls - r ≤ min (c.sinkTokens : Int) le) ∨
    (∃ r, recent = some r ∧ 0 < min (c.sinkTokens : Int) le ∧
      min (c.sinkTokens : Int) le < ls - r ∧ ls - r ≤ le ∧
      slices = [(0, min (c.sinkTokens : Int) le), (ls - r, le)]) := by
  unfold visibleSlices at h
  rcases recent with _ | r
  · simp only [hp.noGlobalSink, hp.hasPinnedSink, lt_irrefl, Bool.false_eq_true, or_self,
      if_false, Except.ok.injEq] at h
    exact .inl ⟨st, hst, h.symm, nofun⟩
  simp only [hp.effectiveSinkTokens, hp.hasPinnedSink, Bool.false_eq_true, false_and,
    if_false, append_nil] at h
  split at h
  · cases h
  split at h
  · grind
  have hrs : max (min (c.sinkTokens : Int) le) (ls - r) = ls - r := by omega
  rw [hrs] at h
  by_cases hs : 0 < min (c.sinkTokens : Int) le
  · rw [if_pos hs] at h
    cases h
    exact .inr ⟨r, rfl, hs, by omega, by omega, rfl⟩
  · rw [if_neg hs] at h
    cases h
    exact .inl ⟨ls - r, by omega, rfl, by rintro r' ⟨⟩; omega⟩

lemma tokens_catCacheSlices (hf : c.Filled) (hs : HeadSlice)
    (hin : ∀ s ∈ slices, s.2 ≤ c.localEndIndex) :
    (c.catCacheSlices hs slices).tokens = (slices.map fun s => s.2.toNat - s.1.toNat).sum := by
  have hfits : c.localEndIndex ≤ c.kv.tokens := hf.fits
  unfold catCacheSlices
  rw [Tensor.tokens_catSlices, map_map]
  · rfl
  grind

lemma row_eq_lastWritten {past : List (UpdateCall α)} {h : Nat} {hs : HeadSlice} (hf : c.Filled)
    (hold : c.SlotsHold past h) (hh : hs.Has h)
    (hlt : h < c.kv.heads) (hin : ∀ s ∈ slices, s.2 ≤ c.localEndIndex) :
    ((c.catCacheSlices hs slices).row (h - hs.first)).map some =
      ((sliceSlots slices).map (slotToken c.sinkTokens c.shift)).map
        (lastWritten c.kv.heads past h) := by
  have hfits : c.localEndIndex ≤ c.kv.tokens := hf.fits
  unfold catCacheSlices
  rw [Tensor.row_catSlices hh hlt, flatMap_map, map_map]
  · apply map_congr_left
    intro i hi
    obtain ⟨s, hs', hi⟩ := mem_flatMap.mp hi
    have hle := hin s hs'
    rw [mem_range'_1] at hi
    obtain ⟨x, hlast, hcell⟩ := hold i (by omega)
    rw [hcell, comp_apply, hlast]
  grind
end CausalSelfAttentionKVCache

lemma segmentTokens_suffix {c : CausalSelfAttentionKVCache α} {view : CausalAttentionKVView α}
    (hp : c.Plain) (hle : view.visibleLocalEnd = c.localEndIndex)
    (hge : view.visibleGlobalEnd = c.globalEndIndex) (st : Nat)
    (hkeys : (view.kv.tokens : Int) = c.localEndIndex - st) :
    ∃ segments, visibleKeySegments c view = some segments ∧
      segmentTokens segments = (range' st view.kv.tokens).map (slotToken c.sinkTokens c.shift) := by
  have hshift : c.shift = c.globalEndIndex - c.localEndIndex := rfl
  unfold visibleKeySegments
  simp only []
  rw [if_neg (by simp [hp.noGlobalSink, hp.noPinnedSink]), hle, hge]
  split
  · -- Every slot lies past the sink.
    refine ⟨_, rfl, ?_⟩
    rw [segmentTokens_cons, segmentTokens, flatMap_nil, append_nil, Int.toNat_natCast]
    apply map_range_eq_map_range'
    intro i hi
    rw [slotToken, if_neg (by omega)]
    omega
  split
  · -- Every slot lies in the sink.
    refine ⟨_, rfl, ?_⟩
    rw [segmentTokens_cons, segmentTokens, flatMap_nil, append_nil, Int.toNat_natCast]
    apply map_range_eq_map_range'
    intro i hi
    rw [slotToken, if_pos (by omega)]
    omega
  -- The sink cuts the slots in two.
  obtain ⟨k, hk⟩ : ∃ k : Nat, st + k = c.sinkTokens := ⟨c.sinkTokens - st, by omega⟩
  obtain ⟨m, hm⟩ : ∃ m : Nat, view.kv.tokens = k + m := ⟨view.kv.tokens - k, by omega⟩
  refine ⟨_, rfl, ?_⟩
  rw [segmentTokens_cons, segmentTokens_cons, segmentTokens, flatMap_nil, append_nil, hm,
    ← range'_append_1, map_append]
  congr 1
  · rw [show (min (c.sinkTokens : Int) c.localEndIndex -
      (c.localEndIndex - ((k + m : Nat) : Int))).toNat = k by omega]
    apply map_range_eq_map_range'
    intro i hi
    rw [slotToken, if_pos (by omega)]
    omega
  rw [show (c.localEndIndex - min (c.sinkTokens : Int) c.localEndIndex).toNat = m by omega]
  apply map_range_eq_map_range'
  intro i hi
  rw [slotToken, if_neg (by omega)]
  omega

lemma segmentTokens_gap {c : CausalSelfAttentionKVCache α} {view : CausalAttentionKVView α}
    (hp : c.Plain) (hf : c.Filled) (hle : view.visibleLocalEnd = c.localEndIndex)
    (hge : view.visibleGlobalEnd = c.globalEndIndex) {rs : Int}
    (hsink : 0 < min (c.sinkTokens : Int) c.localEndIndex)
    (hgap : min (c.sinkTokens : Int) c.localEndIndex < rs) (hrs : rs ≤ c.localEndIndex)
    (hkeys : (view.kv.tokens : Int) =
      min (c.sinkTokens : Int) c.localEndIndex + (c.localEndIndex - rs)) :
    ∃ segments t rest, visibleKeySegments c view = some segments ∧
      segmentTokens segments = t :: rest ∧ 0 < t := by
  have hord := hf.ordered
  unfold visibleKeySegments
  simp only []
  rw [if_neg (by simp [hp.noGlobalSink, hp.noPinnedSink]), hle, hge]
  split
  · obtain ⟨rest, hrest⟩ := segmentTokens_head
      (c.localEndIndex - view.kv.tokens + (c.globalEndIndex - c.localEndIndex))
      (show 0 < (view.kv.tokens : Int) by omega) []
    exact ⟨_, _, rest, rfl, hrest, by omega⟩
  split
  · omega
  obtain ⟨rest, hrest⟩ := segmentTokens_head (c.localEndIndex - view.kv.tokens)
    (show 0 < min (c.sinkTokens : Int) c.localEndIndex - (c.localEndIndex - view.kv.tokens) by
      omega)
    [(min (c.sinkTokens : Int) c.localEndIndex + (c.globalEndIndex - c.localEndIndex),
      c.localEndIndex - min (c.sinkTokens : Int) c.localEndIndex)]
  exact ⟨_, _, rest, rfl, hrest, by omega⟩

namespace CausalSelfAttentionKVCache
variable {c : CausalSelfAttentionKVCache α} {a : UpdateCall α}

/-- After any run of well placed calls, the keys of a view are those of the tokens of its segments
if the recent window reaches the sink, and only then if tokens differ in their K/V. -/
theorem visibleKeySegments_exact [Zero α] {kv : Tensor α} {useIntIndices allowGrowth : Bool}
    {s : Nat} {w : Int} {past : List (UpdateCall α)} {h : Nat}
    (hr : Run next WellPlaced (create kv useIntIndices s w allowGrowth 0) past c)
    (ha : c.WellPlaced a) (hlt : h < kv.heads)
    (hcarry : ∀ b ∈ a :: past, (b.headSliceFor kv.heads).Has h) :
    ∃ view c' segments, c.updateAndGetAttentionKv a = (.ok view, c') ∧
      visibleKeySegments c' view = some segments ∧ (RecentReachesSink c a →
        (view.kv.row (h - (a.headSliceFor kv.heads).first)).map some =
          (segmentTokens segments).map (lastWritten kv.heads (a :: past) h)) ∧
      ((∀ t t' x, lastWritten kv.heads (a :: past) h t = some x →
          lastWritten kv.heads (a :: past) h t' = some x → t = t') →
        (view.kv.row (h - (a.headSliceFor kv.heads).first)).map some =
          (segmentTokens segments).map (lastWritten kv.heads (a :: past) h) →
        RecentReachesSink c a) := by
  have ht : Tracked kv.heads h past c :=
    hr.invariant (I := Tracked kv.heads h) (Tracked.create ..) fun _ _ _ ht hw => ht.step hlt hw
  obtain ⟨view, c', heq, hu⟩ := updateAndGetAttentionKv_spec ht.plain ht.filled ha
  have ht' : Tracked kv.heads h (a :: past) c' := by
    have hstep := ht.step hlt ha
    rw [next, heq] at hstep
    exact hstep
  have hheads := ht.heads_eq
  have hf' := ht'.filled
  have hnonneg := hf'.nonneg
  have hle := a.start_le_end
  have hL' := hu.localEndIndex
  obtain ⟨slices, hslices, hkv⟩ := hu.viewed
  rw [hheads] at hkv
  have hcases := hu.plain.visibleSlices_cases hslices (by omega) (by omega) hnonneg
  have hin : ∀ s ∈ slices, s.2 ≤ c'.localEndIndex := by
    grind
  have hrow := row_eq_lastWritten hf' (ht'.slots hcarry) (hcarry a (mem_cons_self ..))
    (by rw [ht'.heads_eq]; exact hlt) hin
  have htokens := tokens_catCacheSlices hf' (a.headSliceFor kv.heads) hin
  rw [← hkv, ht'.heads_eq] at hrow
  rw [← hkv] at htokens
  rcases hcases with ⟨st, hst, rfl, hreach⟩ | ⟨r, hr', hsink, hgap, hrs, rfl⟩
  · -- The view is a suffix of the slots.
    simp only [map_cons, map_nil, sum_cons, sum_nil, add_zero] at htokens
    obtain ⟨segments, hseg, hsegt⟩ := segmentTokens_suffix hu.plain hu.visibleLocalEnd
      hu.visibleGlobalEnd (min st c'.localEndIndex).toNat (by omega)
    have hslots : sliceSlots [(st, c'.localEndIndex)] =
        range' (min st c'.localEndIndex).toNat view.kv.tokens := by
      rw [sliceSlots_cons, sliceSlots, flatMap_nil, append_nil, ← htokens]
      grind
    refine ⟨view, c', segments, heq, hseg, ?_, ?_⟩
    · intro _
      rw [hrow, hslots, hsegt]
    · intro _ _ r hrec
      rw [← hL', ← hu.sink]
      exact hreach r hrec
  -- The view starts with token `0`, which the segments do not name first.
  simp only [map_cons, map_nil, sum_cons, sum_nil, add_zero] at htokens
  obtain ⟨segments, t, rest, hseg, hsegt, ht0⟩ := segmentTokens_gap hu.plain hf'
    hu.visibleLocalEnd hu.visibleGlobalEnd hsink hgap hrs (by omega)
  have hnot : ¬ RecentReachesSink c a := by
    intro hreach
    have := hreach r hr'
    rw [← hL', ← hu.sink] at this
    omega
  refine ⟨view, c', segments, heq, hseg, fun hreach => absurd hreach hnot, ?_⟩
  intro hinj hkeys
  obtain ⟨n, hn⟩ : ∃ n, (min (c'.sinkTokens : Int) c'.localEndIndex).toNat = n + 1 :=
    ⟨_, (Nat.succ_pred_eq_of_pos (by omega)).symm⟩
  rw [hrow, hsegt, sliceSlots_cons, Int.toNat_zero, Nat.sub_zero, hn, range'_succ] at hkeys
  simp only [map_cons, cons_append, cons.injEq] at hkeys
  obtain ⟨x, hlast, -⟩ := ht'.slots hcarry 0 (by omega)
  rw [ht'.heads_eq] at hlast
  have hzero : slotToken c'.sinkTokens c'.shift 0 = 0 := by
    unfold slotToken
    rw [if_pos (by omega)]
    rfl
  grind

def twoChunks : List (UpdateCall Nat) := [oneHeadCall 2 none [12, 13], oneHeadCall 0 none [10, 11]]

theorem keys_of_recent_window : ∃ c view c' segments,
      Run next WellPlaced (create (oneHeadBuffer 6) false 2 0 false 0) twoChunks c ∧
      RecentReachesSink c (oneHeadCall 4 (some 2) [14, 15]) ∧
      c.updateAndGetAttentionKv (oneHeadCall 4 (some 2) [14, 15]) = (.ok view, c') ∧
      visibleKeySegments c' view = some segments ∧
      (view.kv.row 0).map some = (segmentTokens segments).map
        (lastWritten 1 (oneHeadCall 4 (some 2) [14, 15] :: twoChunks) 0) := by
  have hr : Run next WellPlaced (create (oneHeadBuffer 6) false 2 0 false 0) twoChunks _ :=
    .step _ (.step _ .start ⟨oneHeadCall_valid (by decide) (by decide) _, by decide, by decide⟩)
      ⟨oneHeadCall_valid (by decide) (by decide) _, by decide, by decide⟩
  obtain ⟨view, c', segments, heq, hseg, hkeys, -⟩ :=
    visibleKeySegments_exact hr (a := oneHeadCall 4 (some 2) [14, 15]) (h := 0)
      ⟨oneHeadCall_valid (by decide) (by decide) _, by decide, by decide⟩ (by decide) (by decide)
  suffices hreach : RecentReachesSink _ (oneHeadCall 4 (some 2) [14, 15]) from
    ⟨_, view, c', segments, hr, hreach, heq, hseg, hkeys hreach⟩
  intro r hr
  cases hr
  exact .inr (by decide)

theorem segments_name_hidden_tokens : ∃ c view c',
      Run next WindowCall (create (oneHeadBuffer 6) false 2 0 false 0) twoChunks c ∧
      c.WindowCall (oneHeadCall 4 (some 0) [14, 15]) ∧
      c.updateAndGetAttentionKv (oneHeadCall 4 (some 0) [14, 15]) = (.ok view, c') ∧
      visibleKeySegments c' view = some [(2, 4)] ∧ view.kv.row 0 = [10, 11, 14, 15] ∧
      (view.kv.row 0).map some ≠ (segmentTokens [(2, 4)]).map
        (lastWritten 1 (oneHeadCall 4 (some 0) [14, 15] :: twoChunks) 0) := by
  have hr : Run next WindowCall (create (oneHeadBuffer 6) false 2 0 false 0) twoChunks _ :=
    .step _ (.step _ .start
      ⟨oneHeadCall_valid (by decide) (by decide) _, by decide, by decide, by decide⟩)
      ⟨oneHeadCall_valid (by decide) (by decide) _, by decide, by decide, by decide⟩
  exact ⟨_, _, _, hr, ⟨oneHeadCall_valid (by decide) (by decide) _, by decide, by decide, by decide⟩,
    rfl, by decide, by decide, by decide⟩
end CausalSelfAttentionKVCache

/-! ## The view with a pinned sink

`_pinned_attention_view` puts the sink and a pinned chunk that the window has left in front of the
window, and moves the start of the window to the right to make room for them. A pinned chunk that
this move passes over is in no part of the view.
-/

namespace CausalSelfAttentionKVCache
section
variable (c : CausalSelfAttentionKVCache α) (ls le e : Int)

/-- The slices of the view when the local end is `e`. -/
def viewSlices : List (Int × Int) := c.pinnedSlices (max 0 (e - c.attentionWindowSize)) e

/-- What the view of a chunk written at `[ls, le)` is for. -/
structure CompleteView : Prop where
  sink : ∀ t : Nat, t < c.effectiveSinkTokens → t < e → t ∈ sliceSlots (c.viewSlices e)
  pinned : c.hasPinnedSink → ∀ t : Nat, c.pinnedStart ≤ t → t < c.pinnedStart + c.pinnedLen →
    t < e → t ∈ sliceSlots (c.viewSlices e)
  chunk : ∀ t : Nat, ls ≤ t → t < le → t ∈ sliceSlots (c.viewSlices e)
  nodup : (sliceSlots (c.viewSlices e)).Nodup
  length : (sliceSlots (c.viewSlices e)).length ≤ c.attentionWindowSize

/-- The window has moved past the start of the pinned chunk. -/
def PinnedLeft : Prop :=
  c.hasPinnedSink ∧ c.effectiveSinkTokens ≤ c.pinnedStart ∧ c.pinnedStart < e - c.attentionWindowSize
deriving Decidable

/-- The rows at the start of the window that are given up for those in front of it. -/
def room : Int :=
  if c.PinnedLeft e then c.effectiveSinkTokens + c.pinnedLen else c.effectiveSinkTokens

/-- If the window does not reach back to the first row, no pinned row and none of the chunk lies
in the room or between the sink and the window. -/
def RoomIsFree : Prop :=
  c.attentionWindowSize < e →
    (c.hasPinnedSink → c.PinnedLeft e ∨ c.pinnedStart + c.pinnedLen ≤ c.effectiveSinkTokens ∨
      e - c.attentionWindowSize + c.effectiveSinkTokens ≤ c.pinnedStart) ∧
    (ls < le → le ≤ c.effectiveSinkTokens ∨ e - c.attentionWindowSize + c.room e ≤ ls ∨
      c.PinnedLeft e ∧ c.pinnedStart ≤ ls ∧ le ≤ c.pinnedStart + c.pinnedLen)
end

variable {c c' : CausalSelfAttentionKVCache α} {a : UpdateCall α}
  {view : CausalAttentionKVView α} {ls le e : Int}

@[simp]
lemma mem_sliceSlots_cons {s : Int × Int} {slices : List (Int × Int)} {t : Nat} :
    t ∈ sliceSlots (s :: slices) ↔ (s.1 ≤ t ∧ t < s.2) ∨ t ∈ sliceSlots slices := by
  rw [sliceSlots_cons, mem_append, mem_range'_1]
  refine or_congr_left ?_
  omega

@[simp]
lemma sliceSlots_nil : sliceSlots [] = [] := rfl

lemma effectiveSinkTokens_nonneg : 0 ≤ c.effectiveSinkTokens := by
  simp only [effectiveSinkTokens, hasPinnedSink]
  grind

lemma PinnedLeft.lt (h : c.PinnedLeft e) :
    c.effectiveSinkTokens < c.pinnedStart ∧ c.pinnedStart < e - c.attentionWindowSize := by
  obtain ⟨hpin, hle, hlt⟩ := h
  simp only [effectiveSinkTokens, hasPinnedSink] at *
  grind

lemma viewSlices_whole (he : e ≤ c.attentionWindowSize) : c.viewSlices e = [(0, e)] := by
  rw [viewSlices, max_eq_left (by omega), pinnedSlices]
  simp only [hasPinnedSink]
  grind

section
variable (hpin : 0 ≤ c.pinnedLen)
  (hW : c.effectiveSinkTokens + c.pinnedLen + (le - ls) ≤ c.attentionWindowSize) (hle : ls ≤ le)

include hpin hW hle

section
variable (he : c.attentionWindowSize < e)
include he

/-- The slices in front of the window, which begins behind the room made for them. -/
lemma viewSlices_cut : c.viewSlices e =
    (if 0 < c.effectiveSinkTokens then [(0, c.effectiveSinkTokens)] else []) ++
    (if c.PinnedLeft e then [(c.pinnedStart, c.pinnedStart + c.pinnedLen)] else []) ++
    [(e - c.attentionWindowSize + c.room e, e)] := by
  have h0 := effectiveSinkTokens_nonneg (c := c)
  rw [viewSlices, max_eq_right (by omega), pinnedSlices, room]
  simp only [PinnedLeft]
  grind

lemma mem_cut {t : Nat} : t ∈ sliceSlots (c.viewSlices e) ↔ t < c.effectiveSinkTokens ∨
    (c.PinnedLeft e ∧ c.pinnedStart ≤ t ∧ t < c.pinnedStart + c.pinnedLen) ∨
    (e - c.attentionWindowSize + c.room e ≤ t ∧ t < e) := by
  rw [viewSlices_cut hpin hW hle he]
  split <;> split <;> simp [*] <;> omega

lemma nodup_cut : (sliceSlots (c.viewSlices e)).Nodup ∧
    (sliceSlots (c.viewSlices e)).length ≤ c.attentionWindowSize := by
  have h0 := effectiveSinkTokens_nonneg (c := c)
  have hleft := PinnedLeft.lt (c := c) (e := e)
  rw [viewSlices_cut hpin hW hle he, room]
  refine ⟨?_, ?_⟩
  · -- the slices are in increasing order
    split <;> split <;> simp [sliceSlots, nodup_append, nodup_range'] <;> grind
  · split <;> split <;> simp [sliceSlots] <;> omega
end

lemma completeView_iff (hstart : 0 ≤ ls) (hend : le ≤ e) :
    c.CompleteView ls le e ↔ c.RoomIsFree ls le e := by
  have h0 := effectiveSinkTokens_nonneg (c := c)
  by_cases he : c.attentionWindowSize < e
  swap
  · have hwhole := viewSlices_whole (Int.not_lt.mp he)
    refine iff_of_true ⟨?_, ?_, ?_, ?_, ?_⟩ fun h => absurd h he
    · simp [hwhole]
    · simp [hwhole]
    · simp [hwhole]
      omega
    · simp [hwhole, sliceSlots, nodup_range']
    · simp [hwhole, sliceSlots]
      omega
  have hmem := fun t => mem_cut hpin hW hle he (t := t)
  have hroom : ¬ c.PinnedLeft e ∧ c.room e = c.effectiveSinkTokens ∨
      c.PinnedLeft e ∧ c.room e = c.effectiveSinkTokens + c.pinnedLen := by
    grind [room]
  have hleft := PinnedLeft.lt (c := c) (e := e)
  have hpos : c.hasPinnedSink → 0 ≤ c.pinnedStart ∧ 0 < c.pinnedLen := by simp [hasPinnedSink]
  refine ⟨fun h _ => ⟨fun hp => ?_, fun hlt => ?_⟩, fun h => ⟨?_, ?_, ?_, ?_, ?_⟩⟩
  · -- the first pinned row past the sink
    have hfirst := h.pinned hp (max c.pinnedStart c.effectiveSinkTokens).toNat
    have := hpos hp
    rw [hmem] at hfirst
    grind
  · -- the first row of the chunk past the sink, and the first past the pinned rows
    have hfirst := h.chunk (max ls c.effectiveSinkTokens).toNat
    have hnext := h.chunk (c.pinnedStart + c.pinnedLen).toNat
    rw [hmem] at hfirst hnext
    rcases hroom with ⟨hno, hr⟩ | ⟨hl, hr⟩
    · simp only [hno, false_and, false_or, or_false] at hfirst ⊢
      omega
    · have := hleft hl
      simp only [hl, true_and] at hfirst hnext ⊢
      omega
  · grind
  · grind [RoomIsFree]
  · grind [RoomIsFree]
  · exact (nodup_cut hpin hW hle he).1
  · exact (nodup_cut hpin hW hle he).2
end

lemma localEnd_place_le [Zero α] (c : CausalSelfAttentionKVCache α) (hs : HeadSlice)
    (a : UpdateCall α) (g l : Int) :
    (c.place hs a g l).1.localEnd ≤ (c.place hs a g l).1.updatedLocalEnd := by
  simp only [place, UpdateCall.currentChunkEnd]
  grind

lemma writeIndices_cases (g l : Int) : ∃ g' l' gi li, c.writeIndices g l =
    { c with globalEndIndex := g', localEndIndex := l', globalEndIndexInt := gi,
             localEndIndexInt := li } := by
  unfold writeIndices
  split
  · exact ⟨_, _, _, _, rfl⟩
  · exact ⟨_, _, _, _, rfl⟩

section
variable [Zero α] (hrun : c.updateAndGetAttentionKv a = (.ok view, c'))
  (hrec : a.recentWindowTokens = none) (hsink : 0 < c'.globalSinkTokens ∨ c'.hasPinnedSink)

include hrun hrec hsink

/-- The keys a call returns are those of `_pinned_attention_view`. -/
lemma update_pinned_view : (∃ hs, view.kv = c'.catCacheSlices hs (c'.viewSlices view.visibleLocalEnd)) ∧
    0 ≤ view.localStartIndex ∧ view.localEndIndex - view.localStartIndex = a.numNewTokens ∧
    view.localEndIndex ≤ view.visibleLocalEnd := by
  unfold updateAndGetAttentionKv at hrun
  split at hrun
  case h_1 => cases hrun
  case h_2 hs _ =>
    dsimp only at hrun
    generalize c.readIndices = r at hrun
    have hend := r.2.localEnd_place_le hs a r.1.1 r.1.2
    generalize r.2.place hs a r.1.1 r.1.2 = q at hrun hend
    split at hrun
    case isTrue => cases hrun
    case isFalse hrange =>
      simp only [visibleSlices, hrec] at hrun
      obtain ⟨g, l, gi, li, hw⟩ := writeIndices_cases
        (c := { q.2 with kv := q.2.kv.assign hs q.1.localStart.toNat a.kv })
        q.1.updatedGlobalEnd q.1.updatedLocalEnd
      rw [hw] at hrun
      have hfits : 0 ≤ q.1.localStart ∧ q.1.localEnd - q.1.localStart = a.numNewTokens := by omega
      cases hrun
      exact ⟨⟨hs, congrArg (catCacheSlices _ hs) (if_pos hsink)⟩, hfits.1, hfits.2, hend⟩

/-- Where the view is complete: exactly where no pinned row and none of the chunk lies in the rows
given up for the sink. -/
theorem pinned_view_complete_iff (hpin : 0 ≤ c'.pinnedLen)
    (hW : c'.effectiveSinkTokens + c'.pinnedLen + a.numNewTokens ≤ c'.attentionWindowSize) :
    (∃ hs, view.kv = c'.catCacheSlices hs (c'.viewSlices view.visibleLocalEnd)) ∧
      (c'.CompleteView view.localStartIndex view.localEndIndex view.visibleLocalEnd ↔
        c'.RoomIsFree view.localStartIndex view.localEndIndex view.visibleLocalEnd) := by
  obtain ⟨hkv, hstart, hlen, hend⟩ := update_pinned_view hrun hrec hsink
  have hn : 0 ≤ a.numNewTokens := Int.natCast_nonneg _
  exact ⟨hkv, completeView_iff hpin (by omega) (by omega) hstart hend⟩
end

/-- A sink of one token, one pinned token in slot 2, and a window of six over eight tokens. -/
def pinnedAtWindow : CausalSelfAttentionKVCache Nat :=
  { create (oneHeadBuffer 8) true 1 6 false 1 with
    globalEndIndex := 7
    localEndIndex := 7
    globalEndIndexInt := some 7
    localEndIndexInt := some 7
    pinnedStart := 2
    pinnedLen := 1 }

theorem pinned_row_passed_over : ∃ view c',
    pinnedAtWindow.updateAndGetAttentionKv (oneHeadCall 7 none [17]) = (.ok view, c') ∧
    c'.effectiveSinkTokens + c'.pinnedLen + 1 ≤ c'.attentionWindowSize ∧
    2 ∉ sliceSlots (c'.viewSlices view.visibleLocalEnd) ∧
    ¬ c'.CompleteView view.localStartIndex view.localEndIndex view.visibleLocalEnd :=
  ⟨_, _, rfl, by decide, by decide, fun h =>
    absurd (h.pinned rfl 2 (by decide) (by decide) (by decide)) (by decide)⟩

theorem pinned_row_in_window : ∃ view c',
    pinnedAtWindow.updateAndGetAttentionKv (oneHeadCall 5 none [15]) = (.ok view, c') ∧
    (c'.CompleteView view.localStartIndex view.localEndIndex view.visibleLocalEnd ↔
      c'.RoomIsFree view.localStartIndex view.localEndIndex view.visibleLocalEnd) :=
  ⟨_, _, rfl, (pinned_view_complete_iff (c := pinnedAtWindow) (a := oneHeadCall 5 none [15]) rfl rfl
    (by decide) (by decide) (by decide)).2⟩
end CausalSelfAttentionKVCache
end Sglang
