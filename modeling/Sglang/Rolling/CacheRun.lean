import Sglang.Rolling.Layout

/-!
# The Rolling Forcing cache over a whole video

The schedule caches the first block of each window.
-/

namespace Sglang
open List
open KVCell (token)

/-- Whole blocks, a sink of one block, and room for it and one more. -/
structure RollingConfig.Sized (cfg : RollingConfig) (cacheBlocks maxBlocks : Nat) : Prop where
  frame_pos : 0 < cfg.frameSeqlen
  block_pos : 0 < cfg.numFramesPerBlock
  sink : cfg.sinkTokens = cfg.blockTokens
  max : cfg.maxAttentionTokens = maxBlocks * cfg.blockTokens
  two_le : 2 ≤ cacheBlocks

structure CacheHolds (cfg : RollingConfig) (cacheBlocks n : Nat) (c : RollingCache) : Prop where
  length : c.kv.length = cacheBlocks * cfg.blockTokens
  globalEnd : c.globalEndIndex = (n * cfg.blockTokens : Nat)
  localEnd : c.localEndIndex = (min (n * cfg.blockTokens) (cacheBlocks * cfg.blockTokens) : Nat)
  sink : 0 < n → ∀ i, i < cfg.blockTokens → c.kv[i]? = some (some ⟨i, []⟩)
  slots : ∀ i : Nat, cfg.blockTokens ≤ i → (i : Int) < c.localEndIndex →
    c.kv[i]? = some (some ⟨i + (c.globalEndIndex - c.localEndIndex),
      [i + (c.globalEndIndex - c.localEndIndex)]⟩)

structure LayoutSpec (cfg : RollingConfig) (c : RollingCache) (call : RollingCall)
    (layout : RollingCacheLayout) (ls ws : Nat) : Prop where
  updating : layout.updatingCache = call.updatingCache
  localStart : layout.localStartIndex = ls
  localEnd : layout.localEndIndex = ls + cfg.blockTokens
  globalEndAfter : layout.globalEndAfter = call.currentStart + cfg.blockTokens
  localEndAfter : layout.localEndAfter = ls + cfg.blockTokens
  end_eq : ls + cfg.blockTokens = min (call.currentStart + cfg.blockTokens) c.kv.length
  le_start : ls ≤ call.currentStart
  first : call.currentStart = 0 → ls = 0
  later : 0 < call.currentStart → cfg.blockTokens ≤ ls
  /-- The block is already cached, or it is appended, or it evicts a block. -/
  before : (c.globalEndIndex = call.currentStart + cfg.blockTokens ∧
      c.localEndIndex = ls + cfg.blockTokens ∧ layout.numEvictedTokens = 0) ∨
    (c.globalEndIndex = call.currentStart ∧ c.localEndIndex = ls ∧ call.currentStart = ls ∧
      layout.numEvictedTokens = 0) ∨
    (c.globalEndIndex = call.currentStart ∧ c.localEndIndex = ls + cfg.blockTokens ∧
      layout.numEvictedTokens = cfg.blockTokens ∧ layout.numRolledTokens = ls - cfg.blockTokens ∧
      cfg.blockTokens ≤ ls)
  anchorRope : layout.anchorRopeStart = if 0 ≤ layout.anchorStartFrame
    then layout.anchorStartFrame * cfg.frameSeqlen else -1
  workingStart : 0 < call.currentStart → layout.workingStart = ws
  updatingRange : 0 < call.currentStart → call.updatingCache = true →
    layout.workingEnd = ls + cfg.blockTokens ∧
    ((ws = 0 ∧ layout.anchorStartFrame = 0 ∧ ls + cfg.blockTokens ≤ cfg.maxAttentionTokens) ∨
     (cfg.blockTokens ≤ ws ∧ layout.anchorStartFrame = -1 ∧
      ws + cfg.maxAttentionTokens = ls + cfg.blockTokens))
  denoiseRange : 0 < call.currentStart → call.updatingCache = false →
    layout.workingEnd = ls ∧ cfg.blockTokens ≤ ws ∧ ws ≤ ls ∧ 0 ≤ layout.anchorStartFrame ∧
    layout.anchorStartFrame * cfg.frameSeqlen + cfg.blockTokens = ws + (call.currentStart - ls) ∧
    cfg.blockTokens + (ls - ws) + call.qTokens ≤ cfg.maxAttentionTokens

variable {cfg : RollingConfig} {cacheBlocks maxBlocks n s qBlocks : Nat} {c : RollingCache}

section
variable (hc : cfg.Sized cacheBlocks maxBlocks)
include hc

lemma RollingConfig.Sized.blockTokens_pos : 0 < cfg.blockTokens :=
  mul_pos hc.block_pos hc.frame_pos

lemma workingRange_spec (updating : Bool) {l : Nat} (hl0 : s = 0 → l = 0) (hl1 : 0 < s → 1 ≤ l)
    (hls : l ≤ s) (hq : qBlocks + 1 ≤ maxBlocks) :
    ∃ r ws, workingRange cfg (s * cfg.blockTokens : Nat) (qBlocks * cfg.blockTokens : Nat) updating
        (l * cfg.blockTokens : Nat) ((l * cfg.blockTokens : Nat) + cfg.blockTokens) = .ok r ∧
      (0 < s * cfg.blockTokens → r.workingStart = (ws : Nat)) ∧
      (0 < s * cfg.blockTokens → updating = true → r.workingEnd = l * cfg.blockTokens + cfg.blockTokens ∧
        ((ws = 0 ∧ r.anchorStartFrame = 0 ∧
          l * cfg.blockTokens + cfg.blockTokens ≤ cfg.maxAttentionTokens) ∨
         (cfg.blockTokens ≤ ws ∧ r.anchorStartFrame = -1 ∧
          ws + cfg.maxAttentionTokens = l * cfg.blockTokens + cfg.blockTokens))) ∧
      (0 < s * cfg.blockTokens → updating = false → r.workingEnd = l * cfg.blockTokens ∧
        cfg.blockTokens ≤ ws ∧ ws ≤ l * cfg.blockTokens ∧ 0 ≤ r.anchorStartFrame ∧
        r.anchorStartFrame * cfg.frameSeqlen + cfg.blockTokens =
          ws + ((s * cfg.blockTokens : Nat) - (l * cfg.blockTokens : Nat)) ∧
        cfg.blockTokens + (l * cfg.blockTokens - ws) + qBlocks * cfg.blockTokens ≤
          cfg.maxAttentionTokens) := by
  have hpos := hc.blockTokens_pos
  rcases eq_zero_or_pos s with rfl | hs
  · -- The first block: nothing is read from the cache.
    rw [hl0 rfl, workingRange, if_pos (by simp)]
    exact ⟨_, 0, rfl, by simp, by simp, by simp⟩
  have hl := hl1 hs
  have hmul := Nat.mul_le_mul_right cfg.blockTokens hl
  unfold workingRange
  rw [if_neg (by omega), hc.max]
  simp only [Nat.mul_pos hs hpos, forall_const]
  rcases updating with _ | _
  swap
  · simp only [if_true, reduceCtorEq, false_implies, and_true, forall_const]
    by_cases ha : l + 1 ≤ maxBlocks
    · have hle := Nat.mul_le_mul_right cfg.blockTokens ha
      rw [add_mul, one_mul] at hle
      refine ⟨_, 0, rfl, ?_, rfl, .inl ⟨rfl, ?_, hle⟩⟩
      · simp only; omega
      · simp only; rw [if_pos (by omega)]
    have hle := Nat.mul_le_mul_right cfg.blockTokens (show maxBlocks + 1 ≤ l + 1 by omega)
    rw [add_mul, one_mul, add_mul, one_mul] at hle
    refine ⟨_, l * cfg.blockTokens + cfg.blockTokens - maxBlocks * cfg.blockTokens, rfl, ?_, rfl,
      .inr ⟨by omega, ?_, by omega⟩⟩
    · simp only; omega
    · simp only; rw [if_neg (by omega)]
  simp only [Bool.false_eq_true, if_false, false_implies, true_and, forall_const]
  -- `k` blocks come before the working range, `k'` blocks are in it, and `e` blocks of the video
  -- lie before the sink's new position.
  obtain ⟨d, rfl⟩ : ∃ d, maxBlocks = d + qBlocks + 1 := ⟨maxBlocks - qBlocks - 1, by omega⟩
  obtain ⟨k, k', rfl, hk⟩ : ∃ k k', l = k + k' ∧ ((k = 1 ∧ k' ≤ d) ∨ (1 ≤ k ∧ k' = d)) := by
    by_cases hd : l ≤ d + 1
    · exact ⟨1, l - 1, by omega, .inl ⟨rfl, by omega⟩⟩
    · exact ⟨l - d, d, by omega, .inr ⟨by omega, rfl⟩⟩
  obtain ⟨e, rfl⟩ : ∃ e, s = e + k' + 1 := ⟨s - k' - 1, by omega⟩
  have hkd : k' * cfg.blockTokens ≤ d * cfg.blockTokens := Nat.mul_le_mul_right _ (by omega)
  have hk1 : 1 * cfg.blockTokens ≤ k * cfg.blockTokens := Nat.mul_le_mul_right _ (by omega)
  have hstart : max (cfg.blockTokens : Int) (((k + k') * cfg.blockTokens : Nat) -
      (((d + qBlocks + 1) * cfg.blockTokens : Nat) - (qBlocks * cfg.blockTokens : Nat) -
        cfg.blockTokens)) = (k * cfg.blockTokens : Nat) := by
    grind
  have hframes : ∀ i : Nat, ((i * cfg.blockTokens : Nat) : Int) / cfg.frameSeqlen =
      (i * cfg.numFramesPerBlock : Nat) := by
    intro i
    have hf := hc.frame_pos
    rw [RollingConfig.blockTokens, ← mul_assoc, Int.natCast_mul (i * cfg.numFramesPerBlock)]
    exact Int.mul_ediv_cancel _ (by omega)
  have hworking : ((k + k') * cfg.blockTokens : Nat) - ((k * cfg.blockTokens : Nat) : Int) =
      (k' * cfg.blockTokens : Nat) := by simp only [add_mul]; omega
  rw [hstart, hworking, hframes, hframes]
  have hanchor : (((e + k' + 1) * cfg.numFramesPerBlock : Nat) : Int) -
      (k' * cfg.numFramesPerBlock : Nat) - cfg.numFramesPerBlock =
      (e * cfg.numFramesPerBlock : Nat) := by simp only [add_mul]; omega
  rw [hanchor, if_neg (by omega)]
  refine ⟨_, k * cfg.blockTokens, rfl, rfl, rfl, by omega,
    Nat.mul_le_mul_right _ (by omega), by simp only; omega, ?_, ?_⟩
  · have : ((e * cfg.numFramesPerBlock : Nat) : Int) * cfg.frameSeqlen =
        (e * cfg.blockTokens : Nat) := by
      rw [← Int.natCast_mul, RollingConfig.blockTokens, mul_assoc]
    simp only [this, add_mul]
    omega
  · omega

variable (hh : CacheHolds cfg cacheBlocks n c)
include hh

lemma placeBlock_spec (hn : n = s ∨ n = s + 1) :
    ∃ p l, placeBlock cfg c ((s * cfg.blockTokens : Nat) + cfg.blockTokens) = .ok p ∧
      l ≤ s ∧ (s = 0 → l = 0) ∧ (0 < s → 1 ≤ l) ∧
      l * cfg.blockTokens + cfg.blockTokens = min (s * cfg.blockTokens + cfg.blockTokens) c.kv.length ∧
      p.newLocalEnd = (l * cfg.blockTokens : Nat) + cfg.blockTokens ∧
      (0 < p.numNewTokens ↔ c.globalEndIndex = (s * cfg.blockTokens : Nat)) ∧
      ((c.globalEndIndex = (s * cfg.blockTokens : Nat) + cfg.blockTokens ∧
          c.localEndIndex = (l * cfg.blockTokens : Nat) + cfg.blockTokens ∧ p.numEvictedTokens = 0) ∨
        (c.globalEndIndex = (s * cfg.blockTokens : Nat) ∧
          c.localEndIndex = (l * cfg.blockTokens : Nat) ∧
          s * cfg.blockTokens = l * cfg.blockTokens ∧ p.numEvictedTokens = 0) ∨
        (c.globalEndIndex = (s * cfg.blockTokens : Nat) ∧
          c.localEndIndex = (l * cfg.blockTokens : Nat) + cfg.blockTokens ∧
          p.numEvictedTokens = cfg.blockTokens ∧
          p.numRolledTokens = (l * cfg.blockTokens : Nat) - cfg.blockTokens ∧
          cfg.blockTokens ≤ l * cfg.blockTokens)) := by
  have hpos := hc.blockTokens_pos
  have hsink := hc.sink
  have htwo := hc.two_le
  have hg := hh.globalEnd
  have hl := hh.localEnd
  have hlen := hh.length
  unfold placeBlock
  by_cases hs : s < cacheBlocks
  · have hfits := block_end_le (n := cfg.blockTokens) hs
    rcases hn with rfl | rfl
    · rw [if_neg (by omega), if_neg (by omega)]
      refine ⟨_, n, rfl, le_rfl, id, id, by omega, ?_, ?_,
        .inr (.inl ⟨hg, by omega, rfl, rfl⟩)⟩ <;> simp only <;> omega
    rw [add_mul] at hg hl
    rw [if_neg (by omega), if_neg (by omega)]
    refine ⟨_, s, rfl, le_rfl, id, id, by omega, ?_, ?_,
      .inl ⟨by omega, by omega, rfl⟩⟩ <;> simp only <;> omega
  have hle := Nat.mul_le_mul_right cfg.blockTokens (show cacheBlocks ≤ s by omega)
  have hmul : cacheBlocks * cfg.blockTokens = (cacheBlocks - 1) * cfg.blockTokens + cfg.blockTokens := by
    rw [← Nat.succ_mul]
    congr 1
    omega
  have hone := Nat.mul_le_mul_right cfg.blockTokens (show 1 ≤ cacheBlocks - 1 by omega)
  rcases hn with rfl | rfl
  · rw [if_neg (by omega), if_pos ⟨by omega, by omega⟩]
    refine ⟨_, cacheBlocks - 1, rfl, by omega, by omega, by omega, by omega, ?_, ?_,
      .inr (.inr ⟨hg, by omega, ?_, ?_, by omega⟩)⟩ <;> simp only <;> omega
  rw [add_mul] at hg hl
  rw [if_neg (by omega), if_neg (by omega)]
  refine ⟨_, cacheBlocks - 1, rfl, by omega, by omega, by omega, by omega, ?_, ?_,
    .inl ⟨by omega, by omega, rfl⟩⟩ <;> simp only <;> omega

lemma computeRollingCacheLayout_spec (hn : n = s ∨ n = s + 1) (hq : qBlocks + 1 ≤ maxBlocks)
    (updating : Bool) : ∃ layout ls ws, computeRollingCacheLayout cfg c (s * cfg.blockTokens : Nat)
        (qBlocks * cfg.blockTokens : Nat) updating = .ok layout ∧
      LayoutSpec cfg c ⟨s * cfg.blockTokens, qBlocks * cfg.blockTokens, updating⟩ layout ls ws := by
  obtain ⟨p, l, hp, hls, hl0, hl1, hmin, hend, hnew, hbefore⟩ := placeBlock_spec hc hh hn
  have hle := Nat.mul_le_mul_right cfg.blockTokens hls
  have hstart : p.newLocalEnd - cfg.blockTokens = (l * cfg.blockTokens : Nat) := by omega
  unfold computeRollingCacheLayout
  simp only [hp, bind, Except.bind, pure, Except.pure, hstart]
  obtain ⟨r, ws, hr, hws, hupd, hden⟩ := workingRange_spec hc updating hl0 hl1 hls hq
  rw [hend, hr]
  refine ⟨_, l * cfg.blockTokens, ws, rfl, ?_⟩
  exact {
    updating := rfl
    localStart := rfl
    localEnd := rfl
    globalEndAfter := by simp only; split <;> omega
    localEndAfter := by simp only; split <;> omega
    end_eq := hmin
    le_start := hle
    first := fun h => by simp only at h; omega
    later := fun h => by
      have := Nat.mul_le_mul_right cfg.blockTokens (hl1 (Nat.pos_of_mul_pos_right h))
      omega
    before := hbefore
    anchorRope := rfl
    workingStart := hws
    updatingRange := hupd
    denoiseRange := hden }
end

variable {start : Int} {j : Nat} {cells : List (Option KVCell)} {k : Nat}

lemma getElem?_freshCells (hj : j < k) : (freshCells start k)[j]? = some (some ⟨start + j, []⟩) := by
  simp [freshCells, getElem?_range hj]

@[simp] lemma length_freshCells (start : Int) (k : Nat) : (freshCells start k).length = k := by
  simp [freshCells]

@[simp] lemma length_applyRotaryEmb (start : Int) (cells : List (Option KVCell)) :
    (applyRotaryEmb start cells).length = cells.length := by
  simp [applyRotaryEmb]

lemma getElem?_applyRotaryEmb {x : KVCell} (hx : cells[j]? = some (some x)) :
    (applyRotaryEmb start cells)[j]? = some (some ⟨x.token, (start + j) :: x.ropes⟩) := by
  simp [applyRotaryEmb, getElem?_mapIdx, hx]

lemma getElem?_ropedKey (hj : j < k) :
    (applyRotaryEmb start (freshCells start k))[j]? = some (some ⟨start + j, [start + j]⟩) :=
  getElem?_applyRotaryEmb (getElem?_freshCells hj)

section
variable {call : RollingCall} {layout : RollingCacheLayout} {ls ws : Nat}
variable (hc : cfg.Sized cacheBlocks maxBlocks)
include hc

lemma LayoutSpec.getElem?_write
    (hl : LayoutSpec cfg c call layout ls ws) (hlen : c.localEndIndex ≤ c.kv.length)
    (key ropedKey : List (Option KVCell)) (hkey : cfg.blockTokens ≤ key.length)
    (hroped : cfg.blockTokens ≤ ropedKey.length) :
    (writeFirstBlock cfg c layout key ropedKey).kv.length = c.kv.length ∧
    ∀ i, (writeFirstBlock cfg c layout key ropedKey).kv[i]? =
      if ls ≤ i ∧ i < ls + cfg.blockTokens then (if ls = 0 then key else ropedKey)[i - ls]?
      else if layout.numEvictedTokens = cfg.blockTokens ∧ cfg.blockTokens ≤ i ∧ i < ls
        then c.kv[i + cfg.blockTokens]? else c.kv[i]? := by
  have hpos := hc.blockTokens_pos
  have hend := hl.end_eq
  unfold writeFirstBlock
  simp only [hl.localStart, hc.sink, Int.natCast_eq_zero, Int.toNat_natCast]
  generalize hrolled : (if 0 < layout.numEvictedTokens ∧ 0 < layout.numRolledTokens then _ else c.kv)
    = rolled
  have hroll : rolled.length = c.kv.length ∧ ∀ i, rolled[i]? =
      if layout.numEvictedTokens = cfg.blockTokens ∧ cfg.blockTokens ≤ i ∧ i < ls
      then c.kv[i + cfg.blockTokens]? else c.kv[i]? := by
    subst hrolled
    rcases hl.before with ⟨-, -, hev⟩ | ⟨-, -, -, hev⟩ | ⟨-, hL, hev, hr, hB⟩
    · grind
    · grind
    by_cases hroll : cfg.blockTokens < ls
    swap
    · rw [if_neg (by omega)]
      exact ⟨rfl, fun i => by rw [if_neg (by omega)]⟩
    have hext := length_extract (cfg.blockTokens + layout.numEvictedTokens).toNat
      (show (cfg.blockTokens + layout.numEvictedTokens).toNat + layout.numRolledTokens.toNat ≤
        c.kv.length by omega)
    rw [if_pos (by omega)]
    refine ⟨length_splice (by omega), fun i => ?_⟩
    rw [getElem?_splice (by omega), hext]
    by_cases hi : cfg.blockTokens ≤ i ∧ i < ls
    · rw [if_pos (by omega), if_pos ⟨hev, hi⟩, getElem?_extract (by omega)]
      congr 1
      omega
    · rw [if_neg (by omega), if_neg (by omega)]
  obtain ⟨hrlen, hrget⟩ := hroll
  have hwlen : ((if ls = 0 then key else ropedKey).take cfg.blockTokens).length =
      cfg.blockTokens := by
    rw [length_take]
    split <;> omega
  refine ⟨by rw [length_splice (by omega), hrlen], fun i => ?_⟩
  rw [getElem?_splice (by omega), hwlen, hrget]
  by_cases hi : ls ≤ i ∧ i < ls + cfg.blockTokens
  · rw [if_pos hi, if_pos hi, getElem?_take_of_lt (by omega)]
  · rw [if_neg hi, if_neg hi]

lemma CacheHolds.write (hh : CacheHolds cfg cacheBlocks n c)
    (hstart : call.currentStart = s * cfg.blockTokens) (hq : cfg.blockTokens ≤ call.qTokens)
    (hl : LayoutSpec cfg c call layout ls ws) : CacheHolds cfg cacheBlocks (s + 1)
      (writeFirstBlock cfg c layout (freshCells call.currentStart call.qTokens)
        (applyRotaryEmb call.currentStart (freshCells call.currentStart call.qTokens))) := by
  have hpos := hc.blockTokens_pos
  have hlen := hh.length
  have hL := hh.localEnd
  have hend := hl.end_eq
  have hstep : (s + 1) * cfg.blockTokens = s * cfg.blockTokens + cfg.blockTokens := Nat.succ_mul ..
  obtain ⟨hwlen, hwget⟩ := hl.getElem?_write hc (by omega)
    (freshCells call.currentStart call.qTokens)
    (applyRotaryEmb call.currentStart (freshCells call.currentStart call.qTokens))
    (by simpa using hq) (by simpa using hq)
  refine ⟨hwlen.trans hlen, ?_, ?_, ?_, ?_⟩
  · show layout.globalEndAfter = _
    rw [hl.globalEndAfter, hstart]
    omega
  · show layout.localEndAfter = _
    rw [hl.localEndAfter]
    omega
  · intro _ i hi
    rw [hwget i]
    rcases eq_zero_or_pos call.currentStart with hcs | hcs
    · -- The first block itself is written.
      rw [hl.first hcs, if_pos (by omega), if_pos rfl, Nat.sub_zero, getElem?_freshCells (by omega), hcs]
      simp
    have hB := hl.later hcs
    rw [if_neg (by omega), if_neg (by omega)]
    refine hh.sink (Nat.pos_of_ne_zero fun hn => ?_) i hi
    subst hn
    rcases hl.before with h | h | h <;> omega
  intro i hBi hi
  have hi' : (i : Int) < ls + cfg.blockTokens := hl.localEndAfter ▸ hi
  show _ = some (some (⟨i + (layout.globalEndAfter - layout.localEndAfter),
    [i + (layout.globalEndAfter - layout.localEndAfter)]⟩ : KVCell))
  rw [hwget i, show layout.globalEndAfter - layout.localEndAfter = call.currentStart - ls by
    rw [hl.globalEndAfter, hl.localEndAfter]; omega]
  have htoken : ∀ t : Int, t = i + (call.currentStart - ls) →
      some (some (⟨t, [t]⟩ : KVCell)) =
        some (some ⟨i + (call.currentStart - ls), [i + (call.currentStart - ls)]⟩) :=
    fun t ht => ht ▸ rfl
  by_cases hin : ls ≤ i
  · -- A slot of the new block.
    rw [if_pos ⟨hin, by omega⟩, if_neg (by omega), getElem?_ropedKey (by omega)]
    exact htoken _ (by omega)
  -- A slot of an older block, which an eviction has moved.
  rw [if_neg (by omega)]
  rcases hl.before with ⟨h1, h2, h3⟩ | ⟨h1, h2, h3, h4⟩ | ⟨h1, h2, h3, h4, h5⟩
  iterate 2
    · rw [if_neg (by omega), hh.slots i hBi (by omega)]
      exact htoken _ (by omega)
  · rw [if_pos ⟨h3, hBi, by omega⟩, hh.slots (i + cfg.blockTokens) (by omega) (by omega)]
    exact htoken _ (by omega)
end

def segmentOffsets (start : Int) : List (Int × Int) → List Int
  | [] => []
  | segment :: segments => start :: segmentOffsets (start + segment.2) segments

structure RollingPassOk (cfg : RollingConfig) (call : RollingCall) (pass : RollingPass) : Prop where
  inside : 0 ≤ pass.layout.localStartIndex ∧
    pass.layout.localEndIndex = pass.layout.localStartIndex + cfg.blockTokens ∧
    pass.layout.localEndIndex ≤ pass.cache.kv.length
  sinkSlots : ∀ i, i < cfg.sinkTokens → ∃ ropes, pass.cache.kv[i]? = some (some ⟨i, ropes⟩)
  slots : ∀ i : Nat, cfg.sinkTokens ≤ i → (i : Int) < pass.cache.localEndIndex →
    ∃ ropes, pass.cache.kv[i]? =
      some (some ⟨i + (pass.cache.globalEndIndex - pass.cache.localEndIndex), ropes⟩)
  /-- The attended tokens are those of the segments, in order. -/
  keys : pass.attended.map (Option.map token) =
    (segmentTokens (pass.layout.visibleKeySegments cfg.sinkTokens cfg.blockTokens
      call.currentStart call.qTokens)).map some
  /-- Past the first block the keys are roped at consecutive positions. -/
  ropes : call.updatingCache = false → 0 < call.currentStart → ∀ (j : Nat) x,
    pass.attended[j]? = some x →
    ∃ t, x = some ⟨t, [pass.layout.anchorStartFrame * cfg.frameSeqlen + j]⟩
  /-- Then `visible_key_rope_starts`, or the segments where it is absent, tell these positions. -/
  ropeStarts : call.updatingCache = false → 0 < call.currentStart →
    ∀ segments, segments = pass.layout.visibleKeySegments cfg.sinkTokens cfg.blockTokens
      call.currentStart call.qTokens →
    (pass.layout.visibleKeyRopeStarts segments).getD (segments.map (·.1)) =
      segmentOffsets (pass.layout.anchorStartFrame * cfg.frameSeqlen) segments
  bounded : pass.attended.length ≤ cfg.maxAttentionTokens

lemma tokens_eq_segment {start : Int} (hlen : cells.length = k)
    (h : ∀ j < k, ∃ ropes, cells[j]? = some (some ⟨start + j, ropes⟩)) :
    cells.map (Option.map token) = (segmentTokens [(start, k)]).map some := by
  apply ext_getElem?
  intro j
  rw [segmentTokens_cons, segmentTokens, flatMap_nil, append_nil, Int.toNat_natCast]
  grind

lemma segmentTokens_append (xs ys : List (Int × Int)) :
    segmentTokens (xs ++ ys) = segmentTokens xs ++ segmentTokens ys := flatMap_append

structure AfterWrite (cfg : RollingConfig) (c : RollingCache) (start ls : Nat) : Prop where
  length : ls + cfg.blockTokens ≤ c.kv.length
  sink : ∀ i, i < cfg.blockTokens → c.kv[i]? = some (some ⟨i, []⟩)
  slots : ∀ i, cfg.blockTokens ≤ i → i < ls + cfg.blockTokens →
    c.kv[i]? = some (some ⟨i + ((start : Int) - ls), [i + ((start : Int) - ls)]⟩)

namespace AfterWrite
variable {start ls ws we : Nat} {layout : RollingCacheLayout}

variable (hw : AfterWrite cfg c start ls)
include hw

lemma length_anchor : (reropeAnchor cfg c layout).length = cfg.blockTokens := by
  have := hw.length
  simp only [reropeAnchor, length_applyRotaryEmb, length_take]
  omega

lemma getElem?_anchor {j : Nat} (hj : j < cfg.blockTokens) : (reropeAnchor cfg c layout)[j]? =
      some (some ⟨j, [layout.anchorStartFrame * cfg.frameSeqlen + j]⟩) :=
  getElem?_applyRotaryEmb (by rw [getElem?_take_of_lt hj, hw.sink j hj])

lemma getElem?_working (hws : cfg.blockTokens ≤ ws)
    (hwe : we ≤ ls + cfg.blockTokens) {j : Nat} (hj : j < we - ws) : (c.kv.extract ws we)[j]? =
      some (some ⟨ws + ((start : Int) - ls) + j, [ws + ((start : Int) - ls) + j]⟩) := by
  rw [getElem?_extract hj, hw.slots (ws + j) (by omega) (by omega)]
  grind

lemma tokens_anchor : (reropeAnchor cfg c layout).map (Option.map token) =
      (segmentTokens [(0, (cfg.blockTokens : Int))]).map some :=
  tokens_eq_segment hw.length_anchor fun j hj =>
    ⟨_, by rw [hw.getElem?_anchor hj, zero_add]⟩

lemma tokens_working (hws : cfg.blockTokens ≤ ws) (hwe : we ≤ ls + cfg.blockTokens) :
    (c.kv.extract ws we).map (Option.map token) =
      (segmentTokens [(ws + ((start : Int) - ls), ((we - ws : Nat) : Int))]).map some :=
  tokens_eq_segment (length_extract _ (by have := hw.length; omega)) fun j hj =>
    ⟨_, hw.getElem?_working hws hwe hj⟩
end AfterWrite

lemma tokens_ropedKey (start : Int) (k : Nat) :
    (applyRotaryEmb start (freshCells start k)).map (Option.map token) =
      (segmentTokens [(start, (k : Int))]).map some :=
  tokens_eq_segment (by simp) fun j hj => ⟨_, getElem?_ropedKey hj⟩

section
variable {call : RollingCall} {layout : RollingCacheLayout} {ls ws : Nat} {c' : RollingCache}
variable {ropedKey : List (Option KVCell)}

lemma LayoutSpec.attended_first (hl : LayoutSpec cfg c call layout ls ws)
    (hcs : call.currentStart = 0) : attendedCells cfg c' layout ropedKey = ropedKey ∧
      layout.visibleKeySegments cfg.sinkTokens cfg.blockTokens call.currentStart call.qTokens =
        [((call.currentStart : Int), (call.qTokens : Int))] := by
  have h0 : layout.localStartIndex = 0 := by rw [hl.localStart, hl.first hcs]; rfl
  exact ⟨if_pos h0, if_pos h0⟩

variable (hc : cfg.Sized cacheBlocks maxBlocks) (hl : LayoutSpec cfg c call layout ls ws)
include hc hl

lemma LayoutSpec.ropeStarts_denoise (hcs : 0 < call.currentStart)
    (hu : call.updatingCache = false) {segments : List (Int × Int)}
    (hsegs : segments = layout.visibleKeySegments cfg.sinkTokens cfg.blockTokens
      call.currentStart call.qTokens) :
    (layout.visibleKeyRopeStarts segments).getD (segments.map (·.1)) =
      segmentOffsets (layout.anchorStartFrame * cfg.frameSeqlen) segments := by
  have hpos := hc.blockTokens_pos
  have hlater := hl.later hcs
  have hne : ¬ layout.localStartIndex = 0 := by rw [hl.localStart]; omega
  obtain ⟨hwe, hws, hwsle, hframe, hanchor, -⟩ := hl.denoiseRange hcs hu
  have hnonneg : 0 ≤ layout.anchorStartFrame * cfg.frameSeqlen :=
    mul_nonneg hframe (Int.natCast_nonneg _)
  have hrope := hl.anchorRope
  rw [if_pos hframe] at hrope
  -- Past its head, the list of starts is that of the offsets.
  obtain ⟨rest, hrest, hstarts⟩ : ∃ rest, segments = (0, (cfg.blockTokens : Int)) :: rest ∧
      rest.map (·.1) =
        segmentOffsets (layout.anchorStartFrame * cfg.frameSeqlen + cfg.blockTokens) rest := by
    unfold RollingCacheLayout.visibleKeySegments cacheRangeSegments at hsegs
    simp only [if_neg hne, hl.updating, hu, Bool.false_eq_true, if_false, hl.workingStart hcs, hwe,
      hl.globalEndAfter, hl.localEndAfter, hc.sink] at hsegs
    rw [if_neg (by omega), nil_append, append_assoc, singleton_append] at hsegs
    refine ⟨_, hsegs, ?_⟩
    split
    · simp only [singleton_append, map_cons, map_nil, segmentOffsets,
        cons.injEq, and_true]
      omega
    · simp only [nil_append, map_cons, map_nil, segmentOffsets,
        cons.injEq, and_true]
      omega
  unfold RollingCacheLayout.visibleKeyRopeStarts
  rw [if_neg (by simp [hl.updating, hu, hne]), hrope, hrest, segmentOffsets, ← hstarts]
  grind

variable (hw : AfterWrite cfg c' call.currentStart ls)
include hw

lemma LayoutSpec.attended_updating (hcs : 0 < call.currentStart) (hu : call.updatingCache = true) :
    (attendedCells cfg c' layout ropedKey).map (Option.map token) =
      (segmentTokens (layout.visibleKeySegments cfg.sinkTokens cfg.blockTokens
        call.currentStart call.qTokens)).map some ∧
    (attendedCells cfg c' layout ropedKey).length ≤ cfg.maxAttentionTokens := by
  have hpos := hc.blockTokens_pos
  have hlater := hl.later hcs
  have hlen := hw.length
  have hne : ¬ layout.localStartIndex = 0 := by rw [hl.localStart]; omega
  obtain ⟨hwe, hrange⟩ := hl.updatingRange hcs hu
  unfold attendedCells RollingCacheLayout.visibleKeySegments cacheRangeSegments
  simp only [if_neg hne, hl.updating, hu, if_true, hl.workingStart hcs, hwe, hl.globalEndAfter,
    hl.localEndAfter, hc.sink]
  rw [show ((ls : Int) + cfg.blockTokens).toNat = ls + cfg.blockTokens by omega, Int.toNat_natCast,
    if_pos (show (cfg.blockTokens : Int) < ls + cfg.blockTokens by omega)]
  rcases hrange with ⟨rfl, hanchor, hmax⟩ | ⟨hws, hanchor, hmax⟩
  swap
  · rw [if_neg (by omega), if_neg (by omega), nil_append,
      hw.tokens_working hws le_rfl]
    grind
  -- The sink is in reach.
  have hsplit : splice (c'.kv.extract 0 (ls + cfg.blockTokens)) 0 (reropeAnchor cfg c' layout) =
      reropeAnchor cfg c' layout ++ c'.kv.extract cfg.blockTokens (ls + cfg.blockTokens) := by
    rw [splice, hw.length_anchor, zero_add, take_zero, nil_append,
      extract_eq_take_drop, extract_eq_take_drop, drop_take]
    rfl
  rw [if_pos (by omega), if_pos (by omega), hsplit, map_append, hw.tokens_anchor,
    hw.tokens_working le_rfl le_rfl, segmentTokens_append, map_append]
  refine ⟨?_, ?_⟩
  · -- the two segments on both sides agree bound by bound
    congr 3 <;> congr 2 <;> omega
  · rw [length_append, hw.length_anchor, length_extract _ hlen]
    omega

lemma LayoutSpec.attended_denoise (hcs : 0 < call.currentStart) (hu : call.updatingCache = false)
    (hroped : ropedKey = applyRotaryEmb call.currentStart (freshCells call.currentStart call.qTokens)) :
    (attendedCells cfg c' layout ropedKey).map (Option.map token) =
      (segmentTokens (layout.visibleKeySegments cfg.sinkTokens cfg.blockTokens
        call.currentStart call.qTokens)).map some ∧
    (attendedCells cfg c' layout ropedKey).length ≤ cfg.maxAttentionTokens ∧
    ∀ (j : Nat) x, (attendedCells cfg c' layout ropedKey)[j]? = some x →
      ∃ t, x = some ⟨t, [layout.anchorStartFrame * cfg.frameSeqlen + j]⟩ := by
  have hpos := hc.blockTokens_pos
  have hlater := hl.later hcs
  have hlen := hw.length
  have hne : ¬ layout.localStartIndex = 0 := by rw [hl.localStart]; omega
  obtain ⟨hwe, hws, hwsle, -, hanchor, hmax⟩ := hl.denoiseRange hcs hu
  have hcells : attendedCells cfg c' layout ropedKey =
      reropeAnchor cfg c' layout ++ (c'.kv.extract ws ls ++ ropedKey) := by
    unfold attendedCells
    simp only [if_neg hne, hl.updating, hu, Bool.false_eq_true, if_false, hl.workingStart hcs, hwe,
      Int.toNat_natCast, append_assoc]
  have hsegs : segmentTokens (layout.visibleKeySegments cfg.sinkTokens cfg.blockTokens
      call.currentStart call.qTokens) =
      segmentTokens [(0, (cfg.blockTokens : Int))] ++
        (segmentTokens [(ws + ((call.currentStart : Int) - ls), ((ls - ws : Nat) : Int))] ++
          segmentTokens [((call.currentStart : Int), (call.qTokens : Int))]) := by
    unfold RollingCacheLayout.visibleKeySegments cacheRangeSegments
    simp only [if_neg hne, hl.updating, hu, Bool.false_eq_true, if_false, hl.workingStart hcs, hwe,
      hl.globalEndAfter, hl.localEndAfter, hc.sink]
    rw [if_neg (by omega), nil_append, segmentTokens_append, segmentTokens_append, append_assoc]
    congr 2
    split
    · congr 3 <;> omega
    · -- The working range is empty.
      rw [show ls - ws = 0 by omega]
      rfl
  have hroped' : ropedKey.length = call.qTokens := by simp [hroped]
  rw [hcells, hsegs]
  refine ⟨?_, ?_, ?_⟩
  · simp only [map_append]
    rw [hw.tokens_anchor, hw.tokens_working hws (by omega), hroped, tokens_ropedKey]
  · rw [length_append, length_append, hw.length_anchor, length_extract _ (by omega),
      hroped']
    omega
  intro j x hx
  rw [getElem?_append, getElem?_append, hw.length_anchor,
    length_extract _ (show ls ≤ c'.kv.length by omega)] at hx
  split at hx
  · -- A token of the sink.
    rename_i hj
    rw [hw.getElem?_anchor hj] at hx
    exact ⟨_, (Option.some.inj hx).symm⟩
  split at hx
  · -- A token of the working range, roped at its own position.
    rename_i hj hj'
    rw [hw.getElem?_working hws (by omega) hj', show (ws : Int) + (call.currentStart - ls) +
      (j - cfg.blockTokens : Nat) = layout.anchorStartFrame * cfg.frameSeqlen + j by omega] at hx
    exact ⟨_, (Option.some.inj hx).symm⟩
  -- A token of the window.
  have hjq : j - cfg.blockTokens - (ls - ws) < call.qTokens := by
    grind
  rw [hroped, getElem?_ropedKey hjq, show (call.currentStart : Int) +
    (j - cfg.blockTokens - (ls - ws) : Nat) =
      layout.anchorStartFrame * cfg.frameSeqlen + j by omega] at hx
  exact ⟨_, (Option.some.inj hx).symm⟩

lemma LayoutSpec.attended (hq : call.qTokens ≤ cfg.maxAttentionTokens)
    (hroped : ropedKey = applyRotaryEmb call.currentStart (freshCells call.currentStart call.qTokens)) :
    (attendedCells cfg c' layout ropedKey).map (Option.map token) =
      (segmentTokens (layout.visibleKeySegments cfg.sinkTokens cfg.blockTokens
        call.currentStart call.qTokens)).map some ∧
    (attendedCells cfg c' layout ropedKey).length ≤ cfg.maxAttentionTokens := by
  rcases eq_zero_or_pos call.currentStart with hcs | hcs
  · obtain ⟨hcells, hsegs⟩ := hl.attended_first hcs
    rw [hcells, hsegs, hroped]
    exact ⟨tokens_ropedKey .., by simpa using hq⟩
  cases hu : call.updatingCache with
  | true => exact hl.attended_updating hc hw hcs hu
  | false =>
    obtain ⟨hkeys, hlen, -⟩ := hl.attended_denoise hc hw hcs hu hroped
    exact ⟨hkeys, hlen⟩
end

lemma CacheHolds.afterWrite {ls : Nat} (hh : CacheHolds cfg cacheBlocks (s + 1) c)
    (hls : c.localEndIndex = ls + cfg.blockTokens) : AfterWrite cfg c (s * cfg.blockTokens) ls := by
  have hg := hh.globalEnd
  have hl := hh.localEnd
  have hlen := hh.length
  rw [add_mul, one_mul] at hg
  refine ⟨by omega, hh.sink (Nat.succ_pos s), ?_⟩
  intro i hi hi'
  rw [hh.slots i hi (by omega), show c.globalEndIndex - c.localEndIndex =
    ((s * cfg.blockTokens : Nat) : Int) - ls by omega]

lemma rollingForward_ok (hc : cfg.Sized cacheBlocks maxBlocks)
    (hh : CacheHolds cfg cacheBlocks n c) (hn : n = s ∨ n = s + 1) (qBlocks : Nat)
    (hq : 1 ≤ qBlocks) (hmax : qBlocks + 1 ≤ maxBlocks) (updating : Bool) :
    ∃ pass, rollingForward cfg c ⟨s * cfg.blockTokens, qBlocks * cfg.blockTokens, updating⟩ = .ok pass ∧
      RollingPassOk cfg ⟨s * cfg.blockTokens, qBlocks * cfg.blockTokens, updating⟩ pass ∧
      CacheHolds cfg cacheBlocks (s + 1) pass.cache := by
  have hqle := Nat.mul_le_mul_right cfg.blockTokens hq
  have hmaxle := Nat.mul_le_mul_right cfg.blockTokens hmax
  rw [add_mul] at hmaxle
  obtain ⟨layout, ls, ws, hlayout, hl⟩ := computeRollingCacheLayout_spec hc hh hn hmax updating
  have hh' := hh.write hc (s := s) rfl (by simp only; omega) hl
  have hw := hh'.afterWrite hl.localEndAfter
  obtain ⟨hk, hb⟩ := hl.attended hc hw (by simp only [hc.max]; omega) rfl
  refine ⟨_, by unfold rollingForward; rw [hlayout]; rfl, ?_, hh'⟩
  refine ⟨⟨?_, ?_, ?_⟩, ?_, ?_, hk, ?_, ?_, hb⟩
  · simp only [hl.localStart]; omega
  · rw [hl.localStart, hl.localEnd]
  · rw [hl.localEnd]
    exact Int.ofNat_le.mpr hw.length
  · intro i hi
    exact ⟨_, hw.sink i (hc.sink ▸ hi)⟩
  · intro i hi hi'
    exact ⟨_, hh'.slots i (hc.sink ▸ hi) hi'⟩
  · intro hu hcs
    exact (hl.attended_denoise hc hw hcs hu rfl).2.2
  · intro hu hcs segments hsegs
    exact hl.ropeStarts_denoise hc hcs hu hsegs

lemma CacheHolds.empty : CacheHolds cfg cacheBlocks 0
    (emptyRollingCache (cacheBlocks * cfg.blockTokens)) := by
  refine ⟨by simp [emptyRollingCache], by simp [emptyRollingCache], by simp [emptyRollingCache],
    fun h => absurd h (lt_irrefl 0), ?_⟩
  intro i _ hi
  simp only [emptyRollingCache] at hi
  omega

lemma runRollingCalls_ok (hc : cfg.Sized cacheBlocks maxBlocks) {numBlocks numSteps : Nat}
    (hN : 0 < numBlocks) (hS : 0 < numSteps) (hmax : min numBlocks numSteps + 1 ≤ maxBlocks)
    (k : Nat) {w : Nat} (hk : w + k ≤ numBlocks + numSteps - 1)
    (hh : CacheHolds cfg cacheBlocks n c) (hn : n = w + 1 - numSteps ∨ n = w + 1 - numSteps + 1) :
    ∃ passes, runRollingCalls cfg (((range' w k).map fun w =>
        (w + 1 - numSteps, min (numBlocks - 1) w)).flatMap (windowCalls cfg)) c = .ok passes ∧
      List.Forall₂ (RollingPassOk cfg) (((range' w k).map fun w =>
        (w + 1 - numSteps, min (numBlocks - 1) w)).flatMap (windowCalls cfg)) passes := by
  induction k generalizing w n c with
  | zero => exact ⟨[], rfl, .nil⟩
  | succ k ih => ?_
  obtain ⟨p₁, hrun1, hok1, hh1⟩ := rollingForward_ok hc hh hn
    (min (numBlocks - 1) w + 1 - (w + 1 - numSteps)) (by omega) (by omega) false
  obtain ⟨p₂, hrun2, hok2, hh2⟩ := rollingForward_ok hc hh1 (.inr rfl) 1 (le_refl 1) (by omega) true
  rw [one_mul] at hrun2 hok2
  obtain ⟨passes, hrun, hok⟩ := ih (w := w + 1) (by omega) hh2 (by omega)
  refine ⟨p₁ :: p₂ :: passes, ?_, ?_⟩
  · rw [range'_succ, map_cons, flatMap_cons, windowCalls, cons_append,
      cons_append, nil_append, runRollingCalls, hrun1]
    simp only [bind, Except.bind]
    rw [runRollingCalls, hrun2]
    simp only [bind, Except.bind]
    rw [hrun]
    rfl
  · exact .cons hok1 (.cons hok2 hok)

/-- With whole blocks, a sink of one, a cache of at least two and room for every window, no forward
fails an assertion, writes land inside, slots hold their tokens, and the attended keys are those of
the segments, consecutive and at most `max_attention_tokens`. -/
theorem rollingCalls_ok (hc : cfg.Sized cacheBlocks maxBlocks) (numBlocks numSteps : Nat)
    (hN : 0 < numBlocks) (hS : 0 < numSteps)
    (hmax : ∀ bound ∈ buildRollingWindowBounds numBlocks numSteps,
      cfg.sinkTokens + (bound.2 + 1 - bound.1) * cfg.blockTokens ≤ cfg.maxAttentionTokens) :
    ∃ passes, runRollingCalls cfg (rollingCalls cfg numBlocks numSteps)
        (emptyRollingCache (cacheBlocks * cfg.blockTokens)) = .ok passes ∧
      List.Forall₂ (RollingPassOk cfg) (rollingCalls cfg numBlocks numSteps) passes := by
  have hlargest := hmax (min numBlocks numSteps - 1 + 1 - numSteps,
    min (numBlocks - 1) (min numBlocks numSteps - 1))
    (mem_map.mpr ⟨_, mem_range.mpr (by omega), rfl⟩)
  have hblocks : min numBlocks numSteps + 1 ≤ maxBlocks := by
    rw [hc.sink, hc.max, add_comm, ← Nat.succ_mul] at hlargest
    have := le_of_mul_le_mul_right hlargest hc.blockTokens_pos
    omega
  unfold rollingCalls buildRollingWindowBounds
  rw [range_eq_range']
  exact runRollingCalls_ok hc hN hS hblocks _ (by omega) CacheHolds.empty (.inl (by omega))

/-- Blocks of two frames of three tokens; cache and window of two blocks. -/
def smallRollingConfig : RollingConfig where
  frameSeqlen := 3
  numFramesPerBlock := 2
  maxAttentionTokens := 18
  sinkTokens := 6

theorem small_video_ok :
    ∃ passes, runRollingCalls smallRollingConfig (rollingCalls smallRollingConfig 5 2)
        (emptyRollingCache (2 * smallRollingConfig.blockTokens)) = .ok passes ∧
      List.Forall₂ (RollingPassOk smallRollingConfig) (rollingCalls smallRollingConfig 5 2)
        passes :=
  rollingCalls_ok (show smallRollingConfig.Sized 2 3 from
    ⟨by decide, by decide, rfl, rfl, by decide⟩) 5 2 (by decide) (by decide) (by decide)
end Sglang
