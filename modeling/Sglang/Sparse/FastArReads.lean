import Sglang.Sparse.FastAr

/-!
# Which keys a FAST-AR query block reads

The buckets of a head are adjacent segments of its packed keys, and the own chunk follows after the
padding.
-/

namespace Sglang
open List

/-! ## The bounds of the buckets -/

namespace HeadKeys
variable {nb : Nat} (h : HeadKeys nb)

@[simp] lemma length_tags : h.tags.length = h.keep.length := by
  simp [tags, h.length_eq]

lemma bucketCounts_eq : h.bucketCounts = tagCounts h.tags nb := by
  refine map_congr_left fun b hb => ?_
  have hlt : b < nb := mem_range.mp hb
  unfold tags
  generalize h.keep = keep, h.buckets = buckets
  induction keep generalizing buckets with
  | nil => rfl
  | cons k keep ih =>
    rcases buckets with _ | ⟨bucket, buckets⟩
    · rfl
    rw [zipWith_cons_cons, zipWith_cons_cons, sum_cons, count_cons, ih]
    grind

lemma tagStart_numBuckets : tagStart h.tags nb = h.keptCount := by
  have hlt := h.bucket_lt
  have hlen := h.length_eq
  unfold tags keptCount tagStart
  generalize h.keep = keep at *
  generalize h.buckets = buckets at *
  induction keep generalizing buckets with
  | nil => rfl
  | cons k keep ih =>
    rcases buckets with _ | ⟨bucket, buckets⟩
    · simp at hlen
    have hb : bucket < nb := hlt bucket mem_cons_self
    have := ih buckets (fun b hb => hlt b (mem_cons_of_mem _ hb)) (by simpa using hlen)
    cases k <;> simp [this, hb]

lemma keptCount_le : h.keptCount ≤ h.keep.length := countP_le_length
end HeadKeys

section
variable {nb : Nat} (kept ownLen : Nat) (h : HeadKeys nb)
variable {t x : Nat}

lemma bucketStarts_packHead (ht : t < nb) :
    (packHead kept ownLen h).bucketStarts.getD t 0 = tagStart h.tags t := by
  rw [packHead, h.bucketCounts_eq]
  exact (getD_append _ _ _ _ (by simpa using ht)).trans (getD_sub_tagCounts _ ht)

lemma bucketEnds_packHead (ht : t < nb) :
    (packHead kept ownLen h).bucketEnds.getD t 0 = tagStart h.tags (t + 1) := by
  rw [packHead, h.bucketCounts_eq]
  exact (getD_append _ _ _ _ (by simpa using ht)).trans (getD_cumsum_tagCounts _ ht)

lemma own_packHead : (packHead kept ownLen h).bucketStarts.getD nb 0 = kept ∧
      (packHead kept ownLen h).bucketEnds.getD nb 0 = kept + ownLen := by
  rw [packHead, h.bucketCounts_eq]
  simp

/-! ## What a query block reads -/

variable {selected : List Bool}

lemma maskAt_append_true {i : Nat} (hlen : selected.length = nb) :
    maskAt (selected ++ [true]) i =
      if i < nb then maskAt selected i else decide (i = nb) := by
  unfold maskAt
  split
  next hi => exact getD_append _ _ _ _ (by omega)
  next hi =>
    rw [getD_append_right _ _ _ _ (by omega), hlen]
    obtain rfl | hne : i = nb ∨ nb < i := by omega
    · simp
    · rw [getD_eq_default _ _ (by simp; omega)]
      simp [show i ≠ nb by omega]

lemma bounds_of_lt_keptCount (hx : x < h.keptCount) (ht : t < nb) :
    ((packHead kept ownLen h).bucketStarts.getD t 0 ≤ x ↔ t ≤ tagAt h.tags x) ∧
      (x < (packHead kept ownLen h).bucketEnds.getD t 0 ↔ tagAt h.tags x ≤ t) := by
  have hlen : x < h.tags.length := by
    have := h.keptCount_le
    rw [h.length_tags]
    omega
  rw [bucketStarts_packHead kept ownLen h ht, bucketEnds_packHead kept ownLen h ht,
    ← tagAt_lt_iff hlen, ← not_lt, ← tagAt_lt_iff hlen]
  omega

lemma bounds_le_keptCount (ht : t < nb) : (packHead kept ownLen h).bucketStarts.getD t 0 ≤ h.keptCount ∧
      (packHead kept ownLen h).bucketEnds.getD t 0 ≤ h.keptCount := by
  rw [bucketStarts_packHead kept ownLen h ht, bucketEnds_packHead kept ownLen h ht,
    ← h.tagStart_numBuckets]
  exact ⟨tagStart_mono (by omega), tagStart_mono (by omega)⟩

lemma IsRun.end_le {a b : Nat} (hlen : selected.length = nb)
    (hrun : IsRun (selected ++ [true]) a b) : b ≤ nb ∧ (nb ≤ b + 1 → b = nb) := by
  have hb := maskAt_lt (hrun.selected b hrun.le (le_refl b))
  rw [List.length_append, length_singleton, hlen] at hb
  by_contra hne
  have hright := hrun.right
  rw [show b + 1 = nb by omega, maskAt_append_true hlen] at hright
  simp at hright

lemma reads_packHead_iff (hpos : 0 < nb) (hlen : selected.length = nb) (hkept : h.keptCount ≤ kept) :
    (maskToRanges (selected ++ [true]) (packHead kept ownLen h).bucketStarts
        (packHead kept ownLen h).bucketEnds).Reads x ↔
      (x < h.keptCount ∧ maskAt selected (tagAt h.tags x) = true) ∨
      (h.keptCount ≤ x ∧ x < kept ∧ maskAt selected (nb - 1) = true) ∨
      (kept ≤ x ∧ x < kept + ownLen) := by
  obtain ⟨hown, hownEnd⟩ := own_packHead kept ownLen h
  have hsel {i : Nat} (hi : i < nb) : maskAt (selected ++ [true]) i = maskAt selected i := by
    rw [maskAt_append_true hlen, if_pos hi]
  have htag (hx : x < h.keptCount) : tagAt h.tags x < nb := by
    rw [tagAt_lt_iff (by have := h.keptCount_le; rw [h.length_tags]; omega), h.tagStart_numBuckets]
    exact hx
  rw [reads_iff]
  constructor
  · rintro ⟨a, b, hrun, hlo, hhi⟩
    obtain ⟨hb, hbend⟩ := hrun.end_le hlen
    have hab := hrun.le
    by_cases hx : x < h.keptCount
    · -- inside the packed keys: the run holds the bucket of the position
      have ht := htag hx
      have ha : a < nb := by
        grind
      have hat : a ≤ tagAt h.tags x := (bounds_of_lt_keptCount kept ownLen h hx ha).1.mp hlo
      have htb : tagAt h.tags x ≤ b := by
        obtain rfl | hlt : b = nb ∨ b < nb := by omega
        · omega
        · exact (bounds_of_lt_keptCount kept ownLen h hx hlt).2.mp hhi
      exact .inl ⟨hx, hsel ht ▸ hrun.selected _ hat htb⟩
    -- behind them: only the run of the own chunk is long enough
    obtain rfl : b = nb := by
      by_contra hne
      have := (bounds_le_keptCount kept ownLen h (show b < nb by omega)).2
      omega
    rw [hownEnd] at hhi
    by_cases hxk : x < kept
    · have ha : a < b := by
        grind
      have := hrun.selected (b - 1) (by omega) (by omega)
      grind
    · exact .inr (.inr ⟨by omega, hhi⟩)
  rintro (⟨hx, hs⟩ | ⟨hx, hxk, hs⟩ | ⟨hx, hxo⟩)
  · have ht := htag hx
    obtain ⟨a, b, hrun, hat, htb⟩ := exists_run_of_selected ((hsel ht).trans hs)
    refine ⟨a, b, hrun, (bounds_of_lt_keptCount kept ownLen h hx (by omega)).1.mpr hat, ?_⟩
    obtain rfl | hlt : b = nb ∨ b < nb := by
      have := (hrun.end_le hlen).1
      omega
    · omega
    · exact (bounds_of_lt_keptCount kept ownLen h hx hlt).2.mpr htb
  · have hlast : nb - 1 < nb := by omega
    obtain ⟨a, b, hrun, ha, hb⟩ := exists_run_of_selected ((hsel hlast).trans hs)
    obtain rfl := (hrun.end_le hlen).2 (by omega)
    have := (bounds_le_keptCount kept ownLen h (show a < b by omega)).1
    exact ⟨a, b, hrun, by omega, by omega⟩
  have htrue : maskAt (selected ++ [true]) nb = true := by
    simp [maskAt_append_true hlen]
  obtain ⟨a, b, hrun, ha, hb⟩ := exists_run_of_selected htrue
  obtain rfl := (hrun.end_le hlen).2 (by omega)
  refine ⟨a, b, hrun, ?_, by omega⟩
  obtain rfl | hlt : a = b ∨ a < b := by omega
  · omega
  · have := (bounds_le_keptCount kept ownLen h hlt).1
    omega

/-- Packed position `x` holds a kept key whose bucket is selected. -/
def KeptSelected (packed : PackedHead) (selected : List Bool) (x : Nat) : Prop :=
  ∃ i, packed.order[x]? = some i ∧ h.keep.getD i false = true ∧
    maskAt selected (h.buckets.getD i 0) = true

lemma getD_tags {i : Nat} (hi : i < h.keep.length) :
    h.tags.getD i 0 = if h.keep.getD i false then h.buckets.getD i 0 else nb := by
  have hi' : i < h.buckets.length := h.length_eq ▸ hi
  simp [HeadKeys.tags, getD_eq_getElem?_getD, hi, hi']

lemma keptSelected_packHead_iff (hkept : h.keptCount ≤ kept) :
    KeptSelected h (packHead kept ownLen h) selected x ↔
      x < h.keptCount ∧ maskAt selected (tagAt h.tags x) = true := by
  have hbound {x : Nat} (hx : x < h.tags.length) : x < h.keptCount ↔ tagAt h.tags x < nb := by
    rw [tagAt_lt_iff hx, h.tagStart_numBuckets]
  have hitem {x : Nat} (hx : x < h.tags.length) : ∃ i < h.keep.length,
      (stableArgsort h.tags)[x]? = some i ∧ tagAt h.tags x = h.tags.getD i 0 := by
    have hlen : x < (stableArgsort h.tags).length := by simpa using hx
    refine ⟨(stableArgsort h.tags)[x], ?_, getElem?_eq_getElem hlen, ?_⟩
    · have := (stableArgsort_perm h.tags).mem_iff.mp (getElem_mem hlen)
      simpa using this
    · rw [tagAt, getD_eq_getElem _ _ hlen]
  constructor
  · rintro ⟨i, hi, hkeep, hs⟩
    have hx : x < h.tags.length := by
      have := (List.getElem?_eq_some_iff.mp hi).1
      simp only [packHead, length_take, length_stableArgsort] at this
      omega
    obtain ⟨j, hj, hget, htag⟩ := hitem hx
    obtain rfl : i = j := by
      have hxk : x < kept := by
        have := (List.getElem?_eq_some_iff.mp hi).1
        simp only [packHead, length_take] at this
        omega
      rw [packHead, getElem?_take_of_lt hxk, hget] at hi
      exact (Option.some.inj hi).symm
    rw [getD_tags h hj, if_pos hkeep] at htag
    refine ⟨(hbound hx).mpr ?_, htag ▸ hs⟩
    rw [htag, getD_eq_getElem _ _ (h.length_eq ▸ hj)]
    exact h.bucket_lt _ (getElem_mem _)
  rintro ⟨hx, hs⟩
  have hxlen : x < h.tags.length := by
    have := h.keptCount_le
    rw [h.length_tags]
    omega
  obtain ⟨i, hi, hget, htag⟩ := hitem hxlen
  have hlt := (hbound hxlen).mp hx
  have hkeep : h.keep.getD i false = true := by
    by_contra hfalse
    rw [htag, getD_tags h hi, if_neg hfalse] at hlt
    omega
  rw [htag, getD_tags h hi, if_pos hkeep] at hs
  refine ⟨i, ?_, hkeep, hs⟩
  rw [packHead, getElem?_take_of_lt (by omega), hget]
end

/-! ## The whole row -/

section
variable {nb : Nat}

lemma keptCount_le_longestKept (heads : List (HeadKeys nb)) (j : Fin heads.length) :
    (heads.get j).keptCount ≤ longestKept heads := by
  have hmem : (heads.get j).keptCount ∈ heads.map HeadKeys.keptCount :=
    mem_map.mpr ⟨heads.get j, get_mem heads j, rfl⟩
  unfold longestKept
  cases hmax : (heads.map HeadKeys.keptCount).max? with
  | none =>
    grind
  | some m => exact (max?_eq_some_iff.mp hmax).2 _ hmem
end

lemma length_selectedBuckets (c : FastArConfig) (queryBuckets : List Nat) (b : Nat) :
    (selectedBuckets c queryBuckets b).length = c.numBuckets := by
  simp [selectedBuckets, presentBuckets]

/-- A row reads exactly the selected buckets and the own chunk just when the last bucket is not
selected or there is no padding. -/
theorem reads_selected_iff (c : FastArConfig) (heads : List (HeadKeys c.numBuckets))
    (j : Fin heads.length) (ownLen : Nat) (queryBuckets : List Nat) (b : Nat) :
    let h := heads.get j
    let kept := longestKept heads
    let packed := packHead kept ownLen h
    let row := planRow c packed queryBuckets b
    ((∀ x, row.Reads x ↔ KeptSelected h packed (selectedBuckets c queryBuckets b) x ∨
          (kept ≤ x ∧ x < kept + ownLen)) ∧
        ∀ x, h.keptCount ≤ x → x < kept → ¬ row.Reads x) ↔
      maskAt (selectedBuckets c queryBuckets b) (c.numBuckets - 1) = false ∨ h.keptCount = kept := by
  intro h kept packed row
  have hkept : h.keptCount ≤ kept := keptCount_le_longestKept heads j
  have hreads (x : Nat) : row.Reads x ↔ _ := reads_packHead_iff kept ownLen h
    (Nat.two_pow_pos c.hashBits) (length_selectedBuckets c queryBuckets b) hkept
  have hsel (x : Nat) : KeptSelected h packed (selectedBuckets c queryBuckets b) x ↔ _ :=
    keptSelected_packHead_iff kept ownLen h hkept
  constructor
  · rintro ⟨-, hpad⟩
    by_contra hno
    simp only [not_or, Bool.not_eq_false] at hno
    exact hpad h.keptCount le_rfl (by omega) ((hreads _).mpr (.inr (.inl ⟨le_rfl, by omega, hno.1⟩)))
  intro hcond
  have hnone (x : Nat) : ¬ (h.keptCount ≤ x ∧ x < kept ∧
      maskAt (selectedBuckets c queryBuckets b) (c.numBuckets - 1) = true) := by
    rintro ⟨hx, hxk, hlast⟩
    obtain hfalse | heq := hcond
    · rw [hfalse] at hlast
      cases hlast
    · omega
  refine ⟨fun x => ?_, fun x hx hxk => ?_⟩
  · rw [hreads, hsel, or_iff_right (hnone x)]
  rw [hreads]
  rintro (⟨hlt, -⟩ | hmid | ⟨hge, -⟩)
  · omega
  · exact hnone x hmid
  · omega

/-! ## A row that reads its padding -/

def smallFastAr : FastArConfig := { block := 1, hashBits := 1 }

def mergedAndKept : List (HeadKeys smallFastAr.numBuckets) :=
  [{ keep := [false, true], buckets := [1, 1], length_eq := rfl, bucket_lt := by decide },
    { keep := [true, true], buckets := [0, 1], length_eq := rfl, bucket_lt := by decide }]

theorem padding_read :
    let h := mergedAndKept.get ⟨0, by decide⟩
    let packed := packHead (longestKept mergedAndKept) 1 h
    h.keptCount = 1 ∧ longestKept mergedAndKept = 2 ∧ packed.order = [1, 0] ∧
      h.keep.getD 0 true = false ∧ (planRow smallFastAr packed [1] 0).Reads 1 := by
  decide

/-! ## Merging loses nothing on equal weights

At one place, a kept frame stands for the run of frames that merged into it. A sum over the kept
frames of what the runs have accumulated is the sum over all frames.
-/

/-- The sum of the group that ends in frame `f`, if frame `f` continues a group where `m` says. -/
lemma sum_groups {M : Type*} [AddCommMonoid M] {m : Nat → Bool} {x g : Nat → M} {n : Nat}
    (h0 : g 0 = x 0) (hg : ∀ f < n, g (f + 1) = x (f + 1) + if m f then g f else 0) :
    ((range n).map fun f => if m f then 0 else g f).sum + g n = ((range (n + 1)).map x).sum := by
  induction n with
  | zero => simp [h0]
  | succ n ih =>
    rw [range_succ (n := n + 1), map_append, sum_append, ← ih fun f hf => hg f (by omega),
      range_succ, map_append, sum_append, hg n (by omega)]
    cases hm : m n with
    | false => simp [hm, add_assoc, add_comm (g n)]
    | true => simp [hm, add_assoc, add_comm (g n)]

section
variable {κ : Type} {sim : κ → κ → Bool} {fs : Nat} {key : Nat → κ}
  {val : Nat → List ℚ} {frames p d dim : Nat} {w : κ → ℝ} {keep : List Bool}
  {size : List Nat} {mean : List (List ℚ)}

/-- What the kept entries of place `p` contribute, `x` being read at their flat positions. -/
def keptSum {M : Type} [AddCommMonoid M] (keep : List Bool) (fs frames p : Nat)
    (x : Nat → M) : M :=
  ((range frames).map fun f =>
    if keep.getD (f * fs + p) false then x (f * fs + p) else 0).sum

lemma getD_positions {β : Type} {f : Nat} (hp : p < fs) (hf : f < frames)
    (y : Nat → Nat → β) (b : β) :
    ((range (frames * fs)).map fun i => y (i / fs) (i % fs)).getD (f * fs + p) b = y f p := by
  have hlt : f * fs + p < frames * fs := by
    have := block_end_le (n := fs) hf
    omega
  simp [hlt, div_mod_of_block hp]

lemma keptSum_eq {M : Type} [AddCommMonoid M] {x g y : Nat → M} (hp : p < fs)
    (hk : (range (frames * fs)).map (fun i => keepKey sim fs key frames (i / fs) (i % fs)) = keep)
    (hx : ∀ f < frames, x (f * fs + p) = g f) (h0 : g 0 = y 0)
    (hg : ∀ f, f + 1 < frames → g (f + 1) = y (f + 1) + if merges sim fs key f p then g f else 0) :
    keptSum keep fs frames p x = ((range frames).map y).sum := by
  rcases frames with _ | n
  · rfl
  rw [← sum_groups h0 fun f hf => hg f (by omega), keptSum, range_succ, map_append, sum_append]
  have hkeep : ∀ f < n + 1, keep.getD (f * fs + p) false =
      keepKey sim fs key (n + 1) f p := fun f hf => hk ▸ getD_positions hp hf _ _
  congr 1
  · refine congrArg sum (map_congr_left fun f hf => ?_)
    have hlt := mem_range.mp hf
    rw [hkeep f (by omega), hx f (by omega)]
    cases hm : merges sim fs key f p <;> simp [keepKey, hlt, hm]
  · rw [map_singleton, sum_singleton, hkeep n (Nat.lt_succ_self n), hx n (Nat.lt_succ_self n)]
    simp [keepKey]

lemma groupSize_pos (f : Nat) : 0 < groupSize sim fs key f p := by
  cases f <;> simp [groupSize]

lemma length_valueSum (hdim : ∀ i, (val i).length = dim) (f : Nat) :
    (valueSum sim fs key val f p).length = dim := by
  induction f with
  | zero => exact hdim p
  | succ f ih =>
    rw [valueSum]
    split
    · simp [ih, hdim]
    · exact hdim _

lemma getD_valueSum_succ (hdim : ∀ i, (val i).length = dim) (hd : d < dim) (f : Nat) :
    (valueSum sim fs key val (f + 1) p).getD d 0 =
      (val ((f + 1) * fs + p)).getD d 0 +
        if merges sim fs key f p then
          (valueSum sim fs key val f p).getD d 0 else 0 := by
  have hlen : (valueSum sim fs key val f p).length = dim := length_valueSum hdim f
  rw [valueSum]
  split
  · simp [hlen, hdim, hd]
  · rw [add_zero]

/-- `temporal_merge`, for weights that are equal on merged neighbours. -/
theorem temporalMerge_lossless
    (hm : temporalMerge sim fs key val frames = (keep, size, mean))
    (hp : p < fs) (hdim : ∀ i, (val i).length = dim)
    (hd : d < dim) (hw : ∀ f, f + 1 < frames → merges sim fs key f p →
      w (key (f * fs + p)) = w (key ((f + 1) * fs + p))) :
    keptSum keep fs frames p (fun i => size.getD i 0) = frames ∧
    keptSum keep fs frames p (fun i => size.getD i 0 * w (key i)) =
      ((range frames).map fun f => w (key (f * fs + p))).sum ∧
    keptSum keep fs frames p (fun i => size.getD i 0 * w (key i) * ((mean.getD i []).getD d 0 : ℚ)) =
      ((range frames).map fun f => w (key (f * fs + p)) * ((val (f * fs + p)).getD d 0 : ℚ)).sum := by
  obtain ⟨hk, hs, hv⟩ : _ = keep ∧ _ = size ∧ _ = mean := by simpa [temporalMerge] using hm
  have hsize : ∀ f < frames, size.getD (f * fs + p) 0 = groupSize sim fs key f p :=
    fun f hf => hs ▸ getD_positions hp hf _ _
  refine ⟨?_, ?_, ?_⟩
  · rw [keptSum_eq hp hk hsize (y := fun _ => 1) rfl fun f _ => by rw [groupSize]]
    simp
  · refine keptSum_eq hp hk (g := fun f => groupSize sim fs key f p *
      w (key (f * fs + p))) (fun f hf => by rw [hsize f hf]) (by simp [groupSize])
      fun f hf => ?_
    rw [groupSize]
    split
    case isTrue hmerge =>
      rw [hw f hf hmerge]
      push_cast
      ring
    case isFalse => simp
  refine keptSum_eq hp hk (g := fun f => w (key (f * fs + p)) *
    ((valueSum sim fs key val f p).getD d 0 : ℚ)) (fun f hf => ?_)
    (by simp [valueSum]) fun f hf => ?_
  · have hmean : mean.getD (f * fs + p) [] =
        (valueSum sim fs key val f p).map (· / (groupSize sim fs key f p : ℚ)) := by
      rw [← hv]
      exact getD_positions hp hf (fun f p => (valueSum sim fs key val f p).map
        (· / (groupSize sim fs key f p : ℚ))) []
    have hpos : (groupSize sim fs key f p : ℝ) ≠ 0 :=
      Nat.cast_ne_zero.mpr (groupSize_pos f).ne'
    rw [hsize f hf, hmean]
    simp [length_valueSum hdim, hd]
    field_simp
  rw [getD_valueSum_succ hdim hd]
  split
  case isTrue hmerge =>
    rw [hw f hf hmerge]
    push_cast
    ring
  case isFalse => simp
end

theorem equal_keys_merge : ∃ keep size mean,
    temporalMerge (fun a b : Nat => a = b) 1 (· / 2) (fun i => [(i : ℚ)]) 3 = (keep, size, mean) ∧
    keep = [false, true, true] ∧ size = [1, 2, 1] ∧
    keptSum keep 1 3 0 (fun i => size.getD i 0 * ((i / 2 : Nat) : ℝ)) =
      ((range 3).map fun f => (((f * 1 + 0) / 2 : Nat) : ℝ)).sum := by
  have hm : temporalMerge (fun a b : Nat => a = b) 1 (· / 2) (fun i => [(i : ℚ)]) 3 = (_, _, _) := rfl
  have hdim : ∀ i : Nat, [(i : ℚ)].length = 1 := fun _ => rfl
  exact ⟨_, _, _, hm, rfl, rfl, (temporalMerge_lossless hm (p := 0) (d := 0) (w := Nat.cast)
    (by decide) hdim (by decide) fun f _ h => congrArg Nat.cast (of_decide_eq_true h)).2.1⟩
end Sglang
