import Mathlib

/-!
# Key ranges of a mask over segments

`_mask_to_ranges_kernel` turns a mask over key segments into token ranges: a run of adjacent
selected segments becomes one range, from the start of its first segment to the end of its last.
-/

namespace Sglang
open List

section
variable (mask : List Bool) (n i : Nat)

def maskAt : Bool := mask.getD i false

def isRunStart : Bool :=
  maskAt mask i && !(decide (0 < i) && maskAt mask (i - 1))

def isRunEnd : Bool := maskAt mask i && !maskAt mask (i + 1)

def runsBefore : Nat := (List.range n).countP (isRunStart mask)

def runSlot : Nat := runsBefore mask (i + 1) - 1

/-- The stores of one bound: index `i` goes to its slot where `stored i`. -/
def storeRuns (maxRanges : Nat) (stored : Nat → Bool) (bound : Nat → Nat) (n : Nat) : List Nat :=
  (List.range n).foldl
    (fun out i => if stored i then out.set (runSlot mask i) (bound i) else out)
    (List.replicate maxRanges 0)

structure RangeRow where
  rangeStarts : List Nat
  rangeEnds : List Nat
  rangeCount : Nat
  deriving DecidableEq

/-- `_mask_to_ranges_kernel` on one row, with the output width of `plan_from_segment_mask`. -/
def maskToRanges (segmentStarts segmentEnds : List Nat) : RangeRow :=
  let maxRanges := max 1 ((mask.length + 1) / 2)
  { rangeStarts := storeRuns mask maxRanges (isRunStart mask) (segmentStarts.getD · 0) mask.length
    rangeEnds := storeRuns mask maxRanges (isRunEnd mask) (segmentEnds.getD · 0) mask.length
    rangeCount := runsBefore mask mask.length }
end

namespace RangeRow
def range (row : RangeRow) (k : Nat) : Nat × Nat :=
  (row.rangeStarts.getD k 0, row.rangeEnds.getD k 0)

def Reads (row : RangeRow) (x : Nat) : Prop :=
  ∃ k < row.rangeCount, (row.range k).1 ≤ x ∧ x < (row.range k).2

instance (row : RangeRow) (x : Nat) : Decidable (row.Reads x) :=
  inferInstanceAs (Decidable (∃ k < row.rangeCount, (row.range k).1 ≤ x ∧ x < (row.range k).2))
end RangeRow

/-! ## Runs -/

structure IsRun (mask : List Bool) (a b : Nat) : Prop where
  le : a ≤ b
  selected : ∀ i, a ≤ i → i ≤ b → maskAt mask i = true
  left : 0 < a → maskAt mask (a - 1) = false
  right : maskAt mask (b + 1) = false

variable {mask : List Bool}
variable {i a b n k : Nat}

lemma maskAt_lt (h : maskAt mask i = true) : i < mask.length := by
  by_contra hge
  rw [maskAt, getD_eq_default _ _ (by omega)] at h
  cases h

lemma isRunStart_iff :
    isRunStart mask i = true ↔ maskAt mask i = true ∧ (0 < i → maskAt mask (i - 1) = false) := by
  simp [isRunStart, pos_iff_ne_zero, or_iff_not_imp_left]

lemma isRunEnd_iff : isRunEnd mask i = true ↔ maskAt mask i = true ∧ maskAt mask (i + 1) = false := by
  simp [isRunEnd]

lemma IsRun.start (h : IsRun mask a b) : isRunStart mask a = true :=
  isRunStart_iff.mpr ⟨h.selected a (le_refl a) h.le, h.left⟩

lemma IsRun.stop (h : IsRun mask a b) : isRunEnd mask b = true :=
  isRunEnd_iff.mpr ⟨h.selected b h.le (le_refl b), h.right⟩

lemma runsBefore_succ (mask : List Bool) (n : Nat) :
    runsBefore mask (n + 1) = runsBefore mask n + if isRunStart mask n then 1 else 0 := by
  simp [runsBefore, range_succ, countP_cons]

lemma runsBefore_mono (mask : List Bool) {m : Nat} (h : m ≤ n) :
    runsBefore mask m ≤ runsBefore mask n := by
  induction h with
  | refl => exact le_rfl
  | step _ ih => rw [runsBefore_succ]; omega

lemma runSlot_of_start (h : isRunStart mask i = true) : runSlot mask i = runsBefore mask i := by
  rw [runSlot, runsBefore_succ, if_pos h, Nat.add_sub_cancel]

lemma IsRun.runSlot_eq (h : IsRun mask a b) : runSlot mask b = runSlot mask a := by
  have hno : ∀ n, a + n ≤ b → runsBefore mask (a + n + 1) = runsBefore mask (a + 1) := by
    intro n hn
    induction n with
    | zero => rfl
    | succ n ih => ?_
    have hinside : ¬ isRunStart mask (a + (n + 1)) = true := by
      rw [isRunStart_iff]
      rintro ⟨-, hprev⟩
      have hsel := h.selected (a + n) (by omega) (by omega)
      grind
    rw [runsBefore_succ, if_neg hinside, add_zero, ← ih (by omega)]
    rfl
  have := hno (b - a) (by have := h.le; omega)
  rw [Nat.add_sub_cancel' h.le] at this
  rw [runSlot, runSlot, this]

lemma exists_start_le (hk : maskAt mask k = true) :
    ∃ i ≤ k, isRunStart mask i = true ∧ ∀ m, i ≤ m → m ≤ k → maskAt mask m = true := by
  induction k with
  | zero =>
    refine ⟨0, le_refl 0, isRunStart_iff.mpr ⟨hk, fun h => absurd h (lt_irrefl 0)⟩, ?_⟩
    intro m _ hm
    rwa [Nat.le_zero.mp hm]
  | succ k ih =>
    by_cases hprev : maskAt mask k = true
    · grind
    · refine ⟨k + 1, le_rfl, isRunStart_iff.mpr ⟨hk, fun _ => by simpa using hprev⟩, ?_⟩
      intro m hkm hmk
      rwa [le_antisymm hmk hkm]

lemma start_unique {i' : Nat} (h : isRunStart mask i = true) (h' : isRunStart mask i' = true)
    (hs : runSlot mask i = runSlot mask i') : i = i' := by
  rw [runSlot_of_start h, runSlot_of_start h'] at hs
  by_contra hne
  obtain hlt | hlt := lt_or_gt_of_ne hne
  · have := runsBefore_mono mask (show i + 1 ≤ i' by omega)
    rw [runsBefore_succ, if_pos h] at this
    omega
  · have := runsBefore_mono mask (show i' + 1 ≤ i by omega)
    rw [runsBefore_succ, if_pos h'] at this
    omega

lemma runsBefore_lt_of_end {j j' : Nat} (hlt : j < j') (h : isRunEnd mask j = true)
    (h' : isRunEnd mask j' = true) : runsBefore mask (j + 1) < runsBefore mask (j' + 1) := by
  obtain ⟨i, hi, hs, hsel⟩ := exists_start_le (isRunEnd_iff.mp h').1
  have hji : j + 1 < i := by
    by_contra hge
    have := hsel (j + 1) (by omega) (by omega)
    rw [(isRunEnd_iff.mp h).2] at this
    cases this
  calc runsBefore mask (j + 1) ≤ runsBefore mask i := runsBefore_mono mask (by omega)
    _ < runsBefore mask (i + 1) := by rw [runsBefore_succ, if_pos hs]; omega
    _ ≤ runsBefore mask (j' + 1) := runsBefore_mono mask (by omega)

lemma end_unique {j j' : Nat} (h : isRunEnd mask j = true) (h' : isRunEnd mask j' = true)
    (hs : runSlot mask j = runSlot mask j') : j = j' := by
  have hpos {j : Nat} (h : isRunEnd mask j = true) : 0 < runsBefore mask (j + 1) := by
    obtain ⟨i, hi, hs, -⟩ := exists_start_le (isRunEnd_iff.mp h).1
    have := runsBefore_mono mask (show i + 1 ≤ j + 1 by omega)
    rw [runsBefore_succ, if_pos hs] at this
    omega
  have hj := hpos h
  have hj' := hpos h'
  rw [runSlot, runSlot] at hs
  by_contra hne
  obtain hlt | hlt := lt_or_gt_of_ne hne
  · have := runsBefore_lt_of_end hlt h h'
    omega
  · have := runsBefore_lt_of_end hlt h' h
    omega

lemma exists_start_of_lt (h : k < runsBefore mask n) :
    ∃ i < n, isRunStart mask i = true ∧ runSlot mask i = k := by
  induction n with
  | zero => simp [runsBefore] at h
  | succ n ih => ?_
  by_cases hk : k < runsBefore mask n
  · grind
  rw [runsBefore_succ] at h
  split at h
  next hs => exact ⟨n, by omega, hs, by rw [runSlot_of_start hs]; omega⟩
  next => omega

lemma exists_run_of_start (h : isRunStart mask a = true) : ∃ b, IsRun mask a b := by
  obtain ⟨hsel, hleft⟩ := isRunStart_iff.mp h
  have hstop : ∃ b, a ≤ b ∧ maskAt mask (b + 1) = false :=
    ⟨a + mask.length, by omega, getD_eq_default _ _ (by omega)⟩
  obtain ⟨hle, hright⟩ := Nat.find_spec hstop
  refine ⟨Nat.find hstop, hle, fun i hai hib => ?_, hleft, hright⟩
  obtain rfl | hlt : i = a ∨ a < i := by omega
  · exact hsel
  · have hmin := Nat.find_min hstop (show i - 1 < Nat.find hstop by omega)
    grind

lemma two_mul_runsBefore (mask : List Bool) (n : Nat) :
    2 * runsBefore mask n ≤ n + if 0 < n ∧ maskAt mask (n - 1) = true then 1 else 0 := by
  induction n with
  | zero => simp [runsBefore]
  | succ n ih => ?_
  rw [runsBefore_succ, Nat.add_sub_cancel]
  by_cases hs : isRunStart mask n = true
  · obtain ⟨hsel, hleft⟩ := isRunStart_iff.mp hs
    have hprev : ¬ (0 < n ∧ maskAt mask (n - 1) = true) := by
      rintro ⟨hn, hp⟩
      rw [hleft hn] at hp
      cases hp
    rw [if_neg hprev] at ih
    rw [if_pos hs, if_pos ⟨by omega, hsel⟩]
    omega
  · rw [if_neg hs]
    split at ih <;> split <;> omega

/-! ## The stores -/

@[simp] lemma length_storeRuns (maxRanges : Nat) (stored : Nat → Bool) (bound : Nat → Nat)
    (n : Nat) : (storeRuns mask maxRanges stored bound n).length = maxRanges := by
  induction n with
  | zero => simp [storeRuns]
  | succ n ih =>
    rw [storeRuns, range_succ, foldl_append]
    simp only [foldl_cons, foldl_nil]
    split
    · rw [length_set]; exact ih
    · exact ih

lemma getD_storeRuns {maxRanges : Nat} {stored : Nat → Bool} {bound : Nat → Nat}
    (hi : i < n) (hstored : stored i = true) (hslot : runSlot mask i < maxRanges)
    (hunique : ∀ j, stored j = true → runSlot mask j = runSlot mask i → j = i) :
    (storeRuns mask maxRanges stored bound n).getD (runSlot mask i) 0 = bound i := by
  induction n with
  | zero => omega
  | succ n ih => ?_
  have hlen : (storeRuns mask maxRanges stored bound n).length = maxRanges := length_storeRuns ..
  have hstep : storeRuns mask maxRanges stored bound (n + 1) =
      if stored n then (storeRuns mask maxRanges stored bound n).set (runSlot mask n) (bound n)
      else storeRuns mask maxRanges stored bound n := by
    rw [storeRuns, range_succ, foldl_append]
    rfl
  rw [hstep]
  obtain rfl | hlt : i = n ∨ i < n := by omega
  · grind
  split
  next hs =>
    have hne : runSlot mask n ≠ runSlot mask i := fun h => by
      have := hunique n hs h
      omega
    grind
  next => exact ih hlt

/-! ## What a row reads -/

lemma range_of_run (segmentStarts segmentEnds : List Nat) (h : IsRun mask a b) :
    runSlot mask a < (maskToRanges mask segmentStarts segmentEnds).rangeCount ∧
      (maskToRanges mask segmentStarts segmentEnds).range (runSlot mask a) =
        (segmentStarts.getD a 0, segmentEnds.getD b 0) := by
  have ha : a < mask.length := maskAt_lt (isRunStart_iff.mp h.start).1
  have hb : b < mask.length := maskAt_lt (isRunEnd_iff.mp h.stop).1
  have hcount : runSlot mask a < runsBefore mask mask.length := by
    rw [runSlot_of_start h.start]
    have := runsBefore_mono mask (show a + 1 ≤ mask.length by omega)
    rw [runsBefore_succ, if_pos h.start] at this
    omega
  have hmax : runSlot mask a < max 1 ((mask.length + 1) / 2) := by
    have := two_mul_runsBefore mask mask.length
    split at this <;> omega
  refine ⟨hcount, Prod.ext ?_ ?_⟩
  · exact getD_storeRuns ha h.start hmax fun j hj hs => start_unique hj h.start hs
  · rw [← h.runSlot_eq] at hmax ⊢
    exact getD_storeRuns hb h.stop hmax fun j hj hs => end_unique hj h.stop hs

lemma exists_run_of_selected (h : maskAt mask k = true) : ∃ a b, IsRun mask a b ∧ a ≤ k ∧ k ≤ b := by
  obtain ⟨a, hak, hs, hsel⟩ := exists_start_le h
  obtain ⟨b, hrun⟩ := exists_run_of_start hs
  refine ⟨a, b, hrun, hak, ?_⟩
  by_contra hlt
  have := hsel (b + 1) (by have := hrun.le; omega) (by omega)
  rw [hrun.right] at this
  cases this

lemma reads_iff {segmentStarts segmentEnds : List Nat} {x : Nat} :
    (maskToRanges mask segmentStarts segmentEnds).Reads x ↔
      ∃ a b, IsRun mask a b ∧ segmentStarts.getD a 0 ≤ x ∧ x < segmentEnds.getD b 0 := by
  constructor
  · rintro ⟨k, hk, hlo, hhi⟩
    obtain ⟨a, -, hs, rfl⟩ := exists_start_of_lt hk
    obtain ⟨b, hrun⟩ := exists_run_of_start hs
    rw [(range_of_run _ _ hrun).2] at hlo hhi
    exact ⟨a, b, hrun, hlo, hhi⟩
  · rintro ⟨a, b, hrun, hlo, hhi⟩
    obtain ⟨hk, hr⟩ := range_of_run segmentStarts segmentEnds hrun
    exact ⟨runSlot mask a, hk, by rw [hr]; exact hlo, by rw [hr]; exact hhi⟩

/-! ## A plan from a segment mask reads the selected segments -/

/-- `plan_from_segment_mask`. The segment bounds are those of a head; shared ones are constant. -/
def planFromSegmentMask (segmentMask : List (List (List Bool)))
    (segmentStarts segmentEnds : Nat → List Nat) : List (List RangeRow) :=
  segmentMask.mapIdx fun head rows =>
    rows.map fun row => maskToRanges row (segmentStarts head) (segmentEnds head)

def planKeyMask (plan : List (List RangeRow)) (kvLen : Nat) : List (List (List Bool)) :=
  plan.map fun rows => rows.map fun row => (List.range kvLen).map fun x => decide (row.Reads x)

def RangeRow.keptTokens (row : RangeRow) : Nat :=
  (List.range row.rangeStarts.length).foldl
    (fun kept k => kept + if k < row.rangeCount then (row.range k).2 - (row.range k).1 else 0) 0

/-- Consecutive segments that cover the keys `0 .. kvLen`; some may be empty. -/
structure Partition (n kvLen : Nat) (segmentStarts segmentEnds : List Nat) : Prop where
  first : 0 < n → segmentStarts.getD 0 0 = 0
  le : ∀ i < n, segmentStarts.getD i 0 ≤ segmentEnds.getD i 0
  next : ∀ i, i + 1 < n → segmentEnds.getD i 0 = segmentStarts.getD (i + 1) 0
  last : 0 < n → segmentEnds.getD (n - 1) 0 = kvLen

/-- Key `x` is in a selected segment. -/
def SelectedKey (mask : List Bool) (segmentStarts segmentEnds : List Nat) (x : Nat) : Prop :=
  ∃ i < mask.length, mask.getD i false = true ∧ segmentStarts.getD i 0 ≤ x ∧ x < segmentEnds.getD i 0

instance (mask : List Bool) (segmentStarts segmentEnds : List Nat) :
    DecidablePred (SelectedKey mask segmentStarts segmentEnds) := fun x =>
  inferInstanceAs (Decidable (∃ i < mask.length, mask.getD i false = true ∧
    segmentStarts.getD i 0 ≤ x ∧ x < segmentEnds.getD i 0))

variable {mask : List Bool} {sts ends : List Nat} {n kvLen a b i k x : Nat}

namespace Partition
variable (h : Partition n kvLen sts ends)
include h

lemma ends_le_starts (hab : a < b) (hb : b < n) : ends.getD a 0 ≤ sts.getD b 0 := by
  induction b, hab using Nat.le_induction with
  | base => exact (h.next a hb).le
  | succ b hab ih =>
    have hstep := h.next b hb
    have hle := h.le b (by omega)
    have := ih (by omega)
    omega

lemma ends_le (ha : a < n) : ends.getD a 0 ≤ kvLen := by
  rw [← h.last (by omega)]
  obtain hlt | rfl : a < n - 1 ∨ a = n - 1 := by omega
  · exact (h.ends_le_starts hlt (by omega)).trans (h.le (n - 1) (by omega))
  · exact le_rfl

/-- A key between two segments is in one of those from the first to the second. -/
lemma exists_segment (hab : a ≤ b) (hb : b < n) (hlo : sts.getD a 0 ≤ x) (hhi : x < ends.getD b 0) :
    ∃ i, a ≤ i ∧ i ≤ b ∧ sts.getD i 0 ≤ x ∧ x < ends.getD i 0 := by
  induction b, hab using Nat.le_induction with
  | base => exact ⟨a, le_refl a, le_refl a, hlo, hhi⟩
  | succ b hab ih =>
    by_cases hx : x < ends.getD b 0
    · obtain ⟨i, hai, hib, hi⟩ := ih (by omega) hx
      exact ⟨i, hai, by omega, hi⟩
    · rw [h.next b hb, not_lt] at hx
      exact ⟨b + 1, by omega, le_rfl, hx, hhi⟩
end Partition

lemma reads_iff_selectedKey (h : Partition mask.length kvLen sts ends) :
    (maskToRanges mask sts ends).Reads x ↔ SelectedKey mask sts ends x := by
  rw [reads_iff]
  constructor
  · rintro ⟨a, b, hrun, hlo, hhi⟩
    have hb := maskAt_lt (hrun.selected b hrun.le (le_refl b))
    obtain ⟨i, hai, hib, hi⟩ := h.exists_segment hrun.le hb hlo hhi
    exact ⟨i, by omega, hrun.selected i hai hib, hi⟩
  rintro ⟨i, hi, hsel, hlo, hhi⟩
  obtain ⟨a, b, hrun, hai, hib⟩ := exists_run_of_selected hsel
  have hb := maskAt_lt (hrun.selected b hrun.le (le_refl b))
  refine ⟨a, b, hrun, ?_, ?_⟩
  · obtain rfl | hlt : a = i ∨ a < i := by omega
    · exact hlo
    · exact (h.le a (by omega)).trans ((h.ends_le_starts hlt hi).trans hlo)
  · obtain rfl | hlt : i = b ∨ i < b := by omega
    · exact hhi
    · exact hhi.trans_le ((h.ends_le_starts hlt hb).trans (h.le b hb))

/-- The range in a slot comes from one run. -/
lemma exists_run_of_slot (sts ends : List Nat) (hk : k < (maskToRanges mask sts ends).rangeCount) :
    ∃ a b, IsRun mask a b ∧ runSlot mask a = k ∧ b < mask.length ∧
      (maskToRanges mask sts ends).range k = (sts.getD a 0, ends.getD b 0) := by
  obtain ⟨a, -, hs, rfl⟩ := exists_start_of_lt hk
  obtain ⟨b, hrun⟩ := exists_run_of_start hs
  exact ⟨a, b, hrun, rfl, maskAt_lt (hrun.selected b hrun.le (le_refl b)),
    (range_of_run sts ends hrun).2⟩

/-- A run with a smaller slot ends before the other one starts. -/
lemma IsRun.lt_of_slot_lt {a' b' : Nat} (h : IsRun mask a b) (h' : IsRun mask a' b')
    (hlt : runSlot mask a < runSlot mask a') : b < a' := by
  by_contra hge
  obtain hle | hlt' : a' ≤ a ∨ a < a' := by omega
  · have := runsBefore_mono mask hle
    rw [runSlot_of_start h.start, runSlot_of_start h'.start] at hlt
    omega
  · have hsel := h.selected (a' - 1) (by omega) (by omega)
    rw [h'.left (by omega)] at hsel
    cases hsel

section
variable (h : Partition mask.length kvLen sts ends)
include h

lemma range_le (hk : k < (maskToRanges mask sts ends).rangeCount) :
    ((maskToRanges mask sts ends).range k).1 ≤ ((maskToRanges mask sts ends).range k).2 ∧
      ((maskToRanges mask sts ends).range k).2 ≤ kvLen := by
  obtain ⟨a, b, hrun, -, hb, hr⟩ := exists_run_of_slot sts ends hk
  rw [hr]
  refine ⟨?_, h.ends_le hb⟩
  obtain rfl | hlt := eq_or_lt_of_le hrun.le
  · exact h.le a hb
  · exact (h.le a (by omega)).trans ((h.ends_le_starts hlt hb).trans (h.le b hb))

lemma range_ascending {k' : Nat} (hkk : k < k') (hk : k' < (maskToRanges mask sts ends).rangeCount) :
    ((maskToRanges mask sts ends).range k).2 ≤ ((maskToRanges mask sts ends).range k').1 := by
  obtain ⟨a, b, hrun, rfl, hb, hr⟩ := exists_run_of_slot sts ends (hkk.trans hk)
  obtain ⟨a', b', hrun', rfl, hb', hr'⟩ := exists_run_of_slot sts ends hk
  rw [hr, hr']
  have := hrun'.le
  exact h.ends_le_starts (hrun.lt_of_slot_lt hrun' hkk) (by omega)
end

lemma rangeCount_le (mask : List Bool) (sts ends : List Nat) :
    (maskToRanges mask sts ends).rangeCount ≤ max 1 ((mask.length + 1) / 2) := by
  have := two_mul_runsBefore mask mask.length
  simp only [maskToRanges]
  split at this <;> omega

lemma foldl_add_eq_sum (f : Nat → Nat) (n : Nat) :
    (range n).foldl (fun kept k => kept + f k) 0 = ∑ k ∈ Finset.range n, f k := by
  induction n with
  | zero => rfl
  | succ n ih => rw [range_succ, foldl_append, ih, Finset.sum_range_succ]; rfl

lemma keptTokens_maskToRanges (h : Partition mask.length kvLen sts ends) :
    (maskToRanges mask sts ends).keptTokens =
      ((range kvLen).filter fun x => decide (SelectedKey mask sts ends x)).length := by
  let row := maskToRanges mask sts ends
  have hwidth : row.rangeStarts.length = max 1 ((mask.length + 1) / 2) := length_storeRuns ..
  have hkeys : (Finset.range kvLen).filter (SelectedKey mask sts ends) =
      (Finset.range row.rangeCount).biUnion fun k => Finset.Ico (row.range k).1 (row.range k).2 := by
    ext x
    simp only [Finset.mem_filter, Finset.mem_range, Finset.mem_biUnion, Finset.mem_Ico]
    rw [← reads_iff_selectedKey h]
    refine ⟨fun hx => hx.2, fun hx => ⟨?_, hx⟩⟩
    obtain ⟨k, hk, -, hhi⟩ := hx
    exact hhi.trans_le (range_le h hk).2
  have hdisjoint : ∀ k ∈ Finset.range row.rangeCount, ∀ k' ∈ Finset.range row.rangeCount, k ≠ k' →
      Disjoint (Finset.Ico (row.range k).1 (row.range k).2)
        (Finset.Ico (row.range k').1 (row.range k').2) := by
    intro k hk k' hk' hne
    rw [Finset.mem_range] at hk hk'
    rw [Finset.disjoint_left]
    intro x hx hx'
    rw [Finset.mem_Ico] at hx hx'
    obtain hlt | hlt := lt_or_gt_of_ne hne
    · have : (row.range k).2 ≤ (row.range k').1 := range_ascending h hlt hk'
      omega
    · have : (row.range k').2 ≤ (row.range k).1 := range_ascending h hlt hk
      omega
  have hsub : Finset.range row.rangeCount ⊆ Finset.range row.rangeStarts.length :=
    Finset.range_subset_range.mpr (hwidth ▸ rangeCount_le mask sts ends)
  calc row.keptTokens
      = ∑ k ∈ Finset.range row.rangeStarts.length,
          if k < row.rangeCount then (row.range k).2 - (row.range k).1 else 0 := foldl_add_eq_sum ..
    _ = ∑ k ∈ Finset.range row.rangeCount,
          if k < row.rangeCount then (row.range k).2 - (row.range k).1 else 0 :=
        (Finset.sum_subset hsub fun k _ hk => if_neg (by simpa using hk)).symm
    _ = ∑ k ∈ Finset.range row.rangeCount, (Finset.Ico (row.range k).1 (row.range k).2).card :=
        Finset.sum_congr rfl fun k hk => by
          rw [if_pos (Finset.mem_range.mp hk), Nat.card_Ico]
    _ = ((Finset.range kvLen).filter (SelectedKey mask sts ends)).card := by
        rw [hkeys, Finset.card_biUnion hdisjoint]
    _ = _ := rfl

/-- Every row of the plan reads the union of its selected segments, through ascending disjoint
ranges that fit the allocated width, and counts each selected key once. -/
theorem planFromSegmentMask_exact (segmentMask : List (List (List Bool)))
    (segmentStarts segmentEnds : Nat → List Nat) (kvLen head block : Nat) (rows : List (List Bool))
    (mask : List Bool) (hhead : segmentMask[head]? = some rows) (hblock : rows[block]? = some mask)
    (h : Partition mask.length kvLen (segmentStarts head) (segmentEnds head)) :
    ∃ planRows row, (planFromSegmentMask segmentMask segmentStarts segmentEnds)[head]? =
        some planRows ∧ planRows[block]? = some row ∧
      (((planKeyMask (planFromSegmentMask segmentMask segmentStarts segmentEnds) kvLen)[head]?.bind
        (·[block]?)) = some ((List.range kvLen).map fun x =>
          decide (SelectedKey mask (segmentStarts head) (segmentEnds head) x))) ∧
      (∀ k < row.rangeCount, (row.range k).1 ≤ (row.range k).2) ∧
      (∀ k k', k < k' → k' < row.rangeCount → (row.range k).2 ≤ (row.range k').1) ∧
      row.rangeCount ≤ max 1 ((mask.length + 1) / 2) ∧
      row.keptTokens = ((List.range kvLen).filter fun x =>
        decide (SelectedKey mask (segmentStarts head) (segmentEnds head) x)).length := by
  have hplan : (planFromSegmentMask segmentMask segmentStarts segmentEnds)[head]? =
      some (rows.map fun row => maskToRanges row (segmentStarts head) (segmentEnds head)) := by
    simp [planFromSegmentMask, hhead]
  have hkeys : (range kvLen).map (fun x => decide
      ((maskToRanges mask (segmentStarts head) (segmentEnds head)).Reads x)) =
      (range kvLen).map fun x =>
        decide (SelectedKey mask (segmentStarts head) (segmentEnds head) x) :=
    map_congr_left fun x _ => decide_eq_decide.mpr (reads_iff_selectedKey h)
  refine ⟨_, maskToRanges mask (segmentStarts head) (segmentEnds head), hplan, by simp [hblock], ?_,
    fun k hk => (range_le h hk).1, fun k k' hkk hk => range_ascending h hkk hk,
    rangeCount_le .., keptTokens_maskToRanges h⟩
  simp [planKeyMask, hplan, hblock, hkeys]

theorem planFromSegmentMask_exact_gap :
    Partition 4 6 [0, 2, 2, 5] [2, 2, 5, 6] ∧
      ((planKeyMask (planFromSegmentMask [[[true, true, false, true]]] (fun _ => [0, 2, 2, 5])
        fun _ => [2, 2, 5, 6]) 6)[0]?.bind (·[0]?)) =
          some [true, true, false, false, false, true] := by
  have hnext : ∀ i < 3, [2, 2, 5, 6].getD i 0 = [0, 2, 2, 5].getD (i + 1) 0 := by decide
  have h : Partition 4 6 [0, 2, 2, 5] [2, 2, 5, 6] :=
    ⟨fun _ => rfl, by decide, fun i hi => hnext i (by omega), fun _ => rfl⟩
  obtain ⟨_, _, _, _, hkeys, _⟩ := planFromSegmentMask_exact [[[true, true, false, true]]]
    (fun _ => [0, 2, 2, 5]) (fun _ => [2, 2, 5, 6]) 6 0 0 _ _ rfl rfl h
  exact ⟨h, hkeys.trans (by decide)⟩
end Sglang
