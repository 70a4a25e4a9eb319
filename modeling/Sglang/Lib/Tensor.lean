import Sglang.Lib.Blocks

/-!
# Tensors with a token axis and a head axis

`Tensor α` is a `[tokens, heads]` tensor, kept head by head: one column of `tokens` cells for each
head.
-/

namespace Sglang
open List

/-- A contiguous range of heads `(start, count)`; `none` is all heads. -/
abbrev HeadSlice := Option (Nat × Nat)

namespace HeadSlice
def Has (hs : HeadSlice) (h : Nat) : Prop :=
  match hs with
  | none => True
  | some (start, count) => start ≤ h ∧ h < start + count

instance (hs : HeadSlice) (h : Nat) : Decidable (hs.Has h) := by
  unfold Has; cases hs <;> infer_instance

def first (hs : HeadSlice) : Nat :=
  match hs with
  | none => 0
  | some (start, _) => start

def select {β : Type} (hs : HeadSlice) (cols : List β) : List β :=
  match hs with
  | none => cols
  | some (start, count) => cols.extract start (start + count)

lemma getElem?_select {β : Type} {hs : HeadSlice} {h : Nat} (hh : hs.Has h) (cols : List β) :
    (hs.select cols)[h - hs.first]? = cols[h]? := by
  rcases hs with - | ⟨start, count⟩
  · rfl
  obtain ⟨h1, h2⟩ := hh
  simp only [select, first]
  rw [getElem?_extract (by omega)]
  congr 1
  omega
end HeadSlice

structure Tensor (α : Type) where
  tokens : Nat
  cols : List (List α)
  uniform : ∀ c ∈ cols, c.length = tokens

namespace Tensor
variable {α : Type}

def heads (t : Tensor α) : Nat := t.cols.length

def cell (t : Tensor α) (h i : Nat) : Option α := (t.cols[h]?).bind (·[i]?)

def row (t : Tensor α) (h : Nat) : List α := (t.cols[h]?).getD []

variable {t : Tensor α} {h i : Nat} {hs : HeadSlice} {slices : List (Nat × Nat)}

lemma length_col {c : List α} (hc : t.cols[h]? = some c) : c.length = t.tokens :=
  t.uniform c (mem_of_getElem? hc)

lemma cell_eq_some_iff {x : α} :
    t.cell h i = some x ↔ ∃ col, t.cols[h]? = some col ∧ col[i]? = some x := by
  simp [cell, Option.bind_eq_some_iff]

lemma exists_col (hh : h < t.heads) : ∃ c, t.cols[h]? = some c :=
  ⟨_, List.getElem?_eq_getElem hh⟩

lemma exists_cell (hh : h < t.heads) (hi : i < t.tokens) : ∃ x, t.cell h i = some x := by
  obtain ⟨c, hc⟩ := exists_col hh
  have hl := length_col hc
  exact ⟨_, cell_eq_some_iff.mpr ⟨_, hc, List.getElem?_eq_getElem (by omega)⟩⟩

section
variable (t : Tensor α) (hs : HeadSlice)

def onHeads (f : Nat → List α → List α)
    (hf : ∀ h c, c.length = t.tokens → (f h c).length = t.tokens) : Tensor α where
  tokens := t.tokens
  cols := t.cols.mapIdx fun h c => if hs.Has h then f h c else c
  uniform := by
    intro c hc
    obtain ⟨h, hh, rfl⟩ := mem_mapIdx.mp hc
    have hl := t.uniform _ (getElem_mem hh)
    split
    · exact hf _ _ hl
    · exact hl

@[simp] lemma heads_onHeads (t : Tensor α) (hs : HeadSlice) (f : Nat → List α → List α) (hf) :
    (t.onHeads hs f hf).heads = t.heads := by
  simp [heads, onHeads]

lemma cell_onHeads (t : Tensor α) (hs : HeadSlice) (f : Nat → List α → List α) (hf) (h i : Nat) :
    (t.onHeads hs f hf).cell h i =
      if hs.Has h then (t.cols[h]?).bind fun c => (f h c)[i]? else t.cell h i := by
  simp only [cell, onHeads, List.getElem?_mapIdx]
  by_cases hh : hs.Has h <;> cases t.cols[h]? <;> simp [hh]

/-- `t[:, a : a + x.tokens, heads] = x`; out of range, nothing changes. -/
def assign (a : Nat) (x : Tensor α) : Tensor α :=
  t.onHeads hs
    (fun h c => if a + (x.row (h - hs.first)).length ≤ c.length
      then splice c a (x.row (h - hs.first)) else c)
    (by
      intro h c hc
      split
      · rename_i hle; rw [length_splice hle, hc]
      · exact hc)

/-- `t[:, dst : dst + n, heads] = t[:, src : src + n, heads].clone()`. -/
def moveRows (dst src n : Nat) : Tensor α :=
  t.onHeads hs
    (fun _ c => if dst + n ≤ c.length ∧ src + n ≤ c.length
      then splice c dst (c.extract src (src + n)) else c)
    (by
      intro h c hc
      split
      · rename_i hle
        have hn := length_extract src hle.2
        rw [length_splice (by omega), hc]
      · exact hc)

def grow (n : Nat) (zero : α) : Tensor α where
  tokens := t.tokens + (n - t.tokens)
  cols := t.cols.map (· ++ List.replicate (n - t.tokens) zero)
  uniform := by
    intro c hc
    obtain ⟨c', hc', rfl⟩ := mem_map.mp hc
    simp [t.uniform c' hc']

/-- `torch.cat([t[:, a:b, heads] for (a, b) in slices], dim=1)`. -/
def catSlices (slices : List (Nat × Nat)) : Tensor α where
  tokens := (slices.map fun s => min s.2 t.tokens - s.1).sum
  cols := (hs.select t.cols).map fun c => slices.flatMap fun s => c.extract s.1 s.2
  uniform := by
    intro c hc
    obtain ⟨c', hc', rfl⟩ := mem_map.mp hc
    have hl : c'.length = t.tokens := by
      rcases hs with - | ⟨start, count⟩
      · exact t.uniform c' hc'
      · exact t.uniform c' (mem_of_mem_drop (mem_of_mem_take hc'))
    induction slices with
    | nil => rfl
    | cons s rest ih =>
      rw [flatMap_cons, length_append, map_cons, sum_cons, ih (mem_map.mpr ⟨c', hc', rfl⟩)]
      simp only [extract_eq_take_drop, length_take, length_drop, hl]
      omega
end

section
variable (t : Tensor α) (n : Nat) (zero : α) (hs : HeadSlice)

@[simp] lemma heads_assign (a : Nat) (x : Tensor α) : (t.assign hs a x).heads = t.heads :=
  heads_onHeads ..

@[simp] lemma heads_moveRows (dst src n : Nat) : (t.moveRows hs dst src n).heads = t.heads :=
  heads_onHeads ..

@[simp] lemma heads_grow : (t.grow n zero).heads = t.heads := by simp [heads, grow]

lemma tokens_grow : (t.grow n zero).tokens = max t.tokens n := by
  simp only [grow]; omega
end

lemma cell_assign {x : Tensor α} {a : Nat} (hin : a + x.tokens ≤ t.tokens)
    (hx : hs.Has h → h - hs.first < x.heads) :
    (t.assign hs a x).cell h i =
      if hs.Has h ∧ h < t.heads ∧ a ≤ i ∧ i < a + x.tokens then x.cell (h - hs.first) (i - a)
      else t.cell h i := by
  unfold assign
  rw [cell_onHeads]
  by_cases hh : hs.Has h
  swap
  · rw [if_neg hh, if_neg (fun hp => hh hp.1)]
  obtain ⟨cx, hxc⟩ := exists_col (hx hh)
  have hxl := length_col hxc
  rw [if_pos hh]
  rcases hc : t.cols[h]? with _ | c
  · have hge : ¬ h < t.heads := fun hlt => by
      rw [List.getElem?_eq_getElem hlt] at hc; cases hc
    rw [if_neg (fun hp => hge hp.2.1)]
    simp [cell, hc]
  have hl := length_col hc
  have hlt : h < t.heads := (List.getElem?_eq_some_iff.mp hc).1
  have hrow : x.row (h - hs.first) = cx := by simp [row, hxc]
  simp only [Option.bind_some, hrow, hxl, hl, if_pos hin]
  rw [getElem?_splice (by omega), hxl]
  by_cases hi : a ≤ i ∧ i < a + x.tokens
  · rw [if_pos hi, if_pos ⟨hh, hlt, hi⟩]
    simp [cell, hxc]
  · rw [if_neg hi, if_neg (fun hp => hi hp.2.2)]
    simp [cell, hc]

lemma cell_moveRows {dst src n : Nat} (hd : dst + n ≤ t.tokens) (hsrc : src + n ≤ t.tokens) :
    (t.moveRows hs dst src n).cell h i =
      if hs.Has h ∧ dst ≤ i ∧ i < dst + n then t.cell h (src + (i - dst)) else t.cell h i := by
  unfold moveRows
  rw [cell_onHeads]
  by_cases hh : hs.Has h
  swap
  · rw [if_neg hh, if_neg (fun hp => hh hp.1)]
  rw [if_pos hh]
  rcases hc : t.cols[h]? with _ | c
  · simp [cell, hc]
  have hl := length_col hc
  have hn : (c.extract src (src + n)).length = n := by rw [length_extract _ (by omega)]; omega
  simp only [Option.bind_some]
  rw [if_pos ⟨by omega, by omega⟩, getElem?_splice (by omega), hn]
  by_cases hi : dst ≤ i ∧ i < dst + n
  · rw [if_pos hi, if_pos ⟨hh, hi⟩, getElem?_extract (by omega)]
    simp [cell, hc]
  · rw [if_neg hi, if_neg (fun hp => hi hp.2)]
    simp [cell, hc]

lemma cell_grow {n : Nat} {zero : α} (hi : i < t.tokens) : (t.grow n zero).cell h i = t.cell h i := by
  simp only [cell, grow, List.getElem?_map]
  rcases hc : t.cols[h]? with _ | c
  · rfl
  have hl := length_col hc
  grind

lemma tokens_catSlices (hin : ∀ s ∈ slices, s.2 ≤ t.tokens) :
    (t.catSlices hs slices).tokens = (slices.map fun s => s.2 - s.1).sum := by
  simp only [catSlices]
  congr 1
  apply map_congr_left
  intro s hsm
  rw [Nat.min_eq_left (hin s hsm)]

lemma row_catSlices (hh : hs.Has h) (hlt : h < t.heads) (hin : ∀ s ∈ slices, s.2 ≤ t.tokens) :
    ((t.catSlices hs slices).row (h - hs.first)).map some =
      (slices.flatMap fun s => range' s.1 (s.2 - s.1)).map (t.cell h) := by
  obtain ⟨col, hc⟩ := exists_col hlt
  have hl := length_col hc
  have hcell : t.cell h = (col[·]?) := by funext i; simp [cell, hc]
  have hrow : (t.catSlices hs slices).row (h - hs.first) =
      slices.flatMap fun s => col.extract s.1 s.2 := by
    simp only [row, catSlices, List.getElem?_map, HeadSlice.getElem?_select hh, hc]
    rfl
  rw [hrow, hcell]
  clear hrow
  induction slices with
  | nil => rfl
  | cons s rest ih =>
    have hs2 := hin s (mem_cons_self ..)
    have he := extract_map_some s.1 (show s.2 ≤ col.length by omega)
    grind
end Tensor
end Sglang
