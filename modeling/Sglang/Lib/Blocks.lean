import Mathlib

/-!
# Lists cut into blocks of one length

`block n xs i` is the slice `xs[i * n : (i + 1) * n]`.
-/

namespace Sglang
open List
variable {α β : Type}

/-! ## Slices and writes -/

section
def splice (xs : List α) (a : Nat) (ys : List α) : List α :=
  xs.take a ++ ys ++ xs.drop (a + ys.length)

variable {xs : List α} {a b : Nat}

lemma length_splice {ys : List α} (h : a + ys.length ≤ xs.length) :
    (splice xs a ys).length = xs.length := by
  simp only [splice, length_append, length_take, length_drop]
  omega

lemma getElem?_splice {ys : List α} (h : a + ys.length ≤ xs.length) (i : Nat) :
    (splice xs a ys)[i]? = if a ≤ i ∧ i < a + ys.length then ys[i - a]? else xs[i]? := by
  have ha : (xs.take a).length = a := by simp; omega
  unfold splice
  rw [append_assoc, getElem?_append, ha]
  by_cases h1 : i < a
  · rw [if_pos h1, if_neg (by omega), getElem?_take_of_lt h1]
  rw [if_neg h1, getElem?_append]
  by_cases h2 : i < a + ys.length
  · rw [if_pos (by omega), if_pos ⟨by omega, h2⟩]
  · rw [if_neg (by omega), if_neg (by omega), getElem?_drop]
    congr 1
    omega

lemma length_extract (a : Nat) (h : b ≤ xs.length) : (xs.extract a b).length = b - a := by
  grind

lemma getElem?_extract {i : Nat} (hi : i < b - a) : (xs.extract a b)[i]? = xs[a + i]? := by
  grind

lemma extract_map_some (a : Nat) (h : b ≤ xs.length) :
    (xs.extract a b).map some = (range' a (b - a)).map (xs[·]?) := by
  apply ext_getElem?
  intro i
  by_cases hi : i < b - a
  · have hx : a + i < xs.length := by omega
    rw [getElem?_map, getElem?_extract hi, getElem?_map, getElem?_range' hi, getElem?_eq_getElem hx]
    simp [getElem?_eq_getElem hx]
  · rw [getElem?_eq_none (by rw [length_map, length_extract a h]; omega),
      getElem?_eq_none (by simp; omega)]
end

/-! ## Blocks -/

def block (n : Nat) (xs : List α) (i : Nat) : List α := xs.extract (i * n) ((i + 1) * n)

variable {n i k b : Nat} {xs ys : List α}
  {idx sizes back : List Nat} {ps : List (List α)} {j m w : Nat} {f : Nat → List β}

lemma getElem?_block : (block n xs i)[j]? = if j < n then xs[i * n + j]? else none := by
  have hn : (i + 1) * n - i * n = n := by rw [add_mul, one_mul]; omega
  unfold block
  grind

lemma length_block (h : (i + 1) * n ≤ xs.length) : (block n xs i).length = n := by
  unfold block
  grind

lemma block_congr (h : ∀ j < n, xs[i * n + j]? = ys[k * n + j]?) : block n xs i = block n ys k := by
  apply ext_getElem?
  intro j
  rw [getElem?_block, getElem?_block]
  split
  · rename_i hj; exact h j hj
  · rfl

lemma block_end_le (h : i < k) : i * n + n ≤ k * n := by
  rw [← Nat.succ_mul]
  exact Nat.mul_le_mul_right n h

lemma map_getD_range (xs : List α) (d : α) : (range xs.length).map (fun i => xs.getD i d) = xs := by
  apply ext_getElem <;> simp +contextual

lemma div_mod_of_block {a : Nat} (h : b < n) : (a * n + b) / n = a ∧ (a * n + b) % n = b := by
  have hn : 0 < n := by omega
  rw [mul_comm]
  exact ⟨by rw [Nat.mul_add_div hn, Nat.div_eq_of_lt h, add_zero],
    by rw [Nat.mul_add_mod, Nat.mod_eq_of_lt h]⟩

lemma eq_of_mul_add_eq {a c d : Nat} (hb : b < n) (hd : d < n) (h : a * n + b = c * n + d) :
    a = c ∧ b = d := by
  obtain ⟨ha, hb'⟩ := div_mod_of_block (a := a) hb
  obtain ⟨hc, hd'⟩ := div_mod_of_block (a := c) hd
  grind

lemma block_drop : block n (xs.drop (k * n)) i = block n xs (k + i) := by
  apply block_congr
  grind

lemma block_take (h : i < k) : block n (xs.take (k * n)) i = block n xs i := by
  have hle := block_end_le (n := n) h
  apply block_congr
  intro j hj
  rw [getElem?_take_of_lt (by omega)]

lemma block_extract {s e : Nat} (h : s + i < e) :
    block n (xs.extract (s * n) (e * n)) i = block n xs (s + i) := by
  have hle := block_end_le (n := n) h
  rw [add_mul] at hle
  apply block_congr
  grind

lemma block_append_left (hx : xs.length = k * n) (h : i < k) : block n (xs ++ ys) i = block n xs i := by
  have hle := block_end_le (n := n) h
  apply block_congr
  intro j hj
  rw [getElem?_append_left (by omega)]

lemma block_append_right (hx : xs.length = k * n) (i : Nat) :
    block n (xs ++ ys) (k + i) = block n ys i := by
  apply block_congr
  grind

lemma block_zero (hx : xs.length = n) : block n xs 0 = xs := by
  apply ext_getElem?
  intro j
  rw [getElem?_block, zero_mul, zero_add]
  grind

lemma block_splice (hy : ys.length = n) (hb : b * n + n ≤ xs.length) (i : Nat) :
    block n (splice xs (b * n) ys) i = if i = b then ys else block n xs i := by
  split
  · rename_i hi
    subst hi
    refine Eq.trans (block_congr fun j hj => ?_) (block_zero hy)
    rw [getElem?_splice (by omega), if_pos ⟨by omega, by omega⟩]
    congr 1
    omega
  rename_i hi
  apply block_congr
  intro j hj
  rw [getElem?_splice (by omega), if_neg]
  rcases lt_or_gt_of_ne hi with hlt | hgt
  · have := block_end_le (n := n) hlt
    omega
  · have := block_end_le (n := n) hgt
    omega

lemma length_flatMap_replicate (n : Nat) (ts : List α) :
    (ts.flatMap (replicate n)).length = ts.length * n := by
  simp [length_flatMap]

lemma block_flatMap_replicate {ts : List α} {t : α} (h : ts[i]? = some t) :
    block n (ts.flatMap (replicate n)) i = replicate n t := by
  induction ts generalizing i with
  | nil => simp at h
  | cons u us ih => ?_
  have hlen : (replicate n u).length = 1 * n := by simp
  rw [flatMap_cons]
  cases i with
  | zero =>
    simp only [getElem?_cons_zero, Option.some.injEq] at h
    rw [block_append_left hlen zero_lt_one, h, block_zero (by simp)]
  | succ i =>
    rw [add_comm i 1, block_append_right hlen, ih h]

lemma filterMap_window {f : α → Option β} {ys : List β} (hlen : b + ys.length ≤ xs.length)
    (hin : ∀ i y, ys[i]? = some y → ∃ x, xs[b + i]? = some x ∧ f x = some y)
    (hout : ∀ i x, xs[i]? = some x → i < b ∨ b + ys.length ≤ i → f x = none) : xs.filterMap f = ys := by
  have hsplit : xs = xs.take b ++ ((xs.drop b).take ys.length ++ xs.drop (b + ys.length)) := by
    rw [← drop_drop, take_append_drop, take_append_drop]
  have hmid : ((xs.drop b).take ys.length).map f = ys.map some := by
    apply ext_getElem?
    intro i
    rw [getElem?_map, getElem?_map]
    by_cases hi : i < ys.length
    · obtain ⟨x, hx, hfx⟩ := hin i ys[i] (getElem?_eq_getElem hi)
      rw [getElem?_take_of_lt hi, getElem?_drop, hx, getElem?_eq_getElem hi]
      simp [hfx]
    · rw [getElem?_eq_none (by simp; omega), getElem?_eq_none (by omega)]
      rfl
  have hleft : (xs.take b).filterMap f = [] := by
    rw [filterMap_eq_nil_iff]
    intro x hx
    obtain ⟨i, hi, hx⟩ := mem_iff_getElem.mp hx
    rw [length_take] at hi
    exact hout i x (by rw [← hx, getElem_take]; exact getElem?_eq_getElem _) (.inl (by omega))
  have hright : (xs.drop (b + ys.length)).filterMap f = [] := by
    rw [filterMap_eq_nil_iff]
    intro x hx
    obtain ⟨i, hi, hx⟩ := mem_iff_getElem.mp hx
    exact hout (b + ys.length + i) x
      (by rw [← hx, getElem_drop]; exact getElem?_eq_getElem _) (.inr (by omega))
  have hmap : ((xs.drop b).take ys.length).filterMap f = (ys.map some).filterMap id := by
    rw [← hmid, filterMap_map]
    rfl
  rw [hsplit, filterMap_append, filterMap_append, hleft, hright, hmap]
  simp

/-! ## Pieces of given lengths

A list is cut into consecutive pieces of given lengths, pieces are picked by their numbers, and the
picked pieces are put together again.
-/

def splitPieces : List Nat → List α → List (List α)
  | [], _ => []
  | n :: ns, xs => xs.take n :: splitPieces ns (xs.drop n)

def torchSplit (sizes : List Nat) (xs : List α) : Option (List (List α)) :=
  if sizes.sum = xs.length then some (splitPieces sizes xs) else none

def pick (ps : List β) (idx : List Nat) : Option (List β) := idx.mapM fun i => ps[i]?

variable (ps : List (List α))

def torchCat : Option (List α) := if ps.isEmpty then none else some ps.flatten

lemma flatten_splitPieces {xs : List α} (h : sizes.sum = xs.length) :
    (splitPieces sizes xs).flatten = xs := by
  induction sizes generalizing xs with
  | nil =>
    rw [length_eq_zero_iff.mp h.symm]
    rfl
  | cons n ns ih =>
    rw [sum_cons] at h
    rw [splitPieces, flatten_cons, ih (by rw [length_drop]; omega), take_append_drop]

lemma map_length_splitPieces {xs : List α} (h : sizes.sum = xs.length) :
    (splitPieces sizes xs).map length = sizes := by
  induction sizes generalizing xs with
  | nil => rfl
  | cons n ns ih =>
    rw [sum_cons] at h
    rw [splitPieces, map_cons, ih (by rw [length_drop]; omega), length_take_of_le (by omega)]

lemma splitPieces_map_length : splitPieces (ps.map length) ps.flatten = ps := by
  induction ps with
  | nil => rfl
  | cons p ps ih =>
    rw [map_cons, flatten_cons, splitPieces, take_left, drop_left, ih]

lemma torchSplit_flatten : torchSplit (ps.map length) ps.flatten = some ps := by
  rw [torchSplit, if_pos (by rw [length_flatten]), splitPieces_map_length]

variable {ps}

lemma torchCat_of_ne_nil (h : ps ≠ []) : torchCat ps = some ps.flatten := by
  rw [torchCat, if_neg (by simpa using h)]

/-! ## Picking -/

lemma pick_eq_some (d : β) {ps : List β} (h : ∀ i ∈ idx, i < ps.length) :
    pick ps idx = some (idx.map fun i => ps.getD i d) := by
  unfold pick
  induction idx with
  | nil => rfl
  | cons i idx ih =>
    grind

lemma pick_pick {ps : List β} {d : β} (hback : ∀ i ∈ back, i < idx.length)
    (hinv : back.map (fun i => idx.getD i 0) = range ps.length) :
    pick (idx.map fun i => ps.getD i d) back = some ps := by
  rw [pick_eq_some d (by simpa using hback)]
  congr 1
  have hmap : (back.map fun i => (idx.map fun i => ps.getD i d).getD i d) =
      (back.map fun i => idx.getD i 0).map fun i => ps.getD i d := by
    rw [map_map]
    refine map_congr_left fun i hi => ?_
    grind
  rw [hmap, hinv]
  apply ext_getElem
  · simp
  grind

/-! ## Where items are -/

lemma getElem?_flatten_piece {i : Nat} {p : List α} (hp : ps[i]? = some p)
    (hj : j < p.length) : ps.flatten[((ps.map length).take i).sum + j]? = p[j]? := by
  induction ps generalizing i with
  | nil => simp at hp
  | cons q ps ih =>
    cases i with
    | zero =>
      grind
    | succ i =>
      grind

lemma length_flatMap_range (hf : ∀ i < m, (f i).length = w) : ((range m).flatMap f).length = m * w := by
  rw [length_flatMap, map_congr_left fun i hi => hf i (mem_range.mp hi)]
  simp

lemma getElem?_flatMap_range {i : Nat} (hf : ∀ i < m, (f i).length = w)
    (hi : i < m) (hj : j < w) : ((range m).flatMap f)[i * w + j]? = (f i)[j]? := by
  induction m with
  | zero => omega
  | succ m ih => ?_
  have hlen := length_flatMap_range (m := m) fun i hi => hf i (by omega)
  rw [range_succ, flatMap_append, flatMap_singleton]
  by_cases him : i < m
  · have : i * w + w ≤ m * w := block_end_le him
    rw [getElem?_append_left (by omega), ih (fun i hi => hf i (by omega)) him]
  · obtain rfl : i = m := by omega
    rw [getElem?_append_right (by omega), hlen, Nat.add_sub_cancel_left]

lemma range_mul (m w : Nat) : range (m * w) = (range m).flatMap fun i => (range w).map (i * w + ·) := by
  induction m with
  | zero => simp
  | succ m ih =>
    rw [Nat.succ_mul, range_add, ih, range_succ, flatMap_append, flatMap_singleton]

lemma perm_range_of_inverse {n : Nat} (hlen : back.length = n)
    (hidx : idx.length = n) (hback : ∀ i ∈ back, i < idx.length)
    (hinv : back.map (fun i => idx.getD i 0) = range n) :
    back.Perm (range n) ∧ idx.Perm (range n) := by
  have hnd : back.Nodup := Nodup.of_map _ (hinv ▸ nodup_range)
  have hperm : back.Perm (range n) := by
    refine (subperm_of_subset hnd fun i hi => ?_).perm_of_length_le (by rw [length_range, hlen])
    exact mem_range.mpr (hidx ▸ hback i hi)
  refine ⟨hperm, ?_⟩
  have hall : (range n).map (fun i => idx.getD i 0) = idx := hidx ▸ map_getD_range idx 0
  rw [← hall]
  exact (hperm.map _).symm.trans (hinv ▸ .refl _)
end Sglang
