import Sglang.Lib.Paging

/-!
# The slot allocators

`PagedTokenToKVPoolAllocator`, and `TokenToKVPoolAllocator` for pages of one slot: a list of free
pages, from whose front pages are taken.
-/

namespace Sglang
open List

structure PagedAllocator where
  pageSize : Nat
  numPages : Nat
  needSort : Bool := false
  freePages : List Nat
  releasePages : List Nat := []
  isNotInFreeGroup : Bool := true
  freeGroup : List (List Nat) := []
  deriving DecidableEq

structure ExtendReq where
  prefixLen : Nat
  seqLen : Nat
  lastLoc : Int
  deriving DecidableEq

namespace PagedAllocator
variable (a : PagedAllocator) (wanted : Nat) (freeIndex : List Nat)

/-- `clear`: page 0 is kept back for the outputs of padded tokens. -/
def clear : PagedAllocator :=
  { a with
    freePages := List.range' 1 a.numPages
    isNotInFreeGroup := true
    freeGroup := []
    releasePages := [] }

def availableSize : Nat :=
  (a.freePages.length + a.releasePages.length) * a.pageSize

/-- Of single slots, nothing is looked at. -/
def freePageIndices : List Nat :=
  if a.pageSize = 1 then freeIndex else unique (freeIndex.map (· / a.pageSize))

/-- Single slots go behind the others, pages in front. -/
def joinPages (freePageIndices pages : List Nat) : List Nat :=
  if a.pageSize = 1 then pages ++ freePageIndices else freePageIndices ++ pages

def free : PagedAllocator :=
  if freeIndex.length = 0 then a
  else if a.isNotInFreeGroup then
    if a.needSort then
      { a with releasePages := a.joinPages (a.freePageIndices freeIndex) a.releasePages }
    else { a with freePages := a.joinPages (a.freePageIndices freeIndex) a.freePages }
  else { a with freeGroup := a.freeGroup ++ [freeIndex] }

def freeGroupBegin : PagedAllocator :=
  { a with isNotInFreeGroup := false, freeGroup := [] }

def freeGroupEnd : PagedAllocator :=
  let a := { a with isNotInFreeGroup := true }
  if a.freeGroup.isEmpty then a else a.free a.freeGroup.flatten

def mergeAndSortFree : PagedAllocator :=
  if 0 < a.releasePages.length then
    { a with
      freePages := (a.freePages ++ a.releasePages).insertionSort (· ≤ ·)
      releasePages := [] }
  else a

/-- Released pages are merged in if too few are free. -/
def readied : PagedAllocator :=
  if a.needSort ∧ wanted > a.freePages.length then a.mergeAndSortFree else a

def takePages (n : Nat) : Option (List Nat × PagedAllocator) :=
  let a := a.readied wanted
  if n > a.freePages.length then none
  else some (a.freePages.take n, { a with freePages := a.freePages.drop n })

def alloc (needSize : Nat) : Option (List Nat × PagedAllocator) := do
  let numPages := needSize / a.pageSize
  let (outPages, a) ← a.takePages numPages numPages
  return (outPages.flatMap fun q => (List.range a.pageSize).map (q * a.pageSize + ·), a)
end PagedAllocator

/-! ## The kernels -/

def ExtendReq.numNewPages (p : Nat) (r : ExtendReq) : Nat := pagesUp p r.seqLen - pagesUp p r.prefixLen

def ExtendReq.extendLen (r : ExtendReq) : Nat := r.seqLen - r.prefixLen

/-- `alloc_extend_kernel` for one request; `pages` are the free pages from its start on. -/
def extendOne (p : Nat) (r : ExtendReq) (pages : List Nat) : List Nat :=
  let numPart1 := min r.seqLen (pagesUp p r.prefixLen * p) - r.prefixLen
  let part1 := (List.range numPart1).map fun (o : Nat) => (r.lastLoc + 1 + o).toNat
  if r.prefixLen + numPart1 = r.seqLen then part1
  else
    let numPart2 := r.seqLen / p * p - pagesUp p r.prefixLen * p
    let part2 := (List.range numPart2).map fun o => pages.getD (o / p) 0 * p + o % p
    if r.prefixLen + numPart1 + numPart2 = r.seqLen then part1 ++ part2
    else
      let numPart3 := r.seqLen - r.seqLen / p * p
      part1 ++ part2 ++ (List.range numPart3).map fun o => pages.getD (r.numNewPages p - 1) 0 * p + o

def extendAll (p : Nat) : List ExtendReq → List Nat → List (List Nat)
  | [], _ => []
  | r :: rs, pages => extendOne p r pages :: extendAll p rs (pages.drop (r.numNewPages p))

def decodeOne (p : Nat) (r : ExtendReq) (pages : List Nat) : Nat :=
  if r.numNewPages p = 0 then (r.lastLoc + 1).toNat else pages.getD 0 0 * p

def decodeAll (p : Nat) : List ExtendReq → List Nat → List Nat
  | [], _ => []
  | r :: rs, pages => decodeOne p r pages :: decodeAll p rs (pages.drop (r.numNewPages p))

namespace PagedAllocator
section
variable (a : PagedAllocator) (reqs : List ExtendReq)

def allocExtend : Option (List (List Nat) × PagedAllocator) := do
  let extendNumTokens := (reqs.map ExtendReq.extendLen).sum
  let (pages, a) ← a.takePages (extendNumTokens / a.pageSize + reqs.length + 1)
    (reqs.map (ExtendReq.numNewPages a.pageSize)).sum
  return (extendAll a.pageSize reqs pages, a)

/-- A request needs a page if its new length is one past a page boundary. -/
def allocDecode : Option (List Nat × PagedAllocator) := do
  let (pages, a) ← a.takePages reqs.length
    (reqs.countP fun r => r.seqLen % a.pageSize = 1)
  return (decodeAll a.pageSize reqs pages, a)

/-! ## Taking pages -/

def pending : List Nat :=
  if a.isNotInFreeGroup then [] else a.freePageIndices a.freeGroup.flatten

def freed : List Nat := a.freePages ++ a.releasePages ++ a.pending

structure SameConfig (a' : PagedAllocator) : Prop where
  pageSize : a'.pageSize = a.pageSize
  numPages : a'.numPages = a.numPages
  needSort : a'.needSort = a.needSort

lemma SameConfig.refl (a : PagedAllocator) : SameConfig a a := ⟨rfl, rfl, rfl⟩

lemma SameConfig.trans {a a' a'' : PagedAllocator} (h : SameConfig a a') (h' : SameConfig a' a'') :
    SameConfig a a'' :=
  ⟨h'.1.trans h.1, h'.2.trans h.2, h'.3.trans h.3⟩

def Settled : Prop := a.needSort = false → a.releasePages = []
end

variable {a a' : PagedAllocator} {wanted n : Nat} {pages : List Nat}

lemma mergeAndSortFree_perm : (a.mergeAndSortFree.freePages ++ a.mergeAndSortFree.releasePages).Perm
      (a.freePages ++ a.releasePages) := by
  unfold mergeAndSortFree
  split
  · rw [append_nil]
    exact perm_insertionSort _ _
  · exact .refl _

lemma readied_perm : ((a.readied wanted).freePages ++ (a.readied wanted).releasePages).Perm
    (a.freePages ++ a.releasePages) := by
  unfold readied
  split
  · exact mergeAndSortFree_perm
  · exact .refl _

lemma readied_sameConfig : SameConfig a (a.readied wanted) := by
  unfold readied mergeAndSortFree
  split
  · split <;> exact ⟨rfl, rfl, rfl⟩
  · exact .refl a

lemma readied_group : (a.readied wanted).isNotInFreeGroup = a.isNotInFreeGroup ∧
    (a.readied wanted).freeGroup = a.freeGroup := by
  unfold readied mergeAndSortFree
  grind

lemma Settled.readied (h : a.Settled) : (a.readied wanted).Settled := by
  unfold PagedAllocator.readied mergeAndSortFree
  split
  · split
    · exact fun _ => rfl
    · exact h
  · exact h

structure Takes (a : PagedAllocator) (pages : List Nat) (a' : PagedAllocator) : Prop where
  perm : (a.freePages ++ a.releasePages).Perm (pages ++ (a'.freePages ++ a'.releasePages))
  settled : a.Settled → a'.Settled
  sameConfig : SameConfig a a'
  isNotInFreeGroup : a'.isNotInFreeGroup = a.isNotInFreeGroup
  freeGroup : a'.freeGroup = a.freeGroup

lemma takePages_spec (h : a.takePages wanted n = some (pages, a')) :
    pages.length = n ∧ Takes a pages a' := by
  rw [takePages] at h
  split at h
  · cases h
  obtain ⟨rfl, rfl⟩ := h
  refine ⟨by rw [length_take]; omega, ?_, Settled.readied, ?_, readied_group.1, readied_group.2⟩
  · rw [← append_assoc, take_append_drop]
    exact readied_perm.symm
  · have : SameConfig a (a.readied wanted) := readied_sameConfig
    exact ⟨this.1, this.2, this.3⟩

/-- Pages are refused only if there are too few, unless some wait in `release_pages` unsorted. -/
lemma takePages_none (h : a.takePages wanted n = none) (hn : n ≤ wanted) (hr : a.Settled) :
    a.freePages.length + a.releasePages.length < n := by
  rw [takePages] at h
  split at h
  swap
  · cases h
  rename_i hlt
  rcases hs : a.needSort with _ | _
  · rw [readied, if_neg (by simp [hs])] at hlt
    rw [hr hs]
    exact hlt
  by_cases hw : wanted > a.freePages.length
  swap
  · rw [readied, if_neg fun hcond => hw hcond.2] at hlt
    omega
  have hperm := (mergeAndSortFree_perm (a := a)).length_eq
  rw [readied, if_pos ⟨hs, hw⟩] at hlt
  rw [length_append, length_append] at hperm
  have hnil : a.mergeAndSortFree.releasePages = [] := by
    unfold mergeAndSortFree
    split
    · rfl
    · exact length_eq_zero_iff.mp (by omega)
  rw [hnil, length_nil] at hperm
  omega

lemma Takes.freed_perm (h : Takes a pages a') : a.freed.Perm (pages ++ a'.freed) := by
  have hpending : a'.pending = a.pending := by
    rw [pending, pending, h.isNotInFreeGroup, h.freeGroup, freePageIndices, freePageIndices,
      h.sameConfig.pageSize]
  rw [freed, freed, hpending, ← append_assoc]
  exact h.perm.append_right _

/-! ## Freeing -/

lemma free_sameConfig (idx : List Nat) : SameConfig a (a.free idx) := by
  unfold free
  split_ifs <;> exact ⟨rfl, rfl, rfl⟩

lemma Settled.free (h : a.Settled) (idx : List Nat) : (a.free idx).Settled := by
  unfold PagedAllocator.free
  split_ifs with h0 hopen hsort
  · exact h
  · intro hns
    rw [hsort] at hns
    cases hns
  · exact h
  · exact h

lemma availableSize_le_free (idx : List Nat) : a.availableSize ≤ (a.free idx).availableSize := by
  have hjoin : ∀ old, old.length ≤ (a.joinPages (a.freePageIndices idx) old).length := by
    intro old
    rw [joinPages]
    split <;> rw [length_append] <;> omega
  have hfree := hjoin a.freePages
  have hrelease := hjoin a.releasePages
  unfold free
  split_ifs
  · exact le_rfl
  · exact Nat.mul_le_mul_right _ (Nat.add_le_add_left hrelease _)
  · exact Nat.mul_le_mul_right _ (Nat.add_le_add_right hfree _)
  · exact le_rfl

lemma Settled.freeGroupEnd (h : a.Settled) : a.freeGroupEnd.Settled := by
  unfold PagedAllocator.freeGroupEnd
  dsimp only
  split
  · exact h
  · exact Settled.free (a := { a with isNotInFreeGroup := true }) h _

lemma joinPages_perm (new old : List Nat) : (a.joinPages new old).Perm (new ++ old) := by
  rw [joinPages]
  grind

variable {idx : List Nat}

lemma freePageIndices_perm (hp : 0 < a.pageSize) (h : Paged a.pageSize idx)
    (hn : (pageIds a.pageSize idx).Nodup) : (a.freePageIndices idx).Perm (pageIds a.pageSize idx) := by
  rw [freePageIndices]
  split
  · rename_i h1
    rw [h1, pageIds_one]
  · exact h.unique_perm hp hn

lemma freePageIndices_append (hp : 0 < a.pageSize) (h : Paged a.pageSize idx)
    (group : List Nat) (hn : (pageIds a.pageSize idx ++ a.freePageIndices group).Nodup) :
    (a.freePageIndices (group ++ idx)).Perm (pageIds a.pageSize idx ++ a.freePageIndices group) := by
  by_cases h1 : a.pageSize = 1
  · rw [freePageIndices, freePageIndices, if_pos h1, if_pos h1, h1, pageIds_one]
    exact perm_append_comm
  rw [freePageIndices, if_neg h1, perm_ext_iff_of_nodup (nodup_unique _) hn]
  intro x
  rw [freePageIndices, if_neg h1, mem_unique, mem_append, ← h.mem_pages hp, mem_unique,
    map_append, mem_append, or_comm]

lemma freed_closed (h : a.isNotInFreeGroup = true) : a.freed = a.freePages ++ a.releasePages := by
  rw [freed, pending, if_pos h, append_nil]

lemma freePageIndices_nil : a.freePageIndices [] = [] := by
  unfold freePageIndices
  split <;> rfl

lemma free_spec (hp : 0 < a.pageSize) (h : Paged a.pageSize idx)
    (hn : (pageIds a.pageSize idx ++ a.freed).Nodup) :
    (a.free idx).freed.Perm (pageIds a.pageSize idx ++ a.freed) := by
  have hpages := freePageIndices_perm hp h (nodup_append.mp hn).1
  unfold free
  split_ifs with h0 hopen hsort
  · rw [length_eq_zero_iff.mp h0, pageIds_nil hp, nil_append]
  · rw [freed_closed (a := a) hopen, freed_closed (by exact hopen)]
    refine ((joinPages_perm ..).trans (hpages.append_right _)).append_left a.freePages |>.trans ?_
    grind
  · rw [freed_closed (a := a) hopen, freed_closed (by exact hopen), ← append_assoc]
    exact ((joinPages_perm ..).trans (hpages.append_right _)).append_right _
  -- the group now also has the new slots, of pages that it did not have
  have hp' : a.pending = a.freePageIndices a.freeGroup.flatten := if_neg hopen
  have hgroup : (a.freePageIndices (a.freeGroup ++ [idx]).flatten).Perm
      (pageIds a.pageSize idx ++ a.pending) := by
    rw [flatten_append, flatten_singleton, hp']
    refine freePageIndices_append hp h _ (hn.sublist ?_)
    rw [← hp']
    exact (sublist_append_right ..).append_left _
  rw [freed, pending, if_neg hopen, freed]
  refine (hgroup.append_left _).trans ?_
  grind

lemma freeGroupEnd_sameConfig : SameConfig a a.freeGroupEnd := by
  unfold freeGroupEnd
  dsimp only
  split
  · exact ⟨rfl, rfl, rfl⟩
  · have := free_sameConfig (a := { a with isNotInFreeGroup := true }) a.freeGroup.flatten
    exact ⟨this.1, this.2, this.3⟩

lemma freeGroupBegin_freed (h : a.isNotInFreeGroup = true) : a.freeGroupBegin.freed = a.freed := by
  have hnone : a.freeGroupBegin.pending = [] := by
    rw [pending, if_neg (by simp [freeGroupBegin])]
    exact freePageIndices_nil
  rw [freed_closed h, freed, hnone, append_nil]
  rfl

lemma freeGroupEnd_freed (h : a.isNotInFreeGroup = false) : a.freeGroupEnd.freed.Perm a.freed := by
  have hp : a.pending = a.freePageIndices a.freeGroup.flatten := if_neg (by simp [h])
  unfold freeGroupEnd
  dsimp only
  split_ifs with hempty
  · rw [freed_closed rfl, freed, hp, isEmpty_iff.mp hempty, flatten_nil, freePageIndices_nil,
      append_nil]
  unfold free
  split_ifs with h0 hopen hsort
  · rw [freed_closed rfl, freed, hp, length_eq_zero_iff.mp h0, freePageIndices_nil, append_nil]
  · rw [freed_closed rfl, freed, hp, append_assoc]
    exact ((joinPages_perm ..).trans perm_append_comm).append_left a.freePages
  · rw [freed_closed rfl, freed, hp]
    exact ((joinPages_perm ..).append_right a.releasePages).trans
      ((append_assoc ..).symm ▸ perm_append_comm)
  · exact absurd rfl hopen
end PagedAllocator

/-! ## The slots of one request -/

lemma getD_map_range {f : Nat → Nat} {n j : Nat} (h : j < n) : ((range n).map f).getD j 0 = f j := by
  grind

variable {p : Nat} {r : ExtendReq} {pages v : List Nat}

open ExtendReq

lemma length_extendOne (pages : List Nat) (hp : 0 < p) (h : r.prefixLen ≤ r.seqLen) :
    (extendOne p r pages).length = r.extendLen := by
  have hup := le_pagesUp_mul hp r.prefixLen
  have hdown := Nat.div_mul_le_self r.seqLen p
  have hle : pagesUp p r.prefixLen * p ≤ r.seqLen →
      pagesUp p r.prefixLen * p ≤ r.seqLen / p * p := fun hlt =>
    Nat.mul_le_mul_right p ((Nat.le_div_iff_mul_le hp).mpr hlt)
  unfold extendOne extendLen
  dsimp only
  split_ifs with h1 h2
  all_goals simp only [length_append, length_map, length_range]
  all_goals omega

lemma getD_extendOne (pages : List Nat) (hp : 0 < p) {j : Nat} (hj : j < r.extendLen) :
    (extendOne p r pages).getD j 0 =
      if r.prefixLen + j < pagesUp p r.prefixLen * p then (r.lastLoc + 1 + (j : Int)).toNat
      else pages.getD ((r.prefixLen + j) / p - pagesUp p r.prefixLen) 0 * p +
        (r.prefixLen + j) % p := by
  have hup := le_pagesUp_mul hp r.prefixLen
  unfold extendOne
  dsimp only
  set u := pagesUp p r.prefixLen with hu
  have hle : u * p ≤ r.seqLen → u * p ≤ r.seqLen / p * p := fun hlt =>
    Nat.mul_le_mul_right p ((Nat.le_div_iff_mul_le hp).mpr hlt)
  unfold extendLen at hj
  by_cases hold : r.prefixLen + j < u * p
  · -- the rest of the old page comes first in all three cases
    have hj1 : j < min r.seqLen (u * p) - r.prefixLen := by omega
    split_ifs
    · exact getD_map_range hj1
    · rw [getD_append _ _ _ _ (by simpa using hj1), getD_map_range hj1]
    · rw [append_assoc, getD_append _ _ _ _ (by simpa using hj1), getD_map_range hj1]
  rw [if_neg hold]
  have hnew : u * p ≤ r.seqLen := by omega
  rw [min_eq_right hnew, if_neg (by omega)]
  -- the place counted from the first new page
  obtain ⟨o, ho⟩ : ∃ o, r.prefixLen + j = u * p + o :=
    ⟨r.prefixLen + j - u * p, by omega⟩
  have hdiv : (r.prefixLen + j) / p - u = o / p := by
    rw [ho, add_comm, Nat.add_mul_div_right _ _ hp, Nat.add_sub_cancel]
  have hmod : (r.prefixLen + j) % p = o % p := by
    rw [ho, add_comm, Nat.add_mul_mod_self_right]
  have hj' : j = (u * p - r.prefixLen) + o := by omega
  have hlen1 : ((range (u * p - r.prefixLen)).map
      fun (o : Nat) => (r.lastLoc + 1 + o).toNat).length ≤ j := by simp [hj']
  rw [hdiv, hmod]
  by_cases hfull : o < r.seqLen / p * p - u * p
  · -- a whole new page
    split_ifs
    · rw [getD_append_right _ _ _ _ hlen1, length_map, length_range, hj',
        Nat.add_sub_cancel_left, getD_map_range hfull]
    · rw [append_assoc, getD_append_right _ _ _ _ hlen1, length_map,
        length_range, hj', Nat.add_sub_cancel_left,
        getD_append _ _ _ _ (by simpa using hfull), getD_map_range hfull]
  -- the last page, of which only a part is used
  rw [if_neg (by omega)]
  have hlast : r.seqLen = r.seqLen / p * p + (r.seqLen - r.seqLen / p * p) := by omega
  have hshort : r.seqLen - r.seqLen / p * p < p := by
    have := Nat.lt_div_mul_add hp (a := r.seqLen)
    omega
  have hnum : r.numNewPages p - 1 = r.seqLen / p - u := by
    rw [numNewPages, hlast, pagesUp_mul_add_lt (by omega) (by omega), ← hlast, ← hu]
    omega
  obtain ⟨t, ht⟩ : ∃ t, o = (r.seqLen / p - u) * p + t :=
    ⟨o - (r.seqLen / p - u) * p, by rw [Nat.sub_mul]; omega⟩
  have htlt : t < r.seqLen - r.seqLen / p * p := by
    rw [Nat.sub_mul] at ht
    omega
  have hdo : o / p = r.seqLen / p - u := by
    rw [ht, add_comm, Nat.add_mul_div_right _ _ hp, Nat.div_eq_of_lt (by omega), zero_add]
  have hmo : o % p = t := by
    rw [ht, add_comm, Nat.add_mul_mod_self_right, Nat.mod_eq_of_lt (by omega)]
  rw [hdo, hmo, append_assoc, getD_append_right _ _ _ _ hlen1, length_map,
    length_range, hj', Nat.add_sub_cancel_left,
    getD_append_right _ _ _ _ (by simp; omega), length_map, length_range, ht,
    ← Nat.sub_mul, Nat.add_sub_cancel_left, getD_map_range htlt, hnum]

lemma extendOne_spec (hp : 0 < p) (hv : Paged p v) (hlen : v.length = r.prefixLen)
    (hle : r.prefixLen ≤ r.seqLen) (hlast : r.prefixLen ≠ 0 → r.lastLoc = v.getD (r.prefixLen - 1) 0)
    (hpages : r.numNewPages p ≤ pages.length) : Paged p (v ++ extendOne p r pages) ∧
      pageIds p (v ++ extendOne p r pages) = pageIds p v ++ pages.take (r.numNewPages p) := by
  have hout := length_extendOne pages hp hle
  have htotal : (v ++ extendOne p r pages).length = r.seqLen := by
    rw [length_append, hout, hlen, extendLen]
    omega
  have hmono : pagesUp p r.prefixLen ≤ pagesUp p r.seqLen := pagesUp_mono hle
  have hold : ∀ i < r.prefixLen, (v ++ extendOne p r pages).getD i 0 = v.getD i 0 :=
    fun i hi => getD_append _ _ _ _ (by omega)
  -- from the first new page on, each slot lies in the page of its place
  have hnew : ∀ i, pagesUp p r.prefixLen * p ≤ i → i < r.seqLen →
      (v ++ extendOne p r pages).getD i 0 =
        pages.getD (i / p - pagesUp p r.prefixLen) 0 * p + i % p := by
    intro i hi hlt
    have hup := le_pagesUp_mul hp r.prefixLen
    rw [getD_append_right _ _ _ _ (by omega), hlen,
      getD_extendOne _ hp (by rw [extendLen]; omega),
      Nat.add_sub_cancel' (by omega), if_neg (by omega)]
  refine ⟨fun i hi => ?_, ?_⟩
  · rw [htotal] at hi
    rcases lt_or_ge i r.prefixLen with hlt | hge
    · rw [hold i hlt, hold _ (lt_of_le_of_lt (Nat.div_mul_le_self i p) hlt)]
      exact hv i (by omega)
    rcases lt_or_ge i (pagesUp p r.prefixLen * p) with hpart | hpast
    · -- the rest of the old page: one past its last slot, and so on
      obtain ⟨k, hk⟩ : ∃ k, pagesUp p r.prefixLen = k + 1 :=
        ⟨pagesUp p r.prefixLen - 1, by
          grind⟩
      have hkp : k * p < r.prefixLen := (lt_pagesUp_iff hp).mp (by omega)
      rw [hk, Nat.succ_mul] at hpart
      have hdivmod : ∀ m, k * p ≤ m → m < k * p + p → m / p * p = k * p ∧ m % p = m - k * p := by
        intro m hm hm'
        obtain ⟨x, rfl⟩ := Nat.exists_eq_add_of_le hm
        rw [add_comm, Nat.add_mul_div_right _ _ hp, Nat.add_mul_mod_self_right,
          Nat.div_eq_of_lt (by omega), Nat.mod_eq_of_lt (by omega), zero_add]
        exact ⟨rfl, (Nat.add_sub_cancel ..).symm⟩
      obtain ⟨hdi, hmi⟩ := hdivmod i (by omega) hpart
      obtain ⟨hdl, hml⟩ := hdivmod (r.prefixLen - 1) (by omega) (by omega)
      have hvlast := hv (r.prefixLen - 1) (by omega)
      rw [hdl, hml] at hvlast
      rw [hdi, hmi, hold _ hkp, getD_append_right _ _ _ _ (by omega), hlen,
        getD_extendOne _ hp (by rw [extendLen]; omega), Nat.add_sub_cancel' hge,
        if_pos (by rw [hk, Nat.succ_mul]; exact hpart), hlast (by omega), hvlast]
      omega
    have hstart : pagesUp p r.prefixLen * p ≤ i / p * p :=
      Nat.mul_le_mul_right p ((Nat.le_div_iff_mul_le hp).mpr hpast)
    have hle' := Nat.div_mul_le_self i p
    rw [hnew i hpast hi, hnew (i / p * p) hstart (by omega), Nat.mul_mod_left, add_zero,
      Nat.mul_div_cancel _ hp, Nat.mul_div_cancel _ hp]
  have hsum : pagesUp p r.seqLen = pagesUp p r.prefixLen + r.numNewPages p := by
    rw [numNewPages]
    omega
  rw [pageIds, htotal, hsum, range_add, map_append, map_map, pageIds, hlen]
  congr 1
  · refine map_congr_left fun k hk => ?_
    rw [hold _ ((lt_pagesUp_iff hp).mp (mem_range.mp hk))]
  refine ext_getElem (by simp [hpages]) fun k hk _ => ?_
  simp only [length_map, length_range] at hk
  have hlt : (pagesUp p r.prefixLen + k) * p < r.seqLen := (lt_pagesUp_iff hp).mp (by omega)
  simp only [getElem_map, getElem_range, Function.comp, getElem_take]
  rw [hnew _ (Nat.mul_le_mul_right p (Nat.le_add_right ..)) hlt, Nat.mul_mod_left,
    add_zero, Nat.mul_div_cancel _ hp, Nat.mul_div_cancel _ hp, Nat.add_sub_cancel_left,
    getD_eq_getElem _ _ (by omega)]

/-! ## Decoding one token -/

lemma numNewPages_succ (hp : 0 < p) (h : r.seqLen = r.prefixLen + 1) :
    r.numNewPages p = if r.prefixLen < pagesUp p r.prefixLen * p then 0 else 1 := by
  have hup := le_pagesUp_mul hp r.prefixLen
  rw [numNewPages, h]
  split
  · have : pagesUp p (r.prefixLen + 1) ≤ pagesUp p (pagesUp p r.prefixLen * p) :=
      pagesUp_mono (by omega)
    rw [pagesUp_mul hp] at this
    omega
  have heq : r.prefixLen = pagesUp p r.prefixLen * p := by omega
  conv_lhs => rw [heq]
  rw [pagesUp_mul_add_lt (by omega) (by omega), pagesUp_mul hp]
  omega

lemma numNewPages_mod (hp : 0 < p) (h : r.seqLen = r.prefixLen + 1) :
    r.numNewPages p = if r.prefixLen % p = 0 then 1 else 0 := by
  have hup := le_pagesUp_mul hp r.prefixLen
  rw [numNewPages_succ hp h]
  by_cases hmod : r.prefixLen % p = 0
  · have hdvd := Nat.dvd_of_mod_eq_zero hmod
    rw [if_pos hmod, pagesUp_of_dvd hp hdvd, Nat.div_mul_cancel hdvd, if_neg (by omega)]
  · rw [if_neg hmod, if_pos]
    refine lt_of_le_of_ne hup fun heq => hmod ?_
    rw [heq, Nat.mul_mod_left]

lemma numNewPages_decode (hp : 1 < p) (h : r.seqLen = r.prefixLen + 1) :
    r.numNewPages p = if r.seqLen % p = 1 then 1 else 0 := by
  have hlt : r.prefixLen % p < p := Nat.mod_lt _ (by omega)
  rw [numNewPages_mod (by omega) h, h, Nat.add_mod, Nat.mod_eq_of_lt hp]
  rcases Nat.lt_or_eq_of_le hlt with hlt | heq
  · rw [Nat.mod_eq_of_lt hlt]
    simp
  · rw [show r.prefixLen % p + 1 = p from heq, Nat.mod_self, if_neg (by omega), if_neg (by omega)]

lemma extendOne_succ (hp : 0 < p) (h : r.seqLen = r.prefixLen + 1) :
    extendOne p r pages = [decodeOne p r pages] := by
  have hlen := length_extendOne pages hp (r := r) (by omega)
  rw [extendLen, h, Nat.add_sub_cancel_left] at hlen
  obtain ⟨x, hx⟩ := length_eq_one_iff.mp hlen
  have hget := getD_extendOne pages hp (r := r) (j := 0) (by rw [extendLen]; omega)
  rw [hx] at hget ⊢
  have hup := le_pagesUp_mul hp r.prefixLen
  rw [decodeOne, numNewPages_succ hp h]
  rw [getD_cons_zero] at hget
  rw [hget, add_zero]
  split
  · simp
  have heq : r.prefixLen = pagesUp p r.prefixLen * p := by omega
  rw [if_neg Nat.one_ne_zero]
  conv_lhs => rw [heq]
  rw [pagesUp_mul hp, Nat.mul_div_cancel _ hp, Nat.sub_self, Nat.mul_mod_left, add_zero]

lemma extendAll_succ (hp : 0 < p) {rs : List ExtendReq}
    (h : ∀ r ∈ rs, r.seqLen = r.prefixLen + 1) (pages : List Nat) :
    extendAll p rs pages = (decodeAll p rs pages).map fun x => [x] := by
  induction rs generalizing pages with
  | nil => rfl
  | cons r rs ih =>
    rw [forall_mem_cons] at h
    rw [extendAll, decodeAll, map_cons, extendOne_succ hp h.1, ih h.2]

/-! ## Single slots -/

lemma numNewPages_one : r.numNewPages 1 = r.extendLen := by
  simp [numNewPages, extendLen, pagesUp]

lemma extendOne_one (h : r.prefixLen ≤ r.seqLen) (hl : r.extendLen ≤ pages.length) :
    extendOne 1 r pages = pages.take r.extendLen := by
  have hlen := length_extendOne pages one_pos h
  refine ext_getElem (by rw [hlen, length_take, min_eq_left hl]) fun j hj hj' => ?_
  have hget := getD_extendOne pages one_pos (hlen ▸ hj)
  rw [getD_eq_getElem _ _ hj] at hget
  have hup : pagesUp 1 r.prefixLen = r.prefixLen := by simp [pagesUp]
  grind

/-! ## How many pages a batch needs -/

lemma numNewPages_le (hp : 0 < p) (r : ExtendReq) : r.numNewPages p ≤ pagesUp p r.extendLen := by
  have hprefix := le_pagesUp_mul hp r.prefixLen
  have hextend := le_pagesUp_mul hp r.extendLen
  have : pagesUp p r.seqLen ≤ pagesUp p r.prefixLen + pagesUp p r.extendLen := by
    refine pagesUp_le hp ?_
    rw [extendLen] at hextend ⊢
    rw [add_mul]
    omega
  rw [numNewPages]
  omega

lemma sum_numNewPages_le (hp : 0 < p) (rs : List ExtendReq) :
    (rs.map (numNewPages p)).sum ≤ (rs.map extendLen).sum / p + rs.length := by
  induction rs with
  | nil => simp
  | cons r rs ih => ?_
  have hone : r.numNewPages p ≤ r.extendLen / p + 1 := by
    refine (numNewPages_le hp r).trans (pagesUp_le hp ?_)
    rw [add_mul, one_mul]
    exact le_of_lt (Nat.lt_div_mul_add hp)
  have hdiv : r.extendLen / p + (rs.map extendLen).sum / p ≤
      (r.extendLen + (rs.map extendLen).sum) / p := Nat.div_add_div_le_add_div
  grind

/-! ## A batch -/

/-- The slots `v` of a request, as the allocator is told of them. -/
structure Continues (p : Nat) (v : List Nat) (r : ExtendReq) : Prop where
  paged : Paged p v
  length : v.length = r.prefixLen
  le : r.prefixLen ≤ r.seqLen
  lastLoc : r.prefixLen ≠ 0 → r.lastLoc = v.getD (r.prefixLen - 1) 0

/-- The slots `out` continue `v`, on the new pages `chunk`. -/
structure Grown (p : Nat) (v : List Nat) (r : ExtendReq) (out chunk : List Nat) : Prop where
  paged : Paged p (v ++ out)
  pages : pageIds p (v ++ out) = pageIds p v ++ chunk
  length : out.length = r.extendLen

lemma Continues.grown (h : Continues p v r) (hp : 0 < p) (pages : List Nat)
    (hpages : r.numNewPages p ≤ pages.length) :
    Grown p v r (extendOne p r pages) (pages.take (r.numNewPages p)) :=
  have hspec := extendOne_spec hp h.paged h.length h.le h.lastLoc hpages
  ⟨hspec.1, hspec.2, length_extendOne _ hp h.le⟩

lemma Grown.drop {out chunk : List Nat} {m : Nat} (h : Grown p v r out chunk) (hp : 0 < p)
    (hd : p ∣ m) (hm : m ≤ v.length) :
    pageIds p ((v ++ out).drop m) = pageIds p (v.drop m) ++ chunk := by
  obtain ⟨k, rfl⟩ := hd
  rw [mul_comm] at hm ⊢
  have hk : k ≤ (pageIds p v).length := by
    rw [length_pageIds, ← pagesUp_mul hp k]
    exact pagesUp_mono hm
  rw [pageIds_drop hp (by rw [length_append]; omega), h.pages, pageIds_drop hp hm,
    drop_append_of_le_length hk]

lemma extendAll_grown {ρ β : Type} {row : ρ → List Nat} {req : ρ → ExtendReq}
    {new : ρ → List Nat → β} (old : ρ → β) (own : β → List Nat) (R : β → β → Prop) (hp : 0 < p)
    {rs : List ρ} (hcont : ∀ x ∈ rs, Continues p (row x) (req x))
    (hnew : ∀ x ∈ rs, ∀ out chunk, Grown p (row x) (req x) out chunk →
      R (old x) (new x out) ∧ (own (new x out)).Perm (chunk ++ own (old x)))
    (hlen : pages.length = ((rs.map req).map (numNewPages p)).sum) :
    List.Forall₂ R (rs.map old) ((rs.zip (extendAll p (rs.map req) pages)).map fun xo => new xo.1 xo.2) ∧
      (((rs.zip (extendAll p (rs.map req) pages)).map fun xo => new xo.1 xo.2).flatMap own).Perm
        (pages ++ (rs.map old).flatMap own) := by
  induction rs generalizing pages with
  | nil =>
    obtain rfl : pages = [] := length_eq_zero_iff.mp hlen
    exact ⟨.nil, .refl _⟩
  | cons x rs ih => ?_
  rw [forall_mem_cons] at hcont hnew
  simp only [map_cons, sum_cons] at hlen
  obtain ⟨hR, hown⟩ := hnew.1 _ _ (hcont.1.grown hp pages (by omega))
  have hrest : (pages.drop ((req x).numNewPages p)).length = ((rs.map req).map (numNewPages p)).sum := by
    rw [length_drop]
    omega
  obtain ⟨hRs, howns⟩ := ih hcont.2 hnew.2 hrest
  simp only [map_cons, extendAll, zip_cons_cons, flatMap_cons]
  refine ⟨.cons hR hRs, (hown.append howns).trans (perm_iff_count.mpr fun y => ?_)⟩
  have hcut := congrArg (count y) (take_append_drop ((req x).numNewPages p) pages)
  simp only [count_append] at hcut ⊢
  omega
end Sglang
