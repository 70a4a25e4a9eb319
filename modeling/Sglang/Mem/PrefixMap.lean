import Sglang.Mem.RadixInv

/-!
# The radix cache as a prefix map

Seen from outside, the radix cache is a map from prompts to slots.
-/

namespace Sglang
open List PathTree RadixKey

/-- The slots of the last page, for each namespace and sequence of units. -/
abbrev PrefixMap := Option String → List KeyUnit → Option (List Nat)

namespace PrefixMap
def empty : PrefixMap := fun _ _ => none

variable (A : PrefixMap) (p : Nat) (e : Option String) (us : List KeyUnit) (m : Nat)

def insert (v : List Nat) : PrefixMap := fun e' us' =>
  match A e' us' with
  | some s => some s
  | none =>
    if e' = e ∧ us' ≠ [] ∧ p ∣ us'.length ∧ us' <+: us then some ((v.drop (us'.length - p)).take p)
    else none

structure Longest : Prop where
  dvd : p ∣ m
  le : m ≤ us.length
  mem : m ≠ 0 → (A e (us.take m)).isSome
  longest : ∀ m', p ∣ m' → m < m' → m' ≤ us.length → A e (us.take m') = none

/-- The entries of the first `m` units of `us`, page by page. -/
def read : List Nat :=
  (List.range (m / p)).flatMap fun i => (A e (us.take ((i + 1) * p))).getD []
end PrefixMap

namespace RadixCache
def prefixMap (c : RadixCache) : PrefixMap := fun e us =>
  if us ≠ [] ∧ c.pageSize ∣ us.length then c.entry (us.map (Prod.mk e)) else none

variable {c c' : RadixCache} {key : RadixKey} {q : NodePath}
variable {e : Option String} {us : List KeyUnit} {m : Nat} {value : Option (List Nat)}

lemma prefixMap_of_dvd (hne : us ≠ [])
    (hd : c.pageSize ∣ us.length) : c.prefixMap e us = c.entry (us.map (Prod.mk e)) :=
  if_pos ⟨hne, hd⟩

lemma prefixMap_congr (hp : c'.pageSize = c.pageSize)
    (h : ∀ q, c.pageSize ∣ q.length → c'.entry q = c.entry q) : c'.prefixMap = c.prefixMap := by
  funext e us
  unfold prefixMap
  grind

/-! ## Keys -/

def unitsOf (c : RadixCache) (key : RadixKey) : List KeyUnit := (key.toBigramView c.isEagle).units

lemma extraKey_toBigramView (b : Bool) : (key.toBigramView b).extraKey = key.extraKey := by
  unfold toBigramView
  split <;> rfl

lemma tokenIds_toBigramView (b : Bool) : (key.toBigramView b).tokenIds = key.tokenIds := by
  unfold toBigramView
  split <;> rfl

lemma cells_view : (c.view key).cells =
    ((c.unitsOf key).take ((c.unitsOf key).length / c.pageSize * c.pageSize)).map
      (Prod.mk key.extraKey) := by
  rw [view, cells_pageAligned, cells, extraKey_toBigramView, unitsOf, length_units, map_take]

lemma len_view : (c.view key).len = (c.unitsOf key).length / c.pageSize * c.pageSize := by
  rw [view, len_pageAligned, unitsOf, length_units]

lemma len_view_le : (c.view key).len ≤ (c.unitsOf key).length := by
  rw [len_view]
  exact Nat.div_mul_le_self _ _

lemma le_len_view (hd : c.pageSize ∣ m) (hle : m ≤ (c.unitsOf key).length) : m ≤ (c.view key).len := by
  rw [len_view, ← Nat.div_mul_cancel hd]
  exact Nat.mul_le_mul_right _ (Nat.div_le_div_right hle)

lemma take_cells_view (hd : c.pageSize ∣ m) (hle : m ≤ (c.unitsOf key).length) :
    (c.view key).cells.take m = ((c.unitsOf key).take m).map (Prod.mk key.extraKey) := by
  rw [cells_view, ← len_view, ← map_take, take_take, min_eq_left (le_len_view hd hle)]

lemma map_prefix_view (hne : us ≠ []) (hd : c.pageSize ∣ us.length) :
    us.map (Prod.mk e) <+: (c.view key).cells ↔ e = key.extraKey ∧ us <+: c.unitsOf key := by
  have hinj := fun e : Option String =>
    map_injective_iff.mpr (Prod.mk_right_injective (β := KeyUnit) e)
  constructor
  swap
  · rintro ⟨rfl, hpre⟩
    rw [prefix_iff_eq_take, length_map, take_cells_view hd hpre.length_le, ← prefix_iff_eq_take.mp hpre]
  intro hpre
  have hle := hpre.length_le
  rw [length_map, length_cells] at hle
  have htake := prefix_iff_eq_take.mp hpre
  rw [length_map, take_cells_view hd (hle.trans len_view_le)] at htake
  have he : e = key.extraKey := by
    obtain ⟨u, us, rfl⟩ := exists_cons_of_ne_nil hne
    cases hx : (c.unitsOf key).take (u :: us).length with
    | nil =>
      rw [hx] at htake
      cases htake
    | cons v vs =>
      grind
  subst he
  exact ⟨rfl, prefix_iff_eq_take.mpr (hinj _ htake)⟩

lemma insertValue_eq : c.insertValue key value = (value.getD key.tokenIds).take (c.view key).len := by
  cases value with
  | some v => exact insertValue_some v
  | none =>
    rw [insertValue, Option.getD_none]
    unfold view pageAligned
    split
    · rw [tokenIds_toBigramView]
    · rw [take_tokenIds_takeUnits, tokenIds_toBigramView]

/-! ## The calls -/

lemma prefixMap_take (hm : m ≠ 0) (hd : c.pageSize ∣ m) (hle : m ≤ (c.unitsOf key).length) :
    c.prefixMap key.extraKey ((c.unitsOf key).take m) = c.entry ((c.view key).cells.take m) := by
  have hlen : ((c.unitsOf key).take m).length = m := by rw [length_take, min_eq_left hle]
  rw [prefixMap_of_dvd (by rw [← length_pos_iff, hlen]; omega) (by rwa [hlen]), take_cells_view hd hle]

lemma Found.longest_prefixMap (hf : Found c (c.view key).cells q) :
    c.prefixMap.Longest c.pageSize key.extraKey (c.unitsOf key) q.length where
  dvd := hf.longest.dvd
  le := hf.longest.le.trans (by rw [length_cells]; exact len_view_le)
  mem hne := by
    have hle := hf.longest.le
    rw [length_cells] at hle
    rw [prefixMap_take hne hf.longest.dvd (hle.trans len_view_le)]
    exact pageAt_isSome.mpr (hf.longest.cached hne)
  longest m hd hlt hle := by
    rw [prefixMap_take (by omega) hd hle]
    exact pageAt_eq_none.mpr (hf.longest.longest m hd hlt
      (by rw [length_cells]; exact le_len_view hd hle))

lemma prefixMap_reset : c.reset.prefixMap = PrefixMap.empty := by
  funext e us
  unfold prefixMap
  split <;> rfl

lemma prefixMap_insert_of_ne {A : PrefixMap} {p : Nat} {e' : Option String} {v : List Nat}
    (hne : e' ≠ e) : A.insert p e us v e' = A e' := by
  funext us'
  unfold PrefixMap.insert
  grind

variable (h : WellFormed c)
include h

lemma Found.slots_eq_read (hf : Found c (c.view key).cells q) :
    c.slots q = c.prefixMap.read c.pageSize key.extraKey (c.unitsOf key) q.length := by
  refine flatMap_congr fun i hi => ?_
  have hle : (i + 1) * c.pageSize ≤ q.length := Nat.mul_le_of_le_div _ _ _ (mem_range.mp hi)
  have hq := hf.longest.le
  rw [length_cells] at hq
  rw [prefixMap_take (mul_ne_zero (Nat.succ_ne_zero i) (Nat.pos_iff_ne_zero.mp h.pos))
    (dvd_mul_left ..) (hle.trans (hq.trans len_view_le)),
    prefix_iff_eq_take.mp hf.isPrefix, take_take, min_eq_left hle]
  rfl

lemma Found.cached_of_le {q' : NodePath} (hf : Found c (c.view key).cells q)
    (hne : q' ≠ []) (hpre : q' <+: (c.view key).cells) (hle : q'.length ≤ q.length) :
    Cached c.nodes q' := by
  have hqq : q' <+: q := prefix_of_prefix_length_le hpre hf.isPrefix hle
  have hq0 : q.length ≠ 0 := by
    have := length_pos_iff.mpr hne
    omega
  have hc := hf.longest.cached hq0
  rw [← prefix_iff_eq_take.mp hf.isPrefix] at hc
  exact hc.of_prefix h.valid hqq hne

lemma Inserted.prefixMap_eq {V : List Nat} (hf : Found c (c.view key).cells q)
    (hins : Inserted c (c.view key).cells (V.take (c.view key).len) q c') :
    c'.prefixMap = c.prefixMap.insert c.pageSize key.extraKey (c.unitsOf key) V := by
  funext e us
  unfold PrefixMap.insert
  by_cases hus : us ≠ [] ∧ c.pageSize ∣ us.length
  swap
  · have hnone : c.prefixMap e us = none := if_neg hus
    have hnone' : c'.prefixMap e us = none := if_neg (hins.sameConfig.pageSize ▸ hus)
    grind
  obtain ⟨hne, hd⟩ := hus
  have hd' : c'.pageSize ∣ us.length := hins.sameConfig.pageSize ▸ hd
  have hdq : c.pageSize ∣ (us.map (Prod.mk e)).length := by rwa [length_map]
  have hneq : us.map (Prod.mk e) ≠ [] := by simpa using hne
  rw [prefixMap_of_dvd hne hd, prefixMap_of_dvd hne hd']
  have hcond : (e = key.extraKey ∧ us ≠ [] ∧ c.pageSize ∣ us.length ∧ us <+: c.unitsOf key) ↔
      us.map (Prod.mk e) <+: (c.view key).cells := by
    rw [map_prefix_view hne hd]
    tauto
  simp only [hcond]
  generalize hq' : us.map (Prod.mk e) = q' at hdq hneq ⊢
  have hlen : us.length = q'.length := by rw [← hq', length_map]
  -- what is stored of the key stays, and nothing outside the key changes
  have hold : (q' <+: (c.view key).cells → q'.length ≤ q.length) → c.entry q' =
      match c.entry q' with
      | some s => some s
      | none =>
        if q' <+: (c.view key).cells then some ((V.drop (us.length - c.pageSize)).take c.pageSize)
        else none := by
    intro hshort
    cases hent : c.entry q' with
    | some s => rfl
    | none =>
      rw [if_neg fun hpre => ?_]
      exact pageAt_eq_none.mp hent (hf.cached_of_le h hneq hpre (hshort hpre))
  rcases hins with ⟨hs, _, hK⟩ | ⟨hs, hleaf, hparent, hpath, hvalue⟩
  · rw [hs.entry_eq h hdq]
    exact hold fun hpre => hK ▸ hpre.length_le
  rw [NewLeaf.entry_addLeaf, hs.entry_eq h hdq]
  rename_i c₁ leaf
  have hcov : Covers leaf q' ↔ q.length < q'.length ∧ q' <+: (c.view key).cells := by
    rw [Covers, parent_node, hparent, hpath]
  by_cases hc : Covers leaf q'
  · obtain ⟨hlt, hpre⟩ := hcov.mp hc
    have hle := hpre.length_le
    have hnone : c.entry q' = none := by
      rw [entry, pageAt_eq_none, prefix_iff_eq_take.mp hpre]
      exact hf.longest.longest _ hdq hlt hle
    rw [length_cells] at hle
    have hstep := add_le_of_dvd_of_lt hf.longest.dvd hdq hlt
    rw [if_pos hc, hnone]
    rw [if_pos hpre, pageOf, hvalue, parent_node, hparent, drop_drop, hlen,
      hs.pageSize_eq, drop_take, take_take]
    congr 2
    · omega
    · congr 1
      omega
  grind

lemma prefixMap_insert (hen : c.disable = false) (hv : c.EnoughSlots key value) :
    ∃ r c', c.insert key value = .ok (r, c') ∧
      c.prefixMap.Longest c.pageSize key.extraKey (c.unitsOf key) r.prefixLen ∧
      c'.prefixMap = c.prefixMap.insert c.pageSize key.extraKey (c.unitsOf key)
        (value.getD key.tokenIds) := by
  obtain ⟨r, c', hrun, -, q, hf, hlen, hins⟩ := insert_spec h hen hv
  rw [insertValue_eq] at hins
  exact ⟨r, c', hrun, hlen ▸ hf.longest_prefixMap, hins.prefixMap_eq h hf⟩

lemma prefixMap_matchPrefix (hen : c.disable = false) (key : RadixKey) :
    ∃ r c' m, c.matchPrefix key = .ok (r, c') ∧
      c.prefixMap.Longest c.pageSize key.extraKey (c.unitsOf key) m ∧
      r.deviceIndices = c.prefixMap.read c.pageSize key.extraKey (c.unitsOf key) m ∧
      c'.prefixMap = c.prefixMap := by
  obtain ⟨r, c', hrun, hs, -, hf, hslots⟩ := matchPrefix_spec h hen key
  exact ⟨r, c', r.lastNode.length, hrun, hf.longest_prefixMap, hslots.trans (hf.slots_eq_read h),
    prefixMap_congr hs.pageSize_eq fun _ hd => hs.entry_eq h hd⟩

lemma prefixMap_evict (hcnt : Counted c) (hen : c.disable = false) (pick : Nat → Nat) (want : Nat) :
    ∃ ns c', c.evict pick want = .ok (ns, c') ∧
      ∀ e us, c'.prefixMap e us = c.prefixMap e us ∨ c'.prefixMap e us = none := by
  obtain ⟨ns, c', hrun, he, -⟩ := evict_spec h hcnt hen pick want
  refine ⟨ns, c', hrun, fun e us => ?_⟩
  unfold prefixMap
  rw [he.sameConfig.pageSize]
  split
  · rename_i hus
    exact he.entry_eq_or h (by simpa using hus.2)
  · exact .inl rfl
end RadixCache

namespace RadixRun
open RadixCache
variable {s : RadixRun} {c : RadixCache}

/-- In every reachable state each call is the operation of the map that the cache stands for:
`insert` returns the longest stored prefix and adds the missing pages in its namespace,
`match_prefix` reads it, `evict` only removes. -/
theorem refines_prefix_map {past : List RadixOp} (hp : 0 < c.pageSize) (hen : c.disable = false)
    (hr : Run next ok { cache := c.reset } past s) :
    c.reset.prefixMap = PrefixMap.empty ∧
    (∀ key value, s.cache.EnoughSlots key value → ∃ r c', s.cache.insert key value = .ok (r, c') ∧
      s.cache.prefixMap.Longest c.pageSize key.extraKey (s.cache.unitsOf key) r.prefixLen ∧
      c'.prefixMap = s.cache.prefixMap.insert c.pageSize key.extraKey (s.cache.unitsOf key)
        (value.getD key.tokenIds) ∧
      ∀ e ≠ key.extraKey, c'.prefixMap e = s.cache.prefixMap e) ∧
    (∀ key, ∃ r c' m, s.cache.matchPrefix key = .ok (r, c') ∧
      s.cache.prefixMap.Longest c.pageSize key.extraKey (s.cache.unitsOf key) m ∧
      r.deviceIndices = s.cache.prefixMap.read c.pageSize key.extraKey (s.cache.unitsOf key) m ∧
      c'.prefixMap = s.cache.prefixMap) ∧
    ∀ pick numTokens, ∃ ns c', s.cache.evict pick numTokens = .ok (ns, c') ∧
      ∀ e us, c'.prefixMap e us = s.cache.prefixMap e us ∨ c'.prefixMap e us = none := by
  obtain ⟨hcfg, hi, -, -⟩ := good_of_run hp hr
  have hdis : s.cache.disable = false := hcfg.disable.trans hen
  have hpage : s.cache.pageSize = c.pageSize := hcfg.pageSize
  refine ⟨prefixMap_reset, fun key value hv => ?_, fun key => ?_, fun pick numTokens => ?_⟩
  · obtain ⟨r, c', hrun, hlong, hmap⟩ := prefixMap_insert hi.wellFormed hdis hv
    rw [hpage] at hlong hmap
    refine ⟨r, c', hrun, hlong, hmap, fun e he => ?_⟩
    rw [hmap, prefixMap_insert_of_ne he]
  · rw [← hpage]
    exact prefixMap_matchPrefix hi.wellFormed hdis key
  · exact prefixMap_evict hi.wellFormed hi.counted hdis pick numTokens

theorem bigram_page_reads_back : ∃ s : RadixRun, s.cache.prefixMap (some "lora")
      [.bigram 1 2, .bigram 2 3] = some [10, 11] ∧
    ∃ r c' m, s.cache.matchPrefix { tokenIds := [1, 2, 3, 5], extraKey := some "lora" } = .ok (r, c') ∧
      r.deviceIndices = s.cache.prefixMap.read 2 (some "lora")
        [.bigram 1 2, .bigram 2 3, .bigram 3 5] m ∧
      c'.prefixMap = s.cache.prefixMap := by
  have hr : Run next ok { cache := RadixCache.reset { pageSize := 2, isEagle := true } } _ _ :=
    .step (.insert { tokenIds := [1, 2, 3, 4], extraKey := some "lora" } (some [10, 11, 12, 13]))
      .start (by decide +kernel)
  obtain ⟨-, -, hmatch, -⟩ := refines_prefix_map (by decide) rfl hr
  obtain ⟨r, c', m, hrun, -, hread, hmap⟩ :=
    hmatch { tokenIds := [1, 2, 3, 5], extraKey := some "lora" }
  exact ⟨_, by decide +kernel, r, c', m, hrun, hread, hmap⟩
end RadixRun

/-! ## Unit by unit -/

/-- A map that holds one slot for each sequence of units, also within a page. -/
abbrev UnitMap := Option String → List KeyUnit → Option Nat

namespace UnitMap
def insert (A : UnitMap) (p : Nat) (e : Option String) (us : List KeyUnit) (v : List Nat) :
    UnitMap := fun e' us' =>
  match A e' us' with
  | some s => some s
  | none =>
    if e' = e ∧ us' ≠ [] ∧ us' <+: us.take (us.length / p * p) then v[us'.length - 1]? else none

/-- The entries of the first `m` units of `us`, one by one. -/
def read (A : UnitMap) (e : Option String) (us : List KeyUnit) (m : Nat) : List (Option Nat) :=
  (List.range m).map fun i => A e (us.take (i + 1))
end UnitMap

theorem pages_shadow_units :
    (do
      let c : RadixCache := { pageSize := 2 }
      let (_, c) ← c.insert { tokenIds := [1, 2], extraKey := none } (some [10, 11])
      let (_, c) ← c.insert { tokenIds := [1, 3], extraKey := none } (some [20, 21])
      let (r, _) ← c.matchPrefix { tokenIds := [1, 3], extraKey := none }
      pure r.deviceIndices) = Except.ok [20, 21] ∧
    UnitMap.read (UnitMap.insert (UnitMap.insert (fun _ _ => none) 2 none
      [.token 1, .token 2] [10, 11]) 2 none [.token 1, .token 3] [20, 21]) none
      [.token 1, .token 3] 2 = [some 10, some 21] := by
  decide +kernel
end Sglang
