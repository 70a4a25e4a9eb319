import Sglang.Lib.CommonPrefix

/-!
# Radix keys

`RadixKey` of the radix cache: raw token ids read as a sequence of logical units, either the tokens
themselves or, under EAGLE, the pairs of neighbouring tokens.
-/

namespace Sglang
open List

inductive RadixError
  /-- `RadixKey operations require matching extra_key` -/
  | extraKeyMismatch (self other : Option String)
  /-- `parent does not have child key` -/
  | noChildKey
  /-- `len(new_indices) == len(radix_key)` in `cache_unfinished_req` -/
  | indicesLength (newIndices radixKey : Nat)
  deriving DecidableEq

/-- One position of a key: a token, or a token and its successor. -/
inductive KeyUnit
  | token (t : Nat)
  | bigram (t u : Nat)
  deriving DecidableEq

abbrev Cell := Option String × KeyUnit

/-- The dictionary key of a child: the units of its first page, namespaced by `extra_key`. -/
structure ChildKey where
  extraKey : Option String
  plain : List KeyUnit
  deriving DecidableEq

structure RadixKey where
  tokenIds : List Nat
  extraKey : Option String
  isBigram : Bool := false
  limit : Option Nat := none
  deriving DecidableEq

def pySlice {α : Type} (xs : List α) (start stop : Nat) : List α := (xs.take stop).drop start

def unitsOf (isBigram : Bool) (raw : List Nat) : List KeyUnit :=
  if isBigram then (pairs raw).map fun tu => .bigram tu.1 tu.2 else raw.map .token

namespace RadixKey
variable (k : RadixKey) (start stop pageSize : Nat)

def rawLen : Nat :=
  match k.limit with
  | some l => if l < k.tokenIds.length then l else k.tokenIds.length
  | none => k.tokenIds.length

def len : Nat := if k.isBigram then k.rawLen - 1 else k.rawLen

def units : List KeyUnit := unitsOf k.isBigram (k.tokenIds.take k.rawLen)

/-- `__getitem__` of a slice: the bigrams `[start, stop)` span the raw tokens `[start, stop + 1)`. -/
def slice : RadixKey :=
  let start := min start k.len
  let stop := min stop k.len
  if k.isBigram then
    { tokenIds := if start < stop then pySlice k.tokenIds start (stop + 1) else []
      extraKey := k.extraKey
      isBigram := true }
  else
    { tokenIds := pySlice k.tokenIds start stop, extraKey := k.extraKey }

def dropUnits : RadixKey := k.slice start k.len

def takeUnits : RadixKey := k.slice 0 stop

def pageAligned : RadixKey :=
  if pageSize = 1 then k else k.takeUnits (k.len / pageSize * pageSize)

def toBigramView (isEagle : Bool) : RadixKey :=
  if isEagle && !k.isBigram then { k with isBigram := true } else k

/-- `maybe_to_bigram_view` on values: slots pair with raw tokens. -/
def bigramValue {α : Type} (k : RadixKey) (isEagle : Bool) (value : List α) : List α :=
  if isEagle && !k.isBigram then value.take (k.toBigramView isEagle).len else value

/-- Binary search in the window `[lo, hi)`. -/
def bisect (t₀ t₁ : List Nat) : Nat → Nat → Nat → Nat
  | 0, lo, _ => lo
  | fuel + 1, lo, hi =>
    if hi - lo > 1 then
      let mid := (lo + hi) / 2
      if pySlice t₀ lo mid = pySlice t₁ lo mid then bisect t₀ t₁ fuel mid hi
      else bisect t₀ t₁ fuel lo mid
    else lo

/-- Windows of doubling width. -/
def gallop (t₀ t₁ : List Nat) (n : Nat) : Nat → Nat → Nat → Nat
  | 0, _, _ => n
  | fuel + 1, lo, step =>
    if lo < n then
      let hi := if lo + step < n then lo + step else n
      if pySlice t₀ lo hi ≠ pySlice t₁ lo hi then bisect t₀ t₁ (hi - lo) lo hi
      else gallop t₀ t₁ n fuel hi (step * 2)
    else n

/-- `match`, in whole pages. -/
def matchLen (other : RadixKey) (pageSize : Nat) : Except RadixError Nat :=
  if k.extraKey ≠ other.extraKey then .error (.extraKeyMismatch k.extraKey other.extraKey)
  else
    let n := min k.tokenIds.length other.tokenIds.length
    let matchedTokens := gallop k.tokenIds other.tokenIds n n 0 1
    if k.isBigram then
      let matched := min (matchedTokens - 1) (min k.len other.len)
      .ok (if pageSize > 1 then matched / pageSize * pageSize else matched)
    else
      let matchedTokens := min matchedTokens (min k.len other.len)
      .ok (if pageSize = 1 then matchedTokens else matchedTokens / pageSize * pageSize)

/-- `child_key`, which ignores the limit; shorter keys than a page do not occur. -/
def childKey : ChildKey :=
  { extraKey := k.extraKey, plain := (unitsOf k.isBigram k.tokenIds).take pageSize }

def cells : List Cell := k.units.map (Prod.mk k.extraKey)
end RadixKey

/-! ## Units -/

section
variable (b : Bool) (raw : List Nat) (n i : Nat)

@[simp]
lemma length_unitsOf : (unitsOf b raw).length = if b then raw.length - 1 else raw.length := by
  cases b <;> simp [unitsOf]

lemma unitsOf_true_take : unitsOf true (raw.take (i + 1)) = (unitsOf true raw).take i := by
  simp [unitsOf, pairs_take, map_take]

lemma unitsOf_false_take : unitsOf false (raw.take i) = (unitsOf false raw).take i := by
  simp [unitsOf, map_take]

def unitCount (isBigram : Bool) (n : Nat) : Nat := if isBigram then n - 1 else n

lemma unitCount_le : unitCount b n ≤ n := by
  unfold unitCount
  split <;> omega

lemma unitCount_mono {m n : Nat} (h : m ≤ n) : unitCount b m ≤ unitCount b n := by
  unfold unitCount
  split <;> omega

lemma le_unitCount {m n : Nat} (h : m < n) : m ≤ unitCount b n := by
  unfold unitCount
  split <;> omega

lemma unitsOf_take : unitsOf b (raw.take n) = (unitsOf b raw).take (unitCount b n) := by
  rcases b with _ | _
  · exact unitsOf_false_take raw n
  cases n with
  | zero => simp [unitsOf, pairs, unitCount]
  | succ n => exact unitsOf_true_take raw n

lemma unitsOf_drop : unitsOf b (raw.drop i) = (unitsOf b raw).drop i := by
  cases b <;> simp [unitsOf, pairs_drop, map_drop]

lemma commonLen_unitsOf (t₀ t₁ : List Nat) :
    commonLen (unitsOf b t₀) (unitsOf b t₁) =
      if b then commonLen t₀ t₁ - 1 else commonLen t₀ t₁ := by
  rcases b with _ | _
  · simp [unitsOf, commonLen_map (f := KeyUnit.token) fun _ _ h => by cases h; rfl]
  have hinj : Function.Injective fun tu : Nat × Nat => KeyUnit.bigram tu.1 tu.2 := by
    rintro ⟨a, b⟩ ⟨a', b'⟩ h
    cases h
    rfl
  simp [unitsOf, commonLen_map hinj, commonLen_pairs]
end

lemma unitsOf_mode {b b' : Bool} {raw raw' : List Nat} {u : KeyUnit} (h : u ∈ unitsOf b raw)
    (h' : u ∈ unitsOf b' raw') : b = b' := by
  cases b <;> cases b' <;> simp only [unitsOf] at h h' ⊢ <;> grind

namespace RadixKey
variable {k other : RadixKey} {p : Nat}

lemma rawLen_le : k.rawLen ≤ k.tokenIds.length := by
  unfold rawLen
  split
  · split <;> omega
  · exact le_rfl

@[simp]
lemma length_units : k.units.length = k.len := by
  have := k.rawLen_le
  simp [units, len, min_eq_left this]

@[simp]
lemma length_cells : k.cells.length = k.len := by simp [cells]

lemma units_eq_take : k.units = (unitsOf k.isBigram k.tokenIds).take k.len := by
  rw [units, len]
  rcases hb : k.isBigram with _ | _
  · exact unitsOf_false_take _ _
  rcases eq_zero_or_pos k.rawLen with h0 | hpos
  · simp [h0, unitsOf, pairs]
  · obtain ⟨n, hn⟩ : ∃ n, k.rawLen = n + 1 := ⟨k.rawLen - 1, by omega⟩
    rw [hn, unitsOf_true_take]
    simp

lemma units_of_limit_none (h : k.limit = none) : k.units = unitsOf k.isBigram k.tokenIds := by
  rw [units, rawLen, h, take_length]

section
variable (start stop p n : Nat)

lemma units_slice : (k.slice start stop).units = pySlice k.units start stop := by
  have hclamp : pySlice k.units start stop =
      pySlice (unitsOf k.isBigram k.tokenIds) (min start k.len) (min stop k.len) := by
    rw [units_eq_take, pySlice, pySlice, take_take]
    rcases le_total start k.len with hle | hle
    · rw [min_eq_left hle]
    rw [drop_eq_nil_of_le, drop_eq_nil_of_le]
    all_goals
      rw [length_take]
      omega
  rw [hclamp]
  rcases hb : k.isBigram with _ | _
  · rw [slice, hb, if_neg Bool.false_ne_true, units_of_limit_none rfl, pySlice, pySlice,
      unitsOf_drop, unitsOf_false_take]
  rw [slice, hb, if_pos rfl, units_of_limit_none rfl]
  by_cases hlt : min start k.len < min stop k.len
  · rw [if_pos hlt, pySlice, pySlice, unitsOf_drop, unitsOf_true_take]
  rw [if_neg hlt, pySlice, drop_eq_nil_of_le]
  · rfl
  · rw [length_take]
    omega

@[simp]
lemma extraKey_slice : (k.slice start stop).extraKey = k.extraKey := by
  unfold slice
  split <;> rfl

lemma cells_slice : (k.slice start stop).cells = pySlice k.cells start stop := by
  rw [cells, cells, units_slice, extraKey_slice, pySlice, pySlice, map_drop, map_take]

@[simp]
lemma cells_takeUnits : (k.takeUnits n).cells = k.cells.take n := by
  rw [takeUnits, cells_slice, pySlice, drop_zero]

@[simp]
lemma cells_dropUnits : (k.dropUnits n).cells = k.cells.drop n := by
  rw [dropUnits, cells_slice, pySlice, ← length_cells, take_length]

lemma cells_pageAligned : (k.pageAligned p).cells = k.cells.take (k.len / p * p) := by
  unfold pageAligned
  split
  · rename_i h
    rw [h, Nat.div_one, Nat.mul_one, ← length_cells, take_length]
  · rw [cells_takeUnits]

lemma len_pageAligned : (k.pageAligned p).len = k.len / p * p := by
  rw [← length_cells, cells_pageAligned, length_take, length_cells, min_eq_left (Nat.div_mul_le_self ..)]

lemma isBigram_pageAligned : (k.pageAligned p).isBigram = k.isBigram := by
  unfold pageAligned takeUnits slice
  split
  · rfl
  split
  · rename_i hb
    exact hb.symm
  · rename_i hb
    exact (Bool.not_eq_true _ ▸ hb).symm

lemma cells_take_tokens (toks : List Nat) (e : Option String) (b : Bool) (n : Nat) :
    cells { tokenIds := toks.take n, extraKey := e, isBigram := b } =
      (cells { tokenIds := toks, extraKey := e, isBigram := b }).take (unitCount b n) := by
  rw [cells, cells, units_of_limit_none rfl, units_of_limit_none rfl, ← map_take]
  exact congrArg _ (unitsOf_take b toks n)

lemma len_take_tokens {toks : List Nat} (e : Option String) (b : Bool) {n : Nat}
    (hn : n ≤ toks.length) :
    len { tokenIds := toks.take n, extraKey := e, isBigram := b } = unitCount b n := by
  rw [len, unitCount, rawLen, length_take, min_eq_left hn]

lemma cells_limit_prefix (h : other.extraKey = k.extraKey) (hb : other.isBigram = k.isBigram)
    (ht : other.tokenIds = k.tokenIds) (hl : other.limit = none) : k.cells <+: other.cells := by
  rw [cells, cells, units_of_limit_none hl, units_eq_take, h, hb, ht, map_take]
  exact take_prefix _ _

lemma len_takeUnits : (k.takeUnits n).len = min n k.len := by
  rw [← length_cells, cells_takeUnits, length_take, length_cells]

lemma take_tokenIds_takeUnits :
    (k.takeUnits n).tokenIds.take (k.takeUnits n).len = k.tokenIds.take (k.takeUnits n).len := by
  rw [len_takeUnits, takeUnits, slice]
  rcases k.isBigram with _ | _
  · rw [if_neg Bool.false_ne_true]
    simp only [zero_min, pySlice, drop_zero, take_take, min_self]
  rw [if_pos rfl]
  simp only [zero_min]
  split
  · rw [pySlice, drop_zero, take_take, min_eq_left (Nat.le_succ _)]
  · rw [show min n k.len = 0 by omega, take_zero, take_zero]
end

/-! ## The first page -/

lemma childKey_plain (h : p ≤ k.len) : (k.childKey p).plain = k.units.take p := by
  rw [childKey, units_eq_take, take_take, min_eq_left h]

lemma cells_take (n : Nat) : k.cells.take n = (k.units.take n).map (Prod.mk k.extraKey) := by
  rw [cells, map_take]

lemma extraKey_eq_of_cells (hp : 0 < p) (hk : p ≤ k.len)
    (h : k.cells.take p = other.cells.take p) : k.extraKey = other.extraKey := by
  rw [cells_take, cells_take] at h
  have hne : k.units.take p ≠ [] := by
    rw [← length_pos_iff, length_take, length_units]
    omega
  obtain ⟨u, us, hus⟩ := exists_cons_of_ne_nil hne
  rw [hus] at h
  cases hv : other.units.take p with
  | nil => simp [hv] at h
  | cons v vs =>
    grind

lemma childKey_eq_iff (hp : 0 < p) (hk : p ≤ k.len) (ho : p ≤ other.len) :
    k.childKey p = other.childKey p ↔ k.cells.take p = other.cells.take p := by
  constructor
  · intro h
    have he : k.extraKey = other.extraKey := congrArg ChildKey.extraKey h
    have hu := congrArg ChildKey.plain h
    rw [childKey_plain hk, childKey_plain ho] at hu
    rw [cells_take, cells_take, hu, he]
  intro h
  have he := extraKey_eq_of_cells hp hk h
  rw [cells_take, cells_take, he] at h
  have hu := map_injective_iff.mpr (Prod.mk_right_injective other.extraKey) h
  have hplain : (k.childKey p).plain = (other.childKey p).plain := by
    rw [childKey_plain hk, childKey_plain ho, hu]
  cases hck : k.childKey p
  cases hco : other.childKey p
  have h1 : (k.childKey p).extraKey = k.extraKey := rfl
  have h2 : (other.childKey p).extraKey = other.extraKey := rfl
  simp_all

lemma isBigram_eq_of_cells (hp : 0 < p) (hk : p ≤ k.len)
    (h : k.cells.take p = other.cells.take p) : k.isBigram = other.isBigram := by
  have hpos : 0 < (k.cells.take p).length := by
    rw [length_take, length_cells]
    omega
  obtain ⟨⟨e, u⟩, hu⟩ := exists_mem_of_length_pos hpos
  have hk' := mem_of_mem_take hu
  have ho' := mem_of_mem_take (h ▸ hu)
  simp only [cells, units, mem_map, Prod.mk.injEq, exists_eq_right_right] at hk' ho'
  exact unitsOf_mode hk'.1 ho'.1

/-! ## `match` -/

variable {t₀ t₁ : List Nat} {lo : Nat}

lemma pySlice_eq_iff {hi : Nat} (hlo : lo ≤ commonLen t₀ t₁)
    (h0 : hi ≤ t₀.length) (h1 : hi ≤ t₁.length) (hle : lo ≤ hi) :
    pySlice t₀ lo hi = pySlice t₁ lo hi ↔ hi ≤ commonLen t₀ t₁ := by
  have hagree := (le_commonLen_iff.mp hlo).2.2
  have hcut : ∀ t : List Nat, t.take hi = t.take lo ++ pySlice t lo hi := by
    intro t
    have := (take_append_drop lo (t.take hi)).symm
    rwa [take_take, min_eq_left hle] at this
  rw [le_commonLen_iff, hcut t₀, hcut t₁, hagree, append_right_inj]
  exact ⟨fun h => ⟨h0, h1, h⟩, fun h => h.2.2⟩

lemma bisect_eq {fuel hi : Nat} (hfuel : hi - lo ≤ fuel)
    (hlo : lo ≤ commonLen t₀ t₁) (hhi : commonLen t₀ t₁ < hi) (h0 : hi ≤ t₀.length)
    (h1 : hi ≤ t₁.length) : bisect t₀ t₁ fuel lo hi = commonLen t₀ t₁ := by
  induction fuel generalizing lo hi with
  | zero => omega
  | succ fuel ih => ?_
  rw [bisect]
  by_cases hgap : hi - lo > 1
  · rw [if_pos hgap]
    by_cases heq : pySlice t₀ lo ((lo + hi) / 2) = pySlice t₁ lo ((lo + hi) / 2)
    · rw [if_pos heq]
      rw [pySlice_eq_iff hlo (by omega) (by omega) (by omega)] at heq
      exact ih (by omega) heq hhi h0 h1
    · rw [if_neg heq]
      rw [pySlice_eq_iff hlo (by omega) (by omega) (by omega)] at heq
      exact ih (by omega) hlo (by omega) (by omega) (by omega)
  · rw [if_neg hgap]
    omega

lemma gallop_eq {n fuel step : Nat} (hn : n = min t₀.length t₁.length)
    (hfuel : n - lo ≤ fuel) (hlo : lo ≤ commonLen t₀ t₁) (hstep : 0 < step) :
    gallop t₀ t₁ n fuel lo step = commonLen t₀ t₁ := by
  have hle0 : commonLen t₀ t₁ ≤ t₀.length := commonLen_le_left
  have hle1 : commonLen t₀ t₁ ≤ t₁.length := commonLen_le_right
  induction fuel generalizing lo step with
  | zero =>
    rw [gallop]
    omega
  | succ fuel ih => ?_
  rw [gallop]
  by_cases hlt : lo < n
  · rw [if_pos hlt]
    generalize hhi : (if lo + step < n then lo + step else n) = hi
    have hbounds : lo < hi ∧ hi ≤ n := by split at hhi <;> omega
    have hwindow := pySlice_eq_iff hlo (show hi ≤ t₀.length by omega)
      (show hi ≤ t₁.length by omega) (by omega)
    by_cases heq : pySlice t₀ lo hi = pySlice t₁ lo hi
    · grind
    · rw [if_pos heq]
      exact bisect_eq le_rfl hlo (by rw [hwindow] at heq; omega) (by omega) (by omega)
  · rw [if_neg hlt]
    omega

lemma commonLen_units (h : k.isBigram = other.isBigram) :
    commonLen k.units other.units =
      min (if k.isBigram then commonLen k.tokenIds other.tokenIds - 1
        else commonLen k.tokenIds other.tokenIds) (min k.len other.len) := by
  rw [units_eq_take, units_eq_take, ← h, commonLen_take, commonLen_unitsOf]

lemma matchLen_eq (hp : 0 < p) (he : k.extraKey = other.extraKey) (hb : k.isBigram = other.isBigram) :
    k.matchLen other p = .ok (commonLen k.cells other.cells / p * p) := by
  have hcells : commonLen k.cells other.cells = commonLen k.units other.units := by
    rw [cells, cells, he, commonLen_map (Prod.mk_right_injective other.extraKey)]
  rw [matchLen, if_neg (by simpa using he), hcells, commonLen_units hb]
  dsimp only
  rw [gallop_eq rfl (by omega) (Nat.zero_le _) (by omega)]
  cases hk : k.isBigram with
  | false =>
    grind
  | true =>
    grind

lemma bisect_fuel {t₀ t₁ : List Nat} {lo hi fuel fuel' : Nat} (h : hi - lo ≤ fuel)
    (h' : hi - lo ≤ fuel') : bisect t₀ t₁ fuel lo hi = bisect t₀ t₁ fuel' lo hi := by
  induction fuel generalizing lo hi fuel' with
  | zero => cases fuel' <;> grind [bisect]
  | succ fuel ih => cases fuel' <;> grind [bisect]

/-- Keys of one namespace and mode: neither search needs more fuel, `match` is the longest common
prefix in whole pages, and `child_key` tells whether that is a page. -/
theorem match_longest (hp : 0 < p) (he : k.extraKey = other.extraKey)
    (hb : k.isBigram = other.isBigram) :
    (∀ n fuel, n = min k.tokenIds.length other.tokenIds.length → n ≤ fuel →
      gallop k.tokenIds other.tokenIds n fuel 0 1 = gallop k.tokenIds other.tokenIds n n 0 1) ∧
    (∀ t₀ t₁ lo hi fuel, hi - lo ≤ fuel → bisect t₀ t₁ fuel lo hi = bisect t₀ t₁ (hi - lo) lo hi) ∧
    ∃ m, k.matchLen other p = .ok m ∧ p ∣ m ∧
      (∀ j, p ∣ j → (j ≤ m ↔ j ≤ k.len ∧ j ≤ other.len ∧ k.units.take j = other.units.take j)) ∧
      (p ≤ k.len → p ≤ other.len → (k.childKey p = other.childKey p ↔ p ≤ m)) := by
  have hcells : commonLen k.cells other.cells = commonLen k.units other.units := by
    rw [cells, cells, he, commonLen_map (Prod.mk_right_injective other.extraKey)]
  have hle (j : Nat) (hj : p ∣ j) : j ≤ commonLen k.units other.units / p * p ↔
      j ≤ k.len ∧ j ≤ other.len ∧ k.units.take j = other.units.take j := by
    obtain ⟨i, rfl⟩ := hj
    rw [Nat.mul_comm, Nat.mul_le_mul_right_iff hp, Nat.le_div_iff_mul_le hp, le_commonLen_iff,
      length_units, length_units]
  refine ⟨fun n fuel hn hf => ?_, fun _ _ _ _ _ h => bisect_fuel h le_rfl, _, hcells ▸ matchLen_eq hp he hb,
    Nat.dvd_mul_left .., hle, fun hk ho => ?_⟩
  · rw [gallop_eq hn hf (Nat.zero_le _) Nat.one_pos, gallop_eq hn (Nat.sub_le ..) (Nat.zero_le _) Nat.one_pos]
  · rw [childKey_eq_iff hp hk ho, cells_take, cells_take, he, hle p (Nat.dvd_refl p),
      (map_injective_iff.mpr (Prod.mk_right_injective other.extraKey)).eq_iff]
    simp [hk, ho]

theorem match_longest_pairs :
    ∃ m, matchLen ⟨[1, 2, 3], none, true, none⟩ ⟨[1, 2, 4], none, true, none⟩ 1 = .ok m ∧ 1 ∣ m := by
  obtain ⟨-, -, m, h, hm, -⟩ := @match_longest ⟨[1, 2, 3], none, true, none⟩
    ⟨[1, 2, 4], none, true, none⟩ 1 one_pos rfl rfl
  exact ⟨m, h, hm⟩

/-- A key of tokens matches a key of pairs by its raw tokens. -/
theorem match_of_two_modes : matchLen ⟨[1, 2], none, false, none⟩ ⟨[1, 2], none, true, none⟩ 1 = .ok 1 ∧
      (units ⟨[1, 2], none, false, none⟩).take 1 ≠ (units ⟨[1, 2], none, true, none⟩).take 1 := by
  decide
end RadixKey
end Sglang
