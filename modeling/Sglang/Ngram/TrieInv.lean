import Sglang.Ngram.Trie

/-!
# What the n-gram trie keeps

`spell n` is the path of the live node `n`.
-/

namespace Sglang.Ngram
open List Function
open Prod (fst snd)
variable {nodes nodes' : Nat → TrieNode} {n m c t : Nat} {l : List Nat} {a b : Nat}

/-! ## The lists -/

lemma CompareByFreq.trans {c : Nat} (h : CompareByFreq nodes a b) (h' : CompareByFreq nodes b c) :
    CompareByFreq nodes a c := by
  unfold CompareByFreq at *
  omega

lemma CompareByFreq.irrefl (a : Nat) : ¬CompareByFreq nodes a a := by
  unfold CompareByFreq
  omega

lemma CompareByFreq.trichotomy (h : a ≠ b) : CompareByFreq nodes a b ∨ CompareByFreq nodes b a := by
  unfold CompareByFreq
  omega

lemma CompareByFreq.congr (ha : (nodes' a).freq = (nodes a).freq ∧ (nodes' a).token = (nodes a).token)
    (hb : (nodes' b).freq = (nodes b).freq ∧ (nodes' b).token = (nodes b).token) :
    CompareByFreq nodes' a b ↔ CompareByFreq nodes a b := by
  unfold CompareByFreq
  rw [ha.1, ha.2, hb.1, hb.2]

open CompareByFreq (congr irrefl trichotomy)

lemma eraseKey_eq (h : l.Pairwise (CompareByFreq nodes)) (hn : n ∈ l) :
    eraseKey nodes n l = l.erase n := by
  induction l with
  | nil => exact absurd hn not_mem_nil
  | cons x l ih => ?_
  obtain ⟨hx, hl⟩ := pairwise_cons.mp h
  unfold eraseKey at ih ⊢
  by_cases hxn : x = n
  · subst hxn
    rw [takeWhile_cons_of_neg (by simpa using irrefl x),
      dropWhile_cons_of_neg (by simpa using irrefl x),
      dropWhile_cons_of_pos (by simpa using irrefl x), nil_append, erase_cons_head]
    cases l with
    | nil => rfl
    | cons y l => exact dropWhile_cons_of_neg (by simpa using hx y mem_cons_self)
  have hnl : n ∈ l := (mem_cons.mp hn).resolve_left (Ne.symm hxn)
  have hlt := hx n hnl
  rw [takeWhile_cons_of_pos (by simpa using hlt), dropWhile_cons_of_pos (by simpa using hlt),
    cons_append, ih hl hnl, erase_cons_tail (by simpa using hxn)]

lemma pairwise_orderedInsert (h : l.Pairwise (CompareByFreq nodes)) (hn : n ∉ l) :
    (l.orderedInsert (CompareByFreq nodes) n).Pairwise (CompareByFreq nodes) := by
  induction l with
  | nil => simp
  | cons x l ih => ?_
  obtain ⟨hx, hl⟩ := pairwise_cons.mp h
  rw [orderedInsert]
  split
  · next hnx =>
    refine pairwise_cons.mpr ⟨fun y hy => ?_, h⟩
    rcases mem_cons.mp hy with rfl | hy
    · exact hnx
    · exact hnx.trans (hx y hy)
  next hnx =>
  have hne : x ≠ n := fun e => hn (e ▸ mem_cons_self)
  refine pairwise_cons.mpr ⟨fun y hy => ?_, ih hl fun hm => hn (mem_cons_of_mem _ hm)⟩
  rcases mem_cons.mp ((perm_orderedInsert _ n l).mem_iff.mp hy) with rfl | hy
  · exact (trichotomy hne).resolve_right hnx
  · exact hx y hy

lemma foldlM_spliceFront {path : List Nat} (hp : path.Nodup) (hl : l.Nodup)
    (hsub : ∀ n ∈ path, n ∈ l) :
    path.reverse.foldlM spliceFront l = .ok (path ++ l.filter fun n => decide (n ∉ path)) := by
  induction path with
  | nil =>
    simp only [not_mem_nil, not_false_eq_true, decide_true, filter_true]
    rfl
  | cons p path ih => ?_
  obtain ⟨hpn, hp'⟩ := nodup_cons.mp hp
  rw [reverse_cons, foldlM_append, ih hp' fun n hn => hsub n (mem_cons_of_mem _ hn)]
  have hmem : p ∈ path ++ l.filter fun n => decide (n ∉ path) :=
    mem_append_right _ (mem_filter.mpr ⟨hsub p mem_cons_self, decide_eq_true hpn⟩)
  have herase : (path ++ l.filter fun n => decide (n ∉ path)).erase p =
      path ++ l.filter fun n => decide (n ∉ p :: path) := by
    rw [erase_append_right _ hpn, (hl.filter _).erase_eq_filter, filter_filter]
    grind
  change [p].foldlM spliceFront (path ++ l.filter fun n => decide (n ∉ path)) = _
  rw [foldlM_cons, spliceFront, eraseAt, if_pos hmem, herase]
  rfl

lemma eraseP_key {l : List (Int × Nat)} {tok : Int} (hk : (l.map fst).Nodup) (hm : (tok, c) ∈ l) :
    (l.eraseP fun x => x.1 == tok) = l.erase (tok, c) := by
  induction l with
  | nil => exact absurd hm not_mem_nil
  | cons x l ih => ?_
  rw [map_cons, nodup_cons] at hk
  by_cases hx : x.1 = tok
  · have he : x = (tok, c) := by
      rcases mem_cons.mp hm with e | hm'
      · exact e.symm
      · exact absurd (hx ▸ mem_map.mpr ⟨_, hm', rfl⟩) hk.1
    rw [eraseP_cons_of_pos (by simpa using hx), he, erase_cons_head]
  · have hne : x ≠ (tok, c) := fun e => hx (congrArg fst e)
    grind

/-! ## The tree -/

structure TrieShape (nodes : Nat → TrieNode) (root : Nat) (spell : Nat → Option (List Int)) : Prop where
  root : spell root = some []
  inj : ∀ {n m u}, spell n = some u → spell m = some u → n = m
  parent : ∀ {c u t}, spell c = some (u ++ [t]) → spell (nodes c).parent = some u ∧ (nodes c).token = t
  child : ∀ {n u}, spell n = some u → ∀ t c, (t, c) ∈ (nodes n).child ↔ spell c = some (u ++ [t])
  keys : ∀ {n u}, spell n = some u → ((nodes n).child.map fst).Nodup
  lru : ∀ {n u}, spell n = some u → (nodes n).lru.Perm ((nodes n).child.map snd)
  sorted_perm : ∀ {n u}, spell n = some u → (nodes n).sortedChildren.Perm ((nodes n).child.map snd)
  sorted : ∀ {n u}, spell n = some u → (nodes n).sortedChildren.Pairwise (CompareByFreq nodes)

structure TrieInv (s : Trie) (spell : Nat → Option (List Int)) : Prop extends TrieShape s.nodes s.root spell where
  global_nodup : s.globalLru.Nodup
  global_mem : ∀ n, n ∈ s.globalLru ↔ ∃ u, u ≠ [] ∧ spell n = some u
  global_order : s.globalLru.Pairwise fun a b => (s.nodes a).parent ≠ b
  lt_capacity : ∀ {n u}, spell n = some u → n < s.capacity
  pool_lt : ∀ i < s.freeNodeCount, s.nodePool i < s.capacity
  pool_inj : ∀ i < s.freeNodeCount, ∀ j < s.freeNodeCount, s.nodePool i = s.nodePool j → i = j
  pool_dead : ∀ i < s.freeNodeCount, spell (s.nodePool i) = none
  pool_cover : ∀ n < s.capacity, spell n = none → ∃ i < s.freeNodeCount, s.nodePool i = n
  count : s.globalLru.length + 1 + s.freeNodeCount = s.capacity

variable {root : Nat} {spell spell' : Nat → Option (List Int)} {u : List Int} {tok : Int}

namespace TrieShape
variable (h : TrieShape nodes root spell) {keys : Nat → TrieNode}
  {version node : Nat} {v : List Int}
include h

section
variable (hn : spell n = some u)
include hn

lemma values_nodup : ((nodes n).child.map snd).Nodup := by
  have hk := h.keys hn
  rw [nodup_map_iff_inj_on (Nodup.of_map _ hk)]
  rintro ⟨t, c⟩ hc ⟨t', c'⟩ hc' e
  obtain rfl : c = c' := e
  have h1 := (h.child hn t c).mp hc
  rw [(h.child hn t' c).mp hc'] at h1
  have := append_cancel_left (Option.some.inj h1)
  rw [singleton_inj.mp this]

lemma mem_lru : c ∈ (nodes n).lru ↔ ∃ t, spell c = some (u ++ [t]) := by
  rw [(h.lru hn).mem_iff, mem_map]
  constructor
  · rintro ⟨⟨t, c'⟩, hc, rfl⟩
    exact ⟨t, (h.child hn t _).mp hc⟩
  · rintro ⟨t, hc⟩
    exact ⟨(t, c), (h.child hn t c).mpr hc, rfl⟩

lemma mem_sorted : c ∈ (nodes n).sortedChildren ↔ ∃ t, spell c = some (u ++ [t]) := by
  rw [(h.sorted_perm hn).mem_iff, ← (h.lru hn).mem_iff]
  exact h.mem_lru hn

lemma lookup_iff : (nodes n).child.lookup tok = some c ↔ spell c = some (u ++ [tok]) := by
  rw [← h.child hn]
  have hk := h.keys hn
  generalize (nodes n).child = l at hk
  induction l with
  | nil => simp
  | cons x l ih => ?_
  obtain ⟨t, c'⟩ := x
  rw [map_cons, nodup_cons] at hk
  rw [lookup_cons, mem_cons]
  by_cases ht : tok = t
  · subst ht
    rw [beq_self_eq_true]
    constructor
    · intro e
      exact .inl (by rw [← Option.some.inj e])
    · rintro (e | hm)
      · rw [(Prod.mk.inj e).2]
      · exact absurd (mem_map.mpr ⟨_, hm, rfl⟩) hk.1
  · have hb : (tok == t) = false := by simpa using ht
    rw [hb]
    refine (ih hk.2).trans ⟨.inr, fun hm => hm.resolve_left fun e => ht (Prod.mk.inj e).1⟩

lemma lookup_none : (nodes n).child.lookup tok = none ↔ ∀ c, spell c ≠ some (u ++ [tok]) := by
  rw [Option.eq_none_iff_forall_ne_some]
  exact forall_congr' fun c => not_congr (h.lookup_iff hn)
end

lemma prefix_live {u : List Int} (hc : spell c = some (u ++ v)) : ∃ n, spell n = some u := by
  induction v using reverseRecOn generalizing c with
  | nil => exact ⟨c, by rwa [append_nil] at hc⟩
  | append_singleton v t ih =>
    rw [← append_assoc] at hc
    exact ih (h.parent hc).1

omit h in
lemma child_ne (hn : spell n = some u) (hc : spell c = some (u ++ [tok])) : c ≠ n := by
  rintro rfl
  rw [hn] at hc
  have := congrArg length (Option.some.inj hc)
  simp at this

variable (hn : spell n = some u)
include hn

lemma child_unique {t t' : Int} (hm : spell m = some v)
    (hc : spell c = some (u ++ [t])) (hc' : spell c = some (v ++ [t'])) : n = m := by
  rw [hc] at hc'
  obtain ⟨rfl, -⟩ := append_inj' (Option.some.inj hc') rfl
  exact h.inj hn hm

lemma sorted_congr (hsame : ∀ c t, spell c = some (u ++ [t]) →
      (nodes' c).freq = (nodes c).freq ∧ (nodes' c).token = (nodes c).token) :
        (nodes n).sortedChildren.Pairwise (CompareByFreq nodes') := by
  refine (h.sorted hn).imp_of_mem fun {a b} ha hb hab => ?_
  obtain ⟨t, hat⟩ := (h.mem_sorted hn).mp ha
  obtain ⟨t', hbt⟩ := (h.mem_sorted hn).mp hb
  exact (congr (hsame a t hat) (hsame b t' hbt)).mpr hab

lemma add (hdead : spell node = none) (hfree : ∀ c, spell c ≠ some (u ++ [tok]))
    (hkeys : ∀ m, (keys m).freq = (nodes' m).freq ∧ (keys m).token = (nodes' m).token)
    (hcur : nodes' n = { nodes n with
      child := (nodes n).child ++ [(tok, node)]
      lru := node :: (nodes n).lru
      sortedChildren := (nodes n).sortedChildren.orderedInsert (CompareByFreq keys) node })
    (hnew : nodes' node = { token := tok, parent := n, freq := 1, version })
    (hold : ∀ m ≠ n, m ≠ node → nodes' m = nodes m) :
    TrieShape nodes' root (update spell node (some (u ++ [tok]))) := by
  have hne : ∀ {m v}, spell m = some v → m ≠ node := by
    rintro m v hm rfl
    rw [hdead] at hm
    cases hm
  have hspell : ∀ {m v}, spell m = some v → update spell node (some (u ++ [tok])) m = some v :=
    fun hm => by rw [update_of_ne (hne hm), hm]
  have hcases : ∀ {m v}, update spell node (some (u ++ [tok])) m = some v →
      m = node ∧ v = u ++ [tok] ∨ spell m = some v := by
    intro m v hm
    by_cases e : m = node
    · subst e
      rw [update_self] at hm
      exact .inl ⟨rfl, (Option.some.inj hm).symm⟩
    · rw [update_of_ne e] at hm
      exact .inr hm
  have hthree : ∀ {m v}, update spell node (some (u ++ [tok])) m = some v →
      m = node ∧ v = u ++ [tok] ∨ m = n ∧ v = u ∨ spell m = some v ∧ m ≠ n ∧ nodes' m = nodes m := by
    intro m v hm
    refine (hcases hm).imp_right fun hmv => ?_
    by_cases e : m = n
    · subst e
      exact .inl ⟨rfl, Option.some.inj (hmv.symm.trans hn)⟩
    · exact .inr ⟨hmv, e, hold m e (hne hmv)⟩
  -- nothing that orders the old children has changed
  have hkey : ∀ m ≠ node, (nodes' m).freq = (nodes m).freq ∧ (nodes' m).token = (nodes m).token ∧
      (nodes' m).parent = (nodes m).parent := by
    intro m hm
    by_cases e : m = n
    · subst e
      rw [hcur]
      exact ⟨rfl, rfl, rfl⟩
    · rw [hold m e hm]
      exact ⟨rfl, rfl, rfl⟩
  have hsorted : ∀ {m v}, spell m = some v → (nodes m).sortedChildren.Pairwise (CompareByFreq nodes') :=
    fun hm => h.sorted_congr hm fun c t hc => ⟨(hkey c (hne hc)).1, (hkey c (hne hc)).2.1⟩
  refine ⟨hspell h.root, ?_, ?_, ?_, ?_, ?_, ?_, ?_⟩
  · intro a b v ha hb
    rcases hcases ha with ⟨hax, hav⟩ | ha' <;> rcases hcases hb with ⟨hbx, hbv⟩ | hb'
    · exact hax.trans hbx.symm
    · exact absurd (hav ▸ hb') (hfree b)
    · exact absurd (hbv ▸ ha') (hfree a)
    · exact h.inj ha' hb'
  · intro c v t hc
    rcases hcases hc with ⟨rfl, e⟩ | hc'
    · obtain ⟨rfl, e'⟩ := append_inj' e rfl
      grind
    · obtain ⟨hp, ht⟩ := h.parent hc'
      grind
  · intro a v ha t c
    rcases hthree ha with ⟨rfl, rfl⟩ | ⟨rfl, rfl⟩ | ⟨ha', han, e⟩
    · rw [hnew]
      refine ⟨nofun, fun hc => ?_⟩
      rcases hcases hc with ⟨-, e⟩ | hc'
      · simp at e
      · obtain ⟨m, hm⟩ := h.prefix_live (u := u ++ [tok]) hc'
        exact absurd hm (hfree m)
    · rw [hcur, mem_append, h.child hn, mem_singleton, Prod.mk.injEq]
      constructor
      · rintro (hc | ⟨rfl, rfl⟩)
        · exact hspell hc
        · exact update_self ..
      · intro hc
        exact (hcases hc).symm.imp_right fun ⟨hcx, e⟩ => ⟨by simpa using e, hcx⟩
    rw [e, h.child ha']
    refine ⟨hspell, fun hc => ?_⟩
    rcases hcases hc with ⟨-, e'⟩ | hc'
    · obtain ⟨rfl, -⟩ := append_inj' e' rfl
      exact absurd (h.inj ha' hn) han
    · exact hc'
  · intro a v ha
    rcases hthree ha with ⟨rfl, -⟩ | ⟨rfl, -⟩ | ⟨ha', -, e⟩
    · rw [hnew]
      exact nodup_nil
    · rw [hcur, map_append, nodup_append]
      refine ⟨h.keys hn, nodup_singleton _, fun x hx y hy e => ?_⟩
      obtain rfl : y = tok := by simpa using hy
      obtain ⟨⟨t, c⟩, hc, rfl⟩ := mem_map.mp hx
      exact hfree c (e ▸ (h.child hn t c).mp hc)
    · rw [e]
      exact h.keys ha'
  · intro a v ha
    rcases hthree ha with ⟨rfl, -⟩ | ⟨rfl, -⟩ | ⟨ha', -, e⟩
    · rw [hnew]
      exact .nil
    · rw [hcur, map_append]
      exact ((h.lru hn).cons node).trans (perm_append_singleton ..).symm
    · rw [e]
      exact h.lru ha'
  · intro a v ha
    rcases hthree ha with ⟨rfl, -⟩ | ⟨rfl, -⟩ | ⟨ha', -, e⟩
    · rw [hnew]
      exact .nil
    · rw [hcur, map_append]
      exact ((perm_orderedInsert ..).trans ((h.sorted_perm hn).cons node)).trans
        (perm_append_singleton ..).symm
    · rw [e]
      exact h.sorted_perm ha'
  intro a v ha
  rcases hthree ha with ⟨rfl, -⟩ | ⟨rfl, -⟩ | ⟨ha', -, e⟩
  · rw [hnew]
    exact .nil
  · rw [hcur]
    have hk := (hsorted hn).imp fun {x y} hxy => (congr (hkeys x) (hkeys y)).mpr hxy
    refine (pairwise_orderedInsert hk fun hm => ?_).imp fun {x y} => (congr (hkeys x) (hkeys y)).mp
    obtain ⟨t, ht⟩ := (h.mem_sorted hn).mp hm
    exact hne ht rfl
  · rw [e]
    exact hsorted ha'

lemma touch (hc : spell node = some (u ++ [tok]))
    (hkeys : ∀ m, (keys m).freq = (nodes' m).freq ∧ (keys m).token = (nodes' m).token)
    (hcur : nodes' n = { nodes n with
      lru := node :: (nodes n).lru.erase node
      sortedChildren := ((nodes n).sortedChildren.erase node).orderedInsert (CompareByFreq keys) node })
    (hnew : nodes' node = { nodes node with freq := (nodes node).freq + 1 })
    (hold : ∀ m ≠ n, m ≠ node → nodes' m = nodes m) : TrieShape nodes' root spell := by
  have hthree : ∀ m, m = n ∨ m ≠ n ∧ (nodes' m).child = (nodes m).child ∧ (nodes' m).lru = (nodes m).lru ∧
      (nodes' m).sortedChildren = (nodes m).sortedChildren := by
    intro m
    by_cases e : m = n
    · exact .inl e
    refine .inr ⟨e, ?_⟩
    by_cases e' : m = node
    · subst e'
      rw [hnew]
      exact ⟨rfl, rfl, rfl⟩
    · rw [hold m e e']
      exact ⟨rfl, rfl, rfl⟩
  have hkey : ∀ m, (nodes' m).token = (nodes m).token ∧ (nodes' m).parent = (nodes m).parent ∧
      (nodes' m).child = (nodes m).child ∧ (m ≠ node → (nodes' m).freq = (nodes m).freq) := by
    intro m
    by_cases e : m = n
    · subst e
      rw [hcur]
      exact ⟨rfl, rfl, rfl, fun _ => rfl⟩
    by_cases e' : m = node
    · subst e'
      rw [hnew]
      exact ⟨rfl, rfl, rfl, fun x => absurd rfl x⟩
    · rw [hold m e e']
      exact ⟨rfl, rfl, rfl, fun _ => rfl⟩
  have hnd : (nodes n).sortedChildren.Nodup := (h.sorted_perm hn).nodup_iff.mpr (h.values_nodup hn)
  refine ⟨h.root, h.inj, ?_, ?_, ?_, ?_, ?_, ?_⟩
  · intro c v t hcv
    rw [(hkey c).1, (hkey c).2.1]
    exact h.parent hcv
  · intro a v ha t c
    rw [(hkey a).2.2.1]
    exact h.child ha t c
  · intro a v ha
    rw [(hkey a).2.2.1]
    exact h.keys ha
  · intro a v ha
    rw [(hkey a).2.2.1]
    rcases hthree a with rfl | ⟨-, -, e, -⟩
    · rw [hcur]
      exact (perm_cons_erase ((h.mem_lru hn).mpr ⟨tok, hc⟩)).symm.trans (h.lru hn)
    · rw [e]
      exact h.lru ha
  · intro a v ha
    rw [(hkey a).2.2.1]
    rcases hthree a with rfl | ⟨-, -, -, e⟩
    · rw [hcur]
      refine (perm_orderedInsert ..).trans ?_
      exact (perm_cons_erase ((h.mem_sorted hn).mpr ⟨tok, hc⟩)).symm.trans (h.sorted_perm hn)
    · rw [e]
      exact h.sorted_perm ha
  intro a v ha
  rcases hthree a with rfl | ⟨han, -, -, e⟩
  · rw [hcur]
    have hk : ((nodes a).sortedChildren.erase node).Pairwise (CompareByFreq keys) := by
      refine ((h.sorted hn).sublist erase_sublist).imp_of_mem fun {x y} hx hy hxy => ?_
      have hx' := (hnd.mem_erase_iff.mp hx).1
      have hy' := (hnd.mem_erase_iff.mp hy).1
      refine (congr (hkeys x) (hkeys y)).mpr ?_
      exact (congr ⟨(hkey x).2.2.2 hx', (hkey x).1⟩ ⟨(hkey y).2.2.2 hy', (hkey y).1⟩).mpr hxy
    exact (pairwise_orderedInsert hk hnd.not_mem_erase).imp fun {x y} =>
      (congr (hkeys x) (hkeys y)).mp
  rw [e]
  refine h.sorted_congr ha fun x t hx => ⟨(hkey x).2.2.2 ?_, (hkey x).1⟩
  rintro rfl
  exact han (h.child_unique ha hn hx hc)

lemma remove {leaf : Nat} (hc : spell leaf = some (u ++ [tok])) (hleaf : (nodes leaf).child = [])
    (hcur : nodes' n = { nodes n with
      child := (nodes n).child.eraseP fun x => x.1 == tok
      lru := (nodes n).lru.erase leaf
      sortedChildren := (nodes n).sortedChildren.erase leaf })
    (hnew : nodes' leaf = { nodes leaf with version })
    (hold : ∀ m ≠ n, m ≠ leaf → nodes' m = nodes m) :
    TrieShape nodes' root (update spell leaf none) := by
  have hcases : ∀ {m v}, update spell leaf none m = some v ↔ m ≠ leaf ∧ spell m = some v := by
    grind
  have hkey : ∀ m, (nodes' m).token = (nodes m).token ∧ (nodes' m).parent = (nodes m).parent ∧
      (nodes' m).freq = (nodes m).freq := by
    intro m
    by_cases e : m = n
    · subst e
      rw [hcur]
      exact ⟨rfl, rfl, rfl⟩
    by_cases e' : m = leaf
    · subst e'
      rw [hnew]
      exact ⟨rfl, rfl, rfl⟩
    · rw [hold m e e']
      exact ⟨rfl, rfl, rfl⟩
  -- the leaf is no parent
  have hnoparent : ∀ {c v t}, spell c = some (v ++ [t]) → spell leaf ≠ some v := by
    intro c v t hcv hl
    have := (h.child hl t c).mpr hcv
    rw [hleaf] at this
    exact not_mem_nil this
  have hmem : (tok, leaf) ∈ (nodes n).child := (h.child hn tok leaf).mpr hc
  have hnd : (nodes n).child.Nodup := Nodup.of_map _ (h.keys hn)
  rw [eraseP_key (h.keys hn) hmem] at hcur
  have hperm : ((nodes n).child.map snd).Perm (leaf :: ((nodes n).child.erase (tok, leaf)).map snd) :=
    (perm_cons_erase hmem).map snd
  have htwo : ∀ {m v}, update spell leaf none m = some v →
      m = n ∧ v = u ∨ spell m = some v ∧ m ≠ n ∧ nodes' m = nodes m := by
    intro m v hm
    obtain ⟨hml, hmv⟩ := hcases.mp hm
    by_cases e : m = n
    · subst e
      exact .inl ⟨rfl, Option.some.inj (hmv.symm.trans hn)⟩
    · exact .inr ⟨hmv, e, hold m e hml⟩
  have hsorted : ∀ {m v}, spell m = some v → (nodes m).sortedChildren.Pairwise (CompareByFreq nodes') :=
    fun hm => h.sorted_congr hm fun c _ _ => ⟨(hkey c).2.2, (hkey c).1⟩
  refine ⟨?_, ?_, ?_, ?_, ?_, ?_, ?_, ?_⟩
  · refine hcases.mpr ⟨?_, h.root⟩
    rintro rfl
    rw [h.root] at hc
    simp at hc
  · intro a b v ha hb
    exact h.inj (hcases.mp ha).2 (hcases.mp hb).2
  · intro c v t hcv
    obtain ⟨hp, ht⟩ := h.parent (hcases.mp hcv).2
    rw [(hkey c).1, (hkey c).2.1]
    refine ⟨hcases.mpr ⟨fun e => ?_, hp⟩, ht⟩
    exact hnoparent (hcases.mp hcv).2 (e ▸ hp)
  · intro a v ha t c
    rcases htwo ha with ⟨rfl, rfl⟩ | ⟨ha', han, e⟩
    · rw [hcur, hnd.mem_erase_iff, h.child hn, hcases]
      refine and_congr_left fun hct => not_congr ⟨fun e => congrArg snd e, ?_⟩
      rintro rfl
      have := append_cancel_left (Option.some.inj (hct.symm.trans hc))
      rw [singleton_inj.mp this]
    rw [e, h.child ha', hcases]
    refine ⟨fun hct => ⟨?_, hct⟩, And.right⟩
    rintro rfl
    exact han (h.child_unique ha' hn hct hc)
  · intro a v ha
    rcases htwo ha with ⟨rfl, -⟩ | ⟨ha', -, e⟩
    · rw [hcur]
      exact (h.keys hn).sublist (erase_sublist.map _)
    · rw [e]
      exact h.keys ha'
  · intro a v ha
    rcases htwo ha with ⟨rfl, -⟩ | ⟨ha', -, e⟩
    · rw [hcur]
      have hl := perm_cons_erase ((h.mem_lru hn).mpr ⟨tok, hc⟩)
      exact (hl.symm.trans ((h.lru hn).trans hperm)).cons_inv
    · rw [e]
      exact h.lru ha'
  · intro a v ha
    rcases htwo ha with ⟨rfl, -⟩ | ⟨ha', -, e⟩
    · rw [hcur]
      have hl := perm_cons_erase ((h.mem_sorted hn).mpr ⟨tok, hc⟩)
      exact (hl.symm.trans ((h.sorted_perm hn).trans hperm)).cons_inv
    · rw [e]
      exact h.sorted_perm ha'
  intro a v ha
  rcases htwo ha with ⟨rfl, -⟩ | ⟨ha', -, e⟩
  · rw [hcur]
    exact (hsorted hn).sublist erase_sublist
  · rw [e]
    exact hsorted ha'
end TrieShape
end Sglang.Ngram
