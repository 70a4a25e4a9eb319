import Sglang.Ngram.TrieInv

/-!
# The operations of the n-gram trie keep its invariant

`Aged` says what a captured reference may rely on: versions only grow, and a node whose version is
the same spells the same path.
-/

namespace Sglang.Ngram
open List Function
variable {s s' s'' : Trie} {spell spell' spell'' : Nat → Option (List Int)} {n m c k : Nat}
  {u : List Int}
  {tok : Int}

namespace Trie
lemma modifyNode_self (f : TrieNode → TrieNode) : (s.modifyNode n f).nodes n = f (s.nodes n) :=
  update_self ..

lemma modifyNode_of_ne (f : TrieNode → TrieNode) (h : m ≠ n) : (s.modifyNode n f).nodes m = s.nodes m :=
  update_of_ne h _ _

lemma findFrom_append (s : Trie) (n : Nat) (u v : List Int) :
    s.findFrom n (u ++ v) = (s.findFrom n u).bind fun m => s.findFrom m v := by
  induction u generalizing n with
  | nil => rfl
  | cons t u ih =>
    rw [cons_append, findFrom, findFrom]
    cases (s.nodes n).child.lookup t with
    | none => rfl
    | some c => exact ih c

lemma find_concat (s : Trie) (u : List Int) (tok : Int) :
    s.find (u ++ [tok]) = (s.find u).bind fun m => (s.nodes m).child.lookup tok := by
  rw [find, findFrom_append]
  refine congrArg _ (funext fun m => ?_)
  rw [findFrom]
  cases (s.nodes m).child.lookup tok <;> rfl

lemma find_iff (h : TrieShape s.nodes s.root spell) : s.find u = some n ↔ spell n = some u := by
  induction u using List.reverseRecOn generalizing n with
  | nil =>
    constructor
    · intro e
      rw [← Option.some.inj e]
      exact h.root
    · intro hn
      exact congrArg some (h.inj h.root hn)
  | append_singleton u t ih => ?_
  rw [find_concat, Option.bind_eq_some_iff]
  constructor
  · rintro ⟨m, hm, hl⟩
    exact (h.lookup_iff (ih.mp hm)).mp hl
  · intro hn
    obtain ⟨m, hm⟩ := h.prefix_live hn
    exact ⟨m, ih.mpr hm, (h.lookup_iff hm).mpr hn⟩
end Trie

/-- What later operations of the same epoch leave of a trie. -/
structure Aged (s : Trie) (spell : Nat → Option (List Int)) (s' : Trie) (spell' : Nat → Option (List Int)) :
    Prop where
  epoch : s'.trieEpoch = s.trieEpoch
  capacity : s'.capacity = s.capacity
  maxTrieDepth : s'.maxTrieDepth = s.maxTrieDepth
  root : s'.root = s.root
  version : ∀ n, (s.nodes n).version ≤ (s'.nodes n).version
  same : ∀ n u, (s'.nodes n).version = (s.nodes n).version → spell n = some u → spell' n = some u

lemma Aged.refl (s : Trie) (spell : Nat → Option (List Int)) : Aged s spell s spell :=
  ⟨rfl, rfl, rfl, rfl, fun _ => le_rfl, fun _ _ _ h => h⟩

lemma Aged.trans (h : Aged s spell s' spell') (h' : Aged s' spell' s'' spell'') :
    Aged s spell s'' spell'' := by
  refine ⟨h'.epoch.trans h.epoch, h'.capacity.trans h.capacity, h'.maxTrieDepth.trans h.maxTrieDepth,
    h'.root.trans h.root, fun n => (h.version n).trans (h'.version n), fun n u e hn => ?_⟩
  have h1 := h.version n
  have h2 := h'.version n
  exact h'.same n u (by omega) (h.same n u (by omega) hn)

/-- What a walk adds: at most `k` nodes, with `new` paths. -/
structure Grown (s : Trie) (spell : Nat → Option (List Int)) (s' : Trie) (spell' : Nat → Option (List Int))
    (new : List Int → Prop) (k : Nat) : Prop where
  epoch : s'.trieEpoch = s.trieEpoch
  capacity : s'.capacity = s.capacity
  maxTrieDepth : s'.maxTrieDepth = s.maxTrieDepth
  root : s'.root = s.root
  version : ∀ n, (s'.nodes n).version = (s.nodes n).version
  kept : ∀ n u, spell n = some u → spell' n = some u
  back : ∀ n u, spell' n = some u → spell n = some u ∨ new u
  free : s.freeNodeCount ≤ s'.freeNodeCount + k

namespace Grown
variable {new new' : List Int → Prop} {j k : Nat}

lemma refl (s : Trie) (spell : Nat → Option (List Int)) : Grown s spell s spell new 0 :=
  ⟨rfl, rfl, rfl, rfl, fun _ => rfl, fun _ _ h => h, fun _ _ h => .inl h, le_rfl⟩

variable (h : Grown s spell s' spell' new j)
include h

lemma trans (h' : Grown s' spell' s'' spell'' new' k) :
    Grown s spell s'' spell'' (fun u => new u ∨ new' u) (j + k) := by
  refine ⟨h'.epoch.trans h.epoch, h'.capacity.trans h.capacity, h'.maxTrieDepth.trans h.maxTrieDepth,
    h'.root.trans h.root, fun n => (h'.version n).trans (h.version n),
    fun n u hn => h'.kept n u (h.kept n u hn), fun n u hn => ?_, ?_⟩
  · rcases h'.back n u hn with hn' | hn'
    · exact (h.back n u hn').imp_right .inl
    · exact .inr (.inr hn')
  · have h1 := h.free
    have h2 := h'.free
    omega

lemma weaken (hnew : ∀ u, new u → new' u) (hk : j ≤ k) : Grown s spell s' spell' new' k :=
  { h with
    back := fun n u hn => (h.back n u hn).imp_right (hnew u)
    free := h.free.trans (Nat.add_le_add_left hk _) }

lemma aged : Aged s spell s' spell' :=
  ⟨h.epoch, h.capacity, h.maxTrieDepth, h.root, fun n => (h.version n).ge, fun n u _ hn => h.kept n u hn⟩
end Grown

def PathOf (spell : Nat → Option (List Int)) (u : List Int) (path : List Nat) (tokens : List Int) : Prop :=
  path.length = tokens.length ∧ ∀ (i : Nat) c, path[i]? = some c → spell c = some (u ++ tokens.take (i + 1))

namespace TrieInv
lemma ne_of_dead (hn : spell n = some u) (hm : spell m = none) : n ≠ m := by
  rintro rfl
  rw [hn] at hm
  cases hm

/-! ## A new node -/

def taken (s : Trie) (k n : Nat) (tok : Int) : Trie :=
  ({ s with freeNodeCount := k : Trie }.modifyNode (s.nodePool k) fun x => { version := x.version }).enter n tok
    (s.nodePool k)

lemma taken_cur (hne : n ≠ s.nodePool k) :
    (taken s k n tok).nodes n =
      { s.nodes n with child := (s.nodes n).child ++ [(tok, s.nodePool k)], lru := s.nodePool k :: (s.nodes n).lru } := by
  simp [taken, Trie.enter, Trie.modifyNode, hne]

lemma taken_new (hne : n ≠ s.nodePool k) :
    (taken s k n tok).nodes (s.nodePool k) =
      { token := tok, parent := n, freq := 1, version := (s.nodes (s.nodePool k)).version } := by
  simp [taken, Trie.enter, Trie.modifyNode, hne.symm]

lemma taken_old (hm : m ≠ n) (hm' : m ≠ s.nodePool k) : (taken s k n tok).nodes m = s.nodes m := by
  simp [taken, Trie.enter, Trie.modifyNode, hm, hm']

lemma insertSorted_keys (s : Trie) (n c m : Nat) :
    (s.nodes m).freq = ((s.insertSorted n c).nodes m).freq ∧ (s.nodes m).token =
    ((s.insertSorted n c).nodes m).token ∧ (s.nodes m).parent = ((s.insertSorted n c).nodes m).parent ∧
      (s.nodes m).version = ((s.insertSorted n c).nodes m).version := by
  unfold Trie.insertSorted
  by_cases e : m = n
  · subst e
    rw [Trie.modifyNode_self]
    exact ⟨rfl, rfl, rfl, rfl⟩
  · rw [Trie.modifyNode_of_ne _ e]
    exact ⟨rfl, rfl, rfl, rfl⟩

variable (h : TrieInv s spell) {tokens : List Int} {len : Nat}
include h

lemma attach (hn : spell n = some u) (hfree : ∀ c, spell c ≠ some (u ++ [tok]))
    (hk : s.freeNodeCount = k + 1) : TrieInv ((taken s k n tok).insertSorted n (s.nodePool k))
        (update spell (s.nodePool k) (some (u ++ [tok]))) ∧
      ∀ m, (((taken s k n tok).insertSorted n (s.nodePool k)).nodes m).version = (s.nodes m).version := by
  set s' := (taken s k n tok).insertSorted n (s.nodePool k) with hs'
  have hdead : spell (s.nodePool k) = none := h.pool_dead k (by omega)
  have hne : n ≠ s.nodePool k := ne_of_dead hn hdead
  have hcur : s'.nodes n =
      { s.nodes n with
        child := (s.nodes n).child ++ [(tok, s.nodePool k)]
        lru := s.nodePool k :: (s.nodes n).lru
        sortedChildren :=
          (s.nodes n).sortedChildren.orderedInsert (CompareByFreq (taken s k n tok).nodes)
            (s.nodePool k) } := by
    rw [hs', Trie.insertSorted, Trie.modifyNode_self, taken_cur hne]
  have hnew : s'.nodes (s.nodePool k) =
      { token := tok, parent := n, freq := 1, version := (s.nodes (s.nodePool k)).version } := by
    rw [hs', Trie.insertSorted, Trie.modifyNode_of_ne _ hne.symm, taken_new hne]
  have hold : ∀ m ≠ n, m ≠ s.nodePool k →
      s'.nodes m = s.nodes m := by
    intro m hm hm'
    rw [hs', Trie.insertSorted, Trie.modifyNode_of_ne _ hm, taken_old hm hm']
  have hshape := h.toTrieShape.add hn hdead hfree (fun m => ⟨(insertSorted_keys _ n _ m).1, (insertSorted_keys _ n _ m).2.1⟩)
    hcur hnew hold
  have hparent : ∀ m, m ≠ s.nodePool k →
      (s'.nodes m).parent = (s.nodes m).parent ∧
        (s'.nodes m).version = (s.nodes m).version := by
    intro m hm
    by_cases e : m = n
    · subst e
      rw [hcur]
      exact ⟨rfl, rfl⟩
    · rw [hold m e hm]
      exact ⟨rfl, rfl⟩
  have hlive : ∀ {m v}, spell m = some v → update spell (s.nodePool k) (some (u ++ [tok])) m = some v :=
    fun hm => by rw [update_of_ne (ne_of_dead hm hdead), hm]
  have hnot : s.nodePool k ∉ s.globalLru := fun hm => by
    obtain ⟨v, -, hv⟩ := (h.global_mem _).mp hm
    exact ne_of_dead hv hdead rfl
  refine ⟨⟨hshape, ?_, ?_, ?_, ?_, ?_, ?_, ?_, ?_, ?_⟩, ?_⟩
  · exact nodup_append.mpr ⟨h.global_nodup, nodup_singleton _, fun a ha b hb e => by
      rw [mem_singleton.mp hb] at e
      exact hnot (e ▸ ha)⟩
  · intro m
    change m ∈ s.globalLru ++ [s.nodePool k] ↔ _
    rw [mem_append, h.global_mem, mem_singleton]
    constructor
    · rintro (⟨v, hv, hm⟩ | rfl)
      · exact ⟨v, hv, hlive hm⟩
      · exact ⟨u ++ [tok], by simp, update_self ..⟩
    grind
  · change (s.globalLru ++ [s.nodePool k]).Pairwise _
    rw [pairwise_append]
    refine ⟨h.global_order.imp_of_mem fun {a b} ha _ hab => ?_, pairwise_singleton .., fun a ha b hb => ?_⟩
    · rwa [(hparent a fun e => hnot (e ▸ ha)).1]
    rw [(hparent a fun e => hnot (e ▸ ha)).1, mem_singleton.mp hb]
    obtain ⟨v, hv, hm⟩ := (h.global_mem a).mp ha
    obtain ⟨v', t, rfl⟩ := (eq_nil_or_concat' v).resolve_left hv
    exact ne_of_dead (h.parent hm).1 hdead
  · intro m v hm
    by_cases e : m = s.nodePool k
    · rw [e]
      exact h.pool_lt k (by omega)
    · rw [update_of_ne e] at hm
      exact h.lt_capacity hm
  · exact fun i (hi : i < k) => h.pool_lt i (by omega)
  · exact fun i (hi : i < k) j (hj : j < k) => h.pool_inj i (by omega) j (by omega)
  · intro i (hi : i < k)
    change update spell (s.nodePool k) (some (u ++ [tok])) (s.nodePool i) = none
    rw [update_of_ne, h.pool_dead i (by omega)]
    intro e
    have := h.pool_inj i (by omega) k (by omega) e
    omega
  · intro m hm hdm
    by_cases e : m = s.nodePool k
    · rw [e, update_self] at hdm
      cases hdm
    rw [update_of_ne e] at hdm
    obtain ⟨i, hi, rfl⟩ := h.pool_cover m hm hdm
    refine ⟨i, ?_, rfl⟩
    change i < k
    have : i ≠ k := fun e' => e (e' ▸ rfl)
    omega
  · change (s.globalLru ++ [s.nodePool k]).length + 1 + k = s.capacity
    have := h.count
    rw [length_append, length_singleton]
    omega
  intro m
  by_cases e : m = s.nodePool k
  · rw [e, hnew]
  · exact (hparent m e).2

/-! ## A node that is there -/

lemma of_nodes {nodes : Nat → TrieNode} (hshape : TrieShape nodes s.root spell)
    (hparent : ∀ m, (nodes m).parent = (s.nodes m).parent) : TrieInv { s with nodes } spell :=
  { h with
    toTrieShape := hshape
    global_order := h.global_order.imp fun {a b} hab => by rwa [hparent a] }

lemma touch (hn : spell n = some u) (hc : spell c = some (u ++ [tok])) :
    ∃ nodes, s.touch n c = .ok { s with nodes } ∧ TrieInv { s with nodes } spell ∧
      ∀ m, (nodes m).version = (s.nodes m).version := by
  have hne : c ≠ n := TrieShape.child_ne hn hc
  have hmem : c ∈ (s.nodes n).sortedChildren := (h.mem_sorted hn).mpr ⟨tok, hc⟩
  have hlru : c ∈ (s.nodes n).lru := (h.mem_lru hn).mpr ⟨tok, hc⟩
  set s₁ := (s.countUp n c).insertSorted n c with hs1
  have hcount_n : (s.countUp n c).nodes n =
      { s.nodes n with sortedChildren := (s.nodes n).sortedChildren.erase c } := by
    simp [Trie.countUp, Trie.modifyNode, hne.symm, eraseKey_eq (h.sorted hn) hmem]
  have hcount_c : (s.countUp n c).nodes c = { s.nodes c with freq := (s.nodes c).freq + 1 } := by
    simp [Trie.countUp, Trie.modifyNode, hne]
  have hcount_m : ∀ m ≠ n, m ≠ c → (s.countUp n c).nodes m = s.nodes m := by
    intro m hm hm'
    simp [Trie.countUp, Trie.modifyNode, hm, hm']
  have hs₁n : s₁.nodes n =
      { s.nodes n with
        sortedChildren :=
          ((s.nodes n).sortedChildren.erase c).orderedInsert (CompareByFreq (s.countUp n c).nodes) c } := by
    rw [hs1, Trie.insertSorted, Trie.modifyNode_self, hcount_n]
  have hs₁m : ∀ m ≠ n, s₁.nodes m = (s.countUp n c).nodes m := fun m hm => by
    rw [hs1, Trie.insertSorted, Trie.modifyNode_of_ne _ hm]
  set s₂ := s₁.modifyNode n fun x => { x with lru := c :: (s.nodes n).lru.erase c } with hs2
  have hs₂n : s₂.nodes n =
      { s.nodes n with
        lru := c :: (s.nodes n).lru.erase c
        sortedChildren :=
          ((s.nodes n).sortedChildren.erase c).orderedInsert (CompareByFreq (s.countUp n c).nodes) c } := by
    rw [hs2, Trie.modifyNode_self, hs₁n]
  have hs₂m : ∀ m ≠ n, s₂.nodes m = (s.countUp n c).nodes m := fun m hm => by
    rw [hs2, Trie.modifyNode_of_ne _ hm, hs₁m m hm]
  have hfields : ∀ m, (s₂.nodes m).parent = (s.nodes m).parent ∧ (s₂.nodes m).version = (s.nodes m).version ∧
      ((s.countUp n c).nodes m).freq = (s₂.nodes m).freq ∧ ((s.countUp n c).nodes m).token =
        (s₂.nodes m).token := by
    intro m
    by_cases e : m = n
    · subst e
      rw [hs₂n, hcount_n]
      exact ⟨rfl, rfl, rfl, rfl⟩
    rw [hs₂m m e]
    by_cases e' : m = c
    · subst e'
      rw [hcount_c]
      exact ⟨rfl, rfl, rfl, rfl⟩
    · rw [hcount_m m e e']
      exact ⟨rfl, rfl, rfl, rfl⟩
  refine ⟨s₂.nodes, ?_, h.of_nodes ?_ fun m => (hfields m).1, fun m => (hfields m).2.1⟩
  · rw [Trie.touch]
    have hl : (((s.countUp n c).insertSorted n c).nodes n).lru = (s.nodes n).lru := by
      rw [← hs1, hs₁n]
    simp only [hl, spliceFront, eraseAt, if_pos hlru]
    rfl
  · refine h.toTrieShape.touch hn hc (fun m => (hfields m).2.2) hs₂n ?_ ?_
    · rw [hs₂m c hne, hcount_c]
    grind

/-! ## The walk -/

lemma visit (hn : spell n = some u) (hfree : 0 < s.freeNodeCount) (tok : Int) :
    ∃ c s' spell', s.visit n tok = .ok (c, s') ∧ TrieInv s' spell' ∧
      Grown s spell s' spell' (fun v => v = u ++ [tok]) 1 ∧ spell' c = some (u ++ [tok]) := by
  cases hl : (s.nodes n).child.lookup tok with
  | none =>
    obtain ⟨k, hk⟩ := Nat.exists_eq_succ_of_ne_zero hfree.ne'
    have hnone := (h.lookup_none hn).mp hl
    obtain ⟨hinv, hver⟩ := h.attach hn hnone hk
    have hdead : spell (s.nodePool k) = none := h.pool_dead k (by omega)
    refine ⟨s.nodePool k, _, _, ?_, hinv, ⟨rfl, rfl, rfl, rfl, hver, fun m v hm => ?_, fun m v hm => ?_, ?_⟩,
      update_self ..⟩
    · rw [Trie.visit, hl, Trie.getNode, hk]
      rfl
    · rw [update_of_ne (ne_of_dead hm hdead), hm]
    · by_cases e : m = s.nodePool k
      · rw [e, update_self] at hm
        exact .inr (Option.some.inj hm).symm
      · rw [update_of_ne e] at hm
        exact .inl hm
    · exact hk.le
  | some c =>
    have hc := (h.lookup_iff hn).mp hl
    obtain ⟨nodes, e, hinv, hver⟩ := h.touch hn hc
    refine ⟨c, _, spell, ?_, hinv, ⟨rfl, rfl, rfl, rfl, hver, fun _ _ hm => hm, fun _ _ hm => .inl hm, ?_⟩, hc⟩
    · rw [Trie.visit, hl]
      change (s.touch n c >>= fun s' => pure (c, s')) = _
      rw [e]
      rfl
    · exact Nat.le_succ _

lemma visitAll (hn : spell n = some u) (tokens : List Int)
    (hfree : tokens.length ≤ s.freeNodeCount) :
    ∃ path s' spell', s.visitAll n tokens = .ok (path, s') ∧ TrieInv s' spell' ∧
      Grown s spell s' spell' (fun v => ∃ w, w ≠ [] ∧ w <+: tokens ∧ v = u ++ w) tokens.length ∧
      PathOf spell' u path tokens := by
  induction tokens generalizing s spell n u with
  | nil => exact ⟨[], s, spell, rfl, h, .refl s spell, rfl, by simp⟩
  | cons t ts ih => ?_
  rw [length_cons] at hfree
  obtain ⟨c, s₁, spell₁, e₁, h1, g₁, hc⟩ := h.visit hn (by omega) t
  have hfree1 := g₁.free
  obtain ⟨path, s₂, spell₂, e₂, h2, g₂, hlen, hpath⟩ := ih h1 hc (by omega)
  refine ⟨c :: path, s₂, spell₂, ?_, h2, ?_, ?_, ?_⟩
  · rw [Trie.visitAll, e₁]
    change (s₁.visitAll c ts >>= fun r => pure (c :: r.1, r.2)) = _
    rw [e₂]
    rfl
  · refine (g₁.trans g₂).weaken ?_ ?_
    · grind
    · rw [length_cons]
      omega
  · rw [length_cons, length_cons, hlen]
  intro i c' hi
  cases i with
  | zero =>
    obtain rfl : c = c' := by simpa using hi
    rw [g₂.kept c _ hc]
    simp
  | succ i =>
    grind

/-! ## Eviction -/

lemma last_leaf (hlast : s.globalLru.getLast? = some m) (hm : spell m = some u) :
    (s.nodes m).child = [] := by
  rw [eq_nil_iff_forall_not_mem]
  rintro ⟨t, c⟩ hc
  have hcs := (h.child hm t c).mp hc
  obtain ⟨l, hl⟩ := List.getLast?_eq_some_iff.mp hlast
  have hcm : c ∈ s.globalLru := (h.global_mem c).mpr ⟨_, by simp, hcs⟩
  have hord := h.global_order
  rw [hl] at hcm hord
  rcases mem_append.mp hcm with hcl | hcl
  · have hne := (pairwise_append.mp hord).2.2 c hcl m mem_cons_self
    exact hne (h.inj (h.parent hcs).1 hm)
  · exact TrieShape.child_ne hm hcs (mem_singleton.mp hcl)

lemma evictLast (hne : s.globalLru ≠ []) :
    ∃ s' spell', s.evictLast = .ok s' ∧ TrieInv s' spell' ∧ Aged s spell s' spell' ∧
      (∀ n u, spell' n = some u → spell n = some u) ∧ s'.freeNodeCount = s.freeNodeCount + 1 ∧
      s'.globalLru = s.globalLru.dropLast := by
  obtain ⟨m, hlast⟩ : ∃ m, s.globalLru.getLast? = some m := ⟨_, List.getLast?_eq_some_getLast hne⟩
  obtain ⟨l, hl⟩ := List.getLast?_eq_some_iff.mp hlast
  have hmem : m ∈ s.globalLru := by
    grind
  obtain ⟨v, hv0, hmv⟩ := (h.global_mem m).mp hmem
  obtain ⟨u, t, rfl⟩ := (eq_nil_or_concat' v).resolve_left hv0
  obtain ⟨hp, ht⟩ := h.parent hmv
  set p := (s.nodes m).parent with hpdef
  have hleaf := h.last_leaf hlast hmv
  have hmp : m ≠ p := TrieShape.child_ne hp hmv
  have hlru : m ∈ (s.nodes p).lru := (h.mem_lru hp).mpr ⟨t, hmv⟩
  have hsort : m ∈ (s.nodes p).sortedChildren := (h.mem_sorted hp).mpr ⟨t, hmv⟩
  set nodes' := update
    (update s.nodes p { s.nodes p with
      child := (s.nodes p).child.eraseP fun x => x.1 == t
      lru := (s.nodes p).lru.erase m
      sortedChildren := (s.nodes p).sortedChildren.erase m })
    m { s.nodes m with version := (s.nodes m).version + 1 } with hnodes'
  have hn'p : nodes' p = { s.nodes p with
      child := (s.nodes p).child.eraseP fun x => x.1 == t
      lru := (s.nodes p).lru.erase m
      sortedChildren := (s.nodes p).sortedChildren.erase m } := by
    rw [hnodes', update_of_ne hmp.symm, update_self]
  have hn'm : nodes' m = { s.nodes m with version := (s.nodes m).version + 1 } := by
    rw [hnodes', update_self]
  have hn'o : ∀ x ≠ p, x ≠ m → nodes' x = s.nodes x := by
    grind
  have hshape := h.toTrieShape.remove hp hmv hleaf hn'p hn'm hn'o
  have hfields : ∀ x, (nodes' x).parent = (s.nodes x).parent ∧
      (x ≠ m → (nodes' x).version = (s.nodes x).version) := by
    intro x
    by_cases e : x = p
    · rw [e, hn'p]
      exact ⟨rfl, fun _ => rfl⟩
    by_cases e' : x = m
    · rw [e', hn'm]
      exact ⟨rfl, fun hx => absurd rfl hx⟩
    · rw [hn'o x e e']
      exact ⟨rfl, fun _ => rfl⟩
  have hdrop : s.globalLru.dropLast = l := by rw [hl, dropLast_concat]
  have hnd := h.global_nodup
  rw [hl, nodup_append] at hnd
  have hml : m ∉ l := fun hm => hnd.2.2 m hm m mem_cons_self rfl
  have hupd : ∀ {x w}, update spell m none x = some w ↔ x ≠ m ∧ spell x = some w := by
    grind
  refine ⟨{ s with
      nodes := nodes'
      globalLru := l
      nodePool := update s.nodePool s.freeNodeCount m
      freeNodeCount := s.freeNodeCount + 1 }, update spell m none, ?_, ?_, ?_, ?_, rfl, hdrop.symm⟩
  · rw [Trie.evictLast, hlast]
    simp only [hleaf, isEmpty_nil, if_true, ← hpdef, eraseAt, if_pos hlru, hdrop]
    have hkey := eraseKey_eq (h.sorted hp) hsort
    simp only [Trie.modifyNode, bind, Except.bind, pure, Except.pure, hkey, ht, update_of_ne hmp, hnodes']
  · refine ⟨hshape, hnd.1, fun x => ?_, ?_, fun hx => h.lt_capacity (hupd.mp hx).2, ?_, ?_, ?_, ?_, ?_⟩
    · have hx := h.global_mem x
      rw [hl, mem_append, mem_singleton] at hx
      constructor
      · intro hxl
        obtain ⟨w, hw, hxw⟩ := hx.mp (.inl hxl)
        exact ⟨w, hw, hupd.mpr ⟨fun e => hml (e ▸ hxl), hxw⟩⟩
      · rintro ⟨w, hw, hxw⟩
        obtain ⟨hxm, hxs⟩ := hupd.mp hxw
        exact (hx.mpr ⟨w, hw, hxs⟩).resolve_right hxm
    · have hord := h.global_order
      rw [hl] at hord
      refine (pairwise_append.mp hord).1.imp fun {a b} hab => ?_
      rwa [(hfields a).1]
    · intro i hi
      change update s.nodePool s.freeNodeCount m i < s.capacity
      by_cases e : i = s.freeNodeCount
      · rw [e, update_self]
        exact h.lt_capacity hmv
      · rw [update_of_ne e]
        exact h.pool_lt i (by have : i < s.freeNodeCount + 1 := hi; omega)
    · intro i hi j hj
      change update s.nodePool s.freeNodeCount m i = update s.nodePool s.freeNodeCount m j → i = j
      have hi' : i < s.freeNodeCount + 1 := hi
      have hj' : j < s.freeNodeCount + 1 := hj
      have hlive : ∀ i < s.freeNodeCount, s.nodePool i ≠ m := fun i hi e =>
        ne_of_dead hmv (h.pool_dead i hi) e.symm
      by_cases ei : i = s.freeNodeCount <;> by_cases ej : j = s.freeNodeCount
      · exact fun _ => ei.trans ej.symm
      · rw [ei, update_self, update_of_ne ej]
        exact fun e => absurd e.symm (hlive j (by omega))
      · rw [ej, update_self, update_of_ne ei]
        exact fun e => absurd e (hlive i (by omega))
      · rw [update_of_ne ei, update_of_ne ej]
        exact h.pool_inj i (by omega) j (by omega)
    · intro i hi
      have hi' : i < s.freeNodeCount + 1 := hi
      change update spell m none (update s.nodePool s.freeNodeCount m i) = none
      by_cases e : i = s.freeNodeCount
      · rw [e, update_self, update_self]
      · rw [update_of_ne e]
        have hd := h.pool_dead i (by omega)
        rw [update_of_ne (ne_of_dead hmv hd).symm, hd]
    · intro x hx hxd
      by_cases e : x = m
      · refine ⟨s.freeNodeCount, Nat.lt_succ_self _, ?_⟩
        rw [e]
        exact update_self ..
      rw [update_of_ne e] at hxd
      obtain ⟨i, hi, hix⟩ := h.pool_cover x hx hxd
      refine ⟨i, Nat.lt_succ_of_lt hi, ?_⟩
      change update s.nodePool s.freeNodeCount m i = x
      rw [update_of_ne (by omega), hix]
    have hc := h.count
    rw [hl, length_append, length_singleton] at hc
    change l.length + 1 + (s.freeNodeCount + 1) = s.capacity
    omega
  · refine ⟨rfl, rfl, rfl, rfl, fun x => ?_, fun x w e hx => hupd.mpr ⟨?_, hx⟩⟩
    · change (s.nodes x).version ≤ (nodes' x).version
      by_cases e : x = m
      · rw [e, hn'm]
        exact Nat.le_succ _
      · rw [(hfields x).2 e]
    rintro rfl
    change (nodes' x).version = _ at e
    rw [hn'm] at e
    exact absurd e (Nat.succ_ne_self _)
  · exact fun x w hx => (hupd.mp hx).2

lemma evictMany (count : Nat) (hcount : count ≤ s.globalLru.length) :
    ∃ s' spell', Trie.evictMany count s = .ok s' ∧ TrieInv s' spell' ∧ Aged s spell s' spell' ∧
      (∀ n u, spell' n = some u → spell n = some u) ∧ s'.freeNodeCount = s.freeNodeCount + count := by
  induction count generalizing s spell with
  | zero => exact ⟨s, spell, rfl, h, .refl s spell, fun _ _ hn => hn, rfl⟩
  | succ count ih => ?_
  have hne : s.globalLru ≠ [] := by
    grind
  obtain ⟨s₁, spell₁, e₁, h1, a₁, b₁, f₁, g₁⟩ := h.evictLast hne
  have hlen : count ≤ s₁.globalLru.length := by
    rw [g₁, length_dropLast]
    omega
  obtain ⟨s₂, spell₂, e₂, h2, a₂, b₂, f₂⟩ := ih h1 hlen
  refine ⟨s₂, spell₂, ?_, h2, a₁.trans a₂, fun n u hn => b₁ n u (b₂ n u hn), by omega⟩
  rw [Trie.evictMany, e₁]
  exact e₂

lemma squeeze (count : Nat) (hcount : count ≤ s.globalLru.length) :
    ∃ s' spell', s.squeeze count = .ok s' ∧ TrieInv s' spell' ∧ Aged s spell s' spell' ∧
      (∀ n u, spell' n = some u → spell n = some u) ∧ s'.freeNodeCount = s.freeNodeCount + count := by
  have := h.count
  rw [Trie.squeeze, if_pos (by omega)]
  exact h.evictMany count hcount

lemma evictMany_too_many (count : Nat) (hcount : s.globalLru.length < count) :
    Trie.evictMany count s = .error .emptyList := by
  induction count generalizing s spell with
  | zero => exact absurd hcount (Nat.not_lt_zero _)
  | succ count ih => ?_
  rw [Trie.evictMany]
  by_cases hne : s.globalLru = []
  · rw [Trie.evictLast, hne]
    rfl
  obtain ⟨s₁, spell₁, e₁, h1, -, -, -, g₁⟩ := h.evictLast hne
  have hlen : s₁.globalLru.length < count := by
    rw [g₁, length_dropLast]
    have := length_pos_iff.mpr hne
    omega
  rw [e₁]
  exact ih h1 hlen

lemma le_of_squeeze {count : Nat} (e : s.squeeze count = .ok s') : count ≤ s.globalLru.length := by
  by_contra hlt
  rw [Trie.squeeze, h.evictMany_too_many count (not_le.mp hlt)] at e
  split at e <;> cases e

/-! ## The path goes to the front -/

omit h in
lemma PathOf.pairwise {path : List Nat} (hp : PathOf spell u path tokens) :
    path.Pairwise fun a b => ∃ v w, spell a = some v ∧ spell b = some w ∧ v.length < w.length := by
  obtain ⟨hlen, hat⟩ := hp
  rw [pairwise_iff_getElem]
  intro i j hi hj hij
  refine ⟨_, _, hat i _ (List.getElem?_eq_getElem hi), hat j _ (List.getElem?_eq_getElem hj), ?_⟩
  grind

lemma freshen {path : List Nat} (hp : PathOf spell [] path tokens) :
    ∃ globalLru, s.freshen path = .ok { s with globalLru } ∧ TrieInv { s with globalLru } spell := by
  have hpw := PathOf.pairwise hp
  obtain ⟨hlen, hat⟩ := hp
  have hnd : path.Nodup := hpw.imp fun {a b} ⟨v, w, ha, hb, hlt⟩ e => by
    grind
  have hlive : ∀ n ∈ path, n ∈ s.globalLru := by
    intro n hn
    obtain ⟨i, hi⟩ := mem_iff_getElem?.mp hn
    have hlt : i < path.length := (List.getElem?_eq_some_iff.mp hi).1
    refine (h.global_mem n).mpr ⟨_, ?_, hat i n hi⟩
    intro e
    have := congrArg List.length e
    grind
  have heq := foldlM_spliceFront hnd h.global_nodup hlive
  refine ⟨path ++ s.globalLru.filter fun n => decide (n ∉ path), ?_, ?_⟩
  · rw [Trie.freshen, heq]
    rfl
  have hmem : ∀ n, n ∈ path ++ s.globalLru.filter (fun n => decide (n ∉ path)) ↔ n ∈ s.globalLru := by
    intro n
    rw [mem_append, mem_filter, decide_eq_true_eq]
    by_cases hn : n ∈ path
    · exact ⟨fun _ => hlive n hn, fun _ => .inl hn⟩
    · exact ⟨fun x => (x.resolve_left hn).1, fun x => .inr ⟨x, hn⟩⟩
  have hnd' : (path ++ s.globalLru.filter fun n => decide (n ∉ path)).Nodup := by
    refine nodup_append.mpr ⟨hnd, h.global_nodup.filter _, fun a ha b hb e => ?_⟩
    grind
  refine { h with global_nodup := hnd', global_mem := fun n => (hmem n).trans (h.global_mem n), global_order := ?_,
                  count := ?_ }
  · refine pairwise_append.mpr ⟨hpw.imp_of_mem ?_, h.global_order.filter _, fun a ha b hb => ?_⟩
    · -- the parent of a node of the path is shorter than the later ones
      rintro a b ha hb ⟨v, w, hav, hbw, hlt⟩ e
      obtain ⟨x, hx, hax⟩ := (h.global_mem a).mp (hlive a ha)
      obtain ⟨v', t, rfl⟩ := (eq_nil_or_concat' x).resolve_left hx
      have hpar := (h.parent hax).1
      grind
    rw [mem_filter, decide_eq_true_eq] at hb
    obtain ⟨i, hi⟩ := mem_iff_getElem?.mp ha
    have hilt : i < path.length := (List.getElem?_eq_some_iff.mp hi).1
    have hai := hat i a hi
    rw [nil_append, ← take_append_getElem (by omega : i < tokens.length)] at hai
    have hpar := (h.parent hai).1
    rintro rfl
    rcases i with _ | i
    · obtain ⟨x, hx, hbx⟩ := (h.global_mem _).mp hb.1
      grind
    have hprev : path[i]? = some path[i] := List.getElem?_eq_getElem (by omega)
    have hpi := hat i _ hprev
    rw [h.inj hpar hpi] at hb
    exact hb.2 (getElem_mem _)
  have hperm := (perm_ext_iff_of_nodup hnd' h.global_nodup).mpr hmem
  have := hperm.length_eq
  have hc := h.count
  simp only at this ⊢
  omega

/-! ## Insertion -/

lemma makeRoom (hlen : len < s.capacity) :
    ∃ s' spell', s.makeRoom len = .ok s' ∧ TrieInv s' spell' ∧ Aged s spell s' spell' ∧
      (∀ n u, spell' n = some u → spell n = some u) ∧ len ≤ s'.freeNodeCount := by
  unfold Trie.makeRoom
  by_cases hf : s.freeNodeCount < len
  · have hcount := h.count
    obtain ⟨s₁, spell₁, e₁, h1, a₁, b₁, f₁⟩ := h.squeeze (len - s.freeNodeCount) (by omega)
    grind
  · exact ⟨s, spell, if_neg hf, h, .refl s spell, fun _ _ hn => hn, by omega⟩

lemma insertPath (tokens : List Int) (hlen : tokens.length < s.capacity) :
    ∃ s' spell', s.insertPath tokens = .ok s' ∧ TrieInv s' spell' ∧ Aged s spell s' spell' ∧
      ∀ n u, spell' n = some u → spell n = some u ∨ u <+: tokens := by
  obtain ⟨s₁, spell₁, e₁, h1, a₁, b₁, f₁⟩ := h.makeRoom hlen
  obtain ⟨path, s₂, spell₂, e₂, h2, g₂, hpath⟩ := h1.visitAll h1.root tokens f₁
  obtain ⟨globalLru, e₃, h3⟩ := h2.freshen hpath
  refine ⟨_, spell₂, ?_, h3, a₁.trans { g₂.aged with }, fun n u hn => ?_⟩
  · unfold Trie.insertPath
    rw [e₁]
    change (s₁.visitAll s₁.root tokens >>= fun r => r.2.freshen r.1) = _
    rw [e₂]
    exact e₃
  · rcases g₂.back n u hn with hn' | ⟨w, -, hw, rfl⟩
    · exact .inl (b₁ n u hn')
    · exact .inr hw

lemma lt_of_makeRoom (e : s.makeRoom len = .ok s') : len < s.capacity := by
  by_contra hle
  have hcount := h.count
  rw [Trie.makeRoom, if_pos (by omega)] at e
  have := h.le_of_squeeze e
  omega

lemma insertPath_ok (e : s.insertPath tokens = .ok s') :
    ∃ spell', TrieInv s' spell' ∧ Aged s spell s' spell' ∧
      ∀ n u, spell' n = some u → spell n = some u ∨ u <+: tokens := by
  have hlen : tokens.length < s.capacity := by
    unfold Trie.insertPath at e
    cases hm : s.makeRoom tokens.length with
    | error err =>
      rw [hm] at e
      cases e
    | ok s₁ => exact h.lt_of_makeRoom hm
  obtain ⟨s₁, spell₁, e₁, hinv, ha, hb⟩ := h.insertPath tokens hlen
  grind

lemma insert_ok (e : s.insert tokens = .ok s') : ∃ spell', TrieInv s' spell' ∧ Aged s spell s' spell' ∧
      ∀ n u, spell' n = some u → spell n = some u ∨ u <:+: tokens := by
  induction tokens generalizing s spell with
  | nil =>
    obtain rfl := Except.ok.inj e
    exact ⟨spell, h, .refl s spell, fun _ _ hn => .inl hn⟩
  | cons t ts ih => ?_
  rw [Trie.insert] at e
  rcases hp : s.insertPath ((t :: ts).take s.maxTrieDepth) with err | s₁
  · rw [hp] at e
    cases e
  rw [hp] at e
  obtain ⟨spell₁, h1, a₁, b₁⟩ := h.insertPath_ok hp
  obtain ⟨spell₂, h2, a₂, b₂⟩ := ih h1 e
  refine ⟨spell₂, h2, a₁.trans a₂, fun n u hn => ?_⟩
  rcases b₂ n u hn with hn' | hi
  · grind
  · exact .inr (hi.trans (suffix_cons ..).isInfix)

lemma insert (tokens : List Int) (hcap : s.maxTrieDepth < s.capacity) :
    ∃ s', s.insert tokens = .ok s' := by
  induction tokens generalizing s spell with
  | nil => exact ⟨s, rfl⟩
  | cons t ts ih => ?_
  have hlen : ((t :: ts).take s.maxTrieDepth).length < s.capacity := by
    rw [length_take]
    omega
  obtain ⟨s₁, spell₁, e₁, h1, a₁, -⟩ := h.insertPath _ hlen
  obtain ⟨s₂, e₂⟩ := ih h1 (by rwa [a₁.maxTrieDepth, a₁.capacity])
  refine ⟨s₂, ?_⟩
  rw [Trie.insert, e₁]
  exact e₂
end TrieInv

/-! ## A trie with nothing in it -/

lemma TrieInv.cleared (hk : s.capacity = k + 1) (hg : s.globalLru = []) (hp : s.nodePool = id)
    (hf : s.freeNodeCount = s.capacity) :
    ∃ s', s.getNode = .ok (k, s') ∧
      TrieInv { s' with root := k } (update (fun _ => none) k (some [])) ∧
      s'.trieEpoch = s.trieEpoch ∧ s'.capacity = s.capacity ∧ s'.maxTrieDepth = s.maxTrieDepth := by
  have hpk : s.nodePool k = k := by rw [hp]; rfl
  refine ⟨{ s with freeNodeCount := k : Trie }.modifyNode k fun x => { version := x.version }, ?_, ?_, rfl, rfl, rfl⟩
  · unfold Trie.getNode
    grind
  have hroot : ({ s with freeNodeCount := k : Trie }.modifyNode k fun x => { version := x.version }).nodes k =
      { version := (s.nodes k).version } := Trie.modifyNode_self _
  have honly : ∀ {n u}, update (fun _ => none) k (some ([] : List Int)) n = some u ↔ n = k ∧ u = [] := by
    grind
  refine ⟨⟨honly.mpr ⟨rfl, rfl⟩, ?_, ?_, ?_, ?_, ?_, ?_, ?_⟩, ?_, ?_, ?_, ?_, ?_, ?_, ?_, ?_, ?_⟩
  · grind
  · intro c u t hc
    exact absurd (honly.mp hc).2 (by simp)
  · intro a u ha t c
    obtain ⟨rfl, rfl⟩ := honly.mp ha
    rw [hroot, honly]
    simp
  · intro a u ha
    obtain ⟨rfl, rfl⟩ := honly.mp ha
    rw [hroot]
    exact nodup_nil
  iterate 3
    · intro a u ha
      obtain ⟨rfl, rfl⟩ := honly.mp ha
      rw [hroot]
      exact .nil
  · rw [hg]
    exact nodup_nil
  · intro n
    rw [hg]
    refine ⟨nofun, ?_⟩
    rintro ⟨u, hu, hn⟩
    exact absurd (honly.mp hn).2 hu
  · rw [hg]
    exact .nil
  · intro n u hn
    change n < s.capacity
    have := (honly.mp hn).1
    omega
  · intro i (hi : i < k)
    rw [hp, hk]
    exact Nat.lt_succ_of_lt hi
  · intro i _ j _ e
    rwa [hp] at e
  · intro i (hi : i < k)
    rw [hp, update_of_ne]
    exact ne_of_lt hi
  · intro n (hn : n < s.capacity) hdead
    refine ⟨n, ?_, by change s.nodePool n = n; rw [hp]; rfl⟩
    change n < k
    have : n ≠ k := by
      rintro rfl
      rw [update_self] at hdead
      cases hdead
    omega
  · change s.globalLru.length + 1 + k = s.capacity
    rw [hg, length_nil]
    omega

lemma Trie.init_spec {capacity : Nat} (maxTrieDepth : Nat) (hcap : 0 < capacity) :
    ∃ s, Trie.init capacity maxTrieDepth = .ok s ∧
      (∃ k, TrieInv s (update (fun _ => none) k (some []))) ∧ s.trieEpoch = 1 ∧
      s.capacity = capacity ∧ s.maxTrieDepth = maxTrieDepth := by
  obtain ⟨k, rfl⟩ := Nat.exists_eq_succ_of_ne_zero hcap.ne'
  obtain ⟨s', e, hinv, he, hc, hd⟩ := TrieInv.cleared
    (s := { capacity := k.succ, maxTrieDepth, freeNodeCount := k.succ }) rfl rfl rfl rfl
  refine ⟨{ s' with root := k }, ?_, ⟨k, hinv⟩, he, hc, hd⟩
  rw [Trie.init, e]
  rfl

lemma TrieInv.reset (h : TrieInv s spell) :
    ∃ s', s.reset = .ok s' ∧ (∃ k, TrieInv s' (update (fun _ => none) k (some []))) ∧
      s'.trieEpoch = s.trieEpoch + 1 ∧ s'.capacity = s.capacity ∧ s'.maxTrieDepth = s.maxTrieDepth := by
  have hcap : 0 < s.capacity := by
    have := h.count
    omega
  obtain ⟨k, hk⟩ := Nat.exists_eq_succ_of_ne_zero hcap.ne'
  obtain ⟨s', e, hinv, he, hc, hd⟩ := TrieInv.cleared
    (s := { s with trieEpoch := s.trieEpoch + 1, globalLru := [], nodePool := id, freeNodeCount := s.capacity })
    hk rfl rfl rfl
  refine ⟨{ s' with root := k }, ?_, ⟨k, hinv⟩, he, hc, hd⟩
  rw [Trie.reset, e]
  rfl
end Sglang.Ngram
