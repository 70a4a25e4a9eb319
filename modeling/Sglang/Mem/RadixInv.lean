import Sglang.Lib.Run
import Sglang.Mem.RadixLocks

/-!
# The invariant of the radix cache

`Inv` holds of an empty cache and every call keeps it, whatever locks are held: the tree is well
formed, its counters are right and the lock counts are those of the held locks.
-/

namespace Sglang
open List PathTree

namespace RadixCache
/-! ## Eviction

`evict` deletes unlocked leaves, in the order of a heap, until it has freed as many slots as asked
for or nothing evictable is left.
-/

section
inductive Evicts (c : RadixCache) : List TreeNode → RadixCache → Prop
  | nil : Evicts c [] c
  | snoc {ns : List TreeNode} {c' : RadixCache} {n : TreeNode} :
      Evicts c ns c' → Deletes c' n → Evicts c (ns ++ [n]) (c'.removeLeaf n)

variable {c c' : RadixCache} {n m x : TreeNode} {ns : List TreeNode} {q : NodePath}
  {held : List NodePath} {pick : Nat → Nat} {want : Nat}

namespace Evicts
variable (he : Evicts c ns c')
include he

variable (h : WellFormed c)
include h

lemma wellFormed : WellFormed c' := by
  induction he with
  | nil => exact h
  | snoc _ hd ih => exact hd.wellFormed ih

lemma counted (hcnt : Counted c) : Counted c' := by
  induction he with
  | nil => exact hcnt
  | snoc he hd ih => exact hd.counted (he.wellFormed h) ih

omit h

lemma locks (hl : Locks c held) : Locks c' held := by
  induction he with
  | nil => exact hl
  | snoc _ hd ih => exact ih.removeLeaf hd

lemma sameConfig : SameConfig c c' := by
  induction he with
  | nil => exact .refl c
  | snoc _ _ ih => exact ⟨ih.1, ih.2, ih.3, ih.4⟩

lemma nodes_perm (h : WellFormed c) : c.nodes.Perm (ns ++ c'.nodes) := by
  induction he with
  | nil => exact .refl _
  | snoc he hd ih =>
    refine ih.trans ?_
    rw [append_assoc, singleton_append]
    exact (Keyed.perm_cons_remove (he.wellFormed h).valid.path_nodup hd.mem).append_left _

lemma off_path {l : NodePath} (hl : Locks c held) (hm : l ∈ held) (hn : n ∈ ns) : ¬ path n <+: l := by
  induction he with
  | nil => cases hn
  | snoc he hd ih =>
    rcases mem_append.mp hn with hn | hn
    · exact ih hn
    · rw [mem_singleton.mp hn]
      exact (he.locks hl).off_path hd hm

include h

lemma entry_eq_or (hd : c.pageSize ∣ q.length) : c'.entry q = c.entry q ∨ c'.entry q = none := by
  induction he with
  | nil => exact .inl rfl
  | snoc he hdel ih =>
    have hd' := he.sameConfig.pageSize ▸ hd
    have hrem := pageAt_remove TreeNode.value (he.wellFormed h).valid hdel.mem hd'
    split at hrem
    · exact .inr hrem
    · exact ih.imp hrem.trans hrem.trans

lemma entry_eq {l : NodePath} (hl : Locks c held)
    (hm : l ∈ held) (hd : c.pageSize ∣ q.length) (hql : q <+: l) : c'.entry q = c.entry q := by
  induction he with
  | nil => rfl
  | snoc he hdel ih => ?_
  have hd' := he.sameConfig.pageSize ▸ hd
  have hwf := he.wellFormed h
  have hlocks := he.locks hl
  have hcov : ¬ Covers _ q := fun hcov => by
    rcases hlocks.hasPath l hm with rfl | ⟨k, hk, rfl⟩
    · have := hcov.1
      rw [prefix_nil.mp hql] at this
      cases this
    · exact hlocks.off_path hdel hm
        (hwf.valid.path_prefix_of_covers hk hdel.mem hd' hcov hql)
  rw [← ih]
  exact (pageAt_remove _ hwf.valid hdel.mem hd').trans (if_neg hcov)

lemma slots_eq {l : NodePath} (hl : Locks c held) (hm : l ∈ held) : c'.slots l = c.slots l :=
  slots_congr he.sameConfig.pageSize fun _ hq' _ hd => he.entry_eq h hl hm hd hq'
end Evicts

/-! ## The loop -/

structure EvictInv (c : RadixCache) (e : Eviction) : Prop where
  evicts : Evicts c e.freed.reverse e.cache
  heap : ∀ q, q ∈ e.heap ↔ q ∈ e.cache.evictableLeaves
  nodup : e.heap.Nodup
  numEvicted : e.numEvicted = (e.freed.map fun n => n.value.length).sum

lemma evictOne_spec {e : Eviction} (h : WellFormed c) (hcnt : Counted c) (hi : EvictInv c e)
    {i : Nat} (hq : e.heap[i]? = some q) :
    ∃ e', evictOne e q (e.heap.eraseIdx i) = .ok e' ∧ EvictInv c e' ∧
      e'.cache.nodes.length < e.cache.nodes.length := by
  have hwf := hi.evicts.wellFormed h
  have hcnt' := hi.evicts.counted h hcnt
  have hmem : q ∈ e.heap := mem_of_getElem? hq
  obtain ⟨x, hx, rfl, hlock, hleaf⟩ := (hcnt'.leaves q not_mem_nil).mp ((hi.heap q).mp hmem)
  have hd : Deletes e.cache x := ⟨hx, hlock, hleaf⟩
  have hwf' := hd.wellFormed hwf
  have hcnt'' := hd.counted hwf hcnt'
  have hperm := Keyed.perm_cons_remove hwf.valid.path_nodup hx
  have herase : e.heap.Perm (path x :: e.heap.eraseIdx i) := by
    obtain ⟨hlt, hget⟩ := List.getElem?_eq_some_iff.mp hq
    exact hget ▸ (getElem_cons_eraseIdx_perm hlt).symm
  have hnodup := nodup_cons.mp (herase.nodup_iff.mp hi.nodup)
  have hparent : x.parent ∉ e.heap := fun hp => by
    obtain ⟨_, _, _, _, hno⟩ := (hcnt'.leaves _ not_mem_nil).mp ((hi.heap _).mp hp)
    exact hno x hx rfl
  have hpush : (e.cache.removeLeaf x).EvictableLeaf x.parent ↔
      ((e.cache.removeLeaf x).hasNoChild x.parent &&
        decide ((e.cache.removeLeaf x).lockRef x.parent = 0)) = true := by
    rw [evictableLeaf_iff hwf' (hd.hasPath_parent hwf), Bool.and_eq_true, decide_eq_true_eq]
  rw [evictOne, hwf.node?_eq_some.mpr ⟨hx, rfl⟩]
  dsimp only
  rw [deleteLeaf_eq hwf hx]
  refine ⟨_, rfl, ⟨?_, ?_, ?_, ?_⟩, ?_⟩
  · rw [reverse_cons]
    exact hi.evicts.snoc hd
  · intro q'
    by_cases he : q' = x.parent
    · subst he
      have hnot : x.parent ∉ e.heap.eraseIdx i := fun hm =>
        hparent (herase.mem_iff.mpr (mem_cons_of_mem _ hm))
      rw [hcnt''.leaves _ not_mem_nil, hpush]
      split <;> simp_all
    have hold : q' ∈ (e.cache.removeLeaf x).evictableLeaves ↔
        q' ∈ e.cache.evictableLeaves ∧ q' ≠ path x := by
      rw [removeLeaf, mem_updateLeafStatus_of_ne he, mem_filter, decide_eq_true_eq]
    have hrest : q' ∈ e.heap.eraseIdx i ↔ q' ∈ e.heap ∧ q' ≠ path x := by
      grind
    rw [hold, ← hi.heap, ← hrest]
    split
    · simp [he]
    · rfl
  · grind
  · rw [map_cons, sum_cons, hi.numEvicted, add_comm]
  · rw [nodes_removeLeaf, hperm.length_eq, length_cons]
    exact Nat.lt_succ_self _

lemma evictLoop_spec {fuel : Nat} {e : Eviction} (pick : Nat → Nat) (want : Nat)
    (h : WellFormed c) (hcnt : Counted c) (hi : EvictInv c e) (hfuel : e.cache.nodes.length ≤ fuel) :
    ∃ e', evictLoop pick want fuel e = .ok e' ∧ EvictInv c e' ∧
      (want ≤ e'.numEvicted ∨ e'.cache.evictableLeaves = []) := by
  induction fuel generalizing e with
  | zero =>
    refine ⟨e, rfl, hi, .inr (eq_nil_iff_forall_not_mem.mpr fun q hq => ?_)⟩
    obtain ⟨n, hn, -⟩ := ((hi.evicts.counted h hcnt).leaves q not_mem_nil).mp hq
    grind
  | succ fuel ih => ?_
  rw [evictLoop]
  by_cases hlt : e.numEvicted < want
  · rw [if_pos hlt]
    rcases hq : e.heap[pick fuel % e.heap.length]? with _ | q
    · refine ⟨e, rfl, hi, .inr (eq_nil_iff_forall_not_mem.mpr fun q hm => ?_)⟩
      have hne : 0 < e.heap.length := length_pos_of_mem ((hi.heap q).mpr hm)
      exact absurd (Nat.mod_lt (pick fuel) hne) (by
        rw [getElem?_eq_none_iff] at hq
        omega)
    obtain ⟨e₁, hone, hi1, hshort⟩ := evictOne_spec h hcnt hi hq
    simp only [hone, bind, Except.bind]
    exact ih hi1 (by omega)
  grind

/-- `evict` never fails. It deletes unlocked leaves until enough slots are freed or no evictable
leaf is left. -/
lemma evict_spec (h : WellFormed c) (hcnt : Counted c) (hen : c.disable = false)
    (pick : Nat → Nat) (want : Nat) :
    ∃ ns c', c.evict pick want = .ok (ns, c') ∧ Evicts c ns c' ∧
      (want ≤ (ns.map fun n => n.value.length).sum ∨ c'.evictableLeaves = []) := by
  have hstart : EvictInv c { cache := c, heap := c.evictableLeaves } :=
    ⟨.nil, fun _ => .rfl, hcnt.nodup, rfl⟩
  obtain ⟨e, hrun, hi, hend⟩ :=
    evictLoop_spec pick want h hcnt hstart le_rfl
  refine ⟨e.freed.reverse, e.cache, ?_, hi.evicts, ?_⟩
  · rw [evict, if_neg (by simp [hen])]
    simp only [hrun, bind, Except.bind, pure, Except.pure]
  · rwa [map_reverse, sum_reverse, ← hi.numEvicted]

lemma evict_disabled (hdis : c.disable = true) : c.evict pick want = .ok ([], c) := by
  simp [evict, hdis]

/-! ## When nothing is evictable -/

lemma no_unlocked (h : WellFormed c) (hcnt : Counted c) (hl : Locks c held)
    (hnone : c.evictableLeaves = []) (hn : n ∈ c.nodes) : n.lockRef ≠ 0 := by
  obtain ⟨bound, hbound⟩ : ∃ b, ∀ m ∈ c.nodes, (path m).length ≤ b :=
    ⟨(c.nodes.map fun m => (path m).length).sum, fun m hm =>
      single_le_sum (fun _ _ => zero_le) _ (mem_map_of_mem hm)⟩
  induction hk : bound - (path n).length using Nat.strong_induction_on generalizing n with
  | _ k ih =>
    intro hlock
    by_cases hleaf : IsLeaf c.nodes (path n)
    · have := (hcnt.leaves (path n) not_mem_nil).mpr ⟨n, hn, rfl, hlock, hleaf⟩
      rw [hnone] at this
      cases this
    simp only [IsLeaf, not_forall, not_not] at hleaf
    obtain ⟨m, hm, hpar⟩ := hleaf
    have hlong := h.valid.length_parent_lt hm
    have hle := hl.mono hn hm (hpar ▸ parent_prefix_path m)
    have h0 := hcnt.nonneg m hm
    grind

lemma evictableSize_eq_zero (h : WellFormed c) (hcnt : Counted c) (hl : Locks c held)
    (hnone : c.evictableLeaves = []) : c.evictableSize = 0 := by
  rw [hcnt.evictableSize]
  refine sum_eq_zero fun x hx => ?_
  obtain ⟨n, hn, rfl⟩ := mem_map.mp hx
  rw [TreeNode.unlockedLen, if_neg (no_unlocked h hcnt hl hnone hn)]
end

/-! ## The invariant -/

structure Inv (c : RadixCache) (held : List NodePath) : Prop where
  wellFormed : WellFormed c
  counted : Counted c
  locks : Locks c held
  disabled : c.disable = true → c.nodes = []

def reset (c : RadixCache) : RadixCache :=
  { c with nodes := [], evictableSize := 0, protectedSize := 0, evictableLeaves := [] }

variable {c c' : RadixCache} {key : RadixKey} {q : NodePath} {held : List NodePath}

lemma Inv.reset (hp : 0 < c.pageSize) : Inv c.reset [] where
  wellFormed := ⟨hp, valid_nil, nofun,
    nofun⟩
  counted := ⟨nofun, rfl, rfl, fun _ _ =>
    ⟨nofun, fun ⟨_, hn, _⟩ => absurd hn not_mem_nil⟩,
    nodup_nil⟩
  locks := .nil rfl
  disabled _ := rfl

lemma Walked.disabled {d : Int} (hw : Walked d q c c') (hi : Inv c held) :
    c'.disable = true → c'.nodes = [] := fun hdis => by
  rw [hw.nodes, hi.disabled (hw.sameConfig.disable ▸ hdis), map_nil]

/-! ## The calls -/

/-- What a call that only reads or cuts the tree keeps of it. -/
structure Keeps (c c' : RadixCache) (held : List NodePath) : Prop where
  inv : Inv c' held
  sameConfig : SameConfig c c'
  slots : ∀ l ∈ held, c'.slots l = c.slots l

variable (hi : Inv c held)
include hi

lemma Inv.perm {held' : List NodePath} (hp : held.Perm held') : Inv c held' :=
  ⟨hi.wellFormed, hi.counted, hi.locks.perm hp, hi.disabled⟩

lemma Inv.eq_nil_of_disabled (hdis : c.disable = true) (hq : c.HasPath q) : q = [] := by
  refine hq.resolve_right fun ⟨n, hn, _⟩ => ?_
  rw [hi.disabled hdis] at hn
  cases hn

lemma Inv.splits (hs : Splits c c') : Inv c' held where
  wellFormed := hs.wellFormed hi.wellFormed
  counted := hs.counted hi.wellFormed hi.counted
  locks := hi.locks.splits hi.wellFormed hs
  disabled hdis := by
    have hnil := hi.disabled (hs.sameConfig.disable ▸ hdis)
    rcases hs with _ | ⟨hc, _⟩
    · exact hnil
    have := hc.mem
    rw [hnil] at this
    cases this

lemma Inv.addLeaf {leaf : TreeNode} (hen : c.disable = false)
    (hl : NewLeaf c leaf) : Inv (c.addLeaf leaf) held where
  wellFormed := hl.wellFormed hi.wellFormed
  counted := hl.counted hi.wellFormed hi.counted
  locks := hi.locks.addLeaf hi.wellFormed hl
  disabled hdis := by
    rw [show (c.addLeaf leaf).disable = c.disable from rfl, hen] at hdis
    cases hdis

omit hi

variable {K : List Cell} {V : List Nat}
variable (hins : Inserted c K V q c')
include hins

lemma Inserted.sameConfig : SameConfig c c' := by
  cases hins with
  | stored hs => exact hs.sameConfig
  | added hs => exact hs.sameConfig.trans ⟨rfl, rfl, rfl, rfl⟩

lemma Inserted.hasPath : c'.HasPath K := by
  cases hins with
  | stored _ hq he => exact he ▸ hq
  | added _ _ _ hpath _ => exact .inr ⟨_, mem_cons_self, hpath⟩

lemma Inserted.slots_eq {l : NodePath} (h : WellFormed c) (hl : c.HasPath l) :
    c'.slots l = c.slots l := by
  cases hins with
  | stored hs => exact hs.slots_eq h
  | added hs hleaf =>
    rw [hleaf.slots_eq (hs.wellFormed h) (hs.hasPath hl), hs.slots_eq h]

omit hins
include hi

lemma Inv.inserted (hen : c.disable = false) (hins : Inserted c K V q c') : Inv c' held := by
  cases hins with
  | stored hs => exact hi.splits hs
  | added hs hleaf => exact (hi.splits hs).addLeaf (hs.sameConfig.disable ▸ hen) hleaf

lemma Inv.evicts {ns : List TreeNode} (he : Evicts c ns c') : Inv c' held where
  wellFormed := he.wellFormed hi.wellFormed
  counted := he.counted hi.wellFormed hi.counted
  locks := he.locks hi.locks
  disabled hdis := by
    have hperm := he.nodes_perm hi.wellFormed
    rw [hi.disabled (he.sameConfig.disable ▸ hdis), nil_perm, append_eq_nil_iff] at hperm
    exact hperm.2

lemma Inv.matchPrefix (key : RadixKey) :
    ∃ r c', c.matchPrefix key = .ok (r, c') ∧ Keeps c c' held ∧ c'.HasPath r.lastNode := by
  cases hen : c.disable with
  | true =>
    exact ⟨_, c, matchPrefix_disabled hen key, ⟨hi, .refl c, fun _ _ => rfl⟩, .inl rfl⟩
  | false =>
    obtain ⟨r, c', hrun, hs, hpath, -⟩ := matchPrefix_spec hi.wellFormed hen key
    exact ⟨r, c', hrun, ⟨hi.splits hs, hs.sameConfig, fun _ _ => hs.slots_eq hi.wellFormed⟩, hpath⟩

lemma Inv.insert {val : Option (List Nat)} (hv : c.EnoughSlots key val) :
    ∃ r c', c.insert key val = .ok (r, c') ∧ Keeps c c' held := by
  cases hen : c.disable with
  | true => exact ⟨_, c, insert_disabled hen, hi, .refl c, fun _ _ => rfl⟩
  | false =>
    obtain ⟨r, c', hrun, -, q, -, -, hins⟩ := insert_spec hi.wellFormed hen hv
    exact ⟨r, c', hrun, hi.inserted hen hins, hins.sameConfig, fun l hl =>
      hins.slots_eq hi.wellFormed (hi.locks.hasPath l hl)⟩

lemma Inv.evict (pick : Nat → Nat) (want : Nat) :
    ∃ ns c', c.evict pick want = .ok (ns, c') ∧ Keeps c c' held ∧
      ∀ n ∈ ns, ∀ l ∈ held, ¬ path n <+: l := by
  cases hen : c.disable with
  | true =>
    exact ⟨[], c, evict_disabled hen, ⟨hi, .refl c, fun _ _ => rfl⟩, nofun⟩
  | false =>
    obtain ⟨ns, c', hrun, he, -⟩ := evict_spec hi.wellFormed hi.counted hen pick want
    exact ⟨ns, c', hrun, ⟨hi.evicts he, he.sameConfig, fun l hl =>
      he.slots_eq hi.wellFormed hi.locks hl⟩, fun n hn l hl => he.off_path hi.locks hl hn⟩

/-- The lock counts now follow `held'`; a disabled cache counts nothing. -/
def Relocks (c c' : RadixCache) (held' : List NodePath) : Prop :=
  (c' = c ∧ c.disable = true ∧ ∀ l ∈ held', c.HasPath l) ∨ ∃ d q, Walked d q c c' ∧ Locks c' held'

lemma Inv.relocks_inc (hq : c.HasPath q) : Relocks c (c.incLockRef q).2 (q :: held) := by
  cases hen : c.disable with
  | true =>
    exact .inl ⟨by simp [incLockRef, hen], hen, forall_mem_cons.mpr ⟨hq, hi.locks.hasPath⟩⟩
  | false =>
    obtain ⟨hw, hl, -⟩ := incLockRef_spec hi.wellFormed hi.counted hi.locks hq hen
    exact .inr ⟨1, q, hw, hl⟩

lemma Inv.relock {held' : List NodePath} (hr : Relocks c c' held') :
    Inv c' held' ∧ SameConfig c c' ∧ ∀ l, c'.slots l = c.slots l := by
  obtain ⟨rfl, hen, hpath⟩ | ⟨d, q, hw, hl⟩ := hr
  · exact ⟨⟨hi.wellFormed, hi.counted, ⟨by simp [hi.disabled hen], hpath⟩, hi.disabled⟩, .refl _,
      fun _ => rfl⟩
  · exact ⟨⟨hw.wellFormed, hw.counted, hl, hw.disabled hi⟩, hw.sameConfig, fun _ => hw.slots_eq⟩

omit hi

lemma Inv.relocks_dec (hi : Inv c (q :: held)) : Relocks c (c.decLockRef q).2 held := by
  cases hen : c.disable with
  | true =>
    exact .inl ⟨by simp [decLockRef, hen], hen, (forall_mem_cons.mp hi.locks.hasPath).2⟩
  | false =>
    obtain ⟨hw, hl, -⟩ := decLockRef_spec hi.wellFormed hi.counted hi.locks hen
    exact .inr ⟨-1, q, hw, hl⟩
end RadixCache

/-! ## Runs -/

/-- A held lock: its node, the slots along its path, and the nodes evicted since. -/
structure HeldLock where
  node : NodePath
  slots : List Nat
  evicted : List TreeNode := []

structure RadixRun where
  cache : RadixCache
  held : List HeldLock := []

inductive RadixOp
  | insert (key : RadixKey) (value : Option (List Nat))
  | matchPrefix (key : RadixKey)
  | evict (pick : Nat → Nat) (numTokens : Nat)
  | incLockRef (node : NodePath)
  | decLockRef (i : Nat)

namespace RadixRun
open RadixCache

/-- The state after a call; a call that fails leaves it as it is. -/
def next (s : RadixRun) : RadixOp → RadixRun
  | .insert key value =>
    match s.cache.insert key value with
    | .ok (_, c) => { s with cache := c }
    | .error _ => s
  | .matchPrefix key =>
    match s.cache.matchPrefix key with
    | .ok (_, c) => { s with cache := c }
    | .error _ => s
  | .evict pick numTokens =>
    match s.cache.evict pick numTokens with
    | .ok (ns, c) =>
      { cache := c, held := s.held.map fun l => { l with evicted := l.evicted ++ ns } }
    | .error _ => s
  | .incLockRef node =>
    { cache := (s.cache.incLockRef node).2
      held := { node := node, slots := s.cache.slots node } :: s.held }
  | .decLockRef i =>
    match s.held[i]? with
    | some l => { cache := (s.cache.decLockRef l.node).2, held := s.held.eraseIdx i }
    | none => s

def ok (s : RadixRun) : RadixOp → Prop
  | .insert key value => s.cache.EnoughSlots key value
  | .matchPrefix _ => True
  | .evict _ _ => True
  | .incLockRef node => s.cache.HasPath node
  | .decLockRef i => i < s.held.length

instance (s : RadixRun) : DecidablePred (ok s) := fun op => by
  cases op <;> unfold ok <;> infer_instance

/-- The invariant, and for every held lock its slots are in the tree and its nodes not evicted. -/
structure Good (c : RadixCache) (s : RadixRun) : Prop where
  config : SameConfig c s.cache
  inv : Inv s.cache (s.held.map HeldLock.node)
  slots : ∀ l ∈ s.held, s.cache.slots l.node = l.slots
  evicted : ∀ l ∈ s.held, ∀ n ∈ l.evicted, ¬ path n <+: l.node

variable {s : RadixRun} {c c' : RadixCache}

lemma Good.keeps (hg : Good c s) (hk : Keeps s.cache c' (s.held.map HeldLock.node)) :
    Good c { s with cache := c' } where
  config := hg.config.trans hk.sameConfig
  inv := hk.inv
  slots l hl := by rw [hk.slots _ (mem_map_of_mem hl), hg.slots l hl]
  evicted := hg.evicted

lemma Good.next (hg : Good c s) (op : RadixOp) (hok : ok s op) : Good c (s.next op) := by
  cases op with
  | insert key val =>
    obtain ⟨r, c, hrun, hk⟩ := hg.inv.insert hok
    rw [RadixRun.next, hrun]
    exact hg.keeps hk
  | matchPrefix key =>
    obtain ⟨r, c, hrun, hk, -⟩ := hg.inv.matchPrefix key
    rw [RadixRun.next, hrun]
    exact hg.keeps hk
  | evict pick want =>
    obtain ⟨ns, c, hrun, hk, hoff⟩ := hg.inv.evict pick want
    rw [RadixRun.next, hrun]
    refine ⟨hg.config.trans hk.sameConfig, ?_, ?_, ?_⟩
    · rw [map_map]
      exact hk.inv
    · rw [forall_mem_map]
      intro l hl
      exact (hk.slots l.node (mem_map_of_mem hl)).trans (hg.slots l hl)
    rw [forall_mem_map]
    intro l hl n hn
    rcases mem_append.mp hn with hn | hn
    · exact hg.evicted l hl n hn
    · exact hoff n hn l.node (mem_map_of_mem hl)
  | incLockRef node =>
    obtain ⟨hi, hcfg, hslots⟩ := hg.inv.relock (hg.inv.relocks_inc hok)
    refine ⟨hg.config.trans hcfg, hi, ?_, ?_⟩
    · refine forall_mem_cons.mpr ⟨hslots node, fun l hl => ?_⟩
      exact (hslots _).trans (hg.slots l hl)
    · exact forall_mem_cons.mpr ⟨nofun, hg.evicted⟩
  | decLockRef i =>
    obtain ⟨l, hl⟩ : ∃ l, s.held[i]? = some l := ⟨_, getElem?_eq_getElem hok⟩
    rw [RadixRun.next, hl]
    have hperm : s.held.Perm (l :: s.held.eraseIdx i) := by
      obtain ⟨hlt, hget⟩ := List.getElem?_eq_some_iff.mp hl
      exact hget ▸ (getElem_cons_eraseIdx_perm hlt).symm
    have hinv := hg.inv.perm (hperm.map HeldLock.node)
    obtain ⟨hi, hcfg, hslots⟩ := hinv.relock hinv.relocks_dec
    refine ⟨hg.config.trans hcfg, hi, fun k hk => ?_, fun k hk => ?_⟩
    · exact (hslots _).trans (hg.slots k (hperm.mem_iff.mpr (mem_cons_of_mem _ hk)))
    · exact hg.evicted k (hperm.mem_iff.mpr (mem_cons_of_mem _ hk))

lemma good_of_run {past : List RadixOp} (hp : 0 < c.pageSize)
    (hr : Run next ok { cache := c.reset } past s) : Good c.reset s :=
  hr.invariant (I := fun _ s => Good c.reset s)
    ⟨.refl _, .reset hp, fun _ hl => absurd hl not_mem_nil, fun _ hl => absurd hl not_mem_nil⟩
    fun _ _ op hg hok => hg.next op hok

/-- After any run: whole-page keys with one slot a unit under their own dictionary keys, locks
bounded by the parent's, the sizes and leaves recorded right, and every held lock's path kept. -/
theorem state_invariant {past : List RadixOp} (hp : 0 < c.pageSize)
    (hr : Run next ok { cache := c.reset } past s) :
    (∀ n ∈ s.cache.nodes, 0 < n.key.len ∧ s.cache.pageSize ∣ n.key.len ∧
      n.value.length = n.key.len ∧ n.slot = n.key.childKey s.cache.pageSize ∧
      (n.parent = [] ∨ ∃ m ∈ s.cache.nodes, path m = n.parent ∧ n.lockRef ≤ m.lockRef)) ∧
    s.cache.evictableSize = (s.cache.nodes.map TreeNode.unlockedLen).sum ∧
    s.cache.protectedSize = (s.cache.nodes.map TreeNode.lockedLen).sum ∧
    (∀ q, q ∈ s.cache.evictableLeaves ↔
      ∃ n ∈ s.cache.nodes, path n = q ∧ n.lockRef = 0 ∧ ∀ m ∈ s.cache.nodes, m.parent ≠ q) ∧
    ∀ l ∈ s.held, s.cache.HasPath l.node ∧ s.cache.slots l.node = l.slots ∧
      ∀ n ∈ l.evicted, ¬ path n <+: l.node := by
  obtain ⟨-, hi, hslots, hev⟩ := good_of_run hp hr
  have hwf := hi.wellFormed
  refine ⟨fun n hn => ⟨?_, ?_, hwf.value n hn, hwf.slot n hn, ?_⟩, hi.counted.evictableSize,
    hi.counted.protectedSize, fun q => hi.counted.leaves q not_mem_nil, fun l hl =>
      ⟨hi.locks.hasPath _ (mem_map_of_mem hl), hslots l hl, hev l hl⟩⟩
  · exact lt_of_lt_of_le hwf.pos (hwf.page_le hn)
  · have := hwf.valid.dvd_label n hn
    rwa [label_node, RadixKey.length_cells] at this
  · refine (hwf.valid.closed n hn).imp_right fun ⟨m, hm, he⟩ => ⟨m, hm, he, ?_⟩
    exact hi.locks.mono hm hn (he ▸ parent_prefix_path n)

theorem locked_prompt_survives : ∃ s : RadixRun, s.cache.nodes.length = 2 ∧ s.held.length = 1 ∧
    s.cache.protectedSize = 4 ∧ s.cache.evictableSize = 0 ∧
    s.cache.protectedSize = (s.cache.nodes.map TreeNode.lockedLen).sum ∧
    ∀ l ∈ s.held, s.cache.slots l.node = l.slots := by
  have hr : Run next ok { cache := RadixCache.reset { pageSize := 2 } } _ _ :=
    .step (.evict id 9)
      (.step (.insert { tokenIds := [1, 2, 5, 6], extraKey := none } (some [20, 21, 22, 23]))
        (.step (.incLockRef (RadixKey.cells { tokenIds := [1, 2, 3, 4], extraKey := none }))
          (.step (.insert { tokenIds := [1, 2, 3, 4], extraKey := none } (some [10, 11, 12, 13]))
            .start (by decide +kernel)) (by decide +kernel)) (by decide +kernel))
      (by decide +kernel)
  have hinv := state_invariant (by decide) hr
  exact ⟨_, by decide +kernel, by decide +kernel, by decide +kernel, by decide +kernel, hinv.2.2.1,
    fun l hl => (hinv.2.2.2.2 l hl).2.1⟩
end RadixRun
end Sglang
