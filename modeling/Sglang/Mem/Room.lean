import Sglang.Mem.KvPoolInv

/-!
# What an eviction makes available

The free slots and the evictable ones are what an allocation can count on: an eviction stops when it
has freed what was asked for, or when nothing evictable is left and all of it has become free.
-/

namespace Sglang
open List PathTree

namespace RadixCache
variable {c c' : RadixCache} {n : TreeNode} {ns : List TreeNode} {q : NodePath}
  {held : List NodePath}

lemma Evicts.evictableSize_eq (he : Evicts c ns c') (h : WellFormed c) :
    c.evictableSize = ((ns.map fun n => n.value.length).sum : Nat) + c'.evictableSize := by
  induction he with
  | nil => simp
  | @snoc ns c' n he hd ih =>
    have hlen := (he.wellFormed h).value n hd.mem
    have hone : (c'.removeLeaf n).evictableSize = c'.evictableSize - n.key.len := rfl
    grind

lemma Evicts.mem_of_locked (he : Evicts c ns c') (hn : n ∈ c.nodes) (hlock : n.lockRef ≠ 0)
    (h : WellFormed c) : n ∈ c'.nodes := by
  induction he with
  | nil => exact hn
  | @snoc ns c' m he hd ih =>
    refine Keyed.mem_remove.mpr ⟨ih, fun heq => hlock ?_⟩
    have := inj_on_of_nodup_map (he.wellFormed h).valid.path_nodup ih hd.mem heq
    rw [this]
    exact hd.lockRef

lemma Splits.evictableSize_eq (hs : Splits c c') : c'.evictableSize = c.evictableSize := by
  induction hs with
  | refl => rfl
  | step _ _ ih => exact ih

lemma dvd_evictableSize (h : WellFormed c) (hcnt : Counted c) :
    (c.pageSize : Int) ∣ c.evictableSize := by
  rw [hcnt.evictableSize]
  refine dvd_sum fun x hx => ?_
  obtain ⟨n, hn, rfl⟩ := mem_map.mp hx
  rw [TreeNode.unlockedLen]
  split
  · have hd := h.valid.dvd_label n hn
    rw [label_node, RadixKey.length_cells] at hd
    exact Int.natCast_dvd_natCast.mpr hd
  · exact dvd_zero _

lemma bumpAlong_bumpAlong (d : Int) (q : NodePath) (n : TreeNode) :
    bumpAlong (-d) q (bumpAlong d q n) = n := by
  unfold bumpAlong
  split
  · rename_i hp
    rw [path_bump, if_pos hp]
    simp [TreeNode.bump]
  · rfl

lemma Inv.evictableSize_release (hi : Inv c held) (hq : c.HasPath q) {c₁ : RadixCache}
    (h1 : c₁ = (c.incLockRef q).2) : (c₁.decLockRef q).2.evictableSize = c.evictableSize := by
  subst h1
  cases hen : c.disable with
  | true => simp [incLockRef, decLockRef, hen]
  | false => ?_
  obtain ⟨hw, hl, -⟩ := incLockRef_spec hi.wellFormed hi.counted hi.locks hq hen
  obtain ⟨hw', -, -⟩ := decLockRef_spec hw.wellFormed hw.counted hl (hw.sameConfig.disable.trans hen)
  have hnodes : (((c.incLockRef q).2).decLockRef q).2.nodes = c.nodes := by
    rw [hw'.nodes, hw.nodes, map_map]
    exact map_id'' (fun n => bumpAlong_bumpAlong 1 q n) _
  rw [hw'.counted.evictableSize, hi.counted.evictableSize, hnodes]
end RadixCache

lemma PagedAllocator.free_group (a : PagedAllocator) (idx : List Nat) :
    (a.free idx).isNotInFreeGroup = a.isNotInFreeGroup := by
  unfold free
  split_ifs <;> rfl

lemma freeNodes_group (a : PagedAllocator) (ns : List TreeNode) :
    (freeNodes a ns).isNotInFreeGroup = a.isNotInFreeGroup := by
  induction ns generalizing a with
  | nil => rfl
  | cons n ns ih => exact (ih _).trans (a.free_group n.value)

namespace Ledger
variable {N : Nat} {c c' : RadixCache} {a a' : PagedAllocator} {held : List NodePath}
  {own : List Nat}

lemma length_treePages (h : c.WellFormed) :
    c.treePages.length * c.pageSize = (c.nodes.map fun n => n.value.length).sum := by
  rw [RadixCache.treePages, length_flatMap, ← sum_map_mul_right]
  congr 1
  refine map_congr_left fun n hn => ?_
  have hd := h.valid.dvd_label n hn
  rw [RadixCache.label_node, RadixKey.length_cells, ← h.value n hn] at hd
  rw [length_pageIds, pagesUp_of_dvd h.pos hd, Nat.div_mul_cancel hd]

lemma availableSize_add (h : Ledger N c a held own) (hopen : a.isNotInFreeGroup = true) :
    a.availableSize + ((c.nodes.map fun n => n.value.length).sum + own.length * c.pageSize) =
      N * c.pageSize := by
  have hlen := h.pages.length_eq
  rw [PagedAllocator.freed, PagedAllocator.pending, if_pos hopen, append_nil, length_append,
    length_append, length_append, length_range'] at hlen
  rw [PagedAllocator.availableSize, h.pageSize, ← length_treePages h.inv.wellFormed, ← add_mul,
    ← add_mul, hlen]

lemma evict_room (h : Ledger N c a held own) (hopen : a.isNotInFreeGroup = true)
    (pick : Nat → Nat) (want : Nat) :
    ∃ ns c', c.evict pick want = .ok (ns, c') ∧ Ledger N c' (Sglang.freeNodes a ns) held own ∧
      c.SameConfig c' ∧ (∀ n ∈ c.nodes, n.lockRef ≠ 0 → n ∈ c'.nodes) ∧
      (want ≤ (Sglang.freeNodes a ns).availableSize ∨
        a.availableSize + c.evictableSize ≤ ((Sglang.freeNodes a ns).availableSize : Int)) := by
  obtain ⟨ns, c', hrun, hled, hs⟩ := h.evict pick want
  rcases hen : c.disable with _ | _
  swap
  · have hnone : c.evictableSize = 0 := by
      rw [h.inv.counted.evictableSize, h.inv.disabled hen]
      rfl
    rw [RadixCache.evict_disabled hen] at hrun
    cases hrun
    exact ⟨[], c, RadixCache.evict_disabled hen, hled, .refl c, fun _ hn _ => hn, .inr (by
      rw [hnone, Int.add_zero]
      exact le_rfl)⟩
  obtain ⟨ns', c'', hrun', he, hend⟩ :=
    RadixCache.evict_spec h.inv.wellFormed h.inv.counted hen pick want
  rw [hrun', Except.ok.injEq, Prod.mk.injEq] at hrun
  obtain ⟨rfl, rfl⟩ := hrun
  have hwf := h.inv.wellFormed
  refine ⟨ns', c'', hrun', hled, hs.sameConfig, fun n hn hlock => he.mem_of_locked hn hlock hwf, ?_⟩
  -- the pool is as large as before, and the deleted nodes have left the tree
  have hbefore := h.availableSize_add hopen
  have hafter := hled.availableSize_add (by rw [freeNodes_group, hopen])
  have hnodes := ((he.nodes_perm hwf).map fun n => n.value.length).sum_eq
  rw [map_append, sum_append] at hnodes
  rw [he.sameConfig.pageSize] at hafter
  rcases hend with hle | hnone
  · exact .inl (by omega)
  have hev := he.evictableSize_eq hwf
  have hzero := RadixCache.evictableSize_eq_zero (he.wellFormed hwf)
    (he.counted hwf h.inv.counted) (he.locks h.inv.locks) hnone
  exact .inr (by omega)
end Ledger

namespace KvPool
variable {N : Nat} {s : KvPool} {locks : List NodePath} {own : List Nat}

lemma evictFromTreeCache_room (h : Ledger N s.cache s.alloc locks own)
    (hopen : s.alloc.isNotInFreeGroup = true) (pick : Nat → Nat) (want : Nat) :
    ∃ c' a', s.evictFromTreeCache pick want = .ok { s with cache := c', alloc := a' } ∧
      Ledger N c' a' locks own ∧ s.cache.SameConfig c' ∧
      (∀ n ∈ s.cache.nodes, n.lockRef ≠ 0 → n ∈ c'.nodes) ∧
      (want ≤ a'.availableSize ∨
        s.alloc.availableSize + s.cache.evictableSize ≤ (a'.availableSize : Int)) := by
  rw [evictFromTreeCache]
  split
  · obtain ⟨ns, c', hrun, hled, hcfg, hlocked, hroom⟩ := h.evict_room hopen pick want
    exact ⟨c', freeNodes s.alloc ns, by rw [evict, hrun]; rfl, hled, hcfg, hlocked, hroom⟩
  · exact ⟨s.cache, s.alloc, rfl, h, .refl _, fun _ hn _ => hn, .inl (by omega)⟩
end KvPool

/-! ## What an eviction frees -/

namespace RadixCache
variable {c c' : RadixCache} {ns : List TreeNode} {q q' : NodePath} {held : List NodePath}
  {numTokens want : Nat} {e e' : Eviction} {pick : Nat → Nat}

lemma Evicts.unlocked (he : Evicts c ns c') : ∀ n ∈ ns, n.lockRef = 0 := by
  induction he with
  | nil => simp
  | snoc _ hd ih => simpa [or_imp, forall_and] using ⟨ih, hd.lockRef⟩

/-- Without the node freed last, too little would have been freed. -/
def Needed (numTokens : Nat) (e : Eviction) : Prop :=
  ∀ n ∈ e.freed.head?, e.numEvicted < numTokens + n.value.length

lemma Needed.evictOne {heap : List NodePath} (hlt : e.numEvicted < want)
    (hone : evictOne e q heap = .ok e') : Needed want e' := by
  unfold RadixCache.evictOne at hone
  split at hone
  case h_1 => cases hone
  case h_2 x _ =>
    rcases hdel : e.cache.deleteLeaf x with _ | cache
    · simp [hdel, bind, Except.bind] at hone
    simp only [hdel, bind, Except.bind, pure, Except.pure, Except.ok.injEq] at hone
    subst hone
    simpa [Needed] using hlt

lemma Needed.evictLoop {fuel : Nat} (hn : Needed want e)
    (hrun : evictLoop pick want fuel e = .ok e') : Needed want e' := by
  induction fuel generalizing e with
  | zero => exact Except.ok.inj hrun ▸ hn
  | succ fuel ih => ?_
  rw [RadixCache.evictLoop] at hrun
  split at hrun
  case isFalse => exact Except.ok.inj hrun ▸ hn
  case isTrue hlt =>
    split at hrun
    case h_1 => exact Except.ok.inj hrun ▸ hn
    case h_2 q _ =>
      rcases hone : RadixCache.evictOne e q (e.heap.eraseIdx (pick fuel % e.heap.length)) with _ | e₁
      · simp [hone, bind, Except.bind] at hrun
      rw [hone] at hrun
      exact ih (.evictOne hlt hone) hrun

lemma evict_needed (hi : Inv c held) (hrun : c.evict pick want = .ok (ns, c')) :
    ∀ n ∈ ns.getLast?, (ns.map fun n => n.value.length).sum < want + n.value.length := by
  unfold evict at hrun
  split at hrun
  case isTrue =>
    cases hrun
    simp
  case isFalse =>
    have hstart : EvictInv c { cache := c, heap := c.evictableLeaves } :=
      ⟨.nil, fun _ => .rfl, hi.counted.nodup, rfl⟩
    obtain ⟨e, hloop, hinv, -⟩ :=
      evictLoop_spec pick want hi.wellFormed hi.counted hstart le_rfl
    have hneed : Needed want e := .evictLoop (by simp [Needed]) hloop
    simp only [hloop, bind, Except.bind, pure, Except.pure, Except.ok.injEq, Prod.mk.injEq] at hrun
    rw [← hrun.1, getLast?_reverse, map_reverse, sum_reverse, ← hinv.numEvicted]
    exact hneed

/-- A path is stored with all its page-aligned prefixes. -/
lemma entry_eq_none_of_prefix (h : WellFormed c) (hne : q ≠ []) (hq : q <+: q')
    (hnone : c.entry q = none) : c.entry q' = none := by
  have hiff : ∀ l, (c.entry l).isSome ↔ Cached c.nodes l := fun _ => pageAt_isSome
  rw [← Option.not_isSome_iff_eq_none, hiff] at hnone ⊢
  exact fun hc => hnone (hc.of_prefix h.valid hq hne)
end RadixCache

namespace RadixRun
open RadixCache
variable {s : RadixRun} {c : RadixCache}

/-- In every reachable state and in whatever order the heap yields the leaves. -/
theorem evict_exact {past : List RadixOp} (hp : 0 < c.pageSize)
    (hr : Run next ok { cache := c.reset } past s) (pick : Nat → Nat) (want : Nat) :
    ∃ ns c', s.cache.evict pick want = .ok (ns, c') ∧
      (∀ n ∈ ns, n.lockRef = 0) ∧
      (s.cache.nodes.flatMap TreeNode.value).Perm
        (ns.flatMap TreeNode.value ++ c'.nodes.flatMap TreeNode.value) ∧
      min (want : Int) s.cache.evictableSize ≤ (ns.map fun n => n.value.length).sum ∧
      (∀ n ∈ ns.getLast?, (ns.map fun n => n.value.length).sum < want + n.value.length) ∧
      ∀ q, q ≠ [] → c.pageSize ∣ q.length → c'.entry q = s.cache.entry q ∨
        ∀ q', q <+: q' → c'.entry q' = none := by
  obtain ⟨hcfg, hi, -, -⟩ := good_of_run hp hr
  have hpage : s.cache.pageSize = c.pageSize := hcfg.pageSize
  rcases hen : s.cache.disable with _ | _
  swap
  · refine ⟨[], s.cache, evict_disabled hen, by simp, by simp, ?_, by simp, by simp⟩
    rw [hi.counted.evictableSize, hi.disabled hen]
    simp
  obtain ⟨ns, c', hrun, he, hend⟩ := evict_spec hi.wellFormed hi.counted hen pick want
  have hi' := hi.evicts he
  refine ⟨ns, c', hrun, he.unlocked, ?_, ?_, ?_, fun q hne hd => ?_⟩
  · rw [← flatMap_append]
    exact (he.nodes_perm hi.wellFormed).flatMap_right _
  · have hsize := he.evictableSize_eq hi.wellFormed
    rcases hend with hle | hnil
    · omega
    · have := evictableSize_eq_zero hi'.wellFormed hi'.counted hi'.locks hnil
      omega
  · exact evict_needed hi hrun
  · rw [← hpage] at hd
    refine (he.entry_eq_or hi.wellFormed hd).imp_right fun hnone q' hq => ?_
    exact entry_eq_none_of_prefix hi'.wellFormed hne hq hnone

/-- Two leaves hold four slots, so five are reached by evicting their parent, a leaf by then. -/
theorem evicts_parent_after_leaves : ∃ s : RadixRun, s.cache.evictableSize = 6 ∧
    ∃ ns c', s.cache.evict id 5 = .ok (ns, c') ∧
      min ((5 : Nat) : Int) s.cache.evictableSize ≤ (ns.map fun n => n.value.length).sum ∧
      ns.map TreeNode.value = [[14, 15], [12, 13], [10, 11]] := by
  have hr : Run next ok { cache := RadixCache.reset { pageSize := 2 } } _ _ :=
    .step (.insert { tokenIds := [1, 2, 5, 6], extraKey := none } (some [10, 11, 14, 15]))
      (.step (.insert { tokenIds := [1, 2, 3, 4], extraKey := none } (some [10, 11, 12, 13]))
        .start (by decide +kernel)) (by decide +kernel)
  obtain ⟨ns, c', hrun, -, -, hmin, -⟩ := evict_exact (by decide) hr id 5
  have hvalues := congrArg (fun x => x.toOption.map fun y => y.1.map TreeNode.value) hrun
  exact ⟨_, by decide +kernel, ns, c', hrun, hmin, Option.some.inj (hvalues.symm.trans (by decide +kernel))⟩
end RadixRun
end Sglang
