import Sglang.Mem.RadixTree

/-!
# The counters of the radix cache

`evictable_size_`, `protected_size_` and `evictable_leaves` are kept up to date piece by piece.
-/

namespace Sglang
open List PathTree Keyed TreeNode

def TreeNode.unlockedLen (n : TreeNode) : Int := if n.lockRef = 0 then n.key.len else 0

def TreeNode.lockedLen (n : TreeNode) : Int := if n.lockRef = 0 then 0 else n.key.len

namespace RadixCache
def EvictableLeaf (c : RadixCache) (q : NodePath) : Prop :=
  ∃ n ∈ c.nodes, path n = q ∧ n.lockRef = 0 ∧ IsLeaf c.nodes q

/-- The recorded leaves are right, those in `off` apart. -/
def LeavesExact (c : RadixCache) (off : List NodePath) : Prop :=
  ∀ q, q ∉ off → (q ∈ c.evictableLeaves ↔ c.EvictableLeaf q)

structure Counted (c : RadixCache) : Prop where
  nonneg : ∀ n ∈ c.nodes, 0 ≤ n.lockRef
  evictableSize : c.evictableSize = (c.nodes.map TreeNode.unlockedLen).sum
  protectedSize : c.protectedSize = (c.nodes.map TreeNode.lockedLen).sum
  leaves : c.LeavesExact []
  nodup : c.evictableLeaves.Nodup

variable {c : RadixCache} {n child leaf : TreeNode} {q q' : NodePath} {k : Nat}
  {off : List NodePath}

lemma hasNoChild_iff : c.hasNoChild q = true ↔ IsLeaf c.nodes q := by
  simp [hasNoChild, IsLeaf]

/-! ## Deleting a leaf -/

structure Deletes (c : RadixCache) (n : TreeNode) : Prop where
  mem : n ∈ c.nodes
  lockRef : n.lockRef = 0
  isLeaf : IsLeaf c.nodes (path n)

lemma deleteLeaf_eq (h : WellFormed c) (hn : n ∈ c.nodes) : c.deleteLeaf n = .ok (c.removeLeaf n) := by
  rw [deleteLeaf, if_pos ((h.child?_eq_some (h.page_le hn)).mpr ⟨hn, rfl, rfl⟩)]

@[simp]
lemma nodes_removeLeaf : (c.removeLeaf n).nodes = remove path (path n) c.nodes := rfl

variable (h : WellFormed c)
include h

lemma lockRef_path (hn : n ∈ c.nodes) : c.lockRef (path n) = n.lockRef := by
  rw [lockRef, if_neg (h.valid.path_ne_nil hn), h.node?_eq_some.mpr ⟨hn, rfl⟩]
  rfl

lemma lockRef_nonneg (hnn : ∀ n ∈ c.nodes, 0 ≤ n.lockRef) (hq : c.HasPath q) : 0 ≤ c.lockRef q := by
  rcases hq with rfl | ⟨n, hn, rfl⟩
  · simp [lockRef]
  · rw [lockRef_path h hn]
    exact hnn n hn

lemma evictableLeaf_iff (hq : c.HasPath q) :
    c.EvictableLeaf q ↔ c.hasNoChild q = true ∧ c.lockRef q = 0 := by
  rw [hasNoChild_iff]
  rcases hq with rfl | ⟨n, hn, rfl⟩
  · constructor
    · exact fun ⟨m, hm, he, _⟩ => absurd he (h.valid.path_ne_nil hm)
    · exact fun ⟨_, hlock⟩ => by simp [lockRef] at hlock
  rw [lockRef_path h hn]
  constructor
  · rintro ⟨m, hm, he, hrest⟩
    exact (h.valid.eq_of_path_eq hm hn he ▸ hrest).symm
  · exact fun ⟨hleaf, hlock⟩ => ⟨n, hn, rfl, hlock, hleaf⟩

/-! ## `_update_leaf_status` -/

lemma mem_updateLeafStatus_self (hnn : ∀ n ∈ c.nodes, 0 ≤ n.lockRef)
    (hq : c.HasPath q) : q ∈ (c.updateLeafStatus q).evictableLeaves ↔ c.EvictableLeaf q := by
  have h0 := lockRef_nonneg h hnn hq
  rw [evictableLeaf_iff h hq, updateLeafStatus]
  by_cases hpos : 0 < c.lockRef q
  · rw [if_pos hpos]
    simp
    omega
  have hz : c.lockRef q = 0 := by omega
  rw [if_neg hpos]
  rcases hleaf : c.hasNoChild q with _ | _
  · simp
  simp only [Bool.not_true, Bool.false_eq_true, if_false, hz]
  split <;> simp_all

omit h

lemma mem_updateLeafStatus_of_ne (hne : q' ≠ q) :
    q' ∈ (c.updateLeafStatus q).evictableLeaves ↔ q' ∈ c.evictableLeaves := by
  unfold updateLeafStatus
  split_ifs <;> simp [hne]

lemma nodup_updateLeafStatus (h : c.evictableLeaves.Nodup) :
    (c.updateLeafStatus q).evictableLeaves.Nodup := by
  unfold updateLeafStatus
  grind

lemma LeavesExact.update (hl : c.LeavesExact (q :: off)) (h : WellFormed c)
    (hnn : ∀ n ∈ c.nodes, 0 ≤ n.lockRef) (hq : c.HasPath q) :
    (c.updateLeafStatus q).LeavesExact off := by
  intro q' hoff
  by_cases he : q' = q
  · subst he
    exact mem_updateLeafStatus_self h hnn hq
  · rw [mem_updateLeafStatus_of_ne he]
    exact hl q' (by simp [he, hoff])

include h

lemma WellFormed.updateLeafStatus : WellFormed (c.updateLeafStatus q) :=
  ⟨h.pos, h.valid, h.slot, h.value⟩

/-! ## Cutting an edge -/

variable (hc : Cuts c child k)
include hc

lemma sum_split (g : TreeNode → Int)
    (hg : g child = g (c.splitUpper child k) + g (c.splitLower child k)) :
    ((c.splitNode child k).nodes.map g).sum = (c.nodes.map g).sum := by
  rw [sum_eq g h.valid.path_nodup hc.mem, hg, splitNode, map_cons, map_cons,
    sum_cons, sum_cons, add_assoc]

omit hc
omit h

lemma len_takeUnits_add_dropUnits {key : RadixKey} (hk : k ≤ key.len) :
    (key.takeUnits k).len + (key.dropUnits k).len = key.len := by
  simp only [← RadixKey.length_cells, RadixKey.cells_takeUnits, RadixKey.cells_dropUnits,
    length_take, length_drop]
  omega

include h
include hc

lemma isLeaf_splitNode (hne : q ≠ path (c.splitUpper child k)) :
    IsLeaf (c.splitNode child k).nodes q ↔ IsLeaf c.nodes q := by
  have hperm := (perm_cons_remove h.valid.path_nodup hc.mem)
  unfold IsLeaf
  simp only [hperm.mem_iff, splitNode, forall_mem_cons, parent_node]
  constructor
  · rintro ⟨hu, -, hr⟩
    exact ⟨hu, hr⟩
  · rintro ⟨hu, hr⟩
    exact ⟨hu, hne.symm, hr⟩

lemma evictableLeaf_splitNode : (c.splitNode child k).EvictableLeaf q ↔ c.EvictableLeaf q := by
  have hupper : ¬ IsLeaf (c.splitNode child k).nodes (path (c.splitUpper child k)) :=
    fun hl => hl (c.splitLower child k) (by simp [splitNode]) rfl
  constructor
  · rintro ⟨m, hm, rfl, hlock, hleaf⟩
    have hne : path m ≠ path (c.splitUpper child k) := fun e => hupper (e ▸ hleaf)
    rw [isLeaf_splitNode h hc hne] at hleaf
    simp only [splitNode, mem_cons] at hm
    rcases hm with rfl | rfl | hm
    · exact absurd rfl hne
    · exact ⟨child, hc.mem, path_splitLower.symm, hlock, hleaf⟩
    · exact ⟨m, (mem_remove.mp hm).1, rfl, hlock, hleaf⟩
  rintro ⟨m, hm, rfl, hlock, hleaf⟩
  have hne : path m ≠ path (c.splitUpper child k) := by
    intro e
    -- a node at the cut would be the child itself, which ends below it
    have hcov : Covers child (path m) := e ▸ hc.covers_upper
    have hmc := h.valid.covers_unique hm hc.mem (h.valid.dvd_path hm) (h.valid.covers_path hm) hcov
    have hlen := congrArg length e
    have := hc.lt
    rw [hmc, hc.length_upper, length_path, label_node, parent_node, RadixKey.length_cells] at hlen
    omega
  rw [← isLeaf_splitNode h hc hne] at hleaf
  by_cases hmc : path m = path child
  · have := h.valid.eq_of_path_eq hm hc.mem hmc
    subst this
    exact ⟨c.splitLower m k, by simp [splitNode], path_splitLower, hlock, hleaf⟩
  · exact ⟨m, by simp [splitNode, mem_remove, hm, hmc], rfl, hlock, hleaf⟩

lemma Cuts.counted (hcnt : Counted c) : Counted (c.splitNode child k) where
  nonneg := by
    have h0 := hcnt.nonneg child hc.mem
    exact forall_mem_cons.mpr ⟨h0, forall_mem_cons.mpr ⟨h0, fun m hm =>
      hcnt.nonneg m (mem_remove.mp hm).1⟩⟩
  evictableSize := by
    have hlen := len_takeUnits_add_dropUnits (le_of_lt hc.lt)
    rw [sum_split h hc]
    · exact hcnt.evictableSize
    · simp only [unlockedLen, splitUpper, splitLower]
      split <;> omega
  protectedSize := by
    have hlen := len_takeUnits_add_dropUnits (le_of_lt hc.lt)
    rw [sum_split h hc]
    · exact hcnt.protectedSize
    · simp only [lockedLen, splitUpper, splitLower]
      split <;> omega
  leaves q hq := by
    rw [evictableLeaf_splitNode h hc]
    exact hcnt.leaves q hq
  nodup := hcnt.nodup

omit hc

/-! ## Adding a leaf -/

lemma NewLeaf.counted (hl : NewLeaf c leaf) (hcnt : Counted c) : Counted (c.addLeaf leaf) := by
  have hwf : WellFormed
      { c with nodes := leaf :: c.nodes, evictableSize := c.evictableSize + leaf.key.len } :=
    ⟨h.pos, (hl.wellFormed h).valid, (hl.wellFormed h).slot, (hl.wellFormed h).value⟩
  have hnn : ∀ m ∈ leaf :: c.nodes, 0 ≤ m.lockRef :=
    forall_mem_cons.mpr ⟨le_of_eq hl.lockRef.symm, hcnt.nonneg⟩
  refine ⟨hnn, ?_, ?_, ?_, nodup_updateLeafStatus (nodup_updateLeafStatus hcnt.nodup)⟩
  · have hone : leaf.unlockedLen = leaf.key.len := by rw [unlockedLen, if_pos hl.lockRef]
    show c.evictableSize + leaf.key.len = ((leaf :: c.nodes).map unlockedLen).sum
    rw [map_cons, sum_cons, hone, hcnt.evictableSize, add_comm]
  · have hnone : leaf.lockedLen = 0 := by rw [lockedLen, if_pos hl.lockRef]
    show c.protectedSize = ((leaf :: c.nodes).map lockedLen).sum
    rw [map_cons, sum_cons, hnone, hcnt.protectedSize, zero_add]
  -- only the leaf and its parent change their standing
  refine LeavesExact.update (LeavesExact.update ?_ hwf hnn ?_) hwf.updateLeafStatus hnn
    (.inr ⟨leaf, mem_cons_self, rfl⟩)
  · intro q hq
    simp only [mem_cons, not_mem_nil, or_false, not_or] at hq
    have hiff : q ∈ c.evictableLeaves ↔ c.EvictableLeaf q := hcnt.leaves q (not_mem_nil)
    rw [show (q ∈ c.evictableLeaves ↔ _) from hiff]
    simp only [EvictableLeaf, IsLeaf, mem_cons, exists_eq_or_imp, forall_eq_or_imp,
      parent_node, Ne.symm hq.1, Ne.symm hq.2, ne_eq, not_false_eq_true, true_and, false_and,
      false_or]
  · exact hl.hasPath.imp_right fun ⟨m, hm, he⟩ => ⟨m, mem_cons_of_mem _ hm, he⟩

lemma Deletes.wellFormed (hd : Deletes c n) : WellFormed (c.removeLeaf n) where
  pos := h.pos
  valid := h.valid.remove hd.isLeaf
  slot m hm := h.slot m (mem_remove.mp hm).1
  value m hm := h.value m (mem_remove.mp hm).1

lemma Deletes.hasPath_parent (hd : Deletes c n) : (c.removeLeaf n).HasPath n.parent := by
  refine (h.valid.closed n hd.mem).imp_right fun ⟨m, hm, he⟩ => ⟨m, ?_, he⟩
  refine mem_remove.mpr ⟨hm, fun e => ?_⟩
  have := h.valid.length_parent_lt hd.mem
  rw [← he, e] at this
  exact lt_irrefl _ this

lemma Deletes.counted (hd : Deletes c n) (hcnt : Counted c) : Counted (c.removeLeaf n) := by
  have hnn : ∀ m ∈ remove path (path n) c.nodes, 0 ≤ m.lockRef :=
    fun m hm => hcnt.nonneg m (mem_remove.mp hm).1
  refine ⟨hnn, ?_, ?_, ?_, nodup_updateLeafStatus (hcnt.nodup.filter _)⟩
  · have hone : n.unlockedLen = n.key.len := by rw [unlockedLen, if_pos hd.lockRef]
    have hsum := sum_eq unlockedLen h.valid.path_nodup hd.mem
    have hev := hcnt.evictableSize
    show c.evictableSize - n.key.len = _
    rw [hev, hsum, hone, nodes_removeLeaf]
    omega
  · have hnone : n.lockedLen = 0 := by rw [lockedLen, if_pos hd.lockRef]
    have hsum := sum_eq lockedLen h.valid.path_nodup hd.mem
    show c.protectedSize = _
    rw [hcnt.protectedSize, hsum, hnone, nodes_removeLeaf, zero_add]
  have hwf := hd.wellFormed h
  refine LeavesExact.update ?_ ⟨hwf.pos, hwf.valid, hwf.slot, hwf.value⟩ hnn (hd.hasPath_parent h)
  intro q hq
  have hiff := hcnt.leaves q not_mem_nil
  have hperm := perm_cons_remove h.valid.path_nodup hd.mem
  have hne : n.parent ≠ q := fun e => hq (by simp [e])
  have hleaf : IsLeaf c.nodes q ↔ IsLeaf (remove path (path n) c.nodes) q := by
    unfold IsLeaf
    simp only [hperm.mem_iff, forall_mem_cons, parent_node]
    exact ⟨And.right, fun hr => ⟨hne, hr⟩⟩
  simp only [mem_filter, decide_eq_true_eq, hiff, EvictableLeaf, hleaf, hperm.mem_iff, mem_cons]
  constructor
  · grind
  · rintro ⟨m, hm, rfl, hrest⟩
    exact ⟨⟨m, .inr hm, rfl, hrest⟩, (mem_remove.mp hm).2⟩

omit h

/-! ## Changing a lock count -/

def LockChange (crossing d : Int) : Prop := (crossing = 0 ∧ d = 1) ∨ (crossing = 1 ∧ d = -1)

variable {crossing d : Int}

lemma nodes_lockStep : (c.lockStep crossing d n).nodes = update path (path n) (bump d) c.nodes := by
  unfold lockStep
  split <;> rfl

lemma evictableSize_lockStep : (c.lockStep crossing d n).evictableSize =
    c.evictableSize - if n.lockRef = crossing then d * n.key.len else 0 := by
  unfold lockStep
  split
  · rfl
  · exact (sub_zero _).symm

lemma protectedSize_lockStep : (c.lockStep crossing d n).protectedSize =
    c.protectedSize + if n.lockRef = crossing then d * n.key.len else 0 := by
  unfold lockStep
  split
  · rfl
  · exact (add_zero _).symm

lemma WellFormed.map {f : TreeNode → TreeNode} {c' : RadixCache} (h : WellFormed c)
    (hn : c'.nodes = c.nodes.map f) (hp : c'.pageSize = c.pageSize)
    (hf : ∀ n, ∃ d, f n = n.bump d) : WellFormed c' := by
  have hparent : ∀ n, (f n).parent = n.parent := fun n => by
    obtain ⟨d, hd⟩ := hf n
    rw [hd, bump]
  have hkey : ∀ n, (f n).key = n.key := fun n => by
    obtain ⟨d, hd⟩ := hf n
    rw [hd, bump]
  refine ⟨hp ▸ h.pos, ?_, ?_, ?_⟩
  · rw [hn, hp]
    exact h.valid.map hparent fun n => by rw [label_node, hkey, label_node]
  · rw [hn, hp]
    intro m hm
    obtain ⟨m', hm', rfl⟩ := mem_map.mp hm
    obtain ⟨d, hd⟩ := hf m'
    rw [hkey, ← h.slot m' hm', hd, bump]
  rw [hn]
  intro m hm
  obtain ⟨m', hm', rfl⟩ := mem_map.mp hm
  obtain ⟨d, hd⟩ := hf m'
  rw [hkey, ← h.value m' hm', hd, bump]

def withBump (c : RadixCache) (d : Int) (n : TreeNode) : RadixCache :=
  { c with nodes := Keyed.update path (path n) (TreeNode.bump d) c.nodes }

lemma withBump_wellFormed (h : WellFormed c) : WellFormed (c.withBump d n) := by
  refine h.map rfl rfl fun m => ?_
  by_cases he : path m = path n
  · exact ⟨d, if_pos he⟩
  · exact ⟨0, by rw [if_neg he, bump, add_zero]⟩

lemma evictableLeaves_lockStep : (c.lockStep crossing d n).evictableLeaves =
    ((c.withBump d n).updateLeafStatus (path n)).evictableLeaves := by
  unfold lockStep
  split <;> rfl

lemma lockStep_wellFormed (h : WellFormed c) : WellFormed (c.lockStep crossing d n) := by
  have hb : WellFormed (c.withBump d n) := withBump_wellFormed h
  unfold lockStep
  split <;> exact ⟨hb.pos, hb.valid, hb.slot, hb.value⟩

lemma isLeaf_withBump : IsLeaf (c.withBump d n).nodes q ↔ IsLeaf c.nodes q := by
  simp only [IsLeaf, withBump, update, forall_mem_map, parent_node]
  refine forall₂_congr fun m _ => ?_
  split <;> rfl

include h

lemma withBump_leavesExact (hn : n ∈ c.nodes) (hl : c.LeavesExact []) :
    (c.withBump d n).LeavesExact [path n] := by
  intro q hq
  have hne : q ≠ path n := by simpa using hq
  rw [show q ∈ (c.withBump d n).evictableLeaves ↔ _ from hl q not_mem_nil]
  simp only [EvictableLeaf, isLeaf_withBump]
  simp only [withBump, mem_update h.valid.path_nodup hn]
  constructor
  · grind
  · rintro ⟨m, rfl | ⟨hm, -⟩, rfl, hrest⟩
    · exact absurd rfl hne
    · exact ⟨m, hm, rfl, hrest⟩

lemma lockStep_counted (hn : n ∈ c.nodes) (hch : LockChange crossing d)
    (h0 : 0 ≤ n.lockRef + d) (hcnt : Counted c) : Counted (c.lockStep crossing d n) := by
  have hnodup := h.valid.path_nodup
  have hn0 := hcnt.nonneg n hn
  have hmem : ∀ {m}, m ∈ update path (path n) (bump d) c.nodes ↔
      m = n.bump d ∨ (m ∈ c.nodes ∧ path m ≠ path n) := mem_update hnodup hn
  have hnn : ∀ m ∈ update path (path n) (bump d) c.nodes, 0 ≤ m.lockRef := by
    intro m hm
    rcases hmem.mp hm with rfl | ⟨hm, -⟩
    · exact h0
    · exact hcnt.nonneg m hm
  -- the length of the node moves from one size to the other where the count crosses
  have hmove : (n.bump d).unlockedLen = n.unlockedLen -
        (if n.lockRef = crossing then d * n.key.len else 0) ∧
      (n.bump d).lockedLen = n.lockedLen + (if n.lockRef = crossing then d * n.key.len else 0) := by
    simp only [unlockedLen, lockedLen, bump]
    rcases hch with ⟨rfl, rfl⟩ | ⟨rfl, rfl⟩ <;> split_ifs <;> omega
  refine ⟨nodes_lockStep ▸ hnn, ?_, ?_, ?_, ?_⟩
  · have hsum := sum_eq unlockedLen hnodup hn
    have hsize := hcnt.evictableSize
    rw [evictableSize_lockStep, nodes_lockStep, sum_update _ hnodup hn, hmove.1]
    omega
  · have hsum := sum_eq lockedLen hnodup hn
    have hsize := hcnt.protectedSize
    rw [protectedSize_lockStep, nodes_lockStep, sum_update _ hnodup hn, hmove.2]
    omega
  · intro q hq
    have hpath : (c.withBump d n).HasPath (path n) :=
      .inr ⟨n.bump d, hmem.mpr (.inl rfl), rfl⟩
    have hexact := (withBump_leavesExact (d := d) h hn hcnt.leaves).update (withBump_wellFormed h)
      hnn hpath q hq
    rw [evictableLeaves_lockStep, hexact, EvictableLeaf, EvictableLeaf, nodes_lockStep]
    rfl
  · rw [evictableLeaves_lockStep]
    exact nodup_updateLeafStatus hcnt.nodup
end RadixCache
end Sglang
