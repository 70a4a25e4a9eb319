import Sglang.Mem.RadixCounters

/-!
# Locks and eviction

A request pins the nodes from its last node up to the root.
-/

namespace Sglang.RadixCache
open List PathTree

structure SameConfig (c c' : RadixCache) : Prop where
  disable : c'.disable = c.disable
  pageSize : c'.pageSize = c.pageSize
  isEagle : c'.isEagle = c.isEagle
  disableFinishedInsert : c'.disableFinishedInsert = c.disableFinishedInsert

lemma SameConfig.refl (c : RadixCache) : SameConfig c c := ⟨rfl, rfl, rfl, rfl⟩

variable {c c' : RadixCache} {q' : NodePath}

lemma SameConfig.trans {c'' : RadixCache} (h : SameConfig c c') (h' : SameConfig c' c'') :
    SameConfig c c'' :=
  ⟨h'.1.trans h.1, h'.2.trans h.2, h'.3.trans h.3, h'.4.trans h.4⟩

lemma SameConfig.view_eq (h : SameConfig c c') (key : RadixKey) : c'.view key = c.view key := by
  rw [view, view, h.isEagle, h.pageSize]

lemma Splits.sameConfig (hs : Splits c c') : SameConfig c c' := by
  induction hs with
  | refl c => exact .refl c
  | step _ _ ih => exact ⟨ih.1, ih.2, ih.3, ih.4⟩

lemma Splits.counted (hs : Splits c c') (h : WellFormed c) (hcnt : Counted c) : Counted c' := by
  induction hs with
  | refl c => exact hcnt
  | step hc _ ih => exact ih (hc.wellFormed h) (hc.counted h hcnt)

structure Locks (c : RadixCache) (held : List NodePath) : Prop where
  count : ∀ n ∈ c.nodes, n.lockRef = held.countP fun l => path n <+: l
  hasPath : ∀ l ∈ held, c.HasPath l

variable {c c' : RadixCache} {n m child leaf : TreeNode} {q : NodePath} {k : Nat}
  {held : List NodePath} {crossing d : Int}

lemma Locks.nil (h : c.nodes = []) : Locks c [] :=
  ⟨fun _ hn => absurd (h ▸ hn) not_mem_nil, nofun⟩

variable (hl : Locks c held)
include hl

lemma Locks.perm {held' : List NodePath} (hp : held.Perm held') : Locks c held' :=
  ⟨fun n hn => by rw [hl.count n hn, hp.countP_eq], fun l hm => hl.hasPath l (hp.mem_iff.mpr hm)⟩

lemma Locks.mono (hn : n ∈ c.nodes) (hm : m ∈ c.nodes)
    (hnm : path n <+: path m) : m.lockRef ≤ n.lockRef := by
  rw [hl.count n hn, hl.count m hm]
  refine Int.ofNat_le.mpr (countP_mono_left fun l _ hml => ?_)
  grind

lemma Locks.locked {l : NodePath} (hn : n ∈ c.nodes) (hmem : l ∈ held)
    (hnl : path n <+: l) : 0 < n.lockRef := by
  rw [hl.count n hn]
  have : 0 < held.countP fun l => path n <+: l :=
    countP_pos_iff.mpr ⟨l, hmem, by simpa using hnl⟩
  exact_mod_cast this

/-! ## The steps other than locking -/

lemma Locks.splitNode (h : WellFormed c) (hc : Cuts c child k) : Locks (c.splitNode child k) held where
  hasPath l hm := (hl.hasPath l hm).splitNode
  count := by
    have hchild := hl.count child hc.mem
    refine forall_mem_cons.mpr ⟨?_, forall_mem_cons.mpr ⟨?_, ?_⟩⟩
    · -- a held lock ends at a node, so one that passes the cut passes the child
      rw [show (c.splitUpper child k).lockRef = child.lockRef from rfl, hchild, Int.natCast_inj]
      refine countP_congr fun l hm => ?_
      simp only [decide_eq_true_eq]
      refine ⟨fun hpass => Cuts.upper_prefix.trans hpass, fun hpass => ?_⟩
      rcases hl.hasPath l hm with rfl | ⟨m, hmem, rfl⟩
      · have hlen := hpass.length_le
        have := hc.pos
        rw [hc.length_upper, length_nil] at hlen
        omega
      · exact h.valid.path_prefix_of_covers hmem hc.mem (hc.dvd_upper h) hc.covers_upper hpass
    · rw [path_splitLower]
      exact hchild
    · exact fun m hm => hl.count m (Keyed.mem_remove.mp hm).1

lemma Locks.splits (h : WellFormed c) (hs : Splits c c') : Locks c' held := by
  induction hs with
  | refl c => exact hl
  | step hc _ ih => exact ih (hl.splitNode h hc) (hc.wellFormed h)

omit hl

variable (h : WellFormed c)
include h

lemma NewLeaf.path_not_mem (hleaf : NewLeaf c leaf) (hm : m ∈ c.nodes) : path m ≠ path leaf := by
  have hnodup := (hleaf.wellFormed h).valid.path_nodup
  rw [show (c.addLeaf leaf).nodes = leaf :: c.nodes from rfl, map_cons, nodup_cons] at hnodup
  exact fun e => hnodup.1 (e ▸ mem_map_of_mem hm)

lemma NewLeaf.isLeaf (hleaf : NewLeaf c leaf) : IsLeaf (c.addLeaf leaf).nodes (path leaf) := by
  have hv := (hleaf.wellFormed h).valid
  have hmem : leaf ∈ (c.addLeaf leaf).nodes := mem_cons_self
  have hlt := hv.length_parent_lt hmem
  refine forall_mem_cons.mpr ⟨fun e => ?_, fun m hm e => ?_⟩
  · rw [e] at hlt
    exact lt_irrefl _ hlt
  · rcases h.valid.closed m hm with hnil | ⟨j, hj, he⟩
    · exact hv.path_ne_nil hmem (e ▸ hnil)
    · exact hleaf.path_not_mem h hj (he.trans e)

omit h
include hl

lemma Locks.addLeaf (h : WellFormed c) (hleaf : NewLeaf c leaf) : Locks (c.addLeaf leaf) held := by
  have hv := (hleaf.wellFormed h).valid
  have hmem : leaf ∈ (c.addLeaf leaf).nodes := mem_cons_self
  refine ⟨forall_mem_cons.mpr ⟨?_, hl.count⟩, fun l hm => ?_⟩
  swap
  · exact (hl.hasPath l hm).imp_right fun ⟨m, hmm, he⟩ => ⟨m, mem_cons_of_mem _ hmm, he⟩
  have hnone : held.countP (fun l => path leaf <+: l) = 0 := by
    rw [countP_eq_zero]
    intro l hm
    simp only [decide_eq_true_eq]
    intro hpass
    rcases hl.hasPath l hm with rfl | ⟨m, hmm, rfl⟩
    · exact hv.path_ne_nil hmem (prefix_nil.mp hpass)
    · have heq := hv.eq_of_leaf_prefix (mem_cons_of_mem _ hmm) (hleaf.isLeaf h) hpass hmem
      exact hleaf.path_not_mem h hmm (heq ▸ rfl)
  rw [hleaf.lockRef, hnone]
  rfl

lemma Locks.off_path {l : NodePath} (hd : Deletes c n) (hm : l ∈ held) : ¬ path n <+: l := by
  intro hpass
  have := hl.locked hd.mem hm hpass
  rw [hd.lockRef] at this
  exact lt_irrefl _ this

lemma Locks.removeLeaf (hd : Deletes c n) : Locks (c.removeLeaf n) held where
  count m hm := hl.count m (Keyed.mem_remove.mp hm).1
  hasPath l hm := by
    refine (hl.hasPath l hm).imp_right fun ⟨m, hmem, he⟩ => ⟨m, ?_, he⟩
    refine Keyed.mem_remove.mpr ⟨hmem, fun e => hl.off_path hd hm ?_⟩
    rw [← he, e]

omit hl

/-! ## The walk to the root -/

/-- The nodes on the path `q` with their counts changed. -/
def bumpAlong (d : Int) (q : NodePath) (n : TreeNode) : TreeNode :=
  if path n <+: q then n.bump d else n

lemma path_bump (d : Int) (n : TreeNode) : path (n.bump d) = path n := rfl

lemma path_bumpAlong (d : Int) (q : NodePath) (n : TreeNode) : path (bumpAlong d q n) = path n := by
  unfold bumpAlong
  split <;> rfl

lemma lockStep_sameConfig : SameConfig c (c.lockStep crossing d n) := by
  unfold lockStep
  split <;> exact ⟨rfl, rfl, rfl, rfl⟩

include h

lemma map_bumpAlong_lockStep (hn : n ∈ c.nodes) :
    (c.lockStep crossing d n).nodes.map (bumpAlong d n.parent) = c.nodes.map (bumpAlong d (path n)) := by
  rw [nodes_lockStep, Keyed.update, map_map]
  refine map_congr_left fun m hm => ?_
  simp only [Function.comp, bumpAlong]
  by_cases he : path m = path n
  · have hlt := h.valid.length_parent_lt hn
    have hpre : ¬ path m <+: n.parent := fun hp => by
      have := hp.length_le
      rw [he] at this
      exact absurd this (Nat.not_le_of_lt hlt)
    rw [if_pos he, path_bump, if_neg hpre, if_pos (he ▸ prefix_refl _)]
  have hiff : path m <+: n.parent ↔ path m <+: path n :=
    ⟨fun hp => hp.trans (parent_prefix_path n), fun hp => h.valid.prefix_parent hn hm hp
      fun e => he (e ▸ rfl)⟩
  rw [if_neg he]
  simp only [hiff]

lemma node?_nil : c.node? [] = none :=
  Keyed.get?_eq_none.mpr fun _ hn => h.valid.path_ne_nil hn

lemma map_bumpAlong_nil : c.nodes.map (bumpAlong d []) = c.nodes := by
  conv_rhs => rw [← map_id c.nodes]
  refine map_congr_left fun n hn => ?_
  rw [bumpAlong, if_neg fun hp => h.valid.path_ne_nil hn (prefix_nil.mp hp), id]

omit h

structure Walked (d : Int) (q : NodePath) (c c' : RadixCache) : Prop where
  wellFormed : WellFormed c'
  counted : Counted c'
  sameConfig : SameConfig c c'
  nodes : c'.nodes = c.nodes.map (bumpAlong d q)

variable (hw : Walked d q c c')
include hw

lemma Walked.hasPath (hq : c.HasPath q') : c'.HasPath q' := by
  refine hq.imp_right fun ⟨n, hn, he⟩ => ⟨bumpAlong d q n, ?_, by rw [path_bumpAlong, he]⟩
  rw [hw.nodes]
  exact mem_map_of_mem hn

lemma Walked.entry_eq : c'.entry q' = c.entry q' := by
  rw [entry, entry, hw.nodes, hw.sameConfig.pageSize]
  refine pageAt_map (fun n => ?_) (fun n => ?_) fun n => ?_
  all_goals
    unfold bumpAlong
    split <;> rfl

lemma Walked.slots_eq : c'.slots q' = c.slots q' :=
  slots_congr hw.sameConfig.pageSize fun _ _ _ _ => hw.entry_eq

omit hw

lemma lockWalk_spec {fuel : Nat} (delta : Int) (h : WellFormed c) (hcnt : Counted c)
    (hq : c.HasPath q) (hfuel : q.length ≤ fuel) (hch : LockChange crossing d)
    (h0 : ∀ n ∈ c.nodes, path n <+: q → 0 ≤ n.lockRef + d) :
    Walked d q c (lockWalk crossing d fuel c q delta).2 ∧ (lockWalk crossing d fuel c q delta).1 =
        delta + ((lockWalk crossing d fuel c q delta).2.evictableSize - c.evictableSize) := by
  induction fuel generalizing c q delta with
  | zero =>
    obtain rfl : q = [] := length_eq_zero_iff.mp (by omega)
    exact ⟨⟨h, hcnt, .refl c, (map_bumpAlong_nil h).symm⟩, by simp [lockWalk]⟩
  | succ fuel ih => ?_
  rw [lockWalk]
  rcases hq with rfl | ⟨n, hn, rfl⟩
  · rw [node?_nil h]
    exact ⟨⟨h, hcnt, .refl c, (map_bumpAlong_nil h).symm⟩, by simp⟩
  rw [h.node?_eq_some.mpr ⟨hn, rfl⟩]
  dsimp only
  have hlt := h.valid.length_parent_lt hn
  have hmem : ∀ {m}, m ∈ (c.lockStep crossing d n).nodes ↔
      m = n.bump d ∨ (m ∈ c.nodes ∧ path m ≠ path n) := by
    rw [nodes_lockStep]
    exact Keyed.mem_update h.valid.path_nodup hn
  have hparent : (c.lockStep crossing d n).HasPath n.parent := by
    refine (h.valid.closed n hn).imp_right fun ⟨m, hm, he⟩ => ⟨m, hmem.mpr (.inr ⟨hm, ?_⟩), he⟩
    exact fun e => ne_of_lt hlt (by rw [← he, e])
  have habove : ∀ m ∈ (c.lockStep crossing d n).nodes, path m <+: n.parent → 0 ≤ m.lockRef + d := by
    intro m hm hpre
    rcases hmem.mp hm with rfl | ⟨hm, -⟩
    · exact absurd hpre.length_le (Nat.not_le_of_lt hlt)
    · exact h0 m hm (hpre.trans (parent_prefix_path n))
  obtain ⟨hw, hdelta⟩ := ih (q := n.parent)
    (if n.lockRef = crossing then delta - d * n.key.len else delta)
    (lockStep_wellFormed h) (lockStep_counted h hn hch (h0 n hn (prefix_refl _)) hcnt)
    hparent (by rw [parent_node] at hlt; omega) habove
  refine ⟨⟨hw.wellFormed, hw.counted, lockStep_sameConfig.trans hw.sameConfig, ?_⟩, ?_⟩
  · rw [hw.nodes, map_bumpAlong_lockStep h hn]
  · rw [hdelta, evictableSize_lockStep]
    split <;> omega

/-! ## Taking and releasing locks -/

include h

lemma incLockRef_spec (hcnt : Counted c) (hl : Locks c held)
    (hq : c.HasPath q) (hen : c.disable = false) :
    Walked 1 q c (c.incLockRef q).2 ∧ Locks (c.incLockRef q).2 (q :: held) ∧
      (c.incLockRef q).1 = (c.incLockRef q).2.evictableSize - c.evictableSize := by
  rw [incLockRef, if_neg (by simp [hen])]
  obtain ⟨hw, hdelta⟩ := lockWalk_spec 0 h hcnt hq le_rfl (.inl ⟨rfl, rfl⟩)
    fun n hn _ => by
      have := hcnt.nonneg n hn
      omega
  refine ⟨hw, ⟨?_, ?_⟩, by rw [hdelta, zero_add]⟩
  · rw [hw.nodes]
    intro m hm
    obtain ⟨n, hn, rfl⟩ := mem_map.mp hm
    rw [path_bumpAlong, countP_cons, bumpAlong]
    have := hl.count n hn
    split <;> simp_all [TreeNode.bump]
  · refine forall_mem_cons.mpr ⟨hw.hasPath hq, fun l hm => hw.hasPath (hl.hasPath l hm)⟩

lemma decLockRef_spec (hcnt : Counted c) (hl : Locks c (q :: held)) (hen : c.disable = false) :
    Walked (-1) q c (c.decLockRef q).2 ∧ Locks (c.decLockRef q).2 held ∧
      (c.decLockRef q).1 = (c.decLockRef q).2.evictableSize - c.evictableSize := by
  rw [decLockRef, if_neg (by simp [hen])]
  obtain ⟨hw, hdelta⟩ := lockWalk_spec 0 h hcnt (hl.hasPath q mem_cons_self) le_rfl
    (.inr ⟨rfl, rfl⟩) fun n hn hpre => by
      have := hl.locked hn mem_cons_self hpre
      omega
  refine ⟨hw, ⟨?_, fun l hm => hw.hasPath (hl.hasPath l (mem_cons_of_mem _ hm))⟩,
    by rw [hdelta, zero_add]⟩
  rw [hw.nodes]
  intro m hm
  obtain ⟨n, hn, rfl⟩ := mem_map.mp hm
  rw [path_bumpAlong, bumpAlong]
  have := hl.count n hn
  split <;> simp_all [TreeNode.bump]
end Sglang.RadixCache
