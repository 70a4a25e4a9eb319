import Sglang.Mem.Allocator
import Sglang.Mem.RadixInv

/-!
# Who owns the pages

`Ledger N c a held own` accounts for every page of the pool: it is free, stored in the tree, or one
of `own`, the pages that requests hold for themselves.
-/

namespace Sglang
open List PathTree PagedAllocator

namespace RadixCache
/-- The pages of the slots that the nodes of the tree store. -/
def treePages (c : RadixCache) : List Nat := c.nodes.flatMap fun n => pageIds c.pageSize n.value

def NodesPaged (c : RadixCache) : Prop := ∀ n ∈ c.nodes, Paged c.pageSize n.value

variable {c c' : RadixCache} {n child : TreeNode} {q l : NodePath} {k : Nat}
  {ns : List TreeNode} {K : List Cell} {V : List Nat} {d : Int}

/-! ## The slots along a path -/

section
variable (h : WellFormed c)
include h

lemma length_entry (hd : c.pageSize ∣ q.length) (hc : Cached c.nodes q) :
    ((c.entry q).getD []).length = c.pageSize := by
  obtain ⟨n, hn, hcov⟩ := hc
  rw [entry, pageAt_of_covers h.valid hn hd hcov, Option.getD_some]
  exact length_pageOf h.valid hn hd hcov (by rw [h.value n hn, label_node, RadixKey.length_cells])

lemma along_take_hasPath (hq : c.HasPath q) (hk : k * c.pageSize ≤ q.length) :
    (c.slots q).take (k * c.pageSize) = c.slots (q.take (k * c.pageSize)) ∧
      (c.slots (q.take (k * c.pageSize))).length = k * c.pageSize := by
  refine along_take h.pos hk fun j hj => ?_
  have hle : (j + 1) * c.pageSize ≤ q.length :=
    le_trans (Nat.mul_le_mul_right c.pageSize hj) hk
  have hlen : (q.take ((j + 1) * c.pageSize)).length = (j + 1) * c.pageSize := by
    rw [length_take, min_eq_left hle]
  have hpos : 0 < (j + 1) * c.pageSize := Nat.mul_pos (Nat.succ_pos j) h.pos
  have hcached : Cached c.nodes q := (hq.cached h).resolve_left fun e => by
    rw [e, length_nil] at hle
    omega
  refine length_entry h (by rw [hlen]; exact Nat.dvd_mul_left ..) ?_
  refine hcached.of_prefix h.valid (List.take_prefix ..) fun e => ?_
  rw [e, length_nil] at hlen
  omega

lemma length_slots (hq : c.HasPath q) : (c.slots q).length = q.length := by
  obtain ⟨k, hk⟩ := h.dvd_hasPath hq
  rw [mul_comm] at hk
  have := (along_take_hasPath h hq (le_of_eq hk.symm)).2
  rwa [← hk, take_length] at this

lemma take_slots (hq : c.HasPath q) (hl : l <+: q)
    (hd : c.pageSize ∣ l.length) : (c.slots q).take l.length = c.slots l := by
  obtain ⟨k, hk⟩ := hd
  rw [mul_comm] at hk
  have hle := hl.length_le
  rw [hk] at hle
  have := (along_take_hasPath h hq hle).1
  rwa [← hk, ← prefix_iff_eq_take.mp hl] at this

lemma paged_slots (hpaged : NodesPaged c) (hq : c.HasPath q) : Paged c.pageSize (c.slots q) := by
  -- from the root down: the slots above a node, then its own
  induction hlen : q.length using Nat.strong_induction_on generalizing q with
  | _ m ih =>
    rcases hq with rfl | ⟨n, hn, rfl⟩
    · rw [slots, along_nil]
      exact .nil
    have hparent : c.HasPath n.parent := h.valid.closed n hn
    have hlt := h.valid.length_parent_lt hn
    have hsplit : c.slots (path n) = c.slots n.parent ++ n.value :=
      along_path h.valid h.pos hn (by rw [h.value n hn, label_node, RadixKey.length_cells])
    rw [hsplit, Paged.append_iff h.pos (by rw [length_slots h hparent]; exact h.dvd_hasPath hparent)]
    exact ⟨ih _ (hlen ▸ hlt) hparent rfl, hpaged n hn⟩
end

/-! ## The steps -/

lemma Cuts.value_cut (h : WellFormed c) (hc : Cuts c child k) :
    ∃ j, k = j * c.pageSize ∧ j * c.pageSize ≤ child.value.length := by
  obtain ⟨j, rfl⟩ := hc.dvd
  rw [mul_comm]
  exact ⟨j, rfl, by rw [h.value child hc.mem, mul_comm]; exact le_of_lt hc.lt⟩

lemma Cuts.treePages_perm (h : WellFormed c) (hc : Cuts c child k) :
    (c.splitNode child k).treePages.Perm c.treePages := by
  obtain ⟨j, rfl, hj⟩ := hc.value_cut h
  have hperm := (Keyed.perm_cons_remove h.valid.path_nodup hc.mem).flatMap_right
    fun n => pageIds c.pageSize n.value
  rw [flatMap_cons, pageIds_take_append_drop h.pos hj, append_assoc] at hperm
  exact hperm.symm

lemma Cuts.nodesPaged (h : WellFormed c) (hc : Cuts c child k) (hpaged : NodesPaged c) :
    NodesPaged (c.splitNode child k) := by
  obtain ⟨j, rfl, hj⟩ := hc.value_cut h
  obtain ⟨hup, hlow⟩ := (hpaged child hc.mem).take_drop h.pos hj
  exact forall_mem_cons.mpr ⟨hup, forall_mem_cons.mpr ⟨hlow, fun m hm =>
    hpaged m (Keyed.mem_remove.mp hm).1⟩⟩

lemma Splits.treePages_perm (hs : Splits c c') (h : WellFormed c) : c'.treePages.Perm c.treePages := by
  induction hs with
  | refl c => exact .refl _
  | step hc _ ih => exact (ih (hc.wellFormed h)).trans (hc.treePages_perm h)

lemma Splits.nodesPaged (hs : Splits c c') (h : WellFormed c) (hpaged : NodesPaged c) :
    NodesPaged c' := by
  induction hs with
  | refl c => exact hpaged
  | step hc _ ih => exact ih (hc.wellFormed h) (hc.nodesPaged h hpaged)

lemma Inserted.treePages_perm (hins : Inserted c K V q c')
    (h : WellFormed c) (hV : V.length = K.length) :
    c'.treePages.Perm (pageIds c.pageSize (V.drop q.length) ++ c.treePages) := by
  cases hins with
  | stored hs _ he =>
    rw [he, ← hV, drop_length, pageIds_nil h.pos, nil_append]
    exact hs.treePages_perm h
  | added hs _ _ _ hv =>
    rw [← hv, ← hs.pageSize_eq]
    exact (hs.treePages_perm h).append_left _

lemma Inserted.nodesPaged (hins : Inserted c K V q c')
    (h : WellFormed c) (hpaged : NodesPaged c) (hV : Paged c.pageSize (V.drop q.length)) :
    NodesPaged c' := by
  rcases hins with hs | ⟨hs, _, _, _, hv⟩
  · exact hs.nodesPaged h hpaged
  refine forall_mem_cons.mpr ⟨?_, hs.nodesPaged h hpaged⟩
  rw [hv, show (RadixCache.addLeaf ..).pageSize = c.pageSize from hs.pageSize_eq]
  exact hV

lemma Evicts.treePages_perm (he : Evicts c ns c') (h : WellFormed c) :
    c.treePages.Perm (ns.flatMap (fun n => pageIds c.pageSize n.value) ++ c'.treePages) := by
  have := (he.nodes_perm h).flatMap_right fun n => pageIds c.pageSize n.value
  rw [flatMap_append] at this
  rwa [treePages, treePages, he.sameConfig.pageSize]

lemma Evicts.nodesPaged (he : Evicts c ns c') (h : WellFormed c)
    (hpaged : NodesPaged c) : NodesPaged c' ∧ ∀ n ∈ ns, Paged c.pageSize n.value := by
  have hmem : ∀ n, n ∈ ns ∨ n ∈ c'.nodes → n ∈ c.nodes := fun n hn =>
    (he.nodes_perm h).mem_iff.mpr (mem_append.mpr hn)
  refine ⟨fun n hn => ?_, fun n hn => hpaged n (hmem n (.inl hn))⟩
  rw [he.sameConfig.pageSize]
  exact hpaged n (hmem n (.inr hn))

lemma value_bumpAlong (d : Int) (q : NodePath) (n : TreeNode) : (bumpAlong d q n).value = n.value := by
  unfold bumpAlong
  split <;> rfl

lemma Walked.treePages_eq (hw : Walked d q c c') : c'.treePages = c.treePages := by
  rw [treePages, treePages, hw.nodes, hw.sameConfig.pageSize, flatMap_map]
  simp only [value_bumpAlong]

lemma Walked.nodesPaged (hw : Walked d q c c') (hpaged : NodesPaged c) : NodesPaged c' := by
  rw [NodesPaged, hw.nodes, hw.sameConfig.pageSize, forall_mem_map]
  intro n hn
  rw [value_bumpAlong]
  exact hpaged n hn
end RadixCache

/-! ## The accounts -/

def freeNodes (a : PagedAllocator) (ns : List TreeNode) : PagedAllocator :=
  ns.foldl (fun a n => a.free n.value) a

/-- Every page of the pool is free, in the tree, or one of `own`. -/
structure Ledger (N : Nat) (c : RadixCache) (a : PagedAllocator) (held : List NodePath)
    (own : List Nat) : Prop where
  numPages : a.numPages = N
  pageSize : a.pageSize = c.pageSize
  inv : c.Inv held
  paged : c.NodesPaged
  settled : a.Settled
  pages : (a.freed ++ (c.treePages ++ own)).Perm (List.range' 1 N)

namespace Ledger
variable {N : Nat} {c c' : RadixCache} {a a' : PagedAllocator} {held held' : List NodePath}
  {own own' idx pages : List Nat} {q : NodePath}

lemma init (hp : 0 < c.pageSize) (ha : a.pageSize = c.pageSize) :
    Ledger a.numPages c.reset a.clear [] [] where
  numPages := rfl
  pageSize := ha
  inv := .reset hp
  paged _ hn := absurd hn not_mem_nil
  settled _ := rfl
  pages := by
    have hfreed : a.clear.freed = range' 1 a.numPages := by
      simp [freed, pending, clear]
    have htree : c.reset.treePages = [] := rfl
    rw [hfreed, htree, append_nil, append_nil]

section
variable (h : Ledger N c a held own)
include h

lemma perm (hown : own.Perm own') : Ledger N c a held own' :=
  { h with pages := ((hown.symm.append_left _).append_left _).trans h.pages }

lemma perm_held (hh : held.Perm held') : Ledger N c a held' own :=
  { h with inv := h.inv.perm hh }

lemma pos : 0 < a.pageSize := h.pageSize ▸ h.inv.wellFormed.pos

lemma nodup : (a.freed ++ (c.treePages ++ own)).Nodup :=
  h.pages.nodup_iff.mpr (nodup_range' ..)
end

/-! ## The allocator -/

lemma free (h : Ledger N c a held (pageIds a.pageSize idx ++ own)) (hidx : Paged a.pageSize idx) :
    Ledger N c (a.free idx) held own := by
  have hcfg := free_sameConfig (a := a) idx
  have hnodup : (pageIds a.pageSize idx ++ a.freed).Nodup := by
    refine (h.nodup.sublist ?_).perm perm_append_comm
    simp
  refine ⟨hcfg.numPages.trans h.numPages, hcfg.pageSize.trans h.pageSize, h.inv, h.paged,
    h.settled.free idx, ?_⟩
  refine Perm.trans (perm_iff_count.mpr fun x => ?_) h.pages
  have := (free_spec h.pos hidx hnodup).count_eq x
  simp only [count_append] at this ⊢
  omega

/-! ## The tree -/

/-- What a call of the tree keeps for lock holders: the settings and the slots along their paths. -/
structure Steady (c c' : RadixCache) (held : List NodePath) : Prop where
  sameConfig : c.SameConfig c'
  slots : ∀ l ∈ held, c'.slots l = c.slots l

lemma Steady.refl (c : RadixCache) (held : List NodePath) : Steady c c held :=
  ⟨.refl c, fun _ _ => rfl⟩

lemma Steady.trans {c'' : RadixCache} (h : Steady c c' held) (h' : Steady c' c'' held) :
    Steady c c'' held :=
  ⟨h.1.trans h'.1, fun l hl => (h'.2 l hl).trans (h.2 l hl)⟩

lemma Steady.of_subset (h : Steady c c' held) (hs : ∀ l ∈ held', l ∈ held) : Steady c c' held' :=
  ⟨h.1, fun l hl => h.2 l (hs l hl)⟩

variable (h : Ledger N c a held own)
include h

lemma take (ht : a.Takes pages a') : Ledger N c a' held (pages ++ own) where
  numPages := ht.sameConfig.numPages.trans h.numPages
  pageSize := ht.sameConfig.pageSize.trans h.pageSize
  inv := h.inv
  paged := h.paged
  settled := ht.settled h.settled
  pages := by
    refine Perm.trans (perm_iff_count.mpr fun x => ?_) h.pages
    have := ht.freed_perm.count_eq x
    simp only [count_append] at this ⊢
    omega

lemma freeGroupBegin (hopen : a.isNotInFreeGroup = true) : Ledger N c a.freeGroupBegin held own :=
  { h with
    settled := h.settled
    pages := by
      rw [freeGroupBegin_freed hopen]
      exact h.pages }

lemma freeGroupEnd (hopen : a.isNotInFreeGroup = false) : Ledger N c a.freeGroupEnd held own := by
  have hcfg := freeGroupEnd_sameConfig (a := a)
  refine ⟨hcfg.numPages.trans h.numPages, hcfg.pageSize.trans h.pageSize, h.inv, h.paged,
    h.settled.freeGroupEnd, ?_⟩
  exact ((freeGroupEnd_freed hopen).append_right _).trans h.pages

lemma splits (hs : c.Splits c') : Ledger N c' a held own where
  numPages := h.numPages
  pageSize := h.pageSize.trans hs.pageSize_eq.symm
  inv := h.inv.splits hs
  paged := hs.nodesPaged h.inv.wellFormed h.paged
  settled := h.settled
  pages := (((hs.treePages_perm h.inv.wellFormed).append_right _).append_left _).trans h.pages

lemma matchPrefix (hen : c.disable = false) (key : RadixKey) :
    ∃ r c', c.matchPrefix key = .ok (r, c') ∧ Ledger N c' a held own ∧ Steady c c' held ∧
      c'.HasPath r.lastNode ∧ c.Found (c.view key).cells r.lastNode ∧
      r.deviceIndices = c'.slots r.lastNode := by
  obtain ⟨r, c', hrun, hs, hpath, hfound, hidx⟩ :=
    RadixCache.matchPrefix_spec h.inv.wellFormed hen key
  refine ⟨r, c', hrun, h.splits hs, ⟨hs.sameConfig, fun _ _ => hs.slots_eq h.inv.wellFormed⟩, hpath,
    hfound, ?_⟩
  rw [hidx, hs.slots_eq h.inv.wellFormed]

lemma length_le_of_found {K : List Cell} {l : NodePath}
    (hf : c.Found K q) (hl : c.HasPath l) (hlK : l <+: K) : l.length ≤ q.length := by
  by_contra hlt
  have hwf := h.inv.wellFormed
  have hne : l ≠ [] := fun e => hlt (by rw [e]; exact zero_le)
  refine hf.longest.longest l.length (hwf.dvd_hasPath hl) (by omega) hlK.length_le ?_
  rw [← prefix_iff_eq_take.mp hlK]
  exact (hl.cached hwf).resolve_left hne

omit h

lemma insert (key : RadixKey) {values : List Nat} (h : Ledger N c a held own)
    (hen : c.disable = false) (hlen : values.length = (c.view key).len) (hv : Paged c.pageSize values) :
    ∃ r c', c.insert key (some values) = .ok (r, c') ∧ Steady c c' held ∧
      c'.HasPath (c.view key).cells ∧ c.pageSize ∣ r.prefixLen ∧ r.prefixLen ≤ values.length ∧
      (∀ l ∈ held, l <+: (c.view key).cells → l.length ≤ r.prefixLen) ∧
      ∀ own', own.Perm (pageIds c.pageSize (values.drop r.prefixLen) ++ own') →
        Ledger N c' a held own' := by
  have hwf := h.inv.wellFormed
  obtain ⟨r, c', hrun, -, q, hfound, hpre, hins⟩ :=
    RadixCache.insert_spec (c := c) hwf hen
      (show c.EnoughSlots key (some values) from
        fun _ e => by cases e; exact le_of_eq hlen.symm)
  rw [RadixCache.insertValue_some, ← hlen, take_length] at hins
  have hK : values.length = (c.view key).cells.length := by rw [hlen, RadixKey.length_cells]
  have hd : c.pageSize ∣ q.length := hfound.longest.dvd
  have hle : q.length ≤ values.length := hK ▸ hfound.isPrefix.length_le
  have hrest : Paged c.pageSize (values.drop q.length) := by
    obtain ⟨k, hk⟩ := hd
    rw [mul_comm] at hk
    rw [hk] at hle ⊢
    exact (hv.take_drop hwf.pos hle).2
  refine ⟨r, c', hrun, ⟨hins.sameConfig, fun l hl => hins.slots_eq hwf (h.inv.locks.hasPath l hl)⟩,
    hins.hasPath, ?_⟩
  rw [hpre]
  refine ⟨hd, hle, fun l hl hlK =>
      h.length_le_of_found hfound (h.inv.locks.hasPath l hl) hlK, fun own' hown => ?_⟩
  refine ⟨h.numPages, h.pageSize.trans hins.sameConfig.pageSize.symm, h.inv.inserted hen hins,
    hins.nodesPaged hwf h.paged hrest, h.settled, ?_⟩
  refine Perm.trans (perm_iff_count.mpr fun x => ?_) h.pages
  have htree := (hins.treePages_perm hwf hK).count_eq x
  grind

include h

lemma relock {held' : List NodePath} (hr : RadixCache.Relocks c c' held') :
    Ledger N c' a held' own ∧ (∀ ls, Steady c c' ls) ∧ ∀ l, c.HasPath l → c'.HasPath l := by
  obtain ⟨hinv, hcfg, hslots⟩ := h.inv.relock hr
  have hsame : c'.treePages = c.treePages ∧ c'.NodesPaged ∧ ∀ l, c.HasPath l → c'.HasPath l := by
    obtain ⟨rfl, -, -⟩ | ⟨d, q, hw, -⟩ := hr
    · exact ⟨rfl, h.paged, fun _ hl => hl⟩
    · exact ⟨hw.treePages_eq, hw.nodesPaged h.paged, fun _ hl => hw.hasPath hl⟩
  exact ⟨⟨h.numPages, h.pageSize.trans hcfg.pageSize.symm, hinv, hsame.2.1, h.settled,
    hsame.1 ▸ h.pages⟩, fun _ => ⟨hcfg, fun l _ => hslots l⟩, hsame.2.2⟩

lemma incLockRef (hq : c.HasPath q) :
    Ledger N (c.incLockRef q).2 a (q :: held) own ∧ ∀ ls, Steady c (c.incLockRef q).2 ls :=
  (h.relock (h.inv.relocks_inc hq)).imp_right And.left

omit h

lemma decLockRef (h : Ledger N c a (q :: held) own) :
    Ledger N (c.decLockRef q).2 a held own ∧ (∀ ls, Steady c (c.decLockRef q).2 ls) ∧
      ∀ l, c.HasPath l → (c.decLockRef q).2.HasPath l :=
  h.relock h.inv.relocks_dec

lemma freeNodes {ns : List TreeNode}
    (h : Ledger N c a held (ns.flatMap (fun n => pageIds c.pageSize n.value) ++ own))
    (hns : ∀ n ∈ ns, Paged c.pageSize n.value) : Ledger N c (freeNodes a ns) held own := by
  induction ns generalizing a with
  | nil => exact h
  | cons n ns ih =>
    rw [forall_mem_cons] at hns
    rw [flatMap_cons, append_assoc, ← h.pageSize] at h
    refine ih ?_ hns.2
    have := h.free (h.pageSize ▸ hns.1)
    rwa [h.pageSize] at this

include h

lemma evict (pick : Nat → Nat) (want : Nat) :
    ∃ ns c', c.evict pick want = .ok (ns, c') ∧ Ledger N c' (Sglang.freeNodes a ns) held own ∧
      Steady c c' held := by
  obtain ⟨ns, c', hrun, hk, -⟩ := h.inv.evict pick want
  refine ⟨ns, c', hrun, ?_, hk.sameConfig, hk.slots⟩
  rcases hen : c.disable with _ | _
  swap
  · rw [RadixCache.evict_disabled hen] at hrun
    cases hrun
    exact h
  obtain ⟨ns', c'', hrun', he, -⟩ :=
    RadixCache.evict_spec h.inv.wellFormed h.inv.counted hen pick want
  rw [hrun'] at hrun
  cases hrun
  have hwf := h.inv.wellFormed
  have hpaged := he.nodesPaged hwf h.paged
  have hcfg := he.sameConfig.pageSize
  refine freeNodes ?_ (hcfg.symm ▸ hpaged.2)
  refine ⟨h.numPages, h.pageSize.trans hcfg.symm, h.inv.evicts he, hpaged.1, h.settled, ?_⟩
  refine Perm.trans (perm_iff_count.mpr fun x => ?_) h.pages
  have htree := (he.treePages_perm hwf).count_eq x
  grind
end Ledger
end Sglang
