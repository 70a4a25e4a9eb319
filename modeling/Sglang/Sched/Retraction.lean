import Sglang.Sched.Decode
import Sglang.Mem.Conservation

/-!
# Decoding never runs out of memory

The check counts the slots of the pages that the next step opens; so does the allocator, in two
other ways.
-/

namespace Sglang
open List PathTree

namespace PagedAllocator
variable {a a' a'' : PagedAllocator}

structure Freed (a a' : PagedAllocator) : Prop where
  sameConfig : SameConfig a a'
  settled : a.Settled → a'.Settled
  available : a.availableSize ≤ a'.availableSize

lemma Freed.refl (a : PagedAllocator) : Freed a a := ⟨.refl a, id, le_rfl⟩

lemma Freed.trans (h : Freed a a') (h' : Freed a' a'') : Freed a a'' :=
  ⟨h.sameConfig.trans h'.sameConfig, fun hs => h'.settled (h.settled hs), h.available.trans h'.available⟩

lemma freed_free (a : PagedAllocator) (idx : List Nat) : Freed a (a.free idx) :=
  ⟨free_sameConfig idx, fun hs => hs.free idx, availableSize_le_free idx⟩

lemma freed_freeNodes (a : PagedAllocator) (ns : List TreeNode) : Freed a (freeNodes a ns) := by
  induction ns generalizing a with
  | nil => exact .refl a
  | cons n ns ih => exact (freed_free a n.value).trans (ih _)
end PagedAllocator

open PagedAllocator (Freed freed_free freed_freeNodes)

namespace KvPool
section
variable (s : KvPool) (rids : List Nat)

structure Sound : Prop where
  cache : s.cache.Inv (locksOf s.reqs)
  pageSize : s.alloc.pageSize = s.cache.pageSize
  settled : s.alloc.Settled
  rids : (s.reqs.map Req.rid).Nodup

def Decodes (args : MemArgs) (r : Req) : Prop :=
  r.row ≠ none ∧ (args.speculative = false → r.kvCommittedLen = r.kvAllocatedLen)
deriving Decidable

def DecodeBatch : Prop :=
  s.Each (rids.map fun rid => (rid, 0)) fun r _ => Decodes s.args r
deriving Decidable

/-- The listed requests have been released in turn, nothing else; accounted pools stay so. -/
structure Released (s' : KvPool) : Prop where
  args : s'.args = s.args
  reqs : s'.reqs = rids.foldl (fun rs rid => Keyed.update Req.rid rid Req.released rs) s.reqs
  cache : s.cache.SameConfig s'.cache
  alloc : Freed s.alloc s'.alloc
  sound : s'.Sound
  inv : ∀ N, s.Inv N → (∀ r ∈ s.reqs, r.rid ∈ rids → s.CanRelease r) → s'.Inv N

def Fits (reserve : Nat) (rids : List Nat) : Prop :=
  ∃ rs, s.selected rids = some rs ∧ s.newTokensRequiredNextDecode reserve rs ≤ s.alloc.availableSize
end

variable {N : Nat} {s s' s'' : KvPool} {rids rids' : List Nat} {r : Req} {rid : Nat}
  {c : RadixCache} {locks : List NodePath} {w : List Nat}

lemma Inv.sound (h : s.Inv N) : s.Sound :=
  ⟨h.ledger.inv, h.ledger.pageSize, h.ledger.settled, h.rids⟩

lemma Sound.req?_eq_some (h : s.Sound) : s.req? rid = some r ↔ r ∈ s.reqs ∧ r.rid = rid :=
  Keyed.get?_eq_some h.rids

/-! ## Releasing in a row -/

lemma Released.refl (h : s.Sound) : Released s [] s :=
  ⟨rfl, rfl, .refl _, .refl _, h, fun _ hinv _ => hinv⟩

section
variable (h : Released s rids s')
include h

lemma Released.mem (hr : r ∈ s.reqs) (hn : r.rid ∉ rids) : r ∈ s'.reqs := by
  rw [h.reqs]
  clear h
  induction rids generalizing s with
  | nil => exact hr
  | cons rid rids ih =>
    rw [mem_cons, not_or] at hn
    exact ih (s := { s with reqs := _ }) (mem_map.mpr ⟨r, hr, if_neg hn.1⟩) hn.2

lemma Released.req? (rid : Nat) (hnd : rids.Nodup) :
    s'.req? rid = if rid ∈ rids then (s.req? rid).map Req.released else s.req? rid := by
  rw [KvPool.req?, KvPool.req?, h.reqs]
  clear h
  induction rids generalizing s with
  | nil => rfl
  | cons k rids ih =>
    rw [nodup_cons] at hnd
    rw [foldl_cons, ih (s := { s with reqs := _ }) hnd.2]
    rw [Keyed.get?_update fun x hx => (show (Req.released x).rid = k from hx)]
    grind

lemma Released.mem_of_mem (hnd : rids.Nodup) (hr : r ∈ s'.reqs) (hn : r.rid ∉ rids) : r ∈ s.reqs := by
  have hfound := h.req? r.rid hnd
  rw [if_neg hn, h.sound.req?_eq_some.mpr ⟨hr, rfl⟩] at hfound
  exact mem_of_find?_eq_some hfound.symm

lemma Released.canRelease (hc : s.CanRelease r) : s'.CanRelease r := by
  rw [CanRelease, h.cache.isEagle, h.args]
  exact hc

lemma Released.trans (h' : Released s' rids' s'')
    (hnd : (rids ++ rids').Nodup) : Released s (rids ++ rids') s'' where
  args := h'.args.trans h.args
  reqs := by rw [h'.reqs, h.reqs, foldl_append]
  cache := h.cache.trans h'.cache
  alloc := h.alloc.trans h'.alloc
  sound := h'.sound
  inv N hinv hcan := by
    obtain ⟨hnd1, -, hdisj⟩ := nodup_append'.mp hnd
    have hinv' := h.inv N hinv fun r hr hmem => hcan r hr (mem_append_left _ hmem)
    refine h'.inv N hinv' fun r hr hmem => h.canRelease ?_
    -- a request that is released later is still the one it was at the start
    have hr0 := h.mem_of_mem hnd1 hr fun hm => hdisj hm hmem
    exact hcan r hr0 (mem_append_right _ hmem)

lemma Released.decodeBatch (hb : s.DecodeBatch rids')
    (hd : ∀ rid ∈ rids', rid ∉ rids) : s'.DecodeBatch rids' := by
  refine ⟨hb.1, fun b hbm => ?_⟩
  obtain ⟨r, hr, hrid, hdec⟩ := hb.2 b hbm
  obtain ⟨rid, hmem, rfl⟩ := mem_map.mp hbm
  refine ⟨r, h.mem hr ?_, hrid, ?_⟩
  · rw [hrid]
    exact hd rid hmem
  · rw [h.args]
    exact hdec
end

/-! ## Making room -/

lemma evictFromTreeCache_freed (h : s.cache.Inv locks) (pick : Nat → Nat) (want : Nat) :
    ∃ c' a', s.evictFromTreeCache pick want = .ok { s with cache := c', alloc := a' } ∧
      c'.Inv locks ∧ s.cache.SameConfig c' ∧ Freed s.alloc a' := by
  rw [evictFromTreeCache]
  split
  · obtain ⟨ns, c', hrun, hk, -⟩ := h.evict pick want
    refine ⟨c', freeNodes s.alloc ns, ?_, hk.inv, hk.sameConfig, freed_freeNodes ..⟩
    rw [evict, hrun]
    rfl
  · exact ⟨s.cache, s.alloc, rfl, h, .refl _, .refl _⟩

lemma Sound.evictFromTreeCache (h : s.Sound) (pick : Nat → Nat) (want : Nat) :
    ∃ s', s.evictFromTreeCache pick want = .ok s' ∧ Released s [] s' := by
  obtain ⟨c', a', hrun, hinv, hcfg, hfreed⟩ := evictFromTreeCache_freed h.cache pick want
  refine ⟨_, hrun, rfl, rfl, hcfg, hfreed, ⟨hinv, ?_, hfreed.settled h.settled, h.rids⟩, ?_⟩
  · exact hfreed.sameConfig.pageSize.trans (h.pageSize.trans hcfg.pageSize.symm)
  intro N hN _
  obtain ⟨c'', a'', hrun', hN', -⟩ := hN.evictFromTreeCache pick want
  rw [hrun, Except.ok.injEq] at hrun'
  rwa [hrun']

lemma Released.selected (h : Released s [] s') (rids : List Nat) :
    s'.selected rids = s.selected rids := by
  have hreq : s'.req? = s.req? := by
    funext rid
    rw [KvPool.req?, KvPool.req?, h.reqs]
    rfl
  rw [KvPool.selected, KvPool.selected, KvPool.batchReqs, KvPool.batchReqs, hreq]

lemma Released.newTokensRequired (h : Released s rids s') (res : Nat) (rs : List Req) :
    s'.newTokensRequiredNextDecode res rs = s.newTokensRequiredNextDecode res rs := by
  rw [newTokensRequiredNextDecode, newTokensRequiredNextDecode, h.args, h.alloc.sameConfig.pageSize]

lemma DecodeBatch.selected (h : s.Sound) (hb : s.DecodeBatch rids) :
    ∃ rs, s.selected rids = some rs ∧ rs.map Req.rid = rids ∧
      ∀ r ∈ rs, r ∈ s.reqs ∧ Decodes s.args r := by
  obtain ⟨rs, hrs, hmap, hall⟩ := Each.batchReqs h.rids hb
  refine ⟨rs.map Prod.fst, ?_, ?_, forall_mem_map.mpr hall⟩
  · rw [KvPool.selected, hrs]
    rfl
  · rw [map_map] at hmap ⊢
    exact hmap.trans (map_id _)

lemma checkDecodeMem_spec (h : s.Sound) (hb : s.DecodeBatch rids) (pick : Nat → Nat) (res : Nat) :
    ∃ fits s', s.checkDecodeMem pick res rids = .ok (fits, s') ∧ Released s [] s' ∧
      (fits = true → s'.Fits res rids) := by
  obtain ⟨rs, hrs, -, -⟩ := DecodeBatch.selected h hb
  obtain ⟨s', hrun, hrel⟩ := h.evictFromTreeCache pick (s.newTokensRequiredNextDecode res rs)
  rw [checkDecodeMem, hrs]
  simp only [hrun, bind, Except.bind]
  refine ⟨_, s', rfl, hrel, fun hfits => ⟨rs, (hrel.selected rids).trans hrs, ?_⟩⟩
  rw [hrel.newTokensRequired]
  exact of_decide_eq_true hfits

/-! ## Releasing one request -/

lemma releaseOverallocated_freed (n : Nat)
    (hplain : s.args.speculative = false → s.args.stripThinkingCache = false → n = w.length) :
    ∃ a', s.releaseOverallocated w n = .ok { s with alloc := a' } ∧ Freed s.alloc a' := by
  rw [releaseOverallocated]
  dsimp only
  rw [if_neg fun hc => hc.2.2 (hplain hc.1 hc.2.1)]
  generalize (if s.alloc.pageSize > 1 then ceilAlign n s.alloc.pageSize else n) = start
  split
  · exact ⟨_, rfl, freed_free ..⟩
  · exact ⟨_, rfl, .refl _⟩

lemma cacheFinishedReq_freed (h : s.cache.Inv (r.lastNode.toList ++ locks)) (n : Nat) :
    ∃ c' a', s.cacheFinishedReq r w false n = .ok { s with cache := c', alloc := a' } ∧
      c'.Inv locks ∧ s.cache.SameConfig c' ∧ Freed s.alloc a' := by
  rw [cacheFinishedReq]
  rcases hen : s.cache.disable with _ | _
  swap
  · refine ⟨s.cache, _, if_pos rfl, ?_, .refl _, freed_free ..⟩
    rcases hq : r.lastNode with _ | q
    · simpa [hq] using h
    rw [hq] at h
    have hsame : (s.cache.decLockRef q).2 = s.cache := by simp [RadixCache.decLockRef, hen]
    exact hsame ▸ (h.relock h.relocks_dec).1
  refine ⟨_, _, rfl, ?_, ?_, (freed_free ..).trans (freed_free ..)⟩
  · rcases hq : r.lastNode with _ | q
    · simpa [hq] using h
    rw [hq] at h
    exact (h.relock h.relocks_dec).1
  rcases hq : r.lastNode with _ | q
  · exact .refl _
  rw [hq] at h
  exact (h.relock h.relocks_dec).2.1

lemma Sound.releaseKvCache (h : s.Sound) (hr : r ∈ s.reqs) (hd : Decodes s.args r) :
    ∃ c' a', s.releaseKvCache r.rid false =
        .ok (KvPool.setReq { s with cache := c', alloc := a' } { r with row := none }) ∧
      c'.Inv (locksOf (s.others r.rid)) ∧ s.cache.SameConfig c' ∧ Freed s.alloc a' := by
  obtain ⟨w, hw⟩ := Option.ne_none_iff_exists'.mp hd.1
  have hperm : (locksOf s.reqs).Perm (r.lastNode.toList ++ locksOf (s.others r.rid)) := by
    rw [← locksOf_cons]
    exact (Keyed.perm_cons_remove h.rids hr).filterMap _
  obtain ⟨c', a', hfin, hinv, hcfg, hfreed⟩ := cacheFinishedReq_freed (w := w)
    (h.cache.perm hperm) (r.effectiveKvCommittedLen s.args)
  obtain ⟨a'', hover, hfreed'⟩ := releaseOverallocated_freed
    (s := { s with cache := c', alloc := a' }) (w := w) (r.effectiveKvCommittedLen s.args)
    fun hspec hstrip => by
      rw [effectiveKvCommittedLen_eq r hstrip, hd.2 hspec, Req.kvAllocatedLen, hw]
      rfl
  refine ⟨c', a'', ?_, hinv, hcfg, hfreed.trans hfreed'⟩
  rw [KvPool.releaseKvCache, h.req?_eq_some.mpr ⟨hr, rfl⟩]
  simp only [hw, hfin, hover, bind, Except.bind]
  rfl

lemma Sound.releaseReq (h : s.Sound) (hr : r ∈ s.reqs) (hd : Decodes s.args r) (pick : Nat → Nat)
    (want : Nat) : ∃ s', s.releaseReq pick r.rid want = .ok s' ∧ Released s [r.rid] s' := by
  obtain ⟨c', a', hrel, hinv, hcfg, hfreed⟩ := h.releaseKvCache hr hd
  obtain ⟨c'', a'', hev, hinv', hcfg', hfreed'⟩ := evictFromTreeCache_freed
    (s := setReq { s with cache := c', alloc := a' } { r with row := none }) hinv pick
    want
  have hrun := releaseReq_eq h.rids hr hrel hev
  have hcfg'' := hcfg.trans hcfg'
  have hfreed'' := hfreed.trans hfreed'
  refine ⟨_, hrun, rfl, rfl, hcfg'', hfreed'', ⟨?_, ?_, hfreed''.settled h.settled, ?_⟩, ?_⟩
  · have hperm : (locksOf (Keyed.update Req.rid r.rid Req.released s.reqs)).Perm
        (locksOf (r.released :: s.others r.rid)) := (Keyed.update_perm h.rids hr).filterMap _
    exact hinv'.perm hperm.symm
  · exact hfreed''.sameConfig.pageSize.trans (h.pageSize.trans hcfg''.pageSize.symm)
  · have hkeys : (Keyed.update Req.rid r.rid Req.released s.reqs).map Req.rid =
        s.reqs.map Req.rid := Keyed.map_key_update fun _ _ hk => hk
    exact hkeys ▸ h.rids
  intro N hN hcan
  have hkept := hN.releaseReq hr (hcan r hr mem_cons_self) pick want
  rw [hrun] at hkept
  exact hkept.1

/-! ## The loop -/

variable (hb : s.DecodeBatch rids)
include hb

lemma DecodeBatch.nodup : rids.Nodup := by
  have := hb.1
  grind

lemma DecodeBatch.of_subset (hnd : rids'.Nodup)
    (hsub : ∀ rid ∈ rids', rid ∈ rids) : s.DecodeBatch rids' := by
  refine ⟨?_, fun b hbm => ?_⟩
  · grind
  · obtain ⟨rid, hmem, rfl⟩ := mem_map.mp hbm
    exact hb.2 _ (mem_map.mpr ⟨rid, hsub rid hmem, rfl⟩)

lemma DecodeBatch.perm (hp : rids.Perm rids') : s.DecodeBatch rids' :=
  hb.of_subset (hp.nodup_iff.mp hb.nodup) fun _ hm => hp.mem_iff.mpr hm

omit hb

lemma DecodeBatch.releaseReq (h : s.Sound) (hb : s.DecodeBatch (rid :: rids)) (pick : Nat → Nat)
    (want : Nat) :
    ∃ s', s.releaseReq pick rid want = .ok s' ∧ Released s [rid] s' ∧ s'.DecodeBatch rids := by
  obtain ⟨r, hr, rfl, hdec⟩ := hb.2 (rid, 0) (mem_map.mpr ⟨rid, mem_cons_self, rfl⟩)
  obtain ⟨s', hrun, hrel⟩ := h.releaseReq hr hdec pick want
  have hnd := nodup_cons.mp hb.nodup
  refine ⟨s', hrun, hrel, hrel.decodeBatch (hb.of_subset hnd.2 fun _ hm =>
    mem_cons_of_mem _ hm) fun k hk heq => hnd.1 ?_⟩
  rwa [← mem_singleton.mp heq]

section
variable (pick : Nat → Nat → Nat) (res : Nat) (args : RetractionArgs)

lemma retractLoop_spec (firstIter : Bool)
    (acc : List Nat) (h : s.Sound) (hb : s.DecodeBatch rids) (hne : rids ≠ []) :
    ∃ s' out left, retractLoop pick res firstIter s rids acc = .ok (s', left, acc ++ out) ∧
      rids = out ++ left ∧ left ≠ [] ∧ Released s out s' ∧
      (left.length ≠ 1 → s'.Fits res left.reverse) := by
  -- the list gets shorter with every request that is popped
  induction rids generalizing s firstIter acc with
  | nil => exact absurd rfl hne
  | cons idx rest ih => ?_
  rcases rest with _ | ⟨next, rest⟩
  · rw [retractLoop]
    cases firstIter with
    | true =>
      refine ⟨s, [], [idx], ?_, rfl, cons_ne_nil _ _, .refl h, fun hn => absurd rfl hn⟩
      rw [append_nil]
      rfl
    | false =>
      obtain ⟨fits, s', hrun, hrel, -⟩ := checkDecodeMem_spec h hb (pick 2) res
      refine ⟨s', [], [idx], ?_, rfl, cons_ne_nil _ _, hrel, fun hn => absurd rfl hn⟩
      rw [append_nil, hrun]
      rfl
  rw [retractLoop]
  -- one turn: the request in front goes, and the loop goes on with the others
  have hpop : ∀ s₁ : KvPool, Released s [] s₁ →
      ∃ s' out left, (do
          let s₂ ← s₁.releaseReq (pick (2 * (rest.length + 2) + 1)) idx
            ((rest.length + 2 - 1) * s₁.args.retractDecodeSteps)
          retractLoop pick res false s₂ (next :: rest) (acc ++ [idx])) = .ok (s', left, acc ++ out) ∧
        idx :: next :: rest = out ++ left ∧ left ≠ [] ∧ Released s out s' ∧
        (left.length ≠ 1 → s'.Fits res left.reverse) := by
    intro s₁ hrel1
    have hb1 := hrel1.decodeBatch hb fun _ _ => not_mem_nil
    obtain ⟨s₂, hrun2, hrel2, hb2⟩ := DecodeBatch.releaseReq hrel1.sound hb1
      (pick (2 * (rest.length + 2) + 1)) ((rest.length + 2 - 1) * s₁.args.retractDecodeSteps)
    obtain ⟨s', out, left, hrun, heq, hleft, hrel, hfits⟩ :=
      ih false (acc ++ [idx]) hrel2.sound hb2 (cons_ne_nil _ _)
    refine ⟨s', idx :: out, left, ?_, by rw [heq, cons_append], hleft, ?_, hfits⟩
    · rw [hrun2]
      simp only [bind, Except.bind, hrun, append_assoc, singleton_append]
    · have hnd := hb.nodup
      rw [heq, ← cons_append] at hnd
      exact hrel1.trans (hrel2.trans hrel (nodup_append'.mp hnd).1) (nodup_append'.mp hnd).1
  rcases firstIter with _ | _
  swap
  · exact hpop s (.refl h)
  obtain ⟨fits, s₁, hrun1, hrel1, hfits1⟩ := checkDecodeMem_spec h
    (hb.perm (reverse_perm _).symm) (pick (2 * (rest.length + 2))) res
  simp only [Bool.false_eq_true, if_false, hrun1, bind, Except.bind]
  cases fits with
  | true =>
    refine ⟨s₁, [], idx :: next :: rest, ?_, rfl, cons_ne_nil _ _, hrel1, fun _ =>
      hfits1 rfl⟩
    rw [append_nil]
    rfl
  | false => exact hpop s₁ hrel1

lemma getDecodeRetractionOrder_spec (h : s.Sound) (hb : s.DecodeBatch rids) :
    ∃ order, s.getDecodeRetractionOrder args rids = .ok order ∧ order.Perm rids := by
  obtain ⟨rs, hrs, hmap, -⟩ := DecodeBatch.selected h hb
  rw [getDecodeRetractionOrder, hrs]
  dsimp only
  split
  · exact ⟨rids, rfl, .refl _⟩
  · refine ⟨_, rfl, ?_⟩
    rw [← hmap]
    exact (perm_insertionSort _ rs).map Req.rid

/-- The batch is sorted into three lists, what is not kept is released, and the rest fits. -/
lemma retractDecode_spec (h : s.Sound) (hb : s.DecodeBatch rids) (hne : rids ≠ []) :
    ∃ s' out, s.retractDecode pick res args rids = .ok (s', out) ∧
      (out.kept ++ (out.retracted ++ out.aborted)).Perm rids ∧
      Released s (out.retracted ++ out.aborted) s' ∧ (out.kept ≠ [] → s'.Fits res out.kept) := by
  obtain ⟨order, horder, hperm⟩ := getDecodeRetractionOrder_spec args h hb
  have hrev : rids.Perm order.reverse := hperm.symm.trans (reverse_perm _).symm
  have hbrev := hb.perm hrev
  obtain ⟨s₁, out, left, hloop, heq, hleft, hrel, hfits⟩ := retractLoop_spec pick res true []
    h hbrev fun hnil => hne (perm_nil.mp (hnil ▸ hrev))
  rw [heq] at hrev hbrev
  have hnd := nodup_append'.mp hbrev.nodup
  have hb1 : s₁.DecodeBatch left :=
    hrel.decodeBatch (hbrev.of_subset hnd.2.1 fun _ hm => mem_append_right _ hm)
      fun _ hm ho => hnd.2.2 ho hm
  rw [retractDecode, horder]
  simp only [bind, Except.bind, hloop]
  rcases left with _ | ⟨lastIdx, left⟩
  · exact absurd rfl hleft
  rcases left with _ | ⟨next, left⟩
  swap
  · refine ⟨s₁, { kept := (lastIdx :: next :: left).reverse, retracted := out }, rfl, ?_, ?_, ?_⟩
    · grind
    · rwa [append_nil]
    · exact fun _ => hfits (by simp)
  obtain ⟨fits, s₂, hrun2, hrel2, hfits2⟩ := checkDecodeMem_spec hrel.sound hb1 (pick 0) res
  have hrel12 := hrel.trans hrel2 (by rw [append_nil]; exact hnd.1)
  simp only [hrun2]
  cases fits with
  | true =>
    refine ⟨s₂, { kept := [lastIdx], retracted := out }, rfl, ?_, hrel12, fun _ => hfits2 rfl⟩
    grind
  | false => ?_
  have hb2 := hrel2.decodeBatch hb1 fun _ _ => not_mem_nil
  obtain ⟨s₃, hrun3, hrel3, -⟩ := DecodeBatch.releaseReq hrel2.sound hb2 (pick 1) 0
  refine ⟨s₃, { kept := [], retracted := out, aborted := [lastIdx] }, ?_, hrev.symm, ?_,
    fun hn => absurd rfl hn⟩
  · simp only [Bool.false_eq_true, if_false, hrun3]
    rfl
  · exact hrel.trans (hrel2.trans hrel3 (nodup_singleton _)) hbrev.nodup
end

/-! ## The allocation -/

lemma newTokensRequired_plain (hp : 0 < s.alloc.pageSize) (hspec : s.args.speculative = false)
    (res : Nat) (rs : List Req) : s.newTokensRequiredNextDecode res rs =
      ((rs.map decodeReq).map (ExtendReq.numNewPages s.alloc.pageSize)).sum * s.alloc.pageSize := by
  rw [newTokensRequiredNextDecode]
  simp only [hspec, Bool.false_eq_true, if_false]
  congr 1
  induction rs with
  | nil => rfl
  | cons r rs ih =>
    rw [countP_cons, map_cons, map_cons, sum_cons, ih,
      numNewPages_mod hp (r := decodeReq r) rfl, add_comm]
    by_cases hmod : r.kvCommittedLen % s.alloc.pageSize = 0
    · simp [decodeReq, hmod]
    · simp [decodeReq, hmod]

lemma newTokensRequired_spec (hspec : s.args.speculative = true) (res : Nat) (rs : List Req) :
    s.newTokensRequiredNextDecode res rs =
      ((rs.map fun r => specReq r res).map (ExtendReq.numNewPages s.alloc.pageSize)).sum *
        s.alloc.pageSize := by
  rw [newTokensRequiredNextDecode]
  simp only [hspec, if_true]
  induction rs with
  | nil => simp
  | cons r rs ih =>
    have hnext : r.kvAllocatedLen + (r.kvCommittedLen + res - r.kvAllocatedLen) =
        max r.kvAllocatedLen (r.kvCommittedLen + res) := by omega
    rw [map_cons, map_cons, map_cons, sum_cons, sum_cons, ih, hnext,
      add_mul, ExtendReq.numNewPages, Nat.sub_mul, ceilAlign_eq, ceilAlign_eq]
    rfl

lemma Fits.prepareForDecode {res : Nat} (hf : s.Fits res rids) (h : s.Sound)
    (pick : Nat → Nat) : ∃ s', s.prepareForDecode pick res rids = .ok s' := by
  obtain ⟨rs, hrs, hle⟩ := hf
  obtain ⟨brs, hbrs, rfl⟩ := Option.map_eq_some_iff.mp hrs
  have hp : 0 < s.alloc.pageSize := by
    rw [h.pageSize]
    exact h.cache.wellFormed.pos
  rw [KvPool.prepareForDecode]
  rcases hspec : s.args.speculative with _ | _
  · have hmap : (brs.map Prod.fst).map decodeReq = brs.map fun x => decodeReq x.1 := map_map
    rw [newTokensRequired_plain hp hspec, hmap] at hle
    obtain ⟨s', hrun, hrel⟩ := h.evictFromTreeCache pick (brs.length * s.alloc.pageSize)
    have hps := hrel.alloc.sameConfig.pageSize
    have hle' := hle.trans hrel.alloc.available
    rw [← hps] at hle' hp
    obtain ⟨outs, a', halloc⟩ := allocDecodeSlots_isSome (brs.map fun x => decodeReq x.1)
      hrel.sound.settled hp (forall_mem_map.mpr fun _ _ => rfl) hle'
    rw [if_neg (by simp), allocForDecode, hbrs]
    simp only [bind, Except.bind, hrun, halloc]
    exact ⟨_, rfl⟩
  have hmap : (brs.map Prod.fst).map (fun r => specReq r res) =
      brs.map fun x => specReq x.1 res := map_map
  rw [newTokensRequired_spec hspec, hmap] at hle
  rw [if_pos rfl, allocForSpecDecode, hbrs]
  dsimp only
  split
  swap
  · exact ⟨s, rfl⟩
  rw [allocWithEvict]
  obtain ⟨s', hrun, hrel⟩ := h.evictFromTreeCache pick
    (evictTarget s.alloc.pageSize
      ((brs.map fun x => specReq x.1 res).map ExtendReq.extendLen).sum
      (brs.map fun x => specReq x.1 res).length)
  have hps := hrel.alloc.sameConfig.pageSize
  have hle' := hle.trans hrel.alloc.available
  rw [← hps] at hle' hp
  obtain ⟨outs, a', halloc⟩ := allocSlots_isSome (brs.map fun x => specReq x.1 res)
    hrel.sound.settled hp hle'
  simp only [bind, Except.bind, hrun, halloc]
  exact ⟨_, rfl⟩

lemma updateRunningBatch_ok (pick : Nat → Nat → Nat) (res : Nat) (args : RetractionArgs)
    (testRetract : Bool) (h : s.Sound) (hb : s.DecodeBatch rids) (hne : rids ≠ []) :
    ∃ s' out, s.updateRunningBatch pick res args testRetract rids = .ok (s', out) ∧
      (out.kept ++ (out.retracted ++ out.aborted)).Perm rids := by
  obtain ⟨fits, s₁, hrun1, hrel1, hfits1⟩ :=
    checkDecodeMem_spec h hb (pick (2 * rids.length + 2)) res
  have hb1 := hrel1.decodeBatch hb fun _ _ => not_mem_nil
  rw [updateRunningBatch, if_neg (by simpa using hne)]
  simp only [bind, Except.bind, hrun1]
  cases hgo : !fits || testRetract with
  | true =>
    obtain ⟨s₂, out, hrun2, hperm, hrel2, hfits2⟩ :=
      retractDecode_spec pick res args hrel1.sound hb1 hne
    simp only [if_true, hrun2]
    split
    · exact ⟨s₂, out, rfl, hperm⟩
    rename_i hkept
    obtain ⟨s₃, hrun3⟩ := (hfits2 (by simpa using hkept)).prepareForDecode hrel2.sound
      (pick (2 * rids.length + 3))
    rw [hrun3]
    exact ⟨s₃, out, rfl, hperm⟩
  | false => ?_
  have hfit : fits = true := by
    cases fits
    · cases hgo
    · rfl
  obtain ⟨s₃, hrun3⟩ := (hfits1 hfit).prepareForDecode hrel1.sound (pick (2 * rids.length + 3))
  simp only [Bool.false_eq_true, if_false, pure, Except.pure, hrun3]
  rw [if_neg (by simpa using hne)]
  exact ⟨s₃, { kept := rids }, rfl, by simp⟩

/-- `retract_decode` ends; those not kept are released once, the others untouched, accounted pools
stay so, and the step after a check never fails. -/
theorem decode_never_out_of_memory (h : s.Sound) (hb : s.DecodeBatch rids) (hne : rids ≠ [])
    (pick : Nat → Nat → Nat) (reserve : Nat) (args : RetractionArgs) (testRetract : Bool) :
    (∃ s' out, s.retractDecode pick reserve args rids = .ok (s', out) ∧
      (out.kept ++ (out.retracted ++ out.aborted)).Perm rids ∧
      (∀ rid, s'.req? rid = if rid ∈ out.retracted ++ out.aborted
        then (s.req? rid).map Req.released else s.req? rid) ∧
      ∀ N, s.Inv N → (∀ r ∈ s.reqs, r.rid ∈ rids → s.CanRelease r) → s'.Inv N) ∧
    ∃ s' out, s.updateRunningBatch pick reserve args testRetract rids = .ok (s', out) ∧
      (out.kept ++ (out.retracted ++ out.aborted)).Perm rids := by
  refine ⟨?_, updateRunningBatch_ok pick reserve args testRetract h hb hne⟩
  obtain ⟨s', out, hrun, hperm, hrel, -⟩ := retractDecode_spec pick reserve args h hb hne
  have hnd := (nodup_append'.mp (hperm.nodup_iff.mpr hb.nodup)).2.1
  refine ⟨s', out, hrun, hperm, fun rid => hrel.req? rid hnd, fun N hN hcan => ?_⟩
  refine hrel.inv N hN fun r hr hmem => hcan r hr ?_
  exact hperm.mem_iff.mp (mem_append_right _ hmem)

theorem full_pool_decodes : ∃ s : KvPool, s.alloc.availableSize = 0 ∧
    s.newTokensRequiredNextDecode 0 s.reqs = 4 ∧
    (∃ s' out, s.retractDecode (fun _ => id) 0 {} [1, 2] = .ok (s', out) ∧
      (out.kept ++ (out.retracted ++ out.aborted)).Perm [1, 2] ∧
      (∀ rid, s'.req? rid = if rid ∈ out.retracted ++ out.aborted
        then (s.req? rid).map Req.released else s.req? rid) ∧
      ∀ N, s.Inv N → (∀ r ∈ s.reqs, r.rid ∈ [1, 2] → s.CanRelease r) → s'.Inv N) ∧
    ∃ s' out, s.updateRunningBatch (fun _ => id) 0 {} false [1, 2] = .ok (s', out) ∧
      (out.kept ++ (out.retracted ++ out.aborted)).Perm [1, 2] := by
  have hr : Run next ok (fresh {
      cache := { pageSize := 2 }
      alloc := { pageSize := 2, numPages := 4, freePages := [] } }) _ _ :=
    Run.of_admitted [.arrive 1 [1, 2, 3, 4] none, .matchAndLock 1 3, .allocForExtend id [(1, 4)],
      .cacheUnfinishedReq 1, .arrive 2 [5, 6, 7, 8] none, .matchAndLock 2 3,
      .allocForExtend id [(2, 4)], .emit 1 9 false, .emit 2 9 false] .start (by decide +kernel)
  have hinv := (inv_of_run (by decide) rfl
    (fun s hi hargs op hok => ⟨hok, hi.reaches (by rw [hargs]) hok⟩) hr).1
  exact ⟨_, by decide +kernel, by decide +kernel,
    decode_never_out_of_memory hinv.sound (by decide +kernel) (cons_ne_nil _ _) _ _ _ _⟩
end KvPool
end Sglang
