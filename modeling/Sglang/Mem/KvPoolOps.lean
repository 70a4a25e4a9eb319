import Sglang.Mem.KvPoolInv

/-!
# The operations on the pool keep its invariant

Each operation either succeeds and keeps the invariant, or the allocator has run out of memory.
-/

namespace Sglang.KvPool
open List PathTree
open Option (getD_none getD_some ne_none_iff_exists')

/-- The invariant is kept, or the allocator has run out of memory. -/
def Kept (N : Nat) (s : KvPool) (x : Except PoolError KvPool) : Prop :=
  match x with
  | .ok s' => s'.Inv N ∧ s'.args = s.args
  | .error e => ∃ n, e = .outOfMemory n

variable {N : Nat} {s : KvPool} {r : Req} {rid : Nat} {pick : Nat → Nat}

/-! ## Admission -/

lemma prefix_cells_view (r : Req) (c : RadixCache) (limit : Nat) :
    (c.view { tokenIds := r.tokens, extraKey := r.extraKey, limit := some limit }).cells <+:
      r.cells c.isEagle := by
  rw [RadixCache.view, RadixKey.cells_pageAligned]
  refine (List.take_prefix ..).trans ?_
  cases c.isEagle <;> exact RadixKey.cells_limit_prefix rfl rfl rfl rfl

lemma Inv.matchAndLock (h : s.Inv N) (hr : r ∈ s.reqs) (hidle : r.lastNode = none) (limit : Nat) :
    Kept N s (s.matchAndLock r.rid limit) := by
  have hrow := (h.reqs r hr).idle hidle
  have hled := h.split hr
  rw [hidle, Req.ownPages, hrow, getD_none, drop_nil, Option.toList_none, nil_append] at hled
  -- the request after it has locked a node of the tree
  have hlock : ∀ {c' : RadixCache} {m : MatchResult},
      Ledger N c' s.alloc (locksOf (s.others r.rid))
        (pageIds s.cache.pageSize [] ++ pagesOf s.cache.pageSize (s.others r.rid)) →
      Ledger.Steady s.cache c' (locksOf (s.others r.rid)) →
      c'.HasPath m.lastNode → m.lastNode <+: r.cells s.cache.isEagle →
      m.deviceIndices = c'.slots m.lastNode →
      Inv N (KvPool.setReq { s with cache := (c'.incLockRef m.lastNode).2 }
        (r.matched m)) := by
    intro c' m hled hs hpath hpre hidx
    rw [Req.matched]
    obtain ⟨hled', hs'⟩ := hled.incLockRef hpath
    have hlen : m.deviceIndices.length = m.lastNode.length := by
      rw [hidx, RadixCache.length_slots hled.inv.wellFormed hpath]
    refine h.setReq (b := s.alloc) hr rfl ?_ (hs.trans (hs' _)) ?_
    · rw [Req.ownPages, hrow, getD_none, drop_nil]
      exact hled'
    have hcfg := hs.sameConfig.trans (hs' []).sameConfig
    refine ⟨fun hn => (by cases hn), fun q hq => ?_, fun _ q hq => ?_, fun w hw => ?_⟩
    · cases hq
      refine ⟨hlen, hcfg.isEagle ▸ hpre, ?_, ?_, le_of_eq hlen.symm⟩
      · rw [(hs' []).sameConfig.pageSize]
        rw [hidx]
        exact RadixCache.paged_slots hled.inv.wellFormed hled.paged hpath
      · rw [← hlen, take_length, hidx, (hs' [m.lastNode]).slots _ mem_cons_self]
    · cases hq
      exact hlen
    grind
  rw [KvPool.matchAndLock, h.req?_eq_some.mpr ⟨hr, rfl⟩]
  cases hen : s.cache.disable with
  | true =>
    dsimp only
    rw [RadixCache.matchPrefix_disabled hen]
    exact ⟨hlock hled (.refl ..) (.inl rfl) nil_prefix along_nil.symm, rfl⟩
  | false => ?_
  obtain ⟨m, c', hrun, hled', hs, hpath, hfound, hidx⟩ := hled.matchPrefix hen
    { tokenIds := r.tokens, extraKey := r.extraKey, limit := some limit }
  dsimp only
  rw [hrun]
  exact ⟨hlock hled' hs hpath (hfound.isPrefix.trans (prefix_cells_view r s.cache limit)) hidx,
    rfl⟩

/-! ## Allocation -/

lemma Inv.allocWithEvict {es : List ExtendReq} (h : s.Inv N) (pick : Nat → Nat)
    (hle : ∀ e ∈ es, e.prefixLen ≤ e.seqLen) :
    (∃ n, s.allocWithEvict pick es = .error (.outOfMemory n)) ∨
      ∃ (s' : KvPool) (a' : PagedAllocator) (pages : List Nat), s.allocWithEvict pick es =
          .ok (extendAll s'.cache.pageSize es pages, { s' with alloc := a' }) ∧
        s'.Inv N ∧ s'.reqs = s.reqs ∧ s'.args = s.args ∧ s'.alloc.Takes pages a' ∧
        pages.length = (es.map (ExtendReq.numNewPages s'.cache.pageSize)).sum := by
  obtain ⟨c', b, hrun, hinv, -⟩ := h.evictFromTreeCache pick
    (evictTarget s.alloc.pageSize (es.map ExtendReq.extendLen).sum es.length)
  rw [KvPool.allocWithEvict]
  simp only [hrun, bind, Except.bind]
  rcases halloc : allocSlots b es with _ | out
  · exact .inl ⟨_, rfl⟩
  obtain ⟨outs, a'⟩ := out
  obtain ⟨pages, htake, hlen, rfl⟩ := allocSlots_spec halloc hle
  have hp : b.pageSize = c'.pageSize := hinv.ledger.pageSize
  rw [hp] at hlen ⊢
  exact .inr ⟨_, a', pages, rfl, hinv, rfl, rfl, htake, hlen⟩

def CanExtend (r : Req) (seqLen : Nat) : Prop :=
  r.lastNode ≠ none ∧ r.prefixIndices.length < seqLen ∧ seqLen ≤ r.tokens.length ∧
    (r.row = none ∨ r.kvAllocatedLen = r.prefixIndices.length)
deriving Decidable

variable {args : MemArgs} {c : RadixCache} {q : NodePath} {w out chunk : List Nat} {seqLen : Nat}
  {batch : List Nat} {reserve : Nat}

lemma getLast?_toInt (v : List Nat) (n : Nat) (hn : v.length = n) (h0 : n ≠ 0) :
    (v.getLast?.map Int.ofNat).getD (-1) = v.getD (n - 1) 0 := by
  grind

def CanDecode (r : Req) (_ : Nat) : Prop := r.row ≠ none ∧ r.kvCommittedLen = r.kvAllocatedLen
deriving Decidable

variable (h : r.Good args c)
include h

lemma continues_extendReq (hc : CanExtend r seqLen) :
    Continues c.pageSize r.prefixIndices (extendReq r seqLen) := by
  obtain ⟨q, hq⟩ := ne_none_iff_exists'.mp hc.1
  exact ⟨(h.holding q hq).paged, rfl, le_of_lt hc.2.1, getLast?_toInt _ _ rfl⟩

lemma ownPages_of_canExtend (hc : CanExtend r seqLen) :
    r.ownPages c.pageSize = pageIds c.pageSize (r.prefixIndices.drop r.cacheProtectedLen) := by
  obtain ⟨q, hq⟩ := ne_none_iff_exists'.mp hc.1
  rcases hrow : r.row with _ | w
  · rw [Req.ownPages, hrow, (h.holding q hq).protectedLen, ← h.waiting hrow q hq, drop_length,
      getD_none, drop_nil]
  have hlen : w.length = r.prefixIndices.length := by
    rcases hc.2.2.2 with hnone | hlen
    · rw [hrow] at hnone
      cases hnone
    · rwa [Req.kvAllocatedLen, hrow] at hlen
  rw [Req.ownPages, hrow, ← (h.running w hrow).isPrefix.eq_of_length hlen.symm, getD_some]

lemma grownReq_extended (hwf : c.WellFormed)
    (hpath : ∀ q, r.lastNode = some q → c.HasPath q) (hc : CanExtend r seqLen)
    (hg : Grown c.pageSize r.prefixIndices (extendReq r seqLen) out chunk) :
    GrownReq args c r (extended r seqLen out) ∧
      ((extended r seqLen out).ownPages c.pageSize).Perm (chunk ++ r.ownPages c.pageSize) := by
  obtain ⟨q, hq⟩ := ne_none_iff_exists'.mp hc.1
  have hhold := h.holding q hq
  have hle : r.cacheProtectedLen ≤ r.prefixIndices.length := hhold.protectedLen ▸ hhold.le
  have hlen : (r.prefixIndices ++ out).length = seqLen := by
    have := hg.length
    rw [ExtendReq.extendLen, extendReq] at this
    have hlt := hc.2.1
    grind
  refine ⟨⟨rfl, rfl, ⟨fun hn => absurd hn hc.1, fun q hq => ?_, fun hn => (by cases hn),
    fun w hw => ?_⟩⟩, ?_⟩
  · have := h.holding q hq
    exact ⟨this.protectedLen, this.isPrefix, this.paged, this.slots, this.le⟩
  · cases hw
    exact ⟨hg.paged, prefix_append .., le_unitCount _ (lt_of_le_of_lt hle hc.2.1),
      hc.2.2.1, le_rfl, le_of_eq hlen.symm, fun _ => hlen.symm⟩
  have hd : c.pageSize ∣ r.cacheProtectedLen :=
    hhold.protectedLen ▸ hwf.dvd_hasPath (hpath q hq)
  rw [ownPages_of_canExtend h hc]
  exact .trans (.of_eq (hg.drop hwf.pos hd hle)) perm_append_comm

omit h

lemma Inv.hasPath (h : s.Inv N) (hr : r ∈ s.reqs) (hq : r.lastNode = some q) : s.cache.HasPath q :=
  h.ledger.inv.locks.hasPath q (mem_filterMap.mpr ⟨r, hr, hq⟩)

lemma Inv.allocForExtend {batch : List (Nat × Nat)} (h : s.Inv N) (hb : s.Each batch CanExtend) :
    Kept N s (s.allocForExtend pick batch) := by
  obtain ⟨rs, hrs, hnd, hall⟩ := h.batchReqs hb
  have hle : ∀ e ∈ rs.map fun x => extendReq x.1 x.2, e.prefixLen ≤ e.seqLen :=
    forall_mem_map.mpr fun x hx => le_of_lt (hall x hx).2.2.1
  rw [KvPool.allocForExtend, hrs]
  rcases h.allocWithEvict pick hle with ⟨n, herr⟩ | ⟨s', a', pages, hrun, hi, hreqs, hargs, htake, hlen⟩
  · simp only [herr, bind, Except.bind]
    exact ⟨n, rfl⟩
  simp only [hrun, bind, Except.bind]
  rw [← hreqs] at hall
  refine ⟨hi.grow (fun x => x.1.prefixIndices) (fun x => extended x.1 x.2)
    (fun x hx => (hall x hx).1) hnd htake hlen
    (fun x hx => continues_extendReq (hi.reqs _ (hall x hx).1) (hall x hx).2)
    fun x hx out chunk hg => grownReq_extended (hi.reqs _ (hall x hx).1) hi.ledger.inv.wellFormed
      (fun q hq => hi.hasPath (hall x hx).1 hq) (hall x hx).2 hg, ?_⟩
  rw [foldl_setReq fun xo : (Req × Nat) × List Nat => extended xo.1.1 xo.1.2 xo.2]
  exact hargs

lemma writeRow_length (w out : List Nat) : writeRow w w.length out = w ++ out := by
  rw [writeRow, take_length, drop_of_length_le (by omega), append_nil]

include h

lemma grownReq_row {e : ExtendReq} {committed : Nat} (hwf : c.WellFormed)
    (hpath : ∀ q, r.lastNode = some q → c.HasPath q) (hrow : r.row = some w)
    (hg : Grown c.pageSize w e out chunk) (hle : r.kvCommittedLen ≤ committed)
    (hall : committed ≤ (w ++ out).length)
    (hplain : args.speculative = false → committed = (w ++ out).length) :
    GrownReq args c r { r with row := some (w ++ out), kvCommittedLen := committed } ∧
      (Req.ownPages c.pageSize { r with row := some (w ++ out), kvCommittedLen := committed }).Perm
        (chunk ++ r.ownPages c.pageSize) := by
  have hrun := h.running w hrow
  have hnode : r.lastNode ≠ none := fun hn => by
    have := h.idle hn
    rw [hrow] at this
    cases this
  obtain ⟨q, hq⟩ := ne_none_iff_exists'.mp hnode
  refine ⟨⟨rfl, rfl, ⟨fun hn => absurd hn hnode, fun q hq => ?_, fun hn => (by cases hn),
    fun w' hw => ?_⟩⟩, ?_⟩
  · have := h.holding q hq
    exact ⟨this.protectedLen, this.isPrefix, this.paged, this.slots, this.le⟩
  · cases hw
    exact ⟨hg.paged, hrun.isPrefix.trans (prefix_append ..), hrun.protectedLen,
      hrun.extendEnd, hrun.committed.trans hle, hall, hplain⟩
  have hd : c.pageSize ∣ r.cacheProtectedLen :=
    (h.holding q hq).protectedLen ▸ hwf.dvd_hasPath (hpath q hq)
  rw [Req.ownPages, Req.ownPages, hrow]
  exact .trans (.of_eq (hg.drop hwf.pos hd hrun.protectedLen_le)) perm_append_comm

lemma continues_decodeReq (hrow : r.row = some w)
    (hlen : r.kvCommittedLen = w.length) : Continues c.pageSize w (decodeReq r) := by
  refine ⟨(h.running w hrow).paged, hlen.symm, Nat.le_succ _, fun h0 => ?_⟩
  rw [decodeReq] at h0 ⊢
  grind

lemma grownReq_decoded (hwf : c.WellFormed)
    (hpath : ∀ q, r.lastNode = some q → c.HasPath q) (hrow : r.row = some w)
    (hlen : r.kvCommittedLen = w.length) (hg : Grown c.pageSize w (decodeReq r) out chunk) :
    GrownReq args c r (decoded r (out.headD 0)) ∧
      ((decoded r (out.headD 0)).ownPages c.pageSize).Perm (chunk ++ r.ownPages c.pageSize) := by
  have hone : out.length = 1 := by
    rw [hg.length, ExtendReq.extendLen, decodeReq, Nat.add_sub_cancel_left]
  obtain ⟨x, rfl⟩ := length_eq_one_iff.mp hone
  have hdec : decoded r x = { r with row := some (w ++ [x]), kvCommittedLen := w.length + 1 } := by
    rw [decoded, hrow, hlen, getD_some, writeRow_length]
  rw [headD_cons, hdec]
  exact grownReq_row h hwf hpath hrow hg (by omega) (by simp) fun _ => by simp

omit h

lemma Inv.allocForDecode (h : s.Inv N) (hb : s.Each (batch.map fun rid => (rid, 0)) CanDecode) :
    Kept N s (s.allocForDecode pick batch) := by
  obtain ⟨rs, hrs, hnd, hall⟩ := h.batchReqs hb
  obtain ⟨c', b, hrun, hi, -⟩ := h.evictFromTreeCache pick (rs.length * s.alloc.pageSize)
  have hp : b.pageSize = c'.pageSize := hi.ledger.pageSize
  rw [KvPool.allocForDecode, hrs]
  simp only [hrun, bind, Except.bind]
  cases halloc : allocDecodeSlots b (rs.map fun r => decodeReq r.1) with
  | none => exact ⟨_, rfl⟩
  | some out => ?_
  obtain ⟨outs, a'⟩ := out
  obtain ⟨pages, htake, hlen, houts⟩ := allocDecodeSlots_spec (hp ▸ hi.ledger.inv.wellFormed.pos)
    halloc (forall_mem_map.mpr fun x _ => rfl)
  rw [hp] at hlen houts
  have hrow : ∀ x ∈ rs, x.1.row = some (x.1.row.getD []) ∧
      x.1.kvCommittedLen = (x.1.row.getD []).length := fun x hx => by
    obtain ⟨-, hrow, hlen⟩ := hall x hx
    obtain ⟨w, hw⟩ := ne_none_iff_exists'.mp hrow
    exact ⟨by rw [hw]; rfl, hlen⟩
  -- one slot each, as lists of one slot
  have hfold : ∀ s : KvPool, (rs.zip outs).foldl (fun s ro => s.setReq (decoded ro.1.1 ro.2)) s =
      (rs.zip (extendAll c'.pageSize (rs.map fun r => decodeReq r.1) pages)).foldl
        (fun s ro => s.setReq (decoded ro.1.1 (ro.2.headD 0))) s := fun s => by
    rw [← houts, zip_map_right, foldl_map]
    rfl
  dsimp only
  rw [hfold]
  refine ⟨hi.grow (fun x => x.1.row.getD [])
    (fun x out => decoded x.1 (out.headD 0)) (fun x hx => (hall x hx).1) hnd htake hlen
    (fun x hx => continues_decodeReq (hi.reqs _ (hall x hx).1) (hrow x hx).1 (hrow x hx).2)
    fun x hx out chunk hg => grownReq_decoded (hi.reqs _ (hall x hx).1) hi.ledger.inv.wellFormed
      (fun q hq => hi.hasPath (hall x hx).1 hq) (hrow x hx).1 (hrow x hx).2 hg, ?_⟩
  rw [foldl_setReq fun xo : (Req × Nat) × List Nat => decoded xo.1.1 (xo.2.headD 0)]

def IsRunning (r : Req) (_ : Nat) : Prop := r.row ≠ none
deriving Decidable

include h

lemma continues_specReq (hrow : r.row = some w) (reserve : Nat) :
    Continues c.pageSize w (specReq r reserve) := by
  have hlen : r.kvAllocatedLen = w.length := by rw [Req.kvAllocatedLen, hrow, getD_some]
  refine ⟨(h.running w hrow).paged, hlen.symm, le_max_left .., fun h0 => ?_⟩
  rw [specReq] at h0 ⊢
  grind

lemma grownReq_specExtended (hspec : args.speculative = true)
    (hwf : c.WellFormed) (hpath : ∀ q, r.lastNode = some q → c.HasPath q) (hrow : r.row = some w)
    (hg : Grown c.pageSize w (specReq r reserve) out chunk) : GrownReq args c r (specExtended r out) ∧
      ((specExtended r out).ownPages c.pageSize).Perm (chunk ++ r.ownPages c.pageSize) := by
  have hspecd : specExtended r out =
      { r with row := some (w ++ out), kvCommittedLen := r.kvCommittedLen } := by
    rw [specExtended, Req.kvAllocatedLen, hrow, getD_some, writeRow_length]
  have hall := (h.running w hrow).allocated
  rw [hspecd]
  refine grownReq_row h hwf hpath hrow hg le_rfl (by rw [length_append]; omega) fun hplain => ?_
  rw [hspec] at hplain
  cases hplain

omit h

lemma Inv.allocForSpecDecode (h : s.Inv N) (hspec : s.args.speculative = true)
    (hb : s.Each (batch.map fun rid => (rid, 0)) IsRunning) :
    Kept N s (s.allocForSpecDecode pick batch reserve) := by
  obtain ⟨rs, hrs, hnd, hall⟩ := h.batchReqs hb
  have hle : ∀ e ∈ rs.map fun x => specReq x.1 reserve, e.prefixLen ≤ e.seqLen :=
    forall_mem_map.mpr fun x _ => le_max_left _ _
  rw [KvPool.allocForSpecDecode, hrs]
  dsimp only
  split
  swap
  · exact ⟨h, rfl⟩
  rcases h.allocWithEvict pick hle with ⟨n, herr⟩ | ⟨s', a', pages, hrun, hi, hreqs, hargs, htake, hlen⟩
  · simp only [herr, bind, Except.bind]
    exact ⟨n, rfl⟩
  simp only [hrun, bind, Except.bind]
  rw [← hreqs] at hall
  have hrow : ∀ x ∈ rs, x.1.row = some (x.1.row.getD []) := fun x hx => by
    obtain ⟨w, hw⟩ := ne_none_iff_exists'.mp (hall x hx).2
    rw [hw]
    rfl
  refine ⟨hi.grow (fun x => x.1.row.getD []) (fun x => specExtended x.1)
    (fun x hx => (hall x hx).1) hnd htake hlen
    (fun x hx => continues_specReq (hi.reqs _ (hall x hx).1) (hrow x hx) reserve)
    fun x hx out chunk hg => grownReq_specExtended (hi.reqs _ (hall x hx).1) (hargs ▸ hspec)
      hi.ledger.inv.wellFormed (fun q hq => hi.hasPath (hall x hx).1 hq) (hrow x hx) hg, ?_⟩
  rw [foldl_setReq fun xo : (Req × Nat) × List Nat => specExtended xo.1.1 xo.2]
  exact hargs
end Sglang.KvPool
