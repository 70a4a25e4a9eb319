import Sglang.Mem.KvPoolOps

/-!
# Handing slots over and giving them back

`cache_unfinished_req` and `cache_finished_req` cut the row of a request in four: the slots that are
in the tree already, the duplicates of slots that others have stored meanwhile (freed), those that
go to the tree, and the unaligned tail.
-/

namespace Sglang.KvPool
open List PathTree RadixKey Req Keyed RadixCache

/-! ## The key of a request -/

/-- The length of the key of `n` tokens, in whole pages. -/
def keyLen (c : RadixCache) (n : Nat) : Nat := unitCount c.isEagle n / c.pageSize * c.pageSize

variable {N : Nat} {s : KvPool} {c c' : RadixCache} {a : PagedAllocator} {r : Req} {q : NodePath}
  {n : Nat}
  {w own : List Nat} {locks : List NodePath} {args : MemArgs}
  {idx : List Nat} {K : NodePath} {i j : Nat}

lemma keyLen_le (c : RadixCache) (n : Nat) : keyLen c n ≤ n :=
  (Nat.div_mul_le_self ..).trans (unitCount_le ..)

lemma dvd_keyLen (c : RadixCache) (n : Nat) : c.pageSize ∣ keyLen c n := dvd_mul_left _ _

lemma le_keyLen (hp : 0 < c.pageSize) {m : Nat} (hd : c.pageSize ∣ m)
    (hm : m ≤ unitCount c.isEagle n) : m ≤ keyLen c n := by
  obtain ⟨k, rfl⟩ := hd
  rw [keyLen, mul_comm]
  exact Nat.mul_le_mul_right _ ((Nat.le_div_iff_mul_le hp).mpr (by rwa [mul_comm]))

lemma cells_radixKeyOf (c : RadixCache) (r : Req) (hn : n ≤ r.tokens.length) :
    (radixKeyOf c r (r.tokens.take n)).cells = (r.cells c.isEagle).take (keyLen c n) := by
  rw [radixKeyOf, cells_pageAligned, cells_take_tokens,
    len_take_tokens _ _ hn, take_take, min_eq_left (Nat.div_mul_le_self ..)]
  rfl

lemma len_radixKeyOf (c : RadixCache) (r : Req) (hn : n ≤ r.tokens.length) :
    (radixKeyOf c r (r.tokens.take n)).len = keyLen c n := by
  rw [radixKeyOf, len_pageAligned, len_take_tokens _ _ hn]
  rfl

lemma view_radixKeyOf (c : RadixCache) (r : Req) (t : List Nat) :
    (c.view (radixKeyOf c r t)).cells = (radixKeyOf c r t).cells := by
  have hbig : (radixKeyOf c r t).toBigramView c.isEagle = radixKeyOf c r t := by
    rw [toBigramView, radixKeyOf, isBigram_pageAligned, Bool.and_not_self]
    rfl
  have hlen : (radixKeyOf c r t).len / c.pageSize * c.pageSize = (radixKeyOf c r t).len := by
    rw [radixKeyOf, len_pageAligned]
    exact Nat.div_mul_cancel (Nat.dvd_mul_left ..)
  rw [view, hbig, cells_pageAligned, hlen, ← length_cells, take_length]

/-! ## Handing over -/

lemma free_slice (hled : Ledger N c a locks (pageIds c.pageSize (w.drop i) ++ own))
    (hw : Paged c.pageSize w) (hd : c.pageSize ∣ i) (hij : i ≤ j) (hj : j ≤ w.length) :
    Ledger N c (a.free (pySlice w i j)) locks
      (pageIds c.pageSize (w.drop (ceilAlign j c.pageSize)) ++ own) := by
  have hp := hled.inv.wellFormed.pos
  rw [pageIds_slice hp hd hij hj, append_assoc] at hled
  have hslice : Paged c.pageSize ((w.take j).drop i) := (hw.take j).drop hp hd
  rw [← hled.pageSize] at hled hslice
  have := hled.free hslice
  rwa [hled.pageSize] at this

lemma pySlice_take (hj : j ≤ n) : pySlice (w.take n) i j = pySlice w i j := by
  rw [pySlice, pySlice, take_take, min_eq_left hj]

/-- Duplicates are freed, the rest of the key goes to the tree, the tail stays. -/
lemma handOver (hled : Ledger N c a (q :: locks) (pageIds c.pageSize (w.drop q.length) ++ own))
    (hen : c.disable = false) (hq : q <+: r.cells c.isEagle) (hw : Paged c.pageSize w)
    (hqn : q.length ≤ unitCount c.isEagle n) (hn : n ≤ r.tokens.length) (hnw : n ≤ w.length) :
    ∃ res c', c.insert (radixKeyOf c r (r.tokens.take n)) (some (w.take (keyLen c n))) = .ok (res, c') ∧
      Ledger.Steady c c' (q :: locks) ∧ c'.HasPath ((r.cells c.isEagle).take (keyLen c n)) ∧
      Ledger N c' (a.free (pySlice w q.length res.prefixLen)) (q :: locks)
        (pageIds c.pageSize (w.drop (keyLen c n)) ++ own) ∧ res.prefixLen ≤ keyLen c n := by
  have hwf := hled.inv.wellFormed
  have hle := keyLen_le c n
  have hd := hwf.dvd_hasPath (hled.inv.locks.hasPath q mem_cons_self)
  have hcells := (view_radixKeyOf c r (r.tokens.take n)).trans (cells_radixKeyOf c r hn)
  have hviewlen : (c.view (radixKeyOf c r (r.tokens.take n))).len = keyLen c n := by
    rw [← length_cells, view_radixKeyOf, length_cells, len_radixKeyOf c r hn]
  have hlen : (w.take (keyLen c n)).length = keyLen c n := by
    rw [length_take, min_eq_left (hle.trans hnw)]
  obtain ⟨res, c', hrun, hs, hpath, hdvd, hres, hheld, hmove⟩ :=
    hled.insert (radixKeyOf c r (r.tokens.take n)) hen (hlen.trans hviewlen.symm) (hw.take (keyLen c n))
  rw [hcells] at hpath hheld
  rw [hlen] at hres
  have hqK : q <+: (r.cells c.isEagle).take (keyLen c n) := by
    refine prefix_take_iff.mpr ⟨hq, le_keyLen hwf.pos hd hqn⟩
  have hqres := hheld q mem_cons_self hqK
  refine ⟨res, c', hrun, hs, hpath, ?_, hres⟩
  -- the row from the end of the protected part: duplicates, new slots, tail
  have hdup := pageIds_slice hwf.pos hd hqres (hres.trans (hle.trans hnw))
  have hnew := pageIds_slice hwf.pos hdvd hres (hle.trans hnw)
  rw [ceilAlign_of_dvd hwf.pos hdvd] at hdup
  rw [ceilAlign_of_dvd hwf.pos (dvd_keyLen c n)] at hnew
  have hled' : Ledger N c' a (q :: locks) (pageIds c.pageSize (pySlice w q.length res.prefixLen) ++
      (pageIds c.pageSize (w.drop (keyLen c n)) ++ own)) := by
    refine hmove _ (perm_iff_count.mpr fun x => ?_)
    rw [hdup, hnew, pySlice]
    simp only [count_append]
    omega
  have hslice : Paged c.pageSize (pySlice w q.length res.prefixLen) := (hw.take _).drop hwf.pos hd
  have hps : a.pageSize = c.pageSize := hled.pageSize
  rw [← hps] at hled' hslice ⊢
  exact hled'.free hslice

lemma matchPrefix_inserted (key : RadixKey) (hled : Ledger N c a locks own)
    (hen : c.disable = false) (hcells : (c.view key).cells = K) (hpath : c.HasPath K) :
    ∃ m c', c.matchPrefix key = .ok (m, c') ∧ Ledger N c' a locks own ∧ Ledger.Steady c c' locks ∧
      c'.HasPath K ∧ m.lastNode = K ∧ m.deviceIndices = c'.slots K := by
  obtain ⟨m, c', hrun, hled', hs, hnode, hfound, hidx⟩ := hled.matchPrefix hen key
  rw [hcells] at hfound
  have hlast : m.lastNode = K :=
    hfound.isPrefix.eq_of_length_le (hled.length_le_of_found hfound hpath (prefix_refl K))
  grind

lemma writeRow_slots (hpre : w.take q.length = idx.take q.length) (hle : q.length ≤ idx.length) :
    writeRow w q.length (idx.drop q.length) = idx ++ w.drop idx.length := by
  rw [writeRow, hpre, take_append_drop, length_drop, Nat.add_sub_cancel' hle]

lemma prefix_append {kv : List Nat} (hle : idx.length ≤ kv.length) :
    (if idx.length < kv.length then idx ++ kv.drop idx.length else idx) = idx ++ kv.drop idx.length := by
  simp

lemma good_cached (hrun : r.Running args c w) (hcfg : c.SameConfig c')
    (hK : K = (r.cells c.isEagle).take (keyLen c r.extendEnd))
    (hlen : K.length = keyLen c r.extendEnd)
    (hidx : idx = c'.slots K) (hil : idx.length = K.length) (hip : Paged c.pageSize idx)
    (hdK : c.pageSize ∣ K.length) (hp : 0 < c.pageSize) :
    Req.Good args c' { r with
      row := some (idx ++ w.drop idx.length)
      cacheProtectedLen := idx.length
      prefixIndices := idx ++ (w.take r.extendEnd).drop idx.length
      lastNode := some K } := by
  have hle : idx.length ≤ r.extendEnd := by
    rw [hil, hlen]
    exact keyLen_le c _
  have hew : r.extendEnd ≤ w.length := hrun.committed.trans hrun.allocated
  have hrow : Paged c.pageSize (idx ++ w.drop idx.length) := by
    rw [Paged.append_iff hp (hil ▸ hdK)]
    exact ⟨hip, hrun.paged.drop hp (hil ▸ hdK)⟩
  have hpre : idx ++ (w.take r.extendEnd).drop idx.length <+: idx ++ w.drop idx.length := by
    rw [drop_take]
    exact (prefix_append_right_inj idx).mpr (List.take_prefix ..)
  refine ⟨fun hn => (by cases hn), fun q hq => ?_, fun hn => (by cases hn), fun w' hw' => ?_⟩
  · cases hq
    refine ⟨hil, ?_, hcfg.pageSize ▸ hrow.of_prefix hpre, ?_, ?_⟩
    · rw [hcfg.isEagle, hK]
      exact take_prefix _ _
    · rw [← hil, take_left' rfl, hidx]
    · rw [length_append]
      omega
  cases hw'
  have hlen' : (idx ++ w.drop idx.length).length = w.length := by
    rw [length_append, length_drop]
    omega
  refine ⟨hcfg.pageSize ▸ hrow, hpre, ?_, hrun.extendEnd, hrun.committed, ?_, fun hplain => ?_⟩
  · rw [hil, hlen, hcfg.isEagle]
    exact Nat.div_mul_le_self _ _
  · rw [hlen']
    exact hrun.allocated
  · rw [hlen']
    exact hrun.plain hplain

/-- A request with a row, its node and its pages. -/
lemma Inv.active (h : s.Inv N) (hr : r ∈ s.reqs) (hrow : r.row ≠ none) :
    ∃ w q, r.row = some w ∧ Running s.args s.cache r w ∧ r.lastNode = some q ∧ Holding s.cache r q ∧
      Ledger N s.cache s.alloc (q :: locksOf (s.others r.rid))
        (pageIds s.cache.pageSize (w.drop q.length) ++ pagesOf s.cache.pageSize (s.others r.rid)) := by
  obtain ⟨w, hw⟩ := Option.ne_none_iff_exists'.mp hrow
  have hgood := h.reqs r hr
  obtain ⟨q, hq⟩ := Option.ne_none_iff_exists'.mp (mt hgood.idle hrow)
  have hhold := hgood.holding q hq
  have hled := h.split hr
  rw [hq, ownPages, hw, hhold.protectedLen, Option.getD_some, Option.toList_some,
    singleton_append] at hled
  exact ⟨w, q, hw, hgood.running w hw, hq, hhold, hled⟩

lemma Inv.cacheUnfinishedReq (h : s.Inv N) (hr : r ∈ s.reqs) (hrow : r.row ≠ none) :
    Kept N s (s.cacheUnfinishedReq r.rid) := by
  obtain ⟨w, q, hw, hrun, hq, hhold, hled⟩ := h.active hr hrow
  have hwf := h.ledger.inv.wellFormed
  rw [KvPool.cacheUnfinishedReq, h.req?_eq_some.mpr ⟨hr, rfl⟩]
  dsimp only
  rw [hw]
  rcases hen : s.cache.disable with _ | _
  swap
  · exact ⟨h, rfl⟩
  have hn := hrun.extendEnd
  have hnw : r.extendEnd ≤ w.length := hrun.committed.trans hrun.allocated
  have hfill : r.fillIds.length = r.extendEnd := by
    rw [fillIds, length_take, min_eq_left hn]
  obtain ⟨res, c₁, hins, hs1, hpath1, hled1, hres⟩ :=
    handOver hled hen hhold.isPrefix hrun.paged (hhold.protectedLen ▸ hrun.protectedLen) hn hnw
  have hen1 : c₁.disable = false := hs1.sameConfig.disable.trans hen
  obtain ⟨m, c₂, hmatch, hled2, hs2, hpath2, hnode, hidx⟩ :=
    matchPrefix_inserted (radixKeyOf s.cache r r.fillIds) hled1 hen1
      (by rw [hs1.sameConfig.view_eq, view_radixKeyOf, fillIds, cells_radixKeyOf _ _ hn])
      hpath1
  obtain ⟨hled3, hs3, hpaths3⟩ := hled2.decLockRef
  obtain ⟨hled4, hs4⟩ := hled3.incLockRef (hpaths3 _ hpath2)
  generalize hKdef : (r.cells s.cache.isEagle).take (keyLen s.cache r.extendEnd) = K at *
  have hKlen : K.length = keyLen s.cache r.extendEnd := by
    rw [← hKdef, ← cells_radixKeyOf _ _ hn, length_cells, len_radixKeyOf _ _ hn]
  have hil : m.deviceIndices.length = K.length := by
    rw [hidx, length_slots hled2.inv.wellFormed hpath2]
  have hsteady : Ledger.Steady s.cache c₂ (locksOf (s.others r.rid)) :=
    (hs1.trans hs2).of_subset fun l hl => mem_cons_of_mem q hl
  have hcfg : s.cache.SameConfig _ :=
    (hsteady.sameConfig.trans (hs3 []).sameConfig).trans (hs4 []).sameConfig
  have hslots : m.deviceIndices = ((c₂.decLockRef q).2.incLockRef K).2.slots K := by
    rw [hidx, (hs4 [K]).slots K mem_cons_self, (hs3 [K]).slots K mem_cons_self]
  -- the protected slots of the request are the first ones along the key
  have hqK : q <+: K := by
    rw [← hKdef]
    exact prefix_take_iff.mpr ⟨hhold.isPrefix, le_keyLen hwf.pos
      (hwf.dvd_hasPath (h.hasPath hr hq)) (hhold.protectedLen ▸ hrun.protectedLen)⟩
  have htake : w.take q.length = m.deviceIndices.take q.length := by
    have hd : c₂.pageSize ∣ q.length := by
      rw [hsteady.sameConfig.pageSize]
      exact hwf.dvd_hasPath (h.hasPath hr hq)
    rw [hhold.row_take hrun, hidx, take_slots hled2.inv.wellFormed hpath2 hqK hd,
      (hs1.trans hs2).slots q mem_cons_self]
  have hins' : s.cache.insert (radixKeyOf s.cache r r.fillIds)
      (some ((w.take r.fillIds.length).take (radixKeyOf s.cache r r.fillIds).len)) = .ok (res, c₁) := by
    rw [hfill, fillIds, len_radixKeyOf _ _ hn, take_take, min_eq_left (keyLen_le ..)]
    exact hins
  have hklen : (radixKeyOf s.cache r r.fillIds).len = K.length := by
    rw [fillIds, len_radixKeyOf _ _ hn, hKlen]
  have hqle : q.length ≤ m.deviceIndices.length := hil ▸ hqK.length_le
  have hkv : m.deviceIndices.length ≤ (w.take r.fillIds.length).length := by
    rw [hil, hKlen, hfill, length_take, min_eq_left hnw]
    exact keyLen_le _ _
  simp only [hins', hmatch, liftCache, Except.mapError, bind, Except.bind, Bool.false_eq_true,
    if_false, hq, hnode]
  rw [if_neg (not_not.mpr (hil.trans hklen.symm)), hhold.protectedLen, prefix_append hkv,
    writeRow_slots htake hqle, hfill, pySlice_take (hres.trans (keyLen_le ..))]
  refine ⟨h.setReq hr rfl ?_ ((hsteady.trans (hs3 _)).trans (hs4 _)) ?_, rfl⟩
  · rw [ownPages]
    grind
  exact good_cached hrun hcfg hKdef.symm hKlen hslots hil
    (by
      rw [hidx, ← hsteady.sameConfig.pageSize]
      exact paged_slots hled2.inv.wellFormed hled2.paged hpath2)
    (hKlen ▸ dvd_keyLen ..) hwf.pos

/-! ## Giving back -/

lemma releaseOverallocated_spec (hled : Ledger N s.cache s.alloc locks
      (pageIds s.cache.pageSize (w.drop (ceilAlign n s.cache.pageSize)) ++ own))
        (hw : Paged s.cache.pageSize w)
    (hplain : s.args.speculative = false → s.args.stripThinkingCache = false → n = w.length) :
    ∃ a', s.releaseOverallocated w n = .ok { s with alloc := a' } ∧ Ledger N s.cache a' locks own := by
  have hp := hled.inv.wellFormed.pos
  have hps := hled.pageSize
  have hstart : (if s.alloc.pageSize > 1 then ceilAlign n s.alloc.pageSize else n) =
      ceilAlign n s.cache.pageSize := by
    rw [hps]
    split
    · rfl
    · rw [show s.cache.pageSize = 1 by omega, ceilAlign_of_dvd one_pos (one_dvd n)]
  rw [releaseOverallocated]
  dsimp only
  rw [if_neg (fun hc => hc.2.2 (hplain hc.1 hc.2.1)), hstart]
  split
  · rename_i hlt
    refine ⟨_, rfl, ?_⟩
    have := free_slice hled hw (by rw [ceilAlign_eq]; exact dvd_mul_left ..) (le_of_lt hlt) le_rfl
    rwa [ceilAlign_eq w.length, drop_of_length_le (le_pagesUp_mul hp w.length), pageIds_nil hp,
      nil_append] at this
  · rw [drop_of_length_le (by omega), pageIds_nil hp, nil_append] at hled
    exact ⟨s.alloc, rfl, hled⟩

lemma cacheFinishedReq_spec
    (hled : Ledger N s.cache s.alloc (q :: locks) (pageIds s.cache.pageSize (w.drop q.length) ++ own))
    (hnode : r.lastNode = some q) (hhold : r.Holding s.cache q) (hw : Paged s.cache.pageSize w)
    (hqn : q.length ≤ unitCount s.cache.isEagle n) (hn : n ≤ r.tokens.length) (hnw : n ≤ w.length)
    (isInsert : Bool) :
    ∃ c' a', s.cacheFinishedReq r w isInsert n = .ok { s with cache := c', alloc := a' } ∧
      Ledger N c' a' locks (pageIds s.cache.pageSize (w.drop (ceilAlign n s.cache.pageSize)) ++ own) ∧
      Ledger.Steady s.cache c' locks := by
  have hwf := hled.inv.wellFormed
  have hdq := hwf.dvd_hasPath (hled.inv.locks.hasPath q mem_cons_self)
  rw [cacheFinishedReq]
  rcases hen : s.cache.disable with _ | _
  swap
  · -- without a tree the lock is on the root, and the whole row is the request's
    obtain rfl : q = [] :=
      hled.inv.eq_nil_of_disabled hen (hled.inv.locks.hasPath q mem_cons_self)
    obtain ⟨hled', hs, -⟩ := (free_slice (j := n) hled hw hdq zero_le hnw).decLockRef
    have hsame : (s.cache.decLockRef []).2 = s.cache := by simp [decLockRef, hen]
    rw [hsame] at hled'
    exact ⟨s.cache, _, rfl, hled', .refl ..⟩
  have htok : (r.tokens.take n).length = n := by rw [length_take, min_eq_left hn]
  have hlen := len_radixKeyOf s.cache r hn
  have hklen := keyLen_le s.cache n
  have hqk := le_keyLen hwf.pos hdq hqn
  -- from the end of the key on: the tail, then the lock
  have hend : ∀ {c' : RadixCache} {a' : PagedAllocator}, Ledger.Steady s.cache c' (q :: locks) →
      Ledger N c' a' (q :: locks) (pageIds s.cache.pageSize (w.drop (keyLen s.cache n)) ++ own) →
      Ledger N (c'.decLockRef q).2 (a'.free ((w.take n).drop (keyLen s.cache n))) locks
          (pageIds s.cache.pageSize (w.drop (ceilAlign n s.cache.pageSize)) ++ own) ∧
        Ledger.Steady s.cache (c'.decLockRef q).2 locks := by
    intro c' a' hs hled'
    rw [← hs.sameConfig.pageSize] at hled' ⊢
    obtain ⟨hled'', hs'', -⟩ := (free_slice hled' (hs.sameConfig.pageSize ▸ hw)
      (hs.sameConfig.pageSize ▸ dvd_keyLen ..) hklen hnw).decLockRef
    exact ⟨hled'', (hs.of_subset fun l hl => mem_cons_of_mem q hl).trans (hs'' locks)⟩
  have hvalues : ((w.take n).take (keyLen s.cache n)) = w.take (keyLen s.cache n) := by
    rw [take_take, min_eq_left hklen]
  simp only [Bool.false_eq_true, if_false, htok, hlen, hvalues, hnode, hhold.protectedLen]
  cases hins : isInsert && !s.cache.disableFinishedInsert with
  | true =>
    obtain ⟨res, c', hrun, hs, -, hled', hres⟩ :=
      handOver hled hen hhold.isPrefix hw hqn hn hnw
    obtain ⟨hled'', hs''⟩ := hend hs hled'
    simp only [if_true, hrun, liftCache, Except.mapError, bind, Except.bind, pure, Except.pure]
    rw [pySlice_take (hres.trans hklen)]
    exact ⟨_, _, rfl, hled'', hs''⟩
  | false => ?_
  have hled' := free_slice hled hw hdq hqk (hklen.trans hnw)
  rw [ceilAlign_of_dvd hwf.pos (dvd_keyLen ..)] at hled'
  obtain ⟨hled'', hs''⟩ := hend (.refl _ _) hled'
  simp only [Bool.false_eq_true, if_false, bind, Except.bind, pure, Except.pure]
  rw [pySlice_take hklen]
  exact ⟨_, _, rfl, hled'', hs''⟩

def CanRelease (s : KvPool) (r : Req) : Prop :=
  r.row ≠ none ∧ r.kvCommittedLen ≤ r.tokens.length ∧
    r.cacheProtectedLen ≤ unitCount s.cache.isEagle (r.effectiveKvCommittedLen s.args)
deriving Decidable

lemma effectiveKvCommittedLen_le (r : Req) (args : MemArgs) :
    r.effectiveKvCommittedLen args ≤ r.kvCommittedLen := by
  unfold effectiveKvCommittedLen
  split <;> omega

lemma effectiveKvCommittedLen_eq (r : Req) (h : args.stripThinkingCache = false) :
    r.effectiveKvCommittedLen args = r.kvCommittedLen := by
  rw [effectiveKvCommittedLen, if_neg (by simp [h])]

lemma Inv.releaseKvCache (h : s.Inv N) (hr : r ∈ s.reqs) (hc : s.CanRelease r) (isInsert : Bool) :
    ∃ c' a', s.releaseKvCache r.rid isInsert =
        .ok (KvPool.setReq { s with cache := c', alloc := a' } { r with row := none }) ∧
      Ledger N c' a' (locksOf (s.others r.rid)) (pagesOf s.cache.pageSize (s.others r.rid)) ∧
      Ledger.Steady s.cache c' (locksOf (s.others r.rid)) := by
  obtain ⟨hrow, htok, hunit⟩ := hc
  obtain ⟨w, q, hw, hrun, hq, hhold, hled⟩ := h.active hr hrow
  have heff := effectiveKvCommittedLen_le r s.args
  have hnw := heff.trans hrun.allocated
  obtain ⟨c', a', hfin, hled', hs⟩ := cacheFinishedReq_spec hled hq hhold hrun.paged
    (hhold.protectedLen ▸ hunit) (heff.trans htok) hnw isInsert
  rw [← hs.sameConfig.pageSize] at hled'
  obtain ⟨a'', hover, hled''⟩ := releaseOverallocated_spec (s := { s with cache := c', alloc := a' })
    hled' (hs.sameConfig.pageSize ▸ hrun.paged) fun hspec hstrip => by
      rw [effectiveKvCommittedLen_eq r hstrip, hrun.plain hspec]
  refine ⟨c', a'', ?_, hs.sameConfig.pageSize ▸ hled'', hs⟩
  rw [KvPool.releaseKvCache, h.req?_eq_some.mpr ⟨hr, rfl⟩]
  simp only [hw, hfin, hover, bind, Except.bind]
  rfl

lemma Inv.finishReq (h : s.Inv N) (hr : r ∈ s.reqs) (hc : s.CanRelease r) (isInsert : Bool) :
    Kept N s (s.finishReq r.rid isInsert) := by
  obtain ⟨c', a', hrel, hled, hs⟩ := h.releaseKvCache hr hc isInsert
  have hreqs : remove rid r.rid
      (update rid r.rid (fun _ => { r with row := none }) s.reqs) = s.others r.rid :=
    remove_update fun _ => rfl
  rw [KvPool.finishReq, hrel]
  refine ⟨h.replace [r] [] (h.perm_cons hr) (.of_eq hreqs) (nodup_keys_remove h.rids) hled hs nofun, rfl⟩

lemma releaseReq_eq {c' c'' : RadixCache} {a' a'' : PagedAllocator} {pick : Nat → Nat}
    {want : Nat} (hrids : (s.reqs.map rid).Nodup) (hr : r ∈ s.reqs)
    (hrel : s.releaseKvCache r.rid false =
      .ok (setReq { s with cache := c', alloc := a' } { r with row := none }))
    (hev : (setReq { s with cache := c', alloc := a' } { r with row := none }).evictFromTreeCache
        pick want =
      .ok { setReq { s with cache := c', alloc := a' } { r with row := none } with
        cache := c'', alloc := a'' }) :
    s.releaseReq pick r.rid want = .ok { s with
      cache := c'', alloc := a'', reqs := update rid r.rid released s.reqs } := by
  generalize hr' : { r with row := none } = r' at *
  have hrid : r'.rid = r.rid := by rw [← hr']
  have hget : get? rid r.rid (update rid r'.rid (fun _ => r') s.reqs) = some r' := by
    rw [hrid, get?_update fun _ _ => hrid, if_pos rfl, get?_key hrids hr]
    rfl
  have hupd : update rid r.rid released s.reqs = update rid r.rid (fun _ => r'.resetForRetract) s.reqs :=
    update_congr fun x hx hk => by rw [inj_on_of_nodup_map hrids hx hr hk, ← hr']; rfl
  have htwice : update rid r.rid (fun _ => r'.resetForRetract)
      (update rid r.rid (fun _ => r') s.reqs) = update rid r.rid (fun _ => r'.resetForRetract) s.reqs :=
    update_update fun _ _ => hrid
  have hrid' : r'.resetForRetract.rid = r.rid := hrid
  rw [releaseReq, hrel]
  simp only [bind, Except.bind, hev]
  simp only [req?, setReq, hget]
  rw [hrid', hrid, htwice, hupd]
  rfl

lemma Inv.releaseReq (h : s.Inv N) (hr : r ∈ s.reqs) (hc : s.CanRelease r) (pick : Nat → Nat)
    (want : Nat) : Kept N s (s.releaseReq pick r.rid want) := by
  obtain ⟨c', a', hrel, hled, hs⟩ := h.releaseKvCache hr hc false
  obtain ⟨c'', a'', hev, hled', hs'⟩ := evictFromTreeCache_ledger
    (s := KvPool.setReq { s with cache := c', alloc := a' } { r with row := none }) hled pick
    want
  have hown : ownPages s.cache.pageSize r.released = [] := by
    rw [ownPages, released, resetForRetract, Option.getD_none, drop_nil,
      pageIds_nil h.ledger.inv.wellFormed.pos]
  rw [releaseReq_eq h.rids hr hrel hev]
  refine ⟨h.replace [r] [r.released] (h.perm_cons hr) (update_perm h.rids hr)
    (h.nodup_rids [r] _ (h.perm_cons hr) rfl) ?_ (hs.trans hs') ?_, rfl⟩
  · rw [singleton_append, locksOf_cons, pagesOf_cons, hown]
    exact hled'
  refine forall_mem_cons.mpr ⟨⟨fun _ => rfl, ?_, ?_, ?_⟩, fun _ hn =>
    absurd hn not_mem_nil⟩
  · exact fun q hq => by cases hq
  · exact fun _ q hq => by cases hq
  · exact fun w hw => by cases hw
end Sglang.KvPool
