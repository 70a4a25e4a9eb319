import Sglang.Mem.KvPool

/-!
# The invariant of the pool

A request without a lock has no slots.
-/

namespace Sglang
open List PathTree ExtendReq PagedAllocator

namespace Req
/-- The units of the tokens of a request, as the tree sees them. -/
def cells (r : Req) (isEagle : Bool) : List Cell :=
  RadixKey.cells { tokenIds := r.tokens, extraKey := r.extraKey, isBigram := isEagle }

def ownPages (p : Nat) (r : Req) : List Nat :=
  pageIds p ((r.row.getD []).drop r.cacheProtectedLen)

structure Holding (c : RadixCache) (r : Req) (q : NodePath) : Prop where
  protectedLen : r.cacheProtectedLen = q.length
  isPrefix : q <+: r.cells c.isEagle
  paged : Paged c.pageSize r.prefixIndices
  slots : r.prefixIndices.take q.length = c.slots q
  le : q.length ≤ r.prefixIndices.length

structure Running (args : MemArgs) (c : RadixCache) (r : Req) (w : List Nat) : Prop where
  paged : Paged c.pageSize w
  isPrefix : r.prefixIndices <+: w
  protectedLen : r.cacheProtectedLen ≤ unitCount c.isEagle r.extendEnd
  extendEnd : r.extendEnd ≤ r.tokens.length
  committed : r.extendEnd ≤ r.kvCommittedLen
  allocated : r.kvCommittedLen ≤ w.length
  plain : args.speculative = false → r.kvCommittedLen = w.length

/-- The states of a request: idle, waiting with a lock, running. -/
structure Good (args : MemArgs) (c : RadixCache) (r : Req) : Prop where
  idle : r.lastNode = none → r.row = none
  holding : ∀ q, r.lastNode = some q → Holding c r q
  waiting : r.row = none → ∀ q, r.lastNode = some q → r.prefixIndices.length = q.length
  running : ∀ w, r.row = some w → Running args c r w

variable {args : MemArgs} {c c' : RadixCache} {r : Req} {q : NodePath} {w : List Nat}

lemma Holding.congr (h : Holding c r q) (hcfg : c.SameConfig c') (hs : c'.slots q = c.slots q) :
    Holding c' r q :=
  ⟨h.protectedLen, hcfg.isEagle ▸ h.isPrefix, hcfg.pageSize ▸ h.paged, hs ▸ h.slots, h.le⟩

lemma Running.congr (h : Running args c r w) (hcfg : c.SameConfig c') : Running args c' r w :=
  ⟨hcfg.pageSize ▸ h.paged, h.isPrefix, hcfg.isEagle ▸ h.protectedLen, h.extendEnd, h.committed,
    h.allocated, h.plain⟩

lemma Good.steady {held : List NodePath} (h : Good args c r) (hs : Ledger.Steady c c' held)
    (hr : ∀ q, r.lastNode = some q → q ∈ held) : Good args c' r where
  idle := h.idle
  holding q hq := (h.holding q hq).congr hs.sameConfig (hs.slots q (hr q hq))
  waiting := h.waiting
  running w hw := (h.running w hw).congr hs.sameConfig

lemma Running.protectedLen_le (h : Running args c r w) : r.cacheProtectedLen ≤ w.length :=
  h.protectedLen.trans ((unitCount_le ..).trans (h.committed.trans h.allocated))

lemma Holding.row_take (h : Holding c r q) (hw : Running args c r w) : w.take q.length = c.slots q := by
  rw [← h.slots]
  obtain ⟨t, rfl⟩ := hw.isPrefix
  rw [take_append_of_le_length h.le]
end Req

/-! ## The allocations -/

namespace KvPool
variable {a a' : PagedAllocator} {es : List ExtendReq} {outs : List (List Nat)}
  {n : Nat} {out : List Nat}

lemma splitLens_eq (h : ∀ e ∈ es, e.prefixLen ≤ e.seqLen) (pages : List Nat)
    (hl : (es.map extendLen).sum ≤ pages.length) :
    splitLens (es.map extendLen) pages = extendAll 1 es pages := by
  induction es generalizing pages with
  | nil => rfl
  | cons e es ih =>
    rw [forall_mem_cons] at h
    rw [map_cons, sum_cons] at hl
    rw [map_cons, splitLens, extendAll, extendOne_one h.1 (by omega), numNewPages_one,
      ih h.2 _ (by rw [length_drop]; omega)]

lemma alloc_one (h1 : a.pageSize = 1)
    (h : a.alloc n = some (out, a')) : a.takePages n n = some (out, a') := by
  rw [PagedAllocator.alloc, h1, Nat.div_one] at h
  obtain ⟨⟨pages, b⟩, htake, hout⟩ := Option.bind_eq_some_iff.mp h
  have hb : b.pageSize = 1 :=
    (takePages_spec htake).2.sameConfig.pageSize.trans h1
  simp only [Option.pure_def, hb] at hout
  cases hout
  rw [htake]
  simp

lemma numNewPages_map_one : es.map (numNewPages 1) = es.map extendLen :=
  map_congr_left fun _ _ => numNewPages_one

lemma allocSlots_spec (h : allocSlots a es = some (outs, a')) (hle : ∀ e ∈ es, e.prefixLen ≤ e.seqLen) :
    ∃ pages, a.Takes pages a' ∧ pages.length = (es.map (numNewPages a.pageSize)).sum ∧
      outs = extendAll a.pageSize es pages := by
  rw [allocSlots] at h
  split at h
  · rename_i h1
    obtain ⟨⟨out, b⟩, halloc, hout⟩ := Option.bind_eq_some_iff.mp h
    obtain ⟨rfl, rfl⟩ := hout
    obtain ⟨hlen, htake⟩ := takePages_spec (alloc_one h1 halloc)
    refine ⟨out, htake, ?_, ?_⟩
    · rw [hlen, h1, numNewPages_map_one]
    · rw [h1, splitLens_eq hle out (le_of_eq hlen.symm)]
  obtain ⟨⟨pages, b⟩, htake, hout⟩ := Option.bind_eq_some_iff.mp h
  obtain ⟨hlen, htake⟩ := takePages_spec htake
  simp only [Option.pure_def, Option.some.injEq, Prod.mk.injEq, htake.sameConfig.pageSize] at hout
  grind

lemma countP_decode (h1 : a.pageSize ≠ 1) (hp : 0 < a.pageSize)
    (hes : ∀ e ∈ es, e.seqLen = e.prefixLen + 1) :
    (es.countP fun e => e.seqLen % a.pageSize = 1) = (es.map (numNewPages a.pageSize)).sum := by
  induction es with
  | nil => rfl
  | cons e es ih =>
    rw [forall_mem_cons] at hes
    rw [countP_cons, map_cons, sum_cons, ih hes.2, numNewPages_decode (by omega) hes.1, add_comm]
    simp

lemma allocDecodeSlots_spec (hp : 0 < a.pageSize) (h : allocDecodeSlots a es = some (out, a'))
    (hes : ∀ e ∈ es, e.seqLen = e.prefixLen + 1) :
    ∃ pages, a.Takes pages a' ∧
      pages.length = (es.map (numNewPages a.pageSize)).sum ∧
      out.map (fun x => [x]) = extendAll a.pageSize es pages := by
  rw [allocDecodeSlots] at h
  split at h
  · rename_i h1
    obtain ⟨hlen, htake⟩ := takePages_spec (alloc_one h1 h)
    have hlens : es.map extendLen = es.map fun _ => 1 :=
      map_congr_left fun e he => by rw [extendLen, hes e he]; omega
    have hsum : (es.map extendLen).sum = es.length := by rw [hlens]; simp
    refine ⟨out, htake, ?_, ?_⟩
    · rw [hlen, h1, numNewPages_map_one, hsum]
    rw [h1, ← splitLens_eq (fun e he => by have := hes e he; omega) out (by rw [hsum, hlen]), hlens]
    clear htake h hes hsum hlens
    induction es generalizing out with
    | nil => obtain rfl : out = [] := length_eq_zero_iff.mp hlen; rfl
    | cons e es ih =>
      obtain ⟨x, out, rfl⟩ := exists_cons_of_length_eq_add_one hlen
      rw [map_cons, map_cons, splitLens, ih (by simpa using hlen)]
      rfl
  rename_i h1
  obtain ⟨⟨pages, b⟩, htake, hout⟩ := Option.bind_eq_some_iff.mp h
  obtain ⟨hlen, htake⟩ := takePages_spec htake
  simp only [Option.pure_def, htake.sameConfig.pageSize] at hout
  cases hout
  exact ⟨pages, htake, hlen.trans (countP_decode h1 hp hes), (extendAll_succ hp hes pages).symm⟩

lemma takePages_isSome {wanted : Nat} (hs : a.Settled) (hp : 0 < a.pageSize) (hn : n ≤ wanted)
    (h : n * a.pageSize ≤ a.availableSize) : ∃ pages a', a.takePages wanted n = some (pages, a') := by
  cases htake : a.takePages wanted n with
  | some x => exact ⟨x.1, x.2, rfl⟩
  | none =>
    have hlt := takePages_none htake hn hs
    have hle := le_of_mul_le_mul_right h hp
    omega

lemma alloc_isSome (hs : a.Settled) (h1 : a.pageSize = 1) (h : n ≤ a.availableSize) :
    ∃ out a', a.alloc n = some (out, a') := by
  have hp : 0 < a.pageSize := by omega
  obtain ⟨pages, b, htake⟩ := takePages_isSome hs hp (le_refl n) (by rwa [h1, mul_one])
  rw [PagedAllocator.alloc, h1, Nat.div_one, htake]
  exact ⟨_, _, rfl⟩

lemma allocSlots_isSome (es : List ExtendReq) (hs : a.Settled) (hp : 0 < a.pageSize)
    (h : (es.map (numNewPages a.pageSize)).sum * a.pageSize ≤ a.availableSize) :
    ∃ outs a', allocSlots a es = some (outs, a') := by
  rw [allocSlots]
  split
  · rename_i h1
    rw [h1, mul_one, numNewPages_map_one] at h
    obtain ⟨out, b, halloc⟩ := alloc_isSome hs h1 h
    rw [halloc]
    exact ⟨_, _, rfl⟩
  have hle := sum_numNewPages_le hp es
  obtain ⟨pages, b, htake⟩ := takePages_isSome hs hp (hle.trans (Nat.le_succ _)) h
  rw [allocExtend, htake]
  exact ⟨_, _, rfl⟩

lemma allocDecodeSlots_isSome (es : List ExtendReq) (hs : a.Settled) (hp : 0 < a.pageSize)
    (hes : ∀ e ∈ es, e.seqLen = e.prefixLen + 1)
    (h : (es.map (numNewPages a.pageSize)).sum * a.pageSize ≤ a.availableSize) :
    ∃ out a', allocDecodeSlots a es = some (out, a') := by
  rw [allocDecodeSlots]
  split
  · rename_i h1
    have hlens : es.map extendLen = es.map fun _ => 1 :=
      map_congr_left fun e he => by rw [extendLen, hes e he]; omega
    rw [h1, mul_one, numNewPages_map_one, hlens] at h
    exact alloc_isSome hs h1 (by simpa using h)
  rename_i h1
  rw [← countP_decode h1 hp hes] at h
  obtain ⟨pages, b, htake⟩ := takePages_isSome hs hp countP_le_length h
  rw [allocDecode, htake]
  exact ⟨_, _, rfl⟩

/-! ## The invariant -/

def locksOf (rs : List Req) : List NodePath := rs.filterMap Req.lastNode

def pagesOf (p : Nat) (rs : List Req) : List Nat := rs.flatMap (Req.ownPages p)

def others (s : KvPool) (rid : Nat) : List Req := Keyed.remove Req.rid rid s.reqs

structure Inv (N : Nat) (s : KvPool) : Prop where
  ledger : Ledger N s.cache s.alloc (locksOf s.reqs) (pagesOf s.cache.pageSize s.reqs)
  rids : (s.reqs.map Req.rid).Nodup
  reqs : ∀ r ∈ s.reqs, r.Good s.args s.cache

variable {N : Nat} {s : KvPool} {c : RadixCache} {b : PagedAllocator}
  {olds news rest reqs' : List Req} {r r' : Req} {p : Nat}
  {locks : List NodePath} {P : Req → Nat → Prop} {batch : List (Nat × Nat)} {own : List Nat}

lemma locksOf_cons : locksOf (r :: rest) = r.lastNode.toList ++ locksOf rest := by
  rw [locksOf, filterMap_cons]
  cases r.lastNode <;> rfl

lemma pagesOf_cons : pagesOf p (r :: rest) = r.ownPages p ++ pagesOf p rest := flatMap_cons

lemma locksOf_append : locksOf (olds ++ rest) = locksOf olds ++ locksOf rest :=
  filterMap_append

lemma pagesOf_append : pagesOf p (olds ++ rest) = pagesOf p olds ++ pagesOf p rest :=
  flatMap_append

lemma ledger_perm (h : Ledger N c a (locksOf olds) (pagesOf p olds))
    (hperm : olds.Perm news) : Ledger N c a (locksOf news) (pagesOf p news) :=
  (h.perm (hperm.flatMap_right _)).perm_held (hperm.filterMap _)

section
variable (h : s.Inv N)
include h

lemma Inv.nodup_rids (olds news : List Req) (hperm : s.reqs.Perm (olds ++ rest))
    (hrid : news.map Req.rid = olds.map Req.rid) : ((news ++ rest).map Req.rid).Nodup := by
  have hold := (hperm.map Req.rid).nodup_iff.mp h.rids
  rwa [map_append, ← hrid, ← map_append] at hold

lemma Inv.replace (olds news : List Req) (hperm : s.reqs.Perm (olds ++ rest))
    (hperm' : reqs'.Perm (news ++ rest)) (hnd : ((news ++ rest).map Req.rid).Nodup)
    (hled : Ledger N c b (locksOf (news ++ rest)) (pagesOf s.cache.pageSize (news ++ rest)))
    (hs : Ledger.Steady s.cache c (locksOf rest)) (hnews : ∀ r ∈ news, r.Good s.args c) :
    Inv N { s with cache := c, alloc := b, reqs := reqs' } where
  ledger := by
    rw [hs.sameConfig.pageSize]
    exact ledger_perm hled hperm'.symm
  rids := (hperm'.map Req.rid).nodup_iff.mpr hnd
  reqs r hr := by
    rcases mem_append.mp (hperm'.mem_iff.mp hr) with hr | hr
    · exact hnews r hr
    · refine (h.reqs r (hperm.mem_iff.mpr (mem_append_right _ hr))).steady hs fun q hq => ?_
      exact mem_filterMap.mpr ⟨r, hr, hq⟩

lemma Inv.req?_eq_some {rid : Nat} : s.req? rid = some r ↔ r ∈ s.reqs ∧ r.rid = rid :=
  Keyed.get?_eq_some h.rids

variable (hr : r ∈ s.reqs)
include hr

lemma Inv.perm_cons : s.reqs.Perm (r :: s.others r.rid) :=
  Keyed.perm_cons_remove h.rids hr

lemma Inv.split : Ledger N s.cache s.alloc (r.lastNode.toList ++ locksOf (s.others r.rid))
      (r.ownPages s.cache.pageSize ++ pagesOf s.cache.pageSize (s.others r.rid)) := by
  rw [← locksOf_cons, ← pagesOf_cons]
  exact ledger_perm h.ledger (h.perm_cons hr)

lemma Inv.setReq (hrid : r'.rid = r.rid)
    (hled : Ledger N c b (r'.lastNode.toList ++ locksOf (s.others r.rid))
      (r'.ownPages s.cache.pageSize ++ pagesOf s.cache.pageSize (s.others r.rid)))
        (hs : Ledger.Steady s.cache c (locksOf (s.others r.rid))) (hgood : r'.Good s.args c) :
    Inv N (KvPool.setReq { s with cache := c, alloc := b } r') := by
  rw [← locksOf_cons, ← pagesOf_cons] at hled
  refine h.replace [r] [r'] (h.perm_cons hr) ?_
    (h.nodup_rids [r] [r'] (h.perm_cons hr) (by simp [hrid])) hled hs
    (forall_mem_cons.mpr ⟨hgood, nofun⟩)
  rw [hrid]
  exact Keyed.update_perm h.rids hr

lemma Inv.setReq_self (hrid : r'.rid = r.rid) (hnode : r'.lastNode = r.lastNode)
    (hown : r'.ownPages s.cache.pageSize = r.ownPages s.cache.pageSize)
    (hgood : r'.Good s.args s.cache) : Inv N (s.setReq r') := by
  refine h.setReq (c := s.cache) (b := s.alloc) hr hrid ?_ (.refl ..) hgood
  rw [hnode, hown]
  exact h.split hr
end

/-! ## Making room and growing -/

lemma evict_ledger (h : Ledger N s.cache s.alloc locks own) (pick : Nat → Nat) (want : Nat) :
    ∃ c' a', s.evict pick want = .ok { s with cache := c', alloc := a' } ∧
      Ledger N c' a' locks own ∧ Ledger.Steady s.cache c' locks := by
  obtain ⟨ns, c', hrun, hled, hs⟩ := h.evict pick want
  exact ⟨c', freeNodes s.alloc ns, by rw [KvPool.evict, hrun]; rfl, hled, hs⟩

lemma evictFromTreeCache_ledger
    (h : Ledger N s.cache s.alloc locks own) (pick : Nat → Nat) (want : Nat) :
    ∃ c' a', s.evictFromTreeCache pick want = .ok { s with cache := c', alloc := a' } ∧
      Ledger N c' a' locks own ∧ Ledger.Steady s.cache c' locks := by
  rw [KvPool.evictFromTreeCache]
  split
  · exact evict_ledger h pick want
  · exact ⟨s.cache, s.alloc, rfl, h, .refl ..⟩

lemma Inv.steady (h : s.Inv N) (hled : Ledger N c b (locksOf s.reqs)
    (pagesOf s.cache.pageSize s.reqs)) (hs : Ledger.Steady s.cache c (locksOf s.reqs)) :
    Inv N { s with cache := c, alloc := b } :=
  h.replace [] [] (.refl _) (.refl _) h.rids hled hs nofun

lemma Inv.evictFromTreeCache (h : s.Inv N) (pick : Nat → Nat) (want : Nat) :
    ∃ c' a', s.evictFromTreeCache pick want = .ok { s with cache := c', alloc := a' } ∧
      Inv N { s with cache := c', alloc := a' } ∧ Ledger.Steady s.cache c' (locksOf s.reqs) := by
  obtain ⟨c', a', hrun, hled, hs⟩ := evictFromTreeCache_ledger h.ledger pick want
  exact ⟨c', a', hrun, h.steady hled hs, hs⟩

lemma req?_setReq (s : KvPool) (r' : Req) (rid : Nat) : (s.setReq r').req? rid =
    if rid = r'.rid then (s.req? rid).map fun _ => r' else s.req? rid :=
  Keyed.get?_update fun _ _ => rfl

lemma foldl_setReq {ρ : Type} (f : ρ → Req) (xs : List ρ) (s : KvPool) :
    xs.foldl (fun s x => s.setReq (f x)) s = { s with
      reqs := (xs.map f).foldl (fun rs n => Keyed.update Req.rid n.rid (fun _ => n) rs) s.reqs } := by
  induction xs generalizing s with
  | nil => rfl
  | cons x xs ih => rw [foldl_cons, ih]; rfl

structure GrownReq (args : MemArgs) (c : RadixCache) (r r' : Req) : Prop where
  rid : r'.rid = r.rid
  lastNode : r'.lastNode = r.lastNode
  good : r'.Good args c

lemma Inv.grow {rs : List (Req × Nat)} {req : Req × Nat → ExtendReq} {pages : List Nat}
    (h : s.Inv N) (row : Req × Nat → List Nat) (new : Req × Nat → List Nat → Req)
    (hmem : ∀ x ∈ rs, x.1 ∈ s.reqs) (hnd : (rs.map fun x => x.1.rid).Nodup)
    (htake : s.alloc.Takes pages a')
    (hlen : pages.length = ((rs.map req).map (numNewPages s.cache.pageSize)).sum)
    (hcont : ∀ x ∈ rs, Continues s.cache.pageSize (row x) (req x))
    (hnew : ∀ x ∈ rs, ∀ out chunk, Grown s.cache.pageSize (row x) (req x) out chunk →
      GrownReq s.args s.cache x.1 (new x out) ∧
        ((new x out).ownPages s.cache.pageSize).Perm (chunk ++ x.1.ownPages s.cache.pageSize)) :
    Inv N ((rs.zip (extendAll s.cache.pageSize (rs.map req) pages)).foldl
      (fun s xo => s.setReq (new xo.1 xo.2)) { s with alloc := a' }) := by
  obtain ⟨hgrown, hown⟩ := extendAll_grown Prod.fst (Req.ownPages s.cache.pageSize)
    (GrownReq s.args s.cache) h.ledger.inv.wellFormed.pos hcont hnew hlen
  rw [foldl_setReq fun xo : (Req × Nat) × List Nat => new xo.1 xo.2]
  obtain ⟨rest, hperm, hperm'⟩ := Keyed.foldl_update_perm (rs.map Prod.fst) h.rids
    (forall_mem_map.mpr hmem) (by rw [map_map]; exact hnd)
    (hgrown.imp fun _ _ hg => hg.rid)
  have hnode : ∀ {olds news : List Req}, List.Forall₂ (GrownReq s.args s.cache) olds news →
      news.map Req.rid = olds.map Req.rid ∧
        locksOf news = locksOf olds ∧ ∀ r ∈ news, r.Good s.args s.cache := by
    intro olds news hall
    induction hall with
    | nil => exact ⟨rfl, rfl, nofun⟩
    | cons hg _ ih =>
      refine ⟨?_, ?_, forall_mem_cons.mpr ⟨hg.good, ih.2.2⟩⟩
      · rw [map_cons, map_cons, hg.rid, ih.1]
      · rw [locksOf_cons, locksOf_cons, hg.lastNode, ih.2.1]
  obtain ⟨hrids, hnodes, hgood⟩ := hnode hgrown
  refine h.replace (c := s.cache) (b := a') _ _ hperm hperm' (h.nodup_rids _ _ hperm hrids) ?_
    (.refl ..) hgood
  have hled := (ledger_perm h.ledger hperm).take htake
  rw [pagesOf_append, ← append_assoc, locksOf_append, ← hnodes, ← locksOf_append] at hled
  rw [pagesOf_append]
  exact hled.perm (hown.symm.append_right _)

def Each (s : KvPool) (batch : List (Nat × Nat)) (P : Req → Nat → Prop) : Prop :=
  (batch.map Prod.fst).Nodup ∧ ∀ b ∈ batch, ∃ r ∈ s.reqs, r.rid = b.1 ∧ P r b.2

instance (s : KvPool) (batch : List (Nat × Nat)) (P : Req → Nat → Prop)
    [∀ r n, Decidable (P r n)] : Decidable (s.Each batch P) :=
  inferInstanceAs (Decidable (_ ∧ _))

lemma Each.batchReqs (hrids : (s.reqs.map Req.rid).Nodup) (hb : s.Each batch P) :
    ∃ rs, s.batchReqs batch = some rs ∧ (rs.map fun x => x.1.rid) = batch.map Prod.fst ∧
      ∀ x ∈ rs, x.1 ∈ s.reqs ∧ P x.1 x.2 := by
  obtain ⟨-, hall⟩ := hb
  rw [KvPool.batchReqs]
  induction batch with
  | nil => exact ⟨[], rfl, rfl, nofun⟩
  | cons b batch ih => ?_
  rw [forall_mem_cons] at hall
  obtain ⟨r, hr, hrid, hP⟩ := hall.1
  obtain ⟨rs, hrs, hmap, hgood⟩ := ih hall.2
  have hfound : s.req? b.1 = some r := (Keyed.get?_eq_some hrids).mpr ⟨hr, hrid⟩
  refine ⟨(r, b.2) :: rs, ?_, by rw [map_cons, map_cons, hrid, hmap],
    forall_mem_cons.mpr ⟨⟨hr, hP⟩, hgood⟩⟩
  rw [mapM_cons, hfound, hrs]
  rfl

lemma Inv.batchReqs (h : s.Inv N) (hb : s.Each batch P) :
    ∃ rs, s.batchReqs batch = some rs ∧
      (rs.map fun x => x.1.rid).Nodup ∧ ∀ x ∈ rs, x.1 ∈ s.reqs ∧ P x.1 x.2 := by
  obtain ⟨rs, hrs, hmap, hgood⟩ := Each.batchReqs h.rids hb
  exact ⟨rs, hrs, hmap ▸ hb.1, hgood⟩
end KvPool
end Sglang
