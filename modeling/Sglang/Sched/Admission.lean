import Sglang.Mem.Conservation
import Sglang.Mem.Room
import Sglang.Sched.PrefillAdder

/-!
# Prefill admission is memory safe

Each admitted request is charged at least the pages that its extension will take, and is admitted
only if these fit, with all that is charged so far, into what is free or evictable once its prefix
is locked.
-/

namespace Sglang.PrefillAdder
open List PathTree KvPool ExtendReq
variable {N : Nat} {own : List Nat} {ad ad' : PrefillAdder} {r r₀ : Req} {q : NodePath} {e : Int}

/-! ## Pages -/

def canRunReqs (ad : PrefillAdder) : List Req := ad.canRunList.filterMap ad.pool.req?

def pagesNeeded (ad : PrefillAdder) : Nat :=
  (ad.canRunReqs.map fun r => (extendReq r r.extendEnd).numNewPages ad.pageSize).sum

def extendBatch (ad : PrefillAdder) : List (Nat × Nat) :=
  ad.canRunList.map fun rid => (rid, ((ad.pool.req? rid).map Req.extendEnd).getD 0)

lemma ceilPagedTokens_of_dvd (hd : (ad.pageSize : Int) ∣ e) : ad.ceilPagedTokens e = e := by
  rw [ceilPagedTokens, neg_mul, Int.ediv_mul_cancel (Int.dvd_neg.mpr hd), neg_neg]

lemma ceilPagedTokens_ceil (e : Int) :
    ad.ceilPagedTokens (ad.ceilPagedTokens e) = ad.ceilPagedTokens e :=
  ceilPagedTokens_of_dvd (dvd_mul_left ..)

variable (hp : 0 < ad.pageSize)
include hp

lemma ceilPagedTokens_eq (he : 0 ≤ e) :
    ad.ceilPagedTokens e = (pagesUp ad.pageSize e.toNat * ad.pageSize : Nat) := by
  obtain ⟨n, rfl⟩ := Int.eq_ofNat_of_zero_le he
  have hup := le_pagesUp_mul hp n
  have hlow := pagesUp_mul_lt hp n
  have hdiv : -((n : Int)) / ad.pageSize = -(pagesUp ad.pageSize n : Int) := by
    refine Int.ediv_eq_iff_of_pos (by omega) |>.mpr ?_
    constructor
    · nlinarith
    · nlinarith
  rw [ceilPagedTokens, hdiv]
  simp

lemma ceilPagedTokens_mono {e e' : Int} (h : e ≤ e') : ad.ceilPagedTokens e ≤ ad.ceilPagedTokens e' := by
  have hdiv : -e' / ad.pageSize ≤ -e / ad.pageSize :=
    Int.ediv_le_ediv (by omega) (by omega)
  exact mul_le_mul_of_nonneg_right (by omega) (by omega)

lemma ceilPagedTokens_lt (e : Int) :
    e ≤ ad.ceilPagedTokens e ∧ ad.ceilPagedTokens e < e + ad.pageSize := by
  have hmod := Int.emod_add_mul_ediv (-e) ad.pageSize
  have h0 := Int.emod_nonneg (-e) (show (ad.pageSize : Int) ≠ 0 by omega)
  have h1 := Int.emod_lt_of_pos (-e) (show (0 : Int) < ad.pageSize by omega)
  rw [ceilPagedTokens, neg_mul, mul_comm (-e / _)]
  omega

lemma pagesNeeded_schedule (hr : ad.pool.req? r.rid = some r₀)
    (hnew : r.rid ∉ ad.canRunList) (he : 0 ≤ e) :
    (ad.schedule r e).pagesNeeded ≤ ad.pagesNeeded + pagesUp ad.pageSize e.toNat := by
  have hold : ad.canRunList.filterMap (ad.schedule r e).pool.req? = ad.canRunReqs := by
    refine filterMap_congr fun rid hrid => ?_
    rw [schedule, KvPool.req?_setReq, if_neg fun heq : rid = r.rid => hnew (heq ▸ hrid)]
  have hone : (ad.schedule r e).pool.req? r.rid =
      some { r with extendEnd := (r.prefixIndices.length + e).toNat } := by
    rw [schedule, KvPool.req?_setReq, if_pos rfl, hr]
    rfl
  have hreqs : (ad.schedule r e).canRunReqs =
      ad.canRunReqs ++ [{ r with extendEnd := (r.prefixIndices.length + e).toNat }] := by
    rw [canRunReqs, show (ad.schedule r e).canRunList = ad.canRunList ++ [r.rid] from rfl,
      filterMap_append, hold, filterMap_cons, hone]
    rfl
  have hpages : (ad.schedule r e).pageSize = ad.pageSize := rfl
  rw [pagesNeeded, hreqs, hpages, map_append, sum_append, map_singleton, sum_singleton, ← pagesNeeded]
  refine Nat.add_le_add_left ((numNewPages_le hp _).trans (pagesUp_mono ?_)) _
  dsimp only [extendLen, extendReq]
  omega

omit hp

/-! ## What the operations keep -/

structure Charged (N : Nat) (own : List Nat) (held : List NodePath) (ad : PrefillAdder) : Prop where
  ledger : Ledger N ad.pool.cache ad.pool.alloc held own
  group : ad.pool.alloc.isNotInFreeGroup = true
  found : ∀ rid ∈ ad.canRunList, ∃ r, ad.pool.req? rid = some r
  charged : ((ad.pagesNeeded * ad.pageSize : Nat) : ℚ) ≤ ad.remTotalTokenOffset

def Fits (ad : PrefillAdder) : Prop :=
  ((ad.pagesNeeded * ad.pageSize : Nat) : Int) ≤ ad.availableAndEvictable

variable {held : List NodePath}
  {totalTokens : Int} {align : Option Nat} {res : AddReqResult} {maxNew rid : Nat}

lemma Charged.decLockRef (h : Charged N own (q :: held) ad) : Charged N own held (ad.decLockRef q) :=
  ⟨h.ledger.decLockRef.1, h.group, h.found, h.charged⟩

/-! ## Runs -/

/-- A lookup in the tree, which may cut edges, or one of the admissions. -/
inductive AdmitOp
  | matchPrefix (key : RadixKey)
  | addOneReq (rid : Nat) (m : MatchResult) (truncationAlignSize : Option Nat)
  | addOneReqIgnoreEos (rid : Nat) (m : MatchResult)

def next (ad : PrefillAdder) : AdmitOp → PrefillAdder
  | .matchPrefix key =>
    match ad.pool.cache.matchPrefix key with
    | .ok (_, cache) => { ad with pool := { ad.pool with cache := cache } }
    | .error _ => ad
  | .addOneReq rid m align =>
    match ad.addOneReq rid m align with
    | .ok (_, ad') => ad'
    | .error _ => ad
  | .addOneReqIgnoreEos rid m =>
    match ad.pool.req? rid with
    | some r =>
      match ad.addOneReqIgnoreEos (r.matched m) with
      | .ok (_, ad') => ad'
      | .error _ => ad
    | none => ad

def CanAdd (ad : PrefillAdder) (rid : Nat) (m : MatchResult) : Prop :=
  rid ∉ ad.canRunList ∧ ad.pool.cache.HasPath m.lastNode ∧
    ∀ r ∈ ad.pool.req? rid, m.deviceIndices.length ≤ r.tokens.length
deriving Decidable

def ok (ad : PrefillAdder) : AdmitOp → Prop
  | .matchPrefix _ => True
  | .addOneReq rid m _ => ad.CanAdd rid m
  | .addOneReqIgnoreEos rid m => ad.CanAdd rid m

instance (ad : PrefillAdder) : DecidablePred ad.ok := fun op => by
  cases op <;> unfold ok <;> infer_instance

/-! ## The allocation -/

lemma batchReqs_extendBatch (h : ∀ rid ∈ ad.canRunList, ∃ r, ad.pool.req? rid = some r) :
    ad.pool.batchReqs ad.extendBatch = some (ad.canRunReqs.map fun r => (r, r.extendEnd)) := by
  rw [extendBatch, canRunReqs, KvPool.batchReqs]
  generalize ad.canRunList = rids at h
  induction rids with
  | nil => rfl
  | cons rid rids ih =>
    rw [forall_mem_cons] at h
    grind

lemma pages_le_evictTarget {p : Nat} (hp : 0 < p) (es : List ExtendReq) :
    (es.map (numNewPages p)).sum * p ≤ evictTarget p (es.map extendLen).sum es.length := by
  rw [evictTarget]
  split
  · rename_i h1
    rw [h1, numNewPages_map_one, mul_one]
  have hle := Nat.mul_le_mul_right p (sum_numNewPages_le hp es)
  have hdiv := Nat.div_mul_le_self (es.map extendLen).sum p
  rw [add_mul] at hle
  omega

variable (h : Charged N own held ad)
include h

lemma Charged.pos : 0 < ad.pageSize := h.ledger.pos

lemma Charged.incLockRef (hq : ad.pool.cache.HasPath q) : Charged N own (q :: held) (ad.incLockRef q) :=
  ⟨(h.ledger.incLockRef hq).1, h.group, h.found, h.charged⟩

lemma availableAndEvictable_release (hq : ad.pool.cache.HasPath q) :
    ((ad.incLockRef q).decLockRef q).availableAndEvictable = ad.availableAndEvictable := by
  have := h.ledger.inv.evictableSize_release hq rfl
  exact congrArg (fun x : Int => (ad.pool.alloc.availableSize : Int) + x) this

lemma Charged.gate
    (hgate : (ad.ceilPagedTokens e : ℚ) + ad.remTotalTokenOffset ≤ ad.availableAndEvictable) :
    ad.ceilPagedTokens e + (ad.pagesNeeded * ad.pageSize : Nat) ≤ ad.availableAndEvictable := by
  have hold := h.charged
  have : (ad.ceilPagedTokens e : ℚ) + ((ad.pagesNeeded * ad.pageSize : Nat) : ℚ) ≤
      (ad.availableAndEvictable : ℚ) := by linarith
  exact_mod_cast this

lemma Charged.schedule (hr : ad.pool.req? r.rid = some r₀)
    (hnew : r.rid ∉ ad.canRunList) (he : 0 ≤ e) (e' maxNew : Int)
    (hle : ad.ceilPagedTokens e ≤ ad.ceilPagedTokens e') (hmax : 0 ≤ maxNew)
    (hgate : ad.ceilPagedTokens e + (ad.pagesNeeded * ad.pageSize : Nat) ≤ ad.availableAndEvictable) :
    Charged N own held ((ad.schedule r e).updatePrefillBudget e' maxNew) ∧
      ((ad.schedule r e).updatePrefillBudget e' maxNew).Fits := by
  -- the new sum, in slots
  have hslots : (((ad.schedule r e).pagesNeeded * ad.pageSize : Nat) : Int) ≤
      ad.ceilPagedTokens e + (ad.pagesNeeded * ad.pageSize : Nat) := by
    have hpages := Nat.mul_le_mul_right ad.pageSize (pagesNeeded_schedule h.pos hr hnew he)
    rw [add_mul] at hpages
    rw [ceilPagedTokens_eq h.pos he]
    omega
  refine ⟨⟨h.ledger, h.group, ?_, ?_⟩, hslots.trans hgate⟩
  · intro rid hrid
    change ∃ x, (ad.schedule r e).pool.req? rid = some x
    rw [PrefillAdder.schedule, KvPool.req?_setReq]
    by_cases heq : rid = r.rid
    · rw [if_pos heq, heq, hr]
      exact ⟨_, rfl⟩
    rw [if_neg heq]
    rcases mem_append.mp hrid with hm | hm
    · exact h.found rid hm
    · exact absurd (mem_singleton.mp hm) heq
  change (((ad.schedule r e).pagesNeeded * ad.pageSize : Nat) : ℚ) ≤
    ad.remTotalTokenOffset + ((ad.ceilPagedTokens e' + maxNew + ad.pageSize : Int) : ℚ)
  have hold := h.charged
  have hcharge : (((ad.schedule r e).pagesNeeded * ad.pageSize : Nat) : ℚ) ≤
      (((ad.ceilPagedTokens e' + maxNew + ad.pageSize) + (ad.pagesNeeded * ad.pageSize : Nat) : Int)
        : ℚ) := by
    exact_mod_cast (by omega : (((ad.schedule r e).pagesNeeded * ad.pageSize : Nat) : Int) ≤
      (ad.ceilPagedTokens e' + maxNew + ad.pageSize) + (ad.pagesNeeded * ad.pageSize : Nat))
  push_cast at hcharge hold ⊢
  linarith

omit h

/-! ## Admissions -/

include hp

lemma chunkLen_spec {remChunkTokens truncLen : Int} {prefixLen : Nat}
    (h : ad.chunkLen remChunkTokens prefixLen align = some truncLen) :
    0 < truncLen ∧ truncLen ≤ remChunkTokens := by
  have hfloor := Int.ediv_mul_le remChunkTokens (show (ad.pageSize : Int) ≠ 0 by omega)
  unfold chunkLen at h
  dsimp only at h
  generalize htrunc : remChunkTokens / ad.pageSize * ad.pageSize = t at h hfloor
  split_ifs at h with hpos halign hend
  · rcases align with _ | k
    · dsimp only at h hend
      have := Int.ediv_mul_le (t + prefixLen) (show (ad.pageSize : Int) ≠ 0 by omega)
      cases h
      omega
    dsimp only at h hend
    have hk : (k : Int) * (t / k) ≤ t := by
      rcases eq_zero_or_pos k with rfl | hk0
      · omega
      · exact Int.mul_ediv_self_le (by omega)
    have := Int.ediv_mul_le (k * (t / k) + prefixLen) (show (ad.pageSize : Int) ≠ 0 by omega)
    cases h
    omega

lemma addLocked_cases (q : NodePath) (align : Option Nat)
    (hlen : r.prefixIndices.length ≤ r.tokens.length)
    (htotal : totalTokens = r.tokens.length - r.prefixIndices.length + maxNew + ad.pageSize) :
    (ad.addLocked r q align totalTokens).2 = (ad, false) ∨
    ∃ e e' mx chunked, (ad.addLocked r q align totalTokens).2 =
        ({ ((ad.schedule r e).incLockRef q).updatePrefillBudget e' mx with
          newChunkedReq := chunked }, true) ∧
      0 ≤ e ∧ ad.ceilPagedTokens e ≤ ad.ceilPagedTokens e' ∧ 0 ≤ mx ∧
      (ad.ceilPagedTokens e : ℚ) + ad.remTotalTokenOffset ≤ ad.availableAndEvictable := by
  generalize hcand : (r.tokens.length : Int) - r.prefixIndices.length = cand at htotal
  have hcand0 : 0 ≤ cand := by omega
  have hup := ceilPagedTokens_lt hp cand
  rw [addLocked, hcand]
  by_cases hgate : (totalTokens : ℚ) ≥ ad.remTotalTokens
  · rw [if_pos hgate]
    exact .inl rfl
  rw [if_neg hgate]
  -- what is gated leaves room for the pages of the input
  have hroom : ∀ t : Int, ad.ceilPagedTokens t ≤ ad.ceilPagedTokens cand →
      (ad.ceilPagedTokens t : ℚ) + ad.remTotalTokenOffset ≤ ad.availableAndEvictable := by
    intro t ht
    rw [ge_iff_le, not_le, remTotalTokens] at hgate
    have hle : (ad.ceilPagedTokens t : ℚ) ≤ (totalTokens : ℚ) := Int.cast_le.mpr (by omega)
    linarith
  have hwhole : ∀ mx : Nat, ∃ e e' mx' chunked,
      (((ad.schedule r cand).incLockRef q).updatePrefillBudget (ad.ceilPagedTokens cand) mx, true) =
        ({ ((ad.schedule r e).incLockRef q).updatePrefillBudget e' mx' with
          newChunkedReq := chunked }, true) ∧
      0 ≤ e ∧ ad.ceilPagedTokens e ≤ ad.ceilPagedTokens e' ∧ 0 ≤ mx' ∧
      (ad.ceilPagedTokens e : ℚ) + ad.remTotalTokenOffset ≤ ad.availableAndEvictable := fun mx =>
    ⟨cand, ad.ceilPagedTokens cand, mx, _, rfl, hcand0, le_of_eq (ceilPagedTokens_ceil _).symm,
      by omega, hroom cand (le_refl _)⟩
  rcases hchunk : ad.remChunkTokens with _ | remChunkTokens
  · split_ifs with hfull
    · exact .inl rfl
    · exact .inr (by exact_mod_cast hwhole _)
  dsimp only
  split_ifs with hfits
  · exact .inr (by exact_mod_cast hwhole _)
  rcases hlen' : ad.chunkLen remChunkTokens r.prefixIndices.length align with _ | truncLen
  · exact .inl rfl
  obtain ⟨hpos, hle⟩ := chunkLen_spec hp hlen'
  have hmono := ceilPagedTokens_mono hp (show truncLen ≤ ad.ceilPagedTokens cand by omega)
  rw [ceilPagedTokens_ceil] at hmono
  grind

omit hp
include h

lemma addOneReqIgnoreEos_spec (hf : ad.Fits)
    (hr : ad.pool.req? r.rid = some r₀) (hnew : r.rid ∉ ad.canRunList)
    (hlen : r.prefixIndices.length ≤ r.tokens.length)
    (hrun : ad.addOneReqIgnoreEos r = .ok (res, ad')) : Charged N own held ad' ∧ ad'.Fits := by
  generalize hcand : (r.tokens.length : Int) - r.prefixIndices.length = cand
  have hcand0 : 0 ≤ cand := by omega
  rw [addOneReqIgnoreEos, hcand] at hrun
  dsimp only at hrun
  by_cases hgate : (ad.ceilPagedTokens cand : ℚ) > min (ad.curRemTokens : ℚ) ad.remTotalTokens
  · grind
  generalize hstates : ad.statesWith r = states at hrun
  -- the list of states is kept even if the request is refused
  have h' : Charged N own held { ad with reqStates := some states } :=
    ⟨h.ledger, h.group, h.found, h.charged⟩
  have hf' : Fits { ad with reqStates := some states } := hf
  have hroom : ∀ t : Int, t ≤ cand →
      (ad.ceilPagedTokens t : ℚ) + ad.remTotalTokenOffset ≤ ad.availableAndEvictable := by
    intro t ht
    have hmin := (le_min_iff.mp (not_lt.mp hgate)).2
    rw [remTotalTokens] at hmin
    have hle : (ad.ceilPagedTokens t : ℚ) ≤ (ad.ceilPagedTokens cand : ℚ) :=
      Int.cast_le.mpr (ceilPagedTokens_mono h.pos ht)
    linarith
  split_ifs at hrun with hend hallow hwhole htrunc
  · cases hrun
    exact ⟨h', hf'⟩
  · cases hrun
    exact ⟨h', hf'⟩
  · cases hrun
    exact h'.schedule hr hnew hcand0 _ _ (le_refl _) (by omega)
      (h'.gate (hroom cand (le_refl _)))
  · cases hrun
    exact ⟨h', hf'⟩
  cases hrun
  rcases hchunk : ad.remChunkTokens with _ | remChunkTokens
  · simp [hchunk] at hwhole
  simp only [hchunk, decide_eq_true_eq] at hwhole
  simp only [hchunk, Option.getD_some] at htrunc ⊢
  obtain ⟨hc, hf''⟩ := h'.schedule hr hnew (show 0 ≤ remChunkTokens by omega) remChunkTokens 0
    (le_refl _) (le_refl _) (h'.gate (hroom _ (by omega)))
  exact ⟨⟨hc.ledger, hc.group, hc.found, hc.charged⟩, hf''⟩

omit h

lemma addUnderLock_spec (align : Option Nat)
    (h : Charged N own held ad) (hf : ad.Fits) (hr : ad.pool.req? r.rid = some r₀)
    (hnew : r.rid ∉ ad.canRunList) (hpath : ad.pool.cache.HasPath q)
    (hlen : r.prefixIndices.length ≤ r.tokens.length)
    (htotal : totalTokens = r.tokens.length - r.prefixIndices.length + maxNew + ad.pageSize) :
    (∃ held', Charged N own held' (ad.addUnderLock r q align totalTokens).2) ∧
      (ad.addUnderLock r q align totalTokens).2.Fits := by
  have hlock := h.incLockRef hpath
  have hpath' := hlock.ledger.inv.locks.hasPath q mem_cons_self
  have hend : (ad.addUnderLock r q align totalTokens).2 =
      ((ad.incLockRef q).addLocked r q align totalTokens).2.1.decLockRef q := rfl
  rw [hend]
  rcases addLocked_cases hlock.pos q align hlen htotal with
    hnone | ⟨e, e', mx, chunked, hadd, he, hle, hmx, hgate⟩
  · rw [hnone]
    refine ⟨⟨held, hlock.decLockRef⟩, ?_⟩
    rw [Fits, availableAndEvictable_release h hpath]
    exact hf
  rw [hadd]
  obtain ⟨hc, hf'⟩ := hlock.schedule hr hnew he e' mx hle hmx (hlock.gate hgate)
  have hc' := (hc.incLockRef hpath').decLockRef
  refine ⟨⟨q :: held, hc'.ledger, hc'.group, hc'.found, hc'.charged⟩, ?_⟩
  rw [Fits, ← availableAndEvictable_release hc hpath'] at hf'
  exact hf'

include h

lemma addOneReq_spec {m : MatchResult} (hf : ad.Fits) (hr : ad.pool.req? rid = some r₀)
    (hnew : rid ∉ ad.canRunList) (hpath : ad.pool.cache.HasPath m.lastNode)
    (hlen : m.deviceIndices.length ≤ r₀.tokens.length)
    (hrun : ad.addOneReq rid m align = .ok (res, ad')) :
    (∃ held', Charged N own held' ad') ∧ ad'.Fits := by
  have hrid : r₀.rid = rid := by simpa using find?_some hr
  subst hrid
  rw [addOneReq, hr] at hrun
  dsimp only at hrun
  split_ifs at hrun with h1 h2 h3 h4 h5 h6
  · cases hrun
    exact ⟨⟨held, h⟩, hf⟩
  · cases hrun
    exact ⟨⟨held, h⟩, hf⟩
  · cases hrun
    exact ⟨⟨held, h⟩, hf⟩
  · obtain ⟨hc, hf'⟩ := addOneReqIgnoreEos_spec (r := r₀.matched m) h hf hr hnew hlen hrun
    exact ⟨⟨held, hc⟩, hf'⟩
  · cases hrun
    exact ⟨⟨held, h⟩, hf⟩
  · cases hrun
    exact ⟨⟨held, h⟩, hf⟩
  have hend := congrArg Prod.snd (Except.ok.inj hrun)
  dsimp only at hend
  rw [← hend]
  exact addUnderLock_spec (r := r₀.matched m) align h hf hr hnew hpath hlen rfl

/-! ## The start of a pass -/

lemma availableAndEvictable_nonneg : 0 ≤ ad.availableAndEvictable := by
  have hev : 0 ≤ ad.pool.cache.evictableSize := by
    rw [h.ledger.inv.counted.evictableSize]
    refine sum_nonneg fun x hx => ?_
    obtain ⟨n, -, rfl⟩ := mem_map.mp hx
    rw [TreeNode.unlockedLen]
    split <;> omega
  rw [availableAndEvictable]
  omega

lemma dvd_availableAndEvictable : (ad.pageSize : Int) ∣ ad.availableAndEvictable := by
  refine dvd_add ?_ ?_
  · exact Int.natCast_dvd_natCast.mpr (dvd_mul_left ..)
  · rw [pageSize, h.ledger.pageSize]
    exact RadixCache.dvd_evictableSize h.ledger.inv.wellFormed h.ledger.inv.counted

omit h

lemma charged_init (h : Ledger N ad.pool.cache ad.pool.alloc held own)
    (hopen : ad.pool.alloc.isNotInFreeGroup = true) (hratio : 0 ≤ ad.newTokenRatio)
    (hrunning : ∀ r ∈ ad.runningReqs, r.outputIds.length ≤ r.maxNewTokens) :
    Charged N own held (ad.init 0) ∧ (ad.init 0).Fits := by
  have hoffset : 0 ≤ (ad.runningReqs.map ad.runningRequestTotalTokenOffset).sum := by
    refine sum_nonneg fun x hx => ?_
    obtain ⟨r, hr, rfl⟩ := mem_map.mp hx
    have hle := hrunning r hr
    exact mul_nonneg (Int.cast_nonneg (by omega)) hratio
  have hc : Charged N own held (ad.init 0) := by
    refine ⟨h, hopen, nofun, ?_⟩
    simpa [init, pagesNeeded, canRunReqs] using hoffset
  refine ⟨hc, ?_⟩
  have h0 := availableAndEvictable_nonneg hc
  simpa [Fits, init, pagesNeeded, canRunReqs] using h0

lemma truncate_le {x : ℚ} (hx : 1 ≤ x) : 1 ≤ truncate x ∧ (truncate x : ℚ) ≤ x := by
  have h0 : 0 ≤ x := by linarith
  rw [truncate, if_pos h0]
  exact ⟨Int.le_floor.mpr (by exact_mod_cast hx), Int.floor_le x⟩

include h

/-- The chunk fits what is left, which is in whole pages. -/
lemma addChunkedReq_spec {k : Int} {left : Option Nat}
    (hempty : ad.canRunList = []) (hr : ad.pool.req? rid = some r)
    (hlen : r.prefixIndices.length ≤ r.tokens.length) (hoffset : 0 ≤ ad.remTotalTokenOffset)
    (hchunk : ad.remChunkTokens = some k) (hk : 1 ≤ k) (hrem : 1 ≤ ad.remTotalTokens)
    (hrun : ad.addChunkedReq rid = .ok (left, ad')) : Charged N own held ad' ∧ ad'.Fits := by
  have hrid : r.rid = rid := by simpa using find?_some hr
  subst hrid
  obtain ⟨hone, hle⟩ := truncate_le hrem
  have hpos : ¬ min k (truncate ad.remTotalTokens) ≤ 0 := by omega
  generalize hnewLen : min ((r.tokens.length : Int) - r.prefixIndices.length)
    (min k (truncate ad.remTotalTokens)) = newLen
  have hnew0 : 0 ≤ newLen := by omega
  rw [addChunkedReq, hr, hchunk] at hrun
  dsimp only at hrun
  rw [if_neg hpos, hnewLen] at hrun
  cases hrun
  have hfit : newLen ≤ ad.availableAndEvictable := by
    have hnewle : (newLen : ℚ) ≤ (truncate ad.remTotalTokens : ℚ) := Int.cast_le.mpr (by omega)
    rw [remTotalTokens] at hle hnewle
    have : (newLen : ℚ) ≤ (ad.availableAndEvictable : ℚ) := by linarith
    exact_mod_cast this
  refine h.schedule hr (by simp [hempty]) hnew0 newLen _ (le_refl _) (by omega) ?_
  have hnone : ad.pagesNeeded = 0 := by simp [pagesNeeded, canRunReqs, hempty]
  have hceil := ceilPagedTokens_mono h.pos hfit
  rw [ceilPagedTokens_of_dvd (dvd_availableAndEvictable h)] at hceil
  rw [hnone, zero_mul]
  omega

lemma next_spec (hf : ad.Fits) (op : AdmitOp) (hok : ad.ok op) :
    (∃ held', Charged N own held' (ad.next op)) ∧ (ad.next op).Fits := by
  cases op with
  | matchPrefix key =>
    rw [next]
    cases hen : ad.pool.cache.disable with
    | true =>
      rw [RadixCache.matchPrefix_disabled hen key]
      exact ⟨⟨held, h⟩, hf⟩
    | false => ?_
    obtain ⟨m, c', hrun, hs, -⟩ := RadixCache.matchPrefix_spec h.ledger.inv.wellFormed hen key
    rw [hrun]
    refine ⟨⟨held, h.ledger.splits hs, h.group, h.found, h.charged⟩, ?_⟩
    change _ ≤ (ad.pool.alloc.availableSize : Int) + c'.evictableSize
    rw [hs.evictableSize_eq]
    exact hf
  | addOneReq rid m align =>
    obtain ⟨hnew, hpath, hlen⟩ := hok
    rw [next]
    rcases hrun : ad.addOneReq rid m align with e | x
    · exact ⟨⟨held, h⟩, hf⟩
    cases hr : ad.pool.req? rid with
    | none =>
      rw [addOneReq, hr] at hrun
      cases hrun
    | some r => exact addOneReq_spec h hf hr hnew hpath (hlen r hr) hrun
  | addOneReqIgnoreEos rid m =>
    obtain ⟨hnew, hpath, hlen⟩ := hok
    rw [next]
    rcases hr : ad.pool.req? rid with _ | r
    · exact ⟨⟨held, h⟩, hf⟩
    dsimp only
    have hrid : r.rid = rid := by simpa using find?_some hr
    subst hrid
    rcases hrun : ad.addOneReqIgnoreEos (r.matched m) with e | x
    · exact ⟨⟨held, h⟩, hf⟩
    obtain ⟨hc, hf'⟩ :=
      addOneReqIgnoreEos_spec (r := r.matched m) h hf hr hnew (hlen r hr) hrun
    exact ⟨⟨held, hc⟩, hf'⟩

lemma allocForExtend_ok (hf : ad.Fits) (pick : Nat → Nat) :
    ∃ s', ad.pool.allocForExtend pick ad.extendBatch = .ok s' ∧
      ∀ n ∈ ad.pool.cache.nodes, n.lockRef ≠ 0 → n ∈ s'.cache.nodes := by
  generalize hes : (ad.canRunReqs.map fun r => (r, r.extendEnd)).map (fun x => extendReq x.1 x.2) = es
  have hneed : (es.map (numNewPages ad.pageSize)).sum = ad.pagesNeeded := by
    rw [← hes, map_map, map_map, pagesNeeded]
    rfl
  have htarget := pages_le_evictTarget h.pos es
  rw [hneed] at htarget
  obtain ⟨c', a', hrun, hled, hcfg, hlocked, hroom⟩ := evictFromTreeCache_room h.ledger h.group pick
    (evictTarget ad.pageSize (es.map extendLen).sum es.length)
  have hps : a'.pageSize = ad.pageSize :=
    hled.pageSize.trans (hcfg.pageSize.trans h.ledger.pageSize.symm)
  have henough : (es.map (numNewPages a'.pageSize)).sum * a'.pageSize ≤
      a'.availableSize := by
    rw [hps, hneed]
    rcases hroom with hle | hall
    · exact htarget.trans hle
    · have := hf
      rw [Fits, availableAndEvictable] at this
      omega
  obtain ⟨outs, a'', halloc⟩ := allocSlots_isSome es hled.settled hled.pos henough
  have hwith : ad.pool.allocWithEvict pick es =
      .ok (outs, { ad.pool with cache := c', alloc := a'' }) := by
    rw [allocWithEvict]
    rw [show ad.pool.alloc.pageSize = ad.pageSize from rfl, hrun]
    simp only [bind, Except.bind, halloc]
    rfl
  rw [KvPool.allocForExtend, batchReqs_extendBatch h.found]
  simp only [hes, hwith, bind, Except.bind]
  refine ⟨_, rfl, ?_⟩
  rw [foldl_setReq fun ro : (Req × Nat) × List Nat => extended ro.1.1 ro.1.2 ro.2]
  exact hlocked

omit h

def Starts (ad ad₁ : PrefillAdder) : Prop :=
  ad₁ = ad ∨ ∃ rid left, 1 ≤ ad.remTotalTokens ∧
    (∀ r ∈ ad.pool.req? rid, r.prefixIndices.length ≤ r.tokens.length) ∧
    ad.addChunkedReq rid = .ok (left, ad₁)

lemma Starts.charged {ad₁ : PrefillAdder} (h : ad.Starts ad₁) (hc : Charged N own held ad)
    (hf : ad.Fits) (hempty : ad.canRunList = [])
    (hchunk : ∀ k, ad.remChunkTokens = some k → 1 ≤ k) : Charged N own held ad₁ ∧ ad₁.Fits := by
  rcases h with rfl | ⟨rid, left, hrem, hlen, hrun⟩
  · exact ⟨hc, hf⟩
  have hoffset : 0 ≤ ad.remTotalTokenOffset := le_trans (Nat.cast_nonneg _) hc.charged
  rcases hr : ad.pool.req? rid with _ | r
  · rw [addChunkedReq, hr] at hrun
    cases hrun
  cases hk : ad.remChunkTokens with
  | none =>
    rw [addChunkedReq, hr, hk] at hrun
    cases hrun
  | some k =>
    exact addChunkedReq_spec hc hempty hr (hlen r hr) hoffset hk (hchunk k hk) hrem hrun

/-- After any admissions in an accounted pool, the allocation for all succeeds and evicts no locked
node. -/
theorem prefill_admission_safe {ad₁ : PrefillAdder} {past : List AdmitOp} (hinv : ad.pool.Inv N)
    (hopen : ad.pool.alloc.isNotInFreeGroup = true) (hratio : 0 ≤ ad.newTokenRatio)
    (hrunning : ∀ r ∈ ad.runningReqs, r.outputIds.length ≤ r.maxNewTokens)
    (hchunk : ∀ k, ad.remChunkTokens = some k → 1 ≤ k) (hstart : (ad.init 0).Starts ad₁)
    (hr : Run next ok ad₁ past ad') (pick : Nat → Nat) :
    ∃ s', ad'.pool.allocForExtend pick ad'.extendBatch = .ok s' ∧
      ∀ n ∈ ad'.pool.cache.nodes, n.lockRef ≠ 0 → n ∈ s'.cache.nodes := by
  obtain ⟨hc, hf⟩ := charged_init hinv.ledger hopen hratio hrunning
  have hchunk' : ∀ k, (ad.init 0).remChunkTokens = some k → 1 ≤ k := by
    intro k hk
    obtain ⟨k', hk', rfl⟩ := Option.map_eq_some_iff.mp hk
    have := hchunk k' hk'
    omega
  obtain ⟨hc₁, hf₁⟩ := hstart.charged hc hf rfl hchunk'
  -- every operation keeps the charges, and what is admitted fits
  have hrun : (∃ held', Charged N (pagesOf ad.pool.cache.pageSize ad.pool.reqs) held' ad') ∧
      ad'.Fits := by
    refine hr.invariant (I := fun _ a =>
      (∃ held', Charged N (pagesOf ad.pool.cache.pageSize ad.pool.reqs) held' a) ∧ a.Fits)
      ⟨⟨_, hc₁⟩, hf₁⟩ fun _ a op hi hok => ?_
    obtain ⟨⟨held', hc'⟩, hf'⟩ := hi
    exact next_spec hc' hf' op hok
  obtain ⟨⟨held', hc'⟩, hf'⟩ := hrun
  exact allocForExtend_ok hc' hf' pick

theorem shared_prefix_admitted : ∃ ad : PrefillAdder, ad.canRunList = [2, 3] ∧
    ad.newChunkedReq = some 3 ∧ ∃ s', ad.pool.allocForExtend id ad.extendBatch = .ok s' ∧
      ∀ n ∈ ad.pool.cache.nodes, n.lockRef ≠ 0 → n ∈ s'.cache.nodes := by
  have hr : Run KvPool.next KvPool.ok (fresh {
      cache := { pageSize := 2 }
      alloc := { pageSize := 2, numPages := 10, freePages := [] } }) _ _ :=
    Run.of_admitted [.arrive 1 [1, 2, 3, 4] none, .matchAndLock 1 3, .allocForExtend id [(1, 4)],
      .cacheUnfinishedReq 1, .arrive 2 [1, 2, 3, 4, 5] none, .arrive 3 [6, 7, 8, 9, 10, 11] none]
      .start (by decide +kernel)
  have hinv := (inv_of_run (by decide) rfl
    (fun s hi hargs op hok => ⟨hok, hi.reaches (by rw [hargs]) hok⟩) hr).1
  generalize hs : List.foldl KvPool.next _ _ = s at hinv
  have hr' : Run next ok (init {
      pool := s, running := [1], newTokenRatio := 1 / 2, remInputTokens := 16,
      remChunkTokens := some 4 } 0) _ _ :=
    Run.of_admitted [
      .addOneReq 2 ⟨[2, 3, 4, 5], RadixKey.cells ⟨[1, 2, 3, 4], none, false, none⟩⟩ none,
      .addOneReq 3 ⟨[], []⟩ none] .start (by subst hs; decide +kernel)
  refine ⟨_, ?_, ?_, prefill_admission_safe hinv ?_ ?_ ?_ ?_ (.inl rfl) hr' id⟩
  all_goals subst hs
  · decide +kernel
  · decide +kernel
  · decide +kernel
  · decide +kernel
  · decide +kernel
  · decide
end Sglang.PrefillAdder
