import Sglang.Sched.Scheduler

/-!
# No request is lost in a pass

A pass moves requests between the waiting queue, the running batch, the list of preempted requests
and the list of those to be run.
-/

namespace Sglang
open List
variable {α β : Type}

lemma ok_of_bind {ε : Type} {x : Except ε α} {f : α → Except ε β} {b : β}
    (h : x >>= f = .ok b) : ∃ a, x = .ok a ∧ f a = .ok b := by
  cases x with
  | error e => cases h
  | ok a => exact ⟨a, rfl, h⟩

lemma mem_of_mapM {f : α → Option β} {xs : List α} {ys : List β} {y : β}
    (h : xs.mapM f = some ys) (hy : y ∈ ys) : ∃ x ∈ xs, f x = some y := by
  induction xs generalizing ys with
  | nil =>
    obtain rfl : [] = ys := by simpa using h
    cases hy
  | cons x xs ih => ?_
  rw [mapM_cons] at h
  obtain ⟨z, hz, h⟩ := Option.bind_eq_some_iff.mp h
  obtain ⟨zs, hzs, h⟩ := Option.bind_eq_some_iff.mp h
  obtain rfl : z :: zs = ys := by simpa using h
  rcases mem_cons.mp hy with rfl | hy
  · exact ⟨x, mem_cons_self, hz⟩
  · obtain ⟨w, hw, hf⟩ := ih hzs hy
    exact ⟨w, mem_cons_of_mem _ hw, hf⟩

lemma filter_notMem_append_perm {xs taken : List Nat} (hnd : xs.Nodup) (hnd' : taken.Nodup)
    (hsub : ∀ x ∈ taken, x ∈ xs) : ((xs.filter fun x => decide (x ∉ taken)) ++ taken).Perm xs := by
  have hfilter : (xs.filter fun x => decide (x ∈ taken)).Perm taken := by
    grind
  have hsplit := filter_append_perm (fun x => decide (x ∈ taken)) xs
  simp only [← decide_not] at hsplit
  exact (perm_append_comm.trans (hfilter.symm.append_right _)).trans hsplit

namespace PrefillAdder
variable {ad ad' : PrefillAdder} {rid : Nat} {pick : Nat → Nat → Nat} {ad₁ ad₂ : PrefillAdder}
  {align : Option Nat} {res : AddReqResult} {r : Req}

structure SameLists (ad ad' : PrefillAdder) : Prop where
  running : ad'.running = ad.running
  preemptList : ad'.preemptList = ad.preemptList

/-- One request is added, or nothing happens; a new chunked request is that one. -/
structure Adds (ad : PrefillAdder) (rid : Nat) (ad' : PrefillAdder) : Prop where
  same : SameLists ad ad'
  canRun : ad'.canRunList = ad.canRunList ∧ ad'.newChunkedReq = ad.newChunkedReq ∨
    ad'.canRunList = ad.canRunList ++ [rid] ∧
      (ad'.newChunkedReq = ad.newChunkedReq ∨ ad'.newChunkedReq = some rid)

lemma Adds.refl (ad : PrefillAdder) (rid : Nat) : Adds ad rid ad := ⟨⟨rfl, rfl⟩, .inl ⟨rfl, rfl⟩⟩

lemma addOneReqIgnoreEos_adds (h : ad.addOneReqIgnoreEos r = .ok (res, ad')) : Adds ad r.rid ad' := by
  rw [addOneReqIgnoreEos] at h
  dsimp only at h
  by_cases hgate : (ad.ceilPagedTokens ((r.tokens.length : Int) - r.prefixIndices.length) : ℚ) >
      min (ad.curRemTokens : ℚ) ad.remTotalTokens
  · rw [if_pos hgate] at h
    cases h
    exact .refl ad r.rid
  split_ifs at h <;> cases h
  · exact ⟨⟨rfl, rfl⟩, .inl ⟨rfl, rfl⟩⟩
  · exact ⟨⟨rfl, rfl⟩, .inl ⟨rfl, rfl⟩⟩
  · exact ⟨⟨rfl, rfl⟩, .inr ⟨rfl, .inl rfl⟩⟩
  · exact ⟨⟨rfl, rfl⟩, .inl ⟨rfl, rfl⟩⟩
  · exact ⟨⟨rfl, rfl⟩, .inr ⟨rfl, .inr rfl⟩⟩

lemma addUnderLock_adds {q : NodePath} {totalTokens : Int} :
    Adds ad r.rid (ad.addUnderLock r q align totalTokens).2 := by
  have hlocked : Adds (ad.incLockRef q) r.rid
      ((ad.incLockRef q).addLocked r q align totalTokens).2.1 := by
    rw [addLocked]
    by_cases hgate : (totalTokens : ℚ) ≥ (ad.incLockRef q).remTotalTokens
    · rw [if_pos hgate]
      exact .refl _ _
    rcases hchunk : (ad.incLockRef q).remChunkTokens with _ | remChunkTokens
    · split_ifs
      · exact .refl _ _
      · exact ⟨⟨rfl, rfl⟩, .inr ⟨rfl, .inl rfl⟩⟩
    dsimp only
    split_ifs
    · exact ⟨⟨rfl, rfl⟩, .inr ⟨rfl, .inl rfl⟩⟩
    · split
      · exact .refl _ _
      · exact ⟨⟨rfl, rfl⟩, .inr ⟨rfl, .inr rfl⟩⟩
  exact ⟨⟨hlocked.same.running, hlocked.same.preemptList⟩, hlocked.canRun⟩

lemma addOneReq_adds {m : MatchResult}
    (h : ad.addOneReq rid m align = .ok (res, ad')) : Adds ad rid ad' := by
  rcases hr : ad.pool.req? rid with _ | r
  · rw [addOneReq, hr] at h
    cases h
  obtain rfl : r.rid = rid := by simpa using find?_some hr
  rw [addOneReq, hr] at h
  dsimp only at h
  split_ifs at h
  · cases h
    exact .refl _ _
  · cases h
    exact .refl _ _
  · cases h
    exact .refl _ _
  · exact addOneReqIgnoreEos_adds (r := r.matched m) h
  · cases h
    exact .refl _ _
  · cases h
    exact .refl _ _
  have hend := congrArg Prod.snd (Except.ok.inj h)
  dsimp only at hend
  rw [← hend]
  exact addUnderLock_adds (r := r.matched m)

lemma addChunkedReq_adds {left : Option Nat} (h : ad.addChunkedReq rid = .ok (left, ad')) :
    SameLists ad ad' ∧ ad'.canRunList = ad.canRunList ++ [rid] ∧
      ad'.newChunkedReq = ad.newChunkedReq ∧ (left = none ∨ left = some rid) := by
  rw [addChunkedReq] at h
  split at h
  · rename_i r k hr hk
    obtain rfl : r.rid = rid := by simpa using find?_some hr
    obtain ⟨rfl, rfl⟩ := h
    refine ⟨⟨rfl, rfl⟩, rfl, rfl, ?_⟩
    grind
  · cases h

/-! ## Preemption -/

lemma preemptible_prefix (ad : PrefillAdder) (sign : Int) (req : Req) (minTokens : ℚ)
    (rs : List Req) : (ad.preemptible sign req minTokens rs).1 <+: rs := by
  induction rs generalizing minTokens with
  | nil => exact nil_prefix
  | cons r rs ih =>
    rw [preemptible]
    grind

lemma releasePreempted_lists {n k : Nat} {preempted rids : List Nat}
    (h : releasePreempted pick n preempted k ad rids = .ok ad') :
    SameLists ad ad' ∧ ad'.canRunList = ad.canRunList ∧ ad'.newChunkedReq = ad.newChunkedReq := by
  induction rids generalizing ad k with
  | nil =>
    cases h
    exact ⟨⟨rfl, rfl⟩, rfl, rfl⟩
  | cons rid rids ih => ?_
  rw [releasePreempted] at h
  split at h
  swap
  · exact ih h
  rcases hr : ad.pool.req? rid with _ | r
  · rw [hr] at h
    cases h
  rw [hr] at h
  dsimp only at h
  rcases hrel : ad.pool.releaseReq (pick (k + 1)) rid ((n - (k + 1)) *
    ad.pool.args.retractDecodeSteps) with e | pool
  · rw [hrel] at h
    cases h
  rw [hrel] at h
  obtain ⟨hsame, hcan, hchunk⟩ := ih h
  exact ⟨⟨hsame.running, hsame.preemptList⟩, hcan, hchunk⟩

lemma preemptToSchedule_lists {low done : Bool}
    (h : ad.preemptToSchedule pick low rid = .ok (done, ad')) (hnd : ad.running.Nodup) :
    (ad'.running ++ ad'.preemptList).Perm (ad.running ++ ad.preemptList) ∧ ad'.running.Nodup ∧
      ad'.canRunList = ad.canRunList ∧ ad'.newChunkedReq = ad.newChunkedReq := by
  rw [preemptToSchedule] at h
  rcases hr : ad.pool.req? rid with _ | req
  · rw [hr] at h
    cases h
  rw [hr] at h
  dsimp only at h
  generalize hsign : (if low = true then (1 : Int) else -1) = sign at h
  generalize hvalid : (ad.runningReqs.filter fun r => decide (r.rid ∉ ad.preemptList ∧
    (!r.finished) = true)) = valid at h
  generalize hmin : (((req.fullUntruncatedFillIds.length : Int) - req.prefixIndices.length +
    min req.maxNewTokens ad.clipMaxNewTokens : Int) : ℚ) - ad.remTotalTokens = minTokens at h
  set order := valid.insertionSort (PreemptedBefore sign)
  generalize hpre : ad.preemptible sign req minTokens
    order = pre at h
  split_ifs at h with hnone
  · cases h
    exact ⟨.refl _, hnd, rfl, rfl⟩
  rcases hrel : releasePreempted pick ad.running.length (pre.1.map Req.rid) 0 ad ad.running with e | ad₁
  · rw [hrel] at h
    cases h
  rw [hrel] at h
  cases h
  obtain ⟨hsame, hcan, hchunk⟩ := releasePreempted_lists hrel
  rw [hsame.running, hsame.preemptList]
  refine ⟨?_, hnd.filter _, hcan, hchunk⟩
  -- the names of those that go: some of the running ones, each once
  have hrids : ∀ xs : List Nat, (xs.filterMap ad.pool.req?).map Req.rid <+ xs := by
    intro xs
    induction xs with
    | nil => exact .refl _
    | cons x xs ih => ?_
    rcases hx : ad.pool.req? x with _ | r
    · rw [filterMap_cons_none hx]
      exact ih.cons x
    obtain rfl : r.rid = x := by simpa using find?_some hx
    rw [filterMap_cons_some hx, map_cons]
    exact ih.cons_cons r.rid
  have hsub : (valid.map Req.rid) <+ ad.running :=
    ((hvalid ▸ filter_sublist).map Req.rid).trans (hrids ad.running)
  have hsorted : (order.map Req.rid).Perm (valid.map Req.rid) := (perm_insertionSort _ valid).map Req.rid
  have hgone : pre.1.map Req.rid <+: order.map Req.rid :=
    (hpre ▸ preemptible_prefix ad sign req minTokens _ : pre.1 <+: _).map Req.rid
  have hnd' : (pre.1.map Req.rid).Nodup :=
    (hsorted.nodup_iff.mpr (hnd.sublist hsub)).sublist hgone.sublist
  have hmem : ∀ x ∈ pre.1.map Req.rid, x ∈ ad.running := fun x hx =>
    hsub.subset (hsorted.mem_iff.mp (hgone.subset hx))
  have hperm := filter_notMem_append_perm hnd hnd' hmem
  refine perm_iff_count.mpr fun x => ?_
  have hcount := hperm.count_eq x
  simp only [count_append] at hcount ⊢
  omega

/-! ## The loop over the waiting queue -/

structure Moves (ad : PrefillAdder) (queue : List Nat) (ad' : PrefillAdder) : Prop where
  perm : (ad'.running ++ ad'.preemptList).Perm (ad.running ++ ad.preemptList)
  nodup : ad'.running.Nodup
  canRun : ∃ added, added <+ queue ∧ ad'.canRunList = ad.canRunList ++ added ∧
    (ad'.newChunkedReq = ad.newChunkedReq ∨ ∃ x ∈ added, ad'.newChunkedReq = some x)

lemma Moves.refl (hnd : ad.running.Nodup) (queue : List Nat) : Moves ad queue ad :=
  ⟨.refl _, hnd, [], nil_sublist _, (append_nil _).symm, .inl rfl⟩

variable {queue : List Nat}

lemma Moves.skip (h : Moves ad queue ad') (rid : Nat) : Moves ad (rid :: queue) ad' := by
  obtain ⟨added, hsub, hcan⟩ := h.canRun
  exact ⟨h.perm, h.nodup, added, hsub.cons rid, hcan⟩

lemma Moves.cons (hadd : Adds ad rid ad₁) (h : Moves ad₁ queue ad₂) : Moves ad (rid :: queue) ad₂ := by
  have hperm : (ad₂.running ++ ad₂.preemptList).Perm (ad.running ++ ad.preemptList) := by
    simpa only [hadd.same.running, hadd.same.preemptList] using h.perm
  obtain ⟨added, hsub, hcan, hchunk⟩ := h.canRun
  rcases hadd.canRun with ⟨hcan1, hchunk1⟩ | ⟨hcan1, hchunk1⟩
  · exact ⟨hperm, h.nodup, added, hsub.cons rid, hcan1 ▸ hcan, hchunk1 ▸ hchunk⟩
  refine ⟨hperm, h.nodup, rid :: added, hsub.cons_cons rid, ?_, ?_⟩
  · rw [hcan, hcan1, append_assoc]
    rfl
  rcases hchunk with hchunk | ⟨x, hx, hchunk⟩
  · rcases hchunk1 with hchunk1 | hchunk1
    · exact .inl (hchunk.trans hchunk1)
    · exact .inr ⟨rid, mem_cons_self, hchunk.trans hchunk1⟩
  · exact .inr ⟨x, mem_cons_of_mem _ hx, hchunk⟩

lemma Moves.of_perm (hperm : (ad₁.running ++ ad₁.preemptList).Perm (ad.running ++ ad.preemptList))
    (hcan : ad₁.canRunList = ad.canRunList) (hchunk : ad₁.newChunkedReq = ad.newChunkedReq)
    (h : Moves ad₁ queue ad₂) : Moves ad queue ad₂ := by
  obtain ⟨added, hsub, hcan2, hchunk2⟩ := h.canRun
  exact ⟨h.perm.trans hperm, h.nodup, added, hsub, hcan ▸ hcan2, hchunk ▸ hchunk2⟩
end PrefillAdder

namespace Scheduler
open PrefillAdder
variable {sch : Scheduler} {inp : PassInput}
variable {ad : PrefillAdder} {full : Bool} {batch : Option (List Nat)} {running' : RunningBatch}
   {sch' : Scheduler} {running : RunningBatch} {left : Option Nat}

lemma admitLoop_moves {queue : List Nat} {ad' : PrefillAdder} {full' : Bool}
    (h : sch.admitLoop inp queue ad full = .ok (ad', full')) (hnd : ad.running.Nodup) :
    Moves ad queue ad' := by
  induction queue generalizing ad full with
  | nil =>
    cases h
    exact .refl hnd []
  | cons rid queue ih => ?_
  rw [admitLoop] at h
  by_cases hlora : inp.canScheduleLora rid = false
  · rw [if_pos hlora] at h
    exact (ih h hnd).skip rid
  rw [if_neg hlora] at h
  obtain ⟨⟨goOn, ad₁⟩, hpre, h⟩ := ok_of_bind h
  dsimp only at h
  -- whether the batch is full, and what a preemption does if it is
  have hlists : (ad₁.running ++ ad₁.preemptList).Perm (ad.running ++ ad.preemptList) ∧
      ad₁.running.Nodup ∧ ad₁.canRunList = ad.canRunList ∧
      ad₁.newChunkedReq = ad.newChunkedReq := by
    rw [makeRoom] at hpre
    split_ifs at hpre
    · exact preemptToSchedule_lists hpre hnd
    · cases hpre
      exact ⟨.refl _, hnd, rfl, rfl⟩
    grind
  obtain ⟨hperm, hnd1, hcan, hchunk⟩ := hlists
  refine Moves.of_perm hperm hcan hchunk ?_
  by_cases hgo : goOn = false
  · rw [if_pos hgo] at h
    cases h
    exact .refl hnd1 _
  rw [if_neg hgo] at h
  by_cases hfetch : inp.prefetchDone rid = false
  · rw [if_pos hfetch] at h
    exact (ih h hnd1).skip rid
  rw [if_neg hfetch] at h
  obtain ⟨⟨m, pool⟩, -, h⟩ := ok_of_bind h
  obtain ⟨⟨res, ad₂⟩, hadd, h⟩ := ok_of_bind h
  have hadds : Adds ad₁ rid ad₂ := by
    have := addOneReq_adds hadd
    exact ⟨⟨this.same.running, this.same.preemptList⟩, this.canRun⟩
  have hnd2 : ad₂.running.Nodup := by
    rw [hadds.same.running]
    exact hnd1
  have hend : Moves ad₁ (rid :: queue) ad₂ := .cons hadds (.refl hnd2 queue)
  cases res with
  | continues => exact .cons hadds (ih h hnd2)
  | noToken =>
    grind
  | other =>
    cases h
    exact hend

/-! ## The whole pass -/

def requests (sch : Scheduler) (inp : PassInput) (running : RunningBatch) : List Nat :=
  sch.waitingQueue ++ inp.readyGrammarRequests ++ running.reqs ++ sch.chunkedReq.toList

/-- What a pass leaves to be prefilled: the batch, or else the chunked request. -/
def scheduled (sch : Scheduler) (batch : Option (List Nat)) : List Nat :=
  batch.getD sch.chunkedReq.toList

def Dropped (sch : Scheduler) (running dropped : List Nat) : Prop :=
  ∀ rid ∈ dropped, rid ∈ running ∧ sch.isMixedChunk = true ∧
    ∃ r, sch.pool.req? rid = some r ∧ r.finished = true

lemma req?_allocForDecode {s s' : KvPool} {pick : Nat → Nat} {batch : List Nat}
    (h : s.allocForDecode pick batch = .ok s') {rid : Nat} (hrid : rid ∉ batch) :
    s'.req? rid = s.req? rid := by
  rw [KvPool.allocForDecode] at h
  rcases hrs : s.batchReqs (batch.map fun rid => (rid, 0)) with _ | rs
  · rw [hrs] at h
    cases h
  rw [hrs] at h
  obtain ⟨s₁, hevict, h⟩ := ok_of_bind h
  have hreqs : s₁.reqs = s.reqs := by
    rw [KvPool.evictFromTreeCache] at hevict
    split_ifs at hevict
    · obtain ⟨⟨ns, cache⟩, -, hout⟩ := ok_of_bind hevict
      cases hout
      rfl
    · cases hevict
      rfl
  have hmem : ∀ x ∈ rs, x.1.rid ∈ batch := fun x hx => by
    obtain ⟨b, hb, hx⟩ := mem_of_mapM hrs hx
    obtain ⟨rid, hrid, rfl⟩ := mem_map.mp hb
    obtain ⟨r, hr, rfl⟩ := Option.map_eq_some_iff.mp hx
    obtain rfl : r.rid = rid := by simpa using find?_some hr
    exact hrid
  rcases halloc : KvPool.allocDecodeSlots s₁.alloc (rs.map fun r => KvPool.decodeReq r.1) with _ | out
  · rw [halloc] at h
    cases h
  obtain ⟨outs, a⟩ := out
  rw [halloc] at h
  cases h
  -- each request of the batch is written back under its own number
  rw [← show ({ s₁ with alloc := a } : KvPool).req? rid = s.req? rid by
    rw [KvPool.req?, KvPool.req?, hreqs]]
  have hframe : ∀ xs : List ((Req × Nat) × Nat), (∀ x ∈ xs, x.1 ∈ rs) → ∀ s₂ : KvPool,
      (xs.foldl (fun s ro => s.setReq (KvPool.decoded ro.1.1 ro.2)) s₂).req? rid = s₂.req? rid := by
    intro xs hxs
    induction xs with
    | nil => exact fun _ => rfl
    | cons x xs ih =>
      intro s₂
      rw [foldl_cons, ih fun y hy => hxs y (mem_cons_of_mem _ hy), KvPool.req?_setReq, if_neg]
      rintro rfl
      exact hrid (hmem x.1 (hxs x mem_cons_self))
  exact hframe _ (fun x hx => (of_mem_zip hx).1) _

lemma req?_refreshFillIds {rids : List Nat} {rid : Nat} (h : rid ∉ rids) (s : KvPool) :
    (rids.foldl refreshFillIds s).req? rid = s.req? rid := by
  induction rids generalizing s with
  | nil => rfl
  | cons x rids ih => ?_
  rw [foldl_cons, ih (not_mem_of_not_mem_cons h), refreshFillIds]
  rcases hx : s.req? x with _ | r
  · rfl
  obtain rfl : r.rid = x := by simpa using find?_some hx
  exact (KvPool.req?_setReq ..).trans (if_neg (ne_of_not_mem_cons h))

lemma mixWithRunning_requests (h : sch.mixWithRunning inp ad full = .ok (batch, running', sch')) :
    sch'.waitingQueue = sch.waitingQueue ∧ sch'.chunkedReq = sch.chunkedReq ∧
      sch'.isMixedChunk = sch.isMixedChunk ∧
      ∃ kept dropped, batch = some (ad.canRunList ++ kept) ∧ sch'.Dropped ad.running dropped ∧
        (running'.reqs ++ kept ++ dropped).Perm ad.running := by
  rw [mixWithRunning] at h
  by_cases hmix : sch.isMixedChunk = true ∧ ad.running ≠ [] ∧ inp.mixable = true
  swap
  · rw [if_neg hmix] at h
    cases h
    refine ⟨rfl, rfl, rfl, [], [], (by rw [append_nil]), fun rid hrid => ?_, ?_⟩
    · cases hrid
    · rw [append_nil, append_nil]
  rw [if_pos hmix] at h
  generalize hkept : (ad.running.filter fun rid => (sch.pool.req? rid).all fun r => !r.finished) =
    kept at h
  have hsplit := filter_append_perm (fun rid => (sch.pool.req? rid).all fun r => !r.finished) ad.running
  rw [hkept] at hsplit
  have hdropped : ∀ rid ∈ ad.running.filter fun x => !((sch.pool.req? x).all fun r => !r.finished),
      rid ∈ ad.running ∧ rid ∉ kept ∧ ∃ r, sch.pool.req? rid = some r ∧ r.finished = true := by
    intro rid hrid
    obtain ⟨hrun, hfin⟩ := mem_filter.mp hrid
    refine ⟨hrun, ?_, ?_⟩
    · rw [← hkept]
      intro hin
      rw [(mem_filter.mp hin).2] at hfin
      cases hfin
    · cases hr : sch.pool.req? rid with
      | none => simp [hr] at hfin
      | some r => exact ⟨r, rfl, by simpa [hr] using hfin⟩
  generalize (ad.running.filter fun x => !((sch.pool.req? x).all fun r => !r.finished)) = dropped
    at hsplit hdropped
  by_cases hnil : kept = []
  · rw [if_pos hnil] at h
    cases h
    rw [hnil] at hsplit
    refine ⟨rfl, rfl, rfl, [], dropped, (by rw [append_nil]), fun rid hrid => ?_, hsplit⟩
    obtain ⟨hrun, -, hfin⟩ := hdropped rid hrid
    exact ⟨hrun, hmix.1, hfin⟩
  rw [if_neg hnil] at h
  obtain ⟨pool, halloc, h⟩ := ok_of_bind h
  cases h
  refine ⟨rfl, rfl, rfl, kept, dropped, rfl, fun rid hrid => ?_, hsplit⟩
  obtain ⟨hrun, hout, r, hr, hfin⟩ := hdropped rid hrid
  exact ⟨hrun, hmix.1, r,
    (req?_refreshFillIds hout pool).trans ((req?_allocForDecode halloc hout).trans hr), hfin⟩

lemma startChunked_lists {ad' : PrefillAdder}
    (h : sch.startChunked ad = .ok (left, ad')) (hcan : ad.canRunList = []) :
    SameLists ad ad' ∧ ad'.canRunList = sch.chunkedReq.toList ∧
      ad'.newChunkedReq = ad.newChunkedReq ∧ ∀ c ∈ left, c ∈ sch.chunkedReq := by
  rw [startChunked] at h
  rcases hc : sch.chunkedReq with _ | rid
  · rw [hc] at h
    cases h
    exact ⟨⟨rfl, rfl⟩, hcan, rfl, fun c hc => hc⟩
  rw [hc] at h
  obtain ⟨hsame, hcan', hchunk, hleft⟩ := addChunkedReq_adds h
  grind

/-- After a pass each request is waiting, running or to be prefilled, finished ones dropped with
mixed chunks; the chunked request is in the batch, if there is one. -/
def Accounted (sch : Scheduler) (running : RunningBatch) (batch : Option (List Nat))
    (known knownRunning : List Nat) : Prop :=
  ∃ dropped, sch.Dropped knownRunning dropped ∧
    (sch.waitingQueue ++ running.reqs ++ sch.scheduled batch ++ dropped).Perm known ∧
    ∀ rids, batch = some rids → ∀ c ∈ sch.chunkedReq, c ∈ rids

lemma Accounted.of_exit (hqueue : sch'.waitingQueue.Perm (sch.waitingQueue ++ inp.readyGrammarRequests))
    (hrun : running'.reqs = running.reqs) (hchunk : sch'.chunkedReq = sch.chunkedReq) :
    sch'.Accounted running' none (sch.requests inp running) running.reqs := by
  refine ⟨[], fun rid hrid => ?_, ?_, fun rids hnone => ?_⟩
  · cases hrid
  · rw [append_nil, hrun, scheduled, Option.getD_none, hchunk]
    exact (hqueue.append_right _).append_right _
  · cases hnone

lemma makeBatch_accounted {q : List Nat} (ad : PrefillAdder) {ad₁ ad₂ : PrefillAdder}
    (hnd : (q ++ ad.running ++ sch.chunkedReq.toList).Nodup)
    (hempty : ad.canRunList = [] ∧ ad.preemptList = [] ∧ ad.newChunkedReq = none)
    (hstart : sch.startChunked ad = .ok (left, ad₁)) (hmoves : Moves ad₁ q ad₂)
    (hbatch : makeBatch { sch with chunkedReq := left, waitingQueue := q } inp ad₂ full =
      .ok (batch, running', sch')) :
    sch'.Accounted running' batch (q ++ ad.running ++ sch.chunkedReq.toList) ad.running := by
  obtain ⟨hsame, hcan1, hchunk1, hleft⟩ := startChunked_lists hstart hempty.1
  obtain ⟨hperm, hnd2, added, hsub, hcan2, hchunk2⟩ := hmoves
  rw [hsame.running, hsame.preemptList, hempty.2.1, append_nil] at hperm
  rw [hcan1] at hcan2
  rw [hchunk1, hempty.2.2] at hchunk2
  rw [makeBatch] at hbatch
  by_cases hassert : ad₂.newChunkedReq.isSome ∧ left.isSome
  · rw [if_pos hassert] at hbatch
    cases hbatch
  rw [if_neg hassert] at hbatch
  obtain ⟨pool, -, hbatch⟩ := ok_of_bind hbatch
  obtain ⟨hqueue, hslot, -, kept, dropped, rfl, hdropped, hrest⟩ := mixWithRunning_requests hbatch
  have hrun : ∀ rid ∈ ad₂.running, rid ∈ ad.running := fun rid hrid =>
    hperm.mem_iff.mp (mem_append_left _ hrid)
  refine ⟨dropped, fun rid hrid => ?_, ?_, ?_⟩
  · obtain ⟨hin, hmix, hfin⟩ := hdropped rid hrid
    exact ⟨hrun rid hin, hmix, hfin⟩
  · -- the waiting requests that are not to be run, and those that are
    have hq : q.Nodup := (nodup_append.mp (nodup_append.mp hnd).1).1
    have hwait : (q.filter fun rid => decide (rid ∉ ad₂.canRunList)) =
        q.filter fun rid => decide (rid ∉ added) := by
      refine filter_congr fun rid hrid => ?_
      have hout : rid ∉ sch.chunkedReq.toList := fun hin =>
        (nodup_append.mp hnd).2.2 rid (mem_append_left _ hrid) rid hin rfl
      simp only [hcan2, mem_append, hout, false_or]
    have hsplit := filter_notMem_append_perm hq (hq.sublist hsub) fun x hx => hsub.subset hx
    rw [hqueue, hwait, scheduled, Option.getD_some, hcan2]
    refine perm_iff_count.mpr fun x => ?_
    have h1 := hsplit.count_eq x
    have h2 := hrest.count_eq x
    have h3 := hperm.count_eq x
    simp only [count_append] at h1 h2 h3 ⊢
    omega
  rintro rids ⟨⟩ c hc
  rw [hslot] at hc
  rw [hcan2]
  refine mem_append_left _ (mem_append.mpr ?_)
  rcases hchunk2 with hnone | ⟨x, hx, hsome⟩
  · rw [hnone, Option.isSome_none, if_neg Bool.false_ne_true] at hc
    exact .inl (Option.mem_toList.mpr (hleft c hc))
  · rw [hsome, Option.isSome_some, if_pos rfl] at hc
    cases hc
    exact .inr hx

lemma prefillPass_accounted (hpass : sch.prefillPass inp running = .ok (batch, running', sch'))
    (hnd : (sch.waitingQueue ++ running.reqs ++ sch.chunkedReq.toList).Nodup)
    (hkeep : batch.isSome ∨ running'.reqs = running.reqs) :
    sch'.Accounted running' batch (sch.waitingQueue ++ running.reqs ++ sch.chunkedReq.toList)
      running.reqs := by
  obtain ⟨⟨left, ad₁⟩, hstart, hpass⟩ := ok_of_bind hpass
  obtain ⟨⟨ad₂, full⟩, hloop, hpass⟩ := ok_of_bind hpass
  dsimp only at hpass hloop
  have hrun : running.reqs.Nodup := (nodup_append.mp (nodup_append.mp hnd).1).2.1
  obtain ⟨hsame, hcan1, hchunk1, hleft⟩ := startChunked_lists hstart rfl
  have hmoves := admitLoop_moves hloop (hsame.running ▸ hrun)
  by_cases hcan : ad₂.canRunList = []
  swap
  · rw [if_neg hcan] at hpass
    exact makeBatch_accounted (sch.newAdder inp running.reqs) hnd ⟨rfl, rfl, rfl⟩ hstart hmoves hpass
  -- nothing is admitted, so that there was no chunked request
  rw [if_pos hcan] at hpass
  cases hpass
  obtain ⟨added, -, hcan2, -⟩ := hmoves.canRun
  rw [hcan, hcan1] at hcan2
  have hnone : sch.chunkedReq = none := by
    rcases hc : sch.chunkedReq with _ | rid
    · rfl
    rw [hc] at hcan2
    cases hcan2
  have hleft' : left = none := by
    rcases left with _ | c
    · rfl
    have := hleft c rfl
    rw [hnone] at this
    cases this
  refine ⟨[], fun rid hrid => ?_, ?_, fun rids hb => ?_⟩
  · cases hrid
  · rw [append_nil, scheduled, Option.getD_none, hleft', hnone]
    rw [hkeep.resolve_left Bool.false_ne_true]
  · cases hb

/-- A pass that makes a batch or keeps the running one loses no request and doubles none. -/
theorem pass_loses_no_request {running running' : RunningBatch} {sch' : Scheduler}
    {batch : Option (List Nat)}
    (hpass : sch.getNewBatchPrefillRaw inp running = .ok (batch, running', sch'))
    (horder : ∀ queue, (inp.calcPriority queue).Perm queue) (hnd : (sch.requests inp running).Nodup)
    (hkeep : batch.isSome ∨ running'.reqs = running.reqs) :
    sch'.Accounted running' batch (sch.requests inp running) running.reqs := by
  rw [getNewBatchPrefillRaw] at hpass
  have hpermq := horder (sch.waitingQueue ++ inp.readyGrammarRequests)
  split_ifs at hpass
  iterate 3
    · cases hpass
      exact .of_exit (.refl _) rfl rfl
  · cases hpass
    exact .of_exit hpermq rfl rfl
  have hperm : (inp.calcPriority (sch.waitingQueue ++ inp.readyGrammarRequests) ++ running.reqs ++
      sch.chunkedReq.toList).Perm (sch.requests inp running) :=
    (hpermq.append_right _).append_right _
  obtain ⟨dropped, hdropped, hall, hchunk⟩ :=
    prefillPass_accounted hpass (hperm.nodup_iff.mpr hnd) hkeep
  exact ⟨dropped, hdropped, hall.trans hperm, hchunk⟩

def fullPool (n : Nat) : Except PoolError KvPool := do
  let s ← KvPool.matchAndLock {
    cache := { pageSize := 1 }
    alloc := { pageSize := 1, numPages := 20, freePages := List.range' 1 20 }
    reqs := [{ rid := 1, originInputIds := [1], outputIds := [2], maxNewTokens := 11 },
      { rid := 2, originInputIds := List.range' 100 n, maxNewTokens := 2, priority := some 1 }] } 1 0
  let s ← s.allocForExtend id [(1, 1)]
  s.cacheUnfinishedReq 1

def preempting (pool : KvPool) : Scheduler where
  pool := pool
  waitingQueue := [2]
  ppMaxMicroBatchSize := 1
  reqToTokenPoolSize := 4
  maxPrefillTokens := 100
  enablePriorityPreemption := true

theorem preempted_request_queued_again : ∃ out : Option (List Nat) × RunningBatch × Scheduler,
    out.1 = some [2] ∧ out.2.1.reqs = [] ∧ out.2.2.waitingQueue = [1] ∧
      out.2.2.Accounted out.2.1 out.1 [2, 1] [1] := by
  have hrun : ((fullPool 14).bind fun pool => getNewBatchPrefillRaw (preempting pool)
      { maxPrefixLen := fun _ => 0 } { reqs := [1] }).map
        (fun out => (out.1, out.2.1.reqs, out.2.2.waitingQueue)) = .ok (some [2], [], [1]) := by
    decide +kernel
  rcases hpool : fullPool 14 with e | pool
  · rw [hpool] at hrun
    cases hrun
  rw [hpool] at hrun
  dsimp only [Except.bind] at hrun
  cases hpass : getNewBatchPrefillRaw (preempting pool) { maxPrefixLen := fun _ => 0 }
      { reqs := [1] } with
  | error e =>
    rw [hpass] at hrun
    cases hrun
  | ok out =>
    rw [hpass] at hrun
    simp only [Except.map, Except.ok.injEq, Prod.mk.injEq] at hrun
    refine ⟨out, hrun.1, hrun.2.1, hrun.2.2, ?_⟩
    exact pass_loses_no_request hpass (fun _ => .refl _) (show [2, 1].Nodup by decide)
      (.inl (by rw [hrun.1]; rfl))

def places (out : Option (List Nat) × RunningBatch × Scheduler) : List Nat :=
  out.2.2.waitingQueue ++ out.2.1.reqs ++ out.1.getD [] ++ out.2.2.chunkedReq.toList

theorem request_in_two_places_or_lost :
    (getNewBatchPrefillRaw {
        pool := {
          cache := { pageSize := 1 }
          alloc := { pageSize := 1, numPages := 20, freePages := List.range' 1 20 }
          reqs := [{ rid := 1, originInputIds := [1, 2, 3, 4, 5, 6], maxNewTokens := 2 }] }
        waitingQueue := [1], ppMaxMicroBatchSize := 4, reqToTokenPoolSize := 4
        maxPrefillTokens := 100, chunkedPrefillSize := some 4 }
      { maxPrefixLen := fun _ => 0 } {}).map places = .ok [1, 1] ∧
        ((fullPool 18).bind fun pool => getNewBatchPrefillRaw (preempting pool)
      { maxPrefixLen := fun _ => 0 } { reqs := [1] }).map places = .ok [2] := by
  decide +kernel
end Scheduler
end Sglang
