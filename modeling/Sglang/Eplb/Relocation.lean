import Sglang.Eplb.Plan

/-!
# Expert relocation is correct and deadlock free

All active ranks carry out their plans together.
-/

namespace Sglang.Eplb
open List Exchange

namespace Relocation
variable {m : Relocation} {active : Nat → Bool} {plans : Nat → Plan}

def activeRanks (m : Relocation) (active : Nat → Bool) : List Nat :=
  (List.range m.worldSize).filter active

lemma mem_activeRanks {r : Nat} : r ∈ m.activeRanks active ↔ r < m.worldSize ∧ active r = true := by
  rw [activeRanks, mem_filter, mem_range]

def PlansOk (m : Relocation) (active : Nat → Bool) (plans : Nat → Plan) : Prop :=
  ∀ r ∈ m.activeRanks active, m.PlanOk active r (plans r)

/-! ## The messages of a batch -/

def messages (m : Relocation) (e : Nat) : List (Option Nat × Nat) :=
  (List.range m.numTensors).map fun i => (some e, i)

def Sends (m : Relocation) (s d e : Nat) : Prop :=
  ¬ m.Holds d e ∧ m.Wants d e ∧ m.chosenSrcRank d e = some s

variable {s d e k : Nat} {op : P2POp} {p : Plan}

lemma Sends.holds (h : m.Sends s d e) : m.Holds s e := by
  obtain ⟨s', hs', hheld⟩ := chosenSrcRank_spec (mem_needCommDstRanks.mpr ⟨h.2.1, h.1⟩)
    h.2.1.exists_holds
  obtain rfl : s = s' := Option.some.inj (h.2.2.symm.trans hs')
  exact hheld

lemma filter_sendOps (src d : Nat) {ds : List Nat} (hnd : ds.Nodup) :
    (m.sendOps src ds).filter (fun op => op.isSend && op.peer == d) =
      if d ∈ ds then (range m.numTensors).map fun i => ⟨true, d, i, src⟩ else [] := by
  rw [sendOps]
  induction ds with
  | nil => rfl
  | cons x ds ih => ?_
  obtain ⟨hx, hnd⟩ := nodup_cons.mp hnd
  rw [flatMap_cons, filter_append, ih hnd]
  by_cases heq : x = d
  · subst heq
    rw [if_neg hx, if_pos mem_cons_self, append_nil, filter_eq_self.mpr]
    intro op hop
    obtain ⟨i, -, rfl⟩ := mem_map.mp hop
    exact Bool.and_eq_true_iff.mpr ⟨rfl, beq_self_eq_true _⟩
  rw [filter_eq_nil_iff.mpr, nil_append]
  · refine if_congr ?_ rfl rfl
    rw [mem_cons, or_iff_right (Ne.symm heq)]
  · intro op hop
    obtain ⟨i, -, rfl⟩ := mem_map.mp hop
    simpa using heq

lemma sends_eq (hp : m.PlanOk active s (plans s)) (hd : active d = true)
    [Decidable (m.Sends s d e)] :
    ((opsByExpert (plans s) e).filter fun op => op.isSend && op.peer == d).map m.tag =
      if m.Sends s d e then m.messages e else [] := by
  by_cases hheld : m.Holds s e
  · obtain ⟨src, hsrc, hold, ds, hds, hops⟩ := hp.sends e hheld
    obtain ⟨ds', hds', hnd, hmem⟩ := mem_allDstRanks hheld
    obtain rfl : ds = ds' := Option.some.inj (hds.symm.trans hds')
    have hiff : d ∈ ds.filter active ↔ m.Sends s d e := by
      rw [mem_filter, and_iff_left hd, hmem, mem_needCommDstRanks]
      exact ⟨fun h => ⟨h.1.2, h.1.1, h.2⟩, fun h => ⟨⟨h.2.1, h.1⟩, h.2.2⟩⟩
    rw [hops, filter_sendOps src d (hnd.filter _)]
    by_cases hs : m.Sends s d e
    · rw [if_pos (hiff.mpr hs), if_pos hs, map_map, messages]
      refine map_congr_left fun i _ => ?_
      rw [Function.comp_apply, tag, if_pos rfl, hold]
    · rw [if_neg (mt hiff.mp hs), if_neg hs, map_nil]
  rw [if_neg fun h : m.Sends s d e => hheld h.holds]
  have hnone : (opsByExpert (plans s) e).filter (fun op => op.isSend && op.peer == d) = [] := by
    rw [filter_eq_nil_iff]
    intro op hop
    by_cases hwants : m.Wants s e
    · obtain ⟨dst, s', -, -, hops⟩ := hp.recvs e hheld hwants
      rw [hops] at hop
      split at hop
      · obtain ⟨i, -, rfl⟩ := mem_map.mp hop
        exact Bool.false_ne_true
      · cases hop
    · rw [hp.others e hheld hwants] at hop
      cases hop
  rw [hnone, map_nil]

lemma recvs_eq (hp : m.PlanOk active d (plans d)) (hs : active s = true)
    [Decidable (m.Sends s d e)] :
    ((opsByExpert (plans d) e).filter fun op => !op.isSend && op.peer == s).map m.tag =
      if m.Sends s d e then m.messages e else [] := by
  by_cases hheld : m.Holds d e
  · rw [if_neg fun h : m.Sends s d e => h.1 hheld]
    obtain ⟨src, -, -, ds, -, hops⟩ := hp.sends e hheld
    rw [hops, filter_eq_nil_iff.mpr, map_nil]
    intro op hop
    obtain ⟨x, -, hop⟩ := mem_flatMap.mp hop
    grind
  by_cases hwants : m.Wants d e
  swap
  · rw [if_neg fun h : m.Sends s d e => hwants h.2.1, hp.others e hheld hwants]
    rfl
  obtain ⟨dst, s', hfirst, hchosen, hops⟩ := hp.recvs e hheld hwants
  rw [hops]
  by_cases heq : s' = s
  · subst heq
    rw [if_pos hs, if_pos ⟨hheld, hwants, hchosen⟩, filter_eq_self.mpr, recvOps, map_map, messages]
    · refine map_congr_left fun i _ => ?_
      rw [Function.comp_apply, tag, if_neg Bool.false_ne_true, hfirst.wants]
    · intro op hop
      obtain ⟨i, -, rfl⟩ := mem_map.mp hop
      exact Bool.and_eq_true_iff.mpr ⟨rfl, beq_self_eq_true _⟩
  rw [if_neg fun h : m.Sends s d e => heq (Option.some.inj (hchosen.symm.trans h.2.2)),
    filter_eq_nil_iff.mpr, map_nil]
  intro op hop
  split at hop
  · obtain ⟨i, -, rfl⟩ := mem_map.mp hop
    simpa using heq
  · cases hop

lemma sendsTo_eq_recvsFrom (h : m.PlansOk active plans) (hs : s ∈ m.activeRanks active)
    (hd : d ∈ m.activeRanks active) (k : Nat) :
    (m.sendsTo (plans s) d k).map m.tag = (m.recvsFrom (plans d) s k).map m.tag := by
  rw [sendsTo, recvsFrom, batchOps, batchOps, filter_flatMap, filter_flatMap, map_flatMap, map_flatMap]
  refine flatMap_congr fun e _ => ?_
  classical
  rw [sends_eq (h s hs) (mem_activeRanks.mp hd).2, recvs_eq (h d hd) (mem_activeRanks.mp hs).2]

lemma matched (h : m.PlansOk active plans) : (m.exchange plans).Matched (m.activeRanks active) :=
  fun _ hs _ hd k _ => sendsTo_eq_recvsFrom h hs hd k

/-! ## What is received -/

lemma mem_upTo {τ : Type} {f : Nat → List τ} {x : τ} : x ∈ upTo f k ↔ ∃ i < k, x ∈ f i := by
  rw [upTo, mem_flatMap]
  exact exists_congr fun i => and_congr_left fun _ => mem_range

lemma tags_eq (h : m.PlansOk active plans) (hs : s ∈ m.activeRanks active)
    (hd : d ∈ m.activeRanks active) : (upTo (m.sendsTo (plans s) d) m.numBatches).map m.tag =
      (upTo (m.recvsFrom (plans d) s) m.numBatches).map m.tag := by
  rw [upTo, upTo, map_flatMap, map_flatMap]
  exact flatMap_congr fun k _ => sendsTo_eq_recvsFrom h hs hd k

lemma mem_batch (he : e < m.numPhysicalExperts) :
    e / m.batchChunkSize < m.numBatches ∧ ∀ p, ∀ op ∈ opsByExpert p e,
      op ∈ m.batchOps p (e / m.batchChunkSize) := by
  have hc := m.chunk_pos
  have hdiv := Nat.div_add_mod e m.batchChunkSize
  have hmod := Nat.mod_lt e hc
  rw [mul_comm] at hdiv
  refine ⟨?_, fun p op hop => mem_flatMap.mpr ⟨e, ?_, hop⟩⟩
  · rw [numBatches, Nat.div_lt_iff_lt_mul hc]
    have hceil := Nat.div_add_mod (m.numPhysicalExperts + m.batchChunkSize - 1) m.batchChunkSize
    have hmod' := Nat.mod_lt (m.numPhysicalExperts + m.batchChunkSize - 1) hc
    rw [mul_comm] at hceil
    omega
  · rw [mem_range'_1]
    omega

lemma mem_batchOps (h : op ∈ m.batchOps p k) : ∃ e, op ∈ opsByExpert p e := by
  obtain ⟨e, -, hop⟩ := mem_flatMap.mp h
  exact ⟨e, hop⟩

lemma Holds.rank_lt (h : m.Holds s e) : s < m.worldSize := by
  obtain ⟨x, hx, hold⟩ := h
  have hlt := oldAt_lt hold
  rw [← rankOf_eq hx, rankOf]
  rw [numPhysicalExperts, m.old_length] at hlt
  exact Nat.div_lt_of_lt_mul (by rwa [mul_comm])

lemma PlanOk.send_location (hp : m.PlanOk active s p) (h : op ∈ m.sendsTo p d k) :
    op.isSend = true ∧ op.location ∈ m.localRange s ∧ op.tensor < m.numTensors := by
  obtain ⟨hop, hcond⟩ := mem_filter.mp h
  have hsend : op.isSend = true := (Bool.and_eq_true_iff.mp hcond).1
  obtain ⟨e, hop⟩ := mem_batchOps hop
  by_cases hheld : m.Holds s e
  · obtain ⟨src, hsrc, -, ds, -, hops⟩ := hp.sends e hheld
    rw [hops] at hop
    obtain ⟨x, -, hop⟩ := mem_flatMap.mp hop
    grind
  by_cases hwants : m.Wants s e
  · obtain ⟨dst, s', -, -, hops⟩ := hp.recvs e hheld hwants
    rw [hops] at hop
    split at hop
    · obtain ⟨i, -, rfl⟩ := mem_map.mp hop
      cases hsend
    · cases hop
  · rw [hp.others e hheld hwants] at hop
    cases hop

section
variable {ω : Type} {weights temp : Nat → Tensors ω} {W : Nat → Nat → ω}

def OldWeights (m : Relocation) (active : Nat → Bool) (weights : Nat → Tensors ω)
    (W : Nat → Nat → ω) : Prop :=
  ∀ r ∈ m.activeRanks active, ∀ x ∈ m.localRange r, ∀ e, m.oldAt x = some e →
    ∀ i < m.numTensors, weights r (i, x) = W e i

def RightWrite (m : Relocation) (W : Nat → Nat → ω) (w : (Nat × Nat) × ω) : Prop :=
  ∃ e, m.newAt w.1.2 = some e ∧ w.2 = W e w.1.1

variable {s d i e : Nat}

section
variable (h : m.PlansOk active plans)
include h

section
variable (hW : m.OldWeights active weights W)
include hW

lemma received_right (hs : s ∈ m.activeRanks active) (hd : d ∈ m.activeRanks active) :
    ∀ w ∈ m.received plans weights s d, m.RightWrite W w := by
  intro w hw
  obtain ⟨⟨sent, got⟩, hzip, rfl⟩ := mem_map.mp hw
  have htags := tags_eq h hs hd
  -- the operations that meet have the same tag
  have htag : m.tag sent = m.tag got := by
    obtain ⟨j, hj, heq⟩ := mem_iff_getElem.mp hzip
    rw [length_zip] at hj
    rw [getElem_zip, Prod.mk.injEq] at heq
    have := congrArg (fun xs => xs[j]?) htags
    grind
  obtain ⟨k, -, hsent⟩ := mem_upTo.mp (of_mem_zip hzip).1
  obtain ⟨k', -, hgot⟩ := mem_upTo.mp (of_mem_zip hzip).2
  obtain ⟨hsend, hloc, hT⟩ := (h s hs).send_location hsent
  have hrecv : got.isSend = false := by
    have := (Bool.and_eq_true_iff.mp (mem_filter.mp hgot).2).1
    rwa [Bool.not_eq_true'] at this
  rw [tag, tag, if_pos hsend, if_neg (by rw [hrecv]; exact Bool.false_ne_true), Prod.mk.injEq] at htag
  obtain ⟨e, he⟩ := exists_oldAt (lt_of_mem_localRange (mem_activeRanks.mp hs).1 hloc)
  refine ⟨e, htag.1.symm.trans he, ?_⟩
  rw [← htag.2]
  exact hW s hs _ hloc e he _ hT

lemma tempCopies_right (hd : d ∈ m.activeRanks active) :
    ∀ w ∈ m.copies (weights d) (((plans d).cases.filterMap tempInfo).map Prod.swap),
      m.RightWrite W w := by
  intro w hw
  obtain ⟨x, hx, hw⟩ := mem_flatMap.mp hw
  obtain ⟨i, hi, rfl⟩ := mem_map.mp hw
  obtain ⟨y, hy, rfl⟩ := mem_map.mp hx
  obtain ⟨⟨dst, c⟩, hc, htemp⟩ := mem_filterMap.mp hy
  obtain ⟨e, he, hdec⟩ := (h d hd).cases.decides _ hc
  cases c with
  | unchanged => cases htemp
  | freeRider src => cases htemp
  | fetch e' s => cases htemp
  | sameGpu src =>
    cases htemp
    exact ⟨e, he, hW d hd src hdec.1 e hdec.2 i (mem_range.mp hi)⟩

/-- A slot of the temporary buffers that has been written has the right weights. -/
lemma tempBuffers_eq (hd : d ∈ m.activeRanks active) {x : Nat} (he : m.newAt x = some e)
    (hwritten : ∃ w ∈ m.copies (weights d) (((plans d).cases.filterMap tempInfo).map Prod.swap) ++
      (m.activeRanks active).flatMap (fun s => m.received plans weights s d), w.1 = (i, x)) :
    m.tempBuffers plans (m.activeRanks active) weights temp d (i, x) = W e i := by
  have hright : ∀ w ∈ m.copies (weights d) (((plans d).cases.filterMap tempInfo).map Prod.swap) ++
      (m.activeRanks active).flatMap (fun s => m.received plans weights s d),
      w.1 = (i, x) → w.2 = W e i := by
    intro w hw heq
    have : m.RightWrite W w := by
      rcases mem_append.mp hw with hw | hw
      · exact tempCopies_right h hW hd w hw
      · obtain ⟨s, hs, hw⟩ := mem_flatMap.mp hw
        exact received_right h hW hs hd w hw
    obtain ⟨e', he', hval⟩ := this
    grind
  obtain ⟨w, hw, heq⟩ := hwritten
  rw [tempBuffers, ← writeAll_append]
  refine writeAll_of_mem ?_ hright
  rwa [← hright w hw heq, ← heq]
end

lemma exists_received {dst : Nat} (hs : s ∈ m.activeRanks active)
    (hd : d ∈ m.activeRanks active) (hnot : ¬ m.Holds d e) (hfirst : m.First d e dst)
    (hchosen : m.chosenSrcRank d e = some s) (hi : i < m.numTensors) (weights : Nat → Tensors ω) :
    ∃ w ∈ m.received plans weights s d, w.1 = (i, dst) := by
  have hwants : m.Wants d e := ⟨dst, hfirst.mem, hfirst.wants⟩
  obtain ⟨dst', s', hfirst', hchosen', hops⟩ := (h d hd).recvs e hnot hwants
  obtain rfl : dst' = dst := hfirst'.unique hfirst
  obtain rfl : s' = s := Option.some.inj (hchosen'.symm.trans hchosen)
  rw [if_pos (mem_activeRanks.mp hs).2] at hops
  have hlt : e < m.numPhysicalExperts :=
    m.old_lt e (m.new_mem e (mem_of_getElem? hfirst.wants))
  obtain ⟨hk, hbatch⟩ := mem_batch hlt
  have hop : (⟨false, s', i, dst'⟩ : P2POp) ∈ upTo (m.recvsFrom (plans d) s') m.numBatches := by
    refine mem_upTo.mpr ⟨_, hk, mem_filter.mpr ⟨hbatch _ _ ?_, ?_⟩⟩
    · rw [hops]
      exact mem_map.mpr ⟨i, mem_range.mpr hi, rfl⟩
    · exact Bool.and_eq_true_iff.mpr ⟨rfl, beq_self_eq_true _⟩
  -- as many operations are sent as are received
  have hlen : (upTo (m.sendsTo (plans s') d) m.numBatches).length =
      (upTo (m.recvsFrom (plans d) s') m.numBatches).length := by
    simpa only [length_map] using congrArg length (tags_eq h hs hd)
  obtain ⟨j, hj, heq⟩ := mem_iff_getElem.mp hop
  refine ⟨_, mem_map.mpr ⟨((upTo (m.sendsTo (plans s') d) m.numBatches)[j],
    (upTo (m.recvsFrom (plans d) s') m.numBatches)[j]), ?_, rfl⟩, ?_⟩
  · exact mem_iff_getElem.mpr ⟨j, by rw [length_zip]; omega, getElem_zip⟩
  · rw [heq]
end

lemma PlanOk.source_active {p : Plan} (hp : m.PlanOk active d p)
    (hnot : ¬ m.Holds d e) (hwants : m.Wants d e) (hchosen : m.chosenSrcRank d e = some s)
    (hT : 0 < m.numTensors) (hmiss : e ∉ p.missingLogicalExpertsInfo) : s ∈ m.activeRanks active := by
  refine mem_activeRanks.mpr ⟨(Sends.holds ⟨hnot, hwants, hchosen⟩).rank_lt, ?_⟩
  cases hact : active s with
  | true => rfl
  | false => exact absurd ((hp.missing e).mpr ⟨hnot, hwants, hT, s, hchosen, hact⟩) hmiss

lemma tempBuffers_first (h : m.PlansOk active plans) (hW : m.OldWeights active weights W)
    {dst : Nat} (hd : d ∈ m.activeRanks active) (hnot : ¬ m.Holds d e)
    (hfirst : m.First d e dst) (hi : i < m.numTensors)
    (hmiss : e ∉ (plans d).missingLogicalExpertsInfo) :
    m.tempBuffers plans (m.activeRanks active) weights temp d (i, dst) = W e i := by
  have hwants : m.Wants d e := ⟨dst, hfirst.mem, hfirst.wants⟩
  obtain ⟨s, hchosen, -⟩ := chosenSrcRank_spec (mem_needCommDstRanks.mpr ⟨hwants, hnot⟩)
    hwants.exists_holds
  have hs := (h d hd).source_active hnot hwants hchosen (by omega) hmiss
  obtain ⟨w, hw, heq⟩ := exists_received h hs hd hnot hfirst hchosen hi weights
  exact tempBuffers_eq h hW hd hfirst.wants ⟨w, mem_append_right _ (mem_flatMap.mpr ⟨s, hs, hw⟩), heq⟩

lemma updatedWeights_eq (h : m.PlansOk active plans) (hW : m.OldWeights active weights W)
    {x : Nat} (hd : d ∈ m.activeRanks active) (hx : x ∈ m.localRange d)
    (he : m.newAt x = some e) (hmiss : e ∉ (plans d).missingLogicalExpertsInfo)
    (hi : i < m.numTensors) :
    m.updatedWeights plans (m.activeRanks active) weights temp d (i, x) = W e i := by
  have hcases := (h d hd).cases
  obtain ⟨⟨x', c⟩, hc, rfl⟩ := mem_map.mp (show x ∈ (plans d).cases.map Prod.fst by
    rw [hcases.slots]
    exact hx)
  obtain ⟨e', he', hdec⟩ := hcases.decides _ hc
  obtain rfl : e = e' := Option.some.inj (he.symm.trans he')
  -- a slot has one case, and its copy is the one that its case calls for
  have hcopy : ∀ y ∈ (plans d).cases.filterMap copyInfo, y.2 = x' → copyInfo (x', c) = some y := by
    intro y hy heq
    obtain ⟨⟨dst, c'⟩, hc', hinfo⟩ := mem_filterMap.mp hy
    have hdst : dst = x' := by
      cases c' <;> cases hinfo <;> exact heq
    subst hdst
    have hnd : ((plans d).cases.map Prod.fst).Nodup := by
      rw [hcases.slots]
      exact nodup_range' ..
    rw [inj_on_of_nodup_map hnd hc hc' rfl]
    exact hinfo
  have hwrite : ∀ {src}, copyInfo (x', c) = some (src, x') →
      m.tempBuffers plans (m.activeRanks active) weights temp d (i, src) = W e i →
      m.updatedWeights plans (m.activeRanks active) weights temp d (i, x') = W e i := by
    intro src hsrc hval
    rw [updatedWeights, ← hval]
    refine writeAll_of_mem (mem_flatMap.mpr ⟨(src, x'), mem_filterMap.mpr ⟨_, hc, hsrc⟩,
      mem_map.mpr ⟨i, mem_range.mpr hi, rfl⟩⟩) ?_
    intro w hw heq
    obtain ⟨y, hy, hw⟩ := mem_flatMap.mp hw
    grind
  cases c with
  | unchanged =>
    rw [updatedWeights, writeAll_of_notMem]
    · exact hW d hd x' hx e hdec i hi
    intro w hw heq
    obtain ⟨y, hy, hw⟩ := mem_flatMap.mp hw
    obtain ⟨j, -, rfl⟩ := mem_map.mp hw
    cases hcopy y hy (Prod.mk.inj heq).2
  | sameGpu src =>
    refine hwrite rfl (tempBuffers_eq h hW hd he ?_)
    refine ⟨((i, x'), weights d (i, src)), mem_append_left _ (mem_flatMap.mpr
      ⟨(src, x'), mem_map.mpr ⟨(x', src), mem_filterMap.mpr ⟨_, hc, rfl⟩, rfl⟩,
        mem_map.mpr ⟨i, mem_range.mpr hi, rfl⟩⟩), rfl⟩
  | freeRider src =>
    exact hwrite rfl (tempBuffers_first h hW hd hdec.1 hdec.2.1 hi hmiss)
  | fetch e' s =>
    exact hwrite rfl (tempBuffers_first h hW hd hdec.2.1 hdec.2.2.1 hi hmiss)
end

/-- With any ranks active, every plan exists, all sends and receives match, and every slot ends with
the old weights of its new expert unless that is reported missing; with all active, none is. -/
theorem relocation_correct (m : Relocation) (active : Nat → Bool) {ω : Type}
    (weights temp : Nat → Tensors ω) (W : Nat → Nat → ω) (hW : m.OldWeights active weights W) :
    ∃ plans : Nat → Plan, (∀ r < m.worldSize, active r = true → m.plan active r = some (plans r)) ∧
      (∀ s ∈ m.activeRanks active, ∀ d ∈ m.activeRanks active, ∀ batch,
        (m.sendsTo (plans s) d batch).map m.tag = (m.recvsFrom (plans d) s batch).map m.tag) ∧
      (∀ finished : Nat → Nat, (∃ r ∈ m.activeRanks active, finished r < m.numBatches) →
        ∃ r ∈ m.activeRanks active, (m.exchange plans).CanFinish (m.activeRanks active) finished r ∧
          (m.exchange plans).remaining (m.activeRanks active)
            (Function.update finished r (finished r + 1)) <
              (m.exchange plans).remaining (m.activeRanks active) finished) ∧
      (∀ d ∈ m.activeRanks active, ∀ p ∈ m.localRange d, ∀ e, m.newAt p = some e →
        e ∉ (plans d).missingLogicalExpertsInfo → ∀ i < m.numTensors,
          m.updatedWeights plans (m.activeRanks active) weights temp d (i, p) = W e i) ∧
      ((∀ r < m.worldSize, active r = true) →
        ∀ d < m.worldSize, (plans d).missingLogicalExpertsInfo = []) := by
  haveI : Inhabited Plan := ⟨⟨[], [], []⟩⟩
  choose! plans hplans hok using fun r (hr : r < m.worldSize) => plan_spec hr active
  have h : m.PlansOk active plans := fun r hr => hok r (mem_activeRanks.mp hr).1
  refine ⟨plans, fun r hr _ => hplans r hr, fun s hs d hd batch => sendsTo_eq_recvsFrom h hs hd batch,
    fun finished htodo => ?_, fun d hd p hp e he hmiss i hi => updatedWeights_eq h hW hd hp he hmiss hi,
    fun hall d hd => ?_⟩
  · obtain ⟨r, hr, hfinish⟩ := progress (matched h) htodo
    exact ⟨r, hr, hfinish, remaining_finish hr hfinish⟩
  rw [eq_nil_iff_forall_not_mem]
  intro e he
  obtain ⟨hnot, hwants, -, s, hchosen, hact⟩ := ((hok d hd).missing e).mp he
  rw [hall s (Sends.holds ⟨hnot, hwants, hchosen⟩).rank_lt] at hact
  cases hact

def swapped : Relocation where
  numNodes := 1
  numGpuPerNode := 2
  numLocalPhysicalExperts := 1
  oldPhysicalToLogicalMap := [0, 1]
  newPhysicalToLogicalMap := [1, 0]
  numTensors := 1
  batchChunkSize := 1
  old_length := rfl
  new_length := rfl
  old_lt := by decide
  new_mem := by decide
  chunk_pos := Nat.one_pos

theorem swapped_relocated : ∃ plans : Nat → Plan,
    swapped.updatedWeights plans [0, 1] (fun _ x => x.2) (fun _ _ => 7) 0 (0, 0) = 1 ∧
      swapped.updatedWeights plans [0, 1] (fun _ x => x.2) (fun _ _ => 7) 1 (0, 1) = 0 := by
  have hW : swapped.OldWeights (fun _ => true) (fun _ x => x.2) fun e _ => e := by
    intro r hr x hx e he i hi
    have hlt : x < 2 := oldAt_lt he
    obtain rfl | rfl : x = 0 ∨ x = 1 := by omega
    · cases he
      rfl
    · cases he
      rfl
  obtain ⟨plans, -, -, -, hend, hmissing⟩ :=
    relocation_correct swapped (fun _ => true) _ (fun _ _ => 7) _ hW
  have hnone := hmissing fun _ _ => rfl
  refine ⟨plans, ?_, ?_⟩
  · exact hend 0 (by decide) 0 (by decide) 1 (by decide)
      (by rw [hnone 0 (by decide)]; exact not_mem_nil) 0 (by decide)
  · exact hend 1 (by decide) 1 (by decide) 0 (by decide)
      (by rw [hnone 1 (by decide)]; exact not_mem_nil) 0 (by decide)
end Relocation
end Sglang.Eplb
