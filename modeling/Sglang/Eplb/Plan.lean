import Sglang.Eplb.CommInfo

/-!
# What a rank decides

The plan of a rank never fails (`Relocation.plan_spec`).
-/

namespace Sglang.Eplb
open List

lemma exists_mapM {α β : Type} {f : α → Option β} {P : α → β → Prop} {xs : List α}
    (h : ∀ x ∈ xs, ∃ y, f x = some y ∧ P x y) : ∃ ys, xs.mapM f = some ys ∧ List.Forall₂ P xs ys := by
  induction xs with
  | nil => exact ⟨[], rfl, .nil⟩
  | cons x xs ih =>
    obtain ⟨y, hy, hP⟩ := h x mem_cons_self
    obtain ⟨ys, hys, hall⟩ := ih fun z hz => h z (mem_cons_of_mem _ hz)
    exact ⟨y :: ys, by rw [mapM_cons, hy, hys]; rfl, .cons hP hall⟩

namespace Relocation
variable {m : Relocation} {rank e : Nat} {active : Nat → Bool}

structure First (m : Relocation) (rank e dst : Nat) : Prop where
  mem : dst ∈ m.localRange rank
  wants : m.newAt dst = some e
  first : ∀ x ∈ m.localRange rank, x < dst → m.newAt x ≠ some e

def Decides (m : Relocation) (rank dst e : Nat) : RecvCase → Prop
  | .unchanged => m.oldAt dst = some e
  | .sameGpu src => src ∈ m.localRange rank ∧ m.oldAt src = some e
  | .freeRider src => ¬ m.Holds rank e ∧ m.First rank e src ∧ src < dst
  | .fetch e' srcRank =>
    e' = e ∧ ¬ m.Holds rank e ∧ m.First rank e dst ∧ m.chosenSrcRank rank e = some srcRank

lemma exists_holds (he : e ∈ m.newPhysicalToLogicalMap) : ∃ s, m.Holds s e := by
  obtain ⟨x, hx, hold⟩ := mem_iff_getElem.mp (m.new_mem e he)
  have hat : m.oldAt x = some e := List.getElem?_eq_some_iff.mpr ⟨hx, hold⟩
  exact ⟨m.rankOf x, x, mem_localRange_rankOf hx, hat⟩

lemma Wants.exists_holds (h : m.Wants rank e) : ∃ s, m.Holds s e := by
  obtain ⟨x, -, hx⟩ := h
  exact Relocation.exists_holds (mem_of_getElem? hx)

lemma handleRecvOfDstExpertLocation_spec {dst : Nat} (hdst : dst ∈ m.localRange rank)
    (he : m.newAt dst = some e) :
    ∃ c, m.handleRecvOfDstExpertLocation rank dst = some c ∧ m.Decides rank dst e c := by
  rw [handleRecvOfDstExpertLocation, he, Option.bind_eq_bind, Option.bind_some]
  by_cases hold : m.oldAt dst = some e
  · rw [if_pos hold]
    exact ⟨.unchanged, rfl, hold⟩
  rw [if_neg hold]
  rcases hsame : (m.localRange rank).find? fun src => m.oldAt src = some e with _ | src
  swap
  · exact ⟨.sameGpu src, rfl, mem_of_find?_eq_some hsame, by simpa using find?_some hsame⟩
  have hnot : ¬ m.Holds rank e := by
    rintro ⟨x, hx, hxe⟩
    exact find?_eq_none.mp hsame x hx (decide_eq_true hxe)
  have hrange := mem_localRange.mp hdst
  dsimp only
  generalize hbefore : range' (rank * m.numLocalPhysicalExperts)
    (dst - rank * m.numLocalPhysicalExperts) = before
  have hmem : ∀ x, x ∈ before ↔ x ∈ m.localRange rank ∧ x < dst := by
    intro x
    rw [← hbefore, mem_range'_1, mem_localRange]
    omega
  cases hfree : before.find? fun src => m.newAt src = some e with
  | some src =>
    obtain ⟨hsrc, init, rest, hsplit, hnone⟩ := find?_eq_some_iff_append.mp hfree
    have hin := (hmem src).mp (mem_of_find?_eq_some hfree)
    refine ⟨.freeRider src, rfl, hnot, ⟨hin.1, of_decide_eq_true hsrc, fun x hx hlt hnew => ?_⟩, hin.2⟩
    -- what is before the first hit is in the part that has been searched
    have hxin : x ∈ init := by
      have hxb : x ∈ before := (hmem x).mpr ⟨hx, by omega⟩
      have hsorted : before.Pairwise (· < ·) := hbefore ▸ pairwise_lt_range' ..
      rw [hsplit] at hxb hsorted
      rcases mem_append.mp hxb with hxb | hxb
      · exact hxb
      rcases mem_cons.mp hxb with rfl | hxb
      · omega
      · have := (pairwise_cons.mp (pairwise_append.mp hsorted).2.1).1 x hxb
        omega
    have := hnone x hxin
    rw [decide_eq_true hnew] at this
    cases this
  | none =>
    have hfirst : m.First rank e dst := ⟨hdst, he, fun x hx hlt hnew =>
      find?_eq_none.mp hfree x ((hmem x).mpr ⟨hx, hlt⟩) (decide_eq_true hnew)⟩
    have hwants : m.Wants rank e := ⟨dst, hdst, he⟩
    obtain ⟨s, hs, -⟩ := chosenSrcRank_spec (mem_needCommDstRanks.mpr ⟨hwants, hnot⟩) hwants.exists_holds
    refine ⟨.fetch e s, ?_, rfl, hnot, hfirst, hs⟩
    rw [hs]
    rfl

variable {x : Nat} {cases : List (Nat × RecvCase)}

lemma lt_of_mem_localRange (hr : rank < m.worldSize) (hx : x ∈ m.localRange rank) :
    x < m.numPhysicalExperts := by
  have hrange := mem_localRange.mp hx
  have hle : (rank + 1) * m.numLocalPhysicalExperts ≤ m.worldSize * m.numLocalPhysicalExperts :=
    Nat.mul_le_mul_right _ hr
  rw [Nat.succ_mul] at hle
  rw [numPhysicalExperts, m.old_length]
  exact lt_of_lt_of_le hrange.2 hle

lemma exists_oldAt (hx : x < m.numPhysicalExperts) : ∃ e, m.oldAt x = some e :=
  ⟨_, getElem?_eq_getElem hx⟩

lemma exists_newAt (hx : x < m.numPhysicalExperts) : ∃ e, m.newAt x = some e := by
  rw [numPhysicalExperts, m.old_length, ← m.new_length] at hx
  exact ⟨_, getElem?_eq_getElem hx⟩

open Prod (fst snd)

structure CasesOk (m : Relocation) (rank : Nat) (cases : List (Nat × RecvCase)) : Prop where
  slots : cases.map fst = m.localRange rank
  decides : ∀ x ∈ cases, ∃ e, m.newAt x.1 = some e ∧ m.Decides rank x.1 e x.2

lemma handleRecv_spec (hr : rank < m.worldSize) :
    ∃ cases, m.handleRecv rank = some cases ∧ m.CasesOk rank cases := by
  have hslot : ∀ dst ∈ m.localRange rank, ∃ x,
      (m.handleRecvOfDstExpertLocation rank dst).map (Prod.mk dst) = some x ∧
        (x.1 = dst ∧ ∃ e, m.newAt x.1 = some e ∧ m.Decides rank x.1 e x.2) := by
    intro dst hdst
    obtain ⟨e, he⟩ := exists_newAt (lt_of_mem_localRange hr hdst)
    obtain ⟨c, hc, hdec⟩ := handleRecvOfDstExpertLocation_spec hdst he
    exact ⟨(dst, c), by rw [hc]; rfl, rfl, e, he, hdec⟩
  obtain ⟨cases, hcases, hall⟩ := exists_mapM hslot
  refine ⟨cases, hcases, ?_, ?_⟩
  · generalize m.localRange rank = slots at hall
    clear hcases hslot
    induction hall with
    | nil => rfl
    | cons h _ ih => rw [map_cons, h.1, ih]
  intro x hx
  generalize m.localRange rank = slots at hall
  clear hcases hslot
  induction hall with
  | nil => cases hx
  | cons h _ ih =>
    grind

/-! ## The entries -/

def recvOps (m : Relocation) (srcRank dst : Nat) : List P2POp :=
  (List.range m.numTensors).map fun i => ⟨false, srcRank, i, dst⟩

def sendOps (m : Relocation) (src : Nat) (dstRanks : List Nat) : List P2POp :=
  dstRanks.flatMap fun dstRank => (List.range m.numTensors).map fun i => ⟨true, dstRank, i, src⟩

lemma isendInfo_spec (hr : m.Holds rank e) (src : Nat) :
    ∃ ds, m.allDstRanks rank e = some ds ∧ m.isendInfo rank e src = some (e, m.sendOps src ds) := by
  obtain ⟨ds, hds, -⟩ := mem_allDstRanks hr
  exact ⟨ds, hds, by rw [isendInfo, hds]; rfl⟩

def IsSendInfo (m : Relocation) (rank : Nat) (info : Nat × List P2POp) : Prop :=
  ∃ src ∈ m.localRange rank, m.oldAt src = some info.1 ∧
    ∃ ds, m.allDstRanks rank info.1 = some ds ∧ info.2 = m.sendOps src ds

structure SendsOk (m : Relocation) (rank : Nat) (handled slots : List Nat)
    (infos : List (Nat × List P2POp)) : Prop where
  nodup : (infos.map fst).Nodup
  fresh : ∀ info ∈ infos, info.1 ∉ handled
  isSend : ∀ info ∈ infos, m.IsSendInfo rank info
  all : ∀ src ∈ slots, ∀ e, m.oldAt src = some e → e ∉ handled → e ∈ infos.map fst

lemma createIsendOps_spec (hr : rank < m.worldSize) (handled : List Nat) {slots : List Nat}
    (hslots : ∀ src ∈ slots, src ∈ m.localRange rank) :
    ∃ infos, m.createIsendOps rank handled slots = some infos ∧ m.SendsOk rank handled slots infos := by
  induction slots generalizing handled with
  | nil =>
    exact ⟨[], rfl, nodup_nil, nofun,
      nofun, nofun⟩
  | cons src slots ih => ?_
  have hsrc := hslots src mem_cons_self
  obtain ⟨e, he⟩ := exists_oldAt (lt_of_mem_localRange hr hsrc)
  rw [createIsendOps, he, Option.bind_eq_bind, Option.bind_some]
  by_cases hin : e ∈ handled
  · rw [if_pos hin]
    obtain ⟨infos, hinfos, hok⟩ := ih handled fun x hx => hslots x (mem_cons_of_mem _ hx)
    refine ⟨infos, hinfos, hok.nodup, hok.fresh, hok.isSend, ?_⟩
    refine forall_mem_cons.mpr ⟨fun e' he' hout => ?_, hok.all⟩
    grind
  rw [if_neg hin]
  obtain ⟨ds, hds, hinfo⟩ := isendInfo_spec ⟨src, hsrc, he⟩ src
  obtain ⟨infos, hinfos, hok⟩ := ih (e :: handled) fun x hx => hslots x (mem_cons_of_mem _ hx)
  refine ⟨(e, m.sendOps src ds) :: infos, by rw [hinfo, hinfos]; rfl, ?_, ?_, ?_, ?_⟩
  · rw [map_cons, nodup_cons]
    refine ⟨fun hmem => ?_, hok.nodup⟩
    obtain ⟨info, hinfo', heq⟩ := mem_map.mp hmem
    exact hok.fresh info hinfo' (heq ▸ mem_cons_self)
  · refine forall_mem_cons.mpr ⟨hin, fun info hinfo' hmem => ?_⟩
    exact hok.fresh info hinfo' (mem_cons_of_mem _ hmem)
  · exact forall_mem_cons.mpr ⟨⟨src, hsrc, he, ds, hds, rfl⟩, hok.isSend⟩
  refine forall_mem_cons.mpr ⟨fun e' he' _ => ?_, fun x hx e' he' hout => ?_⟩
  · grind
  by_cases heq : e' = e
  · exact heq ▸ mem_cons_self
  · refine mem_cons_of_mem _ (hok.all x hx e' he' fun hmem => ?_)
    exact (mem_cons.mp hmem).elim heq hout

def IsRecvInfo (m : Relocation) (rank : Nat) (info : Nat × List P2POp) : Prop :=
  ¬ m.Holds rank info.1 ∧ ∃ dst s, m.First rank info.1 dst ∧ m.chosenSrcRank rank info.1 = some s ∧
    info.2 = m.recvOps s dst

lemma CasesOk.isRecvInfo (h : m.CasesOk rank cases)
    {info : Nat × List P2POp} (hinfo : info ∈ cases.filterMap m.recvInfo) : m.IsRecvInfo rank info := by
  obtain ⟨⟨dst, c⟩, hx, hrecv⟩ := mem_filterMap.mp hinfo
  obtain ⟨e, -, hdec⟩ := h.decides _ hx
  cases c with
  | unchanged => cases hrecv
  | sameGpu src => cases hrecv
  | freeRider src => cases hrecv
  | fetch e' s =>
    cases hrecv
    obtain ⟨rfl, hnot, hfirst, hs⟩ := hdec
    exact ⟨hnot, dst, s, hfirst, hs, rfl⟩

lemma First.unique {dst dst' : Nat} (h : m.First rank e dst) (h' : m.First rank e dst') :
    dst = dst' := by
  rcases Nat.lt_trichotomy dst dst' with hlt | heq | hgt
  · exact absurd h.wants (h'.first dst h.mem hlt)
  · exact heq
  · exact absurd h'.wants (h.first dst' h'.mem hgt)

lemma exists_first (h : m.Wants rank e) : ∃ dst, m.First rank e dst := by
  obtain ⟨x, hx, hxe⟩ := h
  induction x using Nat.strongRecOn with
  | ind x ih =>
    by_cases hfirst : ∃ y ∈ m.localRange rank, y < x ∧ m.newAt y = some e
    · grind
    · exact ⟨x, hx, hxe, fun y hy hlt hye => hfirst ⟨y, hy, hlt, hye⟩⟩

lemma CasesOk.mem_recvInfo (h : m.CasesOk rank cases)
    (hwants : m.Wants rank e) (hnot : ¬ m.Holds rank e) : e ∈ (cases.filterMap m.recvInfo).map fst := by
  obtain ⟨dst, hfirst⟩ := exists_first hwants
  have hslot : dst ∈ cases.map fst := h.slots ▸ hfirst.mem
  obtain ⟨⟨dst', c⟩, hx, rfl⟩ := mem_map.mp hslot
  obtain ⟨e', he', hdec⟩ := h.decides _ hx
  obtain rfl : e = e' := Option.some.inj (hfirst.wants.symm.trans he')
  cases c with
  | unchanged => exact absurd ⟨dst', hfirst.mem, hdec⟩ hnot
  | sameGpu src => exact absurd ⟨src, hdec⟩ hnot
  | freeRider src =>
    obtain ⟨-, hsrc, hlt⟩ := hdec
    have := hsrc.unique hfirst
    exact absurd this (ne_of_lt hlt)
  | fetch e' s =>
    obtain ⟨rfl, -⟩ := hdec
    exact mem_map.mpr ⟨_, mem_filterMap.mpr ⟨_, hx, rfl⟩, rfl⟩

lemma CasesOk.nodup_recvInfo (h : m.CasesOk rank cases) :
    ((cases.filterMap m.recvInfo).map fst).Nodup := by
  have hnd : cases.Pairwise fun x y => x.1 ≠ y.1 := by
    have : (cases.map fst).Nodup := h.slots ▸ nodup_range' ..
    exact pairwise_map.mp this
  refine pairwise_map.mpr (pairwise_filterMap.mpr (hnd.imp_of_mem ?_))
  intro x y hx hy hne info hinfo info' hinfo' heq
  -- two entries of one expert would be for the same slot
  obtain ⟨dst, c⟩ := x
  obtain ⟨dst', c'⟩ := y
  obtain ⟨e, -, hdec⟩ := h.decides _ hx
  obtain ⟨e', -, hdec'⟩ := h.decides _ hy
  cases c <;> cases hinfo
  cases c' <;> cases hinfo'
  obtain ⟨rfl, -, hfirst, -⟩ := hdec
  obtain ⟨rfl, -, hfirst', -⟩ := hdec'
  subst heq
  exact hne (hfirst.unique hfirst')

/-! ## The filter by the active ranks -/

lemma filterInfo_fst (info : Nat × List P2POp) : (filterInfo active info).1.1 = info.1 := by
  rw [filterInfo]
  split_ifs <;> rfl

lemma filterInfo_send (e src : Nat) (ds : List Nat) :
    filterInfo active (e, m.sendOps src ds) = ((e, m.sendOps src (ds.filter active)), false) := by
  have hfilter : (m.sendOps src ds).filter (fun op => active op.peer) =
      m.sendOps src (ds.filter active) := by
    rw [sendOps, sendOps]
    induction ds with
    | nil => rfl
    | cons d ds ih => ?_
    rw [flatMap_cons, filter_append, ih, filter_cons]
    cases hd : active d with
    | true =>
      rw [if_pos rfl, flatMap_cons, filter_eq_self.mpr]
      grind
    | false =>
      rw [if_neg Bool.false_ne_true, filter_eq_nil_iff.mpr, nil_append]
      grind
  rw [filterInfo]
  by_cases hany : (m.sendOps src ds).any fun op => op.isSend
  · rw [if_pos hany, hfilter]
  -- there are no operations at all
  have hnil : m.sendOps src ds = [] := by
    rw [eq_nil_iff_forall_not_mem]
    intro op hop
    refine hany (any_eq_true.mpr ⟨op, hop, ?_⟩)
    obtain ⟨d, -, hop⟩ := mem_flatMap.mp hop
    obtain ⟨i, -, rfl⟩ := mem_map.mp hop
    rfl
  rw [if_neg hany, ← hfilter]
  rw [hnil]
  rfl

lemma filterInfo_recv (e s dst : Nat) :
    filterInfo active (e, m.recvOps s dst) = ((e, if active s then m.recvOps s dst else []),
      decide (0 < m.numTensors) && !active s) := by
  have hsend : ¬ ((m.recvOps s dst).any fun op => op.isSend) = true := by
    rw [any_eq_true]
    rintro ⟨op, hop, hs⟩
    obtain ⟨i, -, rfl⟩ := mem_map.mp hop
    cases hs
  rw [filterInfo, if_neg hsend]
  have hany : ((m.recvOps s dst).any fun op => !active op.peer) =
      (decide (0 < m.numTensors) && !active s) := by
    rw [recvOps, any_map]
    cases m.numTensors with
    | zero => rfl
    | succ k =>
      rw [range_succ_eq_map, any_cons]
      cases hact : active s <;> simp [hact]
  rw [hany]
  cases hact : active s with
  | true => simp
  | false => ?_
  by_cases hT : 0 < m.numTensors
  · simp [hT]
  have hnil : m.recvOps s dst = [] := by
    rw [recvOps, show m.numTensors = 0 by omega]
    rfl
  simp [hT, hnil]

/-! ## The plan -/

structure PlanOk (m : Relocation) (active : Nat → Bool) (rank : Nat) (p : Plan) : Prop where
  cases : m.CasesOk rank p.cases
  sends : ∀ e, m.Holds rank e → ∃ src ∈ m.localRange rank, m.oldAt src = some e ∧
    ∃ ds, m.allDstRanks rank e = some ds ∧ opsByExpert p e = m.sendOps src (ds.filter active)
  recvs : ∀ e, ¬ m.Holds rank e → m.Wants rank e → ∃ dst s, m.First rank e dst ∧
    m.chosenSrcRank rank e = some s ∧ opsByExpert p e = if active s then m.recvOps s dst else []
  others : ∀ e, ¬ m.Holds rank e → ¬ m.Wants rank e → opsByExpert p e = []
  missing : ∀ e, e ∈ p.missingLogicalExpertsInfo ↔ ¬ m.Holds rank e ∧ m.Wants rank e ∧
    0 < m.numTensors ∧ ∃ s, m.chosenSrcRank rank e = some s ∧ active s = false

lemma opsByExpert_of_mem {p : Plan} (hnd : (p.p2pOpInfos.map fst).Nodup)
    {ops : List P2POp} (h : (e, ops) ∈ p.p2pOpInfos) : opsByExpert p e = ops := by
  have hperm : (p.p2pOpInfos.insertionSort fun x y => x.1 ≤ y.1).reverse.Perm p.p2pOpInfos :=
    (reverse_perm _).trans (perm_insertionSort ..)
  have hget : Keyed.get? fst e
      (p.p2pOpInfos.insertionSort fun x y => x.1 ≤ y.1).reverse = some (e, ops) :=
    Keyed.get?_key ((hperm.map fst).nodup_iff.mpr hnd) (hperm.mem_iff.mpr h)
  rw [opsByExpert, hget]
  rfl

lemma opsByExpert_of_notMem {p : Plan} (h : e ∉ p.p2pOpInfos.map fst) : opsByExpert p e = [] := by
  have hnone : Keyed.get? fst e (p.p2pOpInfos.insertionSort fun x y => x.1 ≤ y.1).reverse = none := by
    refine Keyed.get?_eq_none.mpr fun info hinfo heq => h ?_
    have hmem : info ∈ p.p2pOpInfos :=
      (perm_insertionSort ..).mem_iff.mp (mem_reverse.mp hinfo)
    exact mem_map.mpr ⟨info, hmem, heq⟩
  rw [opsByExpert, hnone]
  rfl

lemma plan_spec (hr : rank < m.worldSize) (active : Nat → Bool) :
    ∃ p, m.plan active rank = some p ∧ m.PlanOk active rank p := by
  obtain ⟨cases, hcases, hc⟩ := handleRecv_spec hr
  obtain ⟨infos, hinfos, hs⟩ := createIsendOps_spec hr [] fun src (hsrc : src ∈ m.localRange rank) => hsrc
  set kept := (cases.filterMap m.recvInfo ++ infos).map (filterInfo active)
  have hplan : m.plan active rank = some {
      cases := cases
      p2pOpInfos := kept.map fst
      missingLogicalExpertsInfo := (((cases.filterMap m.recvInfo ++ infos).map
        (filterInfo active)).filter snd).map fun x => x.1.1 } := by
    rw [plan, hcases, hinfos]
    rfl
  have hnd : ((kept.map fst).map fst).Nodup := by
    have hkeys : (kept.map fst).map fst = (cases.filterMap m.recvInfo).map fst ++ infos.map fst := by
      rw [map_map, map_map, ← map_append]
      exact map_congr_left fun info _ => filterInfo_fst info
    rw [hkeys]
    refine nodup_append.mpr ⟨hc.nodup_recvInfo, hs.nodup, fun e he e' he' heq => ?_⟩
    -- a rank receives what it does not have, and sends what it has
    obtain ⟨info, hinfo, rfl⟩ := mem_map.mp he
    obtain ⟨info', hinfo', rfl⟩ := mem_map.mp he'
    obtain ⟨src, hsrc, hold, -⟩ := hs.isSend info' hinfo'
    exact (hc.isRecvInfo hinfo).1 ⟨src, hsrc, heq ▸ hold⟩
  have hmem : ∀ {info}, info ∈ cases.filterMap m.recvInfo ++ infos → (filterInfo active info).1 ∈
      kept.map fst := fun h =>
    mem_map_of_mem (mem_map_of_mem h)
  refine ⟨_, hplan, hc, fun e he => ?_, fun e hnot hwants => ?_, fun e hnot hnot' => ?_, fun e => ?_⟩
  · obtain ⟨x, hx, hxe⟩ := he
    obtain ⟨info, hinfo, rfl⟩ := mem_map.mp (hs.all x hx e hxe not_mem_nil)
    obtain ⟨src, hsrc, hold, ds, hds, hops⟩ := hs.isSend info hinfo
    have hin := hmem (mem_append_right _ hinfo)
    rw [← Prod.mk.eta (p := info), hops, filterInfo_send] at hin
    exact ⟨src, hsrc, hold, ds, hds, opsByExpert_of_mem hnd hin⟩
  · obtain ⟨info, hinfo, rfl⟩ := mem_map.mp (hc.mem_recvInfo hwants hnot)
    obtain ⟨-, dst, s, hfirst, hchosen, hops⟩ := hc.isRecvInfo hinfo
    have hin := hmem (mem_append_left _ hinfo)
    rw [← Prod.mk.eta (p := info), hops, filterInfo_recv] at hin
    exact ⟨dst, s, hfirst, hchosen, opsByExpert_of_mem hnd hin⟩
  · refine opsByExpert_of_notMem fun he => ?_
    obtain ⟨x, hx, rfl⟩ := mem_map.mp he
    obtain ⟨y, hy, rfl⟩ := mem_map.mp hx
    obtain ⟨info, hinfo, rfl⟩ := mem_map.mp hy
    rw [filterInfo_fst] at hnot hnot'
    rcases mem_append.mp hinfo with hinfo | hinfo
    · obtain ⟨-, dst, s, hfirst, -⟩ := hc.isRecvInfo hinfo
      exact hnot' ⟨dst, hfirst.mem, hfirst.wants⟩
    · obtain ⟨src, hsrc, hold, -⟩ := hs.isSend info hinfo
      exact hnot ⟨src, hsrc, hold⟩
  constructor
  · intro he
    obtain ⟨x, hx, rfl⟩ := mem_map.mp he
    obtain ⟨hx, hmissing⟩ := mem_filter.mp hx
    obtain ⟨info, hinfo, rfl⟩ := mem_map.mp hx
    rw [filterInfo_fst]
    rcases mem_append.mp hinfo with hinfo | hinfo
    · obtain ⟨hnot, dst, s, hfirst, hchosen, hops⟩ := hc.isRecvInfo hinfo
      rw [← Prod.mk.eta (p := info), hops, filterInfo_recv, Bool.and_eq_true, decide_eq_true_iff,
        Bool.not_eq_true'] at hmissing
      exact ⟨hnot, ⟨dst, hfirst.mem, hfirst.wants⟩, hmissing.1, s, hchosen, hmissing.2⟩
    · obtain ⟨src, -, -, ds, -, hops⟩ := hs.isSend info hinfo
      rw [← Prod.mk.eta (p := info), hops, filterInfo_send] at hmissing
      cases hmissing
  rintro ⟨hnot, hwants, hT, s, hchosen, hact⟩
  obtain ⟨info, hinfo, rfl⟩ := mem_map.mp (hc.mem_recvInfo hwants hnot)
  obtain ⟨-, dst, s', hfirst, hchosen', hops⟩ := hc.isRecvInfo hinfo
  obtain rfl : s = s' := Option.some.inj (hchosen.symm.trans hchosen')
  refine mem_map.mpr ⟨filterInfo active info, mem_filter.mpr
    ⟨mem_map_of_mem (mem_append_left _ hinfo), ?_⟩, filterInfo_fst info⟩
  rw [← Prod.mk.eta (p := info), hops, filterInfo_recv, Bool.and_eq_true, decide_eq_true_iff,
    Bool.not_eq_true']
  exact ⟨hT, hact⟩
end Relocation
end Sglang.Eplb
