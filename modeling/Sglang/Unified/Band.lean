import Sglang.Unified.MultiEnded

/-!
# The band of a sub-pool

What holds between any two operations of a `MultiEndedAllocator`: the two tables are inverse, and
each page between the end at which the pool starts and the watermark is bound, a hole, or waits in
`_pending_reuse`.
-/

namespace Sglang.Unified
open List SubPool
open Prod (fst snd)

/-! ## Depth -/

namespace SubPool
variable (pool : SubPool) {p q : Int}

def depth (p : Int) : Int :=
  match pool.grow with
  | .up => p - pool.minPageIndex
  | .down => pool.numPages - 1 - p

def capacity : Int := pool.numPages - pool.minPageIndex

lemma depth_inj : pool.depth p = pool.depth q ↔ p = q := by
  unfold depth
  split <;> omega

lemma depth_inward (p k : Int) : pool.depth (pool.grow.inward p k) = pool.depth p - k := by
  unfold depth
  cases pool.grow <;> simp only [Grow.inward] <;> omega

lemma depth_surjective : Function.Surjective pool.depth := fun d =>
  ⟨pool.grow.inward 0 (pool.depth 0 - d), by rw [depth_inward, sub_sub_cancel]⟩

lemma deeper_iff : pool.grow.Deeper p q ↔ pool.depth p < pool.depth q := by
  unfold depth
  cases pool.grow <;> simp only [Grow.Deeper] <;> omega

lemma page_pos (h0 : 0 ≤ pool.depth p) (h : pool.depth p < pool.capacity) :
    0 < p ∧ p < pool.numPages := by
  have := pool.minPageIndex_pos
  unfold depth at h0 h
  unfold capacity at h
  grind
end SubPool

lemma mem_pagesFrom {lo p : Int} {n : Nat} : p ∈ pagesFrom lo n ↔ lo ≤ p ∧ p < lo + n := by
  simp only [pagesFrom, mem_map, mem_range]
  constructor
  · omega
  · intro h
    exact ⟨(p - lo).toNat, by omega, by omega⟩

lemma nodup_pagesFrom (lo : Int) (n : Nat) : (pagesFrom lo n).Nodup := by
  refine nodup_range.map fun i j hij => ?_
  simpa using hij

@[simp]
lemma length_pagesFrom (lo : Int) (n : Nat) : (pagesFrom lo n).length = n := by simp [pagesFrom]

namespace MultiEnded
variable {α : Type} {a a' : MultiEnded α}

def top (a : MultiEnded α) : Int := a.pool.depth a.watermarkPhysical

lemma inBand_iff {p : Int} : a.InBand p ↔ 0 ≤ a.pool.depth p ∧ a.pool.depth p < a.top := by
  unfold InBand top depth
  cases a.pool.grow <;> simp only <;> omega

lemma top_base : a.pool.depth a.base = 0 := by
  unfold base depth
  cases a.pool.grow <;> simp

section
variable (a : MultiEnded α)

def pendingPages : List Int := a.pendingReuse.flatMap snd

def holes : List Int := a.freePhysPages ++ a.pendingPages

/-- The number of pages that are bound, from the watermark and the holes. -/
def liveNumber : Int := a.top - a.holes.length

/-! ## The invariant -/

structure BandInv (extra : List Int) : Prop where
  top_nonneg : 0 ≤ a.top
  top_le : a.top ≤ a.pool.capacity
  inverse : Inverse a.virtualToPhysical a.physicalToVirtual
  sink : a.virtualToPhysical 0 = some 0
  virtual_le : ∀ v p, a.virtualToPhysical v = some p → v ≤ a.pool.numPages
  nodup : (extra ++ a.holes).Nodup
  mem_holes : ∀ p, p ∈ extra ++ a.holes ↔ a.InBand p ∧ a.physicalToVirtual p = none
  live_inBand : ∀ v p, v ≠ 0 → a.virtualToPhysical v = some p → a.InBand p
  keys_nodup : (a.pendingReuse.map fst).Nodup
  mem_cpu : ∀ p, p ∈ a.pendingReusePagesCpu ↔ p ∈ a.pendingPages
  sorted : a.pool.sortFreeListAfterMerge = true → a.freePhysPages.Pairwise (· ≤ ·)
  eager : a.pool.lazyCompaction = false → a.freePhysPages = [] ∧ a.pendingReuse = []

structure IdsInv : Prop where
  nodup : a.freeVirtualIds.Nodup
  unbound : ∀ v ∈ a.freeVirtualIds, v ≤ a.pool.numPages ∧ a.virtualToPhysical v = none
  length : (a.freeVirtualIds.length : Int) = a.pool.capacity - a.liveNumber

structure Conserved : Prop where
  band : a.BandInv []
  ids : a.pool.isIdOwner = true → a.IdsInv
  count : a.pool.lazyCompaction = true → a.livePageCount = a.liveNumber
  inflight : ∀ e loc, a.inflightForward = some (e, loc) → ∀ t ∈ loc, t / a.pool.pageSize ≤ a.pool.numPages
end

namespace BandInv
variable {extra : List Int} {p : Int} {rest : List Int}
lemma free_split {gone : List Int} (h : a.BandInv []) (hperm : (gone ++ rest).Perm a.freePhysPages) :
    (gone ++ (rest ++ a.pendingPages)).Nodup ∧ ∀ p, (p ∈ gone ∨ p ∈ rest) ∨ p ∈ a.pendingPages ↔
      a.InBand p ∧ a.physicalToVirtual p = none := by
  refine ⟨?_, fun p => ?_⟩
  · rw [← append_assoc]
    exact (hperm.append_right a.pendingPages).nodup_iff.mpr h.nodup
  · rw [← h.mem_holes p, nil_append, holes, mem_append, ← hperm.mem_iff, mem_append]

variable (h : a.BandInv extra)
include h

lemma inBand_pos (hp : a.InBand p) : 0 < p ∧ p < a.pool.numPages := by
  rw [inBand_iff] at hp
  exact a.pool.page_pos hp.1 (hp.2.trans_le h.top_le)

lemma inBand_of_bound {v : Nat} (hp : a.physicalToVirtual p = some v) (hp0 : p ≠ 0) : a.InBand p := by
  have hv := (h.inverse v p).mpr hp
  refine h.live_inBand v p ?_ hv
  rintro rfl
  rw [h.sink] at hv
  exact hp0 (Option.some.inj hv).symm

lemma unbound_of_beyond (hp : a.top ≤ a.pool.depth p)
    (hc : a.pool.depth p < a.pool.capacity) : a.physicalToVirtual p = none := by
  have hpos := a.pool.page_pos (h.top_nonneg.trans hp) hc
  rcases hb : a.physicalToVirtual p with _ | v
  · rfl
  have := (inBand_iff.mp (h.inBand_of_bound hb (by omega))).2
  omega

lemma eager_sublist (hs : rest.Sublist a.freePhysPages)
    (he : a.pool.lazyCompaction = false) : rest = [] ∧ a.pendingReuse = [] := by
  obtain ⟨hf, hp⟩ := h.eager he
  rw [hf] at hs
  exact ⟨sublist_nil.mp hs, hp⟩
end BandInv

/-! ## A new allocator -/

section
variable (pool : SubPool) (data : Int → α)

lemma init_virtualToPhysical (v : Nat) :
    (init pool data).virtualToPhysical v = if v = 0 then some 0 else none := rfl

lemma init_physicalToVirtual (p : Int) :
    (init pool data).physicalToVirtual p = if p = 0 then some 0 else none := rfl

lemma conserved_init : (init pool data).Conserved := by
  set a₀ := init pool data
  have htop : a₀.top = 0 := (top_base (a := a₀))
  have hcap : 0 ≤ pool.capacity := by
    have := pool.minPageIndex_le
    unfold capacity
    omega
  have hband : ∀ p, ¬a₀.InBand p := by
    intro p hp
    rw [inBand_iff, htop] at hp
    omega
  have hlive : ∀ v p, a₀.virtualToPhysical v = some p ↔ v = 0 ∧ p = 0 := by
    intro v p
    rw [init_virtualToPhysical]
    by_cases hv : v = 0 <;> simp [hv, eq_comm]
  refine
    { band :=
        { top_nonneg := htop.ge
          top_le := htop.le.trans hcap
          inverse := ?_
          sink := rfl
          virtual_le := ?_
          nodup := nodup_nil
          mem_holes := fun p => iff_of_false not_mem_nil fun hp => hband p hp.1
          live_inBand := fun v p hv hp => absurd ((hlive v p).mp hp).1 hv
          keys_nodup := nodup_nil
          mem_cpu := fun _ => Iff.rfl
          sorted := fun _ => List.Pairwise.nil
          eager := fun _ => ⟨rfl, rfl⟩ }
      ids := ?_
      count := fun _ => htop.symm.trans (sub_zero _).symm
      inflight := by
        intro e loc he
        cases he }
  · intro v p
    rw [hlive, init_physicalToVirtual]
    by_cases hp : p = 0 <;> simp [hp, eq_comm]
  · grind
  intro how
  have hown : pool.isIdOwner = true := how
  have hids : a₀.freeVirtualIds =
      range' pool.minPageIndex (pool.numPages - pool.minPageIndex) := by
    simp [a₀, init, clear, hown]
  have hmin := pool.minPageIndex_pos
  refine ⟨hids ▸ nodup_range', fun v hv => ?_, ?_⟩
  · rw [hids, mem_range'_1] at hv
    have hnum : a₀.pool.numPages = pool.numPages := rfl
    refine ⟨by omega, ?_⟩
    rw [init_virtualToPhysical, if_neg (by omega)]
  have hle := pool.minPageIndex_le
  have hl : a₀.liveNumber = 0 := by
    rw [liveNumber, htop]
    rfl
  have hc : a₀.pool.capacity = (pool.numPages : Int) - pool.minPageIndex := rfl
  rw [hids, hl, hc, length_range']
  omega
end

/-! ## Taking pages -/

/-- The allocator with its watermark `k` pages further out. -/
def raised (a : MultiEnded α) (k : Nat) : MultiEnded α :=
  { a with watermarkPhysical := a.pool.grow.outward a.watermarkPhysical k }

lemma top_raised (k : Nat) : (a.raised k).top = a.top + k := by
  unfold top raised depth
  cases a.pool.grow <;> simp only [Grow.outward] <;> omega

variable {k : Nat} {vs : List Nat} {ps : List Int} {new : List Int} {n : Nat}

lemma extendWatermark_spec {peer : Option (MultiEnded α)}
    (h : a.extendWatermark peer k = some a') : a' = a.raised k ∧ a.top + k ≤ a.pool.capacity := by
  unfold extendWatermark at h
  unfold raised top depth capacity
  cases hg : a.pool.grow <;> simp only [hg, Option.ite_none_left_eq_some, Option.some.injEq] at h
  all_goals
    obtain ⟨hi, -, rfl⟩ := h
    refine ⟨rfl, ?_⟩
    simp only
    omega

lemma extendWatermarkEager_spec (h : a.extendWatermarkEager k = some a') :
    a' = a.raised k ∧ a.top + k ≤ a.pool.capacity := by
  unfold extendWatermarkEager at h
  unfold raised top depth capacity
  cases hg : a.pool.grow <;> simp only [hg, Option.ite_none_left_eq_some, Option.some.injEq] at h
  all_goals
    obtain ⟨hi, rfl⟩ := h
    refine ⟨rfl, ?_⟩
    simp only
    omega

lemma mem_takePhysicalArange {p : Int} :
    p ∈ (a.raised k).takePhysicalArange k ↔ a.top ≤ a.pool.depth p ∧ a.pool.depth p < a.top + k := by
  unfold takePhysicalArange raised top depth
  cases a.pool.grow <;> simp only [Grow.outward, mem_pagesFrom] <;> omega

lemma nodup_takePhysicalArange (k : Nat) : (a.takePhysicalArange k).Nodup := by
  unfold takePhysicalArange
  split <;> exact nodup_pagesFrom _ _

lemma length_takePhysicalArange (k : Nat) : (a.takePhysicalArange k).length = k := by
  unfold takePhysicalArange
  split <;> exact length_pagesFrom _ _

lemma extendedPages_perm (k : Nat) : (a.extendedPages k).Perm (a.takePhysicalArange k) := by
  unfold extendedPages takePhysicalArange
  split
  · exact .refl _
  · exact reverse_perm _

lemma drainHoles_perm (n : Nat) : ((a.drainHoles n).1 ++ (a.drainHoles n).2).Perm a.freePhysPages := by
  unfold drainHoles
  split
  · refine ((reverse_perm _).append_right _).trans (perm_append_comm.trans ?_)
    rw [take_append_drop]
  · rw [take_append_drop]

lemma drainHoles_sublist (n : Nat) : (a.drainHoles n).2.Sublist a.freePhysPages := by
  unfold drainHoles
  grind

lemma length_drainHoles (hn : n ≤ a.freePhysPages.length) : (a.drainHoles n).1.length = n := by
  unfold drainHoles
  split <;> simp <;> omega

/-- The allocator when some holes and the next `k` pages have been taken, with `rest` left. -/
def taken (a : MultiEnded α) (k : Nat) (rest : List Int) (count : Int) : MultiEnded α :=
  { a.raised k with freePhysPages := rest, livePageCount := count }

lemma top_taken (k : Nat) (rest : List Int) (count : Int) : (a.taken k rest count).top = a.top + k :=
  top_raised (a := a) k

lemma BandInv.take (h : a.BandInv []) (hk : a.top + k ≤ a.pool.capacity)
    {drained rest : List Int} (hd : (drained ++ rest).Perm a.freePhysPages)
    (hs : rest.Sublist a.freePhysPages) (hnew : new.Perm ((a.raised k).takePhysicalArange k))
    (c : Int) : (a.taken k rest c).BandInv (drained ++ new) := by
  have hmem : ∀ p, p ∈ new ↔ a.top ≤ a.pool.depth p ∧ a.pool.depth p < a.top + k := fun p =>
    hnew.mem_iff.trans mem_takePhysicalArange
  obtain ⟨hno', hold⟩ := h.free_split hd
  have htop := top_taken (a := a) k rest c
  have hband : ∀ p, (a.taken k rest c).InBand p ↔ a.InBand p ∨ p ∈ new := fun p => by
    rw [inBand_iff, htop, inBand_iff, hmem]
    have := h.top_nonneg
    change (0 ≤ a.pool.depth p ∧ a.pool.depth p < _) ↔ _
    omega
  have hpn : ∀ p ∈ new, a.physicalToVirtual p = none := fun p hp =>
    h.unbound_of_beyond ((hmem p).mp hp).1 (((hmem p).mp hp).2.trans_le hk)
  have hsep : ∀ p ∈ new, ¬a.InBand p := fun p hp hb => by
    have := ((hmem p).mp hp).1
    have := (inBand_iff.mp hb).2
    omega
  exact
    { h with
      top_nonneg := by
        have := h.top_nonneg
        omega
      top_le := htop.le.trans hk
      nodup := by
        have hn : new.Nodup := hnew.nodup_iff.mpr (nodup_takePhysicalArange k)
        change ((drained ++ new) ++ (rest ++ a.pendingPages)).Nodup
        grind
      mem_holes := fun p => by
        rw [hband]
        change p ∈ (drained ++ new) ++ (rest ++ a.pendingPages) ↔ _ ∧ a.physicalToVirtual p = none
        have hp := hold p
        have hn := hpn p
        simp only [mem_append]
        tauto
      live_inBand := fun v p hv hp => (hband p).mpr (.inl (h.live_inBand v p hv hp))
      sorted := fun hsort => (h.sorted hsort).sublist hs
      eager := h.eager_sublist hs }

/-- Virtual pages that can be given out. -/
abbrev Unbound (a : MultiEnded α) (vs : List Nat) : Prop :=
  ∀ v ∈ vs, v ≤ a.pool.numPages ∧ a.virtualToPhysical v = none

section
variable {v : Nat} (hlen : vs.length = ps.length)

lemma bound_virtualToPhysical (a : MultiEnded α) (vs : List Nat) (ps : List Int) :
    (a.bound vs ps).virtualToPhysical =
      writeAll a.virtualToPhysical ((vs.zip ps).map fun w => (w.1, some w.2)) := by
  simp only [bound, zip_map_right]
  rfl

include hlen

lemma bound_other (hv : v ∉ vs) : (a.bound vs ps).virtualToPhysical v = a.virtualToPhysical v := by
  rw [bound_virtualToPhysical, writeAll_map_of_notMem (by rwa [map_fst_zip hlen.le])]

lemma bound_new (hvs : vs.Nodup) (hv : v ∈ vs) :
    ∃ p ∈ ps, (a.bound vs ps).virtualToPhysical v = some p := by
  have hfst : (vs.zip ps).map fst = vs := map_fst_zip hlen.le
  rw [← hfst] at hv
  obtain ⟨w, hw, rfl⟩ := mem_map.mp hv
  refine ⟨w.2, (of_mem_zip hw).2, ?_⟩
  rw [bound_virtualToPhysical, writeAll_map_of_mem (by rwa [hfst]) hw]
end

lemma BandInv.bound (h : a.BandInv ps) (hlen : vs.length = ps.length)
    (hvs : vs.Nodup) (hfresh : a.Unbound vs) : (a.bound vs ps).BandInv [] := by
  have hfst : (vs.zip ps).map fst = vs := map_fst_zip hlen.le
  have hsnd : (vs.zip ps).map snd = ps := map_snd_zip hlen.ge
  have hp2v : (a.bound vs ps).physicalToVirtual =
      writeAll a.physicalToVirtual ((vs.zip ps).map fun w => (w.2, some w.1)) :=
    congrArg (writeAll a.physicalToVirtual) (zip_map_comm some vs ps)
  have hps : ps.Nodup := (nodup_append'.mp h.nodup).1
  have hpmem : ∀ p ∈ ps, a.InBand p ∧ a.physicalToVirtual p = none := fun p hp =>
    (h.mem_holes p).mp (mem_append_left _ hp)
  have hin : ∀ w ∈ vs.zip ps, w.1 ∈ vs ∧ w.2 ∈ ps := fun w hw =>
    ⟨(of_mem_zip hw).1, (of_mem_zip hw).2⟩
  have hname : ∀ p, (a.bound vs ps).physicalToVirtual p = none ↔
      a.physicalToVirtual p = none ∧ p ∉ ps := by
    intro p
    by_cases hp : p ∈ ps
    · rw [← hsnd] at hp
      obtain ⟨w, hw, rfl⟩ := mem_map.mp hp
      rw [hp2v, writeAll_map_of_mem (by rwa [hsnd]) hw]
      simp [(hin w hw).2]
    · rw [hp2v, writeAll_map_of_notMem (by rwa [hsnd])]
      simp [hp]
  have h0 : 0 ∉ vs := fun hv => by
    have := (hfresh 0 hv).2
    rw [h.sink] at this
    cases this
  exact
    { h with
      inverse := by
        rw [bound_virtualToPhysical, hp2v]
        refine h.inverse.bind (by rwa [hfst]) (by rwa [hsnd]) ?_ ?_
        · exact fun w hw => (hfresh w.1 (hin w hw).1).2
        · exact fun w hw => (hpmem w.2 (hin w hw).2).2
      sink := (bound_other hlen h0).trans h.sink
      virtual_le := fun v p hv => by
        by_cases hvs : v ∈ vs
        · exact (hfresh v hvs).1
        · exact h.virtual_le v p ((bound_other hlen hvs).symm.trans hv)
      nodup := (nodup_append'.mp h.nodup).2.1
      mem_holes := fun p => by
        have hp := h.mem_holes p
        have hdis : p ∈ ps → p ∉ a.holes := fun hp hq => (nodup_append'.mp h.nodup).2.2 hp hq
        rw [mem_append] at hp
        rw [nil_append, hname]
        tauto
      live_inBand := fun v p hv hp => by
        by_cases hm : v ∈ vs
        · obtain ⟨q, hq, e⟩ := bound_new (a := a) hlen hvs hm
          rw [hp] at e
          exact (hpmem p (Option.some.inj e ▸ hq)).1
        · exact h.live_inBand v p hv ((bound_other hlen hm).symm.trans hp) }

/-! ## Allocation -/

/-- What binding the virtual pages `vs` to new physical pages does to an allocator. -/
structure Grown (a : MultiEnded α) (vs : List Nat) (a' : MultiEnded α) : Prop where
  band : a'.BandInv []
  pool : a'.pool = a.pool
  ids : a'.freeVirtualIds = a.freeVirtualIds
  inflight : a'.inflightForward = a.inflightForward
  event : a'.latestForwardDoneEvent = a.latestForwardDoneEvent
  pending : a'.pendingReuse = a.pendingReuse
  group : a'.isNotInFreeGroup = a.isNotInFreeGroup ∧ a'.freeGroup = a.freeGroup
  data : a'.data = a.data
  other : ∀ v ∉ vs, a'.virtualToPhysical v = a.virtualToPhysical v
  new : ∀ v ∈ vs, a'.virtualToPhysical v ≠ none
  top : a'.top = a.top + (vs.length - a.freePhysPages.length : Nat)
  free : a'.freePhysPages.length = a.freePhysPages.length - vs.length
  count : a.pool.lazyCompaction = true → a'.livePageCount = a.livePageCount + vs.length

lemma Grown.refl (h : a.BandInv []) : Grown a [] a :=
  { band := h, pool := rfl, ids := rfl, inflight := rfl, event := rfl, pending := rfl,
    group := ⟨rfl, rfl⟩, data := rfl, other := fun _ _ => rfl,
    new := nofun, top := by simp, free := rfl, count := by simp }

lemma Grown.liveNumber (h : Grown a vs a') : a'.liveNumber = a.liveNumber + vs.length := by
  have ht := h.top
  have hf := h.free
  simp only [MultiEnded.liveNumber, holes, List.length_append, pendingPages, h.pending]
  omega

lemma extension_spec {peer : Option (MultiEnded α)} (h : a.extension peer k = some a') :
    a' = a.raised k ∧ a.top + k ≤ a.pool.capacity := by
  unfold extension at h
  split at h
  · exact extendWatermark_spec h
  · exact extendWatermarkEager_spec h

lemma BandInv.grown (h : a.BandInv []) (hvs : vs.Nodup) (hfresh : a.Unbound vs)
    (hk : a.top + k ≤ a.pool.capacity) (drained rest : List Int)
    (hd : (drained ++ rest).Perm a.freePhysPages) (hs : rest.Sublist a.freePhysPages)
    (hnew : new.Perm ((a.raised k).takePhysicalArange k)) (hlen : vs.length = drained.length + k)
    (hrest : rest = [] ∨ k = 0) (c : Int)
    (hc : a.pool.lazyCompaction = true → c = a.livePageCount + vs.length) :
    Grown a vs ((a.taken k rest c).bound vs (drained ++ new)) := by
  have hnl : new.length = k := hnew.length_eq.trans (length_takePhysicalArange k)
  have hps : vs.length = (drained ++ new).length := by rw [List.length_append, hlen, hnl]
  have hfl : drained.length + rest.length = a.freePhysPages.length := by
    rw [← List.length_append, hd.length_eq]
  exact
    { band := (h.take hk hd hs hnew c).bound hps hvs hfresh
      pool := rfl, ids := rfl, inflight := rfl, event := rfl, pending := rfl, group := ⟨rfl, rfl⟩
      data := rfl
      other := fun v hv => bound_other hps hv
      new := fun v hv => by
        obtain ⟨p, -, e⟩ := bound_new (a := a.taken k rest c) hps hvs hv
        exact e ▸ Option.some_ne_none p
      top := by
        have : ((a.taken k rest c).bound vs (drained ++ new)).top = a.top + k := top_taken (a := a) k rest c
        grind
      free := by
        change rest.length = _
        rcases hrest with rfl | rfl
        · rw [length_nil] at hfl ⊢
          omega
        · omega
      count := hc }

lemma any_gt_eq_false (h : ∀ v ∈ vs, v ≤ n) : (vs.any fun v => v > n) = false := by
  simpa using h

lemma bind_ok (hv : ∀ v ∈ vs, v ≤ a.pool.numPages)
    (hlen : vs.length = ps.length) : a.bind vs ps = .ok (a.bound vs ps) := by
  rw [bind, any_gt_eq_false hv, if_neg (by simp), if_neg (not_not.mpr hlen)]

/-- An allocation for `vs` fails if it does not fit beyond the holes, else binds them. -/
def BindOutcome (a : MultiEnded α) (peer : Option (MultiEnded α)) (vs : List Nat)
    (r : Except Err (Option (MultiEnded α))) : Prop :=
  (0 < vs.length - a.freePhysPages.length ∧
      a.extension peer (vs.length - a.freePhysPages.length) = none ∧ r = .ok none) ∨
    ∃ a', r = .ok (some a') ∧ Grown a vs a'

section
variable {peer : Option (MultiEnded α)} {vs : List Nat} {d : Nat}

lemma pagesFrom_startPhys (k : Nat) :
    pagesFrom (startPhys a.pool.grow a.watermarkPhysical k) k = (a.raised k).takePhysicalArange k := by
  unfold startPhys takePhysicalArange raised
  cases a.pool.grow <;> simp only [Grow.outward]
  all_goals
    congr 1
    omega

lemma allocBindFast_spec (h : a.BandInv []) (hvs : vs.Nodup)
    (hfresh : a.Unbound vs) (h0 : 0 < vs.length)
    (hf : a.freePhysPages = []) : BindOutcome a peer vs (a.allocBindFast peer vs vs.length) := by
  have hn : vs.length - a.freePhysPages.length = vs.length := by rw [hf, length_nil, Nat.sub_zero]
  unfold BindOutcome
  rw [hn, allocBindFast]
  rcases he : a.extension peer vs.length with _ | a₁
  · exact .inl ⟨h0, rfl, rfl⟩
  obtain ⟨rfl, hk⟩ := extension_spec he
  have hrange : (vs.any fun v => v > (a.raised vs.length).pool.numPages) = false :=
    any_gt_eq_false fun v hv => (hfresh v hv).1
  refine .inr ⟨_, by
    simp only [allocBindInplace, hrange, Bool.false_eq_true, if_false, pagesFrom_startPhys]
    rfl, ?_⟩
  -- no holes were left, so none are left now
  have htaken : ∀ c, a.taken vs.length [] c = { a.raised vs.length with livePageCount := c } := fun c => by
    simp [taken, raised, hf]
  have hg := h.grown hvs hfresh hk [] [] (by rw [hf]; rfl) (nil_sublist _) (.refl _) (by simp) (.inl rfl)
  by_cases hl : a.pool.lazyCompaction = true
  · have := hg (a.livePageCount + vs.length) fun _ => rfl
    rw [htaken] at this
    rw [counted, if_pos (show ((a.raised vs.length).bound vs _).pool.lazyCompaction = true from hl)]
    exact this
  have := hg a.livePageCount fun hl' => absurd hl' hl
  rw [htaken] at this
  rw [counted, if_neg (show ¬((a.raised vs.length).bound vs _).pool.lazyCompaction = true from hl)]
  exact this

lemma takeDrained_eq {k : Nat} (hd : 0 < d) : (a.raised k).takeDrained d k =
      ((a.drainHoles d).1 ++ (a.raised k).extendedPages k,
        a.taken k (a.drainHoles d).2 (a.livePageCount + (d + k : Nat))) := by
  unfold takeDrained
  simp only [hd.ne', if_false]
  rfl

lemma takeDrained_outcome (h : a.BandInv []) (hvs : vs.Nodup)
    (hfresh : a.Unbound vs) {k : Nat} (hd : 0 < d)
    (hdf : d ≤ a.freePhysPages.length) (hcap : a.top + k ≤ a.pool.capacity)
    (hlen : vs.length = d + k) (hrest : d = a.freePhysPages.length ∨ k = 0) :
    ∃ a', (do
      let a' ← ((a.raised k).takeDrained d k).2.bind vs ((a.raised k).takeDrained d k).1
      return some a') = Except.ok (some a') ∧ Grown a vs a' := by
  have hperm := (a.raised k).extendedPages_perm k
  have hdl := length_drainHoles hdf
  have hshape : vs.length = ((a.drainHoles d).1 ++ (a.raised k).extendedPages k).length := by
    rw [List.length_append, hdl, hperm.length_eq, length_takePhysicalArange, hlen]
  have hall : (a.drainHoles d).2 = [] ∨ k = 0 := by
    refine hrest.imp_left fun hd' => length_eq_zero_iff.mp ?_
    have := (a.drainHoles_perm d).length_eq
    rw [List.length_append, hdl] at this
    omega
  rw [takeDrained_eq hd]
  refine ⟨_, ?_, h.grown hvs hfresh hcap _ _ (a.drainHoles_perm d) (a.drainHoles_sublist d) hperm
    (by rw [hdl, hlen]) hall (a.livePageCount + (d + k : Nat)) fun _ => by rw [hlen]⟩
  have hb := bind_ok (a := a.taken k (a.drainHoles d).2 (a.livePageCount + (d + k : Nat)))
    (fun v hv => (hfresh v hv).1) hshape
  simp only [hb]
  rfl

lemma raised_zero : a.raised 0 = a := by
  unfold raised
  cases a.pool.grow <;> simp [Grow.outward]

lemma allocBindSlow_spec (h : a.BandInv []) (hvs : vs.Nodup) (hfresh : a.Unbound vs)
    (hl : a.pool.lazyCompaction = true) (hf : 0 < min vs.length a.freePhysPages.length) :
    BindOutcome a peer vs (a.allocBindSlow peer vs vs.length) := by
  set k := vs.length - a.freePhysPages.length
  have hsub : vs.length - min vs.length a.freePhysPages.length = vs.length - a.freePhysPages.length := by
    omega
  have hext : a.extension peer k = a.extendWatermark peer k := if_pos hl
  unfold BindOutcome allocBindSlow takePhysical
  rw [hext]
  simp only [hsub]
  by_cases hk : vs.length - a.freePhysPages.length > 0
  · rw [if_pos hk]
    rcases he : a.extendWatermark peer k with _ | a₁
    · exact .inl ⟨hk, rfl, rfl⟩
    obtain ⟨rfl, hcap⟩ := extendWatermark_spec he
    exact .inr (takeDrained_outcome h hvs hfresh hf (min_le_right ..) hcap (by omega) (.inl (by omega)))
  rw [if_neg hk]
  have := takeDrained_outcome h hvs hfresh hf (min_le_right ..) (k := 0) (by simpa using h.top_le)
    (by omega) (.inr rfl)
  rw [raised_zero] at this
  exact .inr this

variable (peer) in
lemma allocBindFastOrSlow_spec (h : a.BandInv []) (hvs : vs.Nodup) (hfresh : a.Unbound vs) :
    BindOutcome a peer vs (a.allocBindFastOrSlow peer vs vs.length) := by
  unfold allocBindFastOrSlow
  by_cases h0 : vs.length = 0
  · obtain rfl := length_eq_zero_iff.mp h0
    exact .inr ⟨a, rfl, .refl h⟩
  rw [if_neg h0]
  by_cases hfast : (!a.pool.lazyCompaction || a.freePhysPages.isEmpty) = true
  · rw [if_pos hfast]
    refine allocBindFast_spec h hvs hfresh (Nat.pos_of_ne_zero h0) ?_
    rw [Bool.or_eq_true, Bool.not_eq_true', List.isEmpty_iff] at hfast
    exact hfast.elim (fun he => (h.eager he).1) id
  rw [if_neg hfast]
  rw [Bool.or_eq_true, Bool.not_eq_true', List.isEmpty_iff, not_or, Bool.not_eq_false] at hfast
  refine allocBindSlow_spec h hvs hfresh hfast.1 ?_
  grind
end

/-! ## Freeing -/

/-- Bound pages, not the padding page; tokens of one-token pages differ. -/
structure LegalFree (a : MultiEnded α) (freeIndex : List Nat) : Prop where
  live : ∀ t ∈ freeIndex, t / a.pool.pageSize ≠ 0 ∧ a.virtualToPhysical (t / a.pool.pageSize) ≠ none
  nodup : a.pool.pageSize = 1 → freeIndex.Nodup

variable {idx : List Nat}

lemma mem_freedVirtualPages {v : Nat} :
    v ∈ a.freedVirtualPages idx ↔ ∃ t ∈ idx, t / a.pool.pageSize = v := by
  unfold freedVirtualPages
  by_cases h : (a.pool.lazyCompaction && a.pool.pageSize == 1) = true
  · grind
  · rw [if_neg h, mem_unique, mem_map]

lemma LegalFree.nodup_pages (h : a.LegalFree idx) : (a.freedVirtualPages idx).Nodup := by
  unfold freedVirtualPages
  by_cases hp : (a.pool.lazyCompaction && a.pool.pageSize == 1) = true
  · rw [if_pos hp]
    rw [Bool.and_eq_true, beq_iff_eq] at hp
    exact h.nodup hp.2
  · rw [if_neg hp]
    exact nodup_unique _

lemma LegalFree.pages (h : a.LegalFree idx) {v : Nat}
    (hv : v ∈ a.freedVirtualPages idx) : v ≠ 0 ∧ a.virtualToPhysical v ≠ none := by
  obtain ⟨t, ht, rfl⟩ := mem_freedVirtualPages.mp hv
  exact h.live t ht

/-- The allocator when virtual pages and their physical pages have been unbound. -/
def unboundPages (a : MultiEnded α) (vs : List Nat) : MultiEnded α :=
  { a.unbound vs with
    physicalToVirtual :=
      writeAll a.physicalToVirtual ((a.freedPhysicalPages vs).map fun p => (p, none)) }

section
variable {vs : List Nat}

lemma getD_of_live {v : Nat} (h : a.virtualToPhysical v ≠ none) :
    a.virtualToPhysical v = some ((a.virtualToPhysical v).getD (-1)) := by
  cases hv : a.virtualToPhysical v with
  | none => exact absurd hv h
  | some p => rfl

lemma mem_freedPhysicalPages (hlive : ∀ v ∈ vs, a.virtualToPhysical v ≠ none) {p : Int} :
    p ∈ a.freedPhysicalPages vs ↔ ∃ v ∈ vs, a.virtualToPhysical v = some p := by
  unfold freedPhysicalPages
  rw [mem_map]
  refine exists_congr fun v => and_congr_right fun hv => ?_
  rw [getD_of_live (hlive v hv), Option.some.injEq, Option.getD_some]

lemma BandInv.nodup_freedPhysicalPages {extra : List Int} (h : a.BandInv extra) (hvs : vs.Nodup)
    (hlive : ∀ v ∈ vs, a.virtualToPhysical v ≠ none) : (a.freedPhysicalPages vs).Nodup := by
  refine hvs.map_on fun v hv w hw e => ?_
  have hpv := (h.inverse _ _).mp (getD_of_live (hlive v hv))
  have hpw := (h.inverse _ _).mp (getD_of_live (hlive w hw))
  rw [e, hpw] at hpv
  exact (Option.some.inj hpv).symm

lemma BandInv.unbind (h : a.BandInv []) (hvs : vs.Nodup)
    (hlive : ∀ v ∈ vs, v ≠ 0 ∧ a.virtualToPhysical v ≠ none) :
    (a.unboundPages vs).BandInv (a.freedPhysicalPages vs) := by
  have hmem := fun p => mem_freedPhysicalPages (p := p) fun v hv => (hlive v hv).2
  have hplace : ∀ v, (a.unboundPages vs).virtualToPhysical v =
      if v ∈ vs then none else a.virtualToPhysical v := fun v => writeAll_const _ _ _ v
  have hname : ∀ p, (a.unboundPages vs).physicalToVirtual p =
      if p ∈ a.freedPhysicalPages vs then none else a.physicalToVirtual p := fun p => writeAll_const _ _ _ p
  have hold : ∀ v p, (a.unboundPages vs).virtualToPhysical v = some p → a.virtualToPhysical v = some p := by
    grind
  have hin : ∀ p ∈ a.freedPhysicalPages vs, a.InBand p ∧ a.physicalToVirtual p ≠ none := by
    intro p hp
    obtain ⟨v, hv, e⟩ := (hmem p).mp hp
    refine ⟨h.live_inBand v p (hlive v hv).1 e, ?_⟩
    rw [(h.inverse v p).mp e]
    exact Option.some_ne_none v
  have hno := h.nodup
  exact
    { h with
      inverse := by
        refine h.inverse.unbind (fun v hv => ?_) fun p hp => (hmem p).mp hp
        exact ⟨_, (hmem _).mpr ⟨v, hv, getD_of_live (hlive v hv).2⟩, getD_of_live (hlive v hv).2⟩
      sink := by
        rw [hplace, if_neg fun h0 => (hlive 0 h0).1 rfl]
        exact h.sink
      virtual_le := fun v p hv => h.virtual_le v p (hold v p hv)
      nodup := by
        refine nodup_append'.mpr
          ⟨h.nodup_freedPhysicalPages hvs fun v hv => (hlive v hv).2, hno, fun p hp hq => ?_⟩
        exact (hin p hp).2 ((h.mem_holes p).mp hq).2
      mem_holes := fun p => by
        rw [hname, mem_append]
        have hp := h.mem_holes p
        have hi := hin p
        rw [nil_append] at hp
        change p ∈ a.freedPhysicalPages vs ∨ p ∈ a.holes ↔ a.InBand p ∧ _
        grind
      live_inBand := fun v p hv0 hv => h.live_inBand v p hv0 (hold v p hv) }
end

lemma mergedHoles_perm (xs : List Int) : (a.mergedHoles xs).Perm xs := by
  unfold mergedHoles
  split
  · exact perm_insertionSort _ _
  · exact .refl _

lemma mergedHoles_sorted (xs : List Int) (h : a.pool.sortFreeListAfterMerge = true) :
    (a.mergedHoles xs).Pairwise (· ≤ ·) := by
  rw [mergedHoles, if_pos h]
  exact pairwise_insertionSort _ _

lemma BandInv.merge (h : a.BandInv ps) (hl : a.pool.lazyCompaction = true)
    {free : List Int} (hfree : free.Perm (a.freePhysPages ++ ps))
    (hs : a.pool.sortFreeListAfterMerge = true → free.Pairwise (· ≤ ·)) (c : Int) :
    { a with freePhysPages := free, livePageCount := c : MultiEnded α }.BandInv [] := by
  have hperm : (free ++ a.pendingPages).Perm (ps ++ a.holes) := by
    refine (hfree.append_right _).trans ?_
    rw [holes, ← append_assoc]
    exact perm_append_comm.append_right _
  exact
    { h with
      nodup := hperm.nodup_iff.mpr h.nodup
      mem_holes := fun p => (hperm.mem_iff).trans (h.mem_holes p), sorted := hs
      eager := fun he => absurd (hl.symm.trans he) (by simp) }

/-! ## Operations that keep `Conserved` -/

variable {a'' : MultiEnded α}

/-- What an operation keeps that frees the virtual pages `gone` and binds the virtual pages `new`. -/
structure Kept (a a' : MultiEnded α) (gone new : List Nat) : Prop where
  pool : a'.pool = a.pool
  group : a'.isNotInFreeGroup = a.isNotInFreeGroup
  live : ∀ v, a'.virtualToPhysical v ≠ none ↔ v ∈ new ∨ a.virtualToPhysical v ≠ none ∧ v ∉ gone
  reads : ∀ v, a.virtualToPhysical v ≠ none → v ∉ gone →
    readAt a'.virtualToPhysical a'.data v = readAt a.virtualToPhysical a.data v

lemma Kept.of_tables (hp : a'.pool = a.pool) (hg : a'.isNotInFreeGroup = a.isNotInFreeGroup)
    (hv : a'.virtualToPhysical = a.virtualToPhysical) (hd : a'.data = a.data) : Kept a a' [] [] :=
  { pool := hp, group := hg, live := fun v => by simp [hv], reads := fun v _ _ => by rw [hv, hd] }

lemma Kept.refl (a : MultiEnded α) : Kept a a [] [] := .of_tables rfl rfl rfl rfl

lemma Kept.trans {gone new : List Nat} (h : Kept a a' [] []) (h' : Kept a' a'' gone new) :
    Kept a a'' gone new :=
  { pool := h'.pool.trans h.pool
    group := h'.group.trans h.group
    live := fun v => by
      rw [h'.live, h.live]
      simp
    reads := fun v hv hg => by
      have hv' : a'.virtualToPhysical v ≠ none := (h.live v).mpr (.inr ⟨hv, not_mem_nil⟩)
      rw [h'.reads v hv' hg, h.reads v hv not_mem_nil] }

lemma IdsInv.congr (h : a.IdsInv) (hp : a'.pool = a.pool)
    (hi : a'.freeVirtualIds = a.freeVirtualIds)
    (hv : ∀ v, a'.virtualToPhysical v ≠ none → a.virtualToPhysical v ≠ none)
    (hn : a'.liveNumber = a.liveNumber) : a'.IdsInv :=
  { nodup := hi ▸ h.nodup
    unbound := fun v hm => by
      rw [hi] at hm
      obtain ⟨hle, hnone⟩ := h.unbound v hm
      grind
    length := by rw [hi, hp, hn, h.length] }

/-! ## Draining -/

section
variable {urgent : Bool} {done : Event → Bool}

lemma pendingPages_perm_filter (a : MultiEnded α) (f : Event × List Int → Bool) :
    a.pendingPages.Perm
      ((a.pendingReuse.filter f).flatMap snd ++ (a.pendingReuse.filter fun e => !f e).flatMap snd) := by
  rw [← flatMap_append]
  exact (filter_append_perm f a.pendingReuse).symm.flatMap_right _

/-- What draining does: some pages change from `_pending_reuse` to the holes. -/
structure Drained (a : MultiEnded α) (urgent : Bool) (done : Event → Bool) (a' : MultiEnded α) : Prop where
  conserved : a'.Conserved
  kept : Kept a a' [] []
  top : a'.top = a.top
  event : a'.latestForwardDoneEvent = a.latestForwardDoneEvent
  inflight : a'.inflightForward = a.inflightForward
  keys : ∀ e, e ∈ a'.pendingReuse.map fst → e ∈ a.pendingReuse.map fst
  urgent : urgent = true → a'.pendingReuse = []

lemma drainPendingReuse_spec (h : a.Conserved) (hl : a.pool.lazyCompaction = true) (urgent : Bool)
    (done : Event → Bool) : Drained a urgent done (a.drainPendingReuse urgent done) := by
  unfold drainPendingReuse
  by_cases hr : (a.pendingReuse.filter fun e => done e.1 || urgent).isEmpty = true
  · rw [if_pos hr]
    refine ⟨h, .refl a, rfl, rfl, rfl, fun _ => id, fun hu => ?_⟩
    subst hu
    simpa using hr
  rw [if_neg hr]
  set pages := (a.pendingReuse.filter fun e => done e.1 || urgent).flatMap snd with hpages
  set left := a.pendingReuse.filter fun e => !(done e.1 || urgent) with hleft
  have hsplit : a.pendingPages.Perm (pages ++ left.flatMap snd) :=
    a.pendingPages_perm_filter fun e => done e.1 || urgent
  have hperm : (a.mergedHoles (a.freePhysPages ++ pages) ++ left.flatMap snd).Perm a.holes := by
    refine ((mergedHoles_perm _).append_right _).trans ?_
    rw [append_assoc]
    exact hsplit.symm.append_left _
  have hno := h.band.nodup
  rw [nil_append, holes] at hno
  have hno' := hsplit.nodup_iff.mp (nodup_append'.mp hno).2.1
  refine ⟨⟨?_, ?_, ?_, h.inflight⟩, .of_tables rfl rfl rfl rfl, rfl, rfl, rfl, ?_, ?_⟩
  · exact
      { h.band with
        nodup := hperm.nodup_iff.mpr h.band.nodup
        mem_holes := fun p => hperm.mem_iff.trans (h.band.mem_holes p)
        keys_nodup := h.band.keys_nodup.sublist (filter_sublist.map _)
        mem_cpu := fun p => by
          rw [mem_filter, h.band.mem_cpu, hsplit.mem_iff, mem_append, decide_eq_true_eq]
          have hdis : p ∈ pages → p ∉ left.flatMap snd := fun hp hq =>
            (nodup_append'.mp hno').2.2 hp hq
          tauto
        sorted := mergedHoles_sorted _
        eager := fun he => absurd (hl.symm.trans he) (by simp) }
  · exact fun ho => (h.ids ho).congr rfl rfl (fun _ => id) (congrArg (a.top - ·) (by rw [← hperm.length_eq]; rfl))
  · exact fun hc => (h.count hc).trans (congrArg (a.top - ·) (by rw [← hperm.length_eq]; rfl))
  · exact fun e he => (filter_sublist.map _).subset he
  · rintro rfl
    simp [hleft]
end

/-! ## Lazy freeing -/

variable {vs idx : List Nat}

lemma IdsInv.unbind (h : a.IdsInv) (hb : a.BandInv []) (hvs : vs.Nodup)
    (hlive : ∀ v ∈ vs, v ≠ 0 ∧ a.virtualToPhysical v ≠ none) (hp : a'.pool = a.pool)
    (hi : a'.freeVirtualIds = a.freeVirtualIds ++ vs)
    (hv : ∀ v, a'.virtualToPhysical v ≠ none ↔ a.virtualToPhysical v ≠ none ∧ v ∉ vs)
    (hn : a'.liveNumber = a.liveNumber - vs.length) : a'.IdsInv :=
  { nodup := by
      rw [hi]
      exact nodup_append'.mpr ⟨h.nodup, hvs, fun v hv hw => (hlive v hw).2 (h.unbound v hv).2⟩
    unbound := fun v hm => by
      rw [hi, mem_append] at hm
      rw [hp]
      have hnot : ¬(a.virtualToPhysical v ≠ none ∧ v ∉ vs) := by
        rintro ⟨hl, hnv⟩
        exact hl (h.unbound v (hm.resolve_right hnv)).2
      refine ⟨?_, not_not.mp fun hl => hnot ((hv v).mp hl)⟩
      rcases hm with hm | hm
      · exact (h.unbound v hm).1
      · exact hb.virtual_le v _ (getD_of_live (hlive v hm).2)
    length := by
      have := h.length
      rw [hi, hp, hn, length_append]
      omega }

lemma length_freedPhysicalPages : (a.freedPhysicalPages vs).length = vs.length := length_map ..

structure Freed (a : MultiEnded α) (vs : List Nat) (a' : MultiEnded α) : Prop where
  conserved : a'.Conserved
  kept : Kept a a' vs []
  top : a'.top ≤ a.top

lemma freeLazy_spec (h : a.Conserved) (hl : a.pool.lazyCompaction = true) (hf : a.LegalFree idx) :
    ∃ a', a.freeLazy idx = .ok a' ∧ Freed a (a.freedVirtualPages idx) a' := by
  have hlive := fun v hv => hf.pages (v := v) hv
  have hvs := hf.nodup_pages
  have hle : ∀ v ∈ a.freedVirtualPages idx, v ≤ a.pool.numPages := fun v hv =>
    h.band.virtual_le v _ (getD_of_live (hlive v hv).2)
  unfold freeLazy
  simp only [any_gt_eq_false hle, Bool.false_eq_true, if_false]
  generalize a.freedVirtualPages idx = vs at hlive hvs hle
  have hmerged := (h.band.unbind hvs hlive).merge hl (mergedHoles_perm _) (mergedHoles_sorted _)
    (a.livePageCount - (a.freedPhysicalPages vs).length)
  have hplace : ∀ v, (a.unboundPages vs).virtualToPhysical v =
      if v ∈ vs then none else a.virtualToPhysical v := fun v => writeAll_const _ _ _ v
  have hnum : a.top - ((a.mergedHoles (a.freePhysPages ++ a.freedPhysicalPages vs) ++
      a.pendingPages).length : Int) = a.liveNumber - vs.length := by
    rw [liveNumber, holes, length_append, length_append, (mergedHoles_perm _).length_eq,
      length_append, length_freedPhysicalPages]
    omega
  have hbound : ∀ v, (a.unboundPages vs).virtualToPhysical v ≠ none ↔
      a.virtualToPhysical v ≠ none ∧ v ∉ vs := fun v => by
    rw [hplace]
    by_cases hv : v ∈ vs <;> simp [hv]
  refine ⟨_, rfl, ⟨hmerged, fun ho => ?_, fun hc => ?_, h.inflight⟩, ?_, le_rfl⟩
  · refine (h.ids ho).unbind h.band hvs hlive rfl ?_ hbound hnum
    exact if_pos ho
  · rw [length_freedPhysicalPages, h.count hc]
    exact hnum.symm
  exact
    { pool := rfl
      group := rfl
      live := fun v => by
        rw [mem_nil_iff, false_or]
        exact hbound v
      reads := fun v _ hv => by
        change ((a.unboundPages vs).virtualToPhysical v).map a.data = _
        rw [hplace, if_neg hv]
        rfl }
end MultiEnded
end Sglang.Unified
