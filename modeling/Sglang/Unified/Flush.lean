import Sglang.Unified.Band

/-!
# Lazy compaction

`_flush` keeps the invariant of a sub-pool.
-/

namespace Sglang.Unified
open List
open Prod (fst snd)

/-! ## Lists from the outside and from the inside -/

section
variable {pool : SubPool} {l : List Int}

lemma outermostFirst_perm (g : Grow) (l : List Int) : (g.outermostFirst l).Perm l := by
  cases g
  · exact reverse_perm l
  · exact .refl l

lemma outermostFirst_pairwise (h : l.Pairwise (· < ·)) :
    (pool.grow.outermostFirst l).Pairwise fun p q => pool.depth q < pool.depth p := by
  unfold SubPool.depth
  cases pool.grow
  · rw [Grow.outermostFirst, pairwise_reverse]
    exact h.imp fun h => by simpa using h
  · exact h.imp fun h => by
      simp only
      omega

variable (g : Grow) (n : Nat) (l : List Int)

lemma outermostFirst_dropOuter : g.outermostFirst (g.dropOuter n l) = (g.outermostFirst l).drop n := by
  cases g
  · simp [Grow.outermostFirst, Grow.dropOuter, drop_reverse]
  · rfl

lemma dropOuter_sublist : (g.dropOuter n l).Sublist l := by
  cases g
  · exact take_sublist _ _
  · exact drop_sublist _ _

lemma dropInner_sublist : (g.dropInner n l).Sublist l := by
  cases g
  · exact drop_sublist _ _
  · exact take_sublist _ _

lemma outermostFirst_dropInner :
    (g.outermostFirst (g.dropInner n l)).reverse = (g.outermostFirst l).reverse.drop n := by
  cases g
  · simp [Grow.outermostFirst, Grow.dropInner]
  · simp [Grow.outermostFirst, Grow.dropInner, drop_reverse]
end

namespace MultiEnded
open Move (src dst name)
variable {α : Type} {a a' : MultiEnded α} {cursor : Option Int}

/-! ## Going back with the watermark -/

/-- The allocator with its watermark `k` pages further in, and with other holes. -/
def lowered (a : MultiEnded α) (k : Nat) (rest : List Int) : MultiEnded α :=
  { a with watermarkPhysical := a.pool.grow.inward a.watermarkPhysical k, freePhysPages := rest }

lemma top_lowered (k : Nat) (rest : List Int) : (a.lowered k rest).top = a.top - k :=
  a.pool.depth_inward a.watermarkPhysical k

lemma BandInv.retreat (h : a.BandInv []) (gone rest : List Int)
    (hperm : (gone ++ rest).Perm a.freePhysPages) (hs : rest.Sublist a.freePhysPages)
    (hgone : ∀ p, p ∈ gone ↔ a.top - gone.length ≤ a.pool.depth p ∧ a.pool.depth p < a.top)
    (h0 : 0 ≤ a.top - gone.length) : (a.lowered gone.length rest).BandInv [] := by
  have htop := top_lowered (a := a) gone.length rest
  obtain ⟨hno', hold⟩ := h.free_split hperm
  have hband : ∀ p, (a.lowered gone.length rest).InBand p ↔ a.InBand p ∧ p ∉ gone := fun p => by
    rw [inBand_iff, htop, inBand_iff, hgone]
    change (0 ≤ a.pool.depth p ∧ a.pool.depth p < _) ↔ _
    omega
  exact
    { h with
      top_nonneg := by
        rw [htop]
        exact h0
      top_le := by
        have := h.top_le
        change _ ≤ a.pool.capacity
        omega
      nodup := (nodup_append'.mp hno').2.1
      mem_holes := fun p => by
        rw [hband]
        change p ∈ rest ++ a.pendingPages ↔ (_ ∧ _) ∧ a.physicalToVirtual p = none
        have hp := hold p
        grind
      live_inBand := fun v p hv hp => by
        rw [hband]
        refine ⟨h.live_inBand v p hv hp, fun hg => ?_⟩
        have := ((hold p).mp (.inl (.inl hg))).2
        rw [(h.inverse v p).mp hp] at this
        cases this
      sorted := fun hsort => (h.sorted hsort).sublist hs
      eager := h.eager_sublist hs }

lemma absorbCount_spec (pool : SubPool) (wm : Int) (outer : List Int) :
    absorbCount pool.grow wm outer ≤ outer.length ∧
      ∀ p, p ∈ outer.take (absorbCount pool.grow wm outer) ↔
        pool.depth wm - absorbCount pool.grow wm outer ≤ pool.depth p ∧ pool.depth p < pool.depth wm := by
  induction outer generalizing wm with
  | nil => exact ⟨le_rfl, fun p => by simp [absorbCount]⟩
  | cons h holes ih => ?_
  rw [absorbCount]
  by_cases hh : h = pool.grow.inward wm 1
  · obtain ⟨hle, hmem⟩ := ih (pool.grow.inward wm 1)
    rw [if_pos hh]
    refine ⟨Nat.succ_le_succ hle, fun p => ?_⟩
    rw [take_succ_cons, mem_cons, hmem, hh, ← pool.depth_inj, pool.depth_inward]
    omega
  grind

lemma absorbBoundaryHoles_spec (h : a.BandInv []) :
    a.absorbBoundaryHoles.BandInv [] ∧ a.absorbBoundaryHoles.top ≤ a.top ∧
      a.absorbBoundaryHoles.liveNumber = a.liveNumber ∧
      a.absorbBoundaryHoles.freePhysPages.Sublist a.freePhysPages := by
  obtain ⟨hle, hmem⟩ := absorbCount_spec a.pool a.watermarkPhysical (a.pool.grow.outermostFirst a.freePhysPages)
  set outer := a.pool.grow.outermostFirst a.freePhysPages with houter
  set n := absorbCount a.pool.grow a.watermarkPhysical outer with hn
  have hlen : (outer.take n).length = n := length_take_of_le hle
  set rest := a.pool.grow.dropOuter n a.freePhysPages with hdef
  have hrest : rest.Perm (outer.drop n) := by
    rw [hdef, houter, ← outermostFirst_dropOuter]
    exact (outermostFirst_perm ..).symm
  have hperm : (outer.take n ++ rest).Perm a.freePhysPages := by
    refine (hrest.append_left _).trans ?_
    rw [take_append_drop]
    exact outermostFirst_perm _ _
  have hsub := dropOuter_sublist a.pool.grow n a.freePhysPages
  have h0 : 0 ≤ a.top - (outer.take n).length := by
    rcases Nat.eq_zero_or_pos n with hz | hpos
    · rw [hlen, hz]
      simpa using h.top_nonneg
    -- the innermost of the absorbed holes lies in the band
    have hp : a.pool.grow.inward a.watermarkPhysical n ∈ outer.take n := by
      rw [hmem, a.pool.depth_inward]
      omega
    have hin : a.pool.grow.inward a.watermarkPhysical n ∈ a.holes :=
      mem_append_left _ (hperm.mem_iff.mp (mem_append_left _ hp))
    have hb := ((h.mem_holes _).mp hin).1
    rw [inBand_iff, a.pool.depth_inward] at hb
    rw [hlen]
    exact hb.1
  have hb := h.retreat _ _ hperm hsub (by rw [hlen]; exact hmem) h0
  have hsame : a.absorbBoundaryHoles = a.lowered (outer.take n).length rest := by
    rw [hlen]
    rfl
  have htop := top_lowered (a := a) (outer.take n).length rest
  rw [hsame]
  refine ⟨hb, ?_, ?_, hsub⟩
  · omega
  have hl := hperm.length_eq
  rw [length_append] at hl
  rw [liveNumber, htop, liveNumber, holes, holes, length_append, length_append]
  change _ - ((rest.length + a.pendingPages.length : Nat) : Int) = _
  omega

/-! ## The outermost page in use -/

/-- `_topmost_survivor` from depth `d`: the outermost page in use, and the holes inside of it. -/
structure Topmost (pool : SubPool) (holes pending : List Int) (d : Int) (src : Option Int)
    (outer : List Int) : Prop where
  found : ∀ s, src = some s → 0 ≤ pool.depth s ∧ pool.depth s ≤ d ∧ s ∉ holes ∧ s ∉ pending ∧
    ∀ q, pool.depth s < pool.depth q → pool.depth q ≤ d → q ∈ holes ∨ q ∈ pending
  absent : src = none → ∀ q, 0 ≤ pool.depth q → pool.depth q ≤ d → q ∈ holes ∨ q ∈ pending
  sorted : outer.Pairwise fun p q => pool.depth q < pool.depth p
  sub : ∀ h ∈ outer, h ∈ holes
  ahead : ∀ s, src = some s → ∀ h ∈ holes, pool.depth h ≤ pool.depth s → h ∈ outer

lemma survivorLoop_spec (pool : SubPool) (holes pending : List Int) (k : Nat) (p : Int)
    (outer : List Int) (hk : (k : Int) = pool.depth p + 1)
    (hsort : outer.Pairwise fun p q => pool.depth q < pool.depth p) (hsub : ∀ h ∈ outer, h ∈ holes)
    (hahead : ∀ h ∈ holes, pool.depth h ≤ pool.depth p → h ∈ outer) :
    Topmost pool holes pending (pool.depth p) (survivorLoop pool.grow pending k p outer).1
      (survivorLoop pool.grow pending k p outer).2 := by
  induction k generalizing p outer with
  | zero =>
    exact ⟨nofun, fun _ q h0 hq => by omega, hsort, hsub, nofun⟩
  | succ k ih => ?_
  rw [survivorLoop]
  set rest := outer.dropWhile fun h => pool.grow.Deeper p h with hrest
  have hsuffix : rest.Sublist outer := dropWhile_sublist _
  have hsort' := hsort.sublist hsuffix
  have hsub' : ∀ h ∈ rest, h ∈ holes := fun h hh => hsub h (hsuffix.subset hh)
  -- only holes outside of `p` are passed
  have hahead' : ∀ h ∈ holes, pool.depth h ≤ pool.depth p → h ∈ rest := by
    intro h hh hd
    have hm := hahead h hh hd
    rw [← takeWhile_append_dropWhile (p := fun h => pool.grow.Deeper p h) (l := outer), mem_append] at hm
    refine hm.resolve_left fun ht => ?_
    have := mem_takeWhile_imp ht
    rw [decide_eq_true_eq, pool.deeper_iff] at this
    omega
  have hhead : rest.head? = some p ↔ p ∈ holes := by
    constructor
    · exact fun h => hsub' p (mem_of_head? h)
    intro hp
    have hm := hahead' p hp le_rfl
    rcases hr : rest with _ | ⟨x, xs⟩
    · grind
    rw [hr] at hm hsort'
    rcases mem_cons.mp hm with rfl | hxs
    · rfl
    -- then the head would have been passed
    have hx : ¬pool.grow.Deeper p x := by
      have := head?_dropWhile_not (fun h => decide (pool.grow.Deeper p h)) outer
      grind
    have := (pairwise_cons.mp hsort').1 p hxs
    rw [pool.deeper_iff] at hx
    omega
  by_cases hskip : (rest.head? == some p || decide (p ∈ pending)) = true
  · rw [if_pos hskip]
    have hpq : p ∈ holes ∨ p ∈ pending := by
      grind
    have hdep := pool.depth_inward p 1
    have htail : (if (rest.head? == some p) = true then rest.tail else rest).Sublist rest := by
      grind
    have hnext := ih (pool.grow.inward p 1) (if (rest.head? == some p) = true then rest.tail else rest)
      (by rw [hdep]; omega) (hsort'.sublist htail) (fun h hh => hsub' h (htail.subset hh)) ?_
    · have hstep : ∀ q, pool.depth q ≤ pool.depth p →
          pool.depth q ≤ pool.depth (pool.grow.inward p 1) ∨ q ∈ holes ∨ q ∈ pending := by
        intro q hq
        by_cases heq : q = p
        · exact .inr (heq ▸ hpq)
        · have : pool.depth q ≠ pool.depth p := mt pool.depth_inj.mp heq
          omega
      refine ⟨fun s hs => ?_, fun hs q h0 hq => ?_, hnext.sorted, hnext.sub, hnext.ahead⟩
      · obtain ⟨h0, hd, hnh, hnp, habove⟩ := hnext.found s hs
        grind
      · exact (hstep q hq).elim (hnext.absent hs q h0) id
    intro h hh hd
    have hm := hahead' h hh (by rw [hdep] at hd; omega)
    split
    case isTrue he =>
      cases hr : rest with
      | nil =>
        grind
      | cons x xs =>
        grind
    case isFalse => exact hm
  rw [if_neg hskip]
  rw [Bool.or_eq_true, beq_iff_eq, hhead, decide_eq_true_eq, not_or] at hskip
  refine ⟨?_, nofun, hsort', hsub', ?_⟩
  · rintro s hs
    cases hs
    exact ⟨by omega, le_rfl, hskip.1, hskip.2, fun q hq hqp => absurd hq (not_lt.mpr hqp)⟩
  · rintro s hs h hh hd
    cases hs
    exact hahead' h hh hd

/-! ## The walk -/

def walkLimit (a : MultiEnded α) (cursor : Option Int) : Int :=
  match cursor with
  | none => a.top
  | some c => a.pool.depth c + 1

lemma depth_survivorStart (hc : walkLimit a cursor ≤ a.top) :
    a.pool.depth (a.survivorStart cursor) = walkLimit a cursor - 1 := by
  rcases cursor with _ | c
  · exact a.pool.depth_inward _ _
  have hd : a.pool.grow.Deeper c a.watermarkPhysical := by
    rw [a.pool.deeper_iff]
    exact Int.lt_of_add_one_le hc
  rw [survivorStart, if_pos hd, walkLimit, add_sub_cancel_right]

lemma pagesInside_eq (p : Int) : a.pagesInside p = a.pool.depth p + 1 := by
  unfold pagesInside SubPool.depth
  cases a.pool.grow <;> simp only
  omega

lemma topmostSurvivor_spec {outer : List Int}
    (hc : 0 ≤ walkLimit a cursor ∧ walkLimit a cursor ≤ a.top)
    (hsort : outer.Pairwise fun p q => a.pool.depth q < a.pool.depth p)
    (hsub : ∀ h ∈ outer, h ∈ a.freePhysPages)
    (hahead : ∀ h ∈ a.freePhysPages, a.pool.depth h < walkLimit a cursor → h ∈ outer) :
    Topmost a.pool a.freePhysPages a.pendingReusePagesCpu (walkLimit a cursor - 1)
      (a.topmostSurvivor cursor outer).1 (a.topmostSurvivor cursor outer).2 := by
  have hp := depth_survivorStart hc.2
  have hk := pagesInside_eq (a := a) (a.survivorStart cursor)
  rw [← hp]
  refine survivorLoop_spec a.pool _ _ _ _ outer (by omega) hsort hsub fun h hh hd => ?_
  exact hahead h hh (by omega)

section
variable (a : MultiEnded α) (w : Walk α)

abbrev WritesInPool : Prop :=
  ∀ e loc, a.inflightForward = some (e, loc) → ∀ t ∈ loc, t / a.pool.pageSize ≤ a.pool.numPages

/-- The walk has collected the moves `ms` in an allocator `a`. -/
structure WalkInv (ms : List (Move Nat Int)) : Prop where
  alloc : w.alloc = a ∨ w.alloc = { a with inflightForward := none }
  srcs : w.srcs = ms.map src
  dsts : w.dsts = ms.map dst
  names : w.vMoveds = ms.map name
  released : w.releasedFired = []
  consumed : w.nDstConsumed = ms.length
  inner : ms.map dst ++ w.inner = (a.pool.grow.outermostFirst a.freePhysPages).reverse
  limit : 0 ≤ walkLimit a w.cursor ∧ walkLimit a w.cursor ≤ a.top
  bound : ∀ m ∈ ms, a.physicalToVirtual m.src = some m.name ∧ walkLimit a w.cursor ≤ a.pool.depth m.src ∧
    a.pool.depth m.src < a.top
  passed : ∀ q, walkLimit a w.cursor ≤ a.pool.depth q → a.pool.depth q < a.top →
    q ∈ a.freePhysPages ∨ q ∈ a.pendingReusePagesCpu ∨ q ∈ ms.map src
  srcs_nodup : (ms.map src).Nodup
  cross : ∀ m ∈ ms, ∀ m' ∈ ms, a.pool.depth m.dst < a.pool.depth m'.src

structure WalkAhead : Prop where
  sorted : w.outer.Pairwise fun p q => a.pool.depth q < a.pool.depth p
  sub : ∀ h ∈ w.outer, h ∈ a.freePhysPages
  ahead : ∀ h ∈ a.freePhysPages, a.pool.depth h < walkLimit a w.cursor → h ∈ w.outer

/-- The pages in use that the walk has not moved all lie deeper than the holes it has not filled. -/
def WalkPacked : Prop :=
  ∀ q, 0 ≤ a.pool.depth q → a.pool.depth q < walkLimit a w.cursor → q ∉ a.freePhysPages →
    q ∉ a.pendingReusePagesCpu → ∀ h ∈ w.inner, a.pool.depth q < a.pool.depth h
end

namespace WalkInv
variable {w : Walk α} {ms : List (Move Nat Int)}

variable (h : WalkInv a w ms) {v : Nat}
include h

lemma pool_eq : w.alloc.pool = a.pool := by
  rcases h.alloc with e | e <;> rw [e]

lemma topmost_eq : w.alloc.topmostSurvivor w.cursor w.outer = a.topmostSurvivor w.cursor w.outer := by
  rcases h.alloc with e | e
  · rw [e]
  · rw [e]
    rfl

lemma name_eq : w.alloc.physicalToVirtual = a.physicalToVirtual := by
  rcases h.alloc with e | e <;> rw [e]

lemma withOuter (outer : List Int) : WalkInv a { w with outer := outer } ms :=
  { h with }

lemma withWriteSet (writeSet : Option (List Int)) {b : MultiEnded α}
    (hb : b = a ∨ b = { a with inflightForward := none }) :
    WalkInv a { w with writeSet := writeSet, alloc := b } ms :=
  { h with alloc := hb }

lemma materialize (hin : a.WritesInPool) (done : Event → Bool) :
    ∃ writeSet b, w.materialize done = .ok { w with writeSet := some writeSet, alloc := b } ∧
      (b = a ∨ b = { a with inflightForward := none }) ∧ (∀ ws, w.writeSet = some ws → writeSet = ws) := by
  unfold Walk.materialize
  split
  next ws hw => exact ⟨ws, w.alloc, by rw [← hw], h.alloc, fun _ e => Option.some.inj (hw.symm.trans e)⟩
  next hw =>
    rw [hw]
    have hnone : ∀ b : MultiEnded α, b.inflightForward = none →
        b.materializeInflightWriteSet done = .ok (none, b) := fun b hb => by
      rw [materializeInflightWriteSet, hb]
    rcases h.alloc with e | e
    swap
    · rw [e, hnone _ rfl]
      exact ⟨[], _, rfl, .inr rfl, nofun⟩
    rw [e]
    rcases hf : a.inflightForward with _ | p
    · rw [hnone a hf]
      exact ⟨[], a, rfl, .inl rfl, nofun⟩
    obtain ⟨ev, loc⟩ := p
    have hr : (loc.any fun t => t / a.pool.pageSize > a.pool.numPages) = false := by
      simpa using hin ev loc hf
    rw [materializeInflightWriteSet, hf]
    simp only [hr, Bool.false_eq_true, if_false]
    by_cases hd : done ev = true
    · rw [if_pos hd]
      exact ⟨[], _, rfl, .inr rfl, nofun⟩
    · rw [if_neg hd]
      exact ⟨_, a, rfl, .inl rfl, nofun⟩

lemma inner_pairwise (hs : a.freePhysPages.Pairwise (· < ·)) :
    (ms.map dst ++ w.inner).Pairwise fun p q => a.pool.depth p < a.pool.depth q := by
  rw [h.inner, pairwise_reverse]
  exact outermostFirst_pairwise hs

lemma mem_inner {p : Int} : p ∈ a.freePhysPages ↔ p ∈ ms.map dst ∨ p ∈ w.inner := by
  rw [← mem_append, h.inner, mem_reverse]
  exact (outermostFirst_perm ..).mem_iff.symm

lemma limit_move {src dst : Int} : walkLimit a (w.move src dst v).cursor = a.pool.depth src := by
  change a.pool.depth (w.alloc.pool.grow.inward src 1) + 1 = _
  rw [h.pool_eq, a.pool.depth_inward, sub_add_cancel]

lemma move (hs : a.freePhysPages.Pairwise (· < ·)) {src dst : Int} {rest outer : List Int}
    (ht : Topmost a.pool a.freePhysPages a.pendingReusePagesCpu (walkLimit a w.cursor - 1) (some src) outer)
    (hdst : w.inner = dst :: rest) (hcross : ¬a.pool.grow.Deeper src dst)
    (hv : a.physicalToVirtual src = some v) : WalkInv a (w.move src dst v) (ms ++ [⟨v, src, dst⟩]) := by
  obtain ⟨h0, hle, hnf, hnp, habove⟩ := ht.found src rfl
  have hlimit : walkLimit a (w.move src dst v).cursor = a.pool.depth src := h.limit_move
  have hdf : dst ∈ a.freePhysPages := h.mem_inner.mpr (.inr (hdst ▸ mem_cons_self))
  have hds : a.pool.depth dst < a.pool.depth src := by
    rw [a.pool.deeper_iff] at hcross
    have : a.pool.depth dst ≠ a.pool.depth src := fun e => hnf (a.pool.depth_inj.mp e ▸ hdf)
    omega
  have hfilled : ∀ m ∈ ms, a.pool.depth m.dst < a.pool.depth dst := fun m hm =>
    (pairwise_append.mp (h.inner_pairwise hs)).2.2 m.dst (mem_map.mpr ⟨m, hm, rfl⟩) dst
      (hdst ▸ mem_cons_self)
  have hlt := h.limit
  refine
    { h with
      srcs := by simp [Walk.move, h.srcs], dsts := by simp [Walk.move, h.dsts]
      names := by simp [Walk.move, h.names], consumed := by simp [Walk.move, h.consumed]
      inner := by
        rw [← h.inner, hdst]
        simp [Walk.move, hdst]
      limit := by
        omega
      bound := ?_, passed := ?_, srcs_nodup := ?_, cross := ?_ }
  · intro m hm
    rw [hlimit]
    rcases mem_append.mp hm with hm | hm
    · obtain ⟨hb, hl, htop⟩ := h.bound m hm
      exact ⟨hb, by omega, htop⟩
    grind
  · intro q hq htop
    rw [map_append, mem_append]
    by_cases hql : walkLimit a w.cursor ≤ a.pool.depth q
    · have := h.passed q hql htop
      tauto
    by_cases hqs : q = src
    · exact .inr (.inr (.inr (by simp [hqs])))
    · have hne : a.pool.depth q ≠ a.pool.depth src := mt a.pool.depth_inj.mp hqs
      have := habove q (by omega) (by omega)
      tauto
  · rw [map_append]
    refine nodup_append'.mpr ⟨h.srcs_nodup, nodup_singleton _, fun p hp hq => ?_⟩
    obtain ⟨m, hm, rfl⟩ := mem_map.mp hp
    have he : m.src = src := by simpa using hq
    have := (h.bound m hm).2.1
    rw [he] at this
    omega
  intro m hm m' hm'
  rcases mem_append.mp hm with hm | hm <;> rcases mem_append.mp hm' with hm' | hm'
  · exact h.cross m hm m' hm'
  · grind
  · rw [mem_singleton.mp hm]
    have := (h.bound m' hm').2.1
    simp only
    omega
  grind
end WalkInv

/-- One round: the walk goes on with one more move, or it stops. -/
structure Rounded (a : MultiEnded α) (urgent : Bool) (cap : Option Int) (w : Walk α) (goOn : Bool)
    (w' : Walk α) (ms' : List (Move Nat Int)) : Prop where
  inv : WalkInv a w' ms'
  event : w'.latestEvent = w.latestEvent
  moves : w'.nMoves = w.nMoves
  writeSet : w.writeSet = some [] → w'.writeSet = some []
  goes : goOn = true → WalkAhead a w' ∧ w'.inner.length + 1 = w.inner.length
  stops : goOn = false → urgent = true → cap = none → WalkPacked a w'

section
variable {w : Walk α} {ms : List (Move Nat Int)} {src dst : Int} {rest : List Int}

variable (hb : a.BandInv [])
include hb

lemma BandInv.bound_of_used (h0 : 0 ≤ a.pool.depth src)
    (htop : a.pool.depth src < a.top) (hnf : src ∉ a.freePhysPages)
    (hnp : src ∉ a.pendingReusePagesCpu) : ∃ v, a.physicalToVirtual src = some v := by
  refine Option.ne_none_iff_exists'.mp fun hn => ?_
  have := (hb.mem_holes src).mpr ⟨inBand_iff.mpr ⟨h0, htop⟩, hn⟩
  rw [nil_append, holes, mem_append, ← hb.mem_cpu] at this
  tauto

variable (hs : a.freePhysPages.Pairwise (· < ·))
include hs

lemma moveOrStop_spec (urgent : Bool)
    (cap : Option Int) (h : WalkInv a w ms) (hi : w.inner = dst :: rest)
    (ht : Topmost a.pool a.freePhysPages a.pendingReusePagesCpu (walkLimit a w.cursor - 1) (some src)
      w.outer) :
    ∃ goOn w' ms', w.moveOrStop cap src dst = .ok (goOn, w') ∧ Rounded a urgent cap w goOn w' ms' := by
  obtain ⟨h0, hle, hnf, hnp, habove⟩ := ht.found src rfl
  have hlimit := h.limit
  obtain ⟨v, hv⟩ := hb.bound_of_used h0 (by omega) hnf hnp
  rw [Walk.moveOrStop, h.pool_eq, h.name_eq, hv]
  by_cases hd : a.pool.grow.Deeper src dst
  · rw [if_pos hd]
    refine ⟨false, w, ms, rfl, h, rfl, rfl, id, nofun, fun _ _ _ q hq0 hq hqf hqp x hx => ?_⟩
    -- the page lies at most as far out as the survivor, the hole at least as far out as the next one
    have hqs : a.pool.depth q ≤ a.pool.depth src := by
      grind
    have hdx : a.pool.depth dst ≤ a.pool.depth x := by
      have hsort := (pairwise_append.mp (h.inner_pairwise hs)).2.1
      rw [hi] at hsort hx
      rcases mem_cons.mp hx with rfl | hx
      · exact le_rfl
      · exact ((pairwise_cons.mp hsort).1 x hx).le
    rw [a.pool.deeper_iff] at hd
    omega
  rw [if_neg hd]
  have hmove := h.move hs ht hi hd hv
  refine ⟨_, w.move src dst v, _, rfl, hmove, rfl, rfl, id, fun _ => ⟨?_, ?_⟩, ?_⟩
  · refine ⟨ht.sorted, ht.sub, fun q hq hlt => ht.ahead src rfl q hq ?_⟩
    rw [h.limit_move] at hlt
    exact hlt.le
  · simp [Walk.move, hi]
  · rintro hgo - rfl
    simp at hgo

variable (hin : a.WritesInPool) (urgent : Bool) (cap : Option Int) (done : Event → Bool)
include hin

lemma consider_spec (h : WalkInv a w ms)
    (hi : w.inner = dst :: rest) (hu : urgent = true → w.writeSet = some [])
    (ht : Topmost a.pool a.freePhysPages a.pendingReusePagesCpu (walkLimit a w.cursor - 1) (some src)
      w.outer) : ∃ goOn w' ms', w.consider urgent cap done src dst = .ok (goOn, w') ∧
      Rounded a urgent cap w goOn w' ms' := by
  obtain ⟨ws, b, hm, hbeq, hws⟩ := h.materialize hin done
  have h1 := h.withWriteSet (some ws) hbeq
  have hset : w.writeSet = some [] → (some ws : Option (List Int)) = some [] := fun e => by rw [hws [] e]
  rw [Walk.consider, hm]
  change ∃ goOn w' ms', (if src ∈ ws then _ else _) = _ ∧ _
  by_cases hrace : src ∈ ws
  · rw [if_pos hrace]
    cases urgent with
    | true =>
      grind
    | false => exact ⟨false, _, ms, rfl, h1, rfl, rfl, hset, nofun, nofun⟩
  · rw [if_neg hrace]
    obtain ⟨goOn, w', ms', e, hr⟩ := moveOrStop_spec hb hs urgent cap h1 hi ht
    exact ⟨goOn, w', ms', e, { hr with writeSet := fun hw => hr.writeSet (hset hw) }⟩

lemma step_spec (h : WalkInv a w ms) (ho : WalkAhead a w)
    (hu : urgent = true → w.inner = [] ∨ w.writeSet = some []) :
    ∃ goOn w' ms', w.step urgent cap done = .ok (goOn, w') ∧ Rounded a urgent cap w goOn w' ms' := by
  have ht := topmostSurvivor_spec h.limit ho.sorted ho.sub ho.ahead
  rw [← h.topmost_eq] at ht
  unfold Walk.step
  split
  next hi =>
    rw [head?_eq_none_iff] at hi
    refine ⟨false, w, ms, rfl, h, rfl, rfl, id, nofun, fun _ _ _ q _ _ _ _ x hx => ?_⟩
    rw [hi] at hx
    cases hx
  next dst hi =>
    obtain ⟨rest, hi⟩ := head?_eq_some_iff.mp hi
    generalize w.alloc.topmostSurvivor w.cursor w.outer = t at ht
    obtain ⟨src?, outer⟩ := t
    have h1 := h.withOuter outer
    rcases src? with _ | src
    · refine ⟨false, _, ms, rfl, h1, rfl, rfl, id, nofun, fun _ _ _ q h0 hq hnf hnp => ?_⟩
      have := ht.absent rfl q h0 (Int.le_sub_one_of_lt hq)
      exact absurd this (by tauto)
    have hu' : urgent = true → w.writeSet = some [] := fun he =>
      (hu he).resolve_left (by rw [hi]; exact cons_ne_nil _ _)
    obtain ⟨goOn, w', ms', e, hr⟩ := consider_spec hb hs hin urgent cap done h1 hi hu' ht
    exact ⟨goOn, w', ms', e, { hr with }⟩

lemma walkLoop_spec (hcap : urgent = true → cap = none)
    (fuel : Nat) (w : Walk α) (ms : List (Move Nat Int)) (h : WalkInv a w ms) (ho : WalkAhead a w)
    (hfuel : w.inner.length < fuel) (hu : urgent = true → w.inner = [] ∨ w.writeSet = some []) :
    ∃ w' ms', walkLoop urgent cap done fuel w = .ok w' ∧ WalkInv a w' ms' ∧
      w'.latestEvent = w.latestEvent ∧ w'.nMoves = w.nMoves ∧ (urgent = true → WalkPacked a w') := by
  -- a round that goes on fills a hole
  induction fuel generalizing w ms with
  | zero => exact absurd hfuel (Nat.not_lt_zero _)
  | succ fuel ih => ?_
  obtain ⟨goOn, w₁, ms₁, e, hr⟩ := step_spec hb hs hin urgent cap done h ho hu
  rw [walkLoop, e]
  rcases goOn with _ | _
  · exact ⟨w₁, ms₁, rfl, hr.inv, hr.event, hr.moves, fun he => hr.stops rfl he (hcap he)⟩
  obtain ⟨ho1, hlen⟩ := hr.goes rfl
  have hu1 : urgent = true → w₁.inner = [] ∨ w₁.writeSet = some [] := fun he =>
    (hu he).imp (fun hn => by rw [hn] at hlen; simp at hlen) hr.writeSet
  obtain ⟨w', ms', e', hw, hev, hmv, hp⟩ := ih w₁ ms₁ hr.inv ho1 (by omega) hu1
  exact ⟨w', ms', e', hw, hev.trans hr.event, hmv.trans hr.moves, hp⟩
end

/-! ## Making the moves -/

section
variable {ms : List (Move Nat Int)} {rest : List Int}

/-- The allocator when pages have been copied and bound anew. -/
def moved (a : MultiEnded α) (ms : List (Move Nat Int)) : MultiEnded α :=
  { a with
    data := moveData a.data (ms.map src) (ms.map dst)
    virtualToPhysical := movedPlace a.virtualToPhysical ms
    physicalToVirtual := movedName a.physicalToVirtual ms }

lemma BandInv.move (h : a.BandInv []) (hm : Relocation a.virtualToPhysical a.physicalToVirtual ms)
    (hsrc : ∀ p ∈ ms.map src, a.InBand p) (hperm : (ms.map dst ++ rest).Perm a.freePhysPages)
    (hs : rest.Sublist a.freePhysPages) :
    { a.moved ms with freePhysPages := rest : MultiEnded α }.BandInv (ms.map src) := by
  obtain ⟨hno', hold⟩ := h.free_split hperm
  have hused : ∀ p ∈ ms.map src, a.physicalToVirtual p ≠ none := by
    intro p hp
    obtain ⟨m, hmem, rfl⟩ := mem_map.mp hp
    rw [(h.inverse m.name m.src).mp (hm.at_src m hmem)]
    exact Option.some_ne_none _
  have hplace : ∀ v p, movedPlace a.virtualToPhysical ms v = some p → ∃ q, a.virtualToPhysical v = some q :=
    fun v p hv => Option.ne_none_iff_exists'.mp
      ((hm.movedPlace_ne_none v).mp (by rw [hv]; exact Option.some_ne_none p))
  exact
    { h with
      inverse := hm.inverse h.inverse
      sink := by
        refine (Relocation.movedPlace_other fun h0 => ?_).trans h.sink
        obtain ⟨m, hmem, e⟩ := mem_map.mp h0
        have hat := hm.at_src m hmem
        rw [e, h.sink] at hat
        have := (h.inBand_pos (hsrc m.src (mem_map.mpr ⟨m, hmem, rfl⟩))).1
        have := Option.some.inj hat
        omega
      virtual_le := fun v p hv => by
        obtain ⟨q, hq⟩ := hplace v p hv
        exact h.virtual_le v q hq
      nodup := by
        refine nodup_append'.mpr ⟨hm.srcs_nodup, (nodup_append'.mp hno').2.1, fun p hp hq => ?_⟩
        have hq' : p ∈ rest ++ a.pendingPages := hq
        grind
      mem_holes := fun p => by
        change p ∈ ms.map src ++ (rest ++ a.pendingPages) ↔
          a.InBand p ∧ movedName a.physicalToVirtual ms p = none
        rw [hm.movedName_eq_none h.inverse, mem_append, mem_append]
        have hp := hold p
        grind
      live_inBand := fun v p hv0 hv => by
        by_cases hname : v ∈ ms.map name
        · obtain ⟨m, hmem, rfl⟩ := mem_map.mp hname
          have hv' : some m.dst = some p := (hm.movedPlace_name hmem).symm.trans hv
          have hd : p ∈ ms.map dst := mem_map.mpr ⟨m, hmem, Option.some.inj hv'⟩
          exact ((hold p).mp (.inl (.inl hd))).1
        · exact h.live_inBand v p hv0 ((Relocation.movedPlace_other hname).symm.trans hv)
      sorted := fun hsort => (h.sorted hsort).sublist hs
      eager := h.eager_sublist hs }

variable {event : Event}

lemma setPending_of_fresh {pages : List Int} {es : List (Event × List Int)}
    (h : event ∉ es.map fst) : setPending event pages es = es ++ [(event, pages)] := by
  induction es with
  | nil => rfl
  | cons e es ih =>
    rw [map_cons, mem_cons, not_or] at h
    rw [setPending, if_neg (Ne.symm h.1), ih h.2, cons_append]

lemma BandInv.pend {ps : List Int} (h : a.BandInv ps) (hl : a.pool.lazyCompaction = true)
    (hfresh : event ∉ a.pendingReuse.map fst) :
    { a with
      pendingReuse := setPending event ps a.pendingReuse
      pendingReusePagesCpu := a.pendingReusePagesCpu ++ ps : MultiEnded α }.BandInv [] := by
  have hpages : (setPending event ps a.pendingReuse).flatMap snd = a.pendingPages ++ ps := by
    rw [setPending_of_fresh hfresh, flatMap_append]
    simp [pendingPages]
  have hperm : (a.freePhysPages ++ (setPending event ps a.pendingReuse).flatMap snd).Perm
      (ps ++ a.holes) := by
    rw [hpages, ← append_assoc]
    exact perm_append_comm
  exact
    { h with
      nodup := hperm.nodup_iff.mpr h.nodup
      mem_holes := fun p => hperm.mem_iff.trans (h.mem_holes p)
      keys_nodup := by
        rw [setPending_of_fresh hfresh, map_append]
        exact nodup_append'.mpr
          ⟨h.keys_nodup, nodup_singleton _, fun e he hs => hfresh (by
            rwa [mem_singleton.mp hs] at he)⟩
      mem_cpu := fun p => by
        change p ∈ a.pendingReusePagesCpu ++ ps ↔ p ∈ (setPending event ps a.pendingReuse).flatMap snd
        rw [hpages, mem_append, mem_append, h.mem_cpu]
      eager := fun he => absurd (hl.symm.trans he) (by simp) }

structure Flushed (a a' : MultiEnded α) : Prop where
  conserved : a'.Conserved
  kept : Kept a a' [] []
  top : a'.top ≤ a.top
  event : a'.latestForwardDoneEvent = a.latestForwardDoneEvent

lemma Flushed.trans {a'' : MultiEnded α} (h : Flushed a a') (h' : Flushed a' a'') : Flushed a a'' :=
  ⟨h'.conserved, h.kept.trans h'.kept, h'.top.trans h.top, h'.event.trans h.event⟩

lemma Conserved.flushed (h : a.Conserved) (hm : Relocation a.virtualToPhysical a.physicalToVirtual ms)
    (hb : a'.BandInv []) (htop : a'.top ≤ a.top) (hnum : a'.liveNumber = a.liveNumber)
    (hp : a'.pool = a.pool) (hg : a'.isNotInFreeGroup = a.isNotInFreeGroup)
    (hi : a'.freeVirtualIds = a.freeVirtualIds) (hf : a'.inflightForward = a.inflightForward)
    (he : a'.latestForwardDoneEvent = a.latestForwardDoneEvent)
    (hc : a'.livePageCount = a.livePageCount)
    (hv : a'.virtualToPhysical = movedPlace a.virtualToPhysical ms)
    (hd : a'.data = moveData a.data (ms.map src) (ms.map dst)) : Flushed a a' := by
  have hlive : ∀ v, a'.virtualToPhysical v ≠ none ↔ a.virtualToPhysical v ≠ none := fun v => by
    rw [hv]
    exact hm.movedPlace_ne_none v
  refine ⟨⟨hb, fun ho => ?_, fun hl => ?_, ?_⟩, ⟨hp, hg, fun v => ?_, fun v _ _ => ?_⟩, htop, he⟩
  · exact (h.ids (hp ▸ ho)).congr hp hi (fun v => (hlive v).mp) hnum
  · rw [hc, hnum]
    exact h.count (hp ▸ hl)
  · rw [hf, hp]
    exact h.inflight
  · simp [hlive]
  · rw [hv, hd, moveData, map_map, zip_map']
    exact hm.readAt_eq h.band.inverse a.data v

lemma Conserved.nodup_free (h : a.Conserved) : a.freePhysPages.Nodup := by
  have := h.band.nodup
  rw [nil_append, holes] at this
  exact (nodup_append'.mp this).1

/-- The moves that a walk has collected can be made at once. -/
structure Collected (a : MultiEnded α) (ms : List (Move Nat Int)) (rest : List Int) : Prop where
  moves : Relocation a.virtualToPhysical a.physicalToVirtual ms
  srcs : ∀ p ∈ ms.map src, a.InBand p
  perm : (ms.map dst ++ rest).Perm a.freePhysPages
  sub : rest.Sublist a.freePhysPages

variable (h : Collected a ms rest)
include h

lemma Collected.length : rest.length + ms.length = a.freePhysPages.length := by
  have := h.perm.length_eq
  grind

variable (hc : a.Conserved) (hl : a.pool.lazyCompaction = true)
include hc hl

lemma Collected.released {free : List Int} (hfree : free.Perm (rest ++ ms.map src))
    (hs : a.pool.sortFreeListAfterMerge = true → free.Pairwise (· ≤ ·)) :
    Flushed a { a.moved ms with freePhysPages := free } := by
  refine hc.flushed h.moves ((hc.band.move h.moves h.srcs h.perm h.sub).merge hl hfree hs a.livePageCount)
    le_rfl ?_ rfl rfl rfl rfl rfl rfl rfl rfl
  have hlen := hfree.length_eq
  have := h.length
  rw [length_append, length_map] at hlen
  change a.top - ((free ++ a.pendingPages).length : Int) = a.top - (a.freePhysPages ++ a.pendingPages).length
  rw [length_append, length_append]
  omega

lemma Collected.pended (hfresh : event ∉ a.pendingReuse.map fst) :
    Flushed a { a.moved ms with
      freePhysPages := rest
      pendingReuse := setPending event (ms.map src) a.pendingReuse
      pendingReusePagesCpu := a.pendingReusePagesCpu ++ ms.map src } := by
  refine hc.flushed h.moves ((hc.band.move h.moves h.srcs h.perm h.sub).pend hl hfresh) le_rfl ?_
    rfl rfl rfl rfl rfl rfl rfl rfl
  have := h.length
  change a.top - ((rest ++ (setPending event (ms.map src) a.pendingReuse).flatMap snd).length : Int) =
    a.top - (a.freePhysPages ++ a.pendingPages).length
  rw [setPending_of_fresh hfresh, flatMap_append, length_append, length_append, length_append]
  simp only [pendingPages, flatMap_cons, flatMap_nil, append_nil, length_map]
  omega

lemma Collected.packed
    (hpack : ∀ q, 0 ≤ a.pool.depth q → a.pool.depth q < a.top → q ∉ rest → q ∉ ms.map src →
      ∀ p, p ∈ rest ∨ p ∈ ms.map src → a.pool.depth q < a.pool.depth p) :
    Flushed a { a.moved ms with
      watermarkPhysical := a.pool.grow.inward a.watermarkPhysical a.freePhysPages.length
      freePhysPages := [] } := by
  set free := a.mergedHoles (rest ++ ms.map src) with hfree
  have hperm : free.Perm (rest ++ ms.map src) := mergedHoles_perm _
  have hlen : free.length = a.freePhysPages.length := by
    rw [hperm.length_eq, length_append, length_map, h.length]
  have hrel := h.released hc hl hperm (mergedHoles_sorted _)
  set b : MultiEnded α := { a.moved ms with freePhysPages := free } with hb
  have hmem : ∀ p, p ∈ free ↔ p ∈ rest ∨ p ∈ ms.map src := fun p => by
    rw [hperm.mem_iff, mem_append]
  have hin : ∀ p ∈ free, 0 ≤ a.pool.depth p ∧ a.pool.depth p < a.top := fun p hp => by
    have : p ∈ b.holes := mem_append_left _ hp
    exact inBand_iff.mp ((hrel.conserved.band.mem_holes p).mp this).1
  have hdepth : Packed a.top (free.map a.pool.depth) := by
    refine ⟨hrel.conserved.nodup_free.map fun p q e => a.pool.depth_inj.mp e, ?_, ?_⟩
    · intro d hd
      obtain ⟨p, hp, rfl⟩ := mem_map.mp hd
      exact hin p hp
    intro x hx hxt hxn d hd
    obtain ⟨p, hp, rfl⟩ := mem_map.mp hd
    obtain ⟨q, rfl⟩ := a.pool.depth_surjective x
    have hqf : q ∉ free := fun hqf => hxn (mem_map.mpr ⟨q, hqf, rfl⟩)
    rw [hmem, not_or] at hqf
    exact hpack q hx hxt hqf.1 hqf.2 p ((hmem p).mp hp)
  have hgone : ∀ p, p ∈ free ↔ b.top - free.length ≤ b.pool.depth p ∧ b.pool.depth p < b.top := by
    intro p
    change p ∈ free ↔ a.top - free.length ≤ a.pool.depth p ∧ a.pool.depth p < a.top
    have h0 := length_le_of_mem_Ico hdepth.nodup hdepth.mem_band
    rw [length_map] at h0
    constructor
    · intro hp
      have := hdepth.le_hole (mem_map.mpr ⟨p, hp, rfl⟩)
      rw [length_map] at this
      exact ⟨this, (hin p hp).2⟩
    rintro ⟨hlo, hhi⟩
    by_contra hp
    have hp' : a.pool.depth p ∉ free.map a.pool.depth := fun hd => by
      obtain ⟨q, hq, e⟩ := mem_map.mp hd
      exact hp (a.pool.depth_inj.mp e ▸ hq)
    have := hdepth.used_lt (by omega) hhi hp'
    rw [length_map] at this
    omega
  have h0 : 0 ≤ b.top - free.length := by
    have h0 := length_le_of_mem_Ico hdepth.nodup hdepth.mem_band
    have htn := hc.band.top_nonneg
    rw [length_map] at h0
    change 0 ≤ a.top - free.length
    omega
  have hret := hrel.conserved.band.retreat free [] (by simp [hb]) (nil_sublist _) hgone h0
  have htop : (b.lowered free.length []).top = b.top - free.length := top_lowered (a := b) free.length []
  have hsame : ({ a.moved ms with
      watermarkPhysical := a.pool.grow.inward a.watermarkPhysical a.freePhysPages.length
      freePhysPages := [] } : MultiEnded α) = b.lowered free.length [] := by
    rw [hlen]
    rfl
  rw [hsame]
  refine hc.flushed h.moves hret ?_ ?_ rfl rfl rfl rfl rfl rfl rfl rfl
  · rw [htop]
    change a.top - _ ≤ a.top
    omega
  rw [liveNumber, htop]
  change a.top - free.length - (([] ++ a.pendingPages).length : Int) =
    a.top - (a.freePhysPages ++ a.pendingPages).length
  rw [nil_append, length_append, ← hlen]
  omega
end

/-! ## The whole flush -/

variable {w : Walk α} {ms : List (Move Nat Int)}

section
variable (h : WalkInv a w ms)
include h

lemma WalkInv.self : WalkInv w.alloc w ms := by
  rcases h.alloc with e | e
  · exact e ▸ h
  · rw [e]
    exact { h with alloc := .inl e }

lemma WalkInv.inner_perm : w.inner.Perm (a.pool.grow.dropInner w.nDstConsumed a.freePhysPages) := by
  have hinner : w.inner = (a.pool.grow.outermostFirst
      (a.pool.grow.dropInner w.nDstConsumed a.freePhysPages)).reverse := by
    rw [outermostFirst_dropInner, ← h.inner, h.consumed, ← length_map (f := dst), drop_left]
  rw [hinner]
  exact (reverse_perm _).trans (outermostFirst_perm ..)

lemma WalkInv.collected (hb : a.BandInv []) (hs : a.freePhysPages.Pairwise (· < ·)) :
    Collected a ms (a.pool.grow.dropInner w.nDstConsumed a.freePhysPages) := by
  have hall : (ms.map dst ++ w.inner).Perm a.freePhysPages := by
    rw [h.inner]
    exact (reverse_perm _).trans (outermostFirst_perm ..)
  refine ⟨⟨fun m hm => ?_, fun m hm => ?_, h.srcs_nodup, ?_⟩, fun p hp => ?_, ?_, dropInner_sublist ..⟩
  · exact (hb.inverse m.name m.src).mpr (h.bound m hm).1
  · have hf : m.dst ∈ a.freePhysPages := h.mem_inner.mpr (.inl (mem_map.mpr ⟨m, hm, rfl⟩))
    have hh : m.dst ∈ a.holes := mem_append_left _ hf
    exact ((hb.mem_holes m.dst).mp hh).2
  · exact ((pairwise_append.mp (h.inner_pairwise hs)).1).imp fun hlt e => by
      rw [e] at hlt
      exact lt_irrefl _ hlt
  · obtain ⟨m, hm, rfl⟩ := mem_map.mp hp
    obtain ⟨-, hlo, hhi⟩ := h.bound m hm
    exact inBand_iff.mpr ⟨h.limit.1.trans hlo, hhi⟩
  · exact (h.inner_perm.symm.append_left _).trans hall

lemma WalkInv.packed (hs : a.freePhysPages.Pairwise (· < ·))
    (hp : WalkPacked a w) (hpend : a.pendingReusePagesCpu = []) (q : Int) (h0 : 0 ≤ a.pool.depth q)
    (htop : a.pool.depth q < a.top) (hqi : q ∉ w.inner) (hqs : q ∉ ms.map src) (p : Int)
    (hpp : p ∈ w.inner ∨ p ∈ ms.map src) : a.pool.depth q < a.pool.depth p := by
  by_cases hqf : q ∈ a.freePhysPages
  · -- it has been moved to
    have hqd := (h.mem_inner.mp hqf).resolve_right hqi
    rcases hpp with hpi | hps
    · exact (pairwise_append.mp (h.inner_pairwise hs)).2.2 q hqd p hpi
    · obtain ⟨m, hm, rfl⟩ := mem_map.mp hqd
      obtain ⟨m', hm', rfl⟩ := mem_map.mp hps
      exact h.cross m hm m' hm'
  -- the walk has not met it
  have hnp : q ∉ a.pendingReusePagesCpu := by
    rw [hpend]
    exact not_mem_nil
  have hlt : a.pool.depth q < walkLimit a w.cursor := by
    by_contra hle
    have := h.passed q (by omega) htop
    tauto
  rcases hpp with hpi | hps
  · exact hp q h0 hlt hqf hnp p hpi
  · obtain ⟨m, hm, rfl⟩ := mem_map.mp hps
    exact hlt.trans_le (h.bound m hm).2.1
end

lemma commitMoveBatch_eq (hms : ms ≠ []) (event : Option Event) (done : Event → Bool) :
    a.commitMoveBatch (ms.map src) (ms.map dst) (ms.map name) event done =
      match event with
      | none => (a.moved ms, [ms.map src])
      | some e =>
        if done e then (a.moved ms, [ms.map src])
        else ({ a.moved ms with
          pendingReuse := setPending e (ms.map src) a.pendingReuse
          pendingReusePagesCpu := a.pendingReusePagesCpu ++ ms.map src }, []) := by
  have hne : (ms.map src).isEmpty = false := by simpa using hms
  simp only [commitMoveBatch, hne, Bool.false_eq_true, if_false, moved, movedPlace, movedName, map_map,
    zip_map']
  rfl

lemma moved_nil : a.moved [] = a := rfl

section
variable (h : WalkInv w.alloc w ms)
include h

lemma commit_released (done : Event → Bool)
    (he : ∀ e, w.latestEvent = some e → done e = false → ms = []) :
    (w.commit done).alloc = w.alloc.moved ms ∧ (w.commit done).releasedFired.flatten = ms.map src := by
  unfold Walk.commit
  rw [h.srcs, h.dsts, h.names, h.released]
  by_cases hms : ms = []
  · subst hms
    exact ⟨moved_nil.symm, rfl⟩
  rw [commitMoveBatch_eq hms]
  rcases hev : w.latestEvent with _ | e
  · simp
  have hd : done e = true := by
    by_contra hd
    exact hms (he e hev (by simpa using hd))
  simp [hd]

lemma commit_pended (hms : ms ≠ []) {done : Event → Bool} {e : Event}
    (hev : w.latestEvent = some e) (he : done e = false) :
    (w.commit done).alloc = { w.alloc.moved ms with
        pendingReuse := setPending e (ms.map src) w.alloc.pendingReuse
        pendingReusePagesCpu := w.alloc.pendingReusePagesCpu ++ ms.map src } ∧
      (w.commit done).releasedFired.flatten = [] := by
  unfold Walk.commit
  rw [h.srcs, h.dsts, h.names, h.released, hev, commitMoveBatch_eq hms]
  simp [he]

variable (hc : w.alloc.Conserved) (hl : w.alloc.pool.lazyCompaction = true)
  (hs : w.alloc.freePhysPages.Pairwise (· < ·))
include hc hl hs

lemma exit_spec {done : Event → Bool} (n : Nat)
    (hfresh : ∀ e, w.latestEvent = some e → done e = false → e ∉ w.alloc.pendingReuse.map fst) :
    Flushed w.alloc ((w.commit done).exit false n) := by
  have hcol := h.collected hc.band hs
  by_cases hwait : ∃ e, w.latestEvent = some e ∧ done e = false ∧ ms ≠ []
  · obtain ⟨e, hev, he, hms⟩ := hwait
    obtain ⟨halloc, hrel⟩ := commit_pended h hms hev he
    have := hcol.pended hc hl (hfresh e hev he)
    simp only [Walk.exit, Bool.false_eq_true, if_false, halloc, hrel, isEmpty_nil, if_true]
    exact this
  obtain ⟨halloc, hrel⟩ := commit_released h done fun e hev he => by
    by_contra hms
    exact hwait ⟨e, hev, he, hms⟩
  rw [Walk.exit, if_neg Bool.false_ne_true, halloc, hrel]
  refine hcol.released hc hl ?_ fun hsort => ?_
  · by_cases hms : (ms.map src).isEmpty = true
    · rw [if_pos hms, isEmpty_iff.mp hms, append_nil]
      exact .refl _
    · rw [if_neg hms]
      exact mergedHoles_perm _
  by_cases hms : (ms.map src).isEmpty = true
  · rw [if_pos hms]
    exact (hc.band.sorted hsort).sublist (dropInner_sublist ..)
  · rw [if_neg hms]
    exact mergedHoles_sorted _ hsort

lemma exit_urgent_spec (hp : WalkPacked w.alloc w) (hpend : w.alloc.pendingReuse = [])
    (hev : w.latestEvent = none) (done : Event → Bool) :
    Flushed w.alloc ((w.commit done).exit true w.alloc.freePhysPages.length) := by
  obtain ⟨halloc, -⟩ := commit_released h done fun e he => by
    rw [hev] at he
    cases he
  have hcpu : w.alloc.pendingReusePagesCpu = [] := by
    refine eq_nil_iff_forall_not_mem.mpr fun p hp => ?_
    rw [hc.band.mem_cpu, pendingPages, hpend] at hp
    exact not_mem_nil hp
  have hcol := h.collected hc.band hs
  rw [Walk.exit, if_pos rfl, halloc]
  refine hcol.packed hc hl fun q h0 htop hqr hqs p hpp => ?_
  rw [← h.inner_perm.mem_iff] at hqr hpp
  exact h.packed hs hp hcpu q h0 htop hqr hqs p hpp
end

structure Prepared (a : MultiEnded α) (urgent : Bool) (b : MultiEnded α) : Prop where
  flushed : Flushed a b
  sorted : b.freePhysPages.Pairwise (· < ·)
  keys : ∀ e, e ∈ b.pendingReuse.map fst → e ∈ a.pendingReuse.map fst
  urgent : urgent = true → b.pendingReuse = []

lemma moves_nil : Relocation a.virtualToPhysical a.physicalToVirtual [] :=
  { at_src := by simp, unused := by simp, srcs_nodup := nodup_nil, dsts_nodup := nodup_nil }

section
variable (h : a.Conserved)
include h

lemma Conserved.reordered (hl : a.pool.lazyCompaction = true) {free : List Int}
    (hfree : free.Perm a.freePhysPages)
    (hs : a.pool.sortFreeListAfterMerge = true → free.Pairwise (· ≤ ·)) :
    Flushed a { a with freePhysPages := free } := by
  refine h.flushed moves_nil (h.band.merge hl (by rwa [append_nil]) hs a.livePageCount) le_rfl ?_
    rfl rfl rfl rfl rfl rfl rfl rfl
  change a.top - ((free ++ a.pendingPages).length : Int) = a.top - (a.freePhysPages ++ a.pendingPages).length
  rw [length_append, length_append, hfree.length_eq]

lemma Conserved.settled : Flushed a { a with inflightForward := none } :=
  { conserved :=
      { band := { h.band with }
        ids := fun ho => (h.ids ho).congr rfl rfl (fun _ => id) rfl
        count := h.count
        inflight := nofun }
    kept := .of_tables rfl rfl rfl rfl
    top := le_rfl
    event := rfl }

lemma Conserved.flushed_refl : Flushed a a := ⟨h, .refl a, le_rfl, rfl⟩

lemma prepareFlush_spec (hl : a.pool.lazyCompaction = true) (urgent : Bool)
    (done : Event → Bool) : Prepared a urgent (a.prepareFlush urgent done) := by
  have hd := drainPendingReuse_spec h hl urgent done
  unfold prepareFlush
  generalize a.drainPendingReuse urgent done = b at hd
  have hlb : b.pool.lazyCompaction = true := by rw [hd.kept.pool, hl]
  have hperm : (if b.pool.sortFreeListAfterMerge then b.freePhysPages
      else b.freePhysPages.insertionSort (· ≤ ·)).Perm b.freePhysPages := by
    split
    · exact .refl _
    · exact perm_insertionSort _ _
  have hle : (if b.pool.sortFreeListAfterMerge then b.freePhysPages
      else b.freePhysPages.insertionSort (· ≤ ·)).Pairwise (· ≤ ·) := by
    split
    next hs => exact hd.conserved.band.sorted hs
    next => exact pairwise_insertionSort _ _
  simp only
  generalize (if b.pool.sortFreeListAfterMerge then b.freePhysPages
      else b.freePhysPages.insertionSort (· ≤ ·)) = free at hperm hle
  have hr := hd.conserved.reordered hlb hperm fun _ => hle
  have hlt : free.Pairwise (· < ·) :=
    (hle.and (hperm.nodup_iff.mpr hd.conserved.nodup_free)).imp fun hp => lt_of_le_of_ne hp.1 hp.2
  obtain ⟨hb, htop, hnum, hsub⟩ := absorbBoundaryHoles_spec hr.conserved.band
  have ha := hr.conserved.flushed moves_nil hb htop hnum rfl rfl rfl rfl rfl rfl rfl rfl
  have hdrain : Flushed a b := ⟨hd.conserved, hd.kept, hd.top.le, hd.event⟩
  exact ⟨(hdrain.trans hr).trans ha, hlt.sublist hsub, hd.keys, hd.urgent⟩
end

lemma walkInv_start (h : a.BandInv []) (writeSet : Option (List Int)) (event : Option Event) :
    WalkInv a
      { alloc := a
        outer := a.pool.grow.outermostFirst a.freePhysPages
        inner := (a.pool.grow.outermostFirst a.freePhysPages).reverse
        writeSet := writeSet
        latestEvent := event } [] :=
  { alloc := .inl rfl, srcs := rfl, dsts := rfl, names := rfl, released := rfl, consumed := rfl
    inner := rfl
    limit := ⟨h.top_nonneg, le_rfl⟩
    bound := by simp
    passed := fun q hq htop => absurd hq (not_le.mpr htop)
    srcs_nodup := nodup_nil
    cross := by simp }

lemma flush_spec (h : a.Conserved) (hl : a.pool.lazyCompaction = true) (urgent : Bool)
    (done : Event → Bool)
    (hfresh : urgent = false → ∀ e, a.latestForwardDoneEvent = some e → done e = false →
      e ∉ a.pendingReuse.map fst) : ∃ n a', a.flush urgent done = .ok (n, a') ∧ Flushed a a' := by
  have hp := prepareFlush_spec h hl urgent done
  rw [flush, if_neg (by simp [hl])]
  generalize a.prepareFlush urgent done = b at hp
  simp only
  set single := urgent && !b.freePhysPages.isEmpty with hsingle
  set c := if single then b.settleInflightForward else b with hc
  have hbc : Flushed b c ∧ c.freePhysPages = b.freePhysPages ∧ c.pendingReuse = b.pendingReuse := by
    rw [hc]
    unfold settleInflightForward
    split_ifs
    · exact ⟨hp.flushed.conserved.settled, rfl, rfl⟩
    iterate 2 exact ⟨hp.flushed.conserved.flushed_refl, rfl, rfl⟩
  obtain ⟨hfl, hfree, hpend⟩ := hbc
  have hac := hp.flushed.trans hfl
  have hs : c.freePhysPages.Pairwise (· < ·) := hfree ▸ hp.sorted
  rw [← hfree]
  have hstart := walkInv_start hac.conserved.band (if single then some [] else none)
    (if single then none else c.latestForwardDoneEvent)
  have hahead : WalkAhead c
      { alloc := c
        outer := c.pool.grow.outermostFirst c.freePhysPages
        inner := (c.pool.grow.outermostFirst c.freePhysPages).reverse
        writeSet := if single then some [] else none
        latestEvent := if single then none else c.latestForwardDoneEvent } :=
    { sorted := outermostFirst_pairwise hs
      sub := fun q hq => (outermostFirst_perm ..).mem_iff.mp hq
      ahead := fun q hq _ => (outermostFirst_perm ..).mem_iff.mpr hq }
  have hlen : ((c.pool.grow.outermostFirst c.freePhysPages).reverse).length < c.freePhysPages.length + 2 := by
    rw [length_reverse, (outermostFirst_perm ..).length_eq]
    omega
  have hno : single = false → urgent = true → c.freePhysPages = [] := fun hf hu => by
    grind
  have hrace : urgent = true → (c.pool.grow.outermostFirst c.freePhysPages).reverse = [] ∨
      (if single then some [] else none : Option (List Int)) = some [] := fun hu => by
    by_cases hsg : single = true
    · exact .inr (if_pos hsg)
    · refine .inl (length_eq_zero_iff.mp ?_)
      rw [length_reverse, (outermostFirst_perm ..).length_eq, hno (by simpa using hsg) hu, length_nil]
  obtain ⟨w, ms, e, hw, hev, -, hpack⟩ := walkLoop_spec hac.conserved.band hs hac.conserved.inflight urgent
    (if urgent then none else some c.pool.lazyMaxMovesPerCall) done (fun hu => if_pos hu)
    (c.freePhysPages.length + 2) _ [] hstart hahead hlen hrace
  rw [e]
  refine ⟨_, _, rfl, ?_⟩
  have hcw : Flushed c w.alloc ∧ w.alloc.freePhysPages = c.freePhysPages ∧
      w.alloc.pendingReuse = c.pendingReuse ∧ (WalkPacked c w → WalkPacked w.alloc w) := by
    rcases hw.alloc with e | e <;> rw [e]
    · exact ⟨hac.conserved.flushed_refl, rfl, rfl, id⟩
    · exact ⟨hac.conserved.settled, rfl, rfl, id⟩
  obtain ⟨hflw, hfreew, hpendw, hpackw⟩ := hcw
  have haw := hac.trans hflw
  have hlw : w.alloc.pool.lazyCompaction = true := by rw [haw.kept.pool, hl]
  have hsw : w.alloc.freePhysPages.Pairwise (· < ·) := hfreew ▸ hs
  refine haw.trans ?_
  by_cases hsg : single = true
  · have hu : urgent = true := by
      rw [hsingle, Bool.and_eq_true] at hsg
      exact hsg.1
    rw [← hfreew, hsg]
    refine exit_urgent_spec hw.self haw.conserved hlw hsw (hpackw (hpack hu)) ?_ ?_ done
    · rw [hpendw, hpend, hp.urgent hu]
    · rw [hev]
      exact if_pos hsg
  rw [Bool.not_eq_true] at hsg
  rw [hsg]
  refine exit_spec hw.self haw.conserved hlw hsw _ fun ev hlast hnd => ?_
  rw [hpendw, hpend]
  cases urgent with
  | true =>
    rw [hp.urgent rfl]
    exact not_mem_nil
  | false =>
    rw [hev, hsg, if_neg Bool.false_ne_true, hac.event] at hlast
    exact fun hk => hfresh rfl ev hlast hnd (hp.keys ev hk)
end MultiEnded
end Sglang.Unified
