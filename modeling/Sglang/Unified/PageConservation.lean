import Sglang.Lib.Run
import Sglang.Unified.Flush

/-!
# No page is lost

Two `MultiEndedAllocator`s in lazy mode share a buffer, as the other's peer if they are bound.
-/

namespace Sglang.Unified
open List

namespace MultiEnded
section
variable {α : Type} {a a' : MultiEnded α} {peer : Option (MultiEnded α)} {done : Event → Bool}

/-! ## Flushing the peer -/

lemma flush_urgent_spec (h : a.Conserved) (done : Event → Bool) :
    ∃ n a', a.flush true done = .ok (n, a') ∧ Flushed a a' := by
  by_cases hl : a.pool.lazyCompaction = true
  · exact flush_spec h hl true done nofun
  · refine ⟨0, a, ?_, h.flushed_refl⟩
    rw [flush, if_pos (by simpa using hl)]

variable (hp : ∀ q, peer = some q → q.Conserved)
include hp

lemma flushed_rel_refl : Option.Rel Flushed peer peer := by
  cases peer with
  | none => exact .none
  | some q => exact .some (hp q rfl).flushed_refl

lemma roomWithPeer_spec (need : Nat) (done : Event → Bool) :
    ∃ room peer', a.roomWithPeer peer need done = .ok (room, peer') ∧ Option.Rel Flushed peer peer' ∧
      (room = true → (need : Int) ≤ a.availableSize peer') := by
  unfold roomWithPeer
  by_cases hroom : (need : Int) ≤ a.availableSize peer
  · rw [if_pos hroom]
    exact ⟨true, peer, rfl, flushed_rel_refl hp, fun _ => hroom⟩
  rw [if_neg hroom]
  rcases a.pool.lazyCompaction with _ | _
  · exact ⟨false, peer, rfl, flushed_rel_refl hp, nofun⟩
  rcases peer with _ | q
  · exact ⟨false, none, rfl, .none, nofun⟩
  obtain ⟨n, q', e, hf⟩ := flush_urgent_spec (hp q rfl) done
  simp only [e]
  exact ⟨_, some q', rfl, .some hf, fun hr => by simpa using hr⟩

omit hp

/-! ## Room -/

variable {n : Nat} {vs : List Nat}

lemma le_of_le_availableSize (h : a.BandInv [])
    (hn : ((n * a.pool.pageSize : Nat) : Int) ≤ a.availableSize peer) :
    (n : Int) ≤ a.pool.capacity - a.top + a.freePhysPages.length := by
  have hpos : (0 : Int) < a.pool.pageSize := by exact_mod_cast a.pool.pageSize_pos
  have hal : a.allocatedPages = a.top := by
    have := h.top_nonneg
    unfold top SubPool.depth at this
    unfold allocatedPages top SubPool.depth
    grind
  push_cast at hn
  have hle := le_of_mul_le_mul_right hn hpos
  have hmin := min_le_right (a.currentGapBytes peer / a.pool.entryBytesPerPage)
    ((a.pool.numPages : Int) - a.pool.minPageIndex - a.allocatedPages)
  unfold SubPool.capacity
  omega

lemma Conserved.ids_suffice (h : a.Conserved) (ho : a.pool.isIdOwner = true)
    (hn : (n : Int) ≤ a.pool.capacity - a.top + a.freePhysPages.length) :
    n ≤ a.freeVirtualIds.length := by
  have hl := (h.ids ho).length
  rw [liveNumber, holes, length_append] at hl
  omega

/-! ## Virtual pages for new physical pages -/

/-- What an allocation does that binds the virtual pages `vs`. -/
structure Allotted (a : MultiEnded α) (vs : List Nat) (a' : MultiEnded α) : Prop where
  conserved : a'.Conserved
  kept : Kept a a' [] vs

lemma Grown.kept (hg : Grown a vs a') (hfresh : ∀ v ∈ vs, a.virtualToPhysical v = none) :
    Kept a a' [] vs :=
  { pool := hg.pool
    group := hg.group.1
    live := fun v => by
      by_cases hv : v ∈ vs
      · exact iff_of_true (hg.new v hv) (.inl hv)
      · rw [hg.other v hv]
        simp [hv]
    reads := fun v hlive _ => by
      have hv : v ∉ vs := fun hv => hlive (hfresh v hv)
      rw [readAt, hg.other v hv, hg.data, readAt] }

lemma Grown.allotted (h : a.Conserved) (ho : a.pool.isIdOwner = false)
    (hfresh : ∀ v ∈ vs, a.virtualToPhysical v = none) (hg : Grown a vs a') : Allotted a vs a' := by
  refine ⟨⟨hg.band, fun ho' => ?_, fun hl => ?_, ?_⟩, hg.kept hfresh⟩
  · rw [hg.pool, ho] at ho'
    cases ho'
  · rw [hg.pool] at hl
    rw [hg.count hl, hg.liveNumber, h.count hl]
  · rw [hg.inflight, hg.pool]
    exact h.inflight

lemma Grown.allotted_owner (ids : List Nat) (h : a.Conserved) (ho : a.pool.isIdOwner = true)
    (hn : n ≤ a.freeVirtualIds.length)
    (hg : Grown { a with freeVirtualIds := ids } (a.freeVirtualIds.take n) a') :
    Allotted a (a.freeVirtualIds.take n) { a' with freeVirtualIds := a.freeVirtualIds.drop n } := by
  have hids := h.ids ho
  have hfresh : ∀ v ∈ a.freeVirtualIds.take n, a.virtualToPhysical v = none := fun v hv =>
    (hids.unbound v (mem_of_mem_take hv)).2
  have hk := hg.kept hfresh
  have hlen : (a.freeVirtualIds.take n).length = n := length_take_of_le hn
  have hnum : a'.liveNumber = a.liveNumber + n := by
    have := hg.liveNumber
    rw [hlen] at this
    exact this
  refine ⟨⟨{ hg.band with }, fun _ => ⟨?_, fun v hv => ?_, ?_⟩, fun hl => ?_, ?_⟩,
    ⟨hk.pool, hk.group, hk.live, hk.reads⟩⟩
  · exact hids.nodup.sublist (drop_sublist ..)
  · have hv' : v ∉ a.freeVirtualIds.take n := fun ht =>
      (disjoint_take_drop hids.nodup le_rfl) ht hv
    obtain ⟨hle, hnone⟩ := hids.unbound v (mem_of_mem_drop hv)
    refine ⟨hk.pool ▸ hle, ?_⟩
    exact (hg.other v hv').trans hnone
  · have hl := hids.length
    change ((a.freeVirtualIds.drop n).length : Int) = a'.pool.capacity - a'.liveNumber
    rw [length_drop, hnum, hg.pool]
    change _ = a.pool.capacity - _
    omega
  · have hl' : a.pool.lazyCompaction = true := hk.pool ▸ hl
    have hc := hg.count hl'
    change a'.livePageCount = a'.liveNumber
    rw [hc, hnum, hlen]
    rw [h.count hl']
  · rw [hg.inflight]
    rw [hk.pool]
    exact h.inflight

/-- What an allocation comes to: nothing but a flush of the peer, or the virtual pages `vs` are bound. -/
def Served (a : MultiEnded α) (peer : Option (MultiEnded α)) (vs : List Nat) (a' : MultiEnded α)
    (peer' : Option (MultiEnded α)) : Prop :=
  Option.Rel Flushed peer peer' ∧ (a' = a ∨ Allotted a vs a')

lemma take_fresh (h : a.Conserved) (ho : a.pool.isIdOwner = true) (n : Nat) :
    (a.freeVirtualIds.take n).Nodup ∧
      ∀ v ∈ a.freeVirtualIds.take n, v ≤ a.pool.numPages ∧ a.virtualToPhysical v = none :=
  ⟨(h.ids ho).nodup.sublist (take_sublist ..), fun v hv => (h.ids ho).unbound v (mem_of_mem_take hv)⟩

lemma alloc_spec (h : a.Conserved) (hp : ∀ q, peer = some q → q.Conserved)
    (ho : a.pool.isIdOwner = true) (needSize : Nat) (done : Event → Bool)
    (hal : needSize % a.pool.pageSize = 0) :
    ∃ r, a.alloc peer needSize done = .ok r ∧ ∃ vs, Served a peer vs r.self r.peer := by
  rw [alloc, if_neg (by simp [ho])]
  by_cases h0 : needSize = 0
  · rw [if_pos h0]
    exact ⟨_, rfl, [], flushed_rel_refl hp, .inl rfl⟩
  rw [if_neg h0, if_neg (not_not.mpr hal)]
  obtain ⟨room, peer', e, hrel, hroom⟩ := roomWithPeer_spec (a := a) hp needSize done
  rw [e]
  rcases room with _ | _
  · exact ⟨_, rfl, [], hrel, .inl rfl⟩
  have hmul : needSize / a.pool.pageSize * a.pool.pageSize = needSize :=
    Nat.div_mul_cancel (Nat.dvd_of_mod_eq_zero hal)
  have hn := h.ids_suffice ho (le_of_le_availableSize h.band (by rw [hmul]; exact hroom rfl))
  set n := needSize / a.pool.pageSize
  obtain ⟨hvs, hfresh⟩ := take_fresh h ho n
  have hb := allocBindFastOrSlow_spec peer'
    (a := { a with freeVirtualIds := a.freeVirtualIds.drop n })
    { h.band with } hvs hfresh
  rw [length_take_of_le hn] at hb
  rcases hb with ⟨-, -, hb⟩ | ⟨a', hb, hg⟩
  · refine ⟨⟨none, a, peer'⟩, ?_, [], hrel, .inl rfl⟩
    simp [Bind.bind, Except.bind, Pure.pure, Except.pure, hb]
  have hsame : ({ a' with freeVirtualIds := a.freeVirtualIds.drop n } : MultiEnded α) = a' := by
    have := hg.ids
    cases a'
    simp only at this
    rw [this]
  have hall := Grown.allotted_owner _ h ho hn hg
  rw [hsame] at hall
  refine ⟨⟨some (a'.tokensOf (a.freeVirtualIds.take n)), a', peer'⟩, ?_, _, hrel, .inr hall⟩
  simp [Bind.bind, Except.bind, Pure.pure, Except.pure, hb]

lemma allocPaged_spec {β : Type} (h : a.Conserved) (hp : ∀ q, peer = some q → q.Conserved)
    (ho : a.pool.isIdOwner = true) (n : Nat) (kernel : List Nat → β) (done : Event → Bool) :
    ∃ r, a.allocPaged peer n kernel done = .ok r ∧ ∃ vs, Served a peer vs r.self r.peer := by
  rw [allocPaged, if_neg (by simp [ho])]
  by_cases hn : n > a.freeVirtualIds.length
  · rw [if_pos hn]
    exact ⟨_, rfl, [], flushed_rel_refl hp, .inl rfl⟩
  rw [if_neg hn]
  obtain ⟨room, peer', e, hrel, -⟩ := roomWithPeer_spec (a := a) hp (n * a.pool.pageSize) done
  rw [e]
  rcases room with _ | _
  · exact ⟨_, rfl, [], hrel, .inl rfl⟩
  obtain ⟨hvs, hfresh⟩ := take_fresh h ho n
  have hb := allocBindFastOrSlow_spec peer' h.band hvs hfresh
  rw [length_take_of_le (not_lt.mp hn)] at hb
  rcases hb with ⟨-, -, hb⟩ | ⟨a', hb, hg⟩
  · refine ⟨⟨none, a, peer'⟩, ?_, [], hrel, .inl rfl⟩
    simp [Bind.bind, Except.bind, Pure.pure, Except.pure, hb]
  have hall := Grown.allotted_owner a.freeVirtualIds h ho (not_lt.mp hn) hg
  have hids : a'.freeVirtualIds = a.freeVirtualIds := hg.ids
  rw [← hids] at hall
  refine ⟨⟨some (kernel a.freeVirtualIds), _, peer'⟩, ?_, _, hrel, .inr hall⟩
  simp [Bind.bind, Except.bind, Pure.pure, Except.pure, hb]

structure LegalVirtual (a : MultiEnded α) (vs : List Nat) : Prop where
  notOwner : a.pool.isIdOwner = false
  nodup : vs.Nodup
  unbound : ∀ v ∈ vs, v ≤ a.pool.numPages ∧ a.virtualToPhysical v = none

lemma allocWithVirtual_spec (peer : Option (MultiEnded α)) (h : a.Conserved) (hv : a.LegalVirtual vs) :
    a.allocWithVirtual peer vs = .error .outOfRoom ∨
      ∃ a', a.allocWithVirtual peer vs = .ok a' ∧ Allotted a vs a' := by
  unfold allocWithVirtual
  have hfresh := fun v hm => (hv.unbound v hm).2
  by_cases hne : vs.isEmpty = true
  · obtain rfl := isEmpty_iff.mp hne
    exact .inr ⟨a, rfl, h, .refl a⟩
  rw [if_neg hne]
  rcases allocBindFastOrSlow_spec peer h.band hv.nodup hv.unbound with ⟨-, -, hb⟩ | ⟨a', hb, hg⟩
  · rw [hb]
    exact .inl rfl
  · rw [hb]
    exact .inr ⟨a', rfl, hg.allotted h hv.notOwner hfresh⟩
end

variable {α : Type} {a a' : MultiEnded α}

/-- A virtual page that is bound, other than the padding page. -/
def Live (a : MultiEnded α) (v : Nat) : Prop := v ≠ 0 ∧ a.virtualToPhysical v ≠ none

/-- A physical page that is bound, other than the padding page. -/
def LivePhysical (a : MultiEnded α) (p : Int) : Prop := ∃ v, a.Live v ∧ a.virtualToPhysical v = some p

structure PagesConserved (a : MultiEnded α) : Prop where
  /-- The two tables are inverse. -/
  inverse : ∀ v p, a.virtualToPhysical v = some p ↔ a.physicalToVirtual p = some v
  /-- The band below the watermark holds the live pages, the holes and the pending pages … -/
  band : ∀ p, a.InBand p ↔ a.LivePhysical p ∨ p ∈ a.freePhysPages ∨ p ∈ a.pendingPages
  /-- … each page once. -/
  disjoint : (a.freePhysPages ++ a.pendingPages).Nodup ∧
    ∀ p, a.LivePhysical p → p ∉ a.freePhysPages ∧ p ∉ a.pendingPages
  /-- `live_page_count` is the number of live pages. -/
  count : a.livePageCount = ({ v | a.Live v } : Set Nat).ncard
  /-- No live page lies outside the watermark. -/
  inside : ∀ p, a.LivePhysical p → a.InBand p

/-! ## What the invariant says -/

section
variable (h : a.BandInv [])
include h

lemma BandInv.livePhysical_iff (p : Int) :
    a.LivePhysical p ↔ a.InBand p ∧ a.physicalToVirtual p ≠ none := by
  constructor
  · rintro ⟨v, hv, e⟩
    refine ⟨h.live_inBand v p hv.1 e, ?_⟩
    rw [(h.inverse v p).mp e]
    exact Option.some_ne_none v
  rintro ⟨hp, hn⟩
  obtain ⟨v, hv⟩ := Option.ne_none_iff_exists'.mp hn
  have e := (h.inverse v p).mpr hv
  refine ⟨v, ⟨?_, by rw [e]; exact Option.some_ne_none p⟩, e⟩
  rintro rfl
  rw [h.sink] at e
  have := (h.inBand_pos hp).1
  have := Option.some.inj e
  omega

lemma BandInv.ncard_live : (({ v | a.Live v } : Set Nat).ncard : Int) = a.liveNumber := by
  -- the band has as many pages as the watermark is deep
  have hband : ({ p | a.InBand p } : Set Int).ncard = a.top.toNat := by
    have himage : a.pool.depth '' { p | a.InBand p } = ↑(Finset.Ico (0 : Int) a.top) := by
      rw [Finset.coe_Ico, ← Set.image_preimage_eq (Set.Ico 0 a.top) a.pool.depth_surjective]
      exact congrArg _ (Set.ext fun p => inBand_iff)
    rw [← Set.ncard_image_of_injective _ fun p q e => a.pool.depth_inj.mp e, himage, Set.ncard_coe_finset,
      Int.card_Ico, sub_zero]
  have hfin : ({ p | a.InBand p } : Set Int).Finite := by
    refine Set.Finite.subset (Set.finite_Ioo 0 (a.pool.numPages : Int)) fun p hp => ?_
    exact h.inBand_pos hp
  have hno := h.nodup
  rw [nil_append] at hno
  have hholes : ({ p | p ∈ a.holes } : Set Int).ncard = a.holes.length := by
    rw [← toFinset_card_of_nodup hno, ← Set.ncard_coe_finset]
    congr 1
    simp
  have hsub : ({ p | p ∈ a.holes } : Set Int) ⊆ { p | a.InBand p } := fun p hp =>
    ((h.mem_holes p).mp hp).1
  have hphys : ({ p | a.LivePhysical p } : Set Int) = { p | a.InBand p } \ { p | p ∈ a.holes } := by
    ext p
    have := h.mem_holes p
    rw [Set.mem_sdiff, Set.mem_ofPred_eq, Set.mem_ofPred_eq, Set.mem_ofPred_eq, h.livePhysical_iff]
    tauto
  have hlive : ({ v | a.Live v } : Set Nat).ncard = ({ p | a.LivePhysical p } : Set Int).ncard := by
    refine Set.ncard_congr (fun v _ => (a.virtualToPhysical v).getD (-1)) ?_ ?_ ?_
    · exact fun v hv => ⟨v, hv, getD_of_live hv.2⟩
    · intro v w hv hw e
      have hpv := (h.inverse _ _).mp (getD_of_live hv.2)
      have hpw := (h.inverse _ _).mp (getD_of_live hw.2)
      grind
    · rintro p ⟨v, hv, e⟩
      exact ⟨v, hv, by rw [e, Option.getD_some]⟩
  have hle := Set.ncard_le_ncard hsub hfin
  have htop := h.top_nonneg
  rw [hlive, hphys, Set.ncard_sdiff hsub (hfin.subset hsub), hband, hholes, liveNumber]
  omega
end

lemma Conserved.pagesConserved (h : a.Conserved) (hl : a.pool.lazyCompaction = true) :
    a.PagesConserved := by
  have hmem : ∀ p, p ∈ a.freePhysPages ∨ p ∈ a.pendingPages ↔ a.InBand p ∧ a.physicalToVirtual p = none :=
    fun p => by
      rw [← mem_append]
      exact h.band.mem_holes p
  refine ⟨h.band.inverse, fun p => ?_, ⟨h.band.nodup, fun p hp => ?_⟩, ?_, fun p hp => ?_⟩
  · have := hmem p
    rw [h.band.livePhysical_iff]
    tauto
  · have := hmem p
    rw [h.band.livePhysical_iff] at hp
    tauto
  · rw [h.band.ncard_live, h.count hl]
  · exact ((h.band.livePhysical_iff p).mp hp).1
end MultiEnded

/-! ## Calls -/

inductive Op
  | alloc (needSize : Nat)
  | allocExtend (reqs : List ExtendReq)
  | allocDecode (reqs : List ExtendReq)
  | allocWithVirtual (virtualPages : List Nat)
  | free (freeIndex : List Nat)
  | freeGroupBegin
  | freeGroupEnd
  | setLatestForwardDoneEvent (event : Option Event)
  | setInflightForward (forwardDone : Event) (outCacheLoc : Option (List Nat))
  | flushOpportunistic
  | flushUrgent
  | maybeDrainPendingReuse

namespace MultiEnded
variable {α : Type} {a a' : MultiEnded α} {peer peer' : Option (MultiEnded α)} {done : Event → Bool}

section
variable (a : MultiEnded α)

def runOp (peer : Option (MultiEnded α)) (done : Event → Bool) :
    Op → Except Err (MultiEnded α × Option (MultiEnded α))
  | .alloc needSize => (a.alloc peer needSize done).map fun r => (r.self, r.peer)
  | .allocExtend reqs => (a.allocExtend peer reqs done).map fun r => (r.self, r.peer)
  | .allocDecode reqs => (a.allocDecode peer reqs done).map fun r => (r.self, r.peer)
  | .allocWithVirtual vs => (a.allocWithVirtual peer vs).map fun a => (a, peer)
  | .free idx => (a.free idx).map fun a => (a, peer)
  | .freeGroupBegin => .ok (a.freeGroupBegin, peer)
  | .freeGroupEnd => a.freeGroupEnd.map fun a => (a, peer)
  | .setLatestForwardDoneEvent event => .ok (a.setLatestForwardDoneEvent event, peer)
  | .setInflightForward event loc => .ok (a.setInflightForward event loc, peer)
  | .flushOpportunistic => (a.flushOpportunistic done).map fun r => (r.2, peer)
  | .flushUrgent => (a.flush true done).map fun r => (r.2, peer)
  | .maybeDrainPendingReuse => .ok (a.maybeDrainPendingReuse done, peer)

/-- Tokens are freed once while held, new virtual pages are unused, writes stay in the pool. -/
def LegalOp : Op → Prop
  | .allocWithVirtual vs => a.LegalVirtual vs
  | .free idx => a.isNotInFreeGroup = true → a.LegalFree idx
  | .freeGroupEnd => a.LegalFree a.freeGroup.flatten
  | .setInflightForward _ loc => ∀ t ∈ loc.getD [], t / a.pool.pageSize ≤ a.pool.numPages
  | _ => True

/-- An opportunistic flush meets no entry for its own event. -/
def OwnEntry (done : Event → Bool) : Op → Prop
  | .flushOpportunistic =>
    ∀ e, a.latestForwardDoneEvent = some e → done e = false → e ∉ a.pendingReuse.map Prod.fst
  | _ => True

def freedBy : Op → List Nat
  | .free idx => if a.isNotInFreeGroup then a.freedVirtualPages idx else []
  | .freeGroupEnd => a.freedVirtualPages a.freeGroup.flatten
  | _ => []

/-- The pages that are not freed stay bound and keep their contents. -/
def Preserves (a' : MultiEnded α) (gone : List Nat) : Prop :=
  ∀ v, a.virtualToPhysical v ≠ none → v ∉ gone → a'.virtualToPhysical v ≠ none ∧
    readAt a'.virtualToPhysical a'.data v = readAt a.virtualToPhysical a.data v
end

lemma Preserves.refl (a : MultiEnded α) : Preserves a a [] := fun _ hv _ => ⟨hv, rfl⟩

lemma Kept.preserves {gone new : List Nat} (h : Kept a a' gone new) : Preserves a a' gone :=
  fun v hv hg => ⟨(h.live v).mpr (.inr ⟨hv, hg⟩), h.reads v hv hg⟩

/-- A call that has been made, or that was refused before anything changed. -/
inductive Outcome (a : MultiEnded α) (peer : Option (MultiEnded α)) (gone : List Nat) :
    Except Err (MultiEnded α × Option (MultiEnded α)) → Prop
  | refused (e : Err) : e ∈ [Err.notOwner, .notAligned, .outOfRoom] → Outcome a peer gone (.error e)
  | made {a' : MultiEnded α} {peer' : Option (MultiEnded α)} : a'.Conserved → a'.pool = a.pool →
      Preserves a a' gone → Option.Rel Flushed peer peer' → Outcome a peer gone (.ok (a', peer'))

lemma Outcome.congr {b : MultiEnded α} {gone : List Nat}
    {r : Except Err (MultiEnded α × Option (MultiEnded α))} (h : Outcome b peer gone r)
    (hp : b.pool = a.pool) (hv : b.virtualToPhysical = a.virtualToPhysical) (hd : b.data = a.data) :
    Outcome a peer gone r := by
  rcases h with ⟨e, he⟩ | ⟨hc, hpool, hpres, hrel⟩
  · exact .refused e he
  refine .made hc (hpool.trans hp) (fun v hlive hg => ?_) hrel
  rw [← hv] at hlive ⊢
  rw [← hd]
  exact hpres v hlive hg

lemma Served.outcome {vs : List Nat} (h : a.Conserved) (hs : Served a peer vs a' peer') :
    Outcome a peer [] (.ok (a', peer')) := by
  obtain ⟨hrel, rfl | hall⟩ := hs
  · exact .made h rfl (.refl _) hrel
  · exact .made hall.conserved hall.kept.pool hall.kept.preserves hrel

variable (h : a.Conserved) (hl : a.pool.lazyCompaction = true)
  (hp : ∀ q, peer = some q → q.Conserved)
include h hp

lemma alloc_outcome (needSize : Nat) :
    Outcome a peer [] ((a.alloc peer needSize done).map fun r => (r.self, r.peer)) := by
  by_cases ho : a.pool.isIdOwner = true
  · by_cases hal : needSize % a.pool.pageSize = 0
    · obtain ⟨r, e, vs, hs⟩ := alloc_spec h hp ho needSize done hal
      rw [e]
      exact hs.outcome h
    · have h0 : needSize ≠ 0 := fun h0 => hal (by rw [h0, Nat.zero_mod])
      rw [alloc, if_neg (by simp [ho]), if_neg h0, if_pos hal]
      exact .refused _ (by simp)
  · rw [alloc, if_pos (by simpa using ho)]
    exact .refused _ (by simp)

lemma allocPaged_outcome {β : Type} (n : Nat) (kernel : List Nat → β) :
    Outcome a peer [] ((a.allocPaged peer n kernel done).map fun r => (r.self, r.peer)) := by
  by_cases ho : a.pool.isIdOwner = true
  · obtain ⟨r, e, vs, hs⟩ := allocPaged_spec h hp ho n kernel done
    rw [e]
    exact hs.outcome h
  · rw [allocPaged, if_pos (by simpa using ho)]
    exact .refused _ (by simp)

lemma allocWithVirtual_outcome {vs : List Nat} (hv : a.LegalVirtual vs) :
    Outcome a peer [] ((a.allocWithVirtual peer vs).map fun a => (a, peer)) := by
  rcases allocWithVirtual_spec peer h hv with e | ⟨a', e, hall⟩
  · rw [e]
    exact .refused _ (by simp)
  · rw [e]
    exact .made hall.conserved hall.kept.pool hall.kept.preserves (flushed_rel_refl hp)

lemma set_outcome (gone : List Nat) (inflight : Option (Event × List Nat)) (latest : Option Event)
    (notInGroup : Bool) (group : List (List Nat))
    (hi : ∀ e loc, inflight = some (e, loc) → ∀ t ∈ loc, t / a.pool.pageSize ≤ a.pool.numPages) :
    Outcome a peer gone (.ok
      ({ a with
          inflightForward := inflight
          latestForwardDoneEvent := latest
          isNotInFreeGroup := notInGroup
          freeGroup := group }, peer)) :=
  .made ⟨{ h.band with }, fun ho => (h.ids ho).congr rfl rfl (fun _ => id) rfl, h.count, hi⟩ rfl
    (fun _ hv _ => ⟨hv, rfl⟩) (flushed_rel_refl hp)

include hl

lemma free_outcome (idx : List Nat) (hlegal : a.isNotInFreeGroup = true → a.LegalFree idx) :
    Outcome a peer (a.freedBy (.free idx)) ((a.free idx).map fun a => (a, peer)) := by
  unfold free freedBy
  by_cases he : idx.isEmpty = true
  · rw [if_pos he]
    exact .made h rfl (fun v hv _ => ⟨hv, rfl⟩) (flushed_rel_refl hp)
  rw [if_neg he]
  by_cases hg : a.isNotInFreeGroup = true
  · rw [if_neg (by simp [hg]), if_pos hl]
    obtain ⟨a', e, hf⟩ := freeLazy_spec h hl (hlegal hg)
    rw [e]
    refine .made hf.conserved hf.kept.pool ?_ (flushed_rel_refl hp)
    simp only [hg, if_true]
    exact hf.kept.preserves
  · rw [if_pos (by simpa using hg)]
    exact set_outcome h hp _ _ _ _ _ h.inflight

lemma freeGroupEnd_outcome (hlegal : a.LegalFree a.freeGroup.flatten) :
    Outcome a peer (a.freedBy .freeGroupEnd) (a.freeGroupEnd.map fun a => (a, peer)) := by
  unfold freeGroupEnd
  by_cases he : a.freeGroup.isEmpty = true
  · rw [if_pos he]
    exact set_outcome h hp _ _ _ _ _ h.inflight
  rw [if_neg he]
  -- the tables are those of `a`
  have hc : ({ a with isNotInFreeGroup := true, freeGroup := [] } : MultiEnded α).Conserved :=
    ⟨{ h.band with }, fun ho => (h.ids ho).congr rfl rfl (fun _ => id) rfl, h.count, h.inflight⟩
  have := free_outcome hc hl hp a.freeGroup.flatten fun _ => ⟨hlegal.live, hlegal.nodup⟩
  exact this.congr rfl rfl rfl

lemma flush_outcome (urgent : Bool)
    (hfresh : urgent = false → a.OwnEntry done .flushOpportunistic) :
    Outcome a peer [] ((a.flush urgent done).map fun r => (r.2, peer)) := by
  obtain ⟨n, a', e, hf⟩ := flush_spec h hl urgent done hfresh
  rw [e]
  exact .made hf.conserved hf.kept.pool hf.kept.preserves (flushed_rel_refl hp)

lemma flushOpportunistic_outcome (hfresh : a.OwnEntry done .flushOpportunistic) :
    Outcome a peer [] ((a.flushOpportunistic done).map fun r => (r.2, peer)) := by
  rw [flushOpportunistic, if_neg (by simp [hl])]
  by_cases he : (a.freePhysPages.isEmpty && a.pendingReuse.isEmpty) = true
  · rw [if_pos he]
    exact .made h rfl (.refl a) (flushed_rel_refl hp)
  · rw [if_neg he]
    exact flush_outcome h hl hp false fun _ => hfresh

lemma runOp_outcome {op : Op} (hlegal : a.LegalOp op) (hown : a.OwnEntry done op) :
    Outcome a peer (a.freedBy op) (a.runOp peer done op) := by
  cases op with
  | alloc needSize => exact alloc_outcome h hp needSize
  | allocExtend reqs | allocDecode reqs => exact allocPaged_outcome h hp _ _
  | allocWithVirtual vs => exact allocWithVirtual_outcome h hp hlegal
  | free idx => exact free_outcome h hl hp idx hlegal
  | freeGroupBegin | setLatestForwardDoneEvent event => exact set_outcome h hp _ _ _ _ _ h.inflight
  | freeGroupEnd => exact freeGroupEnd_outcome h hl hp hlegal
  | setInflightForward event loc =>
    simp only [runOp, MultiEnded.setInflightForward, hl, Bool.not_true, Bool.false_eq_true, if_false]
    rcases loc with _ | loc
    · exact set_outcome h hp _ _ _ _ _ (by simp)
    rcases loc with _ | ⟨t, ts⟩
    · exact set_outcome h hp _ _ _ _ _ (by simp)
    refine set_outcome h hp _ (some (event, t :: ts)) _ _ _ fun e loc he => ?_
    obtain ⟨rfl, rfl⟩ := Prod.mk.inj (Option.some.inj he)
    exact hlegal
  | flushOpportunistic => exact flushOpportunistic_outcome h hl hp hown
  | flushUrgent => exact flush_outcome h hl hp true (by simp)
  | maybeDrainPendingReuse =>
    rw [runOp, maybeDrainPendingReuse, if_pos hl]
    have hd := drainPendingReuse_spec h hl false done
    exact .made hd.conserved hd.kept.pool hd.kept.preserves (flushed_rel_refl hp)
end MultiEnded

/-! ## Runs -/

inductive Side
  | first
  | second
  deriving DecidableEq

def Side.other : Side → Side
  | first => second
  | second => first

structure Pair (α : Type) where
  alloc : Side → MultiEnded α
  /-- Whether they are bound as peers. -/
  peered : Bool
  /-- The CUDA events that have fired. -/
  fired : List Event := []

inductive Act
  | call (side : Side) (op : Op)
  | fire (event : Event)

namespace Pair
variable {α : Type}

def start (pool : Side → SubPool) (data : Side → Int → α) (peered : Bool) : Pair α :=
  { alloc := fun side => .init (pool side) (data side), peered := peered }

section
variable (s : Pair α) (side : Side)

def done (e : Event) : Bool := e ∈ s.fired

def peer : Option (MultiEnded α) :=
  if s.peered then some (s.alloc side.other) else none

def put (r : MultiEnded α × Option (MultiEnded α)) : Pair α :=
  { s with alloc := fun i => if i = side then r.1 else r.2.getD (s.alloc i) }

def step : Act → Except Err (Pair α)
  | .call side op => ((s.alloc side).runOp (s.peer side) s.done op).map (s.put side)
  | .fire e => .ok { s with fired := e :: s.fired }

def next (act : Act) : Pair α :=
  match s.step act with
  | .ok s' => s'
  | .error _ => s

def Legal : Act → Prop
  | .call side op => (s.alloc side).LegalOp op
  | .fire _ => True

def OwnEntry (s : Pair α) : Act → Prop
  | .call side op => (s.alloc side).OwnEntry s.done op
  | .fire _ => True

def freedBy (s : Pair α) (side : Side) : Act → List Nat
  | .call i op => if i = side then (s.alloc side).freedBy op else []
  | .fire _ => []

structure Inv : Prop where
  conserved : ∀ side, (s.alloc side).Conserved
  lazy : ∀ side, (s.alloc side).pool.lazyCompaction = true
end

lemma inv_start {pool : Side → SubPool} (hl : ∀ side, (pool side).lazyCompaction = true)
    (data : Side → Int → α) (peered : Bool) : (start pool data peered).Inv :=
  ⟨fun side => MultiEnded.conserved_init (pool side) (data side), hl⟩

lemma Inv.put_other {s : Pair α} (h : s.Inv) {side i : Side} (hi : i ≠ side) (a' : MultiEnded α)
    {peer' : Option (MultiEnded α)} (hrel : Option.Rel MultiEnded.Flushed (s.peer side) peer') :
    MultiEnded.Flushed (s.alloc i) ((s.put side (a', peer')).alloc i) := by
  have hot : side.other = i := by
    cases side <;> cases i <;> first | rfl | exact absurd rfl hi
  have hput : (s.put side (a', peer')).alloc i = peer'.getD (s.alloc i) := if_neg hi
  rw [hput]
  unfold peer at hrel
  split at hrel
  · cases hrel with
    | some hf => exact hot ▸ hf
  · cases hrel with
    | none => exact (h.conserved i).flushed_refl

/-- The invariant stays, unfreed pages keep their contents, and refusals are for arguments or room.
-/
lemma Inv.step {s : Pair α} (h : s.Inv) {act : Act} (hlegal : s.Legal act) (hown : s.OwnEntry act) :
    (s.next act).Inv ∧
      (∀ side, (s.alloc side).Preserves ((s.next act).alloc side) (s.freedBy side act)) ∧
      ∀ e, s.step act = .error e → e ∈ [Err.notOwner, .notAligned, .outOfRoom] := by
  cases act with
  | fire e =>
    exact ⟨⟨h.conserved, h.lazy⟩, fun side v hv _ => ⟨hv, rfl⟩, by simp [Pair.step]⟩
  | call side op => ?_
  have hp : ∀ q, s.peer side = some q → q.Conserved := by
    intro q hq
    rw [peer, Option.ite_none_right_eq_some] at hq
    exact Option.some.inj hq.2 ▸ h.conserved _
  have ho := MultiEnded.runOp_outcome (h.conserved side) (h.lazy side) hp hlegal hown
  have hstep : s.step (.call side op) =
      ((s.alloc side).runOp (s.peer side) s.done op).map (s.put side) := rfl
  unfold next
  rw [hstep]
  generalize (s.alloc side).runOp (s.peer side) s.done op = r at ho
  cases ho with
  | refused e he =>
    refine ⟨h, fun side v hv _ => ⟨hv, rfl⟩, fun e' he' => ?_⟩
    cases he'
    exact he
  | @made a' peer' hc hpool hpres hrel => ?_
  set s' := s.put side (a', peer')
  have hself : s'.alloc side = a' := if_pos rfl
  have hall : ∀ i, (s'.alloc i).Conserved ∧
      (s'.alloc i).pool = (s.alloc i).pool ∧
      (s.alloc i).Preserves (s'.alloc i) (s.freedBy i (.call side op)) := by
    intro i
    by_cases hi : i = side
    · rw [hi, hself, freedBy, if_pos rfl]
      exact ⟨hc, hpool, hpres⟩
    · have hf := h.put_other hi a' hrel
      rw [freedBy, if_neg (Ne.symm hi)]
      exact ⟨hf.conserved, hf.kept.pool, hf.kept.preserves⟩
  refine ⟨⟨fun i => (hall i).1, fun i => ?_⟩, fun i => (hall i).2.2, by simp [Except.map]⟩
  exact (congrArg _ (hall i).2.1).trans (h.lazy i)

structure PagesSafe (s : Pair α) : Prop where
  pages : ∀ side, (s.alloc side).PagesConserved
  contents : ∀ act, s.Legal act → s.OwnEntry act → ∀ side,
    (s.alloc side).Preserves ((s.next act).alloc side) (s.freedBy side act)
  errors : ∀ act, s.Legal act → s.OwnEntry act → ∀ e, s.step act = .error e →
    e ∈ [Err.notOwner, .notAligned, .outOfRoom]

theorem band_pages_conserved (pool : Side → SubPool)
    (hl : ∀ side, (pool side).lazyCompaction = true)
    (data : Side → Int → α) (peered : Bool) {past : List Act} {s : Pair α}
    (hr : Run next (fun s act => s.Legal act ∧ s.OwnEntry act) (start pool data peered) past s) :
    s.PagesSafe := by
  have h : s.Inv := hr.invariant (I := fun _ s => s.Inv) (inv_start hl data peered)
    fun _ _ _ hi hok => (hi.step hok.1 hok.2).1
  exact
    { pages := fun side => (h.conserved side).pagesConserved (h.lazy side)
      contents := fun act hlegal hown => (h.step hlegal hown).2.1
      errors := fun act hlegal hown => (h.step hlegal hown).2.2 }

/-- Pages of one token in a buffer of ten, from both ends. -/
def tenPages (side : Side) : SubPool :=
  { grow := if side = .first then .up else .down, numPages := 10, minPageIndex := 1, entryBytesPerPage := 1
    pageSize := 1, totalBytes := 10, isIdOwner := true, lazyCompaction := true
    minPageIndex_pos := by decide, minPageIndex_le := by decide, entryBytesPerPage_pos := by decide
    pageSize_pos := by decide }

def twoFlushes : List Act :=
  [.call .first (.alloc 6), .call .first (.setLatestForwardDoneEvent (some 7)), .call .first (.free [1]),
    .call .first .flushOpportunistic, .call .first (.free [2]), .call .first .flushOpportunistic]

def beforeFlushes : Pair Nat := start tenPages (fun _ _ => 0) true

lemma twoFlushes_legal : Admitted next (fun s act => s.Legal act) beforeFlushes twoFlushes := by
  refine ⟨trivial, trivial, ?_, trivial, ?_, trivial, trivial⟩
  · exact fun _ => ⟨by decide, by decide⟩
  · exact fun _ => ⟨by decide, by decide⟩

theorem second_flush_loses_pages :
    ∃ past s, Run next (fun s act => s.Legal act) beforeFlushes past s ∧ ¬(s.alloc .first).PagesConserved := by
  refine ⟨_, _, Run.of_admitted twoFlushes .start twoFlushes_legal, fun h => ?_⟩
  have hband : ((twoFlushes.foldl next beforeFlushes).alloc .first).InBand 6 := by decide
  have hname : ((twoFlushes.foldl next beforeFlushes).alloc .first).physicalToVirtual 6 = none := by decide
  have hfree : 6 ∉ ((twoFlushes.foldl next beforeFlushes).alloc .first).freePhysPages := by decide
  have hpend : 6 ∉ ((twoFlushes.foldl next beforeFlushes).alloc .first).pendingPages := by decide
  rcases (h.band 6).mp hband with ⟨v, -, hv⟩ | hf | hp
  · rw [(h.inverse v 6).mp hv] at hname
    cases hname
  · exact hfree hf
  · exact hpend hp

lemma nothing_pending :
    (((twoFlushes.take 3).foldl next beforeFlushes).alloc .first).pendingReuse.map Prod.fst =
    [] := by decide

theorem band_pages_conserved_one_flush :
    Run next (fun s act => s.Legal act ∧ s.OwnEntry act) beforeFlushes ((twoFlushes.take 4).reverse ++ [])
        ((twoFlushes.take 4).foldl next beforeFlushes) ∧
      ((twoFlushes.take 4).foldl next beforeFlushes).PagesSafe := by
  have hr : Run next (fun s act => s.Legal act ∧ s.OwnEntry act) beforeFlushes _ _ :=
    Run.of_admitted (twoFlushes.take 4) .start
    ⟨⟨trivial, trivial⟩, ⟨trivial, trivial⟩, ⟨fun _ => ⟨by decide, by decide⟩, trivial⟩,
      ⟨trivial, fun e _ _ => nothing_pending ▸ not_mem_nil⟩, trivial⟩
  exact ⟨hr, band_pages_conserved tenPages (fun _ => rfl) (fun _ _ => 0) true hr⟩
end Pair
end Sglang.Unified
