import Sglang.Mem.KvPoolRelease

/-!
# Conservation of the KV slots

Any number of requests arrive, look their tokens up and lock what they find, allocate slots for
their extension and for the tokens they decode, hand whole pages over to the tree, are retracted and
start over, and finish; evictions come in between.
-/

namespace Sglang
open List PathTree

inductive KvOp
  | arrive (rid : Nat) (originInputIds : List Nat) (extraKey : Option String)
  | matchAndLock (rid limit : Nat)
  | allocForExtend (pick : Nat → Nat) (batch : List (Nat × Nat))
  | cacheUnfinishedReq (rid : Nat)
  | allocForDecode (pick : Nat → Nat) (batch : List Nat)
  | allocForSpecDecode (pick : Nat → Nat) (batch : List Nat) (reserve : Nat)
  /-- verified draft tokens are committed -/
  | commit (rid n : Nat)
  /-- a token is generated, which may be one of the reasoning -/
  | emit (rid token : Nat) (reasoning : Bool)
  | finishReq (rid : Nat) (isInsert : Bool)
  | releaseReq (pick : Nat → Nat) (rid numTokens : Nat)
  | evict (pick : Nat → Nat) (numTokens : Nat)
  | freeGroupBegin
  | freeGroupEnd

namespace Req
def commit (r : Req) (n : Nat) : Req := { r with kvCommittedLen := r.kvCommittedLen + n }

def emit (r : Req) (token : Nat) (reasoning : Bool) : Req :=
  { r with
    outputIds := r.outputIds ++ [token]
    reasoningTokens := r.reasoningTokens + if reasoning then 1 else 0 }
end Req

namespace KvPool
section
variable (s : KvPool) (rid : Nat)

def modifyReq (f : Req → Req) : Except PoolError KvPool :=
  match s.req? rid with
  | none => .error .noRequest
  | some r => return s.setReq (f r)

def step : KvOp → Except PoolError KvPool
  | .arrive rid originInputIds extraKey =>
    .ok { s with
      reqs := { rid := rid, originInputIds := originInputIds, extraKey := extraKey } :: s.reqs }
  | .matchAndLock rid limit => s.matchAndLock rid limit
  | .allocForExtend pick batch => s.allocForExtend pick batch
  | .cacheUnfinishedReq rid => s.cacheUnfinishedReq rid
  | .allocForDecode pick batch => s.allocForDecode pick batch
  | .allocForSpecDecode pick batch reserve => s.allocForSpecDecode pick batch reserve
  | .commit rid n => s.modifyReq rid fun r => r.commit n
  | .emit rid token reasoning => s.modifyReq rid fun r => r.emit token reasoning
  | .finishReq rid isInsert => s.finishReq rid isInsert
  | .releaseReq pick rid numTokens => s.releaseReq pick rid numTokens
  | .evict pick numTokens => s.evict pick numTokens
  | .freeGroupBegin => .ok { s with alloc := s.alloc.freeGroupBegin }
  | .freeGroupEnd => .ok { s with alloc := s.alloc.freeGroupEnd }

def next (op : KvOp) : KvPool :=
  match s.step op with
  | .ok s' => s'
  | .error _ => s

def Has (P : Req → Prop) : Prop := ∃ r ∈ s.reqs, r.rid = rid ∧ P r

instance (s : KvPool) (rid : Nat) (P : Req → Prop) [DecidablePred P] : Decidable (s.Has rid P) :=
  inferInstanceAs (Decidable (∃ r ∈ s.reqs, _))

/-- What the scheduler sees to: distinct names, one lock before running, extensions past the prefix,
decoding with all slots committed, releases while running. -/
def ok : KvOp → Prop
  | .arrive rid _ _ => ∀ r ∈ s.reqs, r.rid ≠ rid
  | .matchAndLock rid _ => s.Has rid fun r => r.lastNode = none
  | .allocForExtend _ batch => s.Each batch CanExtend
  | .cacheUnfinishedReq rid => s.Has rid fun r => r.row ≠ none
  | .allocForDecode _ batch => s.Each (batch.map fun rid => (rid, 0)) CanDecode
  | .allocForSpecDecode _ batch _ =>
    s.args.speculative = true ∧ s.Each (batch.map fun rid => (rid, 0)) IsRunning
  | .commit rid n => s.args.speculative = true ∧
    s.Has rid fun r => r.row ≠ none ∧ r.kvCommittedLen + n ≤ r.kvAllocatedLen
  | .emit rid _ _ => s.Has rid fun _ => True
  | .finishReq rid _ => s.Has rid fun r => r.row ≠ none ∧ r.kvCommittedLen ≤ r.tokens.length
  | .releaseReq _ rid _ => s.Has rid fun r => r.row ≠ none ∧ r.kvCommittedLen ≤ r.tokens.length
  | .evict _ _ => True
  | .freeGroupBegin => s.alloc.isNotInFreeGroup = true
  | .freeGroupEnd => s.alloc.isNotInFreeGroup = false

instance (s : KvPool) : DecidablePred s.ok := fun op => by
  cases op <;> unfold ok <;> infer_instance

/-- The length that a release of `rid` handles reaches past its protected slots. -/
def Reaching : Prop :=
  ∀ r ∈ s.reqs, r.rid = rid →
    r.cacheProtectedLen ≤ unitCount s.cache.isEagle (r.effectiveKvCommittedLen s.args)
deriving Decidable

def reaches : KvOp → Prop
  | .finishReq rid _ => s.Reaching rid
  | .releaseReq _ rid _ => s.Reaching rid
  | _ => True

instance (s : KvPool) : DecidablePred s.reaches := fun op => by
  cases op <;> unfold reaches <;> infer_instance

def fresh : KvPool :=
  { s with cache := s.cache.reset, alloc := s.alloc.clear, reqs := [] }
end

variable {N : Nat} {s s₀ : KvPool} {r : Req} {rid : Nat} {op : KvOp}
  {args : MemArgs} {c : RadixCache}

lemma Inv.fresh (hp : 0 < s.cache.pageSize) (hps : s.alloc.pageSize = s.cache.pageSize) :
    s.fresh.Inv s.alloc.numPages where
  ledger := .init hp hps
  rids := List.nodup_nil
  reqs _ hr := absurd hr List.not_mem_nil

/-! ## The steps -/

lemma good_commit {n : Nat} (h : r.Good args c)
    (hspec : args.speculative = true) (hn : r.kvCommittedLen + n ≤ r.kvAllocatedLen) :
    (r.commit n).Good args c where
  idle := h.idle
  holding q hq := by
    have := h.holding q hq
    exact ⟨this.protectedLen, this.isPrefix, this.paged, this.slots, this.le⟩
  waiting := h.waiting
  running w hw := by
    have := h.running w hw
    have hw : r.row = some w := hw
    rw [Req.kvAllocatedLen, hw, Option.getD_some] at hn
    refine ⟨this.paged, this.isPrefix, this.protectedLen, this.extendEnd,
      this.committed.trans (Nat.le_add_right ..), hn, fun hplain => ?_⟩
    rw [hspec] at hplain
    cases hplain

lemma cells_emit (r : Req) (token : Nat) (reasoning b : Bool) :
    r.cells b <+: (r.emit token reasoning).cells b := by
  have htok : r.tokens = (r.emit token reasoning).tokens.take r.tokens.length := by
    rw [Req.emit, Req.tokens, Req.tokens, ← List.append_assoc, List.take_left' rfl]
  rw [Req.cells, htok, RadixKey.cells_take_tokens]
  exact List.take_prefix _ _

lemma good_emit (h : r.Good args c) (token : Nat)
    (reasoning : Bool) : (r.emit token reasoning).Good args c where
  idle := h.idle
  holding q hq := by
    have := h.holding q hq
    exact ⟨this.protectedLen, this.isPrefix.trans (cells_emit r token reasoning _), this.paged,
      this.slots, this.le⟩
  waiting := h.waiting
  running w hw := by
    have := h.running w hw
    refine ⟨this.paged, this.isPrefix, this.protectedLen, this.extendEnd.trans ?_, this.committed,
      this.allocated, this.plain⟩
    simp [Req.emit, Req.tokens]

variable (h : s.Inv N)
include h

lemma Inv.arrive (hrid : ∀ r ∈ s.reqs, r.rid ≠ rid) (ids : List Nat)
    (extraKey : Option String) : Kept N s (s.step (.arrive rid ids extraKey)) := by
  have hnew : Req.ownPages s.cache.pageSize
      { rid := rid, originInputIds := ids, extraKey := extraKey } = [] :=
    pageIds_nil h.ledger.inv.wellFormed.pos
  refine ⟨h.replace (c := s.cache) (b := s.alloc) []
    [{ rid := rid, originInputIds := ids, extraKey := extraKey }] (.refl _) (.refl _) ?_ ?_
    (.refl ..) ?_, rfl⟩
  · refine List.nodup_cons.mpr ⟨fun hmem => ?_, h.rids⟩
    obtain ⟨r, hr, he⟩ := List.mem_map.mp hmem
    exact hrid r hr he
  · rw [List.singleton_append, locksOf_cons, pagesOf_cons, hnew]
    exact h.ledger
  refine List.forall_mem_cons.mpr ⟨⟨fun _ => rfl, ?_, ?_, ?_⟩, fun _ hn =>
    absurd hn List.not_mem_nil⟩
  · exact nofun
  · exact nofun
  · exact nofun

lemma Inv.modifyReq {f : Req → Req} (hr : r ∈ s.reqs) (hrid : (f r).rid = r.rid)
    (hnode : (f r).lastNode = r.lastNode)
    (hown : (f r).ownPages s.cache.pageSize = r.ownPages s.cache.pageSize)
    (hgood : (f r).Good s.args s.cache) : Kept N s (s.modifyReq r.rid f) := by
  rw [KvPool.modifyReq, h.req?_eq_some.mpr ⟨hr, rfl⟩]
  exact ⟨h.setReq_self hr hrid hnode hown hgood, rfl⟩

lemma Inv.step (hok : s.ok op) (hreach : s.reaches op) : Kept N s (s.step op) := by
  cases op with
  | arrive rid ids extraKey => exact h.arrive hok ids extraKey
  | matchAndLock rid limit =>
    obtain ⟨r, hr, rfl, hidle⟩ := hok
    exact h.matchAndLock hr hidle limit
  | allocForExtend pick batch => exact h.allocForExtend hok
  | cacheUnfinishedReq rid =>
    obtain ⟨r, hr, rfl, hrow⟩ := hok
    exact h.cacheUnfinishedReq hr hrow
  | allocForDecode pick batch => exact h.allocForDecode hok
  | allocForSpecDecode pick batch reserve => exact h.allocForSpecDecode hok.1 hok.2
  | commit rid n =>
    obtain ⟨hspec, r, hr, rfl, -, hn⟩ := hok
    exact h.modifyReq hr rfl rfl rfl (good_commit (h.reqs r hr) hspec hn)
  | emit rid token reasoning =>
    obtain ⟨r, hr, rfl, -⟩ := hok
    exact h.modifyReq hr rfl rfl rfl (good_emit (h.reqs r hr) token reasoning)
  | finishReq rid isInsert =>
    obtain ⟨r, hr, rfl, hrow, hlen⟩ := hok
    exact h.finishReq hr ⟨hrow, hlen, hreach r hr rfl⟩ isInsert
  | releaseReq pick rid want =>
    obtain ⟨r, hr, rfl, hrow, hlen⟩ := hok
    exact h.releaseReq hr ⟨hrow, hlen, hreach r hr rfl⟩ pick want
  | evict pick want =>
    obtain ⟨c', a', hrun, hled, hs⟩ := evict_ledger h.ledger pick want
    rw [step, hrun]
    exact ⟨h.steady hled hs, rfl⟩
  | freeGroupBegin => exact ⟨h.steady (h.ledger.freeGroupBegin hok) (.refl _ _), rfl⟩
  | freeGroupEnd => exact ⟨h.steady (h.ledger.freeGroupEnd hok) (.refl _ _), rfl⟩

lemma Inv.next (hok : s.ok op) (hreach : s.reaches op) :
    (s.next op).Inv N ∧ (s.next op).args = s.args := by
  have hkept := h.step hok hreach
  rw [KvPool.next]
  cases hstep : s.step op with
  | ok s' => rwa [hstep] at hkept
  | error e => exact ⟨h, rfl⟩

lemma Inv.reaches (hstrip : s.args.stripThinkingCache = false) (hok : s.ok op) : s.reaches op := by
  have hreach : ∀ rid, (s.Has rid fun r => r.row ≠ none ∧ r.kvCommittedLen ≤ r.tokens.length) →
      s.Reaching rid := by
    rintro rid ⟨r, hr, rfl, hrow, -⟩ r' hr' he
    obtain rfl := List.inj_on_of_nodup_map h.rids hr' hr he
    obtain ⟨w, hw⟩ := Option.ne_none_iff_exists'.mp hrow
    have hrun := (h.reqs r' hr').running w hw
    rw [effectiveKvCommittedLen_eq r' hstrip]
    exact hrun.protectedLen.trans (unitCount_mono _ hrun.committed)
  cases op with
  | finishReq rid isInsert => exact hreach rid hok
  | releaseReq pick rid want => exact hreach rid hok
  | _ => trivial

omit h

/-! ## Runs -/

variable {past : List KvOp} {w : List Nat}

lemma inv_of_run {okay : KvPool → KvOp → Prop}
    (hp : 0 < s₀.cache.pageSize) (hps : s₀.alloc.pageSize = s₀.cache.pageSize)
    (himp : ∀ s : KvPool, s.Inv s₀.alloc.numPages → s.args = s₀.args → ∀ op, okay s op →
      s.ok op ∧ s.reaches op)
    (hr : Run next okay s₀.fresh past s) : s.Inv s₀.alloc.numPages ∧ s.args = s₀.args := by
  refine hr.invariant (I := fun _ s => s.Inv s₀.alloc.numPages ∧ s.args = s₀.args)
    ⟨.fresh hp hps, rfl⟩ fun _ s op ⟨hi, hargs⟩ hok => ?_
  obtain ⟨hok, hreach⟩ := himp s hi hargs op hok
  obtain ⟨hi', hargs'⟩ := hi.next hok hreach
  exact ⟨hi', hargs'.trans hargs⟩

include h

lemma Inv.partition : (s.alloc.freed ++ (s.cache.treePages ++
      s.reqs.flatMap (Req.ownPages s.alloc.pageSize))).Perm (List.range' 1 N) := by
  rw [h.ledger.pageSize]
  exact h.ledger.pages

lemma Inv.error (hok : s.ok op) (hreach : s.reaches op) {e : PoolError}
    (he : s.step op = .error e) : ∃ n, e = .outOfMemory n := by
  have hkept := h.step hok hreach
  rwa [he] at hkept

/-- A running request's row is the tree's slots for the tokens it has locked, then its own. -/
lemma Inv.reads (hr : r ∈ s.reqs) (hw : r.row = some w) :
    ∃ q own, r.lastNode = some q ∧ q <+: r.cells s.cache.isEagle ∧ w = s.cache.slots q ++ own ∧
      ∀ x ∈ own, x / s.cache.pageSize ∈ r.ownPages s.cache.pageSize := by
  obtain ⟨v, q, hv, hrun, hq, hhold, -⟩ := h.active hr (by simp [hw])
  cases hw.symm.trans hv
  have hwf := h.ledger.inv.wellFormed
  have hpath := h.ledger.inv.locks.hasPath q (mem_filterMap.mpr ⟨r, hr, hq⟩)
  have hslots : s.cache.slots q = w.take q.length := by
    rw [← hhold.slots, prefix_iff_eq_take.mp hrun.isPrefix, take_take, min_eq_left hhold.le]
  refine ⟨q, w.drop q.length, hq, hhold.isPrefix, by rw [hslots, take_append_drop],
    fun x hx => ?_⟩
  rw [Req.ownPages, hw, hhold.protectedLen]
  exact ((hrun.paged.drop hwf.pos (hwf.dvd_hasPath hpath)).mem_pages hwf.pos).mp
    (mem_map_of_mem hx)

lemma Inv.apart (hr : r ∈ s.reqs) {x : Nat} (hx : x / s.cache.pageSize ∈ r.ownPages s.cache.pageSize) :
    (∀ n ∈ s.cache.nodes, x ∉ n.value) ∧ ∀ r' ∈ s.reqs, r' ≠ r →
      x / s.cache.pageSize ∉ r'.ownPages s.cache.pageSize := by
  obtain ⟨-, hrest, -⟩ := nodup_append.mp (h.split hr).nodup
  obtain ⟨-, hown, htree⟩ := nodup_append.mp hrest
  refine ⟨fun n hn hxn => ?_, fun r' hr' hne hx' => ?_⟩
  · have hpage := ((h.ledger.paged n hn).mem_pages h.ledger.inv.wellFormed.pos).mp
      (mem_map_of_mem hxn)
    exact htree _ (mem_flatMap.mpr ⟨n, hn, hpage⟩) _ (mem_append_left _ hx) rfl
  · have hother : r' ∈ s.others r.rid :=
      Keyed.mem_remove.mpr ⟨hr', fun he => hne (inj_on_of_nodup_map h.rids hr' hr he)⟩
    exact (nodup_append.mp hown).2.2 _ hx _ (mem_flatMap.mpr ⟨r', hother, hx'⟩) rfl

omit h

/-- After any run without stripping each page is exactly one of free, in the tree, or a request's
own; operations fail only for want of memory. -/
theorem pages_conserved (hp : 0 < s₀.cache.pageSize)
    (hps : s₀.alloc.pageSize = s₀.cache.pageSize) (hstrip : s₀.args.stripThinkingCache = false)
    (hr : Run next ok s₀.fresh past s) : (s.alloc.freed ++ (s.cache.treePages ++
      s.reqs.flatMap (Req.ownPages s.alloc.pageSize))).Perm (List.range' 1 s₀.alloc.numPages) ∧
    ∀ op, s.ok op → ∀ e, s.step op = .error e → ∃ n, e = .outOfMemory n := by
  have hstrips : ∀ s : KvPool, s.args = s₀.args → s.args.stripThinkingCache = false :=
    fun s hargs => by rw [hargs, hstrip]
  obtain ⟨hi, hargs⟩ := inv_of_run hp hps
    (fun s hi hargs op hok => ⟨hok, hi.reaches (hstrips s hargs) hok⟩) hr
  exact ⟨hi.partition, fun op hok e he => hi.error hok (hi.reaches (hstrips s hargs) hok) he⟩

theorem shared_prefix_conserved : ∃ s : KvPool, s.reqs.length = 2 ∧ s.cache.treePages.length = 3 ∧
    s.alloc.freed.length = 6 ∧ (s.alloc.freed ++ (s.cache.treePages ++
      s.reqs.flatMap (Req.ownPages s.alloc.pageSize))).Perm (List.range' 1 12) := by
  have hr : Run next ok (fresh {
      cache := { pageSize := 2, isEagle := true }
      alloc := { pageSize := 2, numPages := 12, freePages := [] } }) _ _ :=
    Run.of_admitted [.arrive 1 [1, 2, 3, 4, 5] none, .matchAndLock 1 4, .allocForExtend id [(1, 5)],
      .cacheUnfinishedReq 1, .emit 1 6 false, .allocForDecode id [1],
      .arrive 2 [1, 2, 3, 4, 5, 7, 8] none, .matchAndLock 2 6, .allocForExtend id [(2, 7)],
      .emit 1 9 false, .allocForDecode id [1], .releaseReq id 1 0, .cacheUnfinishedReq 2,
      .matchAndLock 1 6, .allocForExtend id [(1, 7)]] .start (by decide +kernel)
  exact ⟨_, by decide +kernel, by decide +kernel, by decide +kernel,
    (pages_conserved (by decide) rfl rfl hr).1⟩

/-- In every run a running request's row is the tree's slots for the tokens it has locked, followed
by slots that neither the tree nor any other request's row holds. -/
theorem written_slots_private (hp : 0 < s₀.cache.pageSize)
    (hps : s₀.alloc.pageSize = s₀.cache.pageSize) (hstrip : s₀.args.stripThinkingCache = false)
    (hrun : Run next ok s₀.fresh past s) (hr : r ∈ s.reqs) (hw : r.row = some w) :
    ∃ q own, r.lastNode = some q ∧ q <+: r.cells s.cache.isEagle ∧ w = s.cache.slots q ++ own ∧
      ∀ x ∈ own, (∀ n ∈ s.cache.nodes, x ∉ n.value) ∧
        ∀ r' ∈ s.reqs, r' ≠ r → ∀ w', r'.row = some w' → x ∉ w' := by
  obtain ⟨h, -⟩ := inv_of_run hp hps
    (fun s hi hargs op hok => ⟨hok, hi.reaches (by rw [hargs, hstrip]) hok⟩) hrun
  obtain ⟨q, own, hq, hpre, hsplit, hown⟩ := h.reads hr hw
  refine ⟨q, own, hq, hpre, hsplit, fun x hx => ?_⟩
  obtain ⟨htree, hothers⟩ := h.apart hr (hown x hx)
  refine ⟨htree, fun r' hr' hne w' hw' hx' => ?_⟩
  obtain ⟨q', own', -, -, rfl, hown'⟩ := h.reads hr' hw'
  rcases mem_append.mp hx' with hx' | hx'
  · obtain ⟨n, hn, hxn⟩ := mem_along hx'
    exact htree n hn hxn
  · exact hothers r' hr' hne (hown' x hx')

theorem shared_prefix_private : ∃ s : KvPool, s.reqs.length = 2 ∧ ∃ r ∈ s.reqs, ∃ q own,
    r.row = some [1, 2, 4] ∧ [1, 2, 4] = s.cache.slots q ++ own ∧
      ∀ x ∈ own, ∀ r' ∈ s.reqs, r' ≠ r → ∀ w', r'.row = some w' → x ∉ w' := by
  have hrun : Run next ok (fresh {
      cache := { pageSize := 1 }
      alloc := { pageSize := 1, numPages := 8, freePages := [] } }) _ _ :=
    Run.of_admitted [.arrive 1 [1, 2, 3] none, .matchAndLock 1 2, .allocForExtend id [(1, 3)],
      .cacheUnfinishedReq 1, .arrive 2 [1, 2, 4] none, .matchAndLock 2 2,
      .allocForExtend id [(2, 3)]] .start (by decide +kernel)
  obtain ⟨q, own, -, -, hsplit, hown⟩ := written_slots_private (by decide) rfl rfl hrun
    mem_cons_self (w := [1, 2, 4]) (by decide +kernel)
  exact ⟨_, by decide +kernel, _, mem_cons_self, q, own, by decide +kernel, hsplit,
    fun x hx => (hown x hx).2⟩

/-! ## Stripping the thinking from the cache -/

/-- After a run whose releases reach past the protected slots, such a release leaves each page free
or stored, and none both. -/
theorem stripped_release_frees_once (hp : 0 < s₀.cache.pageSize)
    (hps : s₀.alloc.pageSize = s₀.cache.pageSize)
    (hr : Run next (fun s op => s.ok op ∧ s.reaches op) s₀.fresh past s)
    (hmem : r ∈ s.reqs) (hrow : r.row ≠ none) (hlen : r.kvCommittedLen ≤ r.tokens.length)
    (hreach : r.cacheProtectedLen ≤
      unitCount s.cache.isEagle (r.effectiveKvCommittedLen s.args)) (isInsert : Bool) :
    ∃ s', s.releaseKvCache r.rid isInsert = .ok s' ∧
      (s'.alloc.freed ++ s'.cache.treePages).Perm
        (s.alloc.freed ++ (s.cache.treePages ++ r.ownPages s.alloc.pageSize)) ∧
      (s'.alloc.freed ++ s'.cache.treePages).Nodup := by
  obtain ⟨hi, -⟩ := inv_of_run hp hps (fun _ _ _ _ hok => hok) hr
  obtain ⟨c', a', hrel, hled, -⟩ := hi.releaseKvCache hmem ⟨hrow, hlen, hreach⟩ isInsert
  refine ⟨_, hrel, ?_, ?_⟩
  · have hbefore := (hi.split hmem).pages
    have hafter := hled.pages
    rw [hi.ledger.pageSize]
    refine List.perm_iff_count.mpr fun x => ?_
    have := (hafter.trans hbefore.symm).count_eq x
    simp only [List.count_append, setReq] at this ⊢
    omega
  · have := hled.nodup
    rw [← List.append_assoc] at this
    exact (List.nodup_append.mp this).1

theorem thinking_freed_once : ∃ s s' : KvPool, s.args.stripThinkingCache = true ∧
    s.cache.treePages = [1, 2] ∧ s.reqs.flatMap (Req.ownPages 1) = [3] ∧
    s.releaseKvCache 1 true = .ok s' ∧ (s'.alloc.freed ++ s'.cache.treePages).Nodup ∧
    (s'.alloc.freed ++ s'.cache.treePages).length = 8 := by
  have hr : Run next (fun s op => s.ok op ∧ s.reaches op) (fresh {
      args := { stripThinkingCache := true }
      cache := { pageSize := 1 }
      alloc := { pageSize := 1, numPages := 8, freePages := [] } }) _ _ :=
    Run.of_admitted [.arrive 1 [1, 2] none, .matchAndLock 1 1, .allocForExtend id [(1, 2)],
      .cacheUnfinishedReq 1, .emit 1 3 true, .allocForDecode id [1], .emit 1 4 true] .start
      (by decide +kernel)
  obtain ⟨s', hrel, hperm, hnodup⟩ := stripped_release_frees_once (by decide) rfl hr
    List.mem_cons_self (by decide +kernel) (by decide +kernel) (by decide +kernel) true
  refine ⟨_, s', by decide +kernel, by decide +kernel, by decide +kernel, hrel, hnodup, ?_⟩
  rw [hperm.length_eq]
  decide +kernel

/-- A retracted request's generated tokens are freed at its end while the tree stores them. -/
theorem retracted_thinking_freed_twice : ∃ past s,
    Run next ok (fresh {
      args := { stripThinkingCache := true }
      cache := { pageSize := 1 }
      alloc := { pageSize := 1, numPages := 8, freePages := [] } }) past s ∧
    s.ok (.finishReq 1 true) ∧ (∀ x ∈ s.alloc.freed, x ∉ s.cache.treePages) ∧
    ∃ x ∈ (s.next (.finishReq 1 true)).alloc.freed, x ∈ (s.next (.finishReq 1 true)).cache.treePages :=
  ⟨_, _, Run.of_admitted [.arrive 1 [1, 2] none, .matchAndLock 1 1, .allocForExtend id [(1, 2)],
      .cacheUnfinishedReq 1, .emit 1 3 true, .allocForDecode id [1], .emit 1 4 true,
      .releaseReq id 1 0, .matchAndLock 1 3, .allocForExtend id [(1, 4)], .cacheUnfinishedReq 1]
      .start (by decide +kernel),
    by decide +kernel, by decide +kernel, by decide +kernel⟩
end KvPool
end Sglang
