import Sglang.Session.Exclusive

/-!
# A streaming session is not wedged

The flag of the session is cleared by the request that is released, and the request that the session
keeps as its node has to be finished before the session is closed.
-/

namespace Sglang.Streaming.State
open List
variable {s s' : State} {r r' x : Req} {ps : Nat} {e : Event}

/-! ## The invariant -/

/-- The flag and the node stand for requests that the scheduler has or has finished. -/
structure Tracked (s : State) : Prop extends s.Keys where
  held : s.session.inflight = true →
    ∃ x ∈ s.reqs, x.accepted = true ∧ x.attached = true ∧ x.place ≠ .gone
  node : ∀ rid, s.session.node = some rid →
    ∃ x ∈ s.reqs, x.rid = rid ∧ (x.finished = true ∨ x.place ≠ .gone)

/-- A request that leaves unfinished is not the one that the flag or the node stands for. -/
def Kept (s : State) : Event → Prop
  | .drop rid => ∀ x ∈ s.reqs, x.rid = rid →
    ¬ (s.session.inflight = true ∧ x.accepted = true ∧ x.attached = true) ∧ s.session.node ≠ some rid
  | .abortOutOfMemory rid => ∀ x ∈ s.reqs, x.rid = rid →
    x.attached = false ∧ s.session.node ≠ some rid
  | _ => True

lemma setReq_mem_self (hk : s.Keys) (hr : r ∈ s.reqs) (hrid : r'.rid = r.rid) :
    r' ∈ (s.setReq r').reqs :=
  (moves_setReq r' hk hr hrid).self

lemma setReq_mem_other (hk : s.Keys) (hr : r ∈ s.reqs) (hrid : r'.rid = r.rid)
    (hx : x ∈ s.reqs) (hne : x.rid ≠ r.rid) : x ∈ (s.setReq r').reqs := by
  rw [setReq, hrid]
  exact (Keyed.mem_update hk.nodup hr).mpr (.inr ⟨hx, hne⟩)

section
variable (h : s.Tracked)
include h

lemma Tracked.node_moves (hm : Moves s s' r r')
    (hnode : s'.session.node = s.session.node ∨ s'.session.node = some r.rid)
    (hself : s'.session.node = some r.rid → r'.finished = true ∨ r'.place ≠ .gone) :
    ∀ rid, s'.session.node = some rid →
      ∃ x ∈ s'.reqs, x.rid = rid ∧ (x.finished = true ∨ x.place ≠ .gone) := by
  intro rid hrid
  by_cases he : rid = r.rid
  · subst he
    exact ⟨r', hm.self, hm.rid, hself hrid⟩
  have hold : s.session.node = some rid := by
    grind
  obtain ⟨x, hx, hxr, hfin⟩ := h.node rid hold
  obtain ⟨x', hx', hrole⟩ := hm.kept x hx (by rw [hxr]; exact he)
  refine ⟨x', hx', hrole.rid.trans hxr, ?_⟩
  rwa [Req.finished, hrole.finishedReason, hrole.place]

lemma Tracked.setReq (hr : r ∈ s.reqs) (hrid : r'.rid = r.rid)
    (hkeep : s.session.inflight = true → r.accepted = true → r.attached = true →
      r.place ≠ .gone → r'.accepted = true ∧ r'.attached = true ∧ r'.place ≠ .gone)
    (hself : s.session.node = some r.rid → r'.finished = true ∨ r'.place ≠ .gone) :
    (s.setReq r').Tracked where
  __ := h.toKeys.congr (moves_setReq r' h.toKeys hr hrid).keys rfl
  held hi := by
    obtain ⟨x, hx, hacc, hatt, hp⟩ := h.held hi
    by_cases he : x.rid = r.rid
    · have hxr := inj_on_of_nodup_map h.nodup hx hr he
      subst hxr
      exact ⟨r', setReq_mem_self h.toKeys hr hrid, hkeep hi hacc hatt hp⟩
    · exact ⟨x, setReq_mem_other h.toKeys hr hrid hx he, hacc, hatt, hp⟩
  node := h.node_moves (moves_setReq r' h.toKeys hr hrid) (.inl rfl) hself

lemma Tracked.release {r₀ : Req} {after : Req → Req} (hr : r₀ ∈ s.reqs)
    (hrid : r.rid = r₀.rid) (hatt : r.attached = r₀.attached) (hafter : ∀ x, (after x).rid = x.rid)
    (hself : ∀ x, r.SameRole x → r₀.attached = true ∨ s.session.node = some r₀.rid →
      (after x).finished = true ∨ (after x).place ≠ .gone) : (s.release ps r after).Tracked := by
  have hspec := releaseKvCache_spec ps s r
  have hm := release_moves ps h.toKeys hr hrid hafter
  have hsession : (s.release ps r after).session = (s.releaseKvCache ps r).1.session := rfl
  by_cases hon : r.attached = true
  · -- the flag is cleared, so only the node matters
    have hclear : (s.release ps r after).session.inflight = false ∧
        ((s.release ps r after).session.node = s.session.node ∨
          (s.release ps r after).session.node = some r₀.rid) := by
      rw [hsession]
      cases habort : (r.finishedReason.map FinishReason.isAbort).getD false with
      | true =>
        rw [(hspec.aborted hon habort).1]
        exact ⟨rfl, .inl rfl⟩
      | false =>
        rw [hspec.finished hon habort]
        exact ⟨rfl, .inr (congrArg some hrid)⟩
    refine ⟨h.toKeys.congr hm.keys hm.nextRid, fun hi => ?_, h.node_moves hm hclear.2 fun _ => ?_⟩
    · simp [hclear.1] at hi
    · exact hself _ hspec.role (.inl (hatt ▸ hon))
  -- off the session only the request changes
  have hoff : r.attached = false := by simpa using hon
  have hsame := hspec.off hoff
  rw [release_eq, hsame]
  refine h.setReq hr ((hafter _).trans (hspec.role.rid.trans hrid)) (fun _ _ ha => ?_) fun hn => ?_
  · rw [← hatt] at ha
    exact absurd ha hon
  · exact hself _ hspec.role (.inr hn)

lemma Tracked.addReq {session : Session} (hrid : r.rid = s.nextRid)
    (hflag : session.inflight = true → s.session.inflight = true ∨
      r.accepted = true ∧ r.attached = true ∧ r.place ≠ .gone)
    (hnode : session.node = s.session.node) : (addReq r { s with session }).Tracked where
  __ : State.Keys _ := Keys.addReq (s := { s with session }) ⟨h.nodup, h.below⟩ hrid
  held hi := by
    rcases hflag hi with hold | hnew
    · obtain ⟨x, hx, hx'⟩ := h.held hold
      exact ⟨x, mem_append_left _ hx, hx'⟩
    · exact ⟨r, mem_append_right _ (mem_singleton.mpr rfl), hnew⟩
  node rid hn := by
    obtain ⟨x, hx, hx'⟩ := h.node rid (hnode ▸ hn)
    exact ⟨x, mem_append_left _ hx, hx'⟩

lemma Tracked.create {params : SessionParams} {inputLen : Nat} : (s.create params inputLen).Tracked := by
  unfold State.create
  split
  · exact h
  rcases hc : s.session.createReq params with message | session
  · exact h.addReq rfl .inl rfl
  obtain ⟨-, rfl⟩ := createReq_ok hc
  exact h.addReq rfl (fun _ => .inr ⟨rfl, rfl, nofun⟩) rfl

lemma Tracked.matchPrefix (hr : r ∈ s.reqs) {keyLen node matched : Nat}
    (hp : r.place ≠ .gone) : (s.matchPrefix ps keyLen node matched r).Tracked := by
  have htree : (s.matchTree node matched r).Tracked :=
    h.setReq hr rfl (fun _ ha hon hg => ⟨ha, hon, hg⟩) fun _ => .inr hp
  unfold State.matchPrefix
  rcases hslot : s.slot with _ | slot
  · exact htree
  dsimp only
  split_ifs
  · have hm := moves_setReq_with s.session.abortReq (some slot) s.effects
      { r.detach with lastNode := some (.tree node), cacheProtectedLen := matched } h.toKeys hr rfl
    exact ⟨h.toKeys.congr hm.keys hm.nextRid, nofun, h.node_moves hm (.inl rfl) fun _ => .inr hp⟩
  · have hsame : ∀ slot' effects, Tracked { s with slot := slot', effects := effects } :=
      fun _ _ => ⟨⟨h.nodup, h.below⟩, h.held, h.node⟩
    exact (hsame ..).setReq hr rfl (fun _ ha hon hg => ⟨ha, hon, hg⟩) fun _ => .inr hp
  · exact htree
end

lemma doClose_of_inflight (h : s.session.inflight = true) :
    s.doClose = { s with session := { s.session with closeOnFinish := true } } := by
  simp [doClose, h]

lemma Tracked.detaches (h : s.Tracked) (hd : Detaches s s')
    (hi : s'.session.inflight = s.session.inflight) (hn : s'.session.node = s.session.node)
    (hsame : s.session.inflight = true → s'.reqs = s.reqs) : s'.Tracked where
  __ := h.toKeys.congr hd.keys hd.nextRid
  held hf := by
    rw [hi] at hf
    rw [hsame hf]
    exact h.held hf
  node rid hrid := by
    obtain ⟨x, hx, hxr, hfin⟩ := h.node rid (hn ▸ hrid)
    obtain ⟨x', hx', hrole⟩ := hd.to_new x hx
    refine ⟨x', hx', hrole.rid.trans hxr, ?_⟩
    rwa [Req.finished, hrole.finishedReason, hrole.place]

lemma reapPending_of_inflight (h : s.session.inflight = true) :
    s.reapPending.reqs = s.reqs ∧ s.reapPending.session.deleted = s.session.deleted := by
  unfold reapPending
  split
  · rw [doClose_of_inflight (by exact h)]
    exact ⟨rfl, rfl⟩
  · exact ⟨rfl, rfl⟩

variable {now interval : Int} {timedOut : Bool} {rid : Nat}

lemma maybeReap_of_inflight (h : s.session.inflight = true) :
    (s.maybeReap now interval timedOut).reqs = s.reqs ∧
      (s.maybeReap now interval timedOut).session.deleted = s.session.deleted := by
  unfold maybeReap
  split
  · have hp := reapPending_of_inflight (s := { s with lastReapTime := now }) h
    have hflag : (reapPending { s with lastReapTime := now }).session.inflight = true :=
      (reapPending_spec { s with lastReapTime := now }).2.1.trans h
    dsimp only
    split
    · rw [doClose_of_inflight hflag]
      exact hp
    · exact hp
  · exact ⟨rfl, rfl⟩

lemma Tracked.next (h : s.Tracked) (hkept : s.Kept e) : (s.next ps e).Tracked := by
  cases e with
  | create params inputLen => exact h.create
  | reject rid message | abortRunning rid message =>
    refine withReq_induction h.toKeys h fun r hr _ hp => ?_
    have hg : r.place ≠ .gone := by simp [mem_singleton.mp hp]
    exact h.setReq hr rfl (fun _ ha hon hg => ⟨ha, hon, hg⟩) fun _ => .inr hg
  | matchPrefix rid keyLen node matched =>
    refine withReq_induction h.toKeys h fun r hr _ hp => ?_
    exact h.matchPrefix hr (by simp [mem_singleton.mp hp])
  | run rid row committed allocated output =>
    refine withReq_induction h.toKeys h fun r hr _ _ => ?_
    exact h.setReq hr rfl (fun _ ha hon _ => ⟨ha, hon, (by simp)⟩) fun _ => .inr (by simp)
  | finish rid reason len =>
    refine withReq_induction h.toKeys h fun r hr _ _ => ?_
    obtain ⟨hr1, ha1⟩ := updateFinishState_fields (r := r) reason len
    refine h.release hr hr1 ha1 (fun _ => rfl) fun x hrole _ => .inl ?_
    show x.finishedReason.isSome = true
    rw [hrole.finishedReason, Req.updateFinishState]
    split <;> rfl
  | abortChunked rid =>
    refine withReq_induction h.toKeys h fun r hr _ _ => ?_
    refine h.release hr rfl rfl (fun _ => rfl) fun x hrole _ => .inl ?_
    show x.finishedReason.isSome = true
    rw [hrole.finishedReason]
    rfl
  | retract rid =>
    refine withReq_induction h.toKeys h fun r hr _ _ => ?_
    exact h.release hr rfl rfl (fun _ => rfl) fun _ _ _ => .inr (by simp)
  | abortOutOfMemory rid =>
    refine withReq_induction h.toKeys h fun r hr hrid _ => ?_
    obtain ⟨hoff, hnode⟩ := hkept r hr hrid
    unfold abortOutOfMemory
    refine h.release hr rfl rfl (fun _ => rfl) fun _ _ hor => ?_
    grind
  | drop rid =>
    refine withReq_induction h.toKeys h fun r hr hrid _ => ?_
    obtain ⟨hflag, hnode⟩ := hkept r hr hrid
    refine h.setReq hr rfl (fun hi ha hon _ => absurd ⟨hi, ha, hon⟩ hflag) fun hn => ?_
    exact absurd (hrid ▸ hn) hnode
  | close =>
    show s.close.Tracked
    unfold close
    split
    · exact h
    · obtain ⟨hd, hi, hn⟩ := doClose_spec s
      exact h.detaches hd hi hn fun hf => by rw [doClose_of_inflight hf]
  | maybeReap now interval timedOut =>
    obtain ⟨hd, hi, hn⟩ := maybeReap_spec s now interval timedOut
    exact h.detaches hd hi hn fun hf => (maybeReap_of_inflight hf).1

lemma tracked_start : start.Tracked :=
  ⟨inv_start.toKeys, nofun, nofun⟩

lemma tracked_of_run {past : List Event} (hr : Run (next ps) Kept start past s) : s.Tracked :=
  Run.invariant (I := fun _ s => s.Tracked) tracked_start (fun _ _ _ h hk => h.next hk) hr

lemma Tracked.append_ok (h : s.Tracked)
    (hleft : ∀ x ∈ s.reqs, x.accepted = true → x.place = .gone) {params : SessionParams}
    (hreplace : params.replace = false) (hdrop : params.dropPreviousOutput = false)
    (hoffset : params.offset.getD 0 = 0) :
    s.session.createReq params = .ok { s.session with inflight := true } := by
  have hflag : s.session.inflight = false := by
    by_contra hne
    obtain ⟨x, hx, hacc, -, hp⟩ := h.held (by simpa using hne)
    exact hp (hleft x hx hacc)
  simp [Session.createReq, hflag, hreplace, hdrop, hoffset]

/-! ## A close that was requested -/

def Closing (s : State) : Prop := s.session.closeOnFinish = true ∧ s.session.deleted = false

def Closed (s : State) : Prop := s.session.deleted = true ∧ s.slot = none

def Left (s : State) (rid : Nat) : Prop := ∀ x ∈ s.reqs, x.rid = rid → x.place = .gone

lemma doClose_closing (h : s.session.deleted = false) : s.doClose.Closing ∨ s.doClose.Closed := by
  unfold doClose
  split
  · exact .inl ⟨rfl, h⟩
  · exact .inr ⟨rfl, releaseSession_slot⟩

lemma doClose_closed (hflag : s.session.inflight = false) (hfin : s.allRequestsFinished = true) :
    s.doClose.Closed := by
  rw [doClose, if_neg (by simp [hflag, hfin])]
  exact ⟨rfl, releaseSession_slot⟩

lemma Left.detaches (h : s.Left rid) (hd : Detaches s s') : s'.Left rid := by
  intro x' hx' hrid
  obtain ⟨x, hx, hrole⟩ := hd.from_old x' hx'
  rw [hrole.place]
  exact h x hx (hrole.rid ▸ hrid)

lemma Left.moves (h : s.Left rid) (hm : Moves s s' r r') (hr : r ∈ s.reqs)
    (hp : r.place ≠ .gone) : s'.Left rid := by
  intro x' hx' hrid
  rcases hm.others x' hx' with rfl | ⟨x, hx, -, hrole⟩
  · exact absurd (h r hr (hm.rid ▸ hrid)) hp
  · rw [hrole.place]
    exact h x hx (hrole.rid ▸ hrid)

def StillClosing (s s' : State) : Prop :=
  s'.Closing ∧ s'.reqs.map Req.rid = s.reqs.map Req.rid ∧ ∀ rid, s.Left rid → s'.Left rid

lemma StillClosing.refl (h : s.Closing) : StillClosing s s := ⟨h, rfl, fun _ => id⟩

lemma StillClosing.moves (h : s.Closing) (hm : Moves s s' r r') (hr : r ∈ s.reqs)
    (hp : r.place ≠ .gone) (hclose : s'.session.closeOnFinish = s.session.closeOnFinish)
    (hdel : s'.session.deleted = s.session.deleted) : StillClosing s s' :=
  ⟨⟨hclose.trans h.1, hdel.trans h.2⟩, hm.keys, fun _ hl => hl.moves hm hr hp⟩

lemma stillClosing_release (h : s.Closing) (hk : s.Keys) {r₀ : Req} {after : Req → Req}
    (hr : r₀ ∈ s.reqs) (hp : r₀.place ≠ .gone) (hrid : r.rid = r₀.rid)
    (hafter : ∀ x, (after x).rid = x.rid) : StillClosing s (s.release ps r after) := by
  have hspec := releaseKvCache_spec ps s r
  have hsession : (s.releaseKvCache ps r).1.session.closeOnFinish = s.session.closeOnFinish ∧
      (s.releaseKvCache ps r).1.session.deleted = s.session.deleted := by
    by_cases hon : r.attached = true
    · cases habort : (r.finishedReason.map FinishReason.isAbort).getD false with
      | true =>
        rw [(hspec.aborted hon habort).1]
        exact ⟨rfl, rfl⟩
      | false =>
        rw [hspec.finished hon habort]
        exact ⟨rfl, rfl⟩
    · rw [hspec.off (by simpa using hon)]
      exact ⟨rfl, rfl⟩
  exact .moves h (release_moves ps hk hr hrid hafter) hr hp hsession.1 hsession.2

lemma stillClosing_matchPrefix (h : s.Closing) (hk : s.Keys) (hr : r ∈ s.reqs)
    (hp : r.place ≠ .gone) {keyLen node matched : Nat} :
    StillClosing s (s.matchPrefix ps keyLen node matched r) := by
  have htree : StillClosing s (s.matchTree node matched r) :=
    .moves h (moves_setReq _ hk hr rfl) hr hp rfl rfl
  unfold matchPrefix
  rcases hslot : s.slot with _ | slot
  · exact htree
  dsimp only
  split_ifs
  · exact .moves h (moves_setReq_with s.session.abortReq (some slot) s.effects
      { r.detach with lastNode := some (.tree node), cacheProtectedLen := matched } hk hr rfl)
      hr hp rfl rfl
  · refine .moves h (moves_setReq_with _ _ _ _ hk hr ?_) hr hp ?_ ?_ <;> rfl
  · exact htree

lemma stillClosing_doClose (h : s.session.deleted = false) :
    StillClosing s s.doClose ∨ s.doClose.Closed := by
  have hd := (doClose_spec s).1
  exact (doClose_closing h).imp_left fun hc => ⟨hc, hd.keys, fun _ hl => hl.detaches hd⟩

lemma StillClosing.trans {s₁ s₂ s₃ : State} (h : StillClosing s₁ s₂) (h' : StillClosing s₂ s₃) :
    StillClosing s₁ s₃ :=
  ⟨h'.1, h'.2.1.trans h.2.1, fun rid hl => h'.2.2 rid (h.2.2 rid hl)⟩

lemma stillClosing_reapPending (h : s.Closing) :
    StillClosing s s.reapPending ∨ s.reapPending.Closed := by
  have hd := (reapPending_spec s).1
  have hor : s.reapPending.Closing ∨ s.reapPending.Closed := by
    unfold reapPending
    split
    · exact doClose_closing h.2
    · exact .inl h
  exact hor.imp_left fun hc => ⟨hc, hd.keys, fun _ hl => hl.detaches hd⟩

lemma stillClosing_maybeReap (h : s.Closing) :
    StillClosing s (s.maybeReap now interval timedOut) ∨ (s.maybeReap now interval timedOut).Closed := by
  unfold maybeReap
  split
  · dsimp only
    rcases stillClosing_reapPending (s := { s with lastReapTime := now }) h with hc | hc
    · split
      · rcases stillClosing_doClose hc.1.2 with hc' | hc'
        · exact .inl (hc.trans hc')
        · exact .inr hc'
      · exact .inl hc
    · rw [if_neg (by simp [hc.1])]
      exact .inr hc
  · exact .inl (.refl h)

lemma closing_step (ps : Nat) (e : Event) (h : s.Closing) (hk : s.Keys) :
    StillClosing s (s.next ps e) ∨ (s.next ps e).Closed := by
  have hself := StillClosing.refl h
  cases e with
  | create params inputLen =>
    left
    show StillClosing s (s.create params inputLen)
    rw [create, if_pos (by simp [h.1])]
    exact hself
  | reject rid message | abortRunning rid message | drop rid =>
    left
    refine withReq_induction hk hself fun r hr _ hp => ?_
    exact .moves h (moves_setReq _ hk hr rfl) hr (by rw [mem_singleton.mp hp]; nofun) rfl rfl
  | matchPrefix rid keyLen node matched =>
    left
    refine withReq_induction hk hself fun r hr _ hp => ?_
    exact stillClosing_matchPrefix h hk hr (by rw [mem_singleton.mp hp]; nofun)
  | run rid row committed allocated output =>
    left
    refine withReq_induction hk hself fun r hr _ hp => ?_
    refine .moves h (moves_setReq _ hk hr rfl) hr (fun hg => ?_) rfl rfl
    simp [hg] at hp
  | finish rid reason len =>
    left
    refine withReq_induction hk hself fun r hr _ hp => ?_
    exact stillClosing_release h hk hr (by rw [mem_singleton.mp hp]; nofun)
      (updateFinishState_fields reason len).1 fun _ => rfl
  | abortChunked rid | retract rid | abortOutOfMemory rid =>
    left
    refine withReq_induction hk hself fun r hr _ hp => ?_
    exact stillClosing_release h hk hr (by rw [mem_singleton.mp hp]; nofun) rfl fun _ => rfl
  | close =>
    show StillClosing s s.close ∨ s.close.Closed
    rw [close, if_neg (by simp [h.2])]
    exact stillClosing_doClose h.2
  | maybeReap now interval timedOut => exact stillClosing_maybeReap h

lemma Tracked.reap_closes (timedOut : Bool) (h : s.Tracked) (hc : s.Closing)
    (hleft : ∀ x ∈ s.reqs, x.place = .gone)
    (hdue : now - s.lastReapTime > interval) : (s.maybeReap now interval timedOut).Closed := by
  have hflag : s.session.inflight = false := by
    by_contra hne
    obtain ⟨x, hx, -, -, hp⟩ := h.held (by simpa using hne)
    exact hp (hleft x hx)
  have hfin : s.allRequestsFinished = true := by
    unfold allRequestsFinished
    rcases hn : s.session.node with _ | rid
    · rfl
    obtain ⟨x, hx, rfl, hx'⟩ := h.node rid hn
    have hget : s.req? x.rid = some x := Keyed.get?_key h.nodup hx
    simp [hget, hx'.resolve_right fun hp => hp (hleft x hx)]
  have hclosed : (reapPending { s with lastReapTime := now }).Closed := by
    have hall : allRequestsFinished { s with lastReapTime := now } = true := hfin
    rw [reapPending, if_pos (by simp [hc.1, hc.2, hall])]
    exact doClose_closed hflag hfin
  rw [maybeReap, if_pos hdue]
  rw [if_neg (by simp [hclosed.1])]
  exact hclosed

/-! ## Fair runs -/

/-- Every request leaves at some time, and `maybe_reap` is due again and again. -/
structure FairRun (ps : Nat) (event : Nat → Event) (state : Nat → State) : Prop where
  start : state 0 = start
  step : ∀ n, state (n + 1) = (state n).next ps (event n)
  kept : ∀ n, (state n).Kept (event n)
  leaves : ∀ n, ∀ x ∈ (state n).reqs, ∃ m ≥ n, (state m).Left x.rid
  reaps : ∀ n, ∃ m ≥ n, ∃ now interval timedOut, event m = .maybeReap now interval timedOut ∧
    now - (state m).lastReapTime > interval

namespace FairRun
variable {event : Nat → Event} {state : Nat → State}

variable (h : FairRun ps event state) {n : Nat}
include h

lemma tracked (n : Nat) : (state n).Tracked := by
  induction n with
  | zero => exact h.start ▸ tracked_start
  | succ n ih => exact h.step n ▸ ih.next (h.kept n)

lemma closing_from (hc : (state n).Closing) (k : Nat) :
    StillClosing (state n) (state (n + k)) ∨ ∃ m > n, (state m).Closed := by
  induction k with
  | zero => exact .inl (.refl hc)
  | succ k ih => ?_
  rcases ih with hk | hm
  · have hstep := closing_step ps (event (n + k)) hk.1 (h.tracked (n + k)).toKeys
    rw [← h.step (n + k)] at hstep
    rcases hstep with hs | hs
    · exact .inl (hk.trans hs)
    · exact .inr ⟨n + k + 1, by omega, hs⟩
  · exact .inr hm

lemma all_left (hc : (state n).Closing) (hnot : ¬ ∃ m > n, (state m).Closed) (rids : List Nat)
    (hrids : ∀ rid ∈ rids, ∃ x ∈ (state n).reqs, x.rid = rid) :
    ∃ m ≥ n, ∀ rid ∈ rids, (state m).Left rid := by
  have hstill : ∀ m ≥ n, StillClosing (state n) (state m) := fun m hm => by
    have := (h.closing_from hc (m - n)).resolve_right hnot
    rwa [Nat.add_sub_cancel' hm] at this
  induction rids with
  | nil => exact ⟨n, le_refl n, nofun⟩
  | cons rid rids ih => ?_
  rw [forall_mem_cons] at hrids
  obtain ⟨m₁, hm1, hall⟩ := ih hrids.2
  obtain ⟨x, hx, rfl⟩ := hrids.1
  obtain ⟨m₂, hm2, hleft⟩ := h.leaves n x hx
  -- who has left stays away
  have hlater : ∀ {a b : Nat} {rid : Nat}, n ≤ a → a ≤ b → (state a).Left rid → (state b).Left rid := by
    intro a b rid ha hab hl
    have hca := (hstill a ha).1
    rcases h.closing_from hca (b - a) with hk | ⟨m, hm, hm'⟩
    · rw [Nat.add_sub_cancel' hab] at hk
      exact hk.2.2 rid hl
    · exact absurd ⟨m, by omega, hm'⟩ hnot
  refine ⟨max m₁ m₂, le_trans hm1 (le_max_left ..), forall_mem_cons.mpr ⟨?_, fun rid hr => ?_⟩⟩
  · exact hlater hm2 (le_max_right ..) hleft
  · exact hlater hm1 (le_max_left ..) (hall rid hr)

lemma closing_closed (hc : (state n).Closing) : ∃ m > n, (state m).Closed := by
  by_contra hnot
  obtain ⟨m, hm, hall⟩ := h.all_left hc hnot ((state n).reqs.map Req.rid) fun rid hr => mem_map.mp hr
  obtain ⟨k, hk, now, interval, timedOut, he, hdue⟩ := h.reaps m
  have hsm := (h.closing_from hc (m - n)).resolve_right hnot
  rw [Nat.add_sub_cancel' hm] at hsm
  have hsk := (h.closing_from hsm.1 (k - m)).resolve_right fun ⟨j, hj, hj'⟩ =>
    hnot ⟨j, by omega, hj'⟩
  rw [Nat.add_sub_cancel' hk] at hsk
  -- at the reap the requests are those of `n`, and they have left
  have hleft : ∀ x ∈ (state k).reqs, x.place = .gone := by
    intro x hx
    have hrid : x.rid ∈ (state n).reqs.map Req.rid := by
      rw [← hsm.2.1, ← hsk.2.1]
      exact mem_map_of_mem hx
    exact hsk.2.2 x.rid (hall x.rid hrid) x hx rfl
  have hclosed := (h.tracked k).reap_closes timedOut hsk.1 hleft hdue
  refine hnot ⟨k + 1, by omega, ?_⟩
  rw [h.step k, he]
  exact hclosed
end FairRun

/-- If no request is dropped or aborted while flag or node stands for it: appends are accepted once
the accepted ones are gone, and along fair runs a close is carried out and the slot released. -/
theorem session_not_wedged (ps : Nat) :
    (∀ past s, Run (next ps) Kept start past s →
      (∀ x ∈ s.reqs, x.accepted = true → x.place = .gone) → ∀ params : SessionParams,
        params.replace = false → params.dropPreviousOutput = false → params.offset.getD 0 = 0 →
        s.session.createReq params = .ok { s.session with inflight := true }) ∧
    (∀ event state, FairRun ps event state → ∀ n, event n = .close →
      (state n).session.deleted = false → ∃ m > n, (state m).Closed) := by
  refine ⟨fun past s hr hleft params h₁ h₂ h₃ => (tracked_of_run hr).append_ok hleft h₁ h₂ h₃,
    fun event state h n he hopen => ?_⟩
  have hstep : state (n + 1) = (state n).doClose := by
    rw [h.step n, he]
    show (state n).close = _
    rw [close, if_neg (by simp [hopen])]
  rcases doClose_closing hopen with hc | hc
  · rw [← hstep] at hc
    obtain ⟨m, hm, hclosed⟩ := h.closing_closed hc
    exact ⟨m, by omega, hclosed⟩
  · exact ⟨n + 1, by omega, hstep ▸ hc⟩

def closedTurn : List Event :=
  [.create append 3, .matchPrefix 0 2 0 0, .run 0 7 3 4 1, .close, .finish 0 .stop none]

/-- After the turn `maybe_reap` is called every two seconds. -/
def closedEvent (n : Nat) : Event := closedTurn[n]?.getD (.maybeReap (2 * n) 1 false)

def closedState : Nat → State
  | 0 => start
  | n + 1 => (closedState n).next 1 (closedEvent n)

lemma closedEvent_reap (k : Nat) :
    closedEvent (5 + k) = .maybeReap (2 * ((5 + k : Nat) : Int)) 1 false := by
  rw [closedEvent, getElem?_eq_none (by simp [closedTurn])]
  rfl

lemma maybeReap_of_deleted {now interval : Int}
    (h : s.session.deleted = true) (hdue : now - s.lastReapTime > interval) :
    s.maybeReap now interval timedOut = { s with lastReapTime := now } := by
  have hp : reapPending { s with lastReapTime := now } = { s with lastReapTime := now } := by
    simp [reapPending, h]
  rw [maybeReap, if_pos hdue, hp]
  simp [h]

lemma closedState_reaped (k : Nat) :
    closedState (6 + k) = { closedState 6 with lastReapTime := 2 * ((5 + k : Nat) : Int) } := by
  induction k with
  | zero => decide +kernel
  | succ k ih => ?_
  have hdel : (closedState 6).session.deleted = true := by decide +kernel
  have he : closedEvent (6 + k) = .maybeReap (2 * ((6 + k : Nat) : Int)) 1 false := by
    rw [show 6 + k = 5 + (k + 1) by omega]
    exact closedEvent_reap (k + 1)
  rw [show 6 + (k + 1) = (6 + k) + 1 by omega, closedState, ih, he]
  rw [show 5 + (k + 1) = 6 + k by omega]
  exact maybeReap_of_deleted hdel (by push_cast; omega)

lemma closed_fair : FairRun 1 closedEvent closedState where
  start := rfl
  step _ := rfl
  kept n := by
    rcases Nat.lt_or_ge n 5 with hn | hn
    · interval_cases n <;> trivial
    · obtain ⟨k, rfl⟩ := Nat.exists_eq_add_of_le hn
      rw [closedEvent_reap]
      trivial
  leaves n x _ := by
    refine ⟨6 + n, by omega, fun y hy _ => ?_⟩
    rw [closedState_reaped] at hy
    have hall : ∀ y ∈ (closedState 6).reqs, y.place = .gone := by decide +kernel
    exact hall y hy
  reaps n := by
    refine ⟨5 + (n + 2), by omega, _, _, _, closedEvent_reap (n + 2), ?_⟩
    rw [show 5 + (n + 2) = 6 + (n + 1) by omega, closedState_reaped]
    push_cast
    omega

theorem closed_not_wedged :
    (∃ m > 3, (closedState m).Closed) ∧
      ((closedTurn.eraseIdx 3).foldl (next 1) start).session.createReq append =
        .ok { ((closedTurn.eraseIdx 3).foldl (next 1) start).session with inflight := true } := by
  have h := session_not_wedged 1
  have hrun : Run (next 1) Kept start ((closedTurn.eraseIdx 3).reverse ++ [])
      ((closedTurn.eraseIdx 3).foldl (next 1) start) :=
    Run.of_admitted _ .start ⟨trivial, trivial, trivial, trivial, trivial⟩
  refine ⟨h.2 _ _ closed_fair 3 rfl (by decide +kernel), ?_⟩
  exact h.1 _ _ hrun (by decide +kernel) append rfl rfl rfl

/-- The first request is dropped from the waiting queue. -/
def droppedTurn : List Event := [.create append 3, .drop 0]

/-- The accepted request is gone, yet appends are rejected and closes never carried out. -/
theorem dropped_wedges :
    (∀ x ∈ (droppedTurn.foldl (next 1) start).reqs, x.place = .gone) ∧
      (droppedTurn.foldl (next 1) start).session.createReq append =
        .error "Streaming session already has an active request." ∧
      ∀ reaps : List (Int × Int × Bool),
        (reaps.foldl (fun s r => s.maybeReap r.1 r.2.1 r.2.2)
          (droppedTurn.foldl (next 1) start).close).session.deleted = false := by
  refine ⟨by decide +kernel, by rfl, fun reaps => ?_⟩
  have hopen : (droppedTurn.foldl (next 1) start).close.session.inflight = true ∧
      (droppedTurn.foldl (next 1) start).close.session.deleted = false := by decide +kernel
  generalize (droppedTurn.foldl (next 1) start).close = s at hopen
  induction reaps generalizing s with
  | nil => exact hopen.2
  | cons r reaps ih =>
    have hi := (maybeReap_spec s r.1 r.2.1 r.2.2).2.1.trans hopen.1
    exact ih _ ⟨hi, (maybeReap_of_inflight hopen.1).2.trans hopen.2⟩
end Sglang.Streaming.State
