import Sglang.Lib.Run
import Sglang.Session.Streaming

/-!
# Streaming sessions are exclusive

A request of the session is live while it is in the scheduler and `create_req` did not reject it.
-/

namespace Sglang.Streaming
open List Keyed
open FinishReason (isAbort)

namespace Req
def Live (r : Req) : Prop := r.accepted = true ∧ r.place ≠ .gone
deriving Decidable

def Marked (r : Req) : Prop := ∃ message, r.toFinish = some (.abort message)

structure SameRole (r r' : Req) : Prop where
  rid : r'.rid = r.rid
  accepted : r'.accepted = r.accepted
  place : r'.place = r.place
  toFinish : r'.toFinish = r.toFinish
  finishedReason : r'.finishedReason = r.finishedReason
  retractedStain : r'.retractedStain = r.retractedStain
  attached : r'.attached = true → r.attached = true

lemma SameRole.refl (r : Req) : r.SameRole r := ⟨rfl, rfl, rfl, rfl, rfl, rfl, id⟩

lemma SameRole.trans {r₁ r₂ r₃ : Req} (h : r₁.SameRole r₂) (h' : r₂.SameRole r₃) : r₁.SameRole r₃ :=
  ⟨h'.rid.trans h.rid, h'.accepted.trans h.accepted, h'.place.trans h.place,
    h'.toFinish.trans h.toFinish, h'.finishedReason.trans h.finishedReason,
    h'.retractedStain.trans h.retractedStain, fun e => h.attached (h'.attached e)⟩

lemma SameRole.detach (r : Req) : r.SameRole r.detach := ⟨rfl, rfl, rfl, rfl, rfl, rfl, nofun⟩

lemma SameRole.off {r r' : Req} (h : r.SameRole r') (ha : r.attached = false) : r'.attached = false := by
  by_contra hne
  have := h.attached (by simpa using hne)
  simp [ha] at this

lemma SameRole.live {r r' : Req} (h : r.SameRole r') : r'.Live ↔ r.Live := by
  rw [Live, Live, h.accepted, h.place]
end Req

namespace State
variable {s s' : State} {r r' x x' : Req} {ps : Nat} {s₁ : State}

structure Keys (s : State) : Prop where
  nodup : (s.reqs.map Req.rid).Nodup
  below : ∀ x ∈ s.reqs, x.rid < s.nextRid

structure Moves (s s' : State) (r r' : Req) : Prop where
  keys : s'.reqs.map Req.rid = s.reqs.map Req.rid
  nextRid : s'.nextRid = s.nextRid
  rid : r'.rid = r.rid
  self : r' ∈ s'.reqs
  others : ∀ x' ∈ s'.reqs, x' = r' ∨ ∃ x ∈ s.reqs, x.rid ≠ r.rid ∧ x.SameRole x'
  kept : ∀ x ∈ s.reqs, x.rid ≠ r.rid → ∃ x' ∈ s'.reqs, x.SameRole x'

lemma Keys.congr (hk : s.Keys) (h : s'.reqs.map Req.rid = s.reqs.map Req.rid)
    (hn : s'.nextRid = s.nextRid) : s'.Keys where
  nodup := h ▸ hk.nodup
  below x hx := by
    have hmem : x.rid ∈ s.reqs.map Req.rid := h ▸ mem_map_of_mem hx
    obtain ⟨y, hy, e⟩ := mem_map.mp hmem
    rw [hn, ← e]
    exact hk.below y hy

lemma moves_setReq (r' : Req) (hk : s.Keys) (hr : r ∈ s.reqs) (hrid : r'.rid = r.rid) :
    Moves s (s.setReq r') r r' where
  keys := map_key_update fun _ _ _ => rfl
  nextRid := rfl
  rid := hrid
  self := by
    rw [setReq, hrid]
    exact (mem_update hk.nodup hr).mpr (.inl rfl)
  others x' hx' := by
    rw [setReq, hrid] at hx'
    rcases (mem_update hk.nodup hr).mp hx' with e | ⟨hx, hne⟩
    · exact .inl e
    · exact .inr ⟨x', hx, hne, .refl _⟩
  kept x hx hne := by
    refine ⟨x, ?_, .refl _⟩
    rw [setReq, hrid]
    exact (mem_update hk.nodup hr).mpr (.inr ⟨hx, hne⟩)

structure Detaches (s s₁ : State) : Prop where
  keys : s₁.reqs.map Req.rid = s.reqs.map Req.rid
  nextRid : s₁.nextRid = s.nextRid
  from_old : ∀ x' ∈ s₁.reqs, ∃ x ∈ s.reqs, x.SameRole x'
  to_new : ∀ x ∈ s.reqs, ∃ x' ∈ s₁.reqs, x.SameRole x'

lemma Detaches.of_eq (h : s'.reqs = s.reqs) (hn : s'.nextRid = s.nextRid) : Detaches s s' where
  keys := by rw [h]
  nextRid := hn
  from_old x' hx' := ⟨x', h ▸ hx', .refl _⟩
  to_new x hx := ⟨x, h ▸ hx, .refl _⟩

lemma Detaches.of_update (rid : Nat) (h : s'.reqs = update Req.rid rid Req.detach s.reqs)
    (hn : s'.nextRid = s.nextRid) : Detaches s s' where
  keys := h ▸ map_key_update fun _ _ e => e
  nextRid := hn
  from_old x' hx' := by
    rw [h, update] at hx'
    obtain ⟨x, hx, rfl⟩ := mem_map.mp hx'
    refine ⟨x, hx, ?_⟩
    split
    · exact .detach x
    · exact .refl x
  to_new x hx := by
    have hmem : (if x.rid = rid then x.detach else x) ∈ s'.reqs := by
      rw [h, update]
      grind
    refine ⟨_, hmem, ?_⟩
    split
    · exact .detach x
    · exact .refl x

lemma Detaches.moves (h : Detaches s s₁) (hk : s.Keys) (hr : r ∈ s.reqs)
    (hrid : r'.rid = r.rid) : Moves s (s₁.setReq r') r r' := by
  obtain ⟨y, hy, hry⟩ := h.to_new r hr
  have hm := moves_setReq r' (hk.congr h.keys h.nextRid) hy (hrid.trans hry.rid.symm)
  refine ⟨hm.keys.trans h.keys, h.nextRid, hrid, hm.self, fun x' hx' => ?_, fun x hx hne => ?_⟩
  · refine (hm.others x' hx').imp_right ?_
    rintro ⟨z, hz, hne, hzx⟩
    obtain ⟨x, hx, hxz⟩ := h.from_old z hz
    exact ⟨x, hx, fun e => hne (by rw [hxz.rid, hry.rid, e]), hxz.trans hzx⟩
  · obtain ⟨z, hz, hxz⟩ := h.to_new x hx
    obtain ⟨x', hx', hzx⟩ := hm.kept z hz fun e => hne (by rw [← hxz.rid, e, hry.rid])
    exact ⟨x', hx', hxz.trans hzx⟩

lemma moves_setReq_with (session : Session) (slot : Option SessionSlot) (effects : List Effect)
    (r' : Req) (hk : s.Keys) (hr : r ∈ s.reqs) (hrid : r'.rid = r.rid) :
    Moves s (setReq r' { s with session, slot, effects }) r r' := by
  have hsame : Detaches s { s with session, slot, effects } := .of_eq rfl rfl
  exact hsame.moves hk hr hrid

/-! ## What the functions do to the session and its slot -/

/-- Off the session nothing, an abort clears flag and slot, else the request is the node. -/
structure Released (s : State) (r : Req) (s₁ : State) (r₁ : Req) : Prop where
  role : r.SameRole r₁
  detaches : Detaches s s₁
  off : r.attached = false → s₁ = s
  aborted : r.attached = true → (r.finishedReason.map isAbort).getD false = true →
    s₁.session = s.session.abortReq ∧ s₁.slot = none
  finished : r.attached = true → (r.finishedReason.map isAbort).getD false = false →
    s₁.session = { s.session with inflight := false, node := some r.rid }

@[simp] lemma releaseSession_slot : s.releaseSession.slot = none := by
  unfold releaseSession
  split
  · assumption
  · rfl

@[simp] lemma releaseSession_session : s.releaseSession.session = s.session := by
  unfold releaseSession
  split <;> rfl

@[simp] lemma releaseSession_reqs : s.releaseSession.reqs = s.reqs := by
  unfold releaseSession
  split <;> rfl

@[simp] lemma releaseSession_nextRid : s.releaseSession.nextRid = s.nextRid := by
  unfold releaseSession
  split <;> rfl

lemma finishReq_spec (s : State) (r : Req) :
    r.SameRole (s.finishReq r).2 ∧ Detaches s (s.finishReq r).1 ∧
      (s.finishReq r).1.session = { s.session with inflight := false, node := some r.rid } := by
  unfold finishReq
  rcases hn : s.session.node with _ | prev
  · exact ⟨.refl r, .of_eq rfl rfl, rfl⟩
  refine ⟨?_, .of_update prev rfl rfl, rfl⟩
  dsimp only
  split
  · exact .detach r
  · exact .refl r

lemma releaseKvCache_spec (ps : Nat) (s : State) (r : Req) :
    Released s r (s.releaseKvCache ps r).1 (s.releaseKvCache ps r).2 := by
  unfold releaseKvCache
  split_ifs with hatt habort
  · refine ⟨⟨rfl, rfl, rfl, rfl, rfl, rfl, id⟩, .of_eq ?_ ?_, fun h => ?_, fun _ _ => ⟨?_, ?_⟩,
      fun _ h => ?_⟩
    · simp [cacheAborted]
    · simp [cacheAborted]
    · simp [hatt] at h
    · simp [cacheAborted]
    · simp [cacheAborted]
    · simp [habort] at h
  · have hsave : r.SameRole (s.saveToSlot ps r).2 := ⟨rfl, rfl, rfl, rfl, rfl, rfl, id⟩
    obtain ⟨hrole, hdet, hsession⟩ := finishReq_spec (s.saveToSlot ps r).1 (s.saveToSlot ps r).2
    exact ⟨hsave.trans hrole, { hdet with },
      fun h => absurd hatt (by simp [h]), fun _ h => absurd h habort, fun _ _ => hsession⟩
  · exact ⟨⟨rfl, rfl, rfl, rfl, rfl, rfl, id⟩, .of_eq rfl rfl, fun _ => rfl, fun h => absurd h hatt,
      fun h => absurd h hatt⟩

lemma release_eq (ps : Nat) (s : State) (r : Req) (after : Req → Req) : s.release ps r after =
    (s.releaseKvCache ps r).1.setReq (after (s.releaseKvCache ps r).2) := rfl

variable {after : Req → Req} {r₀ : Req} {params : SessionParams} {rid : Nat} {e : Event}

lemma release_moves (ps : Nat) (hk : s.Keys) (hr : r₀ ∈ s.reqs)
    (hrid : r.rid = r₀.rid) (hafter : ∀ x, (after x).rid = x.rid) :
    Moves s (s.release ps r after) r₀ (after (s.releaseKvCache ps r).2) := by
  have h := releaseKvCache_spec ps s r
  have hrid' : (after (s.releaseKvCache ps r).2).rid = r₀.rid :=
    (hafter _).trans (h.role.rid.trans hrid)
  exact h.detaches.moves hk hr hrid'

/-! ## The invariant -/

/-- At most one request is live, and the flag stands for it unless it was retracted or taken off. -/
structure Inv (s : State) : Prop extends s.Keys where
  unique : ∀ x ∈ s.reqs, ∀ y ∈ s.reqs, x.Live → y.Live → x.rid = y.rid
  flagged : ∀ x ∈ s.reqs, x.Live →
    s.session.inflight = true ∨ x.retractedStain = true ∨ x.attached = false
  marked : ∀ x ∈ s.reqs, x.accepted = false → x.place ≠ .gone → x.Marked

lemma Inv.moves (h : s.Inv) (hr : r ∈ s.reqs) (hm : Moves s s' r r') (hlive : r'.Live → r.Live)
    (hflag : r'.Live → s'.session.inflight = true ∨ r'.retractedStain = true ∨ r'.attached = false)
    (hother : ¬ r.Live → s.session.inflight = true → s'.session.inflight = true)
    (hmark : r'.accepted = false → r'.place ≠ .gone → r'.Marked) : s'.Inv where
  __ := h.toKeys.congr hm.keys hm.nextRid
  unique x' hx' y' hy' hx hy := by
    -- the request that a live one comes from was live
    have hback : ∀ z' ∈ s'.reqs, z'.Live → ∃ z ∈ s.reqs, z.rid = z'.rid ∧ z.Live := by
      intro z' hz' hlz
      rcases hm.others z' hz' with rfl | ⟨z, hz, _, hrole⟩
      · exact ⟨r, hr, hm.rid.symm, hlive hlz⟩
      · exact ⟨z, hz, hrole.rid.symm, hrole.live.mp hlz⟩
    obtain ⟨x, hx0, hxr, hxl⟩ := hback x' hx' hx
    obtain ⟨y, hy0, hyr, hyl⟩ := hback y' hy' hy
    rw [← hxr, ← hyr]
    exact h.unique x hx0 y hy0 hxl hyl
  flagged x' hx' hx := by
    rcases hm.others x' hx' with rfl | ⟨x, hx0, hne, hrole⟩
    · exact hflag hx
    have hxl := hrole.live.mp hx
    have hnot : ¬ r.Live := fun hrl => hne (h.unique x hx0 r hr hxl hrl)
    rcases h.flagged x hx0 hxl with hi | hs | ha
    · exact .inl (hother hnot hi)
    · exact .inr (.inl (hrole.retractedStain.trans hs))
    · exact .inr (.inr (hrole.off ha))
  marked x' hx' hacc hplace := by
    rcases hm.others x' hx' with rfl | ⟨x, hx, _, hrole⟩
    · exact hmark hacc hplace
    · rw [Req.Marked, hrole.toFinish]
      exact h.marked x hx (hrole.accepted ▸ hacc) (hrole.place ▸ hplace)

def HarmlessWhenRejected (s : State) : Event → Prop
  | .matchPrefix _ _ _ _ => s.session.inflight = false ∨ s.slot = none
  | .finish _ _ _ | .abortChunked _ => s.session.inflight = false ∧ s.slot = none
  | .retract _ | .abortOutOfMemory _ => False
  | _ => True

instance (s : State) : DecidablePred s.HarmlessWhenRejected := fun e => by
  cases e <;> unfold HarmlessWhenRejected <;> infer_instance

def SeparateReq (s : State) (e : Event) : Prop :=
  ∀ x ∈ s.reqs, e.rid? = some x.rid → x.accepted = false → x.attached = true → s.HarmlessWhenRejected e

instance (s : State) (e : Event) : Decidable (s.SeparateReq e) :=
  inferInstanceAs (Decidable (∀ x ∈ s.reqs, e.rid? = some x.rid → x.accepted = false →
    x.attached = true → s.HarmlessWhenRejected e))

/-- No rejected request meets a session in use, none is created beside a retracted or removed live
one. -/
def Separate (s : State) : Event → Prop
  | .create _ _ => ∀ x ∈ s.reqs, x.Live → x.retractedStain = false ∧ x.attached = true
  | e => s.SeparateReq e

instance (s : State) : DecidablePred s.Separate := fun e => by
  cases e <;> unfold Separate <;> infer_instance

lemma mem_of_req? (hk : s.Keys) (h : s.req? rid = some r) : r ∈ s.reqs ∧ r.rid = rid :=
  (get?_eq_some hk.nodup).mp h

lemma withReq_induction {P : State → Prop} {places : List Place}
    {f : Req → State → State} (hk : s.Keys) (hs : P s)
    (hf : ∀ r ∈ s.reqs, r.rid = rid → r.place ∈ places → P (f r s)) : P (s.withReq rid places f) := by
  unfold withReq
  rcases h : s.req? rid with _ | r
  · exact hs
  obtain ⟨hr, hrid⟩ := mem_of_req? hk h
  grind

lemma Inv.setReq (h : s.Inv) (hr : r ∈ s.reqs) (hrid : r'.rid = r.rid)
    (hacc : r'.accepted = r.accepted) (hplace : r.place = .gone → r'.place = .gone)
    (hstain : r'.retractedStain = r.retractedStain) (hatt : r'.attached = r.attached)
    (hmark : r.Marked → r'.Marked) : (s.setReq r').Inv := by
  have hlive : r'.Live → r.Live := fun ⟨ha, hp⟩ => ⟨hacc ▸ ha, mt hplace hp⟩
  refine h.moves hr (moves_setReq r' h.toKeys hr hrid) hlive (fun hl => ?_) (fun _ hi => hi)
    fun ha hp => ?_
  · rw [hstain, hatt]
    exact h.flagged r hr (hlive hl)
  · exact hmark (h.marked r hr (hacc ▸ ha) (mt hplace hp))

lemma Keys.addReq (hk : s.Keys) (hrid : r.rid = s.nextRid) : (s.addReq r).Keys where
  nodup := by
    rw [State.addReq, map_append, nodup_append]
    refine ⟨hk.nodup, nodup_singleton _, fun a ha b hb => ?_⟩
    obtain ⟨x, hx, rfl⟩ := mem_map.mp ha
    rw [map_singleton, mem_singleton, hrid] at hb
    exact hb ▸ (hk.below x hx).ne
  below x hx := by
    rcases mem_append.mp hx with hx | hx
    · exact Nat.lt_succ_of_lt (hk.below x hx)
    · rw [mem_singleton.mp hx, hrid]
      exact Nat.lt_succ_self _

lemma Inv.addReq (h : s.Inv) {session : Session} (hrid : r.rid = s.nextRid)
    (hlive : r.Live → (∀ x ∈ s.reqs, ¬ x.Live) ∧ session.inflight = true)
    (hflag : s.session.inflight = true → session.inflight = true)
    (hmark : r.accepted = false → r.Marked) : (addReq r { s with session }).Inv where
  __ : State.Keys _ := Keys.addReq (s := { s with session }) ⟨h.nodup, h.below⟩ hrid
  unique x hx y hy hxl hyl := by
    rcases mem_append.mp hx with hx | hx <;> rcases mem_append.mp hy with hy | hy
    · exact h.unique x hx y hy hxl hyl
    · grind
    · grind
    · rw [mem_singleton.mp hx, mem_singleton.mp hy]
  flagged x hx hxl := by
    rcases mem_append.mp hx with hx | hx
    · exact (h.flagged x hx hxl).imp_left hflag
    · rw [mem_singleton.mp hx] at hxl
      exact .inl (hlive hxl).2
  marked x hx hacc hplace := by
    rcases mem_append.mp hx with hx | hx
    · exact h.marked x hx hacc hplace
    grind

lemma createReq_ok {a b : Session} (h : a.createReq params = .ok b) :
    a.inflight = false ∧ b = { a with inflight := true } := by
  unfold Session.createReq at h
  grind

lemma Inv.create (h : s.Inv) {inputLen : Nat}
    (hsep : ∀ x ∈ s.reqs, x.Live → x.retractedStain = false ∧ x.attached = true) :
    (s.create params inputLen).Inv := by
  unfold State.create
  split
  · exact h
  rcases hc : s.session.createReq params with message | session
  · exact h.addReq rfl (fun hl => absurd hl.1 Bool.false_ne_true) id fun _ => ⟨message, rfl⟩
  obtain ⟨hflag, rfl⟩ := createReq_ok hc
  refine h.addReq rfl (fun _ => ⟨fun x hx hl => ?_, rfl⟩) (fun _ => rfl) nofun
  -- the flag is down, so a live request would be one that was retracted or taken off
  obtain ⟨hstain, hatt⟩ := hsep x hx hl
  rcases h.flagged x hx hl with hi | hs | ha
  · simp [hflag] at hi
  · simp [hstain] at hs
  · simp [hatt] at ha

lemma Inv.matchPrefix (h : s.Inv) (hr : r ∈ s.reqs) {keyLen node matched : Nat}
    (hsep : r.accepted = false → r.attached = true → s.session.inflight = false ∨ s.slot = none)
    (hplace : r.place ≠ .gone) : (s.matchPrefix ps keyLen node matched r).Inv := by
  have htree : (s.matchTree node matched r).Inv := h.setReq hr rfl rfl id rfl rfl id
  unfold State.matchPrefix
  rcases hslot : s.slot with _ | slot
  · exact htree
  dsimp only
  split_ifs with hatt hfin
  · have hm := moves_setReq_with s.session.abortReq (some slot) s.effects
      { r.detach with lastNode := some (.tree node), cacheProtectedLen := matched } h.toKeys hr rfl
    refine h.moves hr hm id (fun _ => .inr (.inr rfl)) (fun hnot hi => ?_)
      fun hacc hp => h.marked r hr hacc hp
    · have hacc : r.accepted = false := by
        by_contra hne
        exact hnot ⟨by simpa using hne, hplace⟩
      grind
  · -- the request restores the slot; it is not a rejected one
    refine h.moves hr (moves_setReq_with _ _ _ _ h.toKeys hr ?_) ?_ (fun hl => ?_) (fun _ hi => hi)
      fun hacc hp => ?_
    · rfl
    · exact id
    · exact h.flagged r hr hl
    · exact h.marked r hr hacc hp
  · exact htree

section
variable (h : s.Inv) (hr : r₀ ∈ s.reqs) (hplace : r₀.place ≠ .gone) (hrid : r.rid = r₀.rid)
  (hatt : r.attached = r₀.attached) (hafter : ∀ x, (after x).rid = x.rid)
include h hr hplace hrid hatt hafter

lemma Inv.release (hlive : ∀ x, r.SameRole x → (after x).Live → r₀.Live ∧ (after x).retractedStain = true)
    (hsep : r₀.accepted = false → r₀.attached = true → s.session.inflight = false)
    (hmark : ∀ x, r.SameRole x → (after x).accepted = false → (after x).place ≠ .gone →
      (after x).Marked) : (s.release ps r after).Inv := by
  have hspec := releaseKvCache_spec ps s r
  refine h.moves hr (release_moves ps h.toKeys hr hrid hafter)
    (fun hl => (hlive _ hspec.role hl).1) (fun hl => .inr (.inl (hlive _ hspec.role hl).2))
    (fun hnot hi => ?_) (hmark _ hspec.role)
  have hacc : r₀.accepted = false := by
    by_contra hne
    exact hnot ⟨by simpa using hne, hplace⟩
  by_cases hon : r₀.attached = true
  · simp [hsep hacc hon] at hi
  -- off the session nothing changes
  have hsame := hspec.off (by rw [hatt]; simpa using hon)
  have hsession : (s.release ps r after).session = (s.releaseKvCache ps r).1.session := rfl
  rw [hsession, hsame]
  exact hi

lemma Inv.release_leave (hgone : ∀ x, (after x).place = .gone)
    (hsep : r₀.accepted = false → r₀.attached = true → s.session.inflight = false) :
    (s.release ps r after).Inv :=
  h.release hr hplace hrid hatt hafter (fun x _ hl => absurd (hgone x) hl.2) hsep
    fun x _ _ hp => absurd (hgone x) hp
end

lemma updateFinishState_fields (reason : FinishReason) (len : Option Nat) :
    (r.updateFinishState reason len).rid = r.rid ∧
      (r.updateFinishState reason len).attached = r.attached := by
  unfold Req.updateFinishState
  split <;> exact ⟨rfl, rfl⟩

lemma Detaches.trans {s₂ s₃ : State} (h : Detaches s₁ s₂) (h' : Detaches s₂ s₃) : Detaches s₁ s₃ where
  keys := h'.keys.trans h.keys
  nextRid := h'.nextRid.trans h.nextRid
  from_old x'' hx'' := by
    obtain ⟨x', hx', hr'⟩ := h'.from_old x'' hx''
    obtain ⟨x, hx, hr⟩ := h.from_old x' hx'
    exact ⟨x, hx, hr.trans hr'⟩
  to_new x hx := by
    obtain ⟨x', hx', hr⟩ := h.to_new x hx
    obtain ⟨x'', hx'', hr'⟩ := h'.to_new x' hx'
    exact ⟨x'', hx'', hr.trans hr'⟩

lemma doClose_spec (s : State) :
    Detaches s s.doClose ∧ s.doClose.session.inflight = s.session.inflight ∧
      s.doClose.session.node = s.session.node := by
  unfold doClose
  split
  · exact ⟨.of_eq rfl rfl, rfl, rfl⟩
  cases hn : s.session.node with
  | none =>
    refine ⟨.of_eq ?_ ?_, ?_, ?_⟩ <;> simp [hn]
  | some rid =>
    refine ⟨.of_update rid ?_ ?_, ?_, ?_⟩ <;> simp [hn]

lemma reapPending_spec (s : State) :
    Detaches s s.reapPending ∧ s.reapPending.session.inflight = s.session.inflight ∧
      s.reapPending.session.node = s.session.node := by
  unfold reapPending
  split
  · obtain ⟨hd, hi, hn⟩ := doClose_spec { s with session := { s.session with closeOnFinish := false } }
    exact ⟨{ hd with }, hi, hn⟩
  · exact ⟨.of_eq rfl rfl, rfl, rfl⟩

lemma maybeReap_spec (s : State) (now interval : Int) (timedOut : Bool) :
    Detaches s (s.maybeReap now interval timedOut) ∧
      (s.maybeReap now interval timedOut).session.inflight = s.session.inflight ∧
      (s.maybeReap now interval timedOut).session.node = s.session.node := by
  unfold maybeReap
  split
  · obtain ⟨hd, hi, hn⟩ := reapPending_spec { s with lastReapTime := now }
    dsimp only
    split
    · obtain ⟨hd', hi', hn'⟩ := doClose_spec (reapPending { s with lastReapTime := now })
      exact ⟨{ hd.trans hd' with }, hi'.trans hi, hn'.trans hn⟩
    · exact ⟨{ hd with }, hi, hn⟩
  · exact ⟨.of_eq rfl rfl, rfl, rfl⟩

lemma Inv.detaches (h : s.Inv) (hd : Detaches s s')
    (hi : s'.session.inflight = s.session.inflight) : s'.Inv where
  __ := h.toKeys.congr hd.keys hd.nextRid
  unique x' hx' y' hy' hxl hyl := by
    obtain ⟨x, hx, hxr⟩ := hd.from_old x' hx'
    obtain ⟨y, hy, hyr⟩ := hd.from_old y' hy'
    rw [hxr.rid, hyr.rid]
    exact h.unique x hx y hy (hxr.live.mp hxl) (hyr.live.mp hyl)
  flagged x' hx' hl := by
    obtain ⟨x, hx, hrole⟩ := hd.from_old x' hx'
    rw [hi]
    rcases h.flagged x hx (hrole.live.mp hl) with hf | hs | ha
    · exact .inl hf
    · exact .inr (.inl (hrole.retractedStain.trans hs))
    · exact .inr (.inr (hrole.off ha))
  marked x' hx' hacc hp := by
    obtain ⟨x, hx, hrole⟩ := hd.from_old x' hx'
    rw [Req.Marked, hrole.toFinish]
    exact h.marked x hx (hrole.accepted ▸ hacc) (hrole.place ▸ hp)

lemma Inv.close (h : s.Inv) : s.close.Inv := by
  unfold State.close
  split
  · exact h
  · obtain ⟨hd, hi, -⟩ := doClose_spec s
    exact h.detaches hd hi

lemma Inv.next (h : s.Inv) (hsep : s.Separate e) : (s.next ps e).Inv := by
  cases e with
  | create params inputLen => exact h.create hsep
  | reject rid message | abortRunning rid message =>
    refine withReq_induction h.toKeys h fun r hr _ _ => ?_
    exact h.setReq hr rfl rfl id rfl rfl fun _ => ⟨message, rfl⟩
  | matchPrefix rid keyLen node matched =>
    refine withReq_induction h.toKeys h fun r hr hrid hp => ?_
    refine h.matchPrefix hr (hsep r hr (congrArg some hrid.symm)) ?_
    rw [mem_singleton.mp hp]
    nofun
  | run rid row committed allocated output =>
    refine withReq_induction h.toKeys h fun r hr _ hp => ?_
    refine h.setReq hr rfl rfl (fun hg => ?_) rfl rfl id
    simp [hg] at hp
  | finish rid reason len =>
    refine withReq_induction h.toKeys h fun r hr hrid hp => ?_
    obtain ⟨hr1, ha1⟩ := updateFinishState_fields (r := r) reason len
    refine h.release_leave hr ?_ hr1 ha1 (fun _ => rfl) (fun _ => rfl)
      fun hacc hatt => (hsep r hr (congrArg some hrid.symm) hacc hatt).1
    rw [mem_singleton.mp hp]
    nofun
  | abortChunked rid =>
    refine withReq_induction h.toKeys h fun r hr hrid hp => ?_
    refine h.release_leave hr ?_ rfl rfl (fun _ => rfl) (fun _ => rfl)
      fun hacc hatt => (hsep r hr (congrArg some hrid.symm) hacc hatt).1
    rw [mem_singleton.mp hp]
    nofun
  | retract rid =>
    refine withReq_induction h.toKeys h fun r hr hrid hp => ?_
    have hplace : r.place ≠ .gone := by
      rw [mem_singleton.mp hp]
      nofun
    refine h.release hr hplace rfl rfl (fun _ => rfl) (fun x hrole hl => ⟨⟨?_, hplace⟩, rfl⟩)
      (fun hacc hatt => (hsep r hr (congrArg some hrid.symm) hacc hatt).elim) fun x hrole hacc _ => ?_
    · exact hrole.accepted ▸ hl.1
    · have hfin := h.marked r hr (hrole.accepted ▸ hacc) hplace
      rw [Req.Marked] at hfin ⊢
      exact hrole.toFinish ▸ hfin
  | abortOutOfMemory rid =>
    refine withReq_induction h.toKeys h fun r hr hrid hp => ?_
    unfold abortOutOfMemory
    refine h.release_leave hr ?_ rfl rfl ?_ ?_
      fun hacc hatt => (hsep r hr (congrArg some hrid.symm) hacc hatt).elim
    · rw [mem_singleton.mp hp]
      nofun
    · exact fun _ => rfl
    · exact fun _ => rfl
  | drop rid =>
    refine withReq_induction h.toKeys h fun r hr _ _ => ?_
    exact h.setReq hr rfl rfl (fun _ => rfl) rfl rfl id
  | close => exact h.close
  | maybeReap now interval timedOut =>
    obtain ⟨hd, hi, -⟩ := maybeReap_spec s now interval timedOut
    exact h.detaches hd hi

def ByRejected (s : State) : Event → Prop
  | .create params _ => ∃ message, s.session.createReq params = .error message
  | e => ∃ x ∈ s.reqs, e.rid? = some x.rid ∧ x.accepted = false

def SameUse (s s' : State) : Prop :=
  s'.session.inflight = s.session.inflight ∧ s'.slot = s.slot

lemma release_sameUse_of_off (hoff : r.attached = false) : SameUse s (s.release ps r after) := by
  have hsame := (releaseKvCache_spec ps s r).off hoff
  exact ⟨congrArg (·.session.inflight) hsame, congrArg (·.slot) hsame⟩

lemma release_sameUse (hsep : r.attached = true → s.session.inflight = false ∧ s.slot = none)
    (habort : (r.finishedReason.map isAbort).getD false = true) : SameUse s (s.release ps r after) := by
  by_cases hatt : r.attached = true
  · obtain ⟨hsession, hslot⟩ := (releaseKvCache_spec ps s r).aborted hatt habort
    obtain ⟨hi, hn⟩ := hsep hatt
    have hrel : SameUse s (s.releaseKvCache ps r).1 :=
      ⟨by rw [hsession, hi]; rfl, by rw [hslot, hn]⟩
    exact hrel
  · exact release_sameUse_of_off (by simpa using hatt)

lemma Inv.sameUse (h : s.Inv) (hsep : s.Separate e) (hrej : s.ByRejected e) :
    SameUse s (s.next ps e) := by
  have hself : SameUse s s := ⟨rfl, rfl⟩
  -- the request of the event is the rejected one
  have hreq : ∀ rid, e.rid? = some rid → s.ByRejected e →
      ∀ r ∈ s.reqs, r.rid = rid → r.accepted = false := by
    intro rid he hrej r hr hrid
    have hx : ∃ x ∈ s.reqs, e.rid? = some x.rid ∧ x.accepted = false := by
      cases e <;> first | exact hrej | simp [Event.rid?] at he
    obtain ⟨x, hx, hxe, hacc⟩ := hx
    have hsame : x.rid = r.rid := by
      grind
    rw [← inj_on_of_nodup_map h.nodup hx hr hsame]
    exact hacc
  cases e with
  | create params inputLen =>
    obtain ⟨message, herr⟩ := hrej
    show SameUse s (s.create params inputLen)
    unfold State.create
    split
    · exact hself
    · rw [herr]
      exact hself
  | reject rid message | abortRunning rid message | run rid row committed allocated output
  | drop rid => exact withReq_induction h.toKeys hself fun _ _ _ _ => ⟨rfl, rfl⟩
  | matchPrefix rid keyLen node matched =>
    refine withReq_induction h.toKeys hself fun r hr hrid hp => ?_
    have hacc := hreq rid rfl hrej r hr hrid
    obtain ⟨message, hmark⟩ := h.marked r hr hacc (by rw [mem_singleton.mp hp]; nofun)
    unfold State.matchPrefix
    rcases hslot : s.slot with _ | slot
    · exact ⟨rfl, rfl⟩
    dsimp only
    split_ifs with hatt hfin
    · simp only [Bool.and_eq_true] at hatt
      have hflag := (hsep r hr (congrArg some hrid.symm) hacc hatt.1).resolve_right (by simp [hslot])
      exact ⟨hflag.symm, hslot.symm⟩
    · simp [hmark] at hfin
    · exact ⟨rfl, rfl⟩
  | finish rid reason len =>
    refine withReq_induction h.toKeys hself fun r hr hrid hp => ?_
    have hacc := hreq rid rfl hrej r hr hrid
    obtain ⟨message, hmark⟩ := h.marked r hr hacc (by rw [mem_singleton.mp hp]; nofun)
    refine release_sameUse (fun hatt => ?_) ?_
    · rw [(updateFinishState_fields reason len).2] at hatt
      exact hsep r hr (congrArg some hrid.symm) hacc hatt
    · simp [Req.updateFinishState, hmark, isAbort]
  | abortChunked rid =>
    refine withReq_induction h.toKeys hself fun r hr hrid hp => ?_
    have hacc := hreq rid rfl hrej r hr hrid
    exact release_sameUse (fun hatt => hsep r hr (congrArg some hrid.symm) hacc hatt) rfl
  | retract rid | abortOutOfMemory rid =>
    refine withReq_induction h.toKeys hself fun r hr hrid hp => ?_
    refine release_sameUse_of_off ?_
    by_contra hne
    exact hsep r hr (congrArg some hrid.symm) (hreq rid rfl hrej r hr hrid) (by simpa using hne)
  | close | maybeReap now interval timedOut =>
    exact absurd hrej (by rintro ⟨x, _, hx, _⟩; simp [Event.rid?] at hx)

lemma inv_start : start.Inv := by
  refine ⟨⟨nodup_nil, ?_⟩, ?_, ?_, ?_⟩ <;> simp [start]

lemma Inv.live_le_one (h : s.Inv) : (s.reqs.filter fun x => x.Live).length ≤ 1 := by
  have hnodup := h.nodup.sublist (filter_sublist (p := fun x => x.Live) |>.map Req.rid)
  have hmem : ∀ x ∈ s.reqs.filter fun x => x.Live, x ∈ s.reqs ∧ x.Live := by simp
  generalize (s.reqs.filter fun x => x.Live) = live at hnodup hmem
  rcases live with _ | ⟨a, _ | ⟨b, rest⟩⟩
  · exact Nat.zero_le 1
  · exact le_refl 1
  -- two live requests would have the same rid
  obtain ⟨ha, hal⟩ := hmem a (by simp)
  obtain ⟨hb, hbl⟩ := hmem b (by simp)
  have hsame := h.unique a ha b hb hal hbl
  simp [hsame] at hnodup

/-- In every run with separate requests at most one is live, and a rejected one changes neither flag
nor slot. -/
theorem session_exclusive {past : List Event} (hr : Run (next ps) Separate start past s) :
    (s.reqs.filter fun x => x.Live).length ≤ 1 ∧
      ∀ e, s.Separate e → s.ByRejected e → SameUse s (s.next ps e) := by
  have h : s.Inv := Run.invariant (I := fun _ s => s.Inv) inv_start (fun _ _ _ h hsep => h.next hsep) hr
  exact ⟨h.live_le_one, fun e hsep hrej => h.sameUse hsep hrej⟩

def append : SessionParams := ⟨false, false, none⟩

def orderlyTurns : List Event :=
  [.create append 3, .matchPrefix 0 2 0 0, .run 0 7 3 4 1, .finish 0 .stop none,
    .create ⟨true, false, none⟩ 3, .matchPrefix 1 0 0 0, .run 1 8 1 1 0,
    .create append 9, .matchPrefix 2 8 0 0, .run 2 0 9 10 1, .retract 2, .matchPrefix 2 9 0 0,
    .run 2 0 10 11 2]

theorem orderlyTurns_exclusive :
    (orderlyTurns.foldl (next 1) start).reqs.length = 3 ∧
      ((orderlyTurns.foldl (next 1) start).reqs.filter fun x => x.Live).length ≤ 1 := by
  have hrun : Run (next 1) Separate start (orderlyTurns.reverse ++ [])
      (orderlyTurns.foldl (next 1) start) := Run.of_admitted orderlyTurns .start (by decide +kernel)
  exact ⟨by decide +kernel, (session_exclusive hrun).1⟩

def concurrentTurns : List Event :=
  [.create append 3, .matchPrefix 0 2 0 0, .run 0 7 3 4 1, .finish 0 .stop none,
    .create append 9, .matchPrefix 1 8 0 0, .run 1 0 9 10 1, .create append 12,
    .matchPrefix 2 0 0 0, .create append 12]

/-- The first turn is retracted and waits; a second request comes. -/
def retractedTurn : List Event :=
  [.create append 3, .matchPrefix 0 2 0 0, .run 0 7 3 4 1, .retract 0, .create append 9]

/-- The rejected request clears the flag of the running one, the retraction that of the waiting one.
-/
theorem rejected_clears_flag :
    ((concurrentTurns.take 8).foldl (next 1) start).ByRejected (.matchPrefix 2 0 0 0) ∧
      ((concurrentTurns.take 8).foldl (next 1) start).session.inflight = true ∧
      ((concurrentTurns.take 9).foldl (next 1) start).session.inflight = false ∧
      ((concurrentTurns.foldl (next 1) start).reqs.filter fun x => x.Live).length = 2 ∧
      ((retractedTurn.foldl (next 1) start).reqs.filter fun x => x.Live).length = 2 := by
  refine ⟨⟨_, .tail _ (.tail _ (.head _)), rfl, ?_⟩, ?_, ?_, ?_, ?_⟩ <;> decide +kernel
end State
end Sglang.Streaming
