import Sglang.Ngram.TrieRuns

/-!
# Advancing the anchors and building them anew

A request matches its context again and again while it grows; between two calls the trie changes.
Suffixes that were absent are not looked up again, so such an insertion can be missed.
-/

namespace Sglang.Ngram
open List Function

def lastTokens (k : Nat) (context : List Int) : List Int := context.drop (context.length - k)

lemma length_lastTokens {k : Nat} {context : List Int} (h : k ≤ context.length) :
    (lastTokens k context).length = k := by
  rw [lastTokens, length_drop]
  omega

lemma lastTokens_lastTokens {j k : Nat} (context : List Int) (h : j ≤ k) (hk : k ≤ context.length) :
    lastTokens j (lastTokens k context) = lastTokens j context := by
  rw [lastTokens, length_lastTokens hk, lastTokens, drop_drop, lastTokens]
  congr 1
  omega

lemma lastTokens_concat {k : Nat} {context : List Int} {token : Int} (h : k ≤ context.length) :
    lastTokens (k + 1) (context ++ [token]) = lastTokens k context ++ [token] := by
  rw [lastTokens, lastTokens, length_append, length_singleton, Nat.add_sub_add_right,
    drop_append_of_le_length (by omega)]

variable {s : Trie} {spell : Nat → Option (List Int)} {context tokens : List Int}
  {anchors : List NodeRef}
  {token : Int}

namespace Trie
/-! ## What is found now -/

def anchor (s : Trie) (u : List Int) : NodeRef := s.capture (s.find u)

lemma extendRef_anchor (u : List Int) : s.extendRef token (s.anchor u) = s.anchor (u ++ [token]) := by
  unfold anchor
  rw [find_concat]
  cases s.find u with
  | none => rfl
  | some n => rfl

lemma rebuild_anchors_length (s : Trie) (context : List Int) (totalLen : Nat) :
    (s.rebuildMatchState context totalLen).anchors.length = min context.length s.maxTrieDepth := by
  rw [rebuildMatchState, length_map, length_range]

lemma rebuild_anchors_getElem? {k : Nat} (totalLen : Nat) (hk : k < min context.length s.maxTrieDepth) :
    (s.rebuildMatchState context totalLen).anchors[k]? = some
    (s.anchor (lastTokens (k + 1) context)) := by
  rw [rebuildMatchState, getElem?_map, getElem?_range hk]
  rfl

/-- The anchors that count after `left` more tokens: null where they are `stale`, else right. -/
structure Found (s : Trie) (context : List Int) (left : Nat) (stale : Nat → Prop) (anchors : List NodeRef) :
    Prop where
  length : anchors.length = min context.length s.maxTrieDepth
  null : ∀ k, k < anchors.length → k + 1 + left ≤ s.maxTrieDepth → stale k → anchors[k]? = some {}
  right : ∀ k, k < anchors.length → k + 1 + left ≤ s.maxTrieDepth → ¬stale k →
    anchors[k]? = some (s.anchor (lastTokens (k + 1) context))

lemma anchor_eq_null {u : List Int} : s.anchor u = {} ↔ s.find u = none := by
  unfold Trie.anchor
  cases s.find u with
  | none => exact iff_of_true rfl rfl
  | some n => exact iff_of_false (fun e => by cases congrArg NodeRef.ptr e) (Option.some_ne_none n)

variable {stale : Nat → Prop}

lemma Found.eq_rebuild_iff (h : s.Found context 0 stale anchors) (totalLen : Nat) :
    anchors = (s.rebuildMatchState context totalLen).anchors ↔
      ∀ k < anchors.length, stale k → s.find (lastTokens (k + 1) context) = none := by
  have hlen := h.length
  constructor
  · intro e k hk hs
    have h1 := h.null k hk (by omega) hs
    rw [e, rebuild_anchors_getElem? totalLen (by omega)] at h1
    exact anchor_eq_null.mp (Option.some.inj h1)
  intro habs
  refine ext_getElem? fun k => ?_
  by_cases hk : k < anchors.length
  · rw [rebuild_anchors_getElem? totalLen (by omega)]
    by_cases hs : stale k
    · rw [h.null k hk (by omega) hs, anchor_eq_null.mpr (habs k hk hs)]
    · exact h.right k hk (by omega) hs
  · have hlen' := rebuild_anchors_length s context totalLen
    grind

lemma length_extendAnchors (s : Trie) (anchors : List NodeRef) (token : Int) :
    (s.extendAnchors anchors token).length = min (anchors.length + 1) s.maxTrieDepth := by
  rw [extendAnchors, length_take, length_cons, length_map, length_take]
  omega

lemma extendAnchors_succ {k : Nat} (hk : k + 1 < min (anchors.length + 1) s.maxTrieDepth) :
    (s.extendAnchors anchors token)[k + 1]? = anchors[k]?.map (s.extendRef token) := by
  rw [extendAnchors, getElem?_take_of_lt hk, getElem?_cons_succ, getElem?_map,
    getElem?_take_of_lt (by omega)]

lemma Found.extend {left : Nat} (h : s.Found context (left + 1) stale anchors) (token : Int) :
    s.Found (context ++ [token]) left (fun k => ∃ j, k = j + 1 ∧ stale j) (s.extendAnchors anchors token) := by
  have hlen := h.length
  have hlen' := length_extendAnchors s anchors token
  refine ⟨?_, fun k hk hle hs => ?_, fun k hk hle hs => ?_⟩
  · grind
  · obtain ⟨j, rfl, hj⟩ := hs
    rw [extendAnchors_succ (by omega), h.null j (by omega) (by omega) hj]
    rfl
  rcases k with _ | k
  · rw [extendAnchors, getElem?_take_of_lt (by omega), getElem?_cons_zero, lastTokens_concat zero_le]
    have he : lastTokens 0 context = [] := drop_eq_nil_of_le (by omega)
    rw [he, Trie.anchor, find_concat]
    rfl
  rw [extendAnchors_succ (by omega), h.right k (by omega) (by omega) fun hj => hs ⟨k, rfl, hj⟩,
    lastTokens_concat (by omega)]
  exact congrArg some (extendRef_anchor _)

lemma Found.foldl (h : s.Found context tokens.length stale anchors) :
    s.Found (context ++ tokens) 0 (fun k => ∃ j, k = j + tokens.length ∧ stale j)
      (tokens.foldl s.extendAnchors anchors) := by
  induction tokens generalizing context anchors stale with
  | nil =>
    rw [append_nil]
    exact ⟨h.length, fun k hk hle ⟨j, e, hj⟩ => h.null k hk hle (e ▸ hj),
      fun k hk hle hs => h.right k hk hle fun hk => hs ⟨k, rfl, hk⟩⟩
  | cons t ts ih => ?_
  have hrest := ih (h.extend t)
  rw [append_assoc] at hrest
  have hstale : ∀ k, (∃ j, k = j + ts.length ∧ ∃ i, j = i + 1 ∧ stale i) ↔
      ∃ j, k = j + (t :: ts).length ∧ stale j := by
    intro k
    rw [length_cons]
    constructor
    · rintro ⟨_, rfl, i, rfl, hi⟩
      exact ⟨i, by omega, hi⟩
    · rintro ⟨i, rfl, hi⟩
      exact ⟨i + 1, by omega, i, rfl, hi⟩
  exact ⟨hrest.length, fun k hk hle hs => hrest.null k hk hle ((hstale k).mpr hs),
    fun k hk hle hs => hrest.right k hk hle fun hk => hs ((hstale k).mp hk)⟩

lemma rebuild_lastTokens {len totalLen : Nat} (hlen : min context.length s.maxTrieDepth ≤ len)
    (hle : len ≤ context.length) :
    s.rebuildMatchState (lastTokens len context) totalLen = s.rebuildMatchState context totalLen := by
  unfold rebuildMatchState
  rw [length_lastTokens hle]
  have hmin : min len s.maxTrieDepth = min context.length s.maxTrieDepth := by omega
  rw [hmin]
  congr 1
  refine map_congr_left fun k hk => ?_
  rw [mem_range] at hk
  have := lastTokens_lastTokens context (by omega : k + 1 ≤ len) hle
  rw [lastTokens, length_lastTokens hle] at this
  rw [this]
  rfl
end Trie

lemma RefHolds.anchor (h : TrieShape s.nodes s.root spell) (u : List Int) :
    RefHolds s spell s.trieEpoch (s.anchor u) u := by
  unfold Trie.anchor
  cases hf : s.find u with
  | none => exact .none
  | some n => exact .capture ((Trie.find_iff h).mp hf)

/-! ## Requests -/

/-- The session with the context of each request at its last call. -/
structure Requests where
  session : Session
  contexts : Nat → List Int := fun _ => []

/-- `batchMatch` is given the last `len` tokens. -/
inductive NgramCall
  | insert (tokens : List Int)
  | squeeze (count : Nat)
  | reset
  | batchMatch (id : Nat) (context : List Int) (len : Nat)
  deriving DecidableEq

namespace Requests
def toTrieCall : NgramCall → TrieCall
  | .insert tokens => .insert tokens
  | .squeeze count => .squeeze count
  | .reset => .reset
  | .batchMatch id context len => .matchRequest id (lastTokens len context) context.length

def contextsAfter (contexts : Nat → List Int) : NgramCall → Nat → List Int
  | .batchMatch id context _ => update contexts id context
  | _ => contexts

def call (c : Requests) (op : NgramCall) : Except TrieErr Requests :=
  (c.session.call (toTrieCall op)).map fun session =>
    { session, contexts := contextsAfter c.contexts op }

variable (c : Requests) (id : Nat) (op : NgramCall)

def next : Requests := (c.call op).toOption.getD c

def Grows : NgramCall → Prop
  | .batchMatch id context len =>
    c.contexts id <+: context ∧ min context.length c.session.trie.maxTrieDepth ≤ len ∧ len ≤ context.length ∧ 0 < len
  | _ => True

instance (c : Requests) : DecidablePred c.Grows := fun e => by
  cases e <;> unfold Grows <;> infer_instance

def Legal : Prop := (∃ c', c.call op = .ok c') ∧ c.Grows op

/-- No suffix that goes on from one cached as absent is in the trie, if anchors are advanced. -/
def AbsencesHold (context : List Int) (len : Nat) : Prop :=
  let s := c.session.trie
  let state := c.session.states id
  let new := context.length - (c.contexts id).length
  s.canAdvance (lastTokens len context) state context.length = true → s.validateMatchState state = true →
    ∀ k ref, state.anchors[k]? = some ref → ref.ptr = none → k + 1 + new ≤ s.maxTrieDepth →
      s.find (lastTokens (k + 1 + new) context) = none

def Agrees : Prop :=
  (c.session.states id).anchors =
    (c.session.trie.rebuildMatchState (c.contexts id) (c.contexts id).length).anchors
end Requests

variable {c c' : Requests} {op : NgramCall} {past : List TrieCall}

structure RequestsInv (past : List TrieCall) (c : Requests) (spell : Nat → Option (List Int)) : Prop where
  session : SessionInv past c.session spell
  processed : ∀ id, (c.session.states id).processedTotalLen = (c.contexts id).length
  length : ∀ id, (c.session.states id).anchors.length = min (c.contexts id).length c.session.trie.maxTrieDepth
  anchors : ∀ id k ref, (c.session.states id).anchors[k]? = some ref →
    RefHolds c.session.trie spell (c.session.states id).trieEpoch ref (lastTokens (k + 1) (c.contexts id))

namespace RequestsInv
variable (h : RequestsInv past c spell)
include h

lemma found (id left : Nat) (hv : c.session.trie.validateMatchState (c.session.states id) = true) :
    c.session.trie.Found (c.contexts id) left
      (fun k => ∃ ref, (c.session.states id).anchors[k]? = some ref ∧ ref.ptr = none)
      (c.session.states id).anchors := by
  refine ⟨h.length id, fun k hk _ ⟨ref, hget, hp⟩ => ?_, fun k hk _ hs => ?_⟩
  · rw [hget, (h.anchors id k ref hget).null hp]
  have hget := getElem?_eq_getElem hk
  set ref := (c.session.states id).anchors[k]
  have hh := h.anchors id k ref hget
  -- the validation has found the node with its version
  rw [Trie.validateMatchState, Bool.and_eq_true, all_eq_true] at hv
  have hr := hv.2 ref (getElem_mem hk)
  rw [Bool.or_eq_true, Option.isNone_iff_eq_none] at hr
  obtain ⟨m, hm⟩ := Option.isSome_iff_exists.mp (hr.resolve_left fun hp => hs ⟨ref, hget, hp⟩)
  obtain ⟨hspell, hcap⟩ := hh.resolve hm
  rw [hget, hcap, Trie.anchor, (Trie.find_iff h.session.trie.toTrieShape).mpr hspell]

lemma matchContext {id len : Nat} {context : List Int} (hg : c.Grows (.batchMatch id context len)) :
    ∃ stale anchors,
      c.session.trie.matchContext (lastTokens len context) (c.session.states id) context.length =
        { trieEpoch := c.session.trie.trieEpoch, processedTotalLen := context.length, anchors } ∧
      c.session.trie.Found context 0 stale anchors ∧
      ((∀ k < anchors.length, stale k → c.session.trie.find (lastTokens (k + 1) context) = none) ↔
        c.AbsencesHold id context len) := by
  obtain ⟨hpre, hlen, hle, -⟩ := hg
  by_cases hadv : c.session.trie.canAdvance (lastTokens len context) (c.session.states id) context.length = true ∧
      c.session.trie.validateMatchState (c.session.states id) = true
  swap
  · rw [Trie.matchContext_rebuild hadv, Trie.rebuild_lastTokens hlen hle]
    refine ⟨fun _ => False, _, rfl, ⟨Trie.rebuild_anchors_length _ _ context.length, fun _ _ _ hs => hs.elim,
      fun k hk _ _ => ?_⟩, ?_⟩
    · rw [length_map, length_range] at hk
      exact Trie.rebuild_anchors_getElem? context.length hk
    · exact iff_of_true (fun _ _ hs => hs.elim) fun hc hv => absurd ⟨hc, hv⟩ hadv
  obtain ⟨hc, hv⟩ := hadv
  rw [(Trie.matchContext_advance h.session.trie.toTrieShape (h.session.refs id) hc hv).1]
  obtain ⟨new, rfl⟩ := hpre
  have hproc := h.processed id
  -- the tokens that are appended are those after the last context
  have hnew : (lastTokens len (c.contexts id ++ new)).drop ((lastTokens len (c.contexts id ++ new)).length -
      ((c.contexts id ++ new).length - (c.session.states id).processedTotalLen)) = new := by
    have hfit : new.length ≤ len := by
      unfold Trie.canAdvance at hc
      simp only [Bool.and_eq_true, decide_eq_true_eq] at hc
      have := hc.1.2
      rw [length_lastTokens hle, hproc, length_append] at this
      omega
    rw [hproc, length_append, Nat.add_sub_cancel_left]
    change lastTokens new.length (lastTokens len (c.contexts id ++ new)) = new
    rw [lastTokens_lastTokens _ hfit hle, lastTokens, length_append, Nat.add_sub_cancel, drop_left]
  have hfound := (h.found id new.length hv).foldl
  have hlength := hfound.length
  rw [hnew]
  refine ⟨_, _, rfl, hfound, ?_⟩
  unfold Requests.AbsencesHold
  simp only [length_append, Nat.add_sub_cancel_left]
  constructor
  · intro habs _ _ k ref hget hp hle'
    have hk := (List.getElem?_eq_some_iff.mp hget).1
    have hlen' := h.length id
    have := habs (k + new.length) (by rw [hlength, length_append]; omega) ⟨k, rfl, ref, hget, hp⟩
    rwa [Nat.add_right_comm] at this
  · rintro habs k hk ⟨j, rfl, ref, hget, hp⟩
    have := habs (by rwa [length_append] at hc) hv j ref hget hp (by omega)
    rwa [Nat.add_right_comm] at this

lemma call (hg : c.Grows op) (e : c.call op = .ok c') : ∃ spell', RequestsInv
    (Requests.toTrieCall op :: past) c' spell' := by
  unfold Requests.call at e
  rcases hs : c.session.call (Requests.toTrieCall op) with err | session'
  · rw [hs] at e
    cases e
  rw [hs] at e
  cases e
  obtain ⟨spell', hinv, hl⟩ := h.session.call hs
  have hsame : session'.states = c.session.states → Requests.contextsAfter c.contexts op = c.contexts →
      RequestsInv (Requests.toTrieCall op :: past)
        { session := session', contexts := Requests.contextsAfter c.contexts op } spell' := by
    intro hst hctx
    refine ⟨hinv, fun id => ?_, fun id => ?_, fun id k ref hget => ?_⟩
    · simp only [hst, hctx]
      exact h.processed id
    · simp only [hst, hctx, hl.maxTrieDepth]
      exact h.length id
    · simp only [hst, hctx] at hget ⊢
      exact (h.anchors id k ref hget).later hl
  refine ⟨spell', ?_⟩
  cases op with
  | insert tokens | squeeze count | reset =>
    obtain ⟨s', -, rfl⟩ := Session.withTrie_ok hs
    exact hsame rfl rfl
  | batchMatch id context len => ?_
  obtain ⟨stale, anchors, hm, hfound, -⟩ := h.matchContext hg
  cases hs
  have hother : ∀ id', id' ≠ id →
      update c.session.states id (c.session.trie.matchContext (lastTokens len context)
          (c.session.states id) context.length) id' = c.session.states id' ∧
        update c.contexts id context id' = c.contexts id' := fun id' hid =>
    ⟨update_of_ne hid .., update_of_ne hid ..⟩
  refine ⟨hinv, fun id' => ?_, fun id' => ?_, fun id' k ref hget => ?_⟩
  · by_cases hid : id' = id
    · subst hid
      simp only [Requests.contextsAfter, update_self, hm]
    · simp only [Requests.contextsAfter, hother id' hid]
      exact h.processed id'
  · by_cases hid : id' = id
    · subst hid
      simp only [Requests.contextsAfter, update_self, hm]
      exact hfound.length
    · simp only [Requests.contextsAfter, hother id' hid]
      exact h.length id'
  by_cases hid : id' = id
  swap
  · simp only [Requests.contextsAfter, hother id' hid] at hget ⊢
    exact (h.anchors id' k ref hget).later hl
  subst hid
  simp only [Requests.contextsAfter, update_self, hm] at hget ⊢
  have hk := (List.getElem?_eq_some_iff.mp hget).1
  have hlen := hfound.length
  by_cases hs : stale k
  · rw [hfound.null k hk (by omega) hs] at hget
    cases hget
    exact .none
  · rw [hfound.right k hk (by omega) hs] at hget
    cases hget
    exact .anchor hinv.trie.toTrieShape _
end RequestsInv

lemma Requests.next_eq (e : c.call op = .ok c') : c.next op = c' := by
  rw [Requests.next, e]
  rfl

open Requests (next next_eq)

lemma RequestsInv.of_run {capacity maxTrieDepth : Nat} {s₀ : Trie}
    (e : Trie.init capacity maxTrieDepth = .ok s₀)
    {calls : List NgramCall} (hr : Run next Requests.Legal { session := { trie := s₀ } } calls c) :
    ∃ past spell, RequestsInv past c spell := by
  obtain ⟨-, -, spell₀, h0⟩ := SessionInv.start e
  refine hr.invariant (I := fun _ c => ∃ past spell, RequestsInv past c spell) ⟨[], spell₀, h0, ?_, ?_, ?_⟩ ?_
  · exact fun id => rfl
  · exact fun id => (zero_min _).symm
  · exact fun id k ref hget => absurd hget (by simp)
  · rintro _ c op ⟨past, spell, h⟩ ⟨⟨c', e⟩, hg⟩
    obtain ⟨spell', h'⟩ := h.call hg e
    exact ⟨_, spell', next_eq e ▸ h'⟩

/-- When a request matches its context again, whatever was inserted, evicted or reset in between. -/
theorem incremental_match_iff {capacity maxTrieDepth : Nat} {s₀ : Trie}
    (e : Trie.init capacity maxTrieDepth = .ok s₀)
    {calls : List NgramCall} (hr : Run next Requests.Legal { session := { trie := s₀ } } calls c)
    {id : Nat} {context : List Int} {len : Nat} (hop : c.Legal (.batchMatch id context len)) :
    (c.next (.batchMatch id context len)).Agrees id ↔ c.AbsencesHold id context len := by
  obtain ⟨past, spell, h⟩ := RequestsInv.of_run e hr
  obtain ⟨stale, anchors, hm, hfound, hiff⟩ := h.matchContext hop.2
  rw [← hiff, ← hfound.eq_rebuild_iff context.length]
  have hst : (c.next (.batchMatch id context len)).session.states id = _ := (update_self ..).trans hm
  have hctx : (c.next (.batchMatch id context len)).contexts id = context := update_self ..
  rw [Requests.Agrees, hst, hctx]
  rfl

/-! ## A suffix that comes late -/

def eightNodes : Trie where
  nodes := update (fun _ => {}) 7 { version := 1 }
  capacity := 8
  maxTrieDepth := 2
  freeNodeCount := 7
  root := 7

lemma init_eightNodes : Trie.init 8 2 = .ok eightNodes := rfl

def afterLateInsertion : Requests :=
  (next { session := { trie := eightNodes } } (.batchMatch 0 [1] 1)).next (.insert [1, 2])

lemma run_lateInsertion :
    Run next Requests.Legal { session := { trie := eightNodes } } [.insert [1, 2], .batchMatch 0 [1] 1]
      afterLateInsertion :=
  .step _ (.step _ .start ⟨⟨_, rfl⟩, by decide⟩) ⟨⟨_, rfl⟩, trivial⟩

theorem late_insertion_missed :
    ∃ s₀ c, Trie.init 8 2 = .ok s₀ ∧
      Run next Requests.Legal { session := { trie := s₀ } } [.insert [1, 2], .batchMatch 0 [1] 1] c ∧
      c.Legal (.batchMatch 0 [1, 2] 2) ∧ ¬(c.next (.batchMatch 0 [1, 2] 2)).Agrees 0 := by
  refine ⟨eightNodes, afterLateInsertion, init_eightNodes, run_lateInsertion, ⟨⟨_, rfl⟩, by decide⟩, ?_⟩
  unfold Requests.Agrees
  decide

/-- The same request when 1, 2, 3 was inserted before it. -/
def afterEarlyInsertion : Requests :=
  (next { session := { trie := eightNodes } } (.insert [1, 2, 3])).next (.batchMatch 0 [1] 1)

theorem incremental_match_early_insertion :
    Run next Requests.Legal { session := { trie := eightNodes } }
        [.batchMatch 0 [1] 1, .insert [1, 2, 3]] afterEarlyInsertion ∧
      afterEarlyInsertion.Legal (.batchMatch 0 [1, 2] 2) ∧
      afterEarlyInsertion.session.trie.canAdvance [1, 2] (afterEarlyInsertion.session.states 0) 2 = true ∧
      (afterEarlyInsertion.next (.batchMatch 0 [1, 2] 2)).Agrees 0 ∧ afterEarlyInsertion.AbsencesHold 0 [1, 2] 2 := by
  have hr : Run next Requests.Legal { session := { trie := eightNodes } }
      [.batchMatch 0 [1] 1, .insert [1, 2, 3]] afterEarlyInsertion :=
    .step _ (.step _ .start ⟨⟨_, rfl⟩, trivial⟩) ⟨⟨_, rfl⟩, by decide⟩
  have hop : afterEarlyInsertion.Legal (.batchMatch 0 [1, 2] 2) := ⟨⟨_, rfl⟩, by decide⟩
  have hagrees : (afterEarlyInsertion.next (.batchMatch 0 [1, 2] 2)).Agrees 0 := by
    unfold Requests.Agrees
    decide
  exact ⟨hr, hop, by decide, hagrees, (incremental_match_iff init_eightNodes hr hop).mp hagrees⟩
end Sglang.Ngram
