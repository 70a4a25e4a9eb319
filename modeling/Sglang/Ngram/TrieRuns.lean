import Sglang.Lib.Run
import Sglang.Ngram.TrieOps

/-!
# Runs of the n-gram trie

A session is the trie with the match states of the requests.
-/

namespace Sglang.Ngram
open List Function

structure Session where
  trie : Trie
  states : Nat → MatchState := fun _ => {}

inductive TrieCall
  | insert (tokens : List Int)
  | squeeze (count : Nat)
  | reset
  | matchRequest (id : Nat) (context : List Int) (totalLen : Nat)
  deriving DecidableEq

namespace Session
variable (c : Session)

def withTrie (r : Except TrieErr Trie) : Except TrieErr Session :=
  r.map fun trie => { c with trie }

def call : TrieCall → Except TrieErr Session
  | .insert tokens => c.withTrie (c.trie.insert tokens)
  | .squeeze count => c.withTrie (c.trie.squeeze count)
  | .reset => c.withTrie c.trie.reset
  | .matchRequest id context totalLen =>
    .ok { c with
      states := Function.update c.states id (c.trie.matchContext context (c.states id) totalLen) }

def next (op : TrieCall) : Session := (c.call op).toOption.getD c

def liveNonRoot (s : Trie) : Set Nat := { n | ∃ u, u ≠ [] ∧ s.find u = some n }

/-- `squeeze` is asked for at most the live nodes other than the root. -/
def Legal : TrieCall → Prop
  | .squeeze count => count ≤ (liveNonRoot c.trie).ncard
  | _ => True

variable {c}
end Session

variable {s s' : Trie} {spell spell' : Nat → Option (List Int)} {n m : Nat} {u : List Int}
  {c c' : Session}
  {op : TrieCall} {ref : NodeRef} {e : Nat}

/-! ## References -/

structure RefHolds (s : Trie) (spell : Nat → Option (List Int)) (e : Nat) (ref : NodeRef) (u : List Int) :
    Prop where
  null : ref.ptr = none → ref = {}
  epoch : ∀ n, ref.ptr = some n → e ≤ s.trieEpoch
  version : ∀ n, ref.ptr = some n → e = s.trieEpoch → ref.version ≤ (s.nodes n).version
  path : ∀ n, ref.ptr = some n → e = s.trieEpoch → (s.nodes n).version = ref.version → spell n = some u

structure Later (s : Trie) (spell : Nat → Option (List Int)) (s' : Trie) (spell' : Nat → Option (List Int)) :
    Prop where
  capacity : s'.capacity = s.capacity
  maxTrieDepth : s'.maxTrieDepth = s.maxTrieDepth
  aged : Aged s spell s' spell' ∨ s.trieEpoch < s'.trieEpoch

lemma Aged.later (h : Aged s spell s' spell') :
    Later s spell s' spell' := ⟨h.capacity, h.maxTrieDepth, .inl h⟩

lemma Later.trans {s'' : Trie} {spell'' : Nat → Option (List Int)} (h : Later s spell s' spell')
    (h' : Later s' spell' s'' spell'') : Later s spell s'' spell'' := by
  refine ⟨h'.capacity.trans h.capacity, h'.maxTrieDepth.trans h.maxTrieDepth, ?_⟩
  rcases h.aged with ha | hlt <;> rcases h'.aged with ha' | hlt'
  · exact .inl (ha.trans ha')
  · exact .inr (ha.epoch ▸ hlt')
  · exact .inr (ha'.epoch ▸ hlt)
  · exact .inr (hlt.trans hlt')

lemma RefHolds.later (h : RefHolds s spell e ref u) (hl : Later s spell s' spell') :
    RefHolds s' spell' e ref u := by
  rcases hl.aged with ha | hlt
  · refine ⟨h.null, fun n hn => ?_, fun n hn he => ?_, fun n hn he hv => ?_⟩
    · rw [ha.epoch]
      exact h.epoch n hn
    · rw [ha.epoch] at he
      exact (h.version n hn he).trans (ha.version n)
    rw [ha.epoch] at he
    have h1 := h.version n hn he
    have h2 := ha.version n
    exact ha.same n u (by omega) (h.path n hn he (by omega))
  have hold : ∀ n, ref.ptr = some n → e ≠ s'.trieEpoch := fun n hn he => by
    have := h.epoch n hn
    omega
  exact ⟨h.null, fun n hn => (h.epoch n hn).trans hlt.le, fun n hn he => absurd he (hold n hn),
    fun n hn he => absurd he (hold n hn)⟩

lemma RefHolds.capture (hn : spell n = some u) : RefHolds s spell s.trieEpoch
    (s.capture (some n)) u := by
  refine ⟨fun h => (by cases h), fun _ _ => le_rfl, fun m hm _ => ?_, fun m hm _ _ => ?_⟩
  · obtain rfl : n = m := Option.some.inj hm
    exact le_rfl
  · obtain rfl : n = m := Option.some.inj hm
    exact hn

lemma RefHolds.none : RefHolds s spell e {} u :=
  ⟨fun _ => rfl, fun _ h => (by cases h), fun _ h => (by cases h), fun _ h => (by cases h)⟩

lemma RefHolds.resolve {state : MatchState} (h : RefHolds s spell state.trieEpoch ref u)
    (hr : s.resolve state ref = some n) : spell n = some u ∧ ref = s.capture (some n) := by
  unfold Trie.resolve at hr
  rcases hp : ref.ptr with _ | p
  · rw [hp] at hr
    cases hr
  rw [hp] at hr
  simp only [Option.ite_none_left_eq_some, not_or, not_not, Option.some.injEq] at hr
  obtain ⟨⟨he, hv⟩, rfl⟩ := hr
  refine ⟨h.path p hp he hv, ?_⟩
  cases ref
  simp only at hp hv
  rw [hp, ← hv]
  rfl

/-! ## Matching -/

def FreshRef (s : Trie) (spell : Nat → Option (List Int)) (ref : NodeRef) : Prop :=
  ref = {} ∨ ∃ n u, spell n = some u ∧ ref = s.capture (some n)

lemma FreshRef.capture (h : TrieShape s.nodes s.root spell) (u : List Int) :
    FreshRef s spell (s.capture (s.find u)) := by
  cases hf : s.find u with
  | none => exact .inl rfl
  | some n => exact .inr ⟨n, u, (Trie.find_iff h).mp hf, rfl⟩

lemma FreshRef.capture_child (h : TrieShape s.nodes s.root spell) (hn : spell n = some u)
    (token : Int) : FreshRef s spell (s.capture ((s.nodes n).child.lookup token)) := by
  cases hl : (s.nodes n).child.lookup token with
  | none => exact .inl rfl
  | some m => exact .inr ⟨m, _, (h.lookup_iff hn).mp hl, rfl⟩

lemma resolve_capture {state : MatchState} (he : state.trieEpoch = s.trieEpoch) :
    s.resolve state (s.capture (some n)) = some n := by
  simp [Trie.resolve, Trie.capture, he]

namespace Trie
def extendRef (s : Trie) (token : Int) (ref : NodeRef) : NodeRef :=
  match ref.ptr with
  | none => {}
  | some n => s.capture ((s.nodes n).child.lookup token)

variable {state : MatchState} {token : Int} {ctx : List Int} {len : Nat}

lemma advanceRef_eq {ref : NodeRef} (he : state.trieEpoch = s.trieEpoch)
    (hr : FreshRef s spell ref) : s.advanceRef state token ref = some (s.extendRef token ref) := by
  rcases hr with rfl | ⟨n, u, -, rfl⟩
  · rfl
  · rw [advanceRef, extendRef, resolve_capture he]
    rfl

lemma mapM_eq_map {α β : Type} {f : α → Option β} {g : α → β} (l : List α)
    (h : ∀ x ∈ l, f x = some (g x)) : l.mapM f = some (l.map g) := by
  induction l with
  | nil => rfl
  | cons x l ih =>
    grind

def extendAnchors (s : Trie) (anchors : List NodeRef) (token : Int) : List NodeRef :=
  (s.capture ((s.nodes s.root).child.lookup token) ::
    (anchors.take (min (anchors.length + 1) s.maxTrieDepth - 1)).map (s.extendRef token)).take
      (min (anchors.length + 1) s.maxTrieDepth)

lemma advanceToken_eq (he : state.trieEpoch = s.trieEpoch)
    (hr : ∀ ref ∈ state.anchors, FreshRef s spell ref) :
    s.advanceToken state token = some { state with anchors := s.extendAnchors state.anchors token } := by
  have hmap : (state.anchors.take (min (state.anchors.length + 1) s.maxTrieDepth - 1)).mapM
      (s.advanceRef state token) = some _ :=
    mapM_eq_map _ fun ref hm => advanceRef_eq he (hr ref (mem_of_mem_take hm))
  simp only [advanceToken, hmap]
  rfl

lemma fresh_of_validate (hst : ∀ ref ∈ state.anchors, ∃ u, RefHolds s spell state.trieEpoch ref u)
    (hv : s.validateMatchState state = true) :
    state.trieEpoch = s.trieEpoch ∧ ∀ ref ∈ state.anchors, FreshRef s spell ref := by
  rw [validateMatchState, Bool.and_eq_true, beq_iff_eq, all_eq_true] at hv
  refine ⟨hv.1, fun ref hm => ?_⟩
  have hm' := hv.2 ref hm
  rw [Bool.or_eq_true, Option.isNone_iff_eq_none] at hm'
  obtain ⟨u, hu⟩ := hst ref hm
  refine hm'.imp hu.null fun hs => ?_
  obtain ⟨n, hn⟩ := Option.isSome_iff_exists.mp hs
  exact ⟨n, u, hu.resolve hn⟩

lemma matchContext_rebuild
    (hn : ¬(s.canAdvance ctx state len = true ∧ s.validateMatchState state = true)) :
    s.matchContext ctx state len = s.rebuildMatchState ctx len := by
  rw [matchContext]
  by_cases hc : s.canAdvance ctx state len = true
  · rw [if_pos hc, advanceMatchState, if_neg fun hv => hn ⟨hc, hv⟩]
    rfl
  · rw [if_neg hc]
    rfl

variable (h : TrieShape s.nodes s.root spell)
include h

lemma extendAnchors_fresh {anchors : List NodeRef} (hr : ∀ ref ∈ anchors, FreshRef s spell ref) :
    ∀ ref ∈ s.extendAnchors anchors token, FreshRef s spell ref := by
  intro ref hm
  rcases mem_cons.mp (mem_of_mem_take hm) with rfl | hm'
  · exact FreshRef.capture_child h h.root token
  obtain ⟨prev, hp, rfl⟩ := mem_map.mp hm'
  rcases hr prev (mem_of_mem_take hp) with rfl | ⟨n, u, hn, rfl⟩
  · exact .inl rfl
  · exact FreshRef.capture_child h hn token

lemma foldlM_advanceToken (tokens : List Int) (state : MatchState)
    (he : state.trieEpoch = s.trieEpoch) (hr : ∀ ref ∈ state.anchors, FreshRef s spell ref) :
    tokens.foldlM s.advanceToken state =
        some { state with anchors := tokens.foldl s.extendAnchors state.anchors } ∧
      ∀ ref ∈ tokens.foldl s.extendAnchors state.anchors, FreshRef s spell ref := by
  induction tokens generalizing state with
  | nil => exact ⟨rfl, hr⟩
  | cons t ts ih =>
    rw [foldlM_cons, advanceToken_eq he hr]
    exact ih { state with anchors := s.extendAnchors state.anchors t } he (extendAnchors_fresh h hr)

lemma matchContext_advance (hst : ∀ ref ∈ state.anchors, ∃ u, RefHolds s spell state.trieEpoch ref u)
    (hc : s.canAdvance ctx state len = true) (hv : s.validateMatchState state = true) :
    s.matchContext ctx state len =
        { trieEpoch := s.trieEpoch
          processedTotalLen := len
          anchors := (ctx.drop (ctx.length - (len - state.processedTotalLen))).foldl s.extendAnchors
            state.anchors } ∧
      ∀ ref ∈ (ctx.drop (ctx.length - (len - state.processedTotalLen))).foldl s.extendAnchors
        state.anchors, FreshRef s spell ref := by
  obtain ⟨he, hr⟩ := fresh_of_validate hst hv
  obtain ⟨e, hf⟩ := foldlM_advanceToken h
    (ctx.drop (ctx.length - (len - state.processedTotalLen))) state he hr
  refine ⟨?_, hf⟩
  rw [matchContext, if_pos hc, advanceMatchState, if_pos hv, e, ← he]
  rfl

lemma matchContext_fresh (ctx : List Int)
    (len : Nat) (hst : ∀ ref ∈ state.anchors, ∃ u, RefHolds s spell state.trieEpoch ref u) :
    (s.matchContext ctx state len).trieEpoch = s.trieEpoch ∧
      ∀ ref ∈ (s.matchContext ctx state len).anchors, FreshRef s spell ref := by
  by_cases hadv : s.canAdvance ctx state len = true ∧ s.validateMatchState state = true
  · obtain ⟨e, hf⟩ := matchContext_advance h hst hadv.1 hadv.2
    rw [e]
    exact ⟨rfl, hf⟩
  rw [matchContext_rebuild hadv]
  refine ⟨rfl, fun ref hm => ?_⟩
  obtain ⟨k, -, rfl⟩ := mem_map.mp hm
  exact FreshRef.capture h _
end Trie

/-! ## Calls -/

lemma TrieInv.ncard_live (h : TrieInv s spell) : (Session.liveNonRoot s).ncard = s.globalLru.length := by
  have heq : Session.liveNonRoot s = ↑s.globalLru.toFinset := by
    ext n
    rw [Finset.mem_coe, mem_toFinset, h.global_mem]
    exact exists_congr fun u => and_congr_right fun _ => Trie.find_iff h.toTrieShape
  rw [heq, Set.ncard_coe_finset, toFinset_card_of_nodup h.global_nodup]

/-- The invariant of a session after the calls of `past`. -/
structure SessionInv (past : List TrieCall) (c : Session) (spell : Nat → Option (List Int)) : Prop where
  trie : TrieInv c.trie spell
  paths : ∀ n u, spell n = some u → u = [] ∨ ∃ tokens, .insert tokens ∈ past ∧ u <:+: tokens
  refs : ∀ id, ∀ ref ∈ (c.states id).anchors, ∃ u, RefHolds c.trie spell (c.states id).trieEpoch ref u

lemma Session.withTrie_ok {r : Except TrieErr Trie} (e : c.withTrie r = .ok c') :
    ∃ s', r = .ok s' ∧ c' = { c with trie := s' } := by
  cases r with
  | error err => cases e
  | ok s' => exact ⟨s', rfl, (Except.ok.inj e).symm⟩

lemma spell_root_only {k : Nat} (hn : update (fun _ => none) k (some ([] : List Int)) n = some u) :
    u = [] := by
  grind

namespace SessionInv
variable {past : List TrieCall} (h : SessionInv past c spell)
include h

lemma withTrie (hinv : TrieInv s' spell') (hl : Later c.trie spell s' spell')
    (hp : ∀ n u, spell' n = some u → spell n = some u ∨ u = [] ∨ ∃ tokens, op = .insert tokens ∧ u <:+: tokens) :
    SessionInv (op :: past) { c with trie := s' } spell' := by
  refine ⟨hinv, fun n u hn => ?_, fun id ref hm => ?_⟩
  · rcases hp n u hn with hn' | rfl | ⟨tokens, rfl, hi⟩
    · exact (h.paths n u hn').imp_right fun ⟨tokens, ht, hi⟩ => ⟨tokens, mem_cons_of_mem _ ht, hi⟩
    · exact .inl rfl
    · exact .inr ⟨tokens, mem_cons_self, hi⟩
  · obtain ⟨u, hu⟩ := h.refs id ref hm
    exact ⟨u, hu.later hl⟩

lemma call (e : c.call op = .ok c') :
    ∃ spell', SessionInv (op :: past) c' spell' ∧ Later c.trie spell c'.trie spell' := by
  cases op with
  | insert tokens =>
    obtain ⟨s', e', rfl⟩ := Session.withTrie_ok e
    obtain ⟨spell', hinv, ha, hb⟩ := h.trie.insert_ok e'
    refine ⟨spell', h.withTrie hinv ha.later fun n u hn => ?_, ha.later⟩
    exact (hb n u hn).imp_right fun hi => .inr ⟨tokens, rfl, hi⟩
  | squeeze count =>
    obtain ⟨s', e', rfl⟩ := Session.withTrie_ok e
    obtain ⟨s₁, spell', e₁, hinv, ha, hb, -⟩ := h.trie.squeeze count (h.trie.le_of_squeeze e')
    rw [e'] at e₁
    cases e₁
    exact ⟨spell', h.withTrie hinv ha.later fun n u hn => .inl (hb n u hn), ha.later⟩
  | reset =>
    obtain ⟨s', e', rfl⟩ := Session.withTrie_ok e
    obtain ⟨s₁, e₁, ⟨k, hinv⟩, he, hc, hd⟩ := h.trie.reset
    rw [e'] at e₁
    cases e₁
    have hl : Later c.trie spell s' (update (fun _ => none) k (some [])) := ⟨hc, hd, .inr (by omega)⟩
    exact ⟨_, h.withTrie hinv hl fun n u hn => .inr (.inl (spell_root_only hn)), hl⟩
  | matchRequest id ctx len =>
    cases e
    refine ⟨spell, ⟨h.trie, fun n u hn => ?_, fun id' ref hm => ?_⟩, (Aged.refl ..).later⟩
    · exact (h.paths n u hn).imp_right fun ⟨tokens, ht, hi⟩ => ⟨tokens, mem_cons_of_mem _ ht, hi⟩
    by_cases hid : id' = id
    · subst hid
      simp only [update_self] at hm ⊢
      obtain ⟨he, hf⟩ := Trie.matchContext_fresh h.trie.toTrieShape ctx len (h.refs id')
      rw [he]
      rcases hf ref hm with rfl | ⟨n, u, hn, rfl⟩
      · exact ⟨[], .none⟩
      · exact ⟨u, .capture hn⟩
    · simp only [update_of_ne hid] at hm ⊢
      exact h.refs id' ref hm

variable (hcap : c.trie.maxTrieDepth < c.trie.capacity)
include hcap

lemma total (hop : c.Legal op) : ∃ c', c.call op = .ok c' := by
  cases op with
  | insert tokens =>
    obtain ⟨s', e⟩ := h.trie.insert tokens hcap
    exact ⟨_, by rw [Session.call, e]; rfl⟩
  | squeeze count =>
    obtain ⟨s', -, e, -⟩ := h.trie.squeeze count (h.trie.ncard_live ▸ hop)
    exact ⟨_, by rw [Session.call, e]; rfl⟩
  | reset =>
    obtain ⟨s', e, -⟩ := h.trie.reset
    exact ⟨_, by rw [Session.call, e]; rfl⟩
  | matchRequest id ctx len => exact ⟨_, rfl⟩

lemma run {more : List TrieCall} (hr : Run Session.next Session.Legal c more c') :
    ∃ spell', SessionInv (more ++ past) c' spell' ∧ Later c.trie spell c'.trie spell' := by
  refine hr.invariant (I := fun more c' => ∃ spell', SessionInv (more ++ past) c' spell' ∧
    Later c.trie spell c'.trie spell') ⟨spell, h, (Aged.refl ..).later⟩ ?_
  rintro more c₁ op ⟨spell₁, h1, hl1⟩ hop
  obtain ⟨c₂, e⟩ := h1.total (by rwa [hl1.maxTrieDepth, hl1.capacity]) hop
  obtain ⟨spell₂, h2, hl2⟩ := h1.call e
  have : c₁.next op = c₂ := by
    rw [Session.next, e]
    rfl
  rw [this]
  exact ⟨spell₂, h2, hl1.trans hl2⟩
end SessionInv

lemma SessionInv.start {capacity maxTrieDepth : Nat} {s₀ : Trie}
    (e : Trie.init capacity maxTrieDepth = .ok s₀) :
    s₀.capacity = capacity ∧ s₀.maxTrieDepth = maxTrieDepth ∧ ∃ spell, SessionInv [] { trie := s₀ } spell := by
  have hcap : 0 < capacity := by
    rcases Nat.eq_zero_or_pos capacity with rfl | hpos
    · cases e
    · exact hpos
  obtain ⟨s₁, e₁, ⟨k, hinv⟩, -, hc, hd⟩ := Trie.init_spec maxTrieDepth hcap
  rw [e] at e₁
  cases e₁
  exact ⟨hc, hd, _, hinv, fun n u hn => .inl (spell_root_only hn), nofun⟩

structure SessionSafe (past : List TrieCall) (c : Session) : Prop where
  /-- No call throws, uses a dead iterator or takes from an empty list or pool. -/
  total : ∀ op, c.Legal op → ∃ c', c.call op = .ok c'
  precedes : ∀ u v n m, u ≠ [] → v ≠ [] → c.trie.find u = some n → c.trie.find (u ++ v) = some m →
    m ∈ c.trie.globalLru ∧ c.trie.globalLru.idxOf n < c.trie.globalLru.idxOf m
  children : ∀ u n, c.trie.find u = some n →
    (c.trie.nodes n).lru.Perm ((c.trie.nodes n).child.map Prod.snd) ∧
      (c.trie.nodes n).sortedChildren.Perm ((c.trie.nodes n).child.map Prod.snd)
  cover : ∀ n, n < c.trie.capacity ↔
    (∃ u, c.trie.find u = some n) ∨ ∃ i < c.trie.freeNodeCount, c.trie.nodePool i = n
  disjoint : ∀ i < c.trie.freeNodeCount, ∀ u, c.trie.find u ≠ some (c.trie.nodePool i)
  distinct : ∀ i < c.trie.freeNodeCount, ∀ j < c.trie.freeNodeCount,
    c.trie.nodePool i = c.trie.nodePool j → i = j
  runs : ∀ u n, c.trie.find u = some n → u = [] ∨ ∃ tokens, .insert tokens ∈ past ∧ u <:+: tokens
  /-- What a call leaves in a match state was captured in the epoch that the state is marked with. -/
  captured : ∀ id context totalLen, let c' := c.next (.matchRequest id context totalLen)
    (c'.states id).trieEpoch = c.trie.trieEpoch ∧ ∀ ref ∈ (c'.states id).anchors,
      ref.ptr = none ∨ ∃ n u, c.trie.find u = some n ∧ ref = c.trie.capture (some n)
  /-- A reference captured now that resolves later is the same node with the same path. -/
  resolves : ∀ more c', Run Session.next Session.Legal c more c' → ∀ u n, c.trie.find u = some n →
    ∀ state, state.trieEpoch = c.trie.trieEpoch → ∀ m,
      c'.trie.resolve state (c.trie.capture (some n)) = some m → m = n ∧ c'.trie.find u = some n

lemma TrieInv.precedes (h : TrieInv s spell) {v : List Int} (hu : u ≠ []) (hv : v ≠ [])
    (hn : spell n = some u) (hm : spell m = some (u ++ v)) :
    m ∈ s.globalLru ∧ s.globalLru.idxOf n < s.globalLru.idxOf m := by
  have hstep : ∀ {a b x t}, x ≠ [] → spell a = some x → spell b = some (x ++ [t]) →
      b ∈ s.globalLru ∧ s.globalLru.idxOf a < s.globalLru.idxOf b := by
    intro a b x t hx ha hb
    have hal : a ∈ s.globalLru := (h.global_mem a).mpr ⟨x, hx, ha⟩
    have hbl : b ∈ s.globalLru := (h.global_mem b).mpr ⟨_, by simp, hb⟩
    refine ⟨hbl, ?_⟩
    have hai := idxOf_lt_length_of_mem hal
    have hbi := idxOf_lt_length_of_mem hbl
    rcases Nat.lt_trichotomy (s.globalLru.idxOf a) (s.globalLru.idxOf b) with hlt | heq | hgt
    · exact hlt
    · exact absurd ((idxOf_inj hal).mp heq).symm (TrieShape.child_ne ha hb)
    · have := pairwise_iff_getElem.mp h.global_order _ _ hbi hai hgt
      rw [getElem_idxOf, getElem_idxOf] at this
      exact absurd (h.inj (h.parent hb).1 ha) this
  induction v using reverseRecOn generalizing m with
  | nil => exact absurd rfl hv
  | append_singleton v t ih => ?_
  rw [← append_assoc] at hm
  by_cases hv' : v = []
  · subst hv'
    rw [append_nil] at hm
    exact hstep hu hn hm
  obtain ⟨p, hp⟩ := h.prefix_live hm
  obtain ⟨-, h1⟩ := ih hv' hp
  obtain ⟨h2, h3⟩ := hstep (by simp [hu]) hp hm
  exact ⟨h2, h1.trans h3⟩

lemma SessionInv.safe {past : List TrieCall} (h : SessionInv past c spell)
    (hcap : c.trie.maxTrieDepth < c.trie.capacity) : SessionSafe past c := by
  have hfind : ∀ {u n}, c.trie.find u = some n ↔ spell n = some u := Trie.find_iff h.trie.toTrieShape
  refine ⟨fun op => h.total hcap, fun u v n m hu hv hn hm => ?_, fun u n hn => ?_, fun n => ?_, fun i hi u hu => ?_,
    h.trie.pool_inj, fun u n hn => h.paths n u (hfind.mp hn), fun id ctx len => ?_, ?_⟩
  · exact h.trie.precedes hu hv (hfind.mp hn) (hfind.mp hm)
  · exact ⟨h.trie.lru (hfind.mp hn), h.trie.sorted_perm (hfind.mp hn)⟩
  · constructor
    · intro hn
      cases hs : spell n with
      | none => exact .inr (h.trie.pool_cover n hn hs)
      | some u => exact .inl ⟨u, hfind.mpr hs⟩
    · rintro (⟨u, hu⟩ | ⟨i, hi, rfl⟩)
      · exact h.trie.lt_capacity (hfind.mp hu)
      · exact h.trie.pool_lt i hi
  · rw [hfind, h.trie.pool_dead i hi] at hu
    cases hu
  · obtain ⟨he, hf⟩ := Trie.matchContext_fresh h.trie.toTrieShape ctx len (h.refs id)
    have hst : (c.next (.matchRequest id ctx len)).states id =
        c.trie.matchContext ctx (c.states id) len := update_self ..
    simp only [hst]
    refine ⟨he, fun ref hm => ?_⟩
    rcases hf ref hm with rfl | ⟨n, u, hn, rfl⟩
    · exact .inl rfl
    · exact .inr ⟨n, u, hfind.mpr hn, rfl⟩
  intro more c' hr u n hn state he m hm
  obtain ⟨spell', h', hl⟩ := h.run hcap hr
  have hh : RefHolds c'.trie spell' state.trieEpoch (c.trie.capture (some n)) u :=
    he ▸ (RefHolds.capture (hfind.mp hn)).later hl
  obtain ⟨hm', hcapt⟩ := hh.resolve hm
  obtain rfl : n = m := Option.some.inj (congrArg NodeRef.ptr hcapt)
  exact ⟨rfl, (Trie.find_iff h'.trie.toTrieShape).mpr hm'⟩

theorem ngram_trie_invariant {capacity maxTrieDepth : Nat} (hcap : maxTrieDepth < capacity) :
    ∃ s₀, Trie.init capacity maxTrieDepth = .ok s₀ ∧
      ∀ past c, Run Session.next Session.Legal { trie := s₀ } past c → SessionSafe past c := by
  obtain ⟨s₀, e, -⟩ := Trie.init_spec maxTrieDepth (by omega : 0 < capacity)
  obtain ⟨hc, hd, spell, h⟩ := SessionInv.start e
  refine ⟨s₀, e, fun past c hr => ?_⟩
  have hcap' : s₀.maxTrieDepth < s₀.capacity := by omega
  obtain ⟨spell', h', hl⟩ := h.run hcap' hr
  rw [append_nil] at h'
  exact h'.safe (by rw [hl.maxTrieDepth, hl.capacity]; exact hcap')

theorem ngram_trie_invariant_eviction :
    ∃ s₀ c, Trie.init 4 2 = .ok s₀ ∧
      Run Session.next Session.Legal { trie := s₀ } [.matchRequest 0 [2, 3] 2, .insert [1, 2, 3]] c ∧
      SessionSafe [.matchRequest 0 [2, 3] 2, .insert [1, 2, 3]] c := by
  obtain ⟨s₀, e, h⟩ := ngram_trie_invariant (by decide : 2 < 4)
  have hr : Run Session.next Session.Legal { trie := s₀ } [.matchRequest 0 [2, 3] 2, .insert [1, 2, 3]] _ :=
    .step _ (.step _ .start trivial) trivial
  exact ⟨s₀, _, e, hr, h _ _ hr⟩
end Sglang.Ngram
