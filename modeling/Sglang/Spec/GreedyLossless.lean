import Sglang.Spec.DraftTree
import Sglang.Spec.VerifyTree

/-!
# Greedy speculative decoding is lossless

The target model is a function from a context to its next token.
-/

namespace Sglang.Spec
open List

def greedyTokens (model : List Int → Int) : List Int → Nat → List Int
  | _, 0 => []
  | context, k + 1 => model context :: greedyTokens model (context ++ [model context]) k

/-- The longest path of at most `limit` nodes along greedy decoding. -/
structure LongestGreedyPath (model : List Int → Int) (context : List Int) (token : Nat → Int)
    (kids : Nat → List Nat) (limit : Nat) (path : List Nat) : Prop where
  isPath : IsPath kids 0 path
  length : path.length ≤ limit
  greedy : path.map token = greedyTokens model context path.length
  longest : ∀ path', IsPath kids 0 path' → path'.length ≤ limit →
    path'.map token = greedyTokens model context path'.length → path' <+: path

variable (a : VerifyArgs)

def tokenAt (bx v : Nat) : Int := a.candidates (slot a bx v)

def TargetIs (bx : Nat) (model : List Int → Int) (context : List Int)
    (kids : Nat → List Nat) (v : Nat) : Prop :=
  ∀ path, IsPath kids v path →
    a.targetPredict (slot a bx (path.getLastD v)) = model (context ++ path.map (tokenAt a bx))

section
variable {a : VerifyArgs} {bx : Nat} {model : List Int → Int} {kids : Nat → List Nat}
variable {context ctx : List Int} {v : Nat}
variable (h : TargetIs a bx model ctx kids v)
include h

lemma TargetIs.child {c : Nat} (hc : c ∈ kids v) :
    TargetIs a bx model (ctx ++ [tokenAt a bx c]) kids c := by
  intro path hpath
  have := h (c :: path) ⟨hc, hpath⟩
  rwa [getLastD_cons, map_cons, append_cons] at this

lemma passes_iff_greedy {path : List Nat} (hpath : IsPath kids v path) :
    Passes (Predicted a bx) v path ↔ path.map (tokenAt a bx) = greedyTokens model ctx path.length := by
  induction path generalizing v ctx with
  | nil => exact ⟨fun _ => rfl, fun _ => trivial⟩
  | cons c path ih => ?_
  have htarget : a.targetPredict (slot a bx v) = model ctx := by
    simpa using h [] trivial
  have hstep : Predicted a bx v c = true ↔ tokenAt a bx c = model ctx := by
    rw [Predicted, decide_eq_true_iff, htarget]
    rfl
  rw [Passes, map_cons, length_cons, greedyTokens, cons.injEq, hstep]
  refine and_congr_right fun htok => ?_
  rw [ih (h.child hpath.1) hpath.2, htok]

lemma predictions_greedy {path : List Nat}
    (hpath : IsPath kids v path) (hpass : Passes (Predicted a bx) v path) :
    (v :: path).map (fun u => a.targetPredict (slot a bx u)) =
      greedyTokens model ctx (path.length + 1) := by
  induction path generalizing v ctx with
  | nil =>
    have htarget := h [] trivial
    rw [map_nil, append_nil] at htarget
    exact congrArg (· :: []) htarget
  | cons c path ih => ?_
  have htarget := h [] trivial
  rw [map_nil, append_nil] at htarget
  change a.targetPredict (slot a bx v) = model ctx at htarget
  have htok : tokenAt a bx c = model ctx := by
    rw [← htarget]
    exact of_decide_eq_true hpass.1
  rw [map_cons, ih (h.child hpath.1) hpath.2 hpass.2, htarget, htok]
  rfl

omit h

lemma acceptedPath_longest (ht : IsTree a.numDraftTokens kids) (hn : 0 < a.numDraftTokens)
    (hdistinct : ∀ v < a.numDraftTokens, ∀ c ∈ kids v, ∀ d ∈ kids v,
      tokenAt a bx c = tokenAt a bx d → c = d) (h : TargetIs a bx model ctx kids 0) :
    LongestGreedyPath model ctx (tokenAt a bx) kids (a.numSpeculativeTokens - 1)
      (acceptedPath a bx kids) := by
  obtain ⟨hpath, hpass, hlen⟩ := descend_spec (Predicted a bx) kids (a.numSpeculativeTokens - 1) 0
  refine ⟨hpath, hlen, (passes_iff_greedy h hpath).mp hpass, fun path' hpath' hlen' hgreedy => ?_⟩
  refine IsPath.in_descend ht (fun v hv c hc d hd hpc hpd => ?_) hn hpath'
    ((passes_iff_greedy h hpath').mpr hgreedy) hlen'
  exact hdistinct v hv c hc d hd ((of_decide_eq_true hpc).trans (of_decide_eq_true hpd).symm)
end

/-! ## What is read off the tables -/

/-- The address of the `j`-th accepted node of a request. -/
def place (bx j : Nat) : Int := (bx * a.numSpeculativeTokens + j : Nat)

structure Written (a : VerifyArgs) (bx : Nat) (path : List Nat) (out : VerifyOut) : Prop where
  num : out.acceptTokenNum bx = path.length
  index : ∀ j, (hj : j < (0 :: path).length) → out.acceptIndex (place a bx j) = slot a bx (0 :: path)[j]
  predicts : ∀ v ∈ 0 :: path, out.predicts (slot a bx v) = a.targetPredict (slot a bx v)

section
variable {a : VerifyArgs} {bx : Nat} {path : List Nat} {bx' : Nat} {out : VerifyOut}

lemma slot_inj {v v' : Nat} (hv : v < a.numDraftTokens) (hv' : v' < a.numDraftTokens)
    (h : slot a bx v = slot a bx' v') : bx = bx' ∧ v = v' :=
  entry_inj hv hv' h

lemma place_inj {j j' : Nat} (hj : j < a.numSpeculativeTokens) (hj' : j' < a.numSpeculativeTokens)
    (h : place a bx j = place a bx' j') : bx = bx' ∧ j = j' := by
  refine entry_inj (n := a.numSpeculativeTokens) hj hj' ?_
  rw [place, place] at h
  rw [entry, entry]
  exact_mod_cast h

lemma mem_indexWrites {m : Nat} {w : Int × Int} : w ∈ indexWrites a bx m path ↔
    ∃ j, ∃ hj : j < path.length, w = (place a bx (m + j), slot a bx path[j]) := by
  induction path generalizing m with
  | nil => simp [indexWrites]
  | cons v path ih => ?_
  rw [indexWrites, mem_cons, ih]
  constructor
  · rintro (rfl | ⟨j, hj, rfl⟩)
    · exact ⟨0, Nat.zero_lt_succ _, rfl⟩
    · refine ⟨j + 1, Nat.succ_lt_succ hj, ?_⟩
      rw [show m + 1 + j = m + (j + 1) by omega]
      rfl
  rintro ⟨j, hj, rfl⟩
  cases j with
  | zero => exact .inl rfl
  | succ j =>
    grind

lemma commit_written (hlen : path.length < a.numSpeculativeTokens) (out : VerifyOut) :
    Written a bx path (out.commit a bx path) := by
  refine ⟨Function.update_self .., fun j hj => ?_, fun v hv => ?_⟩
  · have hsize : (0 :: path).length ≤ a.numSpeculativeTokens := hlen
    refine writeAll_of_mem (mem_indexWrites.mpr ⟨j, hj, by rw [zero_add]⟩) ?_
    intro w hw heq
    obtain ⟨i, hi, rfl⟩ := mem_indexWrites.mp hw
    rw [zero_add] at heq
    obtain ⟨-, rfl⟩ := place_inj (by omega) (by omega) heq
    rfl
  refine writeAll_of_mem (mem_map.mpr ⟨v, hv, rfl⟩) ?_
  intro w hw heq
  obtain ⟨u, -, rfl⟩ := mem_map.mp hw
  exact congrArg a.targetPredict heq

lemma Written.commit_other {path' : List Nat}
    (h : Written a bx path out) (hne : bx' ≠ bx) (hlen : path.length < a.numSpeculativeTokens)
    (hpath : ∀ v ∈ 0 :: path, v < a.numDraftTokens) (hlen' : path'.length < a.numSpeculativeTokens)
    (hpath' : ∀ v ∈ 0 :: path', v < a.numDraftTokens) : Written a bx path (out.commit a bx' path') := by
  refine ⟨?_, fun j hj => ?_, fun v hv => ?_⟩
  · exact (Function.update_of_ne (by exact_mod_cast hne.symm) _ _).trans h.num
  · rw [← h.index j hj]
    refine writeAll_of_notMem fun w hw heq => ?_
    obtain ⟨i, hi, rfl⟩ := mem_indexWrites.mp hw
    rw [length_cons] at hi hj
    exact hne (place_inj (by omega) (by omega) heq).1
  rw [← h.predicts v hv]
  refine writeAll_of_notMem fun w hw heq => ?_
  obtain ⟨u, hu, rfl⟩ := mem_map.mp hw
  exact hne (slot_inj (hpath' u hu) (hpath v hv) heq).1

lemma commitAll_written {paths : Nat → List Nat} {order : List Nat}
    (hlen : ∀ bx ∈ order, (paths bx).length < a.numSpeculativeTokens)
    (hpath : ∀ bx ∈ order, ∀ v ∈ 0 :: paths bx, v < a.numDraftTokens) (out : VerifyOut)
    (hbx : bx ∈ order) :
    Written a bx (paths bx) (order.foldl (fun out bx => out.commit a bx (paths bx)) out) := by
  induction order using reverseRecOn with
  | nil => exact absurd hbx not_mem_nil
  | append_singleton order bx' ih => ?_
  have hlast : bx' ∈ order ++ [bx'] := mem_append_right _ mem_cons_self
  rw [foldl_append, foldl_cons, foldl_nil]
  by_cases heq : bx' = bx
  · subst heq
    exact commit_written (hlen bx' hlast) _
  have hin : bx ∈ order := (mem_append.mp hbx).resolve_right fun h =>
    heq (mem_singleton.mp h).symm
  refine (ih (fun b hb => hlen b (mem_append_left _ hb))
    (fun b hb => hpath b (mem_append_left _ hb)) hin).commit_other heq ?_ ?_ ?_ ?_
  · exact hlen bx hbx
  · exact hpath bx hbx
  · exact hlen bx' hlast
  · exact hpath bx' hlast

lemma Written.predictions (h : Written a bx path out) :
    ((range (path.length + 1)).map fun j => out.predicts (out.acceptIndex (place a bx j))) =
      (0 :: path).map fun v => a.targetPredict (slot a bx v) := by
  refine ext_getElem (by simp) fun j hj hj' => ?_
  rw [length_map] at hj'
  rw [getElem_map, getElem_range, getElem_map, h.index j hj', h.predicts _ (getElem_mem hj')]
end

/-! ## The grids -/

def verifyGrid (fuel : Nat) (order : List Nat) (out : VerifyOut) : Option VerifyOut :=
  order.foldlM (fun out bx => verifyTreeGreedy a fuel bx out) out

def verifyGridTriton (order : List Nat) (out : VerifyOut) : VerifyOut :=
  order.foldl (fun out bx => verifyTreeGreedyTriton a bx out) out

def VerifyArgs.links : Links :=
  ⟨a.retriveIndex, a.retriveNextToken, a.retriveNextSibling⟩

/-- The draft trees of `bs` requests: any tables that hold trees. -/
inductive Drafted (a : VerifyArgs) (bs : Nat) : (Nat → Nat → List Nat) → Prop
  | encoded {kids : Nat → Nat → List Nat}
      (h : ∀ bx < bs, HoldsLinks a.numDraftTokens bx a.links (kids bx)) : Drafted a bs kids
  | built (b : BuildArgs) (order : List Nat) (hnd : order.Nodup) (hall : ∀ bx < bs, bx ∈ order)
      (hn : b.draftTokenNum = a.numDraftTokens) (h : a.links = buildTreeGrid b order) :
      Drafted a bs (builtKids b)
  | reconstructed (treeMask : Nat → Bool) (verifiedSeqLen : Buffer) (parent : Nat → Nat → Option Nat)
      (threads : List (Nat × Nat)) (t : Links × Buffer)
      (hmask : ∀ bx < bs, IsTreeMask treeMask a.numDraftTokens bx (parent bx))
      (hthreads : ∀ th ∈ threads, th.2 < a.numDraftTokens)
      (hall : ∀ bx < bs, ∀ tid < a.numDraftTokens, (bx, tid) ∈ threads)
      (h : a.links = (reconstructGrid treeMask verifiedSeqLen a.numDraftTokens threads t).1) :
      Drafted a bs fun bx => kidsOf a.numDraftTokens (parent bx)

variable {a : VerifyArgs} {kids : Nat → Nat → List Nat} {order : List Nat}

lemma Drafted.holdsTree {bs : Nat}
    (h : Drafted a bs kids) (hn : 0 < a.numDraftTokens) {bx : Nat} (hbx : bx < bs) :
    HoldsTree a bx (kids bx) := by
  have hlinks : HoldsLinks a.numDraftTokens bx a.links (kids bx) := by
    cases h with
    | encoded h => exact h bx hbx
    | built b order hnd hall hn' h =>
      rw [h, ← hn']
      exact buildTreeGrid_holds (hn' ▸ hn) hnd (hall bx hbx)
    | reconstructed treeMask verifiedSeqLen parent threads t hmask hthreads hall h =>
      rw [h]
      exact (hmask bx hbx).reconstructGrid_holds verifiedSeqLen hthreads (hall bx hbx) t
  exact ⟨hlinks.encodes, hlinks.index, hn⟩

variable (h : ∀ bx ∈ order, HoldsTree a bx (kids bx))
include h

lemma verifyGrid_eq {fuel : Nat} (hfuel : a.numDraftTokens ≤ fuel) (out : VerifyOut) :
    verifyGrid a fuel order out =
      some (order.foldl (fun out bx => out.commit a bx (acceptedPath a bx (kids bx))) out) := by
  rw [verifyGrid]
  induction order generalizing out with
  | nil => rfl
  | cons bx order ih =>
    rw [foldlM_cons, verifyTreeGreedy_eq (h bx mem_cons_self) out hfuel, Option.bind_eq_bind,
      Option.bind_some, ih fun b hb => h b (mem_cons_of_mem _ hb)]
    rfl

lemma verifyGridTriton_eq (out : VerifyOut) :
    verifyGridTriton a order out =
      order.foldl (fun out bx => out.commit a bx (acceptedPath a bx (kids bx))) out := by
  rw [verifyGridTriton]
  induction order generalizing out with
  | nil => rfl
  | cons bx order ih =>
    rw [foldl_cons, verifyTreeGreedyTriton_eq (h bx mem_cons_self) out,
      ih fun b hb => h b (mem_cons_of_mem _ hb)]
    rfl

omit h

/-- Both kernels, in any block order, accept each request's longest greedy path and emit greedy
tokens. -/
theorem greedy_verification_lossless {a : VerifyArgs} {bs : Nat} {kids : Nat → Nat → List Nat}
    (model : List Int → Int) (context : Nat → List Int) (hspec : 0 < a.numSpeculativeTokens)
    (hn : 0 < a.numDraftTokens) (hdraft : Drafted a bs kids)
    (hdistinct : ∀ bx < bs, ∀ v < a.numDraftTokens, ∀ c ∈ kids bx v, ∀ d ∈ kids bx v,
      tokenAt a bx c = tokenAt a bx d → c = d)
    (htarget : ∀ bx < bs, TargetIs a bx model (context bx) (kids bx) 0)
    (order order' : List Nat) (horder : order.Perm (List.range bs))
    (horder' : order'.Perm (List.range bs)) (out out' : VerifyOut) :
    ∃ paths : Nat → List Nat,
      (∀ bx < bs, LongestGreedyPath model (context bx) (tokenAt a bx) (kids bx)
        (a.numSpeculativeTokens - 1) (paths bx)) ∧
      ∀ fuel ≥ a.numDraftTokens, ∃ cuda, verifyGrid a fuel order out = some cuda ∧
        ∀ result ∈ [cuda, verifyGridTriton a order' out'], ∀ bx < bs,
          Written a bx (paths bx) result ∧
          ((List.range ((paths bx).length + 1)).map fun j =>
            result.predicts (result.acceptIndex (place a bx j))) =
              greedyTokens model (context bx) ((paths bx).length + 1) := by
  have hlongest : ∀ bx < bs, LongestGreedyPath model (context bx) (tokenAt a bx) (kids bx)
      (a.numSpeculativeTokens - 1) (acceptedPath a bx (kids bx)) := fun bx hbx =>
    acceptedPath_longest (hdraft.holdsTree hn hbx).encodes.tree hn (hdistinct bx hbx) (htarget bx hbx)
  refine ⟨fun bx => acceptedPath a bx (kids bx), hlongest, fun fuel hfuel => ?_⟩
  have hin : ∀ {xs : List Nat}, xs.Perm (range bs) → ∀ {bx}, bx ∈ xs ↔ bx < bs :=
    fun hperm => hperm.mem_iff.trans mem_range
  have htrees : ∀ {xs : List Nat}, xs.Perm (range bs) → ∀ bx ∈ xs, HoldsTree a bx (kids bx) :=
    fun hperm bx hbx => hdraft.holdsTree hn ((hin hperm).mp hbx)
  refine ⟨_, verifyGrid_eq (htrees horder) hfuel out, fun result hresult bx hbx => ?_⟩
  have hwritten : Written a bx (acceptedPath a bx (kids bx)) result := by
    have hlen : ∀ b < bs, (acceptedPath a b (kids b)).length < a.numSpeculativeTokens := fun b hb => by
      have := (hlongest b hb).length
      omega
    have hpath : ∀ b < bs, ∀ v ∈ 0 :: acceptedPath a b (kids b), v < a.numDraftTokens :=
      fun b hb => forall_mem_cons.mpr
        ⟨hn, (hlongest b hb).isPath.bound (hdraft.holdsTree hn hb).encodes.tree hn⟩
    rcases mem_cons.mp hresult with rfl | hresult
    · exact commitAll_written (fun b hb => hlen b ((hin horder).mp hb))
        (fun b hb => hpath b ((hin horder).mp hb)) out ((hin horder).mpr hbx)
    · rw [mem_singleton.mp hresult, verifyGridTriton_eq (htrees horder')]
      exact commitAll_written (fun b hb => hlen b ((hin horder').mp hb))
        (fun b hb => hpath b ((hin horder').mp hb)) out' ((hin horder').mpr hbx)
  refine ⟨hwritten, hwritten.predictions.trans ?_⟩
  have hpass : Passes (Predicted a bx) 0 (acceptedPath a bx (kids bx)) :=
    (descend_spec (Predicted a bx) (kids bx) (a.numSpeculativeTokens - 1) 0).2.1
  exact predictions_greedy (htarget bx hbx) (hlongest bx hbx).isPath hpass

def twoDrafts : VerifyArgs :=
  let t := buildTreeGrid ⟨fun _ => -1, fun i => i, 2, 1, 3⟩ [0]
  { candidates := fun i => if i = 2 then 7 else 5
    retriveIndex := t.retriveIndex
    retriveNextToken := t.retriveNextToken
    retriveNextSibling := t.retriveNextSibling
    targetPredict := fun _ => 7
    numSpeculativeTokens := 2
    numDraftTokens := 3 }

theorem second_draft_accepted : ∃ path, [2] <+: path ∧
    ∃ cuda, verifyGrid twoDrafts 3 [0] ⟨fun _ => 0, fun _ => 0, fun _ => 0⟩ = some cuda ∧
      Written twoDrafts 0 path cuda := by
  have hdraft : Drafted twoDrafts 1 (builtKids ⟨fun _ => -1, fun i => i, 2, 1, 3⟩) :=
    .built _ [0] (by decide) (by decide) rfl rfl
  obtain ⟨paths, hlongest, hrun⟩ := greedy_verification_lossless (fun _ => 7)
    (fun _ => [3]) (by decide) (by decide) hdraft (by decide) (fun _ _ _ _ => rfl) [0] [0]
    (by decide)
    (by decide) ⟨fun _ => 0, fun _ => 0, fun _ => 0⟩ ⟨fun _ => 0, fun _ => 0, fun _ => 0⟩
  obtain ⟨cuda, hcuda, hresult⟩ := hrun 3 (by decide)
  refine ⟨paths 0, ?_, cuda, hcuda, (hresult cuda mem_cons_self 0 (by decide)).1⟩
  exact (hlongest 0 (by decide)).longest [2] ⟨by decide, trivial⟩ (by decide) (by decide)
end Sglang.Spec
