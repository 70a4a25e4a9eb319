import Sglang.Lib.LinkTree
import Sglang.Lib.Writes

/-!
# Verification of a draft tree in greedy mode

Two kernels for one task, in CUDA and in Triton.
-/

namespace Sglang.Spec
open List Function

structure VerifyArgs where
  candidates : Buffer
  retriveIndex : Buffer
  retriveNextToken : Buffer
  retriveNextSibling : Buffer
  targetPredict : Buffer
  numSpeculativeTokens : Nat
  numDraftTokens : Nat

structure VerifyOut where
  predicts : Buffer
  acceptIndex : Buffer
  acceptTokenNum : Buffer

structure Walk where
  out : VerifyOut
  lastAcceptedRetriveIdx : Int
  numAcceptedTokens : Int := 0
  curIndex : Int := 0

/-! ## `VerifyTreeGreedy` -/

section
variable (w : Walk) (a : VerifyArgs) (bx : Nat) (out : VerifyOut)

def Walk.accept (draftIndex targetTokenId : Int) : Walk :=
  let numAcceptedTokens := w.numAcceptedTokens + 1
  { w with
    out := { w.out with
      predicts := update w.out.predicts w.lastAcceptedRetriveIdx targetTokenId
      acceptIndex := update w.out.acceptIndex
        (bx * a.numSpeculativeTokens + numAcceptedTokens) draftIndex }
    numAcceptedTokens := numAcceptedTokens
    lastAcceptedRetriveIdx := draftIndex }

def siblingLoop (a : VerifyArgs) (bx : Nat) : Nat → Walk → Option Walk
  | 0, _ => none
  | fuel + 1, w =>
    if w.curIndex = -1 then some w
    else
      let draftIndex := a.retriveIndex (bx * a.numDraftTokens + w.curIndex)
      let draftTokenId := a.candidates (bx * a.numDraftTokens + w.curIndex)
      let targetTokenId := a.targetPredict w.lastAcceptedRetriveIdx
      if draftTokenId = targetTokenId then some (w.accept a bx draftIndex targetTokenId)
      else siblingLoop a bx fuel
        { w with curIndex := a.retriveNextSibling (bx * a.numDraftTokens + w.curIndex) }

/-- The third argument counts down. -/
def levelLoop (a : VerifyArgs) (bx fuel : Nat) : Nat → Walk → Option Walk
  | 0, w => some w
  | j + 1, w => do
    let w ← siblingLoop a bx fuel
      { w with curIndex := a.retriveNextToken (bx * a.numDraftTokens + w.curIndex) }
    if w.curIndex = -1 then return w else levelLoop a bx fuel j w

def startWalk : Walk :=
  let lastAcceptedRetriveIdx := a.retriveIndex (bx * a.numDraftTokens)
  { out := { out with
      acceptIndex := update out.acceptIndex (bx * a.numSpeculativeTokens)
        lastAcceptedRetriveIdx }
    lastAcceptedRetriveIdx := lastAcceptedRetriveIdx }

def Walk.finish : VerifyOut :=
  { w.out with
    acceptTokenNum := update w.out.acceptTokenNum bx w.numAcceptedTokens
    predicts := update w.out.predicts w.lastAcceptedRetriveIdx
      (a.targetPredict w.lastAcceptedRetriveIdx) }

def verifyTreeGreedy (fuel bx : Nat) (out : VerifyOut) : Option VerifyOut := do
  let w ← levelLoop a bx fuel (a.numSpeculativeTokens - 1) (startWalk a bx out)
  return w.finish a bx

/-! ## `verify_tree_greedy_kernel_triton` -/

/-- The variables of the loops over the levels and over the siblings. -/
structure TritonWalk extends Walk where
  foundMatch : Int := 0
  shouldContinue : Int := 1

def storeMasked (b : Buffer) (addr value : Int) (mask : Bool) : Buffer :=
  if mask then update b addr value else b

/-- `target_predict` at a flat index, by row and column. -/
def targetAt (i : Int) : Int :=
  let targetRow := i / a.numDraftTokens
  let targetCol := i % a.numDraftTokens
  a.targetPredict (targetRow * a.numDraftTokens + targetCol)

def siblingIter (targetToken : Int) (w : TritonWalk) : TritonWalk :=
  if w.foundMatch = 0 then
    let isValid := decide (w.curIndex ≠ -1)
    let safeCurIndex := w.curIndex * isValid.toInt
    let safeIndex := bx * a.numDraftTokens + safeCurIndex
    let draftIndex := a.retriveIndex safeIndex
    let draftToken := a.candidates safeIndex
    let tokenMatch := isValid && decide (draftToken = targetToken)
    { out := { w.out with
        predicts := storeMasked w.out.predicts w.lastAcceptedRetriveIdx targetToken tokenMatch
        acceptIndex := storeMasked w.out.acceptIndex
          (bx * a.numSpeculativeTokens + (w.numAcceptedTokens + 1)) draftIndex tokenMatch }
      numAcceptedTokens := w.numAcceptedTokens + tokenMatch.toInt
      lastAcceptedRetriveIdx :=
        tokenMatch.toInt * draftIndex + (!tokenMatch).toInt * w.lastAcceptedRetriveIdx
      foundMatch := tokenMatch.toInt * 1 + (!isValid).toInt * (-1)
      curIndex := if !tokenMatch && isValid then a.retriveNextSibling safeIndex else w.curIndex
      shouldContinue := w.shouldContinue }
  else w

def levelIter (w : TritonWalk) : TritonWalk :=
  if w.shouldContinue ≠ 0 then
    let targetToken := targetAt a w.lastAcceptedRetriveIdx
    let w := (siblingIter a bx targetToken)^[a.numDraftTokens] { w with
      curIndex := a.retriveNextToken (bx * a.numDraftTokens + w.curIndex)
      foundMatch := 0 }
    if w.foundMatch ≠ 1 then { w with shouldContinue := 0 } else w
  else w

/-- `verify_tree_greedy_kernel_triton`, one block of it. -/
def verifyTreeGreedyTriton : VerifyOut :=
  let w := (levelIter a bx)^[a.numSpeculativeTokens - 1] { startWalk a bx out with }
  { w.out with
    acceptTokenNum := update w.out.acceptTokenNum bx w.numAcceptedTokens
    predicts := update w.out.predicts w.lastAcceptedRetriveIdx (targetAt a w.lastAcceptedRetriveIdx) }
end

/-! ## What a block writes -/

variable {a : VerifyArgs} {bx : Nat} {kids : Nat → List Nat}

section
variable (w : Walk) (a : VerifyArgs) (bx v : Nat) (kids : Nat → List Nat)

def slot : Int := bx * a.numDraftTokens + v

/-- A child carries the token that is predicted at the node. -/
def Predicted (c : Nat) : Bool :=
  decide (a.candidates (slot a bx c) = a.targetPredict (slot a bx v))

structure HoldsTree : Prop where
  encodes : Encodes a.numDraftTokens (fun v => a.retriveNextToken (slot a bx v))
    (fun v => a.retriveNextSibling (slot a bx v)) kids
  index : ∀ v < a.numDraftTokens, a.retriveIndex (slot a bx v) = slot a bx v
  pos : 0 < a.numDraftTokens

def acceptedPath : List Nat :=
  descend (Predicted a bx) kids (a.numSpeculativeTokens - 1) 0

def predictWrites (path : List Nat) : List (Int × Int) :=
  path.map fun v => (slot a bx v, a.targetPredict (slot a bx v))

/-- The writes of the accepted nodes, from the place `m` on. -/
def indexWrites (a : VerifyArgs) (bx : Nat) : Nat → List Nat → List (Int × Int)
  | _, [] => []
  | m, v :: path => ((bx * a.numSpeculativeTokens + m : Nat), slot a bx v) :: indexWrites a bx (m + 1) path

/-- A walk that has come to the node `v` with `m` accepted tokens. -/
structure Walk.At (m : Nat) : Prop where
  last : w.lastAcceptedRetriveIdx = slot a bx v
  num : w.numAcceptedTokens = m

def Walk.after : Option Nat → Walk
  | none => { w with curIndex := -1 }
  | some c => { w.accept a bx (slot a bx c) (a.targetPredict (slot a bx v)) with curIndex := c }
end

lemma Walk.after_curIndex (w : Walk) (v : Nat) (i : Int) (found : Option Nat) :
    { w with curIndex := i }.after a bx v found = w.after a bx v found := by
  cases found <;> rfl

variable {w : TritonWalk} {v m fuel c : Nat} {path : List Nat} {w' : Walk} {j : Nat} {t : Int}

lemma Walk.At.after {w : Walk} (h : w.At a bx v m) (c : Nat) :
    (w.after a bx v (some c)).At a bx c (m + 1) :=
  ⟨rfl, by rw [Walk.after, Walk.accept, h.num]; rfl⟩

lemma siblingLoop_eq (hindex : ∀ v < a.numDraftTokens, a.retriveIndex (slot a bx v) = slot a bx v)
    (xs : List Nat) {w : Walk} (hw : w.At a bx v m)
    (hchain : Chain (fun v => a.retriveNextSibling (slot a bx v)) w.curIndex xs)
    (hxs : ∀ x ∈ xs, x < a.numDraftTokens) (hfuel : xs.length < fuel) :
    siblingLoop a bx fuel w = some (w.after a bx v (xs.find? (Predicted a bx v))) := by
  induction xs generalizing w fuel with
  | nil =>
    obtain ⟨fuel, rfl⟩ : ∃ k, fuel = k + 1 := ⟨fuel - 1, by simp at hfuel; omega⟩
    have hcur : w.curIndex = -1 := hchain
    rw [siblingLoop, if_pos hcur, find?_nil, Walk.after, ← hcur]
  | cons x xs ih => ?_
  obtain ⟨fuel, rfl⟩ : ∃ k, fuel = k + 1 := ⟨fuel - 1, by simp at hfuel; omega⟩
  obtain ⟨hcur, hrest⟩ := hchain
  have hx : x < a.numDraftTokens := hxs x mem_cons_self
  rw [siblingLoop, if_neg (by omega)]
  simp only [hcur]
  rw [show (bx : Int) * a.numDraftTokens + x = slot a bx x from rfl, hindex x hx, hw.last]
  by_cases hp : a.candidates (slot a bx x) = a.targetPredict (slot a bx v)
  · rw [if_pos hp, find?_cons_of_pos (by simpa [Predicted] using hp), Walk.after, ← hcur]
    rfl
  · rw [if_neg hp, find?_cons_of_neg (by simpa [Predicted] using hp)]
    rw [← hw.last, ih (w := { w with curIndex := a.retriveNextSibling (slot a bx x) }) ⟨hw.last, hw.num⟩ hrest
      (fun y hy => hxs y (mem_cons_of_mem _ hy)) (by simpa using hfuel), Walk.after_curIndex]

/-- What a walk from `v` with `m` accepted tokens has done so far. -/
structure Walked (a : VerifyArgs) (bx : Nat) (w : Walk) (v m : Nat) (path : List Nat) (w' : Walk) :
    Prop where
  at_end : w'.At a bx (path.getLastD v) (m + path.length)
  predicts : w'.out.predicts = writeAll w.out.predicts (predictWrites a bx (v :: path).dropLast)
  acceptIndex : w'.out.acceptIndex = writeAll w.out.acceptIndex (indexWrites a bx (m + 1) path)
  acceptTokenNum : w'.out.acceptTokenNum = w.out.acceptTokenNum

lemma Walked.nil {w : Walk} (hw : w.At a bx v m) (hout : w'.out = w.out)
    (hlast : w'.lastAcceptedRetriveIdx = w.lastAcceptedRetriveIdx)
    (hnum : w'.numAcceptedTokens = w.numAcceptedTokens) : Walked a bx w v m [] w' :=
  ⟨⟨hlast.trans hw.last, hnum.trans hw.num⟩, by rw [hout]; rfl, by rw [hout]; rfl, by rw [hout]⟩

lemma Walked.cons {w w₁ : Walk} (hw : w.At a bx v m)
    (hout : w₁.out = (w.after a bx v (some c)).out) (h : Walked a bx w₁ c (m + 1) path w') :
    Walked a bx w v m (c :: path) w' := by
  refine ⟨?_, ?_, ?_, ?_⟩
  · have := h.at_end
    grind
  · rw [h.predicts, hout, dropLast_cons_of_ne_nil (cons_ne_nil c path), Walk.after,
      Walk.accept, hw.last]
    rfl
  · rw [h.acceptIndex, hout, Walk.after, Walk.accept, hw.num]
    rfl
  · rw [h.acceptTokenNum, hout]
    rfl

variable (ht : HoldsTree a bx kids)
include ht

lemma levelLoop_eq {w : Walk} (hw : w.At a bx v m)
    (hcur : w.curIndex = v) (hv : v < a.numDraftTokens) (hfuel : a.numDraftTokens ≤ fuel) :
    ∃ w', levelLoop a bx fuel j w = some w' ∧
      Walked a bx w v m (descend (Predicted a bx) kids j v) w' := by
  induction j generalizing w v m with
  | zero => exact ⟨w, rfl, .nil hw rfl rfl rfl⟩
  | succ j ih => ?_
  have hkids : ∀ x ∈ kids v, x < a.numDraftTokens := fun x hx =>
    (ht.encodes.tree.bound v hv x hx).2
  have hlen := ht.encodes.tree.length_kids hv
  have hsib := siblingLoop_eq ht.index (kids v)
    (w := { w with curIndex := a.retriveNextToken (bx * a.numDraftTokens + w.curIndex) })
    ⟨hw.last, hw.num⟩ (by rw [hcur]; exact ht.encodes.chain v hv) hkids (show (kids v).length < fuel by omega)
  rw [Walk.after_curIndex] at hsib
  rw [levelLoop, hsib, descend]
  rcases hfind : (kids v).find? (Predicted a bx v) with _ | c
  · exact ⟨_, rfl, .nil hw rfl rfl rfl⟩
  have hc := hkids c (mem_of_find?_eq_some hfind)
  obtain ⟨w', hrun, hwalked⟩ := ih (hw.after c) rfl hc
  refine ⟨w', ?_, .cons hw rfl hwalked⟩
  have hne : (w.after a bx v (some c)).curIndex ≠ -1 := by
    change (c : Int) ≠ -1
    omega
  rw [Option.bind_eq_bind, Option.bind_some, if_neg hne, hrun]

omit ht

/-! ### The Triton kernel -/

lemma targetAt_eq (i : Int) : targetAt a i = a.targetPredict i := by
  rw [targetAt, Int.ediv_mul_add_emod]

structure Looked (a : VerifyArgs) (bx v : Nat) (w : TritonWalk) (found : Option Nat) (w' : TritonWalk) :
    Prop where
  shouldContinue : w'.shouldContinue = w.shouldContinue
  hit : ∀ c, found = some c → w'.toWalk = w.toWalk.after a bx v (some c) ∧ w'.foundMatch = 1
  miss : found = none → w'.out = w.out ∧ w'.lastAcceptedRetriveIdx = w.lastAcceptedRetriveIdx ∧
    w'.numAcceptedTokens = w.numAcceptedTokens ∧ w'.foundMatch ≠ 1

lemma siblingIter_ended (h : w.foundMatch ≠ 0) (k : Nat) : (siblingIter a bx t)^[k] w = w :=
  iterate_fixed (by rw [siblingIter, if_neg h]) k

variable (h : w.foundMatch = 0)
include h

lemma siblingIter_end (hcur : w.curIndex = -1) : siblingIter a bx t w = { w with foundMatch := -1 } := by
  obtain ⟨⟨out, last, num, cur⟩, found, go⟩ := w
  obtain rfl : cur = -1 := hcur
  obtain rfl : found = 0 := h
  simp [siblingIter, storeMasked]

lemma siblingIter_match (hcur : w.curIndex = c)
    (hindex : a.retriveIndex (slot a bx c) = slot a bx c) (hp : Predicted a bx v c = true) :
    siblingIter a bx (a.targetPredict (slot a bx v)) w =
      { w.toWalk.after a bx v (some c) with foundMatch := 1, shouldContinue := w.shouldContinue } := by
  have hslot : (bx : Int) * a.numDraftTokens + c = slot a bx c := rfl
  rw [Predicted, decide_eq_true_iff] at hp
  simp [siblingIter, h, hcur, hslot, hindex, hp, storeMasked, Walk.after, Walk.accept]

lemma siblingIter_next (hcur : w.curIndex = c)
    (hp : Predicted a bx v c = false) : siblingIter a bx (a.targetPredict (slot a bx v)) w =
      { w with curIndex := a.retriveNextSibling (slot a bx c) } := by
  have hslot : (bx : Int) * a.numDraftTokens + c = slot a bx c := rfl
  rw [Predicted, decide_eq_false_iff_not] at hp
  simp [siblingIter, h, hcur, hslot, hp, storeMasked]

omit h

lemma siblingIter_looked
    (hindex : ∀ v < a.numDraftTokens, a.retriveIndex (slot a bx v) = slot a bx v)
    {k : Nat} (xs : List Nat) (h : w.foundMatch = 0)
    (hlast : w.lastAcceptedRetriveIdx = slot a bx v)
    (hchain : Chain (fun v => a.retriveNextSibling (slot a bx v)) w.curIndex xs)
    (hxs : ∀ x ∈ xs, x < a.numDraftTokens) (hk : xs.length ≤ k) :
    Looked a bx v w (xs.find? (Predicted a bx v))
      ((siblingIter a bx (a.targetPredict (slot a bx v)))^[k] w) := by
  induction xs generalizing w k with
  | nil =>
    cases k with
    | zero =>
      refine ⟨rfl, nofun, fun _ => ⟨rfl, rfl, rfl, ?_⟩⟩
      rw [iterate_zero, id, h]
      decide
    | succ k =>
      rw [iterate_succ_apply, siblingIter_end h hchain, siblingIter_ended (by simp)]
      exact ⟨rfl, nofun, fun _ => ⟨rfl, rfl, rfl, by simp⟩⟩
  | cons x xs ih => ?_
  obtain ⟨k, rfl⟩ : ∃ k', k = k' + 1 := ⟨k - 1, by rw [length_cons] at hk; omega⟩
  obtain ⟨hcur, hrest⟩ := hchain
  rw [iterate_succ_apply]
  cases hp : Predicted a bx v x with
  | true =>
    rw [siblingIter_match h hcur (hindex x (hxs x mem_cons_self)) hp,
      siblingIter_ended (by simp), find?_cons_of_pos hp]
    refine ⟨rfl, ?_, nofun⟩
    rintro c ⟨⟩
    exact ⟨rfl, rfl⟩
  | false => ?_
  rw [siblingIter_next h hcur hp, find?_cons_of_neg (by simp [hp])]
  have hlooked := ih (k := k)
    (w := { w with curIndex := a.retriveNextSibling (slot a bx x) }) h hlast hrest
    (fun y hy => hxs y (mem_cons_of_mem _ hy)) (by rw [length_cons] at hk; omega)
  refine ⟨hlooked.shouldContinue, fun c hc => ?_, hlooked.miss⟩
  obtain ⟨hwalk, hfound⟩ := hlooked.hit c hc
  exact ⟨hwalk.trans (Walk.after_curIndex w.toWalk v ..), hfound⟩

lemma levelIter_ended (h : w.shouldContinue = 0) (j : Nat) : (levelIter a bx)^[j] w = w :=
  iterate_fixed (by rw [levelIter, if_neg (by simp [h])]) j

include ht

lemma levelIter_walked (hw : w.toWalk.At a bx v m) (hcur : w.curIndex = v) (hv : v < a.numDraftTokens)
    (hgo : w.shouldContinue = 1) :
    Walked a bx w.toWalk v m (descend (Predicted a bx) kids j v) ((levelIter a bx)^[j] w).toWalk := by
  induction j generalizing w v m with
  | zero => exact .nil hw rfl rfl rfl
  | succ j ih => ?_
  have hkids : ∀ x ∈ kids v, x < a.numDraftTokens := fun x hx =>
    (ht.encodes.tree.bound v hv x hx).2
  have hlooked := siblingIter_looked (k := a.numDraftTokens) ht.index (kids v)
    (w := { w with
      curIndex := a.retriveNextToken (bx * a.numDraftTokens + w.curIndex), foundMatch := 0 })
    rfl hw.last (by rw [hcur]; exact ht.encodes.chain v hv) hkids
    (le_of_lt (ht.encodes.tree.length_kids hv))
  have htarget : targetAt a w.lastAcceptedRetriveIdx = a.targetPredict (slot a bx v) := by
    rw [targetAt_eq, hw.last]
  rw [iterate_succ_apply, levelIter, if_pos (by rw [hgo]; decide), htarget, descend]
  dsimp only at hlooked ⊢
  generalize (siblingIter a bx (a.targetPredict (slot a bx v)))^[a.numDraftTokens] _ = w₁
    at hlooked ⊢
  rcases hfind : (kids v).find? (Predicted a bx v) with _ | c
  · obtain ⟨hout, hlast, hnum, hne⟩ := hlooked.miss hfind
    rw [if_pos hne, levelIter_ended rfl]
    exact .nil hw hout hlast hnum
  obtain ⟨hwalk, hone⟩ := hlooked.hit c hfind
  rw [if_neg (not_not_intro hone)]
  have hat : w₁.toWalk.At a bx c (m + 1) := by
    rw [hwalk]
    exact Walk.At.after ⟨hw.last, hw.num⟩ c
  have hc := hkids c (mem_of_find?_eq_some hfind)
  refine .cons hw (congrArg Walk.out hwalk) (ih hat ?_ hc (hlooked.shouldContinue.trans hgo))
  rw [show w₁.curIndex = w₁.toWalk.curIndex from rfl, hwalk]
  rfl

omit ht

/-! ### The writes of a block -/

variable (out : VerifyOut)

/-- The tables after a block with the accepted nodes `path` below the root. -/
def VerifyOut.commit (a : VerifyArgs) (bx : Nat) (path : List Nat) : VerifyOut where
  predicts := writeAll out.predicts (predictWrites a bx (0 :: path))
  acceptIndex := writeAll out.acceptIndex (indexWrites a bx 0 (0 :: path))
  acceptTokenNum := update out.acceptTokenNum bx path.length

include ht

lemma startWalk_at : (startWalk a bx out).At a bx 0 0 :=
  ⟨(by
    have := ht.index 0 ht.pos
    simpa [startWalk, slot] using this), rfl⟩

lemma Walked.finish {out : VerifyOut} {w : Walk}
    (h : Walked a bx (startWalk a bx out) 0 0 path w) : w.finish a bx = out.commit a bx path := by
  have hroot : a.retriveIndex (bx * a.numDraftTokens) = slot a bx 0 := by
    have := ht.index 0 ht.pos
    simpa [slot] using this
  have hlast : (0 :: path).dropLast ++ [path.getLastD 0] = 0 :: path := by
    rw [← getLast_eq_getLastD]
    exact dropLast_concat_getLast (cons_ne_nil 0 path)
  rw [Walk.finish, VerifyOut.commit, h.at_end.last, h.at_end.num, h.predicts, h.acceptIndex,
    h.acceptTokenNum]
  congr 1
  · nth_rewrite 2 [← hlast]
    rw [predictWrites, predictWrites, map_append, writeAll_append]
    rfl
  · rw [startWalk, hroot]
    simp [indexWrites, writeAll]
  · rw [zero_add]
    rfl

lemma verifyTreeGreedy_eq (hfuel : a.numDraftTokens ≤ fuel) :
    verifyTreeGreedy a fuel bx out = some (out.commit a bx (acceptedPath a bx kids)) := by
  obtain ⟨w, hrun, hwalked⟩ := levelLoop_eq (j := a.numSpeculativeTokens - 1) ht
    (startWalk_at ht out) rfl ht.pos hfuel
  rw [verifyTreeGreedy, hrun]
  exact congrArg some (hwalked.finish ht)

lemma verifyTreeGreedyTriton_eq :
    verifyTreeGreedyTriton a bx out = out.commit a bx (acceptedPath a bx kids) := by
  have hwalked := levelIter_walked (j := a.numSpeculativeTokens - 1) ht
    (w := { startWalk a bx out with }) (startWalk_at ht out) rfl ht.pos rfl
  rw [acceptedPath, ← hwalked.finish ht, verifyTreeGreedyTriton, targetAt_eq]
  rfl
end Sglang.Spec
