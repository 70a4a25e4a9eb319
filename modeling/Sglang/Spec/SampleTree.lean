import Sglang.Lib.Sampling
import Sglang.Spec.DraftTree
import Sglang.Spec.VerifyTree

/-!
# Verification of a draft tree by sampling

`TreeSpeculativeSamplingTargetOnly`, with a type `K` of exact numbers in place of floats.
-/

namespace Sglang.Spec
open List Function

structure SampleArgs (K : Type) where
  candidates : Buffer
  links : Links
  uniformSamples : Int → K
  uniformSamplesForFinalSampling : Int → K
  targetProbs : Int → K
  numSpeculativeTokens : Nat
  numDraftTokens : Nat
  d : Nat
  thresholdSingle : K
  thresholdAcc : K

structure SampleOut (K : Type) extends VerifyOut where
  draftProbs : Int → K

structure SampleWalk (K : Type) where
  out : SampleOut K
  probAcc : K
  curProbOffset : Int
  coin : K
  lastAcceptedRetriveIdx : Int
  numAcceptedTokens : Int := 0
  curIndex : Int := 0

section
variable {K : Type} [Field K] [LinearOrder K]

/-! ## `TreeSpeculativeSamplingTargetOnly` -/

section
variable (out : SampleOut K) (w : SampleWalk K) (a : SampleArgs K) (d fuel bx v : Nat) (t : Int)

/-- The accepted token is that of the node that the walk looks at. -/
def SampleWalk.accept : SampleWalk K :=
  let draftIndex := a.links.retriveIndex (bx * a.numDraftTokens + w.curIndex)
  let draftTokenId := a.candidates (bx * a.numDraftTokens + w.curIndex)
  let numAcceptedTokens := w.numAcceptedTokens + 1
  { w with
    probAcc := 0
    curProbOffset := (bx * a.numDraftTokens + w.curIndex) * a.d
    coin := a.uniformSamples (bx * a.numDraftTokens + w.curIndex)
    out := { w.out with
      predicts := update w.out.predicts w.lastAcceptedRetriveIdx draftTokenId
      acceptIndex := update w.out.acceptIndex
        (bx * a.numSpeculativeTokens + numAcceptedTokens) draftIndex }
    numAcceptedTokens := numAcceptedTokens
    lastAcceptedRetriveIdx := draftIndex }

def sampleSiblings (a : SampleArgs K) (bx : Nat) : Nat → SampleWalk K → Option (SampleWalk K)
  | 0, _ => none
  | fuel + 1, w =>
    if w.curIndex = -1 then some w
    else
      let draftTokenId := a.candidates (bx * a.numDraftTokens + w.curIndex)
      let targetProbSingle := a.targetProbs (w.curProbOffset + draftTokenId)
      let probAcc := w.probAcc + targetProbSingle
      if w.coin ≤ probAcc / a.thresholdAcc ∨ a.thresholdSingle ≤ targetProbSingle then
        some (w.accept a bx)
      else sampleSiblings a bx fuel { w with
        probAcc := probAcc
        out := { w.out with
          draftProbs := update w.out.draftProbs (w.curProbOffset + draftTokenId)
            (a.targetProbs (w.curProbOffset + draftTokenId)) }
        curIndex := a.links.retriveNextSibling (bx * a.numDraftTokens + w.curIndex) }

/-- The loop over `j`, with as many iterations to go as the fourth argument says. -/
def sampleLevels (a : SampleArgs K) (bx fuel : Nat) : Nat → SampleWalk K → Option (SampleWalk K)
  | 0, w => some w
  | j + 1, w => do
    let w ← sampleSiblings a bx fuel
      { w with curIndex := a.links.retriveNextToken (bx * a.numDraftTokens + w.curIndex) }
    if w.curIndex = -1 then return w else sampleLevels a bx fuel j w

def startSample (out : SampleOut K) : SampleWalk K :=
  let lastAcceptedRetriveIdx := a.links.retriveIndex (bx * a.numDraftTokens)
  { out := { out with
      acceptIndex := update out.acceptIndex (bx * a.numSpeculativeTokens)
        lastAcceptedRetriveIdx }
    probAcc := 0
    curProbOffset := bx * a.numDraftTokens * a.d
    coin := a.uniformSamples (bx * a.numDraftTokens)
    lastAcceptedRetriveIdx := lastAcceptedRetriveIdx }

/-- What the search found, or the last token of positive weight, or the last of all. -/
def sampledOrLast (w : Nat → K) : Option Nat → Int
  | some sampledId => sampledId
  | none =>
    match ((List.range d).filter fun i => 0 < w i).getLast? with
    | some lastValidId => lastValidId
    | none => (d : Int) - 1

/-- `DeviceSamplingFromProb`: the first positive token whose running sum exceeds the coin's share.
-/
def finalDraw (w : Nat → K) (coin : K) : Int :=
  let sumRelu := ((List.range d).map w).sum
  sampledOrLast d w (inverseCdf w (coin * sumRelu) 0 (List.range d))

/-- `relu(target_probs - draft_probs)` at the place of a walk; there is no `draft_probs` for the bonus
token. -/
def SampleWalk.relu (i : Nat) : K :=
  let q := a.targetProbs (w.curProbOffset + i)
  let p := if w.numAcceptedTokens ≠ (a.numSpeculativeTokens : Int) - 1 then
    w.out.draftProbs (w.curProbOffset + i) else 0
  max (q - p) 0

def SampleWalk.finish : SampleOut K :=
  let sampledId := finalDraw a.d (w.relu a) (a.uniformSamplesForFinalSampling bx)
  { w.out with
    acceptTokenNum := update w.out.acceptTokenNum bx w.numAcceptedTokens
    predicts := update w.out.predicts w.lastAcceptedRetriveIdx sampledId }

/-- `TreeSpeculativeSamplingTargetOnly`, one block of it. -/
def treeSpeculativeSamplingTargetOnly (out : SampleOut K) : Option (SampleOut K) := do
  let w ← sampleLevels a bx fuel (a.numSpeculativeTokens - 1) (startSample a bx out)
  return w.finish a bx

def sampleGrid (order : List Nat) (out : SampleOut K) : Option (SampleOut K) :=
  order.foldlM (fun out bx => treeSpeculativeSamplingTargetOnly a fuel bx out) out

def SampleOut.emitted : List Int :=
  (List.range ((out.acceptTokenNum bx).toNat + 1)).map fun j =>
    out.predicts (out.acceptIndex (entry a.numSpeculativeTokens bx j))

/-! ## The tokens of a walk -/

def draftToken : Int := a.candidates (entry a.numDraftTokens bx v)

/-- The address of the probability of a token at a node. -/
def cell : Int := entry a.numDraftTokens bx v * a.d + t

def targetProb : K := a.targetProbs (cell a bx v t)

/-- The first child that is accepted, with the sum `acc` so far. -/
def acceptChild (a : SampleArgs K) (bx v : Nat) : K → List Nat → Option Nat
  | _, [] => none
  | acc, c :: cs =>
    let p := targetProb a bx v (draftToken a bx c)
    if a.uniformSamples (entry a.numDraftTokens bx v) ≤ (acc + p) / a.thresholdAcc ∨
        a.thresholdSingle ≤ p then some c
    else acceptChild a bx v (acc + p) cs

lemma acceptChild_mem {a : SampleArgs K} {bx v c : Nat} {acc : K} {cs : List Nat}
    (h : acceptChild a bx v acc cs = some c) : c ∈ cs := by
  induction cs generalizing acc with
  | nil => cases h
  | cons x cs ih =>
    rw [acceptChild] at h
    grind

def residual (cs : List Nat) (i : Nat) : K :=
  max (targetProb a bx v i - if (i : Int) ∈ cs.map (draftToken a bx) then targetProb a bx v i else 0) 0
end

/-- The tokens of a walk from a node with at most `k` steps down. -/
def sampleTokens (a : SampleArgs K) (bx : Nat) (kids : Nat → List Nat) : Nat → Nat → List Int
  | 0, v => [finalDraw a.d (residual a bx v []) (a.uniformSamplesForFinalSampling bx)]
  | k + 1, v =>
    match acceptChild a bx v 0 (kids v) with
    | none => [finalDraw a.d (residual a bx v (kids v)) (a.uniformSamplesForFinalSampling bx)]
    | some c => draftToken a bx c :: sampleTokens a bx kids k c
end

/-! ## The rows of a request -/

section
variable {K : Type} {a : SampleArgs K} {bx : Nat} {above : List Nat} {v : Nat}

/-- The probabilities of passed over children are written. -/
def SampleOut.reject (out : SampleOut K) (a : SampleArgs K) (bx v : Nat) (cs : List Nat) : SampleOut K :=
  { out with
    draftProbs := writeAll out.draftProbs (cs.map fun c =>
      (cell a bx v (draftToken a bx c), targetProb a bx v (draftToken a bx c))) }

variable {bx' : Nat} {out out' : SampleOut K} {cs : List Nat}

lemma cell_inj {v' t t' : Nat} (hv : v < a.numDraftTokens) (hv' : v' < a.numDraftTokens)
    (ht : t < a.d) (ht' : t' < a.d) (h : cell a bx v t = cell a bx' v' t') : bx = bx' ∧ v = v' := by
  have hnode := (entry_inj ht ht' h).1
  refine entry_inj hv hv' ?_
  rw [entry, entry]
  exact_mod_cast hnode

/-- The children of the nodes carry tokens of the vocabulary. -/
def TokensIn (a : SampleArgs K) (bx : Nat) (kids : Nat → List Nat) : Prop :=
  ∀ v < a.numDraftTokens, ∀ c ∈ kids v, ∃ t < a.d, draftToken a bx c = (t : Nat)

structure OwnRows (a : SampleArgs K) (bx : Nat) (out out' : SampleOut K) : Prop where
  predicts : Confined (fun i => ∃ v < a.numDraftTokens, i = entry a.numDraftTokens bx v)
    out.predicts out'.predicts
  acceptIndex : Confined (fun i => ∃ j < a.numSpeculativeTokens, i = entry a.numSpeculativeTokens bx j)
    out.acceptIndex out'.acceptIndex
  acceptTokenNum : Confined (fun i : Int => i = bx) out.acceptTokenNum out'.acceptTokenNum
  draftProbs : Confined (fun i => ∃ v < a.numDraftTokens, ∃ t < a.d, i = cell a bx v (t : Nat))
    out.draftProbs out'.draftProbs

lemma OwnRows.trans {out'' : SampleOut K} (h : OwnRows a bx out out')
    (h' : OwnRows a bx out' out'') : OwnRows a bx out out'' :=
  ⟨h.predicts.trans h'.predicts, h.acceptIndex.trans h'.acceptIndex,
    h.acceptTokenNum.trans h'.acceptTokenNum, h.draftProbs.trans h'.draftProbs⟩

lemma OwnRows.reject (out : SampleOut K) (hv : v < a.numDraftTokens)
    (hcs : ∀ c ∈ cs, ∃ t < a.d, draftToken a bx c = (t : Nat)) :
    OwnRows a bx out (out.reject a bx v cs) := by
  refine ⟨.refl _, .refl _, .refl _, .writeAll _ ?_⟩
  grind

lemma reject_draftProbs (out : SampleOut K) (cs : List Nat) (t : Int) :
    (out.reject a bx v cs).draftProbs (cell a bx v t) =
      if t ∈ cs.map (draftToken a bx) then targetProb a bx v t
      else out.draftProbs (cell a bx v t) := by
  split
  · rename_i hmem
    obtain ⟨c, hc, rfl⟩ := mem_map.mp hmem
    refine writeAll_of_mem (mem_map.mpr ⟨c, hc, rfl⟩) fun w hw heq => ?_
    obtain ⟨c', -, rfl⟩ := mem_map.mp hw
    exact congrArg a.targetProbs heq
  rename_i hmem
  refine writeAll_of_notMem fun w hw heq => hmem ?_
  obtain ⟨c, hc, rfl⟩ := mem_map.mp hw
  exact mem_map.mpr ⟨c, hc, Int.add_left_cancel heq⟩

/-- The accepted nodes and the tokens emitted on the way to `v`. -/
structure Emitting (a : SampleArgs K) (bx : Nat) (above : List Nat) (v : Nat) (toks : List Int)
    (out : SampleOut K) : Prop where
  index : ((List.range (above.length + 1)).map fun j =>
    out.acceptIndex (entry a.numSpeculativeTokens bx j)) = (above ++ [v]).map (entry a.numDraftTokens bx)
  predicts : (above.map fun u => out.predicts (entry a.numDraftTokens bx u)) = toks

/-- The tables of a request whose walk has ended at `v`. -/
structure Emits (a : SampleArgs K) (bx : Nat) (above : List Nat) (v : Nat) (toks : List Int)
    (out : SampleOut K) : Prop where
  num : out.acceptTokenNum bx = above.length
  bound : ∀ u ∈ above ++ [v], u < a.numDraftTokens
  length : above.length < a.numSpeculativeTokens
  index : ((List.range (above.length + 1)).map fun j =>
    out.acceptIndex (entry a.numSpeculativeTokens bx j)) = (above ++ [v]).map (entry a.numDraftTokens bx)
  predicts : ((above ++ [v]).map fun u => out.predicts (entry a.numDraftTokens bx u)) = toks

lemma Emits.emitted {toks : List Int} (h : Emits a bx above v toks out) : out.emitted a bx = toks := by
  have hmap := congrArg (map out.predicts) h.index
  rw [map_map, map_map] at hmap
  rw [SampleOut.emitted, h.num, ← h.predicts]
  exact hmap

lemma Emits.ownRows {toks : List Int}
    (h : Emits a bx above v toks out) (hne : bx' ≠ bx) (hrows : OwnRows a bx' out out') :
    Emits a bx above v toks out' := by
  refine ⟨?_, h.bound, h.length, ?_, ?_⟩
  · rw [← h.num]
    exact hrows.acceptTokenNum bx fun e : (bx : Int) = bx' => hne (by exact_mod_cast e.symm)
  · rw [← h.index]
    refine map_congr_left fun j hj => hrows.acceptIndex _ ?_
    rintro ⟨j', hj', heq⟩
    have hlt : j < a.numSpeculativeTokens := by
      have := mem_range.mp hj
      have := h.length
      omega
    exact hne (entry_inj hlt hj' heq).1.symm
  rw [← h.predicts]
  refine map_congr_left fun u hu => hrows.predicts _ ?_
  rintro ⟨u', hu', heq⟩
  exact hne (entry_inj (h.bound u hu) hu' heq).1.symm

/-- No probability was written at the nodes that were not met. -/
def Fresh [Zero K] (a : SampleArgs K) (bx : Nat) (above : List Nat) (out : SampleOut K) : Prop :=
  ∀ u < a.numDraftTokens, u ∉ above → ∀ t < a.d, out.draftProbs (cell a bx u (t : Nat)) = 0

lemma Fresh.ownRows [Zero K] (h : Fresh a bx [] out) (hne : bx' ≠ bx)
    (hrows : OwnRows a bx' out out') : Fresh a bx [] out' := by
  intro u hu hnot t ht
  rw [← h u hu hnot t ht]
  refine hrows.draftProbs _ ?_
  rintro ⟨u', hu', t', ht', heq⟩
  exact hne (cell_inj hu hu' ht ht' heq).1.symm

lemma Fresh.reject [Zero K] (h : Fresh a bx above out)
    (hv : v < a.numDraftTokens) (hcs : ∀ c ∈ cs, ∃ t < a.d, draftToken a bx c = (t : Nat)) :
    Fresh a bx (above ++ [v]) (out.reject a bx v cs) := by
  intro u hu hnot t ht
  rw [← h u hu (fun hmem => hnot (mem_append_left _ hmem)) t ht]
  refine writeAll_of_notMem fun w hw heq => hnot ?_
  obtain ⟨c, hc, rfl⟩ := mem_map.mp hw
  obtain ⟨t', ht', htok⟩ := hcs c hc
  rw [htok] at heq
  obtain rfl := (cell_inj hv hu ht' ht heq).2
  exact mem_append_right _ mem_cons_self
end

/-! ## What a block does -/

variable {K : Type} [Field K]
variable {a : SampleArgs K} {bx : Nat} {kids : Nat → List Nat} {above : List Nat} {v m : Nat}

/-- A walk that has come to the node `v` with `m` accepted tokens. -/
structure SampleWalk.At (w : SampleWalk K) (a : SampleArgs K) (bx v m : Nat) : Prop where
  last : w.lastAcceptedRetriveIdx = entry a.numDraftTokens bx v
  num : w.numAcceptedTokens = m
  offset : w.curProbOffset = entry a.numDraftTokens bx v * a.d
  coin : w.coin = a.uniformSamples (entry a.numDraftTokens bx v)

variable {w : SampleWalk K} {toks : List Int} {fuel : Nat} {c : Nat}
variable (hw : w.At a bx v m)
include hw

lemma SampleWalk.At.accept (hcur : w.curIndex = c)
    (hindex : row a.numDraftTokens bx a.links.retriveIndex c = entry a.numDraftTokens bx c) :
    (w.accept a bx).At a bx c (m + 1) := by
  refine ⟨?_, ?_, ?_, ?_⟩
  · rw [SampleWalk.accept, hcur]
    exact hindex
  · rw [SampleWalk.accept, hw.num]
    rfl
  · rw [SampleWalk.accept, hcur]
    rfl
  · rw [SampleWalk.accept, hcur]
    rfl

lemma OwnRows.accept (hv : v < a.numDraftTokens)
    (hm : m + 1 < a.numSpeculativeTokens) : OwnRows a bx w.out (w.accept a bx).out := by
  refine ⟨.update _ ⟨v, hv, hw.last⟩ _, .update _ ⟨m + 1, hm, ?_⟩ _, .refl _, .refl _⟩
  rw [hw.num]
  rfl

lemma Emitting.accept (hcur : w.curIndex = c)
    (hindex : row a.numDraftTokens bx a.links.retriveIndex c = entry a.numDraftTokens bx c)
    (hm : above.length = m) (hspec : m + 1 < a.numSpeculativeTokens)
    (hd : Descent a.numDraftTokens kids above v) (h : Emitting a bx above v toks w.out) :
    Emitting a bx (above ++ [v]) c (toks ++ [draftToken a bx c]) (w.accept a bx).out := by
  constructor
  · have hplace : (bx : Int) * a.numSpeculativeTokens + (w.numAcceptedTokens + 1) =
        entry a.numSpeculativeTokens bx (m + 1) := by
      rw [hw.num]
      rfl
    have hindex' : a.links.retriveIndex (bx * a.numDraftTokens + w.curIndex) =
        entry a.numDraftTokens bx c := by
      rw [hcur]
      exact hindex
    rw [length_append, length_singleton, range_succ, map_append, map_append,
      ← h.index, SampleWalk.accept]
    simp only [hplace, hindex']
    congr 1
    · refine map_congr_left fun j hj => update_of_ne (fun heq => ?_) _ _
      have hj := mem_range.mp hj
      have := (entry_inj (by omega) (by omega) heq).2
      omega
    grind
  have htoken : a.candidates (bx * a.numDraftTokens + w.curIndex) = draftToken a bx c := by
    rw [hcur]
    rfl
  rw [map_append, ← h.predicts, SampleWalk.accept]
  simp only [hw.last, htoken]
  congr 1
  · refine map_congr_left fun u hu => update_of_ne (fun heq => ?_) _ _
    have hlt := hd.bound u (mem_append_left _ hu)
    exact hd.notMem ((entry_inj hlt hd.lt heq).2 ▸ hu)
  · rw [map_singleton, update_self]

omit hw

variable [LinearOrder K]

def SampleWalk.Looked (w : SampleWalk K) (a : SampleArgs K) (bx v : Nat) (cs : List Nat)
    (w' : SampleWalk K) : Option Nat → Prop
  | none => w'.curIndex = -1 ∧ w'.out = w.out.reject a bx v cs ∧
      w'.lastAcceptedRetriveIdx = w.lastAcceptedRetriveIdx ∧
      w'.numAcceptedTokens = w.numAcceptedTokens ∧ w'.curProbOffset = w.curProbOffset ∧
      w'.coin = w.coin
  | some c => ∃ before, before ⊆ cs ∧
      w' = { w with out := w.out.reject a bx v before, curIndex := c }.accept a bx

lemma sampleSiblings_looked (fuel : Nat) (cs : List Nat) (hw : w.At a bx v m)
    (hchain : Chain (row a.numDraftTokens bx a.links.retriveNextSibling) w.curIndex cs)
    (hfuel : cs.length < fuel) : ∃ w', sampleSiblings a bx fuel w = some w' ∧
      w.Looked a bx v cs w' (acceptChild a bx v w.probAcc cs) := by
  induction cs generalizing w fuel with
  | nil =>
    obtain ⟨fuel, rfl⟩ : ∃ k, fuel = k + 1 := ⟨fuel - 1, by simp at hfuel; omega⟩
    have hcur : w.curIndex = -1 := hchain
    exact ⟨w, by rw [sampleSiblings, if_pos hcur], hcur, rfl, rfl, rfl, rfl, rfl⟩
  | cons c cs ih => ?_
  obtain ⟨fuel, rfl⟩ : ∃ k, fuel = k + 1 := ⟨fuel - 1, by simp at hfuel; omega⟩
  obtain ⟨hcur, hrest⟩ := hchain
  have hcell : w.curProbOffset + a.candidates (bx * a.numDraftTokens + w.curIndex) =
      cell a bx v (draftToken a bx c) := by
    rw [hw.offset, hcur]
    rfl
  rw [sampleSiblings, if_neg (by omega), acceptChild]
  simp only [hcell, ← hw.coin]
  rw [show a.targetProbs (cell a bx v (draftToken a bx c)) =
    targetProb a bx v (draftToken a bx c) from rfl]
  by_cases hacc : w.coin ≤
      (w.probAcc + targetProb a bx v (draftToken a bx c)) / a.thresholdAcc ∨
      a.thresholdSingle ≤ targetProb a bx v (draftToken a bx c)
  · rw [if_pos hacc, if_pos hacc]
    exact ⟨_, rfl, [], nil_subset _, by rw [← hcur]; rfl⟩
  rw [if_neg hacc, if_neg hacc]
  obtain ⟨w', hrun, hlooked⟩ := ih fuel (w := { w with
      probAcc := w.probAcc + targetProb a bx v (draftToken a bx c)
      out := { w.out with
        draftProbs := update w.out.draftProbs (cell a bx v (draftToken a bx c))
          (targetProb a bx v (draftToken a bx c)) }
      curIndex := a.links.retriveNextSibling (bx * a.numDraftTokens + w.curIndex) })
    ⟨hw.last, hw.num, hw.offset, hw.coin⟩ (by rw [hcur]; exact hrest) (by simpa using hfuel)
  refine ⟨w', hrun, ?_⟩
  generalize acceptChild a bx v _ cs = found at hlooked ⊢
  rcases found with _ | c'
  · exact hlooked
  obtain ⟨before, hbefore, rfl⟩ := hlooked
  exact ⟨c :: before, cons_subset_cons c hbefore, rfl⟩

/-! ### The steps of a block -/

lemma relu_reject {out : SampleOut K} (cs : List Nat) (hw : w.At a bx v m)
    (hnum : m + 1 < a.numSpeculativeTokens) (hout : w.out = out.reject a bx v cs)
    (hfresh : Fresh a bx above out) (hd : Descent a.numDraftTokens kids above v) {i : Nat}
    (hi : i < a.d) : w.relu a i = residual a bx v cs i := by
  have hoff : w.curProbOffset + i = cell a bx v i := by
    rw [hw.offset]
    rfl
  rw [SampleWalk.relu, residual, if_pos (by rw [hw.num]; omega), hoff, hout, reject_draftProbs,
    hfresh v hd.lt hd.notMem i hi]
  rfl

include hw

lemma relu_limit (hnum : m + 1 = a.numSpeculativeTokens)
    (i : Nat) : w.relu a i = residual a bx v [] i := by
  have hoff : w.curProbOffset + i = cell a bx v i := by
    rw [hw.offset]
    rfl
  rw [SampleWalk.relu, residual, if_neg (by rw [hw.num]; omega), hoff]
  rfl

lemma Emitting.finish (hm : above.length = m) (hspec : m < a.numSpeculativeTokens)
    (hd : Descent a.numDraftTokens kids above v) (h : Emitting a bx above v toks w.out) :
    Emits a bx above v (toks ++ [finalDraw a.d (w.relu a) (a.uniformSamplesForFinalSampling bx)])
    (w.finish a bx) := by
  refine ⟨?_, hd.bound, by omega, h.index, ?_⟩
  · rw [SampleWalk.finish, hm, ← hw.num]
    exact update_self _ _ _
  rw [map_append, ← h.predicts, SampleWalk.finish]
  simp only [hw.last]
  congr 1
  · refine map_congr_left fun u hu => update_of_ne (fun heq => ?_) _ _
    have hlt := hd.bound u (mem_append_left _ hu)
    exact hd.notMem ((entry_inj hlt hd.lt heq).2 ▸ hu)
  · rw [map_singleton, update_self]

lemma OwnRows.finish (hv : v < a.numDraftTokens) : OwnRows a bx w.out (w.finish a bx) :=
  ⟨.update _ ⟨v, hv, hw.last⟩ _, .refl _, .update _ (by rfl) _, .refl _⟩

omit hw

lemma finalDraw_congr {d : Nat} {w w' : Nat → K} (h : ∀ i < d, w i = w' i) (coin : K) :
    finalDraw d w coin = finalDraw d w' coin := by
  have hcdf : ∀ (u acc : K) (xs : List Nat), (∀ x ∈ xs, w x = w' x) →
      inverseCdf w u acc xs = inverseCdf w' u acc xs := by
    intro u acc xs
    induction xs generalizing acc with
    | nil => exact fun _ => rfl
    | cons x xs ih =>
      intro hxs
      rw [forall_mem_cons] at hxs
      rw [inverseCdf, inverseCdf, hxs.1, ih _ hxs.2]
  have hin : ∀ x ∈ range d, w x = w' x := fun x hx => h x (mem_range.mp hx)
  have hsum : (range d).map w = (range d).map w' := map_congr_left hin
  have hfilter : (range d).filter (fun i => decide (0 < w i)) =
      (range d).filter fun i => decide (0 < w' i) :=
    filter_congr fun x hx => by rw [hin x hx]
  have hlast : sampledOrLast d w = sampledOrLast d w' := by
    funext found
    cases found with
    | some i => rfl
    | none => rw [sampledOrLast, sampledOrLast, hfilter]
  rw [finalDraw, finalDraw, hsum, hlast, hcdf _ _ _ hin]

variable (ht : HoldsLinks a.numDraftTokens bx a.links kids)
include ht

lemma sampleLevels_emits (htok : TokensIn a bx kids) {j : Nat}
    (hfuel : a.numDraftTokens ≤ fuel) (hw : w.At a bx v m) (hcur : w.curIndex = v)
    (hacc : w.probAcc = 0) (hd : Descent a.numDraftTokens kids above v) (hm : above.length = m)
    (hlimit : m + j + 1 = a.numSpeculativeTokens) (hemit : Emitting a bx above v toks w.out)
    (hfresh : Fresh a bx above w.out) :
    ∃ w', sampleLevels a bx fuel j w = some w' ∧ OwnRows a bx w.out (w'.finish a bx) ∧
      ∃ above' v', Emits a bx above' v' (toks ++ sampleTokens a bx kids j v) (w'.finish a bx) := by
  induction j generalizing w v m above toks with
  | zero =>
    refine ⟨w, rfl, .finish hw hd.lt, above, v, ?_⟩
    rw [sampleTokens, ← finalDraw_congr fun i _ => relu_limit hw hlimit i]
    exact hemit.finish hw hm (by omega) hd
  | succ j ih => ?_
  have hlen := ht.encodes.tree.length_kids hd.lt
  obtain ⟨w₁, hrun, hlooked⟩ := sampleSiblings_looked fuel (kids v)
    (w := { w with curIndex := a.links.retriveNextToken (bx * a.numDraftTokens + w.curIndex) })
    ⟨hw.last, hw.num, hw.offset, hw.coin⟩
    (by rw [hcur]; exact ht.encodes.chain v hd.lt) (by omega)
  rw [hacc] at hlooked
  rw [sampleLevels, hrun, sampleTokens]
  have hrows : ∀ cs ⊆ kids v, OwnRows a bx w.out (w.out.reject a bx v cs) := fun cs hcs =>
    .reject w.out hd.lt fun c hc => htok v hd.lt c (hcs hc)
  rcases hfound : acceptChild a bx v 0 (kids v) with _ | c
  · rw [hfound] at hlooked
    obtain ⟨hend, hout, hlast, hnum, hoff, hcoin⟩ := hlooked
    have hw1 : w₁.At a bx v m := ⟨hlast.trans hw.last, hnum.trans hw.num, hoff.trans hw.offset,
      hcoin.trans hw.coin⟩
    refine ⟨w₁, ?_, ?_, above, v, ?_⟩
    · grind
    · refine (hrows _ (List.Subset.refl _)).trans ?_
      rw [← hout]
      exact .finish hw1 hd.lt
    have hrelu : ∀ i < a.d, w₁.relu a i = residual a bx v (kids v) i := fun i hi =>
      relu_reject (kids v) hw1 (by omega) hout hfresh hd hi
    rw [← finalDraw_congr hrelu]
    refine Emitting.finish hw1 hm (by omega) hd ?_
    rw [hout]
    exact ⟨hemit.index, hemit.predicts⟩
  rw [hfound] at hlooked
  obtain ⟨before, hbefore, hw1⟩ := hlooked
  have hc : c ∈ kids v := acceptChild_mem hfound
  have hindex := ht.index c (ht.encodes.tree.bound v hd.lt c hc).2
  obtain ⟨w₂, hw2⟩ : ∃ w₂ : SampleWalk K, w₂ =
      { w with out := w.out.reject a bx v before, curIndex := c } := ⟨_, rfl⟩
  obtain rfl : w₁ = w₂.accept a bx := by
    rw [hw1, hw2]
    rfl
  have hat : w₂.At a bx v m := by
    subst hw2
    exact ⟨hw.last, hw.num, hw.offset, hw.coin⟩
  have hcur2 : w₂.curIndex = c := by rw [hw2]
  have hout2 : w₂.out = w.out.reject a bx v before := by rw [hw2]
  have hemit2 : Emitting a bx above v toks w₂.out := by
    rw [hout2]
    exact ⟨hemit.index, hemit.predicts⟩
  obtain ⟨w', hrun', hrows', above', v', hemits⟩ := ih (hat.accept hcur2 hindex) hcur2 rfl
    (hd.child ht.encodes.tree hc) (by rw [length_append, hm, length_singleton]) (by omega)
    (hemit2.accept hat hcur2 hindex hm (by omega) hd)
    (by
      have := hfresh.reject hd.lt fun x hx => htok v hd.lt x (hbefore hx)
      rw [← hout2] at this
      exact this)
  refine ⟨w', ?_, ?_, above', v', ?_⟩
  · have hne : (w₂.accept a bx).curIndex ≠ -1 := by
      rw [show (w₂.accept a bx).curIndex = c from hcur2]
      omega
    rw [Option.bind_eq_bind, Option.bind_some, if_neg hne, hrun']
  · refine (hrows before hbefore).trans ?_
    rw [← hout2]
    exact (OwnRows.accept hat hd.lt (by omega)).trans hrows'
  · rwa [append_assoc] at hemits

lemma treeSpeculativeSampling_emits (htok : TokensIn a bx kids) (hfuel : a.numDraftTokens ≤ fuel)
    (hn : 0 < a.numDraftTokens) (hspec : 0 < a.numSpeculativeTokens) {out : SampleOut K}
    (hfresh : Fresh a bx [] out) :
    ∃ out', treeSpeculativeSamplingTargetOnly a fuel bx out = some out' ∧ OwnRows a bx out out' ∧
      ∃ above v, Emits a bx above v (sampleTokens a bx kids (a.numSpeculativeTokens - 1) 0) out' := by
  have hroot : a.links.retriveIndex (bx * a.numDraftTokens) = entry a.numDraftTokens bx 0 := by
    have := ht.index 0 hn
    rwa [row, entry, Nat.cast_zero, add_zero] at this
  have hzero : (bx : Int) * a.numSpeculativeTokens = entry a.numSpeculativeTokens bx 0 := by
    rw [entry, Nat.cast_zero, add_zero]
  have hat : (startSample a bx out).At a bx 0 0 := by
    refine ⟨hroot, rfl, ?_, ?_⟩ <;> rw [startSample, entry, Nat.cast_zero, add_zero]
  have hemit : Emitting a bx [] 0 [] (startSample a bx out).out := by
    refine ⟨?_, rfl⟩
    rw [startSample]
    grind
  obtain ⟨w', hrun, hrows, above, v, hemits⟩ := sampleLevels_emits ht htok hfuel hat rfl rfl
    (.root hn) rfl (by omega : 0 + (a.numSpeculativeTokens - 1) + 1 = _) hemit hfresh
  refine ⟨w'.finish a bx, ?_, ?_, above, v, hemits⟩
  · rw [treeSpeculativeSamplingTargetOnly, hrun]
    rfl
  · have hstart : OwnRows a bx out (startSample a bx out).out :=
      ⟨.refl _, .update _ ⟨0, hspec, hzero⟩ _, .refl _, .refl _⟩
    exact hstart.trans hrows

omit ht

lemma sampleGrid_emitted {kids : Nat → Nat → List Nat} {order : List Nat}
    (hfuel : a.numDraftTokens ≤ fuel) (hn : 0 < a.numDraftTokens) (hspec : 0 < a.numSpeculativeTokens)
    (ht : ∀ bx ∈ order, HoldsLinks a.numDraftTokens bx a.links (kids bx))
    (htok : ∀ bx ∈ order, TokensIn a bx (kids bx)) (hnd : order.Nodup) (out : SampleOut K)
    (hfresh : ∀ bx ∈ order, Fresh a bx [] out) :
    ∃ out', sampleGrid a fuel order out = some out' ∧ ∀ bx ∈ order,
      out'.emitted a bx = sampleTokens a bx (kids bx) (a.numSpeculativeTokens - 1) 0 := by
  -- the blocks that have run keep what they emitted, those to come find their rows as they were
  have hgrid : ∀ xs : List Nat, xs ⊆ order → xs.Nodup → ∀ out : SampleOut K,
      (∀ bx ∈ xs, Fresh a bx [] out) → ∃ out', sampleGrid a fuel xs out = some out' ∧
        (∀ bx ∈ xs, ∃ above v, Emits a bx above v
          (sampleTokens a bx (kids bx) (a.numSpeculativeTokens - 1) 0) out') ∧
        ∀ bx ∉ xs, ∀ above v toks, Emits a bx above v toks out → Emits a bx above v toks out' := by
    intro xs
    induction xs with
    | nil => exact fun _ _ out _ => ⟨out, rfl, nofun, fun _ _ _ _ _ h => h⟩
    | cons b xs ih => ?_
    intro hsub hnd out hfresh
    rw [cons_subset] at hsub
    rw [nodup_cons] at hnd
    obtain ⟨out₁, hrun, hrows, above, v, hemits⟩ :=
      treeSpeculativeSampling_emits (ht b hsub.1) (htok b hsub.1) hfuel hn hspec (hfresh b mem_cons_self)
    obtain ⟨out', hrun', hdone, hkeep⟩ := ih hsub.2 hnd.2 out₁ fun bx hbx =>
      (hfresh bx (mem_cons_of_mem _ hbx)).ownRows (fun e : b = bx => hnd.1 (e ▸ hbx)) hrows
    refine ⟨out', ?_, ?_, fun bx hbx above v toks h => ?_⟩
    · rw [sampleGrid, foldlM_cons, hrun]
      exact hrun'
    · grind
    · rw [mem_cons, not_or] at hbx
      exact hkeep bx hbx.2 _ _ _ (h.ownRows (Ne.symm hbx.1) hrows)
  obtain ⟨out', hrun, hdone, -⟩ := hgrid order (List.Subset.refl _) hnd out hfresh
  refine ⟨out', hrun, fun bx hbx => ?_⟩
  obtain ⟨above, v, hemits⟩ := hdone bx hbx
  exact hemits.emitted
end Sglang.Spec
