import Sglang.Lib.LinkTree
import Sglang.Lib.Writes

/-!
# The links of a draft tree

The tables that the verification follows are built in one of two ways.
-/

namespace Sglang.Spec
open List Function

section
variable (a : BuildArgs) (n bid p v i : Nat) (t : Links) {bid' w : Nat}

def entry : Int := bid * n + v

/-- The part of a table that belongs to the request `bid`. -/
def row (b : Buffer) (v : Nat) : Int := b (entry n bid v)

lemma entry_inj {n bid v v' : Nat} (hv : v < n) (hv' : v' < n)
    (h : entry n bid v = entry n bid' v') : bid = bid' ∧ v = v' := by
  have hnat : bid * n + v = bid' * n + v' := by
    rw [entry, entry] at h
    exact_mod_cast h
  have hdiv : (bid * n + v) / n = (bid' * n + v') / n := by rw [hnat]
  rw [mul_comm bid, mul_comm bid', Nat.mul_add_div (by omega), Nat.mul_add_div (by omega),
    Nat.div_eq_of_lt hv, Nat.div_eq_of_lt hv'] at hdiv
  grind

lemma row_update {n bid v : Nat} (b : Buffer) (x : Int) (hv : v < n) (hw : w < n) :
    row n bid (update b (entry n bid v) x) w = if w = v then x else row n bid b w := by
  by_cases h : w = v
  · rw [if_pos h, h, row, update_self]
  · rw [if_neg h, row, update_of_ne]
    · rfl
    · exact fun heq => h (entry_inj hw hv heq).2

lemma row_update_other {n bid v : Nat} (b : Buffer) (x : Int) (hv : v < n) (hne : bid ≠ bid')
    (hw : w < n) : row n bid (update b (entry n bid' v) x) w = row n bid b w := by
  rw [row, update_of_ne]
  · rfl
  · exact fun heq => hne (entry_inj hw hv heq).1

structure BuildArgs where
  parentList : Buffer
  selectedIndex : Buffer
  topk : Nat
  depth : Nat
  draftTokenNum : Nat

structure Links where
  retriveIndex : Buffer
  retriveNextToken : Buffer
  retriveNextSibling : Buffer

/-! ## `build_tree_efficient` -/

/-- The place of the parent of node `i`, or the number of nodes if it is not selected. -/
def parentPosition : Nat :=
  let parentTbIdx := (a.selectedIndex (bid * (a.draftTokenNum - 1 : Nat) + (i - 1 : Nat))).tdiv a.topk
  if parentTbIdx > 0 then
    let parentTokenIdx := a.parentList (bid * (a.topk * (a.depth - 1) + 1 : Nat) + parentTbIdx)
    match (List.range a.draftTokenNum).find? fun position : Nat =>
        a.selectedIndex (bid * (a.draftTokenNum - 1 : Nat) + (position : Int)) = parentTokenIdx with
    | some position => position + 1
    | none => a.draftTokenNum
  else 0

/-- The node becomes the first child of its parent. -/
def linkStep : Links :=
  let n := a.draftTokenNum
  let t := { t with retriveIndex := update t.retriveIndex (entry n bid i) (entry n bid i) }
  let parent := parentPosition a bid i
  -- a token with no parent is ignored
  if parent = n then t
  else if t.retriveNextToken (entry n bid parent) = -1 then
    { t with retriveNextToken := update t.retriveNextToken (entry n bid parent) i }
  else
    let originNextToken := t.retriveNextToken (entry n bid parent)
    { t with
      retriveNextToken := update t.retriveNextToken (entry n bid parent) i
      retriveNextSibling := update t.retriveNextSibling (entry n bid i) originNextToken }

def linkLoop (a : BuildArgs) (bid : Nat) : Nat → Links → Links
  | 0, t => t
  | i + 1, t => linkLoop a bid i (linkStep a bid (i + 1) t)

def buildTreeEfficient : Links :=
  let n := a.draftTokenNum
  let t := linkLoop a bid (n - 1) t
  { t with retriveIndex := update t.retriveIndex (entry n bid 0) (entry n bid 0) }

def kidsFrom (k p : Nat) : List Nat :=
  (List.range' k (a.draftTokenNum - k)).filter fun i => parentPosition a bid i = p

def builtKids : List Nat := kidsFrom a bid 1 p
end

section
variable {a : BuildArgs} {bid : Nat} {k : Nat}

lemma parentPosition_le (a : BuildArgs) (bid i : Nat) : parentPosition a bid i ≤ a.draftTokenNum := by
  rw [parentPosition]
  dsimp only
  split_ifs with htop
  · split
    · rename_i position hfind
      exact mem_range.mp (mem_of_find?_eq_some hfind)
    · exact le_rfl
  · exact Nat.zero_le _

lemma kidsFrom_succ (hk : k < a.draftTokenNum) (p : Nat) : kidsFrom a bid k p =
    if parentPosition a bid k = p then k :: kidsFrom a bid (k + 1) p else kidsFrom a bid (k + 1) p := by
  have hsplit : range' k (a.draftTokenNum - k) =
      k :: range' (k + 1) (a.draftTokenNum - (k + 1)) := by
    rw [show a.draftTokenNum - k = a.draftTokenNum - (k + 1) + 1 by omega, range'_succ]
  rw [kidsFrom, hsplit, filter_cons]
  simp only [decide_eq_true_eq]
  rfl

variable {i : Nat} {t : Links} {bid' : Nat}

lemma mem_kidsFrom {p : Nat} : i ∈ kidsFrom a bid k p ↔
    (k ≤ i ∧ i < a.draftTokenNum) ∧ parentPosition a bid i = p := by
  rw [kidsFrom, mem_filter, mem_range'_1, decide_eq_true_iff]
  omega

lemma builtKids_isTree : IsTree a.draftTokenNum (builtKids a bid) where
  bound p _ i hi := by
    have := (mem_kidsFrom.mp hi).1
    omega
  nodup _ _ := (nodup_range' ..).filter _
  unique p _ q _ i hp hq := (mem_kidsFrom.mp hp).2.symm.trans (mem_kidsFrom.mp hq).2

structure Linked (a : BuildArgs) (bid k : Nat) (t : Links) : Prop where
  chain : ∀ p < a.draftTokenNum, Chain (row a.draftTokenNum bid t.retriveNextSibling)
    (row a.draftTokenNum bid t.retriveNextToken p) (kidsFrom a bid k p)
  fresh : ∀ i < k, i < a.draftTokenNum → row a.draftTokenNum bid t.retriveNextSibling i = -1
  index : ∀ i, k ≤ i → i < a.draftTokenNum →
    row a.draftTokenNum bid t.retriveIndex i = entry a.draftTokenNum bid i

lemma Linked.step (h : Linked a bid (i + 1) t) (hi : i < a.draftTokenNum) :
    Linked a bid i (linkStep a bid i t) := by
  set at_ := entry a.draftTokenNum bid i
  have hindex : ∀ j, i ≤ j → j < a.draftTokenNum → row a.draftTokenNum bid
      (update t.retriveIndex at_ at_) j = entry a.draftTokenNum bid j := by
    intro j hij hj
    rw [row_update _ _ hi hj]
    split
    · rename_i heq
      rw [heq]
    · exact h.index j (by omega) hj
  have hle := parentPosition_le a bid i
  rw [linkStep]
  by_cases hn : parentPosition a bid i = a.draftTokenNum
  · rw [if_pos hn]
    refine ⟨fun p hp => ?_, fun j hj hjn => h.fresh j (by omega) hjn, hindex⟩
    rw [kidsFrom_succ hi, if_neg (by omega)]
    exact h.chain p hp
  rw [if_neg hn]
  have hparent : parentPosition a bid i < a.draftTokenNum := by omega
  -- the sibling of `i` becomes the node that was first before
  have key : ∀ sibling : Buffer, row a.draftTokenNum bid sibling i =
        row a.draftTokenNum bid t.retriveNextToken (parentPosition a bid i) →
      (∀ j < a.draftTokenNum, j ≠ i → row a.draftTokenNum bid sibling j =
        row a.draftTokenNum bid t.retriveNextSibling j) →
      Linked a bid i { t with
        retriveIndex := update t.retriveIndex at_
          at_
        retriveNextToken := update t.retriveNextToken
          (entry a.draftTokenNum bid (parentPosition a bid i)) i
        retriveNextSibling := sibling } := by
    intro sibling hsib hothers
    have hchain : ∀ p < a.draftTokenNum, Chain (row a.draftTokenNum bid sibling)
        (row a.draftTokenNum bid t.retriveNextToken p) (kidsFrom a bid (i + 1) p) := by
      intro p hp
      refine (h.chain p hp).congr fun x hx => ?_
      have := (mem_kidsFrom.mp hx).1
      exact hothers x (by omega) (by omega)
    refine ⟨fun p hp => ?_, fun j hj hjn => ?_, hindex⟩
    · rw [kidsFrom_succ hi, row_update _ _ hparent hp]
      by_cases heq : parentPosition a bid i = p
      · rw [if_pos heq, if_pos heq.symm]
        refine ⟨rfl, ?_⟩
        rw [hsib, heq]
        exact hchain p hp
      grind
    · rw [hothers j hjn (by omega)]
      exact h.fresh j (by omega) hjn
  by_cases hfirst : t.retriveNextToken (entry a.draftTokenNum bid (parentPosition a bid i)) = -1
  · rw [if_pos hfirst]
    exact key t.retriveNextSibling ((h.fresh i (by omega) hi).trans hfirst.symm) fun _ _ _ => rfl
  rw [if_neg hfirst]
  refine key _ ?_ fun j hj hne => ?_
  · rw [row_update _ _ hi hi, if_pos rfl]
    rfl
  · rw [row_update _ _ hi hj, if_neg hne]

lemma Linked.loop (h : Linked a bid (i + 1) t) (hi : i < a.draftTokenNum) :
    Linked a bid 1 (linkLoop a bid i t) := by
  induction i generalizing t with
  | zero => exact h
  | succ i ih => exact ih (h.step hi) (by omega)

/-- Another request's part of the tables is not touched. -/
structure SameRow (n bid : Nat) (t t' : Links) : Prop where
  index : ∀ v < n, row n bid t'.retriveIndex v = row n bid t.retriveIndex v
  next : ∀ v < n, row n bid t'.retriveNextToken v = row n bid t.retriveNextToken v
  sibling : ∀ v < n, row n bid t'.retriveNextSibling v = row n bid t.retriveNextSibling v

lemma SameRow.refl (n bid : Nat) (t : Links) : SameRow n bid t t :=
  ⟨fun _ _ => rfl, fun _ _ => rfl, fun _ _ => rfl⟩

lemma SameRow.trans {n bid : Nat} {t₁ t₂ : Links} (h1 : SameRow n bid t t₁)
    (h2 : SameRow n bid t₁ t₂) : SameRow n bid t t₂ :=
  ⟨fun v hv => (h2.index v hv).trans (h1.index v hv),
    fun v hv => (h2.next v hv).trans (h1.next v hv),
    fun v hv => (h2.sibling v hv).trans (h1.sibling v hv)⟩

lemma linkStep_sameRow (hne : bid' ≠ bid) (hi : i < a.draftTokenNum) (t : Links) :
    SameRow a.draftTokenNum bid' t (linkStep a bid i t) := by
  have hle := parentPosition_le a bid i
  rw [linkStep]
  split_ifs with hn hfirst
  · exact ⟨fun v hv => row_update_other _ _ hi hne hv, fun _ _ => rfl, fun _ _ => rfl⟩
  · exact ⟨fun v hv => row_update_other _ _ hi hne hv,
      fun v hv => row_update_other _ _ (by omega) hne hv, fun _ _ => rfl⟩
  · exact ⟨fun v hv => row_update_other _ _ hi hne hv,
      fun v hv => row_update_other _ _ (by omega) hne hv,
      fun v hv => row_update_other _ _ hi hne hv⟩

lemma buildTreeEfficient_sameRow (hne : bid' ≠ bid) (hn : 0 < a.draftTokenNum)
    (t : Links) : SameRow a.draftTokenNum bid' t (buildTreeEfficient a bid t) := by
  have hloop : ∀ i < a.draftTokenNum, ∀ t, SameRow a.draftTokenNum bid' t (linkLoop a bid i t) := by
    intro i
    induction i with
    | zero => exact fun _ t => .refl _ _ t
    | succ i ih => exact fun hi t => (linkStep_sameRow hne hi t).trans (ih (by omega) _)
  refine (hloop (a.draftTokenNum - 1) (by omega) t).trans ?_
  exact ⟨fun v hv => row_update_other _ _ hn hne hv, fun _ _ => rfl, fun _ _ => rfl⟩

structure HoldsLinks (n bid : Nat) (t : Links) (kids : Nat → List Nat) : Prop where
  encodes : Encodes n (row n bid t.retriveNextToken) (row n bid t.retriveNextSibling) kids
  index : ∀ v < n, row n bid t.retriveIndex v = entry n bid v

lemma HoldsLinks.sameRow {n : Nat} {t' : Links} {kids : Nat → List Nat}
    (h : HoldsLinks n bid t kids) (hs : SameRow n bid t t') : HoldsLinks n bid t' kids := by
  refine ⟨⟨h.encodes.tree, fun p hp => ?_⟩, fun v hv => (hs.index v hv).trans (h.index v hv)⟩
  rw [hs.next p hp]
  exact (h.encodes.chain p hp).congr fun x hx =>
    hs.sibling x (h.encodes.tree.bound p hp x hx).2

def Links.empty : Links := ⟨fun _ => -1, fun _ => -1, fun _ => -1⟩

lemma buildTreeEfficient_holds (hn : 0 < a.draftTokenNum) (ht : SameRow a.draftTokenNum bid .empty t) :
    HoldsLinks a.draftTokenNum bid (buildTreeEfficient a bid t) (builtKids a bid) := by
  have hstart : Linked a bid (a.draftTokenNum - 1 + 1) t := by
    refine ⟨fun p hp => ?_, fun i _ hi => ht.sibling i hi, fun i hik hi => by omega⟩
    rw [kidsFrom, show a.draftTokenNum - (a.draftTokenNum - 1 + 1) = 0 by omega]
    exact ht.next p hp
  have hdone := hstart.loop (by omega)
  refine ⟨⟨builtKids_isTree, hdone.chain⟩, fun v hv => ?_⟩
  rw [buildTreeEfficient, row_update _ _ hn hv]
  split
  · rename_i hzero
    rw [hzero]
  · exact hdone.index v (by omega) hv

def buildTreeGrid (a : BuildArgs) (order : List Nat) : Links :=
  order.foldl (fun t bid => buildTreeEfficient a bid t) .empty

lemma buildTreeGrid_holds {order : List Nat} (hn : 0 < a.draftTokenNum) (hnd : order.Nodup)
    (hbid : bid ∈ order) : HoldsLinks a.draftTokenNum bid (buildTreeGrid a order)
    (builtKids a bid) := by
  -- the blocks before, the block itself and those after it
  obtain ⟨before, after, rfl⟩ := append_of_mem hbid
  have hout := nodup_append.mp hnd
  have hother : ∀ (xs : List Nat), (∀ x ∈ xs, bid ≠ x) → ∀ t, SameRow a.draftTokenNum bid t
      (xs.foldl (fun t bid => buildTreeEfficient a bid t) t) := by
    intro xs hxs
    induction xs with
    | nil => exact fun t => .refl _ _ t
    | cons x xs ih =>
      intro t
      exact (buildTreeEfficient_sameRow (hxs x mem_cons_self) hn t).trans
        (ih (fun y hy => hxs y (mem_cons_of_mem _ hy)) _)
  rw [buildTreeGrid, foldl_append, foldl_cons]
  refine (buildTreeEfficient_holds hn (hother before ?_ _)).sameRow (hother after ?_ _)
  · exact fun x hx heq => hout.2.2 x hx bid mem_cons_self heq.symm
  · exact fun x hx heq => (nodup_cons.mp hout.2.1).1 (heq ▸ hx)
end

/-! ## `reconstructIndicesFromTreeMask` -/

section
variable (treeMask : Nat → Bool) (verifiedSeqLen : Buffer) (n bid tid : Nat)
  (parent : Nat → Option Nat)

/-- The mask of a request: whether the node `i` sees the node `j`. -/
def sees (i j : Nat) : Bool := treeMask (bid * (n * n) + i * n + j)

/-- `parent_idx`: the last node before `tid` that `tid` sees. -/
def parentIdx : Option Nat :=
  (List.range tid).reverse.find? fun i => sees treeMask n bid tid i

def depthOf : Nat :=
  (List.range tid).countP fun i => sees treeMask n bid tid i

def behind : List Nat := List.range' (tid + 1) (n - (tid + 1))

def nextTokenIdx : Option Nat :=
  (behind n tid).find? fun i => sees treeMask n bid i tid

def isSibling (parent i : Nat) : Bool :=
  sees treeMask n bid i parent &&
    (List.range' (parent + 1) (i - (parent + 1))).all fun j => !sees treeMask n bid i j

def nextSiblingIdx : Option Nat :=
  match parentIdx treeMask n bid tid with
  | none => none
  | some parent => (behind n tid).find? fun i => isSibling treeMask n bid parent i

def reconstructIndicesFromTreeMask (t : Links × Buffer) : Links × Buffer :=
  ({ retriveIndex := update t.1.retriveIndex (entry n bid tid) (entry n bid tid)
     retriveNextToken := update t.1.retriveNextToken (entry n bid tid)
      (orNone (nextTokenIdx treeMask n bid tid))
     retriveNextSibling := update t.1.retriveNextSibling (entry n bid tid)
      (orNone (nextSiblingIdx treeMask n bid tid)) },
    update t.2 (entry n bid tid) (depthOf treeMask n bid tid + verifiedSeqLen bid))

def reconstructGrid (threads : List (Nat × Nat)) (t : Links × Buffer) : Links × Buffer :=
  threads.foldl (fun t th => reconstructIndicesFromTreeMask treeMask verifiedSeqLen n th.1 th.2 t) t

inductive AncestorOrSelf (parent : Nat → Option Nat) (j : Nat) : Nat → Prop
  | refl : AncestorOrSelf parent j j
  | up {i p : Nat} : parent i = some p → AncestorOrSelf parent j p → AncestorOrSelf parent j i

/-- The mask of a forest in which parents stand before their children. -/
structure IsTreeMask : Prop where
  before : ∀ i p, parent i = some p → p < i
  sees : ∀ i < n, ∀ j < n, sees treeMask n bid i j = true ↔ AncestorOrSelf parent j i

def kidsOf (p : Nat) : List Nat :=
  (List.range n).filter fun i => parent i = some p
end

variable {treeMask : Nat → Bool} {n bid : Nat} {parent : Nat → Option Nat}

lemma kidsOf_isTree (hbefore : ∀ i p, parent i = some p → p < i) : IsTree n (kidsOf n parent) where
  bound p _ i hi := by
    rw [kidsOf, mem_filter, mem_range, decide_eq_true_iff] at hi
    have := hbefore i p hi.2
    omega
  nodup _ _ := nodup_range.filter _
  unique p _ q _ i hp hq := by
    rw [kidsOf, mem_filter, decide_eq_true_iff] at hp hq
    exact Option.some.inj (hp.2.symm.trans hq.2)

variable {i j v : Nat}

lemma AncestorOrSelf.le (hbefore : ∀ i p, parent i = some p → p < i)
    (h : AncestorOrSelf parent j i) : j ≤ i := by
  induction h with
  | refl => exact le_rfl
  | up hp _ ih => exact le_trans ih (le_of_lt (hbefore _ _ hp))

lemma AncestorOrSelf.above (h : AncestorOrSelf parent j i) (hne : j ≠ i) :
    ∃ p, parent i = some p ∧ AncestorOrSelf parent j p := by
  cases h with
  | refl => exact absurd rfl hne
  | up hp hj => exact ⟨_, hp, hj⟩

variable (h : IsTreeMask treeMask n bid parent) {threads : List (Nat × Nat)}
include h

lemma IsTreeMask.sees_parent {p : Nat} (hi : i < n) (hp : parent i = some p) :
    Spec.sees treeMask n bid i p = true := by
  have := h.before i p hp
  exact (h.sees i hi p (by omega)).mpr (.up hp .refl)

lemma IsTreeMask.not_sees {p : Nat} (hi : i < n) (hp : parent i = some p) (hpj : p < j)
    (hji : j < i) : Spec.sees treeMask n bid i j = false := by
  rw [Bool.eq_false_iff]
  intro hsee
  obtain ⟨p', hp', hj⟩ := ((h.sees i hi j (by omega)).mp hsee).above (by omega)
  obtain rfl : p = p' := Option.some.inj (hp.symm.trans hp')
  have := hj.le h.before
  omega

lemma IsTreeMask.parentIdx_eq (hi : i < n) : parentIdx treeMask n bid i = parent i := by
  rw [parentIdx]
  rcases hp : parent i with _ | p
  · rw [find?_eq_none]
    intro j hj hsee
    rw [mem_reverse, mem_range] at hj
    obtain ⟨p, hp', -⟩ := ((h.sees i hi j (by omega)).mp hsee).above (by omega)
    rw [hp] at hp'
    cases hp'
  have hlt := h.before i p hp
  have hsplit : (range i).reverse =
      (range' (p + 1) (i - (p + 1))).reverse ++ p :: (range p).reverse := by
    have hrange : range i = range p ++ p :: range' (p + 1) (i - (p + 1)) := by
      rw [range_eq_range', range_eq_range', ← range'_succ]
      have := range'_append_1 (s := 0) (m := p) (n := i - (p + 1) + 1)
      grind
    grind
  rw [hsplit, find?_append, find?_cons_of_pos (h.sees_parent hi hp)]
  rw [find?_eq_none.mpr, Option.none_or]
  intro j hj
  rw [mem_reverse, mem_range'_1] at hj
  rw [h.not_sees hi hp (by omega) (by omega)]
  exact Bool.false_ne_true

lemma IsTreeMask.isSibling_iff (hi : i < n) (hvi : v < i) :
    isSibling treeMask n bid v i = true ↔ parent i = some v := by
  rw [isSibling, Bool.and_eq_true, all_eq_true]
  constructor
  · rintro ⟨hsee, hall⟩
    obtain ⟨p, hp, hv⟩ := ((h.sees i hi v (by omega)).mp hsee).above (by omega)
    have hle := hv.le h.before
    have hlt := h.before i p hp
    -- a parent other than `v` would stand between `v` and `i`
    by_contra hne
    have hvp : v ≠ p := fun heq => hne (heq ▸ hp)
    have hno := hall p (mem_range'_1.mpr (by omega))
    rw [h.sees_parent hi hp] at hno
    cases hno
  intro hp
  refine ⟨h.sees_parent hi hp, fun j hj => ?_⟩
  rw [mem_range'_1] at hj
  rw [h.not_sees hi hp (by omega) (by omega)]
  rfl

lemma IsTreeMask.nextTokenIdx_eq (hv : v < n) :
    nextTokenIdx treeMask n bid v = (behind n v).find? fun i => decide (parent i = some v) := by
  rw [nextTokenIdx]
  rcases hc : (behind n v).find? fun i => Spec.sees treeMask n bid i v with _ | c
  · symm
    rw [find?_eq_none] at hc ⊢
    intro i hi hp
    have hmem := hi
    rw [behind, mem_range'_1] at hmem
    exact hc i hi (h.sees_parent (by omega) (of_decide_eq_true hp))
  obtain ⟨hsee, before, after, hsplit, hnone⟩ := find?_eq_some_iff_append.mp hc
  have hmem := mem_of_find?_eq_some hc
  rw [behind, mem_range'_1] at hmem
  obtain ⟨p, hp, hvp⟩ := ((h.sees c (by omega) v hv).mp hsee).above (by omega)
  have hlt := h.before c p hp
  have hle := hvp.le h.before
  -- a parent other than `v` would see `v` and stand before `c`
  have hpv : p = v := by
    by_contra hne
    have hbefore : p ∈ before := by
      have hin : p ∈ behind n v := by
        rw [behind, mem_range'_1]
        omega
      have hsorted : (behind n v).Pairwise (· < ·) := pairwise_lt_range' ..
      rw [hsplit] at hin hsorted
      rcases mem_append.mp hin with hin | hin
      · exact hin
      rcases mem_cons.mp hin with rfl | hin
      · omega
      · have := (pairwise_cons.mp (pairwise_append.mp hsorted).2.1).1 p hin
        omega
    have hno := hnone p hbefore
    rw [(h.sees p (by omega) v hv).mpr hvp] at hno
    cases hno
  symm
  rw [find?_eq_some_iff_append]
  refine ⟨decide_eq_true (hpv ▸ hp), before, after, hsplit, fun x hx => ?_⟩
  have hxin : x ∈ behind n v := by
    rw [hsplit]
    exact mem_append_left _ hx
  rw [behind, mem_range'_1] at hxin
  have hno := hnone x hx
  by_cases hpx : parent x = some v
  · rw [h.sees_parent (by omega) hpx] at hno
    cases hno
  · rw [decide_eq_false hpx]
    rfl

lemma IsTreeMask.nextSiblingIdx_eq (hi : i < n) (hp : parent i = some v) :
    nextSiblingIdx treeMask n bid i = (behind n i).find? fun j => decide (parent j = some v) := by
  rw [nextSiblingIdx, h.parentIdx_eq hi, hp]
  have hvi := h.before i v hp
  refine find?_congr fun j hj => ?_
  rw [behind, mem_range'_1] at hj
  rw [Bool.eq_iff_iff, h.isSibling_iff (by omega) (by omega), decide_eq_true_iff]

lemma IsTreeMask.encodes {next sibling : Nat → Int}
    (hnext : ∀ v < n, next v = orNone (nextTokenIdx treeMask n bid v))
    (hsibling : ∀ v < n, sibling v = orNone (nextSiblingIdx treeMask n bid v)) :
    Encodes n next sibling (kidsOf n parent) := by
  refine ⟨kidsOf_isTree h.before, fun p hp => ?_⟩
  have hkids : kidsOf n parent p = (behind n p).filter fun i => decide (parent i = some p) := by
    have hsplit : range n = range' 0 (p + 1) ++ behind n p := by
      have := range'_append_1 (s := 0) (m := p + 1) (n := n - (p + 1))
      rw [zero_add] at this
      rw [behind, this, range_eq_range', show p + 1 + (n - (p + 1)) = n by omega]
    rw [kidsOf, hsplit, filter_append, filter_eq_nil_iff.mpr, nil_append]
    intro i hi hpi
    rw [mem_range'_1] at hi
    have := h.before i p (of_decide_eq_true hpi)
    omega
  rw [hnext p hp, h.nextTokenIdx_eq hp, hkids]
  refine chain_filter (fun x hx hpx => ?_) (p + 1)
  rw [hsibling x hx, h.nextSiblingIdx_eq hx (of_decide_eq_true hpx)]
  rfl

omit h in
lemma row_threads (value : Nat → Nat → Int) (b : Buffer) {tid : Nat}
    (hthreads : ∀ th ∈ threads, th.2 < n) (hmem : (bid, tid) ∈ threads) :
    row n bid (threads.foldl (fun b th => update b (entry n th.1 th.2) (value th.1 th.2)) b)
      tid = value bid tid := by
  have hwrites : threads.foldl (fun b th => update b (entry n th.1 th.2) (value th.1 th.2)) b
      = writeAll b (threads.map fun th => (entry n th.1 th.2, value th.1 th.2)) := by
    rw [writeAll, foldl_map]
  rw [hwrites, row]
  refine writeAll_of_mem (mem_map.mpr ⟨_, hmem, rfl⟩) ?_
  intro w hw heq
  obtain ⟨th, hth, rfl⟩ := mem_map.mp hw
  obtain ⟨hb, ht⟩ := entry_inj (hthreads th hth) (hthreads _ hmem) heq
  rw [hb, ht]

omit h in
lemma reconstructGrid_eq (treeMask : Nat → Bool) (verifiedSeqLen : Buffer) (n : Nat)
    (threads : List (Nat × Nat)) (t : Links × Buffer) :
    (reconstructGrid treeMask verifiedSeqLen n threads t).1 = {
      retriveIndex := threads.foldl
        (fun b th => update b (entry n th.1 th.2) (entry n th.1 th.2)) t.1.retriveIndex
      retriveNextToken := threads.foldl (fun b th => update b (entry n th.1 th.2)
        (orNone (nextTokenIdx treeMask n th.1 th.2))) t.1.retriveNextToken
      retriveNextSibling := threads.foldl (fun b th => update b (entry n th.1 th.2)
        (orNone (nextSiblingIdx treeMask n th.1 th.2))) t.1.retriveNextSibling } := by
  rw [reconstructGrid]
  induction threads generalizing t with
  | nil => rfl
  | cons th threads ih =>
    rw [foldl_cons, ih]
    rfl

lemma IsTreeMask.reconstructGrid_holds (verifiedSeqLen : Buffer)
    (hthreads : ∀ th ∈ threads, th.2 < n) (hall : ∀ tid < n, (bid, tid) ∈ threads)
    (t : Links × Buffer) :
    HoldsLinks n bid (reconstructGrid treeMask verifiedSeqLen n threads t).1 (kidsOf n parent) := by
  rw [reconstructGrid_eq]
  refine ⟨h.encodes (fun v hv => ?_) fun v hv => ?_, fun v hv => ?_⟩
  · exact row_threads (fun b t => orNone (nextTokenIdx treeMask n b t)) _ hthreads (hall v hv)
  · exact row_threads (fun b t => orNone (nextSiblingIdx treeMask n b t)) _ hthreads
      (hall v hv)
  · exact row_threads (fun b t => entry n b t) _ hthreads (hall v hv)
end Sglang.Spec
