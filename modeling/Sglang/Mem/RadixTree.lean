import Sglang.Mem.RadixCache

/-!
# Lookup and insertion in the radix tree

`WellFormed` says what makes the nodes of a radix cache a tree: paths, page multiples, each node
under its own dictionary key and with one slot for each unit of its key.
-/

namespace Sglang.RadixCache
open List PathTree RadixKey

structure WellFormed (c : RadixCache) : Prop where
  pos : 0 < c.pageSize
  valid : Valid c.pageSize c.nodes
  slot : ∀ n ∈ c.nodes, n.slot = n.key.childKey c.pageSize
  value : ∀ n ∈ c.nodes, n.value.length = n.key.len

variable (c : RadixCache)

def HasPath (q : NodePath) : Prop := q = [] ∨ ∃ n ∈ c.nodes, path n = q
deriving Decidable

variable {c c' : RadixCache} {n child : TreeNode} {q : NodePath} {key : RadixKey}

@[simp]
lemma parent_node (n : TreeNode) : PathNode.parent n = n.parent := rfl

@[simp]
lemma label_node (n : TreeNode) : PathNode.label n = n.key.cells := rfl

namespace WellFormed
variable (h : WellFormed c)
include h

lemma page_le (hn : n ∈ c.nodes) : c.pageSize ≤ n.key.len := by
  have hne := h.valid.label_ne_nil n hn
  have hd := h.valid.dvd_label n hn
  rw [label_node, length_cells] at hd
  rw [label_node, ← length_pos_iff, length_cells] at hne
  exact Nat.le_of_dvd hne hd

lemma node?_eq_some : c.node? q = some n ↔ n ∈ c.nodes ∧ path n = q :=
  Keyed.get?_eq_some h.valid.path_nodup

lemma dvd_hasPath (hq : c.HasPath q) : c.pageSize ∣ q.length := by
  rcases hq with rfl | ⟨n, hn, rfl⟩
  · exact dvd_zero _
  · exact h.valid.dvd_path hn

lemma child?_eq_some (hkey : c.pageSize ≤ key.len) : c.child? q (key.childKey c.pageSize) = some n ↔
      n ∈ c.nodes ∧ n.parent = q ∧ n.key.cells.take c.pageSize = key.cells.take c.pageSize := by
  constructor
  · intro hf
    have hmem := mem_of_find?_eq_some hf
    have hprop := find?_some hf
    simp only [decide_eq_true_eq] at hprop
    refine ⟨hmem, hprop.1, ?_⟩
    rw [← childKey_eq_iff h.pos (h.page_le hmem) hkey, ← h.slot n hmem]
    exact hprop.2
  rintro ⟨hmem, hpar, hpage⟩
  have hslot : n.slot = key.childKey c.pageSize := by
    rw [h.slot n hmem, childKey_eq_iff h.pos (h.page_le hmem) hkey]
    exact hpage
  have hsome : (c.child? q (key.childKey c.pageSize)).isSome := by
    rw [child?, find?_isSome]
    exact ⟨n, hmem, by simp [hpar, hslot]⟩
  obtain ⟨m, hm⟩ := Option.isSome_iff_exists.mp hsome
  have hmm := mem_of_find?_eq_some hm
  have hprop := find?_some hm
  simp only [decide_eq_true_eq] at hprop
  have hfirst : m.key.cells.take c.pageSize = n.key.cells.take c.pageSize := by
    rw [← childKey_eq_iff h.pos (h.page_le hmm) (h.page_le hmem), ← h.slot m hmm,
      hprop.2, ← hslot, h.slot n hmem]
  rw [hm, h.valid.eq_of_first_page hmm hmem (hprop.1.trans hpar.symm) hfirst]

lemma child?_eq_none (hkey : c.pageSize ≤ key.len) : c.child? q (key.childKey c.pageSize) = none ↔
      ∀ n ∈ c.nodes, n.parent = q → n.key.cells.take c.pageSize ≠ key.cells.take c.pageSize := by
  constructor
  · intro hf n hn hpar hpage
    rw [(h.child?_eq_some hkey).mpr ⟨hn, hpar, hpage⟩] at hf
    cases hf
  intro hno
  rw [Option.eq_none_iff_forall_not_mem]
  intro n hn
  obtain ⟨hmem, hpar, hpage⟩ := (h.child?_eq_some hkey).mp hn
  exact hno n hmem hpar hpage
end WellFormed

/-! ## Cutting edges -/

structure Cuts (c : RadixCache) (child : TreeNode) (k : Nat) : Prop where
  mem : child ∈ c.nodes
  pos : 0 < k
  lt : k < child.key.len
  dvd : c.pageSize ∣ k

inductive Splits : RadixCache → RadixCache → Prop
  | refl (c : RadixCache) : Splits c c
  | step {c c' : RadixCache} {child : TreeNode} {k : Nat} :
      Cuts c child k → Splits (c.splitNode child k) c' → Splits c c'

variable {k : Nat} {cur : Cursor} {K : List Cell} {fuel : Nat}

@[simp]
lemma key_splitUpper : (c.splitUpper child k).key = child.key.takeUnits k := rfl

@[simp]
lemma path_splitUpper : path (c.splitUpper child k) = child.parent ++ child.key.cells.take k := by
  simp [path, splitUpper]

lemma path_splitLower : path (c.splitLower child k) = path child := by
  simp [path, splitLower, splitUpper]

lemma Cuts.upper_prefix : path (c.splitUpper child k) <+: path child := by
  rw [path_splitUpper]
  exact (prefix_append_right_inj _).mpr (List.take_prefix ..)

variable (hc : Cuts c child k)
include hc

lemma Cuts.length_upper : (path (c.splitUpper child k)).length = child.parent.length + k := by
  rw [path_splitUpper, List.length_append, length_take, length_cells, min_eq_left (le_of_lt hc.lt)]

lemma Cuts.covers_upper : Covers child (path (c.splitUpper child k)) := by
  refine ⟨?_, upper_prefix⟩
  rw [hc.length_upper]
  exact Nat.lt_add_of_pos_right hc.pos

omit hc

variable (h : WellFormed c)
include h
include hc

lemma Cuts.dvd_upper : c.pageSize ∣ (path (c.splitUpper child k)).length := by
  rw [hc.length_upper]
  exact dvd_add (h.valid.dvd_parent hc.mem) hc.dvd

lemma Cuts.valid : Valid c.pageSize (c.splitNode child k).nodes :=
  h.valid.split hc.mem hc.pos (by simpa using hc.lt) hc.dvd rfl (by simp [splitUpper]) rfl
    (by simp [splitLower])

lemma Cuts.wellFormed : WellFormed (c.splitNode child k) where
  pos := h.pos
  valid := hc.valid h
  slot := by
    have hp := Nat.le_of_dvd hc.pos hc.dvd
    refine forall_mem_cons.mpr ⟨?_, forall_mem_cons.mpr ⟨rfl, ?_⟩⟩
    · -- the upper node is stored under the key of the whole edge
      have hlen : (child.key.takeUnits k).len = k := by
        rw [← length_cells, cells_takeUnits, length_take, length_cells]
        exact min_eq_left (le_of_lt hc.lt)
      refine (childKey_eq_iff h.pos (h.page_le hc.mem) ?_).mpr ?_
      · rw [key_splitUpper, hlen]
        exact hp
      rw [key_splitUpper, cells_takeUnits, take_take, min_eq_left hp]
    · exact fun m hm => h.slot m (Keyed.mem_remove.mp hm).1
  value := by
    refine forall_mem_cons.mpr ⟨?_, forall_mem_cons.mpr ⟨?_, ?_⟩⟩
    · rw [← length_cells]
      simp [splitUpper, h.value child hc.mem]
    · rw [← length_cells]
      simp [splitLower, h.value child hc.mem]
    · exact fun m hm => h.value m (Keyed.mem_remove.mp hm).1

omit hc
omit h

lemma HasPath.splitNode (hq : c.HasPath q) : (c.splitNode child k).HasPath q := by
  refine hq.imp_right fun ⟨m, hm, he⟩ => ?_
  by_cases hmc : path m = path child
  · exact ⟨c.splitLower child k, by simp [RadixCache.splitNode], by rw [path_splitLower, ← hmc, he]⟩
  · exact ⟨m, by simp [RadixCache.splitNode, Keyed.mem_remove, hm, hmc], he⟩

lemma hasPath_splitUpper : (c.splitNode child k).HasPath (path (c.splitUpper child k)) :=
  .inr ⟨_, mem_cons_self, rfl⟩

def entry (q : NodePath) : Option (List Nat) :=
  pageAt c.pageSize TreeNode.value c.nodes q

def slots (q : NodePath) : List Nat :=
  along c.pageSize TreeNode.value c.nodes q

lemma slots_congr (hp : c'.pageSize = c.pageSize)
    (h : ∀ q', q' <+: q → q' ≠ [] → c.pageSize ∣ q'.length → c'.entry q' = c.entry q') :
    c'.slots q = c.slots q := by
  rw [slots, slots, hp]
  refine along_congr fun q' hq' hne hd => ?_
  have := h q' hq' hne hd
  rwa [entry, entry, hp] at this

lemma Cuts.entry_eq (h : WellFormed c) (hc : Cuts c child k) (hq : c.pageSize ∣ q.length) :
    (c.splitNode child k).entry q = c.entry q :=
  pageAt_split h.valid hc.mem (by simpa using hc.lt) hc.dvd rfl (by simp [splitUpper]) rfl
    (by simp [splitLower]) rfl rfl hq

namespace Splits
variable (hs : Splits c c')
include hs

lemma pageSize_eq : c'.pageSize = c.pageSize := by
  induction hs with
  | refl c => rfl
  | step _ _ ih => exact ih

lemma trans {c'' : RadixCache} (hs' : Splits c' c'') : Splits c c'' := by
  induction hs with
  | refl c => exact hs'
  | step hc _ ih => exact .step hc (ih hs')

lemma wellFormed (h : WellFormed c) : WellFormed c' := by
  induction hs with
  | refl c => exact h
  | step hc _ ih => exact ih (hc.wellFormed h)

lemma hasPath (hq : c.HasPath q) : c'.HasPath q := by
  induction hs with
  | refl c => exact hq
  | step _ _ ih => exact ih hq.splitNode

lemma entry_eq (h : WellFormed c) (hq : c.pageSize ∣ q.length) : c'.entry q = c.entry q := by
  induction hs with
  | refl c => rfl
  | step hc _ ih => rw [ih (hc.wellFormed h) hq, hc.entry_eq h hq]

lemma slots_eq (h : WellFormed c) : c'.slots q = c.slots q :=
  slots_congr hs.pageSize_eq fun _ _ _ hd => hs.entry_eq h hd
end Splits

/-! ## The descent -/

/-- `q` is the longest stored prefix of `K` in whole pages. -/
structure Found (c : RadixCache) (K : List Cell) (q : NodePath) : Prop where
  isPrefix : q <+: K
  longest : IsLongest c.pageSize c.nodes K q.length

include h

lemma HasPath.cached (hq : c.HasPath q) : q = [] ∨ Cached c.nodes q :=
  hq.imp_right fun ⟨n, hn, he⟩ => ⟨n, hn, he ▸ h.valid.covers_path hn⟩

lemma Found.of_next (hpre : q <+: K) (hc : q = [] ∨ Cached c.nodes q) (hd : c.pageSize ∣ q.length)
    (hnext : q.length + c.pageSize ≤ K.length →
      ¬ Cached c.nodes (K.take (q.length + c.pageSize))) : Found c K q where
  isPrefix := hpre
  longest := by
    refine IsLongest.of_next h.valid h.pos hd hpre.length_le (fun hne => ?_) hnext
    rw [← prefix_iff_eq_take.mp hpre]
    exact hc.resolve_left fun hnil => hne (by rw [hnil, length_nil])

lemma Found.self (hq : c.HasPath q) : Found c q q :=
  .of_next h (prefix_refl q) (hq.cached h) (h.dvd_hasPath hq) fun hle => by
    have := h.pos
    omega

omit h

lemma Splits.cached_iff (hs : Splits c c') (h : WellFormed c) (hd : c.pageSize ∣ q.length) :
    Cached c'.nodes q ↔ Cached c.nodes q := by
  have := hs.entry_eq h hd
  have hiff : ∀ c : RadixCache, (c.entry q).isSome ↔ Cached c.nodes q := fun _ => pageAt_isSome
  rw [← hiff, ← hiff, this]

lemma Splits.found (hs : Splits c c') (h : WellFormed c) (hf : Found c' K q) : Found c K q where
  isPrefix := hf.isPrefix
  longest := by
    obtain ⟨hpre, hdvd, hle, hcached, hlong⟩ := hf
    have hlen : ∀ m ≤ K.length, (K.take m).length = m := fun m hm => by
      rw [length_take, min_eq_left hm]
    rw [hs.pageSize_eq] at hdvd hlong
    refine ⟨hdvd, hle, fun hne => ?_, fun m hm hlt hmle => ?_⟩
    · rw [← hs.cached_iff h (by rw [hlen _ hle]; exact hdvd)]
      exact hcached hne
    · rw [← hs.cached_iff h (by rw [hlen _ hmle]; exact hm)]
      exact hlong m hm hlt hmle

/-- The part of the key the child shares in whole pages; off the key, the next page is not stored.
-/
structure Shares (c : RadixCache) (q : NodePath) (key : RadixKey) (child : TreeNode) (k : Nat) :
    Prop where
  mem : child ∈ c.nodes
  parent : child.parent = q
  dvd : c.pageSize ∣ k
  page_le : c.pageSize ≤ k
  le_child : k ≤ child.key.len
  le_key : k ≤ key.len
  take : child.key.cells.take k = key.cells.take k
  next : k < child.key.len → k + c.pageSize ≤ key.len →
    ¬ Cached c.nodes (q ++ key.cells.take (k + c.pageSize))

lemma matchLen_child (h : WellFormed c) (hkey : c.pageSize ≤ key.len)
    (hf : c.child? q (key.childKey c.pageSize) = some child) :
    ∃ k, child.key.matchLen key c.pageSize = .ok k ∧ Shares c q key child k := by
  obtain ⟨hmem, hpar, hpage⟩ := (h.child?_eq_some hkey).mp hf
  have hp := h.pos
  have hchild := h.page_le hmem
  have hd : c.pageSize ∣ child.key.len := by
    have := h.valid.dvd_label child hmem
    rwa [label_node, length_cells] at this
  refine ⟨_, matchLen_eq hp (extraKey_eq_of_cells hp hchild hpage)
    (isBigram_eq_of_cells hp hchild hpage), ?_⟩
  generalize hL : commonLen child.key.cells key.cells = L
  have hfirst : c.pageSize ≤ L := by
    rw [← hL, le_commonLen_iff, length_cells, length_cells]
    exact ⟨hchild, hkey, hpage⟩
  have hle : L / c.pageSize * c.pageSize ≤ L := Nat.div_mul_le_self _ _
  have hagree := le_commonLen_iff.mp (hle.trans_eq hL.symm)
  rw [length_cells, length_cells] at hagree
  refine ⟨hmem, hpar, Nat.dvd_mul_left .., ?_, hagree.1, hagree.2.1, hagree.2.2, ?_⟩
  · exact Nat.le_mul_of_pos_left _ (Nat.div_pos hfirst hp)
  intro hlt hroom
  have hstep := add_le_of_dvd_of_lt (Nat.dvd_mul_left _ _) hd hlt
  refine not_cached_of_child h.valid hp hmem hpar (by simpa using hpage) (by omega) ?_ ?_ ?_
  · simpa using hstep
  · simpa using hroom
  -- agreement on one page more would make the common prefix longer
  intro heq
  have hmore : L / c.pageSize * c.pageSize + c.pageSize ≤ L := by
    conv_rhs => rw [← hL]
    rw [le_commonLen_iff, length_cells, length_cells]
    exact ⟨hstep, hroom, heq⟩
  have hdiv := Nat.div_add_mod L c.pageSize
  have hmod := Nat.mod_lt L hp
  rw [mul_comm] at hdiv
  omega

lemma append_dropUnits : (q ++ key.cells.take k) ++ (key.dropUnits k).cells = q ++ key.cells := by
  simp

namespace Shares
variable (hs : Shares c q key child k)
include hs

lemma path_upper : path (c.splitUpper child k) = q ++ key.cells.take k := by
  rw [path_splitUpper, hs.parent, hs.take]

lemma path_child (hk : k = child.key.len) : path child = q ++ key.cells.take k := by
  rw [path, parent_node, label_node, hs.parent, ← hs.take, hk, ← length_cells, take_length]

lemma cuts (hp : 0 < c.pageSize) (hlt : k < child.key.len) : Cuts c child k :=
  ⟨hs.mem, lt_of_lt_of_le hp hs.page_le, hlt, hs.dvd⟩

lemma dvd_drop (hd : c.pageSize ∣ key.len) : c.pageSize ∣ (key.dropUnits k).len := by
  rw [← length_cells, cells_dropUnits, length_drop, length_cells]
  exact Nat.dvd_sub hd hs.dvd

lemma len_drop_lt (hp : 0 < c.pageSize) : (key.dropUnits k).len < key.len := by
  have := hs.page_le
  have := hs.le_key
  rw [← length_cells, cells_dropUnits, length_drop, length_cells]
  omega

lemma covers (hp : 0 < c.pageSize) : Covers child (q ++ key.cells.take k) := by
  have := hs.page_le
  have := hs.le_key
  constructor
  · rw [parent_node, hs.parent, List.length_append, length_take, length_cells]
    omega
  · rw [path, parent_node, label_node, hs.parent, ← hs.take]
    exact (prefix_append_right_inj _).mpr (List.take_prefix ..)

lemma length_append : (q ++ key.cells.take k).length = q.length + k := by
  rw [List.length_append, length_take, length_cells, min_eq_left hs.le_key]

lemma dvd_append (h : WellFormed c) : c.pageSize ∣ (q ++ key.cells.take k).length := by
  rw [hs.length_append]
  exact dvd_add (hs.parent ▸ h.valid.dvd_parent hs.mem) hs.dvd

lemma slots_append (h : WellFormed c) :
    c.slots (q ++ key.cells.take k) = c.slots q ++ child.value.take k := by
  rw [slots, along_covers h.valid h.pos hs.mem (hs.dvd_append h) (hs.covers h.pos), parent_node,
    hs.parent, hs.length_append, Nat.add_sub_cancel_left, slots]

lemma found (h : WellFormed c) (hlt : k < child.key.len) :
    Found c (q ++ key.cells) (q ++ key.cells.take k) := by
  have hlen := hs.length_append
  refine .of_next h ?_ (.inr ⟨child, hs.mem, hs.covers h.pos⟩) (hs.dvd_append h) ?_
  · exact (prefix_append_right_inj _).mpr (List.take_prefix ..)
  intro hroom
  rw [hlen, add_assoc, take_length_add_append]
  refine hs.next hlt ?_
  rw [hlen, List.length_append, length_cells] at hroom
  omega
end Shares

lemma Found.of_no_child (h : WellFormed c) (hq : c.HasPath q) (hkey : c.pageSize ≤ key.len)
    (hf : c.child? q (key.childKey c.pageSize) = none) : Found c (q ++ key.cells) q := by
  refine .of_next h (List.prefix_append ..) (hq.cached h) (h.dvd_hasPath hq) fun _ => ?_
  rw [take_length_add_append]
  exact not_cached_of_no_child h.valid h.pos hq (by simpa using hkey) ((h.child?_eq_none hkey).mp hf)

lemma page_le_of_dvd (hd : c.pageSize ∣ key.len) (hpos : 0 < key.len) : c.pageSize ≤ key.len :=
  Nat.le_of_dvd hpos hd

include h

lemma Found.of_len_zero (hq : c.HasPath q) (h0 : key.len = 0) : Found c (q ++ key.cells) q := by
  have hnil : key.cells = [] := length_eq_zero_iff.mp (by rw [length_cells, h0])
  rw [hnil, append_nil]
  exact .self h hq

/-- A lookup ends at the longest stored prefix and returns the slots along it. -/
lemma matchPrefixLoop_spec {value : List Nat}
    (hfuel : key.len ≤ fuel) (hq : c.HasPath q) (hd : c.pageSize ∣ key.len) (hv : value = c.slots q) :
    ∃ r c', c.matchPrefixLoop fuel q key value = .ok (r, c') ∧ Splits c c' ∧
      c'.HasPath r.lastNode ∧ Found c (q ++ key.cells) r.lastNode ∧
      r.deviceIndices = c.slots r.lastNode := by
  induction fuel generalizing q key value with
  | zero => exact ⟨_, c, rfl, .refl c, hq, .of_len_zero h hq (by omega), hv⟩
  | succ fuel ih => ?_
  rw [matchPrefixLoop]
  by_cases hpos : 0 < key.len
  swap
  · rw [if_neg hpos]
    exact ⟨_, c, rfl, .refl c, hq, .of_len_zero h hq (by omega), hv⟩
  rw [if_pos hpos]
  have hkey := page_le_of_dvd hd hpos
  rcases hf : c.child? q (key.childKey c.pageSize) with _ | child
  · exact ⟨_, c, rfl, .refl c, hq, .of_no_child h hq hkey hf, hv⟩
  obtain ⟨k, hk, hs⟩ := matchLen_child h hkey hf
  simp only [hk, bind, Except.bind]
  by_cases hlt : k < child.key.len
  · rw [if_pos hlt]
    refine ⟨_, _, rfl, .step (hs.cuts h.pos hlt) (.refl _), hasPath_splitUpper, ?_, ?_⟩
    · rw [hs.path_upper]
      exact hs.found h hlt
    · rw [hs.path_upper, hs.slots_append h, hv]
      rfl
  rw [if_neg hlt]
  have hk' : k = child.key.len := le_antisymm hs.le_child (by omega)
  have hpath := hs.path_child hk'
  have hvalue : value ++ child.value = c.slots (path child) := by
    rw [hpath, hs.slots_append h, hv, hk', ← h.value child hs.mem, take_length]
  have hshort : (key.dropUnits k).len ≤ fuel := by
    have := hs.len_drop_lt h.pos
    omega
  have hrec := ih hshort (.inr ⟨child, hs.mem, rfl⟩) (hs.dvd_drop hd) hvalue
  rw [hpath, append_dropUnits] at hrec
  rw [hpath]
  exact hrec

omit h

structure Descends (c c' : RadixCache) (cur cur' : Cursor) : Prop where
  splits : Splits c c'
  hasPath : c'.HasPath cur'.node
  found : Found c (cur.node ++ cur.key.cells) cur'.node
  whole : cur'.node ++ cur'.key.cells = cur.node ++ cur.key.cells
  dvd : c.pageSize ∣ cur'.key.len
  le : cur.node.length ≤ cur'.node.length
  value : cur'.value = cur.value.drop (cur'.node.length - cur.node.length)
  total : cur'.totalPrefixLength = cur.totalPrefixLength + (cur'.node.length - cur.node.length)
  noChild : 0 < cur'.key.len → c'.child? cur'.node (cur'.key.childKey c'.pageSize) = none

lemma Descends.stop (h : WellFormed c) (hq : c.HasPath cur.node) (hd : c.pageSize ∣ cur.key.len)
    (hno : 0 < cur.key.len → c.child? cur.node (cur.key.childKey c.pageSize) = none) :
    Descends c c cur cur where
  splits := .refl c
  hasPath := hq
  found := by
    by_cases hpos : 0 < cur.key.len
    · exact .of_no_child h hq (page_le_of_dvd hd hpos) (hno hpos)
    · exact .of_len_zero h hq (by omega)
  whole := rfl
  dvd := hd
  le := le_rfl
  value := by simp
  total := by simp
  noChild := hno

def Cursor.advance (cur : Cursor) (k : Nat) (node : NodePath) : Cursor :=
  { node := node
    key := cur.key.dropUnits k
    value := cur.value.drop k
    totalPrefixLength := cur.totalPrefixLength + k }

lemma Descends.advance {c₁ : RadixCache} {cur' : Cursor} (h : WellFormed c)
    (hs : Shares c cur.node cur.key child k) (hsplit : Splits c c₁)
    (hd : Descends c₁ c' (cur.advance k (cur.node ++ cur.key.cells.take k)) cur') :
    Descends c c' cur cur' := by
  have hle := hd.le
  have hvalue := hd.value
  have htotal := hd.total
  have hfound := hd.found
  have hwhole := hd.whole
  simp only [Cursor.advance] at hle hvalue htotal hfound hwhole
  rw [hs.length_append] at hle hvalue htotal
  rw [append_dropUnits] at hfound hwhole
  refine ⟨?_, hd.hasPath, hsplit.found h hfound, hwhole, hsplit.pageSize_eq ▸ hd.dvd, by omega, ?_,
    by omega, hd.noChild⟩
  · exact hsplit.trans hd.splits
  · rw [hvalue, drop_drop]
    congr 1
    omega

lemma insertLoop_spec (cur : Cursor) (h : WellFormed c)
    (hfuel : cur.key.len ≤ fuel) (hq : c.HasPath cur.node) (hd : c.pageSize ∣ cur.key.len) :
    ∃ cur' c', insertLoop fuel c cur = .ok (cur', c') ∧ Descends c c' cur cur' := by
  induction fuel generalizing c cur with
  | zero => exact ⟨cur, c, rfl, .stop h hq hd fun hpos => by omega⟩
  | succ fuel ih => ?_
  rw [insertLoop]
  by_cases hpos : 0 < cur.key.len
  swap
  · rw [if_neg hpos]
    exact ⟨cur, c, rfl, .stop h hq hd fun hpos' => absurd hpos' hpos⟩
  rw [if_pos hpos]
  have hkey := page_le_of_dvd hd hpos
  rcases hf : c.child? cur.node (cur.key.childKey c.pageSize) with _ | child
  · exact ⟨cur, c, rfl, .stop h hq hd fun _ => hf⟩
  obtain ⟨k, hk, hs⟩ := matchLen_child h hkey hf
  simp only [hk, bind, Except.bind]
  have hshort := hs.len_drop_lt h.pos
  by_cases hlt : k < child.key.len
  · have hcut := hs.cuts h.pos hlt
    have hsplit : Splits c (c.splitNode child k) := .step hcut (.refl _)
    obtain ⟨cur', c', hrun, hdesc⟩ := ih (cur.advance k (path (c.splitUpper child k)))
      (hcut.wellFormed h) (show (cur.key.dropUnits k).len ≤ fuel by omega)
      hasPath_splitUpper (hs.dvd_drop hd)
    rw [if_pos hlt]
    exact ⟨cur', c', hrun, .advance h hs hsplit (hs.path_upper ▸ hdesc)⟩
  have hk' : k = child.key.len := le_antisymm hs.le_child (by omega)
  obtain ⟨cur', c', hrun, hdesc⟩ := ih (cur.advance k (path child)) h
    (show (cur.key.dropUnits k).len ≤ fuel by omega) (.inr ⟨child, hs.mem, rfl⟩)
    (hs.dvd_drop hd)
  rw [if_neg hlt]
  exact ⟨cur', c', hrun, .advance h hs (.refl c) (hs.path_child hk' ▸ hdesc)⟩

/-! ## The calls -/

def view (key : RadixKey) : RadixKey :=
  (key.toBigramView c.isEagle).pageAligned c.pageSize

lemma dvd_len_view : c.pageSize ∣ (c.view key).len := by
  rw [view, len_pageAligned]
  exact dvd_mul_left _ _

lemma cells_eq_nil_of_len (h : key.len = 0) : key.cells = [] :=
  length_eq_zero_iff.mp (by rw [length_cells, h])

/-- `match_prefix` never fails, returns the slots along the longest stored prefix, and only cuts
edges. -/
lemma matchPrefix_spec (h : WellFormed c) (hen : c.disable = false) (key : RadixKey) :
    ∃ r c', c.matchPrefix key = .ok (r, c') ∧ Splits c c' ∧ c'.HasPath r.lastNode ∧
      Found c (c.view key).cells r.lastNode ∧ r.deviceIndices = c.slots r.lastNode := by
  unfold matchPrefix
  dsimp only
  rw [← view]
  by_cases h0 : (c.view key).len = 0
  · refine ⟨⟨[], []⟩, c, ?_, .refl c, .inl rfl, ?_, along_nil.symm⟩
    · split <;> rfl
    · rw [cells_eq_nil_of_len h0]
      exact .self h (.inl rfl)
  have hne : (key.toBigramView c.isEagle).len ≠ 0 := by
    intro hz
    rw [view, len_pageAligned, hz] at h0
    simp at h0
  obtain ⟨r, c', hrun, hrest⟩ := matchPrefixLoop_spec h (le_refl (c.view key).len) (.inl rfl)
    dvd_len_view along_nil.symm
  refine ⟨r, c', ?_, hrest⟩
  rw [if_neg (by simp [hen, hne]), if_neg h0]
  exact hrun

lemma matchPrefix_disabled (hdis : c.disable = true) (key : RadixKey) :
    c.matchPrefix key = .ok (⟨[], []⟩, c) := by
  simp [matchPrefix, hdis]

def insertValue (key : RadixKey) (value : Option (List Nat)) : List Nat :=
  match value with
  | some v => (key.bigramValue c.isEagle v).take (c.view key).len
  | none => (c.view key).tokenIds.take (c.view key).len

/-- The slots given to an insertion reach as far as its key. -/
def EnoughSlots (key : RadixKey) (value : Option (List Nat)) : Prop :=
  ∀ v, value = some v → (c.view key).len ≤ v.length

instance (c : RadixCache) (key : RadixKey) (value : Option (List Nat)) :
    Decidable (c.EnoughSlots key value) :=
  match value with
  | none => .isTrue nofun
  | some v => decidable_of_iff ((c.view key).len ≤ v.length)
      ⟨fun h _ e => by cases e; exact h, fun h => h v rfl⟩

lemma insertValue_some (v : List Nat) : c.insertValue key (some v) = v.take (c.view key).len := by
  have hle : (c.view key).len ≤ (key.toBigramView c.isEagle).len := by
    rw [view, len_pageAligned]
    exact Nat.div_mul_le_self _ _
  rw [insertValue, bigramValue]
  grind

variable {value : Option (List Nat)} {leaf : TreeNode}

lemma length_insertValue (hv : c.EnoughSlots key value) :
    (c.insertValue key value).length = (c.view key).len := by
  cases value with
  | some v =>
    rw [insertValue_some v, length_take, min_eq_left (hv v rfl)]
  | none => ?_
  have hraw := (c.view key).rawLen_le
  have hlen : (c.view key).len ≤ (c.view key).rawLen := by
    unfold len
    split <;> omega
  rw [insertValue, length_take]
  omega

structure NewLeaf (c : RadixCache) (leaf : TreeNode) : Prop where
  hasPath : c.HasPath leaf.parent
  pos : 0 < leaf.key.len
  dvd : c.pageSize ∣ leaf.key.len
  siblings : ∀ n ∈ c.nodes, n.parent = leaf.parent →
    n.key.cells.take c.pageSize ≠ leaf.key.cells.take c.pageSize
  slot : leaf.slot = leaf.key.childKey c.pageSize
  value : leaf.value.length = leaf.key.len
  lockRef : leaf.lockRef = 0

lemma NewLeaf.wellFormed (h : WellFormed c) (hl : NewLeaf c leaf) : WellFormed (c.addLeaf leaf) where
  pos := h.pos
  valid := h.valid.cons
    (by rw [label_node, ← length_pos_iff, length_cells]; exact hl.pos)
    (by rw [label_node, length_cells]; exact hl.dvd) hl.hasPath hl.siblings
  slot := forall_mem_cons.mpr ⟨hl.slot, h.slot⟩
  value := forall_mem_cons.mpr ⟨hl.value, h.value⟩

lemma NewLeaf.entry_addLeaf : (c.addLeaf leaf).entry q =
    if Covers leaf q then some (pageOf c.pageSize TreeNode.value leaf q) else c.entry q :=
  pageAt_cons _ _ _

include h

lemma NewLeaf.entry_eq (hl : NewLeaf c leaf) (hd : c.pageSize ∣ q.length) (hc : Cached c.nodes q) :
    (c.addLeaf leaf).entry q = c.entry q := by
  rw [NewLeaf.entry_addLeaf, if_neg]
  intro hcov
  obtain ⟨m, hm, hcm⟩ := hc
  have hv : Valid c.pageSize (leaf :: c.nodes) := (hl.wellFormed h).valid
  have heq := hv.covers_unique mem_cons_self (mem_cons_of_mem _ hm) hd hcov hcm
  have hnodup := hv.path_nodup
  grind

lemma NewLeaf.slots_eq (hl : NewLeaf c leaf)
    (hq : c.HasPath q) : (c.addLeaf leaf).slots q = c.slots q := by
  refine slots_congr rfl fun q' hq' hne hd => hl.entry_eq h hd ?_
  have hcached : Cached c.nodes q := (hq.cached h).resolve_left fun e => by
    subst e
    exact hne (prefix_nil.mp hq')
  exact hcached.of_prefix h.valid hq' hne

omit h

inductive Inserted (c : RadixCache) (K : List Cell) (V : List Nat) (q : NodePath) :
    RadixCache → Prop
  | stored {c₁ : RadixCache} : Splits c c₁ → c₁.HasPath q → q = K → Inserted c K V q c₁
  | added {c₁ : RadixCache} {leaf : TreeNode} : Splits c c₁ → NewLeaf c₁ leaf → leaf.parent = q →
      path leaf = K → leaf.value = V.drop q.length → Inserted c K V q (c₁.addLeaf leaf)

/-- `insert` never fails, returns the longest stored prefix, and adds at most one leaf. -/
lemma insert_spec (h : WellFormed c) (hen : c.disable = false) (hv : c.EnoughSlots key value) :
    ∃ r c', c.insert key value = .ok (r, c') ∧ r.lastNode = (c.view key).cells ∧
      ∃ q, Found c (c.view key).cells q ∧ r.prefixLen = q.length ∧
        Inserted c (c.view key).cells (c.insertValue key value) q c' := by
  have hinsert : c.insert key value = c.insertHelper (c.view key) (c.insertValue key value) := by
    rw [insert, if_neg (by simp [hen])]
    rfl
  rw [hinsert, insertHelper]
  by_cases h0 : (c.view key).len = 0
  · rw [if_pos h0, cells_eq_nil_of_len h0]
    exact ⟨_, c, rfl, rfl, [], .self h (.inl rfl), rfl, .stored (.refl c) (.inl rfl) rfl⟩
  rw [if_neg h0]
  obtain ⟨cur, c₁, hrun, hdesc⟩ :=
    insertLoop_spec ⟨[], c.view key, c.insertValue key value, 0⟩ h le_rfl (.inl rfl)
      dvd_len_view
  have hwhole : cur.node ++ cur.key.cells = (c.view key).cells := hdesc.whole
  have htotal : cur.totalPrefixLength = cur.node.length := by simpa using hdesc.total
  have hvalue : cur.value = (c.insertValue key value).drop cur.node.length := by
    simpa using hdesc.value
  have hfound : Found c (c.view key).cells cur.node := hdesc.found
  simp only [hrun, bind, Except.bind]
  by_cases hpos : 0 < cur.key.len
  swap
  · rw [if_neg hpos]
    rw [cells_eq_nil_of_len (show cur.key.len = 0 by omega), append_nil] at hwhole
    exact ⟨_, _, rfl, hwhole, cur.node, hfound, htotal, .stored hdesc.splits hdesc.hasPath hwhole⟩
  rw [if_pos hpos]
  have hwf := hdesc.splits.wellFormed h
  have hd : c₁.pageSize ∣ cur.key.len := hdesc.splits.pageSize_eq ▸ hdesc.dvd
  have hleaf : NewLeaf c₁ (c₁.newLeaf cur) := by
    refine ⟨hdesc.hasPath, hpos, hd, ?_, rfl, ?_, rfl⟩
    · exact (hwf.child?_eq_none (page_le_of_dvd hd hpos)).mp (hdesc.noChild hpos)
    have hlen := congrArg List.length hwhole
    rw [List.length_append, length_cells, length_cells] at hlen
    have hleft : cur.value.length = cur.key.len := by
      rw [hvalue, length_drop, length_insertValue hv]
      omega
    exact hleft
  exact ⟨_, _, rfl, hwhole, cur.node, hfound, htotal, .added hdesc.splits hleaf rfl hwhole hvalue⟩

lemma insert_disabled (hdis : c.disable = true) : c.insert key value = .ok (⟨0, []⟩, c) := by
  simp [insert, hdis]
end Sglang.RadixCache
