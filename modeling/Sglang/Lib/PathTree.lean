import Sglang.Lib.Blocks
import Sglang.Lib.Keyed

/-!
# Compressed prefix trees, addressed by path

A compressed prefix tree over an alphabet is a finite set of nodes.
-/

namespace Sglang
open List Keyed

class PathNode (ν : Type) (α : outParam Type) where
  parent : ν → List α
  label : ν → List α

namespace PathTree
open PathNode
variable {ν α : Type} [PathNode ν α]

def path (n : ν) : List α := parent n ++ label n

def Covers (n : ν) (q : List α) : Prop := (parent n).length < q.length ∧ q <+: path n

instance [DecidableEq α] (n : ν) (q : List α) : Decidable (Covers n q) :=
  inferInstanceAs (Decidable (_ ∧ _))

def IsLeaf (nodes : List ν) (q : List α) : Prop := ∀ n ∈ nodes, parent n ≠ q

def Apart (p : Nat) (n m : ν) : Prop :=
  parent n = parent m → (label n).take p ≠ (label m).take p

instance (p : Nat) : Std.Symm (Apart (ν := ν) p) where
  symm _ _ h hp ht := h hp.symm ht.symm

structure Valid (p : Nat) (nodes : List ν) : Prop where
  label_ne_nil : ∀ n ∈ nodes, label n ≠ []
  dvd_label : ∀ n ∈ nodes, p ∣ (label n).length
  closed : ∀ n ∈ nodes, parent n = [] ∨ ∃ m ∈ nodes, path m = parent n
  siblings : nodes.Pairwise (Apart p)

variable {p : Nat} {nodes : List ν} {n m : ν} {q : List α} {q' : List α}

lemma length_path (n : ν) : (path n).length = (parent n).length + (label n).length :=
  length_append

lemma parent_prefix_path (n : ν) : parent n <+: path n := prefix_append _ _

lemma Covers.mono (h : Covers n q) (hq : q' <+: q)
    (hlen : (parent n).length < q'.length) : Covers n q' :=
  ⟨hlen, hq.trans h.2⟩

lemma valid_nil : Valid p ([] : List ν) where
  label_ne_nil _ h := by cases h
  dvd_label _ h := by cases h
  closed _ h := by cases h
  siblings := .nil

lemma add_le_of_dvd_of_lt {a b : Nat} (ha : p ∣ a) (hb : p ∣ b) (h : a < b) : a + p ≤ b :=
  Nat.le_of_lt_add_of_dvd (Nat.add_lt_add_right h p) (Nat.dvd_add ha (Nat.dvd_refl p)) hb

namespace Valid
section
variable (h : Valid p nodes) (hn : n ∈ nodes)
include h hn

lemma length_parent_lt : (parent n).length < (path n).length := by
  rw [length_path]
  have := length_pos_iff.mpr (h.label_ne_nil n hn)
  omega

lemma covers_path : Covers n (path n) :=
  ⟨h.length_parent_lt hn, prefix_rfl⟩

lemma path_ne_nil : path n ≠ [] := by
  have := h.length_parent_lt hn
  exact length_pos_iff.mp (by omega)

lemma dvd_parent : p ∣ (parent n).length := by
  induction hl : (parent n).length using Nat.strong_induction_on generalizing n with
  | _ len ih =>
    subst hl
    rcases h.closed n hn with hnil | ⟨m, hm, he⟩
    · rw [hnil]
      exact dvd_zero p
    have hlt := h.length_parent_lt hm
    rw [he] at hlt
    rw [← he, length_path]
    exact dvd_add (ih _ hlt hm rfl) (h.dvd_label m hm)

lemma dvd_path : p ∣ (path n).length := by
  rw [length_path]
  exact dvd_add (h.dvd_parent hn) (h.dvd_label n hn)

lemma eq_of_first_page (hm : m ∈ nodes)
    (hp : parent n = parent m) (ht : (label n).take p = (label m).take p) : n = m := by
  by_contra hne
  exact h.siblings.forall hn hm hne hp ht
end

lemma parent_eq_take (hq : q <+: path n) (hlen : (parent n).length ≤ q.length) :
    parent n = q.take (parent n).length := by
  have hpre : parent n <+: q := prefix_of_prefix_length_le (parent_prefix_path n) hq hlen
  exact prefix_iff_eq_take.mp hpre

section
variable (h : Valid p nodes)
include h

variable (hn : n ∈ nodes)
include hn

lemma label_take (hc : Covers n q) (hd : p ∣ q.length) :
    (label n).take p = (q.drop (parent n).length).take p := by
  obtain ⟨rest, hrest⟩ := hc.2
  have hroom := add_le_of_dvd_of_lt (h.dvd_parent hn) hd hc.1
  have hlabel : label n = (q ++ rest).drop (parent n).length := by
    rw [hrest, path, drop_left]
  grind

/-- Whole pages end on the edge of one node; by induction on the path. -/
lemma covers_unique (hm : m ∈ nodes) (hd : p ∣ q.length)
    (cn : Covers n q) (cm : Covers m q) : n = m := by
  induction hl : q.length using Nat.strong_induction_on generalizing q n m with
  | _ len ih =>
    subst hl
    have hpn := parent_eq_take cn.2 (le_of_lt cn.1)
    have hpm := parent_eq_take cm.2 (le_of_lt cm.1)
    -- the longer parent is a node that the other's edge also covers
    have absurd_of_lt : ∀ {n m : ν}, n ∈ nodes → m ∈ nodes → Covers n q → Covers m q →
        parent m = q.take (parent m).length → ¬ (parent n).length < (parent m).length := by
      intro n m hn hm cn cm hpm hlt
      rcases h.closed m hm with hnil | ⟨k, hk, he⟩
      · rw [hnil] at hlt
        cases hlt
      have hpre : parent m <+: q := hpm ▸ take_prefix _ _
      have hck : Covers k (parent m) := he ▸ h.covers_path hk
      have hnk : n = k := ih _ cm.1 hn hk (h.dvd_parent hm) (cn.mono hpre hlt) hck rfl
      subst hnk
      have := cn.2.length_le
      rw [he] at this
      exact absurd cm.1 (by omega)
    have hlen : (parent n).length = (parent m).length := by
      have h1 := absurd_of_lt hn hm cn cm hpm
      have h2 := absurd_of_lt hm hn cm cn hpn
      omega
    have hparent : parent n = parent m := by rw [hpn, hpm, hlen]
    refine h.eq_of_first_page hn hm hparent ?_
    rw [h.label_take hn cn hd, h.label_take hm cm hd, hlen]

lemma eq_of_path_eq (hm : m ∈ nodes) (he : path n = path m) : n = m :=
  h.covers_unique hn hm (h.dvd_path hn) (h.covers_path hn) (he ▸ h.covers_path hm)

omit hn

lemma path_nodup : (nodes.map path).Nodup := by
  rw [List.Nodup, pairwise_map]
  refine h.siblings.imp_of_mem fun {n m} hn hm hr he => ?_
  rw [h.eq_of_path_eq hn hm he] at hr
  exact hr rfl rfl

include hn

lemma exists_covers (hq : q <+: path n) (hne : q ≠ []) :
    ∃ m ∈ nodes, Covers m q ∧ path m <+: path n := by
  induction hl : (path n).length using Nat.strong_induction_on generalizing n with
  | _ len ih =>
    subst hl
    by_cases hlt : (parent n).length < q.length
    · exact ⟨n, hn, ⟨hlt, hq⟩, prefix_rfl⟩
    have hqp : q <+: parent n :=
      prefix_of_prefix_length_le hq (parent_prefix_path n) (by omega)
    rcases h.closed n hn with hnil | ⟨k, hk, he⟩
    · grind
    · have hshort : (path k).length < (path n).length := he ▸ h.length_parent_lt hn
      obtain ⟨m, hm, hc, hpre⟩ := ih _ hshort hk (he ▸ hqp) rfl
      exact ⟨m, hm, hc, hpre.trans (he ▸ parent_prefix_path n)⟩

lemma path_prefix_of_covers (hm : m ∈ nodes)
    (hd : p ∣ q.length) (hc : Covers m q) (hq : q <+: path n) : path m <+: path n := by
  have hne : q ≠ [] := length_pos_iff.mp (Nat.zero_lt_of_lt hc.1)
  obtain ⟨k, hk, hck, hpre⟩ := h.exists_covers hn hq hne
  rwa [h.covers_unique hm hk hd hc hck]

lemma prefix_parent (hm : m ∈ nodes) (hpre : path m <+: path n) (hne : m ≠ n) : path m <+: parent n := by
  refine prefix_of_prefix_length_le hpre (parent_prefix_path n) ?_
  by_contra hlt
  exact hne (h.covers_unique hm hn (h.dvd_path hm) (h.covers_path hm) ⟨by omega, hpre⟩)

omit hn

lemma eq_of_leaf_prefix (hm : m ∈ nodes)
    (hleaf : IsLeaf nodes (path n)) (hpre : path n <+: path m) (hn : n ∈ nodes) : m = n := by
  induction hl : (path m).length using Nat.strong_induction_on generalizing m with
  | _ len ih =>
    subst hl
    by_contra hne
    have hpar := h.prefix_parent hm hn hpre (Ne.symm hne)
    rcases h.closed m hm with hnil | ⟨k, hk, he⟩
    · rw [hnil] at hpar
      exact h.path_ne_nil hn (prefix_nil.mp hpar)
    · have hshort : (path k).length < (path m).length := he ▸ h.length_parent_lt hm
      have hkn := ih _ hshort hk (he ▸ hpar) rfl
      exact hleaf m hm (by rw [← he, hkn])
end

/-! ## The operations -/

lemma map {f : ν → ν} (h : Valid p nodes) (hp : ∀ n, parent (f n) = parent n)
    (hl : ∀ n, label (f n) = label n) : Valid p (nodes.map f) where
  label_ne_nil n hn := by
    obtain ⟨m, hm, rfl⟩ := mem_map.mp hn
    exact hl m ▸ h.label_ne_nil m hm
  dvd_label n hn := by
    obtain ⟨m, hm, rfl⟩ := mem_map.mp hn
    exact hl m ▸ h.dvd_label m hm
  closed n hn := by
    obtain ⟨m, hm, rfl⟩ := mem_map.mp hn
    rw [hp]
    refine (h.closed m hm).imp_right fun ⟨k, hk, he⟩ => ⟨f k, mem_map_of_mem hk, ?_⟩
    rw [path, hp, hl]
    exact he
  siblings := by
    rw [pairwise_map]
    refine h.siblings.imp fun {a b} hab => ?_
    rw [Apart, hp, hp, hl, hl]
    exact hab

lemma cons (h : Valid p nodes) (hne : label n ≠ []) (hd : p ∣ (label n).length)
    (hc : parent n = [] ∨ ∃ m ∈ nodes, path m = parent n)
    (hs : ∀ m ∈ nodes, parent m = parent n → (label m).take p ≠ (label n).take p) :
    Valid p (n :: nodes) where
  label_ne_nil := forall_mem_cons.mpr ⟨hne, h.label_ne_nil⟩
  dvd_label := forall_mem_cons.mpr ⟨hd, h.dvd_label⟩
  closed := forall_mem_cons.mpr
    ⟨hc.imp_right fun ⟨m, hm, e⟩ => ⟨m, mem_cons_of_mem n hm, e⟩,
      fun k hk => (h.closed k hk).imp_right fun ⟨m, hm, e⟩ => ⟨m, mem_cons_of_mem n hm, e⟩⟩
  siblings := pairwise_cons.mpr ⟨fun m hm he ht => hs m hm he.symm ht.symm, h.siblings⟩

variable [DecidableEq α]

lemma remove (h : Valid p nodes) (hleaf : IsLeaf nodes q) : Valid p (Keyed.remove path q nodes) where
  label_ne_nil k hk := h.label_ne_nil k (mem_remove.mp hk).1
  dvd_label k hk := h.dvd_label k (mem_remove.mp hk).1
  closed k hk := by
    have hmem := (mem_remove.mp hk).1
    refine (h.closed k hmem).imp_right fun ⟨m, hm, e⟩ => ⟨m, mem_remove.mpr ⟨hm, ?_⟩, e⟩
    rintro rfl
    exact hleaf k hmem e.symm
  siblings := h.siblings.sublist filter_sublist

omit [DecidableEq α] in
lemma path_split {upper lower : ν} {k : Nat} (hk : k ≤ (label n).length)
    (hup : parent upper = parent n) (hul : label upper = (label n).take k)
    (hlp : parent lower = path upper) (hll : label lower = (label n).drop k) :
    (path upper).length = (parent n).length + k ∧ path upper <+: path n ∧ path lower = path n := by
  refine ⟨?_, ?_, ?_⟩
  · rw [length_path, hup, hul, length_take, min_eq_left hk]
  · rw [path, hup, hul]
    exact (prefix_append_right_inj _).mpr (List.take_prefix _ _)
  · rw [path, hlp, hll, path, hup, hul, append_assoc, take_append_drop, path]

/-- An edge cut in two at a page: the upper node is new, the lower one has the old path. -/
lemma split {upper lower : ν} {k : Nat} (h : Valid p nodes) (hn : n ∈ nodes) (hk : 0 < k)
    (hlt : k < (label n).length) (hd : p ∣ k) (hup : parent upper = parent n)
    (hul : label upper = (label n).take k) (hlp : parent lower = path upper)
    (hll : label lower = (label n).drop k) :
    Valid p (upper :: lower :: Keyed.remove path (path n) nodes) := by
  have hpk : p ≤ k := Nat.le_of_dvd hk hd
  obtain ⟨hupper, hpre, hlower⟩ := path_split hlt.le hup hul hlp hll
  have hcov : Covers n (path upper) := ⟨by omega, hpre⟩
  have hdu : p ∣ (path upper).length := hupper ▸ Nat.dvd_add (h.dvd_parent hn) hd
  -- nothing hangs at the cut: a node there would cover the cut beside `n`
  have hfree : ∀ m ∈ nodes, parent m ≠ path upper := by
    intro m hm he
    rcases h.closed m hm with hnil | ⟨j, hj, hje⟩
    · grind
    have hcj : Covers j (path upper) := he ▸ hje ▸ h.covers_path hj
    have hjn := h.covers_unique hj hn hdu hcj hcov
    have hlen := length_path n
    rw [← hjn, hje, he, hupper, hjn] at hlen
    omega
  have hparents : ∀ m ∈ nodes, parent m = [] ∨
      ∃ j ∈ upper :: lower :: Keyed.remove path (path n) nodes, path j = parent m := by
    intro m hm
    refine (h.closed m hm).imp_right fun ⟨j, hj, e⟩ => ?_
    by_cases hjn : path j = path n
    · exact ⟨lower, by simp, by rw [hlower, ← hjn, e]⟩
    · exact ⟨j, by simp [mem_remove, hj, hjn], e⟩
  refine ⟨?_, ?_, ?_, ?_⟩
  · refine forall_mem_cons.mpr ⟨?_, forall_mem_cons.mpr ⟨?_, ?_⟩⟩
    · rw [hul]
      exact length_pos_iff.mp (by rw [length_take]; omega)
    · rw [hll]
      exact length_pos_iff.mp (by rw [length_drop]; omega)
    · exact fun m hm => h.label_ne_nil m (mem_remove.mp hm).1
  · refine forall_mem_cons.mpr ⟨?_, forall_mem_cons.mpr ⟨?_, ?_⟩⟩
    · grind
    · rw [hll, length_drop]
      exact Nat.dvd_sub (h.dvd_label n hn) hd
    · exact fun m hm => h.dvd_label m (mem_remove.mp hm).1
  · refine forall_mem_cons.mpr ⟨?_, forall_mem_cons.mpr ⟨?_, ?_⟩⟩
    · rw [hup]
      exact hparents n hn
    · exact .inr ⟨upper, by simp, hlp.symm⟩
    · exact fun m hm => hparents m (mem_remove.mp hm).1
  refine pairwise_cons.mpr ⟨?_, pairwise_cons.mpr ⟨?_, ?_⟩⟩
  · refine forall_mem_cons.mpr ⟨?_, ?_⟩
    · intro he
      grind
    intro m hm he ht
    obtain ⟨hmem, hne⟩ := mem_remove.mp hm
    rw [hul, take_take, min_eq_left hpk] at ht
    exact hne (h.eq_of_first_page hn hmem (hup ▸ he) ht ▸ rfl)
  · intro m hm he
    exact absurd (hlp ▸ he).symm (hfree m (mem_remove.mp hm).1)
  · exact h.siblings.sublist filter_sublist
end Valid

/-! ## Looking a path up -/

def Cached (nodes : List ν) (q : List α) : Prop := ∃ n ∈ nodes, Covers n q

/-- The longest cached prefix of `key` in whole pages has length `m`. -/
structure IsLongest (p : Nat) (nodes : List ν) (key : List α) (m : Nat) : Prop where
  dvd : p ∣ m
  le : m ≤ key.length
  cached : m ≠ 0 → Cached nodes (key.take m)
  longest : ∀ m', p ∣ m' → m < m' → m' ≤ key.length → ¬ Cached nodes (key.take m')

variable (h : Valid p nodes)
include h

lemma Cached.of_prefix (hc : Cached nodes q) (hq : q' <+: q) (hne : q' ≠ []) : Cached nodes q' := by
  obtain ⟨n, hn, hcov⟩ := hc
  obtain ⟨m, hm, hcm, -⟩ := h.exists_covers hn (hq.trans hcov.2) hne
  exact ⟨m, hm, hcm⟩

lemma IsLongest.of_next {key : List α} {l : Nat} (hp : 0 < p) (hd : p ∣ l)
    (hle : l ≤ key.length) (hc : l ≠ 0 → Cached nodes (key.take l))
    (hnext : l + p ≤ key.length → ¬ Cached nodes (key.take (l + p))) : IsLongest p nodes key l where
  dvd := hd
  le := hle
  cached := hc
  longest m' hd' hlt hle' hc' := by
    have hroom := add_le_of_dvd_of_lt hd hd' hlt
    refine hnext (by omega) (hc'.of_prefix h ?_ ?_)
    · exact take_prefix_take_left hroom
    · exact length_pos_iff.mp (by rw [length_take]; omega)

omit h

variable {parentPath rest : List α}
include h

lemma not_cached_of_no_child (hp : 0 < p)
    (hP : parentPath = [] ∨ ∃ m ∈ nodes, path m = parentPath) (hrest : p ≤ rest.length)
    (hno : ∀ n ∈ nodes, parent n = parentPath → (label n).take p ≠ rest.take p) :
    ¬ Cached nodes (parentPath ++ rest.take p) := by
  rintro ⟨n, hn, hc⟩
  have hlen : (parentPath ++ rest.take p).length = parentPath.length + p := by
    rw [length_append, length_take]
    omega
  have hdP : p ∣ parentPath.length := by
    rcases hP with rfl | ⟨m, hm, rfl⟩
    · exact dvd_zero p
    · exact h.dvd_path hm
  have hd : p ∣ (parentPath ++ rest.take p).length := hlen ▸ dvd_add hdP (dvd_refl p)
  have hpar := Valid.parent_eq_take hc.2 (le_of_lt hc.1)
  have hlt := hc.1
  rw [hlen] at hlt
  by_cases hle : (parent n).length < parentPath.length
  · -- then the edge of `n` runs past the node at `parentPath`
    rcases hP with rfl | ⟨m, hm, rfl⟩
    · cases hle
    have hnm := h.covers_unique hn hm hdP (hc.mono (prefix_append _ _) hle) (h.covers_path hm)
    have := hc.2.length_le
    rw [hlen, hnm] at this
    omega
  have heq : (parent n).length = parentPath.length :=
    le_antisymm (Nat.le_of_lt_add_of_dvd hlt (h.dvd_parent hn) hdP) (not_lt.mp hle)
  have hparent : parent n = parentPath := by rw [hpar, heq, take_left]
  refine hno n hn hparent ?_
  rw [h.label_take hn hc hd, heq, drop_left, take_take, min_self]

lemma not_cached_of_child {child : ν} {i : Nat} (hp : 0 < p)
    (hchild : child ∈ nodes) (hparent : parent child = parentPath)
    (hfirst : (label child).take p = rest.take p) (hpi : p ≤ i) (hi : i ≤ (label child).length)
    (hir : i ≤ rest.length) (hdiff : (label child).take i ≠ rest.take i) :
    ¬ Cached nodes (parentPath ++ rest.take i) := by
  rintro ⟨n, hn, hc⟩
  have hdP : p ∣ parentPath.length := hparent ▸ h.dvd_parent hchild
  have hlen : (parentPath ++ rest.take p).length = parentPath.length + p := by
    rw [length_append, length_take]
    omega
  have hd : p ∣ (parentPath ++ rest.take p).length := hlen ▸ dvd_add hdP (dvd_refl p)
  have hcov : Covers child (parentPath ++ rest.take p) := by
    refine ⟨by rw [hlen, hparent]; omega, ?_⟩
    rw [path, hparent, ← hfirst]
    exact (prefix_append_right_inj _).mpr (List.take_prefix ..)
  have hle : parentPath ++ rest.take p <+: parentPath ++ rest.take i :=
    (prefix_append_right_inj _).mpr (List.take_prefix_take_left hpi)
  have hpre := h.path_prefix_of_covers hn hchild hd hcov (hle.trans hc.2)
  have hq : parentPath ++ rest.take i <+: path child := by
    refine prefix_of_prefix_length_le hc.2 hpre ?_
    rw [length_path, hparent, length_append, length_take]
    omega
  rw [path, hparent, prefix_append_right_inj] at hq
  refine hdiff ?_
  have := prefix_iff_eq_take.mp hq
  grind
end PathTree

/-! ## The map that a prefix tree stands for -/

namespace PathTree
open PathNode
variable {ν α β : Type} [PathNode ν α] [DecidableEq α] (p : Nat) (value : ν → List β)

/-- The values of the last page of `q` on the edge of `n`. -/
def pageOf (n : ν) (q : List α) : List β :=
  ((value n).drop (q.length - p - (parent n).length)).take p

/-- The values of the last page of `q`, where `q` ends on an edge. -/
def pageAt (nodes : List ν) (q : List α) : Option (List β) :=
  (nodes.find? fun n => Covers n q).map fun n => pageOf p value n q

def along (nodes : List ν) (q : List α) : List β :=
  (List.range (q.length / p)).flatMap fun i =>
    (pageAt p value nodes (q.take ((i + 1) * p))).getD []

variable {p value} {nodes : List ν} {n : ν} {q : List α} {k : Nat}

lemma pageAt_isSome : (pageAt p value nodes q).isSome ↔ Cached nodes q := by
  simp [pageAt, Cached]

lemma pageAt_eq_none : pageAt p value nodes q = none ↔ ¬ Cached nodes q := by
  simp [pageAt, Cached]

lemma pageAt_of_covers (h : Valid p nodes) (hn : n ∈ nodes) (hd : p ∣ q.length)
    (hc : Covers n q) : pageAt p value nodes q = some (pageOf p value n q) := by
  have hsome : (nodes.find? fun m => Covers m q).isSome := by
    grind
  obtain ⟨m, hm⟩ := Option.isSome_iff_exists.mp hsome
  have hcm : Covers m q := by simpa using find?_some hm
  have := h.covers_unique (mem_of_find?_eq_some hm) hn hd hcm hc
  rw [pageAt, hm, this, Option.map_some]

lemma pageAt_cons (nodes : List ν) (n : ν) (q : List α) :
    pageAt p value (n :: nodes) q =
      if Covers n q then some (pageOf p value n q) else pageAt p value nodes q := by
  rw [pageAt, find?_cons]
  by_cases hc : Covers n q
  · simp [hc]
  · simp [hc, pageAt]

lemma pageAt_map {f : ν → ν} (hp : ∀ n, parent (f n) = parent n)
    (hl : ∀ n, label (f n) = label n) (hv : ∀ n, value (f n) = value n) :
    pageAt p value (nodes.map f) q = pageAt p value nodes q := by
  have hcov : ∀ n, Covers (f n) q ↔ Covers n q := fun n => by
    rw [Covers, Covers, path, path, hp, hl]
  induction nodes with
  | nil => rfl
  | cons n nodes ih =>
    rw [map_cons, pageAt_cons, pageAt_cons, ih, pageOf, pageOf, hp, hv]
    simp only [hcov]

lemma pageAt_remove (value : ν → List β) (h : Valid p nodes) (hn : n ∈ nodes) (hd : p ∣ q.length) :
    pageAt p value (Keyed.remove path (path n) nodes) q =
      if Covers n q then none else pageAt p value nodes q := by
  split
  · rename_i hc
    rw [pageAt_eq_none]
    rintro ⟨m, hm, hcm⟩
    obtain ⟨hmem, hne⟩ := mem_remove.mp hm
    exact hne (h.covers_unique hmem hn hd hcm hc ▸ rfl)
  · rename_i hc
    have hother : ∀ m ∈ nodes, Covers m q → path m ≠ path n := fun m hm hcm e =>
      hc (h.eq_of_path_eq hm hn e ▸ hcm)
    rw [pageAt, pageAt, Keyed.remove, find?_filter, find?_congr fun m hm => ?_]
    simpa using hother m hm

lemma pageAt_split {upper lower : ν} (h : Valid p nodes) (hn : n ∈ nodes)
    (hlt : k < (label n).length) (hd : p ∣ k) (hup : parent upper = parent n)
    (hul : label upper = (label n).take k) (hlp : parent lower = path upper)
    (hll : label lower = (label n).drop k) (huv : value upper = (value n).take k)
    (hlv : value lower = (value n).drop k) (hq : p ∣ q.length) :
    pageAt p value (upper :: lower :: Keyed.remove path (path n) nodes) q = pageAt p value nodes q := by
  obtain ⟨hulen, hpre, hlower⟩ := Valid.path_split hlt.le hup hul hlp hll
  have hdn := h.dvd_parent hn
  rw [pageAt_cons, pageAt_cons, pageAt_remove _ h hn hq]
  by_cases hcn : Covers n q
  · have hstep := add_le_of_dvd_of_lt hdn hq hcn.1
    rw [pageAt_of_covers h hn hq hcn]
    rcases lt_or_ge (path upper).length q.length with hgt | hle
    · -- the page lies below the cut
      have hcl : Covers lower q := ⟨hlp ▸ hgt, hlower ▸ hcn.2⟩
      have hcu : ¬ Covers upper q := fun hc => absurd hc.2.length_le (by omega)
      have hpast := add_le_of_dvd_of_lt (hulen ▸ dvd_add hdn hd) hq hgt
      rw [if_neg hcu, if_pos hcl, pageOf, pageOf, hlp, hlv, drop_drop, hulen]
      congr 3
      omega
    · have hcu : Covers upper q :=
        ⟨hup ▸ hcn.1, prefix_of_prefix_length_le hcn.2 hpre hle⟩
      rw [if_pos hcu, pageOf, pageOf, hup, huv, drop_take, take_take, min_eq_left (by omega)]
  have hcu : ¬ Covers upper q := fun hc => hcn ⟨hup ▸ hc.1, hc.2.trans hpre⟩
  have hcl : ¬ Covers lower q := fun hc =>
    hcn ⟨by have := hc.1; rw [hlp, hulen] at this; omega, hlower ▸ hc.2⟩
  rw [if_neg hcu, if_neg hcl, if_neg hcn]

/-! ## Values along a path -/

omit [PathNode ν α] [DecidableEq α] in
lemma flatMap_pages (vs : List β) (m : Nat) :
    ((range m).flatMap fun j => (vs.drop (j * p)).take p) = vs.take (m * p) := by
  induction m with
  | zero => simp
  | succ m ih => rw [range_succ, flatMap_append, ih, Nat.succ_mul, take_add]; simp

lemma along_nil : along p value nodes [] = [] := by simp [along]

lemma mem_along {x : β} (hx : x ∈ along p value nodes q) : ∃ n ∈ nodes, x ∈ value n := by
  obtain ⟨i, -, hx⟩ := mem_flatMap.mp hx
  cases hn : nodes.find? fun n => Covers n (q.take ((i + 1) * p)) with
  | none => simp [pageAt, hn] at hx
  | some n =>
    rw [pageAt, hn, Option.map_some, Option.getD_some] at hx
    exact ⟨n, mem_of_find?_eq_some hn, mem_of_mem_drop (mem_of_mem_take hx)⟩

lemma along_covers (h : Valid p nodes) (hp : 0 < p) (hn : n ∈ nodes) (hd : p ∣ q.length)
    (hc : Covers n q) : along p value nodes q =
      along p value nodes (parent n) ++ (value n).take (q.length - (parent n).length) := by
  obtain ⟨a, ha⟩ := h.dvd_parent hn
  obtain ⟨b, hb⟩ := hd
  have hab : a < b := Nat.lt_of_mul_lt_mul_left (ha ▸ hb ▸ hc.1)
  obtain ⟨m, rfl⟩ : ∃ m, b = a + m := ⟨b - a, by omega⟩
  have hpar := Valid.parent_eq_take hc.2 (le_of_lt hc.1)
  have hm : q.length - (parent n).length = m * p := by
    rw [ha, hb, Nat.mul_add, Nat.add_sub_cancel_left, Nat.mul_comm]
  rw [along, along, ha, hb, Nat.mul_div_cancel_left _ hp, Nat.mul_div_cancel_left _ hp,
    range_add, flatMap_append, flatMap_map, ← ha, ← hb, hm, ← flatMap_pages]
  congr 1
  · refine flatMap_congr fun i hi => ?_
    have hi : i < a := mem_range.mp hi
    have hle : (i + 1) * p ≤ (parent n).length := by
      rw [ha, Nat.mul_comm p a]
      exact Nat.mul_le_mul_right p hi
    rw [hpar, take_take, min_eq_left hle]
  refine flatMap_congr fun j hj => ?_
  have hj : j < m := mem_range.mp hj
  have hle : (a + j + 1) * p ≤ q.length := by
    rw [hb, Nat.mul_comm p]
    exact Nat.mul_le_mul_right p (by omega)
  have hlen : (q.take ((a + j + 1) * p)).length = (a + j + 1) * p := by
    rw [length_take, min_eq_left hle]
  have hexp : (a + j + 1) * p = p * a + j * p + p := by
    rw [Nat.add_mul, Nat.add_mul, Nat.one_mul, Nat.mul_comm a p]
  have hcj : Covers n (q.take ((a + j + 1) * p)) :=
    hc.mono (List.take_prefix ..) (by rw [hlen, ha, hexp]; omega)
  rw [pageAt_of_covers h hn (by rw [hlen]; exact Nat.dvd_mul_left p _) hcj, Option.getD_some, pageOf, hlen, ha,
    hexp, Nat.add_sub_cancel, Nat.add_sub_cancel_left]

lemma along_path (h : Valid p nodes) (hp : 0 < p) (hn : n ∈ nodes)
    (hv : (value n).length = (label n).length) :
    along p value nodes (path n) = along p value nodes (parent n) ++ value n := by
  rw [along_covers h hp hn (h.dvd_path hn) (h.covers_path hn), length_path,
    Nat.add_sub_cancel_left, ← hv, take_length]

lemma along_congr {nodes' : List ν}
    (h : ∀ q', q' <+: q → q' ≠ [] → p ∣ q'.length → pageAt p value nodes' q' = pageAt p value nodes q') :
    along p value nodes' q = along p value nodes q := by
  rcases eq_zero_or_pos p with rfl | hp
  · simp [along]
  refine flatMap_congr fun i hi => ?_
  have hle : (i + 1) * p ≤ q.length := Nat.mul_le_of_le_div _ _ _ (mem_range.mp hi)
  have hlen : (q.take ((i + 1) * p)).length = (i + 1) * p := by
    rw [length_take, min_eq_left hle]
  have hne : q.take ((i + 1) * p) ≠ [] := by
    grind
  rw [h _ (List.take_prefix ..) hne (by rw [hlen]; exact dvd_mul_left p _)]

omit [DecidableEq α] in
lemma length_pageOf (h : Valid p nodes) (hn : n ∈ nodes) (hd : p ∣ q.length) (hc : Covers n q)
    (hv : (value n).length = (label n).length) : (pageOf p value n q).length = p := by
  have hstep := add_le_of_dvd_of_lt (h.dvd_parent hn) hd hc.1
  have hle := hc.2.length_le
  rw [length_path] at hle
  rw [pageOf, length_take, length_drop, hv]
  omega

lemma along_take (hp : 0 < p) (hk : k * p ≤ q.length)
    (hpage : ∀ j < k, ((pageAt p value nodes (q.take ((j + 1) * p))).getD []).length = p) :
    (along p value nodes q).take (k * p) = along p value nodes (q.take (k * p)) ∧
      (along p value nodes (q.take (k * p))).length = k * p := by
  have hlen : (q.take (k * p)).length = k * p := by rw [length_take, min_eq_left hk]
  have hcut : along p value nodes (q.take (k * p)) = (range k).flatMap fun i =>
      (pageAt p value nodes (q.take ((i + 1) * p))).getD [] := by
    rw [along, hlen, Nat.mul_div_cancel _ hp]
    refine flatMap_congr fun i hi => ?_
    have hle : (i + 1) * p ≤ k * p := Nat.mul_le_mul_right p (mem_range.mp hi)
    rw [take_take, min_eq_left hle]
  have hsize := length_flatMap_range hpage
  have hall : k ≤ q.length / p := (Nat.le_div_iff_mul_le hp).mpr hk
  obtain ⟨m, hm⟩ := Nat.exists_eq_add_of_le hall
  rw [hcut]
  refine ⟨?_, hsize⟩
  rw [along, hm, range_add, flatMap_append, take_left' (hsize)]
end PathTree
end Sglang
