import Sglang.Lib.Run

/-!
# The locks of the gateway's prefix tree

A section of `Tree` (`policies/tree.rs`) takes locks one after the other while some of its guards
live. An iteration over a `DashMap` has the guard of a shard until it has that of the next one.
-/

namespace Sglang.Gateway
open List

open Function (update_of_ne update_self)

/-- The locks of a node and its two sharded maps, and the shards of `tenant_char_count`. -/
inductive TreeLock
  | children (node shard : Nat)
  | text (node : Nat)
  | parent (node : Nat)
  | lastTenant (node : Nat)
  | tenants (node shard : Nat)
  | charCount (shard : Nat)
  deriving DecidableEq

/-- A lock, and whether it is taken exclusively. -/
abbrev Guard := TreeLock × Bool

/-- The guards that are alive when a lock is taken, and that lock. -/
abbrev LockStage := List Guard × Guard

def under (outer : Guard) (inner : List Guard) : List LockStage :=
  ([], outer) :: inner.map fun l => ([outer], l)

/-- `Iter::next` from shard `i` on: it still has the guard `last` when it locks a shard. -/
def iterate {α : Type} (shard : Nat → TreeLock) (alive : List Guard)
    (body : Guard → α → List LockStage) : List Guard → Nat → List α → List LockStage
  | _, _, [] => []
  | last, i, x :: xs =>
    (last ++ alive, (shard i, false)) :: body (shard i, false) x ++
      iterate shard alive body [(shard i, false)] (i + 1) xs

/-- An iteration over `n` shards, or one look at shard `i`. -/
def scan (shard : Nat → TreeLock) (alive : List Guard) (i n : Nat) : List LockStage :=
  iterate shard alive (fun _ _ => []) [] i (replicate n ())

/-- Nested guards: the arms of `insert` (`fresh` is the node a split makes, `adds` says that the
tenant is new), an iteration over children (for each shard, the children whose tenants are scanned),
over tenants or counts, the test of the cached tenant, the removal of an empty node, any lock for
one statement. -/
inductive Section
  | vacant (prev shard count : Nat)
  | split (prev shard node fresh tenant count : Nat) (shards : List Nat) (adds : Bool)
  | full (prev shard node tenant count : Nat) (adds : Bool)
  | walk (node : Nat) (visits : List (List (Nat × Nat × Nat)))
  | tenantIter (node n : Nat)
  | countIter (n : Nat)
  | cached (node tenant : Nat)
  | detach (node parent shard : Nat)
  | alone (lock : TreeLock) (exclusive : Bool)

namespace Section
def attach (node tenant count : Nat) (adds : Bool) : List Guard :=
  (.tenants node tenant, false) :: if adds then
    [(.charCount count, true), (.tenants node tenant, true)] else []

def stages : Section → List LockStage
  | vacant prev shard count => under (.children prev shard, true) [(.charCount count, true)]
  | split prev shard node fresh tenant count shards adds =>
    under (.children prev shard, true) ((.text node, false) ::
      shards.map (fun shard => (.tenants node shard, false)) ++
      [(.lastTenant node, false), (.text node, true), (.parent node, true)] ++ attach fresh tenant count adds)
  | full prev shard node tenant count adds =>
    under (.children prev shard, true) ((.text node, false) :: attach node tenant count adds)
  | walk node visits => iterate (.children node) [] (fun guard visits =>
      visits.flatMap fun (child, i, n) => scan (.tenants child) [guard] i n) [] 0 visits
  | tenantIter node n => scan (.tenants node) [] 0 n
  | countIter n => scan .charCount [] 0 n
  | cached node tenant => under (.lastTenant node, false) [(.tenants node tenant, false)]
  | detach node parent shard => under (.text node, false) [(.children parent shard, true)]
  | alone lock exclusive => [([], lock, exclusive)]

/-- The node with an entry guard on a shard of its children. -/
def entry : Section → Option Nat
  | vacant prev .. | split prev .. | full prev .. => some prev
  | _ => none

/-- The node from which a child is removed. -/
def target : Section → Option Nat
  | detach _ parent _ => some parent
  | _ => none
end Section

/-- A thread is to take lock `k` of a section, or has it. -/
inductive TreeThread
  | idle
  | waiting (c : Section) (k : Nat)
  | having (c : Section) (k : Nat)

namespace TreeThread
def wants : TreeThread → Option Guard
  | waiting c k => (c.stages[k]?).map Prod.snd
  | _ => none

def holds : TreeThread → List Guard
  | waiting c (k + 1) => (c.stages[k + 1]?).elim [] Prod.fst
  | having c k => (c.stages[k]?).elim [] fun stage => stage.2 :: stage.1
  | _ => []

/-- The section whose first lock the thread is to take. -/
def first : TreeThread → Option Section
  | waiting c 0 => some c
  | _ => none

/-- The section that has begun. -/
def current : TreeThread → Option Section
  | waiting c (_ + 1) | having c _ => some c
  | _ => none
end TreeThread

inductive LockEvent (n : Nat)
  | begin (i : Fin n) (c : Section)
  | go (i : Fin n)

namespace TreeThread
variable {n : Nat}

section
variable (s : Fin n → TreeThread) (i : Fin n)

/-- Somebody else's guard keeps the lock from being taken. -/
def Taken (l : Guard) : Prop :=
  ∃ j ≠ i, ∃ l' ∈ (s j).holds, l'.1 = l.1 ∧ (l.2 || l'.2) = true

instance (s : Fin n → TreeThread) (i : Fin n) (l : Guard) : Decidable (Taken s i l) := by
  unfold Taken
  infer_instance

def next : LockEvent n → Fin n → TreeThread
  | .begin i c => match s i with
    | idle => Function.update s i (waiting c 0)
    | _ => s
  | .go i => match s i with
    | idle => s
    | waiting c k => match c.stages[k]? with
      | none => Function.update s i idle
      | some stage => if Taken s i stage.2 then s else Function.update s i (having c k)
    | having c k => Function.update s i (waiting c (k + 1))

/-- A guard of another thread is in the way, or a writer that queues before this reader. -/
def Waits (j : Fin n) : Prop :=
  ∃ l, (s i).wants = some l ∧ ((j ≠ i ∧ ∃ l' ∈ (s j).holds, l'.1 = l.1 ∧ (l.2 || l'.2) = true) ∨
    l.2 = false ∧ (s j).wants = some (l.1, true))

/-- No section has an entry guard on the children of a node while the other removes one of them. -/
def Disjoint (c c' : Section) : Prop := ∀ p ∈ c.entry, c'.target ≠ some p

instance (c c' : Section) : Decidable (Disjoint c c') := by
  unfold Disjoint
  infer_instance

/-- A thread takes its first lock while no section that is not disjoint from its own is under way. -/
def Apart : LockEvent n → Prop
  | .begin _ _ => True
  | .go i => ∀ c ∈ (s i).first, ∀ j, ∀ c' ∈ (s j).current, Disjoint c c' ∧ Disjoint c' c
end

variable {s : Fin n → TreeThread}

/-- The sections under way are disjoint. -/
def Inv (s : Fin n → TreeThread) : Prop :=
  ∀ i j, ∀ c ∈ (s i).current, ∀ c' ∈ (s j).current, Disjoint c c'

lemma disjoint_self (c : Section) : Disjoint c c := by
  cases c <;> simp [Disjoint, Section.entry, Section.target]

/-- A thread that takes no first lock goes on with its section or ends it. -/
lemma Inv.update (h : Inv s) {i : Fin n} {t : TreeThread}
    (ht : ∀ c ∈ t.current, c ∈ (s i).current) : Inv (Function.update s i t) := by
  have hcur : ∀ j, ∀ c ∈ (Function.update s i t j).current, c ∈ (s j).current := by
    intro j c hc
    by_cases hj : j = i
    · subst hj
      rw [update_self] at hc
      exact ht c hc
    · rwa [update_of_ne hj] at hc
  exact fun j k c hc c' hc' => h j k c (hcur j c hc) c' (hcur k c' hc')

/-- A section that takes its first lock is disjoint from those under way. -/
lemma Inv.start (h : Inv s) {i : Fin n} {c : Section}
    (hc : ∀ j, ∀ c' ∈ (s j).current, Disjoint c c' ∧ Disjoint c' c) :
    Inv (Function.update s i (having c 0)) := by
  intro j k d hd d' hd'
  by_cases hj : j = i <;> by_cases hk : k = i
  · subst hj hk
    simp only [update_self, current, Option.mem_some_iff] at hd hd'
    exact hd ▸ hd' ▸ disjoint_self c
  · subst hj
    simp only [update_self, update_of_ne hk, current, Option.mem_some_iff] at hd hd'
    exact hd ▸ (hc k d' hd').1
  · subst hk
    simp only [update_self, update_of_ne hj, current, Option.mem_some_iff] at hd hd'
    exact hd' ▸ (hc j d hd).2
  · simp only [update_of_ne hj, update_of_ne hk] at hd hd'
    exact h j k d hd d' hd'

lemma Inv.next (h : Inv s) (e : LockEvent n) (he : Apart s e) : Inv (TreeThread.next s e) := by
  rcases e with ⟨i, c⟩ | i
  · simp only [TreeThread.next]
    split
    · exact h.update nofun
    · exact h
  simp only [TreeThread.next]
  split
  next => exact h
  next c k hi =>
    split
    · exact h.update nofun
    split
    · exact h
    cases k with
    | zero => exact h.start (he c (by simp [hi, first]))
    | succ k => exact h.update fun d hd => by simpa [hi, current] using hd
  next c k hi => exact h.update fun d hd => by simpa [hi, current] using hd

/-! ## An order of the locks -/

variable (s : Fin n → TreeThread)

open Classical in
/-- Who waits for a lock waits for threads that wait for lower ones: the class counts first, then
the shard, as iterations go up. -/
noncomputable def level : TreeLock → ℕ ×ₗ ℕᵒᵈ
  | .children p sh =>
    toLex (if ∃ i, ∃ c ∈ (s i).current, c.entry = some p then 4 else 2, .toDual sh)
  | .text _ => toLex (3, .toDual 0)
  | .lastTenant _ => toLex (1, .toDual 0)
  | .parent _ => toLex (0, .toDual 0)
  | .tenants _ sh | .charCount sh => toLex (0, .toDual sh)

noncomputable def height (i : Fin n) : WithBot ((ℕ ×ₗ ℕᵒᵈ) ×ₗ Bool) :=
  (s i).wants.elim ⊥ fun l => WithBot.some (toLex (level s l.1, !l.2))

/-- The lock is lower than those whose guards are alive. -/
def Descends (stage : LockStage) : Prop :=
  ∀ l ∈ stage.1, level s stage.2.1 < level s l.1

variable {s}

lemma under_descends {outer : Guard} {inner : List Guard}
    (h : ∀ l ∈ inner, level s l.1 < level s outer.1) : ∀ stage ∈ under outer inner, Descends s stage := by
  rintro stage (_ | ⟨_, hmem⟩)
  · exact nofun
  obtain ⟨l, hl, rfl⟩ := mem_map.mp hmem
  rintro _ (_ | ⟨_, ⟨⟩⟩)
  exact h l hl

lemma iterate_descends {α : Type} {shard : Nat → TreeLock} {alive : List Guard}
    {body : Guard → α → List LockStage} (hshard : ∀ i, level s (shard (i + 1)) < level s (shard i))
    (halive : ∀ l ∈ alive, ∀ i, level s (shard i) < level s l.1)
    (hbody : ∀ i x, ∀ stage ∈ body (shard i, false) x, Descends s stage) (xs : List α)
    {last : List Guard} {i : Nat} (hlast : ∀ l ∈ last, level s (shard i) < level s l.1) :
    ∀ stage ∈ iterate shard alive body last i xs, Descends s stage := by
  induction xs generalizing last i with
  | nil => exact nofun
  | cons x xs ih =>
    rintro stage (_ | ⟨_, hmem⟩)
    · exact forall_mem_append.mpr ⟨hlast, fun l hl => halive l hl i⟩
    obtain hmem | hmem := mem_append.mp hmem
    · exact hbody i x stage hmem
    · exact ih (forall_mem_singleton.mpr (hshard i)) stage hmem

lemma scan_descends {shard : Nat → TreeLock} {alive : List Guard}
    (hshard : ∀ i, level s (shard (i + 1)) < level s (shard i))
    (halive : ∀ l ∈ alive, ∀ i, level s (shard i) < level s l.1) (i n : Nat) :
    ∀ stage ∈ scan shard alive i n, Descends s stage :=
  iterate_descends hshard halive nofun _ nofun

/-- A section takes lower locks than those it has. -/
lemma stages_descend (h : Inv s) {j : Fin n} {c : Section} (hj : c ∈ (s j).current) :
    ∀ stage ∈ c.stages, Descends s stage := by
  have hentry : ∀ p sh, c.entry = some p → level s (.children p sh) = toLex (4, .toDual sh) :=
    fun p sh he => by rw [level, if_pos ⟨j, c, hj, he⟩]
  have hshard {x sh : ℕ} : toLex (x, OrderDual.toDual (sh + 1)) < toLex (x, OrderDual.toDual sh) :=
    Prod.Lex.toLex_lt_toLex.mpr (.inr ⟨rfl, Nat.lt_succ_self sh⟩)
  have htenants : ∀ p i, level s (.tenants p (i + 1)) < level s (.tenants p i) := fun p i => hshard
  have hlow {x y : ℕ} (sh sh' : ℕᵒᵈ) (hxy : x < y) : toLex (x, sh) < toLex (y, sh') :=
    Prod.Lex.toLex_lt_toLex.mpr (.inl hxy)
  cases c with
  | vacant prev shard count =>
    refine under_descends (forall_mem_singleton.mpr ?_)
    rw [hentry prev shard rfl]
    exact hlow _ _ (Nat.succ_pos 3)
  | split prev shard node fresh tenant count shards adds | full prev shard node tenant count adds =>
    refine under_descends ?_
    rw [hentry prev shard rfl]
    simp only [Section.attach]
    grind [level]
  | walk node visits =>
    have hchildren : ∀ i, level s (.children node (i + 1)) < level s (.children node i) :=
      fun i => hshard
    refine iterate_descends hchildren (forall_mem_nil _) (fun i visits stage hmem => ?_) _ nofun
    obtain ⟨⟨child, k, m⟩, -, hmem⟩ := mem_flatMap.mp hmem
    refine scan_descends (htenants child) (forall_mem_singleton.mpr fun k => ?_) k m stage hmem
    refine hlow _ _ ?_
    split <;> omega
  | tenantIter node m => exact scan_descends (htenants node) (forall_mem_nil _) 0 m
  | countIter m =>
    have hcounts : ∀ i, level s (.charCount (i + 1)) < level s (.charCount i) := fun i => hshard
    exact scan_descends hcounts (forall_mem_nil _) 0 m
  | cached node tenant =>
    exact under_descends (forall_mem_singleton.mpr (hlow _ _ one_pos))
  | detach node par shard =>
    refine under_descends (forall_mem_singleton.mpr ?_)
    have hnone : ¬∃ i, ∃ d ∈ (s i).current, d.entry = some par := by
      rintro ⟨i, d, hd, he⟩
      exact h i j d hd _ hj par he rfl
    rw [level, if_neg hnone]
    exact hlow _ _ (Nat.lt_succ_self 2)
  | alone lock exclusive => exact forall_mem_singleton.mpr nofun

/-- A thread that has a guard wants a lower lock, or none. -/
lemma height_of_holds (h : Inv s) {j : Fin n} {l : Guard} (hl : l ∈ (s j).holds) :
    (s j).wants = none ∨ ∃ l' ∈ (s j).wants, level s l'.1 < level s l.1 := by
  cases hj : s j with
  | idle | having c k => exact .inl rfl
  | waiting c k =>
    rw [hj] at hl
    obtain _ | k := k
    · cases hl
    rw [wants]
    rcases hk : c.stages[k + 1]? with _ | stage
    · exact .inl rfl
    rw [holds, hk] at hl
    exact .inr ⟨stage.2, rfl, stages_descend h (j := j) (c := c) (by simp [hj, current]) stage
      (mem_of_getElem? hk) l hl⟩

lemma height_lt (h : Inv s) {i j : Fin n} (hw : Waits s i j) : height s j < height s i := by
  obtain ⟨l, hi, ⟨-, l', hl', hl, -⟩ | ⟨hread, hj⟩⟩ := hw
  swap
  · obtain ⟨l, exclusive⟩ := l
    obtain rfl : exclusive = false := hread
    rw [height, height, hi, hj]
    exact WithBot.coe_lt_coe.mpr (Prod.Lex.toLex_lt_toLex.mpr (.inr ⟨rfl, Bool.false_lt_true⟩))
  rw [height, height, hi]
  obtain hj | ⟨l₂, hj, hlt⟩ := height_of_holds h hl'
  · rw [hj]
    exact WithBot.bot_lt_coe _
  · rw [Option.mem_def.mp hj]
    exact WithBot.coe_lt_coe.mpr (Prod.Lex.toLex_lt_toLex.mpr (.inl (hl ▸ hlt)))

/-- In runs where removals of a node's children and entry guards on them are apart, no thread waits
for itself. -/
theorem no_deadlock {past : List (LockEvent n)}
    (hr : Run next Apart (fun _ => idle) past s) (i : Fin n) :
    ¬Relation.TransGen (Waits s) i i := by
  have h : Inv s := hr.invariant (I := fun _ s => Inv s) (by simp [Inv, current]) fun _ _ e h he => h.next e he
  have hlt : ∀ {i j}, Relation.TransGen (Waits s) i j → height s j < height s i := fun hij => by
    induction hij with
    | single hw => exact height_lt h hw
    | tail _ hw ih => exact (height_lt h hw).trans ih
  exact fun hii => lt_irrefl _ (hlt hii)

/-! ## A split against a removal -/

instance (s : Fin n → TreeThread) : DecidablePred (Apart s) := fun e => by
  cases e <;> unfold Apart <;> infer_instance

def evicting : Fin 2 := ⟨0, Nat.two_pos⟩

def inserting : Fin 2 := ⟨1, Nat.one_lt_two⟩

def removal : List (LockEvent 2) :=
  .begin evicting (.detach 1 0 0) :: replicate 2 (.go evicting)

/-- The removal comes to its end. -/
def removed : List (LockEvent 2) := replicate 3 (.go evicting)

def splitting : List (LockEvent 2) :=
  .begin inserting (.split 0 0 1 2 0 0 [0] true) :: replicate 8 (.go inserting)

theorem no_deadlock_one_by_one :
    ¬Relation.TransGen (Waits ((removal ++ removed ++ splitting).foldl
      next fun _ => idle)) inserting inserting :=
  no_deadlock (Run.start.of_admitted _ (by decide)) inserting

/-- The removal waits for the shard of the parent, whose holder waits for the text that the removal
holds. -/
theorem split_blocks_removal :
    let s := (removal ++ splitting).foldl next fun _ => idle
    Run next (fun _ _ => True) (fun _ => idle) ((removal ++ splitting).reverse ++ []) s ∧
    Waits s evicting inserting ∧ Waits s inserting evicting ∧ ∀ i, next s (.go i) = s := by
  refine ⟨Run.start.of_admitted _ (by decide), ⟨(.children 0 0, true), rfl, .inl ?_⟩,
    ⟨(.text 1, true), rfl, .inl ?_⟩, fun i => ?_⟩
  iterate 2 exact ⟨by decide, _, mem_singleton_self _, rfl, rfl⟩
  · match i with
    | 0 => rfl
    | 1 => rfl
end TreeThread
end Sglang.Gateway
