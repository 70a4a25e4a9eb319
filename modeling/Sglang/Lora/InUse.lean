import Sglang.Lib.Run
import Sglang.Lora.Registry

/-!
# No adapter is unloaded in use

Each id has a balance of counted uses and releases over all suspended tasks.
-/

namespace Sglang.Lora
open List Frame Keyed
variable {Name Id : Type}

def total (w : Frame Name Id → Nat) (fs : List (Frame Name Id)) : Nat := (fs.map w).sum

section
variable {w : Frame Name Id → Nat} {f : Frame Name Id} {fs gs : List (Frame Name Id)}

@[simp] lemma total_cons : total w (f :: fs) = w f + total w fs := by
  simp [total]

@[simp] lemma total_append : total w (fs ++ gs) = total w fs + total w gs := by
  simp [total]

lemma total_perm (h : fs.Perm gs) : total w fs = total w gs := (h.map w).sum_eq

lemma total_children (ch : Id → Frame Name Id) (ids : List Id) (h : ∀ i, w (ch i) = 0) :
    total w (ids.map ch) = 0 := by
  simp [total, Function.comp_def, h]

lemma total_children_count [DecidableEq Id] (ch : Id → Frame Name Id) (ids : List Id) {id : Id}
    (h : ∀ i, w (ch i) = if i = id then 1 else 0) : total w (ids.map ch) = ids.count id := by
  induction ids with
  | nil => rfl
  | cons i ids ih =>
    rw [map_cons, total_cons, ih, h, count_cons]
    simp [add_comm]
end

variable [DecidableEq Id]

namespace Frame
/-- How often the frame still increments the counter of `id`. -/
def increments (id : Id) : Frame Name Id → Nat
  | .increment _ i => if i = id then 1 else 0
  | _ => 0

/-- How often the frame still decrements the counter of `id`. -/
def decrements (id : Id) : Frame Name Id → Nat
  | .reader op => op.ids.count id
  | .decrement _ i => if i = id then 1 else 0
  | _ => 0

def returns (id : Id) : Frame Name Id → Nat
  | .acquiring ids _ => ids.reduceOption.count id
  | _ => 0

def registers (id : Id) : Frame Name Id → Nat
  | .writer (.register _ i) => if i = id then 1 else 0
  | _ => 0

/-- Whether the frame still removes the counter of `id`. -/
def removes (id : Id) : Frame Name Id → Nat
  | .waitForZero i => if i = id then 1 else 0
  | _ => 0
end Frame

open Prod (fst snd)

open Frame (decrements increments registers removes returns)

structure Inv (d : Tables Name Id) (fs : List (Frame Name Id)) : Prop where
  balance : ∀ id ∈ d.counters, d.count id + total (increments id) fs =
    d.held.count id + total (decrements id) fs + total (returns id) fs
  /-- An id without a counter is not in use. -/
  idle : ∀ id ∉ d.counters, total (increments id) fs + d.held.count id +
    total (decrements id) fs + total (returns id) fs = 0
  names_nodup : d.names.Nodup
  owned : ∀ id, (d.registry.map snd).count id + total (removes id) fs ≤
    d.counters.count id
  /-- An id goes once through the registry. -/
  once : ∀ id, total (registers id) fs + d.counters.count id + d.unloaded.count id ≤ 1
  fresh : ∀ id ∉ d.used, total (registers id) fs + d.counters.count id + d.unloaded.count id = 0
  /-- No increment is left for an id that is being unloaded. -/
  settled : ∀ id, 0 < total (removes id) fs → total (increments id) fs = 0
  no_error : .keyError ∉ d.raised ∧ .assertionError ∉ d.raised

namespace Inv
variable {d : Tables Name Id} {f g : Frame Name Id} {fs gs : List (Frame Name Id)} {id : Id}
  {name : Name}

lemma drop (h : Inv d (f :: fs)) (hd : ∀ id, f.decrements id = 0) (hr : ∀ id, f.returns id = 0)
    (hi : ∀ id, f.increments id = 0) : Inv d fs where
  balance id hid := by simpa [hd, hr, hi] using h.balance id hid
  idle id hid := by simpa [hd, hr, hi] using h.idle id hid
  names_nodup := h.names_nodup
  owned id := by
    have := h.owned id
    rw [total_cons] at this
    omega
  once id := by
    have := h.once id
    rw [total_cons] at this
    omega
  fresh id hid := by
    have := h.fresh id hid
    rw [total_cons] at this
    omega
  settled id hid := by
    have := h.settled id
    rw [total_cons, total_cons, hi] at this
    omega
  no_error := h.no_error

lemma drop_writer {op : WriterOp Name Id} (h : Inv d (.writer op :: fs)) : Inv d fs :=
  h.drop (fun _ => rfl) (fun _ => rfl) fun _ => rfl

lemma raise_valueError (h : Inv d fs) : Inv (d.raise .valueError) fs where
  __ := h
  no_error := by
    have := h.no_error
    simpa [Tables.raise] using this

lemma register (h : Inv d (.writer (.register name id) :: fs)) (hn : name ∉ d.names) :
    Inv { d with
      registry := d.registry ++ [(name, id)]
      counters := d.counters.insert id
      count := fun i => if i = id then 0 else d.count i } fs := by
  have hdrop := h.drop_writer
  -- the id is new, so nothing uses it
  have hnew : id ∉ d.counters := by
    have := h.once id
    rw [total_cons, registers, if_pos rfl] at this
    exact count_eq_zero.mp (by omega)
  have hidle := hdrop.idle id hnew
  have hcounters : d.counters.insert id = id :: d.counters := insert_of_not_mem hnew
  have hreg : ∀ i, ((d.registry ++ [(name, id)]).map snd).count i =
      (d.registry.map snd).count i + if id = i then 1 else 0 := by
    simp [count_singleton]
  have hcount : ∀ i, (id :: d.counters).count i = d.counters.count i + if id = i then 1 else 0 := by
    simp [count_cons]
  constructor
  case balance =>
    intro i hi
    simp only [hcounters, mem_cons] at hi
    by_cases he : i = id
    · subst he
      simp only [if_pos]
      omega
    · simpa [he] using hdrop.balance i (hi.resolve_left he)
  case idle =>
    intro i hi
    simp only [hcounters, mem_cons, not_or] at hi
    exact hdrop.idle i hi.2
  case names_nodup =>
    simpa [Tables.names, nodup_append] using ⟨h.names_nodup, fun a b hab e => hn
      (by simpa [Tables.names] using ⟨b, e ▸ hab⟩)⟩
  case owned =>
    intro i
    have := hdrop.owned i
    simp only [hcounters, hreg, hcount]
    omega
  case once =>
    intro i
    have := h.once i
    simp only [total_cons, registers] at this
    simp only [hcounters, hcount]
    omega
  case fresh =>
    intro i hi
    have := h.fresh i hi
    simp only [total_cons, registers] at this
    simp only [hcounters, hcount]
    omega
  case settled => exact hdrop.settled
  case no_error => exact h.no_error

lemma unregister [DecidableEq Name] {ent : Name × Id} (h : Inv d (.writer (.unload name) :: fs))
    (he : ent ∈ d.registry) (hname : ent.1 = name) (hquiet : total (increments ent.2) fs = 0) :
    Inv { d with registry := remove fst name d.registry } (.waitForZero ent.2 :: fs) := by
  subst hname
  have hdrop := h.drop_writer
  have hperm := perm_cons_remove h.names_nodup he
  have hcount : ∀ i, (d.registry.map snd).count i =
      ((remove fst ent.1 d.registry).map snd).count i +
        if ent.2 = i then 1 else 0 := by
    grind
  constructor
  case balance => simpa [increments, decrements, returns] using hdrop.balance
  case idle => simpa [increments, decrements, returns] using hdrop.idle
  case names_nodup => exact nodup_keys_remove h.names_nodup
  case owned =>
    intro i
    have := hdrop.owned i
    rw [hcount i] at this
    simp only [total_cons, removes]
    omega
  case once => simpa [registers] using hdrop.once
  case fresh => simpa [registers] using hdrop.fresh
  case settled =>
    intro i
    simp only [total_cons, removes, increments, zero_add]
    by_cases hi : ent.2 = i
    · subst hi
      exact fun _ => hquiet
    · rw [if_neg hi, zero_add]
      exact hdrop.settled i
  case no_error => exact h.no_error

lemma waiting_mem_counters (h : Inv d (.waitForZero id :: fs)) : id ∈ d.counters := by
  have := h.owned id
  rw [total_cons, removes, if_pos rfl] at this
  exact count_pos_iff.mp (by omega)

lemma unload (h : Inv d (.waitForZero id :: fs)) (hzero : d.count id = 0) :
    Inv { d with counters := d.counters.erase id, unloaded := id :: d.unloaded } fs := by
  have hmem := h.waiting_mem_counters
  have hbal := h.balance id hmem
  have hset := h.settled id (by rw [total_cons, removes, if_pos rfl]; omega)
  simp only [total_cons, increments, decrements, returns, zero_add] at hbal hset
  have hcount : ∀ i, d.counters.count i = (d.counters.erase id).count i + if id = i then 1 else 0 := by
    grind
  have hunloaded : ∀ i, (id :: d.unloaded).count i = d.unloaded.count i + if id = i then 1 else 0 := by
    simp [count_cons]
  constructor
  case balance =>
    intro i hi
    simpa [increments, decrements, returns] using h.balance i (mem_of_mem_erase hi)
  case idle =>
    intro i hi
    by_cases he : id = i
    · subst he
      dsimp only
      omega
    · have hnot : i ∉ d.counters := by
        grind
      simpa [increments, decrements, returns] using h.idle i hnot
  case names_nodup => exact h.names_nodup
  case owned =>
    intro i
    have := h.owned i
    simp only [hcount i, total_cons, removes] at this
    dsimp only
    omega
  case once =>
    intro i
    have := h.once i
    simp only [hcount i, total_cons, registers] at this
    dsimp only
    rw [hunloaded i]
    omega
  case fresh =>
    intro i hi
    have := h.fresh i hi
    simp only [hcount i, total_cons, registers] at this
    dsimp only
    rw [hunloaded i]
    omega
  case settled =>
    intro i hi
    have := h.settled i
    simp only [total_cons, increments, zero_add] at this
    exact this (by omega)
  case no_error => exact h.no_error

variable (h : Inv d fs)
include h

lemma perm (hp : fs.Perm gs) : Inv d gs := by
  obtain ⟨h1, h2, h3, h4, h5, h6, h7, h8⟩ := h
  simp only [total_perm hp] at h1 h2 h4 h5 h6 h7
  exact ⟨h1, h2, h3, h4, h5, h6, h7, h8⟩

lemma reorder {registry : List (Name × Id)} (hp : registry.Perm d.registry) :
    Inv { d with registry } fs where
  __ := h
  names_nodup := ((hp.map fst).nodup_iff).mpr h.names_nodup
  owned id := by
    rw [(hp.map snd).count_eq]
    exact h.owned id

lemma mem_counters (hid : id ∈ d.registry.map snd) : id ∈ d.counters := by
  have hpos := count_pos_iff.mpr hid
  have := h.owned id
  exact count_pos_iff.mp (by omega)

lemma not_registered (hid : 0 < total (removes id) fs) : id ∉ d.registry.map snd := by
  intro hmem
  have hpos := count_pos_iff.mpr hmem
  have := h.owned id
  have := h.once id
  omega

lemma reuse {count : Id → Int} {held : List Id}
    (hreg : ∀ i, total (registers i) gs = total (registers i) fs)
    (hrem : ∀ i, total (removes i) gs = total (removes i) fs)
    (balance : ∀ i ∈ d.counters, count i + total (increments i) gs =
      held.count i + total (decrements i) gs + total (returns i) gs)
    (idle : ∀ i ∉ d.counters, total (increments i) gs + held.count i +
      total (decrements i) gs + total (returns i) gs = 0)
    (settled : ∀ i, 0 < total (removes i) fs → total (increments i) gs = 0) :
    Inv { d with count, held } gs where
  balance := balance
  idle := idle
  names_nodup := h.names_nodup
  owned i := by
    rw [hrem]
    exact h.owned i
  once i := by
    rw [hreg]
    exact h.once i
  fresh i hi := by
    rw [hreg]
    exact h.fresh i hi
  settled i hi := settled i (hrem i ▸ hi)
  no_error := h.no_error

lemma acquireOne (hid : id ∈ d.counters) : Inv { d.addCount id 1 with held := id :: d.held } fs := by
  refine h.reuse (fun _ => rfl) (fun _ => rfl) (fun i hi => ?_) (fun i hi => ?_) h.settled
  · have := h.balance i hi
    by_cases he : i = id
    · subst he
      simp only [Tables.addCount, if_pos, count_cons_self]
      omega
    · simpa [Tables.addCount, he, count_cons_of_ne (Ne.symm he)] using this
  · have hne : id ≠ i := fun e => hi (e ▸ hid)
    simpa [count_cons_of_ne hne] using h.idle i hi

omit h

variable {p n : Nat} {op : ReaderOp Id} {ids : List (Option Id)}

lemma acquireAll (h : Inv d fs) (hids : ∀ id ∈ ids.reduceOption, id ∈ d.registry.map snd) :
    Inv d (ids.reduceOption.map (.increment p) ++ .acquiring ids n :: fs) := by
  have hinc : ∀ i, total (increments i)
      (ids.reduceOption.map (.increment p) : List (Frame Name Id)) = ids.reduceOption.count i :=
    fun i => total_children_count _ _ fun _ => rfl
  have hzero : ∀ w : Frame Name Id → Nat, (∀ i, w (.increment p i) = 0) →
      total w (ids.reduceOption.map (.increment p)) = 0 := fun _ hw => total_children _ _ hw
  have hdec := fun i => hzero (decrements i) fun _ => rfl
  have hret := fun i => hzero (returns i) fun _ => rfl
  have hnone : ∀ i ∉ d.registry.map snd, ids.reduceOption.count i = 0 :=
    fun i hi => count_eq_zero.mpr fun hmem => hi (hids i hmem)
  refine h.reuse (fun i => ?_) (fun i => ?_) (fun i hi => ?_) (fun i hi => ?_) fun i hi => ?_
  · simp [hzero (registers i) fun _ => rfl, registers]
  · simp [hzero (removes i) fun _ => rfl, removes]
  · have := h.balance i hi
    simp only [total_append, total_cons, hinc, hdec, hret, increments, decrements, returns]
    omega
  · have := h.idle i hi
    have := hnone i (mt h.mem_counters hi)
    simp only [total_append, total_cons, hinc, hdec, hret, increments, decrements, returns]
    omega
  · -- an id that is being unloaded is not registered, so no child counts it
    rw [total_append, hinc, hnone i (h.not_registered hi), total_cons]
    simpa [increments] using h.settled i hi

lemma addCount (δ : Int) (h : Inv d (f :: fs)) (hret : ∀ i, f.returns i = 0)
    (hcount : ∀ i, (f.increments i : Int) = f.decrements i + if id = i then δ else 0)
    (hreg : ∀ i, f.registers i = 0) (hrem : ∀ i, f.removes i = 0) : Inv (d.addCount id δ) fs := by
  refine h.reuse (fun i => ?_) (fun i => ?_) (fun i hi => ?_) (fun i hi => ?_) fun i hi => ?_
  · simp [hreg]
  · simp [hrem]
  · have hb := h.balance i hi
    have hc := hcount i
    simp only [total_cons, hret] at hb
    by_cases he : i = id
    · subst he
      simp only [if_pos] at hc ⊢
      omega
    · simp only [if_neg he, if_neg (Ne.symm he)] at hc ⊢
      omega
  · have := h.idle i hi
    simp only [total_cons] at this
    omega
  · have := h.settled i hi
    rw [total_cons] at this
    omega

lemma releasing_mem_counters (h : Inv d (.reader op :: fs)) (hid : id ∈ op.ids) : id ∈ d.counters := by
  by_contra hnot
  have := h.idle id hnot
  simp only [total_cons, decrements] at this
  have := count_pos_iff.mpr hid
  omega

lemma releaseAll (h : Inv d (.reader op :: fs)) :
    Inv d (op.ids.map (.decrement p) ++ .releasing n :: fs) := by
  have hdec : ∀ i, total (decrements i)
      (op.ids.map (.decrement p) : List (Frame Name Id)) = op.ids.count i :=
    fun i => total_children_count _ _ fun _ => rfl
  have hzero : ∀ w : Frame Name Id → Nat, (∀ i, w (.decrement p i) = 0) →
      total w (op.ids.map (.decrement p)) = 0 := fun _ hw => total_children _ _ hw
  have hinc := fun i => hzero (increments i) fun _ => rfl
  have hret := fun i => hzero (returns i) fun _ => rfl
  refine h.reuse (fun i => ?_) (fun i => ?_) (fun i hi => ?_) (fun i hi => ?_) fun i hi => ?_
  · simp [hzero (registers i) fun _ => rfl, registers]
  · simp [hzero (removes i) fun _ => rfl, removes]
  · have := h.balance i hi
    simp only [total_append, total_cons, hinc, hdec, hret, increments, decrements, returns] at this ⊢
    omega
  · have := h.idle i hi
    simp only [total_append, total_cons, hinc, hdec, hret, increments, decrements, returns] at this ⊢
    omega
  · have := h.settled i hi
    simp only [total_append, total_cons, hinc, increments] at this ⊢
    omega

lemma returned (h : Inv d (.acquiring ids n :: fs)) :
    Inv { d with held := ids.reduceOption ++ d.held } fs := by
  refine h.reuse (fun i => ?_) (fun i => ?_) (fun i hi => ?_) (fun i hi => ?_) fun i hi => ?_
  · simp [registers]
  · simp [removes]
  · have := h.balance i hi
    simp only [total_cons, increments, decrements, returns] at this
    rw [count_append]
    omega
  · have := h.idle i hi
    simp only [total_cons, returns] at this
    rw [count_append]
    omega
  · have := h.settled i hi
    rw [total_cons] at this
    omega

lemma swap (h : Inv d (f :: fs)) (hinc : ∀ i, f.increments i = g.increments i)
    (hdec : ∀ i, f.decrements i = g.decrements i) (hret : ∀ i, f.returns i = g.returns i)
    (hreg : ∀ i, f.registers i = g.registers i) (hrem : ∀ i, f.removes i = g.removes i) :
    Inv d (g :: fs) where
  balance := by simpa [hinc, hdec, hret] using h.balance
  idle := by simpa [hinc, hdec, hret] using h.idle
  names_nodup := h.names_nodup
  owned := by simpa [hrem] using h.owned
  once := by simpa [hreg] using h.once
  fresh := by simpa [hreg] using h.fresh
  settled := by simpa [hinc, hrem] using h.settled
  no_error := h.no_error

include h

lemma callWriter {op : WriterOp Name Id}
    (hreg : ∀ i, registers i (.writer op : Frame Name Id) = 0) :
    Inv d (.writer op :: fs) :=
  h.reuse (fun i => by simp [hreg]) (fun i => by simp [removes])
    (by simpa [increments, decrements, returns] using h.balance)
    (by simpa [increments, decrements, returns] using h.idle)
    (by simpa [increments] using h.settled)

lemma callRegister (hid : id ∉ d.used) :
    Inv { d with used := id :: d.used } (.writer (.register name id) :: fs) where
  balance := by simpa [increments, decrements, returns] using h.balance
  idle := by simpa [increments, decrements, returns] using h.idle
  names_nodup := h.names_nodup
  owned := by simpa [removes] using h.owned
  once i := by
    simp only [total_cons, registers]
    by_cases he : id = i
    · subst he
      have := h.fresh id hid
      rw [if_pos rfl]
      omega
    · rw [if_neg he, zero_add]
      exact h.once i
  fresh i hi := by
    simp only [mem_cons, not_or] at hi
    simp only [total_cons, registers, if_neg (Ne.symm hi.1), zero_add]
    exact h.fresh i hi.2
  settled := by simpa [removes, increments] using h.settled
  no_error := h.no_error

lemma callReader (hheld : ∀ id ∈ op.ids, op.ids.count id ≤ d.held.count id) :
    Inv { d with held := d.held.diff op.ids } (.reader op :: fs) := by
  have hle : ∀ i, op.ids.count i ≤ d.held.count i := by
    grind
  refine h.reuse (fun i => ?_) (fun i => ?_) (fun i hi => ?_) (fun i hi => ?_) fun i hi => ?_
  · simp [registers]
  · simp [removes]
  · have := h.balance i hi
    have := hle i
    simp only [total_cons, increments, decrements, returns, count_diff]
    omega
  · have := h.idle i hi
    have := hle i
    simp only [total_cons, increments, decrements, returns, count_diff]
    omega
  · simpa [increments] using h.settled i hi
end Inv

namespace State
variable {s : State Name Id} {t : Nat} {f : Frame Name Id} {fs : List (Frame Name Id)}

open Lora.Task (frame tid)

def frames (s : State Name Id) : List (Frame Name Id) := s.tasks.map frame

structure Good (s : State Name Id) : Prop where
  keys : (s.tasks.map tid).Nodup
  below : ∀ k ∈ s.tasks.map tid, k < s.nextTid
  inv : Inv s.toTables s.frames

structure Running (s : State Name Id) (t : Nat) (fs : List (Frame Name Id)) : Prop where
  keys : (s.tasks.map tid).Nodup
  below : ∀ k ∈ s.tasks.map tid, k < s.nextTid
  mine : t < s.nextTid ∧ t ∉ s.tasks.map tid
  inv : Inv s.toTables (fs ++ s.frames)

namespace Running
lemma done (h : s.Running t []) : s.Good := { h with }

lemma tables {d : Tables Name Id} (gs : List (Frame Name Id)) (h : s.Running t fs)
    (hinv : Inv d (gs ++ s.frames)) : Running { s with toTables := d } t gs :=
  { h with inv := hinv }

lemma releaseWriter (h : s.Running t fs) : s.releaseWriter.Running t fs :=
  { h with }

lemma releaseReader (h : s.Running t fs) : s.releaseReader.Running t fs := by
  unfold State.releaseReader
  dsimp only
  split <;> exact { h with }

lemma suspend (h : s.Running t [f]) : (s.suspend t f).Good where
  keys := nodup_cons.mpr ⟨h.mine.2, h.keys⟩
  below k hk := (mem_cons.mp hk).elim (fun e => e ▸ h.mine.1) (h.below k)
  inv := h.inv

lemma spawn (h : s.Running t (f :: fs)) : (s.spawn f).Running t fs where
  keys := nodup_cons.mpr ⟨fun hmem => lt_irrefl _ (h.below _ hmem), h.keys⟩
  below k hk := by
    rcases mem_cons.mp hk with rfl | hk
    · exact Nat.lt_succ_self _
    · exact Nat.lt_succ_of_lt (h.below k hk)
  mine := by
    refine ⟨Nat.lt_succ_of_lt h.mine.1, fun hmem => ?_⟩
    rcases mem_cons.mp hmem with e | hmem
    · exact lt_irrefl _ (e ▸ h.mine.1)
    · exact h.mine.2 hmem
  inv := h.inv.perm perm_middle.symm

lemma spawnAll {cs : List (Frame Name Id)} (h : s.Running t (cs ++ fs)) :
    (cs.foldl State.spawn s).Running t fs := by
  induction cs generalizing s with
  | nil => exact h
  | cons c cs ih => exact ih h.spawn

lemma gather {ch : Id → Frame Name Id} {wait : Nat → Frame Name Id} {ids : List Id}
    (h : s.Running t (ids.map ch ++ [wait ids.length])) : (s.gather t ch wait ids).Good :=
  h.spawnAll.suspend

lemma waitForZero {id : Id} (h : s.Running t [.waitForZero id]) : (s.waitForZero t id).Good := by
  unfold State.waitForZero
  split
  · exact (h.tables [] (h.inv.unload ‹_›)).done
  · exact suspend { h with }
end Running

lemma countOne_good {id : Id} (h : s.Running t []) (hid : id ∈ s.registry.map snd) :
    (s.countOne id).Good := by
  have hmem := h.inv.mem_counters hid
  rw [countOne, if_pos hmem]
  exact (h.tables [] (h.inv.acquireOne hmem)).done

lemma countAll_good {ids : List (Option Id)} (h : s.Running t [])
    (hids : ∀ id ∈ ids.reduceOption, id ∈ s.registry.map snd) : (s.countAll t ids).Good := by
  rw [countAll, if_pos fun id hid => h.inv.mem_counters (hids id hid)]
  split
  · rename_i hnone
    have hsame : s.acquired ids = s := by rw [acquired, hnone, nil_append]
    rw [hsame]
    exact h.done
  · have hinv := h.inv.acquireAll (p := t) (n := ids.reduceOption.length) hids
    refine Running.gather { h with inv := ?_ }
    simpa using hinv

/-- No child still has to count the adapter called `name`. -/
def Counted (s : State Name Id) (name : Name) : Prop :=
  ∀ entry ∈ s.registry, entry.1 = name → ∀ task ∈ s.tasks, task.frame.increments entry.2 = 0

lemma Counted.total {name : Name} (h : s.Counted name) {ent : Name × Id}
    (he : ent ∈ s.registry) (hname : ent.1 = name) : total (increments ent.2) s.frames = 0 := by
  rw [Lora.total, frames, map_map]
  exact sum_eq_zero fun x hx => by
    obtain ⟨task, htask, rfl⟩ := mem_map.mp hx
    exact h ent he hname task htask

lemma runReader_good {op : ReaderOp Id} (h : s.Running t [.reader op]) : (s.runReader t op).Good := by
  have hmem : ∀ id ∈ op.ids, id ∈ s.counters := fun id hid => h.inv.releasing_mem_counters hid
  rcases op with id | ids
  · rw [runReader, if_pos (hmem id (mem_singleton.mpr rfl))]
    have hcount : ∀ i, ((0 : Nat) : Int) = [id].count i + if id = i then -1 else 0 := by
      grind
    have hinv := h.inv.addCount (-1) (fun _ => rfl) hcount (fun _ => rfl) fun _ => rfl
    have hrun : (s.decrement id).Running t [] := { h with inv := hinv }
    exact hrun.releaseReader.done
  rw [runReader, if_pos (by exact hmem)]
  split
  · rename_i hnone
    have hweight : ∀ i, decrements i (.reader (.releaseList ids) : Frame Name Id) = 0 := by
      simp [decrements, ReaderOp.ids, hnone]
    have hinv := h.inv.drop hweight (fun _ => rfl) fun _ => rfl
    exact (h.tables [] hinv).releaseReader.done
  · have hinv := h.inv.releaseAll (p := t) (n := ids.reduceOption.length)
    refine Running.gather { h with inv := ?_ }
    simpa [ReaderOp.ids] using hinv

lemma task?_eq_some (h : s.Good) {task : Task Name Id} (ht : s.task? t = some task) :
    task ∈ s.tasks ∧ task.tid = t :=
  (get?_eq_some h.keys).mp ht

lemma onChildDone_good (h : s.Good) : (s.onChildDone t).Good := by
  unfold onChildDone
  rcases ht : s.task? t with _ | task
  · exact h
  obtain ⟨hmem, rfl⟩ := task?_eq_some h ht
  have hkeys : (update tid task.tid (fun x => { x with frame := x.frame.report })
      s.tasks).map tid = s.tasks.map tid := map_key_update fun _ _ e => e
  refine ⟨hkeys ▸ h.keys, fun k hk => h.below k (hkeys ▸ hk), ?_⟩
  have hperm := (perm_cons_remove h.keys hmem).map frame
  have hperm' := (update_perm (f := fun x => { x with frame := x.frame.report }) h.keys hmem).map frame
  refine ((h.inv.perm hperm).swap ?_ ?_ ?_ ?_ ?_).perm hperm'.symm
  all_goals
    intro i
    cases task.frame <;> rfl

lemma good_start : (start : State Name Id).Good where
  keys := .nil
  below := nofun
  inv := by constructor <;> simp [start, frames, total, Tables.names]

/-- No `KeyError`, and no caller holds an unloaded adapter or has yet to count its release. -/
def Safe (s : State Name Id) : Prop :=
  .keyError ∉ s.raised ∧ ∀ id ∈ s.unloaded, id ∉ s.held ∧ ∀ task ∈ s.tasks, task.frame.decrements id = 0

lemma Good.safe (h : s.Good) : s.Safe := by
  refine ⟨h.inv.no_error.1, fun id hid => ?_⟩
  have hpos := count_pos_iff.mpr hid
  have honce := h.inv.once id
  have hidle := h.inv.idle id (count_eq_zero.mp (by omega))
  refine ⟨count_eq_zero.mp (by omega), fun task htask => ?_⟩
  have hle : task.frame.decrements id ≤ total (decrements id) s.frames :=
    single_le_sum (fun _ _ => zero_le) _ (mem_map_of_mem (mem_map_of_mem htask))
  omega

variable [DecidableEq Name]
omit [DecidableEq Id] in
lemma lookup_spec {name : Name} {registry registry' : List (Name × Id)} {id : Id}
    (hn : (registry.map fst).Nodup) (h : lookup name registry = some (registry', id)) :
    registry'.Perm registry ∧ id ∈ registry.map snd := by
  obtain ⟨ent, hget, he⟩ := Option.map_eq_some_iff.mp h
  obtain ⟨hmem, rfl⟩ := (get?_eq_some hn).mp hget
  obtain ⟨rfl, rfl⟩ := Prod.mk.inj he
  refine ⟨?_, mem_map_of_mem hmem⟩
  exact (perm_append_singleton _ _).trans (perm_cons_remove hn hmem).symm

omit [DecidableEq Id] in
lemma lookupAll_spec (names : List (Option Name)) {registry : List (Name × Id)}
    (hn : (registry.map fst).Nodup) :
    (lookupAll names registry).1.Perm registry ∧ ∀ ids ∈ (lookupAll names registry).2,
      ∀ id ∈ ids.reduceOption, id ∈ registry.map snd := by
  induction names generalizing registry with
  | nil => simp [lookupAll, reduceOption_nil]
  | cons name names ih => ?_
  rcases name with _ | name
  · obtain ⟨hperm, hids⟩ := ih hn
    refine ⟨hperm, fun ids hmem => ?_⟩
    obtain ⟨ids', hids', rfl⟩ := Option.mem_map.mp hmem
    simpa [reduceOption_cons_of_none] using hids ids' hids'
  rw [lookupAll]
  rcases hl : lookup name registry with _ | r
  · simp
  obtain ⟨hperm, hid⟩ := lookup_spec hn hl
  obtain ⟨hperm', hids⟩ := ih (((hperm.map fst).nodup_iff).mpr hn)
  refine ⟨hperm'.trans hperm, fun ids hmem => ?_⟩
  obtain ⟨ids', hids', rfl⟩ := Option.mem_map.mp hmem
  rw [reduceOption_cons_of_some, forall_mem_cons]
  exact ⟨hid, fun id hin => ((hperm.map snd).mem_iff).mp (hids ids' hids' id hin)⟩

lemma runWriter_good {op : WriterOp Name Id} (h : s.Running t [.writer op])
    (hc : ∀ name, op = .unload name → s.Counted name) : (s.runWriter t op).Good := by
  have hnames : (s.registry.map fst).Nodup := h.inv.names_nodup
  have hdrop := h.inv.drop_writer
  have hraise : (s.withTables (·.raise .valueError)).releaseWriter.Good :=
    (h.tables [] hdrop.raise_valueError).releaseWriter.done
  cases op with
  | register name id =>
    by_cases hn : name ∈ s.names
    · simpa [runWriter, withTables, Tables.registerAdapter, hn] using hraise
    · have hreg := (h.tables [] (h.inv.register hn)).releaseWriter.done
      simpa [runWriter, withTables, Tables.registerAdapter, hn] using hreg
  | unload name =>
    rw [runWriter]
    rcases hget : get? fst name s.registry with _ | ent
    · exact hraise
    obtain ⟨hmem, hname⟩ := (get?_eq_some hnames).mp hget
    have hinv := h.inv.unregister hmem hname ((hc name rfl).total hmem hname)
    have hrun := (h.tables [.waitForZero ent.2] hinv).releaseWriter
    have hcounter : ent.2 ∈ s.counters := hinv.waiting_mem_counters
    dsimp only
    rw [waitForUnload, if_pos (by exact hcounter)]
    exact hrun.waitForZero
  | acquire name =>
    rw [runWriter]
    rcases hl : lookup name s.registry with _ | r
    · exact hraise
    obtain ⟨hperm, hid⟩ := lookup_spec hnames hl
    have hrun := (h.tables [] (hdrop.reorder hperm)).releaseWriter
    exact countOne_good hrun (((hperm.map snd).mem_iff).mpr hid)
  | acquireList names =>
    rw [runWriter]
    obtain ⟨hperm, hids⟩ := lookupAll_spec names hnames
    rcases hl : lookupAll names s.registry with ⟨registry, _ | ids⟩
    · rw [hl] at hperm
      exact (h.tables [] (hdrop.reorder hperm).raise_valueError).releaseWriter.done
    rw [hl] at hperm hids
    have hrun := (h.tables [] (hdrop.reorder hperm)).releaseWriter
    exact countAll_good hrun fun id hid =>
      ((hperm.map snd).mem_iff).mpr (hids ids rfl id hid)

lemma resume_good (h : s.Running t [f])
    (hc : ∀ name, f = .writer (.unload name) → s.writable → s.Counted name) : (s.resume t f).Good := by
  have hpark : (s.waitLock t f).Good := Running.suspend { h with }
  cases f with
  | writer op =>
    rw [resume]
    split
    · rename_i hw
      have hrun : s.takeWriter.Running t [.writer op] := { h with }
      exact runWriter_good hrun fun name e => hc name (e ▸ rfl) hw
    · exact hpark
  | reader op =>
    rw [resume]
    split
    · exact hpark
    · have hrun : s.takeReader.Running t [.reader op] := { h with }
      exact runReader_good hrun
  | increment par id => exact ⟨h.keys, h.below, h.inv.addCount 1 (fun _ => rfl)
      (by simp [increments, decrements]) (fun _ => rfl) fun _ => rfl⟩
  | decrement par id => exact ⟨h.keys, h.below, h.inv.addCount (-1) (fun _ => rfl)
      (by grind [increments, decrements]) (fun _ => rfl) fun _ => rfl⟩
  | acquiring ids left => exact ⟨h.keys, h.below, h.inv.returned⟩
  | releasing left =>
    have hinv := h.inv.drop (fun _ => rfl) (fun _ => rfl) fun _ => rfl
    exact (h.tables [] hinv).releaseReader.done
  | waitForZero id => exact h.waitForZero

def unregisters (s : State Name Id) : Event Name Id → Option Name
  | .write (.unload name) => if s.writable then some name else none
  | .tick =>
    match s.ready with
    | .step t :: _ =>
      match (s.task? t).map frame with
      | some (.writer (.unload name)) => if s.writable then some name else none
      | _ => none
    | _ => none
  | _ => none

lemma tick_good (h : s.Good) (hc : ∀ name ∈ s.unregisters .tick, s.Counted name) : s.tick.Good := by
  unfold tick
  split
  · exact h
  · rename_i t rest hready
    rcases ht : s.task? t with _ | task
    · exact { h with }
    obtain ⟨hmem, rfl⟩ := task?_eq_some h ht
    have hperm := perm_cons_remove h.keys hmem
    have hsub : ∀ x ∈ remove tid task.tid s.tasks, x ∈ s.tasks ∧ x.tid ≠ task.tid :=
      fun x hx => mem_remove.mp hx
    apply resume_good
    · refine ⟨nodup_keys_remove h.keys, fun k hk => ?_, ⟨?_, fun hk => ?_⟩, ?_⟩
      · obtain ⟨x, hx, rfl⟩ := mem_map.mp hk
        exact h.below _ (mem_map_of_mem (hsub x hx).1)
      · exact h.below _ (mem_map_of_mem hmem)
      · grind
      · exact h.inv.perm (hperm.map frame)
    intro name hframe hw ent he hname x hx
    refine hc name ?_ ent he hname x (hsub x hx).1
    have hw' : s.writable = true := hw
    simp [unregisters, hready, ht, hframe, hw']
  · exact onChildDone_good { h with }

lemma Good.next (h : s.Good) {e : Event Name Id} (hl : s.Legal e)
    (hc : ∀ name ∈ s.unregisters e, s.Counted name) : (s.next e).Good := by
  have hlt : ∀ k ∈ s.tasks.map tid, k < s.nextTid + 1 :=
    fun k hk => Nat.lt_succ_of_lt (h.below k hk)
  have hmine : s.nextTid < s.nextTid + 1 ∧ s.nextTid ∉ s.tasks.map tid :=
    ⟨Nat.lt_succ_self _, fun hmem => lt_irrefl _ (h.below _ hmem)⟩
  cases e with
  | write op =>
    cases op with
    | register name id =>
      apply resume_good (f := .writer (.register name id))
      · exact ⟨h.keys, hlt, hmine, h.inv.callRegister hl⟩
      · exact nofun
    | unload name =>
      apply resume_good (f := .writer (.unload name))
      · exact ⟨h.keys, hlt, hmine, h.inv.callWriter fun _ => rfl⟩
      · rintro name' ⟨⟩ hw
        have hw' : s.writable = true := hw
        exact hc name (by simp [unregisters, hw'])
    | acquire name | acquireList names =>
      apply resume_good (f := .writer _)
      · exact ⟨h.keys, hlt, hmine, h.inv.callWriter fun _ => rfl⟩
      · exact nofun
  | read op =>
    apply resume_good (f := .reader op)
    · exact ⟨h.keys, hlt, hmine, h.inv.callReader hl⟩
    · exact nofun
  | tick => exact tick_good h hc

/-- Lists that looked an adapter up count it before it is unregistered. -/
def Orderly (s : State Name Id) (e : Event Name Id) : Prop :=
  s.Legal e ∧ ∀ name ∈ s.unregisters e, s.Counted name

instance (s : State Name Id) (name : Name) : Decidable (s.Counted name) :=
  inferInstanceAs (Decidable (∀ entry ∈ s.registry, entry.1 = name → ∀ task ∈ s.tasks,
    task.frame.increments entry.2 = 0))

instance (s : State Name Id) (e : Event Name Id) : Decidable (s.Orderly e) :=
  inferInstanceAs (Decidable (_ ∧ _))

/-- If no adapter is unregistered between a lookup and the step that counts it, none is unloaded in
use. -/
theorem not_unloaded_in_use {past : List (Event Name Id)} (hr : Run next Orderly start past s) :
    s.Safe := by
  refine Good.safe (Run.invariant (I := fun _ s => s.Good) good_start ?_ hr)
  intro _ s e h he
  exact h.next he.1 he.2

def counted : List (Event Nat Nat) :=
  [.write (.register 0 0), .write (.acquireList [some 0]), .tick, .write (.unload 0), .tick, .tick,
    .read (.release 0), .tick]

theorem counted_not_unloaded_in_use :
    (counted.foldl next start).unloaded = [0] ∧ (counted.foldl next start).Safe := by
  have hrun : Run next Orderly start (counted.reverse ++ []) (counted.foldl next start) :=
    Run.of_admitted counted .start (by decide +kernel)
  exact ⟨by decide +kernel, not_unloaded_in_use hrun⟩

def raced : List (Event Nat Nat) :=
  [.write (.register 0 0), .write (.acquireList [some 0]), .write (.unload 0), .tick, .tick, .tick]

/-- The unload returns at once, the list is returned after it, and its release raises. -/
theorem raced_unloaded_in_use : Run next Legal start (raced.reverse ++ []) (raced.foldl next start) ∧
      (raced.foldl next start).unloaded = [0] ∧ (raced.foldl next start).held = [0] ∧
      (raced.foldl next start).Legal (.read (.release 0)) ∧
      .keyError ∈ ((raced.foldl next start).next (.read (.release 0))).raised := by
  refine ⟨Run.of_admitted raced .start (by decide +kernel), ?_⟩
  decide +kernel
end State
end Sglang.Lora
