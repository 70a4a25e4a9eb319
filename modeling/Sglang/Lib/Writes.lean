import Mathlib

/-!
# Writes to a memory

A memory is a function from addresses.
-/

namespace Sglang
open List Function
variable {κ ν : Type} [DecidableEq κ] {ws : List (κ × ν)}

def writeAll (b : κ → ν) (ws : List (κ × ν)) : κ → ν :=
  ws.foldl (fun b w => Function.update b w.1 w.2) b

lemma writeAll_append (b : κ → ν) (ws ws' : List (κ × ν)) :
    writeAll b (ws ++ ws') = writeAll (writeAll b ws) ws' :=
  foldl_append

lemma writeAll_of_notMem {b : κ → ν} {a : κ} (h : ∀ w ∈ ws, w.1 ≠ a) : writeAll b ws a = b a := by
  induction ws generalizing b with
  | nil => rfl
  | cons w ws ih =>
    refine (ih fun w hw => h w (mem_cons_of_mem _ hw)).trans ?_
    exact update_of_ne (h w mem_cons_self).symm _ _

lemma writeAll_of_mem {b : κ → ν} {a : κ} {x : ν} (hmem : (a, x) ∈ ws)
    (h : ∀ w ∈ ws, w.1 = a → w.2 = x) : writeAll b ws a = x := by
  induction ws generalizing b with
  | nil => exact absurd hmem not_mem_nil
  | cons w ws ih => ?_
  rw [writeAll, foldl_cons]
  by_cases hin : ∃ w' ∈ ws, w'.1 = a
  · obtain ⟨w', hw', ha⟩ := hin
    have hx := h w' (mem_cons_of_mem _ hw') ha
    refine ih ?_ fun w hw => h w (mem_cons_of_mem _ hw)
    rwa [show (a, x) = w' from Prod.ext ha.symm hx.symm]
  have hw : w = (a, x) := by
    grind
  refine (writeAll_of_notMem fun w' hw' heq => hin ⟨w', hw', heq⟩).trans ?_
  rw [hw, update_self]

/-! ## Writes that a list of items gives rise to, each item at a key of its own -/

section
variable {ι : Type} {items : List ι} {key : ι → κ} {val : ι → ν} {b : κ → ν}

lemma writeAll_map_of_mem (hn : (items.map key).Nodup) {i : ι} (hi : i ∈ items) :
    writeAll b (items.map fun i => (key i, val i)) (key i) = val i := by
  refine writeAll_of_mem (mem_map.mpr ⟨i, hi, rfl⟩) fun w hw hk => ?_
  obtain ⟨j, hj, rfl⟩ := mem_map.mp hw
  exact congrArg val (inj_on_of_nodup_map hn hj hi hk)

lemma writeAll_map_of_notMem {k : κ} (h : k ∉ items.map key) :
    writeAll b (items.map fun i => (key i, val i)) k = b k := by
  refine writeAll_of_notMem fun w hw hk => h ?_
  grind
end

lemma writeAll_const (b : κ → ν) (x : ν) (keys : List κ) (k : κ) :
    writeAll b (keys.map fun k => (k, x)) k = if k ∈ keys then x else b k := by
  by_cases hk : k ∈ keys
  · rw [if_pos hk]
    refine writeAll_of_mem (mem_map.mpr ⟨k, hk, rfl⟩) fun w hw _ => ?_
    obtain ⟨j, -, rfl⟩ := mem_map.mp hw
    rfl
  · rw [if_neg hk]
    refine writeAll_of_notMem fun w hw e => hk ?_
    grind

/-! ## Writes within a region -/

def Confined (region : κ → Prop) (b b' : κ → ν) : Prop := ∀ i, ¬region i → b' i = b i

section
variable {region : κ → Prop} {b b' b'' : κ → ν}
omit [DecidableEq κ] in
lemma Confined.refl (b : κ → ν) : Confined region b b := fun _ _ => rfl

omit [DecidableEq κ] in
lemma Confined.trans (h : Confined region b b') (h' : Confined region b' b'') :
    Confined region b b'' := fun i hi => (h' i hi).trans (h i hi)

lemma Confined.update (b : κ → ν) {i : κ} (hi : region i) (x : ν) :
    Confined region b (update b i x) := by
  intro j hj
  exact update_of_ne (fun e : j = i => hj (e ▸ hi)) _ _

lemma Confined.writeAll (b : κ → ν) {ws : List (κ × ν)} (h : ∀ w ∈ ws, region w.1) :
    Confined region b (writeAll b ws) :=
  fun _ hi => writeAll_of_notMem fun w hw e => hi (e ▸ h w hw)
end

/-! ## Names, places, and moves between places

Two tables say at which place the thing with a given name lies, and whose place a given place is.
-/

variable {V P : Type} {xs : List Int} {a : Int}

def Inverse (place : V → Option P) (name : P → Option V) : Prop :=
  ∀ v p, place v = some p ↔ name p = some v

def readAt {α : Type} (place : V → Option P) (data : P → α) (v : V) : Option α := (place v).map data

structure Move (V P : Type) where
  name : V
  src : P
  dst : P

lemma zip_map_comm {W : Type} (f : V → W) :
    ∀ (vs : List V) (ps : List P), ps.zip (vs.map f) = (vs.zip ps).map fun w => (w.2, f w.1)
  | [], _ => by simp
  | _ :: _, [] => rfl
  | v :: vs, p :: ps => by simp [zip_map_comm f vs ps]

namespace Inverse
variable {place : V → Option P} {name : P → Option V}

lemma place_none (h : Inverse place name) {p : P} (hp : name p = none) (v : V) : place v ≠ some p := by
  intro hv
  rw [(h v p).mp hv] at hp
  exact Option.some_ne_none v hp

variable [DecidableEq V] [DecidableEq P]

lemma bind (h : Inverse place name) {ws : List (V × P)} (hv : (ws.map Prod.fst).Nodup)
    (hp : (ws.map Prod.snd).Nodup) (hv0 : ∀ w ∈ ws, place w.1 = none)
    (hp0 : ∀ w ∈ ws, name w.2 = none) :
    Inverse (writeAll place (ws.map fun w => (w.1, some w.2)))
      (writeAll name (ws.map fun w => (w.2, some w.1))) := by
  intro v p
  by_cases hvw : v ∈ ws.map Prod.fst
  · obtain ⟨w, hw, rfl⟩ := mem_map.mp hvw
    rw [writeAll_map_of_mem hv hw]
    constructor
    · intro e
      cases e
      exact writeAll_map_of_mem hp hw
    intro e
    by_cases hpw : p ∈ ws.map Prod.snd
    · obtain ⟨w', hw', rfl⟩ := mem_map.mp hpw
      rw [writeAll_map_of_mem hp hw'] at e
      rw [inj_on_of_nodup_map hv hw' hw (Option.some.inj e)]
    · rw [writeAll_map_of_notMem hpw, ← h, hv0 w hw] at e
      cases e
  rw [writeAll_map_of_notMem hvw]
  by_cases hpw : p ∈ ws.map Prod.snd
  · obtain ⟨w, hw, rfl⟩ := mem_map.mp hpw
    rw [writeAll_map_of_mem hp hw]
    constructor
    · exact fun e => absurd e (h.place_none (hp0 w hw) v)
    grind
  · rw [writeAll_map_of_notMem hpw]
    exact h v p

lemma unbind (h : Inverse place name) {vs : List V} {ps : List P}
    (hvs : ∀ v ∈ vs, ∃ p ∈ ps, place v = some p) (hps : ∀ p ∈ ps, ∃ v ∈ vs, place v = some p) :
    Inverse (writeAll place (vs.map fun v => (v, none))) (writeAll name (ps.map fun p => (p, none))) := by
  intro v p
  rw [writeAll_const, writeAll_const]
  by_cases hv : v ∈ vs <;> by_cases hp : p ∈ ps
  · simp [hv, hp]
  · rw [if_pos hv, if_neg hp, ← h]
    grind
  · rw [if_neg hv, if_pos hp]
    obtain ⟨u, hu, e⟩ := hps p hp
    refine ⟨fun e' => absurd ?_ hv, nofun⟩
    rw [h] at e e'
    rw [e] at e'
    exact Option.some.inj e' ▸ hu
  · rw [if_neg hv, if_neg hp]
    exact h v p
end Inverse

/-! ## Moves -/

section
variable [DecidableEq V] [DecidableEq P]

def movedPlace (place : V → Option P) (ms : List (Move V P)) : V → Option P :=
  writeAll place (ms.map fun m => (m.name, some m.dst))

def movedName (name : P → Option V) (ms : List (Move V P)) : P → Option V :=
  writeAll (writeAll name (ms.map fun m => (m.dst, some m.name))) (ms.map fun m => (m.src, none))

/-- Moves that can be made at once: each from the place of its name to an unused place. -/
structure Relocation (place : V → Option P) (name : P → Option V) (ms : List (Move V P)) : Prop where
  at_src : ∀ m ∈ ms, place m.name = some m.src
  unused : ∀ m ∈ ms, name m.dst = none
  srcs_nodup : (ms.map Move.src).Nodup
  dsts_nodup : (ms.map Move.dst).Nodup

variable {place : V → Option P} {name : P → Option V} {ms : List (Move V P)}

namespace Relocation
lemma movedName_other (hs : p ∉ ms.map Move.src) (hd : p ∉ ms.map Move.dst) :
    movedName name ms p = name p := by
  rw [movedName, writeAll_map_of_notMem hs, writeAll_map_of_notMem hd]

lemma movedPlace_other {v : V} (hv : v ∉ ms.map Move.name) : movedPlace place ms v = place v :=
  writeAll_map_of_notMem hv

variable (h : Relocation place name ms)
include h

lemma names_nodup : (ms.map Move.name).Nodup := by
  refine Nodup.map_on ?_ (Nodup.of_map _ h.srcs_nodup)
  intro m hm m' hm' e
  refine inj_on_of_nodup_map h.srcs_nodup hm hm' (Option.some.inj ?_)
  rw [← h.at_src m hm, ← h.at_src m' hm', e]

omit h

variable {m : Move V P} {p : P}
include h

variable (hi : Inverse place name)
include hi

lemma dst_notMem_srcs (hm : m ∈ ms) : m.dst ∉ ms.map Move.src := by
  intro hd
  obtain ⟨m', hm', e⟩ := mem_map.mp hd
  exact hi.place_none (h.unused m hm) m'.name (e ▸ h.at_src m' hm')

omit hi
omit h

lemma movedName_src (hp : p ∈ ms.map Move.src) : movedName name ms p = none := by
  obtain ⟨m, hm, rfl⟩ := mem_map.mp hp
  refine writeAll_of_mem (mem_map.mpr ⟨m, hm, rfl⟩) fun w hw _ => ?_
  obtain ⟨m', -, rfl⟩ := mem_map.mp hw
  rfl

include h
include hi

lemma movedName_dst (hm : m ∈ ms) : movedName name ms m.dst = some m.name := by
  rw [movedName, writeAll_map_of_notMem (h.dst_notMem_srcs hi hm)]
  exact writeAll_map_of_mem h.dsts_nodup hm

omit hi
lemma movedPlace_name (hm : m ∈ ms) : movedPlace place ms m.name = some m.dst :=
  writeAll_map_of_mem h.names_nodup hm

lemma movedPlace_ne_none (v : V) : movedPlace place ms v ≠ none ↔ place v ≠ none := by
  by_cases hv : v ∈ ms.map Move.name
  · obtain ⟨m, hm, rfl⟩ := mem_map.mp hv
    rw [h.movedPlace_name hm, h.at_src m hm]
    simp
  · rw [movedPlace_other hv]

include hi

lemma movedName_eq_none (p : P) :
    movedName name ms p = none ↔ p ∈ ms.map Move.src ∨ name p = none ∧ p ∉ ms.map Move.dst := by
  by_cases hs : p ∈ ms.map Move.src
  · exact iff_of_true (movedName_src hs) (.inl hs)
  by_cases hd : p ∈ ms.map Move.dst
  · obtain ⟨m, hm, rfl⟩ := mem_map.mp hd
    rw [h.movedName_dst hi hm]
    simp [hs, hd]
  · rw [movedName_other hs hd]
    simp [hs, hd]

lemma inverse : Inverse (movedPlace place ms) (movedName name ms) := by
  intro v p
  by_cases hv : v ∈ ms.map Move.name
  · obtain ⟨m, hm, rfl⟩ := mem_map.mp hv
    rw [h.movedPlace_name hm]
    constructor
    · intro e
      cases e
      exact h.movedName_dst hi hm
    intro e
    by_cases hs : p ∈ ms.map Move.src
    · rw [movedName_src hs] at e
      cases e
    by_cases hd : p ∈ ms.map Move.dst
    · obtain ⟨m', hm', rfl⟩ := mem_map.mp hd
      rw [h.movedName_dst hi hm'] at e
      rw [inj_on_of_nodup_map h.names_nodup hm' hm (Option.some.inj e)]
    · -- the name's own place is a source
      rw [movedName_other hs hd, ← hi, h.at_src m hm] at e
      exact absurd (mem_map.mpr ⟨m, hm, Option.some.inj e⟩) hs
  rw [movedPlace_other hv]
  by_cases hs : p ∈ ms.map Move.src
  · obtain ⟨m, hm, rfl⟩ := mem_map.mp hs
    rw [movedName_src hs]
    refine ⟨fun e => absurd ?_ hv, nofun⟩
    have := h.at_src m hm
    rw [hi] at this e
    grind
  by_cases hd : p ∈ ms.map Move.dst
  · obtain ⟨m, hm, rfl⟩ := mem_map.mp hd
    rw [h.movedName_dst hi hm]
    refine ⟨fun e => absurd e (hi.place_none (h.unused m hm) v), fun e => absurd ?_ hv⟩
    exact mem_map.mpr ⟨m, hm, Option.some.inj e⟩
  · rw [movedName_other hs hd]
    exact hi v p

lemma readAt_eq {α : Type} (data : P → α) (v : V) :
    readAt (movedPlace place ms) (writeAll data (ms.map fun m => (m.dst, data m.src))) v =
      readAt place data v := by
  by_cases hv : v ∈ ms.map Move.name
  · obtain ⟨m, hm, rfl⟩ := mem_map.mp hv
    rw [readAt, h.movedPlace_name hm, readAt, h.at_src m hm, Option.map_some, Option.map_some,
      writeAll_map_of_mem h.dsts_nodup hm]
  rw [readAt, movedPlace_other hv, readAt]
  rcases hp : place v with _ | p
  · rfl
  rw [Option.map_some, Option.map_some, writeAll_map_of_notMem]
  intro hd
  obtain ⟨m, hm, rfl⟩ := mem_map.mp hd
  exact hi.place_none (h.unused m hm) v hp
end Relocation
end

/-! ## Holes in a band -/

lemma length_le_of_mem_Ico (hn : xs.Nodup) {b : Int} (h : ∀ x ∈ xs, a ≤ x ∧ x < b) :
    xs.length ≤ (b - a).toNat := by
  rw [← toFinset_card_of_nodup hn, ← Int.card_Ico]
  refine Finset.card_le_card fun x hx => ?_
  rw [Finset.mem_Ico]
  exact h x (mem_toFinset.mp hx)

lemma le_length_of_Ico_subset {b : Int} (h : ∀ x, a ≤ x → x < b → x ∈ xs) :
    (b - a).toNat ≤ xs.length := by
  rw [← Int.card_Ico]
  refine (Finset.card_le_card fun x hx => ?_).trans xs.toFinset_card_le
  rw [Finset.mem_Ico] at hx
  exact mem_toFinset.mpr (h x hx.1 hx.2)

/-- The holes of a band of `w` places, all of them beyond the places in use. -/
structure Packed (w : Int) (holes : List Int) : Prop where
  nodup : holes.Nodup
  mem_band : ∀ h ∈ holes, 0 ≤ h ∧ h < w
  beyond : ∀ x, 0 ≤ x → x < w → x ∉ holes → ∀ h ∈ holes, x < h

namespace Packed
variable {w : Int} {holes : List Int}

lemma used_lt (hp : Packed w holes) {x : Int} (h0 : 0 ≤ x) (hw : x < w) (hx : x ∉ holes) :
    x < w - holes.length := by
  have := length_le_of_mem_Ico hp.nodup
    fun h hh => ⟨Int.add_one_le_of_lt (hp.beyond x h0 hw hx h hh), (hp.mem_band h hh).2⟩
  omega

lemma le_hole (hp : Packed w holes) {h : Int} (hh : h ∈ holes) : w - holes.length ≤ h := by
  have hband := hp.mem_band h hh
  have hall : ∀ x, h ≤ x → x < w → x ∈ holes := by
    intro x hx hxw
    by_contra hu
    have := hp.beyond x (hband.1.trans hx) hxw hu h hh
    omega
  have := le_length_of_Ico_subset hall
  omega
end Packed
end Sglang
