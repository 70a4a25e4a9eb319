import Mathlib

/-!
# Lists of records with distinct keys

A table is a list of records; `key` names each of them, and no two have the same name.
-/

namespace Sglang.Keyed
open List
variable {α κ : Type} [DecidableEq κ] (key : α → κ)

def remove (k : κ) (xs : List α) : List α := xs.filter fun x => key x ≠ k

def update (k : κ) (f : α → α) (xs : List α) : List α := xs.map fun x => if key x = k then f x else x

def get? (k : κ) (xs : List α) : Option α := xs.find? fun x => key x = k

variable {key} {k : κ} {f : α → α} {xs : List α} {x y : α} {g : α → α} {β : Type}

lemma mem_remove : x ∈ remove key k xs ↔ x ∈ xs ∧ key x ≠ k := by simp [remove]

lemma remove_of_not_mem (h : ∀ x ∈ xs, key x ≠ k) : remove key k xs = xs :=
  filter_eq_self.mpr fun x hx => by simpa using h x hx

lemma update_of_not_mem (h : ∀ x ∈ xs, key x ≠ k) : update key k f xs = xs := by
  conv_rhs => rw [← map_id xs]
  exact map_congr_left fun x hx => by simp [h x hx]

section
variable (h : (xs.map key).Nodup)
include h

lemma nodup_keys_remove : ((remove key k xs).map key).Nodup :=
  h.sublist (Sublist.map key filter_sublist)

lemma perm_cons_remove (hy : y ∈ xs) : xs.Perm (y :: remove key (key y) xs) := by
  induction xs with
  | nil => cases hy
  | cons x xs ih => ?_
  rw [map_cons, nodup_cons] at h
  rcases mem_cons.mp hy with rfl | hmem
  · have hrest : ∀ z ∈ xs, key z ≠ key y := fun z hz e => h.1 (e ▸ mem_map_of_mem hz)
    rw [remove, filter_cons_of_neg (by simp), ← remove, remove_of_not_mem hrest]
  · have hne : key x ≠ key y := fun e => h.1 (e ▸ mem_map_of_mem hmem)
    rw [remove, filter_cons_of_pos (by simpa using hne), ← remove]
    exact ((ih h.2 hmem).cons x).trans (.swap ..)

lemma update_perm (hy : y ∈ xs) : (update key (key y) f xs).Perm (f y :: remove key (key y) xs) := by
  have hperm := (perm_cons_remove h hy).map fun x => if key x = key y then f x else x
  rw [map_cons, if_pos rfl] at hperm
  refine hperm.trans (Perm.of_eq ?_)
  congr 1
  exact update_of_not_mem fun x hx => (mem_remove.mp hx).2

lemma mem_update (hy : y ∈ xs) : x ∈ update key (key y) f xs ↔ x = f y ∨ (x ∈ xs ∧ key x ≠ key y) := by
  rw [(update_perm h hy).mem_iff, mem_cons, mem_remove]

lemma get?_key (hx : x ∈ xs) : get? key (key x) xs = some x := by
  rcases hf : get? key (key x) xs with _ | y
  · have := find?_eq_none.mp hf x hx
    simp at this
  have hk : key y = key x := by simpa using find?_some hf
  rw [inj_on_of_nodup_map h (mem_of_find?_eq_some hf) hx hk]

lemma get?_eq_some : get? key k xs = some x ↔ x ∈ xs ∧ key x = k := by
  constructor
  · intro hf
    exact ⟨mem_of_find?_eq_some hf, by simpa using find?_some hf⟩
  · rintro ⟨hx, rfl⟩
    exact get?_key h hx
end

lemma get?_eq_none : get? key k xs = none ↔ ∀ x ∈ xs, key x ≠ k := by
  simp [get?, find?_eq_none]

lemma sum_eq [AddCommMonoid β] (g : α → β) (h : (xs.map key).Nodup) (hy : y ∈ xs) :
    (xs.map g).sum = g y + ((remove key (key y) xs).map g).sum := by
  rw [((perm_cons_remove h hy).map g).sum_eq, map_cons, sum_cons]

lemma sum_update [AddCommMonoid β] (g : α → β) (h : (xs.map key).Nodup) (hy : y ∈ xs) :
    ((update key (key y) f xs).map g).sum = g (f y) + ((remove key (key y) xs).map g).sum := by
  rw [((update_perm h hy).map g).sum_eq, map_cons, sum_cons]

lemma map_key_update (hf : ∀ x ∈ xs, key x = k → key (f x) = k) :
    (update key k f xs).map key = xs.map key := by
  rw [update, map_map]
  refine map_congr_left fun x hx => ?_
  grind

lemma get?_update {j : κ} (hf : ∀ x, key x = k → key (f x) = k) :
    get? key j (update key k f xs) = if j = k then (get? key j xs).map f else get? key j xs := by
  induction xs with
  | nil => simp [get?, update]
  | cons x xs ih => ?_
  rw [update, map_cons, ← update, get?, get?, find?_cons, find?_cons, ← get?, ← get?, ih]
  by_cases hx : key x = k
  · rw [if_pos hx, hf x hx, hx]
    by_cases hj : j = k
    · simp [hj]
    · simp [hj, Ne.symm hj]
  rw [if_neg hx]
  by_cases hj : j = k
  · simp [hj, hx]
  · simp [hj]

lemma update_congr (h : ∀ x ∈ xs, key x = k → f x = g x) : update key k f xs = update key k g xs := by
  refine map_congr_left fun x hx => ?_
  split
  · exact h x hx ‹_›
  · rfl

lemma update_update (hg : ∀ x, key x = k → key (g x) = k) :
    update key k f (update key k g xs) = update key k (fun x => f (g x)) xs := by
  rw [update, update, update, map_map]
  refine map_congr_left fun x _ => ?_
  grind

lemma remove_update (hf : ∀ x, key (f x) = k) : remove key k (update key k f xs) = remove key k xs := by
  induction xs with
  | nil => rfl
  | cons x xs ih =>
    rw [update, map_cons, ← update, remove, remove, filter_cons, filter_cons, ← remove, ← remove, ih]
    grind

lemma foldl_update_perm (olds : List α) {news : List α} (h : (xs.map key).Nodup)
    (hsub : ∀ y ∈ olds, y ∈ xs) (hnd : (olds.map key).Nodup)
    (hkey : List.Forall₂ (fun o n => key n = key o) olds news) :
    ∃ rest, xs.Perm (olds ++ rest) ∧
      (news.foldl (fun xs n => update key (key n) (fun _ => n) xs) xs).Perm (news ++ rest) := by
  induction hkey generalizing xs with
  | nil => exact ⟨xs, .refl _, .refl _⟩
  | @cons o n olds news hon _ ih => ?_
  rw [map_cons, nodup_cons] at hnd
  rw [forall_mem_cons] at hsub
  have hne : ∀ y ∈ olds, key y ≠ key o := fun y hy e => hnd.1 (e ▸ mem_map_of_mem hy)
  have hupd := update_perm (f := fun _ => n) h hsub.1
  have hkeys : (update key (key o) (fun _ => n) xs).map key = xs.map key :=
    map_key_update fun _ _ _ => hon
  obtain ⟨rest', hxs, hfold⟩ := ih (hkeys ▸ h)
    (fun y hy => (mem_update h hsub.1).mpr (.inr ⟨hsub.2 y hy, hne y hy⟩)) hnd.2
  -- the new record is among the rest, which the later ones leave alone
  have hmem : n ∈ rest' := by
    have : n ∈ olds ++ rest' := hxs.mem_iff.mp ((mem_update h hsub.1).mpr (.inl rfl))
    refine (mem_append.mp this).resolve_left fun hn => hne n hn hon
  obtain ⟨s, t, rfl⟩ := append_of_mem hmem
  have hcut : (n :: (olds ++ (s ++ t))).Perm (olds ++ (s ++ n :: t)) :=
    (perm_middle.symm.trans (perm_middle.symm.append_left olds))
  refine ⟨s ++ t, ?_, ?_⟩
  · refine (perm_cons_remove h hsub.1).trans (Perm.cons o ?_)
    exact (hupd.symm.trans (hxs.trans hcut.symm)).cons_inv
  · rw [foldl_cons, hon]
    refine hfold.trans ?_
    exact (perm_middle.append_left news).trans perm_middle
end Sglang.Keyed
