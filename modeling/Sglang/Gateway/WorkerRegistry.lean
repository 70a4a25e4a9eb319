import Sglang.Lib.Run

/-!
# The indexes of the worker registry

`register`, `remove` and `remove_by_url` change the six maps of `WorkerRegistry` one by one.
-/

namespace Sglang.Gateway
open List Function

structure RegistryWorker (τ γ : Type) where
  url : String
  modelId : String
  workerType : τ
  connectionMode : γ
  deriving DecidableEq

/-- Absent lists of ids are empty; `ρ` is the type of the hash rings. -/
structure WorkerRegistry (τ γ ρ : Type) where
  workers : Nat → Option (RegistryWorker τ γ) := fun _ => none
  urlToId : String → Option Nat := fun _ => none
  modelIndex : String → Option (List (RegistryWorker τ γ)) := fun _ => none
  hashRings : String → Option ρ := fun _ => none
  typeWorkers : τ → List Nat := fun _ => []
  connectionWorkers : γ → List Nat := fun _ => []

/-- A worker that is registered comes with the id that `WorkerId::new` would give it. -/
inductive RegistryOp (τ γ : Type)
  | register (fresh : Nat) (worker : RegistryWorker τ γ)
  | remove (id : Nat)
  | removeByUrl (url : String)

namespace WorkerRegistry
variable {τ γ ρ : Type}

section
variable (ring : List (RegistryWorker τ γ) → ρ) (s : WorkerRegistry τ γ ρ)

def rebuildHashRing (modelId : String) : WorkerRegistry τ γ ρ :=
  { s with hashRings := update s.hashRings modelId ((s.modelIndex modelId).map ring) }

def getByModel (modelId : String) : List (RegistryWorker τ γ) := (s.modelIndex modelId).getD []

def getByType (workerType : τ) : List (RegistryWorker τ γ) :=
  (s.typeWorkers workerType).filterMap s.workers

/-- A new id is not in use. -/
def Admits : RegistryOp τ γ → Prop
  | .register fresh _ => s.workers fresh = none
  | _ => True

/-- No url is registered while it is. -/
def NewUrl : RegistryOp τ γ → Prop
  | .register _ w => s.urlToId w.url = none
  | _ => True

def Registered (w : RegistryWorker τ γ) : Prop := ∃ id, s.workers id = some w

structure IndexesAgree : Prop where
  models : ∀ m w, w ∈ s.getByModel m ↔ s.Registered w ∧ w.modelId = m
  models_once : ∀ m, (s.getByModel m).Nodup
  rings : ∀ m, s.hashRings m = some (ring (s.getByModel m)) ∨ s.hashRings m = none ∧ s.getByModel m = []
  types : ∀ t w, w ∈ s.getByType t ↔ s.Registered w ∧ w.workerType = t
  types_once : ∀ t, (s.getByType t).Nodup

structure Inv : Prop where
  ids : ∀ url id, s.urlToId url = some id ↔ ∃ w, s.workers id = some w ∧ w.url = url
  models : ∀ m w, w ∈ s.getByModel m ↔ s.Registered w ∧ w.modelId = m
  models_once : ∀ m, (s.getByModel m).Nodup
  rings : ∀ m, s.hashRings m = (s.modelIndex m).map ring
  types : ∀ t id, id ∈ s.typeWorkers t ↔ ∃ w, s.workers id = some w ∧ w.workerType = t
  types_once : ∀ t, (s.typeWorkers t).Nodup
end

section
variable [DecidableEq τ] [DecidableEq γ] (ring : List (RegistryWorker τ γ) → ρ)
  (s : WorkerRegistry τ γ ρ)

def register (fresh : Nat) (w : RegistryWorker τ γ) : WorkerRegistry τ γ ρ :=
  -- A known url keeps its id, but the lists grow all the same.
  let id := (s.urlToId w.url).getD fresh
  let indexed := rebuildHashRing ring
    { s with
      workers := update s.workers id (some w)
      urlToId := update s.urlToId w.url (some id)
      modelIndex := update s.modelIndex w.modelId (some ((s.modelIndex w.modelId).getD [] ++ [w])) }
    w.modelId
  { indexed with
    typeWorkers := update s.typeWorkers w.workerType (s.typeWorkers w.workerType ++ [id])
    connectionWorkers :=
      update s.connectionWorkers w.connectionMode (s.connectionWorkers w.connectionMode ++ [id]) }

def remove (id : Nat) : WorkerRegistry τ γ ρ :=
  match s.workers id with
  | none => s
  | some w =>
    let indexed := rebuildHashRing ring
      { s with
        workers := update s.workers id none
        urlToId := update s.urlToId w.url none
        modelIndex := update s.modelIndex w.modelId
          ((s.modelIndex w.modelId).map fun ws => ws.filter (·.url != w.url)) }
      w.modelId
    { indexed with
      typeWorkers := update s.typeWorkers w.workerType ((s.typeWorkers w.workerType).filter (· != id))
      connectionWorkers := update s.connectionWorkers w.connectionMode
        ((s.connectionWorkers w.connectionMode).filter (· != id)) }

def removeByUrl (url : String) : WorkerRegistry τ γ ρ :=
  match s.urlToId url with
  | none => s
  | some id => remove ring { s with urlToId := update s.urlToId url none } id

def next : RegistryOp τ γ → WorkerRegistry τ γ ρ
  | .register fresh w => s.register ring fresh w
  | .remove id => s.remove ring id
  | .removeByUrl url => s.removeByUrl ring url
end

variable {ring : List (RegistryWorker τ γ) → ρ} {s : WorkerRegistry τ γ ρ} {fresh id : Nat}
  {w : RegistryWorker τ γ}

lemma inv_empty : Inv ring ({} : WorkerRegistry τ γ ρ) := by
  constructor <;> simp [getByModel, Registered]

variable (h : Inv ring s)
include h

lemma Inv.inj {id' : Nat} {w' : RegistryWorker τ γ} (hw : s.workers id = some w)
    (hw' : s.workers id' = some w') (hurl : w.url = w'.url) : id = id' ∧ w = w' := by
  have hid := (h.ids w.url id).mpr ⟨w, hw, rfl⟩
  rw [(h.ids w.url id').mpr ⟨w', hw', hurl.symm⟩] at hid
  cases hid
  exact ⟨rfl, Option.some.inj (hw.symm.trans hw')⟩

lemma Inv.indexesAgree : IndexesAgree ring s where
  models := h.models
  models_once := h.models_once
  rings m := by
    rw [h.rings, getByModel]
    cases s.modelIndex m with
    | none => exact .inr ⟨rfl, rfl⟩
    | some ws => exact .inl rfl
  types t w := by
    simp only [getByType, mem_filterMap, h.types, Registered]
    grind
  types_once t := by
    refine (h.types_once t).filterMap fun id id' w hw hw' => ?_
    exact (h.inj hw hw' rfl).1

omit h

variable [DecidableEq τ] [DecidableEq γ]
include h

lemma Inv.register (hid : s.workers fresh = none)
    (hurl : s.urlToId w.url = none) : Inv ring (s.register ring fresh w) := by
  have hnew : ∀ v, s.Registered v → v.url ≠ w.url := fun v ⟨id, hv⟩ he => by
    rw [(h.ids w.url id).mpr ⟨v, hv, he⟩] at hurl
    cases hurl
  generalize hs : s.register ring fresh w = s'
  simp only [WorkerRegistry.register, rebuildHashRing, hurl, Option.getD_none] at hs
  have hmodel : ∀ m, s'.getByModel m =
      if m = w.modelId then s.getByModel m ++ [w] else s.getByModel m := by
    intro m
    simp only [← hs, getByModel, update_apply]
    split <;> simp_all
  have hreg : ∀ v, s'.Registered v ↔ v = w ∨ s.Registered v := by
    intro v
    simp only [Registered, ← hs, update_apply]
    grind
  refine ⟨fun url id => ?_, fun m v => ?_, fun m => ?_, fun m => ?_, fun t id => ?_, fun t => ?_⟩
  · simp only [← hs, update_apply]
    grind [h.ids url id]
  · rw [hmodel, hreg]
    grind [h.models m v]
  · rw [hmodel]
    grind [h.models_once m, h.models m w]
  · simp only [← hs, update_apply]
    grind [h.rings m]
  · simp only [← hs, update_apply]
    grind [h.types t id]
  · simp only [← hs, update_apply]
    grind [h.types_once t, h.types t fresh]

lemma Inv.remove (id : Nat) : Inv ring (s.remove ring id) := by
  rcases hw : s.workers id with _ | w
  · rw [WorkerRegistry.remove, hw]
    exact h
  generalize hs : s.remove ring id = s'
  simp only [WorkerRegistry.remove, hw, rebuildHashRing] at hs
  have hmodel : ∀ m, s'.getByModel m =
      if m = w.modelId then (s.getByModel m).filter (·.url != w.url) else s.getByModel m := by
    intro m
    simp only [← hs, getByModel, update_apply]
    split
    · subst m
      cases s.modelIndex w.modelId <;> rfl
    · rfl
  have hreg : ∀ v, s'.Registered v ↔ s.Registered v ∧ v.url ≠ w.url := by
    intro v
    simp only [Registered, ← hs, update_apply]
    grind [h.inj]
  refine ⟨fun url i => ?_, fun m v => ?_, fun m => ?_, fun m => ?_, fun t i => ?_, fun t => ?_⟩
  · simp only [← hs, update_apply]
    grind [h.ids url i, h.inj]
  · rw [hmodel, hreg]
    grind [h.models m v, h.inj, Registered]
  · rw [hmodel]
    grind [h.models_once m]
  · simp only [← hs, update_apply]
    grind [h.rings m]
  · simp only [← hs, update_apply]
    grind [h.types t i]
  · simp only [← hs, update_apply]
    grind [h.types_once t]

lemma Inv.removeByUrl (url : String) : Inv ring (s.removeByUrl ring url) := by
  rw [WorkerRegistry.removeByUrl]
  split
  case h_1 => exact h
  case h_2 id hid =>
    -- `remove` takes the url out of the map once more.
    obtain ⟨w, hw, rfl⟩ := (h.ids url id).mp hid
    have hremove := h.remove id
    simp only [WorkerRegistry.remove, hw] at hremove ⊢
    rwa [update_idem]

lemma Inv.next {op : RegistryOp τ γ} (ha : s.Admits op) (hn : s.NewUrl op) :
    Inv ring (s.next ring op) := by
  cases op with
  | register fresh w => exact h.register ha hn
  | remove id => exact h.remove id
  | removeByUrl url => exact h.removeByUrl url

omit h

/-- As long as no url is registered twice, the indexes agree in every state. -/
theorem indexes_agree (ring : List (RegistryWorker τ γ) → ρ) (past : List (RegistryOp τ γ))
    (s : WorkerRegistry τ γ ρ)
    (hr : Run (next ring) (fun s op => s.Admits op ∧ s.NewUrl op) {} past s) :
    IndexesAgree ring s :=
  (hr.invariant (I := fun _ s => Inv ring s) inv_empty fun _ _ _ h hok => h.next hok.1 hok.2)
    |>.indexesAgree

theorem indexes_agree_replaced : ∃ s : WorkerRegistry Bool Bool Nat,
      IndexesAgree length s ∧ s.getByType true = [⟨"b", "m", true, true⟩] := by
  refine ⟨_, indexes_agree length _ _ (Run.start.of_admitted
    [.register 0 ⟨"a", "m", true, true⟩, .register 1 ⟨"b", "m", true, true⟩, .removeByUrl "a"] ?_),
    rfl⟩
  exact ⟨⟨rfl, rfl⟩, ⟨rfl, rfl⟩, ⟨trivial, trivial⟩, trivial⟩

/-- A worker that is registered again is listed twice. -/
theorem registered_twice_listed_twice :
    ∃ s : WorkerRegistry Bool Bool Nat,
      Run (next length) Admits {} [.register 1 ⟨"a", "m", true, true⟩,
        .register 0 ⟨"a", "m", true, true⟩] s ∧
      s.getByModel "m" = [⟨"a", "m", true, true⟩, ⟨"a", "m", true, true⟩] ∧
      ¬ IndexesAgree length s :=
  ⟨_, .step _ (.step _ .start rfl) rfl, rfl, fun h => absurd (h.models_once "m") (by decide)⟩
end WorkerRegistry

/-! ## The hash ring -/

def virtualNodesPerWorker : Nat := 150

/-- Positions of virtual nodes and of keys: all that the ring sees of the hash. -/
structure RingHash where
  vnodePosition : String → Nat → UInt64
  hashPosition : String → UInt64

/-- No two virtual nodes of these workers share a position. -/
def RingHash.Spreads (hash : RingHash) (workers : List String) : Prop :=
  ∀ u ∈ workers, ∀ v ∈ workers, ∀ i < virtualNodesPerWorker, ∀ j < virtualNodesPerWorker,
    hash.vnodePosition u i = hash.vnodePosition v j → u = v ∧ i = j

namespace HashRing
variable (hash : RingHash) (workers : List String) (key : String) (healthy : String → Bool)

def vnodes : List (UInt64 × String) :=
  workers.flatMap fun url =>
    (range virtualNodesPerWorker).map fun vnode => (hash.vnodePosition url vnode, url)

/-- `HashRing::new`, which reads nothing but the urls of the workers. -/
def entries : List (UInt64 × String) := (vnodes hash workers).mergeSort fun a b => a.1 ≤ b.1

def walk : List String → List String → Option String
  | _, [] => none
  | checkedUrls, url :: rest =>
    if url ∈ checkedUrls then walk checkedUrls rest
    else if healthy url then some url
    else walk (url :: checkedUrls) rest

/-- The entries are visited clockwise from the first at or after the key, with wrap-around. -/
def findHealthyUrl (entries : List (UInt64 × String)) : Option String :=
  if entries.isEmpty then none
  else
    let start := (entries.takeWhile fun e => e.1 < hash.hashPosition key).length
    walk healthy [] ((entries.rotate start).map (·.2))

/-- The worker that a key goes to on a new ring. -/
def route : Option String := findHealthyUrl hash key healthy (entries hash workers)

/-- The entries from position `k` on, then those before it. -/
def clockwise (k : UInt64) (l : List (UInt64 × String)) : List (UInt64 × String) :=
  l.filter (k ≤ ·.1) ++ l.filter (·.1 < k)

variable {hash key healthy} {ws : List String} {w : String}
  {l : List (UInt64 × String)} {ws' : List String} {k : UInt64}

/-- A url that was checked before is not healthy, so skipping it changes nothing. -/
lemma walk_eq_find? {checkedUrls : List String} (hc : ∀ u ∈ checkedUrls, healthy u = false)
    (urls : List String) : walk healthy checkedUrls urls = urls.find? healthy := by
  induction urls generalizing checkedUrls with
  | nil => rfl
  | cons url rest ih =>
    rw [walk]
    split_ifs with hmem hu
    · rw [ih hc, find?_cons_of_neg (by simp [hc url hmem])]
    · rw [find?_cons_of_pos hu]
    · rw [ih (by grind), find?_cons_of_neg hu]

lemma sorted_split (hl : l.Pairwise (·.1 ≤ ·.1)) :
    l.takeWhile (·.1 < k) = l.filter (·.1 < k) ∧ l.dropWhile (·.1 < k) = l.filter (k ≤ ·.1) := by
  induction hl with
  | nil => exact ⟨rfl, rfl⟩
  | @cons e l he _ ih => ?_
  by_cases hk : e.1 < k
  · simp [hk, ih, UInt64.not_le.mpr hk]
  · have hge : k ≤ e.1 := UInt64.not_lt.mp hk
    have hlater : ∀ e' ∈ l, k ≤ e'.1 := fun e' h => UInt64.le_trans hge (he e' h)
    have hnone : l.filter (·.1 < k) = [] := filter_eq_nil_iff.mpr (by simpa using hlater)
    have hall : l.filter (k ≤ ·.1) = l := filter_eq_self.mpr (by simpa using hlater)
    simp [hk, hge, hnone, hall]

lemma rotate_sorted (hl : l.Pairwise (·.1 ≤ ·.1)) :
    l.rotate (l.takeWhile (·.1 < k)).length = clockwise k l := by
  have hrot := rotate_append_length_eq (l.takeWhile (·.1 < k)) (l.dropWhile (·.1 < k))
  rw [takeWhile_append_dropWhile] at hrot
  rw [hrot, (sorted_split hl).1, (sorted_split hl).2, clockwise]

lemma entries_sorted (hash : RingHash) (ws : List String) : (entries hash ws).Pairwise (·.1 ≤ ·.1) := by
  refine (pairwise_mergeSort (fun a b c hab hbc => ?_) (fun a b => ?_) _).imp of_decide_eq_true
  · simp only [decide_eq_true_eq] at *
    exact UInt64.le_trans hab hbc
  · simpa using UInt64.le_total a.1 b.1

lemma route_eq (hash : RingHash) (ws : List String) (key : String) (healthy : String → Bool) :
    route hash ws key healthy =
      ((clockwise (hash.hashPosition key) (entries hash ws)).map (·.2)).find? healthy := by
  rw [route, findHealthyUrl]
  split_ifs with he
  · rw [isEmpty_iff.mp he]
    rfl
  · rw [walk_eq_find? (by simp), rotate_sorted (entries_sorted hash ws)]

lemma mem_entries {e : UInt64 × String} : e ∈ entries hash ws ↔
    e.2 ∈ ws ∧ ∃ i < virtualNodesPerWorker, hash.vnodePosition e.2 i = e.1 := by
  simp only [entries, mem_mergeSort, vnodes, mem_flatMap, mem_map, mem_range]
  grind

lemma route_eq_some {u : String} (h : route hash ws key healthy = some u) : u ∈ ws ∧ healthy u := by
  rw [route_eq] at h
  refine ⟨?_, find?_some h⟩
  obtain ⟨e, he, rfl⟩ := mem_map.mp (mem_of_find?_eq_some h)
  have : e ∈ entries hash ws := by
    simp only [clockwise, mem_append, mem_filter] at he
    tauto
  exact (mem_entries.mp this).1

lemma route_isSome : (route hash ws key healthy).isSome ↔ ∃ u ∈ ws, healthy u := by
  refine ⟨fun h => ?_, fun ⟨u, hu, hh⟩ => ?_⟩
  · obtain ⟨u, hu⟩ := Option.isSome_iff_exists.mp h
    exact ⟨u, route_eq_some hu⟩
  · have he : (hash.vnodePosition u 0, u) ∈ entries hash ws :=
      mem_entries.mpr ⟨hu, 0, by decide, rfl⟩
    rw [route_eq, find?_isSome]
    refine ⟨u, mem_map.mpr ⟨(hash.vnodePosition u 0, u), ?_, rfl⟩, hh⟩
    simp [clockwise, he, UInt64.le_or_lt]

/-- Rejecting `w` changes the first choice only if it was `w`. -/
lemma find?_reject {urls : List String} (h : urls.find? healthy ≠ some w) :
    urls.find? (fun u => u != w && healthy u) = urls.find? healthy := by
  induction urls with
  | nil => rfl
  | cons u rest ih => grind

lemma route_unhealthy (h : route hash ws key healthy ≠ some w) :
    route hash ws key (fun u => u != w && healthy u) = route hash ws key healthy := by
  simp only [route_eq] at *
  exact find?_reject h

variable (hs : hash.Spreads ws)
include hs

/-- Distinct positions leave one way to sort the entries. -/
lemma entries_unique (hl : l.Pairwise (·.1 ≤ ·.1)) (hp : l ~ vnodes hash ws) : l = entries hash ws := by
  have hperm : l ~ entries hash ws := hp.trans (mergeSort_perm _ _).symm
  refine hperm.eq_of_pairwise (fun a b ha hb hab hba => ?_) hl (entries_sorted hash ws)
  obtain ⟨hau, i, hi, hai⟩ := mem_entries.mp (hperm.subset ha)
  obtain ⟨hbu, j, hj, hbj⟩ := mem_entries.mp hb
  have hpos : a.1 = b.1 := UInt64.le_antisymm hab hba
  exact Prod.ext hpos (hs _ hau _ hbu i hi j hj (by rw [hai, hbj, hpos])).1

lemma entries_perm (hp : ws' ~ ws) : entries hash ws' = entries hash ws :=
  entries_unique hs (entries_sorted hash ws') ((mergeSort_perm ..).trans (hp.flatMap_right _))

/-- Without a worker, the ring is the old one with that worker's entries left out. -/
lemma entries_remove (hw : w ∉ ws) : (entries hash (w :: ws)).filter (·.2 != w) = entries hash ws := by
  refine entries_unique hs ((entries_sorted hash _).filter _) ?_
  refine ((mergeSort_perm ..).filter _).trans (.of_eq ?_)
  rw [vnodes, flatMap_cons, filter_append, filter_eq_nil_iff.mpr (by simp), nil_append]
  refine filter_eq_self.mpr fun e he => ?_
  have := mem_entries.mp ((mergeSort_perm ..).mem_iff.mpr he)
  grind

/-- Leaving a worker out of the ring is the same as calling it unhealthy. -/
lemma route_remove (hw : w ∉ ws) :
    route hash ws key healthy = route hash (w :: ws) key (fun u => u != w && healthy u) := by
  have hc (k : UInt64) (l : List (UInt64 × String)) :
      clockwise k (l.filter (·.2 != w)) = (clockwise k l).filter (·.2 != w) := by
    simp only [clockwise, filter_append, filter_filter, Bool.and_comm]
  rw [route_eq, route_eq, ← entries_remove hs hw, hc, find?_map, find?_map, find?_filter]
  simp only [Bool.decide_and, Bool.decide_eq_true]
  rfl

lemma route_perm (hp : ws' ~ ws) : route hash ws' key healthy = route hash ws key healthy := by
  rw [route, route, entries_perm hs hp]

omit hs

lemma route_add (hs : hash.Spreads (w :: ws)) (hw : w ∉ ws)
    (hne : route hash (w :: ws) key healthy ≠ route hash ws key healthy) :
    route hash (w :: ws) key healthy = some w := by
  by_contra hnot
  have hs' : hash.Spreads ws := fun u hu v hv => hs u (.tail _ hu) v (.tail _ hv)
  exact hne (by rw [route_remove hs' hw, route_unhealthy hnot])

/-- The choice is a healthy worker if there is one; a worker that is added draws keys only to
itself, one that is removed or unhealthy loses only its own; the order of the list is no matter. -/
theorem consistent_hashing (hash : RingHash) {ws : List String} (hn : ws.Nodup)
    (hs : hash.Spreads ws) (key : String) (healthy : String → Bool) :
    (∀ u, route hash ws key healthy = some u → u ∈ ws ∧ healthy u) ∧
    ((route hash ws key healthy).isSome ↔ ∃ u ∈ ws, healthy u) ∧
    (∀ w ∉ ws, hash.Spreads (w :: ws) →
      route hash (w :: ws) key healthy ≠ route hash ws key healthy →
      route hash (w :: ws) key healthy = some w) ∧
    (∀ w ∈ ws, route hash (ws.erase w) key healthy ≠ route hash ws key healthy →
      route hash ws key healthy = some w) ∧
    (∀ w, route hash ws key (fun u => u != w && healthy u) ≠
      route hash ws key healthy → route hash ws key healthy = some w) ∧
    ∀ ws', ws' ~ ws → route hash ws' key healthy = route hash ws key healthy := by
  refine ⟨fun _ => route_eq_some, route_isSome, fun w hw hs' => route_add hs' hw,
    fun w hw hne => ?_, fun w => not_imp_comm.mp route_unhealthy, fun _ => route_perm hs⟩
  have hp : w :: ws.erase w ~ ws := (perm_cons_erase hw).symm
  rw [← route_perm hs hp] at hne ⊢
  exact route_add (by grind [RingHash.Spreads, hp.mem_iff]) hn.not_mem_erase hne.symm

theorem consistent_hashing_two_workers :
    ∃ hash : RingHash, (route hash ["a", "b"] "key" fun u => u == "b").isSome := by
  refine ⟨⟨fun u i => .ofNat (if u = "a" then 2 * i else 2 * i + 1), fun _ => 0⟩,
    (consistent_hashing _ (by decide) ?_ ..).2.1.mpr ⟨"b", by decide⟩⟩
  intro u hu v hv i hi j hj h
  have hpos := congrArg UInt64.toNat h
  simp [virtualNodesPerWorker] at *
  grind
end HashRing
end Sglang.Gateway
