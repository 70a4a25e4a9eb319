import Sglang.Lib.Run

/-!
# The length buckets of the gateway

Each worker takes the requests of one range of lengths.
-/

namespace Sglang.Gateway
open List
open Prod (fst snd)

def usizeMax : Nat := 2 ^ 64 - 1

def checkedAdd (x y : Nat) : Option Nat := if x + y ≤ usizeMax then some (x + y) else none

def checkedSub (x y : Nat) : Option Nat := if y ≤ x then some (x - y) else none

def saturatingAdd (x y : Nat) : Nat := min (x + y) usizeMax

/-- A worker and its range of lengths, both ends included. -/
structure Boundary where
  url : String
  lo : Nat
  hi : Nat
  deriving DecidableEq

structure SequencerRequest where
  id : Nat
  charCnt : Nat
  timestamp : Nat
  prefillWorkerUrl : String
  deriving DecidableEq

structure Bucket where
  lMax : Nat := 4096
  bucketCnt : Nat := 0
  prefillWorkerUrls : List String := []
  loadTotal : Nat := 0
  period : Nat
  bucketLoad : Nat := 0
  boundary : List Boundary := []
  requestList : List SequencerRequest := []
  tReqLoads : List (Nat × Nat) := []
  charsPerUrl : String → Option Nat := fun _ => none

namespace Bucket
/-- The range of the worker at index `i` of `cnt`. -/
def initRange (gap cnt : Nat) (u : String × Nat) : Option Boundary := do
  let hi ← if u.2 = cnt - 1 then some usizeMax else checkedSub ((u.2 + 1) * gap) 1
  return ⟨u.1, u.2 * gap, hi⟩

variable (b : Bucket) (url : String)

def initPrefillWorkerUrls (urls : List String) : Option Bucket := do
  let b := { b with
    bucketCnt := urls.length
    prefillWorkerUrls := urls
    charsPerUrl := fun url => if url ∈ urls then some 0 else none }
  if urls = [] then return { b with boundary := [] }
  let boundary ← urls.zipIdx.mapM (initRange (b.lMax / urls.length) urls.length)
  return { b with lMax := usizeMax, boundary := boundary }

def addPrefillUrl : Option Bucket :=
  b.initPrefillWorkerUrls (if url ∈ b.prefillWorkerUrls then b.prefillWorkerUrls
    else b.prefillWorkerUrls ++ [url])

def removePrefillUrl : Option Bucket :=
  let urls := b.prefillWorkerUrls.filter (· ≠ url)
  let b := { b with
    prefillWorkerUrls := urls
    charsPerUrl := fun u => if u = url then none else b.charsPerUrl u
    bucketCnt := urls.length }
  if 0 < urls.length then b.initPrefillWorkerUrls urls else some b

/-- A request leaves the window at the front when it is too old or the clock has gone back. -/
def expired (period now : Nat) (r : SequencerRequest) : Bool :=
  decide (now < r.timestamp) || decide (period < now - r.timestamp)

def postProcessRequest (charCnt : Nat) (url : String) (now id : Nat) : Option Bucket := do
  let count ← checkedAdd ((b.charsPerUrl url).getD 0) charCnt
  let gone := b.requestList.takeWhile (expired b.period now)
  let removed ← gone.foldlM (fun sum r => checkedAdd sum r.charCnt) 0
  let chars := gone.foldl
    (fun chars r u => if u = r.prefillWorkerUrl then (chars u).map (· - r.charCnt) else chars u)
    fun u => if u = url then some count else b.charsPerUrl u
  return { b with
    charsPerUrl := chars
    loadTotal := saturatingAdd (b.loadTotal - removed) charCnt
    tReqLoads := (b.tReqLoads.filter fun p => p.1 ≠ id ∧ p.1 ∉ gone.map (·.id)) ++ [(id, charCnt)]
    requestList := b.requestList.dropWhile (expired b.period now) ++ [⟨id, charCnt, now, url⟩] }

/-- The binary search of `find_boundary` between two indices. -/
def search (bs : List Boundary) (charCount : Nat) : Nat → Nat → Nat → Option String
  | 0, _, _ => none
  | fuel + 1, left, right =>
    if left < right then
      let mid := left + (right - left) / 2
      match bs[mid]? with
      | none => none
      | some b =>
        if charCount < b.lo then search bs charCount fuel left mid
        else if b.hi < charCount then search bs charCount fuel (mid + 1) right
        else some b.url
    else none

def findBoundary (charCount : Nat) : Option String :=
  search b.boundary charCount (b.boundary.length + 1) 0 b.boundary.length

/-- The load that fills the bucket, and the later loads; `none` if none does. -/
def fill (single : Nat) : Nat → List Nat → Option (Option (Nat × List Nat))
  | _, [] => some none
  | acc, load :: loads => do
    let acc ← checkedAdd acc load
    if single ≤ acc then return some (load, loads) else fill single acc loads

/-- The ranges of the workers from `upper` on. -/
def cut (single : Nat) : Nat → List Nat → List String → Option (List Boundary)
  | _, _, [] => some []
  | upper, loads, [url] => do
    if loads ≠ [] then
      if (← fill single 0 loads).isNone then
        let _ ← checkedAdd upper single
    return [⟨url, upper, usizeMax⟩]
  | upper, loads, url :: urls => do
    let full ← fill single 0 loads
    let real ← checkedAdd upper single
    let hi := match full with
      | some (load, _) => if load ≤ upper then real else load
      | none => real
    let upper' ← checkedAdd hi 1
    return ⟨url, upper, hi⟩ :: (← cut single upper' (full.elim [] snd) urls)

def updateWorkersCnt : Bucket :=
  { b with
    bucketCnt := b.prefillWorkerUrls.length
    charsPerUrl := fun u =>
      if u ∈ b.prefillWorkerUrls then some ((b.charsPerUrl u).getD 0)
      else if b.charsPerUrl u = some 0 then none else b.charsPerUrl u }

def adjustBoundary : Option Bucket := do
  if b.tReqLoads = [] then return b
  let b := b.updateWorkersCnt
  if b.bucketCnt = 0 then return b
  let single := b.loadTotal / b.bucketCnt
  let old := b.bucketLoad
  if single ≤ (← checkedAdd old old) then
    if old ≤ (← checkedAdd single single) ∧ old ≠ 0 then return b
  let boundary ← cut single 0 ((b.tReqLoads.map snd).insertionSort (· ≤ ·)) b.prefillWorkerUrls
  return { b with bucketLoad := single, boundary := boundary }
end Bucket

inductive BucketEvent where
  | init (urls : List String)
  | add (url : String)
  | remove (url : String)
  | route (charCnt : Nat) (url : String) (now id : Nat)
  | adjust

namespace Bucket
def step (b : Bucket) : BucketEvent → Option Bucket
  | .init urls => b.initPrefillWorkerUrls urls
  | .add url => b.addPrefillUrl url
  | .remove url => b.removePrefillUrl url
  | .route charCnt url now id => b.postProcessRequest charCnt url now id
  | .adjust => b.adjustBoundary

def next (s : Option Bucket) (e : BucketEvent) : Option Bucket := s.bind fun b => b.step e

/-- No more workers than the maximum that is divided; the last worker stays; the loads leave room in
`usize`. -/
def Fits (b : Bucket) : BucketEvent → Prop
  | .init urls => urls.Nodup ∧ urls.length ≤ b.lMax
  | .add _ => b.prefillWorkerUrls.length + 1 ≤ b.lMax
  | .remove url => b.prefillWorkerUrls.length ≤ b.lMax ∧
    (b.prefillWorkerUrls.filter (· ≠ url) = [] → b.prefillWorkerUrls = [])
  | .route charCnt url _ _ => (b.charsPerUrl url).getD 0 + charCnt ≤ usizeMax ∧
    (b.requestList.map (·.charCnt)).sum ≤ usizeMax
  | .adjust => 2 * ((b.tReqLoads.map snd).sum + b.loadTotal + b.bucketLoad +
      b.prefillWorkerUrls.length + 1) ≤ usizeMax

instance (b : Bucket) : DecidablePred b.Fits := fun e => by
  cases e <;> unfold Fits <;> infer_instance

/-- The ranges follow each other from `lo` to the largest length. -/
def Tiles : Nat → List Boundary → Prop
  | lo, [] => lo = usizeMax + 1
  | lo, b :: bs => b.lo = lo ∧ b.lo ≤ b.hi ∧ Tiles (b.hi + 1) bs

/-- Each current worker has one range, and the ranges are all lengths. -/
structure Partitioned (b : Bucket) : Prop where
  lMax_le : b.lMax ≤ usizeMax
  nodup : b.prefillWorkerUrls.Nodup
  urls : b.boundary.map Boundary.url = b.prefillWorkerUrls
  tiles : b.prefillWorkerUrls ≠ [] → Tiles 0 b.boundary

variable {b : Bucket} {bs : List Boundary} {x lo : Nat}

/-! ## Looking a length up -/

lemma search_holds {url : String} (fuel left right : Nat) (h : search bs x fuel left right = some url) :
    ∃ range ∈ bs, range.lo ≤ x ∧ x ≤ range.hi ∧ range.url = url := by
  induction fuel generalizing left right with
  | zero => cases h
  | succ fuel ih => ?_
  rw [search] at h
  split at h
  swap
  · cases h
  dsimp only at h
  split at h
  · cases h
  next c hc =>
    split_ifs at h with hlo hhi
    · exact ih _ _ h
    · exact ih _ _ h
    · exact ⟨c, mem_of_getElem? hc, not_lt.mp hlo, not_lt.mp hhi, Option.some.inj h⟩

section
variable (h : Tiles lo bs)
include h

lemma Tiles.exists_index (hlo : lo ≤ x) (hx : x ≤ usizeMax) :
    ∃ k : Nat, ∃ b : Boundary, bs[k]? = some b ∧ b.lo ≤ x ∧ x ≤ b.hi := by
  induction bs generalizing lo with
  | nil =>
    have : lo = usizeMax + 1 := h
    omega
  | cons b bs ih =>
    obtain ⟨rfl, -, h⟩ := h
    by_cases hb : x ≤ b.hi
    · exact ⟨0, b, rfl, hlo, hb⟩
    · obtain ⟨k, b', hk, hb'⟩ := ih h (by omega)
      exact ⟨k + 1, b', by simpa using hk, hb'⟩

lemma Tiles.le_lo {k : Nat} {b : Boundary} (hk : bs[k]? = some b) : lo ≤ b.lo ∧ b.lo ≤ b.hi := by
  induction bs generalizing lo k with
  | nil => simp at hk
  | cons b' bs ih => ?_
  obtain ⟨rfl, hle, h⟩ := h
  cases k with
  | zero =>
    obtain rfl : b' = b := by simpa using hk
    exact ⟨le_rfl, hle⟩
  | succ k =>
    have := ih h (by simpa using hk)
    omega

lemma Tiles.hi_lt {i k : Nat} {b b' : Boundary} (hi : bs[i]? = some b)
    (hk : bs[k]? = some b') (hlt : i < k) : b.hi < b'.lo := by
  induction bs generalizing lo i k with
  | nil => simp at hi
  | cons c bs ih => ?_
  obtain ⟨-, -, h⟩ := h
  obtain ⟨k, rfl⟩ := Nat.exists_eq_succ_of_ne_zero (ne_zero_of_lt hlt)
  have hk : bs[k]? = some b' := by simpa using hk
  cases i with
  | zero =>
    obtain rfl : c = b := by simpa using hi
    exact (h.le_lo hk).1
  | succ i => exact ih h (by simpa using hi) hk (by omega)

lemma search_eq {k : Nat} {b : Boundary} (hk : bs[k]? = some b) (hlo : b.lo ≤ x)
    (hhi : x ≤ b.hi) (fuel left right : Nat) (hl : left ≤ k) (hr : k < right) (hlen : right ≤ bs.length)
    (hf : right - left < fuel) : search bs x fuel left right = some b.url := by
  induction fuel generalizing left right with
  | zero => omega
  | succ fuel ih => ?_
  have hmid : left + (right - left) / 2 < bs.length := by omega
  simp only [search, if_pos (hl.trans_lt hr), getElem?_eq_getElem hmid]
  have hm := getElem?_eq_getElem hmid
  generalize bs[left + (right - left) / 2] = m at hm
  have hle := (h.le_lo hm).2
  rcases lt_trichotomy (left + (right - left) / 2) k with hlt | heq | hgt
  · have := h.hi_lt hm hk hlt
    rw [if_neg (by omega), if_pos (by omega)]
    exact ih _ right (by omega) hr hlen (by omega)
  · obtain rfl : m = b := Option.some.inj (by rw [← hm, heq, hk])
    rw [if_neg (by omega), if_neg (by omega)]
  · have := h.hi_lt hk hm hgt
    rw [if_pos (by omega)]
    exact ih left _ hl hgt (by omega) (by omega)
end

lemma Tiles.findBoundary_eq_some {b : Bucket} (h : Tiles lo b.boundary) (url : String) :
    b.findBoundary x = some url ↔
      ∃ range ∈ b.boundary, range.lo ≤ x ∧ x ≤ range.hi ∧ range.url = url := by
  constructor
  · exact search_holds _ _ _
  · rintro ⟨range, hmem, hlo, hhi, rfl⟩
    obtain ⟨k, hk⟩ := mem_iff_getElem?.mp hmem
    have hlt := (List.getElem?_eq_some_iff.mp hk).1
    exact search_eq h hk hlo hhi _ 0 _ zero_le hlt le_rfl (by omega)

lemma Partitioned.findBoundary (h : Partitioned b) :
    (b.prefillWorkerUrls = [] → ∀ x, b.findBoundary x = none) ∧
    (b.prefillWorkerUrls ≠ [] → ∀ x ≤ usizeMax, ∃ url ∈ b.prefillWorkerUrls,
      b.findBoundary x = some url) := by
  constructor
  · intro he x
    have hnil : b.boundary = [] := by simpa [he] using h.urls
    simp [Bucket.findBoundary, search, hnil]
  intro hne x hx
  obtain ⟨k, c, hk, hlo, hhi⟩ := (h.tiles hne).exists_index (Nat.zero_le x) hx
  have hmem := mem_of_getElem? hk
  refine ⟨c.url, ?_, ((h.tiles hne).findBoundary_eq_some _).mpr ⟨c, hmem, hlo, hhi, rfl⟩⟩
  rw [← h.urls]
  exact mem_map.mpr ⟨c, hmem, rfl⟩

/-! ## Building the ranges -/

lemma checkedAdd_eq {x y : Nat} (h : x + y ≤ usizeMax) : checkedAdd x y = some (x + y) := if_pos h

lemma initRange_spec {gap cnt : Nat} (hgap : 0 < gap) (hmax : cnt * gap ≤ usizeMax)
    (urls : List String) (k : Nat) (hk : k + urls.length = cnt) :
    ∃ bs, (urls.zipIdx k).mapM (initRange gap cnt) = some bs ∧ bs.map Boundary.url = urls ∧
      (urls ≠ [] → Tiles (k * gap) bs) := by
  induction urls generalizing k with
  | nil => exact ⟨[], rfl, rfl, fun h => absurd rfl h⟩
  | cons url urls ih => ?_
  rw [length_cons] at hk
  obtain ⟨bs, hbs, hmap, htiles⟩ := ih (k + 1) (by omega)
  have hle : k * gap ≤ cnt * gap := Nat.mul_le_mul_right _ (by omega)
  by_cases hlast : k = cnt - 1
  · obtain rfl : urls = [] := length_eq_zero_iff.mp (by omega)
    exact ⟨[⟨url, k * gap, usizeMax⟩], by simp [initRange, hlast], rfl,
      fun _ => ⟨rfl, hle.trans hmax, rfl⟩⟩
  have hpos : 1 ≤ (k + 1) * gap := Nat.mul_pos (Nat.succ_pos k) hgap
  have hne : urls ≠ [] := fun e => by simp [e] at hk; omega
  have hmul : (k + 1) * gap = k * gap + gap := Nat.succ_mul k gap
  refine ⟨⟨url, k * gap, (k + 1) * gap - 1⟩ :: bs, ?_, by simp [hmap], fun _ => ⟨rfl, ?_, ?_⟩⟩
  · simp [zipIdx_cons, initRange, hlast, checkedSub, hpos, hbs]
  · simp only
    omega
  · simp only [Nat.sub_add_cancel hpos]
    exact htiles hne

lemma init_spec (h : b.lMax ≤ usizeMax) {urls : List String} (hnd : urls.Nodup)
    (hlen : urls.length ≤ b.lMax) : ∃ b', b.initPrefillWorkerUrls urls = some b' ∧ Partitioned b' := by
  by_cases hnil : urls = []
  · subst hnil
    exact ⟨_, rfl, h, hnd, rfl, fun hne => absurd rfl hne⟩
  have hpos : 0 < urls.length := length_pos_iff.mpr hnil
  obtain ⟨bs, hbs, hmap, htiles⟩ := initRange_spec (Nat.div_pos hlen hpos)
    ((Nat.mul_div_le ..).trans h) urls 0 (zero_add _)
  refine ⟨{ b with
    bucketCnt := urls.length
    prefillWorkerUrls := urls
    charsPerUrl := fun url => if url ∈ urls then some 0 else none
    lMax := usizeMax
    boundary := bs }, ?_, le_rfl, hnd, hmap, fun hne => by simpa using htiles hne⟩
  simp only [initPrefillWorkerUrls, if_neg hnil, hbs]
  rfl

lemma fill_spec (single acc : Nat) (loads : List Nat) (h : acc + loads.sum ≤ usizeMax) :
    ∃ r, fill single acc loads = some r ∧ ∀ load rest, r = some (load, rest) →
      load ∈ loads ∧ rest ⊆ loads ∧ rest.sum ≤ loads.sum := by
  induction loads generalizing acc with
  | nil => exact ⟨none, rfl, nofun⟩
  | cons x loads ih => ?_
  rw [sum_cons] at h
  rw [sum_cons, fill, checkedAdd_eq (by omega)]
  by_cases hs : single ≤ acc + x
  · refine ⟨some (x, loads), by simp [hs], fun load rest e => ?_⟩
    cases e
    exact ⟨mem_cons_self, subset_cons_self .., Nat.le_add_left ..⟩
  obtain ⟨r, hr, hspec⟩ := ih (acc + x) (by omega)
  refine ⟨r, by simpa [hs] using hr, fun load rest e => ?_⟩
  obtain ⟨hm, hsub, hsum⟩ := hspec load rest e
  exact ⟨mem_cons_of_mem _ hm, fun y hy => mem_cons_of_mem _ (hsub hy), hsum.trans (Nat.le_add_left ..)⟩

/-- `room` bounds the loads and the start; each worker but the last takes at most `single + 1` of it. -/
lemma cut_spec (single : Nat) (urls : List String) (upper room : Nat) (loads : List Nat)
    (hupper : upper ≤ room) (hloads : ∀ load ∈ loads, load < room)
    (hroom : room + (single + 1) * urls.length ≤ usizeMax) (hsum : loads.sum ≤ usizeMax) :
    ∃ bs, cut single upper loads urls = some bs ∧ bs.map Boundary.url = urls ∧
      (urls ≠ [] → Tiles upper bs) := by
  induction urls generalizing upper room loads with
  | nil => exact ⟨[], by simp [cut], rfl, fun h => absurd rfl h⟩
  | cons url urls ih => ?_
  obtain ⟨r, hr, hspec⟩ := fill_spec single 0 loads (by omega)
  rw [length_cons, Nat.mul_succ] at hroom
  have hreal := checkedAdd_eq (x := upper) (y := single) (by omega)
  rcases urls with _ | ⟨url', urls⟩
  · refine ⟨[⟨url, upper, usizeMax⟩], ?_, rfl, fun _ => ⟨rfl, by simp only; omega, rfl⟩⟩
    by_cases hl : loads = [] <;> cases r <;> simp [cut, hl, hr, hreal]
  -- where the range ends, and what is left for the others
  have hnext : ∃ hi rest, cut single upper loads (url :: url' :: urls) =
      (do return ⟨url, upper, hi⟩ :: (← cut single (hi + 1) rest (url' :: urls))) ∧
      upper ≤ hi ∧ hi ≤ room + single ∧ rest ⊆ loads ∧ rest.sum ≤ loads.sum := by
    rcases r with _ | p
    · refine ⟨upper + single, [], ?_, by omega, by omega, nofun, zero_le⟩
      simp [cut, hr, hreal, checkedAdd_eq (x := upper + single) (y := 1) (by omega)]
    obtain ⟨hm, hsub, hle⟩ := hspec p.1 p.2 rfl
    have hload := hloads p.1 hm
    by_cases hp : p.1 ≤ upper
    · refine ⟨upper + single, p.2, ?_, by omega, by omega, hsub, hle⟩
      simp [cut, hr, hreal, hp, checkedAdd_eq (x := upper + single) (y := 1) (by omega)]
    · refine ⟨p.1, p.2, ?_, by omega, by omega, hsub, hle⟩
      simp [cut, hr, hreal, hp, checkedAdd_eq (x := p.1) (y := 1) (by omega)]
  obtain ⟨hi, rest, hcut, hlo, hhi, hsub, hle⟩ := hnext
  obtain ⟨bs, hbs, hmap, htiles⟩ := ih (hi + 1) (room + single + 1) rest (by omega)
    (fun load hm => by have := hloads load (hsub hm); omega) (by omega) (by omega)
  rw [hcut, hbs]
  exact ⟨_, rfl, by simp [hmap], fun _ => ⟨rfl, hlo, htiles (cons_ne_nil _ _)⟩⟩

lemma adjust_spec (h : Partitioned b) (hfit : b.Fits .adjust) :
    ∃ b', b.adjustBoundary = some b' ∧ Partitioned b' := by
  unfold Fits at hfit
  unfold adjustBoundary
  by_cases hempty : b.tReqLoads = []
  · exact ⟨b, by simp [hempty], h⟩
  simp only [if_neg hempty]
  set u := b.updateWorkersCnt
  have hpart : Partitioned u := ⟨h.lMax_le, h.nodup, h.urls, h.tiles⟩
  by_cases hcnt : u.bucketCnt = 0
  · exact ⟨u, by simp [hcnt], hpart⟩
  simp only [if_neg hcnt]
  have hsort := perm_insertionSort (· ≤ ·) (b.tReqLoads.map snd)
  have hdiv : u.loadTotal / u.bucketCnt * u.bucketCnt ≤ u.loadTotal := Nat.div_mul_le_self _ _
  have hle : u.loadTotal / u.bucketCnt ≤ u.loadTotal := Nat.div_le_self _ _
  have hload : u.loadTotal = b.loadTotal := rfl
  have hlen : u.bucketCnt = b.prefillWorkerUrls.length := rfl
  obtain ⟨bs, hbs, hmap, htiles⟩ := cut_spec (u.loadTotal / u.bucketCnt) u.prefillWorkerUrls 0
    ((b.tReqLoads.map snd).sum + 1) _ zero_le
    (fun load hm => Nat.lt_succ_of_le
      (single_le_sum (fun _ _ => zero_le) _ (hsort.mem_iff.mp hm)))
    (by
      change _ + (u.loadTotal / u.bucketCnt + 1) * u.bucketCnt ≤ _
      rw [Nat.succ_mul]
      omega)
    (by rw [hsort.sum_eq]; omega)
  have hnew : Partitioned { u with bucketLoad := u.loadTotal / u.bucketCnt, boundary := bs } :=
    ⟨h.lMax_le, h.nodup, hmap, htiles⟩
  have hold := checkedAdd_eq (x := u.bucketLoad) (y := u.bucketLoad) (by
    change b.bucketLoad + b.bucketLoad ≤ _
    omega)
  have hsingle := checkedAdd_eq (x := u.loadTotal / u.bucketCnt) (y := u.loadTotal / u.bucketCnt)
    (by omega)
  have htr : u.tReqLoads = b.tReqLoads := rfl
  simp only [hold, hsingle, htr, hbs, Option.pure_def, Option.bind_eq_bind, Option.bind_some]
  split
  · split
    · exact ⟨u, rfl, hpart⟩
    · exact ⟨_, rfl, hnew⟩
  · exact ⟨_, rfl, hnew⟩

lemma foldlM_add (l : List SequencerRequest) (acc : Nat)
    (h : acc + (l.map (·.charCnt)).sum ≤ usizeMax) :
    ∃ n, l.foldlM (fun sum r => checkedAdd sum r.charCnt) acc = some n := by
  induction l generalizing acc with
  | nil => exact ⟨acc, rfl⟩
  | cons r l ih =>
    rw [map_cons, sum_cons] at h
    obtain ⟨n, hn⟩ := ih (acc + r.charCnt) (by omega)
    exact ⟨n, by simpa [checkedAdd_eq (x := acc) (y := r.charCnt) (by omega)] using hn⟩

lemma Partitioned.step (h : Partitioned b) (e : BucketEvent) (he : b.Fits e) :
    ∃ b', b.step e = some b' ∧ Partitioned b' := by
  cases e with
  | init urls => exact init_spec h.lMax_le he.1 he.2
  | add url =>
    have he : b.prefillWorkerUrls.length + 1 ≤ b.lMax := he
    refine init_spec h.lMax_le ?_ ?_
    · split
      · exact h.nodup
      next hnot => exact h.nodup.append (nodup_singleton _) (by simpa using hnot)
    · split
      · omega
      · simpa using he
  | remove url =>
    simp only [Bucket.step, removePrefillUrl]
    split
    · have hlen := length_filter_le (fun u => decide (u ≠ url)) b.prefillWorkerUrls
      exact init_spec h.lMax_le (h.nodup.filter _) (hlen.trans he.1)
    next hzero =>
      have hnil : b.prefillWorkerUrls.filter (· ≠ url) = [] := by
        simpa [pos_iff_ne_zero] using hzero
      have hurls := h.urls
      rw [he.2 hnil] at hurls
      exact ⟨_, rfl, h.lMax_le, h.nodup.filter _, hurls.trans hnil.symm, fun hne => absurd hnil hne⟩
  | route charCnt url now id =>
    obtain ⟨hcount, hsum⟩ := he
    obtain ⟨n, hn⟩ := foldlM_add (b.requestList.takeWhile (expired b.period now)) 0 (by
      rw [zero_add]
      refine le_trans ?_ hsum
      exact ((takeWhile_sublist _).map _).sum_le_sum fun _ _ => zero_le)
    simp only [Bucket.step, postProcessRequest, checkedAdd_eq hcount, hn, Option.pure_def,
      Option.bind_eq_bind, Option.bind_some]
    exact ⟨_, rfl, h.lMax_le, h.nodup, h.urls, h.tiles⟩
  | adjust => exact adjust_spec h he

/-- In every run whose steps fit, no arithmetic fails and the ranges of the current workers tile all
lengths. -/
theorem boundaries_partition (period : Nat) {past : List BucketEvent} {s : Option Bucket}
    (hr : Run next (fun s e => ∀ b ∈ s, b.Fits e) (some { period := period }) past s) :
    ∃ b, s = some b ∧ b.prefillWorkerUrls.Nodup ∧ b.boundary.map Boundary.url = b.prefillWorkerUrls ∧
      (b.prefillWorkerUrls ≠ [] → Tiles 0 b.boundary) ∧
      (b.prefillWorkerUrls = [] → ∀ x, b.findBoundary x = none) ∧
      (b.prefillWorkerUrls ≠ [] → ∀ x ≤ usizeMax, ∃ url ∈ b.prefillWorkerUrls,
        b.findBoundary x = some url) := by
  have h : ∃ b, s = some b ∧ Partitioned b := by
    refine hr.invariant (I := fun _ s => ∃ b, s = some b ∧ Partitioned b)
      ⟨_, rfl, show 4096 ≤ usizeMax by decide, nodup_nil, rfl, fun h => absurd rfl h⟩ ?_
    rintro _ _ e ⟨b, rfl, hb⟩ hfit
    exact hb.step e (hfit b rfl)
  obtain ⟨b, hs, hb⟩ := h
  exact ⟨b, hs, hb.nodup, hb.urls, hb.tiles, hb.findBoundary.1, hb.findBoundary.2⟩

/-- Two workers, two requests and an adjustment. -/
def twoWorkers : List BucketEvent :=
  [.init ["a", "b"], .route 10 "a" 0 0, .route 30 "a" 0 1, .adjust]

theorem boundaries_partition_twoWorkers :
    ∃ b, twoWorkers.foldl next (some { period := 1000 }) = some b ∧ b.prefillWorkerUrls = ["a", "b"] ∧
      Tiles 0 b.boundary := by
  have hfit : Admitted next (fun s e => ∀ b ∈ s, b.Fits e) (some { period := 1000 }) twoWorkers := by
    decide +kernel
  obtain ⟨b, hb, -, -, htiles, -⟩ := boundaries_partition 1000 (Run.start.of_admitted _ hfit)
  have hurls : b.prefillWorkerUrls = ["a", "b"] := by
    cases hb
    rfl
  exact ⟨b, hb, hurls, htiles (by simp [hurls])⟩

theorem removed_worker_keeps_range :
    ∃ b, [.init ["a"], .remove "a"].foldl next (some { period := 1000 }) = some b ∧
      b.prefillWorkerUrls = [] ∧ b.boundary.map Boundary.url = ["a"] ∧ b.findBoundary 5 = some "a" :=
  ⟨_, rfl, rfl, rfl, rfl⟩
end Bucket

/-! ## Choosing a worker by length -/

structure BucketWorker where
  url : String
  modelId : String
  isHealthy : Bool
  canExecute : Bool
  deriving DecidableEq

def BucketWorker.available (w : BucketWorker) : Bool := w.isHealthy && w.canExecute

section
variable (c : BucketConfig) (b : Bucket) (loads : List (String × Nat)) (workers : List BucketWorker)

def healthyWorkers : List BucketWorker :=
  workers.filter BucketWorker.available

def normalizeModelKey (modelId : String) : String := if modelId = "" then "unknown" else modelId

/-- `aboveRel` is the `f32` comparison of the largest load with the scaled smallest one. -/
structure BucketConfig where
  balanceAbsThreshold : Nat
  aboveRel : Nat → Nat → Bool

def maxLoad : Nat := (loads.map snd).max?.getD 0

def minLoad : Nat := (loads.map snd).min?.getD 0

def BucketConfig.isImbalanced : Bool :=
  decide (c.balanceAbsThreshold < maxLoad loads - minLoad loads) &&
    c.aboveRel (maxLoad loads) (minLoad loads)

/-- With `loads` in the order of the hash map and a `drawn` healthy url. -/
def chooseUrl (drawn : String) (charCount : Nat) : String :=
  if c.isImbalanced loads then ((loads.argmin snd).map fst).getD drawn
  else
    match b.findBoundary charCount with
    | some url => if url ≠ "" then url else drawn
    | none => drawn

/-- The index that is returned, and the bucket with the request counted. -/
def selectWorker (buckets : String → Option Bucket) (workers : List BucketWorker)
    (charCount : Nat) (loads : List (String × Nat)) (draw : Nat) (now id : Nat) :
    Option Nat × Option (Option Bucket) :=
  match healthyWorkers workers with
  | [] => (none, none)
  | w :: ws =>
    let drawn := ((w :: ws)[draw % (w :: ws).length]?.getD w).url
    match buckets (normalizeModelKey w.modelId) with
    | none => (workers.findIdx? (·.url == drawn), none)
    | some b =>
      let url := chooseUrl c b loads drawn charCount
      (workers.findIdx? (·.url == url), some (b.postProcessRequest charCount url now id))

/-- The workers of one model, whose urls are those of the bucket. -/
structure WorkersOf (modelKey : String) (workers : List BucketWorker) : Prop where
  nodup : (workers.map BucketWorker.url).Nodup
  urls : (workers.map BucketWorker.url).Perm b.prefillWorkerUrls
  model : ∀ w ∈ workers, normalizeModelKey w.modelId = modelKey

def HealthyUrl (url : String) : Prop :=
  ∃ w ∈ workers, w.url = url ∧ w.available = true

/-- Every least loaded worker, or with balanced loads that of the range of the length, is healthy. -/
def PointsAtHealthy (charCount : Nat) : Prop :=
  if c.isImbalanced loads then
    ∀ e ∈ loads, (∀ e' ∈ loads, e.2 ≤ e'.2) → HealthyUrl workers e.1
  else ∀ range ∈ b.boundary, range.lo ≤ charCount → charCount ≤ range.hi → range.url ≠ "" →
    HealthyUrl workers range.url

def SelectsHealthy (i : Option Nat) : Prop :=
  ∃ k w, i = some k ∧ workers[k]? = some w ∧ w.available = true
end

variable {c : BucketConfig} {b : Bucket} {loads : List (String × Nat)} {workers : List BucketWorker}
  {url : String} {charCount : Nat}

lemma argmin_cons_self {e : String × Nat} (h : ∀ x ∈ loads, e.2 ≤ x.2) :
    (e :: loads).argmin snd = some e := by
  rw [argmin_cons]
  cases hm : loads.argmin snd with
  | none => rfl
  | some m => exact if_neg (h m (argmin_mem hm)).not_gt

lemma selectsHealthy_iff (hnodup : (workers.map BucketWorker.url).Nodup) :
    SelectsHealthy workers (workers.findIdx? (·.url == url)) ↔ HealthyUrl workers url := by
  constructor
  · rintro ⟨k, w, hk, hw, havail⟩
    obtain ⟨hlt, hurl, -⟩ := findIdx?_eq_some_iff_getElem.mp hk
    have hget : workers[k] = w := (List.getElem?_eq_some_iff.mp hw).2
    exact ⟨w, hget ▸ getElem_mem hlt, by simpa [hget] using hurl, havail⟩
  rintro ⟨w, hw, rfl, havail⟩
  obtain ⟨k, hk⟩ : ∃ k, workers.findIdx? (·.url == w.url) = some k := by
    refine Option.ne_none_iff_exists'.mp fun hnone => ?_
    have := findIdx?_eq_none_iff.mp hnone w hw
    simp at this
  obtain ⟨hlt, hurl, -⟩ := findIdx?_eq_some_iff_getElem.mp hk
  have heq : workers[k] = w :=
    inj_on_of_nodup_map hnodup (getElem_mem hlt) hw (by simpa using hurl)
  exact ⟨k, w, hk, by rw [getElem?_eq_getElem hlt, heq], havail⟩

lemma isImbalanced_perm {order : List (String × Nat)} (h : order.Perm loads) :
    c.isImbalanced order = c.isImbalanced loads := by
  have hmap := h.map snd
  have hmax : (order.map snd).max? = (loads.map snd).max? := by
    ext n
    simp only [max?_eq_some_iff, hmap.mem_iff]
  have hmin : (order.map snd).min? = (loads.map snd).min? := by
    ext n
    simp only [min?_eq_some_iff, hmap.mem_iff]
  rw [BucketConfig.isImbalanced, BucketConfig.isImbalanced, maxLoad, maxLoad, minLoad, minLoad, hmax,
    hmin]

lemma ne_nil_of_isImbalanced (h : c.isImbalanced loads = true) : loads ≠ [] := by
  rintro rfl
  simp [BucketConfig.isImbalanced, maxLoad, minLoad] at h

lemma chooseUrl_healthy_iff (ht : Bucket.Tiles 0 b.boundary) {drawn : String}
    (hdrawn : HealthyUrl workers drawn) :
    (∀ order, order.Perm loads → HealthyUrl workers (chooseUrl c b order drawn charCount)) ↔
      PointsAtHealthy c b loads workers charCount := by
  rw [PointsAtHealthy]
  split
  case isTrue himb =>
    constructor
    · intro h e he hle
      have hperm := (perm_cons_erase he).symm
      have hchoice := h _ hperm
      rwa [chooseUrl, if_pos ((isImbalanced_perm hperm).trans himb),
        argmin_cons_self fun x hx => hle x (hperm.mem_iff.mp (mem_cons_of_mem _ hx))] at hchoice
    intro h order hperm
    have himb' := (isImbalanced_perm hperm).trans himb
    obtain ⟨m, hm⟩ : ∃ m, order.argmin snd = some m :=
      Option.ne_none_iff_exists'.mp (mt argmin_eq_none.mp (ne_nil_of_isImbalanced himb'))
    rw [chooseUrl, if_pos himb', hm]
    exact h m (hperm.mem_iff.mp (argmin_mem hm)) fun e he =>
      le_of_mem_argmin (hperm.mem_iff.mpr he) hm
  case isFalse himb =>
    constructor
    · intro h range hmem hlo hhi hne
      have hchoice := h loads (Perm.refl _)
      rw [chooseUrl, if_neg himb, (ht.findBoundary_eq_some _).mpr ⟨range, hmem, hlo, hhi, rfl⟩]
        at hchoice
      simpa only [if_pos hne] using hchoice
    intro h order hperm
    rw [chooseUrl, if_neg (by rwa [isImbalanced_perm hperm])]
    split
    next url hurl =>
      split
      next hne =>
        obtain ⟨range, hmem, hlo, hhi, rfl⟩ := (ht.findBoundary_eq_some url).mp hurl
        exact h range hmem hlo hhi hne
      next => exact hdrawn
    next => exact hdrawn

/-- `select_worker` returns a healthy worker, whatever the order of the map and the draw, exactly
when the policy points at healthy workers only. -/
theorem selectWorker_healthy_iff (c : BucketConfig) (buckets : String → Option Bucket) (b : Bucket)
    (modelKey : String) (workers : List BucketWorker) (loads : List (String × Nat))
    (charCount now id : Nat) (hb : buckets modelKey = some b) (hw : WorkersOf b modelKey workers)
    (ht : Bucket.Tiles 0 b.boundary) (hsome : ∃ w ∈ workers, w.available = true) :
    (∀ order, order.Perm loads → ∀ draw, SelectsHealthy workers
        (selectWorker c buckets workers charCount order draw now id).1) ↔
      PointsAtHealthy c b loads workers charCount := by
  obtain ⟨w, ws, hws⟩ : ∃ w ws, healthyWorkers workers = w :: ws := by
    obtain ⟨w, hmem, havail⟩ := hsome
    exact exists_cons_of_ne_nil (ne_nil_of_mem (mem_filter.mpr ⟨hmem, havail⟩))
  have hmem : ∀ x ∈ w :: ws, x ∈ workers ∧ x.available = true := fun x hx =>
    mem_filter.mp (show x ∈ healthyWorkers workers from hws ▸ hx)
  have hselect : ∀ order draw, (selectWorker c buckets workers charCount order draw now id).1 =
      workers.findIdx? (·.url == chooseUrl c b order
        ((w :: ws)[draw % (w :: ws).length]?.getD w).url charCount) := by
    intro order draw
    simp only [selectWorker, hws, hw.model w (hmem w mem_cons_self).1, hb]
  have hdrawn : ∀ draw, HealthyUrl workers ((w :: ws)[draw % (w :: ws).length]?.getD w).url := by
    intro draw
    have hlt : draw % (w :: ws).length < (w :: ws).length := Nat.mod_lt _ (Nat.succ_pos _)
    rw [getElem?_eq_getElem hlt]
    have := hmem _ (getElem_mem hlt)
    exact ⟨_, this.1, rfl, this.2⟩
  simp only [hselect, selectsHealthy_iff hw.nodup]
  constructor
  · exact fun h => (chooseUrl_healthy_iff ht (hdrawn 0)).mp fun order hperm => h order hperm 0
  · exact fun h order hperm draw => (chooseUrl_healthy_iff ht (hdrawn draw)).mpr h order hperm

lemma exists_twoWorkers :
    ∃ b, Bucket.next (some { period := 1000 }) (.init ["a", "b"]) = some b ∧
      b.prefillWorkerUrls = ["a", "b"] ∧ b.findBoundary 0 = some "a" ∧
      Bucket.Tiles 0 b.boundary :=
  ⟨_, rfl, rfl, by decide, rfl, by decide, rfl, by decide, rfl⟩

theorem selectWorker_healthy_iff_two :
    ∃ b, Bucket.next (some { period := 1000 }) (.init ["a", "b"]) = some b ∧
      ∀ draw, SelectsHealthy [⟨"a", "m", true, true⟩, ⟨"b", "m", false, true⟩]
        (selectWorker ⟨32, fun _ _ => true⟩ (fun _ => some b)
          [⟨"a", "m", true, true⟩, ⟨"b", "m", false, true⟩] 0 [("a", 0), ("b", 0)] draw 0 0).1 := by
  obtain ⟨b, hb, hurls, hfind, ht⟩ := exists_twoWorkers
  refine ⟨b, hb, fun draw => (selectWorker_healthy_iff ⟨32, fun _ _ => true⟩ (fun _ => some b) b "m"
    [⟨"a", "m", true, true⟩, ⟨"b", "m", false, true⟩] [("a", 0), ("b", 0)] 0 0 0 rfl
    ⟨by decide, by rw [hurls]; exact Perm.refl _, by decide⟩ ht ⟨_, mem_cons_self, rfl⟩).mpr ?_
    _ (Perm.refl _) draw⟩
  rw [PointsAtHealthy, if_neg (by decide)]
  intro range hmem hlo hhi _
  have hurl := (ht.findBoundary_eq_some range.url).mpr ⟨range, hmem, hlo, hhi, rfl⟩
  exact ⟨_, mem_cons_self, Option.some.inj (hfind.symm.trans hurl), rfl⟩

theorem selectWorker_unhealthy :
    ∃ b, Bucket.next (some { period := 1000 }) (.init ["a", "b"]) = some b ∧
      WorkersOf b "m" [⟨"a", "m", false, true⟩, ⟨"b", "m", true, true⟩] ∧
      ∀ draw, ¬ SelectsHealthy [⟨"a", "m", false, true⟩, ⟨"b", "m", true, true⟩]
        (selectWorker ⟨32, fun _ _ => true⟩ (fun _ => some b)
          [⟨"a", "m", false, true⟩, ⟨"b", "m", true, true⟩] 0 [("a", 0), ("b", 0)] draw 0 0).1 := by
  obtain ⟨b, hb, hurls, hfind, -⟩ := exists_twoWorkers
  refine ⟨b, hb, ⟨by decide, by rw [hurls]; exact Perm.refl _, by decide⟩, fun draw => ?_⟩
  have hchoice : ∀ drawn, chooseUrl ⟨32, fun _ _ => true⟩ b [("a", 0), ("b", 0)] drawn 0 = "a" := by
    intro drawn
    rw [chooseUrl, if_neg (by decide), hfind]
    rfl
  rintro ⟨k, w, hk, hw, havail⟩
  simp [selectWorker, healthyWorkers, BucketWorker.available, hchoice, findIdx?_cons] at hk
  subst hk
  cases hw
  exact absurd havail (by decide)
end Sglang.Gateway
