import Sglang.Lib.Run

/-!
# The token bucket as a concurrency limiter

With `refill_rate` 0 tokens come back by `return_tokens_sync` only.
-/

namespace Sglang.Gateway
open Function

structure TokenBucket where
  capacity : NNRat
  refillRate : NNRat
  tokens : NNRat
  /-- in seconds, as all times here -/
  lastRefill : NNRat

namespace TokenBucket
def new (capacity refillRate : Nat) : TokenBucket :=
  { capacity := capacity, refillRate := refillRate, tokens := capacity, lastRefill := 0 }

def refill (b : TokenBucket) (now : NNRat) : TokenBucket :=
  { b with
    tokens := min (b.tokens + (now - b.lastRefill) * b.refillRate) b.capacity
    lastRefill := now }

/-- Whether the tokens were taken, and the bucket afterwards. -/
def tryAcquireSync (b : TokenBucket) (now k : NNRat) : Bool × TokenBucket :=
  if k ≤ (b.refill now).tokens then
    (true, { b.refill now with tokens := (b.refill now).tokens - k })
  else (false, b.refill now)

/-- The part of `return_tokens_sync` under the lock. -/
def add (b : TokenBucket) (k : NNRat) : TokenBucket := { b with tokens := min (b.tokens + k) b.capacity }
end TokenBucket

/-- Where a thread is in `acquire` or `return_tokens_sync`. -/
inductive Waiter where
  | idle
  | testing (k : NNRat)
  /-- the test has failed, and there is no future yet -/
  | creating (k : NNRat)
  | waiting (k : NNRat)
  | acquired (k : NNRat)
  /-- the tokens are back, and nobody has been notified yet -/
  | notifying
  deriving DecidableEq

namespace Waiter
def Idle : Waiter → Bool
  | .idle | .acquired _ => true
  | _ => false

/-- The thread has a step to make. -/
def Ready : Waiter → Bool
  | .testing _ | .creating _ | .notifying => true
  | _ => false

/-- Between its failed test and its future. -/
def Creating : Waiter → Bool
  | .creating _ => true
  | _ => false

/-- An `acquire k` is under way. -/
def Pending (k : NNRat) : Waiter → Bool
  | .testing k' | .creating k' | .waiting k' => k' = k
  | _ => false

/-- What `notify_waiters` does to a thread. -/
def notified : Waiter → Waiter
  | .waiting k => .testing k
  | w => w
end Waiter

structure Limiter (n : Nat) where
  bucket : TokenBucket
  now : NNRat
  threads : Fin n → Waiter

inductive LimiterEvent (n : Nat) where
  | tick (seconds : NNRat)
  | acquire (i : Fin n) (k : NNRat)
  | returnTokens (i : Fin n) (k : NNRat)
  | step (i : Fin n)
  deriving DecidableEq

namespace Limiter
variable {n : Nat}

def initial (n : Nat) (b : TokenBucket) : Limiter n := { bucket := b, now := 0, threads := fun _ => .idle }

/-- Calls are made by idle threads. `acquire` with a refill rate of 0. -/
def next (s : Limiter n) : LimiterEvent n → Limiter n
  | .tick seconds => { s with now := s.now + seconds }
  | .acquire i k =>
    if (s.threads i).Idle then { s with threads := update s.threads i (.testing k) } else s
  | .returnTokens i k =>
    if (s.threads i).Idle then
      { s with bucket := s.bucket.add k, threads := update s.threads i .notifying }
    else s
  | .step i =>
    match s.threads i with
    | .testing k =>
      let r := s.bucket.tryAcquireSync s.now k
      { s with
        bucket := r.2
        threads := update s.threads i (if r.1 then .acquired k else .creating k) }
    | .creating k => { s with threads := update s.threads i (.waiting k) }
    | .notifying => { s with threads := update (fun j => (s.threads j).notified) i .idle }
    | _ => s

/-- No thread is between its failed test and its future when others are notified. -/
def NoGap (s : Limiter n) : LimiterEvent n → Prop
  | .step i => s.threads i = .notifying → ∀ j, (s.threads j).Creating = false
  | _ => True

instance (s : Limiter n) : DecidablePred s.NoGap := fun e => by
  cases e <;> unfold NoGap <;> infer_instance

/-- Every thread that has a step to make makes it. -/
def Fair (b : TokenBucket) (event : Nat → LimiterEvent n) : Prop :=
  ∀ m i, ((trace next (initial n b) event m).threads i).Ready = true → ∃ m' ≥ m, event m' = .step i

/-- Who has failed and would succeed now is about to be notified. -/
def Awaited (s : Limiter n) : Prop :=
  ∀ i k, s.threads i = .creating k ∨ s.threads i = .waiting k → k ≤ s.bucket.tokens →
    ∃ j, s.threads j = .notifying

variable {b : TokenBucket} {s : Limiter n} {event : Nat → LimiterEvent n} {i : Fin n} {k : NNRat}

/-- What one event can do to the threads and to the tokens. -/
inductive Moves (s s' : Limiter n) (e : LimiterEvent n) : Prop
  | quiet (threads : s'.threads = s.threads) (tokens : s'.bucket.tokens = s.bucket.tokens)
  | one (i : Fin n) (w : Waiter) (threads : s'.threads = update s.threads i w)
      (tokens : s'.bucket.tokens ≤ s.bucket.tokens) (silent : s.threads i ≠ .notifying)
      (fails : ∀ k, w = .creating k → s'.bucket.tokens < k)
      (creates : ∀ k, w = .waiting k → s.threads i = .creating k)
  | adds (i : Fin n) (threads : s'.threads = update s.threads i .notifying)
  | notifies (i : Fin n) (event : e = .step i) (from_ : s.threads i = .notifying)
      (threads : s'.threads = update (fun j => (s.threads j).notified) i .idle)

lemma next_moves (hr : s.bucket.refillRate = 0) (e : LimiterEvent n) : Moves s (s.next e) e := by
  have hle : (s.bucket.refill s.now).tokens ≤ s.bucket.tokens := by simp [TokenBucket.refill, hr]
  cases e with
  | tick seconds => exact .quiet rfl rfl
  | acquire i k =>
    simp only [next]
    split
    next hidle => exact .one i _ rfl le_rfl (fun e => by simp [e, Waiter.Idle] at hidle) nofun nofun
    · exact .quiet rfl rfl
  | returnTokens i k =>
    simp only [next]
    split
    · exact .adds i rfl
    · exact .quiet rfl rfl
  | step i => ?_
  cases hi : s.threads i with
  | testing k =>
    simp only [next, hi, TokenBucket.tryAcquireSync]
    split
    · exact .one i _ rfl (tsub_le_self.trans hle) (by simp [hi]) nofun nofun
    next hlt =>
      refine .one i _ rfl hle (by simp [hi]) (fun k' e => ?_) nofun
      cases e
      exact not_le.mp hlt
  | creating k =>
    simp only [next, hi]
    refine .one i _ rfl le_rfl (by simp [hi]) nofun fun k' e => ?_
    cases e
    exact hi
  | notifying =>
    simp only [next, hi]
    exact .notifies i rfl hi rfl
  | idle | waiting k | acquired k =>
    simp only [next, hi]
    exact .quiet rfl rfl

lemma awaited_initial (n : Nat) (b : TokenBucket) : (initial n b).Awaited := by
  rintro i k (h | h) <;> cases h

lemma Awaited.next (h : s.Awaited) (hr : s.bucket.refillRate = 0) (e : LimiterEvent n)
    (he : s.NoGap e) : (s.next e).Awaited := by
  intro j k hj hk
  cases next_moves hr e with
  | quiet threads toks =>
    rw [threads] at hj ⊢
    exact h j k hj (toks ▸ hk)
  | one i w threads toks silent fails creates =>
    -- a thread that has not just failed had its place before
    have hold : s.threads j = .creating k ∨ s.threads j = .waiting k := by
      rw [threads] at hj
      by_cases hji : j = i
      · subst hji
        rw [update_self] at hj
        exact hj.elim (fun e => absurd hk (fails k e).not_ge) fun e => .inl (creates k e)
      · rwa [update_of_ne hji] at hj
    obtain ⟨l, hl⟩ := h j k hold (hk.trans toks)
    have hli : l ≠ i := fun e => silent (e ▸ hl)
    exact ⟨l, by rw [threads, update_of_ne hli, hl]⟩
  | adds i threads => exact ⟨i, by rw [threads, update_self]⟩
  | notifies i event from_ threads =>
    subst event
    have hgap := he from_ j
    rw [threads] at hj
    by_cases hji : j = i
    · subst hji
      simp at hj
    · simp only [update_of_ne hji] at hj
      cases hs : s.threads j <;> simp_all [Waiter.notified, Waiter.Creating]

lemma settings_next (e : LimiterEvent n) : (s.next e).bucket.refillRate = s.bucket.refillRate ∧
    (s.next e).bucket.capacity = s.bucket.capacity := by
  have htry : ∀ k, (s.bucket.tryAcquireSync s.now k).2.refillRate = s.bucket.refillRate ∧
      (s.bucket.tryAcquireSync s.now k).2.capacity = s.bucket.capacity := fun k => by
    unfold TokenBucket.tryAcquireSync
    split <;> exact ⟨rfl, rfl⟩
  unfold next
  split <;> (try split) <;> first | exact ⟨rfl, rfl⟩ | exact htry _

/-- A thread with a step to make keeps its place until it makes it. -/
lemma ready_stays {w : Waiter} (hw : w.Ready = true) (e : LimiterEvent n) (h : s.threads i = w)
    (he : e ≠ .step i) : (s.next e).threads i = w := by
  have hidle : w.Idle = false := by cases w <;> simp_all [Waiter.Ready, Waiter.Idle]
  have hcall : ∀ j, (s.threads j).Idle = true → i ≠ j := by
    rintro j hj rfl
    rw [h, hidle] at hj
    cases hj
  cases e with
  | tick seconds => exact h
  | acquire j k | returnTokens j k =>
    simp only [next]
    split
    next hj => simp only [update_of_ne (hcall j hj), h]
    · exact h
  | step j =>
    have hij : i ≠ j := fun e => he (e ▸ rfl)
    have hn : w.notified = w := by cases w <;> simp_all [Waiter.Ready, Waiter.notified]
    cases hj : s.threads j <;> simp only [next, hj, update_of_ne hij, h, hn]

lemma pending_next (e : LimiterEvent n) (h : (s.threads i).Pending k = true) :
    ((s.next e).threads i).Pending k = true ∨ (s.next e).threads i = .acquired k := by
  have hcall : ∀ j, (s.threads j).Idle = true → i ≠ j := by
    rintro j hj rfl
    cases hw : s.threads i <;> simp_all [Waiter.Idle, Waiter.Pending]
  cases e with
  | tick seconds => exact .inl h
  | acquire j k' | returnTokens j k' =>
    simp only [next]
    split
    next hj => exact .inl (by simpa only [update_of_ne (hcall j hj)] using h)
    · exact .inl h
  | step j => ?_
  by_cases hij : i = j
  · subst hij
    cases hw : s.threads i with
    | testing k' =>
      obtain rfl : k' = k := by simpa [hw, Waiter.Pending] using h
      simp only [next, hw, update_self]
      split
      · exact .inr rfl
      · exact .inl (by simp [Waiter.Pending])
    | _ => simp_all [next, Waiter.Pending]
  · have hn : (s.threads i).notified.Pending k = true := by
      cases hw : s.threads i <;> simp_all [Waiter.notified, Waiter.Pending]
    cases hj : s.threads j <;> simp only [next, hj, update_of_ne hij, h, hn, true_or]

/-- In fair runs where no notification falls between test and future, `acquire k` returns if `k`
tokens stay. -/
theorem acquire_returns (hrate : b.refillRate = 0) (hfair : Fair b event)
    (hgap : ∀ m, (trace next (initial n b) event m).NoGap (event m)) (i : Fin n) (k : NNRat)
    (hcap : k ≤ b.capacity) (m : Nat)
    (hp : ((trace next (initial n b) event m).threads i).Pending k = true)
    (hav : ∃ N, ∀ m ≥ N, k ≤ (trace next (initial n b) event m).bucket.tokens) :
    ∃ m' ≥ m, (trace next (initial n b) event m').threads i = .acquired k := by
  by_contra hnot
  push Not at hnot
  obtain ⟨N, hav⟩ := hav
  set at_ := trace next (initial n b) event
  have hpend : ∀ l ≥ m, ((at_ l).threads i).Pending k = true := fun l hl => by
    induction l, hl using Nat.le_induction with
    | base => exact hp
    | succ l hl ih => exact (pending_next _ ih).resolve_right (hnot (l + 1) (by omega))
  have hinv : ∀ l, (at_ l).bucket.refillRate = 0 ∧ (at_ l).bucket.capacity = b.capacity ∧
      (at_ l).Awaited := fun l => by
    induction l with
    | zero => exact ⟨hrate, rfl, awaited_initial n b⟩
    | succ l ih =>
      exact ⟨(settings_next _).1.trans ih.1, (settings_next _).2.trans ih.2.1,
        ih.2.2.next ih.1 _ (hgap l)⟩
  -- a thread with a step to make is found making it
  have hstep : ∀ l j, ((at_ l).threads j).Ready = true →
      ∃ l' ≥ l, event l' = .step j ∧ (at_ l').threads j = (at_ l).threads j :=
    fun l j hj => trace_until (P := fun s : Limiter n => s.threads j = (at_ l).threads j)
      (A := fun e => e = .step j) (fun _ e h he => ready_stays hj e h he) rfl (hfair l j hj)
  -- a test would succeed
  have htest : ∀ l ≥ m, N ≤ l → (at_ l).threads i ≠ .testing k := by
    intro l hl hN ht
    obtain ⟨l', hl', he, hw⟩ := hstep l i (by rw [ht]; rfl)
    rw [ht] at hw
    have hk : k ≤ ((at_ l').bucket.refill (at_ l').now).tokens := by
      have hk := hav l' (by omega)
      simp [TokenBucket.refill, hinv l', hk, hcap]
    refine hnot (l' + 1) (by omega) ?_
    change (next (at_ l') (event l')).threads i = _
    simp [he, next, hw, TokenBucket.tryAcquireSync, hk]
  -- who waits is notified, since the tokens are there
  have hwait : ∀ l ≥ m, N ≤ l → (at_ l).threads i ≠ .waiting k := by
    intro l hl hN ht
    obtain ⟨j, hj⟩ := (hinv l).2.2 i k (.inr ht) (hav l hN)
    obtain ⟨l', hl', he, hw⟩ := hstep l j (by rw [hj]; rfl)
    rw [hj] at hw
    have hg := hgap l'
    rw [he] at hg
    have hpl := hpend l' (by omega)
    cases hi : (at_ l').threads i with
    | testing k' =>
      obtain rfl : k' = k := by simpa [hi, Waiter.Pending] using hpl
      exact htest l' (by omega) (by omega) hi
    | creating k' => simpa [hi, Waiter.Creating] using hg hw i
    | waiting k' =>
      obtain rfl : k' = k := by simpa [hi, Waiter.Pending] using hpl
      have hij : i ≠ j := by
        rintro rfl
        rw [hi] at hw
        cases hw
      refine htest (l' + 1) (by omega) (by omega) ?_
      change (next (at_ l') (event l')).threads i = _
      simp [he, next, hw, update_of_ne hij, hi, Waiter.notified]
    | _ => simp [hi, Waiter.Pending] at hpl
  have hlast := hpend (max m N) (le_max_left _ _)
  cases hi : (at_ (max m N)).threads i with
  | testing k' =>
    obtain rfl : k' = k := by simpa [hi, Waiter.Pending] using hlast
    exact htest _ (le_max_left ..) (le_max_right ..) hi
  | creating k' =>
    obtain rfl : k' = k := by simpa [hi, Waiter.Pending] using hlast
    obtain ⟨l', hl', he, hw⟩ := hstep _ i (by rw [hi]; rfl)
    rw [hi] at hw
    refine hwait (l' + 1) (by omega) (by omega) ?_
    change (next (at_ l') (event l')).threads i = _
    simp [he, next, hw]
  | waiting k' =>
    obtain rfl : k' = k := by simpa [hi, Waiter.Pending] using hlast
    exact hwait _ (le_max_left ..) (le_max_right ..) hi
  | _ => simp [hi, Waiter.Pending] at hlast

/-! ## A notification between the test and the future -/

/-- After the events of a script nothing happens. -/
def script (l : List (LimiterEvent n)) (m : Nat) : LimiterEvent n := l.getD m (.tick 0)

variable {l : List (LimiterEvent n)}

lemma script_end {m : Nat} (h : l.length ≤ m) : script l m = .tick 0 := by
  simp [script, List.getElem?_eq_none h]

/-- The state of a script with a bucket of two tokens. -/
def played (l : List (LimiterEvent n)) : Nat → Limiter n := trace next (initial n (.new 2 0)) (script l)

lemma played_end {m : Nat} (h : l.length ≤ m) : played l m = played l l.length := by
  refine trace_eq_of_stays (fun m hm => ?_) h
  rw [script_end hm]
  simp [next]

lemma fair_script (h : ∀ m < l.length, ∀ i, ((played l m).threads i).Ready = true →
      ∃ m' < l.length, m ≤ m' ∧ script l m' = .step i)
    (hend : ∀ i, ((played l l.length).threads i).Ready = false) : Fair (.new 2 0) (script l) := by
  intro m i hi
  by_cases hm : m < l.length
  · obtain ⟨m', -, hle, he⟩ := h m hm i hi
    exact ⟨m', hle, he⟩
  · have := hend i
    rw [← played_end (not_lt.mp hm)] at this
    exact absurd (hi.symm.trans this) nofun

def holder : Fin 2 := ⟨0, Nat.two_pos⟩

def waiter : Fin 2 := ⟨1, Nat.one_lt_two⟩

def lostWakeUp : List (LimiterEvent 2) :=
  [.acquire holder (1 + 1), .step holder, .acquire waiter 1, .step waiter,
    .returnTokens holder (1 + 1), .step holder, .step waiter]

def timelyWakeUp : List (LimiterEvent 2) :=
  [.acquire holder (1 + 1), .step holder, .acquire waiter 1, .step waiter, .step waiter,
    .returnTokens holder (1 + 1), .step holder, .step waiter]

theorem acquire_returns_timely : ∃ m ≥ 4, (played timelyWakeUp m).threads 1 = .acquired 1 := by
  refine acquire_returns rfl (fair_script (by decide +kernel) (by decide +kernel)) (fun m => ?_) 1 1
    (by decide +kernel) 4 (by decide +kernel) ⟨8, fun m hm => ?_⟩
  · by_cases hm : m < 8
    · revert m
      decide +kernel
    · rw [script_end (not_lt.mp hm)]
      trivial
  · change 1 ≤ (played timelyWakeUp m).bucket.tokens
    rw [played_end hm]
    decide +kernel

/-- The tokens are there for ever, and thread 1 waits for ever. -/
theorem wake_up_lost : Fair (.new 2 0) (script lostWakeUp) ∧
    ((played lostWakeUp 4).threads 1).Pending 1 = true ∧
    (∀ m ≥ 7, 1 ≤ (played lostWakeUp m).bucket.tokens) ∧
    ∀ m ≥ 4, (played lostWakeUp m).threads 1 ≠ .acquired 1 := by
  refine ⟨fair_script (by decide +kernel) (by decide +kernel), by decide +kernel, fun m hm => ?_,
    fun m hm => ?_⟩
  · rw [played_end hm]
    decide +kernel
  by_cases h7 : m < 7
  · revert m
    decide +kernel
  · rw [played_end (not_lt.mp h7)]
    decide +kernel
end Limiter

/-- A call under the lock; `acquire` makes calls of `try_acquire`. -/
inductive BucketOp where
  | tryAcquire (k : NNRat)
  | returnTokensSync (k : NNRat)
  | availableTokens

namespace TokenBucket
/-! ## Waiting for refill -/

variable (b : TokenBucket) (now pause k : NNRat)

/-- The loop of `acquire`: a try each 10 ms. -/
def retry (k : NNRat) (b : TokenBucket) (t : NNRat) : Nat → Bool
  | 0 => false
  | n + 1 =>
    let r := b.tryAcquireSync t k
    if r.1 then true else retry k r.2 (t + 1 / 100) n

def waitTime : NNRat := (k - b.tokens) / b.refillRate

/-- `acquire` with a refill rate, alone; its loop starts `pause` seconds after the first try, and its
timeout with it. -/
def acquire : Bool :=
  let r := b.tryAcquireSync now k
  if r.1 then true else retry k r.2 (now + pause) (⌊100 * r.2.waitTime k⌋₊ + 1)

variable {b now pause k}

lemma refill_refill {t t' : NNRat} (ht : b.lastRefill ≤ t) (ht' : t ≤ t') :
    (b.refill t).refill t' = b.refill t' := by
  have h : b.tokens + (t - b.lastRefill) * b.refillRate + (t' - t) * b.refillRate =
      b.tokens + (t' - b.lastRefill) * b.refillRate := by
    rw [add_assoc, ← add_mul, add_comm (t - _), tsub_add_tsub_cancel ht' ht]
  simp only [refill, mk.injEq, and_true, true_and]
  rw [← h, ← min_add_add_right, min_assoc, min_eq_right (a := b.capacity + _) le_self_add]

lemma retry_iff {t : NNRat} (ht : b.lastRefill ≤ t) (n : Nat) :
    retry k b t n = true ↔ ∃ i < n, k ≤ (b.refill (t + i / 100)).tokens := by
  induction n generalizing b t with
  | zero => simp [retry]
  | succ n ih => ?_
  rw [retry, tryAcquireSync]
  by_cases hk : k ≤ (b.refill t).tokens
  · simp only [if_pos hk]
    simpa using ⟨0, by omega, by simpa using hk⟩
  · simp only [if_neg hk]
    have htime (i : Nat) : t + 1 / 100 + i / 100 = t + (i + 1 : Nat) / 100 := by
      rw [add_assoc, ← add_div, add_comm 1, Nat.cast_succ]
    have hrest (i : Nat) : ((b.refill t).refill (t + 1 / 100 + i / 100)).tokens =
        (b.refill (t + (i + 1 : Nat) / 100)).tokens := by
      rw [htime, refill_refill ht le_self_add]
    have h0 : ¬k ≤ (b.refill (t + (0 : Nat) / 100)).tokens := by simpa using hk
    rw [if_neg (by simp), ih (t := t + 1 / 100) le_self_add, Nat.exists_lt_succ_left, or_iff_right h0]
    simp only [hrest]

/-- Alone, `acquire` ends well when a try falls between the refill and the timeout. -/
theorem acquire_ok_iff (hrate : 0 < b.refillRate) (hk : k ≤ b.capacity) : b.acquire now pause k = true ↔
      (b.refill now).waitTime k ≤ pause + ⌊100 * (b.refill now).waitTime k⌋₊ / 100 := by
  rw [acquire, tryAcquireSync]
  by_cases hnow : k ≤ (b.refill now).tokens
  · simp [hnow, waitTime, tsub_eq_zero_of_le]
  · set w := (b.refill now).waitTime k with hw
    -- a try succeeds from the end of the wait on
    have htry (i : Nat) : k ≤ ((b.refill now).refill (now + pause + i / 100)).tokens ↔
        w ≤ pause + i / 100 := by
      rw [hw, waitTime, div_le_iff₀ (show 0 < (b.refill now).refillRate from hrate), tsub_le_iff_left, add_assoc]
      simp [refill, hk]
    simp only [if_neg hnow]
    rw [if_neg (by simp), retry_iff (show now ≤ now + pause from le_self_add)]
    simp only [htry, ← hw]
    refine ⟨fun ⟨i, hi, h⟩ => h.trans ?_, fun h => ⟨_, Nat.lt_succ_self _, h⟩⟩
    gcongr
    exact Nat.le_of_lt_succ hi

theorem acquire_ok_ten_ms : let b := ((new 1 100).tryAcquireSync 0 1).2
    b.acquire 0 0 1 = true ↔ (b.refill 0).waitTime 1 ≤ 0 + ⌊100 * (b.refill 0).waitTime 1⌋₊ / 100 :=
  acquire_ok_iff (by decide +kernel) (by decide +kernel)

/-- A refill of 5 ms. -/
theorem acquire_times_out :
    let b := ((new 1 200).tryAcquireSync 0 1).2
    0 < b.refillRate ∧ 1 ≤ b.capacity ∧ b.acquire 0 0 1 = false := by
  decide +kernel

/-! ## The rate over a window -/

section
variable (lo hi : NNRat) (b : TokenBucket) (t : NNRat)

/-- What is granted, and the bucket afterwards. -/
def call : BucketOp → NNRat × TokenBucket
  | .tryAcquire k => (if (b.tryAcquireSync t k).1 then k else 0, (b.tryAcquireSync t k).2)
  | .returnTokensSync k => (0, b.add k)
  | .availableTokens => (0, b.refill t)

def grantedIn : TokenBucket → List (NNRat × BucketOp) → NNRat
  | _, [] => 0
  | b, (t, op) :: es =>
    (if lo ≤ t ∧ t ≤ hi then (b.call t op).1 else 0) + grantedIn (b.call t op).2 es

def returned : BucketOp → NNRat
  | .returnTokensSync k => k
  | _ => 0

def returnedIn (es : List (NNRat × BucketOp)) : NNRat :=
  ((es.filter fun e => lo ≤ e.1 ∧ e.1 ≤ hi).map fun e => returned e.2).sum
end

variable {lo hi s t : NNRat} {b : TokenBucket} {o : BucketOp} {es : List (NNRat × BucketOp)}

lemma call_settings : (b.call t o).2.capacity = b.capacity ∧ (b.call t o).2.refillRate = b.refillRate := by
  cases o <;> grind [call, tryAcquireSync, add, refill]

lemma min_le_min_add {x y c d : NNRat} (h : x ≤ y + d) : min x c ≤ min y c + d := by
  rw [← min_add_add_right]
  exact min_le_min h le_self_add

lemma tokens_refill_le : (b.refill t).tokens ≤ (b.refill s).tokens + b.refillRate * (t - s) := by
  have h : t - b.lastRefill ≤ s - b.lastRefill + (t - s) := by
    rw [tsub_le_iff_right, add_right_comm]
    exact le_add_tsub.trans (add_le_add_left le_tsub_add _)
  have h := mul_le_mul_left h b.refillRate
  rw [add_mul, mul_comm (t - s)] at h
  exact min_le_min_add (by grind)

lemma call_le : ((b.call t o).2.refill t).tokens + (b.call t o).1 ≤ (b.refill t).tokens + returned o := by
  cases o with
  | tryAcquire k =>
    simp only [call, returned, tryAcquireSync]
    split
    next h =>
      calc min ((b.refill t).tokens - k + (t - t) * b.refillRate) b.capacity + k
          ≤ (b.refill t).tokens - k + k := by simp
        _ = (b.refill t).tokens + 0 := by rw [tsub_add_cancel_of_le h, add_zero]
    · simp [refill]
  | returnTokensSync k =>
    have h : min (b.tokens + k) b.capacity ≤ b.tokens + k := min_le_left ..
    simp only [call, returned, add, refill, add_zero]
    exact min_le_min_add (by grind)
  | availableTokens => simp [call, returned, refill]

lemma grantedIn_after (h : ∀ e ∈ es, hi < e.1) : grantedIn lo hi b es = 0 := by
  induction es generalizing b with
  | nil => rfl
  | cons e es ih =>
    rw [List.forall_mem_cons] at h
    simp [grantedIn, h.1.not_ge, ih h.2]

/-- From `s` on: what the bucket holds then, what it refills and what it is given. -/
lemma grantedIn_le (hlo : lo ≤ s) (hs : ∀ e ∈ es, s ≤ e.1) (hes : es.Pairwise (·.1 ≤ ·.1)) :
    grantedIn lo hi b es ≤ (b.refill s).tokens + b.refillRate * (hi - s) + returnedIn lo hi es := by
  induction es generalizing b s with
  | nil => simp [grantedIn]
  | cons e es ih => ?_
  obtain ⟨t, op⟩ := e
  rw [List.pairwise_cons] at hes
  have ht : s ≤ t := hs _ List.mem_cons_self
  by_cases hhi : t ≤ hi
  swap
  · rw [grantedIn_after (List.forall_mem_cons.mpr ⟨not_le.mp hhi, fun e he => ?_⟩)]
    · exact zero_le
    · exact (not_le.mp hhi).trans_le (hes.1 e he)
  have hwin : lo ≤ t ∧ t ≤ hi := ⟨hlo.trans ht, hhi⟩
  have hrest := ih (b := (b.call t op).2) hwin.1 hes.1 hes.2
  have hret : returnedIn lo hi ((t, op) :: es) = returned op + returnedIn lo hi es := by
    simp [returnedIn, hwin]
  have hsum : b.refillRate * (hi - t) + b.refillRate * (t - s) = b.refillRate * (hi - s) := by
    rw [← mul_add, tsub_add_tsub_cancel hhi ht]
  have hcall := call_le (b := b) (t := t) (o := op)
  have hfill := tokens_refill_le (b := b) (t := t) (s := s)
  rw [call_settings.2] at hrest
  rw [grantedIn, if_pos hwin, hret, ← hsum]
  grind

theorem rate_bound (hb : b.tokens ≤ b.capacity) (hes : es.Pairwise (·.1 ≤ ·.1)) :
    (∀ lo hi, grantedIn lo hi b es ≤ b.capacity + b.refillRate * (hi - lo) + returnedIn lo hi es) ∧
      (es.foldl (fun b e => (b.call e.1 e.2).2) b).tokens ≤ b.capacity := by
  induction es generalizing b with
  | nil => exact ⟨fun _ _ => by simp [grantedIn], hb⟩
  | cons e es ih => ?_
  obtain ⟨t, op⟩ := e
  have hs := hes
  rw [List.pairwise_cons] at hes
  have hcall : (b.call t op).2.tokens ≤ b.capacity := by
    cases op with
    | tryAcquire k =>
      simp only [call, tryAcquireSync]
      split
      · exact tsub_le_self.trans (min_le_right ..)
      · exact min_le_right ..
    | _ => exact min_le_right ..
  obtain ⟨hrest, htok⟩ := ih (b := (b.call t op).2) (hcall.trans_eq call_settings.1.symm) hes.2
  simp only [call_settings] at hrest htok
  refine ⟨fun lo hi => ?_, htok⟩
  by_cases hlo : lo ≤ t
  · refine (grantedIn_le hlo (List.forall_mem_cons.mpr ⟨le_rfl, hes.1⟩) hs).trans ?_
    gcongr
    exact min_le_right ..
  · simpa [grantedIn, returnedIn, hlo] using hrest lo hi

/-- With a refill and a return the bound is reached. -/
theorem rate_bound_five_calls :
    let es := [(0, BucketOp.tryAcquire 2), (0, .tryAcquire 1), (1, .tryAcquire 1),
      (1, .returnTokensSync 1), (1, .tryAcquire 1)]
    grantedIn 0 1 (new 2 1) es = 4 ∧
      4 ≤ (new 2 1).capacity + (new 2 1).refillRate * (1 - 0) + returnedIn 0 1 es := by
  intro es
  have hgranted : grantedIn 0 1 (new 2 1) es = 4 := by decide +kernel
  exact ⟨hgranted, hgranted ▸ (rate_bound le_rfl (by decide +kernel)).1 0 1⟩
end TokenBucket
end Sglang.Gateway
