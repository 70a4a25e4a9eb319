import Sglang.Rolling.Stage

/-!
# The denoising schedule of Rolling Forcing

Window pass `w` feeds the blocks `w + 1 - S` to `min (N - 1) w` of a video of `N` blocks, where `S`
is the number of denoising steps.
-/

namespace Sglang
open List

private lemma staggered_loop {τ : Type} [MulOneClass τ] (n : Nat) (ts done : List τ) (k : Nat)
    (hk : done.length = k * n) :
    (ts.zipIdx k).foldl (fun shared (timestep, index) => splice shared (index * n)
      ((block n shared index).map (· * timestep))) (done ++ replicate (ts.length * n) 1) =
    done ++ ts.flatMap (replicate n) := by
  induction ts generalizing done k with
  | nil => simp
  | cons t ts ih => ?_
  have hones : replicate ((t :: ts).length * n) (1 : τ) =
      replicate n 1 ++ replicate (ts.length * n) 1 := by
    rw [replicate_append_replicate, length_cons, add_mul, one_mul, add_comm n]
  have hblock : block n (done ++ (replicate n 1 ++ replicate (ts.length * n) 1)) k =
      replicate n (1 : τ) := by
    rw [show k = k + 0 from rfl, block_append_right hk,
      block_append_left (k := 1) (by simp) zero_lt_one, block_zero (by simp)]
  have hwrite : splice (done ++ (replicate n 1 ++ replicate (ts.length * n) (1 : τ)))
      (k * n) (replicate n t) =
      (done ++ replicate n t) ++ replicate (ts.length * n) 1 := by
    unfold splice
    rw [take_append_of_le_length (by omega), ← hk, take_length,
      length_replicate, drop_append, drop_append]
    simp
  rw [zipIdx_cons, foldl_cons, hones]
  simp only [hblock, map_replicate, one_mul]
  rw [hwrite, ih _ (k + 1) (by simp [hk, add_mul]), flatMap_cons, append_assoc]

lemma buildStaggeredTimesteps_eq {τ : Type} [MulOneClass τ] (timesteps : List τ) (n : Nat) :
    buildStaggeredTimesteps timesteps n = timesteps.reverse.flatMap (replicate n) := by
  have h := staggered_loop n timesteps.reverse [] 0 (by simp)
  simpa [buildStaggeredTimesteps] using h

namespace RollingForcingStage
variable {φ τ ρ κ : Type} (m : RollingForcingStage φ τ ρ κ)

def FromPass (prev : Option (WindowPass φ τ)) (w b : Nat) (latent : List φ) : Prop :=
  ∃ p r, prev = some p ∧ r ∈ p.renoised ∧ r.blockIdx = b ∧
    m.timesteps[w - b]? = some r.nextTimestep ∧
    latent = m.renoise (block m.numFramesPerBlock p.x0 (b - p.startBlock)) r.noise r.nextTimestep

structure PassOk (numBlocks : Nat) (noise : List φ) (w : Nat) (prev : Option (WindowPass φ τ))
    (p : WindowPass φ τ) : Prop where
  startBlock : p.startBlock = w + 1 - m.timesteps.length
  endBlock : p.endBlock = min (numBlocks - 1) w
  timestep : ∀ b, p.startBlock ≤ b → b ≤ p.endBlock → ∃ t, m.timesteps[w - b]? = some t ∧
    block m.numFramesPerBlock p.timestep (b - p.startBlock) = List.replicate m.numFramesPerBlock t
  fresh : ∀ b, p.startBlock ≤ b → b ≤ p.endBlock → b = w →
    block m.numFramesPerBlock p.noisyInput (b - p.startBlock) = block m.numFramesPerBlock noise b
  again : ∀ b, p.startBlock ≤ b → b ≤ p.endBlock → b ≠ w →
    m.FromPass prev w b (block m.numFramesPerBlock p.noisyInput (b - p.startBlock))

def Follows (numBlocks : Nat) (noise : List φ) :
    Nat → Option (WindowPass φ τ) → List (WindowPass φ τ) → Prop
  | _, _, [] => True
  | w, prev, p :: passes =>
    m.PassOk numBlocks noise w prev p ∧ Follows numBlocks noise (w + 1) (some p) passes

structure Ready (numBlocks w : Nat) (prev : Option (WindowPass φ τ)) (st : RollingState φ ρ κ) :
    Prop where
  length : st.noisyCache.length = numBlocks * m.numFramesPerBlock
  again : ∀ b, w + 1 - m.timesteps.length ≤ b → b ≤ min (numBlocks - 1) w → b ≠ w →
    m.FromPass prev w b (block m.numFramesPerBlock st.noisyCache b)

variable {m} {startBlock i : Nat}

lemma block_staggered [MulOneClass τ] (hi : i < m.timesteps.length) :
    ∃ t, m.timesteps[m.timesteps.length - 1 - i]? = some t ∧
      block m.numFramesPerBlock (buildStaggeredTimesteps m.timesteps m.numFramesPerBlock) i =
        replicate m.numFramesPerBlock t := by
  have hlt : m.timesteps.length - 1 - i < m.timesteps.length := by omega
  refine ⟨_, getElem?_eq_getElem hlt, ?_⟩
  rw [buildStaggeredTimesteps_eq]
  apply block_flatMap_replicate
  rw [getElem?_reverse hi, getElem?_eq_getElem hlt]

lemma length_staggered [MulOneClass τ] :
    (buildStaggeredTimesteps m.timesteps m.numFramesPerBlock).length =
      m.timesteps.length * m.numFramesPerBlock := by
  rw [buildStaggeredTimesteps_eq, length_flatMap_replicate, length_reverse]

lemma length_predNoiseToPredVideo {predNoise noisyInput : List φ} {timestep : List τ}
    (h1 : predNoise.length = noisyInput.length) (h2 : timestep.length = noisyInput.length) :
    (m.predNoiseToPredVideo predNoise noisyInput timestep).length = noisyInput.length := by
  simp [predNoiseToPredVideo, h1, h2]

lemma renoiseBlock_spec {x0 : List φ} {w b : Nat}
    (acc : List (Renoised φ τ) × RollingState φ ρ κ) {t : τ}
    (hlast : w - b + 1 ≠ m.timesteps.length) (ht : m.timesteps[w - b + 1]? = some t)
    (hx0 : (block m.numFramesPerBlock x0 (b - startBlock)).length = m.numFramesPerBlock)
    (hcache : b * m.numFramesPerBlock + m.numFramesPerBlock ≤ acc.2.noisyCache.length) :
    ∃ noise st', m.renoiseBlock x0 w startBlock acc b = .ok (acc.1 ++ [⟨b, t, noise⟩], st') ∧
      st'.noisyCache.length = acc.2.noisyCache.length ∧
      ∀ i, block m.numFramesPerBlock st'.noisyCache i =
        if i = b then m.renoise (block m.numFramesPerBlock x0 (b - startBlock)) noise t
        else block m.numFramesPerBlock acc.2.noisyCache i := by
  have hnoise := m.length_randn acc.2.gen m.numFramesPerBlock
  obtain ⟨noise, gen, hdraw⟩ : ∃ noise gen, m.randn acc.2.gen m.numFramesPerBlock = (noise, gen) :=
    ⟨_, _, rfl⟩
  rw [hdraw] at hnoise
  have hframes : (m.renoise (block m.numFramesPerBlock x0 (b - startBlock)) noise t).length =
      m.numFramesPerBlock := by
    rw [renoise, length_zipWith, hx0, hnoise, min_self]
  refine ⟨noise, { acc.2 with
    gen, noisyCache := splice acc.2.noisyCache (b * m.numFramesPerBlock)
      (m.renoise (block m.numFramesPerBlock x0 (b - startBlock)) noise t) }, ?_, ?_, ?_⟩
  · unfold renoiseBlock
    simp only [if_neg hlast, ht, hx0, hdraw]
  · exact length_splice (by omega)
  · exact block_splice hframes hcache

lemma renoise_loop (x0 : List φ) {w : Nat} (st : RollingState φ ρ κ)
    (hw : w < startBlock + m.timesteps.length) (n : Nat) (hn : startBlock + n ≤ w + 1)
    (hx0 : n * m.numFramesPerBlock ≤ x0.length)
    (hcache : (startBlock + n) * m.numFramesPerBlock ≤ st.noisyCache.length) :
    ∃ rs st', (range' startBlock n).foldlM (m.renoiseBlock x0 w startBlock) ([], st) = .ok (rs, st') ∧
      st'.noisyCache.length = st.noisyCache.length ∧
      ∀ b, startBlock ≤ b → b < startBlock + n → w - b + 1 < m.timesteps.length →
        ∃ r ∈ rs, r.blockIdx = b ∧ m.timesteps[w - b + 1]? = some r.nextTimestep ∧
          block m.numFramesPerBlock st'.noisyCache b =
            m.renoise (block m.numFramesPerBlock x0 (b - startBlock)) r.noise r.nextTimestep := by
  induction n with
  | zero => exact ⟨[], st, rfl, rfl, fun b h1 h2 _ => by omega⟩
  | succ n ih => ?_
  have hmul := Nat.succ_mul n m.numFramesPerBlock
  have hmul' : (startBlock + (n + 1)) * m.numFramesPerBlock =
      (startBlock + n) * m.numFramesPerBlock + m.numFramesPerBlock := Nat.succ_mul ..
  rw [Nat.succ_eq_add_one] at hmul
  obtain ⟨rs, st', hrun, hlen, hdone⟩ := ih (by omega) (by omega) (by omega)
  rw [range'_concat, foldlM_append, hrun]
  simp only [one_mul, foldlM_cons, foldlM_nil, bind, Except.bind, pure, Except.pure]
  by_cases hlast : w - (startBlock + n) + 1 = m.timesteps.length
  · -- The block takes its last step in this window and is left alone.
    refine ⟨rs, st', by simp [renoiseBlock, hlast], hlen, ?_⟩
    intro b h1 h2 h3
    exact hdone b h1 (by omega) h3
  have hlt : w - (startBlock + n) + 1 < m.timesteps.length := by omega
  obtain ⟨noise, st'', hround, hlen', hblocks⟩ := renoiseBlock_spec
    (rs, st') hlast (getElem?_eq_getElem hlt)
    (length_block (by rw [Nat.add_sub_cancel_left]; omega)) (by simp only [hlen]; omega)
  refine ⟨_, st'', by rw [hround], hlen'.trans hlen, ?_⟩
  intro b h1 h2 h3
  rw [hblocks b]
  by_cases hb : b = startBlock + n
  · subst hb
    rw [if_pos rfl]
    exact ⟨_, mem_append_right _ (mem_singleton.mpr rfl), rfl, getElem?_eq_getElem hlt, rfl⟩
  · rw [if_neg hb]
    obtain ⟨r, hr, hrest⟩ := hdone b h1 (by omega) h3
    exact ⟨r, mem_append_left _ hr, hrest⟩

lemma window_cases {S N : Nat} (hS : S ≤ N) (w : Nat) :
    (w + 1 - S = 0 ∧ min (N - 1) w = w ∧ w + 1 < S) ∨ (w + 1 = S + (w + 1 - S) ∧ min (N - 1) w = w) ∨
    (w + 1 = S + (w + 1 - S) ∧ min (N - 1) w = N - 1 ∧ N ≤ w) := by
  omega

section
variable [MulOneClass τ] {numBlocks nb w : Nat}

lemma windowTimestep_ok (h0 : 0 < m.timesteps.length) (hS : m.timesteps.length ≤ nb) :
    ∃ ts, m.windowTimestep (buildStaggeredTimesteps m.timesteps m.numFramesPerBlock)
        (nb * m.numFramesPerBlock) (w + 1 - m.timesteps.length) (min (nb - 1) w) = .ok ts ∧
      ts.length = (min (nb - 1) w + 1 - (w + 1 - m.timesteps.length)) * m.numFramesPerBlock ∧
      ∀ b, w + 1 - m.timesteps.length ≤ b → b ≤ min (nb - 1) w → ∃ t, m.timesteps[w - b]? = some t ∧
          block m.numFramesPerBlock ts (b - (w + 1 - m.timesteps.length)) =
            replicate m.numFramesPerBlock t := by
  have hpos := m.numFramesPerBlock_pos
  have hlen := m.length_staggered
  unfold windowTimestep
  simp only [← Nat.sub_mul, hlen, Nat.mul_right_cancel_iff hpos]
  obtain ⟨hs, he, hramp⟩ | ⟨hs, he⟩ | ⟨hs, he, hdrain⟩ := window_cases hS w
  · -- Ramp-up: the newest positions.
    rw [hs, he, if_neg (by omega), if_pos (by omega)]
    refine ⟨_, rfl, by rw [length_drop, hlen, ← Nat.sub_mul]; congr 1; omega, ?_⟩
    intro b _ hb
    obtain ⟨t, ht, hblock⟩ := m.block_staggered (i := m.timesteps.length - (w + 1) + b) (by omega)
    refine ⟨t, by rw [← ht]; congr 1; omega, ?_⟩
    rw [Nat.sub_zero, Nat.sub_zero, block_drop, hblock]
  · -- A full window.
    rw [he, if_pos (by omega)]
    refine ⟨_, rfl, by rw [hlen]; congr 1; omega, ?_⟩
    intro b hb hb'
    obtain ⟨t, ht, hblock⟩ := m.block_staggered (i := b - (w + 1 - m.timesteps.length)) (by omega)
    exact ⟨t, by rw [← ht]; congr 1; omega, hblock⟩
  -- Draining: the oldest positions.
  rw [he, if_neg (by omega), if_neg (Nat.mul_ne_zero (by omega) (by omega)), if_pos (by omega)]
  refine ⟨_, rfl, ?_, ?_⟩
  · rw [length_take, hlen, min_eq_left]
    exact Nat.mul_le_mul_right _ (by omega)
  · intro b hb hb'
    obtain ⟨t, ht, hblock⟩ := m.block_staggered (i := b - (w + 1 - m.timesteps.length)) (by omega)
    exact ⟨t, by rw [← ht]; congr 1; omega, by rw [block_take (by omega), hblock]⟩

lemma block_windowInput {noise noisyCache : List φ} (h0 : 0 < m.timesteps.length)
    (hS : m.timesteps.length ≤ nb) (hnoise : noise.length = nb * m.numFramesPerBlock)
    (hcache : noisyCache.length = nb * m.numFramesPerBlock) :
    (m.windowInput (buildStaggeredTimesteps m.timesteps m.numFramesPerBlock).length noise
        noisyCache (w + 1 - m.timesteps.length) (min (nb - 1) w)).length =
      (min (nb - 1) w + 1 - (w + 1 - m.timesteps.length)) * m.numFramesPerBlock ∧
    ∀ b, w + 1 - m.timesteps.length ≤ b → b ≤ min (nb - 1) w →
      block m.numFramesPerBlock
        (m.windowInput (buildStaggeredTimesteps m.timesteps m.numFramesPerBlock).length noise
          noisyCache (w + 1 - m.timesteps.length) (min (nb - 1) w))
        (b - (w + 1 - m.timesteps.length)) =
      if b = w then block m.numFramesPerBlock noise b
      else block m.numFramesPerBlock noisyCache b := by
  have hpos := m.numFramesPerBlock_pos
  have hlast : (min (nb - 1) w + 1) * m.numFramesPerBlock - m.numFramesPerBlock =
      min (nb - 1) w * m.numFramesPerBlock := by
    rw [add_mul, one_mul, Nat.add_sub_cancel]
  unfold windowInput
  simp only [hlast, m.length_staggered]
  simp only [← Nat.sub_mul, Nat.mul_right_cancel_iff hpos]
  by_cases hdrain : nb ≤ w
  · -- Draining: every block was in the window before.
    have he : min (nb - 1) w = nb - 1 := by omega
    rw [if_neg, he]
    · refine ⟨?_, ?_⟩
      · rw [length_extract _ (by rw [hcache]; exact Nat.mul_le_mul_right _ (by omega)),
          ← Nat.sub_mul]
      intro b hb hb'
      rw [block_extract (by omega), if_neg (by omega)]
      congr 1
      omega
    · rintro (h | h)
      · omega
      · rcases Nat.mul_eq_zero.mp h with h | h <;> omega
  -- Full or ramping up: the last block is new.
  have he : min (nb - 1) w = w := by omega
  set first := w + 1 - m.timesteps.length
  rw [if_pos, he]
  · have hleft : (noisyCache.extract (first * m.numFramesPerBlock)
        (w * m.numFramesPerBlock)).length =
        (w - first) * m.numFramesPerBlock := by
      rw [length_extract _ (by rw [hcache]; exact Nat.mul_le_mul_right _ (by omega)), ← Nat.sub_mul]
    refine ⟨?_, ?_⟩
    · rw [List.length_append, hleft,
        length_extract _ (by rw [hnoise]; exact Nat.mul_le_mul_right _ (by omega)), ← Nat.sub_mul,
        ← add_mul]
      congr 1
      omega
    intro b hb hb'
    by_cases hbw : b = w
    · rw [if_pos hbw, hbw, show w - first =
        w - first + 0 from rfl, block_append_right hleft,
        block_extract (by omega), add_zero]
    · rw [if_neg hbw, block_append_left hleft (by omega), block_extract (by omega)]
      congr 1
      omega
  grind
end

lemma Follows.get {nb w : Nat} {noise : List φ} {passes : List (WindowPass φ τ)}
    {prev : Option (WindowPass φ τ)} (h : m.Follows nb noise w prev passes) {p : WindowPass φ τ}
    (hp : passes[i]? = some p) :
    m.PassOk nb noise (w + i) (if i = 0 then prev else passes[i - 1]?) p := by
  induction passes generalizing w prev i with
  | nil => simp at hp
  | cons q passes ih => ?_
  cases i with
  | zero =>
    simp only [getElem?_cons_zero, Option.some.injEq] at hp
    exact hp ▸ h.1
  | succ i =>
    have hi := ih h.2 hp
    grind

section
variable [MulZeroOneClass τ] {numBlocks nb w : Nat} {noise : List φ}
variable {shared : List τ} {total : Nat} {st st' : RollingState φ ρ κ}
  {prev : Option (WindowPass φ τ)} {passes : List (WindowPass φ τ)}
  {p : WindowPass φ τ} {ts : List τ} {s e : Nat}

lemma runRollingWindow_eq {w : Nat} {input x0 : List φ} {rs : List (Renoised φ τ)}
    (hin : m.windowInput shared.length noise st.noisyCache s e = input)
    (hts : m.windowTimestep shared total s e = .ok ts)
    (hx0 : m.predNoiseToPredVideo
      (m.transformer st.kv input ts (s * m.numFramesPerBlock) false).1 input ts = x0)
        (hrenoise : m.renoiseUnfinishedBlocks x0 w s e
      { st with
        kv := (m.transformer st.kv input ts (s * m.numFramesPerBlock) false).2
        output := splice st.output (s * m.numFramesPerBlock) x0 } = .ok (rs, st')) :
    m.runRollingWindow shared noise total w s e st = .ok (⟨s, e, input, ts, x0, rs⟩,
      { st' with kv := (m.transformer st'.kv (block m.numFramesPerBlock x0 0)
          (replicate m.numFramesPerBlock 0) (s * m.numFramesPerBlock) true).2 }) := by
  subst hin hx0
  unfold runRollingWindow
  simp only [hts, hrenoise, bind, Except.bind, pure, Except.pure]

lemma runRollingWindow_ok (h0 : 0 < m.timesteps.length) (hS : m.timesteps.length ≤ nb)
    (hw : w < nb + m.timesteps.length - 1)
    (hnoise : noise.length = nb * m.numFramesPerBlock) (hready : m.Ready nb w prev st) :
    ∃ p st', m.runRollingWindow (buildStaggeredTimesteps m.timesteps m.numFramesPerBlock) noise
        (nb * m.numFramesPerBlock) w (w + 1 - m.timesteps.length) (min (nb - 1) w) st = .ok (p, st') ∧
      m.PassOk nb noise w prev p ∧ m.Ready nb (w + 1) (some p) st' := by
  set first := ((w + 1 - m.timesteps.length) * m.numFramesPerBlock)
  obtain ⟨ts, hts, htslen, htsblock⟩ := m.windowTimestep_ok (w := w) h0 hS
  obtain ⟨hinlen, hinblock⟩ := m.block_windowInput (w := w) h0 hS hnoise hready.length
  have hx0len := length_predNoiseToPredVideo (m := m)
    (m.length_transformer st.kv _ ts first false)
    (htslen.trans hinlen.symm)
  obtain ⟨rs, st', hrenoise, hlen, hblocks⟩ := renoise_loop (m := m) (w := w) _
    { st with
      kv := (m.transformer st.kv _ ts first false).2
      output := splice st.output first _ }
    (show w < w + 1 - m.timesteps.length + m.timesteps.length by omega)
    (min (nb - 1) w + 1 - (w + 1 - m.timesteps.length)) (by omega)
    (le_of_eq (hx0len.trans hinlen).symm)
    (by rw [hready.length]; exact Nat.mul_le_mul_right _ (by omega))
  refine ⟨_, _, runRollingWindow_eq rfl hts rfl hrenoise, ⟨rfl, rfl, htsblock, ?_, ?_⟩, ?_, ?_⟩
  · grind
  · intro b hb hb' hbw
    rw [hinblock b hb hb', if_neg hbw]
    exact hready.again b hb hb' hbw
  · exact hlen.trans hready.length
  · intro b hb hb' hbw
    obtain ⟨r, hr, hrb, hrt, hrblock⟩ := hblocks b (by omega) (by omega) (by omega)
    exact ⟨_, r, rfl, hr, hrb, by rw [← hrt]; congr 1; omega, hrblock⟩

lemma runWindows_follows (h0 : 0 < m.timesteps.length) (hS : m.timesteps.length ≤ nb)
    (hnoise : noise.length = nb * m.numFramesPerBlock) (k : Nat)
    (hk : w + k ≤ nb + m.timesteps.length - 1) (hready : m.Ready nb w prev st) :
    ∃ passes st', m.runWindows (buildStaggeredTimesteps m.timesteps m.numFramesPerBlock) noise
        (nb * m.numFramesPerBlock) w
        ((range' w k).map fun w => (w + 1 - m.timesteps.length, min (nb - 1) w)) st =
        .ok (passes, st') ∧
      passes.length = k ∧ m.Follows nb noise w prev passes := by
  induction k generalizing w prev st with
  | zero => exact ⟨[], st, rfl, rfl, trivial⟩
  | succ k ih => ?_
  obtain ⟨p, st₁, hrun, hok, hready1⟩ := runRollingWindow_ok h0 hS (by omega) hnoise hready
  obtain ⟨passes, st₂, hrest, hlen, hfollows⟩ := ih (by omega) hready1
  refine ⟨p :: passes, st₂, ?_, by rw [length_cons, hlen], hok, hfollows⟩
  rw [range'_succ, map_cons, runWindows, hrun]
  simp only [bind, Except.bind]
  rw [hrest]
  rfl

lemma runRollingWindow_timestep (h : m.runRollingWindow shared noise total w s e st = .ok (p, st')) :
    m.windowTimestep shared total s e = .ok p.timestep := by
  unfold runRollingWindow at h
  rcases hts : m.windowTimestep shared total s e with err | ts
  · rw [hts] at h; cases h
  simp only [hts, bind, Except.bind, pure, Except.pure] at h
  split at h
  · cases h
  · cases h
    rfl

lemma runWindows_timestep {bounds : List (Nat × Nat)}
    (h : m.runWindows shared noise total w bounds st = .ok (passes, st')) {i : Nat}
    (hp : passes[i]? = some p) :
    ∃ s e, bounds[i]? = some (s, e) ∧ m.windowTimestep shared total s e = .ok p.timestep := by
  induction bounds generalizing w st passes i with
  | nil => cases h; simp at hp
  | cons bound bounds ih => ?_
  obtain ⟨s, e⟩ := bound
  rw [runWindows] at h
  rcases hrun : m.runRollingWindow shared noise total w s e st with err | first
  · rw [hrun] at h; cases h
  obtain ⟨q, st₁⟩ := first
  rcases hrest : m.runWindows shared noise total (w + 1) bounds st₁ with err | rest
  · simp [hrun, hrest, bind, Except.bind] at h
  simp only [hrun, hrest, bind, Except.bind, pure, Except.pure] at h
  cases h
  cases i with
  | zero =>
    simp only [getElem?_cons_zero, Option.some.injEq] at hp
    exact ⟨s, e, rfl, hp ▸ runRollingWindow_timestep hrun⟩
  | succ i =>
    exact ih hrest hp

/-- The timesteps at which a pass feeds block `b`, if it does. -/
def fedTimestep (m : RollingForcingStage φ τ ρ κ) (b : Nat) (p : WindowPass φ τ) :
    Option (List τ) :=
  if p.startBlock ≤ b ∧ b ≤ p.endBlock
  then some (block m.numFramesPerBlock p.timestep (b - p.startBlock)) else none

structure FollowsSchedule (m : RollingForcingStage φ τ ρ κ) (numBlocks : Nat) (noise : List φ)
    (passes : List (WindowPass φ τ)) : Prop where
  length : passes.length = numBlocks + m.timesteps.length - 1
  pass : ∀ w p, passes[w]? = some p →
    m.PassOk numBlocks noise w (if w = 0 then none else passes[w - 1]?) p
  steps : ∀ b, b < numBlocks → passes.filterMap (m.fedTimestep b) =
    m.timesteps.map (List.replicate m.numFramesPerBlock)

omit [MulZeroOneClass τ] in
lemma filterMap_fedTimestep (hlen : passes.length = nb + m.timesteps.length - 1)
    (hpass : ∀ w p, passes[w]? = some p → m.PassOk nb noise w (if w = 0 then none else passes[w - 1]?) p)
    {b : Nat} (hb : b < nb) :
    passes.filterMap (m.fedTimestep b) = m.timesteps.map (replicate m.numFramesPerBlock) := by
  apply filterMap_window (b := b)
  · rw [length_map, hlen]
    omega
  · intro i y hy
    rw [getElem?_map, Option.map_eq_some_iff] at hy
    obtain ⟨t, ht, rfl⟩ := hy
    have hi : i < m.timesteps.length := (List.getElem?_eq_some_iff.mp ht).1
    have hp := getElem?_eq_getElem (show b + i < passes.length by omega)
    have hok := hpass _ _ hp
    have hs := hok.startBlock
    have he := hok.endBlock
    obtain ⟨t', ht', hblock⟩ := hok.timestep b (by omega) (by omega)
    rw [Nat.add_sub_cancel_left, ht, Option.some.injEq] at ht'
    refine ⟨_, hp, ?_⟩
    rw [fedTimestep, if_pos ⟨by omega, by omega⟩, hblock, ht']
  intro i p hp hout
  have hok := hpass _ _ hp
  have hs := hok.startBlock
  have he := hok.endBlock
  rw [length_map] at hout
  rw [fedTimestep, if_neg (by omega)]

lemma block_windowTimestep_short (hN : 0 < nb) (hS : nb < m.timesteps.length)
    (hts : m.windowTimestep (buildStaggeredTimesteps m.timesteps m.numFramesPerBlock)
      (nb * m.numFramesPerBlock) 0 (nb - 1) = .ok ts) : ∃ t, m.timesteps[0]? = some t ∧
      block m.numFramesPerBlock ts (nb - 1) = replicate m.numFramesPerBlock t := by
  have hpos := m.numFramesPerBlock_pos
  have hlen := m.length_staggered
  unfold windowTimestep at hts
  simp only [← Nat.sub_mul, hlen, Nat.mul_right_cancel_iff hpos] at hts
  rw [if_neg (by omega), if_pos (by omega)] at hts
  cases hts
  obtain ⟨t, ht, hblock⟩ := m.block_staggered (i := m.timesteps.length - 1) (by omega)
  refine ⟨t, by rw [← ht]; congr 1; omega, ?_⟩
  rw [block_drop, ← hblock]
  congr 1
  omega

/-- A video with at least as many blocks as steps follows the schedule without an exception; with
distinct timesteps, only such a video does. -/
theorem forward_followsSchedule [Zero φ] (m : RollingForcingStage φ τ ρ κ) (numBlocks : Nat)
    (noise : List φ) (gen : ρ) (kv : κ) (hN : 0 < numBlocks) (h0 : 0 < m.timesteps.length)
    (hnoise : noise.length = numBlocks * m.numFramesPerBlock) : (m.timesteps.length ≤ numBlocks →
      ∃ passes st, m.forward noise gen kv = .ok (passes, st) ∧
        m.FollowsSchedule numBlocks noise passes) ∧
    (m.timesteps.Nodup → ∀ passes st, m.forward noise gen kv = .ok (passes, st) →
      m.FollowsSchedule numBlocks noise passes → m.timesteps.length ≤ numBlocks) := by
  have hpos := m.numFramesPerBlock_pos
  have hforward : m.forward noise gen kv =
      m.runWindows (buildStaggeredTimesteps m.timesteps m.numFramesPerBlock) noise
        (numBlocks * m.numFramesPerBlock) 0
        ((range' 0 (numBlocks + m.timesteps.length - 1)).map fun w =>
          (w + 1 - m.timesteps.length, min (numBlocks - 1) w))
        ⟨replicate (numBlocks * m.numFramesPerBlock) 0,
          replicate (numBlocks * m.numFramesPerBlock) 0, gen, kv⟩ := by
    unfold forward buildRollingWindowBounds
    simp only [hnoise, Nat.mul_mod_left, Nat.mul_div_cancel _ hpos, range_eq_range']
    rfl
  constructor
  · intro hS
    have hready : m.Ready numBlocks 0 none
        ⟨replicate (numBlocks * m.numFramesPerBlock) 0,
          replicate (numBlocks * m.numFramesPerBlock) 0, gen, kv⟩ :=
      ⟨by simp, fun b _ hb hb0 => by omega⟩
    obtain ⟨passes, st, hrun, hlen, hfollows⟩ := runWindows_follows h0 hS hnoise
      (numBlocks + m.timesteps.length - 1) (by omega) hready
    have hpass : ∀ w p, passes[w]? = some p →
        m.PassOk numBlocks noise w (if w = 0 then none else passes[w - 1]?) p := by
      intro w p hp
      have hok := hfollows.get hp
      rwa [zero_add] at hok
    exact ⟨passes, st, hforward.trans hrun, hlen, hpass, fun b hb => filterMap_fedTimestep hlen hpass hb⟩
  intro hnodup passes st hrun hfollows
  by_contra hS
  have hlen := hfollows.length
  have hp := getElem?_eq_getElem (show numBlocks < passes.length by omega)
  obtain ⟨s, e, hbound, hts⟩ := runWindows_timestep (hforward ▸ hrun) hp
  rw [getElem?_map, getElem?_range' (by omega), Option.map_some, Option.some.injEq,
    Prod.mk.injEq] at hbound
  obtain ⟨rfl, rfl⟩ := hbound
  have hok := hfollows.pass _ _ hp
  have hs := hok.startBlock
  have he := hok.endBlock
  rw [show 0 + 1 * numBlocks + 1 - m.timesteps.length = 0 by omega,
    show min (numBlocks - 1) (0 + 1 * numBlocks) = numBlocks - 1 by omega] at hts
  obtain ⟨t, ht, hblock⟩ := block_windowTimestep_short hN (by omega) hts
  obtain ⟨t', ht', hblock'⟩ := hok.timestep (numBlocks - 1) (by omega) (by omega)
  rw [show numBlocks - 1 - (passes[numBlocks]).startBlock = numBlocks - 1 by omega, hblock,
    replicate_inj] at hblock'
  have htt : t = t' := hblock'.2.resolve_left (by omega)
  have h01 := (getElem?_inj h0 hnodup).mp (ht.trans (htt ▸ ht'.symm))
  omega
end

def twoStepStage : RollingForcingStage Nat Nat Nat Unit where
  numFramesPerBlock := 1
  timesteps := [1000, 500]
  transformer := fun kv latents _ _ _ => (latents, kv)
  predVideo := fun predNoise latent _ => latent + predNoise
  randn := fun gen n => (List.replicate n gen, gen + 1)
  addNoise := fun x0 noise timestep => x0 + noise + timestep
  numFramesPerBlock_pos := zero_lt_one
  length_transformer := fun _ _ _ _ _ => rfl
  length_randn := fun _ _ => List.length_replicate

theorem three_blocks_follow :
    ∃ passes st, twoStepStage.forward [7, 8, 9] 0 () = .ok (passes, st) ∧
      twoStepStage.FollowsSchedule 3 [7, 8, 9] passes :=
  (forward_followsSchedule twoStepStage 3 [7, 8, 9] 0 () (by decide) (by decide) rfl).1 (by decide)

theorem one_block_restarts :
    ∃ passes st p, twoStepStage.forward [7] 0 () = .ok (passes, st) ∧ passes[1]? = some p ∧
      p.startBlock = 0 ∧ p.endBlock = 0 ∧ p.timestep = [1000] ∧ p.noisyInput = [7] ∧
      passes.filterMap (twoStepStage.fedTimestep 0) = [[1000], [1000]] ∧
      ¬ twoStepStage.FollowsSchedule 1 [7] passes := by
  refine ⟨_, _, _, rfl, rfl, rfl, rfl, rfl, rfl, rfl, ?_⟩
  intro hfollows
  have hsteps := hfollows.steps 0 zero_lt_one
  exact absurd hsteps (by decide)
end RollingForcingStage
end Sglang
