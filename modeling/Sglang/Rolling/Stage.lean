import Sglang.Lib.Blocks

/-!
# The Rolling Forcing denoising stage

The model of `RollingForcingDenoisingStage` (`pipelines_core/stages/rolling_forcing_denoising.py`).
-/

namespace Sglang
/-- `build_rolling_window_bounds`: inclusive block bounds of every window pass. -/
def buildRollingWindowBounds (numBlocks windowLengthBlocks : Nat) : List (Nat × Nat) :=
  (List.range (numBlocks + windowLengthBlocks - 1)).map fun windowIndex =>
    (windowIndex + 1 - windowLengthBlocks, min (numBlocks - 1) windowIndex)

/-- `build_staggered_timesteps`: position `index` gets the `index`-th timestep from the end. -/
def buildStaggeredTimesteps {τ : Type} [MulOneClass τ] (timesteps : List τ)
    (numFramesPerBlock : Nat) : List τ :=
  timesteps.reverse.zipIdx.foldl
    (fun shared (timestep, index) => splice shared (index * numFramesPerBlock)
      ((block numFramesPerBlock shared index).map (· * timestep)))
        (List.replicate (timesteps.length * numFramesPerBlock) 1)

/-- Frames of a block, steps (noisiest first), the DiT over caches `κ`, scheduler, generator `ρ`. -/
structure RollingForcingStage (φ τ ρ κ : Type) where
  numFramesPerBlock : Nat
  timesteps : List τ
  /-- `_forward_rolling_transformer` on latents, frame timesteps, first frame and
  `updating_cache`. -/
  transformer : κ → List φ → List τ → Nat → Bool → List φ × κ
  /-- `pred_noise_to_pred_video` on the predicted noise, the input and the timestep of a frame. -/
  predVideo : φ → φ → τ → φ
  /-- `torch.randn` for a number of frames. -/
  randn : ρ → Nat → List φ × ρ
  /-- `scheduler.add_noise` on the clean frame, the noise and the timestep. -/
  addNoise : φ → φ → τ → φ
  numFramesPerBlock_pos : 0 < numFramesPerBlock
  length_transformer : ∀ kv latents timestep start updating,
    (transformer kv latents timestep start updating).1.length = latents.length
  length_randn : ∀ gen n, (randn gen n).1.length = n

inductive RollingError where
  /-- The frames of the video do not make whole blocks. -/
  | notDivisible (totalFrames numFramesPerBlock : Nat)
  /-- The window is neither full nor ramping up nor draining. -/
  | badWindow (startFrame endFrame : Nat)
  /-- An index past the last timestep. -/
  | timestepIndex (index : Nat)
deriving DecidableEq

/-- The text of an exception; an index error has the text of the tensor library. -/
def RollingError.message : RollingError → String
  | .notDivisible totalFrames blk =>
    s!"num latent frames ({totalFrames}) must be divisible by " ++
      s!"num_frames_per_block ({blk}) for rolling forcing"
  | .badWindow startFrame endFrame =>
    "rolling window must be full, ramping up, or draining; got " ++
      s!"start_frame={startFrame}, end_frame={endFrame}"
  | .timestepIndex _ => "index out of range"

structure RollingState (φ ρ κ : Type) where
  noisyCache : List φ
  output : List φ
  gen : ρ
  kv : κ

structure Renoised (φ τ : Type) where
  blockIdx : Nat
  nextTimestep : τ
  noise : List φ

structure WindowPass (φ τ : Type) where
  startBlock : Nat
  endBlock : Nat
  noisyInput : List φ
  timestep : List τ
  x0 : List φ
  renoised : List (Renoised φ τ)

namespace RollingForcingStage
variable {φ τ ρ κ : Type} (m : RollingForcingStage φ τ ρ κ)

def renoise (x0Block noise : List φ) (timestep : τ) : List φ :=
  List.zipWith (fun x n => m.addNoise x n timestep) x0Block noise

def predNoiseToPredVideo (predNoise noisyInput : List φ) (timestep : List τ) : List φ :=
  List.zipWith (fun frame t => m.predVideo frame.1 frame.2 t) (predNoise.zip noisyInput) timestep

/-- The body of the loop of `_renoise_unfinished_blocks`. -/
def renoiseBlock (x0 : List φ) (windowIndex startBlock : Nat)
    (acc : List (Renoised φ τ) × RollingState φ ρ κ) (blockIdx : Nat) :
    Except RollingError (List (Renoised φ τ) × RollingState φ ρ κ) :=
  let stepIndex := windowIndex - blockIdx
  if stepIndex + 1 = m.timesteps.length then .ok acc
  else match m.timesteps[stepIndex + 1]? with
    | none => .error (.timestepIndex (stepIndex + 1))
    | some nextTimestep =>
      let x0Block := block m.numFramesPerBlock x0 (blockIdx - startBlock)
      let (noise, gen) := m.randn acc.2.gen x0Block.length
      .ok (acc.1 ++ [⟨blockIdx, nextTimestep, noise⟩],
        { acc.2 with
          gen
          noisyCache := splice acc.2.noisyCache (blockIdx * m.numFramesPerBlock)
            (m.renoise x0Block noise nextTimestep) })

def renoiseUnfinishedBlocks (x0 : List φ) (windowIndex startBlock endBlock : Nat)
    (st : RollingState φ ρ κ) : Except RollingError (List (Renoised φ τ) × RollingState φ ρ κ) :=
  (List.range' startBlock (endBlock + 1 - startBlock)).foldlM
    (m.renoiseBlock x0 windowIndex startBlock) ([], st)

/-- Re-noised blocks, and fresh noise for the last block of a full or ramp-up window. -/
def windowInput (windowFrames : Nat) (noise noisyCache : List φ) (startBlock endBlock : Nat) :
    List φ :=
  let blk := m.numFramesPerBlock
  let startFrame := startBlock * blk
  let endFrame := (endBlock + 1) * blk
  if endFrame - startFrame = windowFrames ∨ startFrame = 0 then
    noisyCache.extract startFrame (endFrame - blk) ++ noise.extract (endFrame - blk) endFrame
  else noisyCache.extract startFrame endFrame

def windowTimestep (sharedTimestep : List τ) (totalFrames startBlock endBlock : Nat) :
    Except RollingError (List τ) :=
  let startFrame := startBlock * m.numFramesPerBlock
  let endFrame := (endBlock + 1) * m.numFramesPerBlock
  let numFrames := endFrame - startFrame
  if numFrames = sharedTimestep.length then .ok sharedTimestep
  else if startFrame = 0 then .ok (sharedTimestep.drop (sharedTimestep.length - numFrames))
  else if endFrame = totalFrames then .ok (sharedTimestep.take numFrames)
  else .error (.badWindow startFrame endFrame)

def runRollingWindow [Zero τ] (sharedTimestep : List τ) (noise : List φ)
    (totalFrames windowIndex startBlock endBlock : Nat) (st : RollingState φ ρ κ) :
    Except RollingError (WindowPass φ τ × RollingState φ ρ κ) := do
  let blk := m.numFramesPerBlock
  let startFrame := startBlock * blk
  let noisyInput := m.windowInput sharedTimestep.length noise st.noisyCache startBlock endBlock
  let timestep ← m.windowTimestep sharedTimestep totalFrames startBlock endBlock
  let pred := m.transformer st.kv noisyInput timestep startFrame false
  let x0 := m.predNoiseToPredVideo pred.1 noisyInput timestep
  let (renoised, st) ← m.renoiseUnfinishedBlocks x0 windowIndex startBlock endBlock
    { st with kv := pred.2, output := splice st.output startFrame x0 }
  let cached := m.transformer st.kv (block blk x0 0) (List.replicate blk 0) startFrame true
  return (⟨startBlock, endBlock, noisyInput, timestep, x0, renoised⟩, { st with kv := cached.2 })

/-- The loop of `forward`. -/
def runWindows [Zero τ] (sharedTimestep : List τ) (noise : List φ) (totalFrames : Nat) :
    Nat → List (Nat × Nat) → RollingState φ ρ κ →
      Except RollingError (List (WindowPass φ τ) × RollingState φ ρ κ)
  | _, [], st => .ok ([], st)
  | windowIndex, (startBlock, endBlock) :: bounds, st => do
    let (pass, st) ←
      m.runRollingWindow sharedTimestep noise totalFrames windowIndex startBlock endBlock st
    let (passes, st) ← runWindows sharedTimestep noise totalFrames (windowIndex + 1) bounds st
    return (pass :: passes, st)

/-- `forward` on the noise of a whole video, with empty caches `kv`. -/
def forward [MulZeroOneClass τ] [Zero φ] (noise : List φ) (gen : ρ) (kv : κ) :
    Except RollingError (List (WindowPass φ τ) × RollingState φ ρ κ) :=
  let totalFrames := noise.length
  let blk := m.numFramesPerBlock
  if totalFrames % blk ≠ 0 then .error (.notDivisible totalFrames blk)
  else
    m.runWindows (buildStaggeredTimesteps m.timesteps blk) noise totalFrames 0
      (buildRollingWindowBounds (totalFrames / blk) m.timesteps.length)
      ⟨List.replicate totalFrames 0, List.replicate totalFrames 0, gen, kv⟩
end RollingForcingStage
end Sglang
