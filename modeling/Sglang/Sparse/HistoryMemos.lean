import Sglang.Sparse.LightForcing
import Sglang.Sparse.MemoVideos
import Sglang.Sparse.Svg2

/-!
# The history memos of LightForcing and SVG2

Both methods clear their memo when the chunk index decreases.
-/

namespace Sglang
open List MemoVideo Svg2Tensors HeadClustering
open Ranking (stable)

lemma LightForcing.quiet (lf : LightForcing) (num : SelectionNumerics)
    (v : MemoVideo BatchTensors PoolSignature PooledKeys) (e : Event BatchTensors) :
    Quiet (lf.backend num) v e := by
  rintro call upd L rfl hl hz
  have hreaches := ((lf.backend num).reachedLayout_eq_some hl).2
  rw [lf.not_reaches_of_chunk_zero num hz] at hreaches
  cases hreaches

lemma MemoVideo.UsesOwn.of_quiet {τ κ β ρ : Type} [DecidableEq κ] {b : MemoBackend τ κ β ρ}
    {past : List (Event τ)} {v : MemoVideo τ κ β}
    (hr : Run (next b) (fun v e => Admits b v e ∧ Quiet b v e) initial past v)
    {call : SparseAttentionCall τ} {upd : Bool}
    (ha : Admits b v (.attend call upd)) : UsesOwn b v call := by
  obtain ⟨hfresh, hclean⟩ := fresh_of_quiet hr
  exact built_of_run hfresh ha (fresh_of_clean hclean ha)

/-- LightForcing uses its own video's keys in every run; SVG2 its own clusterings if no first one
meets an earlier one; and clusterings are always bijections with partitions. -/
theorem history_memos_from_own_video (lf : LightForcing) (lfNum : SelectionNumerics)
    (svg : Svg2Config) (svgNum : Svg2Numerics) : (∀ past v call inCacheUpdate,
      Run (next (lf.backend lfNum)) (Admits (lf.backend lfNum)) initial past v →
      Admits (lf.backend lfNum) v (.attend call inCacheUpdate) → UsesOwn (lf.backend lfNum) v call) ∧
    (∀ past v call inCacheUpdate, FreshRun (svg.backend svgNum) past v →
      Admits (svg.backend svgNum) v (.attend call inCacheUpdate) →
      Fresh (svg.backend svgNum) v (.attend call inCacheUpdate) → UsesOwn (svg.backend svgNum) v call) ∧
    (∀ past v call value r,
      Run (next (svg.backend svgNum)) (Admits (svg.backend svgNum)) initial past v →
      ((svg.backend svgNum).attend v.backend call).2 = some (value, r) →
        ∀ head ∈ value, IsPartition (historyTokens call) (svg.numClusters call) head) := by
  refine ⟨fun past v call inCacheUpdate hr ha => ?_, fun past v call inCacheUpdate hr ha hf => ?_,
    fun past v call value r hr h => ?_⟩
  · have hquiet : Run (next (lf.backend lfNum))
        (fun v e => Admits (lf.backend lfNum) v e ∧ Quiet (lf.backend lfNum) v e) initial past v :=
      hr.mono (I := fun _ _ => True) trivial (fun _ _ _ _ _ => trivial)
        fun _ v e _ ha => ⟨ha, lf.quiet lfNum v e⟩
    exact .of_quiet hquiet ha
  · exact built_of_run hr ha hf
  obtain ⟨layout, -, hpartition⟩ := valid_of_run
    (P := fun signature value => ∀ head ∈ value, IsPartition signature.2.1 signature.2.2 head)
    (fun start call layout hreaches => svg.compute_partition svgNum start call layout hreaches)
    hr h
  exact hpartition

/-! ## Clips in a row -/

section
variable {τ κ β ρ : Type} [DecidableEq κ] {b : MemoBackend τ κ β ρ} {v : MemoVideo τ κ β}
  {call : SparseAttentionCall τ} {upd : Bool}

lemma admits_of_history (h : v.clock.chunk.isSome = true) (hlog : ∀ p ∈ v.log, b.SameHistory call p.2) :
    Admits b v (.attend call upd) := by
  refine ⟨h, ?_⟩
  rintro _ _ ⟨⟩ g call' hmem - -
  exact hlog _ hmem

lemma fresh_of_empty (h : v.backend.entries call.layerIndex = none) : Fresh b v (.attend call upd) := by
  rintro _ _ L ⟨⟩ - - ent he
  rw [h] at he
  cases he
end

namespace Pooled
def smallLightForcing : LightForcing where
  config := { blockQ := 16, blockK := 1, sparsity := 1 / 2, sparsityBase := 1 / 2 }
  blockQ_ok := by decide
  budget_ok := rfl

abbrev smallBackend := smallLightForcing.backend .small

def smallCall (content : ℚ) (frames : Nat) : SparseAttentionCall BatchTensors :=
  clipCall { batch := 1, query := fun _ _ _ => [1], key := fun _ _ _ => [content] } 1 frames

def twoClips : List (Event BatchTensors) :=
  .beginForward (clipGeometry 1 1 1) :: clipChunk (smallCall 2) 1 ++ .newVideo ::
    clipChunk (smallCall 1) 2 ++ clipChunk (smallCall 1) 1

def smallState (past : List (Event BatchTensors)) :
    MemoVideo BatchTensors PoolSignature PooledKeys :=
  past.foldr (fun e v => next smallBackend v e) initial

lemma sameHistory (cont : ℚ) (frames frames' : Nat) :
    smallBackend.SameHistory (smallCall cont frames) (smallCall cont frames') :=
  fun _ _ _ _ => rfl

lemma run_twoClips :
    Run (next smallBackend) (Admits smallBackend) initial twoClips (smallState twoClips) := by
  iterate 8 refine .step _ ?_ ?_
  · exact .start
  · exact ⟨rfl, nofun⟩
  · exact admits_of_history rfl nofun
  · exact ⟨zero_le, nofun⟩
  · exact admits_of_history rfl (forall_mem_cons.mpr ⟨sameHistory 1 2 1, nofun⟩)
  · exact ⟨trivial, nofun⟩
  · exact ⟨rfl, nofun⟩
  · exact admits_of_history rfl nofun
  · exact ⟨zero_le, nofun⟩
end Pooled

namespace Svg2Clips
def smallConfig : Svg2Config := { clusterSize := 1, kmeansWarmIters := 0 }

def smallNumerics : Svg2Numerics where
  argmax xs := (stable.order xs).headD 0
  argmax_lt xs h := by
    have hperm := stable.perm xs
    have hlen : (stable.order xs).length = xs.length := by
      rw [hperm.length_eq, length_range]
    rcases ho : stable.order xs with _ | ⟨i, rest⟩
    · rw [ho] at hlen
      exact absurd (length_eq_zero_iff.mp hlen.symm) h
    have hmem : i ∈ stable.order xs := ho ▸ mem_cons_self
    exact mem_range.mp (hperm.mem_iff.mp hmem)
  softmax xs := xs
  descending := .stable
  log _ := 0

abbrev smallBackend := smallConfig.backend smallNumerics

def smallGeometry (start : Nat) : ChunkGeometry := clipGeometry 2 2 start

def smallCall (content : ℚ) (queryTokens kvLen : Nat) : SparseAttentionCall Svg2Tensors :=
  clipCall { query := fun _ _ => [1], key := fun _ _ => [content], softmaxScale := 1 }
    queryTokens kvLen

def imageStart (content : ℚ) : List (Event Svg2Tensors) :=
  [.beginForward (smallGeometry 2), .attend (smallCall content 2 2) false,
    .beginForward (smallGeometry 0)]

def twoClips : List (Event Svg2Tensors) :=
  imageStart 2 ++ .newVideo :: .attend (smallCall 1 4 6) false :: imageStart 1

def longerFirstClip : List (Event Svg2Tensors) :=
  imageStart 2 ++ .newVideo :: .beginForward (smallGeometry 6) ::
    .attend (smallCall 1 4 6) false :: imageStart 1

def smallState (past : List (Event Svg2Tensors)) :
    MemoVideo Svg2Tensors ClusterSignature (List HeadClustering) :=
  past.foldr (fun e v => next smallBackend v e) initial

lemma sameHistory (cont : ℚ) (queryTokens kvLen queryTokens' kvLen' : Nat) :
    smallBackend.SameHistory (smallCall cont queryTokens kvLen) (smallCall cont queryTokens' kvLen') :=
  fun _ _ _ => rfl

lemma run_longerFirstClip : FreshRun smallBackend longerFirstClip (smallState longerFirstClip) := by
  iterate 9 refine .step _ ?_ ?_
  · exact .start
  · exact ⟨⟨rfl, nofun⟩, nofun⟩
  · exact ⟨admits_of_history rfl nofun, fresh_of_empty rfl⟩
  · exact ⟨⟨le_rfl, nofun⟩, nofun⟩
  · exact ⟨admits_of_history rfl (forall_mem_cons.mpr ⟨sameHistory 1 4 6 2 2, nofun⟩),
      fresh_of_empty rfl⟩
  · exact ⟨⟨zero_le, nofun⟩, nofun⟩
  · exact ⟨⟨trivial, nofun⟩, nofun⟩
  · exact ⟨⟨rfl, nofun⟩, nofun⟩
  · exact ⟨admits_of_history rfl nofun, fresh_of_empty rfl⟩
  · exact ⟨⟨le_rfl, nofun⟩, nofun⟩

theorem second_clip_memos : (∃ value r, (Pooled.smallBackend.attend
        (Pooled.smallState Pooled.twoClips).backend (Pooled.smallCall 2 2)).2 = some (value, r)) ∧
    UsesOwn Pooled.smallBackend (Pooled.smallState Pooled.twoClips) (Pooled.smallCall 2 2) ∧
    UsesOwn smallBackend (smallState longerFirstClip) (smallCall 2 4 6) ∧
    ∃ value r, (smallBackend.attend (smallState longerFirstClip).backend (smallCall 2 4 6)).2 =
        some (value, r) ∧ value.map centroids = [[[2], [2]]] ∧
      ∀ head ∈ value, IsPartition 2 2 head := by
  obtain ⟨hlf, hown, hpartition⟩ := history_memos_from_own_video
    Pooled.smallLightForcing .small smallConfig smallNumerics
  have hpooled : (Pooled.smallBackend.attend
      (Pooled.smallState Pooled.twoClips).backend
      (Pooled.smallCall 2 2)).2.isSome = true := by decide +kernel
  obtain ⟨⟨pooled, plan⟩, hp⟩ := Option.isSome_iff_exists.mp hpooled
  have hclustered : (smallBackend.attend (smallState longerFirstClip).backend
      (smallCall 2 4 6)).2.map (fun found => found.1.map centroids) =
        some [[[2], [2]]] := by decide +kernel
  obtain ⟨⟨value, r⟩, h, hcentroids⟩ := Option.map_eq_some_iff.mp hclustered
  have hadmitted : Run (next smallBackend) (Admits smallBackend) initial longerFirstClip
      (smallState longerFirstClip) :=
    run_longerFirstClip.mono (I := fun _ _ => True) trivial (fun _ _ _ _ _ => trivial)
      fun _ _ _ _ hok => hok.1
  refine ⟨⟨pooled, plan, hp⟩, ?_, ?_, value, r, h, hcentroids, ?_⟩
  · exact hlf _ _ (Pooled.smallCall 2 2) false Pooled.run_twoClips
      (admits_of_history rfl (forall_mem_cons.mpr ⟨Pooled.sameHistory 2 2 1, nofun⟩))
  · exact hown _ _ (smallCall 2 4 6) false run_longerFirstClip
      (admits_of_history rfl (forall_mem_cons.mpr ⟨sameHistory 2 4 6 2 2, nofun⟩))
      (fresh_of_empty rfl)
  · exact hpartition _ _ (smallCall 2 4 6) value r hadmitted h

lemma run_twoClips :
    Run (next smallBackend) (Admits smallBackend) initial twoClips (smallState twoClips) := by
  iterate 8 refine .step _ ?_ ?_
  · exact .start
  · exact ⟨rfl, nofun⟩
  · exact admits_of_history rfl nofun
  · exact ⟨le_rfl, nofun⟩
  · exact admits_of_history rfl (forall_mem_cons.mpr ⟨sameHistory 1 4 6 2 2, nofun⟩)
  · exact ⟨trivial, nofun⟩
  · exact ⟨rfl, nofun⟩
  · exact admits_of_history rfl nofun
  · exact ⟨le_rfl, nofun⟩

theorem earlier_video_clustering :
    Run (next smallBackend) (Admits smallBackend) initial twoClips (smallState twoClips) ∧
    Admits smallBackend (smallState twoClips) (.attend (smallCall 2 4 6) false) ∧
    ∃ value r, (smallBackend.attend (smallState twoClips).backend (smallCall 2 4 6)).2 =
        some (value, r) ∧ value.map centroids = [[[1], [1]]] ∧
      ¬ UsesOwn smallBackend (smallState twoClips) (smallCall 2 4 6) := by
  have hstale : (smallBackend.attend (smallState twoClips).backend (smallCall 2 4 6)).2.map
      (fun found => found.1.map centroids) = some [[[1], [1]]] := by decide +kernel
  obtain ⟨⟨value, r⟩, h, hcentroids⟩ := Option.map_eq_some_iff.mp hstale
  -- the clustering that is used was computed in video 0, and this is video 1
  have hsources : (smallBackend.reachedLayout (smallState twoClips).backend.geometry
      (smallCall 2 4 6)).map (sources smallBackend (smallState twoClips) (smallCall 2 4 6)) =
        some [0] := by decide +kernel
  refine ⟨run_twoClips, admits_of_history rfl
    (forall_mem_cons.mpr ⟨sameHistory 2 4 6 2 2, nofun⟩), value, r, h, hcentroids, ?_⟩
  intro hown
  obtain ⟨layout, hl, -, hvideo⟩ := hown value r h
  rw [hl, Option.map_some, Option.some.injEq] at hsources
  rw [hsources, forall_mem_singleton] at hvideo
  cases hvideo
end Svg2Clips
end Sglang
