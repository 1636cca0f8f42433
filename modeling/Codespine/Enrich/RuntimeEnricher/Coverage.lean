import Codespine.Enrich.RuntimeEnricher.Run
import Codespine.Lib.Counting
import Codespine.Query.CostRanking

open codespine.schema codespine.store codespine.query

namespace codespine.enrich

/-- No profile node is described twice, and none has a negative number of hits. -/
structure CpuProfileData.WellFormed (profile : CpuProfileData) : Prop where
  distinct : (profile.nodes.map ProfileNode.id).Nodup
  hits : CpuProfile.ticks profile = none → ∀ node ∈ profile.nodes, 0 ≤ CpuProfile.hits node

namespace CpuProfile

variable {profile : CpuProfileData}

/-- Adding amounts that are not negative leaves none that is. -/
theorem getD_foldl_add_nonneg {α : Type} (list : List α) (key : α → ℚ) {amount : α → ℚ} (h : ∀ a, 0 ≤ amount a)
    {map : OrderedMap ℚ ℚ} (hmap : ∀ k, 0 ≤ map.getD k 0) (k : ℚ) :
    0 ≤ (list.foldl (fun map a => map.add (key a) (amount a)) map).getD k 0 := by
  induction list generalizing map with
  | nil => exact hmap k
  | cons a rest ih =>
    refine ih fun k => ?_
    rw [OrderedMap.getD_add]
    refine add_nonneg (hmap k) ?_
    split
    · exact h a
    · exact le_refl _

theorem getD_hitsByNode_nonneg (nodes : List ProfileNode) (k : ℚ) : 0 ≤ (hitsByNode nodes).getD k 0 := by
  unfold hitsByNode
  have hmap : ∀ k, 0 ≤ (∅ : OrderedMap ℚ ℚ).getD k 0 := fun _ => le_refl _
  generalize (∅ : OrderedMap ℚ ℚ) = map at hmap
  induction nodes generalizing map with
  | nil => exact hmap k
  | cons node rest ih =>
    refine ih _ fun k => ?_
    dsimp only
    split
    · next hpos =>
      rw [OrderedMap.getD_set]
      split
      · exact hpos.le
      · exact hmap k
    · exact hmap k

theorem safeDelta_nonneg (profile : CpuProfileData) (i : ℕ) : 0 ≤ safeDelta profile i := by
  rw [safeDelta_eq]
  exact le_max_left _ _

theorem foldl_ticks_snd (weight : ℕ → ℚ) (list : List (ℚ × ℕ)) (maps : OrderedMap ℚ ℚ × OrderedMap ℚ ℚ) :
    (list.foldl (fun maps tick => (maps.1.add tick.1 1, maps.2.add tick.1 (weight tick.2))) maps).2 =
      list.foldl (fun map tick => map.add tick.1 (weight tick.2)) maps.2 := by
  induction list generalizing maps with
  | nil => rfl
  | cons tick rest ih => exact ih _

/-- No profile node has negative cost. -/
theorem costsByNode_nonneg (profile : CpuProfileData) (k : ℚ) :
    0 ≤ (costsByNode profile).1.getD k 0 ∧ 0 ≤ (costsByNode profile).2.getD k 0 := by
  cases hticks : ticks profile with
  | none =>
    rw [costsByNode_hits hticks]
    exact ⟨getD_hitsByNode_nonneg profile.nodes k, le_refl _⟩
  | some samples =>
    obtain ⟨_, _, _, _, hcount⟩ :=
      foldl_ticks (safeDelta profile) samples.zipIdx ((∅, ∅) : OrderedMap ℚ ℚ × OrderedMap ℚ ℚ)
    rw [costsByNode_ticks hticks]
    constructor
    · rw [hcount]
      exact add_nonneg (le_refl _) (Nat.cast_nonneg _)
    · rw [foldl_ticks_snd]
      exact getD_foldl_add_nonneg samples.zipIdx Prod.fst (fun tick => safeDelta_nonneg profile tick.2) (fun _ => le_refl _) k

/-- No frame has negative cost. -/
theorem aggregate_nonneg {frame : FrameSample} (hframe : frame ∈ aggregate profile) :
    0 ≤ frame.samples ∧ 0 ≤ frame.selfMicros := by
  obtain ⟨node, _, hframe⟩ := List.mem_filterMap.mp hframe
  unfold frameSample at hframe
  dsimp only at hframe
  split at hframe
  · cases hframe
  · cases hframe
    exact costsByNode_nonneg profile node.id

/-- The frames of a profile carry no more samples than it has. -/
theorem sum_samples_le (h : profile.WellFormed) :
    ((aggregate profile).map FrameSample.samples).sum ≤ totalSamples profile := by
  cases hticks : ticks profile with
  | none => exact (aggregate_totals_hits h.distinct hticks (h.hits hticks)).1.le
  | some samples =>
    obtain ⟨_, _, _, _, hcount⟩ :=
      foldl_ticks (safeDelta profile) samples.zipIdx ((∅, ∅) : OrderedMap ℚ ℚ × OrderedMap ℚ ℚ)
    have hframes : ∀ node : ProfileNode,
        ((frameSample (costsByNode profile) node).map FrameSample.samples).getD 0 = samples.count node.id := by
      intro node
      rw [samples_frameSample, costsByNode_ticks hticks, hcount, List.zipIdx_map_fst]
      exact zero_add _
    have hle := counting.sum_count_le h.distinct samples
    unfold aggregate
    rw [sum_map_filterMap, totalSamples, hticks]
    simp only [hframes]
    rw [List.map_map] at hle
    have hcast : (profile.nodes.map fun node => (samples.count node.id : ℚ)).sum =
        ((profile.nodes.map ((fun value => samples.count value) ∘ ProfileNode.id)).sum : ℕ) := by
      rw [Nat.cast_list_sum, List.map_map]
      rfl
    rw [hcast]
    exact_mod_cast hle

end CpuProfile

namespace RuntimeJoin

variable {host : Host} {nodes : List RuntimeTargetNode} {root : String}

/-- No counter of the loop is negative. -/
structure JoinState.Nonneg (state : JoinState) : Prop where
  matchedSamples : 0 ≤ state.matchedSamples
  matchedSelfMicros : 0 ≤ state.matchedSelfMicros
  droppedSamples : 0 ≤ state.droppedSamples
  droppedSelfMicros : 0 ≤ state.droppedSelfMicros

theorem JoinState.Nonneg.record {state : JoinState} (h : state.Nonneg) {frame : FrameSample}
    (hframe : 0 ≤ frame.samples ∧ 0 ≤ frame.selfMicros) (resolution : NodeResolution) :
    (state.record host frame resolution).Nonneg := by
  cases resolution with
  | missing reason =>
    exact ⟨h.matchedSamples, h.matchedSelfMicros, add_nonneg h.droppedSamples hframe.1,
      add_nonneg h.droppedSelfMicros hframe.2⟩
  | found node via =>
    exact ⟨add_nonneg h.matchedSamples hframe.1, add_nonneg h.matchedSelfMicros hframe.2, h.droppedSamples,
      h.droppedSelfMicros⟩

theorem join_nonneg {frames : List FrameSample} {result : RuntimeJoinResult}
    (hframes : ∀ frame ∈ frames, 0 ≤ frame.samples ∧ 0 ≤ frame.selfMicros)
    (hjoin : join host nodes frames root = .ok result) :
    (0 ≤ result.matchedSamples ∧ 0 ≤ result.matchedSelfMicros) ∧
      0 ≤ result.droppedSamples ∧ 0 ≤ result.droppedSelfMicros := by
  have hrun : ∀ state : JoinState, state.Nonneg →
      (frames.foldl (fun state frame => state.record host frame (outcome host nodes root (refOf frame))) state).Nonneg := by
    clear hjoin
    induction frames with
    | nil => exact fun _ h => h
    | cons frame rest ih =>
      intro state h
      exact ih (fun frame hframe => hframes frame (List.mem_cons_of_mem _ hframe)) _
        (h.record (hframes frame List.mem_cons_self) _)
  have hfinal := hrun {} ⟨le_refl _, le_refl _, le_refl _, le_refl _⟩
  rw [join_eq_ok hjoin]
  exact ⟨⟨hfinal.matchedSamples, hfinal.matchedSelfMicros⟩, hfinal.droppedSamples, hfinal.droppedSelfMicros⟩

end RuntimeJoin

namespace RuntimeEnricher

variable {host : Host} {root : String} {targets : List RuntimeTargetNode}

/-- What the manifest of a join calls matched is part of what it calls total. -/
theorem manifest_matched_le {profile : CpuProfileData} {result : RuntimeJoinResult}
    (hjoin : RuntimeJoin.join host targets (CpuProfile.aggregate profile) root = .ok result) :
    (0 ≤ (manifest profile result).matchedSelfMicros ∧
        (manifest profile result).matchedSelfMicros ≤ (manifest profile result).totalSelfMicros) ∧
      (profile.WellFormed → 0 ≤ (manifest profile result).matchedSamples ∧
        (manifest profile result).matchedSamples ≤ (manifest profile result).totalSamples) := by
  obtain ⟨⟨hmatched, hmatched'⟩, hdropped, hdropped'⟩ :=
    RuntimeJoin.join_nonneg (fun _ => CpuProfile.aggregate_nonneg) hjoin
  obtain ⟨_, _, _, _, hsum, _⟩ := RuntimeJoin.join_balanced hjoin
  refine ⟨⟨hmatched', le_add_of_nonneg_right hdropped'⟩, fun hwell => ⟨hmatched, ?_⟩⟩
  have hle := CpuProfile.sum_samples_le hwell
  change result.matchedSamples ≤ CpuProfile.totalSamples profile
  linarith

/-- A manifest is read back as it was recorded. -/
theorem safeParse_toRecord (manifest : RuntimeManifest) : RuntimeManifest.safeParse manifest.toRecord = some manifest :=
  rfl

end RuntimeEnricher

end codespine.enrich

namespace codespine.query.GraphQuery

/-- Of a part of the whole, the coverage is a fraction. -/
theorem coverageFor_fraction {matched total share : ℚ} (hmatched : 0 ≤ matched) (hle : matched ≤ total)
    (hshare : (if 0 < total then some (matched / total) else none) = some share) : 0 ≤ share ∧ share ≤ 1 := by
  split at hshare
  · next hpos =>
    cases hshare
    exact ⟨div_nonneg hmatched hpos.le, (div_le_one hpos).mpr hle⟩
  · cases hshare

end codespine.query.GraphQuery
