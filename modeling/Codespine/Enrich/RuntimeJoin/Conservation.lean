import Codespine.Enrich.CpuProfile.Totals
import Codespine.Enrich.RuntimeJoin.Runs

open codespine.schema codespine.store

namespace codespine.enrich.RuntimeJoin

variable {host : Host} {nodes : List RuntimeTargetNode} {root : String}

/-- The loop's books balance: the maps add up to the counters, the counters to
what has been fed in, and only nodes of the list are attributed to. -/
structure JoinState.Balanced (nodes : List RuntimeTargetNode) (state : JoinState) (samples selfMicros : ℚ) :
    Prop where
  attributed_samples : (state.attributions.values.map RuntimeAttribution.samples).sum = state.matchedSamples
  attributed_micros : (state.attributions.values.map RuntimeAttribution.selfMicros).sum = state.matchedSelfMicros
  dropped_samples : (state.dropped.values.map DroppedFrameGroup.samples).sum = state.droppedSamples
  dropped_micros : (state.dropped.values.map DroppedFrameGroup.selfMicros).sum = state.droppedSelfMicros
  samples_eq : state.matchedSamples + state.droppedSamples = samples
  micros_eq : state.matchedSelfMicros + state.droppedSelfMicros = selfMicros
  known : ∀ id ∈ state.attributions.keys, id ∈ nodes.map RuntimeTargetNode.id

theorem JoinState.Balanced.init : JoinState.Balanced nodes {} 0 0 := by
  constructor <;> simp

/-- A dropped frame goes to one group, whatever groups it shares a label with. -/
theorem sum_recordDrop (dropped : OrderedMap String DroppedFrameGroup) (frame : FrameSample) (reason : DropReason) :
    ((recordDrop host dropped frame reason).values.map DroppedFrameGroup.samples).sum =
        (dropped.values.map DroppedFrameGroup.samples).sum + frame.samples ∧
      ((recordDrop host dropped frame reason).values.map DroppedFrameGroup.selfMicros).sum =
        (dropped.values.map DroppedFrameGroup.selfMicros).sum + frame.selfMicros :=
  ⟨OrderedMap.sum_values_set_getD DroppedFrameGroup.samples dropped rfl rfl,
    OrderedMap.sum_values_set_getD DroppedFrameGroup.selfMicros dropped rfl rfl⟩

/-- Either outcome of a lookup keeps the books balanced. -/
theorem JoinState.Balanced.record {state : JoinState} {samples selfMicros : ℚ}
    (h : state.Balanced nodes samples selfMicros) (frame : FrameSample) (resolution : NodeResolution)
    (hfound : ∀ node via, resolution = .found node via → node ∈ nodes) :
    (state.record host frame resolution).Balanced nodes (samples + frame.samples)
      (selfMicros + frame.selfMicros) := by
  cases resolution with
  | missing reason =>
    obtain ⟨hsamples, hmicros⟩ := @sum_recordDrop host state.dropped frame reason
    constructor
    case attributed_samples => exact h.attributed_samples
    case attributed_micros => exact h.attributed_micros
    case dropped_samples => exact hsamples.trans (congrArg (· + frame.samples) h.dropped_samples)
    case dropped_micros => exact hmicros.trans (congrArg (· + frame.selfMicros) h.dropped_micros)
    case samples_eq =>
      change state.matchedSamples + (state.droppedSamples + frame.samples) = _
      rw [← add_assoc, h.samples_eq]
    case micros_eq =>
      change state.matchedSelfMicros + (state.droppedSelfMicros + frame.selfMicros) = _
      rw [← add_assoc, h.micros_eq]
    case known => exact h.known
  | found node via =>
    constructor
    case attributed_samples =>
      refine (OrderedMap.sum_values_set_getD RuntimeAttribution.samples state.attributions rfl rfl).trans ?_
      exact congrArg (· + frame.samples) h.attributed_samples
    case attributed_micros =>
      refine (OrderedMap.sum_values_set_getD RuntimeAttribution.selfMicros state.attributions rfl rfl).trans ?_
      exact congrArg (· + frame.selfMicros) h.attributed_micros
    case dropped_samples => exact h.dropped_samples
    case dropped_micros => exact h.dropped_micros
    case samples_eq =>
      change state.matchedSamples + frame.samples + state.droppedSamples = _
      rw [add_right_comm, h.samples_eq]
    case micros_eq =>
      change state.matchedSelfMicros + frame.selfMicros + state.droppedSelfMicros = _
      rw [add_right_comm, h.micros_eq]
    case known =>
      intro id hid
      rcases OrderedMap.mem_keys_set.mp hid with hold | rfl
      · exact h.known id hold
      · exact List.mem_map_of_mem (hfound node via rfl)

theorem JoinState.Balanced.run {frames : List FrameSample} {state : JoinState} {samples selfMicros : ℚ}
    (h : state.Balanced nodes samples selfMicros) :
    (frames.foldl (fun state frame => state.record host frame (outcome host nodes root (refOf frame))) state).Balanced
      nodes (samples + (frames.map FrameSample.samples).sum)
      (selfMicros + (frames.map FrameSample.selfMicros).sum) := by
  induction frames generalizing state samples selfMicros with
  | nil => simpa using h
  | cons frame rest ih =>
    have hstep : (state.record host frame (outcome host nodes root (refOf frame))).Balanced nodes
        (samples + frame.samples) (selfMicros + frame.selfMicros) :=
      h.record frame _ fun node via hfound => mem_of_resolve (resolve_of_outcome_found hfound)
    have hrest := ih hstep
    simpa [add_assoc] using hrest

/-- What `join` returns, in terms of the books of its loop. -/
theorem join_balanced {frames : List FrameSample} {result : RuntimeJoinResult}
    (hjoin : join host nodes frames root = .ok result) :
    (result.attributions.values.map RuntimeAttribution.samples).sum = result.matchedSamples ∧
      (result.attributions.values.map RuntimeAttribution.selfMicros).sum = result.matchedSelfMicros ∧
      (result.dropped.map DroppedFrameGroup.samples).sum = result.droppedSamples ∧
      (result.dropped.map DroppedFrameGroup.selfMicros).sum = result.droppedSelfMicros ∧
      result.matchedSamples + result.droppedSamples = (frames.map FrameSample.samples).sum ∧
      result.matchedSelfMicros + result.droppedSelfMicros = (frames.map FrameSample.selfMicros).sum ∧
      ∀ id ∈ result.attributions.keys, id ∈ nodes.map RuntimeTargetNode.id := by
  rw [join_eq_ok hjoin]
  have h := @JoinState.Balanced.run host nodes root frames {} 0 0 .init
  have hperm := (Comparator.descending DroppedFrameGroup.selfMicros).sort_perm
    (frames.foldl (fun state frame => state.record host frame (outcome host nodes root (refOf frame)))
      ({} : JoinState)).dropped.values
  refine ⟨h.attributed_samples, h.attributed_micros, ?_, ?_, ?_, ?_, h.known⟩
  · exact (hperm.map _).sum_eq.trans h.dropped_samples
  · exact (hperm.map _).sum_eq.trans h.dropped_micros
  · exact h.samples_eq.trans (zero_add _)
  · exact h.micros_eq.trans (zero_add _)

/-- No sample and no self time is lost or counted twice on the way from the
profile to the nodes: what is attributed and what is reported as dropped add
up to what was measured. -/
theorem join_aggregate_conserves {profile : CpuProfileData} {result : RuntimeJoinResult}
    (hdistinct : (profile.nodes.map ProfileNode.id).Nodup)
    (hsamples : ∀ id ∈ profile.samples.getD [], id ∈ profile.nodes.map ProfileNode.id)
    (hhits : CpuProfile.ticks profile = none → ∀ node ∈ profile.nodes, 0 ≤ CpuProfile.hits node)
    (hjoin : join host nodes (CpuProfile.aggregate profile) root = .ok result) :
    (result.attributions.values.map RuntimeAttribution.samples).sum +
        (result.dropped.map DroppedFrameGroup.samples).sum = CpuProfile.totalSamples profile ∧
      (result.attributions.values.map RuntimeAttribution.selfMicros).sum +
        (result.dropped.map DroppedFrameGroup.selfMicros).sum =
          ((List.range (profile.samples.getD []).length).map fun i =>
            max 0 ((profile.timeDeltas.getD [])[i]?.getD 0)).sum ∧
      (result.attributions.values.map RuntimeAttribution.samples).sum = result.matchedSamples ∧
      (result.attributions.values.map RuntimeAttribution.selfMicros).sum = result.matchedSelfMicros ∧
      ∀ id ∈ result.attributions.keys, id ∈ nodes.map RuntimeTargetNode.id := by
  obtain ⟨hattributed, hattributed', hdropped, hdropped', hsum, hsum', hknown⟩ := join_balanced hjoin
  obtain ⟨htotal, htotal'⟩ := CpuProfile.aggregate_totals hdistinct hsamples hhits
  refine ⟨?_, ?_, hattributed, hattributed', hknown⟩
  · rw [hattributed, hdropped, hsum, htotal]
  · rw [hattributed', hdropped', hsum', htotal']
    rfl

/-- Three frames: one of a known function, one of the same function further
down the stack, one outside the project. Four ticks, one delta missing and one
running backwards. -/
def sampledProfile : CpuProfileData where
  nodes := [
    { id := 1, callFrame := ⟨"main", "file:///app/src/main.ts", 0, 0⟩, children := some [2, 3] },
    { id := 2, callFrame := ⟨"main", "file:///app/src/main.ts", 0, 0⟩ },
    { id := 3, callFrame := ⟨"readFile", "node:fs", 10, 0⟩ }]
  samples := some [1, 2, 3, 2]
  timeDeltas := some [100, -5, 30]

theorem join_aggregate_conserves_sampled : ∃ result,
    join (posixHost []) [⟨"src/main.ts#main", .Function, "main", "src/main.ts", 1, 9⟩]
        (CpuProfile.aggregate sampledProfile) "/app" = .ok result ∧
      (result.attributions.values.map RuntimeAttribution.samples).sum +
        (result.dropped.map DroppedFrameGroup.samples).sum = 4 ∧
      (result.attributions.values.map RuntimeAttribution.selfMicros).sum +
        (result.dropped.map DroppedFrameGroup.selfMicros).sum = 130 := by
  have hok : (join (posixHost []) [⟨"src/main.ts#main", .Function, "main", "src/main.ts", 1, 9⟩]
      (CpuProfile.aggregate sampledProfile) "/app").isOk = true := by decide +kernel
  cases hjoin : join (posixHost []) [⟨"src/main.ts#main", .Function, "main", "src/main.ts", 1, 9⟩]
      (CpuProfile.aggregate sampledProfile) "/app" with
  | error e => rw [hjoin] at hok; cases hok
  | ok result =>
    obtain ⟨hsamples, hmicros, _⟩ := join_aggregate_conserves (by decide +kernel) (by decide +kernel)
      (fun hnone => by cases hnone) hjoin
    refine ⟨result, rfl, hsamples.trans (by decide +kernel), hmicros.trans (by decide +kernel)⟩

end codespine.enrich.RuntimeJoin
