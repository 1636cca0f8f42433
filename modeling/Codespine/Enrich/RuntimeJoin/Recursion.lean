import Codespine.Enrich.CpuProfile.Subtree
import Codespine.Enrich.CpuProfile.Totals
import Codespine.Enrich.RuntimeJoin.CallEdges

open codespine.schema digraph

namespace codespine.enrich

namespace CpuProfile

variable {profile : CpuProfileData}

/-- The call tree is weighted by what the frames of the profile carry. -/
theorem samplesByNode_eq (profile : CpuProfileData) : samplesByNode profile = (costsByNode profile).1 := by
  unfold samplesByNode costsByNode
  cases ticks profile with
  | none => rfl
  | some samples =>
    have key : ∀ (list : List (ℚ × ℕ)) (maps : OrderedMap ℚ ℚ × OrderedMap ℚ ℚ),
        (list.foldl (fun maps tick => (maps.1.add tick.1 1, maps.2.add tick.1 (safeDelta profile tick.2))) maps).1 =
          (list.map Prod.fst).foldl (fun counts nodeId => counts.add nodeId 1) maps.1 := by
      intro list
      induction list with
      | nil => exact fun _ => rfl
      | cons tick rest ih => exact fun maps => ih _
    exact ((key samples.zipIdx (∅, ∅)).trans (by rw [List.zipIdx_map_fst])).symm

variable (hdistinct : (profile.nodes.map ProfileNode.id).Nodup)
  (hhits : ticks profile = none → ∀ node ∈ profile.nodes, 0 ≤ hits node)

include hdistinct hhits

theorem ownSamples_nonneg {id : ℚ} (hid : id ∈ nodeIds profile) : 0 ≤ ownSamples profile id := by
  rw [ownSamples, samplesByNode_eq]
  cases hticks : ticks profile with
  | none =>
    obtain ⟨node, hnode, rfl⟩ := List.mem_map.mp (List.mem_toFinset.mp hid)
    rw [costsByNode_hits hticks, getD_hitsByNode hdistinct (hhits hticks) hnode]
    exact hhits hticks node hnode
  | some samples =>
    obtain ⟨_, _, _, _, hcount⟩ :=
      foldl_ticks (safeDelta profile) samples.zipIdx ((∅, ∅) : OrderedMap ℚ ℚ × OrderedMap ℚ ℚ)
    rw [costsByNode_ticks hticks, hcount]
    exact add_nonneg le_rfl (Nat.cast_nonneg _)

/-- The samples of the nodes are those of the profile. -/
theorem sum_ownSamples (hsamples : ∀ id ∈ profile.samples.getD [], id ∈ profile.nodes.map ProfileNode.id) :
    ∑ id ∈ nodeIds profile, ownSamples profile id = totalSamples profile := by
  rw [← (aggregate_totals hdistinct hsamples hhits).1, aggregate, sum_map_filterMap]
  simp only [samples_frameSample]
  rw [nodeIds, List.sum_toFinset _ hdistinct, List.map_map, ← samplesByNode_eq]
  rfl

end CpuProfile

namespace RuntimeJoin

open CpuProfile

variable {host : Host} {nodes : List RuntimeTargetNode} {root : String} {profile : CpuProfileData}

/-- The calls of the call tree: a profile node and one that it calls. -/
def treeCalls (profile : CpuProfileData) : List (ProfileNode × ProfileNode) :=
  profile.nodes.flatMap fun node => (childNodes profile node).map fun child => (node, child)

/-- The key that a call is aggregated under. -/
def keyOfCall (host : Host) (nodes : List RuntimeTargetNode) (root : String) (call : ProfileNode × ProfileNode) :
    Option String :=
  keyOf host nodes root
    { caller := frameRef call.1.callFrame, callee := frameRef call.2.callFrame, samples := 0 }

theorem callEdges_eq_treeCalls (hforest : IsCallForest profile) :
    callEdges profile = (treeCalls profile).map fun call =>
      { caller := frameRef call.1.callFrame
        callee := frameRef call.2.callFrame
        samples := totalBelow profile call.2.id } := by
  rw [callEdges_eq, treeCalls, List.map_flatMap]
  refine List.flatMap_congr fun node _ => ?_
  rw [callsFrom_eq hforest, List.map_map]
  rfl

open Classical in
/-- How often the stack that ends in a profile node crosses the pair of a
record: the calls on it that are aggregated under the key of the pair. -/
noncomputable def crossings (host : Host) (nodes : List RuntimeTargetNode) (root : String) (profile : CpuProfileData)
    (edge : RuntimeEdge) (id : ℚ) : ℕ :=
  (treeCalls profile).countP fun call =>
    keyOfCall host nodes root call = some (arrow (edge.source, edge.target)) ∧ Reaches (IsChild profile) call.2.id id

/-- A stack crosses a pair no more often than the call tree has calls of it. -/
theorem crossings_le (edge : RuntimeEdge) (id : ℚ) : crossings host nodes root profile edge id ≤
    (treeCalls profile).countP fun call => keyOfCall host nodes root call = some (arrow (edge.source, edge.target)) := by
  classical
  refine List.countP_mono_left fun call _ hcross => ?_
  rw [decide_eq_true_eq] at hcross ⊢
  exact hcross.1

open Classical in
/-- Counting by calls or by the nodes they lead to. -/
theorem sum_totalBelow (calls : List (ProfileNode × ProfileNode)) :
    (calls.map fun call => totalBelow profile call.2.id).sum =
      ∑ id ∈ nodeIds profile,
        (calls.countP fun call => Reaches (IsChild profile) call.2.id id : ℕ) * ownSamples profile id := by
  induction calls with
  | nil => simp
  | cons call rest ih =>
    rw [List.map_cons, List.sum_cons, ih, totalBelow, descendants, Finset.sum_filter, ← Finset.sum_add_distrib]
    refine Finset.sum_congr rfl fun id _ => ?_
    rw [List.countP_cons]
    by_cases hreach : Reaches (IsChild profile) call.2.id id
    · simp [hreach]
      ring
    · simp [hreach]

/-- A record carries every sample once for each time its stack crosses the
pair. -/
theorem samples_eq_sum_crossings (hforest : IsCallForest profile) {result : RuntimeCallJoinResult}
    (hjoin : joinCallEdges host nodes (callEdges profile) root = .ok result) {edge : RuntimeEdge}
    (hedge : edge ∈ result.edges) :
    edge.samples =
      ∑ id ∈ nodeIds profile, crossings host nodes root profile edge id * ownSamples profile id := by
  classical
  rw [joinCallEdges_eq_ok hjoin] at hedge
  obtain ⟨entry, hentry, rfl⟩ := List.mem_map.mp hedge
  obtain ⟨hkey, _, hsum⟩ := get_aggregated (OrderedMap.get_eq_some_iff.mpr hentry)
  rw [hsum, callEdges_eq_treeCalls hforest, List.filter_map, List.map_map, hkey]
  refine (sum_totalBelow ((treeCalls profile).filter fun call =>
    keyOfCall host nodes root call = some (arrow (entry.2.source, entry.2.target)))).trans ?_
  refine Finset.sum_congr rfl fun id _ => ?_
  rw [List.countP_filter, crossings]
  refine congrArg (fun count : ℕ => count * ownSamples profile id) (List.countP_congr fun call _ => ?_)
  rw [Bool.and_eq_true, decide_eq_true_eq, decide_eq_true_eq, decide_eq_true_eq, and_comm]

/-- A runtime call edge carries every sample once for each time its stack
crosses the pair, so that it carries no more than the profile where no sampled
stack crosses the pair twice. -/
theorem samples_joinCallEdges (hforest : IsCallForest profile)
    (hsamples : ∀ id ∈ profile.samples.getD [], id ∈ profile.nodes.map ProfileNode.id)
    (hhits : ticks profile = none → ∀ node ∈ profile.nodes, 0 ≤ hits node) {result : RuntimeCallJoinResult}
    (hjoin : joinCallEdges host nodes (callEdges profile) root = .ok result) :
    ∀ edge ∈ result.edges,
      edge.samples = ∑ id ∈ nodeIds profile, crossings host nodes root profile edge id * ownSamples profile id ∧
      ((∀ id ∈ nodeIds profile, ownSamples profile id ≠ 0 → crossings host nodes root profile edge id ≤ 1) →
        edge.samples ≤ totalSamples profile) := by
  intro edge hedge
  have hsum := samples_eq_sum_crossings hforest hjoin hedge
  refine ⟨hsum, fun honce => ?_⟩
  rw [hsum, ← sum_ownSamples hforest.distinct hhits hsamples]
  refine Finset.sum_le_sum fun id hid => ?_
  by_cases hzero : ownSamples profile id = 0
  · rw [hzero, mul_zero]
  · have hcross : (crossings host nodes root profile edge id : ℚ) ≤ 1 := by exact_mod_cast honce id hid hzero
    exact mul_le_of_le_one_left (ownSamples_nonneg hforest.distinct hhits hid) hcross

/-- The one tick of mutual recursion, in the innermost call: its stack crosses
from `run` to `load` twice, and back once. -/
theorem samples_joinCallEdges_pingPong : ∃ result,
    joinCallEdges (posixHost []) runAndLoad (callEdges pingPong) "/app" = .ok result ∧ ∀ edge ∈ result.edges,
      (edge.source = "Function:src/a.ts#run@1" → crossings (posixHost []) runAndLoad "/app" pingPong edge 4 = 2) ∧
      (edge.source = "Function:src/b.ts#load@1" → edge.samples ≤ totalSamples pingPong) := by
  have hjoin := @joinCallEdges_of_decodes (posixHost []) runAndLoad "/app" (callEdges pingPong) (by decide +kernel)
  refine ⟨_, hjoin, fun edge hedge => ?_⟩
  have hrun : edge.source = "Function:src/a.ts#run@1" → edge.samples = 2 := by
    revert edge
    decide +kernel
  have hload : edge.source = "Function:src/b.ts#load@1" → ((treeCalls pingPong).countP fun call =>
      keyOfCall (posixHost []) runAndLoad "/app" call = some (arrow (edge.source, edge.target))) ≤ 1 := by
    revert edge
    decide +kernel
  obtain ⟨hsum, hbound⟩ :=
    samples_joinCallEdges isCallForest_pingPong (by decide +kernel) (fun hticks => by cases hticks) hjoin edge hedge
  refine ⟨fun hsource => ?_, fun hsource => hbound fun id _ _ => (crossings_le edge id).trans (hload hsource)⟩
  have hids : nodeIds pingPong = {1, 2, 3, 4} := by decide +kernel
  have hown : ownSamples pingPong 1 = 0 ∧ ownSamples pingPong 2 = 0 ∧ ownSamples pingPong 3 = 0 ∧
      ownSamples pingPong 4 = 1 := by decide +kernel
  have hcast : (crossings (posixHost []) runAndLoad "/app" pingPong edge 4 : ℚ) = 2 := by
    rw [hrun hsource, hids] at hsum
    simpa [hown] using hsum.symm
  exact_mod_cast hcast

/-- Mutual recursion: the one tick of the profile counts twice. -/
theorem samples_exceed_total_pingPong :
    ¬ ∀ (host : Host) (nodes : List RuntimeTargetNode) (root : String) (profile : CpuProfileData)
      (result : RuntimeCallJoinResult), IsCallForest profile →
      (∃ top ∈ profile.nodes, ∀ node ∈ profile.nodes, Reaches (IsChild profile) top.id node.id) →
      (∀ id ∈ profile.samples.getD [], id ∈ profile.nodes.map ProfileNode.id) →
      (nodes.map RuntimeTargetNode.id).Nodup → joinCallEdges host nodes (callEdges profile) root = .ok result →
      ∀ edge ∈ result.edges, edge.samples ≤ totalSamples profile := by
  intro hclaim
  have h₁₂ : Reaches (IsChild pingPong) 1 2 := Reaches.single (show (2 : ℚ) ∈ knownChildren pingPong 1 by decide +kernel)
  have h₁₃ : Reaches (IsChild pingPong) 1 3 := h₁₂.tail (show (3 : ℚ) ∈ knownChildren pingPong 2 by decide +kernel)
  have h₁₄ : Reaches (IsChild pingPong) 1 4 := h₁₃.tail (show (4 : ℚ) ∈ knownChildren pingPong 3 by decide +kernel)
  have htree : ∃ top ∈ pingPong.nodes, ∀ node ∈ pingPong.nodes, Reaches (IsChild pingPong) top.id node.id := by
    refine ⟨_, List.mem_cons_self, ?_⟩
    simp only [pingPong, List.forall_mem_cons]
    exact ⟨Reaches.refl _, h₁₂, h₁₃, h₁₄, fun _ h => absurd h List.not_mem_nil⟩
  have hjoin := @joinCallEdges_of_decodes (posixHost []) runAndLoad "/app" (callEdges pingPong) (by decide +kernel)
  have hall := hclaim (posixHost []) runAndLoad "/app" pingPong _ isCallForest_pingPong htree (by decide +kernel)
    (by decide +kernel) hjoin
  exact absurd hall (by decide +kernel)

end RuntimeJoin

end codespine.enrich
