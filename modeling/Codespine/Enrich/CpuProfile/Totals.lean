import Codespine.Enrich.CpuProfile

open codespine.schema

namespace codespine.enrich.CpuProfile

/-- The sum of the deltas that count: `max(0, timeDeltas[i])` for every tick,
missing deltas as zero. -/
def totalMicros (profile : CpuProfileData) : ℚ :=
  ((List.range (profile.samples.getD []).length).map fun i =>
    max 0 ((profile.timeDeltas.getD [])[i]?.getD 0)).sum

theorem safeDelta_eq (profile : CpuProfileData) (i : ℕ) :
    safeDelta profile i = max 0 ((profile.timeDeltas.getD [])[i]?.getD 0) := by
  unfold safeDelta
  dsimp only
  split
  · next h => exact (max_eq_right h.le).symm
  · next h => exact (max_eq_left (not_lt.mp h)).symm

theorem ticks_eq_some {profile : CpuProfileData} {samples : List ℚ} (h : ticks profile = some samples) :
    profile.samples = some samples := by
  unfold ticks at h
  split at h
  · next first rest heq => rw [heq, Option.some.inj h]
  · cases h

theorem ticks_eq_none {profile : CpuProfileData} (h : ticks profile = none) : profile.samples.getD [] = [] := by
  unfold ticks at h
  split at h
  · cases h
  · next hempty =>
    cases hsamples : profile.samples with
    | none => rfl
    | some samples =>
      cases samples with
      | nil => rfl
      | cons first rest => exact absurd hsamples (hempty first rest)

/-- The loop over ticks: what both maps hold after the ticks of a list. -/
theorem foldl_ticks (weight : ℕ → ℚ) (list : List (ℚ × ℕ)) (maps : OrderedMap ℚ ℚ × OrderedMap ℚ ℚ) :
    let final := list.foldl (fun maps tick => (maps.1.add tick.1 1, maps.2.add tick.1 (weight tick.2))) maps
    final.1.values.sum = maps.1.values.sum + list.length ∧
      final.2.values.sum = maps.2.values.sum + (list.map fun tick => weight tick.2).sum ∧
      (∀ k, k ∈ final.1.keys ↔ k ∈ maps.1.keys ∨ k ∈ list.map Prod.fst) ∧
      (∀ k, k ∈ final.2.keys ↔ k ∈ maps.2.keys ∨ k ∈ list.map Prod.fst) ∧
      (∀ k, final.1.getD k 0 = maps.1.getD k 0 + (list.map Prod.fst).count k) := by
  induction list generalizing maps with
  | nil => simp
  | cons tick rest ih =>
    obtain ⟨hsum, hmicros, hkeys, hkeys', hcount⟩ := ih (maps.1.add tick.1 1, maps.2.add tick.1 (weight tick.2))
    rw [List.foldl_cons]
    refine ⟨?_, ?_, fun k => ?_, fun k => ?_, fun k => ?_⟩
    · rw [hsum, OrderedMap.sum_values_add, List.length_cons]
      push_cast
      ring
    · rw [hmicros, OrderedMap.sum_values_add, List.map_cons, List.sum_cons]
      ring
    · rw [hkeys, OrderedMap.mem_keys_add, List.map_cons, List.mem_cons, or_assoc]
    · rw [hkeys', OrderedMap.mem_keys_add, List.map_cons, List.mem_cons, or_assoc]
    · rw [hcount, OrderedMap.getD_add, List.map_cons, List.count_cons]
      by_cases hk : k = tick.1
      · subst hk
        simp only [if_true, beq_self_eq_true]
        push_cast
        ring
      · have hk' : ¬ tick.1 = k := fun h => hk h.symm
        simp [hk, hk']

theorem sum_map_filterMap {α β : Type} (f : α → Option β) (weight : β → ℚ) (list : List α) :
    ((list.filterMap f).map weight).sum = (list.map fun a => ((f a).map weight).getD 0).sum := by
  induction list with
  | nil => rfl
  | cons a rest ih => cases h : f a <;> simp [h, ih]

/-- A node without samples, for which no frame is made, has none to lose. -/
theorem samples_frameSample (costs : OrderedMap ℚ ℚ × OrderedMap ℚ ℚ) (node : ProfileNode) :
    ((frameSample costs node).map FrameSample.samples).getD 0 = costs.1.getD node.id 0 := by
  unfold frameSample
  dsimp only
  split
  · next h => exact h.symm
  · rfl

theorem selfMicros_frameSample (costs : OrderedMap ℚ ℚ × OrderedMap ℚ ℚ) (node : ProfileNode)
    (h : costs.1.getD node.id 0 = 0 → costs.2.getD node.id 0 = 0) :
    ((frameSample costs node).map FrameSample.selfMicros).getD 0 = costs.2.getD node.id 0 := by
  unfold frameSample
  dsimp only
  split
  · next hzero => exact (h hzero).symm
  · rfl

section Conservation

variable {profile : CpuProfileData} (hdistinct : (profile.nodes.map ProfileNode.id).Nodup)

theorem getD_hitsByNode {nodes : List ProfileNode} (hdistinct : (nodes.map ProfileNode.id).Nodup)
    (hhits : ∀ node ∈ nodes, 0 ≤ hits node) {node : ProfileNode} (hnode : node ∈ nodes) :
    (hitsByNode nodes).getD node.id 0 = hits node := by
  have hother : ∀ (list : List ProfileNode) (map : OrderedMap ℚ ℚ) (id : ℚ), id ∉ list.map ProfileNode.id →
      (list.foldl (fun map node => if 0 < hits node then map.set node.id (hits node) else map) map).getD id 0 =
        map.getD id 0 := by
    intro list
    induction list with
    | nil => exact fun _ _ _ => rfl
    | cons first rest ih =>
      intro map id hid
      rw [List.map_cons, List.mem_cons, not_or] at hid
      rw [List.foldl_cons, ih _ id hid.2]
      split
      · rw [OrderedMap.getD_set, if_neg hid.1]
      · rfl
  have key : ∀ map : OrderedMap ℚ ℚ, map.getD node.id 0 = 0 →
      (nodes.foldl (fun map node => if 0 < hits node then map.set node.id (hits node) else map) map).getD node.id 0 =
        hits node := by
    induction nodes with
    | nil => cases hnode
    | cons first rest ih =>
      intro map hmap
      rw [List.map_cons, List.nodup_cons] at hdistinct
      rw [List.foldl_cons]
      rcases List.mem_cons.mp hnode with rfl | hrest
      · rw [hother _ _ _ hdistinct.1]
        split
        · rw [OrderedMap.getD_set, if_pos rfl]
        · next hzero =>
          rw [hmap]
          exact le_antisymm (hhits node List.mem_cons_self) (not_lt.mp hzero)
      · refine ih hdistinct.2 (fun n hn => hhits n (List.mem_cons_of_mem _ hn)) hrest _ ?_
        have hne : node.id ≠ first.id := fun heq => hdistinct.1 (heq ▸ List.mem_map_of_mem hrest)
        split
        · rw [OrderedMap.getD_set, if_neg hne, hmap]
        · exact hmap
  exact key ∅ rfl

theorem costsByNode_hits (hticks : ticks profile = none) : costsByNode profile = (hitsByNode profile.nodes, ∅) := by
  rw [costsByNode, hticks]

theorem costsByNode_ticks {samples : List ℚ} (hticks : ticks profile = some samples) :
    costsByNode profile = samples.zipIdx.foldl (fun maps tick =>
      (maps.1.add tick.1 1, maps.2.add tick.1 (safeDelta profile tick.2))) (∅, ∅) := by
  rw [costsByNode, hticks]

/-- A node that no tick names is in neither map. -/
theorem micros_eq_zero_of_samples {samples : List ℚ} (hticks : ticks profile = some samples) {id : ℚ}
    (hzero : (costsByNode profile).1.getD id 0 = 0) : (costsByNode profile).2.getD id 0 = 0 := by
  obtain ⟨_, _, _, hkeys, hcount⟩ :=
    foldl_ticks (safeDelta profile) samples.zipIdx ((∅, ∅) : OrderedMap ℚ ℚ × OrderedMap ℚ ℚ)
  rw [costsByNode_ticks hticks] at hzero ⊢
  have hnone : id ∉ samples.zipIdx.map Prod.fst := by
    rw [hcount] at hzero
    have hempty : (∅ : OrderedMap ℚ ℚ).getD id 0 = 0 := rfl
    rw [hempty, zero_add, Nat.cast_eq_zero] at hzero
    exact List.count_eq_zero.mp hzero
  rw [OrderedMap.getD, OrderedMap.get_eq_none_iff.mpr fun hmem => hnone (by simpa using (hkeys id).mp hmem),
    Option.getD_none]

include hdistinct

theorem aggregate_totals_hits (hticks : ticks profile = none) (hhits : ∀ node ∈ profile.nodes, 0 ≤ hits node) :
    ((aggregate profile).map FrameSample.samples).sum = totalSamples profile ∧
      ((aggregate profile).map FrameSample.selfMicros).sum = totalMicros profile := by
  unfold aggregate
  rw [sum_map_filterMap, sum_map_filterMap]
  have hcosts := costsByNode_hits hticks
  have hmicros : ∀ node : ProfileNode, (costsByNode profile).2.getD node.id 0 = 0 := fun node => by rw [hcosts]; rfl
  constructor
  · simp only [samples_frameSample]
    rw [totalSamples, hticks, hcosts]
    exact congrArg List.sum (List.map_congr_left fun node hnode => getD_hitsByNode hdistinct hhits hnode)
  · have hframes : ∀ node : ProfileNode,
        ((frameSample (costsByNode profile) node).map FrameSample.selfMicros).getD 0 = 0 := fun node => by
      rw [selfMicros_frameSample _ _ fun _ => hmicros node, hmicros]
    rw [totalMicros, ticks_eq_none hticks]
    simp [hframes]

theorem aggregate_totals_ticks {samples : List ℚ} (hticks : ticks profile = some samples)
    (hsamples : ∀ id ∈ samples, id ∈ profile.nodes.map ProfileNode.id) :
    ((aggregate profile).map FrameSample.samples).sum = totalSamples profile ∧
      ((aggregate profile).map FrameSample.selfMicros).sum = totalMicros profile := by
  unfold aggregate
  rw [sum_map_filterMap, sum_map_filterMap]
  obtain ⟨hsum, hmicros, hkeys, hkeys', _⟩ :=
    foldl_ticks (safeDelta profile) samples.zipIdx ((∅, ∅) : OrderedMap ℚ ℚ × OrderedMap ℚ ℚ)
  rw [← costsByNode_ticks hticks] at hsum hmicros hkeys hkeys'
  have hreads : ∀ map : OrderedMap ℚ ℚ, (∀ k ∈ map.keys, k ∈ samples.zipIdx.map Prod.fst) →
      (profile.nodes.map fun node => map.getD node.id 0).sum = map.values.sum := by
    intro map hmap
    rw [List.zipIdx_map_fst] at hmap
    have hsum := OrderedMap.sum_getD id map (d := 0) rfl hdistinct fun k hk => hsamples k (hmap k hk)
    rw [List.map_map, List.map_id] at hsum
    exact hsum
  constructor
  · simp only [samples_frameSample]
    rw [hreads _ fun k hk => by simpa using (hkeys k).mp hk, hsum, totalSamples, hticks]
    simp
  · have hframes : ∀ node : ProfileNode, ((frameSample (costsByNode profile) node).map
        FrameSample.selfMicros).getD 0 = (costsByNode profile).2.getD node.id 0 :=
      fun node => selfMicros_frameSample _ _ (micros_eq_zero_of_samples hticks)
    have hweights : samples.zipIdx.map (fun tick => safeDelta profile tick.2) =
        (List.range samples.length).map (safeDelta profile) := by
      rw [List.range_eq_range', ← List.zipIdx_map_snd, List.map_map]
      rfl
    simp only [hframes]
    rw [hreads _ fun k hk => by simpa using (hkeys' k).mp hk, hmicros, hweights, totalMicros, ticks_eq_some hticks]
    change 0 + _ = _
    rw [zero_add]
    exact congrArg List.sum (List.map_congr_left fun i _ => safeDelta_eq profile i)

/-- The frames of a profile carry all its samples and all its self time, when
every tick names a node. -/
theorem aggregate_totals (hsamples : ∀ id ∈ profile.samples.getD [], id ∈ profile.nodes.map ProfileNode.id)
    (hhits : ticks profile = none → ∀ node ∈ profile.nodes, 0 ≤ hits node) :
    ((aggregate profile).map FrameSample.samples).sum = totalSamples profile ∧
      ((aggregate profile).map FrameSample.selfMicros).sum = totalMicros profile := by
  cases hticks : ticks profile with
  | none => exact aggregate_totals_hits hdistinct hticks (hhits hticks)
  | some samples =>
    rw [ticks_eq_some hticks] at hsamples
    exact aggregate_totals_ticks hdistinct hticks hsamples

end Conservation

end codespine.enrich.CpuProfile
