import Codespine.Lib.Ranking
import Codespine.Query.Hotspots.Impact

open codespine.schema codespine.store

namespace codespine.query.GraphQuery

/-- `hotspots` over the rows that the store handed back. -/
def hotspotsOf (localeCompare : Comparator String) (nodes : List StoredNode) (edges : List CallEdge)
    (options : HotspotOptions) : HotspotReport :=
  let enriched := nodes.any fun node => hasRuntime node.metadata
  let requested := requestedMetric options enriched
  let fellBack := isRuntimeMetric requested && !enriched
  let metric := if fellBack then .callers else requested
  let measuredOnly := options.measuredOnly == some true
  let scores := scoreNodes nodes edges metric
  let candidates := if measuredOnly then nodes.filter fun node => hasRuntime node.metadata else nodes
  { metric
    requested
    enriched
    fellBack
    measuredOnly
    hotspots := ((rankNodes localeCompare scores candidates).take (clampLimit options.limit)).map (toHotspot metric) }

theorem hotspots_eq (localeCompare : Comparator String) (store : KuzuStore) (options : HotspotOptions) :
    hotspots localeCompare store options = hotspotsOf localeCompare store.readNodes (readCallEdges store) options := rfl

/-- The metric the rows are ranked by. -/
def rankedMetric (nodes : List StoredNode) (options : HotspotOptions) : HotspotMetric :=
  let enriched := nodes.any fun node => hasRuntime node.metadata
  let requested := requestedMetric options enriched
  if isRuntimeMetric requested && !enriched then .callers else requested

/-- The candidates that score at all, before they are ranked. -/
def scored (nodes : List StoredNode) (edges : List CallEdge) (options : HotspotOptions) : List (StoredNode × ℚ) :=
  let candidates := if options.measuredOnly == some true then nodes.filter fun node => hasRuntime node.metadata else nodes
  (candidates.map fun node => (node, (scoreNodes nodes edges (rankedMetric nodes options)).getD node.id 0)).filter
    fun entry => 0 < entry.2

theorem hotspots_hotspotsOf (localeCompare : Comparator String) (nodes : List StoredNode) (edges : List CallEdge)
    (options : HotspotOptions) : (hotspotsOf localeCompare nodes edges options).hotspots =
      (((hotspotOrder localeCompare).sort (scored nodes edges options)).take (clampLimit options.limit)).map
        (toHotspot (rankedMetric nodes options)) := rfl

section Rows

variable {nodes nodes' : List StoredNode} {edges edges' : List CallEdge}

theorem calls_perm (h : edges.Perm edges') : Calls edges = Calls edges' := by
  funext a b
  simp only [Calls, h.mem_iff]

theorem impactSet_perm (h : edges.Perm edges') (id : String) : impactSet edges id = impactSet edges' id := by
  rw [impactSet, impactSet, calls_perm h]

theorem getD_sumInbound_perm (h : edges.Perm edges') (weight : CallEdge → ℚ) (id : String) :
    (sumInbound edges weight).getD id 0 = (sumInbound edges' weight).getD id 0 := by
  rw [getD_sumInbound, getD_sumInbound]
  exact ((h.filter _).map weight).sum_eq

theorem getD_blastRadiusSizes (edges : List CallEdge) {node : StoredNode} (hnode : node ∈ nodes) :
    (blastRadiusSizes nodes edges).getD node.id 0 = ((impactSet edges node.id).ncard : ℚ) := by
  rw [OrderedMap.getD, get_blastRadiusSizes edges hnode, Option.getD_some]

theorem getD_ofNodes (hdistinct : (nodes.map StoredNode.id).Nodup) (value : StoredNode → ℚ) {node : StoredNode}
    (hnode : node ∈ nodes) : (OrderedMap.ofList (nodes.map fun node => (node.id, value node))).getD node.id 0 = value node := by
  have hkeys : ((nodes.map fun node => (node.id, value node)).map Prod.fst).Nodup := by
    rw [List.map_map]
    exact hdistinct
  rw [OrderedMap.getD, OrderedMap.get_ofList_of_mem hkeys (List.mem_map_of_mem hnode), Option.getD_some]

/-- What a node scores does not depend on the order of the rows. -/
theorem getD_scoreNodes_perm (hdistinct : (nodes.map StoredNode.id).Nodup) (hnodes : nodes.Perm nodes')
    (hedges : edges.Perm edges') (metric : HotspotMetric) {node : StoredNode} (hnode : node ∈ nodes) :
    (scoreNodes nodes edges metric).getD node.id 0 = (scoreNodes nodes' edges' metric).getD node.id 0 := by
  have hdistinct' : (nodes'.map StoredNode.id).Nodup := (hnodes.map StoredNode.id).nodup_iff.mp hdistinct
  have hnode' : node ∈ nodes' := hnodes.mem_iff.mp hnode
  cases metric with
  | selfTime =>
    let value := fun node : StoredNode => runtimeValue node.metadata "selfMs"
    exact (getD_ofNodes hdistinct value hnode).trans (getD_ofNodes hdistinct' value hnode').symm
  | samples =>
    let value := fun node : StoredNode => runtimeValue node.metadata "samples"
    exact (getD_ofNodes hdistinct value hnode).trans (getD_ofNodes hdistinct' value hnode').symm
  | callers => exact getD_sumInbound_perm hedges _ _
  | callCount => exact getD_sumInbound_perm hedges _ _
  | blastRadius =>
    refine (getD_blastRadiusSizes edges hnode).trans ((getD_blastRadiusSizes edges' hnode').trans ?_).symm
    rw [impactSet_perm hedges]

theorem rankedMetric_perm (hnodes : nodes.Perm nodes') (options : HotspotOptions) :
    rankedMetric nodes options = rankedMetric nodes' options := by
  have henriched : (nodes.any fun node => hasRuntime node.metadata) = nodes'.any fun node => hasRuntime node.metadata :=
    hnodes.any_eq
  rw [rankedMetric, rankedMetric, henriched]

theorem scored_perm (hdistinct : (nodes.map StoredNode.id).Nodup) (hnodes : nodes.Perm nodes')
    (hedges : edges.Perm edges') (options : HotspotOptions) : (scored nodes edges options).Perm (scored nodes' edges' options) := by
  have hscore : ∀ candidates : List StoredNode, candidates ⊆ nodes →
      (candidates.map fun node => (node, (scoreNodes nodes edges (rankedMetric nodes options)).getD node.id 0)) =
        candidates.map fun node => (node, (scoreNodes nodes' edges' (rankedMetric nodes' options)).getD node.id 0) := by
    intro candidates hsub
    refine List.map_congr_left fun node hnode => ?_
    rw [rankedMetric_perm hnodes, getD_scoreNodes_perm hdistinct hnodes hedges _ (hsub hnode)]
  unfold scored
  dsimp only
  refine List.Perm.filter _ ?_
  split
  · rw [hscore _ (fun _ => List.mem_of_mem_filter)]
    exact (hnodes.filter _).map _
  · rw [hscore _ (List.Subset.refl _)]
    exact hnodes.map _

/-- A node that scores, put first, is the first that scores. -/
theorem scored_cons {node : StoredNode} {rest : List StoredNode} {score : ℚ} {options : HotspotOptions}
    (h : (node, score) ∈ scored (node :: rest) edges options) :
    ∃ others, scored (node :: rest) edges options = (node, score) :: others := by
  obtain ⟨hmem, hpos⟩ := List.mem_filter.mp h
  obtain ⟨node', hcandidate, heq⟩ := List.mem_map.mp hmem
  obtain ⟨rfl, hscore⟩ := Prod.mk.inj heq
  have hcandidates : ∃ candidates, (if options.measuredOnly == some true then
      (node' :: rest).filter fun node => hasRuntime node.metadata else node' :: rest) = node' :: candidates := by
    split at hcandidate
    · next hmeasured =>
      rw [if_pos hmeasured]
      exact ⟨_, List.filter_cons_of_pos (List.mem_filter.mp hcandidate).2⟩
    · next hall => exact ⟨rest, if_neg hall⟩
  obtain ⟨candidates, hcandidates⟩ := hcandidates
  unfold scored
  dsimp only
  rw [hcandidates, List.map_cons, hscore]
  exact ⟨_, List.filter_cons_of_pos hpos⟩

theorem mem_nodes_of_scored {entry : StoredNode × ℚ} {options : HotspotOptions} (h : entry ∈ scored nodes edges options) :
    entry.1 ∈ nodes := by
  obtain ⟨node, hcandidate, rfl⟩ := List.mem_map.mp (List.mem_of_mem_filter h)
  split at hcandidate
  · exact List.mem_of_mem_filter hcandidate
  · exact hcandidate

theorem score_of_scored {entry : StoredNode × ℚ} {options : HotspotOptions} (h : entry ∈ scored nodes edges options) :
    entry.2 = (scoreNodes nodes edges (rankedMetric nodes options)).getD entry.1.id 0 := by
  obtain ⟨node, _, rfl⟩ := List.mem_map.mp (List.mem_of_mem_filter h)
  rfl

theorem eq_of_scored (hdistinct : (nodes.map StoredNode.id).Nodup) {a b : StoredNode × ℚ} {options : HotspotOptions}
    (ha : a ∈ scored nodes edges options) (hb : b ∈ scored nodes edges options) (hid : a.1.id = b.1.id) : a = b := by
  have hnode : a.1 = b.1 :=
    List.inj_on_of_nodup_map hdistinct (mem_nodes_of_scored ha) (mem_nodes_of_scored hb) hid
  refine Prod.ext hnode ?_
  rw [score_of_scored ha, score_of_scored hb, hnode]

/-- A node that scores can stand first among the rows, and then stands first
among what is ranked. -/
theorem exists_perm_first (hdistinct : (nodes.map StoredNode.id).Nodup) {entry : StoredNode × ℚ} {options : HotspotOptions}
    (h : entry ∈ scored nodes edges options) :
    ∃ rows others, nodes.Perm rows ∧ scored rows edges options = entry :: others := by
  obtain ⟨pre, post, rfl⟩ := List.append_of_mem (mem_nodes_of_scored h)
  have hperm : (pre ++ entry.1 :: post).Perm (entry.1 :: (pre ++ post)) := List.perm_middle
  have hmem : entry ∈ scored (entry.1 :: (pre ++ post)) edges options :=
    (scored_perm hdistinct hperm (List.Perm.refl edges) options).mem_iff.mp h
  obtain ⟨others, hothers⟩ := scored_cons hmem
  exact ⟨_, others, hperm, hothers⟩

end Rows

/-- The list is the same in whatever order the rows come just when no two nodes
that tie in score, path and line rank within the limit. -/
theorem hotspots_stable_iff (localeCompare : Comparator String) {nodes : List StoredNode} (edges : List CallEdge)
    (options : HotspotOptions) (hdistinct : (nodes.map StoredNode.id).Nodup) :
    (∀ nodes' edges', nodes.Perm nodes' → edges.Perm edges' →
      (hotspotsOf localeCompare nodes' edges' options).hotspots = (hotspotsOf localeCompare nodes edges options).hotspots) ↔
    ∀ a ∈ scored nodes edges options, ∀ b ∈ scored nodes edges options,
      (hotspotOrder localeCompare).compare a b = 0 → a ≠ b →
        clampLimit options.limit ≤ ranking.before (hotspotOrder localeCompare) (scored nodes edges options) a := by
  constructor
  · intro hstable a ha b hb htie hne
    by_contra hlimit
    -- the tied nodes, each put first once
    obtain ⟨rowsA, othersA, hpermA, hA⟩ := exists_perm_first hdistinct ha
    obtain ⟨rowsB, othersB, hpermB, hB⟩ := exists_perm_first hdistinct hb
    have hlists := (hstable rowsA edges hpermA (List.Perm.refl edges)).trans
      (hstable rowsB edges hpermB (List.Perm.refl edges)).symm
    rw [hotspots_hotspotsOf, hotspots_hotspotsOf, hA, hB, ← rankedMetric_perm hpermA, ← rankedMetric_perm hpermB] at hlists
    have hbeforeA : ranking.before (hotspotOrder localeCompare) othersA a =
        ranking.before (hotspotOrder localeCompare) (scored nodes edges options) a := by
      rw [← ranking.before_cons_self, ← hA]
      exact ranking.before_perm (scored_perm hdistinct hpermA (List.Perm.refl edges) options).symm a
    have hbeforeB : ranking.before (hotspotOrder localeCompare) othersB b =
        ranking.before (hotspotOrder localeCompare) (scored nodes edges options) a := by
      rw [← ranking.before_cons_self, ← hB, ranking.before_eq_of_tie htie]
      exact ranking.before_perm (scored_perm hdistinct hpermB (List.Perm.refl edges) options).symm b
    have hshown := ranking.eq_of_take_sort_cons (toHotspot (rankedMetric nodes options)) (hbeforeA.trans hbeforeB.symm)
      (hbeforeA.trans_lt (not_le.mp hlimit)) hlists
    exact hne (eq_of_scored hdistinct ha hb (congrArg (fun ref : HotspotRef => ref.id) hshown))
  · intro hties nodes' edges' hnodes hedges
    rw [hotspots_hotspotsOf, hotspots_hotspotsOf, ← rankedMetric_perm hnodes]
    exact congrArg (List.map _) (ranking.take_sort_perm (scored_perm hdistinct hnodes hedges options) hties).symm

/-- Two arrow functions that share a line, and the function that calls both. -/
def sharedLineNodes : List StoredNode :=
  [⟨"Function:src/a.ts#parse@1", .Function, "parse", "src/a.ts", 1, 1, ∅⟩,
    ⟨"Function:src/a.ts#render@1", .Function, "render", "src/a.ts", 1, 1, ∅⟩,
    ⟨"Function:src/a.ts#main@3", .Function, "main", "src/a.ts", 3, 5, ∅⟩]

/-- `main` calls `parse` so many times, and `render` once. -/
def sharedLineEdges (count : ℚ) : List CallEdge :=
  [⟨"Function:src/a.ts#main@3", "Function:src/a.ts#parse@1", count⟩,
    ⟨"Function:src/a.ts#main@3", "Function:src/a.ts#render@1", 1⟩]

theorem hotspots_stable_iff_calledTwice :
    (hotspotsOf Comparator.ofOrder sharedLineNodes.reverse (sharedLineEdges 2).reverse { metric := some .callCount }).hotspots =
      (hotspotsOf Comparator.ofOrder sharedLineNodes (sharedLineEdges 2) { metric := some .callCount }).hotspots := by
  have hdistinct : (sharedLineNodes.map StoredNode.id).Nodup := by decide
  have hties : ∀ a ∈ scored sharedLineNodes (sharedLineEdges 2) { metric := some .callCount },
      ∀ b ∈ scored sharedLineNodes (sharedLineEdges 2) { metric := some .callCount },
        (hotspotOrder Comparator.ofOrder).compare a b = 0 → a.1.id = b.1.id := by decide +kernel
  refine (hotspots_stable_iff Comparator.ofOrder (sharedLineEdges 2) _ hdistinct).mpr ?_ _ _
    (List.reverse_perm _).symm (List.reverse_perm _).symm
  intro a ha b hb htie hne
  exact absurd (eq_of_scored hdistinct ha hb (hties a ha b hb htie)) hne

/-- Which of the two functions comes first is left to the database. -/
theorem hotspots_unstable_sharedLine : ¬ ∀ (localeCompare : Comparator String) (nodes : List StoredNode)
    (edges : List CallEdge) (options : HotspotOptions), (nodes.map StoredNode.id).Nodup →
      ∀ nodes' edges', nodes.Perm nodes' → edges.Perm edges' →
        (hotspotsOf localeCompare nodes' edges' options).hotspots =
          (hotspotsOf localeCompare nodes edges options).hotspots := by
  intro hclaim
  have hlists := hclaim Comparator.ofOrder sharedLineNodes (sharedLineEdges 1) {} (by decide) sharedLineNodes.reverse
    (sharedLineEdges 1) (List.reverse_perm _).symm (List.Perm.refl _)
  exact absurd (congrArg (List.map fun ref : HotspotRef => ref.id) hlists) (by decide +kernel)

end codespine.query.GraphQuery
