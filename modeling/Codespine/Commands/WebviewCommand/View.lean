import Codespine.Commands.ClusterCommand
import Codespine.Commands.WebviewCommand
import Codespine.Query.Reads
import Codespine.Report.ReportData

open codespine.schema codespine.store codespine.store.KuzuStore codespine.query codespine.webview
open codespine.report codespine.commands.ClusterCommand

namespace codespine.commands.WebviewCommand

section Elements

theorem ids_buildDataScript (store : KuzuStore) : (buildDataScript store).nodes.map RawNode.id = store.nodes.keys := by
  unfold buildDataScript OrderedMap.keys
  rw [List.map_map]
  rfl

theorem endpoints_buildDataScript {store : KuzuStore} {edge : RawEdge} (hedge : edge ∈ (buildDataScript store).edges) :
    edge.source ∈ store.nodes.keys ∧ edge.target ∈ store.nodes.keys := by
  obtain ⟨entry, hentry, rfl⟩ := List.mem_map.mp hedge
  exact store.endpoints _ (List.mem_map_of_mem (List.fst_mem_of_mem_zipIdx hentry))

/-- Every relationship has both ends on the page, so none is left out. -/
theorem edgeElements_buildDataScript (store : KuzuStore) :
    (Graph.setData (buildDataScript store).nodes (buildDataScript store).edges).edgeElements =
      (buildDataScript store).edges.map Graph.edgeElement := by
  unfold Graph.setData
  dsimp only
  rw [List.filter_eq_self.mpr fun edge hedge => ?_]
  rw [ids_buildDataScript]
  exact decide_eq_true (endpoints_buildDataScript hedge)

theorem edgeIds_nodup (store : KuzuStore) : ((buildDataScript store).edges.map RawEdge.id).Nodup := by
  have hids : (buildDataScript store).edges.map RawEdge.id =
      (List.range store.edges.entries.length).map fun index => "e" ++ toString index := by
    unfold buildDataScript
    rw [List.map_map, List.range_eq_range', ← List.zipIdx_map_snd, List.map_map]
    rfl
  rw [hids]
  exact List.nodup_range.map fun index index' heq => Nat.repr_injective ((String.append_right_inj "e").mp heq)

/-- Each end of each edge is counted at one node. -/
theorem sum_degrees (store : KuzuStore) :
    ((Graph.setData (buildDataScript store).nodes (buildDataScript store).edges).nodeElements.map NodeData.degree).sum =
      2 * (buildDataScript store).edges.length := by
  have hends : ∀ id ∈ (buildDataScript store).edges.flatMap (fun edge => [edge.source, edge.target]),
      id ∈ store.nodes.keys := by
    intro id hid
    obtain ⟨edge, hedge, hid⟩ := List.mem_flatMap.mp hid
    obtain ⟨hsource, htarget⟩ := endpoints_buildDataScript hedge
    obtain rfl | hid := List.mem_cons.mp hid
    · exact hsource
    · rw [List.mem_singleton.mp hid]
      exact htarget
  have hdegrees : (Graph.setData (buildDataScript store).nodes (buildDataScript store).edges).nodeElements.map
      NodeData.degree = store.nodes.keys.map fun id =>
        ((buildDataScript store).edges.flatMap fun edge => [edge.source, edge.target]).count id := by
    rw [← ids_buildDataScript, List.map_map]
    unfold Graph.setData
    dsimp only
    rw [List.map_map]
    refine List.map_congr_left fun node _ => ?_
    simp only [Function.comp_apply, Graph.nodeElement, degrees_eq_tally, OrderedMap.getD_tally]
  rw [hdegrees, counting.sum_count_eq store.nodes.nodup_keys hends, List.length_flatMap]
  simp [Nat.mul_comm]

end Elements

section Metadata

/-- Left out or not, metadata has the same fields. -/
theorem get_decodeMetadata (metadata : Metadata) (key : String) :
    ((decodeMetadata metadata).bind fun metadata => metadata.get key) = metadata.get key := by
  unfold decodeMetadata
  split
  · rfl
  · next hempty =>
    refine (OrderedMap.get_eq_none_iff.mpr fun hkey => hempty ?_).symm
    exact List.length_pos_of_mem hkey

theorem nodeCommunity_scriptNode (entry : String × NodeRow) :
    Community.nodeCommunity (scriptNode entry) = communityIn entry.2.metadata := by
  unfold Community.nodeCommunity communityIn scriptNode
  dsimp only
  rw [get_decodeMetadata]
  rfl

theorem nodeCommunityLabel_scriptNode (entry : String × NodeRow) :
    Community.nodeCommunityLabel (scriptNode entry) = labelIn entry.2.metadata := by
  unfold Community.nodeCommunityLabel labelIn scriptNode
  dsimp only
  rw [get_decodeMetadata]
  rfl

theorem nodeRuntime_scriptNode (entry : String × NodeRow) : Runtime.nodeRuntime (scriptNode entry) =
    (entry.2.metadata.get "runtime").filter fun runtime => !Legends.isNullish (some runtime) := by
  unfold Runtime.nodeRuntime scriptNode
  dsimp only
  rw [get_decodeMetadata]

/-- The self times in the database are numbers, none below zero. -/
def NumericSelfTimes (store : KuzuStore) : Prop :=
  ∀ entry ∈ store.nodes.entries, ∀ runtime, entry.2.metadata.get "runtime" = some runtime →
    ∀ selfMs, runtime.field "selfMs" = some selfMs → selfMs = .null ∨ ∃ value, 0 ≤ value ∧ selfMs = .num value

theorem NumericSelfTimes.nonneg {store : KuzuStore} (h : NumericSelfTimes store) {entry : String × NodeRow}
    (hentry : entry ∈ store.nodes.entries) : 0 ≤ GraphQuery.runtimeValue entry.2.metadata "selfMs" := by
  unfold GraphQuery.runtimeValue
  split
  · next value hvalue =>
    obtain ⟨runtime, hruntime, hfield⟩ := Option.bind_eq_some_iff.mp hvalue
    obtain hnull | ⟨_, hnonneg, hnum⟩ := h entry hentry runtime hruntime _ hfield
    · cases hnull
    · cases hnum
      exact hnonneg
  · exact le_rfl

/-- The self time of a node on the page, as the queries read it. -/
def selfTimeOf (node : RawNode) : ℚ := GraphQuery.runtimeValue (node.metadata.getD ∅) "selfMs"

theorem selfTimeOf_scriptNode (entry : String × NodeRow) :
    selfTimeOf (scriptNode entry) = GraphQuery.runtimeValue entry.2.metadata "selfMs" := by
  have hget : ((decodeMetadata entry.2.metadata).getD ∅).get "runtime" = entry.2.metadata.get "runtime" := by
    have hsame := get_decodeMetadata entry.2.metadata "runtime"
    cases hdecoded : decodeMetadata entry.2.metadata with
    | none =>
      rw [hdecoded] at hsame
      exact hsame
    | some metadata =>
      rw [hdecoded] at hsame
      exact hsame
  unfold selfTimeOf GraphQuery.runtimeValue scriptNode
  rw [hget]

/-- Where it is a number, the page reads the same. -/
theorem selfMs_buildDataScript {store : KuzuStore} (h : NumericSelfTimes store) :
    ∀ node ∈ (buildDataScript store).nodes, ∀ runtime, Runtime.nodeRuntime node = some runtime →
      Runtime.selfMs runtime = some (selfTimeOf node) := by
  intro node hnode runtime hruntime
  obtain ⟨entry, hentry, rfl⟩ := List.mem_map.mp hnode
  rw [nodeRuntime_scriptNode] at hruntime
  have hruntime := (Option.filter_eq_some_iff.mp hruntime).1
  rw [selfTimeOf_scriptNode, GraphQuery.runtimeValue, hruntime, Option.bind_some, Runtime.selfMs]
  cases hfield : runtime.field "selfMs" with
  | none => rfl
  | some selfMs =>
    obtain rfl | ⟨value, _, rfl⟩ := h entry hentry runtime hruntime selfMs hfield
    · rfl
    · rfl

/-- What was not measured took nothing. -/
theorem selfTimeOf_unmeasured {entry : String × NodeRow} (h : Runtime.nodeRuntime (scriptNode entry) = none) :
    selfTimeOf (scriptNode entry) = 0 := by
  rw [nodeRuntime_scriptNode] at h
  rw [selfTimeOf_scriptNode, GraphQuery.runtimeValue]
  cases hruntime : entry.2.metadata.get "runtime" with
  | none => rfl
  | some runtime =>
    rw [hruntime] at h
    cases runtime with
    | null => rfl
    | bool _ | num _ | str _ | arr _ | obj _ => cases h

end Metadata

section Totals

theorem totalSelf_readNodes (store : KuzuStore) (edges : List CallEdge) :
    (GraphQuery.computeCostModel store.readNodes edges .selfTime).totalSelf =
      (store.nodes.entries.map fun entry => GraphQuery.runtimeValue entry.2.metadata "selfMs").sum := by
  have hself : (List.finRange store.readNodes.length).map (GraphQuery.selfAt store.readNodes .selfTime) =
      store.readNodes.map fun node => GraphQuery.runtimeValue node.metadata "selfMs" := by
    refine Eq.trans ?_ (congrArg (List.map _) (List.map_get_finRange store.readNodes))
    rw [List.map_map]
    rfl
  change ((List.finRange store.readNodes.length).map (GraphQuery.selfAt store.readNodes .selfTime)).sum = _
  rw [hself, readNodes, List.map_map]
  rfl

variable {store : KuzuStore}

/-- Where the self times are numbers, the page totals them as the cost queries
do. -/
theorem totalSelfMs_runtimeTotals (hnumeric : NumericSelfTimes store) (edges : List CallEdge) :
    (Graph.runtimeTotals (buildDataScript store).nodes).totalSelfMs =
      some (GraphQuery.computeCostModel store.readNodes edges .selfTime).totalSelf := by
  rw [totalSelf_readNodes]
  refine (totalSelfMs_foldl (selfMs_buildDataScript hnumeric) rfl).trans (congrArg some ?_)
  rw [zero_add]
  unfold buildDataScript
  rw [List.map_map]
  refine congrArg List.sum (List.map_congr_left fun entry _ => ?_)
  rw [Function.comp_apply, ← selfTimeOf_scriptNode]
  split
  · rfl
  · next hunmeasured => exact (selfTimeOf_unmeasured (Option.not_isSome_iff_eq_none.mp hunmeasured)).symm

/-- And the hottest node took as much as the page says, if one was measured. -/
theorem maxSelfMs_runtimeTotals (hnumeric : NumericSelfTimes store) :
    ∃ hottest, (Graph.runtimeTotals (buildDataScript store).nodes).maxSelfMs = some hottest ∧
      (∀ node ∈ (buildDataScript store).nodes, ∀ runtime, Runtime.nodeRuntime node = some runtime →
        ∃ selfMs, Runtime.selfMs runtime = some selfMs ∧ selfMs ≤ hottest) ∧
      ((∃ node ∈ (buildDataScript store).nodes, (Runtime.nodeRuntime node).isSome) →
        ∃ node ∈ (buildDataScript store).nodes, ∃ runtime, Runtime.nodeRuntime node = some runtime ∧
          Runtime.selfMs runtime = some hottest) := by
  have hvalue := selfMs_buildDataScript hnumeric
  have hinitial : ({ maxSelfMs := some 0, measuredCount := 0, totalSelfMs := some 0 } : RuntimeTotals).maxSelfMs =
      some 0 := rfl
  obtain ⟨hottest, heq, _, hbound, hattained⟩ := maxSelfMs_foldl hvalue hinitial
  have hmeasured : ∀ node ∈ (buildDataScript store).nodes, (Runtime.nodeRuntime node).isSome → ∃ runtime,
      Runtime.nodeRuntime node = some runtime ∧ Runtime.selfMs runtime = some (selfTimeOf node) := by
    intro node hnode hsome
    obtain ⟨runtime, hruntime⟩ := Option.isSome_iff_exists.mp hsome
    exact ⟨runtime, hruntime, hvalue node hnode runtime hruntime⟩
  refine ⟨hottest, heq, ?_, ?_⟩
  · intro node hnode runtime hruntime
    exact ⟨_, hvalue node hnode runtime hruntime, hbound node hnode (Option.isSome_iff_exists.mpr ⟨runtime, hruntime⟩)⟩
  · rintro ⟨node, hnode, hsome⟩
    obtain hzero | ⟨other, hother, hother', hvalue'⟩ := hattained
    · -- nothing took more than nothing, so the measured node took just that
      obtain ⟨entry, hentry, rfl⟩ := List.mem_map.mp hnode
      obtain ⟨runtime, hruntime, hselfMs⟩ := hmeasured _ hnode hsome
      have hnonneg : 0 ≤ selfTimeOf (scriptNode entry) := selfTimeOf_scriptNode entry ▸ hnumeric.nonneg hentry
      have hle : selfTimeOf (scriptNode entry) ≤ hottest := hbound _ hnode hsome
      rw [le_antisymm (hle.trans_eq hzero) hnonneg, ← hzero] at hselfMs
      exact ⟨_, hnode, runtime, hruntime, hselfMs⟩
    · obtain ⟨runtime, hruntime, hselfMs⟩ := hmeasured other hother hother'
      exact ⟨_, hother, runtime, hruntime, hvalue' ▸ hselfMs⟩

end Totals

section Communities

theorem communityCounts_buildDataScript (store : KuzuStore) :
    Community.communityCounts (buildDataScript store).nodes =
      (Comparator.descending fun entry : ℚ × ℕ => (entry.2 : ℚ)).sort (ReportData.communitySizes store.readNodes).entries := by
  unfold Community.communityCounts Util.countBy ReportData.communitySizes buildDataScript readNodes
  rw [List.filterMap_map, List.filterMap_map]
  refine congrArg (fun f => Comparator.sort _ (OrderedMap.tally (List.filterMap f _)).entries) (funext fun entry => ?_)
  exact nodeCommunity_scriptNode entry

/-- The page and the report give a community the same label. -/
theorem communityLabels_buildDataScript (store : KuzuStore) :
    Community.communityLabels (buildDataScript store).nodes = ReportData.communityLabels store.readNodes := by
  unfold Community.communityLabels ReportData.communityLabels buildDataScript readNodes
  rw [List.foldl_map, List.foldl_map]
  refine congrArg (fun f => List.foldl f ∅ _) (funext fun labels => funext fun entry => ?_)
  rw [nodeCommunity_scriptNode, nodeCommunityLabel_scriptNode]
  dsimp only
  cases communityIn entry.2.metadata with
  | none => rfl
  | some community =>
    cases labelIn entry.2.metadata with
    | none => exact ite_self _
    | some label => rfl

end Communities

/-- What a page shows of a database: all of it, with what the command line
reports of it. -/
structure Shows (store : KuzuStore) (view : View) : Prop where
  nodes : view.nodeElements.map (fun node => node.id) = store.nodes.keys
  edges : view.edgeElements.map (fun edge => (edge.source, edge.kind, edge.target)) =
    store.edges.keys.map fun key => (key.source, key.kind.text, key.target)
  edgeIds : (view.edgeElements.map fun edge => edge.id).Nodup
  degrees : ∀ node ∈ view.nodeElements, node.degree =
    (view.edgeElements.filter fun edge => edge.source = node.id).length +
      (view.edgeElements.filter fun edge => edge.target = node.id).length
  handshake : (view.nodeElements.map NodeData.degree).sum = 2 * view.edgeElements.length
  totalSelf : NumericSelfTimes store → ∀ edges, view.runtime.totalSelfMs =
    some (GraphQuery.computeCostModel store.readNodes edges .selfTime).totalSelf
  hottest : NumericSelfTimes store → ∃ hottest, view.runtime.maxSelfMs = some hottest ∧
    (∀ node ∈ view.nodeElements, ∀ runtime, node.runtime = some runtime →
      ∃ selfMs, Runtime.selfMs runtime = some selfMs ∧ selfMs ≤ hottest) ∧
    ((∃ node ∈ view.nodeElements, node.runtime.isSome) →
      ∃ node ∈ view.nodeElements, ∃ runtime, node.runtime = some runtime ∧ Runtime.selfMs runtime = some hottest)
  communities : view.communities.Perm (ReportData.communitySizes store.readNodes).entries ∧
    view.communities.Pairwise fun first second => second.2 ≤ first.2
  labels : view.communityLabels = ReportData.communityLabels store.readNodes

/-- Whatever the database holds, the page that is served for it shows every
node and every relationship once, counts both ends of each, and agrees with
the report on communities; and where the self times are numbers, with the cost
queries on what was measured. -/
theorem shows_setData (store : KuzuStore) :
    Shows store (Graph.setData (buildDataScript store).nodes (buildDataScript store).edges) := by
  have hedges := edgeElements_buildDataScript store
  constructor
  case nodes =>
    rw [← ids_buildDataScript]
    unfold Graph.setData
    dsimp only
    rw [List.map_map]
    rfl
  case edges =>
    rw [hedges]
    unfold buildDataScript OrderedMap.keys
    rw [List.map_map, List.map_map, List.map_map]
    nth_rewrite 2 [← List.zipIdx_map_fst 0 store.edges.entries]
    rw [List.map_map]
    rfl
  case edgeIds =>
    rw [hedges, List.map_map]
    exact edgeIds_nodup store
  case degrees =>
    rw [hedges]
    intro node hnode
    obtain ⟨raw, _, rfl⟩ := List.mem_map.mp hnode
    rw [List.filter_map, List.filter_map, List.length_map, List.length_map]
    exact getD_degrees (buildDataScript store).edges raw.id
  case handshake =>
    rw [sum_degrees, hedges, List.length_map]
  case totalSelf => exact totalSelfMs_runtimeTotals
  case hottest =>
    intro hnumeric
    obtain ⟨hottest, heq, hbound, hattained⟩ := maxSelfMs_runtimeTotals hnumeric
    refine ⟨hottest, heq, ?_, ?_⟩
    · intro node hnode
      obtain ⟨raw, hraw, rfl⟩ := List.mem_map.mp hnode
      exact hbound raw hraw
    · rintro ⟨node, hnode, hsome⟩
      obtain ⟨raw, hraw, rfl⟩ := List.mem_map.mp hnode
      obtain ⟨other, hother, hvalue⟩ := hattained ⟨raw, hraw, hsome⟩
      exact ⟨_, List.mem_map_of_mem hother, hvalue⟩
  case communities =>
    change (Community.communityCounts _).Perm _ ∧ (Community.communityCounts _).Pairwise _
    rw [communityCounts_buildDataScript]
    refine ⟨Comparator.sort_perm _ _, (Comparator.sort_pairwise _ _).imp fun {first second} h => ?_⟩
    have hle : -(first.2 : ℚ) - -(second.2 : ℚ) ≤ 0 := h
    have hcast : (second.2 : ℚ) ≤ first.2 := by linarith
    exact_mod_cast hcast
  case labels => exact communityLabels_buildDataScript store

/-- A measured function and its caller. -/
def measuredStore : KuzuStore :=
  (KuzuStore.initSchema.load
    [{ id := "main", kind := .Function, name := "main", filePath := "src/main.ts" },
      { id := "parse", kind := .Function, name := "parse", filePath := "src/main.ts",
        metadata := some (OrderedMap.ofList [("runtime", .obj [("selfMs", .num 5)])]) }]
    [{ id := "CALLS:main->parse", kind := .CALLS, source := "main", target := "parse" }]).1

theorem shows_setData_measured : NumericSelfTimes measuredStore ∧
    (Graph.setData (buildDataScript measuredStore).nodes (buildDataScript measuredStore).edges).runtime.totalSelfMs =
      some (GraphQuery.computeCostModel measuredStore.readNodes [] .selfTime).totalSelf := by
  have hnumeric : NumericSelfTimes measuredStore := by
    intro entry hentry runtime hruntime selfMs hselfMs
    obtain rfl | hentry := List.mem_cons.mp hentry
    · cases hruntime
    · obtain rfl := List.mem_singleton.mp hentry
      cases hruntime
      cases hselfMs
      exact Or.inr ⟨5, by norm_num, rfl⟩
  exact ⟨hnumeric, (shows_setData measuredStore).totalSelf hnumeric []⟩

end codespine.commands.WebviewCommand
