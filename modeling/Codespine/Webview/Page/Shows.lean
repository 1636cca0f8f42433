import Codespine.Webview.Page

open codespine.schema

namespace codespine.webview

section Filtered

variable {state : FilterState} {graph : CyGraph} {hidden : HiddenClass}

theorem hiddenByFilters_eq_false {node : CyNode} : Legends.hiddenByFilters state node = false ↔
    node.kind ∉ state.hiddenNodeKinds ∧ (state.onlyMeasured = true → Legends.isNullish node.runtime = false) ∧
      ∀ community ∈ node.community, community ∉ state.hiddenCommunities := by
  have hcommunity : (node.community.any fun community => community ∈ state.hiddenCommunities) = false ↔
      ∀ community ∈ node.community, community ∉ state.hiddenCommunities := by
    rw [Option.any_eq_false]
    simp
  unfold Legends.hiddenByFilters
  rw [Bool.or_eq_false_iff, Bool.or_eq_false_iff, decide_eq_false_iff_not, hcommunity, and_assoc]
  refine and_congr_right fun _ => and_congr_left fun _ => ?_
  cases state.onlyMeasured <;> simp

theorem edge_applyFilters {edge : CyEdge} (hedge : edge ∈ graph.edges) :
    (Legends.applyFilters state graph hidden).edge edge.id = decide (edge.kind ∈ state.hiddenEdgeKinds) := by
  have hmarked : Legends.markedEdges state graph hidden edge.id = decide (edge.kind ∈ state.hiddenEdgeKinds) :=
    Legends.markedEdges_of_mem hedge
  unfold Legends.applyFilters
  dsimp only
  split
  · exact hmarked
  · exact hmarked

/-- Without the box for isolated nodes a node is visible when it passes the
filters. -/
theorem node_applyFilters_of_not (hisolated : state.hideIsolated = false) {node : CyNode} (hnode : node ∈ graph.nodes) :
    (Legends.applyFilters state graph hidden).node node.id = Legends.hiddenByFilters state node := by
  unfold Legends.applyFilters
  dsimp only
  rw [hisolated, if_neg Bool.false_ne_true]
  exact Legends.markedNodes_of_mem hnode

end Filtered

namespace Page

/-- The boxes agree with the filters and list whatever the graph has, and the
colours have their data. -/
structure Boxes (page : Page) : Prop where
  nodeKinds : page.nodeKinds.Agrees page.filters.hiddenNodeKinds
  edgeKinds : page.edgeKinds.Agrees page.filters.hiddenEdgeKinds
  communities : page.communities.Agrees page.filters.hiddenCommunities
  onlyMeasured : page.onlyMeasuredBox = page.filters.onlyMeasured
  hideIsolated : page.hideIsolatedBox = page.filters.hideIsolated
  listedNode : ∀ graph ∈ page.graph, ∀ node ∈ graph.nodes, node.kind ∈ page.nodeKinds.kinds ∧
    ∀ community ∈ node.community, community ∈ page.communities.kinds
  listedEdge : ∀ graph ∈ page.graph, ∀ edge ∈ graph.edges, edge.kind ∈ page.edgeKinds.kinds
  measured : ∀ graph ∈ page.graph, page.runtimeDisabled = false → ∃ node ∈ graph.nodes, Legends.isNullish node.runtime = false
  clustered : ∀ graph ∈ page.graph, page.communityDisabled = false → ∃ node ∈ graph.nodes, node.community ≠ none
  encoding : page.graph ≠ none → page.isDisabled page.encoding = false

/-- And the filters were applied last. -/
structure Consistent (page : Page) : Prop extends Boxes page where
  filtered : ∀ graph ∈ page.graph, ∃ before, page.hidden = Legends.applyFilters page.filters graph before

/-- What the boxes say of a node. -/
def Passes (page : Page) (node : CyNode) : Prop :=
  page.nodeKinds.checked node.kind = true ∧ (page.onlyMeasuredBox = true → Legends.isNullish node.runtime = false) ∧
    ∀ community ∈ node.community, page.communities.checked community = true

/-- The page shows of a graph what its boxes say: the nodes that pass, with the
box for isolated nodes those that have an edge of a checked kind to one that
passes, and the edges of a checked kind. Whatever hides an element has its box,
a box for all is checked when all are, and the colours have their data. -/
structure Shows (page : Page) (graph : CyGraph) : Prop where
  node : ∀ node ∈ graph.nodes, page.hidden.node node.id = false ↔ page.Passes node ∧
    (page.hideIsolatedBox = true → ∃ edge ∈ graph.edges, page.edgeKinds.checked edge.kind = true ∧
      ∃ other ∈ graph.nodes, page.Passes other ∧
        (edge.source = node.id ∧ edge.target = other.id ∨ edge.source = other.id ∧ edge.target = node.id))
  edge : ∀ edge ∈ graph.edges, page.hidden.edge edge.id = false ↔ page.edgeKinds.checked edge.kind = true
  listedNode : ∀ node ∈ graph.nodes, node.kind ∈ page.nodeKinds.kinds ∧
    ∀ community ∈ node.community, community ∈ page.communities.kinds
  listedEdge : ∀ edge ∈ graph.edges, edge.kind ∈ page.edgeKinds.kinds
  allNodeKinds : page.nodeKinds.masterChecked = true ↔ ∀ kind ∈ page.nodeKinds.kinds, page.nodeKinds.checked kind = true
  allEdgeKinds : page.edgeKinds.masterChecked = true ↔ ∀ kind ∈ page.edgeKinds.kinds, page.edgeKinds.checked kind = true
  allCommunities : page.communities.masterChecked = true ↔
    ∀ community ∈ page.communities.kinds, page.communities.checked community = true
  runtime : page.encoding = .runtime → ∃ node ∈ graph.nodes, Legends.isNullish node.runtime = false
  community : page.encoding = .community → ∃ node ∈ graph.nodes, node.community ≠ none

section Shows

variable {page : Page} {graph : CyGraph}

/-- The boxes of a node are there, so that what they say is what the filters
do. -/
theorem Consistent.passes_iff (h : page.Consistent) (hgraph : page.graph = some graph) {node : CyNode}
    (hnode : node ∈ graph.nodes) : page.Passes node ↔ Legends.hiddenByFilters page.filters node = false := by
  obtain ⟨hkind, hcommunity⟩ := h.listedNode graph hgraph node hnode
  unfold Passes
  rw [hiddenByFilters_eq_false, h.nodeKinds.box _ hkind, h.onlyMeasured]
  refine and_congr_right fun _ => and_congr_right fun _ => forall₂_congr fun community hmem => ?_
  exact h.communities.box community (hcommunity community hmem)

theorem Consistent.shows (h : page.Consistent) (hgraph : page.graph = some graph) : page.Shows graph := by
  obtain ⟨before, hfiltered⟩ := h.filtered graph hgraph
  have hmaster {κ : Type} [DecidableEq κ] {legend : Legend κ} {hiddenSet : Finset κ} (hagrees : legend.Agrees hiddenSet) :
      legend.masterChecked = true ↔ ∀ kind ∈ legend.kinds, legend.checked kind = true := by
    rw [hagrees.master]
    exact forall₂_congr fun kind hkind => (hagrees.box kind hkind).symm
  have hcolours := h.encoding (by rw [hgraph]; exact Option.some_ne_none _)
  refine ⟨?_, ?_, h.listedNode graph hgraph, h.listedEdge graph hgraph, hmaster h.nodeKinds, hmaster h.edgeKinds,
    hmaster h.communities, ?_, ?_⟩
  case refine_1 =>
    intro node hnode
    rw [hfiltered, h.hideIsolated, h.passes_iff hgraph hnode]
    cases hisolated : page.filters.hideIsolated with
    | false =>
      rw [node_applyFilters_of_not hisolated hnode]
      simp
    | true =>
      rw [Legends.node_applyFilters_iff_neighbor hisolated hnode]
      refine and_congr_right fun _ => (forall_prop_of_true rfl).symm.trans (imp_congr_right fun _ => ?_)
      refine exists_congr fun edge => and_congr_right fun hedge => and_congr ?_ ?_
      · exact (h.edgeKinds.box _ (h.listedEdge graph hgraph edge hedge)).symm
      · exact exists_congr fun other => and_congr_right fun hother => and_congr_left fun _ => (h.passes_iff hgraph hother).symm
  case refine_2 =>
    intro edge hedge
    rw [hfiltered, edge_applyFilters hedge, decide_eq_false_iff_not]
    exact (h.edgeKinds.box _ (h.listedEdge graph hgraph edge hedge)).symm
  case refine_3 =>
    intro hruntime
    rw [hruntime] at hcolours
    exact h.measured graph hgraph hcolours
  case refine_4 =>
    intro hcommunity
    rw [hcommunity] at hcolours
    exact h.clustered graph hgraph hcolours

end Shows

section Step

variable {page : Page}

/-- To apply the filters is all that a change of the boxes still needs. -/
theorem Boxes.applyFilters (h : page.Boxes) : page.applyFilters.Consistent := by
  unfold Page.applyFilters
  split
  · next hgraph => exact { h with filtered := fun graph hsome => nomatch hgraph.symm.trans hsome }
  · next graph hgraph =>
    refine { h with filtered := fun other hother => ⟨page.hidden, ?_⟩ }
    rw [Option.some_injective _ (hgraph.symm.trans hother)]

theorem Boxes.setNodeKinds (h : page.Boxes) {clicked : Finset String × Legend String} (hagrees : clicked.2.Agrees clicked.1)
    (hkinds : clicked.2.kinds = page.nodeKinds.kinds) : (page.setNodeKinds clicked).Consistent :=
  Boxes.applyFilters
    { h with
      nodeKinds := hagrees
      listedNode := hkinds ▸ h.listedNode }

theorem Boxes.setEdgeKinds (h : page.Boxes) {clicked : Finset String × Legend String} (hagrees : clicked.2.Agrees clicked.1)
    (hkinds : clicked.2.kinds = page.edgeKinds.kinds) : (page.setEdgeKinds clicked).Consistent :=
  Boxes.applyFilters
    { h with
      edgeKinds := hagrees
      listedEdge := hkinds ▸ h.listedEdge }

theorem Boxes.setCommunities (h : page.Boxes) {clicked : Finset ℚ × Legend ℚ} (hagrees : clicked.2.Agrees clicked.1)
    (hkinds : clicked.2.kinds = page.communities.kinds) : (page.setCommunities clicked).Consistent :=
  Boxes.applyFilters
    { h with
      communities := hagrees
      listedNode := hkinds ▸ h.listedNode }

/-- A legend lists what occurs. -/
theorem mem_countBy {κ : Type} [DecidableEq κ] {values : List κ} {value : κ} :
    value ∈ (Util.countBy values).map Prod.fst ↔ value ∈ values := by
  unfold Util.countBy
  rw [((Comparator.sort_perm _ _).map Prod.fst).mem_iff]
  exact OrderedMap.mem_keys_tally

section Load

variable {records : Records}

theorem mem_nodes_graph {node : CyNode} (hnode : node ∈ records.graph.nodes) : ∃ raw ∈ records.nodes, raw.kind = node.kind ∧
    Runtime.nodeRuntime raw = node.runtime ∧ Community.nodeCommunity raw = node.community := by
  obtain ⟨data, hdata, rfl⟩ := List.mem_map.mp hnode
  obtain ⟨raw, hraw, rfl⟩ := List.mem_map.mp hdata
  exact ⟨raw, hraw, rfl, rfl, rfl⟩

theorem exists_node_of_mem {raw : RawNode} (hraw : raw ∈ records.nodes) : ∃ node ∈ records.graph.nodes,
    Runtime.nodeRuntime raw = node.runtime ∧ Community.nodeCommunity raw = node.community :=
  ⟨_, List.mem_map_of_mem (List.mem_map_of_mem hraw), rfl, rfl⟩

theorem mem_edges_graph {edge : CyEdge} (hedge : edge ∈ records.graph.edges) :
    ∃ raw ∈ records.edges, raw.kind = edge.kind := by
  obtain ⟨data, hdata, rfl⟩ := List.mem_map.mp hedge
  obtain ⟨raw, hraw, rfl⟩ := List.mem_map.mp hdata
  exact ⟨raw, List.mem_of_mem_filter hraw, rfl⟩

theorem exists_measured (hmeasured : records.view.runtime.measuredCount ≠ 0) :
    ∃ node ∈ records.graph.nodes, Legends.isNullish node.runtime = false := by
  have hcount : records.view.runtime.measuredCount = records.nodes.countP fun node => (Runtime.nodeRuntime node).isSome := by
    have h := measuredCount_foldl records.nodes { maxSelfMs := some 0, measuredCount := 0, totalSelfMs := some 0 }
    rwa [Nat.zero_add] at h
  rw [hcount, ← Nat.pos_iff_ne_zero, List.countP_pos_iff] at hmeasured
  obtain ⟨raw, hraw, hsome⟩ := hmeasured
  obtain ⟨node, hnode, hruntime, _⟩ := exists_node_of_mem hraw
  refine ⟨node, hnode, ?_⟩
  rw [← hruntime]
  obtain ⟨runtime, hruntime⟩ := Option.isSome_iff_exists.mp hsome
  rw [hruntime]
  have hnullish := (Option.filter_eq_some_iff.mp hruntime).2
  rw [Bool.not_eq_true'] at hnullish
  exact hnullish

theorem exists_clustered (hclustered : records.view.communities ≠ []) :
    ∃ node ∈ records.graph.nodes, node.community ≠ none := by
  obtain ⟨entry, hentry⟩ := List.exists_mem_of_ne_nil _ hclustered
  have hmem := mem_countBy.mp (List.mem_map_of_mem hentry)
  obtain ⟨raw, hraw, hcommunity⟩ := List.mem_filterMap.mp hmem
  obtain ⟨node, hnode, _, hsame⟩ := exists_node_of_mem hraw
  refine ⟨node, hnode, ?_⟩
  rw [← hsame, hcommunity]
  exact Option.some_ne_none _

/-- A missing measure resets the filter on measures, and nothing else. -/
theorem renderRuntime_eq (records : Records) (page : Page) : ∃ onlyMeasured onlyMeasuredBox,
    (page.onlyMeasuredBox = page.filters.onlyMeasured → onlyMeasuredBox = onlyMeasured) ∧
    page.renderRuntime records = { page with filters := { page.filters with onlyMeasured }, onlyMeasuredBox } := by
  unfold renderRuntime
  dsimp only
  split
  · exact ⟨false, false, fun _ => rfl, rfl⟩
  · exact ⟨page.filters.onlyMeasured, page.onlyMeasuredBox, id, rfl⟩

theorem isDisabled_syncEncodingOptions (records : Records) (page : Page) :
    (page.syncEncodingOptions records).isDisabled (page.syncEncodingOptions records).encoding = false := by
  unfold syncEncodingOptions
  dsimp only
  split
  · rfl
  · next hkept =>
    rw [not_or, not_and, not_and] at hkept
    cases hencoding : page.encoding with
    | structural => rfl
    | runtime => exact decide_eq_false (hkept.1 hencoding)
    | community => exact decide_eq_false (hkept.2 hencoding)

/-- The legends of a new graph list what it has, its boxes as the filters were
left. -/
theorem Boxes.setData (h : page.Boxes) (records : Records) : (page.setData records).Consistent := by
  let loaded : Page := { page with graph := some records.graph, hidden := ⟨fun _ => false, fun _ => false⟩ }
  obtain ⟨onlyMeasured, onlyMeasuredBox, hbox, hruntime⟩ := renderRuntime_eq records (loaded.buildLegends records)
  have hsetData : page.setData records =
      ((((loaded.buildLegends records).renderRuntime records).renderCommunities records).syncEncodingOptions records).applyFilters :=
    rfl
  rw [hsetData, hruntime]
  refine Boxes.applyFilters ?_
  constructor
  case nodeKinds => exact Legend.agrees_render _ _
  case edgeKinds => exact Legend.agrees_render _ _
  case communities => exact Legend.agrees_render _ _
  case onlyMeasured => exact hbox h.onlyMeasured
  case hideIsolated => exact h.hideIsolated
  case listedNode =>
    intro graph hgraph node hnode
    obtain rfl := Option.some_injective _ hgraph
    obtain ⟨raw, hraw, hkind, _, hcommunity⟩ := mem_nodes_graph hnode
    refine ⟨mem_countBy.mpr ?_, fun community hmem => mem_countBy.mpr ?_⟩
    · exact hkind ▸ List.mem_map_of_mem hraw
    · exact List.mem_filterMap.mpr ⟨raw, hraw, hcommunity.trans hmem⟩
  case listedEdge =>
    intro graph hgraph edge hedge
    obtain rfl := Option.some_injective _ hgraph
    obtain ⟨raw, hraw, hkind⟩ := mem_edges_graph hedge
    exact mem_countBy.mpr (hkind ▸ List.mem_map_of_mem hraw)
  case measured =>
    intro graph hgraph henabled
    obtain rfl := Option.some_injective _ hgraph
    exact exists_measured (of_decide_eq_false henabled)
  case clustered =>
    intro graph hgraph henabled
    obtain rfl := Option.some_injective _ hgraph
    exact exists_clustered fun hnil => of_decide_eq_false henabled (congrArg List.length hnil)
  case encoding => exact fun _ => isDisabled_syncEncodingOptions _ _

end Load

/-- Every event keeps the page consistent. -/
theorem Consistent.step (h : page.Consistent) (event : Event) : (page.step event).Consistent := by
  cases event with
  | setData records => exact h.toBoxes.setData records
  | nodeKind kind => exact h.toBoxes.setNodeKinds (h.nodeKinds.clickKind kind) (Legend.kinds_clickKind _ _ _)
  | allNodeKinds => exact h.toBoxes.setNodeKinds h.nodeKinds.clickMaster (Legend.kinds_clickMaster _ _)
  | edgeKind kind => exact h.toBoxes.setEdgeKinds (h.edgeKinds.clickKind kind) (Legend.kinds_clickKind _ _ _)
  | allEdgeKinds => exact h.toBoxes.setEdgeKinds h.edgeKinds.clickMaster (Legend.kinds_clickMaster _ _)
  | community index => exact h.toBoxes.setCommunities (h.communities.clickKind index) (Legend.kinds_clickKind _ _ _)
  | allCommunities => exact h.toBoxes.setCommunities h.communities.clickMaster (Legend.kinds_clickMaster _ _)
  | hideIsolated => exact Boxes.applyFilters { h.toBoxes with hideIsolated := rfl }
  | onlyMeasured => exact Boxes.applyFilters { h.toBoxes with onlyMeasured := rfl }
  | encode encoding =>
    unfold Page.step
    dsimp only
    split
    · exact h
    · next henabled =>
      have hsame : { page with encoding }.isDisabled encoding = page.isDisabled encoding := by
        cases encoding <;> rfl
      rw [Bool.not_eq_true, ← hsame] at henabled
      exact { h with encoding := fun _ => henabled }

theorem Consistent.run (h : page.Consistent) (events : List Event) : (events.foldl Page.step page).Consistent := by
  induction events generalizing page with
  | nil => exact h
  | cons event rest ih => exact ih (h.step event)

end Step

end Page

end codespine.webview
