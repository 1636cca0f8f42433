import Codespine.Webview.Panels

open codespine.schema

namespace codespine.webview

/-- The records of a graph that `setData` is given: no two nodes and no two edges
have one id. -/
structure Records where
  nodes : List RawNode
  edges : List RawEdge
  nodes_nodup : (nodes.map RawNode.id).Nodup
  edges_nodup : (edges.map RawEdge.id).Nodup

inductive Encoding where
  | structural
  | runtime
  | community
  deriving DecidableEq

/-- What the page keeps of a graph: its elements and which of them are hidden, the
filters, the boxes of the sidebar, and the choice of colours with the options
that are greyed out. -/
structure Page where
  graph : Option CyGraph
  hidden : HiddenClass
  filters : FilterState
  nodeKinds : Legend String
  edgeKinds : Legend String
  communities : Legend ℚ
  onlyMeasuredBox : Bool
  hideIsolatedBox : Bool
  encoding : Encoding
  runtimeDisabled : Bool
  communityDisabled : Bool

namespace Records

def view (records : Records) : View := Graph.setData records.nodes records.edges

theorem map_id_nodeElements (records : Records) :
    (records.view.nodeElements.map NodeData.toCyNode).map CyNode.id = records.nodes.map RawNode.id := by
  rw [List.map_map]
  exact List.map_map

theorem map_id_edgeElements (records : Records) : (records.view.edgeElements.map EdgeData.toCyEdge).map CyEdge.id =
    (records.edges.filter fun edge => edge.source ∈ records.nodes.map RawNode.id ∧
      edge.target ∈ records.nodes.map RawNode.id).map RawEdge.id := by
  rw [List.map_map]
  exact List.map_map

/-- An element of an edge has both ends. -/
theorem ends_mem {records : Records} {edge : CyEdge} (hedge : edge ∈ records.view.edgeElements.map EdgeData.toCyEdge) :
    edge.source ∈ records.nodes.map RawNode.id ∧ edge.target ∈ records.nodes.map RawNode.id := by
  obtain ⟨data, hdata, rfl⟩ := List.mem_map.mp hedge
  obtain ⟨raw, hraw, rfl⟩ := List.mem_map.mp hdata
  exact of_decide_eq_true (List.mem_filter.mp hraw).2

/-- The elements of the new graph. -/
def graph (records : Records) : CyGraph where
  nodes := records.view.nodeElements.map NodeData.toCyNode
  edges := records.view.edgeElements.map EdgeData.toCyEdge
  nodes_nodup := records.map_id_nodeElements ▸ records.nodes_nodup
  edges_nodup := records.map_id_edgeElements ▸ records.edges_nodup.sublist (List.filter_sublist.map _)
  source_mem := fun _ hedge => records.map_id_nodeElements ▸ (ends_mem hedge).1
  target_mem := fun _ hedge => records.map_id_nodeElements ▸ (ends_mem hedge).2

end Records

namespace Page

/-- The page before its first graph. -/
def initial : Page where
  graph := none
  hidden := ⟨fun _ => false, fun _ => false⟩
  filters := ⟨∅, ∅, ∅, false, false⟩
  nodeKinds := Legend.render [] ∅
  edgeKinds := Legend.render [] ∅
  communities := Legend.render [] ∅
  onlyMeasuredBox := false
  hideIsolatedBox := false
  encoding := .structural
  runtimeDisabled := false
  communityDisabled := false

def applyFilters (page : Page) : Page :=
  match page.graph with
  | none => page
  | some graph => { page with hidden := Legends.applyFilters page.filters graph page.hidden }

def buildLegends (records : Records) (page : Page) : Page :=
  { page with
    nodeKinds := Legend.render ((Util.countBy (records.nodes.map RawNode.kind)).map Prod.fst) page.filters.hiddenNodeKinds
    edgeKinds := Legend.render ((Util.countBy (records.edges.map RawEdge.kind)).map Prod.fst) page.filters.hiddenEdgeKinds }

/-- A graph without measures resets the filter on them. -/
def renderRuntime (records : Records) (page : Page) : Page :=
  let measured := records.nodes.filter fun node => (Runtime.nodeRuntime node).isSome
  if measured = [] then { page with filters := { page.filters with onlyMeasured := false }, onlyMeasuredBox := false }
  else page

def renderCommunities (records : Records) (page : Page) : Page :=
  { page with communities := Legend.render (records.view.communities.map Prod.fst) page.filters.hiddenCommunities }

def syncEncodingOptions (records : Records) (page : Page) : Page :=
  let unmeasured := records.view.runtime.measuredCount = 0
  let unclustered := records.view.communities.length = 0
  { page with
    runtimeDisabled := unmeasured
    communityDisabled := unclustered
    encoding := if (page.encoding = .runtime ∧ unmeasured) ∨ (page.encoding = .community ∧ unclustered) then .structural
      else page.encoding }

/-- A new graph, nothing of which is hidden yet; what was hidden by kind or
community still is, if the new graph has it. -/
def setData (records : Records) (page : Page) : Page :=
  let loaded := { page with graph := some records.graph, hidden := ⟨fun _ => false, fun _ => false⟩ }
  (((loaded.buildLegends records).renderRuntime records).renderCommunities records).syncEncodingOptions records |>.applyFilters

/-- What the user does with the sidebar, and a graph being loaded. -/
inductive Event where
  | setData (records : Records)
  | nodeKind (kind : String)
  | allNodeKinds
  | edgeKind (kind : String)
  | allEdgeKinds
  | community (index : ℚ)
  | allCommunities
  | hideIsolated
  | onlyMeasured
  | encode (encoding : Encoding)

def setNodeKinds (page : Page) (clicked : Finset String × Legend String) : Page :=
  applyFilters { page with filters := { page.filters with hiddenNodeKinds := clicked.1 }, nodeKinds := clicked.2 }

def setEdgeKinds (page : Page) (clicked : Finset String × Legend String) : Page :=
  applyFilters { page with filters := { page.filters with hiddenEdgeKinds := clicked.1 }, edgeKinds := clicked.2 }

def setCommunities (page : Page) (clicked : Finset ℚ × Legend ℚ) : Page :=
  applyFilters { page with filters := { page.filters with hiddenCommunities := clicked.1 }, communities := clicked.2 }

/-- An option that is greyed out cannot be chosen. -/
def isDisabled (page : Page) : Encoding → Bool
  | .structural => false
  | .runtime => page.runtimeDisabled
  | .community => page.communityDisabled

def step (page : Page) : Event → Page
  | .setData records => page.setData records
  | .nodeKind kind => page.setNodeKinds (page.nodeKinds.clickKind kind page.filters.hiddenNodeKinds)
  | .allNodeKinds => page.setNodeKinds (page.nodeKinds.clickMaster page.filters.hiddenNodeKinds)
  | .edgeKind kind => page.setEdgeKinds (page.edgeKinds.clickKind kind page.filters.hiddenEdgeKinds)
  | .allEdgeKinds => page.setEdgeKinds (page.edgeKinds.clickMaster page.filters.hiddenEdgeKinds)
  | .community index => page.setCommunities (page.communities.clickKind index page.filters.hiddenCommunities)
  | .allCommunities => page.setCommunities (page.communities.clickMaster page.filters.hiddenCommunities)
  | .hideIsolated =>
    let checked := !page.hideIsolatedBox
    applyFilters { page with filters := { page.filters with hideIsolated := checked }, hideIsolatedBox := checked }
  | .onlyMeasured =>
    let checked := !page.onlyMeasuredBox
    applyFilters { page with filters := { page.filters with onlyMeasured := checked }, onlyMeasuredBox := checked }
  | .encode encoding => if page.isDisabled encoding then page else { page with encoding }

def run (events : List Event) : Page := events.foldl step initial

end Page

end codespine.webview
