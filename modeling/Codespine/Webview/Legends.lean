import Codespine.Schema

open codespine.schema

namespace codespine.webview

/-- What the filters read of a node of the view. -/
structure CyNode where
  id : String
  kind : String
  runtime : Option Json
  community : Option ℚ

/-- What they read of an edge. -/
structure CyEdge where
  id : String
  kind : String
  source : String
  target : String

/-- The elements of the view, in the order they are visited in. Edges go between
nodes of the view. -/
structure CyGraph where
  nodes : List CyNode
  edges : List CyEdge
  nodes_nodup : (nodes.map CyNode.id).Nodup
  edges_nodup : (edges.map CyEdge.id).Nodup
  source_mem : ∀ edge ∈ edges, edge.source ∈ nodes.map CyNode.id
  target_mem : ∀ edge ∈ edges, edge.target ∈ nodes.map CyNode.id

/-- The elements that have the class `hidden`, by id. -/
@[ext]
structure HiddenClass where
  node : String → Bool
  edge : String → Bool

/-- The settings of the filters. -/
structure FilterState where
  hiddenNodeKinds : Finset String
  hiddenEdgeKinds : Finset String
  hiddenCommunities : Finset ℚ
  onlyMeasured : Bool
  hideIsolated : Bool

namespace Legends

/-- `value === undefined || value === null`. -/
def isNullish : Option Json → Bool
  | none => true
  | some .null => true
  | _ => false

/-- A node that a filter hides: by its kind, for want of a measure, or with its
community. -/
def hiddenByFilters (state : FilterState) (node : CyNode) : Bool :=
  let hiddenByKind := decide (node.kind ∈ state.hiddenNodeKinds)
  let unmeasured := isNullish node.runtime
  let hiddenByMeasure := state.onlyMeasured && unmeasured
  let hiddenByCommunity := node.community.any fun community => community ∈ state.hiddenCommunities
  hiddenByKind || hiddenByMeasure || hiddenByCommunity

/-- `toggleClass('hidden', flag)` on one element after the other. -/
def toggleEach {α : Type*} (id : α → String) (flag : α → Bool) (elements : List α) (hidden : String → Bool) : String → Bool :=
  elements.foldl (fun hidden element => Function.update hidden (id element) (flag element)) hidden

/-- An edge that is seen, between two nodes that are. -/
def isVisible (hiddenNode hiddenEdge : String → Bool) (edge : CyEdge) : Bool :=
  hiddenEdge edge.id = false && (hiddenNode edge.source = false && hiddenNode edge.target = false)

/-- `node.connectedEdges().some(…)`. -/
def hasVisibleEdge (graph : CyGraph) (hiddenEdge hiddenNode : String → Bool) (id : String) : Bool :=
  (graph.edges.filter fun edge => edge.source = id ∨ edge.target = id).any (isVisible hiddenNode hiddenEdge)

/-- Hides those of the nodes that have no visible edge, each as the others are
when it is visited. -/
def hideEach (graph : CyGraph) (hiddenEdge : String → Bool) (nodes : List CyNode) (hiddenNode : String → Bool) : String → Bool :=
  nodes.foldl (fun hiddenNode node =>
    if hasVisibleEdge graph hiddenEdge hiddenNode node.id = false then Function.update hiddenNode node.id true
    else hiddenNode) hiddenNode

/-- Shows what passes the filters and hides the rest. -/
def applyFilters (state : FilterState) (graph : CyGraph) (hidden : HiddenClass) : HiddenClass :=
  let hiddenNode := toggleEach CyNode.id (hiddenByFilters state) graph.nodes hidden.node
  let hiddenEdge := toggleEach CyEdge.id (fun edge => decide (edge.kind ∈ state.hiddenEdgeKinds)) graph.edges hidden.edge
  if state.hideIsolated then
    let visible := graph.nodes.filter fun node => !hiddenNode node.id
    { node := hideEach graph hiddenEdge visible hiddenNode, edge := hiddenEdge }
  else { node := hiddenNode, edge := hiddenEdge }

section Toggle

variable {α : Type*} {id : α → String} {flag : α → Bool} {elements : List α} {hidden : String → Bool}

theorem toggleEach_of_notMem {key : String} (h : key ∉ elements.map id) : toggleEach id flag elements hidden key = hidden key := by
  induction elements generalizing hidden with
  | nil => rfl
  | cons element rest ih =>
    rw [List.map_cons, List.mem_cons, not_or] at h
    exact (ih h.2).trans (Function.update_of_ne h.1 _ _)

theorem toggleEach_of_mem (hnodup : (elements.map id).Nodup) {element : α} (h : element ∈ elements) :
    toggleEach id flag elements hidden (id element) = flag element := by
  induction elements generalizing hidden with
  | nil => cases h
  | cons first rest ih =>
    rw [List.map_cons, List.nodup_cons] at hnodup
    rcases List.mem_cons.mp h with rfl | hrest
    · exact (toggleEach_of_notMem hnodup.1).trans (Function.update_self _ _ _)
    · exact ih hnodup.2 hrest

/-- What a batch of toggles makes of the classes depends on the elements only,
not on their order, and on what the other elements had. -/
theorem toggleEach_congr {elements' : List α} {hidden' : String → Bool} (hnodup : (elements.map id).Nodup)
    (hperm : elements.Perm elements') (hothers : ∀ key, key ∉ elements.map id → hidden key = hidden' key) :
    toggleEach id flag elements hidden = toggleEach id flag elements' hidden' := by
  funext key
  have hkeys : key ∈ elements.map id ↔ key ∈ elements'.map id := (hperm.map id).mem_iff
  by_cases hkey : key ∈ elements.map id
  · obtain ⟨element, helement, rfl⟩ := List.mem_map.mp hkey
    have hnodup' : (elements'.map id).Nodup := (hperm.map id).nodup_iff.mp hnodup
    rw [toggleEach_of_mem hnodup helement, toggleEach_of_mem hnodup' (hperm.mem_iff.mp helement)]
  · rw [toggleEach_of_notMem hkey, toggleEach_of_notMem fun h => hkey (hkeys.mpr h), hothers key hkey]

end Toggle

section Hide

variable {graph : CyGraph} {hiddenEdge hiddenNode : String → Bool}

theorem isVisible_iff {edge : CyEdge} : isVisible hiddenNode hiddenEdge edge = true ↔
    hiddenEdge edge.id = false ∧ hiddenNode edge.source = false ∧ hiddenNode edge.target = false := by
  simp [isVisible]

theorem hasVisibleEdge_iff {id : String} : hasVisibleEdge graph hiddenEdge hiddenNode id = true ↔
    ∃ edge ∈ graph.edges, (edge.source = id ∨ edge.target = id) ∧ isVisible hiddenNode hiddenEdge edge = true := by
  rw [hasVisibleEdge, List.any_eq_true]
  constructor
  · rintro ⟨edge, hmem, hvisible⟩
    obtain ⟨hedge, hends⟩ := List.mem_filter.mp hmem
    exact ⟨edge, hedge, of_decide_eq_true hends, hvisible⟩
  · rintro ⟨edge, hedge, hends, hvisible⟩
    exact ⟨edge, List.mem_filter.mpr ⟨hedge, decide_eq_true hends⟩, hvisible⟩

/-- Hiding a node without a visible edge takes no visible edge from another. -/
theorem isVisible_update {id : String} (hisolated : hasVisibleEdge graph hiddenEdge hiddenNode id = false)
    {edge : CyEdge} (hedge : edge ∈ graph.edges) :
    isVisible (Function.update hiddenNode id true) hiddenEdge edge = isVisible hiddenNode hiddenEdge edge := by
  by_cases hends : edge.source = id ∨ edge.target = id
  · -- such an edge was not seen before, and is not now
    have hbefore : isVisible hiddenNode hiddenEdge edge = false := by
      by_contra hvisible
      rw [hasVisibleEdge_iff.mpr ⟨edge, hedge, hends, by simpa using hvisible⟩] at hisolated
      cases hisolated
    rw [hbefore]
    by_contra hvisible
    obtain ⟨_, hsource, htarget⟩ := isVisible_iff.mp (by simpa using hvisible)
    rcases hends with rfl | rfl
    · rw [Function.update_self] at hsource
      cases hsource
    · rw [Function.update_self] at htarget
      cases htarget
  · obtain ⟨hsource, htarget⟩ := not_or.mp hends
    rw [isVisible, isVisible, Function.update_of_ne hsource, Function.update_of_ne htarget]

theorem hasVisibleEdge_congr {hiddenNode' : String → Bool}
    (h : ∀ edge ∈ graph.edges, isVisible hiddenNode' hiddenEdge edge = isVisible hiddenNode hiddenEdge edge) (id : String) :
    hasVisibleEdge graph hiddenEdge hiddenNode' id = hasVisibleEdge graph hiddenEdge hiddenNode id := by
  rw [Bool.eq_iff_iff, hasVisibleEdge_iff, hasVisibleEdge_iff]
  refine exists_congr fun edge => and_congr_right fun hedge => and_congr_right fun _ => ?_
  rw [h edge hedge]

/-- The loop leaves every edge as it was seen. -/
theorem isVisible_hideEach (nodes : List CyNode) {edge : CyEdge} (hedge : edge ∈ graph.edges) :
    isVisible (hideEach graph hiddenEdge nodes hiddenNode) hiddenEdge edge = isVisible hiddenNode hiddenEdge edge := by
  induction nodes generalizing hiddenNode with
  | nil => rfl
  | cons node rest ih =>
    unfold hideEach
    rw [List.foldl_cons]
    refine ih.trans ?_
    split
    · next hisolated => exact isVisible_update hisolated hedge
    · rfl

theorem hideEach_of_notMem {nodes : List CyNode} {key : String} (h : key ∉ nodes.map CyNode.id) :
    hideEach graph hiddenEdge nodes hiddenNode key = hiddenNode key := by
  induction nodes generalizing hiddenNode with
  | nil => rfl
  | cons node rest ih =>
    rw [List.map_cons, List.mem_cons, not_or] at h
    unfold hideEach
    rw [List.foldl_cons]
    refine (ih h.2).trans ?_
    split
    · exact Function.update_of_ne h.1 _ _
    · rfl

/-- So it hides the nodes that had no visible edge to begin with, and no
other. -/
theorem hideEach_of_mem {nodes : List CyNode} (hnodup : (nodes.map CyNode.id).Nodup)
    (hshown : ∀ node ∈ nodes, hiddenNode node.id = false) {node : CyNode} (hnode : node ∈ nodes) :
    hideEach graph hiddenEdge nodes hiddenNode node.id = !hasVisibleEdge graph hiddenEdge hiddenNode node.id := by
  induction nodes generalizing hiddenNode with
  | nil => cases hnode
  | cons first rest ih =>
    rw [List.map_cons, List.nodup_cons] at hnodup
    have hne : ∀ other ∈ rest, other.id ≠ first.id := fun other hother heq => hnodup.1 (heq ▸ List.mem_map_of_mem hother)
    unfold hideEach
    rw [List.foldl_cons]
    split
    · next hisolated =>
      rcases List.mem_cons.mp hnode with rfl | hrest
      · rw [hisolated]
        exact (hideEach_of_notMem hnodup.1).trans (Function.update_self _ _ _)
      · have hshown' : ∀ other ∈ rest, Function.update hiddenNode first.id true other.id = false := by
          intro other hother
          rw [Function.update_of_ne (hne other hother)]
          exact hshown other (List.mem_cons_of_mem _ hother)
        refine (ih hnodup.2 hshown' hrest).trans (congrArg _ ?_)
        exact hasVisibleEdge_congr (fun edge hedge => isVisible_update hisolated hedge) _
    · next hconnected =>
      rcases List.mem_cons.mp hnode with rfl | hrest
      · rw [Bool.not_eq_false] at hconnected
        rw [hconnected]
        exact (hideEach_of_notMem hnodup.1).trans (hshown node List.mem_cons_self)
      · exact ih hnodup.2 (fun other hother => hshown other (List.mem_cons_of_mem _ hother)) hrest

theorem hasVisibleEdge_perm {graph' : CyGraph} (hedges : graph.edges.Perm graph'.edges) (id : String) :
    hasVisibleEdge graph' hiddenEdge hiddenNode id = hasVisibleEdge graph hiddenEdge hiddenNode id := by
  rw [Bool.eq_iff_iff, hasVisibleEdge_iff, hasVisibleEdge_iff]
  exact exists_congr fun edge => and_congr_left fun _ => hedges.mem_iff.symm

/-- In whatever order the nodes are visited, the same are hidden. -/
theorem hideEach_perm {graph' : CyGraph} {nodes nodes' : List CyNode} (hedges : graph.edges.Perm graph'.edges)
    (hnodes : nodes.Perm nodes') (hnodup : (nodes.map CyNode.id).Nodup) (hshown : ∀ node ∈ nodes, hiddenNode node.id = false) :
    hideEach graph' hiddenEdge nodes' hiddenNode = hideEach graph hiddenEdge nodes hiddenNode := by
  have hids := hnodes.map CyNode.id
  funext key
  by_cases hkey : key ∈ nodes.map CyNode.id
  · obtain ⟨node, hnode, rfl⟩ := List.mem_map.mp hkey
    have hshown' : ∀ other ∈ nodes', hiddenNode other.id = false := fun other hother => hshown other (hnodes.mem_iff.mpr hother)
    rw [hideEach_of_mem hnodup hshown hnode, hideEach_of_mem (hids.nodup_iff.mp hnodup) hshown' (hnodes.mem_iff.mp hnode),
      hasVisibleEdge_perm hedges]
  · rw [hideEach_of_notMem hkey, hideEach_of_notMem fun h => hkey (hids.mem_iff.mpr h)]

end Hide

section Apply

variable (state : FilterState) (graph : CyGraph) (hidden : HiddenClass)

/-- The nodes that the filters alone hide. -/
def markedNodes : String → Bool := toggleEach CyNode.id (hiddenByFilters state) graph.nodes hidden.node

def markedEdges : String → Bool :=
  toggleEach CyEdge.id (fun edge => decide (edge.kind ∈ state.hiddenEdgeKinds)) graph.edges hidden.edge

/-- The nodes that they leave. -/
def shownNodes : List CyNode := graph.nodes.filter fun node => !markedNodes state graph hidden node.id

variable {state graph hidden}

theorem applyFilters_eq (hisolated : state.hideIsolated = true) : applyFilters state graph hidden =
    { node := hideEach graph (markedEdges state graph hidden) (shownNodes state graph hidden) (markedNodes state graph hidden)
      edge := markedEdges state graph hidden } := if_pos hisolated

theorem markedNodes_of_mem {node : CyNode} (hnode : node ∈ graph.nodes) :
    markedNodes state graph hidden node.id = hiddenByFilters state node :=
  toggleEach_of_mem graph.nodes_nodup hnode

theorem markedEdges_of_mem {edge : CyEdge} (hedge : edge ∈ graph.edges) :
    markedEdges state graph hidden edge.id = decide (edge.kind ∈ state.hiddenEdgeKinds) :=
  toggleEach_of_mem graph.edges_nodup hedge

theorem shownNodes_nodup : ((shownNodes state graph hidden).map CyNode.id).Nodup :=
  graph.nodes_nodup.sublist (List.filter_sublist.map _)

theorem shown_of_mem {node : CyNode} (h : node ∈ shownNodes state graph hidden) :
    markedNodes state graph hidden node.id = false := by
  simpa using (List.mem_filter.mp h).2

/-- A node stays visible when it passes the filters and has an edge that is
seen once they are applied. -/
theorem node_applyFilters_iff (hisolated : state.hideIsolated = true) {node : CyNode} (hnode : node ∈ graph.nodes) :
    (applyFilters state graph hidden).node node.id = false ↔ hiddenByFilters state node = false ∧
      hasVisibleEdge graph (markedEdges state graph hidden) (markedNodes state graph hidden) node.id = true := by
  rw [applyFilters_eq hisolated]
  dsimp only
  cases hmarked : hiddenByFilters state node with
  | true =>
    have hnot : node.id ∉ (shownNodes state graph hidden).map CyNode.id := by
      intro hmem
      obtain ⟨other, hother, hid⟩ := List.mem_map.mp hmem
      have hshown := shown_of_mem hother
      rw [hid, markedNodes_of_mem hnode, hmarked] at hshown
      cases hshown
    rw [hideEach_of_notMem hnot, markedNodes_of_mem hnode, hmarked]
    simp
  | false =>
    have hshown : node ∈ shownNodes state graph hidden :=
      List.mem_filter.mpr ⟨hnode, by rw [markedNodes_of_mem hnode, hmarked]; rfl⟩
    rw [hideEach_of_mem shownNodes_nodup (fun _ => shown_of_mem) hshown]
    simp

/-- An edge is seen once the filters are applied when its kind is shown and both
of its ends pass them. -/
theorem isVisible_marked_iff {edge : CyEdge} (hedge : edge ∈ graph.edges) :
    isVisible (markedNodes state graph hidden) (markedEdges state graph hidden) edge = true ↔
      edge.kind ∉ state.hiddenEdgeKinds ∧
        (∃ source ∈ graph.nodes, source.id = edge.source ∧ hiddenByFilters state source = false) ∧
        ∃ target ∈ graph.nodes, target.id = edge.target ∧ hiddenByFilters state target = false := by
  have hend : ∀ id ∈ graph.nodes.map CyNode.id, (markedNodes state graph hidden id = false ↔
      ∃ node ∈ graph.nodes, node.id = id ∧ hiddenByFilters state node = false) := by
    intro id hid
    obtain ⟨node, hnode, rfl⟩ := List.mem_map.mp hid
    rw [markedNodes_of_mem hnode]
    constructor
    · exact fun h => ⟨node, hnode, rfl, h⟩
    · rintro ⟨other, hother, heq, h⟩
      rwa [List.inj_on_of_nodup_map graph.nodes_nodup hother hnode heq] at h
  rw [isVisible_iff, markedEdges_of_mem hedge, decide_eq_false_iff_not, hend _ (graph.source_mem edge hedge),
    hend _ (graph.target_mem edge hedge)]

theorem exists_visible_edge (hisolated : state.hideIsolated = true) {node : CyNode} (hnode : node ∈ graph.nodes)
    (hshown : (applyFilters state graph hidden).node node.id = false) :
    ∃ edge ∈ graph.edges, (edge.source = node.id ∨ edge.target = node.id) ∧
      (applyFilters state graph hidden).edge edge.id = false ∧
      (applyFilters state graph hidden).node edge.source = false ∧
      (applyFilters state graph hidden).node edge.target = false := by
  obtain ⟨_, hedge⟩ := (node_applyFilters_iff hisolated hnode).mp hshown
  obtain ⟨edge, hedge, hends, hvisible⟩ := hasVisibleEdge_iff.mp hedge
  rw [applyFilters_eq hisolated]
  refine ⟨edge, hedge, hends, isVisible_iff.mp ?_⟩
  rw [isVisible_hideEach _ hedge]
  exact hvisible

/-- A node is visible when it passes the filters and has an edge of a visible
kind to one that does. -/
theorem node_applyFilters_iff_neighbor (hisolated : state.hideIsolated = true) {node : CyNode} (hnode : node ∈ graph.nodes) :
    (applyFilters state graph hidden).node node.id = false ↔ hiddenByFilters state node = false ∧
      ∃ edge ∈ graph.edges, edge.kind ∉ state.hiddenEdgeKinds ∧ ∃ other ∈ graph.nodes, hiddenByFilters state other = false ∧
        (edge.source = node.id ∧ edge.target = other.id ∨ edge.source = other.id ∧ edge.target = node.id) := by
  rw [node_applyFilters_iff hisolated hnode]
  refine and_congr_right fun hpasses => hasVisibleEdge_iff.trans (exists_congr fun edge => and_congr_right fun hedge => ?_)
  rw [isVisible_marked_iff hedge]
  constructor
  · rintro ⟨hends, hkind, ⟨source, hsource, hsourceId, hsourcePasses⟩, target, htarget, htargetId, htargetPasses⟩
    rcases hends with hend | hend
    · exact ⟨hkind, target, htarget, htargetPasses, Or.inl ⟨hend, htargetId.symm⟩⟩
    · exact ⟨hkind, source, hsource, hsourcePasses, Or.inr ⟨hsourceId.symm, hend⟩⟩
  · rintro ⟨hkind, other, hother, hotherPasses, ⟨hsource, htarget⟩ | ⟨hsource, htarget⟩⟩
    · exact ⟨Or.inl hsource, hkind, ⟨node, hnode, hsource.symm, hpasses⟩, other, hother, htarget.symm, hotherPasses⟩
    · exact ⟨Or.inr htarget, hkind, ⟨other, hother, hsource.symm, hotherPasses⟩, node, hnode, htarget.symm, hpasses⟩

theorem applyFilters_perm (hisolated : state.hideIsolated = true) {graph' : CyGraph} (hnodes : graph.nodes.Perm graph'.nodes)
    (hedges : graph.edges.Perm graph'.edges) : applyFilters state graph' hidden = applyFilters state graph hidden := by
  have hmarkedNodes : markedNodes state graph hidden = markedNodes state graph' hidden :=
    toggleEach_congr graph.nodes_nodup hnodes fun _ _ => rfl
  have hmarkedEdges : markedEdges state graph hidden = markedEdges state graph' hidden :=
    toggleEach_congr graph.edges_nodup hedges fun _ _ => rfl
  have hshown : (shownNodes state graph hidden).Perm (shownNodes state graph' hidden) := by
    rw [shownNodes, shownNodes, hmarkedNodes]
    exact hnodes.filter _
  rw [applyFilters_eq hisolated, applyFilters_eq hisolated, ← hmarkedNodes, ← hmarkedEdges,
    hideEach_perm hedges hshown shownNodes_nodup fun _ => shown_of_mem]

/-- The filters alone mark the same elements again. -/
theorem applyFilters_applyFilters (hisolated : state.hideIsolated = true) :
    applyFilters state graph (applyFilters state graph hidden) = applyFilters state graph hidden := by
  have hmarkedNodes : markedNodes state graph (applyFilters state graph hidden) = markedNodes state graph hidden := by
    refine toggleEach_congr graph.nodes_nodup (List.Perm.refl _) fun key hkey => ?_
    have hnot : key ∉ (shownNodes state graph hidden).map CyNode.id :=
      fun hmem => hkey (List.map_subset _ (List.filter_subset_self _) hmem)
    rw [applyFilters_eq hisolated]
    exact (hideEach_of_notMem hnot).trans (toggleEach_of_notMem hkey)
  have hmarkedEdges : markedEdges state graph (applyFilters state graph hidden) = markedEdges state graph hidden := by
    refine toggleEach_congr graph.edges_nodup (List.Perm.refl _) fun key hkey => ?_
    rw [applyFilters_eq hisolated]
    exact toggleEach_of_notMem hkey
  have hshownNodes : shownNodes state graph (applyFilters state graph hidden) = shownNodes state graph hidden := by
    rw [shownNodes, hmarkedNodes, shownNodes]
  rw [applyFilters_eq hisolated, hmarkedNodes, hmarkedEdges, hshownNodes, ← applyFilters_eq hisolated]

end Apply

/-- With isolated nodes hidden, one pass is a fixpoint: every visible node has a
visible edge between visible nodes, and the visible nodes are those that pass
the filters and have an edge of a visible kind to one that does. The order of
the elements does not matter, and a second pass changes nothing. -/
theorem applyFilters_fixpoint (state : FilterState) (graph : CyGraph) (hidden : HiddenClass)
    (hisolated : state.hideIsolated = true) :
    (∀ node ∈ graph.nodes, (applyFilters state graph hidden).node node.id = false →
      ∃ edge ∈ graph.edges, (edge.source = node.id ∨ edge.target = node.id) ∧
        (applyFilters state graph hidden).edge edge.id = false ∧
        (applyFilters state graph hidden).node edge.source = false ∧
        (applyFilters state graph hidden).node edge.target = false) ∧
    (∀ node ∈ graph.nodes, (applyFilters state graph hidden).node node.id = false ↔ hiddenByFilters state node = false ∧
      ∃ edge ∈ graph.edges, edge.kind ∉ state.hiddenEdgeKinds ∧ ∃ other ∈ graph.nodes, hiddenByFilters state other = false ∧
        (edge.source = node.id ∧ edge.target = other.id ∨ edge.source = other.id ∧ edge.target = node.id)) ∧
    (∀ graph' : CyGraph, graph.nodes.Perm graph'.nodes → graph.edges.Perm graph'.edges →
      applyFilters state graph' hidden = applyFilters state graph hidden) ∧
    applyFilters state graph (applyFilters state graph hidden) = applyFilters state graph hidden :=
  ⟨fun _ hnode => exists_visible_edge hisolated hnode, fun _ hnode => node_applyFilters_iff_neighbor hisolated hnode,
    fun _ hnodes hedges => applyFilters_perm hisolated hnodes hedges, applyFilters_applyFilters hisolated⟩

/-- A function that calls another, and one that stands alone. -/
def callView : CyGraph where
  nodes := [⟨"main", "Function", none, none⟩, ⟨"parse", "Function", none, none⟩, ⟨"unused", "Function", none, none⟩]
  edges := [⟨"CALLS:main->parse", "CALLS", "main", "parse"⟩]
  nodes_nodup := by decide
  edges_nodup := by decide
  source_mem := by decide
  target_mem := by decide

/-- Nothing hidden but what is isolated. -/
def isolatedOnly : FilterState where
  hiddenNodeKinds := ∅
  hiddenEdgeKinds := ∅
  hiddenCommunities := ∅
  onlyMeasured := false
  hideIsolated := true

theorem applyFilters_fixpoint_callView :
    (applyFilters isolatedOnly callView ⟨fun _ => true, fun _ => true⟩).node "main" = false ∧
      (applyFilters isolatedOnly callView ⟨fun _ => true, fun _ => true⟩).node "unused" = true := by
  obtain ⟨_, hshown, _⟩ := applyFilters_fixpoint isolatedOnly callView ⟨fun _ => true, fun _ => true⟩ rfl
  have hmain := (hshown ⟨"main", "Function", none, none⟩ (by simp [callView])).mpr (by decide)
  have hunused : ¬ (applyFilters isolatedOnly callView ⟨fun _ => true, fun _ => true⟩).node "unused" = false :=
    fun h => absurd ((hshown ⟨"unused", "Function", none, none⟩ (by simp [callView])).mp h) (by decide)
  exact ⟨hmain, by simpa using hunused⟩

end Legends

end codespine.webview
