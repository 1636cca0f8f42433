import Codespine.Lib.Comparator
import Codespine.Lib.Counting
import Codespine.Query.CostModel
import Codespine.Webview.Legends

open codespine.schema codespine.store

namespace codespine.webview

/-- A graph node as the page is sent it. -/
structure RawNode where
  id : String
  kind : String
  name : String
  filePath : String
  range : Option Range
  exported : Option Bool
  metadata : Option Metadata

/-- A graph edge as the page is sent it. -/
structure RawEdge where
  id : String
  kind : String
  source : String
  target : String
  metadata : Option Metadata

/-- The data of an element for a node. -/
structure NodeData extends CyNode where
  name : String
  filePath : String
  startLine : ℤ
  exported : Bool
  degree : ℕ
  documentation : Option String

/-- The data of an element for an edge. -/
structure EdgeData extends CyEdge where
  count : ℚ

/-- What the nodes were measured at. A maximum or a total into which something
went that is no number is none: the page then has a text for the total, and for
the maximum what `Math.max` makes of one. -/
structure RuntimeTotals where
  maxSelfMs : Option ℚ
  measuredCount : ℕ
  totalSelfMs : Option ℚ

/-- What `setData` makes of a graph. -/
structure View where
  nodes : List RawNode
  edges : List RawEdge
  runtime : RuntimeTotals
  communities : List (ℚ × ℕ)
  communityLabels : OrderedMap ℚ String
  nodeElements : List NodeData
  edgeElements : List EdgeData

namespace Util

/-- The entries that occur most often first; `Array.prototype.sort` is stable. -/
def countBy {κ : Type} [DecidableEq κ] (values : List κ) : List (κ × ℕ) :=
  (Comparator.descending fun entry : κ × ℕ => (entry.2 : ℚ)).sort (OrderedMap.tally values).entries

def nodeDocumentation (node : RawNode) : Option String :=
  match node.metadata.bind fun metadata => metadata.get "documentation" with
  | some (.str documentation) => if documentation.length > 0 then some documentation else none
  | _ => none

end Util

namespace Runtime

/-- `metadata.runtime`, unless it is missing or `null`. -/
def nodeRuntime (node : RawNode) : Option Json :=
  (node.metadata.bind fun metadata => metadata.get "runtime").filter fun runtime => !Legends.isNullish (some runtime)

/-- `runtime.selfMs ?? 0`, as it counts in a sum of numbers: `true` as one, a
text, an array or an object not at all. -/
def selfMs (runtime : Json) : Option ℚ :=
  match runtime.field "selfMs" with
  | none => some 0
  | some .null => some 0
  | some (.num selfMs) => some selfMs
  | some (.bool selfMs) => some (if selfMs then 1 else 0)
  | some _ => none

end Runtime

namespace Community

def nodeCommunity (node : RawNode) : Option ℚ :=
  match node.metadata.bind fun metadata => metadata.get "community" with
  | some (.num community) => some community
  | _ => none

def nodeCommunityLabel (node : RawNode) : Option String :=
  match node.metadata.bind fun metadata => metadata.get "communityLabel" with
  | some (.str label) => some label
  | _ => none

/-- Members per community, largest first. -/
def communityCounts (nodes : List RawNode) : List (ℚ × ℕ) := Util.countBy (nodes.filterMap nodeCommunity)

/-- The label of the first member that has one, by community. -/
def communityLabels (nodes : List RawNode) : OrderedMap ℚ String :=
  nodes.foldl (fun labels node =>
    match nodeCommunity node with
    | none => labels
    | some community =>
      if community ∈ labels.keys then labels
      else
        match nodeCommunityLabel node with
        | some label => labels.set community label
        | none => labels) ∅

end Community

namespace Edges

/-- The call-site count of an edge, `1` when absent. -/
def edgeCount (edge : RawEdge) : ℚ :=
  match edge.metadata.bind fun metadata => metadata.get "count" with
  | some (.num count) => if 0 < count then count else 1
  | _ => 1

end Edges

namespace Graph

/-- How many ends of edges there are at each node. -/
def degrees (edges : List RawEdge) : OrderedMap String ℕ :=
  edges.foldl (fun degree edge => (degree.add edge.source 1).add edge.target 1) ∅

/-- One round of the loop over the nodes that adds up what was measured. -/
def RuntimeTotals.measure (totals : RuntimeTotals) (node : RawNode) : RuntimeTotals :=
  match Runtime.nodeRuntime node with
  | none => totals
  | some runtime =>
    { measuredCount := totals.measuredCount + 1
      totalSelfMs := Option.map₂ (fun total selfMs => total + selfMs) totals.totalSelfMs (Runtime.selfMs runtime)
      maxSelfMs := Option.map₂ max totals.maxSelfMs (Runtime.selfMs runtime) }

def runtimeTotals (nodes : List RawNode) : RuntimeTotals :=
  nodes.foldl RuntimeTotals.measure { maxSelfMs := some 0, measuredCount := 0, totalSelfMs := some 0 }

def nodeElement (degree : OrderedMap String ℕ) (node : RawNode) : NodeData where
  id := node.id
  kind := node.kind
  runtime := Runtime.nodeRuntime node
  community := Community.nodeCommunity node
  name := node.name
  filePath := node.filePath
  startLine := (node.range.map Range.startLine).getD 0
  exported := node.exported = some true
  degree := degree.getD node.id 0
  documentation := Util.nodeDocumentation node

def edgeElement (edge : RawEdge) : EdgeData where
  id := edge.id
  kind := edge.kind
  source := edge.source
  target := edge.target
  count := Edges.edgeCount edge

/-- Edges with an end that is not there are left out. -/
def setData (nodes : List RawNode) (edges : List RawEdge) : View :=
  let nodeIds := nodes.map RawNode.id
  { nodes, edges
    runtime := runtimeTotals nodes
    communities := Community.communityCounts nodes
    communityLabels := Community.communityLabels nodes
    nodeElements := nodes.map (nodeElement (degrees edges))
    edgeElements := (edges.filter fun edge => edge.source ∈ nodeIds ∧ edge.target ∈ nodeIds).map edgeElement }

end Graph

section Totals

variable {nodes : List RawNode} {edges : List RawEdge}

/-- Both ends of every edge are counted, each at its node. -/
theorem degrees_eq_tally (edges : List RawEdge) :
    Graph.degrees edges = OrderedMap.tally (edges.flatMap fun edge => [edge.source, edge.target]) := by
  unfold Graph.degrees OrderedMap.tally
  rw [List.foldl_flatMap]
  rfl

theorem getD_degrees (edges : List RawEdge) (id : String) : (Graph.degrees edges).getD id 0 =
    (edges.filter fun edge => edge.source = id).length + (edges.filter fun edge => edge.target = id).length := by
  rw [degrees_eq_tally, OrderedMap.getD_tally]
  induction edges with
  | nil => rfl
  | cons edge rest ih =>
    rw [List.flatMap_cons, List.count_append, ih, List.filter_cons, List.filter_cons, List.count_cons, List.count_cons,
      List.count_nil]
    by_cases hsource : edge.source = id <;> by_cases htarget : edge.target = id <;> simp [hsource, htarget] <;> omega

/-- The loop over the nodes counts those that were measured. -/
theorem measuredCount_foldl (nodes : List RawNode) (totals : RuntimeTotals) :
    (nodes.foldl Graph.RuntimeTotals.measure totals).measuredCount =
      totals.measuredCount + nodes.countP fun node => (Runtime.nodeRuntime node).isSome := by
  induction nodes generalizing totals with
  | nil => rfl
  | cons node rest ih =>
    rw [List.foldl_cons, ih, List.countP_cons]
    unfold Graph.RuntimeTotals.measure
    cases Runtime.nodeRuntime node with
    | none => rfl
    | some runtime =>
      simp only [Option.isSome_some, if_true]
      omega

section Numeric

variable {value : RawNode → ℚ} (hvalue : ∀ node ∈ nodes, ∀ runtime, Runtime.nodeRuntime node = some runtime →
  Runtime.selfMs runtime = some (value node))

include hvalue

/-- Where all that was measured is a number, it adds up what each node has. -/
theorem totalSelfMs_foldl {totals : RuntimeTotals} {total : ℚ} (htotal : totals.totalSelfMs = some total) :
    (nodes.foldl Graph.RuntimeTotals.measure totals).totalSelfMs =
      some (total + (nodes.map fun node => if (Runtime.nodeRuntime node).isSome then value node else 0).sum) := by
  induction nodes generalizing totals total with
  | nil => rw [List.foldl_nil, List.map_nil, List.sum_nil, add_zero, htotal]
  | cons node rest ih =>
    have hrest := fun other hother => hvalue other (List.mem_cons_of_mem node hother)
    rw [List.foldl_cons, List.map_cons, List.sum_cons]
    cases hruntime : Runtime.nodeRuntime node with
    | none =>
      have hsame : (Graph.RuntimeTotals.measure totals node).totalSelfMs = some total := by
        rw [Graph.RuntimeTotals.measure, hruntime, htotal]
      rw [ih hrest hsame]
      simp
    | some runtime =>
      have hnext : (Graph.RuntimeTotals.measure totals node).totalSelfMs = some (total + value node) := by
        rw [Graph.RuntimeTotals.measure, hruntime]
        dsimp only
        rw [htotal, hvalue node List.mem_cons_self runtime hruntime, Option.map₂_some_some]
      rw [ih hrest hnext, Option.isSome_some, if_pos rfl, add_assoc]

/-- And the hottest node sets the maximum, unless the maximum was no lower
before. -/
theorem maxSelfMs_foldl {totals : RuntimeTotals} {most : ℚ} (hmost : totals.maxSelfMs = some most) :
    ∃ hottest, (nodes.foldl Graph.RuntimeTotals.measure totals).maxSelfMs = some hottest ∧ most ≤ hottest ∧
      (∀ node ∈ nodes, (Runtime.nodeRuntime node).isSome → value node ≤ hottest) ∧
      (hottest = most ∨ ∃ node ∈ nodes, (Runtime.nodeRuntime node).isSome ∧ value node = hottest) := by
  induction nodes generalizing totals most with
  | nil => exact ⟨most, hmost, le_rfl, fun _ h => absurd h List.not_mem_nil, Or.inl rfl⟩
  | cons node rest ih =>
    have hrest := fun other hother => hvalue other (List.mem_cons_of_mem node hother)
    rw [List.foldl_cons]
    cases hruntime : Runtime.nodeRuntime node with
    | none =>
      have hsame : (Graph.RuntimeTotals.measure totals node).maxSelfMs = some most := by
        rw [Graph.RuntimeTotals.measure, hruntime, hmost]
      obtain ⟨hottest, heq, hle, hbound, hattained⟩ := ih hrest hsame
      refine ⟨hottest, heq, hle, ?_, ?_⟩
      · intro other hother hmeasured
        obtain rfl | hother := List.mem_cons.mp hother
        · rw [hruntime] at hmeasured
          cases hmeasured
        · exact hbound other hother hmeasured
      · exact hattained.imp_right fun ⟨other, hother, h⟩ => ⟨other, List.mem_cons_of_mem _ hother, h⟩
    | some runtime =>
      have hnext : (Graph.RuntimeTotals.measure totals node).maxSelfMs = some (max most (value node)) := by
        rw [Graph.RuntimeTotals.measure, hruntime]
        dsimp only
        rw [hmost, hvalue node List.mem_cons_self runtime hruntime, Option.map₂_some_some]
      obtain ⟨hottest, heq, hle, hbound, hattained⟩ := ih hrest hnext
      have hmeasured : (Runtime.nodeRuntime node).isSome := by
        rw [hruntime]
        rfl
      refine ⟨hottest, heq, (le_max_left _ _).trans hle, ?_, ?_⟩
      · intro other hother hother'
        obtain rfl | hother := List.mem_cons.mp hother
        · exact (le_max_right _ _).trans hle
        · exact hbound other hother hother'
      · obtain hkept | ⟨other, hother, h⟩ := hattained
        · obtain hfirst | hfirst := max_cases most (value node)
          · exact Or.inl (hkept.trans hfirst.1)
          · exact Or.inr ⟨node, List.mem_cons_self, hmeasured, (hkept.trans hfirst.1).symm⟩
        · exact Or.inr ⟨other, List.mem_cons_of_mem _ hother, h⟩

end Numeric

end Totals

end codespine.webview
