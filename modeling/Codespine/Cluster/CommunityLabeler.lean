import Codespine.Cluster.CommunityDetector
import Codespine.Extract.Syntax
import Codespine.Lib.Utf16

open codespine.extract (includes)

namespace codespine.cluster

/-- What the labeler reads of a node. -/
structure LabelableNode where
  id : String
  name : String
  kind : String
  filePath : String
deriving DecidableEq

structure CommunityLabelInput where
  communityOf : OrderedMap String ℕ
  nodes : List LabelableNode
  edges : List WeightedEdge

/-- The share of a community that must be in one directory for it to count as
the community's area. -/
def DIRECTORY_PURITY_THRESHOLD : ℚ := 6 / 10

namespace CommunityLabeler

/-- `text.lastIndexOf(c)`, where that is not `-1`. -/
def lastIndexOf (c : Char) (text : List Char) : Option ℕ :=
  (text.reverse.findIdx? fun d => d = c).map fun back => text.length - 1 - back

def directoryOf (filePath : String) : String :=
  match lastIndexOf '/' filePath.toList with
  | some slash => String.ofList (filePath.toList.take slash)
  | none => ""

def lastSegment (directory : String) : String :=
  match lastIndexOf '/' directory.toList with
  | some slash => String.ofList (directory.toList.drop (slash + 1))
  | none => directory

/-- A file's name without its directory and extension. -/
def baseName (filePath : String) : String :=
  let fileName := lastSegment filePath
  match lastIndexOf '.' fileName.toList with
  | some dot => if dot = 0 then fileName else String.ofList (fileName.toList.take dot)
  | none => fileName

/-- The nodes of each community; nodes without one are dropped. -/
def groupMembers (communityOf : OrderedMap String ℕ) (nodes : List LabelableNode) : OrderedMap ℕ (List LabelableNode) :=
  OrderedMap.group (fun node => communityOf.get node.id) nodes

/-- The edge stays inside a community and is no self-loop. -/
def isInternal (communityOf : OrderedMap String ℕ) (edge : WeightedEdge) : Bool :=
  edge.source ≠ edge.target ∧ (communityOf.get edge.source).isSome ∧
    communityOf.get edge.source = communityOf.get edge.target

/-- The weighted degree of each node within its community. -/
def internalDegree (communityOf : OrderedMap String ℕ) (edges : List WeightedEdge) : OrderedMap String ℚ :=
  edges.foldl (fun degree edge =>
    if isInternal communityOf edge then (degree.add edge.source edge.weight).add edge.target edge.weight
    else degree) ∅

def displayName (node : LabelableNode) : String := if node.kind = "Module" then baseName node.filePath else node.name

/-- Highest degree first, then by name and id. Ids do not tie. -/
def hubOrder (degree : String → ℚ) : Comparator LabelableNode :=
  ((Comparator.descending fun node => degree node.id).thenBy (utf16.order.on LabelableNode.name)).thenBy
    (utf16.order.on LabelableNode.id)

/-- The name of the member that couples most to the others, where there is
one. -/
def hubName (members : List LabelableNode) (internalDegree : OrderedMap String ℚ) : Option String :=
  ((hubOrder fun id => internalDegree.getD id 0).sort members).head?.map displayName

/-- Most members first, then the shorter path, then by path. -/
def directoryOrder : Comparator (String × ℕ) :=
  ((Comparator.descending fun entry => (entry.2 : ℚ)).thenBy (Comparator.ascending fun entry =>
    (utf16.length entry.1 : ℚ))).thenBy (utf16.order.on Prod.fst)

/-- The directory most members share, and their share. Some member has one. -/
def dominantDirectory (members : List LabelableNode) : String × ℚ :=
  let counts := OrderedMap.tally (members.map fun member => directoryOf member.filePath)
  match (directoryOrder.sort counts.entries).head? with
  | some (directory, count) => (directory, count / members.length)
  | none => ("", 0)

def ordinalLabel (index : ℕ) : String := "community " ++ toString index

/-- The label a community gets for itself, from its area and its hub. -/
def composeLabel (index : ℕ) (members : List LabelableNode) (hub : Option String) : String :=
  match members with
  | [] => ordinalLabel index
  | first :: _ =>
    let files := (members.map LabelableNode.filePath).dedup
    if files.length = 1 then
      let fileName := baseName first.filePath
      if fileName ≠ "" then fileName else hub.getD (ordinalLabel index)
    else
      let (directory, purity) := dominantDirectory members
      let area := lastSegment directory
      if area ≠ "" ∧ DIRECTORY_PURITY_THRESHOLD ≤ purity then
        match hub with
        | some hub => area ++ " · " ++ hub
        | none => area
      else
        match hub with
        | some hub => hub
        | none => if area ≠ "" then area else ordinalLabel index

/-- Renames every label that several communities have. -/
def disambiguate (labels : OrderedMap ℕ String) (rename : ℕ → String → String) : OrderedMap ℕ String :=
  let counts := OrderedMap.tally labels.values
  labels.map fun index label => if 1 < counts.getD label 0 then rename index label else label

/-- The label with the hub, when that adds something. -/
def withHub (hub : Option String) (label : String) : String :=
  match hub with
  | some hub => if includes label hub = false then label ++ " · " ++ hub else label
  | none => label

def withOrdinal (index : ℕ) (label : String) : String := label ++ " #" ++ toString index

/-- The first pass: labels that several communities have gain the hub. -/
def dedupeByHub (base : OrderedMap ℕ String) (hubs : OrderedMap ℕ (Option String)) : OrderedMap ℕ String :=
  disambiguate base fun index => withHub (hubs.getD index none)

def dedupe (base : OrderedMap ℕ String) (hubs : OrderedMap ℕ (Option String)) : OrderedMap ℕ String :=
  disambiguate (dedupeByHub base hubs) withOrdinal

/-- The hub of each community. -/
def hubsOf (input : CommunityLabelInput) : OrderedMap ℕ (Option String) :=
  let degree := internalDegree input.communityOf input.edges
  (groupMembers input.communityOf input.nodes).map fun _ members => hubName members degree

/-- The label each community gets for itself. -/
def baseOf (input : CommunityLabelInput) : OrderedMap ℕ String :=
  let degree := internalDegree input.communityOf input.edges
  (groupMembers input.communityOf input.nodes).map fun index members => composeLabel index members (hubName members degree)

def label (input : CommunityLabelInput) : OrderedMap ℕ String := dedupe (baseOf input) (hubsOf input)

end CommunityLabeler

end codespine.cluster
