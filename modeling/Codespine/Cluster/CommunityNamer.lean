import Codespine.Lib.Comparator
import Codespine.Lib.Utf16
import Codespine.Schema

open codespine.schema

namespace codespine.cluster

/-- What the namer reads of a node: its community and its label, where it has
them. -/
structure AssignedNode where
  id : String
  name : String
  kind : NodeKind
  filePath : String
  community : Option ℚ
  currentLabel : Option String

/-- One community's rename. -/
structure RenameChange where
  index : ℕ
  before : String
  after : String
  nodeIds : List String

structure RenamePlan where
  changes : List RenameChange
  unknownIndexes : List ℕ

/-- One member of a community as a dump shows it. -/
structure CommunityMember where
  name : String
  kind : NodeKind
  filePath : String
deriving DecidableEq

/-- One community of a dump. -/
structure CommunitySummary where
  index : ℚ
  currentLabel : String
  size : ℕ
  members : List CommunityMember
deriving DecidableEq

/-- What is shown of the communities to whoever names them. -/
structure CommunitiesDump where
  communityCount : ℕ
  communities : List CommunitySummary
deriving DecidableEq

namespace CommunityNamer

/-- The nodes of each community; nodes without one are dropped. -/
def group (nodes : List AssignedNode) : OrderedMap ℚ (List AssignedNode) :=
  OrderedMap.group AssignedNode.community nodes

/-- The label of the first member that carries one, else the ordinal. -/
def currentLabelOf (index : ℕ) (members : List AssignedNode) : String :=
  match members.findSome? fun member => member.currentLabel.filter fun label => label ≠ "" with
  | some label => label
  | none => "community " ++ toString index

/-- What renaming one community comes to: nothing when its label stays. -/
def planChange (groups : OrderedMap ℚ (List AssignedNode)) (labels : OrderedMap ℕ String) (index : ℕ) :
    Option RenameChange :=
  (groups.get index).bind fun members =>
    let after := labels.getD index ""
    let before := currentLabelOf index members
    if before = after then none else some { index, before, after, nodeIds := members.map AssignedNode.id }

/-- The communities whose label changes, and the requested indexes that no
community has. -/
def plan (nodes : List AssignedNode) (labels : OrderedMap ℕ String) : RenamePlan :=
  let groups := group nodes
  let indexes := (Comparator.ascending fun index : ℕ => (index : ℚ)).sort labels.keys
  { changes := indexes.filterMap (planChange groups labels)
    unknownIndexes := indexes.filter fun index : ℕ => groups.get index = none }

/-- The manifest with the requested labels in range replaced. -/
def updateManifestLabels (manifest : Option Metadata) (labels : OrderedMap ℕ String) : Option Metadata :=
  manifest.map fun manifest =>
    match manifest.get "labels" with
    | some (.arr items) =>
      manifest.set "labels" (.arr (labels.entries.foldl (fun items entry => items.set entry.1 (.str entry.2)) items))
    | _ => manifest

/-- `currentLabelOf`, for an index that any number may be; `showNumber` gives
its text. -/
def currentLabelAt (showNumber : ℚ → String) (index : ℚ) (members : List AssignedNode) : String :=
  match members.findSome? fun member => member.currentLabel.filter fun label => label ≠ "" with
  | some label => label
  | none => "community " ++ showNumber index

/-- By file, then by name, then by kind. -/
def memberOrder : Comparator AssignedNode :=
  ((utf16.order.on AssignedNode.filePath).thenBy (utf16.order.on AssignedNode.name)).thenBy
    (utf16.order.on fun member => member.kind.text)

def toMember (member : AssignedNode) : CommunityMember where
  name := member.name
  kind := member.kind
  filePath := member.filePath

/-- What a dump says of one community. -/
def summary (showNumber : ℚ → String) (index : ℚ) (members : List AssignedNode) : CommunitySummary where
  index
  currentLabel := currentLabelAt showNumber index members
  size := members.length
  members := (memberOrder.sort members).map toMember

/-- Largest first, then by index. -/
def dumpOrder : Comparator CommunitySummary :=
  (Comparator.descending fun community => (community.size : ℚ)).thenBy (Comparator.ascending CommunitySummary.index)

/-- The clustered nodes by community. -/
def summarize (showNumber : ℚ → String) (nodes : List AssignedNode) : CommunitiesDump :=
  let groups := group nodes
  { communityCount := groups.keys.length
    communities := dumpOrder.sort (groups.entries.map fun entry => summary showNumber entry.1 entry.2) }

end CommunityNamer

end codespine.cluster
