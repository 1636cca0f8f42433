import Codespine.Query.DeadExports

open codespine.schema codespine.store

namespace codespine.query

inductive Direction where
  | incoming
  | outgoing
  deriving DecidableEq

/-- A node at the other end of a relationship of another. -/
structure NeighborRef extends SymbolRef where
  edgeKind : EdgeKind
  edgeMetadata : Metadata
  direction : Direction

namespace GraphQuery

/-- The node that a relationship leads to or from. -/
def refAt (store : KuzuStore) (id : String) : Option SymbolRef := (store.nodes.get id).map fun row => refOf (id, row)

/-- The node at the other end of a relationship. -/
def otherEnd (key : EdgeKey) : Direction → String
  | .incoming => key.source
  | .outgoing => key.target

/-- The node that a relationship is found at. -/
def nearEnd (key : EdgeKey) : Direction → String
  | .incoming => key.target
  | .outgoing => key.source

/-- The other ends of the relationships that `MATCH` finds at a node, one row for
each relationship. -/
def matchEdges (store : KuzuStore) (direction : Direction) (id : String) : List NeighborRef :=
  (store.edges.entries.filter fun entry => nearEnd entry.1 direction = id).filterMap fun entry =>
    (refAt store (otherEnd entry.1 direction)).map fun ref =>
      { ref with
        edgeKind := entry.1.kind
        edgeMetadata := entry.2
        direction }

def whoCalls (store : KuzuStore) (id : String) : List SymbolRef :=
  pathOrder.sort (((matchEdges store .incoming id).filter fun row => row.edgeKind = .CALLS).map NeighborRef.toSymbolRef)

def calls (store : KuzuStore) (id : String) : List SymbolRef :=
  pathOrder.sort (((matchEdges store .outgoing id).filter fun row => row.edgeKind = .CALLS).map NeighborRef.toSymbolRef)

/-- `ORDER BY edgeKind, filePath, startLine`. -/
def kindOrder : Comparator NeighborRef :=
  (Comparator.ofOrder.on fun row => row.edgeKind.text).thenBy (pathOrder.on NeighborRef.toSymbolRef)

def references (store : KuzuStore) (id : String) : List NeighborRef :=
  kindOrder.sort ((matchEdges store .incoming id).filter fun row => row.edgeKind ∈ REFERENCE_EDGE_KINDS)

def neighborhood (store : KuzuStore) (id : String) : List NeighborRef :=
  matchEdges store .outgoing id ++ matchEdges store .incoming id

section Rows

variable {store : KuzuStore} {direction : Direction} {id : String}

theorem refAt_eq_some_iff {ref : SymbolRef} :
    refAt store id = some ref ↔ ∃ row, (id, row) ∈ store.nodes.entries ∧ refOf (id, row) = ref := by
  rw [refAt, Option.map_eq_some_iff]
  exact exists_congr fun row => and_congr_left fun _ => OrderedMap.get_eq_some_iff

/-- The ends of a relationship are stored. -/
theorem exists_refAt {key : EdgeKey} (hkey : key ∈ store.edges.keys) (direction : Direction) :
    ∃ ref, refAt store (otherEnd key direction) = some ref ∧ ref.id = otherEnd key direction := by
  have hend : otherEnd key direction ∈ store.nodes.keys := by
    obtain ⟨hsource, htarget⟩ := store.endpoints key hkey
    cases direction with
    | incoming => exact hsource
    | outgoing => exact htarget
  obtain ⟨entry, hentry, hid⟩ := List.mem_map.mp hend
  rw [← hid]
  exact ⟨refOf entry, refAt_eq_some_iff.mpr ⟨entry.2, hentry, rfl⟩, rfl⟩

/-- So no relationship loses its row. -/
theorem map_matchEdges (store : KuzuStore) (direction : Direction) (id : String) :
    (matchEdges store direction id).map (fun row => (row.id, row.edgeKind)) =
      (store.edges.keys.filter fun key => nearEnd key direction = id).map fun key => (otherEnd key direction, key.kind) := by
  have hrows : ∀ entries : List (EdgeKey × Metadata), (∀ entry ∈ entries, entry.1 ∈ store.edges.keys) →
      (entries.filterMap fun entry => (refAt store (otherEnd entry.1 direction)).map fun ref =>
        { ref with edgeKind := entry.1.kind, edgeMetadata := entry.2, direction : NeighborRef }).map
          (fun row => (row.id, row.edgeKind)) = entries.map fun entry => (otherEnd entry.1 direction, entry.1.kind) := by
    intro entries hentries
    induction entries with
    | nil => rfl
    | cons entry rest ih =>
      obtain ⟨ref, href, hid⟩ := exists_refAt (hentries entry List.mem_cons_self) direction
      have hrest := ih fun other hother => hentries other (List.mem_cons_of_mem _ hother)
      rw [List.filterMap_cons, href, List.map_cons, ← hrest, ← hid]
      rfl
  unfold matchEdges OrderedMap.keys
  rw [hrows _ fun entry hentry => List.mem_map_of_mem (List.mem_of_mem_filter hentry), List.filter_map, List.map_map]
  rfl

theorem mem_matchEdges {row : NeighborRef} (hrow : row ∈ matchEdges store direction id) :
    row.direction = direction ∧ refAt store row.id = some row.toSymbolRef := by
  obtain ⟨entry, _, hrow⟩ := List.mem_filterMap.mp hrow
  obtain ⟨ref, href, rfl⟩ := Option.map_eq_some_iff.mp hrow
  obtain ⟨_, _, rfl⟩ := refAt_eq_some_iff.mp href
  exact ⟨rfl, href⟩

/-- The rows of some of the kinds, by id. -/
theorem ids_of_kinds (store : KuzuStore) (direction : Direction) (id : String) (kinds : EdgeKind → Bool) :
    ((matchEdges store direction id).filter fun row => kinds row.edgeKind).map (fun row => (row.id, row.edgeKind)) =
      (store.edges.keys.filter fun key => nearEnd key direction = id ∧ kinds key.kind).map fun key =>
        (otherEnd key direction, key.kind) := by
  have h := congrArg (List.filter fun pair => kinds pair.2) (map_matchEdges store direction id)
  rw [List.filter_map, List.filter_map, List.filter_filter] at h
  refine h.trans (congrArg _ (List.filter_congr fun key _ => ?_))
  rw [Function.comp_apply, Bool.and_comm, Bool.decide_and, Bool.decide_eq_true]

end Rows

end GraphQuery

end codespine.query
