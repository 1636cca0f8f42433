import Codespine.Lib.Comparator
import Codespine.Query.Reads
import Codespine.Store.KuzuStore.Writes

open codespine.schema codespine.store

namespace codespine.query.GraphQuery

/-- `ORDER BY filePath, startLine`. -/
def findOrder : Comparator StoredNode :=
  (Comparator.ofOrder.on StoredNode.filePath).thenBy (Comparator.ofOrder.on StoredNode.startLine)

/-- A name that contains the pattern, or a kind that is it; the database's
`lower` is a parameter. -/
def matchesPattern (lower : String → String) (pattern : String) (node : StoredNode) : Bool :=
  node.kind ≠ .Module ∧
    ((lower pattern).toList <:+: (lower node.name).toList ∨ lower node.kind.text = lower pattern)

/-- The nodes that match, in the order of the query. Nodes that tie come in the
order of the rows. -/
def matched (lower : String → String) (store : KuzuStore) (pattern : String) : List StoredNode :=
  findOrder.sort (store.readNodes.filter (matchesPattern lower pattern))

/-- `LIMIT 50`. -/
def findLimit : ℕ := 50

/-- Resolves a search pattern to nodes. -/
def find (lower : String → String) (store : KuzuStore) (pattern : String) : List SymbolRef :=
  ((matched lower store pattern).take findLimit).map symbolOf

/-- How many matches come before a node. -/
def placeOf (lower : String → String) (store : KuzuStore) (pattern : String) (node : StoredNode) : ℕ :=
  ((matched lower store pattern).map StoredNode.id).idxOf node.id

section Matched

variable {lower : String → String} {store : KuzuStore} {pattern : String} {node : StoredNode}

theorem mem_matched : node ∈ matched lower store pattern ↔ node ∈ store.readNodes ∧ matchesPattern lower pattern node = true :=
  Comparator.mem_sort.trans List.mem_filter

theorem nodup_matched : ((matched lower store pattern).map StoredNode.id).Nodup := by
  have hperm : (matched lower store pattern).Perm (store.readNodes.filter (matchesPattern lower pattern)) :=
    findOrder.sort_perm _
  exact (hperm.map StoredNode.id).nodup_iff.mpr (store.readNodes_nodup.sublist (List.filter_sublist.map _))

/-- A search shows the matches that fewer than fifty others come before. -/
theorem mem_take_matched (hnode : node ∈ matched lower store pattern) (limit : ℕ) :
    node ∈ (matched lower store pattern).take limit ↔ placeOf lower store pattern node < limit := by
  rw [placeOf, ← List.mem_take_iff_idxOf_lt (List.mem_map_of_mem hnode), ← List.map_take, List.mem_map]
  constructor
  · exact fun htake => ⟨node, htake, rfl⟩
  · rintro ⟨other, htake, hid⟩
    exact List.inj_on_of_nodup_map nodup_matched (List.mem_of_mem_take htake) hnode hid ▸ htake

/-- A node is found by its own name. -/
theorem matchesPattern_name (lower : String → String) (hkind : node.kind ≠ .Module) :
    matchesPattern lower node.name node = true := by
  simp [matchesPattern, hkind]

end Matched

end codespine.query.GraphQuery
