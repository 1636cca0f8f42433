import Codespine.Store.KuzuStore.Load

open codespine.schema

namespace codespine.store.KuzuStore

/-- The edges that `load` does not skip: those between nodes of the list. -/
def inserted (nodes : List GraphNode) (edges : List GraphEdge) : List GraphEdge :=
  edges.filter fun edge => edge.source ∈ nodes.map GraphNode.id ∧ edge.target ∈ nodes.map GraphNode.id

theorem nodes_counted (nodes : List GraphNode) (edges : List GraphEdge) :
    (initSchema.load nodes edges).2.nodes = (initSchema.load nodes edges).1.nodes.keys.length := by
  have hperm : (initSchema.load nodes edges).1.nodes.keys.Perm (nodes.map GraphNode.id).dedup :=
    (List.perm_ext_iff_of_nodup (OrderedMap.nodup_keys _) (List.nodup_dedup _)).mpr fun id =>
      mem_nodes_load.trans List.mem_dedup.symm
  exact hperm.length_eq.symm

theorem edges_counted (nodes : List GraphNode) (edges : List GraphEdge) :
    (initSchema.load nodes edges).2.edges = ((inserted nodes edges).map keyOf).length := by
  rw [List.length_map]
  change (edges.filter _).length = _
  refine congrArg List.length (List.filter_congr fun edge _ => ?_)
  rw [decide_eq_decide, List.mem_dedup, List.mem_dedup]

/-- A load into a fresh database reports what landed just when no two of the
edges it inserts are the same relationship to the database. -/
theorem load_counts_iff (nodes : List GraphNode) (edges : List GraphEdge) :
    ((initSchema.load nodes edges).2.nodes = (initSchema.load nodes edges).1.nodes.keys.length ∧
        (initSchema.load nodes edges).2.edges = (initSchema.load nodes edges).1.edges.keys.length) ↔
      ((inserted nodes edges).map keyOf).Nodup := by
  have hkeys : ∀ key, key ∈ (initSchema.load nodes edges).1.edges.keys ↔ key ∈ (inserted nodes edges).map keyOf := by
    intro key
    rw [mem_edges_load, inserted, List.mem_map]
    simp only [List.mem_filter, decide_eq_true_eq]
    constructor
    · rintro ⟨edge, hedge, hkey, hends⟩
      exact ⟨edge, ⟨hedge, hends⟩, hkey⟩
    · rintro ⟨edge, ⟨hedge, hends⟩, hkey⟩
      exact ⟨edge, hedge, hkey, hends⟩
  rw [edges_counted, and_iff_right (nodes_counted nodes edges)]
  exact OrderedMap.length_eq_length_keys_iff hkeys

/-- A relationship that two edges ask for is counted twice. -/
theorem load_counts_repeated : ¬ ∀ (nodes : List GraphNode) (edges : List GraphEdge),
    (initSchema.load nodes edges).2.nodes = (initSchema.load nodes edges).1.nodes.keys.length ∧
      (initSchema.load nodes edges).2.edges = (initSchema.load nodes edges).1.edges.keys.length := by
  intro hclaim
  have hcounts := hclaim
    [{ id := "Function:src/a.ts#run@1", kind := .Function, name := "run", filePath := "src/a.ts" },
      { id := "Function:src/a.ts#load@9", kind := .Function, name := "load", filePath := "src/a.ts" }]
    [{ id := "first", kind := .CALLS, source := "Function:src/a.ts#run@1", target := "Function:src/a.ts#load@9" },
      { id := "second", kind := .CALLS, source := "Function:src/a.ts#run@1", target := "Function:src/a.ts#load@9" }]
  exact absurd hcounts.2 (by decide +kernel)

end codespine.store.KuzuStore
