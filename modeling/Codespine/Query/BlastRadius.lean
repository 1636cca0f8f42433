import Codespine.Lib.Walk
import Codespine.Query.Hotspots.Impact
import Codespine.Store.KuzuStore.Writes

open codespine.schema codespine.store digraph Relation

namespace codespine.query.GraphQuery

/-- The largest bound of a variable-length relationship. -/
def KUZU_MAX_REL_BOUND : ℕ := 30

def clampDepth : JsNumber → ℕ
  | .nonFinite => 5
  | .finite depth =>
    if ⌊depth⌋ < 1 then 1 else if KUZU_MAX_REL_BOUND < ⌊depth⌋ then KUZU_MAX_REL_BOUND else ⌊depth⌋.toNat

/-- `ORDER BY filePath, startLine`. -/
def pathOrder : Comparator SymbolRef :=
  (Comparator.ofOrder.on fun ref => ref.filePath).thenBy (Comparator.ascending fun ref => ref.startLine)

/-- Where one inbound relationship of kind `CALLS` leads from `id`. -/
def inboundCalls (store : KuzuStore) (id : String) : List String :=
  (store.edges.keys.filter fun key => key.kind = .CALLS ∧ key.target = id).map EdgeKey.source

/-- The distinct nodes at the other end of `1` to `depth` inbound calls. -/
def blastRadius (store : KuzuStore) (id : String) (depth : JsNumber) : List SymbolRef :=
  let bound := clampDepth depth
  pathOrder.sort ((store.readNodes.filter fun node => node.id ∈ within (inboundCalls store) bound id).map symbolOf)

theorem calls_readCallEdges {store : KuzuStore} {a b : String} :
    Calls (readCallEdges store) a b ↔ ⟨a, b, .CALLS⟩ ∈ store.edges.keys := by
  simp only [Calls, readCallEdges, readEdgesOfKind, List.mem_map, List.mem_filter, decide_eq_true_eq]
  constructor
  · rintro ⟨_, ⟨entry, ⟨hentry, hkind⟩, rfl⟩, rfl, rfl⟩
    exact List.mem_map.mpr ⟨entry, hentry, by rw [← hkind]⟩
  · intro hkey
    obtain ⟨entry, hentry, heq⟩ := List.mem_map.mp hkey
    exact ⟨_, ⟨entry, ⟨hentry, by rw [heq]⟩, rfl⟩, by rw [heq], by rw [heq]⟩

theorem mem_inboundCalls {store : KuzuStore} {id m : String} :
    m ∈ inboundCalls store id ↔ Calls (readCallEdges store) m id := by
  rw [calls_readCallEdges]
  simp only [inboundCalls, List.mem_map, List.mem_filter, decide_eq_true_eq]
  constructor
  · rintro ⟨⟨source, target, kind⟩, ⟨hkey, rfl, rfl⟩, rfl⟩
    exact hkey
  · intro hkey
    exact ⟨_, ⟨hkey, rfl, rfl⟩, rfl⟩

theorem swap_inboundCalls (store : KuzuStore) :
    (fun a b => b ∈ inboundCalls store a) = Function.swap (Calls (readCallEdges store)) := by
  funext a b
  exact propext mem_inboundCalls

/-- The walk within `bound` ends at what calls `id` by a chain of at most
`bound` calls. -/
theorem mem_within_inboundCalls {store : KuzuStore} {bound : ℕ} {id m : String} :
    m ∈ within (inboundCalls store) bound id ↔ ∃ n < bound, Walk (Calls (readCallEdges store)) (n + 1) m id := by
  rw [mem_within, swap_inboundCalls]
  simp only [walk_swap]

theorem Calls.mem_keys {store : KuzuStore} {a b : String} (h : Calls (readCallEdges store) a b) :
    a ∈ store.nodes.keys ∧ b ∈ store.nodes.keys :=
  store.endpoints _ (calls_readCallEdges.mp h)

theorem length_blastRadius (store : KuzuStore) (id : String) (depth : JsNumber) :
    (blastRadius store id depth).length = (within (inboundCalls store) (clampDepth depth) id).length := by
  set impacted := within (inboundCalls store) (clampDepth depth) id
  have hnodup : ((store.readNodes.filter fun node => node.id ∈ impacted).map StoredNode.id).Nodup :=
    store.readNodes_nodup.sublist (List.filter_sublist.map _)
  have hperm : ((store.readNodes.filter fun node => node.id ∈ impacted).map StoredNode.id).Perm impacted := by
    refine (List.perm_ext_iff_of_nodup hnodup (nodup_within _ _)).mpr fun m => ?_
    simp only [List.mem_map, List.mem_filter, decide_eq_true_eq]
    constructor
    · rintro ⟨node, ⟨_, hmem⟩, rfl⟩
      exact hmem
    · intro hmem
      obtain ⟨b, hstep, _⟩ := TransGen.head'_iff.mp (transGen_swap.mp
        (swap_inboundCalls store ▸ transGen_of_mem_within hmem : TransGen (Function.swap _) id m))
      have hkey : m ∈ store.readNodes.map StoredNode.id := store.readNodes_ids ▸ (Calls.mem_keys hstep).1
      obtain ⟨node, hnode, rfl⟩ := List.mem_map.mp hkey
      exact ⟨node, ⟨hnode, hmem⟩, rfl⟩
  calc (blastRadius store id depth).length
      = ((store.readNodes.filter fun node => node.id ∈ impacted).map StoredNode.id).length := by
        rw [blastRadius, (pathOrder.sort_perm _).length_eq, List.length_map, List.length_map]
    _ = impacted.length := hperm.length_eq

end codespine.query.GraphQuery
