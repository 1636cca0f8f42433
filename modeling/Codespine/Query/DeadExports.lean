import Codespine.Query.BlastRadius
import Codespine.Query.DeadExportsAllowlist

open codespine.schema codespine.store

namespace codespine.query.GraphQuery

/-- The columns a query returns for a node. -/
def refOf (entry : String × NodeRow) : SymbolRef where
  id := entry.1
  kind := entry.2.kind
  name := entry.2.name
  filePath := entry.2.filePath
  startLine := entry.2.startLine
  metadata := entry.2.metadata

/-- The relationships into a node that count as a use of it. -/
def referencesTo (store : KuzuStore) (id : String) : List EdgeKey :=
  store.edges.keys.filter fun key => key.target = id ∧ key.kind ∈ REFERENCE_EDGE_KINDS

/-- `count(selfRef)`. -/
def selfRefs (store : KuzuStore) (id : String) : ℕ := (referencesTo store id).length

/-- `count(memberRef)`: a use of a member counts once for each containment. -/
def memberRefs (store : KuzuStore) (id : String) : ℕ :=
  ((store.edges.keys.filter fun key => key.source = id ∧ key.kind = .CONTAINS).flatMap fun key =>
    referencesTo store key.target).length

/-- Exported symbols with no inbound reference, neither on the symbol itself
nor on a member it contains, framework entry points excepted. -/
def deadExports (store : KuzuStore) : List SymbolRef :=
  let rows := store.nodes.entries.filter fun entry =>
    entry.2.exported ∧ selfRefs store entry.1 = 0 ∧ memberRefs store entry.1 = 0
  (pathOrder.sort (rows.map refOf)).filter fun ref => !DeadExportsAllowlist.isFrameworkEntryPoint ref.filePath

theorem mem_referencesTo {store : KuzuStore} {id : String} {key : EdgeKey} :
    key ∈ referencesTo store id ↔ key ∈ store.edges.keys ∧ key.target = id ∧ key.kind ∈ REFERENCE_EDGE_KINDS := by
  simp only [referencesTo, List.mem_filter, decide_eq_true_eq]

theorem selfRefs_ne_zero_iff {store : KuzuStore} {id : String} :
    selfRefs store id ≠ 0 ↔ ∃ kind ∈ REFERENCE_EDGE_KINDS, ∃ s, ⟨s, id, kind⟩ ∈ store.edges.keys := by
  rw [selfRefs, ← Nat.pos_iff_ne_zero, List.length_pos_iff_exists_mem]
  simp only [mem_referencesTo]
  constructor
  · rintro ⟨key, hkey, rfl, hkind⟩
    exact ⟨key.kind, hkind, key.source, hkey⟩
  · rintro ⟨kind, hkind, s, hkey⟩
    exact ⟨_, hkey, rfl, hkind⟩

theorem memberRefs_ne_zero_iff {store : KuzuStore} {id : String} :
    memberRefs store id ≠ 0 ↔ ∃ t, ⟨id, t, .CONTAINS⟩ ∈ store.edges.keys ∧ selfRefs store t ≠ 0 := by
  simp only [memberRefs, selfRefs, ← Nat.pos_iff_ne_zero, List.length_pos_iff_exists_mem, List.mem_flatMap,
    List.mem_filter, decide_eq_true_eq]
  constructor
  · rintro ⟨use, ⟨_, t, _⟩, ⟨hkey, rfl, rfl⟩, huse⟩
    exact ⟨t, hkey, use, huse⟩
  · rintro ⟨t, hkey, use, huse⟩
    exact ⟨use, _, ⟨hkey, rfl, rfl⟩, huse⟩

theorem mem_deadExports {store : KuzuStore} {ref : SymbolRef} :
    ref ∈ deadExports store ↔ ∃ entry ∈ store.nodes.entries, refOf entry = ref ∧ entry.2.exported = true ∧
      selfRefs store entry.1 = 0 ∧ memberRefs store entry.1 = 0 ∧
      DeadExportsAllowlist.isFrameworkEntryPoint entry.2.filePath = false := by
  simp only [deadExports, List.mem_filter, Comparator.mem_sort, List.mem_map, decide_eq_true_eq, Bool.not_eq_true']
  constructor
  · rintro ⟨⟨entry, ⟨hentry, hexported, hself, hmember⟩, rfl⟩, hallow⟩
    exact ⟨entry, hentry, rfl, hexported, hself, hmember, hallow⟩
  · rintro ⟨entry, hentry, rfl, hexported, hself, hmember, hallow⟩
    exact ⟨⟨entry, ⟨hentry, hexported, hself, hmember⟩, rfl⟩, hallow⟩

/-- A reported symbol is reported once. -/
theorem nodup_deadExports (store : KuzuStore) : ((deadExports store).map SymbolRef.id).Nodup := by
  have hrows : ((store.nodes.entries.filter fun entry =>
      entry.2.exported ∧ selfRefs store entry.1 = 0 ∧ memberRefs store entry.1 = 0).map Prod.fst).Nodup :=
    store.nodes.nodup.sublist (List.filter_sublist.map _)
  refine List.Nodup.sublist (List.filter_sublist.map _) (((pathOrder.sort_perm _).map _).nodup_iff.mpr ?_)
  rw [List.map_map]
  exact hrows

/-- No counted relationship leads to a dead export. -/
theorem not_mem_keys_of_dead {store : KuzuStore} {ref : SymbolRef} (hdead : ref ∈ deadExports store) {source : String}
    {kind : EdgeKind} (hkind : kind ∈ REFERENCE_EDGE_KINDS) : ⟨source, ref.id, kind⟩ ∉ store.edges.keys := by
  obtain ⟨entry, _, rfl, _, hself, _, _⟩ := mem_deadExports.mp hdead
  exact fun hkey => selfRefs_ne_zero_iff.mpr ⟨kind, hkind, source, hkey⟩ hself

theorem not_calls_of_dead {store : KuzuStore} {ref : SymbolRef} (hdead : ref ∈ deadExports store) (source : String) :
    ¬ Calls (readCallEdges store) source ref.id :=
  fun h => not_mem_keys_of_dead hdead (by decide) (calls_readCallEdges.mp h)

end codespine.query.GraphQuery
