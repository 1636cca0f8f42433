import Codespine.Query.BlastRadius.Impact
import Codespine.Query.Neighbors

open codespine.schema codespine.store digraph Relation

namespace codespine.query.GraphQuery

section Calls

variable {store : KuzuStore} {id : String}

theorem ids_whoCalls (store : KuzuStore) (id : String) :
    ((whoCalls store id).map SymbolRef.id).Perm (inboundCalls store id) := by
  refine ((pathOrder.sort_perm _).map _).trans (List.Perm.of_eq ?_)
  have h := congrArg (List.map Prod.fst) (ids_of_kinds store .incoming id fun kind => kind = .CALLS)
  rw [List.map_map, List.map_map] at h
  rw [List.map_map]
  refine h.trans (congrArg (List.map EdgeKey.source) (List.filter_congr fun key _ => ?_))
  simp only [nearEnd, decide_eq_true_eq, decide_eq_decide]
  exact and_comm

theorem ids_calls (store : KuzuStore) (id : String) : ((calls store id).map SymbolRef.id).Perm
    ((store.edges.keys.filter fun key => key.kind = .CALLS ∧ key.source = id).map EdgeKey.target) := by
  refine ((pathOrder.sort_perm _).map _).trans (List.Perm.of_eq ?_)
  have h := congrArg (List.map Prod.fst) (ids_of_kinds store .outgoing id fun kind => kind = .CALLS)
  rw [List.map_map, List.map_map] at h
  rw [List.map_map]
  refine h.trans (congrArg (List.map EdgeKey.target) (List.filter_congr fun key _ => ?_))
  simp only [nearEnd, decide_eq_true_eq, decide_eq_decide]
  exact and_comm

theorem mem_whoCalls {m : String} : m ∈ (whoCalls store id).map SymbolRef.id ↔ Calls (readCallEdges store) m id :=
  (ids_whoCalls store id).mem_iff.trans mem_inboundCalls

theorem mem_calls {m : String} : m ∈ (calls store id).map SymbolRef.id ↔ Calls (readCallEdges store) id m := by
  rw [(ids_calls store id).mem_iff, calls_readCallEdges]
  simp only [List.mem_map, List.mem_filter, decide_eq_true_eq]
  constructor
  · rintro ⟨⟨source, target, kind⟩, ⟨hkey, rfl, rfl⟩, rfl⟩
    exact hkey
  · intro hkey
    exact ⟨_, ⟨hkey, rfl, rfl⟩, rfl⟩

/-- A function is listed once, however often it calls. -/
theorem nodup_whoCalls (store : KuzuStore) (id : String) : ((whoCalls store id).map SymbolRef.id).Nodup := by
  rw [(ids_whoCalls store id).nodup_iff]
  refine List.Nodup.map_on ?_ (store.edges.nodup_keys.filter _)
  intro key hkey other hother hsource
  obtain ⟨hkind, htarget⟩ := of_decide_eq_true (List.mem_filter.mp hkey).2
  obtain ⟨hkind', htarget'⟩ := of_decide_eq_true (List.mem_filter.mp hother).2
  exact (EdgeKey.mk.injEq _ _ _ _ _ _).mpr ⟨hsource, htarget.trans htarget'.symm, hkind.trans hkind'.symm⟩

theorem nodup_calls (store : KuzuStore) (id : String) : ((calls store id).map SymbolRef.id).Nodup := by
  rw [(ids_calls store id).nodup_iff]
  refine List.Nodup.map_on ?_ (store.edges.nodup_keys.filter _)
  intro key hkey other hother htarget
  obtain ⟨hkind, hsource⟩ := of_decide_eq_true (List.mem_filter.mp hkey).2
  obtain ⟨hkind', hsource'⟩ := of_decide_eq_true (List.mem_filter.mp hother).2
  exact (EdgeKey.mk.injEq _ _ _ _ _ _).mpr ⟨hsource.trans hsource'.symm, htarget, hkind.trans hkind'.symm⟩

/-- The score by `callers` is the number of callers listed. -/
theorem callers_eq_length (store : KuzuStore) (id : String) :
    (scoreNodes store.readNodes (readCallEdges store) .callers).getD id 0 = (whoCalls store id).length := by
  have hlength : (whoCalls store id).length = (inboundCalls store id).length := by
    rw [← (ids_whoCalls store id).length_eq, List.length_map]
  have hrecords : ((readCallEdges store).filter fun edge => edge.toId = id).length = (inboundCalls store id).length := by
    unfold readCallEdges readEdgesOfKind inboundCalls OrderedMap.keys
    rw [List.filter_map, List.length_map, List.filter_filter, List.filter_map, List.length_map, List.length_map]
    refine congrArg List.length (List.filter_congr fun entry _ => ?_)
    simp [Bool.and_comm]
  unfold scoreNodes
  dsimp only
  rw [getD_sumInbound, List.map_const', List.sum_replicate, nsmul_one, hrecords, hlength]

end Calls

section Radius

variable {store : KuzuStore} {id : String}

theorem mem_blastRadius {depth : JsNumber} {m : String} : m ∈ (blastRadius store id depth).map SymbolRef.id ↔
    m ∈ within (inboundCalls store) (clampDepth depth) id := by
  unfold blastRadius
  dsimp only
  rw [((pathOrder.sort_perm _).map SymbolRef.id).mem_iff, List.map_map]
  simp only [List.mem_map, List.mem_filter, decide_eq_true_eq, Function.comp_apply]
  constructor
  · rintro ⟨node, ⟨_, hmem⟩, rfl⟩
    exact hmem
  · intro hmem
    obtain ⟨n, _, hwalk⟩ := mem_within_inboundCalls.mp hmem
    obtain ⟨b, hstep, _⟩ := TransGen.head'_iff.mp hwalk.transGen
    have hkey : m ∈ store.readNodes.map StoredNode.id := store.readNodes_ids ▸ (Calls.mem_keys hstep).1
    obtain ⟨node, hnode, rfl⟩ := List.mem_map.mp hkey
    exact ⟨node, ⟨hnode, hmem⟩, rfl⟩

theorem clampDepth_natCast {n : ℕ} (hpos : 1 ≤ n) (hle : n ≤ KUZU_MAX_REL_BOUND) : clampDepth (.finite n) = n := by
  unfold clampDepth
  dsimp only
  rw [Int.floor_natCast, if_neg (by omega), if_neg (by omega)]
  rfl

/-- One call deeper: who calls the target, and who calls what is affected so
far. -/
theorem mem_blastRadius_succ {n : ℕ} (hpos : 1 ≤ n) (hlt : n < KUZU_MAX_REL_BOUND) {m : String} :
    m ∈ (blastRadius store id (.finite (n + 1 : ℕ))).map SymbolRef.id ↔ m ∈ (whoCalls store id).map SymbolRef.id ∨
      ∃ b ∈ (blastRadius store id (.finite n)).map SymbolRef.id, m ∈ (whoCalls store b).map SymbolRef.id := by
  simp only [mem_blastRadius, clampDepth_natCast hpos hlt.le, clampDepth_natCast (Nat.le_add_left 1 n) hlt, mem_within_succ,
    mem_whoCalls, mem_inboundCalls]

theorem mem_blastRadius_one {m : String} :
    m ∈ (blastRadius store id (.finite 1)).map SymbolRef.id ↔ m ∈ (whoCalls store id).map SymbolRef.id := by
  have hone : clampDepth (.finite 1) = 0 + 1 := by
    have h := clampDepth_natCast le_rfl (by decide : 1 ≤ KUZU_MAX_REL_BOUND)
    rwa [Nat.cast_one] at h
  rw [mem_blastRadius, hone, mem_within_succ, mem_whoCalls, mem_inboundCalls]
  simp [within]

/-- When one call deeper finds nothing new, what is found is the impact set, and
the target itself where it is on a cycle. -/
theorem mem_blastRadius_of_closed {n : ℕ} (hpos : 1 ≤ n) (hlt : n < KUZU_MAX_REL_BOUND)
    (hsame : ∀ m ∈ (blastRadius store id (.finite (n + 1 : ℕ))).map SymbolRef.id,
      m ∈ (blastRadius store id (.finite n)).map SymbolRef.id) {m : String} :
    m ∈ (blastRadius store id (.finite n)).map SymbolRef.id ↔
      m ∈ impactSet (readCallEdges store) id ∨ m = id ∧ TransGen (Calls (readCallEdges store)) id id := by
  simp only [mem_blastRadius, clampDepth_natCast hpos hlt.le, clampDepth_natCast (Nat.le_add_left 1 n) hlt] at hsame ⊢
  have hreach : m ∈ within (inboundCalls store) n id ↔ TransGen (Calls (readCallEdges store)) m id := by
    rw [← transGen_swap, ← swap_inboundCalls]
    exact ⟨transGen_of_mem_within, mem_within_of_closed hsame⟩
  rw [hreach]
  constructor
  · intro h
    by_cases hm : m = id
    · exact Or.inr ⟨hm, hm ▸ h⟩
    · exact Or.inl ⟨hm, h⟩
  · rintro (⟨_, h⟩ | ⟨rfl, h⟩) <;> exact h

end Radius

section References

variable {store : KuzuStore} {id : String}

theorem filter_matchEdges_direction (store : KuzuStore) (direction wanted : Direction) (id : String) :
    ((matchEdges store direction id).filter fun row => row.direction = wanted) =
      if direction = wanted then matchEdges store direction id else [] := by
  split
  · next hsame => exact List.filter_eq_self.mpr fun row hrow => decide_eq_true ((mem_matchEdges hrow).1.trans hsame)
  · next hother =>
    refine List.filter_eq_nil_iff.mpr fun row hrow hwanted => hother ?_
    exact (mem_matchEdges hrow).1.symm.trans (of_decide_eq_true hwanted)

/-- References are the incoming rows of the neighborhood that are of a kind that
counts as a use. -/
theorem references_perm (store : KuzuStore) (id : String) : (references store id).Perm
    ((neighborhood store id).filter fun row => row.direction = .incoming ∧ row.edgeKind ∈ REFERENCE_EDGE_KINDS) := by
  refine (kindOrder.sort_perm _).trans (List.Perm.of_eq ?_)
  have hincoming : ((neighborhood store id).filter fun row => row.direction = .incoming) = matchEdges store .incoming id := by
    unfold neighborhood
    rw [List.filter_append, filter_matchEdges_direction, filter_matchEdges_direction, if_neg (by decide), if_pos rfl,
      List.nil_append]
  rw [← hincoming, List.filter_filter]
  exact List.filter_congr fun row _ => by rw [Bool.decide_and, Bool.and_comm]

/-- And callers are the references that are calls. -/
theorem whoCalls_perm (store : KuzuStore) (id : String) : (whoCalls store id).Perm
    (((references store id).filter fun row => row.edgeKind = .CALLS).map NeighborRef.toSymbolRef) := by
  refine (pathOrder.sort_perm _).trans (List.Perm.map _ ?_)
  refine List.Perm.trans (List.Perm.of_eq ?_) ((kindOrder.sort_perm _).filter _).symm
  rw [List.filter_filter]
  refine List.filter_congr fun row _ => ?_
  by_cases hkind : row.edgeKind = .CALLS <;> simp [hkind, REFERENCE_EDGE_KINDS]

theorem length_references (store : KuzuStore) (id : String) : (references store id).length = selfRefs store id := by
  unfold references selfRefs referencesTo
  rw [(kindOrder.sort_perm _).length_eq]
  have h := congrArg List.length (ids_of_kinds store .incoming id fun kind => kind ∈ REFERENCE_EDGE_KINDS)
  rw [List.length_map, List.length_map] at h
  simpa [nearEnd] using h

theorem references_eq_nil_iff : references store id = [] ↔ selfRefs store id = 0 := by
  rw [← length_references, List.length_eq_zero_iff]

theorem contains_iff {member : String} : (∃ row ∈ neighborhood store id, row.direction = .outgoing ∧ row.edgeKind = .CONTAINS ∧
    row.id = member) ↔ ⟨id, member, .CONTAINS⟩ ∈ store.edges.keys := by
  have hpair : (member, EdgeKind.CONTAINS) ∈ (matchEdges store .outgoing id).map (fun row => (row.id, row.edgeKind)) ↔
      (⟨id, member, .CONTAINS⟩ : EdgeKey) ∈ store.edges.keys := by
    rw [map_matchEdges]
    simp only [List.mem_map, List.mem_filter, Prod.mk.injEq]
    constructor
    · rintro ⟨⟨source, target, kind⟩, ⟨hkey, hnear⟩, htarget, hkind⟩
      obtain rfl : source = id := of_decide_eq_true hnear
      obtain rfl : target = member := htarget
      obtain rfl : kind = .CONTAINS := hkind
      exact hkey
    · intro hkey
      exact ⟨_, ⟨hkey, decide_eq_true rfl⟩, rfl, rfl⟩
  rw [← hpair]
  constructor
  · rintro ⟨row, hrow, hdirection, hkind, rfl⟩
    refine List.mem_map.mpr ⟨row, (List.mem_append.mp hrow).resolve_right fun hincoming => ?_, by rw [hkind]⟩
    exact absurd ((mem_matchEdges hincoming).1.symm.trans hdirection) (by decide)
  · intro hmem
    obtain ⟨row, hrow, hsame⟩ := List.mem_map.mp hmem
    obtain ⟨hid, hkind⟩ := Prod.mk.inj hsame
    exact ⟨row, List.mem_append_left _ hrow, (mem_matchEdges hrow).1, hkind, hid⟩

/-- A dead export is an exported symbol that has no references, on itself or on
a member, framework entry points excepted. -/
theorem mem_deadExports_iff {ref : SymbolRef} : ref ∈ deadExports store ↔
    (∃ row, (ref.id, row) ∈ store.nodes.entries ∧ refOf (ref.id, row) = ref ∧ row.exported = true) ∧
      references store ref.id = [] ∧
      (∀ row ∈ neighborhood store ref.id, row.direction = .outgoing → row.edgeKind = .CONTAINS → references store row.id = []) ∧
      DeadExportsAllowlist.isFrameworkEntryPoint ref.filePath = false := by
  have hmembers : ∀ id, memberRefs store id = 0 ↔ ∀ row ∈ neighborhood store id, row.direction = .outgoing →
      row.edgeKind = .CONTAINS → references store row.id = [] := by
    intro id
    rw [← not_iff_not, ← ne_eq, memberRefs_ne_zero_iff]
    simp only [← contains_iff, references_eq_nil_iff]
    push Not
    constructor
    · rintro ⟨member, ⟨row, hrow, hdirection, hkind, rfl⟩, hrefs⟩
      exact ⟨row, hrow, hdirection, hkind, hrefs⟩
    · rintro ⟨row, hrow, hdirection, hkind, hrefs⟩
      exact ⟨row.id, ⟨row, hrow, hdirection, hkind, rfl⟩, hrefs⟩
  rw [mem_deadExports, references_eq_nil_iff, ← hmembers]
  constructor
  · rintro ⟨entry, hentry, rfl, hexported, hself, hmember, hallow⟩
    exact ⟨⟨entry.2, hentry, rfl, hexported⟩, hself, hmember, hallow⟩
  · rintro ⟨⟨row, hentry, href, hexported⟩, hself, hmember, hallow⟩
    refine ⟨_, hentry, href, hexported, hself, hmember, ?_⟩
    rw [← href] at hallow
    exact hallow

end References

/-- What the queries say of one another, of any graph. -/
structure Agree (store : KuzuStore) : Prop where
  calls_iff : ∀ a b, b ∈ (calls store a).map SymbolRef.id ↔ a ∈ (whoCalls store b).map SymbolRef.id
  calls_once : ∀ id, ((calls store id).map SymbolRef.id).Nodup ∧ ((whoCalls store id).map SymbolRef.id).Nodup
  whoCalls_references : ∀ id, (whoCalls store id).Perm
    (((references store id).filter fun row => row.edgeKind = .CALLS).map NeighborRef.toSymbolRef)
  references_neighborhood : ∀ id, (references store id).Perm
    ((neighborhood store id).filter fun row => row.direction = .incoming ∧ row.edgeKind ∈ REFERENCE_EDGE_KINDS)
  callers_whoCalls : ∀ id,
    (scoreNodes store.readNodes (readCallEdges store) .callers).getD id 0 = (whoCalls store id).length
  blastRadius_one : ∀ id m, m ∈ (blastRadius store id (.finite 1)).map SymbolRef.id ↔ m ∈ (whoCalls store id).map SymbolRef.id
  blastRadius_succ : ∀ id n, 1 ≤ n → n < KUZU_MAX_REL_BOUND → ∀ m,
    m ∈ (blastRadius store id (.finite (n + 1 : ℕ))).map SymbolRef.id ↔ m ∈ (whoCalls store id).map SymbolRef.id ∨
      ∃ b ∈ (blastRadius store id (.finite n)).map SymbolRef.id, m ∈ (whoCalls store b).map SymbolRef.id
  blastRadius_closed : ∀ id n, 1 ≤ n → n < KUZU_MAX_REL_BOUND →
    (∀ m ∈ (blastRadius store id (.finite (n + 1 : ℕ))).map SymbolRef.id,
      m ∈ (blastRadius store id (.finite n)).map SymbolRef.id) →
    ∀ m, m ∈ (blastRadius store id (.finite n)).map SymbolRef.id ↔
      m ∈ impactSet (readCallEdges store) id ∨ m = id ∧ TransGen (Calls (readCallEdges store)) id id
  deadExports_references : ∀ ref, ref ∈ deadExports store ↔
    (∃ row, (ref.id, row) ∈ store.nodes.entries ∧ refOf (ref.id, row) = ref ∧ row.exported = true) ∧
      references store ref.id = [] ∧
      (∀ row ∈ neighborhood store ref.id, row.direction = .outgoing → row.edgeKind = .CONTAINS → references store row.id = []) ∧
      DeadExportsAllowlist.isFrameworkEntryPoint ref.filePath = false

/-- The queries of any database agree: callees are callers read the other way,
callers are references, references are neighbors, `callers` counts what
`who-calls` lists, the blast radius is, below the longest walk of the database,
`who-calls` taken again and again and is the impact set up to the target itself
once a step finds nothing new, and dead exports are the exported symbols without
references. -/
theorem queries_agree (store : KuzuStore) : Agree store where
  calls_iff _ _ := mem_calls.trans mem_whoCalls.symm
  calls_once id := ⟨nodup_calls store id, nodup_whoCalls store id⟩
  whoCalls_references := whoCalls_perm store
  references_neighborhood := references_perm store
  callers_whoCalls := callers_eq_length store
  blastRadius_one _ _ := mem_blastRadius_one
  blastRadius_succ _ _ hpos hlt _ := mem_blastRadius_succ hpos hlt
  blastRadius_closed _ _ hpos hlt hsame _ := mem_blastRadius_of_closed hpos hlt hsame
  deadExports_references _ := mem_deadExports_iff

end codespine.query.GraphQuery
