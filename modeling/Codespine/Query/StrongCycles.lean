import Codespine.Query.BlastRadius
import Codespine.Query.CostModel.Recurrence

open codespine.schema codespine.store attribution digraph

namespace codespine.query.GraphQuery

/-- The call cycles of the graph: every component of more than one member, the
largest first. -/
def strongCycles (store : KuzuStore) : List (List SymbolRef) :=
  let nodes := store.readNodes
  let components := stronglyConnectedComponents (successorsAt (indexEdges nodes (readCallEdges store)))
  let members := (List.range components.componentCount).map fun (component : ℕ) =>
    membersOf components.componentOf component
  (Comparator.descending fun group => (group.length : ℚ)).sort
    ((members.filter fun group => 1 < group.length).map fun group => group.map fun index => symbolOf nodes[index])

section Groups

variable {count : ℕ} {number : Fin count → ℤ} {total : ℕ}

theorem mem_membersOf {comp : ℤ} {i : Fin count} : i ∈ membersOf number comp ↔ number i = comp := by
  simp [membersOf]

theorem nodup_membersOf (comp : ℤ) : (membersOf number comp).Nodup := (List.nodup_finRange count).filter _

theorem one_lt_length_membersOf {i : Fin count} :
    1 < (membersOf number (number i)).length ↔ ∃ j, j ≠ i ∧ number j = number i := by
  rw [← List.toFinset_card_of_nodup (nodup_membersOf _), Finset.one_lt_card_iff_nontrivial]
  have hi : i ∈ (membersOf number (number i)).toFinset := List.mem_toFinset.mpr (mem_membersOf.mpr rfl)
  constructor
  · intro h
    obtain ⟨j, hj, hne⟩ := h.exists_ne i
    exact ⟨j, hne, mem_membersOf.mp (List.mem_toFinset.mp hj)⟩
  · rintro ⟨j, hne, hj⟩
    exact ⟨j, List.mem_toFinset.mpr (mem_membersOf.mpr hj), i, hi, hne⟩

/-- Among the groups of several members, a vertex is in one if it shares its
number, and in none otherwise. -/
theorem countP_groups (hbounds : ∀ i, 0 ≤ number i ∧ number i < total) (i : Fin count) :
    (((List.range total).map fun (c : ℕ) => membersOf number c).filter fun group => 1 < group.length).countP
      (fun group => i ∈ group) = if ∃ j, j ≠ i ∧ number j = number i then 1 else 0 := by
  have hnumber : number i = ((number i).toNat : ℤ) := (Int.toNat_of_nonneg (hbounds i).1).symm
  rw [List.countP_filter, List.countP_map]
  by_cases hshared : ∃ j, j ≠ i ∧ number j = number i
  · have hlong := one_lt_length_membersOf.mpr hshared
    rw [if_pos hshared]
    have hcongr : (List.range total).countP ((fun group => decide (i ∈ group) && decide (1 < group.length)) ∘
        fun (c : ℕ) => membersOf number c) = (List.range total).countP fun c => c = (number i).toNat := by
      refine List.countP_congr fun c _ => ?_
      simp only [Function.comp_apply, Bool.and_eq_true, decide_eq_true_eq, mem_membersOf]
      constructor
      · rintro ⟨heq, _⟩
        omega
      · rintro rfl
        exact ⟨hnumber, hnumber ▸ hlong⟩
    rw [hcongr]
    refine (List.count_eq_countP ..).symm.trans (List.count_eq_one_of_mem List.nodup_range ?_)
    rw [List.mem_range]
    have hlt := (hbounds i).2
    omega
  · rw [if_neg hshared, List.countP_eq_zero]
    intro c _
    simp only [Function.comp_apply, Bool.and_eq_true, decide_eq_true_eq, mem_membersOf, not_and]
    rintro heq hlong
    exact hshared (one_lt_length_membersOf.mp (heq ▸ hlong))

end Groups

section Store

variable {store : KuzuStore}

/-- The network that costs are attributed over has the calls of the graph for
arcs, except calls of a function by itself. -/
theorem adj_callNetwork_iff {a b : String} :
    (callNetwork store.readNodes (readCallEdges store) .selfTime).Adj a b ↔
      Calls (readCallEdges store) a b ∧ a ≠ b := by
  change (∃ e ∈ (callArcs _ _ : Multiset (Arc String)), _) ↔ _
  simp only [callArcs, Multiset.mem_coe, List.mem_map, List.mem_filter, decide_eq_true_eq]
  constructor
  · rintro ⟨_, ⟨edge, ⟨hedge, _, _, hne⟩, rfl⟩, rfl, rfl⟩
    exact ⟨⟨edge, hedge, rfl, rfl⟩, hne⟩
  · rintro ⟨hcalls, hne⟩
    have hknown := Calls.mem_keys hcalls
    rw [← store.readNodes_ids] at hknown
    obtain ⟨edge, hedge, rfl, rfl⟩ := hcalls
    exact ⟨_, ⟨edge, ⟨hedge, List.mem_map.mp hknown.1, List.mem_map.mp hknown.2, hne⟩, rfl⟩, rfl, rfl⟩

theorem linked_calls_iff (i j : Fin store.readNodes.length) :
    Linked (Calls (readCallEdges store)) (idAt store.readNodes i) (idAt store.readNodes j) ↔
      numberAt store.readNodes (readCallEdges store) i = numberAt store.readNodes (readCallEdges store) j := by
  rw [← @sameComponent_iff _ _ .selfTime store.readNodes_nodup, Network.SameComponent]
  exact (linked_iff_of_loops fun a b => adj_callNetwork_iff).symm

/-- Whatever is linked to a stored function is itself or stored. -/
theorem exists_idAt_of_linked {a b : String} (h : Linked (Calls (readCallEdges store)) a b) (hne : b ≠ a) :
    ∃ j, idAt store.readNodes j = b := by
  rcases Relation.ReflTransGen.cases_tail h.1 with heq | ⟨c, _, hcb⟩
  · exact absurd heq hne
  · have hkey := (Calls.mem_keys hcb).2
    rw [← store.readNodes_ids, ← map_idAt_finRange] at hkey
    obtain ⟨j, _, hj⟩ := List.mem_map.mp hkey
    exact ⟨j, hj⟩

variable (store) in
/-- The groups `strongCycles` reports, by index. -/
def cycleGroups : List (List (Fin store.readNodes.length)) :=
  ((List.range (stronglyConnectedComponents (successorsAt (indexEdges store.readNodes
    (readCallEdges store)))).componentCount).map fun (component : ℕ) =>
      membersOf (numberAt store.readNodes (readCallEdges store)) component).filter fun group => 1 < group.length

variable (store) in
theorem strongCycles_perm : ((strongCycles store).map (List.map SymbolRef.id)).Perm
    ((cycleGroups store).map (List.map (idAt store.readNodes))) := by
  refine (((Comparator.descending fun group : List SymbolRef => (group.length : ℚ)).sort_perm _).map _).trans ?_
  rw [List.map_map]
  refine List.Perm.of_eq (List.map_congr_left fun group _ => ?_)
  rw [Function.comp_apply, List.map_map]
  rfl

theorem mem_map_idAt {group : List (Fin store.readNodes.length)} {i : Fin store.readNodes.length} :
    idAt store.readNodes i ∈ group.map (idAt store.readNodes) ↔ i ∈ group :=
  List.mem_map_of_injective (idAt_injective store.readNodes_nodup)

open Classical in
/-- A function that calls itself through others is in one cycle, any other in
none. -/
theorem countP_strongCycles {a : String} (ha : a ∈ store.nodes.keys) :
    ((strongCycles store).map (List.map SymbolRef.id)).countP (fun cycle => a ∈ cycle) =
      if ∃ b, b ≠ a ∧ Linked (Calls (readCallEdges store)) a b then 1 else 0 := by
  rw [← store.readNodes_ids, ← map_idAt_finRange] at ha
  obtain ⟨i, _, rfl⟩ := List.mem_map.mp ha
  have hbounds : ∀ v, 0 ≤ numberAt store.readNodes (readCallEdges store) v ∧ _ :=
    (stronglyConnectedComponents_spec (successorsAt (indexEdges store.readNodes (readCallEdges store)))).2.1
  rw [(strongCycles_perm store).countP_eq, List.countP_map]
  have hcongr : (cycleGroups store).countP ((fun cycle => decide (idAt store.readNodes i ∈ cycle)) ∘
      List.map (idAt store.readNodes)) = (cycleGroups store).countP fun group => i ∈ group := by
    refine List.countP_congr fun group _ => ?_
    simp only [Function.comp_apply, mem_map_idAt]
  rw [hcongr, cycleGroups, countP_groups hbounds]
  refine if_congr ⟨?_, ?_⟩ rfl rfl
  · rintro ⟨j, hne, hj⟩
    refine ⟨idAt store.readNodes j, fun heq => hne (idAt_injective store.readNodes_nodup heq), ?_⟩
    exact (linked_calls_iff i j).mpr hj.symm
  · rintro ⟨b, hne, hlinked⟩
    obtain ⟨j, rfl⟩ := exists_idAt_of_linked hlinked hne
    exact ⟨j, fun heq => hne (heq ▸ rfl), ((linked_calls_iff i j).mp hlinked).symm⟩

/-- A cycle holds each of its members once, several of them, and all that is
linked to one of them. -/
theorem cycle_spec {cycle : List String} (hcycle : cycle ∈ (strongCycles store).map (List.map SymbolRef.id)) :
    cycle.Nodup ∧ 1 < cycle.length ∧
      ∀ a ∈ cycle, ∀ b, b ∈ cycle ↔ Linked (Calls (readCallEdges store)) a b := by
  obtain ⟨group, hgroup, rfl⟩ := List.mem_map.mp ((strongCycles_perm store).mem_iff.mp hcycle)
  obtain ⟨hmem, hlong⟩ := List.mem_filter.mp hgroup
  obtain ⟨c, _, rfl⟩ := List.mem_map.mp hmem
  refine ⟨(nodup_membersOf _).map (idAt_injective store.readNodes_nodup), ?_, ?_⟩
  · rw [List.length_map]
    exact of_decide_eq_true hlong
  · intro a ha b
    obtain ⟨i, hi, rfl⟩ := List.mem_map.mp ha
    have hi := mem_membersOf.mp hi
    constructor
    · intro hb
      obtain ⟨j, hj, rfl⟩ := List.mem_map.mp hb
      exact (linked_calls_iff i j).mpr (hi.trans (mem_membersOf.mp hj).symm)
    · intro hlinked
      by_cases hne : b = idAt store.readNodes i
      · exact hne ▸ ha
      · obtain ⟨j, rfl⟩ := exists_idAt_of_linked hlinked hne
        exact mem_map_idAt.mpr (mem_membersOf.mpr (((linked_calls_iff i j).mp hlinked).symm.trans hi))

end Store

open Classical in
/-- The pass ends, leaving no work behind after any vertex it starts at, and
computes exactly the strongly connected components; the cycles of the call
graph are its components of several members, each listed once. -/
theorem stronglyConnectedComponents_exact :
    (∀ (count : ℕ) (successors : Fin count → List (Fin count)),
      (∀ started, started <+: List.finRange count →
        (started.foldl (TarjanState.start successors) (TarjanState.initial count)).work = []) ∧
      (∀ v, 0 ≤ (stronglyConnectedComponents successors).componentOf v ∧
        (stronglyConnectedComponents successors).componentOf v <
          (stronglyConnectedComponents successors).componentCount) ∧
      (∀ c : ℕ, c < (stronglyConnectedComponents successors).componentCount →
        ∃ v, (stronglyConnectedComponents successors).componentOf v = c) ∧
      ∀ a b, (stronglyConnectedComponents successors).componentOf a =
          (stronglyConnectedComponents successors).componentOf b ↔
        Linked (fun v w => w ∈ successors v) a b) ∧
    ∀ store : KuzuStore,
      (∀ a ∈ store.nodes.keys, ((strongCycles store).map (List.map SymbolRef.id)).countP (fun cycle => a ∈ cycle) =
        if ∃ b, b ≠ a ∧ Linked (Calls (readCallEdges store)) a b then 1 else 0) ∧
      ∀ cycle ∈ (strongCycles store).map (List.map SymbolRef.id), cycle.Nodup ∧ 1 < cycle.length ∧
        ∀ a ∈ cycle, ∀ b, b ∈ cycle ↔ Linked (Calls (readCallEdges store)) a b := by
  refine ⟨fun count successors => ?_, fun store => ⟨fun a ha => countP_strongCycles ha, fun cycle => cycle_spec⟩⟩
  obtain ⟨hnumbering, hbounds, hused⟩ := stronglyConnectedComponents_spec successors
  refine ⟨fun started _ => ?_, hbounds, hused, hnumbering.eq_iff_linked⟩
  exact ((@TarjanState.initial_invariant _ successors).foldl_start rfl started).2.1

end codespine.query.GraphQuery
