import Codespine.Extract.GraphBuilder.Merge

open codespine.schema

namespace codespine.extract.GraphBuilder

/-- An edge as it is stored after a number of occurrences of it. -/
def counted (edge : GraphEdge) (count : ℕ) : GraphEdge :=
  { edge with metadata := some ((edge.metadata.getD ∅).set "count" (.num count)) }

theorem countOf_counted (edge : GraphEdge) (count : ℕ) : countOf (counted edge count) = count := by
  unfold countOf counted
  rw [Option.getD_some, OrderedMap.get_set_self]

/-- An occurrence of a stored edge. -/
def countAgain (existing : GraphEdge) (_ : GraphEdge) : GraphEdge :=
  { existing with metadata := some ((existing.metadata.getD ∅).set "count" (.num (countOf existing + 1))) }

theorem countAgain_counted (first edge : GraphEdge) (count : ℕ) :
    countAgain (counted first count) edge = counted first (count + 1) := by
  rw [countAgain, countOf_counted, ← Nat.cast_succ]
  unfold counted
  rw [Option.getD_some, OrderedMap.set_set]

theorem foldl_countAgain (first : GraphEdge) (rest : List GraphEdge) (count : ℕ) :
    rest.foldl countAgain (counted first count) = counted first (count + rest.length) := by
  induction rest generalizing count with
  | nil => rfl
  | cons edge rest ih => rw [List.foldl_cons, countAgain_counted, ih, List.length_cons, Nat.add_right_comm, Nat.add_assoc]

theorem addEdge_eq_accumulate :
    addEdge = OrderedMap.accumulate (fun edge => some edge.id) (fun edge => counted edge 1) countAgain := by
  funext edges edge
  unfold addEdge OrderedMap.accumulate
  dsimp only
  cases edges.get edge.id with
  | none => rw [Option.map_none, Option.getD_none, counted, Nat.cast_one]
  | some existing => rfl

/-- The edges of an id, over all extractions in their order. -/
def occurrences (extractions : List Extraction) (id : String) : List GraphEdge :=
  (extractions.flatMap Extraction.edges).filter fun edge => edge.id = id

/-- The edge of an id is its first occurrence, with the number of all of
them. -/
theorem get_merged (extractions : List Extraction) (id : String) :
    (extractions.foldl merge {}).edges.get id =
      (occurrences extractions id).head?.map fun first => counted first (occurrences extractions id).length := by
  rw [edges_foldl_merge, addEdge_eq_accumulate, OrderedMap.get_foldl_accumulate]
  simp only [Option.some_inj]
  change (occurrences extractions id).head?.map (fun first =>
    (occurrences extractions id).tail.foldl countAgain (counted first 1)) = _
  cases occurrences extractions id with
  | nil => rfl
  | cons first rest =>
    rw [List.head?_cons, Option.map_some, Option.map_some, List.tail_cons, foldl_countAgain, List.length_cons,
      Nat.add_comm]

/-- A builder keeps every edge under its own id. -/
theorem id_of_mem_merged {extractions : List Extraction} {entry : String × GraphEdge}
    (h : entry ∈ (extractions.foldl merge {}).edges.entries) : entry.2.id = entry.1 := by
  have hget := OrderedMap.get_eq_some_iff.mpr h
  rw [get_merged] at hget
  obtain ⟨first, hfirst, hedge⟩ := Option.map_eq_some_iff.mp hget
  have hid : first.id = entry.1 := of_decide_eq_true (List.mem_filter.mp (List.mem_of_mem_head? hfirst)).2
  rw [← hedge]
  exact hid

theorem getEdges_filter (extractions : List Extraction) (id : String) :
    ((extractions.foldl merge {}).getEdges.filter fun edge => edge.id = id) =
      ((extractions.foldl merge {}).edges.get id).toList := by
  rw [← OrderedMap.filter_entries_key]
  change (List.map Prod.snd _).filter _ = _
  rw [List.filter_map]
  refine congrArg (List.map Prod.snd) (List.filter_congr fun entry hentry => ?_)
  rw [Function.comp_apply, id_of_mem_merged hentry]

/-- What of an edge the order of the extractions does not decide. -/
def signature (edge : GraphEdge) : EdgeKind × String × String × ℚ :=
  (edge.kind, edge.source, edge.target, countOf edge)

/-- Edges of one id are of one relationship. -/
def Consistent (extractions : List Extraction) : Prop :=
  ∀ a ∈ extractions.flatMap Extraction.edges, ∀ b ∈ extractions.flatMap Extraction.edges, a.id = b.id →
    a.kind = b.kind ∧ a.source = b.source ∧ a.target = b.target

theorem signature_merged_perm {extractions permuted : List Extraction} (hconsistent : Consistent extractions)
    (hperm : extractions.Perm permuted) (id : String) :
    ((permuted.foldl merge {}).edges.get id).map signature = ((extractions.foldl merge {}).edges.get id).map signature := by
  have hoccurrences : (occurrences extractions id).Perm (occurrences permuted id) :=
    (hperm.flatMap_right Extraction.edges).filter _
  rw [get_merged, get_merged, ← hoccurrences.length_eq, Option.map_map, Option.map_map]
  have hmem : ∀ {first}, (occurrences permuted id).head? = some first → first ∈ occurrences extractions id :=
    fun h => hoccurrences.mem_iff.mpr (List.mem_of_mem_head? h)
  cases hfirst : (occurrences extractions id).head? with
  | none =>
    rw [List.head?_eq_none_iff] at hfirst
    rw [hfirst] at hoccurrences
    rw [hoccurrences.nil_eq.symm]
    rfl
  | some first =>
    have hfirst := List.mem_of_mem_head? hfirst
    cases hother : (occurrences permuted id).head? with
    | none =>
      rw [List.head?_eq_none_iff.mp hother] at hoccurrences
      rw [hoccurrences.eq_nil] at hfirst
      cases hfirst
    | some other =>
      obtain ⟨hpushed, hid⟩ := List.mem_filter.mp hfirst
      obtain ⟨hpushed', hid'⟩ := List.mem_filter.mp (hmem hother)
      obtain ⟨hkind, hsource, htarget⟩ := hconsistent other hpushed' first hpushed
        ((of_decide_eq_true hid').trans (of_decide_eq_true hid).symm)
      rw [Option.map_some, Option.map_some, Function.comp_apply, Function.comp_apply, signature, signature,
        countOf_counted, countOf_counted]
      exact congrArg some (Prod.ext hkind (Prod.ext hsource (Prod.ext htarget rfl)))

/-- Merging leaves one edge of every id that occurs: its first occurrence,
with the number of occurrences for its count; and in what order the
extractions come makes no difference to the relationships and their counts. -/
theorem merge_counts {extractions : List Extraction} (hconsistent : Consistent extractions) :
    (∀ id, occurrences extractions id = [] →
      ((extractions.foldl merge {}).getEdges.filter fun edge => edge.id = id) = []) ∧
    (∀ id first, (occurrences extractions id).head? = some first →
      ∃ edge, ((extractions.foldl merge {}).getEdges.filter fun edge => edge.id = id) = [edge] ∧
        edge.kind = first.kind ∧ edge.source = first.source ∧ edge.target = first.target ∧
        (edge.metadata.getD ∅).get "count" = some (.num (occurrences extractions id).length) ∧
        ∀ key, key ≠ "count" → (edge.metadata.getD ∅).get key = (first.metadata.getD ∅).get key) ∧
    ∀ permuted, extractions.Perm permuted → ∀ id,
      ((permuted.foldl merge {}).edges.get id).map signature =
        ((extractions.foldl merge {}).edges.get id).map signature := by
  refine ⟨fun id hnone => ?_, fun id first hfirst => ?_, fun permuted hperm => signature_merged_perm hconsistent hperm⟩
  · rw [getEdges_filter, get_merged, hnone]
    rfl
  · refine ⟨counted first (occurrences extractions id).length, ?_, rfl, rfl, rfl, ?_, fun key hkey => ?_⟩
    · rw [getEdges_filter, get_merged, hfirst]
      rfl
    · exact OrderedMap.get_set_self _ _ _
    · exact OrderedMap.get_set_ne hkey _

/-- Two calls of one function and an import, whose metadata is kept. -/
def twoCalls : List Extraction :=
  [{ nodes := [], edges := [
      { id := "IMPORTS:a->fs", kind := .IMPORTS, source := "a", target := "fs",
        metadata := some (OrderedMap.ofList [("specifier", .str "node:fs"), ("count", .num 7)]) },
      { id := "CALLS:run->load", kind := .CALLS, source := "run", target := "load" }] },
    { nodes := [], edges := [{ id := "CALLS:run->load", kind := .CALLS, source := "run", target := "load" }] }]

theorem merge_counts_twoCalls : ∃ edge,
    ((twoCalls.foldl merge {}).getEdges.filter fun edge => edge.id = "CALLS:run->load") = [edge] ∧
      (edge.metadata.getD ∅).get "count" = some (.num 2) := by
  obtain ⟨_, hcounts, _⟩ := @merge_counts twoCalls (by unfold Consistent; decide +kernel)
  obtain ⟨edge, hedge, _, _, _, hcount, _⟩ := hcounts "CALLS:run->load" _ rfl
  exact ⟨edge, hedge, hcount⟩

end codespine.extract.GraphBuilder
