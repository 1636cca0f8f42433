import Codespine.Query.CampaignPlanner

open codespine.schema codespine.store Relation

namespace codespine.query

namespace GraphQuery

/-- The profile measured the symbol with a positive score, in either metric. -/
def Measured (metadata : Metadata) : Prop := 0 < runtimeValue metadata "selfMs" ∨ 0 < runtimeValue metadata "samples"

instance (metadata : Metadata) : Decidable (Measured metadata) := inferInstanceAs (Decidable (_ ∨ _))

theorem impactSet_of_dead {store : KuzuStore} {ref : SymbolRef} (hdead : ref ∈ deadExports store) :
    impactSet (readCallEdges store) ref.id = ∅ := by
  refine Set.eq_empty_iff_forall_notMem.mpr fun m hm => ?_
  obtain ⟨b, _, hlast⟩ := TransGen.tail'_iff.mp hm.2
  exact not_calls_of_dead hdead b hlast

theorem sumInbound_of_dead {store : KuzuStore} {ref : SymbolRef} (hdead : ref ∈ deadExports store)
    (weight : CallEdge → ℚ) : (sumInbound (readCallEdges store) weight).getD ref.id 0 = 0 := by
  have hnil : ((readCallEdges store).filter fun edge => edge.toId = ref.id) = [] :=
    List.filter_eq_nil_iff.mpr fun edge hedge hto =>
      not_calls_of_dead hdead edge.fromId ⟨edge, hedge, rfl, of_decide_eq_true hto⟩
  rw [getD_sumInbound, hnil, List.map_nil, List.sum_nil]

/-- The blast radius of a dead export is empty, whatever the depth. -/
theorem blastRadius_of_dead {store : KuzuStore} {ref : SymbolRef} (hdead : ref ∈ deadExports store) (depth : JsNumber) :
    (blastRadius store ref.id depth).length = 0 := by
  rw [length_blastRadius, List.length_eq_zero_iff]
  refine List.eq_nil_iff_forall_not_mem.mpr fun m hm => ?_
  obtain ⟨n, _, hwalk⟩ := mem_within_inboundCalls.mp hm
  obtain ⟨b, _, hlast⟩ := TransGen.tail'_iff.mp hwalk.transGen
  exact not_calls_of_dead hdead b hlast

section Ranked

variable {localeCompare : Comparator String} {store : KuzuStore} {options : HotspotOptions}

theorem metadata_of_dead {ref : SymbolRef} (hdead : ref ∈ deadExports store) {node : StoredNode}
    (hnode : node ∈ store.readNodes) (hid : node.id = ref.id) : node.metadata = ref.metadata := by
  obtain ⟨entry, hentry, rfl, _⟩ := mem_deadExports.mp hdead
  obtain ⟨entry', hentry', rfl⟩ := List.mem_map.mp hnode
  have hget := OrderedMap.get_eq_some_iff.mpr hentry
  have hget' := OrderedMap.get_eq_some_iff.mpr hentry'
  change entry'.1 = entry.1 at hid
  rw [hid, hget] at hget'
  exact congrArg NodeRow.metadata (Option.some.inj hget').symm

/-- A static metric gives a dead export no score, so it is a hotspot only when
the profile measured it. -/
theorem measured_of_dead_hotspot {ref : SymbolRef} (hdead : ref ∈ deadExports store) {hotspot : HotspotRef}
    (hhotspot : hotspot ∈ (hotspots localeCompare store options).hotspots) (hid : hotspot.id = ref.id) :
    Measured ref.metadata := by
  obtain ⟨entry, hentry, rfl⟩ := List.mem_map.mp hhotspot
  have hranked := List.mem_filter.mp (Comparator.mem_sort.mp (List.mem_of_mem_take hentry))
  obtain ⟨node, hcandidate, rfl⟩ := List.mem_map.mp hranked.1
  have hnode : node ∈ store.readNodes := by
    split at hcandidate
    · exact (List.mem_filter.mp hcandidate).1
    · exact hcandidate
  change node.id = ref.id at hid
  have hruntime : ∀ key, (OrderedMap.ofList (store.readNodes.map fun node =>
      (node.id, runtimeValue node.metadata key))).getD node.id 0 = runtimeValue ref.metadata key := by
    intro key
    have hnodup : ((store.readNodes.map fun node => (node.id, runtimeValue node.metadata key)).map Prod.fst).Nodup := by
      rw [List.map_map]
      exact store.readNodes_nodup
    rw [OrderedMap.getD, OrderedMap.get_ofList_of_mem hnodup (List.mem_map_of_mem hnode), Option.getD_some,
      metadata_of_dead hdead hnode hid]
  have hpos := of_decide_eq_true hranked.2
  dsimp only at hpos
  generalize (if isRuntimeMetric _ && _ then HotspotMetric.callers else _) = metric at hpos
  cases metric with
  | selfTime => exact Or.inl (hruntime "selfMs" ▸ hpos)
  | samples => exact Or.inr (hruntime "samples" ▸ hpos)
  | callers =>
    rw [hid] at hpos
    exact absurd hpos (sumInbound_of_dead hdead _).not_gt
  | callCount =>
    rw [hid] at hpos
    exact absurd hpos (sumInbound_of_dead hdead _).not_gt
  | blastRadius =>
    have hsize := get_blastRadiusSizes (readCallEdges store) hnode
    rw [hid, impactSet_of_dead hdead, Set.ncard_empty, Nat.cast_zero] at hsize
    change 0 < (blastRadiusSizes store.readNodes (readCallEdges store)).getD node.id 0 at hpos
    rw [OrderedMap.getD, hid, hsize] at hpos
    exact absurd hpos (lt_irrefl 0)

end Ranked

/-- No two hotspots are the same node. -/
theorem nodup_hotspots (localeCompare : Comparator String) (store : KuzuStore) (options : HotspotOptions) :
    ((hotspots localeCompare store options).hotspots.map fun hotspot => hotspot.id).Nodup := by
  have hcandidates : ∀ (measuredOnly : Bool) (scores : OrderedMap String ℚ),
      ((rankNodes localeCompare scores
        (if measuredOnly then store.readNodes.filter fun node => hasRuntime node.metadata else store.readNodes)).map
          fun entry => entry.1.id).Nodup := by
    intro measuredOnly scores
    have hnodes : ((if measuredOnly then store.readNodes.filter fun node => hasRuntime node.metadata
        else store.readNodes).map StoredNode.id).Nodup := by
      split
      · exact store.readNodes_nodup.sublist (List.filter_sublist.map _)
      · exact store.readNodes_nodup
    refine (((hotspotOrder localeCompare).sort_perm _).map _).nodup_iff.mpr ?_
    refine List.Nodup.sublist (List.filter_sublist.map _) ?_
    rw [List.map_map]
    exact hnodes
  simp only [hotspots, List.map_map]
  exact (hcandidates _ _).sublist ((List.take_sublist _ _).map _)

end GraphQuery

namespace CampaignPlanner

open GraphQuery

/-- Two lists without repetition, joined and cut, repeat nothing when every
shared element stands behind the cut in the second. -/
theorem nodup_take_append_iff {α : Type} [DecidableEq α] {l m : List α} (hl : l.Nodup) (hm : m.Nodup) {n : ℕ} :
    ((l ++ m).take n).Nodup ↔ ∀ a ∈ l, a ∈ m → n ≤ l.length + m.idxOf a := by
  rw [List.take_append, List.nodup_append]
  constructor
  · rintro ⟨_, _, hdisjoint⟩ a hal ham
    by_contra hlt
    have hright : a ∈ m.take (n - l.length) := (List.mem_take_iff_idxOf_lt ham).mpr (by omega)
    have hleft : a ∈ l.take n := by rwa [List.take_of_length_le (by omega)]
    exact hdisjoint a hleft a hright rfl
  · intro h
    refine ⟨hl.sublist (List.take_sublist _ _), hm.sublist (List.take_sublist _ _), ?_⟩
    rintro a hleft _ hright rfl
    have ham := List.mem_of_mem_take hright
    have hle := h a (List.mem_of_mem_take hleft) ham
    have hlt := (List.mem_take_iff_idxOf_lt ham).mp hright
    omega

/-- How items of one readiness are ordered. -/
def leverageOrder (localeCompare : Comparator String) : Comparator CampaignItem :=
  ((Comparator.descending CampaignItem.score).thenBy (localeCompare.on fun item => item.filePath)).thenBy
    (Comparator.ascending fun item => item.startLine)

theorem worklistOrder_of_rank_lt (localeCompare : Comparator String) {a b : CampaignItem}
    (h : READINESS_RANK a.readiness < READINESS_RANK b.readiness) : (worklistOrder localeCompare).compare a b < 0 :=
  Comparator.thenBy_neg _ (Comparator.thenBy_neg _ (Comparator.thenBy_neg _ (sub_neg.mpr h)))

theorem worklistOrder_of_rank_eq (localeCompare : Comparator String) {a b : CampaignItem}
    (h : a.readiness = b.readiness) :
    (worklistOrder localeCompare).compare a b = (leverageOrder localeCompare).compare a b :=
  Comparator.thenBy_congr _ (Comparator.thenBy_congr _
    (Comparator.thenBy_of_zero _ (sub_eq_zero.mpr (congrArg READINESS_RANK h))))

section Worklist

variable (localeCompare : Comparator String) (store : KuzuStore) (options : CampaignOptions)

/-- The hotspots of the ranking that stay workable, in its order. -/
def boundedHotspots : List HotspotRef :=
  (hotspotReport localeCompare store options).hotspots.filter fun hotspot =>
    (blastRadius store hotspot.id BLAST_RADIUS_DEPTH).length ≤ ceilingOf options

/-- The safe removals in the order of the worklist. -/
def sortedRemovals : List CampaignItem := (worklistOrder localeCompare).sort (safeRemovals store)

/-- The manual hotspots in the order of the worklist. -/
def sortedManual : List CampaignItem :=
  (worklistOrder localeCompare).sort
    ((rankedHotspots store (hotspotReport localeCompare store options) (ceilingOf options)).filter fun item =>
      item.readiness ≠ .needsWorkload)

theorem pairwise_rankedHotspots :
    (rankedHotspots store (hotspotReport localeCompare store options) (ceilingOf options)).Pairwise
      (leverageOrder localeCompare).le := by
  have hentries : ∀ (scores : OrderedMap String ℚ) (candidates : List StoredNode) (limit : ℕ),
      ((rankNodes localeCompare scores candidates).take limit).Pairwise (hotspotOrder localeCompare).le :=
    fun scores candidates limit => ((hotspotOrder localeCompare).sort_pairwise _).sublist (List.take_sublist _ _)
  simp only [rankedHotspots, hotspotReport, hotspots, List.pairwise_map]
  exact hentries _ _ _

theorem readiness_of_mem_safeRemovals {item : CampaignItem} (h : item ∈ safeRemovals store) :
    item.readiness = .autoApplicable := by
  obtain ⟨ref, _, rfl⟩ := List.mem_map.mp h
  rfl

theorem readiness_rankedHotspot (ceiling : ℕ) (hotspot : HotspotRef) :
    (rankedHotspot store ceiling hotspot).readiness =
      if (blastRadius store hotspot.id BLAST_RADIUS_DEPTH).length ≤ ceiling then .needsWorkload else .manual := rfl

theorem rank_pos_of_rankedHotspot (ceiling : ℕ) (hotspot : HotspotRef) :
    0 < READINESS_RANK (rankedHotspot store ceiling hotspot).readiness := by
  rw [readiness_rankedHotspot]
  split <;> decide

theorem filter_rankedHotspots :
    (rankedHotspots store (hotspotReport localeCompare store options) (ceilingOf options)).filter
        (fun item => item.readiness = .needsWorkload) =
      (boundedHotspots localeCompare store options).map (rankedHotspot store (ceilingOf options)) := by
  rw [rankedHotspots, List.filter_map, boundedHotspots]
  congr 1
  refine List.filter_congr fun hotspot _ => ?_
  rw [Function.comp_apply, decide_eq_decide, readiness_rankedHotspot]
  split <;> simp_all

/-- The workable hotspots keep the order of the ranking. -/
theorem sort_rankedHotspots :
    (worklistOrder localeCompare).sort
        (rankedHotspots store (hotspotReport localeCompare store options) (ceilingOf options)) =
      (boundedHotspots localeCompare store options).map (rankedHotspot store (ceilingOf options)) ++
        sortedManual localeCompare store options := by
  have hfilter := filter_rankedHotspots localeCompare store options
  set ranked := rankedHotspots store (hotspotReport localeCompare store options) (ceilingOf options)
  set workable := fun item : CampaignItem => decide (item.readiness = .needsWorkload)
  have hsorted : (ranked.filter workable).Pairwise (worklistOrder localeCompare).le := by
    refine ((pairwise_rankedHotspots localeCompare store options).filter workable).imp_of_mem ?_
    intro a b ha hb hle
    have hready : a.readiness = b.readiness :=
      (of_decide_eq_true (List.mem_filter.mp ha).2).trans (of_decide_eq_true (List.mem_filter.mp hb).2).symm
    change (worklistOrder localeCompare).compare a b ≤ 0
    rw [worklistOrder_of_rank_eq localeCompare hready]
    exact hle
  have hsplit := Comparator.sort_eq_append (c := worklistOrder localeCompare) (p := workable) (l := ranked) ?_
  · rw [hsplit, Comparator.sort_eq_self hsorted, hfilter, sortedManual]
    simp only [workable, decide_not]
    rfl
  · intro a _ b hb ha hnot
    refine worklistOrder_of_rank_lt localeCompare ?_
    obtain ⟨hotspot, _, rfl⟩ := List.mem_map.mp hb
    have hnot := of_decide_eq_false hnot
    rw [of_decide_eq_true ha]
    rw [readiness_rankedHotspot] at hnot ⊢
    split
    · next hle => exact absurd (if_pos hle) hnot
    · decide

/-- The worklist is the removals, then the workable hotspots as ranked, then
the manual ones. -/
theorem sort_worklist :
    (worklistOrder localeCompare).sort
        (safeRemovals store ++ rankedHotspots store (hotspotReport localeCompare store options) (ceilingOf options)) =
      sortedRemovals localeCompare store ++
        ((boundedHotspots localeCompare store options).map (rankedHotspot store (ceilingOf options)) ++
          sortedManual localeCompare store options) := by
  rw [← sort_rankedHotspots]
  refine Comparator.sort_append fun a ha b hb => worklistOrder_of_rank_lt localeCompare ?_
  obtain ⟨hotspot, _, rfl⟩ := List.mem_map.mp hb
  rw [readiness_of_mem_safeRemovals store ha]
  exact rank_pos_of_rankedHotspot store _ hotspot

theorem plan_items_eq :
    (plan localeCompare store options).items =
      (sortedRemovals localeCompare store ++
        ((boundedHotspots localeCompare store options).map (rankedHotspot store (ceilingOf options)) ++
          sortedManual localeCompare store options)).take (limitOf options) := by
  rw [← sort_worklist]
  rfl

theorem sortedRemovals_ids :
    ((sortedRemovals localeCompare store).map fun item => item.id).Perm ((deadExports store).map SymbolRef.id) := by
  refine ((Comparator.sort_perm _ _).map _).trans ?_
  rw [safeRemovals, List.map_map]
  rfl

theorem hotspot_ids :
    ((boundedHotspots localeCompare store options).map (fun hotspot => hotspot.id) ++
        (sortedManual localeCompare store options).map fun item => item.id).Perm
      ((hotspotReport localeCompare store options).hotspots.map fun hotspot => hotspot.id) := by
  have hperm := ((worklistOrder localeCompare).sort_perm
    (rankedHotspots store (hotspotReport localeCompare store options) (ceilingOf options))).map fun item => item.id
  rw [sort_rankedHotspots, List.map_append, List.map_map, rankedHotspots, List.map_map] at hperm
  exact hperm

theorem plan_ids :
    ((plan localeCompare store options).items.map fun item => item.id) =
      ((sortedRemovals localeCompare store).map (fun item => item.id) ++
        ((boundedHotspots localeCompare store options).map (fun hotspot => hotspot.id) ++
          (sortedManual localeCompare store options).map fun item => item.id)).take (limitOf options) := by
  rw [plan_items_eq, List.map_take, List.map_append, List.map_append, List.map_map]
  rfl

/-- A dead export among the hotspots is workable: nothing calls it. -/
theorem mem_bounded_of_dead {ref : SymbolRef} (hdead : ref ∈ deadExports store)
    (h : ref.id ∈ (hotspotReport localeCompare store options).hotspots.map fun hotspot => hotspot.id) :
    ref.id ∈ (boundedHotspots localeCompare store options).map fun hotspot => hotspot.id := by
  obtain ⟨hotspot, hhotspot, hid⟩ := List.mem_map.mp h
  refine List.mem_map.mpr ⟨hotspot, List.mem_filter.mpr ⟨hhotspot, ?_⟩, hid⟩
  rw [hid, blastRadius_of_dead hdead]
  exact decide_eq_true (Nat.zero_le _)

/-- The items of a plan are distinct when every dead export among the workable
hotspots stands too far behind the removals to be returned. -/
theorem nodup_plan_iff :
    ((plan localeCompare store options).items.map fun item => item.id).Nodup ↔
      ∀ ref ∈ deadExports store,
        ref.id ∈ (boundedHotspots localeCompare store options).map (fun hotspot => hotspot.id) →
        limitOf options ≤ (deadExports store).length +
          ((boundedHotspots localeCompare store options).map fun hotspot => hotspot.id).idxOf ref.id := by
  have hremovals := sortedRemovals_ids localeCompare store
  have hhotspots := hotspot_ids localeCompare store options
  have hlength : ((sortedRemovals localeCompare store).map fun item => item.id).length = (deadExports store).length := by
    rw [hremovals.length_eq, List.length_map]
  rw [plan_ids, nodup_take_append_iff (hremovals.nodup_iff.mpr (nodup_deadExports store))
    (hhotspots.nodup_iff.mpr (nodup_hotspots localeCompare store _)), hlength]
  constructor
  · intro h ref hdead hbounded
    have hle := h ref.id (hremovals.mem_iff.mpr (List.mem_map_of_mem hdead)) (List.mem_append_left _ hbounded)
    rwa [List.idxOf_append, if_pos hbounded] at hle
  · intro h id hid hmem
    obtain ⟨ref, hdead, rfl⟩ := List.mem_map.mp (hremovals.mem_iff.mp hid)
    have hbounded := mem_bounded_of_dead localeCompare store options hdead (hhotspots.mem_iff.mp hmem)
    rw [List.idxOf_append, if_pos hbounded]
    exact h ref hdead hbounded

/-- The auto-applicable items of a plan are the first removals. -/
theorem mem_plan_autoApplicable {item : CampaignItem} :
    item ∈ (plan localeCompare store options).items ∧ item.readiness = .autoApplicable ↔
      item ∈ (sortedRemovals localeCompare store).take (limitOf options) := by
  have hremoval : ∀ item ∈ sortedRemovals localeCompare store, item.readiness = .autoApplicable :=
    fun item hitem => readiness_of_mem_safeRemovals store (Comparator.mem_sort.mp hitem)
  rw [plan_items_eq, List.take_append, List.mem_append]
  constructor
  · rintro ⟨hitem | hitem, hready⟩
    · exact hitem
    · have hmem := List.mem_of_mem_take hitem
      rw [← sort_rankedHotspots, Comparator.mem_sort] at hmem
      obtain ⟨hotspot, _, rfl⟩ := List.mem_map.mp hmem
      have hrank := rank_pos_of_rankedHotspot store (ceilingOf options) hotspot
      rw [hready] at hrank
      exact absurd hrank (lt_irrefl _)
  · intro hitem
    exact ⟨Or.inl hitem, hremoval item (List.mem_of_mem_take hitem)⟩

end Worklist

/-- The items of a plan are distinct exactly when no dead export that is also a
workable hotspot is ranked early enough to be returned twice; and no removal it
returns was measured either exactly when none of the first dead exports was. -/
theorem plan_distinct_iff (localeCompare : Comparator String) (store : KuzuStore) (options : CampaignOptions) :
    (((plan localeCompare store options).items.map fun item => item.id).Nodup ↔
      ∀ ref ∈ deadExports store,
        ref.id ∈ (boundedHotspots localeCompare store options).map (fun hotspot => hotspot.id) →
        limitOf options ≤ (deadExports store).length +
          ((boundedHotspots localeCompare store options).map fun hotspot => hotspot.id).idxOf ref.id) ∧
    ((((plan localeCompare store options).items.map fun item => item.id).Nodup ∧
        ∀ item ∈ (plan localeCompare store options).items, item.readiness = .autoApplicable → ¬ Measured item.metadata) ↔
      ∀ removal ∈ (sortedRemovals localeCompare store).take (limitOf options), ¬ Measured removal.metadata) := by
  have hnodup := nodup_plan_iff localeCompare store options
  refine ⟨hnodup, fun h removal hremoval => ?_, fun h => ⟨hnodup.mpr fun ref hdead hbounded => ?_, ?_⟩⟩
  · obtain ⟨hitem, hready⟩ := (mem_plan_autoApplicable localeCompare store options).mpr hremoval
    exact h.2 removal hitem hready
  · by_contra hlt
    -- all removals are returned, the one that is a measured hotspot among them
    have hremovals := sortedRemovals_ids localeCompare store
    have hlength : (sortedRemovals localeCompare store).length ≤ limitOf options := by
      have heq := hremovals.length_eq
      rw [List.length_map, List.length_map] at heq
      omega
    rw [List.take_of_length_le hlength] at h
    obtain ⟨hotspot, hhotspot, hid⟩ := List.mem_map.mp hbounded
    have hmeasured := measured_of_dead_hotspot hdead (List.mem_of_mem_filter hhotspot) hid
    exact h _ (Comparator.mem_sort.mpr (List.mem_map_of_mem hdead)) hmeasured
  · intro item hitem hready
    exact h item ((mem_plan_autoApplicable localeCompare store options).mp ⟨hitem, hready⟩)

/-- An exported function that nothing refers to statically, and that the
profile saw running below `main`. -/
def dispatchedStore : KuzuStore :=
  let main : GraphNode := { id := "main", kind := .Function, name := "main", filePath := "src/main.ts" }
  let handle : GraphNode :=
    { id := "handle"
      kind := .Function
      name := "handle"
      filePath := "src/plugin.ts"
      exported := some true
      metadata := some (OrderedMap.ofList [("runtime", .obj [("selfMs", .num 5), ("samples", .num 4)])]) }
  (KuzuStore.initSchema.load [main, handle]
    [{ id := "CALLS_RUNTIME:main->handle", kind := .CALLS_RUNTIME, source := "main", target := "handle" }]).1

theorem plan_not_distinct_dispatched :
    ¬ ((plan .ofOrder dispatchedStore {}).items.map fun item => item.id).Nodup ∧
      ¬ ∀ item ∈ (plan .ofOrder dispatchedStore {}).items,
        item.readiness = .autoApplicable → ¬ Measured item.metadata := by
  decide +kernel

end CampaignPlanner

end codespine.query
