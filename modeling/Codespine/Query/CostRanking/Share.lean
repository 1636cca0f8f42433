import Codespine.Lib.Attribution.SingleEntry
import Codespine.Query.CostModel.Frontier
import Codespine.Query.CostRanking.Linear

open codespine.schema codespine.store attribution

namespace codespine.query.GraphQuery

variable {localeCompare : Comparator String} {nodes : List StoredNode} {flow : FlowEdges}
  {manifest : Option RuntimeManifest} {metric : CostMetric} {limit : Option JsNumber}

/-- The same symbols, as another run may measure them: those that took nothing
take nothing again, and nothing takes less than nothing. -/
structure Remeasures (metric : CostMetric) (nodes other : List StoredNode) : Prop where
  ids : (other.map StoredNode.id).Perm (nodes.map StoredNode.id)
  nonneg : ∀ node ∈ other, 0 ≤ runtimeValue node.metadata (metricKey metric)
  unmeasured : ∀ node ∈ nodes, runtimeValue node.metadata (metricKey metric) = 0 →
    ∀ one ∈ other, one.id = node.id → runtimeValue one.metadata (metricKey metric) = 0

/-- No symbol bears the cost of a measured one more than once. -/
def BornOnce (nodes : List StoredNode) (edges : List CallEdge) (metric : CostMetric) : Prop :=
  ∀ node ∈ nodes, ∀ source ∈ nodes, 0 < runtimeValue source.metadata (metricKey metric) →
    (callNetwork nodes edges metric).multiplicity node.id source.id ≤ 1

theorem mem_rankByCost_nodes {ref : CostRef}
    (href : ref ∈ (rankByCost localeCompare nodes flow manifest metric limit).nodes) :
    ∃ node ∈ nodes, toCostRef node (computeCostModel nodes flow.edges metric) = ref := by
  have hfiltered := Comparator.mem_sort.mp (List.mem_of_mem_take href)
  simpa using (List.mem_filter.mp hfiltered).1

/-- The first node of a report has the highest inclusive cost there is. -/
theorem exists_dearest {node : StoredNode} (hnode : node ∈ nodes)
    (hpos : 0 < (computeCostModel nodes flow.edges metric).inclusiveCost.getD node.id 0) :
    ∃ ref ∈ (rankByCost localeCompare nodes flow manifest metric limit).nodes,
      (computeCostModel nodes flow.edges metric).inclusiveCost.getD node.id 0 ≤ ref.inclusiveCost := by
  set model := computeCostModel nodes flow.edges metric with hmodel
  have hmem : toCostRef node model ∈
      (nodes.map fun node => toCostRef node model).filter fun ref => 0 < ref.inclusiveCost :=
    List.mem_filter.mpr ⟨List.mem_map_of_mem hnode, decide_eq_true hpos⟩
  have hsorted := (costOrder localeCompare).sort_pairwise
    ((nodes.map fun node => toCostRef node model).filter fun ref => 0 < ref.inclusiveCost)
  have hmem := (Comparator.mem_sort (c := costOrder localeCompare)).mpr hmem
  have hreport : (rankByCost localeCompare nodes flow manifest metric limit).nodes =
      ((costOrder localeCompare).sort ((nodes.map fun node => toCostRef node model).filter fun ref =>
        0 < ref.inclusiveCost)).take (clampLimit limit) := rfl
  rw [hreport]
  revert hsorted hmem
  generalize (costOrder localeCompare).sort _ = sorted
  intro hsorted hmem
  cases sorted with
  | nil => cases hmem
  | cons first rest =>
    have hfirst : first ∈ (first :: rest).take (clampLimit limit) := by
      rw [List.take_cons (clampLimit_pos limit)]
      exact List.mem_cons_self
    refine ⟨first, hfirst, ?_⟩
    rcases List.mem_cons.mp hmem with heq | hrest
    · rw [← heq]
      rfl
    · have hle : (costOrder localeCompare).compare first (toCostRef node model) ≤ 0 :=
        List.rel_of_pairwise_cons hsorted hrest
      have hle := Comparator.compare_le_of_thenBy (Comparator.compare_le_of_thenBy hle)
      change -first.inclusiveCost - -(model.inclusiveCost.getD node.id 0) ≤ 0 at hle
      linarith

/-- Where a node bears more than the total, the report shows a share above one. -/
theorem exists_share_gt_one (hpos : 0 < (computeCostModel nodes flow.edges metric).totalSelf) {node : StoredNode}
    (hnode : node ∈ nodes) (hmore : (computeCostModel nodes flow.edges metric).totalSelf <
      (computeCostModel nodes flow.edges metric).inclusiveCost.getD node.id 0) :
    ∃ ref ∈ (rankByCost localeCompare nodes flow manifest metric limit).nodes, 1 < ref.shareOfTotal := by
  obtain ⟨ref, href, hle⟩ := @exists_dearest localeCompare _ _ manifest _ limit _ hnode (hpos.trans hmore)
  obtain ⟨dearest, _, rfl⟩ := mem_rankByCost_nodes href
  have hdearest := hmore.trans_le hle
  refine ⟨_, href, ?_⟩
  unfold toCostRef at hdearest ⊢
  dsimp only at hdearest ⊢
  rw [if_pos hpos]
  exact (one_lt_div hpos).mpr hdearest

section Shares

variable (hdistinct : (nodes.map StoredNode.id).Nodup)
  (hmeasured : ∀ node ∈ nodes, 0 ≤ runtimeValue node.metadata (metricKey metric))
  (hweight : ∀ edge ∈ flow.edges, 0 ≤ edge.count)

omit hdistinct in
include hmeasured in
theorem own_nonneg (id : String) : 0 ≤ (callNetwork nodes flow.edges metric).own id := by
  refine List.sum_nonneg fun value hvalue => ?_
  obtain ⟨node, hnode, rfl⟩ := List.mem_map.mp hvalue
  exact hmeasured node (List.mem_of_mem_filter hnode)

include hdistinct hmeasured hweight

theorem inclusiveCost_nonneg {node : StoredNode} (hnode : node ∈ nodes) :
    0 ≤ (computeCostModel nodes flow.edges metric).inclusiveCost.getD node.id 0 := by
  have hsolves := inclusiveCost_solves flow.edges metric hdistinct
  refine hsolves.nonneg (fun id _ => own_nonneg hmeasured id) (fun e he => ?_)
    (List.mem_toFinset.mpr (List.mem_map_of_mem hnode))
  obtain ⟨edge, hedge, rfl⟩ := List.mem_map.mp (Multiset.mem_coe.mp he)
  exact hweight edge (List.mem_of_mem_filter hedge)

/-- A share is a fraction exactly when the inclusive cost is within the total. -/
theorem shareOfTotal_mem_iff {node : StoredNode} (hnode : node ∈ nodes) :
    (0 ≤ (toCostRef node (computeCostModel nodes flow.edges metric)).shareOfTotal ∧
      (toCostRef node (computeCostModel nodes flow.edges metric)).shareOfTotal ≤ 1) ↔
    (0 < (computeCostModel nodes flow.edges metric).totalSelf →
      (computeCostModel nodes flow.edges metric).inclusiveCost.getD node.id 0 ≤
        (computeCostModel nodes flow.edges metric).totalSelf) := by
  have hnonneg := inclusiveCost_nonneg hdistinct hmeasured hweight hnode
  simp only [toCostRef]
  split
  · next hpos =>
    rw [div_le_one hpos]
    exact ⟨fun h _ => h.2, fun h => ⟨div_nonneg hnonneg hpos.le, h hpos⟩⟩
  · next hzero => exact ⟨fun _ hpos => absurd hpos hzero, fun _ => ⟨le_refl _, zero_le_one⟩⟩

/-- A report shows fractions when no node bears more than the total. -/
theorem shares_of_le_total (hle : ∀ node ∈ nodes, (computeCostModel nodes flow.edges metric).inclusiveCost.getD node.id 0 ≤
      (computeCostModel nodes flow.edges metric).totalSelf) :
    ∀ ref ∈ (rankByCost localeCompare nodes flow manifest metric limit).nodes,
      0 ≤ ref.shareOfTotal ∧ ref.shareOfTotal ≤ 1 := by
  intro ref href
  obtain ⟨node, hnode, rfl⟩ := mem_rankByCost_nodes href
  exact (shareOfTotal_mem_iff hdistinct hmeasured hweight hnode).mpr fun _ => hle node hnode

end Shares

section Remeasured

variable {other : List StoredNode} (hdistinct : (nodes.map StoredNode.id).Nodup)
  (hmeasured : ∀ node ∈ nodes, 0 ≤ runtimeValue node.metadata (metricKey metric)) (hother : Remeasures metric nodes other)

include hdistinct hother

/-- What a symbol bears in another measurement: the multiplicities are those of
the graph, the costs the new ones. -/
theorem inclusiveCost_remeasured {node : StoredNode} (hnode : node ∈ other) :
    (computeCostModel other flow.edges metric).inclusiveCost.getD node.id 0 =
      ∑ id ∈ (callNetwork other flow.edges metric).verts,
        (callNetwork nodes flow.edges metric).multiplicity node.id id * (callNetwork other flow.edges metric).own id := by
  have hdistinct' := hother.ids.nodup_iff.mpr hdistinct
  have hsolves := inclusiveCost_solves flow.edges metric hdistinct'
  have hvert : node.id ∈ (callNetwork other flow.edges metric).verts :=
    List.mem_toFinset.mpr (List.mem_map_of_mem hnode)
  refine (hsolves.eq_sum_multiplicity hvert).trans (Finset.sum_congr rfl fun id _ => ?_)
  rw [callNetwork_withOwn hother.ids, Network.multiplicity_withOwn]

include hmeasured in
theorem le_total_of_bornOnce (honce : BornOnce nodes flow.edges metric) {node : StoredNode} (hnode : node ∈ other) :
    (computeCostModel other flow.edges metric).inclusiveCost.getD node.id 0 ≤
      (computeCostModel other flow.edges metric).totalSelf := by
  have hdistinct' := hother.ids.nodup_iff.mpr hdistinct
  rw [inclusiveCost_remeasured hdistinct hother hnode, totalSelf_eq hdistinct', Network.total]
  refine Finset.sum_le_sum fun id hid => ?_
  obtain ⟨one, hone, rfl⟩ := List.mem_map.mp (List.mem_toFinset.mp hid)
  obtain ⟨source, hsource, hsourceId⟩ := List.mem_map.mp (hother.ids.mem_iff.mp (List.mem_map_of_mem hone))
  obtain ⟨bearer, hbearer, hbearerId⟩ := List.mem_map.mp (hother.ids.mem_iff.mp (List.mem_map_of_mem hnode))
  have hown : (callNetwork other flow.edges metric).own one.id = _ := own_of_mem hdistinct' hone
  rw [hown]
  rcases (hother.nonneg one hone).eq_or_lt with hzero | hpos
  · rw [← hzero, mul_zero]
  · refine mul_le_of_le_one_left hpos.le ?_
    rw [← hbearerId, ← hsourceId]
    refine honce bearer hbearer source hsource (lt_of_le_of_ne (hmeasured source hsource) fun hzero => hpos.ne' ?_)
    exact hother.unmeasured source hsource hzero.symm one hone hsourceId.symm

end Remeasured

/-- The same symbols, of which only one was measured. -/
def onlyMeasured (nodes : List StoredNode) (id : String) : List StoredNode :=
  nodes.map fun node => if node.id = id then node else { node with metadata := ∅ }

section OnlyMeasured

variable (hmeasured : ∀ node ∈ nodes, 0 ≤ runtimeValue node.metadata (metricKey metric))

theorem ids_onlyMeasured (nodes : List StoredNode) (id : String) :
    (onlyMeasured nodes id).map StoredNode.id = nodes.map StoredNode.id := by
  rw [onlyMeasured, List.map_map]
  refine List.map_congr_left fun node _ => ?_
  rw [Function.comp_apply]
  split <;> rfl

theorem runtimeValue_empty (key : String) : runtimeValue ∅ key = 0 := rfl

include hmeasured in
theorem remeasures_onlyMeasured (hdistinct : (nodes.map StoredNode.id).Nodup) (id : String) :
    Remeasures metric nodes (onlyMeasured nodes id) := by
  have hrow : ∀ one ∈ onlyMeasured nodes id, ∃ node ∈ nodes, node.id = one.id ∧
      (one = node ∨ runtimeValue one.metadata (metricKey metric) = 0) := by
    intro one hone
    obtain ⟨node, hnode, rfl⟩ := List.mem_map.mp hone
    split
    · exact ⟨node, hnode, rfl, Or.inl rfl⟩
    · exact ⟨node, hnode, rfl, Or.inr (runtimeValue_empty _)⟩
  constructor
  case ids => exact List.Perm.of_eq (ids_onlyMeasured nodes id)
  case nonneg =>
    intro one hone
    obtain ⟨node, hnode, _, rfl | hzero⟩ := hrow one hone
    · exact hmeasured _ hnode
    · exact hzero.ge
  case unmeasured =>
    intro node hnode hzero one hone hid
    obtain ⟨other, hother, hotherId, rfl | hone⟩ := hrow one hone
    · rwa [List.inj_on_of_nodup_map hdistinct hother hnode hid]
    · exact hone

/-- All of the cost is that of the one symbol. -/
theorem own_onlyMeasured (edges : List CallEdge) (hdistinct : (nodes.map StoredNode.id).Nodup) {source : StoredNode}
    (hsource : source ∈ nodes) (id : String) : (callNetwork (onlyMeasured nodes source.id) edges metric).own id =
      if id = source.id then runtimeValue source.metadata (metricKey metric) else 0 := by
  have hdistinct' : ((onlyMeasured nodes source.id).map StoredNode.id).Nodup := by rwa [ids_onlyMeasured]
  by_cases hid : id ∈ nodes.map StoredNode.id
  · obtain ⟨node, hnode, rfl⟩ := List.mem_map.mp hid
    have hrow := List.mem_map_of_mem (f := fun node => if node.id = source.id then node else { node with metadata := ∅ }) hnode
    split
    · next heq =>
      obtain rfl := List.inj_on_of_nodup_map hdistinct hnode hsource heq
      rw [if_pos rfl] at hrow
      exact own_of_mem hdistinct' hrow
    · next hne =>
      rw [if_neg hne] at hrow
      exact own_of_mem hdistinct' hrow
  · have hne : id ≠ source.id := by
      rintro rfl
      exact hid (List.mem_map_of_mem hsource)
    rw [if_neg hne]
    refine own_eq_zero fun hvert => hid ?_
    rw [← ids_onlyMeasured nodes source.id]
    exact List.mem_toFinset.mp hvert

variable (hdistinct : (nodes.map StoredNode.id).Nodup) {source : StoredNode} (hsource : source ∈ nodes)

include hsource in
theorem mem_verts_onlyMeasured : source.id ∈ (callNetwork (onlyMeasured nodes source.id) flow.edges metric).verts :=
  List.mem_toFinset.mpr (ids_onlyMeasured nodes source.id ▸ List.mem_map_of_mem hsource)

include hdistinct hsource

theorem totalSelf_onlyMeasured : (computeCostModel (onlyMeasured nodes source.id) flow.edges metric).totalSelf =
    runtimeValue source.metadata (metricKey metric) := by
  have hdistinct' : ((onlyMeasured nodes source.id).map StoredNode.id).Nodup := by rwa [ids_onlyMeasured]
  rw [totalSelf_eq hdistinct', Network.total]
  simp only [own_onlyMeasured flow.edges hdistinct hsource, Finset.sum_ite_eq', if_pos (mem_verts_onlyMeasured hsource)]

include hmeasured in
/-- So the others bear it as often as they reach it. -/
theorem inclusiveCost_onlyMeasured {bearer : StoredNode} (hbearer : bearer ∈ onlyMeasured nodes source.id) :
    (computeCostModel (onlyMeasured nodes source.id) flow.edges metric).inclusiveCost.getD bearer.id 0 =
      (callNetwork nodes flow.edges metric).multiplicity bearer.id source.id *
        runtimeValue source.metadata (metricKey metric) := by
  rw [inclusiveCost_remeasured hdistinct (remeasures_onlyMeasured hmeasured hdistinct source.id) hbearer]
  simp only [own_onlyMeasured flow.edges hdistinct hsource, mul_ite, mul_zero, Finset.sum_ite_eq',
    if_pos (mem_verts_onlyMeasured hsource)]

end OnlyMeasured

/-- The shares of a report are fractions of the total, whatever the measured
symbols take, exactly when no symbol bears the cost of one of them more than
once; so they are on every graph of calls whose cycles are entered at no more
than one member each. -/
theorem shareOfTotal_le_one_iff (hdistinct : (nodes.map StoredNode.id).Nodup)
    (hmeasured : ∀ node ∈ nodes, 0 ≤ runtimeValue node.metadata (metricKey metric))
    (hweight : ∀ edge ∈ flow.edges, 0 ≤ edge.count) :
    ((∀ other, Remeasures metric nodes other →
        ∀ ref ∈ (rankByCost localeCompare other flow manifest metric limit).nodes,
          0 ≤ ref.shareOfTotal ∧ ref.shareOfTotal ≤ 1) ↔ BornOnce nodes flow.edges metric) ∧
      (BornOnce nodes flow.edges metric → ∀ ref ∈ (rankByCost localeCompare nodes flow manifest metric limit).nodes,
        0 ≤ ref.shareOfTotal ∧ ref.shareOfTotal ≤ 1) ∧
      ((callNetwork nodes flow.edges metric).SingleEntry → BornOnce nodes flow.edges metric) := by
  have hself : Remeasures metric nodes nodes := by
    refine ⟨List.Perm.refl _, hmeasured, fun node hnode hzero one hone hid => ?_⟩
    rwa [List.inj_on_of_nodup_map hdistinct hone hnode hid]
  have hfractions : BornOnce nodes flow.edges metric → ∀ other, Remeasures metric nodes other →
      ∀ ref ∈ (rankByCost localeCompare other flow manifest metric limit).nodes,
        0 ≤ ref.shareOfTotal ∧ ref.shareOfTotal ≤ 1 := by
    intro honce other hother
    refine shares_of_le_total (hother.ids.nodup_iff.mpr hdistinct) hother.nonneg hweight fun node hnode => ?_
    exact le_total_of_bornOnce hdistinct hmeasured hother honce hnode
  refine ⟨⟨fun hshares => ?_, hfractions⟩, fun honce => hfractions honce nodes hself, ?_⟩
  · -- measured alone, a symbol whose cost is borne more than once is borne more than in full
    intro node hnode source hsource hpos
    by_contra hmore
    have hother := remeasures_onlyMeasured hmeasured hdistinct source.id
    have htotal := @totalSelf_onlyMeasured _ flow metric hdistinct _ hsource
    obtain ⟨bearer, hbearer, hbearerId⟩ := List.mem_map.mp (hother.ids.mem_iff.mpr (List.mem_map_of_mem hnode))
    have hborne := @inclusiveCost_onlyMeasured _ flow metric hmeasured hdistinct _ hsource _ hbearer
    obtain ⟨ref, href, hshare⟩ := @exists_share_gt_one localeCompare _ flow manifest metric limit (htotal ▸ hpos) _ hbearer
      (by rw [htotal, hborne, hbearerId]; exact (lt_mul_iff_one_lt_left hpos).mpr (not_le.mp hmore))
    exact absurd (hshares _ hother ref href).2 (not_le.mpr hshare)
  · intro hentry node hnode source hsource _
    have harcs : ∀ e ∈ (callNetwork nodes flow.edges metric).arcs, 0 ≤ e.weight := by
      intro e he
      obtain ⟨edge, hedge, rfl⟩ := List.mem_map.mp (Multiset.mem_coe.mp he)
      exact hweight edge (List.mem_of_mem_filter hedge)
    exact Network.multiplicity_le_one harcs hentry (List.mem_toFinset.mpr (List.mem_map_of_mem hnode))
      (List.mem_toFinset.mpr (List.mem_map_of_mem hsource))

/-- A cycle of two functions, a caller into each of them, and their caller. -/
def twoEntryNodes : List StoredNode :=
  [measuredNode "first" 5, measuredNode "second" 5, measuredNode "left" 0, measuredNode "right" 0,
    measuredNode "top" 0]

def twoEntryEdges : List CallEdge :=
  [⟨"first", "second", 1⟩, ⟨"second", "first", 1⟩, ⟨"left", "first", 1⟩, ⟨"right", "second", 1⟩,
    ⟨"top", "left", 1⟩, ⟨"top", "right", 1⟩]

/-- On a cycle with one entry the shares are fractions in every measurement. -/
theorem shareOfTotal_le_one_iff_cycle : (callNetwork cycleNodes cycleEdges .selfTime).SingleEntry ∧
    ∀ other, Remeasures .selfTime cycleNodes other →
      ∀ ref ∈ (rankByCost .ofOrder other ⟨cycleEdges, .static, false⟩ none .selfTime none).nodes,
        0 ≤ ref.shareOfTotal ∧ ref.shareOfTotal ≤ 1 := by
  have hentry : (callNetwork cycleNodes cycleEdges .selfTime).SingleEntry := by
    intro a b hsame ha hb
    rw [← externalInbound_eq (by decide)] at ha hb
    exact singleEntry_of_tables (by decide) (by decide +kernel) a b hsame ha hb
  obtain ⟨hiff, _, honce⟩ := @shareOfTotal_le_one_iff .ofOrder cycleNodes ⟨cycleEdges, .static, false⟩ none .selfTime none
    (by decide) (by decide +kernel) (by decide +kernel)
  exact ⟨hentry, hiff.mpr (honce hentry)⟩

/-- Each caller takes over the whole cost of the cycle, so their caller bears
it twice. -/
theorem shareOfTotal_two_entries :
    ¬ ((twoEntryNodes.map StoredNode.id).Nodup →
      (∀ node ∈ twoEntryNodes, 0 ≤ runtimeValue node.metadata (metricKey .selfTime)) →
      (∀ edge ∈ twoEntryEdges, 0 ≤ edge.count) →
      ∀ ref ∈ (rankByCost .ofOrder twoEntryNodes ⟨twoEntryEdges, .static, false⟩ none .selfTime none).nodes,
        0 ≤ ref.shareOfTotal ∧ ref.shareOfTotal ≤ 1) := by
  decide +kernel

end codespine.query.GraphQuery
