import Codespine.Lib.Ranking
import Codespine.Report.ReportData.Gather

open codespine.schema codespine.store codespine.query codespine.query.GraphQuery

namespace codespine.report.ReportData

variable (host : ReportHost) (localeCompare : Comparator String) (store : KuzuStore) (options : GatherOptions)

/-- The nodes behind `hubsByBlastRadius`. -/
def topHubs : List HotspotRef := (rankingBy localeCompare store .blastRadius).hotspots.take options.limit

/-- The nodes behind `hotspots`. -/
def topHotspots : List HotspotRef := (hottest localeCompare store).take options.limit

/-- The nodes behind `cost`. -/
def topCosts : List CostRef := (costReport localeCompare store).nodes.take options.limit

/-- The symbol is that of a node in both rankings. -/
def InBoth (symbol : ReportSymbol) : Prop :=
  ∃ ref ∈ topHubs localeCompare store options, toSymbol ref.toSymbolRef = symbol ∧
    ref.id ∈ (topHotspots localeCompare store options).map fun hotspot => hotspot.id

instance (symbol : ReportSymbol) : Decidable (InBoth localeCompare store options symbol) := by
  unfold InBoth
  infer_instance

/-- A hub has the file and the name of a hotspot. -/
def sharesKey (hub : HotspotRef) : Bool :=
  symbolKey (toSymbol hub.toSymbolRef) ∈
    (topHotspots localeCompare store options).map fun hotspot => symbolKey (toSymbol hotspot.toSymbolRef)

/-- A node with its cost. -/
def costOf (node : StoredNode) : CostRef :=
  toCostRef node (computeCostModel store.readNodes (readCallEdges store) .selfTime)

section Care

/-- The title of the finding that joins the two rankings. -/
def careTitle : String := "Change with the most care"

/-- The hubs whose key is that of a hotspot. -/
def overlapOf (data : GraphReportData) : List RankedSymbol :=
  data.hubsByBlastRadius.filter fun hub =>
    symbolKey hub.toReportSymbol ∈ data.hotspots.map fun hotspot => symbolKey hotspot.toReportSymbol

theorem concentration_title {data : GraphReportData} {finding : KeyFinding}
    (h : runtimeConcentrationFinding data = some finding) : finding.title ≠ careTitle := by
  unfold runtimeConcentrationFinding at h
  split at h
  · cases h
  · dsimp only at h
    split at h
    · cases h
    · rw [← Option.some.inj h]
      exact (by decide : "Runtime is concentrated" ≠ careTitle)

theorem cleanup_title {data : GraphReportData} {finding : KeyFinding} (h : cleanupFinding data = some finding) :
    finding.title ≠ careTitle := by
  unfold cleanupFinding at h
  split at h
  · cases h
  · rw [← Option.some.inj h]
    exact (by decide : "Dead code is safe to remove" ≠ careTitle)

/-- The finding is made when some hub shares a key, and is about the first that
do. -/
theorem care_finding_iff {data : GraphReportData} {finding : KeyFinding}
    (hmeasured : data.enriched = false → data.hotspots = []) :
    changeRiskFinding host data = some finding ∧ finding.title = careTitle ↔
      overlapOf data ≠ [] ∧ finding =
        { title := careTitle
          detail := "high blast radius and among the hottest functions — the costliest places to introduce a regression."
          tone := .risk
          symbols := ((overlapOf data).take KEY_FINDING_SYMBOLS).map RankedSymbol.toReportSymbol } := by
  have hcondition : overlapOf data ≠ [] → data.enriched = true ∧ 0 < data.hotspots.length ∧ 0 < (overlapOf data).length := by
    intro hoverlap
    obtain ⟨hub, hhub⟩ := List.exists_mem_of_ne_nil _ hoverlap
    obtain ⟨hotspot, hhotspot, _⟩ := List.mem_map.mp (of_decide_eq_true (List.mem_filter.mp hhub).2)
    refine ⟨?_, List.length_pos_of_mem hhotspot, List.length_pos_of_mem hhub⟩
    by_contra hnot
    rw [hmeasured (Bool.eq_false_of_not_eq_true hnot)] at hhotspot
    exact List.not_mem_nil hhotspot
  unfold changeRiskFinding
  split
  · next hnone =>
    have hempty : overlapOf data = [] := by rw [overlapOf, hnone]; rfl
    exact iff_of_false (fun h => nomatch h.1) fun h => h.1 hempty
  · dsimp only
    by_cases hoverlap : overlapOf data = []
    · have hlength : ¬ (data.enriched = true ∧ 0 < data.hotspots.length ∧ 0 < (overlapOf data).length) := by
        simp [hoverlap]
      rw [overlapOf] at hlength
      rw [if_neg hlength]
      refine iff_of_false (fun h => ?_) fun h => h.1 hoverlap
      have htitle := h.2
      rw [← Option.some.inj h.1] at htitle
      exact (by decide : "Highest blast radius" ≠ careTitle) htitle
    · have hmade := hcondition hoverlap
      rw [overlapOf] at hmade
      rw [if_pos hmade, Option.some.injEq]
      constructor
      · rintro ⟨rfl, -⟩
        exact ⟨hoverlap, rfl⟩
      · rintro ⟨-, rfl⟩
        exact ⟨rfl, rfl⟩

/-- What is said of the symbols of the finding is said of the first hubs that
share a key. -/
theorem care_symbols_iff {data : GraphReportData} (hmeasured : data.enriched = false → data.hotspots = [])
    (Q : ReportSymbol → Prop) :
    (∀ finding ∈ findingsOf host data, finding.title = careTitle → ∀ symbol ∈ finding.symbols, Q symbol) ↔
      ∀ hub ∈ (overlapOf data).take KEY_FINDING_SYMBOLS, Q hub.toReportSymbol := by
  have hcare : (∀ finding ∈ findingsOf host data, finding.title = careTitle → ∀ symbol ∈ finding.symbols, Q symbol) ↔
      ∀ finding, changeRiskFinding host data = some finding → finding.title = careTitle →
        ∀ symbol ∈ finding.symbols, Q symbol := by
    simp only [findingsOf, List.mem_filterMap, List.mem_cons, List.not_mem_nil, or_false, id_eq]
    constructor
    · exact fun h finding hfinding => h finding ⟨_, Or.inl rfl, hfinding⟩
    · rintro h finding ⟨_, rfl | rfl | rfl, hfinding⟩ htitle
      · exact h finding hfinding htitle
      · exact absurd htitle (concentration_title hfinding)
      · exact absurd htitle (cleanup_title hfinding)
  rw [hcare]
  constructor
  · intro h hub hhub
    have hoverlap : overlapOf data ≠ [] := List.ne_nil_of_mem (List.mem_of_mem_take hhub)
    obtain ⟨hfinding, htitle⟩ := (care_finding_iff host hmeasured).mpr ⟨hoverlap, rfl⟩
    exact h _ hfinding htitle _ (List.mem_map_of_mem hhub)
  · intro h finding hfinding htitle
    obtain ⟨_, rfl⟩ := (care_finding_iff host hmeasured).mp ⟨hfinding, htitle⟩
    exact List.forall_mem_map.mpr h

/-- The overlap, before the ids are dropped. -/
theorem overlapOf_gather : overlapOf (gather host localeCompare store options) =
    ((topHubs localeCompare store options).filter (sharesKey localeCompare store options)).map toRanked := by
  change (((topHubs localeCompare store options).map toRanked).filter fun hub => decide (symbolKey hub.toReportSymbol ∈
    ((topHotspots localeCompare store options).map toRanked).map fun hotspot => symbolKey hotspot.toReportSymbol)) = _
  rw [List.filter_map, List.map_map]
  rfl

theorem hotspots_gather_of_unmeasured (h : (gather host localeCompare store options).enriched = false) :
    (gather host localeCompare store options).hotspots = [] := by
  have hnone : hottest localeCompare store = [] := if_neg fun hmeasured => by
    have henriched : (costReport localeCompare store).enriched = false := h
    rw [henriched] at hmeasured
    cases hmeasured.1
  change ((hottest localeCompare store).take options.limit).map toRanked = []
  rw [hnone, List.take_nil, List.map_nil]

theorem mem_nodes_of_hotspots {ref : HotspotRef} {metric : HotspotMetric}
    (h : ref ∈ (rankingBy localeCompare store metric).hotspots) :
    ∃ node ∈ store.readNodes, ref.toSymbolRef = symbolOf node := by
  obtain ⟨entry, hentry, rfl⟩ := List.mem_map.mp h
  obtain ⟨node, hcandidate, rfl⟩ := List.mem_map.mp (List.mem_of_mem_filter (Comparator.mem_sort.mp (List.mem_of_mem_take hentry)))
  exact ⟨node, hcandidate, rfl⟩

theorem mem_nodes_of_hottest {ref : HotspotRef} (h : ref ∈ hottest localeCompare store) :
    ∃ node ∈ store.readNodes, ref.toSymbolRef = symbolOf node := by
  unfold hottest at h
  split at h
  · exact mem_nodes_of_hotspots localeCompare store h
  · cases h

/-- A node in both rankings shares its key with itself. -/
theorem sharesKey_of_inBoth {hub : HotspotRef} (h : InBoth localeCompare store options (toSymbol hub.toSymbolRef)) :
    sharesKey localeCompare store options hub = true := by
  obtain ⟨ref, href, hsymbol, hid⟩ := h
  obtain ⟨hotspot, hhotspot, hsame⟩ := List.mem_map.mp hid
  obtain ⟨node, hnode, hrefNode⟩ := mem_nodes_of_hotspots localeCompare store (List.mem_of_mem_take href)
  obtain ⟨other, hother, hotherNode⟩ := mem_nodes_of_hottest localeCompare store (List.mem_of_mem_take hhotspot)
  have heq : other = node := List.inj_on_of_nodup_map store.readNodes_nodup hother hnode
    ((congrArg SymbolRef.id hotherNode).symm.trans (hsame.trans (congrArg SymbolRef.id hrefNode)))
  refine decide_eq_true (List.mem_map.mpr ⟨hotspot, hhotspot, ?_⟩)
  rw [hotherNode, heq, ← hrefNode, hsymbol]

/-- The finding names nodes that are in both rankings, unless a hub that only
shares its key with a hotspot comes before three that are. -/
theorem care_inBoth_iff :
    (∀ finding ∈ (gather host localeCompare store options).keyFindings, finding.title = careTitle →
      ∀ symbol ∈ finding.symbols, InBoth localeCompare store options symbol) ↔
    ∀ pre hub post, topHubs localeCompare store options = pre ++ hub :: post → sharesKey localeCompare store options hub = true →
      ¬ InBoth localeCompare store options (toSymbol hub.toSymbolRef) →
        KEY_FINDING_SYMBOLS ≤
          (pre.filter fun other => InBoth localeCompare store options (toSymbol other.toSymbolRef)).length := by
  have hsymbols := care_symbols_iff host (hotspots_gather_of_unmeasured host localeCompare store options)
    (InBoth localeCompare store options)
  have hcut := @ranking.forall_take_filter_iff HotspotRef (sharesKey localeCompare store options)
    (fun hub => InBoth localeCompare store options (toSymbol hub.toSymbolRef)) (topHubs localeCompare store options)
    KEY_FINDING_SYMBOLS
  have hboth : ∀ pre : List HotspotRef, (pre.filter fun other => sharesKey localeCompare store options other &&
      decide (InBoth localeCompare store options (toSymbol other.toSymbolRef))) =
        pre.filter fun other => InBoth localeCompare store options (toSymbol other.toSymbolRef) := by
    intro pre
    refine List.filter_congr fun other _ => ?_
    rw [Bool.and_eq_right_iff_imp]
    exact fun h => sharesKey_of_inBoth localeCompare store options (of_decide_eq_true h)
  refine hsymbols.trans ?_
  rw [overlapOf_gather, ← List.map_take, List.forall_mem_map]
  refine (forall₂_congr fun ref _ => decide_eq_true_iff.symm).trans (hcut.trans ?_)
  refine forall₃_congr fun pre hub post => forall_congr' fun _ => forall_congr' fun _ => ?_
  rw [hboth pre, decide_eq_false_iff_not]

end Care

section Share

/-- The cost ranking, before it is cut off. -/
def rankedCosts : List CostRef :=
  (costOrder localeCompare).sort ((store.readNodes.map (costOf store)).filter fun ref => 0 < ref.inclusiveCost)

theorem topCosts_eq : topCosts localeCompare store options =
    (rankedCosts localeCompare store).take (min options.limit (clampLimit (some UNBOUNDED))) := by
  rw [← List.take_take]
  rfl

theorem inclusiveCost_le {a b : CostRef} (h : (costOrder localeCompare).le a b) : b.inclusiveCost ≤ a.inclusiveCost := by
  have hcost : -a.inclusiveCost - -b.inclusiveCost ≤ 0 :=
    Comparator.compare_le_of_thenBy (Comparator.compare_le_of_thenBy h)
  linarith

theorem mem_rankedCosts {ref : CostRef} : ref ∈ rankedCosts localeCompare store ↔
    (∃ node ∈ store.readNodes, costOf store node = ref) ∧ 0 < ref.inclusiveCost := by
  rw [rankedCosts, Comparator.mem_sort, List.mem_filter, List.mem_map, decide_eq_true_iff]

theorem shareOfTotal_costOf (node : StoredNode) : (costOf store node).shareOfTotal =
    if 0 < (gather host localeCompare store options).totalSelf
    then (costOf store node).inclusiveCost / (gather host localeCompare store options).totalSelf else 0 := rfl

/-- A cost entry of the name and file of a hotspot. -/
def isNamesake (ref : SymbolRef) (cost : CostRef) : Bool := cost.name = ref.name ∧ cost.filePath = ref.filePath

theorem hottestShare_gather {hottest : HotspotRef} (h : (topHotspots localeCompare store options).head? = some hottest) :
    hottestShare (gather host localeCompare store options) =
      ((topCosts localeCompare store options).find? (isNamesake hottest.toSymbolRef)).map fun cost => cost.shareOfTotal := by
  have hhead : (gather host localeCompare store options).hotspots.head? = some (toRanked hottest) := by
    change ((topHotspots localeCompare store options).map toRanked).head? = _
    rw [List.head?_map, h, Option.map_some]
  rw [hottestShare, hhead, Option.bind_some]
  change (((topCosts localeCompare store options).map toCostNode).find? _).map _ = _
  rw [List.find?_map, Option.map_map]
  rfl

/-- The cost entry of the hottest function has its name and file. -/
theorem isNamesake_costOf {hottest : HotspotRef} (hhottest : (topHotspots localeCompare store options).head? = some hottest)
    {node : StoredNode} (hnode : node ∈ store.readNodes) (hid : node.id = hottest.id) :
    isNamesake hottest.toSymbolRef (costOf store node) = true := by
  obtain ⟨other, hother, hsymbol⟩ := mem_nodes_of_hottest localeCompare store
    (List.mem_of_mem_take (List.mem_of_mem_head? hhottest))
  have heq : node = other := List.inj_on_of_nodup_map store.readNodes_nodup hnode hother
    (hid.trans (congrArg SymbolRef.id hsymbol))
  rw [hsymbol, heq]
  exact decide_eq_true ⟨rfl, rfl⟩

theorem mem_rankedCosts_of_mem_topCosts {cost : CostRef} (h : cost ∈ topCosts localeCompare store options) :
    cost ∈ rankedCosts localeCompare store := by
  rw [topCosts_eq] at h
  exact List.mem_of_mem_take h

/-- The listed namesake that is found costs the most of all. -/
theorem inclusiveCost_le_of_find {ref : SymbolRef} {first cost : CostRef}
    (hfind : (topCosts localeCompare store options).find? (isNamesake ref) = some first)
    (hcost : cost ∈ rankedCosts localeCompare store) (hnamesake : isNamesake ref cost = true) :
    cost.inclusiveCost ≤ first.inclusiveCost := by
  have hsorted : (rankedCosts localeCompare store).Pairwise (costOrder localeCompare).le :=
    (costOrder localeCompare).sort_pairwise _
  rw [topCosts_eq] at hfind
  exact inclusiveCost_le localeCompare (ranking.le_of_find?_take hsorted hfind hcost hnamesake)

/-- The verdict tells the share of the hottest function itself, unless a
namesake of it that is listed costs more. -/
theorem share_iff {hottest : HotspotRef} (hhottest : (topHotspots localeCompare store options).head? = some hottest)
    {node : StoredNode} (hnode : node ∈ store.readNodes) (hid : node.id = hottest.id) :
    (∀ share, hottestShare (gather host localeCompare store options) = some share →
        share = (costOf store node).shareOfTotal) ↔
      (0 < (gather host localeCompare store options).totalSelf → ∀ cost ∈ topCosts localeCompare store options,
        isNamesake hottest.toSymbolRef cost = true → cost.inclusiveCost ≤ (costOf store node).inclusiveCost) := by
  have hself := isNamesake_costOf localeCompare store options hhottest hnode hid
  rw [hottestShare_gather host localeCompare store options hhottest]
  constructor
  · intro hshare htotal cost hcost hnamesake
    obtain ⟨first, hfind⟩ := Option.isSome_iff_exists.mp (List.find?_isSome.mpr ⟨cost, hcost, hnamesake⟩)
    obtain ⟨⟨other, _, rfl⟩, _⟩ := (mem_rankedCosts localeCompare store).mp
        (mem_rankedCosts_of_mem_topCosts localeCompare store options (List.mem_of_find?_eq_some hfind))
    have heq := hshare (costOf store other).shareOfTotal (by rw [hfind, Option.map_some])
    rw [shareOfTotal_costOf host localeCompare store options, shareOfTotal_costOf host localeCompare store options,
      if_pos htotal, if_pos htotal, div_left_inj' htotal.ne'] at heq
    rw [← heq]
    exact inclusiveCost_le_of_find localeCompare store options hfind
      (mem_rankedCosts_of_mem_topCosts localeCompare store options hcost) hnamesake
  · intro hle share hshare
    obtain ⟨first, hfind, rfl⟩ := Option.map_eq_some_iff.mp hshare
    have hmem := List.mem_of_find?_eq_some hfind
    obtain ⟨⟨other, _, rfl⟩, hpos⟩ := (mem_rankedCosts localeCompare store).mp
      (mem_rankedCosts_of_mem_topCosts localeCompare store options hmem)
    rw [shareOfTotal_costOf host localeCompare store options, shareOfTotal_costOf host localeCompare store options]
    split
    · next htotal =>
      have hfirstLe := hle htotal _ hmem (List.find?_some hfind)
      have hnodeMem : costOf store node ∈ rankedCosts localeCompare store :=
        (mem_rankedCosts localeCompare store).mpr ⟨⟨node, hnode, rfl⟩, hpos.trans_le hfirstLe⟩
      rw [le_antisymm hfirstLe (inclusiveCost_le_of_find localeCompare store options hfind hnodeMem hself)]
    · rfl

end Share

/-- The two joins of the report are by node just when no node stands in for a
namesake of it. -/
theorem report_joins_iff :
    ((∀ finding ∈ (gather host localeCompare store options).keyFindings, finding.title = "Change with the most care" →
        ∀ symbol ∈ finding.symbols, ∃ ref ∈ topHubs localeCompare store options, toSymbol ref.toSymbolRef = symbol ∧
          ref.id ∈ (topHotspots localeCompare store options).map fun hotspot => hotspot.id) ∧
      ∀ hottest node share, (topHotspots localeCompare store options).head? = some hottest → node ∈ store.readNodes →
        node.id = hottest.id → hottestShare (gather host localeCompare store options) = some share →
          share = (costOf store node).shareOfTotal) ↔
    (∀ pre hub post, topHubs localeCompare store options = pre ++ hub :: post → sharesKey localeCompare store options hub = true →
      ¬ InBoth localeCompare store options (toSymbol hub.toSymbolRef) →
        KEY_FINDING_SYMBOLS ≤
          (pre.filter fun other => InBoth localeCompare store options (toSymbol other.toSymbolRef)).length) ∧
    ∀ hottest node, (topHotspots localeCompare store options).head? = some hottest → node ∈ store.readNodes →
      node.id = hottest.id → 0 < (gather host localeCompare store options).totalSelf →
        ∀ cost ∈ topCosts localeCompare store options, isNamesake hottest.toSymbolRef cost = true →
          cost.inclusiveCost ≤ (costOf store node).inclusiveCost := by
  refine and_congr (care_inBoth_iff host localeCompare store options) ?_
  constructor
  · intro h hottest node hhottest hnode hid
    exact (share_iff host localeCompare store options hhottest hnode hid).mp fun share =>
      h hottest node share hhottest hnode hid
  · intro h hottest node share hhottest hnode hid
    exact (share_iff host localeCompare store options hhottest hnode hid).mpr (h hottest node hhottest hnode hid) share

/-- A method with its file, line and time. -/
def methodNode (id name : String) (startLine : ℤ) (selfMs : ℚ) : GraphNode where
  id := id
  kind := .Method
  name := name
  filePath := "src/a.ts"
  range := some ⟨startLine, 0, startLine + 5, 0⟩
  metadata := some (OrderedMap.ofList [("runtime", .obj [("selfMs", .num selfMs)])])

/-- Two methods of one file: the first takes the time, the second is called. -/
def twoMethods (first second : String) : KuzuStore :=
  (KuzuStore.initSchema.load
    [methodNode "Method:src/a.ts#A@3" first 3 5, methodNode "Method:src/a.ts#B@20" second 20 0,
      { id := "Function:src/main.ts#main@1", kind := .Function, name := "main", filePath := "src/main.ts" }]
    [{ id := "CALLS:main->B", kind := .CALLS, source := "Function:src/main.ts#main@1", target := "Method:src/a.ts#B@20" }]).1

/-- A method is named as hot that only has the name of one. -/
theorem report_joins_namesakes : ¬ ∀ (host : ReportHost) (localeCompare : Comparator String) (store : KuzuStore)
    (options : GatherOptions),
    (∀ finding ∈ (gather host localeCompare store options).keyFindings, finding.title = "Change with the most care" →
        ∀ symbol ∈ finding.symbols, ∃ ref ∈ topHubs localeCompare store options, toSymbol ref.toSymbolRef = symbol ∧
          ref.id ∈ (topHotspots localeCompare store options).map fun hotspot => hotspot.id) ∧
      ∀ hottest node share, (topHotspots localeCompare store options).head? = some hottest → node ∈ store.readNodes →
        node.id = hottest.id → hottestShare (gather host localeCompare store options) = some share →
          share = (costOf store node).shareOfTotal := by
  intro hclaim
  let options : GatherOptions := ⟨"2026-01-01", "app", "out", 10⟩
  have hnamed := (hclaim plainHost Comparator.ofOrder (twoMethods "parse" "parse") options).1
  have hhubs := (care_symbols_iff plainHost (hotspots_gather_of_unmeasured plainHost Comparator.ofOrder
    (twoMethods "parse" "parse") options) (InBoth Comparator.ofOrder (twoMethods "parse" "parse") options)).mp hnamed
  exact absurd hhubs (by decide +kernel)

/-- Apart by name, the report keeps the two apart. -/
theorem report_joins_iff_apart : ∃ share,
    hottestShare (gather plainHost Comparator.ofOrder (twoMethods "parse" "render") ⟨"2026-01-01", "app", "out", 10⟩) =
      some share ∧
    ∃ node ∈ (twoMethods "parse" "render").readNodes, node.id = "Method:src/a.ts#A@3" ∧
      share = (costOf (twoMethods "parse" "render") node).shareOfTotal := by
  let options : GatherOptions := ⟨"2026-01-01", "app", "out", 10⟩
  let store := twoMethods "parse" "render"
  have hkeys : ∀ hub ∈ topHubs Comparator.ofOrder store options, sharesKey Comparator.ofOrder store options hub = false := by
    decide +kernel
  have hcosts : ∀ hottest ∈ topHotspots Comparator.ofOrder store options, ∀ node ∈ store.readNodes, node.id = hottest.id →
      ∀ cost ∈ topCosts Comparator.ofOrder store options, isNamesake hottest.toSymbolRef cost = true →
        cost.inclusiveCost ≤ (costOf store node).inclusiveCost := by decide +kernel
  have hhottest : (topHotspots Comparator.ofOrder store options).head?.map (fun hottest => hottest.id) =
      some "Method:src/a.ts#A@3" := by decide +kernel
  have hnode : ∃ node ∈ store.readNodes, node.id = "Method:src/a.ts#A@3" := by decide +kernel
  have hshare : (hottestShare (gather plainHost Comparator.ofOrder store options)).isSome = true := by decide +kernel
  obtain ⟨hottest, hhead, hid⟩ := Option.map_eq_some_iff.mp hhottest
  obtain ⟨node, hmem, hnodeId⟩ := hnode
  obtain ⟨share, hshare⟩ := Option.isSome_iff_exists.mp hshare
  have hjoins := (report_joins_iff plainHost Comparator.ofOrder store options).mpr ⟨?_, ?_⟩
  · exact ⟨share, hshare, node, hmem, hnodeId, hjoins.2 hottest node share hhead hmem (hnodeId.trans hid.symm) hshare⟩
  · intro pre hub post hsplit hkey
    have hhub : hub ∈ topHubs Comparator.ofOrder store options := by
      rw [hsplit]
      exact List.mem_append_right _ List.mem_cons_self
    rw [hkeys hub hhub] at hkey
    cases hkey
  · intro hottest node hhead hmem hid _
    exact hcosts hottest (List.mem_of_mem_head? hhead) node hmem hid

end codespine.report.ReportData
