import Codespine.Report.ReportData.SelfTime

open codespine.schema codespine.store codespine.query codespine.query.GraphQuery

namespace codespine.report.ReportData

/-- How many `CALLS` relationships lead into a node. -/
def inboundCalls (store : KuzuStore) (id : String) : ℕ :=
  (store.edges.keys.filter fun key => key.kind = .CALLS ∧ key.target = id).length

section FanIn

variable {localeCompare : Comparator String} {store : KuzuStore}

/-- The edges that `hotspots` counts are the relationships of the store. -/
theorem getD_sumInbound_one (store : KuzuStore) (id : String) :
    (sumInbound (readCallEdges store) fun _ => 1).getD id 0 = (inboundCalls store id : ℚ) := by
  rw [getD_sumInbound, List.map_const', List.sum_replicate, nsmul_eq_mul, mul_one, readCallEdges, readEdgesOfKind,
    List.filter_map, List.length_map, List.filter_filter, inboundCalls, OrderedMap.keys, List.filter_map, List.length_map]
  refine congrArg (fun l : List (EdgeKey × Metadata) => (l.length : ℚ)) (List.filter_congr fun entry _ => ?_)
  simp [and_comm]

/-- A hotspot by callers has as many as its score says. -/
theorem score_of_callers {ref : HotspotRef} (h : ref ∈ (rankingBy localeCompare store .callers).hotspots) :
    ref.score = (inboundCalls store ref.id : ℚ) := by
  obtain ⟨entry, hentry, rfl⟩ := List.mem_map.mp h
  have hscored := List.mem_of_mem_filter (Comparator.mem_sort.mp (List.mem_of_mem_take hentry))
  obtain ⟨node, _, rfl⟩ := List.mem_map.mp hscored
  exact getD_sumInbound_one store node.id

/-- What the report takes for the number of callers: that of a node the ranking
shows, and zero for every other. -/
theorem getD_fanIn (id : String) : (fanIn localeCompare store).getD id 0 =
    if id ∈ (rankingBy localeCompare store .callers).hotspots.map (fun ref => ref.id) then (inboundCalls store id : ℚ)
    else 0 := by
  have hkeys : id ∈ (fanIn localeCompare store).keys ↔
      id ∈ (rankingBy localeCompare store .callers).hotspots.map fun ref => ref.id := by
    refine OrderedMap.mem_keys_foldl_set.trans ?_
    rw [List.map_map, OrderedMap.keys_empty]
    simp [Function.comp_def]
  split
  · next hmem =>
    obtain ⟨score, hscore⟩ := Option.ne_none_iff_exists'.mp fun hnone =>
      OrderedMap.get_eq_none_iff.mp hnone (hkeys.mpr hmem)
    obtain ⟨ref, href, heq⟩ := List.mem_map.mp (OrderedMap.mem_of_get_ofList hscore)
    obtain ⟨rfl, rfl⟩ := Prod.mk.inj heq
    rw [OrderedMap.getD, hscore, Option.getD_some]
    exact score_of_callers href
  · next hmem =>
    rw [OrderedMap.getD, OrderedMap.get_eq_none_iff.mpr fun h => hmem (hkeys.mp h), Option.getD_none]

/-- A node has more callers than a hidden hotspot when the report knows them. -/
theorem fanIn_le_iff (id : String) : (fanIn localeCompare store).getD id 0 ≤ HIDDEN_HOTSPOT_MAX_CALLERS ↔
    inboundCalls store id ≤ 1 ∨ id ∉ (rankingBy localeCompare store .callers).hotspots.map fun ref => ref.id := by
  rw [getD_fanIn, HIDDEN_HOTSPOT_MAX_CALLERS]
  split
  · next hmem =>
    rw [Nat.cast_le_one]
    exact ⟨Or.inl, fun h => h.resolve_right fun hnot => hnot hmem⟩
  · next hmem => exact iff_of_true zero_le_one (Or.inr hmem)

/-- What the report calls the aligned core has several callers. -/
theorem aligned_callers {ref : HotspotRef}
    (h : ref ∈ alignedCoreOf (hottest localeCompare store) (fanIn localeCompare store)) : 1 < inboundCalls store ref.id := by
  have hmore : ¬ (fanIn localeCompare store).getD ref.id 0 ≤ HIDDEN_HOTSPOT_MAX_CALLERS :=
    not_le.mpr (of_decide_eq_true (List.mem_filter.mp (List.mem_of_mem_take h)).2)
  rw [fanIn_le_iff, not_or] at hmore
  exact not_le.mp hmore.1

/-- What it calls hidden has few callers, unless a node whose callers it does
not know comes before five that have. -/
theorem hidden_callers_iff :
    (∀ ref ∈ hiddenHotspotsOf (hottest localeCompare store) (fanIn localeCompare store), inboundCalls store ref.id ≤ 1) ↔
      ∀ pre ref post, hottest localeCompare store = pre ++ ref :: post → 1 < inboundCalls store ref.id →
        ref.id ∉ (rankingBy localeCompare store .callers).hotspots.map (fun other => other.id) →
          5 ≤ (pre.filter fun other => inboundCalls store other.id ≤ 1).length := by
  have hcut := @ranking.forall_take_filter_iff HotspotRef
    (fun ref => (fanIn localeCompare store).getD ref.id 0 ≤ HIDDEN_HOTSPOT_MAX_CALLERS)
    (fun ref => inboundCalls store ref.id ≤ 1) (hottest localeCompare store) 5
  have hboth : ∀ pre : List HotspotRef, (pre.filter fun other =>
      decide ((fanIn localeCompare store).getD other.id 0 ≤ HIDDEN_HOTSPOT_MAX_CALLERS) &&
        decide (inboundCalls store other.id ≤ 1)) = pre.filter fun other => inboundCalls store other.id ≤ 1 := by
    intro pre
    refine List.filter_congr fun other _ => ?_
    rw [Bool.and_eq_right_iff_imp]
    exact fun hfew => decide_eq_true ((fanIn_le_iff other.id).mpr (Or.inl (of_decide_eq_true hfew)))
  refine (forall₂_congr fun ref _ => decide_eq_true_iff.symm).trans (hcut.trans ?_)
  refine forall₃_congr fun pre ref post => forall_congr' fun _ => ?_
  rw [hboth pre, decide_eq_true_iff, decide_eq_false_iff_not, not_le, fanIn_le_iff]
  constructor
  · exact fun h hmany hunknown => h (Or.inr hunknown) hmany
  · exact fun h hknown hmany => h hmany (hknown.resolve_left (not_le.mpr hmany))

/-- A section shows symbols that were made of hotspots one by one. -/
theorem forall₂_made_iff (P : HotspotRef → Prop) (refs : List HotspotRef) :
    List.Forall₂ (fun symbol ref => symbol = toSymbol ref.toSymbolRef ∧ P ref)
      (refs.map fun ref => toSymbol ref.toSymbolRef) refs ↔ ∀ ref ∈ refs, P ref := by
  rw [List.forall₂_map_left_iff, List.forall₂_same]
  exact forall₂_congr fun ref _ => and_iff_right rfl

/-- The hidden hotspots have few callers, and the aligned core several, just
when the callers of a hot node are known or five that do have few come first. -/
theorem structureVsRuntime_callers_iff (host : ReportHost) (localeCompare : Comparator String) (store : KuzuStore)
    (options : GatherOptions) :
    (List.Forall₂ (fun symbol ref => symbol = toSymbol ref.toSymbolRef ∧ inboundCalls store ref.id ≤ 1)
        (gather host localeCompare store options).structureVsRuntime.hiddenHotspots
        (hiddenHotspotsOf (hottest localeCompare store) (fanIn localeCompare store)) ∧
      List.Forall₂ (fun symbol ref => symbol = toSymbol ref.toSymbolRef ∧ 1 < inboundCalls store ref.id)
        (gather host localeCompare store options).structureVsRuntime.alignedCore
        (alignedCoreOf (hottest localeCompare store) (fanIn localeCompare store))) ↔
    ∀ pre ref post, hottest localeCompare store = pre ++ ref :: post → 1 < inboundCalls store ref.id →
      ref.id ∉ (rankingBy localeCompare store .callers).hotspots.map (fun other => other.id) →
        5 ≤ (pre.filter fun other => inboundCalls store other.id ≤ 1).length := by
  rw [← hidden_callers_iff]
  refine Iff.trans (and_congr (forall₂_made_iff _ _) (forall₂_made_iff _ _)) (and_iff_left fun ref href => aligned_callers href)

end FanIn

section Wide

def functionRow (name filePath : String) (metadata : Metadata) : NodeRow :=
  ⟨.Function, name, filePath, false, 1, 9, metadata⟩

/-- A function that took five milliseconds. -/
def hotRow : NodeRow :=
  functionRow "render" "src/render.ts" (OrderedMap.ofList [("runtime", .obj [("selfMs", .num 5)])])

def stepEntry (i : ℕ) : String × NodeRow := (toString i, functionRow "step" "src/lib.ts" ∅)

/-- Two callers, `count` functions that both of them call, and a hot one. -/
def wideEntries (count : ℕ) : List (String × NodeRow) :=
  [("first", functionRow "first" "src/main.ts" ∅), ("second", functionRow "second" "src/main.ts" ∅)] ++
    (List.range count).map stepEntry ++ [("hot", hotRow)]

def calledIds (count : ℕ) : List String := (List.range count).map (fun i => toString i) ++ ["hot"]

def callsOf (id : String) : List EdgeKey := [⟨"first", id, .CALLS⟩, ⟨"second", id, .CALLS⟩]

/-- A number is not written with a letter. -/
theorem toString_ne {text : String} {letter : Char} (hletter : letter ∈ text.toList) (hdigit : letter.isDigit = false)
    (i : ℕ) : toString i ≠ text := by
  rintro rfl
  rw [Nat.toString_eq_repr, Nat.toList_repr] at hletter
  rw [Nat.isDigit_of_mem_toDigits (by decide) (by decide) hletter] at hdigit
  cases hdigit

theorem nodup_calledIds (count : ℕ) : (calledIds count).Nodup := by
  refine List.nodup_append.mpr ⟨List.nodup_range.map fun _ _ => Nat.repr_injective, List.nodup_singleton _, ?_⟩
  rintro _ hid _ hhot rfl
  obtain ⟨i, _, hi⟩ := List.mem_map.mp hid
  exact @toString_ne "hot" 'h' (by decide) (by decide) i (hi.trans (List.mem_singleton.mp hhot))

theorem keys_wideEntries (count : ℕ) : (wideEntries count).map Prod.fst = ["first", "second"] ++ calledIds count := by
  rw [wideEntries, calledIds, List.map_append, List.map_append, List.map_map]
  rfl

theorem nodup_wideEntries (count : ℕ) : ((wideEntries count).map Prod.fst).Nodup := by
  rw [keys_wideEntries]
  refine List.nodup_append.mpr ⟨by decide, nodup_calledIds count, ?_⟩
  rintro id hid _ hcalled rfl
  rcases List.mem_append.mp hcalled with hcalled | hhot
  · obtain ⟨i, _, rfl⟩ := List.mem_map.mp hcalled
    rcases List.mem_cons.mp hid with hid | hid
    · exact @toString_ne "first" 'f' (by decide) (by decide) i hid
    · exact @toString_ne "second" 's' (by decide) (by decide) i (List.mem_singleton.mp hid)
  · rw [List.mem_singleton.mp hhot] at hid
    exact absurd hid (by decide)

theorem nodup_callsOf {ids : List String} (h : ids.Nodup) : (ids.flatMap callsOf).Nodup := by
  refine List.nodup_flatMap.mpr ⟨fun id _ => by simp [callsOf], h.imp fun {id other} hne key hkey hother => hne ?_⟩
  have htarget : ∀ {id : String} {key : EdgeKey}, key ∈ callsOf id → key.target = id := by
    intro id key hkey
    rcases List.mem_cons.mp hkey with rfl | hkey
    · rfl
    · rw [List.mem_singleton.mp hkey]
  exact (htarget hkey).symm.trans (htarget hother)

def wideStore (count : ℕ) : KuzuStore where
  nodes := ⟨wideEntries count, nodup_wideEntries count⟩
  edges := ⟨((calledIds count).flatMap callsOf).map fun key => (key, ∅), by
    rw [List.map_map]
    exact (List.map_id _).symm ▸ nodup_callsOf (nodup_calledIds count)⟩
  graphMeta := ∅
  endpoints key hkey := by
    change key ∈ (((calledIds count).flatMap callsOf).map fun key => (key, (∅ : Metadata))).map Prod.fst at hkey
    change key.source ∈ (wideEntries count).map Prod.fst ∧ key.target ∈ (wideEntries count).map Prod.fst
    rw [keys_wideEntries]
    rw [List.map_map] at hkey
    obtain ⟨_, hcall, rfl⟩ := List.mem_map.mp hkey
    obtain ⟨id, hid, hcall⟩ := List.mem_flatMap.mp hcall
    rcases List.mem_cons.mp hcall with rfl | hcall
    · exact ⟨by simp, List.mem_append_right _ hid⟩
    · obtain rfl := List.mem_singleton.mp hcall
      exact ⟨by simp, List.mem_append_right _ hid⟩

theorem inboundCalls_wideStore {count : ℕ} {id : String} (hid : id ∈ calledIds count) :
    inboundCalls (wideStore count) id = 2 := by
  have key : ∀ ids : List String, ((ids.flatMap callsOf).filter fun key => key.kind = .CALLS ∧ key.target = id).length =
      2 * ids.count id := by
    intro ids
    induction ids with
    | nil => rfl
    | cons other ids ih =>
      rw [List.flatMap_cons, List.filter_append, List.length_append, ih, List.count_cons]
      by_cases h : other = id
      · simp [callsOf, h]
        omega
      · simp [callsOf, h]
  have hkeys : (wideStore count).edges.keys = (calledIds count).flatMap callsOf := by
    change (((calledIds count).flatMap callsOf).map fun key => (key, (∅ : Metadata))).map Prod.fst = _
    rw [List.map_map]
    exact List.map_id _
  rw [inboundCalls, hkeys, key, List.count_eq_one_of_mem (nodup_calledIds count) hid]

def hotNode : StoredNode := ⟨"hot", .Function, "render", "src/render.ts", 1, 9, hotRow.metadata⟩

def stepNode (i : ℕ) : StoredNode := ⟨toString i, .Function, "step", "src/lib.ts", 1, 9, ∅⟩

def callerNode (id : String) : StoredNode := ⟨id, .Function, id, "src/main.ts", 1, 9, ∅⟩

theorem readNodes_wideStore (count : ℕ) : (wideStore count).readNodes =
    [callerNode "first", callerNode "second"] ++ (List.range count).map stepNode ++ [hotNode] := by
  change (wideEntries count).map _ = _
  rw [wideEntries, List.map_append, List.map_append, List.map_map]
  rfl

theorem mem_readNodes_hot (count : ℕ) : hotNode ∈ (wideStore count).readNodes := by
  rw [readNodes_wideStore]
  exact List.mem_append_right _ (List.mem_singleton.mpr rfl)

/-- One node of the graph was measured. -/
theorem hottest_wideStore (localeCompare : Comparator String) (count : ℕ) :
    hottest localeCompare (wideStore count) = [toHotspot .selfTime (hotNode, 5)] := by
  have henriched : ((wideStore count).readNodes.any fun node => hasRuntime node.metadata) = true :=
    List.any_eq_true.mpr ⟨hotNode, mem_readNodes_hot count, rfl⟩
  have hzero : runtimeValue (∅ : Metadata) "selfMs" = 0 := rfl
  have hhot : runtimeValue hotNode.metadata "selfMs" = 5 := by decide +kernel
  have hscored : scored (wideStore count).readNodes (readCallEdges (wideStore count)) selfTimeOptions = [(hotNode, 5)] := by
    rw [scored_selfTime henriched, readNodes_wideStore, List.map_append, List.map_append, List.filter_append,
      List.filter_append, List.map_map]
    have hsteps : ((List.range count).map ((fun node : StoredNode => (node, runtimeValue node.metadata "selfMs")) ∘
        stepNode)).filter (fun entry => decide (0 < entry.2)) = [] := by
      refine List.filter_eq_nil_iff.mpr fun entry hentry => ?_
      obtain ⟨i, _, rfl⟩ := List.mem_map.mp hentry
      change ¬ decide (0 < runtimeValue ∅ "selfMs") = true
      rw [hzero]
      simp
    have hcallers : ([callerNode "first", callerNode "second"].map fun node => (node, runtimeValue node.metadata "selfMs")).filter
        (fun entry => decide (0 < entry.2)) = [] := by
      simp [callerNode, hzero]
    rw [hsteps, hcallers]
    simp [hhot]
  rw [hottest_eq localeCompare henriched, measured, hscored]
  rfl

/-- The hot node comes after all the others that have two callers. -/
theorem before_hot (count : ℕ) {options : HotspotOptions} (hmetric : options.metric = some .callers)
    (hall : options.measuredOnly = none) : count ≤ ranking.before (hotspotOrder Comparator.ofOrder)
      (scored (wideStore count).readNodes (readCallEdges (wideStore count)) options) (hotNode, 2) := by
  have hranked : rankedMetric (wideStore count).readNodes options = .callers := by
    rw [rankedMetric, requestedMetric, hmetric]
    rfl
  have hsteps : ((List.range count).map fun i => (stepNode i, (2 : ℚ))).Sublist
      (scored (wideStore count).readNodes (readCallEdges (wideStore count)) options) := by
    have hsublist : ((List.range count).map stepNode).Sublist (wideStore count).readNodes := by
      rw [readNodes_wideStore]
      exact (List.sublist_append_right _ _).trans (List.sublist_append_left _ _)
    have hscores : (((List.range count).map stepNode).map fun node =>
        (node, (sumInbound (readCallEdges (wideStore count)) fun _ => 1).getD node.id 0)).filter (fun entry => 0 < entry.2) =
          (List.range count).map fun i => (stepNode i, (2 : ℚ)) := by
      rw [List.map_map]
      have hmap : (List.range count).map ((fun node : StoredNode =>
          (node, (sumInbound (readCallEdges (wideStore count)) fun _ => 1).getD node.id 0)) ∘ stepNode) =
            (List.range count).map fun i => (stepNode i, (2 : ℚ)) := by
        refine List.map_congr_left fun i hi => ?_
        have hcalled : toString i ∈ calledIds count := List.mem_append_left _ (List.mem_map_of_mem hi)
        change (stepNode i, (sumInbound (readCallEdges (wideStore count)) fun _ => 1).getD (toString i) 0) = _
        rw [getD_sumInbound_one, inboundCalls_wideStore hcalled]
        rfl
      rw [hmap]
      refine List.filter_eq_self.mpr fun entry hentry => ?_
      obtain ⟨i, _, rfl⟩ := List.mem_map.mp hentry
      exact decide_eq_true two_pos
    rw [scored, hranked, hall, ← hscores]
    exact (hsublist.map _).filter _
  refine le_trans (le_of_eq ?_) hsteps.countP_le
  have hbefore : ∀ entry ∈ (List.range count).map fun i => (stepNode i, (2 : ℚ)),
      decide ((hotspotOrder Comparator.ofOrder).compare entry (hotNode, 2) < 0) = true := by
    intro entry hentry
    obtain ⟨i, _, rfl⟩ := List.mem_map.mp hentry
    have hfirst : (hotspotOrder Comparator.ofOrder).compare (stepNode 0, 2) (hotNode, 2) < 0 := by decide +kernel
    exact decide_eq_true hfirst
  rw [List.countP_eq_length.mpr hbefore, List.length_map, List.length_range]

/-- Behind a thousand others, the callers of the hot node are not read. -/
theorem hot_not_ranked {count : ℕ} (hcount : 1000 ≤ count) :
    "hot" ∉ (rankingBy Comparator.ofOrder (wideStore count) .callers).hotspots.map fun ref => ref.id := by
  intro hmem
  obtain ⟨ref, href, hid⟩ := List.mem_map.mp hmem
  rw [rankingBy, hotspots_eq, hotspots_hotspotsOf] at href
  obtain ⟨entry, hentry, rfl⟩ := List.mem_map.mp href
  have hscored := Comparator.mem_sort.mp (List.mem_of_mem_take hentry)
  have hnode : entry.1 = hotNode := List.inj_on_of_nodup_map (wideStore count).readNodes_nodup
    (mem_nodes_of_scored hscored) (mem_readNodes_hot count) hid
  have hscore : entry.2 = 2 := by
    have hcalled : hotNode.id ∈ calledIds count := List.mem_append_right _ (List.mem_singleton.mpr rfl)
    rw [score_of_scored hscored, hnode]
    change (sumInbound (readCallEdges (wideStore count)) fun _ => 1).getD hotNode.id 0 = 2
    rw [getD_sumInbound_one, inboundCalls_wideStore hcalled]
    rfl
  have hentry' : entry = (hotNode, 2) := Prod.ext hnode hscore
  have hbefore := ranking.before_lt_of_mem_take hentry
  rw [hentry'] at hbefore
  have hlimit : clampLimit (some UNBOUNDED) = 1000 := by decide +kernel
  exact absurd (hbefore.trans_le (hlimit.le.trans hcount)) (not_lt.mpr (before_hot count rfl rfl))

theorem hiddenHotspots_wide : ¬ ∀ (host : ReportHost) (localeCompare : Comparator String) (store : KuzuStore)
    (options : GatherOptions), List.Forall₂ (fun symbol ref => symbol = toSymbol ref.toSymbolRef ∧ inboundCalls store ref.id ≤ 1)
        (gather host localeCompare store options).structureVsRuntime.hiddenHotspots
        (hiddenHotspotsOf (hottest localeCompare store) (fanIn localeCompare store)) ∧
      List.Forall₂ (fun symbol ref => symbol = toSymbol ref.toSymbolRef ∧ 1 < inboundCalls store ref.id)
        (gather host localeCompare store options).structureVsRuntime.alignedCore
        (alignedCoreOf (hottest localeCompare store) (fanIn localeCompare store)) := by
  intro hclaim
  obtain ⟨count, hcount⟩ : ∃ count, 1000 ≤ count := ⟨1000, le_rfl⟩
  have hhidden := (hclaim plainHost Comparator.ofOrder (wideStore count) ⟨"2026-01-01", "app", "out", 10⟩).1
  have hfew : ∀ ref ∈ hiddenHotspotsOf (hottest Comparator.ofOrder (wideStore count)) (fanIn Comparator.ofOrder (wideStore count)),
      inboundCalls (wideStore count) ref.id ≤ 1 := (forall₂_made_iff _ _).mp hhidden
  have hcalled : "hot" ∈ calledIds count := List.mem_append_right _ (List.mem_singleton.mpr rfl)
  have hmany : 1 < inboundCalls (wideStore count) "hot" := by
    rw [inboundCalls_wideStore hcalled]
    exact one_lt_two
  have hfirst := hidden_callers_iff.mp hfew [] _ [] (hottest_wideStore Comparator.ofOrder count) hmany (hot_not_ranked hcount)
  exact absurd hfirst (by simp)

/-- With one other, they are. -/
theorem structureVsRuntime_callers_iff_known :
    List.Forall₂ (fun symbol ref => symbol = toSymbol ref.toSymbolRef ∧ 1 < inboundCalls (wideStore 1) ref.id)
      (gather plainHost Comparator.ofOrder (wideStore 1) ⟨"2026-01-01", "app", "out", 10⟩).structureVsRuntime.alignedCore
      (alignedCoreOf (hottest Comparator.ofOrder (wideStore 1)) (fanIn Comparator.ofOrder (wideStore 1))) := by
  have hknown : "hot" ∈ (rankingBy Comparator.ofOrder (wideStore 1) .callers).hotspots.map fun ref => ref.id := by
    decide +kernel
  refine ((structureVsRuntime_callers_iff plainHost Comparator.ofOrder (wideStore 1) _).mpr ?_).2
  intro pre ref post hsplit _ hunknown
  have hmem : ref ∈ hottest Comparator.ofOrder (wideStore 1) := by
    rw [hsplit]
    exact List.mem_append_right _ List.mem_cons_self
  rw [hottest_wideStore] at hmem
  rw [List.mem_singleton.mp hmem] at hunknown
  exact absurd hknown hunknown

end Wide

end codespine.report.ReportData
