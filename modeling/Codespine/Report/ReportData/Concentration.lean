import Codespine.Lib.Ranking
import Codespine.Report.ReportData.SelfTime

open codespine.schema codespine.store codespine.query codespine.query.GraphQuery

namespace codespine.report.ReportData

section Scan

/-- What the first functions take together. -/
def firstScores (hotspots : List RankedSymbol) (count : ℕ) : ℚ :=
  ((hotspots.take count).map fun hotspot => hotspot.score).sum

/-- The scan stops after the first entries that reach the threshold, or at the
end. -/
theorem accumulateHottest_spec (totalSelf : ℚ) (hotspots : List RankedSymbol) (cumulative : ℚ) (count : ℕ) :
    ∃ j ≤ hotspots.length, accumulateHottest totalSelf hotspots cumulative count =
        (cumulative + firstScores hotspots j, count + j) ∧
      (∀ i < j, 0 < i → (cumulative + firstScores hotspots i) / totalSelf < RUNTIME_CONCENTRATION_THRESHOLD) ∧
      ((cumulative + firstScores hotspots j) / totalSelf < RUNTIME_CONCENTRATION_THRESHOLD → j = hotspots.length) := by
  induction hotspots generalizing cumulative count with
  | nil => exact ⟨0, le_rfl, by simp [accumulateHottest, firstScores], by simp, fun _ => rfl⟩
  | cons hotspot rest ih =>
    have hcons : ∀ i, cumulative + firstScores (hotspot :: rest) (i + 1) =
        cumulative + hotspot.score + firstScores rest i := by
      intro i
      rw [firstScores, List.take_succ_cons, List.map_cons, List.sum_cons, ← add_assoc]
      rfl
    rw [accumulateHottest]
    split
    · next hreached =>
      refine ⟨1, by simp, ?_, by omega, fun hless => ?_⟩
      · rw [hcons 0]
        simp [firstScores]
      · rw [hcons 0] at hless
        simp only [firstScores, List.take_zero, List.map_nil, List.sum_nil, add_zero] at hless
        exact absurd hreached (not_le.mpr hless)
    · next hreached =>
      obtain ⟨j, hj, heq, hbefore, hend⟩ := ih (cumulative + hotspot.score) (count + 1)
      refine ⟨j + 1, by simpa using hj, ?_, fun i hi hpos => ?_, fun hless => ?_⟩
      · rw [heq, hcons, Nat.add_assoc, Nat.add_comm 1 j]
      · obtain ⟨i, rfl⟩ := Nat.exists_eq_succ_of_ne_zero hpos.ne'
        rw [Nat.succ_eq_add_one, hcons]
        rcases Nat.eq_zero_or_pos i with rfl | hi'
        · simpa [firstScores] using hreached
        · exact hbefore i (by omega) hi'
      · rw [hcons] at hless
        rw [hend hless, List.length_cons]

variable {data : GraphReportData}

theorem reaches_iff (htotal : 0 < data.totalSelf) (cumulative : ℚ) :
    RUNTIME_CONCENTRATION_THRESHOLD ≤ cumulative / data.totalSelf ↔ data.totalSelf / 2 ≤ cumulative := by
  rw [RUNTIME_CONCENTRATION_THRESHOLD, le_div_iff₀ htotal]
  constructor <;> intro h <;> linarith

/-- The finding is made of the shortest list of hottest functions that reaches
half of the total. -/
theorem concentration_cases (henriched : data.enriched = true) (htotal : 0 < data.totalSelf) :
    (∃ finding count share, runtimeConcentrationFinding data = some finding ∧
        finding.detail = concentrationDetail count share ∧ count ≤ data.hotspots.length ∧
        data.totalSelf / 2 ≤ firstScores data.hotspots count ∧
        ∀ i < count, firstScores data.hotspots i < data.totalSelf / 2) ∨
      runtimeConcentrationFinding data = none ∧
        ∀ i ≤ data.hotspots.length, firstScores data.hotspots i < data.totalSelf / 2 := by
  obtain ⟨j, hj, heq, hbefore, hend⟩ := accumulateHottest_spec data.totalSelf data.hotspots 0 0
  simp only [zero_add] at heq hbefore hend
  have hhalf : 0 < data.totalSelf / 2 := half_pos htotal
  have hshort : ∀ i < j, firstScores data.hotspots i < data.totalSelf / 2 := by
    intro i hi
    rcases Nat.eq_zero_or_pos i with rfl | hpos
    · simpa [firstScores] using htotal
    · exact not_le.mp fun h => absurd ((reaches_iff htotal _).mpr h) (not_le.mpr (hbefore i hi hpos))
  by_cases hreached : firstScores data.hotspots j / data.totalSelf < RUNTIME_CONCENTRATION_THRESHOLD
  · refine Or.inr ⟨?_, fun i hi => ?_⟩
    · unfold runtimeConcentrationFinding
      split
      · rfl
      · rw [heq]
        exact if_pos hreached
    · rcases lt_or_eq_of_le hi with hlt | rfl
      · exact hshort i (hend hreached ▸ hlt)
      · rw [← hend hreached]
        exact not_le.mp fun h => absurd ((reaches_iff htotal _).mpr h) (not_le.mpr hreached)
  · have hsum : data.totalSelf / 2 ≤ firstScores data.hotspots j := (reaches_iff htotal _).mp (not_lt.mp hreached)
    have hnonempty : data.hotspots.length ≠ 0 := by
      intro hzero
      rw [List.length_eq_zero_iff.mp hzero] at hsum
      simp only [firstScores, List.take_nil, List.map_nil, List.sum_nil] at hsum
      exact absurd hhalf (not_lt.mpr hsum)
    have hguard : ¬ (data.enriched = false ∨ data.hotspots.length = 0 ∨ data.totalSelf ≤ 0) := by
      rintro (h | h | h)
      · rw [henriched] at h
        cases h
      · exact hnonempty h
      · exact absurd htotal (not_lt.mpr h)
    obtain ⟨finding, hfinding, hdetail⟩ : ∃ finding, runtimeConcentrationFinding data = some finding ∧
        finding.detail = concentrationDetail j (round (firstScores data.hotspots j / data.totalSelf * 100)) := by
      unfold runtimeConcentrationFinding
      rw [if_neg hguard, heq]
      dsimp only
      rw [if_neg hreached]
      exact ⟨_, rfl, rfl⟩
    exact Or.inl ⟨finding, j, _, hfinding, hdetail, hj, hsum, hshort⟩

end Scan

section Measured

variable (localeCompare : Comparator String) (store : KuzuStore)

/-- The self time of a node. -/
def selfTimeOf (id : String) : ℚ :=
  ((store.nodes.get id).map fun row => runtimeValue row.metadata "selfMs").getD 0

/-- The times of the measured nodes, the longest first. -/
def measuredTimes : List ℚ := (measured localeCompare store).map Prod.snd

theorem selfTimeOf_eq {node : StoredNode} (hnode : node ∈ store.readNodes) :
    selfTimeOf store node.id = runtimeValue node.metadata "selfMs" := by
  obtain ⟨entry, hentry, rfl⟩ := List.mem_map.mp hnode
  rw [selfTimeOf, OrderedMap.get_eq_some_iff.mpr hentry]
  rfl

theorem map_selfTimeOf : store.nodes.keys.map (selfTimeOf store) =
    store.readNodes.map fun node => runtimeValue node.metadata "selfMs" := by
  rw [← store.readNodes_ids, List.map_map]
  exact List.map_congr_left fun node hnode => selfTimeOf_eq store hnode

variable {store}

/-- The times are those of all nodes that have one. -/
theorem measuredTimes_perm (henriched : (store.readNodes.any fun node => hasRuntime node.metadata) = true) :
    (measuredTimes localeCompare store).Perm ((store.nodes.keys.map (selfTimeOf store)).filter fun time => 0 < time) := by
  refine (((hotspotOrder localeCompare).sort_perm _).map Prod.snd).trans (List.Perm.of_eq ?_)
  rw [scored_selfTime henriched, map_selfTimeOf, List.filter_map, List.filter_map, List.map_map]
  rfl

theorem measuredTimes_sorted : (measuredTimes localeCompare store).Pairwise (· ≥ ·) := by
  refine List.pairwise_map.mpr (((hotspotOrder localeCompare).sort_pairwise _).imp fun {a b} h => ?_)
  have hscore : -a.2 - -b.2 ≤ 0 := Comparator.compare_le_of_thenBy (Comparator.compare_le_of_thenBy h)
  change b.2 ≤ a.2
  linarith

/-- The report shows the first of the measured nodes. -/
theorem hotspots_gather (host : ReportHost) (options : GatherOptions)
    (henriched : (gather host localeCompare store options).enriched = true) :
    (gather host localeCompare store options).hotspots =
      ((measured localeCompare store).take (min options.limit 1000)).map fun entry => toRanked (toHotspot .selfTime entry) := by
  have hhotspots : (gather host localeCompare store options).hotspots =
      ((hottest localeCompare store).take options.limit).map toRanked := rfl
  rw [hhotspots, hottest_eq localeCompare henriched, ← List.map_take, List.take_take, List.map_map]
  rfl

theorem length_hotspots_gather (host : ReportHost) (options : GatherOptions)
    (henriched : (gather host localeCompare store options).enriched = true) :
    (gather host localeCompare store options).hotspots.length =
      min (min options.limit 1000) (measuredTimes localeCompare store).length := by
  rw [hotspots_gather localeCompare host options henriched, List.length_map, List.length_take, measuredTimes, List.length_map]

/-- What the first hotspots of the report take are the first of the times. -/
theorem firstScores_gather (host : ReportHost) (options : GatherOptions)
    (henriched : (gather host localeCompare store options).enriched = true) {count : ℕ}
    (hcount : count ≤ (gather host localeCompare store options).hotspots.length) :
    firstScores (gather host localeCompare store options).hotspots count =
      ((measuredTimes localeCompare store).take count).sum := by
  have hlimit : count ≤ min options.limit 1000 := by
    rw [length_hotspots_gather localeCompare host options henriched] at hcount
    exact hcount.trans (min_le_left _ _)
  rw [firstScores, hotspots_gather localeCompare host options henriched, ← List.map_take, List.take_take,
    min_eq_left hlimit, measuredTimes, ← List.map_take, List.map_map]
  rfl

theorem sum_filter_pos {times : List ℚ} (h : ∀ time ∈ times, 0 ≤ time) : (times.filter fun time => 0 < time).sum = times.sum := by
  induction times with
  | nil => rfl
  | cons time rest ih =>
    obtain ⟨htime, hrest⟩ := List.forall_mem_cons.mp h
    rcases htime.eq_or_lt with rfl | hpos
    · rw [List.filter_cons_of_neg (by simp), ih hrest, List.sum_cons, zero_add]
    · have hkept : ((time :: rest).filter fun time => 0 < time) = time :: rest.filter fun time => 0 < time :=
        List.filter_cons_of_pos (decide_eq_true hpos)
      rw [hkept, List.sum_cons, List.sum_cons, ih hrest]

/-- No set of so many nodes takes more than the first of the times. -/
theorem sum_le_firstTimes (henriched : (store.readNodes.any fun node => hasRuntime node.metadata) = true)
    (hnonneg : ∀ id ∈ store.nodes.keys, 0 ≤ selfTimeOf store id) {ids : Finset String}
    (hids : ids ⊆ store.nodes.keys.toFinset) {count : ℕ} (hcard : ids.card ≤ count) :
    ∑ id ∈ ids, selfTimeOf store id ≤ ((measuredTimes localeCompare store).take count).sum := by
  -- nodes that took no time add nothing
  have hpositive : ∑ id ∈ ids, selfTimeOf store id = ((ids.toList.map (selfTimeOf store)).filter fun time => 0 < time).sum := by
    rw [sum_filter_pos, Finset.sum_map_toList]
    intro time htime
    obtain ⟨id, hid, rfl⟩ := List.mem_map.mp htime
    exact hnonneg id (List.mem_toFinset.mp (hids (Finset.mem_toList.mp hid)))
  have hsubperm : ((ids.toList.map (selfTimeOf store)).filter fun time => 0 < time).Subperm (measuredTimes localeCompare store) := by
    obtain ⟨kept, hperm, hsub⟩ : ids.toList.Subperm store.nodes.keys :=
      List.subperm_of_subset ids.nodup_toList fun id hid => List.mem_toFinset.mp (hids (Finset.mem_toList.mp hid))
    have hmap : (ids.toList.map (selfTimeOf store)).Subperm (store.nodes.keys.map (selfTimeOf store)) :=
      ⟨_, hperm.map _, hsub.map _⟩
    exact (hmap.filter _).trans (measuredTimes_perm localeCompare henriched).symm.subperm
  have hlength : ((ids.toList.map (selfTimeOf store)).filter fun time => 0 < time).length ≤ count := by
    refine (List.length_filter_le _ _).trans ?_
    rw [List.length_map, Finset.length_toList]
    exact hcard
  have hpos : ∀ time ∈ measuredTimes localeCompare store, 0 ≤ time := by
    intro time htime
    have hmem := (measuredTimes_perm localeCompare henriched).mem_iff.mp htime
    exact (of_decide_eq_true (List.mem_filter.mp hmem).2).le
  rw [hpositive]
  exact ranking.sum_le_sum_take (measuredTimes_sorted localeCompare) hpos hsubperm hlength

/-- The first of the times are those of a set of nodes. -/
theorem exists_firstTimes (henriched : (store.readNodes.any fun node => hasRuntime node.metadata) = true) {count : ℕ}
    (hcount : count ≤ (measuredTimes localeCompare store).length) :
    ∃ ids : Finset String, ids ⊆ store.nodes.keys.toFinset ∧ ids.card = count ∧
      ∑ id ∈ ids, selfTimeOf store id = ((measuredTimes localeCompare store).take count).sum := by
  have hscored : ∀ entry ∈ measured localeCompare store, entry.1 ∈ store.readNodes ∧ selfTimeOf store entry.1.id = entry.2 := by
    intro entry hentry
    have hmem := Comparator.mem_sort.mp hentry
    rw [scored_selfTime henriched] at hmem
    obtain ⟨node, hnode, rfl⟩ := List.mem_map.mp (List.mem_of_mem_filter hmem)
    exact ⟨hnode, selfTimeOf_eq store hnode⟩
  have hnodup : ((measured localeCompare store).map fun entry => entry.1.id).Nodup := by
    have hperm : (measured localeCompare store).Perm _ := (hotspotOrder localeCompare).sort_perm _
    rw [(hperm.map _).nodup_iff, scored_selfTime henriched]
    refine List.Nodup.sublist (List.filter_sublist.map _) ?_
    rw [List.map_map]
    exact store.readNodes_nodup
  have htake : (((measured localeCompare store).take count).map fun entry => entry.1.id).Nodup :=
    hnodup.sublist ((List.take_sublist _ _).map _)
  refine ⟨(((measured localeCompare store).take count).map fun entry => entry.1.id).toFinset, fun id hid => ?_, ?_, ?_⟩
  · obtain ⟨entry, hentry, rfl⟩ := List.mem_map.mp (List.mem_toFinset.mp hid)
    rw [List.mem_toFinset, ← store.readNodes_ids]
    exact List.mem_map_of_mem (hscored entry (List.mem_of_mem_take hentry)).1
  · rw [measuredTimes, List.length_map] at hcount
    rw [List.toFinset_card_of_nodup htake, List.length_map, List.length_take, min_eq_left hcount]
  · rw [List.sum_toFinset _ htake, List.map_map, measuredTimes, ← List.map_take]
    exact congrArg List.sum (List.map_congr_left fun entry hentry => (hscored entry (List.mem_of_mem_take hentry)).2)

/-- A set of nodes, no more than the report shows, that takes half of the self
time. -/
def TakesHalf (store : KuzuStore) (options : GatherOptions) (totalSelf : ℚ) (ids : Finset String) : Prop :=
  ids ⊆ store.nodes.keys.toFinset ∧ ids.card ≤ min options.limit 1000 ∧ totalSelf / 2 ≤ ∑ id ∈ ids, selfTimeOf store id

/-- A set of nodes that takes half of the self time is no smaller than some list
of first hotspots that does. -/
theorem takesHalf_firstScores (host : ReportHost) (options : GatherOptions)
    (henriched : (gather host localeCompare store options).enriched = true)
    (hnonneg : ∀ id ∈ store.nodes.keys, 0 ≤ selfTimeOf store id) {totalSelf : ℚ} {ids : Finset String}
    (hids : TakesHalf store options totalSelf ids) :
    ∃ count ≤ ids.card, count ≤ (gather host localeCompare store options).hotspots.length ∧
      totalSelf / 2 ≤ firstScores (gather host localeCompare store options).hotspots count := by
  obtain ⟨hsubset, hcard, hhalf⟩ := hids
  have hlength := length_hotspots_gather localeCompare host options henriched
  have hcount : min ids.card (measuredTimes localeCompare store).length ≤
      (gather host localeCompare store options).hotspots.length := by
    rw [hlength]
    exact min_le_min_right _ hcard
  refine ⟨_, min_le_left _ _, hcount, ?_⟩
  rw [firstScores_gather localeCompare host options henriched hcount, ← List.take_eq_take_min]
  exact hhalf.trans (sum_le_firstTimes localeCompare henriched hnonneg hsubset le_rfl)

/-- The first hotspots are a set of nodes that the report shows. -/
theorem firstScores_takesHalf (host : ReportHost) (options : GatherOptions)
    (henriched : (gather host localeCompare store options).enriched = true) {totalSelf : ℚ} {count : ℕ}
    (hcount : count ≤ (gather host localeCompare store options).hotspots.length)
    (hhalf : totalSelf / 2 ≤ firstScores (gather host localeCompare store options).hotspots count) :
    ∃ ids, TakesHalf store options totalSelf ids ∧ ids.card = count := by
  have hlength := length_hotspots_gather localeCompare host options henriched
  obtain ⟨ids, hsubset, hcard, hsum⟩ := exists_firstTimes localeCompare henriched
    (hcount.trans (hlength.trans_le (min_le_right _ _)))
  refine ⟨ids, ⟨hsubset, ?_, ?_⟩, hcard⟩
  · rw [hcard]
    exact hcount.trans (hlength.trans_le (min_le_left _ _))
  · rw [hsum, ← firstScores_gather localeCompare host options henriched hcount]
    exact hhalf

/-- The text states the count of the hottest functions. -/
def States (detail : String) (count : ℕ) : Prop :=
  ∃ rest, detail = "the " ++ toString count ++ " hottest function(s) account for " ++ rest

theorem states_concentrationDetail (count : ℕ) (share : ℤ) : States (concentrationDetail count share) count := by
  refine ⟨toString share ++ "% of measured self-time — start optimisation here.", ?_⟩
  rw [concentrationDetail]
  simp only [String.append_assoc]

/-- A text states no more than one count: the digits end at the space. -/
theorem States.unique {detail : String} {count count' : ℕ} (h : States detail count) (h' : States detail count') :
    count = count' := by
  obtain ⟨rest, hdetail⟩ := h
  obtain ⟨rest', hdetail'⟩ := h'
  have hdigits : ∀ n : ℕ, ∀ c ∈ Nat.toDigits 10 n, decide (c ≠ ' ') = true := by
    intro n c hc
    refine decide_eq_true ?_
    rintro rfl
    exact absurd (Nat.isDigit_of_mem_toDigits (by decide) (by decide) hc) (by decide)
  have hread : ∀ (n : ℕ) (rest : String),
      ((("the " ++ toString n ++ " hottest function(s) account for " ++ rest).toList.drop 4).takeWhile fun c => c ≠ ' ') =
        Nat.toDigits 10 n := by
    intro n rest
    have htext : ("the " ++ toString n ++ " hottest function(s) account for " ++ rest).toList.drop 4 =
        Nat.toDigits 10 n ++ ' ' :: "hottest function(s) account for ".toList ++ rest.toList := by
      simp [String.toList_append, toString]
    rw [htext, List.append_assoc, List.takeWhile_append_of_pos (hdigits n), List.cons_append,
      List.takeWhile_cons_of_neg (by decide), List.append_nil]
  have hsame : Nat.toDigits 10 count = Nat.toDigits 10 count' := by
    rw [← hread count rest, ← hread count' rest', ← hdetail, hdetail']
  refine Nat.repr_injective (String.toList_injective ?_)
  rwa [Nat.toList_repr, Nat.toList_repr]

/-- The finding is there just when some set of so many nodes takes half of the
self time, and the count it states is the least size of such a set. -/
theorem runtimeConcentrationFinding_least (host : ReportHost) (localeCompare : Comparator String) (store : KuzuStore)
    (options : GatherOptions) (henriched : (gather host localeCompare store options).enriched = true)
    (hnonneg : ∀ id ∈ store.nodes.keys, 0 ≤ selfTimeOf store id)
    (htotal : 0 < (gather host localeCompare store options).totalSelf) :
    ((runtimeConcentrationFinding (gather host localeCompare store options)).isSome = true ↔
      ∃ ids, TakesHalf store options (gather host localeCompare store options).totalSelf ids) ∧
    ∀ finding, runtimeConcentrationFinding (gather host localeCompare store options) = some finding →
      ∃ count, States finding.detail count ∧ (∀ other, States finding.detail other → other = count) ∧
        IsLeast {size | ∃ ids, TakesHalf store options (gather host localeCompare store options).totalSelf ids ∧
          ids.card = size} count := by
  rcases concentration_cases henriched htotal with
    ⟨finding, count, share, hfinding, hdetail, hcount, hhalf, hshort⟩ | ⟨hnone, hless⟩
  · obtain ⟨ids, hids, hcard⟩ := firstScores_takesHalf localeCompare host options henriched hcount hhalf
    have hleast : IsLeast {size | ∃ ids, TakesHalf store options (gather host localeCompare store options).totalSelf ids ∧
        ids.card = size} count := by
      refine ⟨⟨ids, hids, hcard⟩, ?_⟩
      rintro size ⟨others, hothers, rfl⟩
      obtain ⟨reached, hreached, _, hsum⟩ := takesHalf_firstScores localeCompare host options henriched hnonneg hothers
      by_contra hfewer
      exact absurd hsum (not_le.mpr (hshort reached (hreached.trans_lt (not_le.mp hfewer))))
    refine ⟨⟨fun _ => ⟨ids, hids⟩, fun _ => by rw [hfinding]; rfl⟩, fun stated hstated => ?_⟩
    obtain rfl : finding = stated := Option.some.inj (hfinding.symm.trans hstated)
    have hstates : States finding.detail count := hdetail ▸ states_concentrationDetail count share
    exact ⟨count, hstates, fun _ hother => hother.unique hstates, hleast⟩
  · refine ⟨⟨fun hsome => ?_, ?_⟩, fun finding hfinding => ?_⟩
    · rw [hnone] at hsome
      cases hsome
    · rintro ⟨ids, hids⟩
      obtain ⟨count, _, hcount, hsum⟩ := takesHalf_firstScores localeCompare host options henriched hnonneg hids
      exact absurd hsum (not_le.mpr (hless count hcount))
    · rw [hnone] at hfinding
      cases hfinding

end Measured

/-- A function that took so many milliseconds. -/
def timedFunction (id : String) (selfMs : ℚ) : GraphNode where
  id := id
  kind := .Function
  name := id
  filePath := "src/a.ts"
  metadata := some (OrderedMap.ofList [("runtime", .obj [("selfMs", .num selfMs)])])

/-- Four functions, none of which takes half of the time. -/
def spreadStore : KuzuStore :=
  (KuzuStore.initSchema.load
    [timedFunction "idle" 0, timedFunction "parse" 3, timedFunction "render" 4, timedFunction "load" 3] []).1

theorem runtimeConcentrationFinding_least_spread : ∃ finding,
    runtimeConcentrationFinding (gather plainHost Comparator.ofOrder spreadStore ⟨"2026-01-01", "app", "out", 10⟩) =
      some finding ∧
    finding.detail = "the 2 hottest function(s) account for 70% of measured self-time — start optimisation here." ∧
    IsLeast {size | ∃ ids, TakesHalf spreadStore ⟨"2026-01-01", "app", "out", 10⟩ 10 ids ∧ ids.card = size} 2 := by
  let options : GatherOptions := ⟨"2026-01-01", "app", "out", 10⟩
  have henriched : (gather plainHost Comparator.ofOrder spreadStore options).enriched = true := by decide +kernel
  have hnonneg : ∀ id ∈ spreadStore.nodes.keys, 0 ≤ selfTimeOf spreadStore id := by decide +kernel
  have htotal : (gather plainHost Comparator.ofOrder spreadStore options).totalSelf = 10 := by decide +kernel
  have htext : (runtimeConcentrationFinding (gather plainHost Comparator.ofOrder spreadStore options)).map
      (fun finding => finding.detail) =
        some "the 2 hottest function(s) account for 70% of measured self-time — start optimisation here." := by
    decide +kernel
  obtain ⟨finding, hfinding, hdetail⟩ := Option.map_eq_some_iff.mp htext
  have hleast := runtimeConcentrationFinding_least plainHost Comparator.ofOrder spreadStore options henriched hnonneg
    (htotal ▸ by norm_num)
  rw [htotal] at hleast
  obtain ⟨count, _, hunique, hcount⟩ := hleast.2 finding hfinding
  have htwo : (2 : ℕ) = count :=
    hunique 2 ⟨"70% of measured self-time — start optimisation here.", hdetail⟩
  exact ⟨finding, hfinding, hdetail, htwo ▸ hcount⟩

end codespine.report.ReportData
