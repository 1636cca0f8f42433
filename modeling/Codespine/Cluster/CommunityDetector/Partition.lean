import Codespine.Cluster.CommunityDetector

namespace codespine.cluster.CommunityDetector

variable {library : NetworkAnalysis} {edges : List WeightedEdge} {options : CommunityOptions}

/-- The nodes are numbered that some edge touches. -/
theorem mem_keys_indexNodes {edges : List WeightedEdge} {id : String} :
    id ∈ (indexNodes edges).keys ↔ ∃ edge ∈ edges, id = edge.source ∨ id = edge.target := by
  have key : ∀ (ids : List String) (indexOf : OrderedMap String ℕ),
      id ∈ (ids.foldl (fun indexOf id => if id ∈ indexOf.keys then indexOf else indexOf.set id indexOf.keys.length)
        indexOf).keys ↔ id ∈ indexOf.keys ∨ id ∈ ids := by
    intro ids
    induction ids with
    | nil => simp
    | cons first rest ih =>
      intro indexOf
      rw [List.foldl_cons, ih, List.mem_cons]
      split
      · next hfirst =>
        refine ⟨Or.imp_right Or.inr, ?_⟩
        rintro (h | rfl | h)
        · exact Or.inl h
        · exact Or.inl hfirst
        · exact Or.inr h
      · rw [OrderedMap.mem_keys_set, or_assoc]
  unfold indexNodes
  rw [key]
  simp [List.mem_flatMap]

/-- Some random start is kept when there is one. -/
theorem foldl_keepBest_eq_none_iff {nNodes : ℕ} {clusteringOf : ℕ → Clustering nNodes} {qualityOf : ℕ → ℚ}
    {starts : List ℕ} {best : Option (Clustering nNodes × ℚ)} :
    starts.foldl (fun best start => keepBest best (clusteringOf start) (qualityOf start)) best = none ↔
      best = none ∧ starts = [] := by
  induction starts generalizing best with
  | nil => simp
  | cons start rest ih =>
    have hkept : keepBest best (clusteringOf start) (qualityOf start) ≠ none := by
      unfold keepBest
      cases best with
      | none => exact Option.some_ne_none _
      | some previous =>
        dsimp only
        split <;> exact Option.some_ne_none _
    rw [List.foldl_cons, ih]
    simp [hkept]

/-- What a run returns: nothing without random starts or edges, and else a
cluster for every node that an edge touches. -/
theorem detect_cases (library : NetworkAnalysis) (edges : List WeightedEdge) (options : CommunityOptions) :
    (detect library edges options = noCommunities ∧ (options.randomStarts = 0 ∨ (indexNodes edges).keys = [])) ∨
      ∃ (ordered : Clustering (indexNodes edges).keys.length) (quality : ℚ), 0 < options.randomStarts ∧
        detect library edges options =
          { communityOf := OrderedMap.ofList ((indexNodes edges).keys.zip ordered.clusters)
            communityCount := ordered.nClusters
            quality
            sizes := ordered.getNNodesPerCluster } := by
  unfold detect
  dsimp only
  split
  · next hempty => exact Or.inl ⟨rfl, Or.inr hempty⟩
  · split
    · next clustering quality hbest =>
      have hstarts := mt foldl_keepBest_eq_none_iff.mpr (Option.ne_none_iff_exists'.mpr ⟨_, hbest⟩)
      refine Or.inr ⟨library.orderClustersByNNodes clustering, quality, ?_, rfl⟩
      exact Nat.pos_of_ne_zero fun hzero => hstarts ⟨rfl, List.range_eq_nil.mpr hzero⟩
    · next hbest =>
      have hstarts := (foldl_keepBest_eq_none_iff.mp hbest).2
      exact Or.inl ⟨rfl, Or.inl (List.range_eq_nil.mp hstarts)⟩

theorem entries_zip {ids : List String} (hnodup : ids.Nodup) (ordered : Clustering ids.length) :
    (OrderedMap.ofList (ids.zip ordered.clusters)).entries = ids.zip ordered.clusters := by
  refine OrderedMap.entries_ofList ?_
  rwa [List.map_fst_zip ordered.length_clusters.ge]

/-- The nodes of the partition: those that an edge touches, once there is a
random start. -/
theorem mem_keys_communityOf {id : String} : id ∈ (detect library edges options).communityOf.keys ↔
    0 < options.randomStarts ∧ ∃ edge ∈ edges, id = edge.source ∨ id = edge.target := by
  rw [← mem_keys_indexNodes]
  obtain ⟨hnone, hempty⟩ | ⟨ordered, quality, hstarts, hsome⟩ := detect_cases library edges options
  · rw [hnone]
    refine iff_of_false List.not_mem_nil ?_
    rintro ⟨hstarts, hid⟩
    obtain hzero | hkeys := hempty
    · omega
    · rw [hkeys] at hid
      exact absurd hid List.not_mem_nil
  · rw [hsome, and_iff_right hstarts, OrderedMap.keys, entries_zip (indexNodes edges).nodup_keys,
      List.map_fst_zip ordered.length_clusters.ge]

theorem lt_communityCount {id : String} {index : ℕ}
    (h : (detect library edges options).communityOf.get id = some index) :
    index < (detect library edges options).communityCount := by
  obtain ⟨hnone, _⟩ | ⟨ordered, quality, _, hsome⟩ := detect_cases library edges options
  · rw [hnone] at h
    cases h
  · rw [hsome] at h ⊢
    have hmem := OrderedMap.get_eq_some_iff.mp h
    rw [entries_zip (indexNodes edges).nodup_keys] at hmem
    exact ordered.clusters_lt index (List.of_mem_zip hmem).2

/-- The sizes are how often each index occurs in the partition. -/
theorem getD_sizes (library : NetworkAnalysis) (edges : List WeightedEdge) (options : CommunityOptions) (index : ℕ) :
    (detect library edges options).sizes.getD index 0 =
      (detect library edges options).communityOf.values.count index := by
  obtain ⟨hnone, _⟩ | ⟨ordered, quality, _, hsome⟩ := detect_cases library edges options
  · rw [hnone]
    rfl
  · rw [hsome, OrderedMap.values, entries_zip (indexNodes edges).nodup_keys,
      List.map_snd_zip ordered.length_clusters.le, Clustering.getNNodesPerCluster]
    by_cases hindex : index < ordered.nClusters
    · simp [hindex]
    · have hcount : ordered.clusters.count index = 0 :=
        List.count_eq_zero.mpr fun hmem => hindex (ordered.clusters_lt index hmem)
      simp [hindex, hcount]

end codespine.cluster.CommunityDetector
