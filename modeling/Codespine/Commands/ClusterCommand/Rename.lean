import Codespine.Cluster.GraphClusterer.Writes
import Codespine.Commands.ClusterCommand

open codespine.schema codespine.store codespine.store.KuzuStore codespine.cluster

namespace codespine.commands.ClusterCommand

theorem communityIn_eq_some_iff {metadata : Metadata} {community : ℚ} :
    communityIn metadata = some community ↔ metadata.get COMMUNITY_METADATA_KEY = some (.num community) := by
  unfold communityIn
  split
  · next value hvalue => simp [hvalue]
  · next hother =>
    constructor
    · intro h
      cases h
    · exact fun h => absurd h (hother community)

/-- The stored nodes of a community, as the namer sees them. -/
def membersOf (store : KuzuStore) (index : ℕ) : List AssignedNode :=
  (store.readNodes.map toAssigned).filter fun node => node.community = some (index : ℚ)

/-- The label a rename starts from. -/
def currentLabel (store : KuzuStore) (index : ℕ) : String := CommunityNamer.currentLabelOf index (membersOf store index)

theorem mem_membersOf_iff {store : KuzuStore} {index : ℕ} {id : String} :
    id ∈ (membersOf store index).map AssignedNode.id ↔
      ∃ row, store.nodes.get id = some row ∧ communityIn row.metadata = some (index : ℚ) := by
  simp only [membersOf, readNodes, List.map_map, List.mem_map, List.mem_filter, Function.comp_apply, toAssigned,
    decide_eq_true_eq]
  constructor
  · rintro ⟨_, ⟨⟨entry, hentry, rfl⟩, hcommunity⟩, rfl⟩
    exact ⟨entry.2, OrderedMap.get_eq_some_iff.mpr hentry, hcommunity⟩
  · rintro ⟨row, hrow, hcommunity⟩
    exact ⟨_, ⟨⟨(id, row), OrderedMap.get_eq_some_iff.mp hrow, rfl⟩, hcommunity⟩, rfl⟩

/-- A community changes its name when it has members and is not called so
already. -/
theorem planChange_eq_some_iff {store : KuzuStore} {labels : OrderedMap ℕ String} {index : ℕ} {change : RenameChange} :
    CommunityNamer.planChange (CommunityNamer.group (store.readNodes.map toAssigned)) labels index = some change ↔
      membersOf store index ≠ [] ∧ currentLabel store index ≠ labels.getD index "" ∧
        ⟨index, currentLabel store index, labels.getD index "", (membersOf store index).map AssignedNode.id⟩ =
          change := by
  have hgroup : (CommunityNamer.group (store.readNodes.map toAssigned)).get (index : ℚ) =
      if membersOf store index = [] then none else some (membersOf store index) := OrderedMap.get_group _ _ _
  unfold CommunityNamer.planChange
  rw [hgroup]
  split
  · next hempty => simp [hempty]
  · next hne =>
    simp only [Option.bind_some, ne_eq, hne, not_false_eq_true, true_and]
    change (if currentLabel store index = labels.getD index "" then none else _) = some change ↔ _
    split
    · next hsame => simp [hsame]
    · next hchanged =>
      rw [Option.some.injEq]
      exact ⟨fun h => ⟨hchanged, h⟩, fun h => h.2⟩

/-- The changes of a rename of the stored nodes. -/
def changesOf (store : KuzuStore) (labels : OrderedMap ℕ String) : List RenameChange :=
  (CommunityNamer.plan (store.readNodes.map toAssigned) labels).changes

theorem mem_changesOf_iff {store : KuzuStore} {labels : OrderedMap ℕ String} {change : RenameChange} :
    change ∈ changesOf store labels ↔ ∃ index label, labels.get index = some label ∧ membersOf store index ≠ [] ∧
      currentLabel store index ≠ label ∧
      ⟨index, currentLabel store index, label, (membersOf store index).map AssignedNode.id⟩ = change := by
  simp only [changesOf, CommunityNamer.plan, List.mem_filterMap, Comparator.mem_sort, planChange_eq_some_iff]
  constructor
  · rintro ⟨index, hkey, hmembers, hne, rfl⟩
    cases hlabel : labels.get index with
    | none => exact absurd hkey (OrderedMap.get_eq_none_iff.mp hlabel)
    | some label =>
      rw [OrderedMap.getD, hlabel, Option.getD_some] at hne ⊢
      exact ⟨index, label, hlabel, hmembers, hne, rfl⟩
  · rintro ⟨index, label, hlabel, hmembers, hne, rfl⟩
    have hgetD : labels.getD index "" = label := by rw [OrderedMap.getD, hlabel, Option.getD_some]
    exact ⟨index, OrderedMap.mem_keys_of_get hlabel, hmembers, hgetD ▸ hne, hgetD ▸ rfl⟩

/-- No node is renamed twice. -/
theorem nodup_nodeIds (store : KuzuStore) (labels : OrderedMap ℕ String) :
    ((changesOf store labels).flatMap RenameChange.nodeIds).Nodup := by
  refine List.nodup_flatMap.mpr ⟨fun change hchange => ?_, ?_⟩
  · obtain ⟨index, label, _, _, _, rfl⟩ := mem_changesOf_iff.mp hchange
    have hids : ((store.readNodes.map toAssigned).map AssignedNode.id).Nodup := by
      rw [List.map_map]
      exact readNodes_nodup store
    exact hids.sublist (List.filter_sublist.map AssignedNode.id)
  · have hkeys : ((Comparator.ascending fun index : ℕ => (index : ℚ)).sort labels.keys).Nodup :=
      (Comparator.sort_perm _ _).nodup_iff.mpr labels.nodup_keys
    unfold changesOf CommunityNamer.plan
    refine List.Pairwise.filterMap _ (fun index index' hne change hchange change' hchange' id hid hid' => ?_) hkeys
    obtain ⟨_, _, rfl⟩ := planChange_eq_some_iff.mp hchange
    obtain ⟨_, _, rfl⟩ := planChange_eq_some_iff.mp hchange'
    obtain ⟨row, hrow, hcommunity⟩ := mem_membersOf_iff.mp hid
    obtain ⟨row', hrow', hcommunity'⟩ := mem_membersOf_iff.mp hid'
    obtain rfl := Option.some.inj (hrow.symm.trans hrow')
    exact hne (Nat.cast_injective (Option.some.inj (hcommunity.symm.trans hcommunity')))

theorem keys_renameUpdates (nodes : List StoredNode) (plan : RenamePlan) :
    (renameUpdates nodes plan).map Prod.fst = plan.changes.flatMap RenameChange.nodeIds := by
  simp [renameUpdates, List.map_flatMap, Function.comp_def]

/-- The writes of a rename: the requested label for every member of a community
that is not called so already. -/
theorem mem_renameUpdates_iff {store : KuzuStore} {labels : OrderedMap ℕ String} {id : String} {metadata : Metadata} :
    (id, metadata) ∈ renameUpdates store.readNodes (CommunityNamer.plan (store.readNodes.map toAssigned) labels) ↔
      ∃ row, store.nodes.get id = some row ∧ ∃ index label, labels.get index = some label ∧
        communityIn row.metadata = some (index : ℚ) ∧ currentLabel store index ≠ label ∧
        row.metadata.set COMMUNITY_LABEL_METADATA_KEY (.str label) = metadata := by
  have hmetadata : ∀ {row}, store.nodes.get id = some row →
      (((OrderedMap.ofList (store.readNodes.map fun node => (node.id, node))).get id).map StoredNode.metadata).getD ∅ =
        row.metadata := by
    intro row hrow
    have h := metadata_byId store (OrderedMap.get_eq_some_iff.mp hrow)
    dsimp only at h
    rw [h, Option.getD_some]
  unfold renameUpdates
  simp only [List.mem_flatMap, List.mem_map, Prod.mk.injEq]
  constructor
  · rintro ⟨change, hchange, _, hid, rfl, rfl⟩
    obtain ⟨index, label, hlabel, _, hne, rfl⟩ := mem_changesOf_iff.mp hchange
    obtain ⟨row, hrow, hcommunity⟩ := mem_membersOf_iff.mp hid
    exact ⟨row, hrow, index, label, hlabel, hcommunity, hne, by rw [hmetadata hrow]⟩
  · rintro ⟨row, hrow, index, label, hlabel, hcommunity, hne, rfl⟩
    have hid := mem_membersOf_iff.mpr ⟨row, hrow, hcommunity⟩
    have hmembers : membersOf store index ≠ [] := fun hempty => by simp [hempty] at hid
    refine ⟨_, mem_changesOf_iff.mpr ⟨index, label, hlabel, hmembers, hne, rfl⟩, id, hid, rfl, ?_⟩
    rw [hmetadata hrow]

/-- The label requested for the community in a node's metadata. -/
def requestedFor (labels : OrderedMap ℕ String) (metadata : Metadata) : Option (ℕ × String) :=
  labels.entries.find? fun entry => communityIn metadata = some (entry.1 : ℚ)

theorem requestedFor_eq_some_iff {labels : OrderedMap ℕ String} {metadata : Metadata} {index : ℕ} {label : String} :
    requestedFor labels metadata = some (index, label) ↔
      labels.get index = some label ∧ communityIn metadata = some (index : ℚ) := by
  unfold requestedFor
  constructor
  · intro h
    have hcommunity := List.find?_some h
    exact ⟨OrderedMap.get_eq_some_iff.mpr (List.mem_of_find?_eq_some h), of_decide_eq_true hcommunity⟩
  · rintro ⟨hlabel, hcommunity⟩
    cases hfound : labels.entries.find? fun entry => communityIn metadata = some (entry.1 : ℚ) with
    | none =>
      have hnone := List.find?_eq_none.mp hfound (index, label) (OrderedMap.get_eq_some_iff.mp hlabel)
      exact absurd (decide_eq_true hcommunity) hnone
    | some entry =>
      have hentry := OrderedMap.get_eq_some_iff.mpr (List.mem_of_find?_eq_some hfound)
      have hsame := List.find?_some hfound
      have hindex : entry.1 = index := by
        have hcast := (of_decide_eq_true hsame).symm.trans hcommunity
        exact Nat.cast_injective (Option.some.inj hcast)
      rw [hindex, hlabel] at hentry
      rw [← hindex, Option.some.inj hentry]

/-- A row's metadata after a rename: the label requested for its community, if
there is one and the community is not called so already. -/
def relabelled (store : KuzuStore) (labels : OrderedMap ℕ String) (metadata : Metadata) : Metadata :=
  match requestedFor labels metadata with
  | some (index, label) =>
    if currentLabel store index = label then metadata else metadata.set COMMUNITY_LABEL_METADATA_KEY (.str label)
  | none => metadata

theorem applyRename_eq (store : KuzuStore) (labels : OrderedMap ℕ String) : ∃ renamed : KuzuStore,
    renamed = store.writeNodeMetadata (renameUpdates store.readNodes
      (CommunityNamer.plan (store.readNodes.map toAssigned) labels)) ∧
    (applyRename store labels).nodes = renamed.nodes ∧ (applyRename store labels).edges = renamed.edges ∧
    (applyRename store labels).graphMeta =
      match CommunityNamer.updateManifestLabels (store.readGraphMeta CLUSTERING_MANIFEST_KEY) labels with
      | some manifest => store.graphMeta.set CLUSTERING_MANIFEST_KEY manifest
      | none => store.graphMeta := by
  refine ⟨_, rfl, ?_⟩
  unfold applyRename readGraphMeta
  dsimp only
  rw [graphMeta_writeNodeMetadata]
  cases CommunityNamer.updateManifestLabels (store.graphMeta.get CLUSTERING_MANIFEST_KEY) labels with
  | none => exact ⟨rfl, rfl, graphMeta_writeNodeMetadata _ _⟩
  | some manifest =>
    refine ⟨rfl, rfl, ?_⟩
    change (store.writeNodeMetadata _).graphMeta.set _ _ = _
    rw [graphMeta_writeNodeMetadata]

theorem nodup_renameUpdates (store : KuzuStore) (labels : OrderedMap ℕ String) :
    ((renameUpdates store.readNodes (CommunityNamer.plan (store.readNodes.map toAssigned) labels)).map Prod.fst).Nodup := by
  rw [keys_renameUpdates]
  exact nodup_nodeIds store labels

/-- What a rename writes for a row. -/
theorem lookup_renameUpdates {store : KuzuStore} {entry : String × NodeRow} (hentry : entry ∈ store.nodes.entries)
    (labels : OrderedMap ℕ String) :
    (OrderedMap.lookup entry.1 (renameUpdates store.readNodes
      (CommunityNamer.plan (store.readNodes.map toAssigned) labels))).getD entry.2.metadata =
        relabelled store labels entry.2.metadata := by
  have hrow := OrderedMap.get_eq_some_iff.mpr hentry
  cases hfound : OrderedMap.lookup entry.1 (renameUpdates store.readNodes
      (CommunityNamer.plan (store.readNodes.map toAssigned) labels)) with
  | some metadata =>
    obtain ⟨row, hget, index, label, hlabel, hcommunity, hne, rfl⟩ :=
      mem_renameUpdates_iff.mp (OrderedMap.mem_of_lookup hfound)
    obtain rfl := Option.some.inj (hrow.symm.trans hget)
    rw [relabelled, requestedFor_eq_some_iff.mpr ⟨hlabel, hcommunity⟩]
    exact (if_neg hne).symm
  | none =>
    rw [Option.getD_none, relabelled]
    split
    · next index label hrequested =>
      split
      · rfl
      · next hne =>
        obtain ⟨hlabel, hcommunity⟩ := requestedFor_eq_some_iff.mp hrequested
        have hmem := mem_renameUpdates_iff.mpr ⟨entry.2, hrow, index, label, hlabel, hcommunity, hne, rfl⟩
        exact absurd (List.mem_map_of_mem hmem) (OrderedMap.lookup_eq_none_iff.mp hfound)
    · rfl

/-- A rename changes of the node rows only the label of those it renames. -/
theorem entries_applyRename (store : KuzuStore) (labels : OrderedMap ℕ String) :
    (applyRename store labels).nodes.entries = store.nodes.entries.map fun entry =>
      (entry.1, { entry.2 with metadata := relabelled store labels entry.2.metadata }) := by
  obtain ⟨renamed, hrenamed, hnodes, _⟩ := applyRename_eq store labels
  rw [hnodes, hrenamed, entries_writeNodeMetadata store (nodup_renameUpdates store labels)]
  refine List.map_congr_left fun entry hentry => ?_
  rw [lookup_renameUpdates hentry]

theorem edges_applyRename (store : KuzuStore) (labels : OrderedMap ℕ String) :
    (applyRename store labels).edges = store.edges := by
  obtain ⟨_, rfl, _, hedges, _⟩ := applyRename_eq store labels
  rw [hedges, edges_writeNodeMetadata]

theorem graphMeta_applyRename (store : KuzuStore) (labels : OrderedMap ℕ String) :
    (applyRename store labels).graphMeta =
      match CommunityNamer.updateManifestLabels (store.readGraphMeta CLUSTERING_MANIFEST_KEY) labels with
      | some manifest => store.graphMeta.set CLUSTERING_MANIFEST_KEY manifest
      | none => store.graphMeta := by
  obtain ⟨_, _, _, _, hgraphMeta⟩ := applyRename_eq store labels
  exact hgraphMeta

/-- A rename succeeds when some node has a community. -/
theorem runRename_eq_some_iff {store after : KuzuStore} {requested : RenameLabels} {plan : RenamePlan} :
    runRename store requested = some (plan, after) ↔ (∃ node ∈ store.readNodes, communityIn node.metadata ≠ none) ∧
      CommunityNamer.plan (store.readNodes.map toAssigned) requested.labels = plan ∧
        applyRename store requested.labels = after := by
  have hall : ((store.readNodes.map toAssigned).all fun node => node.community = none) = true ↔
      ∀ node ∈ store.readNodes, communityIn node.metadata = none := by
    rw [List.all_map, List.all_eq_true]
    exact forall₂_congr fun node _ => decide_eq_true_iff
  unfold runRename
  dsimp only
  split
  · next hnone =>
    refine iff_of_false (fun h => nomatch h) ?_
    rintro ⟨⟨node, hnode, hsome⟩, _⟩
    exact hsome (hall.mp hnone node hnode)
  · next hsome =>
    rw [hall] at hsome
    push Not at hsome
    rw [Option.some.injEq, Prod.mk.injEq]
    exact ⟨fun h => ⟨hsome, h⟩, fun h => h.2⟩

end codespine.commands.ClusterCommand
