import Codespine.Commands.ClusterCommand.Agreement

open codespine.schema codespine.store codespine.store.KuzuStore codespine.cluster codespine.cluster.GraphClusterer

namespace codespine.commands.ClusterCommand

/-- The database after the first `k` metadata writes of a rename. -/
def interrupted (store : KuzuStore) (labels : OrderedMap ℕ String) (k : ℕ) : KuzuStore :=
  store.writeNodeMetadata ((renameUpdates store.readNodes
    (CommunityNamer.plan (store.readNodes.map toAssigned) labels)).take k)

/-- The nodes these writes are about. -/
def written (store : KuzuStore) (labels : OrderedMap ℕ String) (k : ℕ) : List String :=
  ((changesOf store labels).flatMap RenameChange.nodeIds).take k

/-- The nodes of one community have one label. -/
def SharedLabels (store : KuzuStore) : Prop :=
  ∀ node ∈ store.readNodes, ∀ other ∈ store.readNodes, ∀ community,
    communityIn node.metadata = some community → communityIn other.metadata = some community →
      labelIn node.metadata = labelIn other.metadata

variable {store : KuzuStore} {labels : OrderedMap ℕ String} {k : ℕ}

section Rows

/-- An interrupted rename has changed the rows it got to. -/
theorem entries_interrupted (store : KuzuStore) (labels : OrderedMap ℕ String) (k : ℕ) :
    (interrupted store labels k).nodes.entries = store.nodes.entries.map fun entry =>
      (entry.1, { entry.2 with
        metadata := if entry.1 ∈ written store labels k then relabelled store labels entry.2.metadata else entry.2.metadata }) := by
  have hnodup := nodup_renameUpdates store labels
  have htake : (((renameUpdates store.readNodes
      (CommunityNamer.plan (store.readNodes.map toAssigned) labels)).take k).map Prod.fst).Nodup :=
    hnodup.sublist ((List.take_sublist _ _).map Prod.fst)
  rw [interrupted, entries_writeNodeMetadata store htake]
  refine List.map_congr_left fun entry hentry => ?_
  have hmetadata : (OrderedMap.lookup entry.1 ((renameUpdates store.readNodes
      (CommunityNamer.plan (store.readNodes.map toAssigned) labels)).take k)).getD entry.2.metadata =
        if entry.1 ∈ written store labels k then relabelled store labels entry.2.metadata else entry.2.metadata := by
    rw [OrderedMap.lookup_take hnodup, keys_renameUpdates]
    change (if entry.1 ∈ written store labels k then _ else none).getD entry.2.metadata = _
    split
    · exact lookup_renameUpdates hentry labels
    · rfl
  rw [hmetadata]

theorem labelIn_set (metadata : Metadata) (label : String) :
    labelIn (metadata.set COMMUNITY_LABEL_METADATA_KEY (.str label)) = some label := by
  rw [labelIn, OrderedMap.get_set_self]

theorem communityIn_relabelled (store : KuzuStore) (labels : OrderedMap ℕ String) (metadata : Metadata) :
    communityIn (relabelled store labels metadata) = communityIn metadata := by
  rw [communityIn, get_community_relabelled, communityIn]

/-- The label of a row after a rename that asks for one. -/
theorem labelIn_relabelled {metadata : Metadata} {index : ℕ} {label : String} (hlabel : labels.get index = some label)
    (hcommunity : communityIn metadata = some (index : ℚ)) : labelIn (relabelled store labels metadata) =
      if currentLabel store index = label then labelIn metadata else some label := by
  rw [relabelled, requestedFor_eq_some_iff.mpr ⟨hlabel, hcommunity⟩]
  dsimp only
  split
  · rfl
  · exact labelIn_set metadata label

theorem mem_written {id : String} (h : id ∈ written store labels k) : ∃ row, ∃ index : ℕ, ∃ label,
    store.nodes.get id = some row ∧ communityIn row.metadata = some (index : ℚ) ∧ labels.get index = some label ∧
      currentLabel store index ≠ label := by
  obtain ⟨change, hchange, hid⟩ := List.mem_flatMap.mp (List.mem_of_mem_take h)
  obtain ⟨index, label, hlabel, _, hne, rfl⟩ := mem_changesOf_iff.mp hchange
  obtain ⟨row, hrow, hcommunity⟩ := mem_membersOf_iff.mp hid
  exact ⟨row, index, label, hrow, hcommunity, hlabel, hne⟩

theorem currentLabel_ne_of_written {id : String} (h : id ∈ written store labels k) {row : NodeRow} {index : ℕ}
    {label : String} (hlabel : labels.get index = some label) (hrow : store.nodes.get id = some row)
    (hindex : communityIn row.metadata = some (index : ℚ)) : currentLabel store index ≠ label := by
  obtain ⟨row', index', label', hrow', hindex', hlabel', hne⟩ := mem_written h
  obtain rfl := Option.some.inj (hrow.symm.trans hrow')
  obtain rfl : index = index' := Nat.cast_injective (Option.some.inj (hindex.symm.trans hindex'))
  obtain rfl := Option.some.inj (hlabel.symm.trans hlabel')
  exact hne

/-- Of the members of a community the first is written first. -/
theorem head_written {index : ℕ} {first member : AssignedNode} {rest : List AssignedNode}
    (hmembers : membersOf store index = first :: rest) (hmember : member ∈ membersOf store index)
    (h : member.id ∈ written store labels k) : first.id ∈ written store labels k := by
  obtain ⟨change, hchange, hid⟩ := List.mem_flatMap.mp (List.mem_of_mem_take h)
  have hids : change.nodeIds = first.id :: rest.map AssignedNode.id := by
    obtain ⟨index', label, hlabel, _, hne, rfl⟩ := mem_changesOf_iff.mp hchange
    obtain ⟨row, hrow, hcommunity⟩ := mem_membersOf_iff.mp hid
    obtain ⟨row', hrow', hcommunity'⟩ := mem_membersOf_iff.mp (List.mem_map_of_mem hmember)
    obtain rfl := Option.some.inj (hrow.symm.trans hrow')
    obtain rfl : index = index' := Nat.cast_injective (Option.some.inj (hcommunity'.symm.trans hcommunity))
    change (membersOf store index).map AssignedNode.id = _
    rw [hmembers, List.map_cons]
  obtain ⟨pre, post, hsplit⟩ := List.append_of_mem hchange
  have hlist : (changesOf store labels).flatMap RenameChange.nodeIds =
      pre.flatMap RenameChange.nodeIds ++ first.id :: (rest.map AssignedNode.id ++ post.flatMap RenameChange.nodeIds) := by
    rw [hsplit, List.flatMap_append, List.flatMap_cons, hids, List.cons_append]
  have hmem : member.id ∈ (changesOf store labels).flatMap RenameChange.nodeIds := List.mem_of_mem_take h
  have hfirst : first.id ∈ (changesOf store labels).flatMap RenameChange.nodeIds := by
    rw [hlist]
    exact List.mem_append_right _ List.mem_cons_self
  -- nothing of the community comes before its first member
  have hbefore : ∀ id ∈ change.nodeIds, id ∉ pre.flatMap RenameChange.nodeIds := by
    intro id hid hpre
    have hnodup := nodup_nodeIds store labels
    rw [hlist, ← List.cons_append, ← hids] at hnodup
    exact (List.nodup_append.mp hnodup).2.2 id hpre id (List.mem_append_left _ hid) rfl
  have hhead : first.id ∈ change.nodeIds := hids ▸ List.mem_cons_self
  rw [written, List.mem_take_iff_idxOf_lt hmem, hlist, List.idxOf_append_of_notMem (hbefore _ hid)] at h
  rw [written, List.mem_take_iff_idxOf_lt hfirst, hlist, List.idxOf_append_of_notMem (hbefore _ hhead), List.idxOf_cons_self]
  omega

end Rows

section Members

variable {index : ℕ} {label : String}

/-- The members of a community whose rename was interrupted. -/
theorem membersOf_interrupted (hlabel : labels.get index = some label) : membersOf (interrupted store labels k) index =
    (membersOf store index).map fun member =>
      if member.id ∈ written store labels k then { member with currentLabel := some label } else member := by
  have hcommunity : ∀ entry : String × NodeRow, communityIn (if entry.1 ∈ written store labels k
      then relabelled store labels entry.2.metadata else entry.2.metadata) = communityIn entry.2.metadata := by
    intro entry
    split
    · exact communityIn_relabelled store labels _
    · rfl
  unfold membersOf readNodes
  rw [entries_interrupted]
  simp only [List.map_map, List.filter_map, Function.comp_def, toAssigned, hcommunity]
  refine List.map_congr_left fun entry hentry => ?_
  obtain ⟨hmem, hindex⟩ := List.mem_filter.mp hentry
  have hindex : communityIn entry.2.metadata = some (index : ℚ) := of_decide_eq_true hindex
  split
  · next hwritten =>
    have hne := currentLabel_ne_of_written hwritten hlabel (OrderedMap.get_eq_some_iff.mpr hmem) hindex
    rw [labelIn_relabelled hlabel hindex, if_neg hne]
  · rfl

/-- The label of a community with a first member that carries one. -/
theorem currentLabel_of_head {store : KuzuStore} {first : AssignedNode} {rest : List AssignedNode}
    (hmembers : membersOf store index = first :: rest) (hfirst : first.currentLabel = some label) (hne : label ≠ "") :
    currentLabel store index = label := by
  have hkept : (first.currentLabel.filter fun text => decide (text ≠ "")) = some label := by
    rw [hfirst]
    exact if_pos (decide_eq_true hne)
  rw [currentLabel, CommunityNamer.currentLabelOf, hmembers, List.findSome?_cons, hkept]

/-- The label of a community whose members carry none. -/
theorem currentLabel_of_unlabelled {store : KuzuStore}
    (h : ∀ member ∈ membersOf store index, member.currentLabel = none ∨ member.currentLabel = some "") :
    currentLabel store index = "community " ++ toString index := by
  have hnone : (membersOf store index).findSome? (fun member => member.currentLabel.filter fun text => decide (text ≠ "")) =
      none := by
    refine List.findSome?_eq_none_iff.mpr fun member hmember => ?_
    rcases h member hmember with hlabel | hlabel
    · rw [hlabel]
      rfl
    · rw [hlabel]
      rfl
  rw [currentLabel, CommunityNamer.currentLabelOf, hnone]

theorem shared_members (hshared : SharedLabels store) {member other : AssignedNode}
    (hmember : member ∈ membersOf store index) (hother : other ∈ membersOf store index) :
    member.currentLabel = other.currentLabel := by
  obtain ⟨hread, hcommunity⟩ := List.mem_filter.mp hmember
  obtain ⟨node, hnode, rfl⟩ := List.mem_map.mp hread
  obtain ⟨hread', hcommunity'⟩ := List.mem_filter.mp hother
  obtain ⟨node', hnode', rfl⟩ := List.mem_map.mp hread'
  exact hshared node hnode node' hnode' index (of_decide_eq_true hcommunity) (of_decide_eq_true hcommunity')

/-- A rename labels all members of a community it does not skip. -/
theorem labelled_applyRename_iff (store : KuzuStore) (hlabel : labels.get index = some label) :
    (∀ node ∈ (applyRename store labels).readNodes, communityIn node.metadata = some (index : ℚ) →
        labelIn node.metadata = some label) ↔
      (currentLabel store index = label → ∀ member ∈ membersOf store index, member.currentLabel = some label) := by
  constructor
  · intro h hsame member hmember
    obtain ⟨hread, hindex⟩ := List.mem_filter.mp hmember
    obtain ⟨node, hnode, rfl⟩ := List.mem_map.mp hread
    obtain ⟨entry, hentry, rfl⟩ := List.mem_map.mp hnode
    have hcommunity : communityIn entry.2.metadata = some (index : ℚ) := of_decide_eq_true hindex
    have hrow : (entry.1, { entry.2 with metadata := relabelled store labels entry.2.metadata }) ∈
        (applyRename store labels).nodes.entries := by
      rw [entries_applyRename]
      exact List.mem_map_of_mem hentry
    have hafter := h _ (List.mem_map_of_mem hrow) ((communityIn_relabelled store labels _).trans hcommunity)
    dsimp only at hafter
    rwa [labelIn_relabelled hlabel hcommunity, if_pos hsame] at hafter
  · intro h node hnode hcommunity
    obtain ⟨row, hrow, rfl⟩ := List.mem_map.mp hnode
    rw [entries_applyRename] at hrow
    obtain ⟨entry, hentry, rfl⟩ := List.mem_map.mp hrow
    dsimp only at hcommunity ⊢
    rw [communityIn_relabelled] at hcommunity
    rw [labelIn_relabelled hlabel hcommunity]
    split
    · next hsame =>
      exact h hsame _ (List.mem_filter.mpr ⟨List.mem_map_of_mem (List.mem_map_of_mem hentry), decide_eq_true hcommunity⟩)
    · rfl

/-- A rename that is run again finds communities still. -/
theorem clustered_interrupted (hlabel : labels.get index = some label) (hmembers : membersOf store index ≠ []) (k : ℕ) :
    ∃ node ∈ (interrupted store labels k).readNodes, communityIn node.metadata ≠ none := by
  have hresumed : membersOf (interrupted store labels k) index ≠ [] := by
    rw [membersOf_interrupted hlabel]
    exact fun hnil => hmembers (List.map_eq_nil_iff.mp hnil)
  obtain ⟨member, hmember⟩ := List.exists_mem_of_ne_nil _ hresumed
  obtain ⟨hread, hindex⟩ := List.mem_filter.mp hmember
  obtain ⟨node, hnode, rfl⟩ := List.mem_map.mp hread
  refine ⟨node, hnode, ?_⟩
  have hcommunity : communityIn node.metadata = some (index : ℚ) := of_decide_eq_true hindex
  rw [hcommunity]
  exact Option.some_ne_none _

/-- A community whose first member was written is taken to have its new
label. -/
theorem currentLabel_interrupted_of_written (hlabel : labels.get index = some label) (hne : label ≠ "")
    {first : AssignedNode} {rest : List AssignedNode} (hfirst : membersOf store index = first :: rest)
    (hwritten : first.id ∈ written store labels k) : currentLabel (interrupted store labels k) index = label := by
  have hinterrupted := @membersOf_interrupted store labels k index label hlabel
  rw [hfirst, List.map_cons, if_pos hwritten] at hinterrupted
  exact currentLabel_of_head hinterrupted rfl hne

/-- One that was not written to is called what it was. -/
theorem currentLabel_interrupted_of_unwritten (hlabel : labels.get index = some label)
    (hnone : ∀ member ∈ membersOf store index, member.id ∉ written store labels k) :
    currentLabel (interrupted store labels k) index = currentLabel store index := by
  have hsame : ((membersOf store index).map fun member =>
      if member.id ∈ written store labels k then { member with currentLabel := some label } else member) =
        membersOf store index :=
    (List.map_congr_left fun member hmember => if_neg (hnone member hmember)).trans (List.map_id' _)
  rw [currentLabel, membersOf_interrupted hlabel, hsame, currentLabel]

/-- A community that shares an absent or empty label is called by its ordinal. -/
theorem currentLabel_of_bare (hshared : SharedLabels store) {first : AssignedNode} (hhead : first ∈ membersOf store index)
    (hbare : first.currentLabel = none ∨ first.currentLabel = some "") :
    currentLabel store index = "community " ++ toString index := by
  refine currentLabel_of_unlabelled fun member hmember => ?_
  rwa [shared_members hshared hmember hhead]

/-- One that shares another label is called by that. -/
theorem label_or_bare {first : AssignedNode} {rest : List AssignedNode} (hfirst : membersOf store index = first :: rest) :
    first.currentLabel = some (currentLabel store index) ∨ first.currentLabel = none ∨ first.currentLabel = some "" := by
  cases hcarries : first.currentLabel with
  | none => exact Or.inr (Or.inl rfl)
  | some text =>
    by_cases htext : text = ""
    · exact Or.inr (Or.inr (congrArg some htext))
    · rw [currentLabel_of_head hfirst hcarries htext]
      exact Or.inl rfl

/-- What running the rename again has to find of a community: the new label on
all members, if it takes the community to be called that. -/
theorem labelled_interrupted_iff (hshared : SharedLabels store) (hlabel : labels.get index = some label)
    {first : AssignedNode} (hhead : first ∈ membersOf store index) :
    (∀ member ∈ membersOf (interrupted store labels k) index, member.currentLabel = some label) ↔
      ∀ member ∈ membersOf store index, member.id ∉ written store labels k → first.currentLabel = some label := by
  rw [membersOf_interrupted hlabel, List.forall_mem_map]
  refine forall₂_congr fun member hmember => ?_
  split
  · next hwritten => exact iff_of_true rfl fun hnot => absurd hwritten hnot
  · next hnot =>
    rw [shared_members hshared hmember hhead]
    exact ⟨fun h _ => h, fun h => h hnot⟩

/-- A community comes out right when it was written all or not at all, and is
not asked to be called what it would be without a label. -/
theorem labelled_resumed_iff (hshared : SharedLabels store) (hlabel : labels.get index = some label) (hne : label ≠ "")
    (hmembers : membersOf store index ≠ []) :
    (∀ node ∈ (applyRename (interrupted store labels k) labels).readNodes, communityIn node.metadata = some (index : ℚ) →
        labelIn node.metadata = some label) ↔
      ((∀ member ∈ membersOf store index, member.id ∈ written store labels k) ∨
        ∀ member ∈ membersOf store index, member.id ∉ written store labels k) ∧
      ∀ member ∈ membersOf store index, (member.currentLabel = none ∨ member.currentLabel = some "") →
        label ≠ "community " ++ toString index := by
  obtain ⟨first, rest, hfirst⟩ := List.exists_cons_of_ne_nil hmembers
  have hhead : first ∈ membersOf store index := hfirst ▸ List.mem_cons_self
  rw [labelled_applyRename_iff _ hlabel, labelled_interrupted_iff hshared hlabel hhead]
  by_cases hwritten : first.id ∈ written store labels k
  · -- the first member has the new label, so the community is skipped
    obtain ⟨row, hrow, hcommunity⟩ := mem_membersOf_iff.mp (List.mem_map_of_mem hhead)
    have hchanged := currentLabel_ne_of_written hwritten hlabel hrow hcommunity
    rw [currentLabel_interrupted_of_written hlabel hne hfirst hwritten]
    constructor
    · intro h
      refine ⟨Or.inl fun member hmember => ?_, fun member hmember hbare heq => ?_⟩
      · by_contra hnot
        exact hchanged (currentLabel_of_head hfirst (h rfl member hmember hnot) hne)
      · exact hchanged ((currentLabel_of_bare hshared hmember hbare).trans heq.symm)
    · rintro ⟨hall | hnone, _⟩ _ member hmember hnot
      · exact absurd (hall member hmember) hnot
      · exact absurd hwritten (hnone first hhead)
  · have hnone : ∀ member ∈ membersOf store index, member.id ∉ written store labels k :=
      fun member hmember h => hwritten (head_written hfirst hmember h)
    rw [currentLabel_interrupted_of_unwritten hlabel hnone]
    constructor
    · intro h
      refine ⟨Or.inr hnone, fun member hmember hbare heq => ?_⟩
      have hlabelled := h ((currentLabel_of_bare hshared hmember hbare).trans heq.symm) first hhead hwritten
      rw [shared_members hshared hmember hhead] at hbare
      rcases hbare with hbare | hbare
      · rw [hbare] at hlabelled
        cases hlabelled
      · rw [hbare] at hlabelled
        exact hne (Option.some.inj hlabelled).symm
    · rintro ⟨_, hordinal⟩ hcurrent _ _ _
      rcases label_or_bare hfirst with hcarries | hbare
      · rw [hcarries, hcurrent]
      · exact absurd (hcurrent.symm.trans (currentLabel_of_bare hshared hhead hbare)) (hordinal first hhead hbare)

/-- The writes got to all of a community or to none of it, or only to some. -/
theorem members_written_iff (hlabel : labels.get index = some label) (hmembers : membersOf store index ≠ []) :
    ((∀ member ∈ membersOf store index, member.id ∈ written store labels k) ∨
        ∀ member ∈ membersOf store index, member.id ∉ written store labels k) ↔
      ∀ change ∈ changesOf store labels, change.index = index → (∀ id ∈ change.nodeIds, id ∈ written store labels k) ∨
        ∀ id ∈ change.nodeIds, id ∉ written store labels k := by
  constructor
  · rintro h change hchange rfl
    obtain ⟨index, label', _, _, _, rfl⟩ := mem_changesOf_iff.mp hchange
    rw [List.forall_mem_map, List.forall_mem_map]
    exact h
  · intro h
    by_cases hsame : currentLabel store index = label
    · refine Or.inr fun member hmember hwritten => ?_
      obtain ⟨row, hrow, hcommunity⟩ := mem_membersOf_iff.mp (List.mem_map_of_mem hmember)
      exact currentLabel_ne_of_written hwritten hlabel hrow hcommunity hsame
    · have hchange := h _ (mem_changesOf_iff.mpr ⟨index, label, hlabel, hmembers, hsame, rfl⟩) rfl
      rwa [List.forall_mem_map, List.forall_mem_map] at hchange

/-- A rename sets the label of the manifest too, whatever came before it. -/
theorem manifest_resumed (k : ℕ) (hlabel : labels.get index = some label) {manifest : Metadata} {items : List Json}
    (hmanifest : store.readGraphMeta CLUSTERING_MANIFEST_KEY = some manifest)
    (hitems : manifest.get "labels" = some (.arr items)) (hrange : index < items.length) : ∃ manifest' items',
    (applyRename (interrupted store labels k) labels).readGraphMeta CLUSTERING_MANIFEST_KEY = some manifest' ∧
      manifest'.get "labels" = some (.arr items') ∧ items'[index]? = some (.str label) := by
  have hkept : (interrupted store labels k).readGraphMeta CLUSTERING_MANIFEST_KEY = some manifest := by
    rw [readGraphMeta, interrupted, graphMeta_writeNodeMetadata]
    exact hmanifest
  refine ⟨manifest.set "labels" (.arr (labels.entries.foldl
    (fun items entry => items.set entry.1 (.str entry.2)) items)), _, ?_, OrderedMap.get_set_self _ _ _, ?_⟩
  · rw [readGraphMeta, graphMeta_applyRename, hkept, CommunityNamer.updateManifestLabels, Option.map_some, hitems]
    exact OrderedMap.get_set_self _ _ _
  · rw [getElem?_setLabels, hlabel]
    exact if_pos hrange

end Members

/-- Running an interrupted rename again finishes it just when it was not
interrupted inside a community, and nothing without a label is to be called by
its ordinal. -/
theorem rename_resumes_iff (requested : RenameLabels) (k : ℕ) (hshared : SharedLabels store) :
    (∀ index label, requested.labels.get index = some label → membersOf store index ≠ [] →
      ∃ plan after, runRename (interrupted store requested.labels k) requested = some (plan, after) ∧
        (∀ node ∈ after.readNodes, communityIn node.metadata = some (index : ℚ) → labelIn node.metadata = some label) ∧
        ∀ manifest items, store.readGraphMeta CLUSTERING_MANIFEST_KEY = some manifest →
          manifest.get "labels" = some (.arr items) → index < items.length → ∃ manifest' items',
            after.readGraphMeta CLUSTERING_MANIFEST_KEY = some manifest' ∧ manifest'.get "labels" = some (.arr items') ∧
              items'[index]? = some (.str label)) ↔
    (∀ change ∈ changesOf store requested.labels, (∀ id ∈ change.nodeIds, id ∈ written store requested.labels k) ∨
      ∀ id ∈ change.nodeIds, id ∉ written store requested.labels k) ∧
    ∀ node ∈ store.readNodes, ∀ index : ℕ, communityIn node.metadata = some (index : ℚ) →
      labelIn node.metadata = none ∨ labelIn node.metadata = some "" →
        requested.labels.get index ≠ some ("community " ++ toString index) := by
  have hnonempty : ∀ {index label}, requested.labels.get index = some label → label ≠ "" := by
    intro index label hlabel
    exact requested.ne_empty label (List.mem_map_of_mem (OrderedMap.get_eq_some_iff.mp hlabel))
  have hmember : ∀ {node : StoredNode} {index : ℕ}, node ∈ store.readNodes → communityIn node.metadata = some (index : ℚ) →
      toAssigned node ∈ membersOf store index := by
    intro node index hnode hcommunity
    exact List.mem_filter.mpr ⟨List.mem_map_of_mem hnode, decide_eq_true hcommunity⟩
  constructor
  · intro h
    have hlabelled : ∀ index label, requested.labels.get index = some label → membersOf store index ≠ [] →
        ∀ node ∈ (applyRename (interrupted store requested.labels k) requested.labels).readNodes,
          communityIn node.metadata = some (index : ℚ) → labelIn node.metadata = some label := by
      intro index label hlabel hmembers
      obtain ⟨_, _, hrun, hlabelled, _⟩ := h index label hlabel hmembers
      obtain ⟨_, _, rfl⟩ := runRename_eq_some_iff.mp hrun
      exact hlabelled
    refine ⟨fun change hchange => ?_, fun node hnode index hindex hbare hlabel => ?_⟩
    · obtain ⟨index, label, hlabel, hmembers, _, rfl⟩ := mem_changesOf_iff.mp hchange
      have hresumed := (labelled_resumed_iff hshared hlabel (hnonempty hlabel) hmembers).mp (hlabelled _ _ hlabel hmembers)
      exact (members_written_iff hlabel hmembers).mp hresumed.1 _ hchange rfl
    · have hmem := hmember hnode hindex
      have hmembers := List.ne_nil_of_mem hmem
      have hresumed := (labelled_resumed_iff hshared hlabel (hnonempty hlabel) hmembers).mp (hlabelled _ _ hlabel hmembers)
      exact hresumed.2 _ hmem hbare rfl
  · rintro ⟨hwhole, hordinal⟩ index label hlabel hmembers
    refine ⟨_, _, runRename_eq_some_iff.mpr ⟨clustered_interrupted hlabel hmembers k, rfl, rfl⟩,
      (labelled_resumed_iff hshared hlabel (hnonempty hlabel) hmembers).mpr ⟨?_, ?_⟩,
      fun manifest items hmanifest hitems hrange => manifest_resumed k hlabel hmanifest hitems hrange⟩
    · exact (members_written_iff hlabel hmembers).mpr fun change hchange _ => hwhole change hchange
    · rintro member hmem hbare rfl
      obtain ⟨hread, hindex⟩ := List.mem_filter.mp hmem
      obtain ⟨node, hnode, rfl⟩ := List.mem_map.mp hread
      exact hordinal node hnode index (of_decide_eq_true hindex) hbare hlabel

/-- Two functions in one community. -/
def sharedStore : KuzuStore :=
  assign pairStore
    { communityOf := OrderedMap.ofList [("a", 0), ("b", 0)], communityCount := 1, quality := 1, sizes := [2] }
    (OrderedMap.ofList [(0, "helpers")]) 1

def sharedRename : RenameLabels where
  labels := OrderedMap.ofList [(0, "text")]
  ne_empty := by decide

/-- Interrupted between the two, a rename is not finished by another one. -/
theorem rename_not_resumed : ¬ ∀ (store : KuzuStore) (requested : RenameLabels) (k : ℕ), SharedLabels store →
    ∀ index label, requested.labels.get index = some label → membersOf store index ≠ [] →
      ∃ plan after, runRename (interrupted store requested.labels k) requested = some (plan, after) ∧
        (∀ node ∈ after.readNodes, communityIn node.metadata = some (index : ℚ) → labelIn node.metadata = some label) ∧
        ∀ manifest items, store.readGraphMeta CLUSTERING_MANIFEST_KEY = some manifest →
          manifest.get "labels" = some (.arr items) → index < items.length → ∃ manifest' items',
            after.readGraphMeta CLUSTERING_MANIFEST_KEY = some manifest' ∧ manifest'.get "labels" = some (.arr items') ∧
              items'[index]? = some (.str label) := by
  intro hclaim
  have hlabels : ∀ node ∈ sharedStore.readNodes, labelIn node.metadata = some "helpers" := by decide +kernel
  have hshared : SharedLabels sharedStore := fun node hnode other hother _ _ _ =>
    (hlabels node hnode).trans (hlabels other hother).symm
  have hmembers : membersOf sharedStore 0 ≠ [] := List.ne_nil_of_length_pos (by decide +kernel)
  obtain ⟨_, _, hrun, hlabelled, _⟩ := hclaim sharedStore sharedRename 1 hshared 0 "text" rfl hmembers
  obtain ⟨_, _, rfl⟩ := runRename_eq_some_iff.mp hrun
  exact absurd hlabelled (by decide +kernel)

/-- New names for two communities. -/
def bothRename : RenameLabels where
  labels := OrderedMap.ofList [(0, "text"), (1, "view")]
  ne_empty := by decide

/-- Interrupted between two communities, it is. -/
theorem rename_resumes_iff_pair : ∃ plan after,
    runRename (interrupted (assign pairStore pairPartition.result pairPartition.labels 1) bothRename.labels 1) bothRename =
      some (plan, after) ∧
    ∀ node ∈ after.readNodes, communityIn node.metadata = some ((1 : ℕ) : ℚ) → labelIn node.metadata = some "view" := by
  have hlabels : ∀ node ∈ (assign pairStore pairPartition.result pairPartition.labels 1).readNodes,
      labelIn node.metadata ≠ none ∧ labelIn node.metadata ≠ some "" := by decide +kernel
  have hapart : ∀ node ∈ (assign pairStore pairPartition.result pairPartition.labels 1).readNodes,
      ∀ other ∈ (assign pairStore pairPartition.result pairPartition.labels 1).readNodes,
        communityIn node.metadata = communityIn other.metadata → labelIn node.metadata = labelIn other.metadata := by
    decide +kernel
  have hmembers : membersOf (assign pairStore pairPartition.result pairPartition.labels 1) 1 ≠ [] :=
    List.ne_nil_of_length_pos (by decide +kernel)
  have hresumes := (rename_resumes_iff bothRename 1 fun node hnode other hother _ hnode' hother' =>
    hapart node hnode other hother (hnode'.trans hother'.symm)).mpr
      ⟨by decide +kernel, fun node hnode _ _ hbare => by
        rcases hbare with hbare | hbare
        · exact absurd hbare (hlabels node hnode).1
        · exact absurd hbare (hlabels node hnode).2⟩
  obtain ⟨plan, after, hrun, hlabelled, _⟩ := hresumes 1 "view" rfl hmembers
  exact ⟨plan, after, hrun, hlabelled⟩

end codespine.commands.ClusterCommand
