import Codespine.Commands.ClusterCommand.Rename

open codespine.schema codespine.store codespine.store.KuzuStore codespine.cluster codespine.cluster.GraphClusterer

namespace codespine.commands.ClusterCommand

/-- A partition of the ids into the communities `0..communityCount-1`, with
labels none of which is empty. -/
structure LabelledPartition (ids : List String) where
  result : CommunityResult
  labels : OrderedMap ℕ String
  keys_iff : ∀ id, id ∈ result.communityOf.keys ↔ id ∈ ids
  lt_count : ∀ id index, result.communityOf.get id = some index → index < result.communityCount
  nonempty : ∀ index < result.communityCount, ∃ id, result.communityOf.get id = some index
  labels_ne_empty : ∀ label ∈ labels.values, label ≠ ""

/-- Runs of `cluster` over the same ids, the first of them on `start`, with
successful renames in between. -/
inductive LabelRun (ids : List String) (start : KuzuStore) : KuzuStore → Prop
  | first (partition : LabelledPartition ids) (resolution : ℚ) :
      LabelRun ids start (assign start partition.result partition.labels resolution)
  | cluster {store : KuzuStore} (partition : LabelledPartition ids) (resolution : ℚ) :
      LabelRun ids start store → LabelRun ids start (assign store partition.result partition.labels resolution)
  | rename {store after : KuzuStore} {plan : RenamePlan} (requested : RenameLabels) :
      LabelRun ids start store → runRename store requested = some (plan, after) → LabelRun ids start after

/-- A row without a community, or one with the label that the array has in the
place of its community. -/
def RowAgrees (ids : List String) (items : List Json) (entry : String × NodeRow) : Prop :=
  ∀ community, entry.2.metadata.get COMMUNITY_METADATA_KEY = some community → entry.1 ∈ ids ∧
    ∃ (index : ℕ) (label : String), community = .num index ∧ label ≠ "" ∧ items[index]? = some (.str label) ∧
      entry.2.metadata.get COMMUNITY_LABEL_METADATA_KEY = some (.str label)

/-- The rows agree with the labels of the manifest. -/
def Agrees (ids : List String) (store : KuzuStore) : Prop :=
  ∃ manifest items, store.readGraphMeta CLUSTERING_MANIFEST_KEY = some manifest ∧
    manifest.get "labels" = some (.arr items) ∧ ∀ entry ∈ store.nodes.entries, RowAgrees ids items entry

theorem labelOf_ne_empty {labels : OrderedMap ℕ String} (h : ∀ label ∈ labels.values, label ≠ "") (index : ℕ) :
    labelOf labels index ≠ "" := by
  unfold labelOf OrderedMap.getD
  cases hlabel : labels.get index with
  | none => simp
  | some label => exact h label (List.mem_map_of_mem (OrderedMap.get_eq_some_iff.mp hlabel))

/-- A run over all ids that carry a community makes the rows agree. -/
theorem agrees_assign {ids : List String} {store : KuzuStore} (partition : LabelledPartition ids) (resolution : ℚ)
    (hids : ∀ entry ∈ store.nodes.entries, ∀ community,
      entry.2.metadata.get COMMUNITY_METADATA_KEY = some community → entry.1 ∈ ids) :
    Agrees ids (assign store partition.result partition.labels resolution) := by
  refine ⟨manifest partition.result partition.labels resolution, _, ?_, get_labels_manifest _ _ _, ?_⟩
  · rw [readGraphMeta, graphMeta_assign, OrderedMap.get_set_self]
  · intro entry hentry community hcommunity
    rw [entries_assign] at hentry
    obtain ⟨old, hold, rfl⟩ := List.mem_map.mp hentry
    dsimp only at hcommunity ⊢
    rw [get_community_withCommunity] at hcommunity
    cases hindex : partition.result.communityOf.get old.1 with
    | none =>
      rw [hindex] at hcommunity
      have hid := (partition.keys_iff old.1).mpr (hids old hold community hcommunity)
      exact absurd hid (OrderedMap.get_eq_none_iff.mp hindex)
    | some index =>
      rw [hindex] at hcommunity
      have hid := (partition.keys_iff old.1).mp (OrderedMap.mem_keys_of_get hindex)
      refine ⟨hid, index, labelOf partition.labels index, (Option.some.inj hcommunity).symm, ?_, ?_, ?_⟩
      · exact labelOf_ne_empty partition.labels_ne_empty index
      · exact getElem?_orderLabels (partition.lt_count old.1 index hindex)
      · exact get_label_withCommunity hindex _

theorem getElem?_setLabels (labels : OrderedMap ℕ String) (items : List Json) (index : ℕ) :
    (labels.entries.foldl (fun items entry => items.set entry.1 (.str entry.2)) items)[index]? =
      match labels.get index with
      | some label => if index < items.length then some (.str label) else none
      | none => items[index]? := by
  obtain ⟨entries, hnodup⟩ := labels
  unfold OrderedMap.get
  dsimp only
  induction entries generalizing items with
  | nil => rfl
  | cons entry rest ih =>
    rw [List.map_cons, List.nodup_cons] at hnodup
    rw [List.foldl_cons, ih _ hnodup.2, OrderedMap.lookup]
    by_cases hindex : entry.1 = index
    · rw [OrderedMap.lookup_eq_none_iff.mpr (hindex ▸ hnodup.1), if_pos hindex, hindex, List.getElem?_set_self']
      by_cases hlt : index < items.length
      · simp [hlt]
      · simp [hlt]
    · rw [if_neg hindex, List.length_set, List.getElem?_set_ne hindex]

/-- The members of a community are called what the manifest says. -/
theorem currentLabel_eq {ids : List String} {store : KuzuStore} {items : List Json}
    (hrows : ∀ entry ∈ store.nodes.entries, RowAgrees ids items entry) {index : ℕ} {label : String}
    (hlabel : items[index]? = some (.str label)) (hmembers : membersOf store index ≠ []) :
    currentLabel store index = label := by
  have hall : ∀ member ∈ membersOf store index, member.currentLabel = some label ∧ label ≠ "" := by
    intro member hmember
    obtain ⟨hmember, hcommunity⟩ := List.mem_filter.mp hmember
    obtain ⟨node, hnode, rfl⟩ := List.mem_map.mp hmember
    obtain ⟨entry, hentry, rfl⟩ := List.mem_map.mp hnode
    have hget := communityIn_eq_some_iff.mp (of_decide_eq_true hcommunity)
    obtain ⟨_, index', label', hindex, hne, hitem, hin⟩ := hrows entry hentry _ hget
    obtain rfl : index = index' := Nat.cast_injective (Json.num.inj hindex)
    obtain rfl : label = label' := Json.str.inj (Option.some.inj (hlabel.symm.trans hitem))
    refine ⟨?_, hne⟩
    change labelIn entry.2.metadata = some label
    rw [labelIn, hin]
  unfold currentLabel CommunityNamer.currentLabelOf
  match hlist : membersOf store index, hmembers with
  | first :: rest, _ =>
    obtain ⟨hfirst, hne⟩ := hall first (hlist ▸ List.mem_cons_self)
    have hkept : (first.currentLabel.filter fun text => decide (text ≠ "")) = some label := by
      rw [hfirst]
      exact if_pos (decide_eq_true hne)
    rw [List.findSome?_cons, hkept]

theorem get_community_relabelled (store : KuzuStore) (labels : OrderedMap ℕ String) (metadata : Metadata) :
    (relabelled store labels metadata).get COMMUNITY_METADATA_KEY = metadata.get COMMUNITY_METADATA_KEY := by
  have hne : COMMUNITY_METADATA_KEY ≠ COMMUNITY_LABEL_METADATA_KEY := by decide
  unfold relabelled
  split
  · split
    · rfl
    · exact OrderedMap.get_set_ne hne _
  · rfl

/-- A rename keeps the rows in agreement: what it leaves alone is called so
already. -/
theorem agrees_applyRename {ids : List String} {store : KuzuStore} {labels : OrderedMap ℕ String}
    (hne : ∀ label ∈ labels.values, label ≠ "") (h : Agrees ids store) : Agrees ids (applyRename store labels) := by
  obtain ⟨manifest, items, hmanifest, hitems, hrows⟩ := h
  refine ⟨manifest.set "labels" (.arr (labels.entries.foldl
    (fun items entry => items.set entry.1 (.str entry.2)) items)), _, ?_, OrderedMap.get_set_self _ _ _, ?_⟩
  · rw [readGraphMeta, graphMeta_applyRename, hmanifest, CommunityNamer.updateManifestLabels, Option.map_some, hitems]
    exact OrderedMap.get_set_self _ _ _
  · intro entry hentry community hcommunity
    rw [entries_applyRename] at hentry
    obtain ⟨old, hold, rfl⟩ := List.mem_map.mp hentry
    dsimp only at hcommunity ⊢
    rw [get_community_relabelled] at hcommunity
    obtain ⟨hid, index, label, rfl, hlabelNe, hitem, hlabel⟩ := hrows old hold community hcommunity
    have hin : communityIn old.2.metadata = some (index : ℚ) := communityIn_eq_some_iff.mpr hcommunity
    have hlt : index < items.length := (List.getElem?_eq_some_iff.mp hitem).1
    refine ⟨hid, index, ?_⟩
    rw [getElem?_setLabels]
    cases hrequested : labels.get index with
    | none =>
      have hnone : requestedFor labels old.2.metadata = none := by
        cases hfor : requestedFor labels old.2.metadata with
        | none => rfl
        | some entry =>
          obtain ⟨hget, hcommunityIn⟩ := requestedFor_eq_some_iff.mp hfor
          have hsame : entry.1 = index := Nat.cast_injective (Option.some.inj (hcommunityIn.symm.trans hin))
          rw [hsame, hrequested] at hget
          cases hget
      refine ⟨label, rfl, hlabelNe, hitem, ?_⟩
      rw [relabelled, hnone]
      exact hlabel
    | some text =>
      have htext : text ≠ "" := hne text (List.mem_map_of_mem (OrderedMap.get_eq_some_iff.mp hrequested))
      refine ⟨text, rfl, htext, if_pos hlt, ?_⟩
      rw [relabelled, requestedFor_eq_some_iff.mpr ⟨hrequested, hin⟩]
      dsimp only
      split
      · next hsame =>
        have hmember := mem_membersOf_iff.mpr ⟨old.2, OrderedMap.get_eq_some_iff.mpr hold, hin⟩
        have hmembers : membersOf store index ≠ [] := fun hempty => by simp [hempty] at hmember
        rw [← hsame, currentLabel_eq hrows hitem hmembers]
        exact hlabel
      · exact OrderedMap.get_set_self _ _ _

theorem LabelRun.agrees {ids : List String} {start store : KuzuStore}
    (hstart : ∀ node ∈ start.readNodes, node.metadata.get COMMUNITY_METADATA_KEY = none)
    (h : LabelRun ids start store) : Agrees ids store := by
  induction h with
  | first partition resolution =>
    refine agrees_assign partition resolution fun entry hentry community hcommunity => ?_
    have hnone := hstart _ (List.mem_map_of_mem hentry)
    exact absurd (hcommunity.symm.trans hnone) (Option.some_ne_none _)
  | cluster partition resolution _ ih =>
    obtain ⟨_, _, _, _, hrows⟩ := ih
    exact agrees_assign partition resolution fun entry hentry community hcommunity =>
      (hrows entry hentry community hcommunity).1
  | rename requested _ hrun ih =>
    obtain ⟨_, _, rfl⟩ := runRename_eq_some_iff.mp hrun
    exact agrees_applyRename requested.ne_empty ih

/-- After any run, every node with a community has the label that the manifest
has in the place of that community. -/
theorem labels_agree {ids : List String} {start store : KuzuStore}
    (hstart : ∀ node ∈ start.readNodes, node.metadata.get COMMUNITY_METADATA_KEY = none)
    (h : LabelRun ids start store) : ∃ manifest items,
      store.readGraphMeta CLUSTERING_MANIFEST_KEY = some manifest ∧ manifest.get "labels" = some (.arr items) ∧
        ∀ node ∈ store.readNodes, ∀ community, node.metadata.get COMMUNITY_METADATA_KEY = some community →
          ∃ index : ℕ, community = .num index ∧ ∃ label, items[index]? = some label ∧
            node.metadata.get COMMUNITY_LABEL_METADATA_KEY = some label := by
  obtain ⟨manifest, items, hmanifest, hitems, hrows⟩ := h.agrees hstart
  refine ⟨manifest, items, hmanifest, hitems, fun node hnode community hcommunity => ?_⟩
  obtain ⟨entry, hentry, rfl⟩ := List.mem_map.mp hnode
  obtain ⟨_, index, label, hindex, _, hitem, hlabel⟩ := hrows entry hentry community hcommunity
  exact ⟨index, hindex, _, hitem, hlabel⟩

/-- A freshly loaded graph of two functions. -/
def pairStore : KuzuStore :=
  (KuzuStore.initSchema.load [
    { id := "a", kind := .Function, name := "parse", filePath := "src/a.ts" },
    { id := "b", kind := .Function, name := "render", filePath := "src/b.ts" }] []).1

def pairPartition : LabelledPartition ["a", "b"] where
  result :=
    { communityOf := OrderedMap.ofList [("a", 0), ("b", 1)], communityCount := 2, quality := 1, sizes := [1, 1] }
  labels := OrderedMap.ofList [(0, "a"), (1, "b")]
  keys_iff _ := Iff.rfl
  lt_count id index h := by
    have hmem := OrderedMap.get_eq_some_iff.mp h
    have hall : ∀ entry ∈ (OrderedMap.ofList [("a", 0), ("b", 1)]).entries, entry.2 < 2 := by decide
    exact hall _ hmem
  nonempty index h := by
    have hall : ∀ index < 2, ∃ id ∈ ["a", "b"], (OrderedMap.ofList [("a", 0), ("b", 1)]).get id = some index := by
      decide
    obtain ⟨id, _, hid⟩ := hall index h
    exact ⟨id, hid⟩
  labels_ne_empty := by decide

/-- Renames of a community there is, of one past the end, and none. -/
def pairRename : RenameLabels where
  labels := OrderedMap.ofList [(1, "view"), (7, "nothing")]
  ne_empty := by decide

theorem labels_agree_pair : ∃ store, LabelRun ["a", "b"] pairStore store ∧
    (∀ node ∈ pairStore.readNodes, node.metadata.get COMMUNITY_METADATA_KEY = none) ∧ ∃ manifest items,
      store.readGraphMeta CLUSTERING_MANIFEST_KEY = some manifest ∧ manifest.get "labels" = some (.arr items) ∧
        ∀ node ∈ store.readNodes, ∀ community, node.metadata.get COMMUNITY_METADATA_KEY = some community →
          ∃ index : ℕ, community = .num index ∧ ∃ label, items[index]? = some label ∧
            node.metadata.get COMMUNITY_LABEL_METADATA_KEY = some label := by
  have hstart : ∀ node ∈ pairStore.readNodes, node.metadata.get COMMUNITY_METADATA_KEY = none := by
    intro node hnode
    have hmetadata : ∀ entry ∈ pairStore.readNodes, entry.metadata.keys = [] := by decide +kernel
    refine OrderedMap.get_eq_none_iff.mpr ?_
    rw [hmetadata node hnode]
    exact List.not_mem_nil
  have hsome : ∃ node ∈ (assign pairStore pairPartition.result pairPartition.labels 1).readNodes,
      communityIn node.metadata ≠ none := by decide +kernel
  have hrun := runRename_eq_some_iff.mpr ⟨hsome, rfl, Eq.refl (applyRename _ pairRename.labels)⟩
  have h := LabelRun.rename pairRename (.first pairPartition 1) hrun
  exact ⟨_, h, hstart, labels_agree hstart h⟩

end codespine.commands.ClusterCommand
