import Codespine.Commands.ClusterCommand.Agreement
import Codespine.Commands.History.Communities
import Codespine.Commands.LoadCommand.Reload

open codespine.schema codespine.store codespine.store.KuzuStore codespine.enrich codespine.enrich.RuntimeEnricher
open codespine.cluster codespine.cluster.GraphClusterer codespine.commands.ClusterCommand

namespace codespine.commands

variable {store after : KuzuStore} {id : String}

/-- `metadata.community` of a node, if it is stored and has one. -/
def communityAt (store : KuzuStore) (id : String) : Option Json :=
  (store.nodes.get id).bind fun row => row.metadata.get COMMUNITY_METADATA_KEY

/-- What a command that rewrites the metadata row by row does to it. -/
theorem communityAt_of_entries {f : String → Metadata → Metadata} (h : after.nodes.entries =
      store.nodes.entries.map fun entry => (entry.1, { entry.2 with metadata := f entry.1 entry.2.metadata })) :
    communityAt after id =
      (store.nodes.get id).bind fun row => (f id row.metadata).get COMMUNITY_METADATA_KEY := by
  have hnodes : after.nodes = store.nodes.map fun id row => { row with metadata := f id row.metadata } :=
    OrderedMap.ext h
  rw [communityAt, hnodes, OrderedMap.get_map, Option.bind_map]
  rfl

theorem communityAt_of_kept {f : String → Metadata → Metadata} (h : after.nodes.entries =
      store.nodes.entries.map fun entry => (entry.1, { entry.2 with metadata := f entry.1 entry.2.metadata }))
    (hkept : ∀ id metadata, (f id metadata).get COMMUNITY_METADATA_KEY = metadata.get COMMUNITY_METADATA_KEY) :
    communityAt after id = communityAt store id := by
  rw [communityAt_of_entries h, communityAt]
  simp only [hkept]

theorem get_community_withRuntime (attributions : OrderedMap String RuntimeAttribution) (id : String)
    (metadata : Metadata) :
    (withRuntime attributions id metadata).get COMMUNITY_METADATA_KEY = metadata.get COMMUNITY_METADATA_KEY := by
  have hne : COMMUNITY_METADATA_KEY ≠ RUNTIME_METADATA_KEY := by decide
  unfold withRuntime
  cases attributions.get id with
  | none => rfl
  | some attribution => exact OrderedMap.get_set_ne hne _

/-- Only a clustering gives a node a community, one that is in its partition. -/
theorem communityAt_derive (derivation : Derivation) (store : KuzuStore) (id : String) :
    communityAt (derivation.run store) id = communityAt store id ∨
      ∃ library weights options, derivation = .cluster library weights options ∧
        id ∈ (partitionOf library store weights options).communityOf.keys := by
  cases derivation with
  | enrich host root profileText =>
    left
    change communityAt ((RuntimeEnricher.enrich host profileText root).exec store).2 id = _
    obtain h | ⟨profile, result, h⟩ | ⟨ingested, h⟩ := exec_enrich_cases host root profileText store
    · rw [h]
    · rw [h]
      exact communityAt_of_kept (entries_annotate store profile result) (get_community_withRuntime _)
    · rw [h]
      exact communityAt_of_kept (entries_apply ingested store) (get_community_withRuntime _)
  | cluster library weights options =>
    cases hindex : (partitionOf library store weights options).communityOf.get id with
    | some index => exact Or.inr ⟨library, weights, options, rfl, OrderedMap.mem_keys_of_get hindex⟩
    | none =>
      left
      have hentries := entries_assign store (partitionOf library store weights options)
        (labelsOf store (readWeightedEdges store weights) (partitionOf library store weights options).communityOf)
        options.resolution
      refine (communityAt_of_entries hentries).trans ?_
      unfold communityAt
      simp only [get_community_withCommunity, hindex, Option.map_none, Option.none_or]
  | rename requested =>
    left
    obtain h | h := runRename_cases requested store
    · rw [h]
    · rw [h]
      exact communityAt_of_kept (entries_applyRename store requested.labels)
        fun _ metadata => get_community_relabelled store requested.labels metadata

/-- A load keeps the community of a node that it is not given. -/
theorem communityAt_load (store : KuzuStore) (data : GraphData) (id : String) :
    communityAt (LoadCommand.loadGraph store data).2 id = communityAt store id ∨
      ∃ node ∈ data.nodes, node.id = id ∧
        communityAt (LoadCommand.loadGraph store data).2 id = (node.metadata.getD ∅).get COMMUNITY_METADATA_KEY := by
  unfold communityAt
  rw [LoadCommand.nodes_loadGraph, LoadCommand.nodeRows, List.foldl_map]
  dsimp only
  generalize store.nodes = rows
  induction data.nodes using List.reverseRecOn with
  | nil => exact Or.inl rfl
  | append_singleton nodes node ih =>
    rw [List.foldl_append, List.foldl_cons, List.foldl_nil, OrderedMap.get_set]
    split
    · next hid => exact Or.inr ⟨node, by simp, hid.symm, rfl⟩
    · refine ih.imp_right ?_
      rintro ⟨other, hother, hsame⟩
      exact ⟨other, List.mem_append_left _ hother, hsame⟩

/-- Where in a history a node can have got a community from: it was loaded with
one, or a clustering put it in one. -/
def Sourced (history : List Command) (id : String) : Prop :=
  (∃ data, .load data ∈ history ∧ ∃ node ∈ data.nodes, node.id = id ∧
      (node.metadata.getD ∅).get COMMUNITY_METADATA_KEY ≠ none) ∨
    ∃ earlier library weights options, earlier ++ [.derive (.cluster library weights options)] <+: history ∧
      id ∈ (partitionOf library (reached earlier) weights options).communityOf.keys

theorem Sourced.append {history : List Command} (h : Sourced history id) (command : Command) :
    Sourced (history ++ [command]) id := by
  obtain ⟨data, hdata, hnode⟩ | ⟨earlier, library, weights, options, hearlier, hid⟩ := h
  · exact Or.inl ⟨data, List.mem_append_left _ hdata, hnode⟩
  · exact Or.inr ⟨earlier, library, weights, options, hearlier.trans (List.prefix_append _ _), hid⟩

/-- In every state that a history reaches, a community has such a source. -/
theorem communityAt_reached {history : List Command} (h : communityAt (reached history) id ≠ none) :
    Sourced history id := by
  induction history using List.reverseRecOn with
  | nil => exact absurd rfl h
  | append_singleton history command ih =>
    rw [reached_append] at h
    cases command with
    | load data =>
      obtain hsame | ⟨node, hnode, hid, hmetadata⟩ := communityAt_load (reached history) data id
      · exact (ih (hsame ▸ h)).append _
      · refine Or.inl ⟨data, by simp, node, hnode, hid, ?_⟩
        rw [← hmetadata]
        exact h
    | derive derivation =>
      obtain hsame | ⟨library, weights, options, rfl, hid⟩ := communityAt_derive derivation (reached history) id
      · exact (ih (hsame ▸ h)).append _
      · exact Or.inr ⟨history, library, weights, options, List.prefix_refl _, hid⟩

theorem communityAt_of_mem {node : StoredNode} (hnode : node ∈ store.readNodes) :
    communityAt store node.id = node.metadata.get COMMUNITY_METADATA_KEY := by
  obtain ⟨entry, hentry, rfl⟩ := List.mem_map.mp hnode
  rw [communityAt, OrderedMap.get_eq_some_iff.mpr hentry]
  rfl

/-- A clustering that reaches every node an earlier one reached leaves exactly
its partition, when no graph was loaded with communities. -/
theorem isPartition_of_reaching {history : List Command} {library : NetworkAnalysis} {weights : EdgeKind → ℚ}
    {options : CommunityOptions}
    (hloads : ∀ data, .load data ∈ history → ∀ node ∈ data.nodes,
      (node.metadata.getD ∅).get COMMUNITY_METADATA_KEY = none)
    (hreaches : ∀ earlier library' weights' options',
      earlier ++ [.derive (.cluster library' weights' options')] <+: history →
      ∀ id ∈ (partitionOf library' (reached earlier) weights' options').communityOf.keys,
        id ∈ (partitionOf library (reached history) weights options).communityOf.keys) :
    IsPartition (partitionOf library (reached history) weights options).communityOf
      (cluster library (reached history) weights options).1 (cluster library (reached history) weights options).2 := by
  refine (isPartition_cluster_iff library (reached history) weights options).mpr fun node hnode hcommunity => ?_
  rw [← communityAt_of_mem hnode] at hcommunity
  suffices hid : node.id ∈ (partitionOf library (reached history) weights options).communityOf.keys from
    mem_keys_partitionOf.mp hid
  obtain ⟨data, hdata, other, hother, _, hcarries⟩ | ⟨earlier, library', weights', options', hearlier, hid⟩ :=
    communityAt_reached hcommunity
  · exact absurd (hloads data hdata other hother) hcarries
  · exact hreaches earlier library' weights' options' hearlier node.id hid

end codespine.commands
