import Codespine.Commands.History.Rows
import Codespine.Commands.WebviewCommand.View

open codespine.schema codespine.store codespine.store.KuzuStore codespine.enrich codespine.enrich.RuntimeEnricher
open codespine.cluster codespine.report codespine.webview codespine.commands.ClusterCommand

namespace codespine.commands.WebviewCommand

/-- A node in a community has the label of one. -/
def Labelled (metadata : Metadata) : Prop := communityIn metadata ≠ none → labelIn metadata ≠ none

theorem labelIn_of_get {metadata : Metadata} {label : String}
    (h : metadata.get COMMUNITY_LABEL_METADATA_KEY = some (.str label)) : labelIn metadata = some label := by
  unfold labelIn
  rw [h]

/-- Whoever puts a node in a community, or calls the community otherwise, gives
it a label. -/
theorem Labelled.rewritten {metadata metadata' : Metadata} (h : Labelled metadata)
    (hrewritten : Rewritten metadata metadata') : Labelled metadata' := by
  cases hrewritten with
  | same => exact h
  | measured attribution =>
    have hcommunity : COMMUNITY_METADATA_KEY ≠ RUNTIME_METADATA_KEY := by decide
    have hlabel : COMMUNITY_LABEL_METADATA_KEY ≠ RUNTIME_METADATA_KEY := by decide
    unfold Labelled communityIn labelIn at h ⊢
    rw [OrderedMap.get_set_ne hcommunity, OrderedMap.get_set_ne hlabel]
    exact h
  | clustered index label =>
    intro _
    rw [labelIn_of_get (OrderedMap.get_set_self _ _ _)]
    exact Option.some_ne_none label
  | renamed index label _ =>
    intro _
    rw [labelIn_of_get (OrderedMap.get_set_self _ _ _)]
    exact Option.some_ne_none label

/-- The label of a community is that of its first member that has one. -/
theorem get_communityLabels (nodes : List StoredNode) (community : ℚ) :
    (ReportData.communityLabels nodes).get community = nodes.findSome? fun node =>
      if communityIn node.metadata = some community then labelIn node.metadata else none := by
  unfold ReportData.communityLabels
  induction nodes using List.reverseRecOn with
  | nil => rfl
  | append_singleton nodes node ih =>
    rw [List.foldl_append, List.foldl_cons, List.foldl_nil, List.findSome?_append, ← ih, List.findSome?_singleton]
    generalize nodes.foldl _ (∅ : OrderedMap ℚ String) = labels
    cases hcommunity : communityIn node.metadata with
    | none => simp
    | some index =>
      cases hlabel : labelIn node.metadata with
      | none => simp
      | some label =>
        dsimp only
        by_cases hsame : index = community
        · subst hsame
          rw [if_pos rfl]
          split
          · next hkey =>
            cases hget : labels.get index with
            | none => exact absurd hkey (OrderedMap.get_eq_none_iff.mp hget)
            | some other => rfl
          · next hkey => rw [OrderedMap.get_set_self, OrderedMap.get_eq_none_iff.mpr hkey, Option.none_or]
        · rw [if_neg fun h => hsame (Option.some.inj h), Option.or_none]
          split
          · rfl
          · exact OrderedMap.get_set_ne (Ne.symm hsame) _

/-- In every state that a history reaches, each community of the legend has a
label, the one that a member of it carries: no row of the legend is without
text, and the report needs no substitute. -/
theorem legend_labelled {history : List Command}
    (hloads : ∀ data, .load data ∈ history → ∀ node ∈ data.nodes, Labelled (node.metadata.getD ∅)) :
    let view := Graph.setData (buildDataScript (reached history)).nodes (buildDataScript (reached history)).edges
    ∀ entry ∈ view.communities, ∃ label, view.communityLabels.get entry.1 = some label ∧
      ∃ node ∈ (reached history).readNodes, communityIn node.metadata = some entry.1 ∧
        labelIn node.metadata = some label := by
  intro view entry hentry
  have hview : Shows (reached history) view := shows_setData (reached history)
  have hlabelled := metadata_reached hloads fun _ _ => Labelled.rewritten
  rw [hview.labels, get_communityLabels]
  have hkey : entry.1 ∈ (ReportData.communitySizes (reached history).readNodes).keys :=
    List.mem_map_of_mem (hview.communities.1.mem_iff.mp hentry)
  obtain ⟨node, hnode, hcommunity⟩ := List.mem_filterMap.mp (OrderedMap.mem_keys_tally.mp hkey)
  obtain ⟨row, hrow, rfl⟩ := List.mem_map.mp hnode
  obtain ⟨label, hlabel⟩ := Option.ne_none_iff_exists'.mp (hlabelled row hrow (hcommunity ▸ Option.some_ne_none _))
  cases hfound : (reached history).readNodes.findSome? fun node =>
      if communityIn node.metadata = some entry.1 then labelIn node.metadata else none with
  | none =>
    have hnone := List.findSome?_eq_none_iff.mp hfound _ hnode
    rw [if_pos hcommunity] at hnone
    exact absurd hnone (hlabel ▸ Option.some_ne_none label)
  | some found =>
    obtain ⟨other, hother, hread⟩ := List.exists_of_findSome?_eq_some hfound
    split at hread
    · next hin => exact ⟨found, rfl, other, hother, hin, hread⟩
    · cases hread

/-- A graph clustered, and enriched after that. -/
def clustered : List Command := [.load twoFunctions, .derive (.enrich profileHost "/app" callText),
  .derive (.cluster oneCommunity CLUSTER_EDGE_WEIGHTS DEFAULT_COMMUNITY_OPTIONS),
  .derive (.enrich profileHost "/app" idleText)]

theorem legend_labelled_clustered :
    let view := Graph.setData (buildDataScript (reached clustered)).nodes (buildDataScript (reached clustered)).edges
    view.communities ≠ [] ∧ ∀ entry ∈ view.communities, ∃ label, view.communityLabels.get entry.1 = some label := by
  refine ⟨by decide +kernel, fun entry hentry => ?_⟩
  have hloads : ∀ data, .load data ∈ clustered → ∀ node ∈ data.nodes, Labelled (node.metadata.getD ∅) := by
    intro data hdata node hnode
    have hload : data = twoFunctions := by
      simpa [clustered] using hdata
    subst hload
    intro hcommunity
    refine absurd ?_ hcommunity
    revert node
    decide +kernel
  obtain ⟨label, hlabel, _⟩ := legend_labelled hloads entry hentry
  exact ⟨label, hlabel⟩

end codespine.commands.WebviewCommand
