import Codespine.Commands.LoadCommand.Reload
import Codespine.Enrich.RuntimeEnricher.Layer

open codespine.schema codespine.store codespine.store.KuzuStore codespine.enrich codespine.enrich.RuntimeEnricher
open codespine.cluster codespine.cluster.GraphClusterer codespine.commands.ClusterCommand

namespace codespine.commands

/-- What a derivation can make of the metadata of one node. -/
inductive Rewritten (metadata : Metadata) : Metadata → Prop
  | same : Rewritten metadata metadata
  | measured (attribution : RuntimeAttribution) :
      Rewritten metadata (metadata.set RUNTIME_METADATA_KEY (toMetrics attribution).toJson)
  | clustered (index : ℕ) (label : String) :
      Rewritten metadata ((metadata.set COMMUNITY_METADATA_KEY (.num index)).set COMMUNITY_LABEL_METADATA_KEY (.str label))
  | renamed (index : ℕ) (label : String) (hcommunity : communityIn metadata = some (index : ℚ)) :
      Rewritten metadata (metadata.set COMMUNITY_LABEL_METADATA_KEY (.str label))

theorem rewritten_withRuntime (attributions : OrderedMap String RuntimeAttribution) (id : String) (metadata : Metadata) :
    Rewritten metadata (withRuntime attributions id metadata) := by
  unfold withRuntime
  cases attributions.get id with
  | none => exact .same
  | some attribution => exact .measured attribution

theorem rewritten_withCommunity (communityOf : OrderedMap String ℕ) (labels : OrderedMap ℕ String) (id : String)
    (metadata : Metadata) : Rewritten metadata (withCommunity communityOf labels id metadata) := by
  unfold withCommunity
  cases communityOf.get id with
  | none => exact .same
  | some index => exact .clustered index _

theorem rewritten_relabelled (store : KuzuStore) (labels : OrderedMap ℕ String) (metadata : Metadata) :
    Rewritten metadata (relabelled store labels metadata) := by
  unfold relabelled
  split
  · next index label hrequested =>
    split
    · exact .same
    · exact .renamed index label (requestedFor_eq_some_iff.mp hrequested).2
  · exact .same

/-- A derivation rewrites the metadata of rows and nothing else of them. -/
theorem Derivation.rewrites (derivation : Derivation) (store : KuzuStore) : ∃ f : String → Metadata → Metadata,
    ((derivation.run store).nodes.entries = store.nodes.entries.map fun entry =>
      (entry.1, { entry.2 with metadata := f entry.1 entry.2.metadata })) ∧
    ∀ id metadata, Rewritten metadata (f id metadata) := by
  have huntouched : store.nodes.entries = store.nodes.entries.map fun entry =>
      (entry.1, { entry.2 with metadata := (fun (_ : String) metadata => metadata) entry.1 entry.2.metadata }) :=
    (List.map_id _).symm
  cases derivation with
  | enrich host root profileText =>
    change ∃ f, ((RuntimeEnricher.enrich host profileText root).exec store).2.nodes.entries = _ ∧ _
    obtain h | ⟨profile, result, h⟩ | ⟨ingested, h⟩ := exec_enrich_cases host root profileText store
    · rw [h]
      exact ⟨_, huntouched, fun _ _ => .same⟩
    · rw [h]
      exact ⟨_, entries_annotate store profile result, rewritten_withRuntime _⟩
    · rw [h]
      exact ⟨_, entries_apply ingested store, rewritten_withRuntime _⟩
  | cluster library weights options => exact ⟨_, entries_assign store _ _ _, rewritten_withCommunity _ _⟩
  | rename requested =>
    obtain h | h := runRename_cases requested store
    · rw [h]
      exact ⟨_, huntouched, fun _ _ => .same⟩
    · rw [h]
      exact ⟨_, entries_applyRename store requested.labels, fun _ => rewritten_relabelled store requested.labels⟩

variable {P : Metadata → Prop}

/-- A row after a load is new or was there before. -/
theorem metadata_load {store : KuzuStore} {data : GraphData} (hnew : ∀ node ∈ data.nodes, P (node.metadata.getD ∅))
    (hbefore : ∀ entry ∈ store.nodes.entries, P entry.2.metadata) :
    ∀ entry ∈ (LoadCommand.loadGraph store data).2.nodes.entries, P entry.2.metadata := by
  rw [LoadCommand.nodes_loadGraph, LoadCommand.nodeRows, List.foldl_map]
  have hrun : ∀ (nodes : List GraphNode) (rows : OrderedMap String NodeRow),
      (∀ node ∈ nodes, P (node.metadata.getD ∅)) → (∀ entry ∈ rows.entries, P entry.2.metadata) →
      ∀ entry ∈ (nodes.foldl (fun rows node => rows.set node.id (rowOf node)) rows).entries, P entry.2.metadata := by
    intro nodes
    induction nodes with
    | nil => exact fun _ _ hrows => hrows
    | cons node rest ih =>
      intro rows hnodes hrows
      refine ih _ (fun other hother => hnodes other (List.mem_cons_of_mem _ hother)) fun entry hentry => ?_
      have hget := OrderedMap.get_eq_some_iff.mpr hentry
      rw [OrderedMap.get_set] at hget
      split at hget
      · rw [← Option.some.inj hget]
        exact hnodes node List.mem_cons_self
      · exact hrows entry (OrderedMap.get_eq_some_iff.mp hget)
  exact hrun data.nodes store.nodes hnew hbefore

/-- What loads bring in and derivations keep holds of the metadata of every row
in every state that a history reaches. -/
theorem metadata_reached {history : List Command}
    (hloads : ∀ data, .load data ∈ history → ∀ node ∈ data.nodes, P (node.metadata.getD ∅))
    (hrewritten : ∀ metadata metadata', P metadata → Rewritten metadata metadata' → P metadata') :
    ∀ entry ∈ (reached history).nodes.entries, P entry.2.metadata := by
  induction history using List.reverseRecOn with
  | nil => exact fun _ hentry => absurd hentry List.not_mem_nil
  | append_singleton history command ih =>
    have hbefore := ih fun data hdata => hloads data (List.mem_append_left _ hdata)
    rw [reached_append]
    cases command with
    | load data => exact metadata_load (hloads data (by simp)) hbefore
    | derive derivation =>
      obtain ⟨f, hentries, hf⟩ := derivation.rewrites (reached history)
      change ∀ entry ∈ (derivation.run (reached history)).nodes.entries, _
      rw [hentries]
      intro entry hentry
      obtain ⟨old, hold, rfl⟩ := List.mem_map.mp hentry
      exact hrewritten _ _ (hbefore old hold) (hf old.1 old.2.metadata)

end codespine.commands
