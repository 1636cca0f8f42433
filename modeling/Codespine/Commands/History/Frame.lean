import Codespine.Commands.ClusterCommand.Rename
import Codespine.Commands.History
import Codespine.Enrich.RuntimeEnricher.Layer

open codespine.schema codespine.store codespine.store.KuzuStore codespine.enrich codespine.enrich.RuntimeEnricher
open codespine.cluster codespine.cluster.GraphClusterer

namespace codespine.commands

/-- The records that no derivation writes. -/
def isLoaded (key : String) : Bool := key ≠ RUNTIME_MANIFEST_KEY ∧ key ≠ CLUSTERING_MANIFEST_KEY

/-- What derivations keep: which nodes there are, the edges that are not
runtime calls, and the records of the load. -/
structure Frame (before after : KuzuStore) : Prop where
  keys : after.nodes.keys = before.nodes.keys
  static : (after.clearEdgesByKind .CALLS_RUNTIME).edges = (before.clearEdgesByKind .CALLS_RUNTIME).edges
  records : (after.graphMeta.filter fun key _ => isLoaded key) = before.graphMeta.filter fun key _ => isLoaded key

theorem Frame.refl (store : KuzuStore) : Frame store store := ⟨rfl, rfl, rfl⟩

theorem Frame.trans {before middle after : KuzuStore} (h : Frame before middle) (h' : Frame middle after) :
    Frame before after :=
  ⟨h'.keys.trans h.keys, h'.static.trans h.static, h'.records.trans h.records⟩

theorem filter_set_record {records : OrderedMap String Metadata} {key : String} (hkey : isLoaded key = false)
    (record : Metadata) :
    ((records.set key record).filter fun key _ => isLoaded key) = records.filter fun key _ => isLoaded key :=
  OrderedMap.filter_set_of_not (fun _ => hkey) record

/-- How a run of `enrich` can leave the database: untouched, annotated when the
second join throws, or with all its writes. -/
theorem exec_enrich_cases (host : Host) (root profileText : String) (store : KuzuStore) :
    ((enrich host profileText root).exec store).2 = store ∨
      (∃ profile result, ((enrich host profileText root).exec store).2 = annotate store profile result) ∨
      ∃ ingested : Ingest, ((enrich host profileText root).exec store).2 = ingested.apply store := by
  rw [exec_enrich]
  split
  · exact Or.inl rfl
  · next profile _ =>
    split
    · exact Or.inl rfl
    · next result _ =>
      split
      · exact Or.inr (Or.inl ⟨profile, result, rfl⟩)
      · next edgeResult _ => exact Or.inr (Or.inr ⟨⟨profile, result, edgeResult⟩, rfl⟩)

theorem runRename_cases (requested : RenameLabels) (store : KuzuStore) :
    Derivation.run store (.rename requested) = store ∨
      Derivation.run store (.rename requested) = ClusterCommand.applyRename store requested.labels := by
  unfold Derivation.run ClusterCommand.runRename
  dsimp only
  split
  · exact Or.inl rfl
  · exact Or.inr rfl

theorem frame_annotate (store : KuzuStore) (profile : CpuProfileData) (result : RuntimeJoinResult) :
    Frame store (annotate store profile result) := by
  constructor
  case keys => exact keys_annotate store profile result
  case static => rw [edges_clearEdgesByKind, edges_annotate, edges_clearEdgesByKind]
  case records => rw [graphMeta_annotate, filter_set_record (by decide)]

theorem frame_apply (store : KuzuStore) (ingested : Ingest) : Frame store (ingested.apply store) := by
  constructor
  case keys => exact keys_of_entries_eq_map (entries_apply ingested store)
  case static => exact clear_apply ingested store
  case records => rw [graphMeta_apply, filter_set_record (by decide)]

theorem frame_assign (store : KuzuStore) (result : CommunityResult) (labels : OrderedMap ℕ String) (resolution : ℚ) :
    Frame store (assign store result labels resolution) := by
  constructor
  case keys => exact keys_of_entries_eq_map (entries_assign store result labels resolution)
  case static => rw [edges_clearEdgesByKind, edges_assign, edges_clearEdgesByKind]
  case records => rw [graphMeta_assign, filter_set_record (by decide)]

theorem frame_applyRename (store : KuzuStore) (labels : OrderedMap ℕ String) :
    Frame store (ClusterCommand.applyRename store labels) := by
  constructor
  case keys => exact keys_of_entries_eq_map (ClusterCommand.entries_applyRename store labels)
  case static => rw [edges_clearEdgesByKind, ClusterCommand.edges_applyRename, edges_clearEdgesByKind]
  case records =>
    rw [ClusterCommand.graphMeta_applyRename]
    cases CommunityNamer.updateManifestLabels (store.readGraphMeta CLUSTERING_MANIFEST_KEY) labels with
    | none => rfl
    | some manifest => exact filter_set_record (by decide) manifest

theorem Derivation.frame (derivation : Derivation) (store : KuzuStore) : Frame store (derivation.run store) := by
  cases derivation with
  | enrich host root profileText =>
    change Frame store ((RuntimeEnricher.enrich host profileText root).exec store).2
    obtain h | ⟨profile, result, h⟩ | ⟨ingested, h⟩ := exec_enrich_cases host root profileText store
    · rw [h]
      exact Frame.refl store
    · rw [h]
      exact frame_annotate store profile result
    · rw [h]
      exact frame_apply store ingested
  | cluster library weights options => exact frame_assign store _ _ _
  | rename requested =>
    obtain h | h := runRename_cases requested store
    · rw [h]
      exact Frame.refl store
    · rw [h]
      exact frame_applyRename store requested.labels

theorem frame_foldl (derivations : List Derivation) (store : KuzuStore) :
    Frame store (derivations.foldl Derivation.run store) := by
  induction derivations generalizing store with
  | nil => exact Frame.refl store
  | cons derivation rest ih => exact (derivation.frame store).trans (ih _)

/-- Whether a command is a run of `cluster detect`. -/
def Derivation.detects : Derivation → Bool
  | .cluster .. => true
  | _ => false

/-- The clustering manifest is there once a clustering has run, and a rename
does not bring it about. -/
theorem Derivation.readGraphMeta_run (derivation : Derivation) (store : KuzuStore) :
    (derivation.run store).readGraphMeta CLUSTERING_MANIFEST_KEY = none ↔
      derivation.detects = false ∧ store.readGraphMeta CLUSTERING_MANIFEST_KEY = none := by
  have hne : CLUSTERING_MANIFEST_KEY ≠ RUNTIME_MANIFEST_KEY := by decide
  cases derivation with
  | enrich host root profileText =>
    change (((RuntimeEnricher.enrich host profileText root).exec store).2).readGraphMeta _ = none ↔ _
    rw [and_iff_right (show Derivation.detects (.enrich host root profileText) = false from rfl)]
    unfold readGraphMeta
    obtain h | ⟨profile, result, h⟩ | ⟨ingested, h⟩ := exec_enrich_cases host root profileText store
    · rw [h]
    · rw [h, graphMeta_annotate, OrderedMap.get_set_ne hne]
    · rw [h, graphMeta_apply, OrderedMap.get_set_ne hne]
  | cluster library weights options =>
    refine iff_of_false ?_ fun h => Bool.noConfusion h.1
    change (assign store _ _ _).graphMeta.get _ ≠ none
    rw [graphMeta_assign, OrderedMap.get_set_self]
    exact Option.some_ne_none _
  | rename requested =>
    rw [and_iff_right (show Derivation.detects (.rename requested) = false from rfl)]
    obtain h | h := runRename_cases requested store
    · rw [h]
    · rw [h]
      unfold readGraphMeta
      rw [ClusterCommand.graphMeta_applyRename]
      unfold readGraphMeta
      cases hmanifest : store.graphMeta.get CLUSTERING_MANIFEST_KEY with
      | none => simp [CommunityNamer.updateManifestLabels, hmanifest]
      | some manifest => simp [CommunityNamer.updateManifestLabels]

theorem readGraphMeta_foldl (derivations : List Derivation) (store : KuzuStore) :
    (derivations.foldl Derivation.run store).readGraphMeta CLUSTERING_MANIFEST_KEY = none ↔
      (∀ derivation ∈ derivations, derivation.detects = false) ∧
        store.readGraphMeta CLUSTERING_MANIFEST_KEY = none := by
  induction derivations generalizing store with
  | nil => simp
  | cons derivation rest ih =>
    rw [List.foldl_cons, ih, derivation.readGraphMeta_run, List.forall_mem_cons, and_left_comm, and_assoc]

end codespine.commands
