import Codespine.Enrich.RuntimeEnricher.Run

open codespine.schema codespine.store codespine.store.KuzuStore

namespace codespine.enrich.RuntimeEnricher

variable {host : Host} {root : String}

/-- All that a successful run takes from its profile. -/
structure Ingest where
  profile : CpuProfileData
  result : RuntimeJoinResult
  edgeResult : RuntimeCallJoinResult

def ingest (host : Host) (root : String) (targets : List RuntimeTargetNode) (profileText : String) :
    Except HostError Ingest := do
  let profile ← CpuProfile.parse host profileText
  let result ← RuntimeJoin.join host targets (CpuProfile.aggregate profile) root
  let edgeResult ← RuntimeJoin.joinCallEdges host targets (CpuProfile.callEdges profile) root
  return { profile, result, edgeResult }

/-- What is taken from a profile: itself, and its two joins. -/
theorem ingest_eq_ok_iff {targets : List RuntimeTargetNode} {profileText : String} {ingested : Ingest} :
    ingest host root targets profileText = .ok ingested ↔
      CpuProfile.parse host profileText = .ok ingested.profile ∧
      RuntimeJoin.join host targets (CpuProfile.aggregate ingested.profile) root = .ok ingested.result ∧
      RuntimeJoin.joinCallEdges host targets (CpuProfile.callEdges ingested.profile) root =
        .ok ingested.edgeResult := by
  unfold ingest
  constructor
  · intro h
    cases hparse : CpuProfile.parse host profileText with
    | error e => rw [hparse] at h; cases h
    | ok profile =>
      rw [hparse] at h
      dsimp only [bind, Except.bind] at h
      cases hjoin : RuntimeJoin.join host targets (CpuProfile.aggregate profile) root with
      | error e => rw [hjoin] at h; cases h
      | ok result =>
        rw [hjoin] at h
        dsimp only at h
        cases hedges : RuntimeJoin.joinCallEdges host targets (CpuProfile.callEdges profile) root with
        | error e => rw [hedges] at h; cases h
        | ok edgeResult =>
          rw [hedges] at h
          cases h
          exact ⟨rfl, hjoin, hedges⟩
  · rintro ⟨hparse, hjoin, hedges⟩
    rw [hparse]
    dsimp only [bind, Except.bind]
    rw [hjoin]
    dsimp only
    rw [hedges]
    rfl

/-- The database a successful run leaves behind. -/
def Ingest.apply (ingested : Ingest) (store : KuzuStore) : KuzuStore :=
  rewire (annotate store ingested.profile ingested.result) ingested.edgeResult

/-- A run succeeds on what the join sees of the database, and then writes what
it took from the profile. -/
theorem exec_enrich_eq_ok_iff {profileText : String} {store after : KuzuStore} {report : EnrichReport} :
    (enrich host profileText root).exec store = (.ok report, after) ↔
      ∃ ingested, ingest host root (targetsOf store) profileText = .ok ingested ∧
        RuntimeEnricher.report store.readNodes ingested.profile ingested.result ingested.edgeResult = report ∧
        ingested.apply store = after := by
  rw [exec_enrich]
  unfold ingest
  cases CpuProfile.parse host profileText with
  | error e => exact iff_of_false (fun h => nomatch h) fun ⟨_, h, _⟩ => nomatch h
  | ok profile =>
    dsimp only [bind, Except.bind]
    cases RuntimeJoin.join host (targetsOf store) (CpuProfile.aggregate profile) root with
    | error e => exact iff_of_false (fun h => nomatch h) fun ⟨_, h, _⟩ => nomatch h
    | ok result =>
      dsimp only
      cases RuntimeJoin.joinCallEdges host (targetsOf store) (CpuProfile.callEdges profile) root with
      | error e => exact iff_of_false (fun h => nomatch h) fun ⟨_, h, _⟩ => nomatch h
      | ok edgeResult =>
        constructor
        · intro h
          obtain ⟨hreport, hafter⟩ := Prod.mk.inj h
          exact ⟨_, rfl, Except.ok.inj hreport, hafter⟩
        · rintro ⟨_, h, rfl, rfl⟩
          cases h
          rfl

theorem entries_apply (ingested : Ingest) (store : KuzuStore) :
    (ingested.apply store).nodes.entries = store.nodes.entries.map fun entry => (entry.1,
      { entry.2 with metadata := withRuntime ingested.result.attributions entry.1 entry.2.metadata }) := by
  rw [Ingest.apply, nodes_rewire, entries_annotate]

theorem targetsOf_apply (ingested : Ingest) (store : KuzuStore) :
    targetsOf (ingested.apply store) = targetsOf store := by
  rw [← targetsOf_annotate store ingested.profile ingested.result]
  unfold targetsOf readNodes Ingest.apply
  rw [nodes_rewire]

theorem graphMeta_apply (ingested : Ingest) (store : KuzuStore) : (ingested.apply store).graphMeta =
    store.graphMeta.set RUNTIME_MANIFEST_KEY (manifest ingested.profile ingested.result).toRecord := by
  rw [Ingest.apply, graphMeta_rewire, graphMeta_annotate]

/-- A run forgets the runtime call edges it finds. -/
theorem edges_apply_congr (ingested : Ingest) {store store' : KuzuStore}
    (hkeys : store.nodes.keys = store'.nodes.keys)
    (hedges : (store.clearEdgesByKind RUNTIME_CALL_EDGE_KIND).edges =
      (store'.clearEdgesByKind RUNTIME_CALL_EDGE_KIND).edges) :
    (ingested.apply store).edges = (ingested.apply store').edges := by
  refine edges_writeEdges_congr ?_ ?_ _
  · rw [nodes_clearEdgesByKind, nodes_clearEdgesByKind, keys_annotate, keys_annotate, hkeys]
  · rw [edges_clearEdgesByKind, edges_clearEdgesByKind] at hedges ⊢
    rw [edges_annotate, edges_annotate, hedges]

/-- A run touches no edge of another kind. -/
theorem clear_apply (ingested : Ingest) (store : KuzuStore) :
    ((ingested.apply store).clearEdgesByKind RUNTIME_CALL_EDGE_KIND).edges =
      (store.clearEdgesByKind RUNTIME_CALL_EDGE_KIND).edges := by
  have hkind : ∀ edge ∈ ingested.edgeResult.edges.map toCallEdge, edge.kind = RUNTIME_CALL_EDGE_KIND := by
    intro edge hedge
    obtain ⟨_, _, rfl⟩ := List.mem_map.mp hedge
    rfl
  rw [Ingest.apply, rewire, clear_writeEdges hkind, clear_clear, edges_clearEdgesByKind, edges_annotate]
  rfl

/-- The part of the database that runs are about. -/
@[ext]
structure RuntimeLayer where
  runtimeOf : String → Option Json
  calls : List (EdgeKey × Metadata)
  manifest : Option Metadata

/-- `metadata.runtime` of a node, if it is stored and has one. -/
def runtimeOf (store : KuzuStore) (id : String) : Option Json :=
  (store.nodes.get id).bind fun row => row.metadata.get RUNTIME_METADATA_KEY

def runtimeLayer (store : KuzuStore) : RuntimeLayer where
  runtimeOf := runtimeOf store
  calls := store.edges.entries.filter fun entry => entry.1.kind = RUNTIME_CALL_EDGE_KIND
  manifest := store.readGraphMeta RUNTIME_MANIFEST_KEY

/-- What a profile attributes to the nodes of a database, nothing when it is
rejected. -/
def attributionsOf (host : Host) (root : String) (store : KuzuStore) (profileText : String) :
    OrderedMap String RuntimeAttribution :=
  match ingest host root (targetsOf store) profileText with
  | .ok ingested => ingested.result.attributions
  | .error _ => ∅

/-- The metrics the last of several profiles that reaches a node gives it. -/
def lastRuntime (host : Host) (root : String) (store : KuzuStore) (profileTexts : List String) (id : String) :
    Option Json :=
  profileTexts.foldl
    (fun last profileText =>
      match (attributionsOf host root store profileText).get id with
      | some attribution => some (toMetrics attribution).toJson
      | none => last) none

/-- A sequence of successful runs on a database, with the database they leave
behind. -/
inductive Enriched (host : Host) (root : String) (loaded : KuzuStore) : List String → KuzuStore → Prop where
  | none : Enriched host root loaded [] loaded
  | run {profileTexts : List String} {profileText : String} {before after : KuzuStore} {report : EnrichReport} :
      Enriched host root loaded profileTexts before →
      (enrich host profileText root).exec before = (.ok report, after) →
      Enriched host root loaded (profileTexts ++ [profileText]) after

theorem Enriched.head {loaded first store : KuzuStore} {profileText : String} {profileTexts : List String}
    {report : EnrichReport} (hfirst : (enrich host profileText root).exec loaded = (.ok report, first))
    (hrest : Enriched host root first profileTexts store) :
    Enriched host root loaded (profileText :: profileTexts) store := by
  induction hrest with
  | none => exact Enriched.run Enriched.none hfirst
  | run _ hrun ih => exact Enriched.run ih hrun

theorem lastRuntime_append (store : KuzuStore) (profileTexts : List String) (profileText id : String) :
    lastRuntime host root store (profileTexts ++ [profileText]) id =
      match (attributionsOf host root store profileText).get id with
      | some attribution => some (toMetrics attribution).toJson
      | none => lastRuntime host root store profileTexts id := by
  rw [lastRuntime, List.foldl_append]
  rfl

/-- Metadata with the runtime key set, or left alone. -/
def stamped (runtime : Option Json) (metadata : Metadata) : Metadata :=
  match runtime with
  | some json => metadata.set RUNTIME_METADATA_KEY json
  | none => metadata

theorem get_stamped (runtime : Option Json) (metadata : Metadata) :
    (stamped runtime metadata).get RUNTIME_METADATA_KEY = runtime.or (metadata.get RUNTIME_METADATA_KEY) := by
  cases runtime with
  | none => rfl
  | some json => exact OrderedMap.get_set_self _ _ _

theorem stamped_eq_self_iff (runtime : Option Json) (metadata : Metadata) :
    stamped runtime metadata = metadata ↔
      runtime.or (metadata.get RUNTIME_METADATA_KEY) = metadata.get RUNTIME_METADATA_KEY := by
  constructor
  · intro h
    rw [← get_stamped, h]
  · intro h
    cases runtime with
    | none => rfl
    | some json => exact OrderedMap.set_eq_self h.symm

/-- What a sequence of runs has made of a database. -/
structure Descends (host : Host) (root : String) (loaded : KuzuStore) (profileTexts : List String)
    (store : KuzuStore) : Prop where
  targets : targetsOf store = targetsOf loaded
  entries : store.nodes.entries = loaded.nodes.entries.map fun entry => (entry.1,
    { entry.2 with metadata := stamped (lastRuntime host root loaded profileTexts entry.1) entry.2.metadata })
  edges : (store.clearEdgesByKind RUNTIME_CALL_EDGE_KIND).edges =
    (loaded.clearEdgesByKind RUNTIME_CALL_EDGE_KIND).edges
  graphMeta : ∀ record, store.graphMeta.set RUNTIME_MANIFEST_KEY record =
    loaded.graphMeta.set RUNTIME_MANIFEST_KEY record

theorem Descends.refl (loaded : KuzuStore) : Descends host root loaded [] loaded := by
  constructor
  case targets => rfl
  case entries => exact (List.map_id _).symm
  case edges => rfl
  case graphMeta => exact fun _ => rfl

theorem withRuntime_stamped (attributions : OrderedMap String RuntimeAttribution) (id : String)
    (runtime : Option Json) (metadata : Metadata) :
    withRuntime attributions id (stamped runtime metadata) =
      stamped (match attributions.get id with
        | some attribution => some (toMetrics attribution).toJson
        | none => runtime) metadata := by
  unfold withRuntime
  cases attributions.get id with
  | none => rfl
  | some attribution =>
    cases runtime with
    | none => rfl
    | some json => exact OrderedMap.set_set _ _ _ _

/-- One more run: what it joins is what it would have joined at the start. -/
theorem Descends.step {loaded before : KuzuStore} {profileTexts : List String} {profileText : String}
    {ingested : Ingest} (h : Descends host root loaded profileTexts before)
    (hingest : ingest host root (targetsOf before) profileText = .ok ingested) :
    Descends host root loaded (profileTexts ++ [profileText]) (ingested.apply before) := by
  constructor
  case targets => rw [targetsOf_apply, h.targets]
  case entries =>
    have hattributions : attributionsOf host root loaded profileText = ingested.result.attributions := by
      rw [attributionsOf, ← h.targets, hingest]
    rw [entries_apply, h.entries, List.map_map]
    refine List.map_congr_left fun entry _ => ?_
    rw [Function.comp_apply, withRuntime_stamped, lastRuntime_append, hattributions]
  case edges => rw [clear_apply, h.edges]
  case graphMeta =>
    intro record
    rw [graphMeta_apply, OrderedMap.set_set, h.graphMeta]

theorem Enriched.descends {loaded store : KuzuStore} {profileTexts : List String}
    (h : Enriched host root loaded profileTexts store) : Descends host root loaded profileTexts store := by
  induction h with
  | none => exact Descends.refl loaded
  | run _ hrun ih =>
    obtain ⟨ingested, hingest, _, rfl⟩ := exec_enrich_eq_ok_iff.mp hrun
    exact ih.step hingest

end codespine.enrich.RuntimeEnricher
