import Codespine.Commands.ExtractCommand.RoundTrip
import Codespine.Commands.History.Facts
import Codespine.Lib.Counting
import Codespine.Query.Hotspots.Impact
import Codespine.Store.KuzuStore.Counts

open codespine.schema codespine.store codespine.store.KuzuStore codespine.extract codespine.extract.GraphBuilder
open codespine.query codespine.query.GraphQuery

namespace codespine.commands.ExtractCommand

section Merged

variable (host : Host) (rootPath : String) (P : Project)

/-- How often a relationship occurs in the sources. -/
def sites (key : EdgeKey) : ℕ := (pushedEdges host rootPath P { semantic := true }).countP fun edge => keyOf edge = key

variable {host rootPath P}

/-- An edge of the graph is the first of its occurrences, with their number. -/
theorem mem_getEdges {edge : GraphEdge} (hedge : edge ∈ (build host rootPath P { semantic := true }).getEdges) :
    ∃ first ∈ pushedEdges host rootPath P { semantic := true }, edge = counted first
      ((pushedEdges host rootPath P { semantic := true }).filter fun other => other.id = edge.id).length := by
  obtain ⟨entry, hentry, rfl⟩ := List.mem_map.mp hedge
  have hid := id_of_mem_merged hentry
  have hget : ((extractions host rootPath P { semantic := true }).foldl merge {}).edges.get entry.1 = some entry.2 :=
    OrderedMap.get_eq_some_iff.mpr hentry
  rw [get_merged] at hget
  obtain ⟨first, hfirst, hcounted⟩ := Option.map_eq_some_iff.mp hget
  refine ⟨first, List.mem_of_mem_filter (List.mem_of_mem_head? hfirst), ?_⟩
  rw [hid]
  exact hcounted.symm

/-- The edges of the graph are different relationships. -/
theorem keys_getEdges_nodup : ((build host rootPath P { semantic := true }).getEdges.map keyOf).Nodup := by
  set edges := (build host rootPath P { semantic := true }).getEdges with hedges
  have hids : edges.map GraphEdge.id = (build host rootPath P { semantic := true }).edges.keys := by
    rw [hedges]
    unfold getEdges OrderedMap.values OrderedMap.keys
    rw [List.map_map]
    exact List.map_congr_left fun entry hentry => id_of_mem_merged hentry
  have hkeys : (edges.map keyOf).map (fun key => edgeId key.kind key.source key.target) = edges.map GraphEdge.id := by
    rw [List.map_map]
    refine List.map_congr_left fun edge hedge => ?_
    obtain ⟨first, hfirst, hcounted⟩ := mem_getEdges hedge
    rw [hcounted]
    exact (id_of_mem_pushedEdges host rootPath P hfirst).symm
  refine List.Nodup.of_map (fun key => edgeId key.kind key.source key.target) ?_
  rw [hkeys, hids]
  exact OrderedMap.nodup_keys _

/-- Where no id of a source has an arrow in it, the edges of one id are those of
one relationship. -/
theorem id_eq_iff (harrow : ∀ edge ∈ pushedEdges host rootPath P { semantic := true }, includes edge.source "->" = false)
    {edge other : GraphEdge} (hedge : edge ∈ pushedEdges host rootPath P { semantic := true })
    (hother : other ∈ pushedEdges host rootPath P { semantic := true }) : other.id = edge.id ↔ keyOf other = keyOf edge := by
  rw [id_of_mem_pushedEdges host rootPath P hedge, id_of_mem_pushedEdges host rootPath P hother]
  constructor
  · intro hid
    obtain ⟨hkind, hsource, htarget⟩ := edgeId_injective (harrow other hother) (harrow edge hedge) hid
    exact EdgeKey.mk.injEq _ _ _ _ _ _ ▸ ⟨hsource, htarget, hkind⟩
  · intro hkey
    obtain ⟨hsource, htarget, hkind⟩ := (EdgeKey.mk.injEq _ _ _ _ _ _).mp hkey
    rw [hsource, htarget, hkind]

theorem exists_getEdges (harrow : ∀ edge ∈ pushedEdges host rootPath P { semantic := true }, includes edge.source "->" = false)
    {edge : GraphEdge} (hedge : edge ∈ pushedEdges host rootPath P { semantic := true }) :
    ∃ stored ∈ (build host rootPath P { semantic := true }).getEdges, keyOf stored = keyOf edge := by
  refine (exists_getEdges_iff host rootPath P { semantic := true }).mpr ⟨edge.id, ?_⟩
  have hsome : ((pushedEdges host rootPath P { semantic := true }).find? fun other => other.id = edge.id).isSome :=
    List.find?_isSome.mpr ⟨edge, hedge, decide_eq_true rfl⟩
  obtain ⟨first, hfirst⟩ := Option.isSome_iff_exists.mp hsome
  rw [hfirst, Option.map_some, Option.some_inj]
  have hid := List.find?_some hfirst
  exact (id_eq_iff harrow hedge (List.mem_of_find?_eq_some hfirst)).mp (of_decide_eq_true hid)

/-- Each edge of the graph carries the number of its occurrences. -/
theorem callCount_getEdges
    (harrow : ∀ edge ∈ pushedEdges host rootPath P { semantic := true }, includes edge.source "->" = false)
    {edge : GraphEdge} (hedge : edge ∈ (build host rootPath P { semantic := true }).getEdges) :
    0 < sites host rootPath P (keyOf edge) ∧ callCount (edge.metadata.getD ∅) = sites host rootPath P (keyOf edge) := by
  obtain ⟨first, hfirst, hcounted⟩ := mem_getEdges hedge
  have hkey : keyOf edge = keyOf first := by
    rw [hcounted]
    rfl
  have hid : edge.id = first.id := by
    rw [hcounted]
    rfl
  have hlength : ((pushedEdges host rootPath P { semantic := true }).filter fun other => other.id = edge.id).length =
      sites host rootPath P (keyOf edge) := by
    rw [sites, List.countP_eq_length_filter, hkey, hid]
    refine congrArg List.length (List.filter_congr fun other hother => ?_)
    exact decide_eq_decide.mpr (id_eq_iff harrow hfirst hother)
  have hpos : 0 < sites host rootPath P (keyOf edge) :=
    List.countP_pos_iff.mpr ⟨first, hfirst, decide_eq_true hkey.symm⟩
  rw [hlength] at hcounted
  generalize sites host rootPath P (keyOf edge) = count at hcounted hpos ⊢
  have hmetadata : (edge.metadata.getD ∅).get "count" = some (.num (count : ℚ)) := by
    rw [hcounted]
    exact OrderedMap.get_set_self (first.metadata.getD ∅) _ _
  refine ⟨hpos, ?_⟩
  unfold callCount
  rw [hmetadata]
  exact if_pos (Nat.cast_pos.mpr hpos)

end Merged

section Loaded

variable {host : Host} {rootPath : String} {P : Project} {source : Option SourceManifest}

/-- A fresh database holds the relationships of the graph that have both
ends, as they stand in it. -/
theorem entries_loaded : (LoadCommand.loaded (graphOf host rootPath P { semantic := true } source)).edges.entries =
    relationships ((build host rootPath P { semantic := true }).getNodes.map GraphNode.id)
      (build host rootPath P { semantic := true }).getEdges := by
  rw [LoadCommand.loaded, LoadCommand.edges_loadGraph]
  refine OrderedMap.entries_ofList ?_
  unfold LoadCommand.edgeRows relationships
  rw [List.map_map]
  exact keys_getEdges_nodup.sublist (List.filter_sublist.map _)

/-- The one record of the calls from one function to another has their number. -/
theorem filter_readCallEdges_loaded
    (harrow : ∀ edge ∈ pushedEdges host rootPath P { semantic := true }, includes edge.source "->" = false) (s t : String) :
    ((readCallEdges (LoadCommand.loaded (graphOf host rootPath P { semantic := true } source))).filter fun call =>
        call.fromId = s ∧ call.toId = t) =
      if 0 < sites host rootPath P ⟨s, t, .CALLS⟩ ∧
          s ∈ (build host rootPath P { semantic := true }).getNodes.map GraphNode.id ∧
          t ∈ (build host rootPath P { semantic := true }).getNodes.map GraphNode.id then
        [⟨s, t, sites host rootPath P ⟨s, t, .CALLS⟩⟩] else [] := by
  set store := LoadCommand.loaded (graphOf host rootPath P { semantic := true } source) with hstore
  set ids := (build host rootPath P { semantic := true }).getNodes.map GraphNode.id
  have hentries : store.edges.entries = relationships ids (build host rootPath P { semantic := true }).getEdges :=
    entries_loaded
  have hrecord : (readCallEdges store).filter (fun call => call.fromId = s ∧ call.toId = t) =
      (store.edges.get ⟨s, t, .CALLS⟩).toList.map fun metadata => ⟨s, t, callCount metadata⟩ := by
    rw [← OrderedMap.filter_entries_key, List.map_map, readCallEdges, readEdgesOfKind, List.filter_map, List.filter_filter]
    have hfilter : (store.edges.entries.filter fun entry => entry.1 = ⟨s, t, .CALLS⟩) = store.edges.entries.filter fun entry =>
        (((fun call => decide (call.fromId = s ∧ call.toId = t)) ∘ fun entry : EdgeKey × Metadata =>
          CallEdge.mk entry.1.source entry.1.target (callCount entry.2)) entry && decide (entry.1.kind = .CALLS)) := by
      refine List.filter_congr fun entry _ => ?_
      obtain ⟨⟨source, target, kind⟩, metadata⟩ := entry
      simp [EdgeKey.mk.injEq, Bool.and_assoc]
    rw [← hfilter]
    refine List.map_congr_left fun entry hentry => ?_
    have hkey : entry.1 = ⟨s, t, .CALLS⟩ := of_decide_eq_true (List.mem_filter.mp hentry).2
    rw [Function.comp_apply, hkey]
  rw [hrecord]
  cases hget : store.edges.get ⟨s, t, .CALLS⟩ with
  | none =>
    rw [if_neg]
    · rfl
    · rintro ⟨hpos, hs, ht⟩
      obtain ⟨edge, hedge, hkey⟩ := List.countP_pos_iff.mp hpos
      obtain ⟨stored, hstored, hsame⟩ := exists_getEdges harrow hedge
      have hkey : keyOf stored = ⟨s, t, .CALLS⟩ := hsame.trans (of_decide_eq_true hkey)
      refine OrderedMap.get_eq_none_iff.mp hget ?_
      have hentry : (keyOf stored, stored.metadata.getD ∅) ∈ store.edges.entries := by
        rw [hentries]
        obtain ⟨hsource, htarget, _⟩ := (EdgeKey.mk.injEq _ _ _ _ _ _).mp hkey
        exact List.mem_map.mpr ⟨stored, List.mem_filter.mpr ⟨hstored, decide_eq_true ⟨hsource ▸ hs, htarget ▸ ht⟩⟩, rfl⟩
      exact hkey ▸ List.mem_map_of_mem hentry
  | some metadata =>
    have hentry := OrderedMap.get_eq_some_iff.mp hget
    rw [hentries] at hentry
    obtain ⟨edge, hedge, hpair⟩ := List.mem_map.mp hentry
    obtain ⟨hkey, hmetadata⟩ := Prod.mk.inj hpair
    obtain ⟨hedge, hends⟩ := List.mem_filter.mp hedge
    obtain ⟨hsource, htarget⟩ := of_decide_eq_true hends
    obtain ⟨hpos, hcount⟩ := callCount_getEdges harrow hedge
    rw [hkey] at hpos hcount
    obtain ⟨rfl, rfl, _⟩ := (EdgeKey.mk.injEq _ _ _ _ _ _).mp hkey
    rw [if_pos ⟨hpos, hsource, htarget⟩, ← hcount, hmetadata]
    rfl

variable (host rootPath P) in
/-- The functions of the graph that call a function, once for each call site. -/
def callSites (id : String) : List String :=
  ((pushedEdges host rootPath P { semantic := true }).filter fun edge => edge.kind = .CALLS ∧ edge.target = id ∧
    edge.source ∈ (build host rootPath P { semantic := true }).getNodes.map GraphNode.id).map GraphEdge.source

theorem count_callSites {s id : String} (hs : s ∈ (build host rootPath P { semantic := true }).getNodes.map GraphNode.id) :
    (callSites host rootPath P id).count s = sites host rootPath P ⟨s, id, .CALLS⟩ := by
  unfold callSites sites
  rw [List.count, List.countP_map, List.countP_filter]
  refine List.countP_congr fun edge _ => ?_
  simp only [Function.comp_apply, beq_iff_eq, Bool.and_eq_true, decide_eq_true_eq, keyOf, EdgeKey.mk.injEq]
  constructor
  · rintro ⟨hsource, hkind, htarget, _⟩
    exact ⟨hsource, htarget, hkind⟩
  · rintro ⟨hsource, htarget, hkind⟩
    exact ⟨hsource, hkind, htarget, hsource ▸ hs⟩

theorem mem_of_mem_callSites {s id : String} (h : s ∈ callSites host rootPath P id) :
    s ∈ (build host rootPath P { semantic := true }).getNodes.map GraphNode.id ∧
      0 < sites host rootPath P ⟨s, id, .CALLS⟩ := by
  obtain ⟨edge, hedge, rfl⟩ := List.mem_map.mp h
  obtain ⟨hpushed, hwhere⟩ := List.mem_filter.mp hedge
  obtain ⟨hkind, htarget, hsource⟩ := of_decide_eq_true hwhere
  refine ⟨hsource, List.countP_pos_iff.mpr ⟨edge, hpushed, decide_eq_true ?_⟩⟩
  exact (EdgeKey.mk.injEq _ _ _ _ _ _).mpr ⟨rfl, htarget, hkind⟩

/-- The records of the calls into a function of the graph: one for each function
that calls it, with the number of its calls. -/
theorem records_into
    (harrow : ∀ edge ∈ pushedEdges host rootPath P { semantic := true }, includes edge.source "->" = false) {id : String}
    (hid : id ∈ (build host rootPath P { semantic := true }).getNodes.map GraphNode.id) (store : KuzuStore)
    (hcalls : readCallEdges store = readCallEdges (LoadCommand.loaded (graphOf host rootPath P { semantic := true } source))) :
    (((readCallEdges store).filter fun call => call.toId = id).map CallEdge.fromId).Perm (callSites host rootPath P id).dedup ∧
      ∀ call ∈ (readCallEdges store).filter fun call => call.toId = id,
        call.count = (callSites host rootPath P id).count call.fromId := by
  set records := (readCallEdges store).filter fun call => call.toId = id
  have hrecords : ∀ s, (records.filter fun call => call.fromId = s) =
      if 0 < sites host rootPath P ⟨s, id, .CALLS⟩ ∧
          s ∈ (build host rootPath P { semantic := true }).getNodes.map GraphNode.id ∧
          id ∈ (build host rootPath P { semantic := true }).getNodes.map GraphNode.id then
        [⟨s, id, sites host rootPath P ⟨s, id, .CALLS⟩⟩] else [] := by
    intro s
    have hboth := @filter_readCallEdges_loaded host rootPath P source harrow s id
    rw [← hcalls] at hboth
    rw [← hboth, List.filter_filter]
    exact List.filter_congr fun call _ => by rw [Bool.decide_and]
  have hmem : ∀ call ∈ records, (0 < sites host rootPath P ⟨call.fromId, id, .CALLS⟩ ∧
      call.fromId ∈ (build host rootPath P { semantic := true }).getNodes.map GraphNode.id) ∧
      call.count = sites host rootPath P ⟨call.fromId, id, .CALLS⟩ := by
    intro call hcall
    have hself : call ∈ records.filter fun other => other.fromId = call.fromId :=
      List.mem_filter.mpr ⟨hcall, decide_eq_true rfl⟩
    rw [hrecords] at hself
    split at hself
    · next hthere =>
      exact ⟨⟨hthere.1, hthere.2.1⟩, congrArg CallEdge.count (List.mem_singleton.mp hself)⟩
    · cases hself
  refine ⟨(List.perm_ext_iff_of_nodup ?_ (List.nodup_dedup _)).mpr fun s => ?_, fun call hcall => ?_⟩
  · rw [List.nodup_iff_count_le_one]
    intro s
    have hcount : (records.map CallEdge.fromId).count s = (records.filter fun call => call.fromId = s).length := by
      rw [List.count, List.countP_map, ← List.countP_eq_length_filter]
      rfl
    rw [hcount, hrecords]
    split
    · exact le_rfl
    · exact zero_le_one
  · rw [List.mem_dedup]
    constructor
    · intro hs
      obtain ⟨call, hcall, rfl⟩ := List.mem_map.mp hs
      obtain ⟨⟨hpos, hsource⟩, _⟩ := hmem call hcall
      rw [← count_callSites hsource] at hpos
      exact List.count_pos_iff.mp hpos
    · intro hs
      obtain ⟨hsource, hpos⟩ := mem_of_mem_callSites hs
      have hthere := hrecords s
      rw [if_pos ⟨hpos, hsource, hid⟩] at hthere
      have hcall := List.mem_of_mem_filter (hthere ▸ List.mem_singleton_self _ :
        (⟨s, id, sites host rootPath P ⟨s, id, .CALLS⟩⟩ : CallEdge) ∈ records.filter fun call => call.fromId = s)
      exact List.mem_map.mpr ⟨_, hcall, rfl⟩
  · obtain ⟨⟨_, hsource⟩, hcount⟩ := hmem call hcall
    rw [hcount, count_callSites hsource]

/-- What the functions that call a function score it by. -/
theorem scores_of_calls
    (harrow : ∀ edge ∈ pushedEdges host rootPath P { semantic := true }, includes edge.source "->" = false) {id : String}
    (hid : id ∈ (build host rootPath P { semantic := true }).getNodes.map GraphNode.id) (store : KuzuStore)
    (hcalls : readCallEdges store = readCallEdges (LoadCommand.loaded (graphOf host rootPath P { semantic := true } source))) :
    (scoreNodes store.readNodes (readCallEdges store) .callCount).getD id 0 = (callSites host rootPath P id).length ∧
      (scoreNodes store.readNodes (readCallEdges store) .callers).getD id 0 =
        (callSites host rootPath P id).dedup.length := by
  obtain ⟨hperm, hcount⟩ := records_into harrow hid store hcalls
  unfold scoreNodes
  dsimp only
  rw [getD_sumInbound, getD_sumInbound]
  constructor
  · have hsum : (((readCallEdges store).filter fun call => call.toId = id).map CallEdge.count).sum =
        ((((callSites host rootPath P id).dedup.map fun s => (callSites host rootPath P id).count s).sum : ℕ) : ℚ) := by
      rw [List.map_congr_left hcount, ← (hperm.map _).sum_eq, List.map_map, Nat.cast_list_sum, List.map_map]
      rfl
    rw [hsum, counting.sum_count_eq (List.nodup_dedup _) fun s hs => List.mem_dedup.mpr hs]
  · rw [← hperm.length_eq, List.length_map, List.map_const', List.sum_replicate, nsmul_one]

end Loaded

section Derived

/-- The static calls are facts of the source. -/
theorem readCallEdges_of_sourceFacts {store store' : KuzuStore} (h : sourceFacts store = sourceFacts store') :
    readCallEdges store = readCallEdges store' := by
  have hstatic : ∀ store : KuzuStore, readCallEdges store = ((sourceFacts store).edges.entries.filter fun entry =>
      entry.1.kind = .CALLS).map fun entry => ⟨entry.1.source, entry.1.target, callCount entry.2⟩ := by
    intro store
    unfold readCallEdges readEdgesOfKind sourceFacts OrderedMap.filter
    rw [List.filter_filter]
    refine congrArg _ (List.filter_congr fun entry _ => ?_)
    by_cases hkind : entry.1.kind = .CALLS
    · simp [hkind]
    · simp [hkind]
  rw [hstatic, hstatic, h]

theorem keys_of_sourceFacts {store store' : KuzuStore} (h : sourceFacts store = sourceFacts store') :
    store.nodes.keys = store'.nodes.keys := by
  have hkeys : ∀ store : KuzuStore, store.nodes.keys = (sourceFacts store).nodes.keys := by
    intro store
    unfold sourceFacts OrderedMap.keys OrderedMap.map
    rw [List.map_map]
    rfl
  rw [hkeys, hkeys, h]

theorem sourceFacts_foldl (derivations : List Derivation) (store : KuzuStore) :
    sourceFacts (derivations.foldl Derivation.run store) = sourceFacts store := by
  induction derivations generalizing store with
  | nil => rfl
  | cons derivation rest ih => exact (ih _).trans (sourceFacts_derive derivation store)

end Derived

/-- From the sources to the answers: what `extract --semantic` writes, `load`
reads back whole and counts rightly, and however the database is enriched,
clustered and renamed after it, a record of a call has the number of call sites
for its weight, a function is scored by `call-count` with the number of call
sites that call it, and by `callers` with the number of functions they are in. -/
theorem run_calls {host loadHost : Host} {stringify : Json → String} {rootPath : String} {P : Project} (dir : GraphDir)
    (source : Option SourceManifest)
    (hrows : ∀ json ∈ rowsOf (graphOf host rootPath P { semantic := true } source), IsRow loadHost stringify json)
    (harrow : ∀ edge ∈ pushedEdges host rootPath P { semantic := true }, includes edge.source "->" = false) :
    ∃ report store, LoadCommand.run loadHost (run host rootPath P { semantic := true } stringify dir source) initSchema =
        .ok (report, store) ∧
      report.loaded.nodes = store.nodes.keys.length ∧ report.loaded.edges = store.edges.keys.length ∧
      (∀ id, id ∈ store.nodes.keys ↔ id ∈ (pushedNodes host rootPath P { semantic := true }).map GraphNode.id) ∧
      ∀ derivations : List Derivation, let derived := derivations.foldl Derivation.run store
        (∀ s t, ((readCallEdges derived).filter fun call => call.fromId = s ∧ call.toId = t) =
          if 0 < sites host rootPath P ⟨s, t, .CALLS⟩ ∧ s ∈ derived.nodes.keys ∧ t ∈ derived.nodes.keys then
            [⟨s, t, sites host rootPath P ⟨s, t, .CALLS⟩⟩] else []) ∧
        ∀ id ∈ derived.nodes.keys,
          (scoreNodes derived.readNodes (readCallEdges derived) .callCount).getD id 0 =
              (callSites host rootPath P id).length ∧
            (scoreNodes derived.readNodes (readCallEdges derived) .callers).getD id 0 =
              (callSites host rootPath P id).dedup.length := by
  set read := graphOf host rootPath P { semantic := true } (source.or (JsonlReader.readSource loadHost dir.sourceFile))
  have hrun : LoadCommand.run loadHost (run host rootPath P { semantic := true } stringify dir source) initSchema =
      .ok (LoadCommand.loadGraph initSchema read) := by
    rw [LoadCommand.run, read_run hrows]
    rfl
  refine ⟨_, _, hrun, ?_⟩
  have hids : ∀ id, id ∈ (LoadCommand.loaded read).nodes.keys ↔
      id ∈ (build host rootPath P { semantic := true }).getNodes.map GraphNode.id := by
    intro id
    rw [LoadCommand.loaded, LoadCommand.nodes_loadGraph, OrderedMap.mem_keys_foldl_set, LoadCommand.nodeRows, List.map_map]
    exact or_iff_right List.not_mem_nil
  have hnodup : ((inserted read.nodes read.edges).map keyOf).Nodup :=
    keys_getEdges_nodup.sublist (List.filter_sublist.map _)
  obtain ⟨hnodes, hedges⟩ := (load_counts_iff read.nodes read.edges).mpr hnodup
  refine ⟨?_, ?_, fun id => (hids id).trans (mem_ids_getNodes host rootPath P _), fun derivations => ?_⟩
  · change _ = (LoadCommand.loadRecords (initSchema.load read.nodes read.edges).1 read.source).nodes.keys.length
    rw [LoadCommand.nodes_loadRecords]
    exact hnodes
  · change _ = (LoadCommand.loadRecords (initSchema.load read.nodes read.edges).1 read.source).edges.keys.length
    rw [LoadCommand.edges_loadRecords]
    exact hedges
  · intro derived
    have hfacts : sourceFacts derived = sourceFacts (LoadCommand.loaded read) := sourceFacts_foldl derivations _
    have hcalls := readCallEdges_of_sourceFacts hfacts
    rw [keys_of_sourceFacts hfacts]
    simp only [hids]
    refine ⟨fun s t => ?_, fun id hid => scores_of_calls harrow hid derived hcalls⟩
    rw [hcalls]
    exact filter_readCallEdges_loaded harrow s t

section Samples

/-- `function load() {}` and `function run() { load(); load(); }`. -/
def loadTwice : Project where
  count := 12
  node := ![
    { kind := .SourceFile, text := "/p/main.ts" },
    { kind := .FunctionDeclaration, parent := some 0, name := some "load" },
    { kind := .Identifier, parent := some 1, role := .name, text := "load" },
    { kind := .FunctionDeclaration, parent := some 0, name := some "run", startLine := 2 },
    { kind := .Identifier, parent := some 3, role := .name, text := "run", startLine := 2 },
    { kind := .other "Block", parent := some 3, startLine := 2 },
    { kind := .other "ExpressionStatement", parent := some 5, startLine := 3 },
    { kind := .CallExpression, parent := some 6, role := .expression, startLine := 3 },
    { kind := .Identifier, parent := some 7, role := .expression, text := "load", startLine := 3 },
    { kind := .other "ExpressionStatement", parent := some 5, startLine := 4 },
    { kind := .CallExpression, parent := some 9, role := .expression, startLine := 4 },
    { kind := .Identifier, parent := some 10, role := .expression, text := "load", startLine := 4 }]
  parent_lt := by decide
  sourceFile_iff_root := by decide
  resolve x := if x = 8 ∨ x = 11 then some 1 else none
  getBaseClass _ := none
  getBaseDeclarations _ := []
  getModuleSpecifierSourceFile _ := none

def loadTwiceRows : List Json := rowsOf (graphOf (posixHost []) "/p" loadTwice { semantic := true } none)

/-- A host that knows the texts of the rows. -/
def loadTwiceHost : Host :=
  posixHost (loadTwiceRows.flatMap fun json => [(stringifyFlat json, json), (stringifyFlat json ++ "\n", json)])

theorem isRow_loadTwice : ∀ json ∈ loadTwiceRows, IsRow loadTwiceHost stringifyFlat json := by
  have hlines : ∀ text ∈ loadTwiceRows.map stringifyFlat, '\n' ∉ text.toList ∧ StructuralExtractor.trim text.toList ≠ [] := by
    decide +kernel
  have hnodup : ((loadTwiceRows.flatMap fun json =>
      [(stringifyFlat json, json), (stringifyFlat json ++ "\n", json)]).map Prod.fst).Nodup := by decide +kernel
  have hknown : ∀ entry ∈ loadTwiceRows.flatMap fun json => [(stringifyFlat json, json), (stringifyFlat json ++ "\n", json)],
      loadTwiceHost.parseJson entry.1 = .ok entry.2 := by
    intro entry hentry
    unfold loadTwiceHost posixHost
    dsimp only
    rw [OrderedMap.lookup_of_mem hnodup hentry]
  intro json hjson
  obtain ⟨hnewline, hblank⟩ := hlines _ (List.mem_map_of_mem hjson)
  refine ⟨hnewline, hblank, ?_, ?_⟩
  · exact hknown (stringifyFlat json, json) (List.mem_flatMap.mpr ⟨json, hjson, List.mem_cons_self⟩)
  · exact hknown (stringifyFlat json ++ "\n", json)
      (List.mem_flatMap.mpr ⟨json, hjson, List.mem_cons_of_mem _ List.mem_cons_self⟩)

end Samples

theorem run_calls_loadTwice : ∃ report store,
    LoadCommand.run loadTwiceHost (run (posixHost []) "/p" loadTwice { semantic := true } stringifyFlat {} none) initSchema =
      .ok (report, store) ∧
    (scoreNodes store.readNodes (readCallEdges store) .callCount).getD "FunctionDeclaration:main.ts#load@1" 0 = 2 ∧
    (scoreNodes store.readNodes (readCallEdges store) .callers).getD "FunctionDeclaration:main.ts#load@1" 0 = 1 := by
  obtain ⟨report, store, hrun, _, _, hids, hderived⟩ :=
    @run_calls (posixHost []) loadTwiceHost stringifyFlat "/p" loadTwice {} none isRow_loadTwice (by decide +kernel)
  have hid : "FunctionDeclaration:main.ts#load@1" ∈ store.nodes.keys := (hids _).mpr (by decide +kernel)
  obtain ⟨hcount, hcallers⟩ := (hderived []).2 "FunctionDeclaration:main.ts#load@1" hid
  have hsites : (callSites (posixHost []) "/p" loadTwice "FunctionDeclaration:main.ts#load@1").length = 2 ∧
      (callSites (posixHost []) "/p" loadTwice "FunctionDeclaration:main.ts#load@1").dedup.length = 1 := by decide +kernel
  rw [hsites.1] at hcount
  rw [hsites.2] at hcallers
  exact ⟨report, store, hrun, hcount, by simpa using hcallers⟩

end codespine.commands.ExtractCommand
