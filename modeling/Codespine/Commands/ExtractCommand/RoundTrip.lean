import Codespine.Commands.ExtractCommand
import Codespine.Extract.GraphBuilder.Counts
import Codespine.Extract.GraphBuilder.Relationships
import Codespine.Store.Jsonl.RoundTrip

open codespine.schema codespine.store codespine.extract codespine.extract.GraphBuilder

namespace codespine.commands.ExtractCommand

theorem readable_none : Readable none := fun _ h => nomatch h

/-- A record with one entry, under a name of the program's own. -/
theorem readable_singleton {key : String} (hkey : key ≠ "__proto__") (value : Json) :
    Readable (some (OrderedMap.ofList [(key, value)])) := by
  rintro _ ⟨⟩ hmem
  exact hkey (List.mem_singleton.mp hmem).symm

theorem readable_counted {edge : GraphEdge} (h : Readable edge.metadata) (count : ℕ) :
    Readable (counted edge count).metadata := by
  rintro _ ⟨⟩ hmem
  rw [OrderedMap.mem_keys_set] at hmem
  obtain hmem | hcount := hmem
  · cases hmetadata : edge.metadata with
    | none =>
      rw [hmetadata] at hmem
      cases hmem
    | some record =>
      rw [hmetadata] at hmem
      exact h record hmetadata hmem
  · exact absurd hcount (by decide)

/-- An extraction of which every record is read back as it is written. -/
structure Plain (extraction : Extraction) : Prop where
  nodes : ∀ node ∈ extraction.nodes, Readable node.metadata
  edges : ∀ edge ∈ extraction.edges, Readable edge.metadata

section Extractors

theorem plain_empty : Plain {} := ⟨fun _ h => absurd h List.not_mem_nil, fun _ h => absurd h List.not_mem_nil⟩

theorem Plain.append {a b : Extraction} (ha : Plain a) (hb : Plain b) : Plain (a ++ b) := by
  constructor
  case nodes => exact fun node hnode => (List.mem_append.mp hnode).elim (ha.nodes node) (hb.nodes node)
  case edges => exact fun edge hedge => (List.mem_append.mp hedge).elim (ha.edges edge) (hb.edges edge)

theorem plain_collect {α : Type} {l : List α} {f : α → Extraction} (h : ∀ a, Plain (f a)) : Plain (.collect l f) := by
  constructor
  case nodes =>
    intro node hnode
    obtain ⟨a, _, hnode⟩ := List.mem_flatMap.mp hnode
    exact (h a).nodes node hnode
  case edges =>
    intro edge hedge
    obtain ⟨a, _, hedge⟩ := List.mem_flatMap.mp hedge
    exact (h a).edges edge hedge

variable (host : Host) (rootPath : String) (P : Project)

theorem plain_push (moduleId parentId : String) (kind : NodeKind) (x : P.Ref) :
    Plain (StructuralExtractor.push host rootPath P moduleId parentId kind x) := by
  constructor
  case nodes =>
    intro node hnode
    rw [List.mem_singleton.mp hnode]
    unfold StructuralExtractor.graphNodeOf
    dsimp only
    cases StructuralExtractor.documentationOf P x with
    | none => exact readable_none
    | some documentation => exact readable_singleton (by decide) _
  case edges =>
    intro edge hedge
    obtain rfl | hedge := List.mem_cons.mp hedge
    · exact readable_none
    · split at hedge
      · rw [List.mem_singleton.mp hedge]
        exact readable_none
      · exact absurd hedge List.not_mem_nil

theorem plain_extractImport (moduleId : String) (declaration : P.Ref) :
    Plain (StructuralExtractor.extractImport host rootPath P moduleId declaration) := by
  have hspecifier : Readable (some (OrderedMap.ofList [("specifier", .str (P.node declaration).text)])) :=
    readable_singleton (by decide) _
  have hexternal : ∀ id target name, Plain
      { nodes := [{ id, kind := .ExternalModule, name, filePath := name }]
        edges := [extract.edge .IMPORTS moduleId target
          (some (OrderedMap.ofList [("specifier", .str (P.node declaration).text)]))] } := by
    intro id target name
    constructor
    case nodes =>
      intro node hnode
      rw [List.mem_singleton.mp hnode]
      exact readable_none
    case edges =>
      intro edge hedge
      rw [List.mem_singleton.mp hedge]
      exact hspecifier
  unfold StructuralExtractor.extractImport
  dsimp only
  split
  · split
    · refine ⟨fun _ h => absurd h List.not_mem_nil, fun edge hedge => ?_⟩
      rw [List.mem_singleton.mp hedge]
      exact hspecifier
    · exact hexternal _ _ _
  · exact hexternal _ _ _

theorem plain_structural (file : P.Ref) : Plain (StructuralExtractor.extract host rootPath P file) := by
  rw [StructuralExtractor.extract_eq]
  refine (Plain.append ?_ (plain_collect fun _ => plain_extractImport host rootPath P _ _)).append
    (plain_collect fun _ => plain_push host rootPath P _ _ _ _)
  refine ⟨fun node hnode => ?_, fun _ h => absurd h List.not_mem_nil⟩
  rw [List.mem_singleton.mp hnode]
  exact readable_none

theorem plain_config (file : P.Ref) : Plain (ConfigExtractor.extract host rootPath P file) := by
  have hemit : ∀ moduleId access name, Plain (ConfigExtractor.emit host rootPath P moduleId access name) := by
    intro moduleId access name
    unfold ConfigExtractor.emit
    split
    · exact plain_empty
    · constructor
      case nodes =>
        intro node hnode
        rw [List.mem_singleton.mp hnode]
        exact readable_none
      case edges =>
        intro edge hedge
        rw [List.mem_singleton.mp hedge]
        exact readable_none
  refine (plain_collect fun access => hemit _ _ _).append (plain_collect fun access => ?_)
  split
  · exact hemit _ _ _
  · exact plain_empty

theorem plain_api (file : P.Ref) : Plain (ApiExtractor.extract host rootPath P file) := by
  refine plain_collect fun call => ⟨fun node hnode => ?_, fun edge hedge => ?_⟩
  · rw [List.mem_singleton.mp hnode]
    exact readable_none
  · rw [List.mem_singleton.mp hedge]
    exact readable_none

theorem plain_endpoint (file : P.Ref) : Plain (EndpointExtractor.extract host rootPath P file) := by
  refine plain_collect fun call => ?_
  unfold EndpointExtractor.extractRoute
  split
  · exact plain_empty
  · refine ⟨fun node hnode => ?_, fun edge hedge => ?_⟩
    · rw [List.mem_singleton.mp hnode]
      exact readable_none
    · obtain ⟨_, _, rfl⟩ := List.mem_map.mp hedge
      exact readable_none

theorem plain_semantic (file : P.Ref) : Plain (SemanticExtractor.extract host rootPath P file) := by
  refine ⟨fun _ h => absurd h List.not_mem_nil, fun edge hedge => ?_⟩
  obtain ⟨_, _, _, _, rfl⟩ := SemanticExtractor.mem_extract_iff.mp hedge
  exact readable_none

theorem plain_extractions {options : BuildOptions} {extraction : Extraction}
    (h : extraction ∈ extractions host rootPath P options) : Plain extraction := by
  obtain h | h := List.mem_append.mp h
  · obtain ⟨file, _, h⟩ := List.mem_flatMap.mp h
    simp only [structuralPass, List.mem_cons, List.not_mem_nil, or_false] at h
    obtain rfl | rfl | rfl := h
    · exact plain_structural host rootPath P file
    · exact plain_config host rootPath P file
    · exact plain_api host rootPath P file
  · split at h
    · obtain ⟨file, _, h⟩ := List.mem_flatMap.mp h
      simp only [semanticPass, List.mem_cons, List.not_mem_nil, or_false] at h
      obtain rfl | rfl := h
      · exact plain_semantic host rootPath P file
      · exact plain_endpoint host rootPath P file
    · exact absurd h List.not_mem_nil

end Extractors

/-- Whatever the project, its graph is read back as it was written. -/
theorem readable_graphOf (host : Host) (rootPath : String) (P : Project) (options : BuildOptions)
    (source : Option SourceManifest) : (graphOf host rootPath P options source).Readable := by
  have hpushed : ∀ node ∈ pushedNodes host rootPath P options, Readable node.metadata := by
    intro node hnode
    obtain ⟨extraction, hextraction, hnode⟩ := List.mem_flatMap.mp hnode
    exact (plain_extractions host rootPath P hextraction).nodes node hnode
  constructor
  · intro node hnode
    obtain ⟨entry, hentry, rfl⟩ := List.mem_map.mp hnode
    have hget := get_build_nodes host rootPath P options entry.1
    rw [OrderedMap.get_eq_some_iff.mpr hentry] at hget
    exact hpushed entry.2 (List.mem_of_mem_filter (List.mem_of_getLast? hget.symm))
  · intro edge hedge
    obtain ⟨entry, hentry, rfl⟩ := List.mem_map.mp hedge
    have hget : (build host rootPath P options).edges.get entry.1 = some entry.2 := OrderedMap.get_eq_some_iff.mpr hentry
    rw [build, get_merged] at hget
    obtain ⟨first, hfirst, hcounted⟩ := Option.map_eq_some_iff.mp hget
    rw [← hcounted]
    refine readable_counted ?_ _
    obtain ⟨extraction, hextraction, hfirst⟩ := List.mem_flatMap.mp (List.mem_of_mem_filter (List.mem_of_mem_head? hfirst))
    exact (plain_extractions host rootPath P hextraction).edges first hfirst

/-- `extract`, then what a reader of the directory gets: the graph itself, with
the source of an earlier run where this one found none. -/
theorem read_run {host loadHost : Host} {stringify : Json → String} {rootPath : String} {P : Project}
    {options : BuildOptions} {dir : GraphDir} {source : Option SourceManifest}
    (hrows : ∀ json ∈ rowsOf (graphOf host rootPath P options source), IsRow loadHost stringify json) :
    JsonlReader.read loadHost (run host rootPath P options stringify dir source) =
      .ok (graphOf host rootPath P options (source.or (JsonlReader.readSource loadHost dir.sourceFile))) := by
  obtain ⟨hnodes, hedges⟩ := readable_graphOf host rootPath P options source
  rw [run, read_write hrows, map_keptNode_eq_self_iff.mpr hnodes, map_keptEdge_eq_self_iff.mpr hedges]
  rfl

end codespine.commands.ExtractCommand
