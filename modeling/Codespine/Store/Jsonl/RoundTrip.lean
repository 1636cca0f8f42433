import Codespine.Store.Jsonl

open codespine.schema codespine.enrich
open codespine.extract.StructuralExtractor (trim)

namespace codespine.store

section Schema

theorem nodeKindSchema_text (kind : NodeKind) : NodeKindSchema (.str kind.text) = some kind := by
  cases kind <;> rfl

theorem edgeKindSchema_text (kind : EdgeKind) : EdgeKindSchema (.str kind.text) = some kind := by
  cases kind <;> rfl

theorem integer_num (value : ℤ) : integer (.num value) = some value := by
  simp [integer, number]

/-- A record as it is read back: without an entry under `__proto__`. -/
def kept (metadata : Metadata) : Metadata := metadata.filter fun key _ => key ≠ "__proto__"

theorem record_metadataJson (metadata : Metadata) : record (metadataJson metadata) = some (kept metadata) :=
  congrArg some (OrderedMap.ofList_entries (kept metadata))

/-- Metadata that is read back as it was written. -/
def Readable (metadata : Option Metadata) : Prop := ∀ record ∈ metadata, "__proto__" ∉ record.keys

theorem kept_eq_self_iff {metadata : Metadata} : kept metadata = metadata ↔ "__proto__" ∉ metadata.keys := by
  constructor
  · intro h hmem
    obtain ⟨entry, hentry, hproto⟩ := List.mem_map.mp hmem
    rw [← h] at hentry
    exact of_decide_eq_true (List.mem_filter.mp hentry).2 hproto
  · intro h
    refine OrderedMap.ext (List.filter_eq_self.mpr fun entry hentry => decide_eq_true ?_)
    intro hproto
    exact h (hproto ▸ List.mem_map_of_mem hentry)

theorem map_kept_eq_self_iff {metadata : Option Metadata} : metadata.map kept = metadata ↔ Readable metadata := by
  cases metadata with
  | none => exact iff_of_true rfl fun _ h => nomatch h
  | some record =>
    rw [Option.map_some, Option.some_inj, kept_eq_self_iff]
    exact ⟨fun h _ hrecord => Option.some.inj hrecord ▸ h, fun h => h record rfl⟩

theorem rangeSchema_rangeJson (range : Range) : RangeSchema (rangeJson range) = some range := by
  simp [RangeSchema, rangeJson, Json.field, OrderedMap.lookup, integer_num]

/-- A field that is there is read by its schema, and one that is not is left
out. -/
theorem optional_of_field {α : Type} {schema : Json → Option α} {keep : α → α} {key : String} {json : Json}
    {value : Option α} (encode : α → Json) (hfield : json.field key = value.map encode)
    (hschema : ∀ a, schema (encode a) = some (keep a)) : enrich.optional schema key json = some (value.map keep) := by
  unfold enrich.optional
  rw [hfield]
  cases value with
  | none => rfl
  | some a => exact congrArg (Option.map some) (hschema a)

/-- A node and an edge as they are read back. -/
def keptNode (node : GraphNode) : GraphNode := { node with metadata := node.metadata.map kept }

def keptEdge (edge : GraphEdge) : GraphEdge := { edge with metadata := edge.metadata.map kept }

/-- What is written for a node is read as the node. -/
theorem graphNodeSchema_nodeJson (node : GraphNode) : GraphNodeSchema (nodeJson node) = some (keptNode node) := by
  have hrange : optional RangeSchema "range" (nodeJson node) = some (node.range.map id) := by
    refine optional_of_field rangeJson ?_ rangeSchema_rangeJson
    cases hr : node.range <;> cases he : node.exported <;> cases hm : node.metadata <;>
      simp [nodeJson, optionalField, Json.field, OrderedMap.lookup, hr, he, hm]
  have hexported : optional boolean "exported" (nodeJson node) = some (node.exported.map id) := by
    refine optional_of_field .bool ?_ fun _ => rfl
    cases hr : node.range <;> cases he : node.exported <;> cases hm : node.metadata <;>
      simp [nodeJson, optionalField, Json.field, OrderedMap.lookup, hr, he, hm]
  have hmetadata : optional record "metadata" (nodeJson node) = some (node.metadata.map kept) := by
    refine optional_of_field metadataJson ?_ record_metadataJson
    cases hr : node.range <;> cases he : node.exported <;> cases hm : node.metadata <;>
      simp [nodeJson, optionalField, Json.field, OrderedMap.lookup, hr, he, hm]
  unfold GraphNodeSchema
  rw [hrange, hexported, hmetadata, Option.map_id_fun, Option.map_id_fun]
  simp [nodeJson, keptNode, Json.field, OrderedMap.lookup, string, nodeKindSchema_text]

theorem graphEdgeSchema_edgeJson (edge : GraphEdge) : GraphEdgeSchema (edgeJson edge) = some (keptEdge edge) := by
  have hmetadata : optional record "metadata" (edgeJson edge) = some (edge.metadata.map kept) := by
    refine optional_of_field metadataJson ?_ record_metadataJson
    cases hm : edge.metadata <;> simp [edgeJson, optionalField, Json.field, OrderedMap.lookup, hm]
  unfold GraphEdgeSchema
  rw [hmetadata]
  simp [edgeJson, keptEdge, Json.field, OrderedMap.lookup, string, edgeKindSchema_text]

theorem sourceManifestSchema_sourceJson (source : SourceManifest) :
    SourceManifestSchema (sourceJson source) = some source := by
  simp [SourceManifestSchema, sourceJson, Json.field, OrderedMap.lookup, string]

end Schema

/-- `JSON.stringify` writes the value as one line that is not blank, and
`JSON.parse` undoes it, with or without a newline after it. -/
structure IsRow (host : Host) (stringify : Json → String) (json : Json) : Prop where
  no_newline : '\n' ∉ (stringify json).toList
  not_blank : trim (stringify json).toList ≠ []
  parse : host.parseJson (stringify json) = .ok json
  parse_line : host.parseJson (stringify json ++ "\n") = .ok json

/-- The values that are written for a graph. -/
def rowsOf (data : GraphData) : List Json :=
  data.nodes.map nodeJson ++ data.edges.map edgeJson ++ (data.source.map sourceJson).toList

section Lines

theorem toList_serialize_cons (text : String) (rest : List String) : (JsonlStore.serialize (text :: rest)).toList =
    text.toList ++ '\n' :: if rest = [] then [] else (JsonlStore.serialize rest).toList := by
  unfold JsonlStore.serialize
  split
  · next hempty => simp [hempty]
  · next hne => simp [String.intercalate_cons_of_ne_nil hne]

/-- The lines that are not blank are those that were written. -/
theorem lines_serialize {texts : List String} (hnewline : ∀ text ∈ texts, '\n' ∉ text.toList)
    (hblank : ∀ text ∈ texts, trim text.toList ≠ []) :
    ((JsonlStore.serialize texts).toList.splitOn '\n').filter (fun line => trim line ≠ []) =
      texts.map String.toList := by
  induction texts with
  | nil => decide
  | cons text rest ih =>
    have hkept : decide (trim text.toList ≠ []) = true := decide_eq_true (hblank text List.mem_cons_self)
    rw [toList_serialize_cons, List.splitOn_append_cons_self_of_not_mem (hnewline text List.mem_cons_self),
      List.filter_cons, if_pos hkept, List.map_cons]
    congr 1
    split
    · next hempty =>
      subst hempty
      decide
    · exact ih (fun t ht => hnewline t (List.mem_cons_of_mem _ ht)) fun t ht => hblank t (List.mem_cons_of_mem _ ht)

variable {host : Host} {stringify : Json → String}

/-- Rows are read back as their schema keeps them. -/
theorem readLines_serialize {α : Type} {schema : Json → Option α} {encode : α → Json} {keep : α → α}
    (hschema : ∀ a, schema (encode a) = some (keep a)) {rows : List α}
    (hrows : ∀ a ∈ rows, IsRow host stringify (encode a)) :
    JsonlReader.readLines host schema (some (JsonlStore.serialize (rows.map fun a => stringify (encode a)))) =
      .ok (rows.map keep) := by
  have hparse : ∀ a ∈ rows, JsonlReader.parseLine host schema (stringify (encode a)) = .ok (keep a) := by
    intro a ha
    unfold JsonlReader.parseLine
    rw [(hrows a ha).parse]
    dsimp only
    rw [hschema]
  have hall : rows.mapM (fun a => JsonlReader.parseLine host schema (stringify (encode a))) = .ok (rows.map keep) := by
    clear hrows
    induction rows with
    | nil => rfl
    | cons a rest ih =>
      rw [List.mapM_cons, hparse a List.mem_cons_self, ih fun b hb => hparse b (List.mem_cons_of_mem a hb)]
      rfl
  unfold JsonlReader.readLines
  dsimp only
  rw [lines_serialize, List.map_map, List.mapM_map]
  · simpa [Function.comp_def] using hall
  · intro text htext
    obtain ⟨a, ha, rfl⟩ := List.mem_map.mp htext
    exact (hrows a ha).no_newline
  · intro text htext
    obtain ⟨a, ha, rfl⟩ := List.mem_map.mp htext
    exact (hrows a ha).not_blank

theorem readSource_write {dir : GraphDir} {data : GraphData}
    (hrows : ∀ json ∈ rowsOf data, IsRow host stringify json) :
    JsonlReader.readSource host (JsonlStore.write stringify dir data).sourceFile =
      data.source.or (JsonlReader.readSource host dir.sourceFile) := by
  unfold JsonlStore.write
  cases hsource : data.source with
  | none => rfl
  | some source =>
    have hrow := hrows (sourceJson source) (by simp [rowsOf, hsource])
    unfold JsonlReader.readSource
    rw [Option.bind_some, hrow.parse_line]
    exact sourceManifestSchema_sourceJson source

/-- One write read back: the source of an earlier one shows where this one has
none. -/
theorem read_write {dir : GraphDir} {data : GraphData} (hrows : ∀ json ∈ rowsOf data, IsRow host stringify json) :
    JsonlReader.read host (JsonlStore.write stringify dir data) =
      .ok { nodes := data.nodes.map keptNode, edges := data.edges.map keptEdge,
            source := data.source.or (JsonlReader.readSource host dir.sourceFile) } := by
  have hnodes : JsonlReader.readLines host GraphNodeSchema (JsonlStore.write stringify dir data).nodesFile =
      .ok (data.nodes.map keptNode) := by
    refine readLines_serialize graphNodeSchema_nodeJson fun node hnode => hrows _ ?_
    exact List.mem_append_left _ (List.mem_append_left _ (List.mem_map_of_mem hnode))
  have hedges : JsonlReader.readLines host GraphEdgeSchema (JsonlStore.write stringify dir data).edgesFile =
      .ok (data.edges.map keptEdge) := by
    refine readLines_serialize graphEdgeSchema_edgeJson fun edge hedge => hrows _ ?_
    exact List.mem_append_left _ (List.mem_append_right _ (List.mem_map_of_mem hedge))
  unfold JsonlReader.read
  rw [hnodes, hedges, readSource_write hrows]
  rfl

/-- The records of a graph are read back as they were written. -/
def GraphData.Readable (data : GraphData) : Prop :=
  (∀ node ∈ data.nodes, store.Readable node.metadata) ∧ ∀ edge ∈ data.edges, store.Readable edge.metadata

theorem map_eq_self_iff {α : Type} {f : α → α} {rows : List α} : rows.map f = rows ↔ ∀ row ∈ rows, f row = row := by
  have h : rows.map f = rows.map id ↔ ∀ row ∈ rows, f row = id row := List.map_inj_left
  rwa [List.map_id] at h

theorem map_keptNode_eq_self_iff {nodes : List GraphNode} :
    nodes.map keptNode = nodes ↔ ∀ node ∈ nodes, Readable node.metadata := by
  refine map_eq_self_iff.trans (forall₂_congr fun node _ => ?_)
  rw [← map_kept_eq_self_iff]
  exact ⟨congrArg GraphNode.metadata, fun h => congrArg (fun metadata => { node with metadata }) h⟩

theorem map_keptEdge_eq_self_iff {edges : List GraphEdge} :
    edges.map keptEdge = edges ↔ ∀ edge ∈ edges, Readable edge.metadata := by
  refine map_eq_self_iff.trans (forall₂_congr fun edge _ => ?_)
  rw [← map_kept_eq_self_iff]
  exact ⟨congrArg GraphEdge.metadata, fun h => congrArg (fun metadata => { edge with metadata }) h⟩

/-- The source that shows after a history of writes: the last one written. -/
theorem readSource_foldl_write {history : List GraphData} {dir : GraphDir}
    (hrows : ∀ data ∈ history, ∀ json ∈ rowsOf data, IsRow host stringify json) :
    JsonlReader.readSource host (history.foldl (JsonlStore.write stringify) dir).sourceFile = none ↔
      (∀ data ∈ history, data.source = none) ∧ JsonlReader.readSource host dir.sourceFile = none := by
  induction history generalizing dir with
  | nil => simp
  | cons data rest ih =>
    rw [List.foldl_cons, ih fun d hd => hrows d (List.mem_cons_of_mem _ hd),
      readSource_write (hrows data List.mem_cons_self), Option.or_eq_none_iff]
    simp only [List.forall_mem_cons]
    tauto

end Lines

/-- After a history of writes, what is read is the last write exactly when that
has a source, or no source was ever written, and no record of it has an entry
under `__proto__`. -/
theorem jsonl_round_trip_iff {host : Host} {stringify : Json → String} (dir : GraphDir) (history : List GraphData)
    (last : GraphData) (hrows : ∀ data ∈ history ++ [last], ∀ json ∈ rowsOf data, IsRow host stringify json) :
    JsonlReader.read host ((history ++ [last]).foldl (JsonlStore.write stringify) dir) = .ok last ↔
      last.Readable ∧ (last.source.isSome ∨
        (∀ data ∈ history, data.source = none) ∧ JsonlReader.readSource host dir.sourceFile = none) := by
  have hhistory : ∀ data ∈ history, ∀ json ∈ rowsOf data, IsRow host stringify json :=
    fun data hdata => hrows data (List.mem_append_left _ hdata)
  rw [List.foldl_append, List.foldl_cons, List.foldl_nil, read_write (hrows last (by simp)),
    ← readSource_foldl_write hhistory]
  obtain ⟨nodes, edges, source⟩ := last
  simp only [Except.ok.injEq, GraphData.mk.injEq, map_keptNode_eq_self_iff, map_keptEdge_eq_self_iff, GraphData.Readable,
    and_assoc]
  cases source with
  | none => simp
  | some source => simp

/-- `JSON.stringify` of an object of plain texts. -/
def stringifyFlat : Json → String
  | .obj fields => "\x7b" ++ ",".intercalate (fields.map fun field =>
      "\"" ++ field.1 ++ "\":" ++ match field.2 with
        | .str text => "\"" ++ text ++ "\""
        | _ => "null") ++ "\x7d"
  | _ => "null"

def oneModule : GraphData where
  nodes := [{ id := "Module:a.ts", kind := .Module, name := "a.ts", filePath := "a.ts" }]
  edges := []

def oneModuleSource : SourceManifest where
  baseUrl := "https://github.com/owner/repo"
  commit := "abc1234"
  rootPrefix := ""

def oneModuleRows : List Json := rowsOf { oneModule with source := some oneModuleSource }

/-- A host that knows the texts of the rows. -/
def oneModuleHost : Host :=
  posixHost (oneModuleRows.flatMap fun json =>
    [(stringifyFlat json, json), (stringifyFlat json ++ "\n", json)])

theorem isRow_oneModule : ∀ json ∈ oneModuleRows, IsRow oneModuleHost stringifyFlat json := by
  have hlines : ∀ text ∈ oneModuleRows.map stringifyFlat, '\n' ∉ text.toList ∧ trim text.toList ≠ [] := by
    decide +kernel
  have hknown : ∀ (documents : List (String × Json)), (documents.map Prod.fst).Nodup →
      ∀ entry ∈ documents, (posixHost documents).parseJson entry.1 = .ok entry.2 := by
    intro documents hnodup entry hentry
    unfold posixHost
    dsimp only
    rw [OrderedMap.lookup_of_mem hnodup hentry]
  have hnodup : ((oneModuleRows.flatMap fun json =>
      [(stringifyFlat json, json), (stringifyFlat json ++ "\n", json)]).map Prod.fst).Nodup := by decide +kernel
  intro json hjson
  obtain ⟨hnewline, hblank⟩ := hlines _ (List.mem_map_of_mem hjson)
  refine ⟨hnewline, hblank, ?_, ?_⟩
  · exact hknown _ hnodup (stringifyFlat json, json) (List.mem_flatMap.mpr ⟨json, hjson, List.mem_cons_self⟩)
  · exact hknown _ hnodup (stringifyFlat json ++ "\n", json)
      (List.mem_flatMap.mpr ⟨json, hjson, List.mem_cons_of_mem _ List.mem_cons_self⟩)

theorem isRow_rowsOf_oneModule (source : Option SourceManifest) (hsource : source = none ∨ source = some oneModuleSource) :
    ∀ json ∈ rowsOf { oneModule with source }, IsRow oneModuleHost stringifyFlat json := by
  intro json hjson
  refine isRow_oneModule json ?_
  obtain rfl | rfl := hsource
  · exact List.mem_append_left _ (by simpa [rowsOf] using hjson)
  · exact hjson

theorem jsonl_round_trip_iff_oneModule :
    (∀ data ∈ [oneModule] ++ [{ oneModule with source := some oneModuleSource }], ∀ json ∈ rowsOf data,
        IsRow oneModuleHost stringifyFlat json) ∧
      JsonlReader.read oneModuleHost (([oneModule] ++ [{ oneModule with source := some oneModuleSource }]).foldl
        (JsonlStore.write stringifyFlat) {}) = .ok { oneModule with source := some oneModuleSource } := by
  have hrows : ∀ data ∈ [oneModule] ++ [{ oneModule with source := some oneModuleSource }], ∀ json ∈ rowsOf data,
      IsRow oneModuleHost stringifyFlat json := by
    intro data hdata
    obtain rfl | hdata := List.mem_cons.mp hdata
    · exact isRow_rowsOf_oneModule none (Or.inl rfl)
    · rw [List.mem_singleton.mp hdata]
      exact isRow_rowsOf_oneModule _ (Or.inr rfl)
  have hreadable : GraphData.Readable { oneModule with source := some oneModuleSource } := by
    constructor
    · intro node hnode record hrecord
      rw [List.mem_singleton.mp hnode] at hrecord
      cases hrecord
    · exact fun edge hedge => absurd hedge List.not_mem_nil
  exact ⟨hrows, (jsonl_round_trip_iff {} [oneModule] { oneModule with source := some oneModuleSource } hrows).mpr
    ⟨hreadable, Or.inl rfl⟩⟩

/-- A write without a source, after one with a source, is read with it. -/
theorem jsonl_keeps_stale_source :
    (∀ data ∈ [{ oneModule with source := some oneModuleSource }, oneModule], ∀ json ∈ rowsOf data,
        IsRow oneModuleHost stringifyFlat json) ∧
      JsonlReader.read oneModuleHost ([{ oneModule with source := some oneModuleSource }, oneModule].foldl
        (JsonlStore.write stringifyFlat) {}) ≠ .ok oneModule := by
  constructor
  · intro data hdata
    obtain rfl | hdata := List.mem_cons.mp hdata
    · exact isRow_rowsOf_oneModule _ (Or.inr rfl)
    · rw [List.mem_singleton.mp hdata]
      exact isRow_rowsOf_oneModule none (Or.inl rfl)
  · have hrows : ∀ json ∈ rowsOf oneModule, IsRow oneModuleHost stringifyFlat json :=
      isRow_rowsOf_oneModule none (Or.inl rfl)
    rw [List.foldl_cons, List.foldl_cons, List.foldl_nil, read_write hrows,
      readSource_write (isRow_rowsOf_oneModule _ (Or.inr rfl))]
    intro hread
    have hsource := congrArg GraphData.source (Except.ok.inj hread)
    cases hsource

end codespine.store
