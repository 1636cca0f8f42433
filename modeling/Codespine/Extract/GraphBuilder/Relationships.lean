import Codespine.Extract.GraphBuilder.Merge
import Codespine.Extract.SemanticExtractor.Uses

open codespine.schema codespine.store

namespace codespine.extract

variable (host : Host) (rootPath : String) (P : Project)

theorem edge_of_config {file : P.Ref} {e : GraphEdge} (h : e ∈ (ConfigExtractor.extract host rootPath P file).edges) :
    ∃ s t, e = edge .READS_CONFIG s t := by
  have hemit : ∀ moduleId access name, e ∈ (ConfigExtractor.emit host rootPath P moduleId access name).edges →
      ∃ s t, e = edge .READS_CONFIG s t := by
    intro moduleId access name he
    unfold ConfigExtractor.emit at he
    split at he
    · exact absurd he List.not_mem_nil
    · exact ⟨_, _, List.mem_singleton.mp he⟩
  simp only [ConfigExtractor.extract, Extraction.edges_append, Extraction.edges_collect, List.mem_append,
    List.mem_flatMap] at h
  obtain ⟨access, _, h⟩ | ⟨access, _, h⟩ := h
  · exact hemit _ _ _ h
  · split at h
    · exact hemit _ _ _ h
    · exact absurd h List.not_mem_nil

theorem edge_of_api {file : P.Ref} {e : GraphEdge} (h : e ∈ (ApiExtractor.extract host rootPath P file).edges) :
    ∃ s t, e = edge .CALLS_EXTERNAL s t := by
  simp only [ApiExtractor.extract, Extraction.edges_collect, List.mem_flatMap, List.mem_singleton] at h
  obtain ⟨call, _, rfl⟩ := h
  exact ⟨_, _, rfl⟩

/-- The call registers a route under the endpoint, with an emitted
declaration as its handler. -/
def HandlesRoute (file : P.Ref) (endpointId handlerId : String) : Prop :=
  ∃ call ∈ P.getDescendantsOfKind file .CallExpression, ∃ method path handler,
    EndpointExtractor.routeOf host rootPath P call = some (method, path, handler) ∧
      NodeId.forEndpoint method path = endpointId ∧ handler.id = some handlerId

theorem mem_endpoint_iff {file : P.Ref} {e : GraphEdge} : e ∈ (EndpointExtractor.extract host rootPath P file).edges ↔
    ∃ s t, HandlesRoute host rootPath P file s t ∧ e = edge .HANDLES s t := by
  simp only [EndpointExtractor.extract, Extraction.edges_collect, List.mem_flatMap, HandlesRoute]
  constructor
  · rintro ⟨call, hcall, he⟩
    unfold EndpointExtractor.extractRoute at he
    split at he
    · exact absurd he List.not_mem_nil
    · next method path handler hroute =>
      obtain ⟨id, hid, rfl⟩ := List.mem_map.mp he
      exact ⟨_, _, ⟨call, hcall, method, path, handler, hroute, rfl, Option.mem_toList.mp hid⟩, rfl⟩
  · rintro ⟨_, t, ⟨call, hcall, method, path, handler, hroute, rfl, hid⟩, rfl⟩
    refine ⟨call, hcall, ?_⟩
    unfold EndpointExtractor.extractRoute
    rw [hroute]
    exact List.mem_map_of_mem (Option.mem_toList.mpr hid)

/-- A relationship of the project that counts as a use of its target. -/
inductive Reference : EdgeKind → String → String → Prop
  | use {file : P.Ref} {kind : EdgeKind} {s t : String} (hfile : file ∈ GraphBuilder.projectFiles P)
      (huse : SemanticExtractor.Use host rootPath P file kind s t) (hkind : kind ∈ REFERENCE_EDGE_KINDS) :
      Reference kind s t
  | handles {file : P.Ref} {s t : String} (hfile : file ∈ GraphBuilder.projectFiles P)
      (hroute : HandlesRoute host rootPath P file s t) : Reference .HANDLES s t

variable {host rootPath P} in
theorem Reference.kind_mem {kind : EdgeKind} {s t : String} (h : Reference host rootPath P kind s t) :
    kind ∈ REFERENCE_EDGE_KINDS := by
  cases h with
  | use _ _ hkind => exact hkind
  | handles _ _ => decide

/-- The node with id `t` is contained in the one with id `s`. -/
def Contains (s t : String) : Prop :=
  ∃ file ∈ GraphBuilder.projectFiles P, ∃ container x, EmittedUnder P file container x ∧
    StructuralExtractor.containerId host rootPath P (NodeId.forModule host rootPath (P.getFilePath file)) container = s ∧
    NodeId.forDeclaration host rootPath P x = t

/-- A node with the id is merged: a module, a declaration, or what stands for
something outside the project. -/
inductive IsNode : String → Prop
  | module {file : P.Ref} (hfile : file ∈ GraphBuilder.projectFiles P) :
      IsNode (NodeId.forModule host rootPath (P.getFilePath file))
  | declaration {file x : P.Ref} {container : Option P.Ref} (hfile : file ∈ GraphBuilder.projectFiles P)
      (hx : EmittedUnder P file container x) : IsNode (NodeId.forDeclaration host rootPath P x)
  | externalModule {file declaration : P.Ref} {node : GraphNode} (hfile : file ∈ GraphBuilder.projectFiles P)
      (hdeclaration : declaration ∈ P.childrenOfKind file .ImportDeclaration)
      (hnode : node ∈ (StructuralExtractor.extractImport host rootPath P
        (NodeId.forModule host rootPath (P.getFilePath file)) declaration).nodes) : IsNode node.id
  | system {file : P.Ref} {node : GraphNode} (hfile : file ∈ GraphBuilder.projectFiles P)
      (hnode : node ∈ (ConfigExtractor.extract host rootPath P file).nodes ∨
        node ∈ (ApiExtractor.extract host rootPath P file).nodes ∨
        node ∈ (EndpointExtractor.extract host rootPath P file).nodes) : IsNode node.id

namespace GraphBuilder

theorem mem_pushedNodes {node : GraphNode} : node ∈ pushedNodes host rootPath P { semantic := true } ↔
    ∃ file ∈ projectFiles P, node ∈ (StructuralExtractor.extract host rootPath P file).nodes ∨
      node ∈ (ConfigExtractor.extract host rootPath P file).nodes ∨
      node ∈ (ApiExtractor.extract host rootPath P file).nodes ∨
      node ∈ (EndpointExtractor.extract host rootPath P file).nodes := by
  simp only [pushedNodes, extractions, if_true, List.flatMap_append, List.mem_append, List.mem_flatMap, structuralPass,
    semanticPass, List.mem_cons, List.not_mem_nil, or_false]
  constructor
  · rintro (⟨_, ⟨file, hfile, rfl | rfl | rfl⟩, hnode⟩ | ⟨_, ⟨file, hfile, rfl | rfl⟩, hnode⟩)
    · exact ⟨file, hfile, Or.inl hnode⟩
    · exact ⟨file, hfile, Or.inr (Or.inl hnode)⟩
    · exact ⟨file, hfile, Or.inr (Or.inr (Or.inl hnode))⟩
    · exact absurd hnode List.not_mem_nil
    · exact ⟨file, hfile, Or.inr (Or.inr (Or.inr hnode))⟩
  · rintro ⟨file, hfile, hnode | hnode | hnode | hnode⟩
    · exact Or.inl ⟨_, ⟨file, hfile, Or.inl rfl⟩, hnode⟩
    · exact Or.inl ⟨_, ⟨file, hfile, Or.inr (Or.inl rfl)⟩, hnode⟩
    · exact Or.inl ⟨_, ⟨file, hfile, Or.inr (Or.inr rfl)⟩, hnode⟩
    · exact Or.inr ⟨_, ⟨file, hfile, Or.inr rfl⟩, hnode⟩

theorem isNode_iff {id : String} :
    id ∈ (pushedNodes host rootPath P { semantic := true }).map GraphNode.id ↔ IsNode host rootPath P id := by
  simp only [List.mem_map, mem_pushedNodes]
  constructor
  · rintro ⟨node, ⟨file, hfile, hnode | hnode⟩, rfl⟩
    · have hexists := (StructuralExtractor.exists_node_extract_iff host rootPath P).mp ⟨node, hnode, rfl⟩
      obtain hid | ⟨declaration, hdeclaration, imported, himported, hid⟩ | ⟨container, x, hx, hid⟩ := hexists
      · exact hid ▸ .module hfile
      · exact hid ▸ .externalModule hfile hdeclaration himported
      · exact hid ▸ .declaration hfile hx
    · exact .system hfile hnode
  · intro h
    have hstructural : ∀ file ∈ projectFiles P, ∀ id,
        (∃ node ∈ (StructuralExtractor.extract host rootPath P file).nodes, node.id = id) →
        ∃ node, (∃ file ∈ projectFiles P, node ∈ (StructuralExtractor.extract host rootPath P file).nodes ∨
          node ∈ (ConfigExtractor.extract host rootPath P file).nodes ∨
          node ∈ (ApiExtractor.extract host rootPath P file).nodes ∨
          node ∈ (EndpointExtractor.extract host rootPath P file).nodes) ∧ node.id = id := by
      rintro file hfile id ⟨node, hnode, hid⟩
      exact ⟨node, ⟨file, hfile, Or.inl hnode⟩, hid⟩
    cases h with
    | @module file hfile =>
      exact hstructural file hfile _ ((StructuralExtractor.exists_node_extract_iff host rootPath P).mpr (Or.inl rfl))
    | @declaration file x container hfile hx =>
      exact hstructural file hfile _ ((StructuralExtractor.exists_node_extract_iff host rootPath P).mpr
        (Or.inr (Or.inr ⟨container, x, hx, rfl⟩)))
    | @externalModule file declaration node hfile hdeclaration hnode =>
      exact hstructural file hfile _ ((StructuralExtractor.exists_node_extract_iff host rootPath P).mpr
        (Or.inr (Or.inl ⟨declaration, hdeclaration, node, hnode, rfl⟩)))
    | @system file node hfile hnode => exact ⟨node, ⟨file, hfile, Or.inr hnode⟩, rfl⟩

theorem mem_pushedEdges {e : GraphEdge} : e ∈ pushedEdges host rootPath P { semantic := true } ↔
    ∃ file ∈ projectFiles P, e ∈ (StructuralExtractor.extract host rootPath P file).edges ∨
      e ∈ (ConfigExtractor.extract host rootPath P file).edges ∨
      e ∈ (ApiExtractor.extract host rootPath P file).edges ∨
      e ∈ (SemanticExtractor.extract host rootPath P file).edges ∨
      e ∈ (EndpointExtractor.extract host rootPath P file).edges := by
  simp only [pushedEdges, extractions, if_true, List.flatMap_append, List.mem_append, List.mem_flatMap, structuralPass,
    semanticPass, List.mem_cons, List.not_mem_nil, or_false]
  constructor
  · rintro (⟨_, ⟨file, hfile, rfl | rfl | rfl⟩, he⟩ | ⟨_, ⟨file, hfile, rfl | rfl⟩, he⟩) <;>
      exact ⟨file, hfile, by simp only [he, true_or, or_true]⟩
  · rintro ⟨file, hfile, he | he | he | he | he⟩
    · exact Or.inl ⟨_, ⟨file, hfile, Or.inl rfl⟩, he⟩
    · exact Or.inl ⟨_, ⟨file, hfile, Or.inr (Or.inl rfl)⟩, he⟩
    · exact Or.inl ⟨_, ⟨file, hfile, Or.inr (Or.inr rfl)⟩, he⟩
    · exact Or.inr ⟨_, ⟨file, hfile, Or.inl rfl⟩, he⟩
    · exact Or.inr ⟨_, ⟨file, hfile, Or.inr rfl⟩, he⟩

theorem takeWhile_edgeId (kind : EdgeKind) (s t : String) :
    (edgeId kind s t).toList.takeWhile (fun c => c ≠ ':') = kind.text.toList := by
  cases kind <;> simp [edgeId, EdgeKind.text]

theorem text_injective : Function.Injective EdgeKind.text := by
  intro kind kind' h
  cases kind <;> cases kind' <;> first | rfl | simp [EdgeKind.text] at h

/-- The id of a relationship determines it, when its source has no arrow in its
id. -/
theorem edgeId_injective {kind kind' : EdgeKind} {s t s' t' : String} (hs : includes s "->" = false)
    (hs' : includes s' "->" = false) (h : edgeId kind s t = edgeId kind' s' t') : kind = kind' ∧ s = s' ∧ t = t' := by
  have hkind : kind = kind' := by
    refine text_injective (String.toList_injective ?_)
    rw [← takeWhile_edgeId kind s t, ← takeWhile_edgeId kind' s' t', h]
  subst hkind
  have hends : s ++ "->" ++ t = s' ++ "->" ++ t' := by
    refine String.toList_injective ?_
    simpa [edgeId, String.toList_append] using congrArg String.toList h
  exact ⟨rfl, eq_of_arrow_eq hs hs' hends⟩

/-- Every edge is merged under the id of its kind and ends. -/
theorem id_of_mem_pushedEdges {e : GraphEdge} (h : e ∈ pushedEdges host rootPath P { semantic := true }) :
    e.id = edgeId e.kind e.source e.target := by
  obtain ⟨file, _, he | he | he | he | he⟩ := (mem_pushedEdges host rootPath P).mp h
  · obtain ⟨s, t, metadata, rfl⟩ | ⟨s, t, rfl⟩ | ⟨_, _, _, rfl⟩ :=
      StructuralExtractor.mem_edges_extract host rootPath P he
    · rfl
    · rfl
    · rfl
  · obtain ⟨s, t, rfl⟩ := edge_of_config host rootPath P he
    rfl
  · obtain ⟨s, t, rfl⟩ := edge_of_api host rootPath P he
    rfl
  · obtain ⟨kind, s, t, _, rfl⟩ := SemanticExtractor.mem_extract_iff.mp he
    rfl
  · obtain ⟨s, t, _, rfl⟩ := (mem_endpoint_iff host rootPath P).mp he
    rfl

theorem exists_contains_iff {s t : String} :
    (∃ e ∈ pushedEdges host rootPath P { semantic := true }, KuzuStore.keyOf e = ⟨s, t, .CONTAINS⟩) ↔
      Contains host rootPath P s t := by
  constructor
  · rintro ⟨e, he, hkey⟩
    obtain ⟨file, hfile, he | he | he | he | he⟩ := (mem_pushedEdges host rootPath P).mp he
    · obtain ⟨_, _, _, rfl⟩ | ⟨_, _, rfl⟩ | ⟨container, x, hx, rfl⟩ :=
        StructuralExtractor.mem_edges_extract host rootPath P he
      · cases hkey
      · cases hkey
      · cases hkey
        exact ⟨file, hfile, container, x, hx, rfl, rfl⟩
    · obtain ⟨_, _, rfl⟩ := edge_of_config host rootPath P he
      cases hkey
    · obtain ⟨_, _, rfl⟩ := edge_of_api host rootPath P he
      cases hkey
    · obtain ⟨kind, _, _, huse, rfl⟩ := SemanticExtractor.mem_extract_iff.mp he
      cases hkey
      exact absurd huse.kind_mem (by decide)
    · obtain ⟨_, _, _, rfl⟩ := (mem_endpoint_iff host rootPath P).mp he
      cases hkey
  · rintro ⟨file, hfile, container, x, hx, rfl, rfl⟩
    have hedge := StructuralExtractor.contains_mem_extract host rootPath P hx
    exact ⟨_, (mem_pushedEdges host rootPath P).mpr ⟨file, hfile, Or.inl hedge⟩, rfl⟩

theorem exists_reference_iff {kind : EdgeKind} (hkind : kind ∈ REFERENCE_EDGE_KINDS) {s t : String} :
    (∃ e ∈ pushedEdges host rootPath P { semantic := true }, KuzuStore.keyOf e = ⟨s, t, kind⟩) ↔
      Reference host rootPath P kind s t := by
  constructor
  · rintro ⟨e, he, hkey⟩
    obtain ⟨file, hfile, he | he | he | he | he⟩ := (mem_pushedEdges host rootPath P).mp he
    · obtain ⟨_, _, _, rfl⟩ | ⟨_, _, rfl⟩ | ⟨_, _, _, rfl⟩ :=
        StructuralExtractor.mem_edges_extract host rootPath P he <;>
      · cases hkey
        exact absurd hkind (by simp [edge, REFERENCE_EDGE_KINDS])
    · obtain ⟨_, _, rfl⟩ := edge_of_config host rootPath P he
      cases hkey
      exact absurd hkind (by simp [edge, REFERENCE_EDGE_KINDS])
    · obtain ⟨_, _, rfl⟩ := edge_of_api host rootPath P he
      cases hkey
      exact absurd hkind (by simp [edge, REFERENCE_EDGE_KINDS])
    · obtain ⟨_, _, _, huse, rfl⟩ := SemanticExtractor.mem_extract_iff.mp he
      cases hkey
      exact .use hfile huse hkind
    · obtain ⟨_, _, hroute, rfl⟩ := (mem_endpoint_iff host rootPath P).mp he
      cases hkey
      exact .handles hfile hroute
  · intro h
    cases h with
    | @use file _ _ _ hfile huse _ =>
      refine ⟨edge kind s t, (mem_pushedEdges host rootPath P).mpr ⟨file, hfile, ?_⟩, rfl⟩
      exact Or.inr (Or.inr (Or.inr (Or.inl (SemanticExtractor.mem_extract_iff.mpr ⟨kind, s, t, huse, rfl⟩))))
    | @handles file _ _ hfile hroute =>
      refine ⟨edge .HANDLES s t, (mem_pushedEdges host rootPath P).mpr ⟨file, hfile, ?_⟩, rfl⟩
      exact Or.inr (Or.inr (Or.inr (Or.inr ((mem_endpoint_iff host rootPath P).mpr ⟨s, t, hroute, rfl⟩))))

end GraphBuilder

end codespine.extract
