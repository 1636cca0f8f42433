import Codespine.Extract.GraphBuilder.Relationships

open codespine.schema codespine.store

namespace codespine.extract

variable (host : Host) (rootPath : String) (P : Project)

/-- How the ids begin that stand for no declaration. -/
def UNDECLARED_ID_STARTS : List (List Char) :=
  [['M', 'o', 'd'], ['E', 'x', 't'], ['C', 'o', 'n'], ['A', 'p', 'i'], ['E', 'n', 'd']]

/-- The kinds of the declarations that can be emitted, parameters excepted. -/
def DECLARED_KINDS : List SyntaxKind :=
  [.VariableDeclaration, .FunctionDeclaration, .ClassDeclaration, .InterfaceDeclaration, .TypeAliasDeclaration,
    .EnumDeclaration, .MethodDeclaration, .MethodSignature, .PropertyDeclaration, .PropertySignature]

theorem start_forDeclaration {x : P.Ref} (hkind : P.kind x ∈ DECLARED_KINDS) :
    (NodeId.forDeclaration host rootPath P x).toList.take 3 ∉ UNDECLARED_ID_STARTS := by
  simp only [DECLARED_KINDS, List.mem_cons, List.not_mem_nil, or_false] at hkind
  obtain h | h | h | h | h | h | h | h | h | h := hkind <;>
    simp [NodeId.forDeclaration, h, SyntaxKind.kindName, UNDECLARED_ID_STARTS]

theorem start_of_import {moduleId : String} {declaration : P.Ref} {node : GraphNode}
    (h : node ∈ (StructuralExtractor.extractImport host rootPath P moduleId declaration).nodes) :
    node.id.toList.take 3 ∈ UNDECLARED_ID_STARTS := by
  unfold StructuralExtractor.extractImport at h
  dsimp only at h
  split at h
  · split at h
    · exact absurd h List.not_mem_nil
    · rw [List.mem_singleton.mp h]
      simp [NodeId.forExternalModule, UNDECLARED_ID_STARTS]
  · rw [List.mem_singleton.mp h]
    simp [NodeId.forExternalModule, UNDECLARED_ID_STARTS]

/-- The id of a declaration is among those of a file when a declaration with
that id is emitted in the file. -/
theorem exists_node_declaration_iff {file x : P.Ref} (hkind : P.kind x ∈ DECLARED_KINDS) :
    (∃ node ∈ (StructuralExtractor.extract host rootPath P file).nodes,
        node.id = NodeId.forDeclaration host rootPath P x) ↔
      ∃ container y, EmittedUnder P file container y ∧
        NodeId.forDeclaration host rootPath P y = NodeId.forDeclaration host rootPath P x := by
  have hstart := start_forDeclaration host rootPath P hkind
  rw [StructuralExtractor.exists_node_extract_iff]
  constructor
  · rintro (hid | ⟨declaration, _, node, hnode, hid⟩ | hemitted)
    · rw [← hid] at hstart
      exact absurd (by simp [NodeId.forModule, UNDECLARED_ID_STARTS]) hstart
    · rw [← hid] at hstart
      exact absurd (start_of_import host rootPath P hnode) hstart
    · exact hemitted
  · exact fun hemitted => Or.inr (Or.inr hemitted)

theorem start_of_config {file : P.Ref} {node : GraphNode}
    (h : node ∈ (ConfigExtractor.extract host rootPath P file).nodes) :
    node.id.toList.take 3 ∈ UNDECLARED_ID_STARTS := by
  have hemit : ∀ moduleId access name, node ∈ (ConfigExtractor.emit host rootPath P moduleId access name).nodes →
      node.id.toList.take 3 ∈ UNDECLARED_ID_STARTS := by
    intro moduleId access name hnode
    unfold ConfigExtractor.emit at hnode
    split at hnode
    · exact absurd hnode List.not_mem_nil
    · rw [List.mem_singleton.mp hnode]
      simp [NodeId.forConfigFlag, UNDECLARED_ID_STARTS]
  simp only [ConfigExtractor.extract, Extraction.nodes_append, Extraction.nodes_collect, List.mem_append,
    List.mem_flatMap] at h
  obtain ⟨access, _, h⟩ | ⟨access, _, h⟩ := h
  · exact hemit _ _ _ h
  · split at h
    · exact hemit _ _ _ h
    · exact absurd h List.not_mem_nil

theorem start_of_api {file : P.Ref} {node : GraphNode}
    (h : node ∈ (ApiExtractor.extract host rootPath P file).nodes) :
    node.id.toList.take 3 ∈ UNDECLARED_ID_STARTS := by
  simp only [ApiExtractor.extract, Extraction.nodes_collect, List.mem_flatMap, List.mem_singleton] at h
  obtain ⟨call, _, rfl⟩ := h
  simp [NodeId.forExternalApi, UNDECLARED_ID_STARTS]

theorem start_of_endpoint {file : P.Ref} {node : GraphNode}
    (h : node ∈ (EndpointExtractor.extract host rootPath P file).nodes) :
    node.id.toList.take 3 ∈ UNDECLARED_ID_STARTS := by
  simp only [EndpointExtractor.extract, Extraction.nodes_collect, List.mem_flatMap] at h
  obtain ⟨call, _, h⟩ := h
  unfold EndpointExtractor.extractRoute at h
  split at h
  · exact absurd h List.not_mem_nil
  · rw [List.mem_singleton.mp h]
    simp [NodeId.forEndpoint, UNDECLARED_ID_STARTS]

/-- The declarations emitted under an id, in the order they are merged. -/
def emittedAs (id : String) : List (Emission P) :=
  ((GraphBuilder.projectFiles P).flatMap (StructuralExtractor.emissions P)).filter fun e =>
    NodeId.forDeclaration host rootPath P e.declaration = id

namespace GraphBuilder

theorem filter_undeclared {id : String} (hid : id.toList.take 3 ∉ UNDECLARED_ID_STARTS) {l : List GraphNode}
    (hl : ∀ node ∈ l, node.id.toList.take 3 ∈ UNDECLARED_ID_STARTS) : l.filter (fun node => node.id = id) = [] := by
  refine List.filter_eq_nil_iff.mpr fun node hnode heq => hid ?_
  rw [← of_decide_eq_true heq]
  exact hl node hnode

theorem filter_structural {id : String} (hid : id.toList.take 3 ∉ UNDECLARED_ID_STARTS) (file : P.Ref) :
    (StructuralExtractor.extract host rootPath P file).nodes.filter (fun node => node.id = id) =
      ((StructuralExtractor.emissions P file).filter fun e =>
        NodeId.forDeclaration host rootPath P e.declaration = id).map fun e =>
          StructuralExtractor.graphNodeOf host rootPath P e.declaration e.kind := by
  rw [StructuralExtractor.extract_eq]
  simp only [Extraction.nodes_append, Extraction.nodes_collect, List.filter_append]
  rw [filter_undeclared hid, filter_undeclared hid, List.nil_append, List.nil_append]
  · simp only [StructuralExtractor.pushEmission, StructuralExtractor.push]
    rw [← List.map_eq_flatMap, List.filter_map]
    rfl
  · intro node hnode
    obtain ⟨declaration, _, hnode⟩ := List.mem_flatMap.mp hnode
    exact start_of_import host rootPath P hnode
  · intro node hnode
    rw [List.mem_singleton.mp hnode]
    simp [NodeId.forModule, UNDECLARED_ID_STARTS]

/-- The records merged under the id of a declaration are those of the
declarations emitted under it. -/
theorem filter_pushedNodes {id : String} (hid : id.toList.take 3 ∉ UNDECLARED_ID_STARTS) :
    (pushedNodes host rootPath P { semantic := true }).filter (fun node => node.id = id) =
      (emittedAs host rootPath P id).map fun e =>
        StructuralExtractor.graphNodeOf host rootPath P e.declaration e.kind := by
  have hsemantic : (((projectFiles P).flatMap (semanticPass host rootPath P)).flatMap Extraction.nodes).filter
      (fun node => node.id = id) = [] := by
    refine filter_undeclared hid fun node hnode => ?_
    simp only [List.mem_flatMap, semanticPass, List.mem_cons, List.not_mem_nil, or_false] at hnode
    obtain ⟨_, ⟨file, _, rfl | rfl⟩, hnode⟩ := hnode
    · exact absurd hnode List.not_mem_nil
    · exact start_of_endpoint host rootPath P hnode
  have hfile : ∀ file, ((structuralPass host rootPath P file).flatMap Extraction.nodes).filter (fun node => node.id = id) =
      ((StructuralExtractor.emissions P file).filter fun e =>
        NodeId.forDeclaration host rootPath P e.declaration = id).map fun e =>
          StructuralExtractor.graphNodeOf host rootPath P e.declaration e.kind := by
    intro file
    simp only [structuralPass, List.flatMap_cons, List.flatMap_nil, List.append_nil, List.filter_append]
    rw [filter_structural host rootPath P hid, filter_undeclared hid fun _ => start_of_config host rootPath P,
      filter_undeclared hid fun _ => start_of_api host rootPath P, List.append_nil, List.append_nil]
  simp only [pushedNodes, extractions, if_true, List.flatMap_append, List.filter_append, hsemantic,
    List.append_nil]
  simp only [List.flatMap_assoc, List.filter_flatMap, hfile, emittedAs, List.map_flatMap]

end GraphBuilder

end codespine.extract
