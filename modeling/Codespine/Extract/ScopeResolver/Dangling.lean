import Codespine.Extract.SemanticExtractor.Dangling

open codespine.schema codespine.store

namespace codespine.extract.ScopeResolver

open SemanticExtractor (SharesEmittedId HasNode isTopLevel_of_variable)

section Syntax

variable (P : Project)

/-- A method or property, of whatever declares it. -/
def IsMember (d : P.Ref) : Prop := P.kind d = .MethodDeclaration ∨ P.kind d = .PropertyDeclaration

/-- A method or property of a class or interface at module level. -/
def IsModuleMember (d : P.Ref) : Prop :=
  ∃ c, IsTopLevelType P (P.getSourceFile d) c ∧ (d ∈ P.getMethods c ∨ d ∈ P.getProperties c)

variable {P}

/-- A scope is a member or at module level. -/
theorem isEmitted_cases {d : P.Ref} (h : isEmitted P d = true) :
    IsMember P d ∨ P.kind d ∈ TOP_LEVEL_SCOPE_KINDS ∧ IsTopLevel P (P.getSourceFile d) d := by
  unfold isEmitted at h
  split at h
  · next hmember => exact Or.inl hmember
  · split at h
    · exact absurd h Bool.false_ne_true
    · next hkind =>
      right
      refine ⟨not_not.mp hkind, ?_⟩
      split at h
      · next hvariable => exact isTopLevel_of_variable hvariable (of_decide_eq_true h)
      · next hvariable =>
        obtain ⟨file, hparent, hfile⟩ := Option.map_eq_some_iff.mp (of_decide_eq_true h)
        rw [getSourceFile_of_parent hparent, getSourceFile_self hfile]
        refine .statement ?_ hparent
        have hstatement : ∀ kind ∈ TOP_LEVEL_SCOPE_KINDS, kind ≠ .VariableDeclaration → kind ∈ STATEMENT_DECL_KINDS := by
          decide
        exact hstatement _ (not_not.mp hkind) hvariable

theorem kind_of_isEmitted {d : P.Ref} (h : isEmitted P d = true) : P.kind d ∈ DECLARED_KINDS := by
  obtain (hmethod | hproperty) | ⟨hkind, _⟩ := isEmitted_cases h
  · rw [hmethod]
    decide
  · rw [hproperty]
    decide
  · have hsubset : TOP_LEVEL_SCOPE_KINDS ⊆ DECLARED_KINDS := by decide
    exact hsubset hkind

/-- A member is the scope of what is right below it. -/
theorem getFirstAncestor_of_member {x d : P.Ref} (hparent : P.getParent x = some d) (hmember : IsMember P d) :
    P.getFirstAncestor (isEmitted P) x = some d := by
  have hemitted : isEmitted P d = true := if_pos hmember
  unfold Project.getFirstAncestor
  rw [Forest.ancestors_of_parent hparent, List.find?_cons_of_pos hemitted]

end Syntax

variable {host : Host} {rootPath : String} {P : Project}

/-- A scope is emitted, unless it is a member of something that is not at
module level. -/
theorem hasNode_iff {d : P.Ref} (h : isEmitted P d = true) :
    HasNode host rootPath P d ↔ (IsMember P d → IsModuleMember P d ∨ SharesEmittedId host rootPath P d) := by
  rw [HasNode, exists_node_declaration_iff host rootPath P (kind_of_isEmitted h)]
  constructor
  · exact fun hshares _ => Or.inr hshares
  · intro hmodule
    obtain hmember | ⟨_, htop⟩ := isEmitted_cases h
    · obtain ⟨c, hc, hd | hd⟩ | hshares := hmodule hmember
      · exact ⟨some c, d, .method hc hd, rfl⟩
      · exact ⟨some c, d, .property hc hd, rfl⟩
      · exact hshares
    · exact ⟨none, d, .topLevel htop, rfl⟩

/-- What a node is attributed to: the scope, or else the module. -/
theorem hasNode_enclosingId (x : P.Ref)
    (hnodes : ∀ d, P.getFirstAncestor (isEmitted P) x = some d → HasNode host rootPath P d) :
    ∃ node ∈ (StructuralExtractor.extract host rootPath P (P.getSourceFile x)).nodes,
      node.id = enclosingId P host rootPath (NodeId.forModule host rootPath (P.getFilePath (P.getSourceFile x))) x := by
  unfold enclosingId
  cases hscope : P.getFirstAncestor (isEmitted P) x with
  | none => exact (StructuralExtractor.exists_node_extract_iff host rootPath P).mpr (Or.inl rfl)
  | some scope =>
    have hnode := hnodes scope hscope
    rwa [HasNode, getSourceFile_of_ancestor (List.mem_of_find?_eq_some hscope)] at hnode

/-- The edge points from an enclosing scope of the node it stands for to a node
that comes with it. -/
def JoinsScope (host : Host) (rootPath : String) (P : Project) (file : P.Ref) (nodes : List GraphNode) (e : GraphEdge) : Prop :=
  ∃ x syntaxKind, x ∈ P.getDescendantsOfKind file syntaxKind ∧
    e.source = enclosingId P host rootPath (NodeId.forModule host rootPath (P.getFilePath file)) x ∧
    ∃ node ∈ nodes, node.id = e.target

theorem ends_of_emit {moduleId name : String} {access : P.Ref} {e : GraphEdge}
    (h : e ∈ (ConfigExtractor.emit host rootPath P moduleId access name).edges) :
    e.source = enclosingId P host rootPath moduleId access ∧
      ∃ node ∈ (ConfigExtractor.emit host rootPath P moduleId access name).nodes, node.id = e.target := by
  unfold ConfigExtractor.emit at h ⊢
  split at h
  · exact absurd h List.not_mem_nil
  · next hname =>
    rw [if_neg hname, List.mem_singleton.mp h]
    exact ⟨rfl, _, List.mem_singleton_self _, rfl⟩

theorem joinsScope_of_config {file : P.Ref} {e : GraphEdge}
    (h : e ∈ (ConfigExtractor.extract host rootPath P file).edges) :
    JoinsScope host rootPath P file (ConfigExtractor.extract host rootPath P file).nodes e := by
  simp only [JoinsScope, ConfigExtractor.extract, Extraction.edges_append, Extraction.edges_collect,
    Extraction.nodes_append, Extraction.nodes_collect, List.mem_append, List.mem_flatMap] at h ⊢
  obtain ⟨access, haccess, he⟩ | ⟨access, haccess, he⟩ := h
  · obtain ⟨hsource, node, hnode, hid⟩ := ends_of_emit he
    exact ⟨access, _, List.mem_of_mem_filter haccess, hsource, node, Or.inl ⟨access, haccess, hnode⟩, hid⟩
  · split at he
    · next name hname =>
      obtain ⟨hsource, node, hnode, hid⟩ := ends_of_emit he
      refine ⟨access, _, List.mem_of_mem_filter haccess, hsource, node, Or.inr ⟨access, haccess, ?_⟩, hid⟩
      rwa [hname]
    · exact absurd he List.not_mem_nil

theorem joinsScope_of_api {file : P.Ref} {e : GraphEdge} (h : e ∈ (ApiExtractor.extract host rootPath P file).edges) :
    JoinsScope host rootPath P file (ApiExtractor.extract host rootPath P file).nodes e := by
  simp only [JoinsScope, ApiExtractor.extract, Extraction.edges_collect, Extraction.nodes_collect, List.mem_flatMap,
    List.mem_singleton] at h ⊢
  obtain ⟨call, hcall, rfl⟩ := h
  exact ⟨call, _, List.mem_of_mem_filter hcall, rfl, _, ⟨call, hcall, rfl⟩, rfl⟩

/-- The kinds of the edges that lead out of the program. -/
def SYSTEM_EDGE_KINDS : List EdgeKind := [.READS_CONFIG, .CALLS_EXTERNAL]

open GraphBuilder (projectFiles pushedNodes pushedEdges structuralPass build loadProject)

theorem mem_pushedNodes_of_structural {options : BuildOptions} {file : P.Ref} (hfile : file ∈ projectFiles P)
    {extraction : Extraction} (hextraction : extraction ∈ structuralPass host rootPath P file) {node : GraphNode}
    (hnode : node ∈ extraction.nodes) : node ∈ pushedNodes host rootPath P options := by
  refine List.mem_flatMap.mpr ⟨extraction, ?_, hnode⟩
  exact List.mem_append_left _ (List.mem_flatMap.mpr ⟨file, hfile, hextraction⟩)

/-- The edges that lead out of the program are merged with the nodes they lead
to. -/
theorem joinsScope_of_pushed {options : BuildOptions} {e : GraphEdge} (he : e ∈ pushedEdges host rootPath P options)
    (hkind : e.kind ∈ SYSTEM_EDGE_KINDS) :
    ∃ file ∈ projectFiles P, ∃ extraction ∈ structuralPass host rootPath P file,
      JoinsScope host rootPath P file extraction.nodes e := by
  have hsubset : pushedEdges host rootPath P options ⊆ pushedEdges host rootPath P { semantic := true } := by
    unfold pushedEdges GraphBuilder.extractions
    simp only [List.flatMap_append, if_true]
    refine List.append_subset.mpr ⟨List.subset_append_left _ _, ?_⟩
    split
    · exact List.subset_append_right _ _
    · exact List.nil_subset _
  obtain ⟨file, hfile, he | he | he | he | he⟩ := (GraphBuilder.mem_pushedEdges host rootPath P).mp (hsubset he)
  · obtain ⟨_, _, _, rfl⟩ | ⟨_, _, rfl⟩ | ⟨_, _, _, rfl⟩ :=
      StructuralExtractor.mem_edges_extract host rootPath P he <;>
    · exact absurd hkind (by simp [edge, SYSTEM_EDGE_KINDS])
  · exact ⟨file, hfile, _, by simp [structuralPass], joinsScope_of_config he⟩
  · exact ⟨file, hfile, _, by simp [structuralPass], joinsScope_of_api he⟩
  · obtain ⟨kind, s, t, huse, rfl⟩ := SemanticExtractor.mem_extract_iff.mp he
    have hdisjoint : ∀ k ∈ EdgeKind.WRITES :: REFERENCE_EDGE_KINDS, k ∉ SYSTEM_EDGE_KINDS := by decide
    exact absurd hkind (hdisjoint kind huse.kind_mem)
  · obtain ⟨_, _, _, rfl⟩ := (mem_endpoint_iff host rootPath P).mp he
    exact absurd hkind (by simp [edge, SYSTEM_EDGE_KINDS])

/-- Reads of the environment and requests never dangle exactly when every
method or property with something in it belongs to a class or interface at
module level: the others count as emitted but are not. -/
theorem system_edges_never_dangle_iff (host : Host) (rootPath : String) (P : Project) :
    (∀ x, ∃ node ∈ (StructuralExtractor.extract host rootPath P (P.getSourceFile x)).nodes,
        node.id = enclosingId P host rootPath (NodeId.forModule host rootPath (P.getFilePath (P.getSourceFile x))) x) ∧
      (∀ options, ∀ e ∈ (build host rootPath P options).getEdges, e.kind ∈ SYSTEM_EDGE_KINDS →
        KuzuStore.keyOf e ∈ (loadProject host rootPath P options).edges.keys) ↔
    ∀ x d, P.getParent x = some d → IsMember P d → IsModuleMember P d ∨ SharesEmittedId host rootPath P d := by
  constructor
  · rintro ⟨hids, _⟩ x d hparent hmember
    have hemitted : isEmitted P d = true := if_pos hmember
    have hid := hids x
    rw [enclosingId, getFirstAncestor_of_member hparent hmember, getSourceFile_of_parent hparent] at hid
    exact (hasNode_iff hemitted).mp hid hmember
  · intro h
    have hids : ∀ x, ∃ node ∈ (StructuralExtractor.extract host rootPath P (P.getSourceFile x)).nodes, node.id =
        enclosingId P host rootPath (NodeId.forModule host rootPath (P.getFilePath (P.getSourceFile x))) x := by
      refine fun x => hasNode_enclosingId x fun d hscope => ?_
      obtain ⟨y, hy⟩ := Forest.exists_child_of_mem_ancestors (List.mem_of_find?_eq_some hscope)
      exact (hasNode_iff (List.find?_some hscope)).mpr (h y d hy)
    refine ⟨hids, fun options e he hkind => ?_⟩
    rw [GraphBuilder.mem_loadProject_edges]
    have hpushed := (GraphBuilder.exists_getEdges_iff host rootPath P options).mp ⟨e, he, rfl⟩
    refine ⟨hpushed, ?_⟩
    obtain ⟨id, hfirst⟩ := hpushed
    obtain ⟨first, hfirst, hkey⟩ := Option.map_eq_some_iff.mp hfirst
    have hsameKind : first.kind = e.kind := congrArg EdgeKey.kind hkey
    have hfirstKind : first.kind ∈ SYSTEM_EDGE_KINDS := hsameKind ▸ hkind
    obtain ⟨file, hfile, extraction, hextraction, x, syntaxKind, hx, hsource, node, hnode, htarget⟩ :=
      joinsScope_of_pushed (List.mem_of_find?_eq_some hfirst) hfirstKind
    rw [← hkey]
    constructor
    · obtain ⟨scopeNode, hscopeNode, hid⟩ := hids x
      have hsourceFile := of_decide_eq_true (List.mem_filter.mp (List.mem_of_mem_filter hfile)).2
      have hsame := getSourceFile_of_descendant hsourceFile hx
      rw [hsame] at hscopeNode hid
      refine List.mem_map.mpr ⟨scopeNode, ?_, hid.trans hsource.symm⟩
      exact mem_pushedNodes_of_structural hfile List.mem_cons_self hscopeNode
    · exact List.mem_map.mpr ⟨node, mem_pushedNodes_of_structural hfile hextraction hnode, htarget⟩

/-- `export const api = { read() { return process.env.KEY; } };`. -/
def objectLiteralRead : Project where
  count := 15
  node := ![
    { kind := .SourceFile, text := "/p/main.ts" },
    { kind := .VariableStatement, parent := some 0, isExported := true },
    { kind := .other "VariableDeclarationList", parent := some 1 },
    { kind := .VariableDeclaration, parent := some 2, name := some "api", isExported := true },
    { kind := .Identifier, parent := some 3, role := .name, text := "api" },
    { kind := .other "ObjectLiteralExpression", parent := some 3, role := .initializer },
    { kind := .MethodDeclaration, parent := some 5, name := some "read", startLine := 2 },
    { kind := .Identifier, parent := some 6, role := .name, text := "read", startLine := 2 },
    { kind := .other "Block", parent := some 6, startLine := 2 },
    { kind := .other "ReturnStatement", parent := some 8, startLine := 3 },
    { kind := .PropertyAccessExpression, parent := some 9, role := .expression, name := some "KEY", startLine := 3 },
    { kind := .PropertyAccessExpression, parent := some 10, role := .expression, name := some "env", startLine := 3 },
    { kind := .Identifier, parent := some 11, role := .expression, text := "process", startLine := 3 },
    { kind := .Identifier, parent := some 11, role := .name, text := "env", startLine := 3 },
    { kind := .Identifier, parent := some 10, role := .name, text := "KEY", startLine := 3 }]
  parent_lt := by decide
  sourceFile_iff_root := by decide
  resolve _ := none
  getBaseClass _ := none
  getBaseDeclarations _ := []
  getModuleSpecifierSourceFile _ := none

/-- The read is attributed to the method of the object literal, which has no
node, and is dropped when the graph is loaded. -/
theorem system_edges_dangle_objectLiteral :
    (∃ x, ¬ ∃ node ∈ (StructuralExtractor.extract (posixHost []) "/p" objectLiteralRead
          (objectLiteralRead.getSourceFile x)).nodes,
        node.id = enclosingId objectLiteralRead (posixHost []) "/p" (NodeId.forModule (posixHost []) "/p"
          (objectLiteralRead.getFilePath (objectLiteralRead.getSourceFile x))) x) ∧
      ∃ e ∈ (build (posixHost []) "/p" objectLiteralRead { semantic := true }).getEdges,
        e.kind = .READS_CONFIG ∧
          KuzuStore.keyOf e ∉ (loadProject (posixHost []) "/p" objectLiteralRead { semantic := true }).edges.keys := by
  constructor
  · let access : objectLiteralRead.Ref := ⟨10, by decide⟩
    refine ⟨access, ?_⟩
    rintro ⟨node, hnode, hid⟩
    have hids : "MethodDeclaration:main.ts#read@2" ∉ (StructuralExtractor.extract (posixHost []) "/p" objectLiteralRead
        (objectLiteralRead.getSourceFile access)).nodes.map GraphNode.id := by decide +kernel
    refine hids (List.mem_map.mpr ⟨node, hnode, hid.trans ?_⟩)
    decide +kernel
  · have hedge : (⟨"MethodDeclaration:main.ts#read@2", "Config:KEY", .READS_CONFIG⟩ : EdgeKey) ∈
        (build (posixHost []) "/p" objectLiteralRead { semantic := true }).getEdges.map KuzuStore.keyOf := by
      decide +kernel
    obtain ⟨e, he, hkey⟩ := List.mem_map.mp hedge
    refine ⟨e, he, congrArg EdgeKey.kind hkey, ?_⟩
    rw [hkey]
    decide +kernel

end codespine.extract.ScopeResolver
