import Codespine.Extract.GraphBuilder.Nodes

open codespine.schema

namespace codespine.extract.SemanticExtractor

section Syntax

variable (P : Project)

/-- A method of a class or interface at module level. -/
def IsModuleMethod (d : P.Ref) : Prop := ∃ c, IsTopLevelType P (P.getSourceFile d) c ∧ d ∈ P.getMethods c

/-- A class or interface declares the node. -/
def IsTypeMember (d : P.Ref) : Prop :=
  ∃ c, P.getParent d = some c ∧ (P.kind c = .ClassDeclaration ∨ P.kind c = .InterfaceDeclaration)

variable {P}

theorem mem_getVariableDeclarations {file statement list x : P.Ref} (hkind : P.kind x = .VariableDeclaration)
    (hlist : P.getParent x = some list) (hstatement : P.getParent list = some statement)
    (hvariable : P.getVariableStatement x = some statement) (hfile : P.getParent statement = some file) :
    x ∈ P.getVariableDeclarations file := by
  have hancestors : P.forest.ancestors x = list :: statement :: file :: P.forest.ancestors file := by
    rw [Forest.ancestors_of_parent hlist, Forest.ancestors_of_parent hstatement, Forest.ancestors_of_parent hfile]
  have hdescendant : x ∈ P.forest.descendants file :=
    List.mem_filter.mpr ⟨List.mem_finRange x, decide_eq_true (by simp [hancestors])⟩
  refine List.mem_filter.mpr ⟨List.mem_filter.mpr ⟨hdescendant, decide_eq_true hkind⟩, ?_⟩
  rw [hvariable]
  exact decide_eq_true hfile

/-- A variable that counts as emitted is one of its file's. -/
theorem isTopLevel_of_variable {x : P.Ref} (hkind : P.kind x = .VariableDeclaration)
    (h : ((P.getVariableStatement x).bind P.parentKind) = some .SourceFile) : IsTopLevel P (P.getSourceFile x) x := by
  obtain ⟨statement, hvariable, hparent⟩ := Option.bind_eq_some_iff.mp h
  obtain ⟨file, hfile, hsource⟩ := Option.map_eq_some_iff.mp hparent
  obtain ⟨hgrand, _⟩ := Option.filter_eq_some_iff.mp hvariable
  obtain ⟨list, hlist, hstatement⟩ := Option.bind_eq_some_iff.mp hgrand
  have hroot : P.getSourceFile x = file := by
    rw [getSourceFile_of_parent hlist, getSourceFile_of_parent hstatement, getSourceFile_of_parent hfile,
      getSourceFile_self hsource]
  rw [hroot]
  exact .variable (mem_getVariableDeclarations hkind hlist hstatement hvariable hfile)

/-- What counts as emitted is at module level, or a method of some class or
interface. -/
theorem isEmittedDeclaration_cases {d : P.Ref} (h : isEmittedDeclaration P d = true) :
    IsTopLevel P (P.getSourceFile d) d ∨
      IsTypeMember P d ∧ (P.kind d = .MethodDeclaration ∨ P.kind d = .MethodSignature) := by
  unfold isEmittedDeclaration at h
  split at h
  · next hkind => exact Or.inl (isTopLevel_of_variable hkind (of_decide_eq_true h))
  · cases hparent : P.getParent d with
    | none => simp [Project.parentKind, hparent] at h
    | some c =>
      simp only [Project.parentKind, hparent, Option.map_some] at h
      split at h
      · next hfile =>
        have hfile : P.kind c = .SourceFile := Option.some.inj hfile
        left
        rw [getSourceFile_of_parent hparent, getSourceFile_self hfile]
        have hsame : MODULE_LEVEL_DECL_KINDS ⊆ STATEMENT_DECL_KINDS := by decide
        exact .statement (hsame (of_decide_eq_true h)) hparent
      · next hclass => exact Or.inr ⟨⟨c, hparent, Or.inl (Option.some.inj hclass)⟩, of_decide_eq_true h⟩
      · next hinterface => exact Or.inr ⟨⟨c, hparent, Or.inr (Option.some.inj hinterface)⟩, of_decide_eq_true h⟩
      · exact absurd h Bool.false_ne_true

theorem kind_of_emitted {d : P.Ref} (h : isEmittedDeclaration P d = true) : P.kind d ∈ DECLARED_KINDS := by
  obtain htop | ⟨_, hmethod | hmethod⟩ := isEmittedDeclaration_cases h
  · obtain ⟨hkind, _⟩ | hvariable := htop
    · have hsubset : STATEMENT_DECL_KINDS ⊆ DECLARED_KINDS := by decide
      exact hsubset hkind
    · rw [of_decide_eq_true (List.mem_filter.mp (List.mem_of_mem_filter hvariable)).2]
      decide
  · rw [hmethod]
    decide
  · rw [hmethod]
    decide

end Syntax

variable (host : Host) (rootPath : String) (P : Project)

/-- A declaration that is emitted in the same file has the id of `d`. -/
def SharesEmittedId (d : P.Ref) : Prop :=
  ∃ container y, EmittedUnder P (P.getSourceFile d) container y ∧
    NodeId.forDeclaration host rootPath P y = NodeId.forDeclaration host rootPath P d

/-- The file of the declaration emits a node with its id. -/
def HasNode (d : P.Ref) : Prop :=
  ∃ node ∈ (StructuralExtractor.extract host rootPath P (P.getSourceFile d)).nodes,
    node.id = NodeId.forDeclaration host rootPath P d

variable {host rootPath P}

/-- What counts as emitted is emitted, unless it is a method of a class or
interface that is not. -/
theorem hasNode_iff {d : P.Ref} (h : isEmittedDeclaration P d = true) :
    HasNode host rootPath P d ↔ (IsTypeMember P d → IsModuleMethod P d ∨ SharesEmittedId host rootPath P d) := by
  rw [HasNode, exists_node_declaration_iff host rootPath P (kind_of_emitted h)]
  constructor
  · exact fun hshares _ => Or.inr hshares
  · intro hmember
    obtain htop | ⟨htype, _⟩ := isEmittedDeclaration_cases h
    · exact ⟨none, d, .topLevel htop, rfl⟩
    · obtain ⟨c, hc, hd⟩ | hshares := hmember htype
      · exact ⟨some c, d, .method hc hd, rfl⟩
      · exact hshares

/-- The two ends of a call or construction. -/
theorem Use.ends_of_call {file : P.Ref} {kind : EdgeKind} {s t : String} (h : Use host rootPath P file kind s t)
    (hkind : kind = .CALLS ∨ kind = .INSTANTIATES) :
    ∃ use target syntaxKind, use ∈ P.getDescendantsOfKind file syntaxKind ∧ callerScopeId host rootPath P use = s ∧
      P.inProject target = true ∧ isEmittedDeclaration P target = true ∧
      NodeId.forDeclaration host rootPath P target = t := by
  cases h with
  | call huse _ ht _ hemitted => exact ⟨_, _, _, huse, rfl, (Option.filter_eq_some_iff.mp ht).2, hemitted, rfl⟩
  | instantiate huse _ ht _ hemitted => exact ⟨_, _, _, huse, rfl, (Option.filter_eq_some_iff.mp ht).2, hemitted, rfl⟩
  | type hposition _ _ _ => cases hposition <;> simp at hkind
  | access _ haccess _ _ _ _ _ _ => obtain ⟨rfl, _⟩ | ⟨rfl, _⟩ := haccess <;> simp at hkind
  | _ => simp at hkind

/-- A call is attributed to a node of its file when every emitted declaration
of the file has one. -/
theorem exists_caller {file use : P.Ref} {syntaxKind : SyntaxKind} (hfile : P.kind file = .SourceFile)
    (huse : use ∈ P.getDescendantsOfKind file syntaxKind)
    (hnodes : ∀ d, isEmittedDeclaration P d = true → HasNode host rootPath P d) :
    ∃ node ∈ (StructuralExtractor.extract host rootPath P file).nodes, node.id = callerScopeId host rootPath P use := by
  have hsame := getSourceFile_of_descendant hfile huse
  unfold callerScopeId
  cases hscope : P.getFirstAncestor (isEmittedDeclaration P) use with
  | none =>
    refine (StructuralExtractor.exists_node_extract_iff host rootPath P).mpr (Or.inl ?_)
    unfold Project.getFilePath
    rw [hsame, getSourceFile_self hfile]
  | some scope =>
    have hnode := hnodes scope (List.find?_some hscope)
    rwa [HasNode, getSourceFile_of_ancestor (List.mem_of_find?_eq_some hscope), hsame] at hnode

/-- Calls and constructions never dangle exactly when no class or interface
that is not at module level has methods of its own: these count as emitted but
are not. -/
theorem calls_never_dangle_iff (host : Host) (rootPath : String) (P : Project) :
    (∀ d, isEmittedDeclaration P d = true →
        ∃ node ∈ (StructuralExtractor.extract host rootPath P (P.getSourceFile d)).nodes,
          node.id = NodeId.forDeclaration host rootPath P d) ∧
      (∀ file, P.kind file = .SourceFile → ∀ e ∈ (extract host rootPath P file).edges,
        e.kind = .CALLS ∨ e.kind = .INSTANTIATES →
        (∃ node ∈ (StructuralExtractor.extract host rootPath P file).nodes, node.id = e.source) ∧
          ∃ file', P.kind file' = .SourceFile ∧ P.inProject file' = true ∧
            ∃ node ∈ (StructuralExtractor.extract host rootPath P file').nodes, node.id = e.target) ↔
    ∀ d, isEmittedDeclaration P d = true → IsTypeMember P d →
      IsModuleMethod P d ∨ SharesEmittedId host rootPath P d := by
  constructor
  · exact fun h d hd => (hasNode_iff hd).mp (h.1 d hd)
  · intro h
    have hnodes : ∀ d, isEmittedDeclaration P d = true → HasNode host rootPath P d :=
      fun d hd => (hasNode_iff hd).mpr (h d hd)
    refine ⟨hnodes, fun file hfile e he hkind => ?_⟩
    obtain ⟨kind, s, t, huse, rfl⟩ := mem_extract_iff.mp he
    obtain ⟨use, target, syntaxKind, huse, hsource, hproject, hemitted, htarget⟩ := huse.ends_of_call hkind
    refine ⟨?_, P.getSourceFile target, kind_getSourceFile target, inProject_getSourceFile hproject, ?_⟩
    · have hcaller := exists_caller hfile huse hnodes
      rwa [hsource] at hcaller
    · have hnode := hnodes target hemitted
      rwa [HasNode, htarget] at hnode

/-- `function run() {}` and
`function outer() { class Local { go() { run(); } } }`. -/
def localClassCall : Project where
  count := 14
  node := ![
    { kind := .SourceFile, text := "/p/main.ts" },
    { kind := .FunctionDeclaration, parent := some 0, name := some "run" },
    { kind := .Identifier, parent := some 1, role := .name, text := "run" },
    { kind := .FunctionDeclaration, parent := some 0, name := some "outer", startLine := 2 },
    { kind := .Identifier, parent := some 3, role := .name, text := "outer", startLine := 2 },
    { kind := .other "Block", parent := some 3, startLine := 2 },
    { kind := .ClassDeclaration, parent := some 5, name := some "Local", startLine := 3 },
    { kind := .Identifier, parent := some 6, role := .name, text := "Local", startLine := 3 },
    { kind := .MethodDeclaration, parent := some 6, name := some "go", startLine := 4 },
    { kind := .Identifier, parent := some 8, role := .name, text := "go", startLine := 4 },
    { kind := .other "Block", parent := some 8, startLine := 4 },
    { kind := .other "ExpressionStatement", parent := some 10, startLine := 5 },
    { kind := .CallExpression, parent := some 11, role := .expression, startLine := 5 },
    { kind := .Identifier, parent := some 12, role := .expression, text := "run", startLine := 5 }]
  parent_lt := by decide
  sourceFile_iff_root := by decide
  resolve x := if x = 13 then some 1 else none
  getBaseClass _ := none
  getBaseDeclarations _ := []
  getModuleSpecifierSourceFile _ := none

/-- The call is attributed to the method of the local class, which has no
node. -/
theorem calls_dangle_localClass :
    ¬ ∀ file, localClassCall.kind file = .SourceFile →
      ∀ e ∈ (extract (posixHost []) "/p" localClassCall file).edges, e.kind = .CALLS ∨ e.kind = .INSTANTIATES →
        ∃ node ∈ (StructuralExtractor.extract (posixHost []) "/p" localClassCall file).nodes, node.id = e.source := by
  intro hclaim
  let file : localClassCall.Ref := ⟨0, by decide⟩
  have hedges : ((extract (posixHost []) "/p" localClassCall file).edges.map fun e => (e.kind, e.source)) =
      [(.CALLS, "MethodDeclaration:main.ts#go@4")] := by decide +kernel
  have hnodes : "MethodDeclaration:main.ts#go@4" ∉
      (StructuralExtractor.extract (posixHost []) "/p" localClassCall file).nodes.map GraphNode.id := by decide +kernel
  obtain ⟨e, he, hends⟩ := List.mem_map.mp (hedges ▸ List.mem_singleton_self _)
  obtain ⟨hkind, hsource⟩ := Prod.mk.inj hends
  obtain ⟨node, hnode, hid⟩ := hclaim file rfl e he (Or.inl hkind)
  exact hnodes (List.mem_map.mpr ⟨node, hnode, hid.trans hsource⟩)

end codespine.extract.SemanticExtractor
