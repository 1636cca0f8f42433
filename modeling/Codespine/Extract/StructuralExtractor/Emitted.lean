import Codespine.Extract.StructuralExtractor

open codespine.schema

namespace codespine.extract

section Syntax

variable (P : Project)

/-- The kinds of the declarations that are statements of their file. -/
def STATEMENT_DECL_KINDS : List SyntaxKind :=
  [.ClassDeclaration, .InterfaceDeclaration, .TypeAliasDeclaration, .EnumDeclaration, .FunctionDeclaration]

/-- A declaration at module scope of `file`. -/
inductive IsTopLevel (file : P.Ref) : P.Ref → Prop
  | statement {x : P.Ref} (hkind : P.kind x ∈ STATEMENT_DECL_KINDS) (hparent : P.getParent x = some file) :
      IsTopLevel file x
  | variable {x : P.Ref} (hx : x ∈ P.getVariableDeclarations file) : IsTopLevel file x

/-- A class or interface at module scope of `file`. -/
def IsTopLevelType (file c : P.Ref) : Prop :=
  c ∈ P.childrenOfKind file .ClassDeclaration ∨ c ∈ P.childrenOfKind file .InterfaceDeclaration

/-- `x` is emitted as a node of `file`, below a declaration or, without one,
below the module. -/
inductive EmittedUnder (file : P.Ref) : Option P.Ref → P.Ref → Prop
  | topLevel {x : P.Ref} (hx : IsTopLevel P file x) : EmittedUnder file none x
  | method {c x : P.Ref} (hc : IsTopLevelType P file c) (hx : x ∈ P.getMethods c) : EmittedUnder file (some c) x
  | property {c x : P.Ref} (hc : IsTopLevelType P file c) (hx : x ∈ P.getProperties c) : EmittedUnder file (some c) x
  | parameter {f x : P.Ref} (hf : f ∈ P.childrenOfKind file .FunctionDeclaration) (hx : x ∈ P.getParameters f) :
      EmittedUnder file (some f) x
  | methodParameter {c m x : P.Ref} (hc : IsTopLevelType P file c) (hm : m ∈ P.getMethods c)
      (hx : x ∈ P.getParameters m) : EmittedUnder file (some m) x

variable {P}

theorem mem_childrenOfKind {x y : P.Ref} {kind : SyntaxKind} :
    y ∈ P.childrenOfKind x kind ↔ P.getParent y = some x ∧ P.kind y = kind := by
  simp only [Project.childrenOfKind, Forest.children, List.mem_filter, List.mem_finRange, true_and, decide_eq_true_eq]
  rfl

theorem isTopLevel_iff {file x : P.Ref} : IsTopLevel P file x ↔
    x ∈ P.childrenOfKind file .ClassDeclaration ∨ x ∈ P.childrenOfKind file .InterfaceDeclaration ∨
      x ∈ P.childrenOfKind file .TypeAliasDeclaration ∨ x ∈ P.childrenOfKind file .EnumDeclaration ∨
      x ∈ P.childrenOfKind file .FunctionDeclaration ∨ x ∈ P.getVariableDeclarations file := by
  simp only [mem_childrenOfKind]
  constructor
  · rintro (⟨hkind, hparent⟩ | hx)
    · simp only [STATEMENT_DECL_KINDS, List.mem_cons, List.not_mem_nil, or_false] at hkind
      simp only [hparent, true_and]
      tauto
    · simp only [hx, or_true]
  · rintro (h | h | h | h | h | h)
    iterate 5 exact .statement (by simp [STATEMENT_DECL_KINDS, h.2]) h.1
    exact .variable h

theorem getSourceFile_of_parent {x p : P.Ref} (h : P.getParent x = some p) : P.getSourceFile x = P.getSourceFile p :=
  Forest.root_of_parent h

theorem getSourceFile_self {file : P.Ref} (hfile : P.kind file = .SourceFile) : P.getSourceFile file = file :=
  Forest.root_of_root ((P.sourceFile_iff_root file).mp hfile)

theorem kind_getSourceFile (x : P.Ref) : P.kind (P.getSourceFile x) = .SourceFile :=
  (P.sourceFile_iff_root _).mpr (P.forest.parent_root x)

theorem getSourceFile_of_ancestor {a x : P.Ref} (h : a ∈ P.forest.ancestors x) : P.getSourceFile a = P.getSourceFile x :=
  Forest.root_of_mem_ancestors h

theorem getSourceFile_of_descendant {file x : P.Ref} {kind : SyntaxKind} (hfile : P.kind file = .SourceFile)
    (hx : x ∈ P.getDescendantsOfKind file kind) : P.getSourceFile x = file := by
  have hancestor : file ∈ P.forest.ancestors x := of_decide_eq_true (List.mem_filter.mp (List.mem_of_mem_filter hx)).2
  exact (getSourceFile_of_ancestor hancestor).symm.trans (getSourceFile_self hfile)

/-- A file is in the project when something in it is. -/
theorem inProject_getSourceFile {x : P.Ref} (h : P.inProject x = true) : P.inProject (P.getSourceFile x) = true := by
  unfold Project.inProject Project.getFilePath at h ⊢
  rwa [getSourceFile_self (kind_getSourceFile x)]

theorem IsTopLevel.getSourceFile {file x : P.Ref} (hfile : P.kind file = .SourceFile) (h : IsTopLevel P file x) :
    P.getSourceFile x = file := by
  obtain ⟨_, hparent⟩ | hx := h
  · rw [getSourceFile_of_parent hparent, getSourceFile_self hfile]
  · exact getSourceFile_of_descendant hfile (List.mem_of_mem_filter hx)

/-- What is emitted for a file is in the file. -/
theorem EmittedUnder.getSourceFile {file x : P.Ref} {container : Option P.Ref} (hfile : P.kind file = .SourceFile)
    (h : EmittedUnder P file container x) : P.getSourceFile x = file := by
  have htype : ∀ c, IsTopLevelType P file c → P.getSourceFile c = file := by
    rintro c (hc | hc)
    · rw [getSourceFile_of_parent (mem_childrenOfKind.mp hc).1, getSourceFile_self hfile]
    · rw [getSourceFile_of_parent (mem_childrenOfKind.mp hc).1, getSourceFile_self hfile]
  have hchild : ∀ {kind c y}, y ∈ P.childrenOfKind c kind → P.getSourceFile y = P.getSourceFile c :=
    fun hy => getSourceFile_of_parent (mem_childrenOfKind.mp hy).1
  cases h with
  | topLevel hx => exact hx.getSourceFile hfile
  | method hc hx => rw [hchild hx, htype _ hc]
  | property hc hx => rw [hchild hx, htype _ hc]
  | parameter hf hx => rw [hchild hx, hchild hf, getSourceFile_self hfile]
  | methodParameter hc hm hx => rw [hchild hx, hchild hm, htype _ hc]

end Syntax

/-- A declaration to push: below which one, as what. -/
structure Emission (P : Project) where
  container : Option P.Ref
  kind : NodeKind
  declaration : P.Ref

namespace StructuralExtractor

section Emissions

variable (P : Project)

def parameterEmissions (owner : P.Ref) : List (Emission P) :=
  (P.getParameters owner).map fun x => ⟨some owner, .Parameter, x⟩

def memberEmissions (kind : NodeKind) (c : P.Ref) : List (Emission P) :=
  ⟨none, kind, c⟩ :: ((P.getMethods c).flatMap fun m => ⟨some c, .Method, m⟩ :: parameterEmissions P m) ++
    (P.getProperties c).map fun x => ⟨some c, .Property, x⟩

/-- The declarations pushed for a file, in order. -/
def emissions (file : P.Ref) : List (Emission P) :=
  (P.childrenOfKind file .ClassDeclaration).flatMap (memberEmissions P .Class) ++
    (P.childrenOfKind file .InterfaceDeclaration).flatMap (memberEmissions P .Interface) ++
    (P.childrenOfKind file .TypeAliasDeclaration).map (fun x => ⟨none, .TypeAlias, x⟩) ++
    (P.childrenOfKind file .EnumDeclaration).map (fun x => ⟨none, .Enum, x⟩) ++
    (P.childrenOfKind file .FunctionDeclaration).flatMap (fun f => ⟨none, .Function, f⟩ :: parameterEmissions P f) ++
    (P.getVariableDeclarations file).map fun x => ⟨none, .Variable, x⟩

variable {P}

theorem mem_emissions {file : P.Ref} {e : Emission P} : e ∈ emissions P file ↔
    (∃ c ∈ P.childrenOfKind file .ClassDeclaration, e ∈ memberEmissions P .Class c) ∨
    (∃ c ∈ P.childrenOfKind file .InterfaceDeclaration, e ∈ memberEmissions P .Interface c) ∨
    (∃ x ∈ P.childrenOfKind file .TypeAliasDeclaration, ⟨none, .TypeAlias, x⟩ = e) ∨
    (∃ x ∈ P.childrenOfKind file .EnumDeclaration, ⟨none, .Enum, x⟩ = e) ∨
    (∃ f ∈ P.childrenOfKind file .FunctionDeclaration, e ∈ ⟨none, .Function, f⟩ :: parameterEmissions P f) ∨
    ∃ x ∈ P.getVariableDeclarations file, ⟨none, .Variable, x⟩ = e := by
  simp only [emissions, List.mem_append, List.mem_flatMap, List.mem_map, or_assoc]

theorem mem_parameterEmissions {owner : P.Ref} {e : Emission P} : e ∈ parameterEmissions P owner ↔
    e.container = some owner ∧ e.kind = .Parameter ∧ e.declaration ∈ P.getParameters owner := by
  obtain ⟨container, kind, x⟩ := e
  simp only [parameterEmissions, List.mem_map, Emission.mk.injEq]
  constructor
  · rintro ⟨y, hy, rfl, rfl, rfl⟩
    exact ⟨rfl, rfl, hy⟩
  · rintro ⟨rfl, rfl, hx⟩
    exact ⟨x, hx, rfl, rfl, rfl⟩

theorem emittedUnder_of_memberEmission {file c : P.Ref} {kind : NodeKind} (hc : IsTopLevelType P file c) {e : Emission P}
    (he : e ∈ memberEmissions P kind c) : EmittedUnder P file e.container e.declaration := by
  obtain rfl | he := List.mem_cons.mp he
  · refine .topLevel (isTopLevel_iff.mpr ?_)
    obtain hc | hc := hc
    · exact Or.inl hc
    · exact Or.inr (Or.inl hc)
  · obtain he | he := List.mem_append.mp he
    · obtain ⟨m, hm, he⟩ := List.mem_flatMap.mp he
      obtain rfl | he := List.mem_cons.mp he
      · exact .method hc hm
      · obtain ⟨hcontainer, _, hx⟩ := mem_parameterEmissions.mp he
        rw [hcontainer]
        exact .methodParameter hc hm hx
    · obtain ⟨x, hx, rfl⟩ := List.mem_map.mp he
      exact .property hc hx

theorem exists_memberEmission {file c x : P.Ref} {container : Option P.Ref} (hc : IsTopLevelType P file c)
    (h : ∀ kind, ∃ e ∈ memberEmissions P kind c, e.container = container ∧ e.declaration = x) :
    ∃ e ∈ emissions P file, e.container = container ∧ e.declaration = x := by
  obtain hc | hc := hc
  · obtain ⟨e, he, heq⟩ := h .Class
    exact ⟨e, mem_emissions.mpr (Or.inl ⟨c, hc, he⟩), heq⟩
  · obtain ⟨e, he, heq⟩ := h .Interface
    exact ⟨e, mem_emissions.mpr (Or.inr (Or.inl ⟨c, hc, he⟩)), heq⟩

theorem exists_emission_of_topLevel {file x : P.Ref} (hx : IsTopLevel P file x) :
    ∃ e ∈ emissions P file, e.container = none ∧ e.declaration = x := by
  simp only [mem_emissions]
  obtain h | h | h | h | h | h := isTopLevel_iff.mp hx
  · exact ⟨_, Or.inl ⟨x, h, List.mem_cons_self⟩, rfl, rfl⟩
  · exact ⟨_, Or.inr (Or.inl ⟨x, h, List.mem_cons_self⟩), rfl, rfl⟩
  · exact ⟨_, Or.inr (Or.inr (Or.inl ⟨x, h, rfl⟩)), rfl, rfl⟩
  · exact ⟨_, Or.inr (Or.inr (Or.inr (Or.inl ⟨x, h, rfl⟩))), rfl, rfl⟩
  · exact ⟨_, Or.inr (Or.inr (Or.inr (Or.inr (Or.inl ⟨x, h, List.mem_cons_self⟩)))), rfl, rfl⟩
  · exact ⟨_, Or.inr (Or.inr (Or.inr (Or.inr (Or.inr ⟨x, h, rfl⟩)))), rfl, rfl⟩

/-- What is pushed for a file is what the syntax says is emitted in it. -/
theorem exists_emission_iff {file x : P.Ref} {container : Option P.Ref} :
    (∃ e ∈ emissions P file, e.container = container ∧ e.declaration = x) ↔ EmittedUnder P file container x := by
  constructor
  · rintro ⟨e, he, rfl, rfl⟩
    obtain ⟨c, hc, he⟩ | ⟨c, hc, he⟩ | ⟨x, hx, rfl⟩ | ⟨x, hx, rfl⟩ | ⟨f, hf, he⟩ | ⟨x, hx, rfl⟩ := mem_emissions.mp he
    · exact emittedUnder_of_memberEmission (Or.inl hc) he
    · exact emittedUnder_of_memberEmission (Or.inr hc) he
    · exact .topLevel (isTopLevel_iff.mpr (by tauto))
    · exact .topLevel (isTopLevel_iff.mpr (by tauto))
    · obtain rfl | he := List.mem_cons.mp he
      · exact .topLevel (isTopLevel_iff.mpr (by tauto))
      · obtain ⟨hcontainer, _, hx⟩ := mem_parameterEmissions.mp he
        rw [hcontainer]
        exact .parameter hf hx
    · exact .topLevel (.variable hx)
  · intro h
    cases h with
    | topLevel hx => exact exists_emission_of_topLevel hx
    | @method c _ hc hx =>
      refine exists_memberEmission hc fun kind => ⟨⟨some c, .Method, x⟩, ?_, rfl, rfl⟩
      exact List.mem_cons_of_mem _ (List.mem_append_left _ (List.mem_flatMap.mpr ⟨x, hx, List.mem_cons_self⟩))
    | @property c _ hc hx =>
      refine exists_memberEmission hc fun kind => ⟨⟨some c, .Property, x⟩, ?_, rfl, rfl⟩
      exact List.mem_cons_of_mem _ (List.mem_append_right _ (List.mem_map.mpr ⟨x, hx, rfl⟩))
    | @parameter f _ hf hx =>
      refine ⟨⟨some f, .Parameter, x⟩, ?_, rfl, rfl⟩
      have hparameter : (⟨some f, .Parameter, x⟩ : Emission P) ∈ parameterEmissions P f :=
        mem_parameterEmissions.mpr ⟨rfl, rfl, hx⟩
      exact mem_emissions.mpr
        (Or.inr (Or.inr (Or.inr (Or.inr (Or.inl ⟨f, hf, List.mem_cons_of_mem _ hparameter⟩)))))
    | @methodParameter c m _ hc hm hx =>
      refine exists_memberEmission hc fun kind => ⟨⟨some m, .Parameter, x⟩, ?_, rfl, rfl⟩
      refine List.mem_cons_of_mem _ (List.mem_append_left _ (List.mem_flatMap.mpr ⟨m, hm, ?_⟩))
      exact List.mem_cons_of_mem _ (mem_parameterEmissions.mpr ⟨rfl, rfl, hx⟩)

end Emissions

variable (host : Host) (rootPath : String) (P : Project)

/-- The id a declaration is contained in. -/
def containerId (moduleId : String) : Option P.Ref → String
  | none => moduleId
  | some c => NodeId.forDeclaration host rootPath P c

def pushEmission (moduleId : String) (e : Emission P) : Extraction :=
  push host rootPath P moduleId (containerId host rootPath P moduleId e.container) e.kind e.declaration

theorem extractMembers_eq (moduleId : String) (kind : NodeKind) (c : P.Ref) :
    extractMembers host rootPath P moduleId kind c =
      .collect (memberEmissions P kind c) (pushEmission host rootPath P moduleId) := by
  simp only [memberEmissions, List.cons_append, Extraction.collect_cons, Extraction.collect_append,
    Extraction.collect_flatMap, Extraction.collect_map, parameterEmissions]
  exact Extraction.append_assoc _ _ _

/-- The extraction of a file: its module, its imports and its emissions. -/
theorem extract_eq (file : P.Ref) :
    let filePath := host.relative rootPath (P.getFilePath file)
    let moduleId := NodeId.forModule host rootPath (P.getFilePath file)
    extract host rootPath P file =
      { nodes := [{ id := moduleId, kind := .Module, name := filePath, filePath }] } ++
        .collect (P.childrenOfKind file .ImportDeclaration) (extractImport host rootPath P moduleId) ++
        .collect (emissions P file) (pushEmission host rootPath P moduleId) := by
  intro filePath moduleId
  simp only [emissions, Extraction.collect_append, Extraction.collect_flatMap, Extraction.collect_map,
    ← extractMembers_eq, Extraction.collect_cons, parameterEmissions, ← Extraction.append_assoc]
  rfl

/-- The nodes of a file: its module, what its imports add, and everything
emitted in it. -/
theorem exists_node_extract_iff {file : P.Ref} {id : String} :
    (∃ node ∈ (extract host rootPath P file).nodes, node.id = id) ↔
      NodeId.forModule host rootPath (P.getFilePath file) = id ∨
      (∃ declaration ∈ P.childrenOfKind file .ImportDeclaration,
        ∃ node ∈ (extractImport host rootPath P (NodeId.forModule host rootPath (P.getFilePath file)) declaration).nodes,
          node.id = id) ∨
      ∃ container x, EmittedUnder P file container x ∧ NodeId.forDeclaration host rootPath P x = id := by
  simp only [extract_eq, Extraction.nodes_append, Extraction.nodes_collect, List.mem_append, List.mem_flatMap,
    List.mem_singleton, pushEmission, push, ← exists_emission_iff]
  constructor
  · rintro ⟨node, (rfl | ⟨declaration, hdeclaration, hnode⟩) | ⟨e, he, rfl⟩, rfl⟩
    · exact Or.inl rfl
    · exact Or.inr (Or.inl ⟨declaration, hdeclaration, node, hnode, rfl⟩)
    · exact Or.inr (Or.inr ⟨_, _, ⟨e, he, rfl, rfl⟩, rfl⟩)
  · rintro (rfl | ⟨declaration, hdeclaration, node, hnode, rfl⟩ | ⟨_, _, ⟨e, he, rfl, rfl⟩, rfl⟩)
    · exact ⟨_, Or.inl (Or.inl rfl), rfl⟩
    · exact ⟨node, Or.inl (Or.inr ⟨declaration, hdeclaration, hnode⟩), rfl⟩
    · exact ⟨_, Or.inr ⟨e, he, rfl⟩, rfl⟩

/-- The edges of a file: imports, containment and exports. -/
theorem mem_edges_extract {file : P.Ref} {e : GraphEdge} (h : e ∈ (extract host rootPath P file).edges) :
    (∃ s t metadata, e = edge .IMPORTS s t metadata) ∨ (∃ s t, e = edge .EXPORTS s t) ∨
      ∃ container x, EmittedUnder P file container x ∧
        e = edge .CONTAINS (containerId host rootPath P (NodeId.forModule host rootPath (P.getFilePath file)) container)
          (NodeId.forDeclaration host rootPath P x) := by
  simp only [extract_eq, Extraction.edges_append, Extraction.edges_collect, List.mem_append, List.mem_flatMap,
    List.not_mem_nil, false_or, ← exists_emission_iff] at h ⊢
  obtain ⟨declaration, _, h⟩ | ⟨em, hem, h⟩ := h
  · left
    unfold extractImport at h
    dsimp only at h
    split at h
    · split at h <;> exact ⟨_, _, _, List.mem_singleton.mp h⟩
    · exact ⟨_, _, _, List.mem_singleton.mp h⟩
  · right
    obtain rfl | h := List.mem_cons.mp h
    · exact Or.inr ⟨_, _, ⟨em, hem, rfl, rfl⟩, rfl⟩
    · left
      split at h
      · exact ⟨_, _, List.mem_singleton.mp h⟩
      · exact absurd h List.not_mem_nil

theorem contains_mem_extract {file x : P.Ref} {container : Option P.Ref} (h : EmittedUnder P file container x) :
    edge .CONTAINS (containerId host rootPath P (NodeId.forModule host rootPath (P.getFilePath file)) container)
      (NodeId.forDeclaration host rootPath P x) ∈ (extract host rootPath P file).edges := by
  obtain ⟨e, he, rfl, rfl⟩ := exists_emission_iff.mpr h
  simp only [extract_eq, Extraction.edges_append, Extraction.edges_collect, List.mem_append, List.mem_flatMap]
  exact Or.inr ⟨e, he, List.mem_cons_self⟩

end StructuralExtractor

end codespine.extract
