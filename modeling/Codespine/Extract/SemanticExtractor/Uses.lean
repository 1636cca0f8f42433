import Codespine.Extract.SemanticExtractor
import Codespine.Extract.StructuralExtractor.Emitted

open codespine.schema

namespace codespine.extract.SemanticExtractor

section Syntax

variable (P : Project)

/-- A function or method whose signature is read for `file`. -/
def HasSignature (file f : P.Ref) : Prop :=
  f ∈ P.childrenOfKind file .FunctionDeclaration ∨ ∃ c, IsTopLevelType P file c ∧ f ∈ P.getMethods c

/-- A property, variable or alias whose type is read for `file`. -/
def HasAnnotation (file x : P.Ref) : Prop :=
  (∃ c, IsTopLevelType P file c ∧ x ∈ P.getProperties c) ∨ x ∈ P.getVariableDeclarations file ∨
    x ∈ P.childrenOfKind file .TypeAliasDeclaration

/-- The types that `file` is searched for references to types, and the
declaration each is a use by. -/
inductive TypePosition (file : P.Ref) : EdgeKind → P.Ref → P.Ref → Prop
  | returns {f typeNode : P.Ref} (hf : HasSignature P file f) (htype : P.childAt f .type = some typeNode) :
      TypePosition file .RETURNS f typeNode
  | parameter {f p typeNode : P.Ref} (hf : HasSignature P file f) (hp : p ∈ P.getParameters f)
      (htype : P.childAt p .type = some typeNode) : TypePosition file .PARAM_TYPE f typeNode
  | declaredType {x typeNode : P.Ref} (hx : HasAnnotation P file x) (htype : P.childAt x .type = some typeNode) :
      TypePosition file .USES_TYPE x typeNode

/-- The method overrides the nearest one of its name in a base class, or one of
an implemented interface. -/
def Overrides (cls method target : P.Ref) : Prop :=
  (overriddenMethod P (P.node method).name P.count cls = some target ∧ P.inProject target = true) ∨
    ∃ iface ∈ implementedInterfaces P cls, P.getMethod iface (P.node method).name = some target

end Syntax

variable (host : Host) (rootPath : String) (P : Project)

/-- The uses the semantic pass finds in `file`: the kind of the relationship
and the ids of its two ends. -/
inductive Use (file : P.Ref) : EdgeKind → String → String → Prop
  | type {kind : EdgeKind} {x typeNode t : P.Ref} (hposition : TypePosition P file kind x typeNode)
      (ht : t ∈ referencedTypes P typeNode) (hproject : P.inProject t = true) (hkind : P.kind t ∈ TYPE_DECL_KINDS) :
      Use file kind (NodeId.forDeclaration host rootPath P x) (NodeId.forDeclaration host rootPath P t)
  | extendsClass {c t : P.Ref} (hc : c ∈ P.childrenOfKind file .ClassDeclaration) (ht : P.getBaseClass c = some t)
      (hproject : P.inProject t = true) :
      Use file .EXTENDS (NodeId.forDeclaration host rootPath P c) (NodeId.forDeclaration host rootPath P t)
  | extendsInterface {c t : P.Ref} (hc : c ∈ P.childrenOfKind file .InterfaceDeclaration)
      (ht : t ∈ P.getBaseDeclarations c) (hproject : P.inProject t = true) :
      Use file .EXTENDS (NodeId.forDeclaration host rootPath P c) (NodeId.forDeclaration host rootPath P t)
  | implements {c expression t : P.Ref} (hc : c ∈ P.childrenOfKind file .ClassDeclaration)
      (hexpression : expression ∈ P.getImplements c) (ht : P.resolve expression = some t)
      (hproject : P.inProject t = true) :
      Use file .IMPLEMENTS (NodeId.forDeclaration host rootPath P c) (NodeId.forDeclaration host rootPath P t)
  | overrides {c method t : P.Ref} (hc : c ∈ P.childrenOfKind file .ClassDeclaration) (hmethod : method ∈ P.getMethods c)
      (ht : Overrides P c method t) :
      Use file .OVERRIDES (NodeId.forDeclaration host rootPath P method) (NodeId.forDeclaration host rootPath P t)
  | call {use expression t : P.Ref} (huse : use ∈ P.getDescendantsOfKind file .CallExpression)
      (hexpression : P.childAt use .expression = some expression) (ht : resolveInProject P expression = some t)
      (hkind : P.kind t ∈ CALLABLE_TARGET_KINDS) (hemitted : isEmittedDeclaration P t = true) :
      Use file .CALLS (callerScopeId host rootPath P use) (NodeId.forDeclaration host rootPath P t)
  | instantiate {use expression t : P.Ref} (huse : use ∈ P.getDescendantsOfKind file .NewExpression)
      (hexpression : P.childAt use .expression = some expression) (ht : resolveInProject P expression = some t)
      (hkind : P.kind t = .ClassDeclaration) (hemitted : isEmittedDeclaration P t = true) :
      Use file .INSTANTIATES (callerScopeId host rootPath P use) (NodeId.forDeclaration host rootPath P t)
  | access {kind : EdgeKind} {identifier scope t : P.Ref} (hx : identifier ∈ P.getDescendantsOfKind file .Identifier)
      (haccess : kind = .READS ∧ isValueRead P identifier = true ∨ kind = .WRITES ∧ isValueWrite P identifier = true)
      (ht : resolveInProject P identifier = some t) (hkind : P.kind t ∈ VALUE_DECL_KINDS)
      (hemitted : isEmittedDeclaration P t = true) (hname : isDeclarationName P identifier t = false)
      (hscope : readerScope P identifier = some scope)
      (hother : NodeId.forDeclaration host rootPath P scope ≠ NodeId.forDeclaration host rootPath P t) :
      Use file kind (NodeId.forDeclaration host rootPath P scope) (NodeId.forDeclaration host rootPath P t)

variable {host rootPath P}

/-- A use is a reference or a write. -/
theorem Use.kind_mem {file : P.Ref} {kind : EdgeKind} {s t : String} (h : Use host rootPath P file kind s t) :
    kind ∈ .WRITES :: REFERENCE_EDGE_KINDS := by
  cases h with
  | type hposition _ _ _ => cases hposition <;> decide
  | access _ haccess _ _ _ _ _ _ =>
    obtain ⟨rfl, _⟩ | ⟨rfl, _⟩ := haccess <;> decide
  | _ => decide

theorem mem_addTypeEdges {x : P.Ref} {kind : EdgeKind} {typeNode : Option P.Ref} {e : GraphEdge} :
    e ∈ addTypeEdges host rootPath P x kind typeNode ↔ ∃ node, typeNode = some node ∧
      ∃ t ∈ referencedTypes P node, P.inProject t = true ∧ P.kind t ∈ TYPE_DECL_KINDS ∧
        edgeBetween host rootPath P kind x t = e := by
  cases typeNode with
  | none => simp [addTypeEdges]
  | some node =>
    simp only [addTypeEdges, List.mem_map, List.mem_filter, decide_eq_true_eq, Option.some.injEq, and_assoc,
      exists_eq_left']

theorem use_of_signature {file f : P.Ref} (hf : HasSignature P file f) {e : GraphEdge}
    (h : e ∈ extractSignature host rootPath P f) : ∃ kind s t, Use host rootPath P file kind s t ∧ e = edge kind s t := by
  obtain h | h := List.mem_append.mp h
  · obtain ⟨node, htype, t, ht, hproject, hkind, rfl⟩ := mem_addTypeEdges.mp h
    exact ⟨_, _, _, .type (.returns hf htype) ht hproject hkind, rfl⟩
  · obtain ⟨p, hp, h⟩ := List.mem_flatMap.mp h
    obtain ⟨node, htype, t, ht, hproject, hkind, rfl⟩ := mem_addTypeEdges.mp h
    exact ⟨_, _, _, .type (.parameter hf hp htype) ht hproject hkind, rfl⟩

theorem use_of_declaredType {file x : P.Ref} (hx : HasAnnotation P file x) {e : GraphEdge}
    (h : e ∈ addTypeEdges host rootPath P x .USES_TYPE (P.childAt x .type)) :
    ∃ kind s t, Use host rootPath P file kind s t ∧ e = edge kind s t := by
  obtain ⟨node, htype, t, ht, hproject, hkind, rfl⟩ := mem_addTypeEdges.mp h
  exact ⟨_, _, _, .type (.declaredType hx htype) ht hproject hkind, rfl⟩

theorem use_of_properties {file c : P.Ref} (hc : IsTopLevelType P file c) {e : GraphEdge}
    (h : e ∈ extractProperties host rootPath P c) : ∃ kind s t, Use host rootPath P file kind s t ∧ e = edge kind s t := by
  obtain ⟨x, hx, h⟩ := List.mem_flatMap.mp h
  exact use_of_declaredType (Or.inl ⟨c, hc, hx⟩) h

theorem mem_extractOverrides {cls method : P.Ref} {e : GraphEdge} :
    e ∈ extractOverrides host rootPath P cls method ↔
      ∃ t, Overrides P cls method t ∧ edgeBetween host rootPath P .OVERRIDES method t = e := by
  simp only [extractOverrides, List.mem_map, List.mem_append, Option.mem_toList, Option.filter_eq_some_iff,
    List.mem_filterMap, Overrides]

theorem mem_extractClass {cls : P.Ref} {e : GraphEdge} : e ∈ extractClass host rootPath P cls ↔
    (∃ t, P.getBaseClass cls = some t ∧ P.inProject t = true ∧ edgeBetween host rootPath P .EXTENDS cls t = e) ∨
    (∃ expression ∈ P.getImplements cls, ∃ t, P.resolve expression = some t ∧ P.inProject t = true ∧
      edgeBetween host rootPath P .IMPLEMENTS cls t = e) ∨
    (∃ method ∈ P.getMethods cls, e ∈ extractSignature host rootPath P method ∨
      e ∈ extractOverrides host rootPath P cls method) ∨
    e ∈ extractProperties host rootPath P cls := by
  simp only [extractClass, List.mem_append, List.mem_map, Option.mem_toList, Option.filter_eq_some_iff, List.mem_filter,
    List.mem_filterMap, List.mem_flatMap, or_assoc, and_assoc]
  refine or_congr Iff.rfl (or_congr ?_ Iff.rfl)
  constructor
  · rintro ⟨t, ⟨expression, hexpression, ht⟩, hproject, rfl⟩
    exact ⟨expression, hexpression, t, ht, hproject, rfl⟩
  · rintro ⟨expression, hexpression, t, ht, hproject, rfl⟩
    exact ⟨t, ⟨expression, hexpression, ht⟩, hproject, rfl⟩

theorem extractUse_eq_some {kind : EdgeKind} {kinds : List SyntaxKind} {use : P.Ref} {e : GraphEdge} :
    extractUse host rootPath P kind kinds use = some e ↔ ∃ expression t, P.childAt use .expression = some expression ∧
      resolveInProject P expression = some t ∧ P.kind t ∈ kinds ∧ isEmittedDeclaration P t = true ∧
      edge kind (callerScopeId host rootPath P use) (NodeId.forDeclaration host rootPath P t) = e := by
  simp only [extractUse, Option.bind_eq_bind, Option.bind_eq_some_iff, Option.ite_none_right_eq_some, Option.some.injEq]
  constructor
  · rintro ⟨expression, hexpression, t, ht, ⟨hkind, hemitted⟩, rfl⟩
    exact ⟨expression, t, hexpression, ht, hkind, hemitted, rfl⟩
  · rintro ⟨expression, t, hexpression, ht, hkind, hemitted, rfl⟩
    exact ⟨expression, hexpression, t, ht, ⟨hkind, hemitted⟩, rfl⟩

theorem accessEdge_eq_some {kind : EdgeKind} {identifier : P.Ref} {e : GraphEdge} :
    accessEdge host rootPath P kind identifier = some e ↔ ∃ t scope, resolveInProject P identifier = some t ∧
      P.kind t ∈ VALUE_DECL_KINDS ∧ isEmittedDeclaration P t = true ∧ isDeclarationName P identifier t = false ∧
      readerScope P identifier = some scope ∧
      NodeId.forDeclaration host rootPath P scope ≠ NodeId.forDeclaration host rootPath P t ∧
      edgeBetween host rootPath P kind scope t = e := by
  simp only [accessEdge, Option.bind_eq_bind, Option.bind_eq_some_iff, Option.ite_none_right_eq_some, Option.some.injEq]
  constructor
  · rintro ⟨t, ht, ⟨hkind, hemitted, hname⟩, scope, hscope, hother, rfl⟩
    exact ⟨t, scope, ht, hkind, hemitted, hname, hscope, hother, rfl⟩
  · rintro ⟨t, scope, ht, hkind, hemitted, hname, hscope, hother, rfl⟩
    exact ⟨t, ht, ⟨hkind, hemitted, hname⟩, scope, hscope, hother, rfl⟩

/-- Every edge of the semantic pass is a use. -/
theorem use_of_mem_extract {file : P.Ref} {e : GraphEdge} (h : e ∈ (extract host rootPath P file).edges) :
    ∃ kind s t, Use host rootPath P file kind s t ∧ e = edge kind s t := by
  simp only [extract, List.mem_append, List.mem_flatMap, or_assoc] at h
  obtain ⟨c, hc, h⟩ | ⟨c, hc, h⟩ | ⟨f, hf, h⟩ | ⟨x, hx, h⟩ | h | h | h | h := h
  · obtain ⟨t, ht, hproject, rfl⟩ | ⟨expression, hexpression, t, ht, hproject, rfl⟩ | ⟨method, hmethod, h⟩ | h :=
      mem_extractClass.mp h
    · exact ⟨_, _, _, .extendsClass hc ht hproject, rfl⟩
    · exact ⟨_, _, _, .implements hc hexpression ht hproject, rfl⟩
    · obtain h | h := h
      · exact use_of_signature (Or.inr ⟨c, Or.inl hc, hmethod⟩) h
      · obtain ⟨t, ht, rfl⟩ := mem_extractOverrides.mp h
        exact ⟨_, _, _, .overrides hc hmethod ht, rfl⟩
    · exact use_of_properties (Or.inl hc) h
  · simp only [extractInterface, List.mem_append, List.mem_map, List.mem_filter, List.mem_flatMap, or_assoc] at h
    obtain ⟨t, ⟨ht, hproject⟩, rfl⟩ | ⟨method, hmethod, h⟩ | h := h
    · exact ⟨_, _, _, .extendsInterface hc ht hproject, rfl⟩
    · exact use_of_signature (Or.inr ⟨c, Or.inr hc, hmethod⟩) h
    · exact use_of_properties (Or.inr hc) h
  · exact use_of_signature (Or.inl hf) h
  · exact use_of_declaredType (Or.inr hx) h
  · obtain ⟨use, huse, h⟩ := List.mem_filterMap.mp h
    obtain ⟨expression, t, hexpression, ht, hkind, hemitted, rfl⟩ := extractUse_eq_some.mp h
    exact ⟨_, _, _, .call huse hexpression ht hkind hemitted, rfl⟩
  · obtain ⟨use, huse, h⟩ := List.mem_filterMap.mp h
    obtain ⟨expression, t, hexpression, ht, hkind, hemitted, rfl⟩ := extractUse_eq_some.mp h
    exact ⟨_, _, _, .instantiate huse hexpression ht (List.mem_singleton.mp hkind) hemitted, rfl⟩
  · obtain ⟨x, hx, h⟩ := List.mem_filterMap.mp h
    obtain ⟨hx, hread⟩ := List.mem_filter.mp hx
    obtain ⟨t, scope, ht, hkind, hemitted, hname, hscope, hother, rfl⟩ := accessEdge_eq_some.mp h
    exact ⟨_, _, _, .access hx (Or.inl ⟨rfl, hread⟩) ht hkind hemitted hname hscope hother, rfl⟩
  · obtain ⟨x, hx, h⟩ := List.mem_filterMap.mp h
    obtain ⟨hx, hwrite⟩ := List.mem_filter.mp hx
    obtain ⟨t, scope, ht, hkind, hemitted, hname, hscope, hother, rfl⟩ := accessEdge_eq_some.mp h
    exact ⟨_, _, _, .access hx (Or.inr ⟨rfl, hwrite⟩) ht hkind hemitted hname hscope hother, rfl⟩

theorem mem_extract_of_class {file c : P.Ref} {e : GraphEdge} (hc : c ∈ P.childrenOfKind file .ClassDeclaration)
    (h : e ∈ extractClass host rootPath P c) : e ∈ (extract host rootPath P file).edges := by
  simp only [extract, List.mem_append, List.mem_flatMap, or_assoc]
  exact Or.inl ⟨c, hc, h⟩

theorem mem_extract_of_interface {file c : P.Ref} {e : GraphEdge}
    (hc : c ∈ P.childrenOfKind file .InterfaceDeclaration) (h : e ∈ extractInterface host rootPath P c) :
    e ∈ (extract host rootPath P file).edges := by
  simp only [extract, List.mem_append, List.mem_flatMap, or_assoc]
  exact Or.inr (Or.inl ⟨c, hc, h⟩)

theorem mem_extract_of_signature {file f : P.Ref} (hf : HasSignature P file f) {e : GraphEdge}
    (h : e ∈ extractSignature host rootPath P f) : e ∈ (extract host rootPath P file).edges := by
  obtain hf | ⟨c, hc | hc, hf⟩ := hf
  · simp only [extract, List.mem_append, List.mem_flatMap, or_assoc]
    exact Or.inr (Or.inr (Or.inl ⟨f, hf, h⟩))
  · exact mem_extract_of_class hc (mem_extractClass.mpr (Or.inr (Or.inr (Or.inl ⟨f, hf, Or.inl h⟩))))
  · refine mem_extract_of_interface hc ?_
    simp only [extractInterface, List.mem_append, List.mem_flatMap]
    exact Or.inl (Or.inr ⟨f, hf, h⟩)

theorem mem_extract_of_declaredType {file x : P.Ref} (hx : HasAnnotation P file x) {e : GraphEdge}
    (h : e ∈ addTypeEdges host rootPath P x .USES_TYPE (P.childAt x .type)) :
    e ∈ (extract host rootPath P file).edges := by
  obtain ⟨c, hc | hc, hx⟩ | hx := hx
  · exact mem_extract_of_class hc
      (mem_extractClass.mpr (Or.inr (Or.inr (Or.inr (List.mem_flatMap.mpr ⟨x, hx, h⟩)))))
  · refine mem_extract_of_interface hc ?_
    simp only [extractInterface, List.mem_append]
    exact Or.inr (List.mem_flatMap.mpr ⟨x, hx, h⟩)
  · simp only [extract, List.mem_append, List.mem_flatMap, or_assoc]
    exact Or.inr (Or.inr (Or.inr (Or.inl ⟨x, hx, h⟩)))

theorem mem_extract_of_type {file x typeNode t : P.Ref} {kind : EdgeKind} (hposition : TypePosition P file kind x typeNode)
    (ht : t ∈ referencedTypes P typeNode) (hproject : P.inProject t = true) (hkind : P.kind t ∈ TYPE_DECL_KINDS) :
    edgeBetween host rootPath P kind x t ∈ (extract host rootPath P file).edges := by
  cases hposition with
  | returns hf htype =>
    exact mem_extract_of_signature hf (List.mem_append_left _ (mem_addTypeEdges.mpr ⟨_, htype, t, ht, hproject, hkind, rfl⟩))
  | @parameter _ p _ hf hp htype =>
    refine mem_extract_of_signature hf (List.mem_append_right _ (List.mem_flatMap.mpr ⟨p, hp, ?_⟩))
    exact mem_addTypeEdges.mpr ⟨_, htype, t, ht, hproject, hkind, rfl⟩
  | declaredType hx htype =>
    exact mem_extract_of_declaredType hx (mem_addTypeEdges.mpr ⟨_, htype, t, ht, hproject, hkind, rfl⟩)

/-- The edges of the semantic pass are exactly the uses of the file. -/
theorem mem_extract_iff {file : P.Ref} {e : GraphEdge} : e ∈ (extract host rootPath P file).edges ↔
    ∃ kind s t, Use host rootPath P file kind s t ∧ e = edge kind s t := by
  refine ⟨use_of_mem_extract, ?_⟩
  rintro ⟨kind, s, t, huse, rfl⟩
  cases huse with
  | type hposition ht hproject hkind => exact mem_extract_of_type hposition ht hproject hkind
  | extendsClass hc ht hproject => exact mem_extract_of_class hc (mem_extractClass.mpr (Or.inl ⟨_, ht, hproject, rfl⟩))
  | @extendsInterface _ t hc ht hproject =>
    refine mem_extract_of_interface hc ?_
    simp only [extractInterface, List.mem_append, List.mem_map, List.mem_filter]
    exact Or.inl (Or.inl ⟨t, ⟨ht, hproject⟩, rfl⟩)
  | implements hc hexpression ht hproject =>
    exact mem_extract_of_class hc
      (mem_extractClass.mpr (Or.inr (Or.inl ⟨_, hexpression, _, ht, hproject, rfl⟩)))
  | overrides hc hmethod ht =>
    exact mem_extract_of_class hc
      (mem_extractClass.mpr (Or.inr (Or.inr (Or.inl ⟨_, hmethod, Or.inr (mem_extractOverrides.mpr ⟨_, ht, rfl⟩)⟩))))
  | @call use expression t huse hexpression ht hkind hemitted =>
    have hedge : edge .CALLS (callerScopeId host rootPath P use) (NodeId.forDeclaration host rootPath P t) ∈
        extractCalls host rootPath P file :=
      List.mem_filterMap.mpr ⟨use, huse, extractUse_eq_some.mpr ⟨expression, t, hexpression, ht, hkind, hemitted, rfl⟩⟩
    simp only [extract, List.mem_append, hedge, true_or, or_true]
  | @instantiate use expression t huse hexpression ht hkind hemitted =>
    have hedge : edge .INSTANTIATES (callerScopeId host rootPath P use) (NodeId.forDeclaration host rootPath P t) ∈
        extractInstantiations host rootPath P file :=
      List.mem_filterMap.mpr ⟨use, huse,
        extractUse_eq_some.mpr ⟨expression, t, hexpression, ht, List.mem_singleton.mpr hkind, hemitted, rfl⟩⟩
    simp only [extract, List.mem_append, hedge, true_or, or_true]
  | @access kind identifier scope t hx haccess ht hkind hemitted hname hscope hother =>
    have haccesses : ∀ accesses : P.Ref → Bool, accesses identifier = true →
        edgeBetween host rootPath P kind scope t ∈ extractValueAccess host rootPath P kind accesses file :=
      fun accesses h => List.mem_filterMap.mpr ⟨identifier, List.mem_filter.mpr ⟨hx, h⟩,
        accessEdge_eq_some.mpr ⟨t, scope, ht, hkind, hemitted, hname, hscope, hother, rfl⟩⟩
    change edgeBetween host rootPath P kind scope t ∈ _
    obtain ⟨rfl, hread⟩ | ⟨rfl, hwrite⟩ := haccess
    · have hedge : edgeBetween host rootPath P .READS scope t ∈ extractReads host rootPath P file := haccesses _ hread
      simp only [extract, List.mem_append, hedge, true_or, or_true]
    · have hedge : edgeBetween host rootPath P .WRITES scope t ∈ extractWrites host rootPath P file := haccesses _ hwrite
      simp only [extract, List.mem_append, hedge, or_true]

end codespine.extract.SemanticExtractor
