import Codespine.Extract.ScopeResolver

open codespine.schema

namespace codespine.extract.SemanticExtractor

def CALLABLE_TARGET_KINDS : List SyntaxKind :=
  [.FunctionDeclaration, .MethodDeclaration, .MethodSignature, .VariableDeclaration]

def TYPE_DECL_KINDS : List SyntaxKind :=
  [.ClassDeclaration, .InterfaceDeclaration, .TypeAliasDeclaration, .EnumDeclaration]

def VALUE_DECL_KINDS : List SyntaxKind :=
  [.VariableDeclaration, .FunctionDeclaration, .ClassDeclaration, .EnumDeclaration]

/-- The kinds that are emitted when their parent is the source file. -/
def MODULE_LEVEL_DECL_KINDS : List SyntaxKind :=
  [.FunctionDeclaration, .ClassDeclaration, .InterfaceDeclaration, .TypeAliasDeclaration, .EnumDeclaration]

def SCOPE_KINDS : List SyntaxKind :=
  [.FunctionDeclaration, .MethodDeclaration, .PropertyDeclaration, .PropertySignature, .VariableDeclaration,
    .TypeAliasDeclaration, .EnumDeclaration, .ClassDeclaration, .InterfaceDeclaration]

def ASSIGNMENT_OPERATORS : List SyntaxKind :=
  [.EqualsToken, .PlusEqualsToken, .MinusEqualsToken, .AsteriskEqualsToken, .AsteriskAsteriskEqualsToken,
    .SlashEqualsToken, .PercentEqualsToken, .LessThanLessThanEqualsToken, .GreaterThanGreaterThanEqualsToken,
    .GreaterThanGreaterThanGreaterThanEqualsToken, .AmpersandEqualsToken, .BarEqualsToken, .CaretEqualsToken,
    .AmpersandAmpersandEqualsToken, .BarBarEqualsToken, .QuestionQuestionEqualsToken]

section Predicates

variable (P : Project)

/-- The declaration a node's symbol leads to, where it is in the project. -/
def resolveInProject (x : P.Ref) : Option P.Ref := (P.resolve x).filter P.inProject

def isValueRead (identifier : P.Ref) : Bool :=
  if (P.getFirstAncestor (fun a => P.kind a = .ImportDeclaration) identifier).isSome then false
  else if (P.getFirstAncestor (fun a => P.kind a = .HeritageClause) identifier).isSome then false
  else
    match P.getParent identifier with
    | none => false
    | some parent =>
      match P.kind parent with
      | .PropertyAccessExpression => !P.isHeldAt identifier parent .name
      | .QualifiedName => !P.isHeldAt identifier parent .right
      | .CallExpression => !P.isHeldAt identifier parent .expression
      | .NewExpression => !P.isHeldAt identifier parent .expression
      | .PropertyAssignment => !P.isHeldAt identifier parent .name
      | .BinaryExpression =>
        !P.isHeldAt identifier parent .left || (P.node parent).operator ≠ some SyntaxKind.EqualsToken
      | .TypeReference => false
      | .PropertySignature => false
      | .PropertyDeclaration => false
      | .BindingElement => false
      | _ => true

def isValueWrite (identifier : P.Ref) : Bool :=
  match P.getParent identifier with
  | none => false
  | some parent =>
    match P.kind parent with
    | .BinaryExpression =>
      P.isHeldAt identifier parent .left && ((P.node parent).operator.map fun operator => decide (operator ∈ ASSIGNMENT_OPERATORS)).getD false
    | .PrefixUnaryExpression | .PostfixUnaryExpression =>
      P.isHeldAt identifier parent .operand &&
        ((P.node parent).operator = some .PlusPlusToken ∨ (P.node parent).operator = some .MinusMinusToken)
    | _ => false

def isDeclarationName (identifier declaration : P.Ref) : Bool := P.isHeldAt identifier declaration .name

/-- The declaration was emitted as a node, and so can be an end of an edge. -/
def isEmittedDeclaration (declaration : P.Ref) : Bool :=
  if P.kind declaration = .VariableDeclaration then
    ((P.getVariableStatement declaration).bind P.parentKind) = some .SourceFile
  else
    match P.parentKind declaration with
    | some .SourceFile => P.kind declaration ∈ MODULE_LEVEL_DECL_KINDS
    | some .ClassDeclaration | some .InterfaceDeclaration =>
      P.kind declaration = .MethodDeclaration ∨ P.kind declaration = .MethodSignature
    | _ => false

/-- The scope a value access is attributed to. -/
def readerScope (x : P.Ref) : Option P.Ref :=
  match P.getFirstAncestor (fun a => P.kind a = .FunctionDeclaration ∨ P.kind a = .MethodDeclaration) x with
  | some executable => some executable
  | none => P.getFirstAncestor (fun a => P.kind a ∈ SCOPE_KINDS) x

/-- The declarations that the type references in a type lead to. -/
def referencedTypes (typeNode : P.Ref) : List P.Ref :=
  let self := if P.kind typeNode = .TypeReference then [typeNode] else []
  (self ++ P.getDescendantsOfKind typeNode .TypeReference).filterMap fun reference =>
    (P.childAt reference .typeName).bind P.resolve

end Predicates

variable (host : Host) (rootPath : String) (P : Project)

/-- The scope a call or construction is attributed to: the nearest emitted
declaration, or else the module. -/
def callerScopeId (x : P.Ref) : String :=
  match P.getFirstAncestor (isEmittedDeclaration P) x with
  | some scope => NodeId.forDeclaration host rootPath P scope
  | none => NodeId.forModule host rootPath (P.getFilePath x)

/-- A relationship between two declarations. -/
def edgeBetween (kind : EdgeKind) (source target : P.Ref) : GraphEdge :=
  edge kind (NodeId.forDeclaration host rootPath P source) (NodeId.forDeclaration host rootPath P target)

def addTypeEdges (source : P.Ref) (kind : EdgeKind) (typeNode : Option P.Ref) : List GraphEdge :=
  match typeNode with
  | none => []
  | some typeNode =>
    ((referencedTypes P typeNode).filter fun declaration =>
      P.inProject declaration ∧ P.kind declaration ∈ TYPE_DECL_KINDS).map (edgeBetween host rootPath P kind source)

def extractSignature (x : P.Ref) : List GraphEdge :=
  addTypeEdges host rootPath P x .RETURNS (P.childAt x .type) ++
    (P.getParameters x).flatMap fun parameter => addTypeEdges host rootPath P x .PARAM_TYPE (P.childAt parameter .type)

/-- The first base class, from `cls` up, that declares a method of the name.
No chain of distinct classes is longer than the project. -/
def overriddenMethod (name : Option String) : ℕ → P.Ref → Option P.Ref
  | 0, _ => none
  | fuel + 1, cls =>
    match P.getBaseClass cls with
    | none => none
    | some base =>
      match P.getMethod base name with
      | some overridden => some overridden
      | none => overriddenMethod name fuel base

/-- The interfaces of the project that a class implements. -/
def implementedInterfaces (cls : P.Ref) : List P.Ref :=
  ((P.getImplements cls).filterMap P.resolve).filter fun iface =>
    P.kind iface = .InterfaceDeclaration ∧ P.inProject iface

def extractOverrides (cls method : P.Ref) : List GraphEdge :=
  let name := (P.node method).name
  (((overriddenMethod P name P.count cls).filter P.inProject).toList ++
    (implementedInterfaces P cls).filterMap fun iface => P.getMethod iface name).map
      (edgeBetween host rootPath P .OVERRIDES method)

def extractProperties (x : P.Ref) : List GraphEdge :=
  (P.getProperties x).flatMap fun property => addTypeEdges host rootPath P property .USES_TYPE (P.childAt property .type)

def extractClass (cls : P.Ref) : List GraphEdge :=
  ((P.getBaseClass cls).filter P.inProject).toList.map (edgeBetween host rootPath P .EXTENDS cls) ++
    (((P.getImplements cls).filterMap P.resolve).filter P.inProject).map (edgeBetween host rootPath P .IMPLEMENTS cls) ++
    ((P.getMethods cls).flatMap fun method =>
      extractSignature host rootPath P method ++ extractOverrides host rootPath P cls method) ++
    extractProperties host rootPath P cls

def extractInterface (iface : P.Ref) : List GraphEdge :=
  ((P.getBaseDeclarations iface).filter P.inProject).map (edgeBetween host rootPath P .EXTENDS iface) ++
    (P.getMethods iface).flatMap (extractSignature host rootPath P) ++
    extractProperties host rootPath P iface

/-- The edge of one call or construction: its callee is an emitted declaration
of one of the kinds. -/
def extractUse (kind : EdgeKind) (targetKinds : List SyntaxKind) (use : P.Ref) : Option GraphEdge := do
  let expression ← P.childAt use .expression
  let target ← resolveInProject P expression
  if P.kind target ∈ targetKinds ∧ isEmittedDeclaration P target then
    some (edge kind (callerScopeId host rootPath P use) (NodeId.forDeclaration host rootPath P target))
  else none

def extractCalls (file : P.Ref) : List GraphEdge :=
  (P.getDescendantsOfKind file .CallExpression).filterMap (extractUse host rootPath P .CALLS CALLABLE_TARGET_KINDS)

def extractInstantiations (file : P.Ref) : List GraphEdge :=
  (P.getDescendantsOfKind file .NewExpression).filterMap (extractUse host rootPath P .INSTANTIATES [.ClassDeclaration])

/-- The edge of one value access: its target is an emitted value declaration
that the identifier does not name, and has another id than the scope. -/
def accessEdge (kind : EdgeKind) (identifier : P.Ref) : Option GraphEdge := do
  let target ← resolveInProject P identifier
  if P.kind target ∈ VALUE_DECL_KINDS ∧ isEmittedDeclaration P target ∧ isDeclarationName P identifier target = false then
    let scope ← readerScope P identifier
    if NodeId.forDeclaration host rootPath P scope ≠ NodeId.forDeclaration host rootPath P target then
      some (edgeBetween host rootPath P kind scope target)
    else none
  else none

def extractValueAccess (kind : EdgeKind) (accesses : P.Ref → Bool) (file : P.Ref) : List GraphEdge :=
  ((P.getDescendantsOfKind file .Identifier).filter accesses).filterMap (accessEdge host rootPath P kind)

def extractReads : P.Ref → List GraphEdge := extractValueAccess host rootPath P .READS (isValueRead P)

def extractWrites : P.Ref → List GraphEdge := extractValueAccess host rootPath P .WRITES (isValueWrite P)

set_option linter.dupNamespace false in
def extract (file : P.Ref) : Extraction where
  edges :=
    (P.childrenOfKind file .ClassDeclaration).flatMap (extractClass host rootPath P) ++
    (P.childrenOfKind file .InterfaceDeclaration).flatMap (extractInterface host rootPath P) ++
    (P.childrenOfKind file .FunctionDeclaration).flatMap (extractSignature host rootPath P) ++
    ((P.getVariableDeclarations file ++ P.childrenOfKind file .TypeAliasDeclaration).flatMap fun x =>
      addTypeEdges host rootPath P x .USES_TYPE (P.childAt x .type)) ++
    extractCalls host rootPath P file ++
    extractInstantiations host rootPath P file ++
    extractReads host rootPath P file ++
    extractWrites host rootPath P file

end codespine.extract.SemanticExtractor
