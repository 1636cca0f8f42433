import Codespine.Extract.StructuralExtractor

open codespine.schema

namespace codespine.extract

namespace ScopeResolver

variable (P : Project)

/-- The kinds that are emitted when they sit at module scope. -/
def TOP_LEVEL_SCOPE_KINDS : List SyntaxKind :=
  [.FunctionDeclaration, .VariableDeclaration, .ClassDeclaration, .InterfaceDeclaration, .EnumDeclaration,
    .TypeAliasDeclaration]

def isEmitted (x : P.Ref) : Bool :=
  if P.kind x = .MethodDeclaration ∨ P.kind x = .PropertyDeclaration then true
  else if P.kind x ∉ TOP_LEVEL_SCOPE_KINDS then false
  else if P.kind x = .VariableDeclaration then
    ((P.getVariableStatement x).bind P.parentKind) = some .SourceFile
  else P.parentKind x = some .SourceFile

/-- The nearest enclosing emitted declaration, or else the module. -/
def enclosingId (host : Host) (rootPath moduleId : String) (x : P.Ref) : String :=
  match P.getFirstAncestor (isEmitted P) x with
  | some scope => NodeId.forDeclaration host rootPath P scope
  | none => moduleId

end ScopeResolver

namespace ConfigExtractor

variable (host : Host) (rootPath : String) (P : Project)

/-- `process.env`. -/
def isProcessEnv (x : P.Ref) : Bool :=
  if P.kind x = .PropertyAccessExpression ∧ (P.node x).name = some "env" then
    match P.childAt x .expression with
    | some target => P.kind target = .Identifier ∧ (P.node target).text = "process"
    | none => false
  else false

/-- The literal key of `process.env['NAME']`. -/
def stringArgument (access : P.Ref) : Option String :=
  ((P.childAt access .argument).filter fun key => P.kind key = .StringLiteral).map fun key => (P.node key).text

def emit (moduleId : String) (access : P.Ref) (name : String) : Extraction :=
  if name = "" then {}
  else
    let flagId := NodeId.forConfigFlag name
    { nodes := [{ id := flagId, kind := .ConfigFlag, name, filePath := "process.env" }]
      edges := [edge .READS_CONFIG (ScopeResolver.enclosingId P host rootPath moduleId access) flagId] }

def readsProcessEnv (access : P.Ref) : Bool := ((P.childAt access .expression).map (isProcessEnv P)).getD false

set_option linter.dupNamespace false in
def extract (file : P.Ref) : Extraction :=
  let moduleId := NodeId.forModule host rootPath (P.getFilePath file)
  .collect ((P.getDescendantsOfKind file .PropertyAccessExpression).filter (readsProcessEnv P))
      (fun access => emit host rootPath P moduleId access ((P.node access).name.getD "")) ++
    .collect ((P.getDescendantsOfKind file .ElementAccessExpression).filter (readsProcessEnv P)) fun access =>
      match stringArgument P access with
      | some name => emit host rootPath P moduleId access name
      | none => {}

end ConfigExtractor

namespace ApiExtractor

variable (host : Host) (rootPath : String) (P : Project)

/-- The receivers whose `fetch` is the global one. -/
def FETCH_GLOBALS : List String := ["window", "globalThis", "self"]

def DYNAMIC_TARGET : String := "(dynamic)"

def isFetchCall (callee : P.Ref) : Bool :=
  if P.kind callee = .Identifier then (P.node callee).text = "fetch"
  else if P.kind callee = .PropertyAccessExpression ∧ (P.node callee).name = some "fetch" then
    match P.childAt callee .expression with
    | some target => P.kind target = .Identifier ∧ (P.node target).text ∈ FETCH_GLOBALS
    | none => false
  else false

/-- The text of a static argument. -/
def staticUrl (argument : Option P.Ref) : Option String :=
  (argument.filter fun x => P.kind x = .StringLiteral ∨ P.kind x = .NoSubstitutionTemplateLiteral).map fun x =>
    (P.node x).text

def targetHost (argument : Option P.Ref) : String :=
  match (staticUrl P argument).bind host.urlHost with
  | some apiHost => if apiHost = "" then DYNAMIC_TARGET else apiHost
  | none => DYNAMIC_TARGET

set_option linter.dupNamespace false in
def extract (file : P.Ref) : Extraction :=
  let moduleId := NodeId.forModule host rootPath (P.getFilePath file)
  .collect ((P.getDescendantsOfKind file .CallExpression).filter fun call =>
      ((P.childAt call .expression).map (isFetchCall P)).getD false) fun call =>
    let apiHost := targetHost host P (P.childrenAt call .argument)[0]?
    let apiId := NodeId.forExternalApi apiHost
    { nodes := [{ id := apiId, kind := .ExternalAPI, name := apiHost, filePath := apiHost }]
      edges := [edge .CALLS_EXTERNAL (ScopeResolver.enclosingId P host rootPath moduleId call) apiId] }

end ApiExtractor

end codespine.extract
