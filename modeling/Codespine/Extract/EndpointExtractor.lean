import Codespine.Extract.ScopeResolver

open codespine.schema

namespace codespine.extract.EndpointExtractor

/-- The verbs that register a route. -/
def HTTP_METHODS : List String := ["get", "post", "put", "delete", "patch", "options", "head", "all"]

/-- A call's last argument: whether the call is a route at all, and the node of
its handler where it has one. -/
structure Handler where
  valid : Bool
  id : Option String := none

variable (host : Host) (rootPath : String) (P : Project)

/-- The function, method or function-valued variable of the project that a
handler refers to. -/
def resolveCallable (x : P.Ref) : Option P.Ref :=
  ((P.resolve x).filter P.inProject).filter fun declaration =>
    P.kind declaration = .FunctionDeclaration ∨ P.kind declaration = .MethodDeclaration ∨
      P.kind declaration = .VariableDeclaration ∧
        ((P.childAt declaration .initializer).map fun initializer =>
          decide (P.kind initializer = .ArrowFunction ∨ P.kind initializer = .FunctionExpression)).getD false

def classifyHandler (handler : P.Ref) : Handler :=
  if P.kind handler = .ArrowFunction ∨ P.kind handler = .FunctionExpression then { valid := true }
  else
    match resolveCallable P handler with
    | none => { valid := false }
    | some declaration =>
      if ScopeResolver.isEmitted P declaration then
        { valid := true, id := some (NodeId.forDeclaration host rootPath P declaration) }
      else { valid := true }

/-- The route a call registers: its method, its path and its handler. -/
def routeOf (call : P.Ref) : Option (String × String × Handler) := do
  let callee ← (P.childAt call .expression).filter fun callee => P.kind callee = .PropertyAccessExpression
  let verb ← (P.node callee).name.filter fun verb => verb ∈ HTTP_METHODS
  match P.childrenAt call .argument with
  | path :: second :: rest =>
    let handler := classifyHandler host rootPath P (rest.getLast?.getD second)
    if P.kind path = .StringLiteral ∧ handler.valid then some (verb.toUpper, (P.node path).text, handler) else none
  | _ => none

def extractRoute (call : P.Ref) : Extraction :=
  match routeOf host rootPath P call with
  | none => {}
  | some (method, path, handler) =>
    let endpointId := NodeId.forEndpoint method path
    { nodes :=
        [{ id := endpointId
           kind := .Endpoint
           name := method ++ " " ++ path
           filePath := host.relative rootPath (P.getFilePath call)
           range := some ⟨(P.node call).startLine, 0, (P.node call).endLine, 0⟩ }]
      edges := handler.id.toList.map (edge .HANDLES endpointId) }

set_option linter.dupNamespace false in
def extract (file : P.Ref) : Extraction :=
  .collect (P.getDescendantsOfKind file .CallExpression) (extractRoute host rootPath P)

end codespine.extract.EndpointExtractor
