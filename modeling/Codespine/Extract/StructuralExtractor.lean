import Codespine.Extract.Syntax

open codespine.schema

namespace codespine.extract

/-- What an extractor finds in a file. -/
structure Extraction where
  nodes : List GraphNode := []
  edges : List GraphEdge := []

instance : Append Extraction := ⟨fun a b => ⟨a.nodes ++ b.nodes, a.edges ++ b.edges⟩⟩

/-- The extractions of a loop, one round after another. -/
def Extraction.collect {α : Type} (l : List α) (f : α → Extraction) : Extraction :=
  ⟨l.flatMap fun x => (f x).nodes, l.flatMap fun x => (f x).edges⟩

namespace Extraction

theorem append_assoc (a b c : Extraction) : a ++ b ++ c = a ++ (b ++ c) :=
  congrArg₂ Extraction.mk (List.append_assoc _ _ _) (List.append_assoc _ _ _)

theorem collect_append {α : Type} (l m : List α) (f : α → Extraction) :
    collect (l ++ m) f = collect l f ++ collect m f :=
  congrArg₂ Extraction.mk List.flatMap_append List.flatMap_append

theorem collect_cons {α : Type} (x : α) (l : List α) (f : α → Extraction) :
    collect (x :: l) f = f x ++ collect l f := rfl

theorem collect_map {α β : Type} (l : List α) (g : α → β) (f : β → Extraction) :
    collect (l.map g) f = collect l fun x => f (g x) :=
  congrArg₂ Extraction.mk (List.flatMap_map g _ l) (List.flatMap_map g _ l)

theorem collect_flatMap {α β : Type} (l : List α) (g : α → List β) (f : β → Extraction) :
    collect (l.flatMap g) f = collect l fun x => collect (g x) f :=
  congrArg₂ Extraction.mk List.flatMap_assoc List.flatMap_assoc

end Extraction

@[simp] theorem Extraction.nodes_append (a b : Extraction) : (a ++ b).nodes = a.nodes ++ b.nodes := rfl

@[simp] theorem Extraction.edges_append (a b : Extraction) : (a ++ b).edges = a.edges ++ b.edges := rfl

@[simp] theorem Extraction.nodes_collect {α : Type} (l : List α) (f : α → Extraction) :
    (Extraction.collect l f).nodes = l.flatMap fun x => (f x).nodes := rfl

@[simp] theorem Extraction.edges_collect {α : Type} (l : List α) (f : α → Extraction) :
    (Extraction.collect l f).edges = l.flatMap fun x => (f x).edges := rfl

/-- The id of a relationship. -/
def edgeId (kind : EdgeKind) (source target : String) : String :=
  kind.text ++ ":" ++ source ++ "->" ++ target

def edge (kind : EdgeKind) (source target : String) (metadata : Option Metadata := none) : GraphEdge where
  id := edgeId kind source target
  kind
  source
  target
  metadata

namespace NodeId

variable (host : Host) (rootPath : String)

def forModule (filePath : String) : String := "Module:" ++ host.relative rootPath filePath

def nameOf (name : Option String) : String :=
  match name with
  | none => "anonymous"
  | some name => if name = "" then "anonymous" else name

def forDeclaration (P : Project) (x : P.Ref) : String :=
  (P.kind x).kindName ++ ":" ++ host.relative rootPath (P.getFilePath x) ++ "#" ++ nameOf (P.node x).name ++ "@" ++
    toString (P.node x).startLine

def forExternalModule (specifier : String) : String := "External:" ++ specifier

def forConfigFlag (name : String) : String := "Config:" ++ name

def forExternalApi (apiHost : String) : String := "Api:" ++ apiHost

def forEndpoint (method path : String) : String := "Endpoint:" ++ method ++ " " ++ path

end NodeId

namespace StructuralExtractor

def MAX_DOCUMENTATION_LENGTH : ℕ := 400

/-- What `\s` matches and `trim` removes. -/
def isSpace (c : Char) : Bool :=
  c.toNat ∈ [0x9, 0xa, 0xb, 0xc, 0xd, 0x20, 0xa0, 0x1680, 0x2028, 0x2029, 0x202f, 0x205f, 0x3000, 0xfeff] ∨
    (0x2000 ≤ c.toNat ∧ c.toNat ≤ 0x200a)

def trimEnd (text : List Char) : List Char := (text.reverse.dropWhile isSpace).reverse

def trim (text : List Char) : List Char := trimEnd (text.dropWhile isSpace)

/-- `split(/\n\s*\n/)[0]`. -/
def firstParagraph : List Char → List Char
  | [] => []
  | c :: rest => if c = '\n' ∧ '\n' ∈ rest.takeWhile isSpace then [] else c :: firstParagraph rest

/-- `replace(/\s+/g, ' ')`. -/
def collapseSpaces : List Char → List Char
  | [] => []
  | c :: rest =>
    if isSpace c then if (rest.head?.map isSpace).getD false then collapseSpaces rest else ' ' :: collapseSpaces rest
    else c :: collapseSpaces rest

/-- The display text of a link tag's body, or its first word. -/
def linkText (target : List Char) : List Char :=
  if '|' ∈ target then trim ((target.splitOn '|').getLast?.getD [])
  else (trim target).takeWhile fun c => !isSpace c

/-- The body of a link tag that the text starts with, and what follows it. -/
def linkTag (text : List Char) : Option (List Char × List Char) := do
  let rest ← ["\x7b@link ".toList, "\x7b@linkcode ".toList, "\x7b@linkplain ".toList].findSome? fun opening =>
    if opening.isPrefixOf text then some (text.drop opening.length) else none
  let body := rest.takeWhile fun c => c ≠ '\x7d'
  if body = [] ∨ body.length = rest.length then none else some (body, rest.drop (body.length + 1))

/-- Replaces each link tag by its text; in a text whose spaces are collapsed a
tag has one space after its name. -/
def replaceLinks : ℕ → List Char → List Char
  | 0, text => text
  | _, [] => []
  | fuel + 1, c :: rest =>
    match linkTag (c :: rest) with
    | some (body, rest) => linkText body ++ replaceLinks fuel rest
    | none => c :: replaceLinks fuel rest

/-- The length of a text in UTF-16 code units. -/
def utf16Length (text : List Char) : ℕ := (text.map fun c => if c.toNat < 0x10000 then 1 else 2).sum

/-- The longest beginning of a text within a number of UTF-16 code units. -/
def utf16Take : ℕ → List Char → List Char
  | _, [] => []
  | limit, c :: rest =>
    if limit < utf16Length [c] then [] else c :: utf16Take (limit - utf16Length [c]) rest

/-- The leading summary of a doc comment. -/
def summaryOf (description : String) : Option String :=
  let description := trim description.toList
  if description = [] then none
  else
    let flat := collapseSpaces (firstParagraph description)
    let summary := trim (replaceLinks flat.length flat)
    if summary = [] then none
    else if utf16Length summary ≤ MAX_DOCUMENTATION_LENGTH then some (String.ofList summary)
    else some (String.ofList (trimEnd (utf16Take (MAX_DOCUMENTATION_LENGTH - 1) summary)) ++ "…")

variable (host : Host) (rootPath : String) (P : Project)

/-- A variable's doc comment sits on its statement. -/
def jsDocsOf (x : P.Ref) : List String :=
  if P.kind x = .VariableDeclaration then ((P.getVariableStatement x).map fun s => (P.node s).jsDocs).getD []
  else (P.node x).jsDocs

def documentationOf (x : P.Ref) : Option String := (jsDocsOf P x).getLast?.bind summaryOf

/-- The record of a declaration. -/
def graphNodeOf (x : P.Ref) (kind : NodeKind) : GraphNode where
  id := NodeId.forDeclaration host rootPath P x
  kind
  name := NodeId.nameOf (P.node x).name
  filePath := host.relative rootPath (P.getFilePath x)
  range := some ⟨(P.node x).startLine, 0, (P.node x).endLine, 0⟩
  exported := some (P.node x).isExported
  metadata := (documentationOf P x).map fun documentation => OrderedMap.ofList [("documentation", .str documentation)]

/-- A declaration, contained in its parent and exported by its module. -/
def push (moduleId parentId : String) (kind : NodeKind) (x : P.Ref) : Extraction where
  nodes := [graphNodeOf host rootPath P x kind]
  edges := edge .CONTAINS parentId (NodeId.forDeclaration host rootPath P x) ::
    if (P.node x).isExported then [edge .EXPORTS moduleId (NodeId.forDeclaration host rootPath P x)] else []

def extractParameters (moduleId : String) (owner : P.Ref) : Extraction :=
  .collect (P.getParameters owner)
    (push host rootPath P moduleId (NodeId.forDeclaration host rootPath P owner) .Parameter)

/-- A class or interface with its methods, their parameters and its
properties. -/
def extractMembers (moduleId : String) (kind : NodeKind) (x : P.Ref) : Extraction :=
  let id := NodeId.forDeclaration host rootPath P x
  push host rootPath P moduleId moduleId kind x ++
    .collect (P.getMethods x) (fun method =>
      push host rootPath P moduleId id .Method method ++ extractParameters host rootPath P moduleId method) ++
    .collect (P.getProperties x) (push host rootPath P moduleId id .Property)

def extractClass (moduleId : String) : P.Ref → Extraction := extractMembers host rootPath P moduleId .Class

def extractInterface (moduleId : String) : P.Ref → Extraction := extractMembers host rootPath P moduleId .Interface

/-- An import of a project file, or of an external module. -/
def extractImport (moduleId : String) (declaration : P.Ref) : Extraction :=
  let specifier := (P.node declaration).text
  let metadata : Metadata := OrderedMap.ofList [("specifier", .str specifier)]
  let external : Extraction :=
    { nodes := [{ id := NodeId.forExternalModule specifier, kind := .ExternalModule, name := specifier,
                  filePath := specifier }]
      edges := [edge .IMPORTS moduleId (NodeId.forExternalModule specifier) (some metadata)] }
  match P.getModuleSpecifierSourceFile declaration with
  | some target =>
    if P.inProject target then
      { edges := [edge .IMPORTS moduleId (NodeId.forModule host rootPath (P.getFilePath target)) (some metadata)] }
    else external
  | none => external

def extractFunction (moduleId : String) (x : P.Ref) : Extraction :=
  push host rootPath P moduleId moduleId .Function x ++ extractParameters host rootPath P moduleId x

set_option linter.dupNamespace false in
def extract (file : P.Ref) : Extraction :=
  let filePath := host.relative rootPath (P.getFilePath file)
  let moduleId := NodeId.forModule host rootPath (P.getFilePath file)
  { nodes := [{ id := moduleId, kind := .Module, name := filePath, filePath }] } ++
    .collect (P.childrenOfKind file .ImportDeclaration) (extractImport host rootPath P moduleId) ++
    .collect (P.childrenOfKind file .ClassDeclaration) (extractClass host rootPath P moduleId) ++
    .collect (P.childrenOfKind file .InterfaceDeclaration) (extractInterface host rootPath P moduleId) ++
    .collect (P.childrenOfKind file .TypeAliasDeclaration) (push host rootPath P moduleId moduleId .TypeAlias) ++
    .collect (P.childrenOfKind file .EnumDeclaration) (push host rootPath P moduleId moduleId .Enum) ++
    .collect (P.childrenOfKind file .FunctionDeclaration) (extractFunction host rootPath P moduleId) ++
    .collect (P.getVariableDeclarations file) (push host rootPath P moduleId moduleId .Variable)

end StructuralExtractor

end codespine.extract
