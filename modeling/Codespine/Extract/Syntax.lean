import Codespine.Host
import Codespine.Lib.Forest

namespace codespine.extract

/-- The syntax kinds the extractors tell apart, under the names `getKindName`
gives them, and all others by name. -/
inductive SyntaxKind where
  | SourceFile | ImportDeclaration | ExportAssignment | HeritageClause | ExpressionWithTypeArguments
  | VariableStatement | VariableDeclaration | FunctionDeclaration | ClassDeclaration | InterfaceDeclaration
  | TypeAliasDeclaration | EnumDeclaration
  | MethodDeclaration | MethodSignature | PropertyDeclaration | PropertySignature | Parameter
  | Identifier | StringLiteral | NoSubstitutionTemplateLiteral | ArrowFunction | FunctionExpression
  | PropertyAccessExpression | ElementAccessExpression | QualifiedName | CallExpression | NewExpression
  | PropertyAssignment | ShorthandPropertyAssignment | BinaryExpression | PrefixUnaryExpression
  | PostfixUnaryExpression | BindingElement | TypeReference
  | EqualsToken | PlusEqualsToken | MinusEqualsToken | AsteriskEqualsToken | AsteriskAsteriskEqualsToken
  | SlashEqualsToken | PercentEqualsToken | LessThanLessThanEqualsToken | GreaterThanGreaterThanEqualsToken
  | GreaterThanGreaterThanGreaterThanEqualsToken | AmpersandEqualsToken | BarEqualsToken | CaretEqualsToken
  | AmpersandAmpersandEqualsToken | BarBarEqualsToken | QuestionQuestionEqualsToken
  | PlusPlusToken | MinusMinusToken
  | other (kindName : String)
deriving DecidableEq

/-- `getKindName()`. -/
def SyntaxKind.kindName : SyntaxKind → String
  | .SourceFile => "SourceFile"
  | .ImportDeclaration => "ImportDeclaration"
  | .ExportAssignment => "ExportAssignment"
  | .HeritageClause => "HeritageClause"
  | .ExpressionWithTypeArguments => "ExpressionWithTypeArguments"
  | .VariableStatement => "VariableStatement"
  | .VariableDeclaration => "VariableDeclaration"
  | .FunctionDeclaration => "FunctionDeclaration"
  | .ClassDeclaration => "ClassDeclaration"
  | .InterfaceDeclaration => "InterfaceDeclaration"
  | .TypeAliasDeclaration => "TypeAliasDeclaration"
  | .EnumDeclaration => "EnumDeclaration"
  | .MethodDeclaration => "MethodDeclaration"
  | .MethodSignature => "MethodSignature"
  | .PropertyDeclaration => "PropertyDeclaration"
  | .PropertySignature => "PropertySignature"
  | .Parameter => "Parameter"
  | .Identifier => "Identifier"
  | .StringLiteral => "StringLiteral"
  | .NoSubstitutionTemplateLiteral => "NoSubstitutionTemplateLiteral"
  | .ArrowFunction => "ArrowFunction"
  | .FunctionExpression => "FunctionExpression"
  | .PropertyAccessExpression => "PropertyAccessExpression"
  | .ElementAccessExpression => "ElementAccessExpression"
  | .QualifiedName => "QualifiedName"
  | .CallExpression => "CallExpression"
  | .NewExpression => "NewExpression"
  | .PropertyAssignment => "PropertyAssignment"
  | .ShorthandPropertyAssignment => "ShorthandPropertyAssignment"
  | .BinaryExpression => "BinaryExpression"
  | .PrefixUnaryExpression => "PrefixUnaryExpression"
  | .PostfixUnaryExpression => "PostfixUnaryExpression"
  | .BindingElement => "BindingElement"
  | .TypeReference => "TypeReference"
  | .EqualsToken => "EqualsToken"
  | .PlusEqualsToken => "PlusEqualsToken"
  | .MinusEqualsToken => "MinusEqualsToken"
  | .AsteriskEqualsToken => "AsteriskEqualsToken"
  | .AsteriskAsteriskEqualsToken => "AsteriskAsteriskEqualsToken"
  | .SlashEqualsToken => "SlashEqualsToken"
  | .PercentEqualsToken => "PercentEqualsToken"
  | .LessThanLessThanEqualsToken => "LessThanLessThanEqualsToken"
  | .GreaterThanGreaterThanEqualsToken => "GreaterThanGreaterThanEqualsToken"
  | .GreaterThanGreaterThanGreaterThanEqualsToken => "GreaterThanGreaterThanGreaterThanEqualsToken"
  | .AmpersandEqualsToken => "AmpersandEqualsToken"
  | .BarEqualsToken => "BarEqualsToken"
  | .CaretEqualsToken => "CaretEqualsToken"
  | .AmpersandAmpersandEqualsToken => "AmpersandAmpersandEqualsToken"
  | .BarBarEqualsToken => "BarBarEqualsToken"
  | .QuestionQuestionEqualsToken => "QuestionQuestionEqualsToken"
  | .PlusPlusToken => "PlusPlusToken"
  | .MinusMinusToken => "MinusMinusToken"
  | .other kindName => kindName

/-- The property of its parent that a node is held by. `value` stands for any
other property that holds an expression, `other` for any that does not. -/
inductive Role where
  | name | expression | argument | left | right | operand | initializer | value
  | type | typeName | extendsClause | implementsClause | other
deriving DecidableEq

/-- A syntax node: its place in the tree and what its own accessors answer. -/
structure AstNode (count : ℕ) where
  kind : SyntaxKind
  parent : Option (Fin count) := none
  role : Role := .other
  /-- What `getName()` answers, where there is one. -/
  name : Option String := none
  /-- The text of an identifier, the value of a literal, the module specifier
  of an import, the path of a source file. -/
  text : String := ""
  operator : Option SyntaxKind := none
  startLine : ℕ := 1
  endLine : ℕ := 1
  isExported : Bool := false
  jsDocs : List String := []
  isDeclarationFile : Bool := false

/-- A parsed project: the trees of its source files, numbered in document
order, and what the type checker answers about their nodes. -/
structure Project where
  count : ℕ
  node : Fin count → AstNode count
  parent_lt : ∀ x p, (node x).parent = some p → p < x
  sourceFile_iff_root : ∀ x, (node x).kind = .SourceFile ↔ (node x).parent = none
  /-- The first declaration of a node's symbol, aliases followed. -/
  resolve : Fin count → Option (Fin count)
  getBaseClass : Fin count → Option (Fin count)
  getBaseDeclarations : Fin count → List (Fin count)
  /-- The source file an import leads to. -/
  getModuleSpecifierSourceFile : Fin count → Option (Fin count)

namespace Project

variable (P : Project)

/-- A syntax node of the project. -/
abbrev Ref := Fin P.count

def forest : Forest P.count := ⟨fun x => (P.node x).parent, P.parent_lt⟩

def kind (x : P.Ref) : SyntaxKind := (P.node x).kind

def getParent (x : P.Ref) : Option P.Ref := (P.node x).parent

def parentKind (x : P.Ref) : Option SyntaxKind := (P.getParent x).map P.kind

def getFirstAncestor (p : P.Ref → Bool) (x : P.Ref) : Option P.Ref := (P.forest.ancestors x).find? p

def getSourceFile (x : P.Ref) : P.Ref := P.forest.root x

/-- The path of the file a node is in. -/
def getFilePath (x : P.Ref) : String := (P.node (P.getSourceFile x)).text

def getDescendantsOfKind (x : P.Ref) (kind : SyntaxKind) : List P.Ref :=
  (P.forest.descendants x).filter fun y => P.kind y = kind

def childrenOfKind (x : P.Ref) (kind : SyntaxKind) : List P.Ref :=
  (P.forest.children x).filter fun y => P.kind y = kind

/-- The child held by a property, for a property that holds at most one. -/
def childAt (x : P.Ref) (role : Role) : Option P.Ref := (P.forest.children x).find? fun y => (P.node y).role = role

/-- The children held by a property, for a property that holds a list. -/
def childrenAt (x : P.Ref) (role : Role) : List P.Ref := (P.forest.children x).filter fun y => (P.node y).role = role

/-- `parent.getNameNode() === x`, and likewise for the other properties. -/
def isHeldAt (x parent : P.Ref) (role : Role) : Bool := P.getParent x = some parent ∧ (P.node x).role = role

/-- The statement that declares a variable, where the variable is declared by
one. -/
def getVariableStatement (x : P.Ref) : Option P.Ref :=
  ((P.getParent x).bind P.getParent).filter fun statement => P.kind statement = .VariableStatement

def getSourceFiles : List P.Ref := (List.finRange P.count).filter fun x => P.kind x = .SourceFile

/-- The module-level variables of a file. -/
def getVariableDeclarations (file : P.Ref) : List P.Ref :=
  (P.getDescendantsOfKind file .VariableDeclaration).filter fun x =>
    (P.getVariableStatement x).bind P.getParent = some file

/-- The methods a class or interface declares, by the kind they have there. -/
def getMethods (x : P.Ref) : List P.Ref :=
  P.childrenOfKind x (if P.kind x = .InterfaceDeclaration then .MethodSignature else .MethodDeclaration)

def getProperties (x : P.Ref) : List P.Ref :=
  P.childrenOfKind x (if P.kind x = .InterfaceDeclaration then .PropertySignature else .PropertyDeclaration)

def getMethod (x : P.Ref) (name : Option String) : Option P.Ref :=
  (P.getMethods x).find? fun method => (P.node method).name = name

def getParameters (x : P.Ref) : List P.Ref := P.childrenOfKind x .Parameter

/-- The expressions of a class's `implements` clauses. -/
def getImplements (x : P.Ref) : List P.Ref :=
  (((P.childrenAt x .implementsClause).filter fun clause => P.kind clause = .HeritageClause).flatMap fun clause =>
    P.childrenOfKind clause .ExpressionWithTypeArguments).filterMap fun impl => P.childAt impl .expression

end Project

/-- `text.includes(part)`. -/
def includes (text part : String) : Bool := part.toList <:+: text.toList

/-- The text before an arrow is known by the whole text, when it has none. -/
theorem eq_of_append_arrow {a b c d : List Char} (ha : ¬ ['-', '>'] <:+: a) (hb : ¬ ['-', '>'] <:+: b)
    (h : a ++ '-' :: '>' :: c = b ++ '-' :: '>' :: d) : a = b ∧ c = d := by
  induction a generalizing b with
  | nil =>
    match b, h with
    | [], h => simpa using h
    | [x], h => simp at h
    | x :: y :: rest, h =>
      simp only [List.nil_append, List.cons_append, List.cons.injEq] at h
      obtain ⟨rfl, rfl, _⟩ := h
      exact absurd ⟨[], rest, rfl⟩ hb
  | cons x a ih =>
    match b, h with
    | [], h =>
      match a, h with
      | [], h => simp at h
      | y :: rest, h =>
        simp only [List.nil_append, List.cons_append, List.cons.injEq] at h
        obtain ⟨rfl, rfl, _⟩ := h
        exact absurd ⟨[], rest, rfl⟩ ha
    | y :: b, h =>
      obtain ⟨rfl, htail⟩ := List.cons.inj h
      obtain ⟨rfl, rfl⟩ := ih (fun hpart => ha (hpart.trans (List.suffix_cons x a).isInfix))
        (fun hpart => hb (hpart.trans (List.suffix_cons x b).isInfix)) htail
      exact ⟨rfl, rfl⟩

theorem eq_of_arrow_eq {a b c d : String} (ha : includes a "->" = false) (hb : includes b "->" = false)
    (h : a ++ "->" ++ c = b ++ "->" ++ d) : a = b ∧ c = d := by
  have hchars : a.toList ++ '-' :: '>' :: c.toList = b.toList ++ '-' :: '>' :: d.toList := by
    simpa [String.toList_append] using congrArg String.toList h
  obtain ⟨hbefore, hafter⟩ := eq_of_append_arrow (of_decide_eq_false ha) (of_decide_eq_false hb) hchars
  exact ⟨String.toList_injective hbefore, String.toList_injective hafter⟩

namespace Project

/-- The node is in a file of the project itself. -/
def inProject (P : Project) (x : P.Ref) : Bool :=
  includes (P.getFilePath x) "/node_modules/" = false ∧ (P.node (P.getSourceFile x)).isDeclarationFile = false

end Project

end codespine.extract
