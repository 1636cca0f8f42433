import Codespine.Extract.GraphBuilder.Nodes
import Codespine.Query.DeadExports

open codespine.schema codespine.store codespine.extract

namespace codespine.query

section Syntax

variable (P : Project)

/-- The identifier stands where a value is taken: not where a declaration, a
property, a type or an import or export names something, and not where a value
is merely assigned to, which is no use of it. -/
def isValuePosition (x : P.Ref) : Bool :=
  match P.getParent x with
  | none => false
  | some parent =>
    match (P.node x).role with
    | .argument | .operand | .initializer | .value => true
    | .right => P.kind parent = .BinaryExpression
    | .left => P.kind parent = .BinaryExpression ∧ (P.node parent).operator ≠ some .EqualsToken
    | .name => P.kind parent = .PropertyAccessExpression ∨ P.kind parent = .ShorthandPropertyAssignment
    | .expression =>
      match P.kind parent, P.getParent parent with
      | .ExportAssignment, _ => false
      | .ExpressionWithTypeArguments, some clause =>
        (P.node clause).role = .extendsClause ∧ P.parentKind clause ≠ some .InterfaceDeclaration
      | _, _ => true
    | _ => false

/-- A value identifier of the project, outside `d`, that resolves to `d`. -/
def IsValueUse (x d : P.Ref) : Prop :=
  P.getSourceFile x ∈ GraphBuilder.projectFiles P ∧ P.kind x = .Identifier ∧ isValuePosition P x = true ∧
    P.resolve x = some d ∧ d ∉ P.forest.ancestors x

/-- An exported module-level variable, function, class or enum of the
project. -/
def IsExportedValue (d : P.Ref) : Prop :=
  ∃ file ∈ GraphBuilder.projectFiles P, IsTopLevel P file d ∧ P.kind d ∈ SemanticExtractor.VALUE_DECL_KINDS ∧
    (P.node d).isExported = true

end Syntax

namespace GraphQuery

open GraphBuilder

variable (host : Host) (rootPath : String) (P : Project)

/-- The database that a semantic extraction of the project is loaded into. -/
def extractedStore : KuzuStore := loadProject host rootPath P { semantic := true }

/-- No other relationship was merged first under the id text of this one. -/
def FirstUnderId (kind : EdgeKind) (s t : String) : Prop :=
  ∀ e, ((pushedEdges host rootPath P { semantic := true }).find? fun e => e.id = edgeId kind s t) = some e →
    KuzuStore.keyOf e = ⟨s, t, kind⟩

/-- A relationship that survives merging and loading. -/
def IsKept (kind : EdgeKind) (s t : String) : Prop :=
  IsNode host rootPath P s ∧ IsNode host rootPath P t ∧ FirstUnderId host rootPath P kind s t

/-- Some use of the declaration, or of a member it contains, is recorded and
survives. -/
def IsCounted (d : P.Ref) : Prop :=
  ∃ kind s t, Reference host rootPath P kind s t ∧ IsKept host rootPath P kind s t ∧
    (t = NodeId.forDeclaration host rootPath P d ∨
      Contains host rootPath P (NodeId.forDeclaration host rootPath P d) t ∧
        IsKept host rootPath P .CONTAINS (NodeId.forDeclaration host rootPath P d) t)

/-- The declaration last emitted under the id of this one is not exported, or is
in an entry point. -/
def IsReplaced (d : P.Ref) : Prop :=
  ∃ e, (emittedAs host rootPath P (NodeId.forDeclaration host rootPath P d)).getLast? = some e ∧
    ((P.node e.declaration).isExported = false ∨
      DeadExportsAllowlist.isFrameworkEntryPoint (host.relative rootPath (P.getFilePath e.declaration)) = true)

variable {host rootPath P}

/-- No relationship is lost under the id text of another as long as no path or
name puts an arrow in the id of a source. -/
theorem firstUnderId_of_noArrow {kind : EdgeKind} {s t : String} (hs : includes s "->" = false)
    (hsources : ∀ e ∈ pushedEdges host rootPath P { semantic := true }, includes e.source "->" = false) :
    FirstUnderId host rootPath P kind s t := by
  intro e hfind
  have hmem := List.mem_of_find?_eq_some hfind
  have hfound := List.find?_some hfind
  have hid : edgeId e.kind e.source e.target = edgeId kind s t :=
    (id_of_mem_pushedEdges host rootPath P hmem).symm.trans (of_decide_eq_true hfound)
  obtain ⟨rfl, rfl, rfl⟩ := edgeId_injective (hsources e hmem) hs hid
  rfl

/-- The database has a relationship exactly when it was merged and is kept. -/
theorem mem_edges_extractedStore {kind : EdgeKind} {s t : String} :
    ⟨s, t, kind⟩ ∈ (extractedStore host rootPath P).edges.keys ↔
      (∃ e ∈ pushedEdges host rootPath P { semantic := true }, KuzuStore.keyOf e = ⟨s, t, kind⟩) ∧
        IsKept host rootPath P kind s t := by
  rw [extractedStore, mem_loadProject_edges, isNode_iff, isNode_iff]
  constructor
  · rintro ⟨⟨id, hfirst⟩, hs, ht⟩
    obtain ⟨e, hfind, hkey⟩ := Option.map_eq_some_iff.mp hfirst
    have hmem := List.mem_of_find?_eq_some hfind
    have hfound := List.find?_some hfind
    have hid : e.id = id := of_decide_eq_true hfound
    have hcanonical := id_of_mem_pushedEdges host rootPath P hmem
    obtain ⟨rfl, rfl, rfl⟩ : e.source = s ∧ e.target = t ∧ e.kind = kind := EdgeKey.mk.inj hkey
    refine ⟨⟨e, hmem, hkey⟩, hs, ht, fun e' hfind' => ?_⟩
    rw [← hcanonical, hid, hfind] at hfind'
    exact Option.some.inj hfind' ▸ hkey
  · rintro ⟨⟨e, hmem, hkey⟩, hs, ht, hfirst⟩
    refine ⟨⟨edgeId kind s t, ?_⟩, hs, ht⟩
    have hcanonical := id_of_mem_pushedEdges host rootPath P hmem
    obtain ⟨rfl, rfl, rfl⟩ : e.source = s ∧ e.target = t ∧ e.kind = kind := EdgeKey.mk.inj hkey
    cases hfind : (pushedEdges host rootPath P { semantic := true }).find? fun e' =>
        e'.id = edgeId e.kind e.source e.target with
    | none => exact absurd hcanonical (by simpa using List.find?_eq_none.mp hfind e hmem)
    | some first => exact congrArg some (hfirst first hfind)

theorem selfRefs_extractedStore {t : String} : selfRefs (extractedStore host rootPath P) t ≠ 0 ↔
    ∃ kind s, Reference host rootPath P kind s t ∧ IsKept host rootPath P kind s t := by
  simp only [selfRefs_ne_zero_iff, mem_edges_extractedStore]
  constructor
  · rintro ⟨kind, hkind, s, hedge, hkept⟩
    exact ⟨kind, s, (exists_reference_iff host rootPath P hkind).mp hedge, hkept⟩
  · rintro ⟨kind, s, href, hkept⟩
    exact ⟨kind, href.kind_mem, s, (exists_reference_iff host rootPath P href.kind_mem).mpr href, hkept⟩

/-- The two counts of the query are both zero exactly when no use counts. -/
theorem isCounted_iff {d : P.Ref} : IsCounted host rootPath P d ↔
    selfRefs (extractedStore host rootPath P) (NodeId.forDeclaration host rootPath P d) ≠ 0 ∨
      memberRefs (extractedStore host rootPath P) (NodeId.forDeclaration host rootPath P d) ≠ 0 := by
  simp only [memberRefs_ne_zero_iff, selfRefs_extractedStore, mem_edges_extractedStore, exists_contains_iff]
  constructor
  · rintro ⟨kind, s, t, href, hkept, rfl | hcontained⟩
    · exact Or.inl ⟨kind, s, href, hkept⟩
    · exact Or.inr ⟨t, hcontained, kind, s, href, hkept⟩
  · rintro (⟨kind, s, href, hkept⟩ | ⟨t, hcontained, kind, s, href, hkept⟩)
    · exact ⟨kind, s, _, href, hkept, Or.inl rfl⟩
    · exact ⟨kind, s, t, href, hkept, Or.inr hcontained⟩

/-- The row of an exported value is the record last emitted under its id. -/
theorem get_extractedStore (host : Host) (rootPath : String) {d : P.Ref} (hd : IsExportedValue P d) :
    ∃ e, (emittedAs host rootPath P (NodeId.forDeclaration host rootPath P d)).getLast? = some e ∧
      (extractedStore host rootPath P).nodes.get (NodeId.forDeclaration host rootPath P d) =
        some (KuzuStore.rowOf (StructuralExtractor.graphNodeOf host rootPath P e.declaration e.kind)) := by
  obtain ⟨file, hfile, htop, hkind, -⟩ := hd
  obtain ⟨em, hem, -, rfl⟩ := StructuralExtractor.exists_emission_iff.mpr (.topLevel htop)
  have hemitted : em ∈ emittedAs host rootPath P (NodeId.forDeclaration host rootPath P em.declaration) :=
    List.mem_filter.mpr ⟨List.mem_flatMap.mpr ⟨file, hfile, hem⟩, decide_eq_true rfl⟩
  have hlast := List.getLast?_eq_getLast_of_ne_nil (List.ne_nil_of_mem hemitted)
  have hdeclared : SemanticExtractor.VALUE_DECL_KINDS ⊆ DECLARED_KINDS := by decide
  have hstart := start_forDeclaration host rootPath P (hdeclared hkind)
  refine ⟨_, hlast, ?_⟩
  rw [extractedStore, get_loadProject, filter_pushedNodes host rootPath P hstart,
    List.getLast?_map, hlast]
  rfl

/-- An exported value is reported when it has not been replaced and no use of it
counts. -/
theorem reported_iff (host : Host) (rootPath : String) {d : P.Ref} (hd : IsExportedValue P d) :
    (∃ ref ∈ deadExports (extractedStore host rootPath P), ref.id = NodeId.forDeclaration host rootPath P d) ↔
      ¬ IsReplaced host rootPath P d ∧ ¬ IsCounted host rootPath P d := by
  obtain ⟨e, hlast, hget⟩ := get_extractedStore host rootPath hd
  have hreplaced : IsReplaced host rootPath P d ↔ (P.node e.declaration).isExported = false ∨
      DeadExportsAllowlist.isFrameworkEntryPoint (host.relative rootPath (P.getFilePath e.declaration)) = true := by
    unfold IsReplaced
    rw [hlast]
    simp only [Option.some.injEq, exists_eq_left']
  rw [hreplaced, isCounted_iff]
  simp only [mem_deadExports, not_or, Bool.not_eq_false, Bool.not_eq_true, not_not]
  constructor
  · rintro ⟨_, ⟨entry, hentry, rfl, hexported, hself, hmember, hallowed⟩, hid⟩
    obtain ⟨id, row⟩ := entry
    obtain rfl : id = NodeId.forDeclaration host rootPath P d := hid
    rw [OrderedMap.get_eq_some_iff.mpr hentry, Option.some.injEq] at hget
    subst hget
    exact ⟨⟨hexported, hallowed⟩, hself, hmember⟩
  · rintro ⟨⟨hexported, hallowed⟩, hself, hmember⟩
    exact ⟨_, ⟨_, OrderedMap.get_eq_some_iff.mp hget, rfl, hexported, hself, hmember, hallowed⟩, rfl⟩

/-- No used export is reported exactly when each has a use that counts, or was
replaced. -/
theorem deadExports_sound_iff (host : Host) (rootPath : String) (P : Project) :
    (∀ d x, IsExportedValue P d → IsValueUse P x d →
      DeadExportsAllowlist.isFrameworkEntryPoint (host.relative rootPath (P.getFilePath d)) = false →
      ∀ ref ∈ deadExports (extractedStore host rootPath P), ref.id ≠ NodeId.forDeclaration host rootPath P d) ↔
    ∀ d x, IsExportedValue P d → IsValueUse P x d →
      DeadExportsAllowlist.isFrameworkEntryPoint (host.relative rootPath (P.getFilePath d)) = false →
      IsReplaced host rootPath P d ∨ IsCounted host rootPath P d := by
  refine forall₂_congr fun d x => forall_congr' fun hd => forall₂_congr fun _ _ => ?_
  have hreported := not_congr (reported_iff host rootPath hd)
  rw [not_and_or, not_not, not_not] at hreported
  simpa only [not_exists, not_and] using hreported

/-- `limits.ts` is `export const LIMIT = 3;`, and `main.ts` is
`import { LIMIT } from './limits'; console.log(LIMIT);`. -/
def topLevelRead : Project where
  count := 19
  node := ![
    { kind := .SourceFile, text := "/p/limits.ts" },
    { kind := .VariableStatement, parent := some 0 },
    { kind := .other "VariableDeclarationList", parent := some 1 },
    { kind := .VariableDeclaration, parent := some 2, name := some "LIMIT", isExported := true },
    { kind := .Identifier, parent := some 3, role := .name, text := "LIMIT" },
    { kind := .other "NumericLiteral", parent := some 3, role := .initializer },
    { kind := .SourceFile, text := "/p/main.ts" },
    { kind := .ImportDeclaration, parent := some 6, text := "./limits" },
    { kind := .other "ImportClause", parent := some 7 },
    { kind := .other "NamedImports", parent := some 8 },
    { kind := .other "ImportSpecifier", parent := some 9, name := some "LIMIT" },
    { kind := .Identifier, parent := some 10, role := .name, text := "LIMIT" },
    { kind := .StringLiteral, parent := some 7, text := "./limits" },
    { kind := .other "ExpressionStatement", parent := some 6, startLine := 2, endLine := 2 },
    { kind := .CallExpression, parent := some 13, role := .expression, startLine := 2, endLine := 2 },
    { kind := .PropertyAccessExpression, parent := some 14, role := .expression, name := some "log" },
    { kind := .Identifier, parent := some 15, role := .expression, text := "console" },
    { kind := .Identifier, parent := some 15, role := .name, text := "log" },
    { kind := .Identifier, parent := some 14, role := .argument, text := "LIMIT", startLine := 2, endLine := 2 }]
  parent_lt := by decide
  sourceFile_iff_root := by decide
  resolve x := if x = 4 ∨ x = 11 ∨ x = 18 then some 3 else none
  getBaseClass _ := none
  getBaseDeclarations _ := []
  getModuleSpecifierSourceFile x := if x = 7 then some 0 else none

/-- The read of the constant is at module level, so the constant is reported. -/
theorem deadExports_reports_topLevelRead :
    ¬ ∀ d x, IsExportedValue topLevelRead d → IsValueUse topLevelRead x d →
      DeadExportsAllowlist.isFrameworkEntryPoint ((posixHost []).relative "/p" (topLevelRead.getFilePath d)) = false →
      ∀ ref ∈ deadExports (extractedStore (posixHost []) "/p" topLevelRead),
        ref.id ≠ NodeId.forDeclaration (posixHost []) "/p" topLevelRead d := by
  intro hsound
  let file : topLevelRead.Ref := ⟨0, by decide⟩
  let constant : topLevelRead.Ref := ⟨3, by decide⟩
  let argument : topLevelRead.Ref := ⟨18, by decide⟩
  have hd : IsExportedValue topLevelRead constant :=
    ⟨file, by decide +kernel, .variable (by decide +kernel), by decide +kernel, rfl⟩
  have hx : IsValueUse topLevelRead argument constant :=
    ⟨by decide +kernel, rfl, by decide +kernel, rfl, by decide +kernel⟩
  have hreported : (deadExports (extractedStore (posixHost []) "/p" topLevelRead)).map SymbolRef.id =
      [NodeId.forDeclaration (posixHost []) "/p" topLevelRead constant] := by decide +kernel
  obtain ⟨ref, href, hid⟩ := List.mem_map.mp (hreported ▸ List.mem_singleton_self _)
  exact hsound _ _ hd hx (by decide +kernel) ref href hid

end GraphQuery

end codespine.query
