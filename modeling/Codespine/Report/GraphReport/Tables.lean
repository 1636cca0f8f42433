import Codespine.Report.GraphReport

open codespine.schema codespine.store escaping

namespace codespine.report.GraphReport

/-- The line is one line of a text. -/
def IsSingleLine (text : String) : Prop := ∀ c ∈ text.toList, c ≠ '\n' ∧ c ≠ '\r'

/-- The pieces of a line between the pipes that no backslash escapes. -/
def pieces (text : String) : List (List Char) := split '\\' '|' false text.toList

/-- Every row is a line with as many cells as the headers have. -/
def WellFormed (table : Table) : Prop :=
  ∀ row ∈ body table, IsSingleLine row ∧ (pieces row).length = (pieces (head table)).length

/-- A text that a cell holds: no line breaks, and no pipe with a backslash before
it that escapes it. -/
def KeepsRow (text : String) : Prop := IsSingleLine text ∧ covered '\\' '|' false text.toList = 0

/-- A text that a cell holds when it is escaped already: a pipe must have such a
backslash before it. -/
def KeepsLabel (text : String) : Prop := IsSingleLine text ∧ bare '\\' '|' false text.toList = 0

/-- A text without pipes, backslashes and line breaks. -/
def IsPlain (text : String) : Prop := ∀ c ∈ text.toList, c ≠ '|' ∧ c ≠ '\\' ∧ c ≠ '\n' ∧ c ≠ '\r'

/-- The numbers of the runtime are shown without such characters. -/
structure PlainNumbers (host : ReportHost) : Prop where
  showNumber : ∀ value, IsPlain (host.showNumber value)
  toFixed : ∀ value digits, IsPlain (host.toFixed value digits)

/-- A symbol whose name and location a cell holds. -/
structure KeepsSymbol (provenance : Option SourceManifest) (symbol : ReportSymbol) : Prop where
  name : KeepsRow symbol.name
  filePath : KeepsRow symbol.filePath
  link : ∀ manifest ∈ provenance, KeepsRow manifest.baseUrl ∧ KeepsRow manifest.commit ∧
    KeepsRow (manifest.rootPrefix ++ symbol.filePath)

/-- The symbols that the tables show. -/
def shownSymbols (data : GraphReportData) : List ReportSymbol :=
  data.hubsByCallers.map RankedSymbol.toReportSymbol ++ data.hubsByBlastRadius.map RankedSymbol.toReportSymbol ++
    (if data.enriched = false then [] else
      data.hotspots.map RankedSymbol.toReportSymbol ++ data.cost.map ReportCostNode.toReportSymbol) ++ data.deadExports

section Texts

theorem isSingleLine_append {first second : String} :
    IsSingleLine (first ++ second) ↔ IsSingleLine first ∧ IsSingleLine second := by
  rw [IsSingleLine, String.toList_append, List.forall_mem_append]
  rfl

theorem IsPlain.keepsRow {text : String} (h : IsPlain text) : KeepsRow text :=
  ⟨fun c hc => (h c hc).2.2, covered_of_notMem fun hmem => (h _ hmem).1 rfl⟩

theorem IsPlain.bare {text : String} (h : IsPlain text) : bare '\\' '|' false text.toList = 0 :=
  bare_of_notMem fun hmem => (h _ hmem).1 rfl

theorem IsPlain.append {first second : String} (hfirst : IsPlain first) (hsecond : IsPlain second) : IsPlain (first ++ second) := by
  rw [IsPlain, String.toList_append, List.forall_mem_append]
  exact ⟨hfirst, hsecond⟩

/-- Nothing is escaped after a plain text, so what follows it is read as by
itself. -/
theorem keepsRow_append_plain {middle : String} (h : IsPlain middle) (hne : middle ≠ "") (first second : String) :
    KeepsRow (first ++ middle ++ second) ↔ KeepsRow first ∧ KeepsRow second := by
  have hcovered := @covered_append_append _ _ '\\' '|' false middle.toList (fun hmem => (h _ hmem).2.1 rfl)
    (fun hmem => (h _ hmem).1 rfl) (mt String.toList_eq_nil_iff.mp hne) first.toList second.toList
  have hmiddle : IsSingleLine middle := h.keepsRow.1
  rw [KeepsRow, isSingleLine_append, isSingleLine_append, String.toList_append, String.toList_append, hcovered,
    Nat.add_eq_zero_iff, KeepsRow, KeepsRow]
  tauto

theorem keepsRow_plain_append {first : String} (h : IsPlain first) (hne : first ≠ "") (second : String) :
    KeepsRow (first ++ second) ↔ KeepsRow second := by
  have hempty : KeepsRow "" := IsPlain.keepsRow (by simp [IsPlain])
  have hiff := keepsRow_append_plain h hne "" second
  rw [String.empty_append] at hiff
  rw [hiff]
  exact and_iff_right hempty

theorem keepsRow_codeSpan {text : String} : KeepsRow (codeSpan text) ↔ KeepsRow text := by
  have htick : IsPlain "`" := by simp [IsPlain]
  rw [codeSpan, String.append_assoc, keepsRow_plain_append htick (by decide)]
  have hiff := keepsRow_append_plain htick (by decide) text ""
  rw [String.append_empty] at hiff
  rw [hiff]
  exact and_iff_left (IsPlain.keepsRow (by simp [IsPlain]))

end Texts

section Location

variable {host : ReportHost} (hnumbers : PlainNumbers host)
include hnumbers

theorem keepsRow_label (symbol : ReportSymbol) :
    KeepsRow (codeSpan (symbol.filePath ++ ":" ++ host.showNumber symbol.startLine)) ↔ KeepsRow symbol.filePath := by
  have hcolon : IsPlain ":" := by simp [IsPlain]
  rw [keepsRow_codeSpan, keepsRow_append_plain hcolon (by decide)]
  exact and_iff_left (hnumbers.showNumber _).keepsRow

theorem keepsRow_link (manifest : SourceManifest) (symbol : ReportSymbol) :
    KeepsRow (manifest.baseUrl ++ "/blob/" ++ manifest.commit ++ "/" ++ (manifest.rootPrefix ++ symbol.filePath) ++ "#L" ++
      host.showNumber symbol.startLine) ↔
      KeepsRow manifest.baseUrl ∧ KeepsRow manifest.commit ∧ KeepsRow (manifest.rootPrefix ++ symbol.filePath) := by
  have hblob : IsPlain "/blob/" := by simp [IsPlain]
  have hslash : IsPlain "/" := by simp [IsPlain]
  have hline : IsPlain "#L" := by simp [IsPlain]
  rw [keepsRow_append_plain hline (by decide), and_iff_left (hnumbers.showNumber _).keepsRow,
    keepsRow_append_plain hslash (by decide), keepsRow_append_plain hblob (by decide), and_assoc]

theorem keepsRow_location (provenance : Option SourceManifest) (symbol : ReportSymbol) :
    KeepsRow (location host provenance symbol) ↔ KeepsRow symbol.filePath ∧
      ∀ manifest ∈ provenance, KeepsRow manifest.baseUrl ∧ KeepsRow manifest.commit ∧
        KeepsRow (manifest.rootPrefix ++ symbol.filePath) := by
  cases provenance with
  | none =>
    rw [location, permalink, Option.map_none, keepsRow_label hnumbers]
    simp
  | some manifest =>
    have hopen : IsPlain "[" := by simp [IsPlain]
    have hmiddle : IsPlain "](" := by simp [IsPlain]
    have hclose : IsPlain ")" := by simp [IsPlain]
    have hend := fun text : String => keepsRow_append_plain hclose (by decide) text ""
    simp only [String.append_empty] at hend
    have hempty : KeepsRow "" := IsPlain.keepsRow (by simp [IsPlain])
    rw [location, permalink, Option.map_some]
    dsimp only
    rw [hend, and_iff_left hempty, keepsRow_append_plain hmiddle (by decide), keepsRow_plain_append hopen (by decide),
      keepsRow_label hnumbers, keepsRow_link hnumbers]
    simp

end Location

section Row

theorem isSingleLine_intercalate {separator : String} (h : IsSingleLine separator) {cells : List String} :
    IsSingleLine (separator.intercalate cells) ↔ ∀ value ∈ cells, IsSingleLine value := by
  induction cells with
  | nil => simp [IsSingleLine]
  | cons value rest ih =>
    rw [List.forall_mem_cons]
    by_cases hrest : rest = []
    · rw [hrest, String.intercalate_singleton]
      simp
    · rw [String.intercalate_cons_of_ne_nil hrest, isSingleLine_append, isSingleLine_append, ih, and_iff_left h]

theorem isSingleLine_line {cells : List String} : IsSingleLine (line cells) ↔ ∀ value ∈ cells, IsSingleLine value := by
  have hopen : IsSingleLine "| " := by simp [IsSingleLine]
  have hclose : IsSingleLine " |" := by simp [IsSingleLine]
  have hseparator : IsSingleLine " | " := by simp [IsSingleLine]
  rw [line, isSingleLine_append, isSingleLine_append, isSingleLine_intercalate hseparator, and_iff_left hclose,
    and_iff_right hopen]

theorem isSingleLine_cell {value : String} : IsSingleLine (cell value) ↔ IsSingleLine value := by
  have hmem : ∀ c : Char, c ≠ '\\' → (c ∈ (cell value).toList ↔ c ∈ value.toList) := by
    intro c hc
    rw [cell, String.toList_ofList, mem_escape hc]
  have hiff : ∀ text : String, IsSingleLine text ↔ '\n' ∉ text.toList ∧ '\r' ∉ text.toList := by
    intro text
    constructor
    · exact fun h => ⟨fun hmem => (h _ hmem).1 rfl, fun hmem => (h _ hmem).2 rfl⟩
    · exact fun h c hc => ⟨fun heq => h.1 (heq ▸ hc), fun heq => h.2 (heq ▸ hc)⟩
  rw [hiff, hiff, hmem _ (by decide), hmem _ (by decide)]

theorem bare_cell (value : String) : bare '\\' '|' false (cell value).toList = covered '\\' '|' false value.toList := by
  rw [cell, String.toList_ofList, bare_escape (by decide)]

theorem covered_cell (value : String) : covered '\\' '|' false (cell value).toList = bare '\\' '|' false value.toList := by
  rw [cell, String.toList_ofList, covered_escape (by decide)]

/-- A label is escaped twice, so it is a pipe without a backslash that breaks its
row. -/
theorem keepsRow_cell {label : String} : KeepsRow (cell label) ↔ KeepsLabel label := by
  rw [KeepsRow, isSingleLine_cell, covered_cell]
  rfl

theorem length_pieces_line {cells : List String} (hne : cells ≠ []) :
    (pieces (line cells)).length = cells.length + 2 + (cells.map fun value => bare '\\' '|' false value.toList).sum := by
  have hjoined : (line cells).toList = joined '|' ' ' (cells.map String.toList) := by
    rw [line, String.toList_append, String.toList_append, String.toList_intercalate]
    rfl
  have hbare := @bare_joined _ _ '\\' '|' ' ' (by decide) (by decide) (by decide) (cells.map String.toList) (by simpa using hne)
  rw [List.length_map, List.map_map] at hbare
  rw [pieces, length_split, hjoined, hbare]
  simp only [Function.comp_def]
  omega

/-- A row has as many cells as it was made of, on one line, when its cells hold
their texts. -/
theorem row_iff {row : List String} (hne : row ≠ []) :
    IsSingleLine (line (row.map cell)) ∧ (pieces (line (row.map cell))).length = row.length + 2 ↔ ∀ value ∈ row, KeepsRow value := by
  have hlines : IsSingleLine (line (row.map cell)) ↔ ∀ value ∈ row, IsSingleLine value := by
    rw [isSingleLine_line, List.forall_mem_map]
    exact forall₂_congr fun _ _ => isSingleLine_cell
  have hpieces : (pieces (line (row.map cell))).length = row.length + 2 ↔ ∀ value ∈ row, covered '\\' '|' false value.toList = 0 := by
    rw [length_pieces_line (by simpa using hne), List.length_map, List.map_map, Nat.add_eq_left, List.sum_eq_zero_iff,
      List.forall_mem_map]
    exact forall₂_congr fun value _ => by rw [Function.comp_apply, bare_cell]
  rw [hlines, hpieces, ← forall₂_and]
  rfl

theorem wellFormed_iff {table : Table} (hne : table.headers ≠ []) (hheaders : ∀ header ∈ table.headers, IsPlain header) :
    WellFormed table ↔ ∀ row ∈ table.rows, ∀ value ∈ row, KeepsRow value := by
  have hhead : (pieces (head table)).length = table.headers.length + 2 := by
    have hsum : (table.headers.map fun value => bare '\\' '|' false value.toList).sum = 0 := by
      rw [List.sum_eq_zero_iff, List.forall_mem_map]
      exact fun header hheader => (hheaders header hheader).bare
    rw [head, length_pieces_line hne, hsum]
  rw [WellFormed, body, List.forall_mem_map, hhead]
  refine forall₂_congr fun row hrow => ?_
  have hlength := table.row_length row hrow
  have hrowne : row ≠ [] := by
    rintro rfl
    exact hne (List.length_eq_zero_iff.mp hlength.symm)
  rw [← hlength]
  exact row_iff hrowne

end Row

section Tables

variable {host : ReportHost} (hnumbers : PlainNumbers host)
include hnumbers

theorem keepsSymbol_iff {provenance : Option SourceManifest} {symbol : ReportSymbol} : KeepsSymbol provenance symbol ↔
    KeepsRow symbol.name ∧ KeepsRow (location host provenance symbol) := by
  rw [keepsRow_location hnumbers]
  constructor
  · exact fun h => ⟨h.name, h.filePath, h.link⟩
  · exact fun h => ⟨h.1, h.2.1, h.2.2⟩

theorem wellFormed_rankTable {items : List RankedSymbol} {scoreHeader : String} (hheader : IsPlain scoreHeader)
    {provenance : Option SourceManifest} : WellFormed (rankTable host items scoreHeader provenance) ↔
      ∀ symbol ∈ items.map RankedSymbol.toReportSymbol, KeepsSymbol provenance symbol := by
  have hheaders : ∀ header ∈ (rankTable host items scoreHeader provenance).headers, IsPlain header := by
    simp only [rankTable, List.forall_mem_cons]
    exact ⟨by simp [IsPlain], hheader, by simp [IsPlain], by simp⟩
  rw [wellFormed_iff (by simp [rankTable]) hheaders, rankTable, List.forall_mem_map, List.forall_mem_map]
  refine forall₂_congr fun item _ => ?_
  rw [keepsSymbol_iff hnumbers, List.forall_mem_cons, List.forall_mem_cons, List.forall_mem_singleton, keepsRow_codeSpan,
    and_iff_right (hnumbers.showNumber _).keepsRow]

theorem wellFormed_hotspotTable {data : GraphReportData} : WellFormed (hotspotTable host data) ↔
    ∀ symbol ∈ data.hotspots.map RankedSymbol.toReportSymbol, KeepsSymbol data.provenance symbol := by
  have hheaders : ∀ header ∈ (hotspotTable host data).headers, IsPlain header := by simp [hotspotTable, IsPlain]
  rw [wellFormed_iff (by simp [hotspotTable]) hheaders, hotspotTable, List.forall_mem_map, List.forall_mem_map]
  refine forall₂_congr fun hotspot _ => ?_
  rw [keepsSymbol_iff hnumbers, List.forall_mem_cons, List.forall_mem_cons, List.forall_mem_singleton, keepsRow_codeSpan,
    and_iff_right (hnumbers.toFixed _ _).keepsRow]

theorem wellFormed_costTable {data : GraphReportData} : WellFormed (costTable host data) ↔
    ∀ symbol ∈ data.cost.map ReportCostNode.toReportSymbol, KeepsSymbol data.provenance symbol := by
  have hheaders : ∀ header ∈ (costTable host data).headers, IsPlain header := by simp [costTable, IsPlain]
  have hname : ∀ node : ReportCostNode, KeepsRow (codeSpan node.name ++ if node.cyclic then " ↺" else "") ↔ KeepsRow node.name := by
    intro node
    cases node.cyclic with
    | false => rw [if_neg (by decide), String.append_empty, keepsRow_codeSpan]
    | true =>
      have hmark : IsPlain " ↺" := by simp [IsPlain]
      have hiff := keepsRow_append_plain hmark (by decide) (codeSpan node.name) ""
      rw [String.append_empty] at hiff
      rw [if_pos rfl, hiff, keepsRow_codeSpan]
      exact and_iff_left (IsPlain.keepsRow (by simp [IsPlain]))
  have hshare : ∀ value : ℚ, KeepsRow (pct1 host value) :=
    fun value => ((hnumbers.toFixed _ _).append (by simp [IsPlain])).keepsRow
  rw [wellFormed_iff (by simp [costTable]) hheaders, costTable, List.forall_mem_map, List.forall_mem_map]
  refine forall₂_congr fun node _ => ?_
  rw [keepsSymbol_iff hnumbers, List.forall_mem_cons, List.forall_mem_cons, List.forall_mem_cons, List.forall_mem_singleton, hname,
    and_iff_right (hnumbers.toFixed _ _).keepsRow, and_iff_right (hshare _)]

theorem wellFormed_deadExportTable {data : GraphReportData} : WellFormed (deadExportTable host data) ↔
    ∀ symbol ∈ data.deadExports, KeepsSymbol data.provenance symbol := by
  have hheaders : ∀ header ∈ (deadExportTable host data).headers, IsPlain header := by simp [deadExportTable, IsPlain]
  have hkind : ∀ kind : NodeKind, KeepsRow kind.text := by
    intro kind
    refine IsPlain.keepsRow ?_
    cases kind <;> simp [NodeKind.text, IsPlain]
  rw [wellFormed_iff (by simp [deadExportTable]) hheaders, deadExportTable, List.forall_mem_map]
  refine forall₂_congr fun symbol _ => ?_
  rw [keepsSymbol_iff hnumbers, List.forall_mem_cons, List.forall_mem_cons, List.forall_mem_singleton, keepsRow_codeSpan,
    and_iff_right (hkind _)]

theorem wellFormed_communityTable {data : GraphReportData} : WellFormed (communityTable host data) ↔
    ∀ community ∈ data.communities, KeepsLabel community.label := by
  have hheaders : ∀ header ∈ (communityTable host data).headers, IsPlain header := by simp [communityTable, IsPlain]
  rw [wellFormed_iff (by simp [communityTable]) hheaders, communityTable, List.forall_mem_map]
  refine forall₂_congr fun community _ => ?_
  rw [List.forall_mem_cons, List.forall_mem_singleton, keepsRow_cell, and_iff_left (hnumbers.showNumber _).keepsRow]

end Tables

/-- Every table is in its section. -/
theorem tableLines_infix {host : ReportHost} {data : GraphReportData} {table : Table} (h : table ∈ tables host data) :
    ∃ lines ∈ sections host data, tableLines table <:+: lines := by
  simp only [tables, List.mem_append] at h
  rcases h with (((hcallers | himpacted) | hcommunities) | hruntime) | hdead
  · split at hcallers
    · cases hcallers
    · next hne =>
      refine ⟨rankSection host data.hubsByCallers "Callers" NO_CALL_EDGES data.provenance, by simp [sections], ?_⟩
      rw [List.mem_singleton.mp hcallers, rankSection, if_neg hne]
  · split at himpacted
    · cases himpacted
    · next hne =>
      refine ⟨rankSection host data.hubsByBlastRadius "Impacted" NO_CALL_EDGES data.provenance, by simp [sections], ?_⟩
      rw [List.mem_singleton.mp himpacted, rankSection, if_neg hne]
  · split at hcommunities
    · cases hcommunities
    · next hne =>
      refine ⟨communitySection host data, by simp [sections], ?_⟩
      rw [List.mem_singleton.mp hcommunities, communitySection, if_neg hne]
  · split at hruntime
    · cases hruntime
    · next henriched =>
      refine ⟨runtimeSection host data, by simp [sections], ?_⟩
      rw [runtimeSection, if_neg henriched]
      rcases List.mem_pair.mp hruntime with rfl | rfl
      · rw [List.append_assoc, List.append_assoc]
        exact List.infix_append _ _ _
      · exact (List.suffix_append _ _).isInfix
  · split at hdead
    · cases hdead
    · next hne =>
      refine ⟨deadExportSection host data, by simp [sections], ?_⟩
      rw [List.mem_singleton.mp hdead, deadExportSection, if_neg hne]
      exact (List.suffix_append _ _).isInfix

/-- The tables are well formed when no text in them has a line break, no pipe of
a name or a location is escaped already, and every pipe of a label is. The labels
are escaped twice. -/
theorem tables_wellFormed_iff {host : ReportHost} (hnumbers : PlainNumbers host) (data : GraphReportData) :
    (∀ table ∈ tables host data, WellFormed table) ↔
      (∀ symbol ∈ shownSymbols data, KeepsSymbol data.provenance symbol) ∧
      ∀ community ∈ data.communities, KeepsLabel community.label := by
  have hrank : ∀ (items : List RankedSymbol) {scoreHeader : String}, IsPlain scoreHeader →
      ((∀ table ∈ (if items = [] then [] else [rankTable host items scoreHeader data.provenance]), WellFormed table) ↔
        ∀ symbol ∈ items.map RankedSymbol.toReportSymbol, KeepsSymbol data.provenance symbol) := by
    intro items scoreHeader hheader
    split
    · next hempty => simp [hempty]
    · rw [List.forall_mem_singleton, wellFormed_rankTable hnumbers hheader]
  have hcommunities : (∀ table ∈ (if data.communities.isEmpty then [] else [communityTable host data]), WellFormed table) ↔
      ∀ community ∈ data.communities, KeepsLabel community.label := by
    split
    · next hempty => simp [List.isEmpty_iff.mp hempty]
    · rw [List.forall_mem_singleton, wellFormed_communityTable hnumbers]
  have hruntime : (∀ table ∈ (if data.enriched = false then [] else [hotspotTable host data, costTable host data]), WellFormed table) ↔
      ∀ symbol ∈ (if data.enriched = false then [] else
        data.hotspots.map RankedSymbol.toReportSymbol ++ data.cost.map ReportCostNode.toReportSymbol),
        KeepsSymbol data.provenance symbol := by
    split
    · simp
    · rw [List.forall_mem_cons, List.forall_mem_singleton, wellFormed_hotspotTable hnumbers, wellFormed_costTable hnumbers,
        List.forall_mem_append]
  have hdead : (∀ table ∈ (if data.deadExports = [] then [] else [deadExportTable host data]), WellFormed table) ↔
      ∀ symbol ∈ data.deadExports, KeepsSymbol data.provenance symbol := by
    split
    · next hempty => simp [hempty]
    · rw [List.forall_mem_singleton, wellFormed_deadExportTable hnumbers]
  simp only [tables, shownSymbols, List.forall_mem_append]
  rw [hrank data.hubsByCallers (by simp [IsPlain]), hrank data.hubsByBlastRadius (by simp [IsPlain]), hcommunities, hruntime, hdead]
  tauto

theorem isPlain_toString (value : ℤ) : IsPlain (toString value) := by
  have hdigits : ∀ n : ℕ, IsPlain (toString n) := by
    intro n c hc
    rw [Nat.toString_eq_repr, Nat.toList_repr] at hc
    have hdigit := Nat.isDigit_of_mem_toDigits (by decide) (by decide) hc
    refine ⟨?_, ?_, ?_, ?_⟩ <;>
      · rintro rfl
        exact absurd hdigit (by decide)
  cases value with
  | ofNat n => exact hdigits n
  | negSucc n => exact IsPlain.append (by simp [IsPlain]) (hdigits (n + 1))

theorem plainNumbers_plainHost : PlainNumbers plainHost :=
  ⟨fun value => isPlain_toString value.num, fun value _ => isPlain_toString value.num⟩

/-- A report on one function that is called twice, in a community of three. -/
def labelReport (label : String) : GraphReportData where
  generatedAt := "2025-01-01"
  project := "sample"
  outputFolder := "outputs"
  provenance := none
  semantic := true
  enriched := false
  coverage := none
  totalSelf := 0
  limit := 10
  totals := ⟨3, 1, 2, 1, 0, 0⟩
  verdict := ""
  nodeKinds := []
  edgeKinds := []
  hubsByCallers := [⟨⟨"main", .Function, "src/main.ts", 3⟩, 2⟩]
  hubsByBlastRadius := []
  communityQuality := none
  communities := [⟨label, 3⟩]
  hotspots := []
  cost := []
  structureVsRuntime := ⟨[], [], []⟩
  cycles := []
  boundary := ⟨[], [], []⟩
  deadExports := []
  keyFindings := []

theorem tables_wellFormed_iff_labelReport : WellFormed (communityTable plainHost (labelReport "parser")) := by
  have hiff := tables_wellFormed_iff plainNumbers_plainHost (labelReport "parser")
  have hmem : communityTable plainHost (labelReport "parser") ∈ tables plainHost (labelReport "parser") := by
    simp [tables, labelReport]
  refine hiff.mpr ⟨fun symbol hsymbol => ?_, fun community hcommunity => ?_⟩ _ hmem
  · obtain rfl : symbol = ⟨"main", .Function, "src/main.ts", 3⟩ := by simpa [shownSymbols, labelReport] using hsymbol
    exact ⟨IsPlain.keepsRow (by simp [IsPlain]), IsPlain.keepsRow (by simp [IsPlain]), by simp [labelReport]⟩
  · obtain rfl : community = ⟨"parser", 3⟩ := by simpa [labelReport] using hcommunity
    exact ⟨by simp [IsSingleLine], IsPlain.bare (by simp [IsPlain])⟩

/-- A pipe in a label is escaped once for the label and once for the cell, so that
it is no longer escaped. -/
theorem communitySection_pipe : PlainNumbers plainHost ∧
    communitySection plainHost (labelReport "a|b") = ["| Community | Size |", "| --- | ---: |", "| a\\\\|b | 3 |"] ∧
    (pieces "| Community | Size |").length = 4 ∧ (pieces "| a\\\\|b | 3 |").length = 5 := by
  refine ⟨plainNumbers_plainHost, ?_, ?_, ?_⟩
  · decide +kernel
  · decide
  · decide

end codespine.report.GraphReport
