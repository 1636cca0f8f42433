import Codespine.Enrich.RuntimeJoin

open codespine.schema codespine.store

namespace codespine.enrich.RuntimeJoin

variable {nodes : List RuntimeTargetNode}

section Files

theorem indexByFile_eq_group (nodes : List RuntimeTargetNode) :
    indexByFile nodes = OrderedMap.group (fun node => some node.filePath) nodes := rfl

/-- A file's bucket holds its nodes, in their order. -/
theorem getD_indexByFile (nodes : List RuntimeTargetNode) (filePath : String) :
    (indexByFile nodes).getD filePath [] = nodes.filter fun node => node.filePath = filePath := by
  rw [OrderedMap.getD, indexByFile_eq_group, OrderedMap.get_group]
  simp only [Option.some_inj]
  split
  · next hempty => rw [hempty]; rfl
  · rfl

theorem mem_keys_indexByFile {filePath : String} :
    filePath ∈ (indexByFile nodes).keys ↔ filePath ∈ nodes.map RuntimeTargetNode.filePath := by
  rw [← not_iff_not, ← OrderedMap.get_eq_none_iff, indexByFile_eq_group, OrderedMap.get_group]
  simp [List.filter_eq_nil_iff]

/-- The path is the absolute one, or what it ends in after a separator. -/
def EndsIn (absolute filePath : String) : Prop := absolute = filePath ∨ endsWith absolute ("/" ++ filePath) = true

instance (absolute filePath : String) : Decidable (EndsIn absolute filePath) :=
  inferInstanceAs (Decidable (_ ∨ _))

theorem suffixMatch_skip {absolute first : String} (hends : ¬ EndsIn absolute first) (rest : List String)
    (found : Option String) : suffixMatch absolute (first :: rest) found = suffixMatch absolute rest found :=
  if_neg hends

theorem suffixMatch_first {absolute first : String} (hends : EndsIn absolute first) (rest : List String) :
    suffixMatch absolute (first :: rest) none = suffixMatch absolute rest (some first) :=
  if_pos hends

theorem suffixMatch_second {absolute first found : String} (hends : EndsIn absolute first) (hne : found ≠ first)
    (rest : List String) : suffixMatch absolute (first :: rest) (some found) = none :=
  (if_pos hends).trans (if_pos hne)

/-- With one path found, the search fails on any other. -/
theorem suffixMatch_some {absolute found : String} {l : List String} (hfound : found ∉ l) :
    suffixMatch absolute l (some found) = if ∃ filePath ∈ l, EndsIn absolute filePath then none else some found := by
  induction l with
  | nil => simp [suffixMatch]
  | cons first rest ih =>
    obtain ⟨hfirst, hrest⟩ := not_or.mp (mt List.mem_cons.mpr hfound)
    by_cases hends : EndsIn absolute first
    · rw [suffixMatch_second hends hfirst, if_pos ⟨first, List.mem_cons_self, hends⟩]
    · rw [suffixMatch_skip hends, ih hrest]
      refine if_congr ?_ rfl rfl
      simp [hends]

/-- The search finds the one path that qualifies. -/
theorem suffixMatch_eq_some_iff {absolute filePath : String} {l : List String} (hnodup : l.Nodup) :
    suffixMatch absolute l none = some filePath ↔
      filePath ∈ l ∧ EndsIn absolute filePath ∧ ∀ other ∈ l, EndsIn absolute other → other = filePath := by
  induction l with
  | nil => simp [suffixMatch]
  | cons first rest ih =>
    rw [List.nodup_cons] at hnodup
    by_cases hends : EndsIn absolute first
    · rw [suffixMatch_first hends, suffixMatch_some hnodup.1]
      split
      · next hother =>
        obtain ⟨other, hmem, hother⟩ := hother
        refine iff_of_false (fun h => nomatch h) ?_
        rintro ⟨_, _, hunique⟩
        have hfirst := hunique first List.mem_cons_self hends
        have heq := hunique other (List.mem_cons_of_mem _ hmem) hother
        exact hnodup.1 (hfirst.trans heq.symm ▸ hmem)
      · next hnone =>
        constructor
        · intro h
          obtain rfl := Option.some.inj h
          refine ⟨List.mem_cons_self, hends, fun other hother hends' => ?_⟩
          rcases List.mem_cons.mp hother with rfl | hmem
          · rfl
          · exact absurd ⟨other, hmem, hends'⟩ hnone
        · rintro ⟨_, _, hunique⟩
          exact congrArg some (hunique first List.mem_cons_self hends)
    · rw [suffixMatch_skip hends, ih hnodup.2]
      constructor
      · rintro ⟨hmem, hfile, hunique⟩
        refine ⟨List.mem_cons_of_mem _ hmem, hfile, fun other hother hends' => ?_⟩
        rcases List.mem_cons.mp hother with rfl | hmem'
        · exact absurd hends' hends
        · exact hunique other hmem' hends'
      · rintro ⟨hmem, hfile, hunique⟩
        rcases List.mem_cons.mp hmem with rfl | hmem
        · exact absurd hfile hends
        · exact ⟨hmem, hfile, fun other hother => hunique other (List.mem_cons_of_mem _ hother)⟩

end Files

section Ranges

/-- The line lies in the range of a node that has one. -/
def Encloses (line : ℚ) (node : RuntimeTargetNode) : Prop :=
  (1 ≤ node.startLine ∧ node.startLine ≤ node.endLine) ∧ (node.startLine : ℚ) ≤ line ∧ line ≤ node.endLine

instance (line : ℚ) (node : RuntimeTargetNode) : Decidable (Encloses line node) := inferInstanceAs (Decidable (_ ∧ _))

/-- What ranges compete by: few lines before many, then a late start before an
early one. -/
def width (node : RuntimeTargetNode) : ℤ ×ₗ ℤ := toLex (node.endLine - node.startLine, -node.startLine)

theorem width_lt_iff {a b : RuntimeTargetNode} : width a < width b ↔
    a.endLine - a.startLine < b.endLine - b.startLine ∨
      (a.endLine - a.startLine = b.endLine - b.startLine ∧ b.startLine < a.startLine) := by
  rw [width, width, Prod.Lex.toLex_lt_toLex]
  simp only [neg_lt_neg_iff]

/-- One round of the search skips a node that does not enclose the line, and
keeps the better of two that do. -/
theorem narrow_eq (line : ℚ) (best : Option RuntimeTargetNode) (node : RuntimeTargetNode) :
    narrow line best node =
      if Encloses line node then List.argAux (fun b c => width b < width c) best node else best := by
  unfold narrow
  by_cases hrange : node.startLine < 1 ∨ node.endLine < node.startLine
  · rw [if_pos hrange, if_neg]
    rintro ⟨⟨hstart, hend⟩, _⟩
    omega
  · rw [if_neg hrange]
    obtain ⟨hstart, hend⟩ := not_or.mp hrange
    by_cases hline : line < node.startLine ∨ (node.endLine : ℚ) < line
    · rw [if_pos hline, if_neg]
      rintro ⟨_, hge, hle⟩
      exact hline.elim hge.not_gt hle.not_gt
    · rw [if_neg hline, if_pos]
      · cases best with
        | none => rfl
        | some held => exact if_congr width_lt_iff.symm rfl rfl
      · obtain ⟨hge, hle⟩ := not_or.mp hline
        exact ⟨⟨not_lt.mp hstart, not_lt.mp hend⟩, not_lt.mp hge, not_lt.mp hle⟩

/-- The innermost node is the first of those of least width. -/
theorem enclosingNode_eq_argmin (fileNodes : List RuntimeTargetNode) (line : ℚ) :
    enclosingNode fileNodes line = (fileNodes.filter fun node => Encloses line node).argmin width := by
  unfold enclosingNode
  split
  · next hline =>
    have hnone : fileNodes.filter (fun node => Encloses line node) = [] := by
      refine List.filter_eq_nil_iff.mpr fun node _ hencloses => ?_
      obtain ⟨⟨hstart, _⟩, hge, _⟩ := of_decide_eq_true hencloses
      have hstart : (1 : ℚ) ≤ node.startLine := by exact_mod_cast hstart
      exact (hstart.trans hge).not_gt hline
    rw [hnone, List.argmin_nil]
  · rw [List.argmin, List.foldl_filter]
    refine List.foldl_ext _ _ none fun best node _ => ?_
    simp only [narrow_eq, decide_eq_true_eq]

theorem mem_of_enclosingNode {fileNodes : List RuntimeTargetNode} {line : ℚ} {node : RuntimeTargetNode}
    (h : enclosingNode fileNodes line = some node) : node ∈ fileNodes := by
  rw [enclosingNode_eq_argmin] at h
  exact List.mem_of_mem_filter (List.argmin_mem h)

end Ranges

section Names

variable {fileNodes : List RuntimeTargetNode} {functionName : String} {line : ℚ}

/-- The nodes that compete for a frame: those its name matches, or all of the
file when it matches none. -/
def contenders (fileNodes : List RuntimeTargetNode) (functionName : String) : List RuntimeTargetNode :=
  if nameMatches fileNodes functionName = [] then fileNodes else nameMatches fileNodes functionName

theorem mem_of_mem_nameMatches {node : RuntimeTargetNode} (h : node ∈ nameMatches fileNodes functionName) :
    node ∈ fileNodes := by
  unfold nameMatches at h
  split at h
  · exact List.mem_of_mem_filter h
  · cases h

theorem resolveNode_of_single {node : RuntimeTargetNode} (h : nameMatches fileNodes functionName = [node]) :
    resolveNode fileNodes functionName line = .found node .name := by
  rw [resolveNode, h]

/-- Unless the name decides alone, the innermost contender is found, if there
is one. -/
theorem resolveNode_of_some {node : RuntimeTargetNode} (hsingle : ∀ only, nameMatches fileNodes functionName ≠ [only])
    (h : enclosingNode (contenders fileNodes functionName) line = some node) :
    resolveNode fileNodes functionName line =
      .found node (if nameMatches fileNodes functionName = [] then .range else .name) := by
  unfold contenders at h
  unfold resolveNode
  split
  · next only heq => exact absurd heq (hsingle only)
  · next heq =>
    rw [if_pos heq] at h
    rw [h, if_pos heq]
  · next hmatched hnil =>
    rw [if_neg hnil] at h
    rw [h, if_neg hnil]

theorem resolveNode_of_none (hsingle : ∀ only, nameMatches fileNodes functionName ≠ [only])
    (h : enclosingNode (contenders fileNodes functionName) line = none) :
    resolveNode fileNodes functionName line =
      .missing (if nameMatches fileNodes functionName = [] then .noNode else .ambiguous) := by
  unfold contenders at h
  unfold resolveNode
  split
  · next only heq => exact absurd heq (hsingle only)
  · next heq =>
    rw [if_pos heq] at h
    rw [h, if_pos heq]
  · next hmatched hnil =>
    rw [if_neg hnil] at h
    rw [h, if_neg hnil]

/-- What a frame is found by: its name, or its line where the name says
nothing. -/
theorem resolveNode_found {node : RuntimeTargetNode} {via : MatchVia}
    (h : resolveNode fileNodes functionName line = .found node via) :
    node ∈ nameMatches fileNodes functionName ∨
      (nameMatches fileNodes functionName = [] ∧ enclosingNode fileNodes line = some node) := by
  by_cases hsingle : ∃ only, nameMatches fileNodes functionName = [only]
  · obtain ⟨only, honly⟩ := hsingle
    rw [resolveNode_of_single honly] at h
    obtain ⟨rfl, _⟩ := NodeResolution.found.inj h
    exact .inl (honly ▸ List.mem_singleton_self _)
  · have hsingle := not_exists.mp hsingle
    cases henclosing : enclosingNode (contenders fileNodes functionName) line with
    | none =>
      rw [resolveNode_of_none hsingle henclosing] at h
      cases h
    | some found =>
      rw [resolveNode_of_some hsingle henclosing] at h
      obtain ⟨rfl, _⟩ := NodeResolution.found.inj h
      unfold contenders at henclosing
      split at henclosing
      · next hnone => exact .inr ⟨hnone, henclosing⟩
      · exact .inl (mem_of_enclosingNode henclosing)

theorem mem_of_resolveNode {node : RuntimeTargetNode} {via : MatchVia}
    (h : resolveNode fileNodes functionName line = .found node via) : node ∈ fileNodes := by
  rcases resolveNode_found h with hname | ⟨_, hrange⟩
  · exact mem_of_mem_nameMatches hname
  · exact mem_of_enclosingNode hrange

theorem kind_of_mem_nameMatches {node : RuntimeTargetNode} (h : node ∈ nameMatches fileNodes functionName) :
    node.kind ∈ NAME_MATCH_KINDS := by
  unfold nameMatches at h
  split at h
  · exact (of_decide_eq_true (List.mem_filter.mp h).2).1
  · cases h

/-- A frame without a name is looked up by its line alone. -/
theorem resolveNode_anonymous {node : RuntimeTargetNode} (h : enclosingNode fileNodes line = some node) :
    resolveNode fileNodes "" line = .found node .range := by
  have hnone : nameMatches fileNodes "" = [] := rfl
  rw [resolveNode, hnone, h]

end Names

section Frames

variable {host : Host} {root url functionName : String} {line : ℚ}

theorem resolve_of_path {byFile : OrderedMap String (List RuntimeTargetNode)} {filePath : String}
    (h : resolveFilePath host url root byFile = .ok (some filePath)) :
    resolve host byFile root url functionName line = .ok (resolveNode (byFile.getD filePath []) functionName line) := by
  rw [resolve, h]
  rfl

theorem resolve_of_noPath {byFile : OrderedMap String (List RuntimeTargetNode)}
    (h : resolveFilePath host url root byFile = .ok none) :
    resolve host byFile root url functionName line = .ok (.missing .noFile) := by
  rw [resolve, h]
  rfl

theorem resolve_of_error {byFile : OrderedMap String (List RuntimeTargetNode)} {e : HostError}
    (h : resolveFilePath host url root byFile = .error e) :
    resolve host byFile root url functionName line = .error e := by
  rw [resolve, h]
  rfl

/-- A frame that is found is found in a file its url resolves to. -/
theorem path_of_resolve {node : RuntimeTargetNode} {via : MatchVia}
    (h : resolve host (indexByFile nodes) root url functionName line = .ok (.found node via)) :
    ∃ filePath, resolveFilePath host url root (indexByFile nodes) = .ok (some filePath) ∧
      resolveNode (nodes.filter fun node => node.filePath = filePath) functionName line = .found node via := by
  cases hpath : resolveFilePath host url root (indexByFile nodes) with
  | error e => rw [resolve_of_error hpath] at h; cases h
  | ok path =>
    cases path with
    | none => rw [resolve_of_noPath hpath] at h; cases Except.ok.inj h
    | some filePath =>
      rw [resolve_of_path hpath, getD_indexByFile] at h
      exact ⟨filePath, rfl, Except.ok.inj h⟩

/-- A frame resolves to a node of the list, or to none. -/
theorem mem_of_resolve {node : RuntimeTargetNode} {via : MatchVia}
    (h : resolve host (indexByFile nodes) root url functionName line = .ok (.found node via)) : node ∈ nodes := by
  obtain ⟨_, _, hfound⟩ := path_of_resolve h
  exact List.mem_of_mem_filter (mem_of_resolveNode hfound)

end Frames

end codespine.enrich.RuntimeJoin
