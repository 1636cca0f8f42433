import Codespine.Enrich.RuntimeJoin.CallEdges

open codespine.schema codespine.store

namespace codespine.enrich.RuntimeJoin

variable {host : Host} {nodes nodes' : List RuntimeTargetNode} {root : String}

section Search

variable {fileNodes fileNodes' : List RuntimeTargetNode} {functionName : String} {line : ℚ}

/-- The node encloses the line, and none of those that compete with it does so
more narrowly. -/
structure Narrowest (competing : List RuntimeTargetNode) (line : ℚ) (node : RuntimeTargetNode) : Prop where
  mem : node ∈ competing
  encloses : Encloses line node
  least : ∀ other ∈ competing, Encloses line other → width node ≤ width other

theorem Narrowest.of_perm (hperm : fileNodes.Perm fileNodes') {node : RuntimeTargetNode}
    (h : Narrowest fileNodes line node) : Narrowest fileNodes' line node where
  mem := hperm.mem_iff.mp h.mem
  encloses := h.encloses
  least other hother := h.least other (hperm.mem_iff.mpr hother)

theorem narrowest_of_enclosingNode {node : RuntimeTargetNode} (h : enclosingNode fileNodes line = some node) :
    Narrowest fileNodes line node := by
  rw [enclosingNode_eq_argmin] at h
  obtain ⟨hmem, hencloses⟩ := List.mem_filter.mp (List.argmin_mem h)
  refine ⟨hmem, of_decide_eq_true hencloses, fun other hother henclosing => ?_⟩
  exact List.le_of_mem_argmin (List.mem_filter.mpr ⟨hother, decide_eq_true henclosing⟩) h

theorem exists_of_encloses {node : RuntimeTargetNode} (hmem : node ∈ fileNodes) (hencloses : Encloses line node) :
    ∃ found, enclosingNode fileNodes line = some found := by
  rw [← Option.ne_none_iff_exists', enclosingNode_eq_argmin, Ne, List.argmin_eq_none]
  exact List.ne_nil_of_mem (List.mem_filter.mpr ⟨hmem, decide_eq_true hencloses⟩)

/-- Without a tie, the order of the nodes does not matter to the search. -/
theorem enclosingNode_perm (hperm : fileNodes.Perm fileNodes')
    (hunique : ∀ a b, Narrowest fileNodes line a → Narrowest fileNodes line b → a = b) :
    enclosingNode fileNodes line = enclosingNode fileNodes' line := by
  cases h : enclosingNode fileNodes line with
  | some node =>
    have hnode := narrowest_of_enclosingNode h
    obtain ⟨found, hfound⟩ := exists_of_encloses (hperm.mem_iff.mp hnode.mem) hnode.encloses
    rw [hfound, hunique node found hnode ((narrowest_of_enclosingNode hfound).of_perm hperm.symm)]
  | none =>
    cases h' : enclosingNode fileNodes' line with
    | none => rfl
    | some found =>
      have hfound := narrowest_of_enclosingNode h'
      obtain ⟨node, hnode⟩ := exists_of_encloses (hperm.mem_iff.mpr hfound.mem) hfound.encloses
      rw [h] at hnode
      cases hnode

/-- Of nodes that are tied, the search takes the first. -/
theorem enclosingNode_first {node : RuntimeTargetNode} {rest : List RuntimeTargetNode}
    (h : Narrowest (node :: rest) line node) : enclosingNode (node :: rest) line = some node := by
  rw [enclosingNode_eq_argmin, List.filter_cons_of_pos (by simpa using h.encloses)]
  refine List.argmin_eq_some_iff.mpr ⟨List.mem_cons_self, fun other hother => ?_, fun other _ _ => ?_⟩
  · rcases List.mem_cons.mp hother with rfl | hother
    · exact le_refl _
    · obtain ⟨hmem, hencloses⟩ := List.mem_filter.mp hother
      exact h.least other (List.mem_cons_of_mem _ hmem) (of_decide_eq_true hencloses)
  · rw [List.idxOf_cons_self]
    exact Nat.zero_le _

theorem nameMatches_perm (hperm : fileNodes.Perm fileNodes') (functionName : String) :
    (nameMatches fileNodes functionName).Perm (nameMatches fileNodes' functionName) := by
  unfold nameMatches
  split
  · exact hperm.filter _
  · exact List.Perm.refl _

theorem contenders_perm (hperm : fileNodes.Perm fileNodes') (functionName : String) :
    (contenders fileNodes functionName).Perm (contenders fileNodes' functionName) := by
  have hmatches := nameMatches_perm hperm functionName
  unfold contenders
  by_cases h : nameMatches fileNodes functionName = []
  · rw [if_pos h, if_pos (List.Perm.nil_eq (h ▸ hmatches)).symm]
    exact hperm
  · rw [if_neg h, if_neg fun h' => h (hmatches.trans (List.Perm.of_eq h')).eq_nil]
    exact hmatches

theorem mem_of_mem_contenders {node : RuntimeTargetNode} (h : node ∈ contenders fileNodes functionName) :
    node ∈ fileNodes := by
  unfold contenders at h
  split at h
  · exact h
  · exact mem_of_mem_nameMatches h

/-- Without a tie among those that compete for a frame, the order of the nodes
does not matter to it. -/
theorem resolveNode_perm (hperm : fileNodes.Perm fileNodes')
    (hunique : ∀ a b, Narrowest (contenders fileNodes functionName) line a →
      Narrowest (contenders fileNodes functionName) line b → a = b) :
    resolveNode fileNodes functionName line = resolveNode fileNodes' functionName line := by
  have hmatches := nameMatches_perm hperm functionName
  by_cases hsingle : ∃ only, nameMatches fileNodes functionName = [only]
  · obtain ⟨only, honly⟩ := hsingle
    have honly' : nameMatches fileNodes' functionName = [only] := List.perm_singleton.mp (honly ▸ hmatches.symm)
    rw [resolveNode_of_single honly, resolveNode_of_single honly']
  · have hsingle := not_exists.mp hsingle
    have hsingle' : ∀ only, nameMatches fileNodes' functionName ≠ [only] := fun only h =>
      hsingle only (List.perm_singleton.mp (h ▸ hmatches))
    have hnone : nameMatches fileNodes functionName = [] ↔ nameMatches fileNodes' functionName = [] :=
      ⟨fun h => (h ▸ hmatches.symm).eq_nil, fun h => (h ▸ hmatches).eq_nil⟩
    have henclosing := enclosingNode_perm (contenders_perm hperm functionName) hunique
    cases h : enclosingNode (contenders fileNodes functionName) line with
    | some node =>
      rw [resolveNode_of_some hsingle h, resolveNode_of_some hsingle' (henclosing ▸ h)]
      exact congrArg _ (if_congr hnone rfl rfl)
    | none =>
      rw [resolveNode_of_none hsingle h, resolveNode_of_none hsingle' (henclosing ▸ h)]
      exact congrArg _ (if_congr hnone rfl rfl)

/-- A node listed before the others competes before the others. -/
theorem contenders_first {node : RuntimeTargetNode} (h : node ∈ contenders (node :: fileNodes) functionName) :
    ∃ rest, contenders (node :: fileNodes) functionName = node :: rest := by
  unfold contenders at h ⊢
  split at h
  · next hnone => exact ⟨fileNodes, if_pos hnone⟩
  · next hsome =>
    rw [if_neg hsome]
    unfold nameMatches at h ⊢
    split at h
    · next hmeaningful =>
      refine ⟨_, (if_pos hmeaningful).trans (List.filter_cons_of_pos ?_)⟩
      exact (List.mem_filter.mp h).2
    · cases h

/-- Of nodes that are tied for a frame, the frame is given the first. -/
theorem resolveNode_first {node other : RuntimeTargetNode} (hne : node ≠ other)
    (hnode : Narrowest (contenders (node :: fileNodes) functionName) line node)
    (hother : other ∈ contenders (node :: fileNodes) functionName) :
    ∃ via, resolveNode (node :: fileNodes) functionName line = .found node via := by
  obtain ⟨rest, hrest⟩ := contenders_first hnode.mem
  have hsingle : ∀ only, nameMatches (node :: fileNodes) functionName ≠ [only] := by
    intro only honly
    have hcontenders : contenders (node :: fileNodes) functionName = [only] := by
      rw [contenders, honly, if_neg (List.cons_ne_nil _ _)]
    rw [hcontenders] at hother
    have hnode := hnode.mem
    rw [hcontenders] at hnode
    exact hne ((List.mem_singleton.mp hnode).trans (List.mem_singleton.mp hother).symm)
  refine ⟨_, resolveNode_of_some hsingle ?_⟩
  rw [hrest] at hnode ⊢
  exact enclosingNode_first hnode

end Search

section Files

theorem mem_keys_perm (hperm : nodes.Perm nodes') (filePath : String) :
    filePath ∈ (indexByFile nodes).keys ↔ filePath ∈ (indexByFile nodes').keys := by
  rw [mem_keys_indexByFile, mem_keys_indexByFile]
  exact (hperm.map _).mem_iff

/-- The file that a url leads to does not depend on the order of the rows. -/
theorem resolveFilePath_perm (hperm : nodes.Perm nodes') (url : String) :
    resolveFilePath host url root (indexByFile nodes) = resolveFilePath host url root (indexByFile nodes') := by
  have hkeys := mem_keys_perm hperm
  have hsuffix : ∀ absolute, suffixMatch absolute (indexByFile nodes).keys none =
      suffixMatch absolute (indexByFile nodes').keys none := by
    intro absolute
    refine Option.ext fun filePath => ?_
    rw [suffixMatch_eq_some_iff (indexByFile nodes).nodup_keys, suffixMatch_eq_some_iff (indexByFile nodes').nodup_keys]
    simp only [hkeys]
  have hlocate : ∀ absolute, locate host absolute root (indexByFile nodes) =
      locate host absolute root (indexByFile nodes') := by
    intro absolute
    simp only [locate, hkeys, hsuffix]
  simp only [resolveFilePath, hkeys, hlocate]

end Files

/-- Two nodes are never tied for a frame: at every line of a file that a url
leads to, at most one of those that compete for it is innermost. -/
def NoTie (host : Host) (nodes : List RuntimeTargetNode) (root : String) : Prop :=
  ∀ url filePath functionName line a b, resolveFilePath host url root (indexByFile nodes) = .ok (some filePath) →
    Narrowest (contenders (nodes.filter fun node => node.filePath = filePath) functionName) line a →
    Narrowest (contenders (nodes.filter fun node => node.filePath = filePath) functionName) line b → a = b

/-- Without ties, every frame resolves in the same way, whatever the order of
the rows. -/
theorem resolve_perm (hnotie : NoTie host nodes root) (hperm : nodes.Perm nodes') (url functionName : String)
    (line : ℚ) :
    resolve host (indexByFile nodes) root url functionName line =
      resolve host (indexByFile nodes') root url functionName line := by
  have hpath := @resolveFilePath_perm host _ _ root hperm url
  cases h : resolveFilePath host url root (indexByFile nodes) with
  | error e => rw [resolve_of_error h, resolve_of_error (hpath ▸ h)]
  | ok path =>
    cases path with
    | none => rw [resolve_of_noPath h, resolve_of_noPath (hpath ▸ h)]
    | some filePath =>
      rw [resolve_of_path h, resolve_of_path (hpath ▸ h), getD_indexByFile, getD_indexByFile]
      exact congrArg _ (resolveNode_perm (hperm.filter _) fun a b => hnotie url filePath functionName line a b h)

theorem join_perm (hnotie : NoTie host nodes root) (hperm : nodes.Perm nodes') (frames : List FrameSample) :
    join host nodes frames root = join host nodes' frames root := by
  have hstep : JoinState.step host (indexByFile nodes) root = JoinState.step host (indexByFile nodes') root := by
    funext state frame
    rw [JoinState.step, JoinState.step, resolve_perm hnotie hperm]
  rw [join_eq, join_eq, hstep]

theorem joinCallEdges_perm (hnotie : NoTie host nodes root) (hperm : nodes.Perm nodes')
    (callEdges : List RuntimeCallEdge) :
    joinCallEdges host nodes callEdges root = joinCallEdges host nodes' callEdges root := by
  have hstep : CallJoinState.step host (indexByFile nodes) root =
      CallJoinState.step host (indexByFile nodes') root := by
    funext state edge
    simp only [CallJoinState.step, resolveFrame, resolve_perm hnotie hperm]
  rw [joinCallEdges_eq, joinCallEdges_eq, hstep]

/-- What `join` reports besides the groups of dropped frames. -/
structure JoinTotals where
  attributions : String → Option RuntimeAttribution
  matchedFrames : ℕ
  matchedSamples : ℚ
  matchedSelfMicros : ℚ
  matchedByName : ℕ
  matchedByRange : ℕ
  droppedFrames : ℕ
  droppedSamples : ℚ
  droppedSelfMicros : ℚ

def totals (result : RuntimeJoinResult) : JoinTotals where
  attributions := result.attributions.get
  matchedFrames := result.matchedFrames
  matchedSamples := result.matchedSamples
  matchedSelfMicros := result.matchedSelfMicros
  matchedByName := result.matchedByName
  matchedByRange := result.matchedByRange
  droppedFrames := result.droppedFrames
  droppedSamples := result.droppedSamples
  droppedSelfMicros := result.droppedSelfMicros

/-- The weighted edges of a join, in no order. -/
def edgeSet (result : RuntimeCallJoinResult) : Set RuntimeEdge := {edge | edge ∈ result.edges}

/-- A frame that two nodes are tied for is attributed to the one listed first. -/
theorem join_first {filePath : String} {frame : FrameSample} {a b : RuntimeTargetNode} (hne : a ≠ b)
    (hpath : resolveFilePath host frame.url root (indexByFile nodes) = .ok (some filePath))
    (ha : Narrowest (contenders (nodes.filter fun node => node.filePath = filePath) frame.functionName) frame.line a)
    (hb : b ∈ contenders (nodes.filter fun node => node.filePath = filePath) frame.functionName) :
    ∃ via, join host (a :: nodes.erase a) [frame] root =
      .ok (({} : JoinState).record host frame (.found a via)).result := by
  obtain ⟨hmem, hfile⟩ := List.mem_filter.mp (mem_of_mem_contenders ha.mem)
  have hperm : nodes.Perm (a :: nodes.erase a) := List.perm_cons_erase hmem
  have hbucket : (a :: nodes.erase a).filter (fun node => node.filePath = filePath) =
      a :: (nodes.erase a).filter fun node => node.filePath = filePath := List.filter_cons_of_pos hfile
  have hcontenders := contenders_perm (hperm.filter fun node => node.filePath = filePath) frame.functionName
  rw [hbucket] at hcontenders
  obtain ⟨via, hvia⟩ := resolveNode_first hne (ha.of_perm hcontenders) (hcontenders.mem_iff.mp hb)
  refine ⟨via, join_single ?_⟩
  rw [resolve_of_path ((resolveFilePath_perm hperm frame.url).symm.trans hpath), getD_indexByFile, hbucket, hvia]

/-- The order of the rows is of no effect just when no two nodes are ever tied
for a frame. -/
theorem rowOrder_irrelevant_iff (hdistinct : (nodes.map RuntimeTargetNode.id).Nodup) :
    (∀ nodes', nodes.Perm nodes' → ∀ frames callEdges,
      (join host nodes frames root).map totals = (join host nodes' frames root).map totals ∧
        (joinCallEdges host nodes callEdges root).map edgeSet =
          (joinCallEdges host nodes' callEdges root).map edgeSet) ↔
      NoTie host nodes root := by
  constructor
  · intro hsame url filePath functionName line a b hpath ha hb
    by_contra hne
    let frame : FrameSample := { functionName, url, line, column := 0, samples := 1, selfMicros := 0 }
    have hmem : ∀ {node}, Narrowest (contenders (nodes.filter fun node => node.filePath = filePath) functionName)
        line node → node ∈ nodes := fun h => List.mem_of_mem_filter (mem_of_mem_contenders h.mem)
    obtain ⟨via, hfirst⟩ := @join_first host nodes root filePath frame a b hne hpath ha hb.mem
    obtain ⟨via', hfirst'⟩ := @join_first host nodes root filePath frame b a (Ne.symm hne) hpath hb ha.mem
    have hjoin := (hsame _ (List.perm_cons_erase (hmem ha)) [frame] []).1
    have hjoin' := (hsame _ (List.perm_cons_erase (hmem hb)) [frame] []).1
    rw [hfirst] at hjoin
    rw [hfirst'] at hjoin'
    have htotals := congrArg JoinTotals.attributions (Except.ok.inj (hjoin.symm.trans hjoin'))
    have hid : a.id ≠ b.id := fun heq => hne (List.inj_on_of_nodup_map hdistinct (hmem ha) (hmem hb) heq)
    have hget := congrFun htotals a.id
    change ((∅ : OrderedMap String RuntimeAttribution).set a.id _).get a.id =
      ((∅ : OrderedMap String RuntimeAttribution).set b.id _).get a.id at hget
    rw [OrderedMap.get_set_self, OrderedMap.get_set_ne hid] at hget
    cases hget
  · intro hnotie nodes' hperm frames callEdges
    rw [join_perm hnotie hperm, joinCallEdges_perm hnotie hperm]
    exact ⟨rfl, rfl⟩

theorem rowOrder_irrelevant_iff_runAndLoad :
    (join (posixHost []) runAndLoad [⟨"(anonymous)", "file:///app/src/a.ts", 3, 0, 1, 0⟩] "/app").map totals =
      (join (posixHost []) runAndLoad.reverse [⟨"(anonymous)", "file:///app/src/a.ts", 3, 0, 1, 0⟩] "/app").map
        totals := by
  have hnotie : NoTie (posixHost []) runAndLoad "/app" := by
    intro url filePath functionName line a b _ ha hb
    obtain ⟨hmem, hfile⟩ := List.mem_filter.mp (mem_of_mem_contenders ha.mem)
    obtain ⟨hmem', hfile'⟩ := List.mem_filter.mp (mem_of_mem_contenders hb.mem)
    have hfiles : a.filePath = b.filePath := (of_decide_eq_true hfile).trans (of_decide_eq_true hfile').symm
    exact (by decide : ∀ a ∈ runAndLoad, ∀ b ∈ runAndLoad, a.filePath = b.filePath → a = b) a hmem b hmem' hfiles
  exact ((rowOrder_irrelevant_iff (by decide)).mpr hnotie _ (List.reverse_perm _).symm _ []).1

/-- A method on the one line of its class: the frame of a function without a
name in it counts for whichever the database lists first. -/
theorem rowOrder_relevant_oneLine :
    ¬ ∀ (host : Host) (nodes nodes' : List RuntimeTargetNode) (root : String),
      (nodes.map RuntimeTargetNode.id).Nodup → nodes.Perm nodes' → ∀ frames callEdges,
        (join host nodes frames root).map totals = (join host nodes' frames root).map totals ∧
          (joinCallEdges host nodes callEdges root).map edgeSet =
            (joinCallEdges host nodes' callEdges root).map edgeSet := by
  intro hclaim
  let owner : RuntimeTargetNode := ⟨"ClassDeclaration:src/a.ts#Task@3", .Class, "Task", "src/a.ts", 3, 3⟩
  let method : RuntimeTargetNode := ⟨"MethodDeclaration:src/a.ts#run@3", .Method, "run", "src/a.ts", 3, 3⟩
  obtain ⟨hjoin, _⟩ := hclaim (posixHost []) [owner, method] [method, owner] "/app" (by decide)
    (List.Perm.swap _ _ _) [⟨"(anonymous)", "file:///app/src/a.ts", 3, 0, 1, 0⟩] []
  have hattributed := congrArg (Except.map fun totals => (totals.attributions owner.id).isSome) hjoin
  exact absurd hattributed (by decide +kernel)

end codespine.enrich.RuntimeJoin
