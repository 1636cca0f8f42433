import Codespine.Enrich.RuntimeJoin
import Codespine.Lib.Loop

open codespine.schema codespine.store

namespace codespine.enrich

variable {host : Host} {root : String}

/-- A frame url that resolves to a file or to none, instead of throwing. -/
def Decodable (host : Host) (url : String) : Prop :=
  startsWith url "file://" = true → (host.fileURLToPath url).isOk = true

namespace RuntimeJoin

/-- The urls that are skipped outright are no `file:` urls. -/
theorem startsWith_file_of_skipped {url : String} (h : url.length = 0 ∨ startsWith url "node:" = true) :
    startsWith url "file://" = false := by
  rw [Bool.eq_false_iff]
  intro hfile
  obtain ⟨rest, hrest⟩ := List.isPrefixOf_iff_prefix.mp hfile
  rcases h with hlength | hnode
  · rw [← String.length_toList, ← hrest] at hlength
    simp at hlength
  · obtain ⟨rest', hrest'⟩ := List.isPrefixOf_iff_prefix.mp hnode
    rw [← hrest] at hrest'
    simp at hrest'

theorem isOk_urlToAbsolute {url : String} : (urlToAbsolute host url).isOk = true ↔ Decodable host url := by
  unfold urlToAbsolute Decodable
  split
  · next hfile =>
    cases host.fileURLToPath url <;> simp [hfile, Except.map, Except.isOk, Except.toBool]
  · next hfile =>
    refine iff_of_true ?_ fun h => absurd h hfile
    split <;> rfl

theorem isOk_resolveFilePath {url : String} (root : String) (byFile : OrderedMap String (List RuntimeTargetNode)) :
    (resolveFilePath host url root byFile).isOk = true ↔ Decodable host url := by
  unfold resolveFilePath
  split
  · next hskip =>
    refine iff_of_true rfl fun hfile => ?_
    rw [startsWith_file_of_skipped hskip] at hfile
    cases hfile
  · rw [← isOk_urlToAbsolute]
    cases urlToAbsolute host url with
    | error e => rfl
    | ok found => cases found <;> rfl

theorem isOk_resolve (byFile : OrderedMap String (List RuntimeTargetNode)) (root url functionName : String)
    (line : ℚ) : (resolve host byFile root url functionName line).isOk = true ↔ Decodable host url := by
  rw [← isOk_resolveFilePath root byFile, resolve]
  cases resolveFilePath host url root byFile with
  | error e => rfl
  | ok path => cases path <;> rfl

theorem isOk_join (nodes : List RuntimeTargetNode) (frames : List FrameSample) (root : String) :
    (join host nodes frames root).isOk = true ↔ ∀ frame ∈ frames, Decodable host frame.url := by
  have hstep : ∀ (state : JoinState) (frame : FrameSample),
      (state.step host (indexByFile nodes) root frame).isOk = true ↔ Decodable host frame.url := by
    intro state frame
    rw [← isOk_resolve (indexByFile nodes) root frame.url frame.functionName frame.line, JoinState.step]
    cases resolve host (indexByFile nodes) root frame.url frame.functionName frame.line <;> rfl
  rw [← loop.isOk_foldlM hstep frames {}, join]
  cases frames.foldlM (JoinState.step host (indexByFile nodes) root) {} <;> rfl

theorem isOk_joinCallEdges (nodes : List RuntimeTargetNode) (callEdges : List RuntimeCallEdge) (root : String) :
    (joinCallEdges host nodes callEdges root).isOk = true ↔
      ∀ edge ∈ callEdges, Decodable host edge.caller.url ∧ Decodable host edge.callee.url := by
  have hframe : ∀ frame : FrameRef,
      (resolveFrame host frame (indexByFile nodes) root).isOk = true ↔ Decodable host frame.url := by
    intro frame
    rw [← isOk_resolve (indexByFile nodes) root frame.url frame.functionName frame.line, resolveFrame]
    cases resolve host (indexByFile nodes) root frame.url frame.functionName frame.line <;> rfl
  have hstep : ∀ (state : CallJoinState) (edge : RuntimeCallEdge),
      (state.step host (indexByFile nodes) root edge).isOk = true ↔
        Decodable host edge.caller.url ∧ Decodable host edge.callee.url := by
    intro state edge
    rw [← hframe edge.caller, ← hframe edge.callee, CallJoinState.step]
    cases resolveFrame host edge.caller (indexByFile nodes) root with
    | error e => simp [bind, Except.bind, Except.isOk, Except.toBool]
    | ok caller =>
      cases resolveFrame host edge.callee (indexByFile nodes) root with
      | error e => simp [bind, Except.bind, Except.isOk, Except.toBool]
      | ok callee => simp [bind, Except.bind, pure, Except.pure, Except.isOk, Except.toBool]
  rw [← loop.isOk_foldlM hstep callEdges {}, joinCallEdges]
  cases callEdges.foldlM (CallJoinState.step host (indexByFile nodes) root) {} <;> rfl

end RuntimeJoin

end codespine.enrich
