import Codespine.Query.Components.Discover

open digraph

namespace codespine.query.TarjanState

variable {count : ℕ} {successors : Fin count → List (Fin count)} {s : TarjanState count}

/-- Moving the cursor of the top vertex past a successor that was visited
before keeps the invariant, provided the lowlink of the top vertex is lowered
to the index of something it reaches, and far enough for that successor. -/
theorem Invariant.advance (h : Invariant successors s) {node : Fin count} {position : ℕ}
    {below : List (Fin count × ℕ)} (hwork : s.work = (node, position) :: below)
    (hlt : position < (successors node).length)
    (hvisited : s.Visited (successors node)[position]) {low : ℤ} (hle : low ≤ s.lowlink node)
    (hreached : ∃ u ∈ s.sccStack, s.index u = low ∧ Reaches (Calls successors) node u)
    (hlow : (successors node)[position] ∈ s.sccStack → low ≤ s.index (successors node)[position]) :
    Invariant successors { s with
      work := (node, position + 1) :: below
      lowlink := Function.update s.lowlink node low } := by
  set s' : TarjanState count := { s with
    work := (node, position + 1) :: below
    lowlink := Function.update s.lowlink node low } with hs'
  have hpath : s'.path = s.path := by simp [hs', path, hwork]
  have hlowNode : s'.lowlink node = low := by simp [hs']
  have hlowNe : ∀ v, v ≠ node → s'.lowlink v = s.lowlink v := fun v hv => by simp [hs', hv]
  have hlowLe : ∀ v, s'.lowlink v ≤ s.lowlink v := by
    intro v
    by_cases hv : v = node
    · rwa [hv, hlowNode]
    · rw [hlowNe v hv]
  have hprocessed : ∀ v w, Processed successors s' v w →
      Processed successors s v w ∨ (v = node ∧ w = (successors node)[position]) :=
    fun v w hvw => processed_of_advance hwork hlt hvw
  have hnode : node ∈ s.path := by simp [path, hwork]
  constructor
  case index_lt => exact h.index_lt
  case index_ge => exact h.index_ge
  case stack_sorted => exact h.stack_sorted
  case stack_visited => exact h.stack_visited
  case onStack_iff => exact h.onStack_iff
  case path_sublist =>
    rw [hpath]
    exact h.path_sublist
  case processed_visited =>
    intro v w hvw
    rcases hprocessed v w hvw with hvw | ⟨_, rfl⟩
    · exact h.processed_visited v w hvw
    · exact hvisited
  case path_reaches =>
    rw [hpath]
    exact h.path_reaches
  case left_reaches =>
    rw [hpath]
    exact h.left_reaches
  case lowlink_reached =>
    rw [hpath]
    intro g hg
    by_cases hgn : g = node
    · rw [hgn, hlowNode]
      exact hreached
    · rw [hlowNe g hgn]
      exact h.lowlink_reached g hg
  case lowlink_le =>
    rw [hpath]
    exact fun g hg => (hlowLe g).trans (h.lowlink_le g hg)
  case lowlink_bounds =>
    intro g v hinner hv w hw hvw
    have hinner' : s.Innermost g v := by
      unfold Innermost at hinner ⊢
      rwa [hpath] at hinner
    rcases hprocessed v w hvw with hvw | ⟨hvn, hwn⟩
    · exact (hlowLe g).trans (h.lowlink_bounds g v hinner' hv w hw hvw)
    · obtain ⟨hg, hgv, hnone⟩ := hinner'
      have hgn : g = node := by
        refine h.eq_of_index_eq (h.mem_stack_of_path hg) (h.mem_stack_of_path hnode) ?_
        have := hnone node hnode
        rw [hvn] at hgv this
        omega
      rw [hgn, hlowNode, hwn]
      exact hlow (hwn ▸ hw)
  case stack_rooted =>
    rw [hpath]
    exact h.stack_rooted
  case open_number => exact h.open_number
  case done_number => exact h.done_number
  case done_closed => exact h.done_closed
  case done_linked => exact h.done_linked
  case number_used => exact h.number_used

/-- One look at a successor keeps the invariant. -/
theorem Invariant.visitSuccessor (h : Invariant successors s) {node : Fin count} {position : ℕ}
    {below : List (Fin count × ℕ)} (hwork : s.work = (node, position) :: below)
    (hlt : position < (successors node).length) :
    Invariant successors (TarjanState.visitSuccessor
      { s with work := (node, position + 1) :: below } node (successors node)[position]) := by
  have hnode : node ∈ s.path := by simp [path, hwork]
  unfold TarjanState.visitSuccessor
  split
  · next hfresh =>
    refine h.discover (advances_of_cursor hwork hlt) ?_ hfresh
    intro top rest htop
    have heq : node = top := by simpa [path, hwork] using congrArg List.head? htop
    rw [← heq]
    exact List.getElem_mem hlt
  · next hvisited =>
    split
    · next hlower =>
      have hmem : (successors node)[position] ∈ s.sccStack := (h.onStack_iff _).mp hlower.1
      exact h.advance hwork hlt hvisited hlower.2.le
        ⟨_, hmem, rfl, Reaches.single (List.getElem_mem hlt)⟩ fun _ => le_rfl
    · next hkeep =>
      have hsame : Function.update s.lowlink node (s.lowlink node) = s.lowlink :=
        Function.update_eq_self node s.lowlink
      have hadvance := h.advance hwork hlt hvisited le_rfl (h.lowlink_reached node hnode) ?_
      · rwa [hsame] at hadvance
      · intro hmem
        have hon := (h.onStack_iff _).mpr hmem
        by_contra hlt'
        exact hkeep ⟨hon, not_le.mp hlt'⟩

end codespine.query.TarjanState
