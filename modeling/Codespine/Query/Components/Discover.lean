import Codespine.Query.Components.Invariant

open digraph

namespace codespine.query.TarjanState

variable {count : ℕ} {successors : Fin count → List (Fin count)} {s : TarjanState count}

/-- The frames look at one arc more than before, and its target is `next`. -/
def Advances (successors : Fin count → List (Fin count)) (s : TarjanState count)
    (work : List (Fin count × ℕ)) (next : Fin count) : Prop :=
  work.map Prod.fst = s.path ∧
    ∀ v w, Processed successors { s with work } v w → Processed successors s v w ∨ w = next

theorem advances_refl (s : TarjanState count) (next : Fin count) :
    Advances successors s s.work next :=
  ⟨rfl, fun _ _ h => Or.inl h⟩

/-- Moving the cursor of the top frame past one successor processes one arc
more, that from the top vertex to this successor. -/
theorem processed_of_advance {node : Fin count} {position : ℕ} {below : List (Fin count × ℕ)}
    (hwork : s.work = (node, position) :: below) (h : position < (successors node).length)
    {v w : Fin count}
    (hproc : Processed successors { s with work := (node, position + 1) :: below } v w) :
    Processed successors s v w ∨ (v = node ∧ w = (successors node)[position]) := by
  rcases hproc with ⟨cursor, hmem, htake⟩ | ⟨hvisited, hpath, hcall⟩
  · rcases List.mem_cons.mp hmem with heq | hbelow
    · obtain ⟨rfl, rfl⟩ := Prod.mk.inj heq
      rw [List.take_succ_eq_append_getElem h, List.mem_append, List.mem_singleton] at htake
      rcases htake with htake | rfl
      · exact Or.inl (Or.inl ⟨position, by rw [hwork]; exact List.mem_cons_self, htake⟩)
      · exact Or.inr ⟨rfl, rfl⟩
    · exact Or.inl (Or.inl ⟨cursor, by rw [hwork]; exact List.mem_cons_of_mem _ hbelow, htake⟩)
  · refine Or.inl (Or.inr ⟨hvisited, ?_, hcall⟩)
    simpa [path, hwork] using hpath

theorem advances_of_cursor {node : Fin count} {position : ℕ} {below : List (Fin count × ℕ)}
    (hwork : s.work = (node, position) :: below) (h : position < (successors node).length) :
    Advances successors s ((node, position + 1) :: below) (successors node)[position] := by
  refine ⟨by simp [path, hwork], fun v w hproc => ?_⟩
  exact (processed_of_advance hwork h hproc).imp_right And.right

/-- What entering `next` changes: it takes the next index as its own and as its
lowlink, goes on both stacks, and no arc out of it has been looked at. -/
structure Enters (successors : Fin count → List (Fin count)) (s s' : TarjanState count) (next : Fin count) : Prop where
  unvisited : ¬ s.Visited next
  reaches : ∀ g ∈ s.path, Reaches (Calls successors) g next
  index_next : s'.index next = s.counter
  index_of_ne : ∀ v, v ≠ next → s'.index v = s.index v
  lowlink_next : s'.lowlink next = s.counter
  lowlink_of_ne : ∀ v, v ≠ next → s'.lowlink v = s.lowlink v
  onStack_next : s'.onStack next = true
  onStack_of_ne : ∀ v, v ≠ next → s'.onStack v = s.onStack v
  counter : s'.counter = s.counter + 1
  sccStack : s'.sccStack = next :: s.sccStack
  path : s'.path = next :: s.path
  componentOf : s'.componentOf = s.componentOf
  componentCount : s'.componentCount = s.componentCount
  processed : ∀ v w, Processed successors s' v w → v ≠ next ∧ (Processed successors s v w ∨ w = next)

theorem Invariant.enters (h : Invariant successors s) {work : List (Fin count × ℕ)} {next : Fin count}
    (hadvance : Advances successors s work next)
    (htop : ∀ node below, s.path = node :: below → Calls successors node next) (hnext : s.index next = -1) :
    Enters successors s (TarjanState.discover { s with work } next) next := by
  obtain ⟨hpath, hproc⟩ := hadvance
  have hpath' : (TarjanState.discover { s with work } next).path = next :: s.path := by
    rw [← hpath]
    rfl
  have hpathNe : ∀ v ∈ s.path, v ≠ next := fun v hv heq =>
    h.stack_visited v (h.mem_stack_of_path hv) (heq ▸ hnext)
  constructor
  case unvisited => exact fun hvisited => hvisited hnext
  case reaches =>
    intro g hg
    cases htopEq : s.path with
    | nil => simp [htopEq] at hg
    | cons node below =>
      have hnode : node ∈ s.path := by simp [htopEq]
      have hgn := h.path_reaches g hg node (h.mem_stack_of_path hnode) (h.index_le_top htopEq hg)
      exact hgn.tail (htop node below htopEq)
  case index_next => simp [TarjanState.discover]
  case index_of_ne => exact fun v hv => by simp [TarjanState.discover, hv]
  case lowlink_next => simp [TarjanState.discover]
  case lowlink_of_ne => exact fun v hv => by simp [TarjanState.discover, hv]
  case onStack_next => simp [TarjanState.discover]
  case onStack_of_ne => exact fun v hv => by simp [TarjanState.discover, hv]
  case counter => rfl
  case sccStack => rfl
  case path => exact hpath'
  case componentOf => rfl
  case componentCount => rfl
  case processed =>
    rintro v w (⟨position, hmem, htake⟩ | ⟨hv, hout, hcall⟩)
    · obtain heq | hmem := List.mem_cons.mp hmem
      · obtain ⟨rfl, rfl⟩ := Prod.mk.inj heq
        simp at htake
      · refine ⟨hpathNe v ?_, hproc v w (Or.inl ⟨position, hmem, htake⟩)⟩
        rw [← hpath]
        exact List.mem_map_of_mem hmem
    · rw [hpath', List.mem_cons, not_or] at hout
      have hbefore : s.Visited v := by
        have hindex : (TarjanState.discover { s with work } next).index v = s.index v := by
          simp [TarjanState.discover, hout.1]
        rwa [Visited, hindex] at hv
      exact ⟨hout.1, Or.inl (Or.inr ⟨hbefore, hout.2, hcall⟩)⟩

section Enters

variable {s' : TarjanState count} {next : Fin count} (he : Enters successors s s' next)

include he

theorem Enters.visited_iff (v : Fin count) : s'.Visited v ↔ v = next ∨ s.Visited v := by
  by_cases hv : v = next
  · subst hv
    simp only [Visited, he.index_next, true_or, iff_true]
    omega
  · simp [Visited, he.index_of_ne v hv, hv]

/-- No component is closed on the way in. -/
theorem Enters.done_iff (v : Fin count) : s'.Done v ↔ s.Done v := by
  simp only [Done, he.visited_iff, he.sccStack, List.mem_cons]
  constructor
  · rintro ⟨hv, hout⟩
    exact ⟨hv.resolve_left fun heq => hout (Or.inl heq), fun hmem => hout (Or.inr hmem)⟩
  · rintro ⟨hv, hout⟩
    refine ⟨Or.inr hv, ?_⟩
    rintro (rfl | hmem)
    · exact he.unvisited hv
    · exact hout hmem

variable (h : Invariant successors s)

include h

theorem Enters.ne_of_stack {v : Fin count} (hv : v ∈ s.sccStack) : v ≠ next :=
  fun heq => he.unvisited (heq ▸ h.stack_visited v hv)

theorem Enters.ne_of_path {v : Fin count} (hv : v ∈ s.path) : v ≠ next :=
  he.ne_of_stack h (h.mem_stack_of_path hv)

theorem Enters.index_of_stack {v : Fin count} (hv : v ∈ s.sccStack) : s'.index v = s.index v :=
  he.index_of_ne v (he.ne_of_stack h hv)

theorem Enters.index_of_path {v : Fin count} (hv : v ∈ s.path) : s'.index v = s.index v :=
  he.index_of_ne v (he.ne_of_path h hv)

theorem Enters.stack_sorted : s'.sccStack.Pairwise (fun a b => s'.index b < s'.index a) := by
  rw [he.sccStack, List.pairwise_cons]
  constructor
  · intro v hv
    rw [he.index_next, he.index_of_stack h hv]
    exact h.index_lt v
  · refine h.stack_sorted.imp_of_mem fun ha hb hlt => ?_
    rwa [he.index_of_stack h ha, he.index_of_stack h hb]

/-- Only what was reached before, and `next` itself, lies above a vertex of the
work stack. -/
theorem Enters.path_reaches {g v : Fin count} (hg : g ∈ s'.path) (hv : v ∈ s'.sccStack)
    (hle : s'.index g ≤ s'.index v) : Reaches (Calls successors) g v := by
  rw [he.path, List.mem_cons] at hg
  rw [he.sccStack, List.mem_cons] at hv
  obtain rfl | hg := hg
  · obtain rfl | hv := hv
    · exact Reaches.refl v
    · rw [he.index_next, he.index_of_stack h hv] at hle
      have hlt := h.index_lt v
      omega
  · obtain rfl | hv := hv
    · exact he.reaches g hg
    · rw [he.index_of_path h hg, he.index_of_stack h hv] at hle
      exact h.path_reaches g hg v hv hle

theorem Enters.left_reaches {v : Fin count} (hv : v ∈ s'.sccStack) (hout : v ∉ s'.path) :
    ∃ u ∈ s'.sccStack, s'.index u < s'.index v ∧ Reaches (Calls successors) v u := by
  rw [he.path, List.mem_cons, not_or] at hout
  rw [he.sccStack, List.mem_cons, or_iff_right hout.1] at hv
  obtain ⟨u, hu, hlt, hvu⟩ := h.left_reaches v hv hout.2
  rw [he.sccStack]
  refine ⟨u, List.mem_cons_of_mem _ hu, ?_, hvu⟩
  rwa [he.index_of_stack h hu, he.index_of_ne v hout.1]

theorem Enters.lowlink_reached {g : Fin count} (hg : g ∈ s'.path) :
    ∃ u ∈ s'.sccStack, s'.index u = s'.lowlink g ∧ Reaches (Calls successors) g u := by
  rw [he.path, List.mem_cons] at hg
  rw [he.sccStack]
  obtain rfl | hg := hg
  · exact ⟨g, List.mem_cons_self, by rw [he.index_next, he.lowlink_next], Reaches.refl g⟩
  · obtain ⟨u, hu, heq, hgu⟩ := h.lowlink_reached g hg
    refine ⟨u, List.mem_cons_of_mem _ hu, ?_, hgu⟩
    rwa [he.index_of_stack h hu, he.lowlink_of_ne g (he.ne_of_path h hg)]

theorem Enters.lowlink_le {g : Fin count} (hg : g ∈ s'.path) : s'.lowlink g ≤ s'.index g := by
  rw [he.path, List.mem_cons] at hg
  obtain rfl | hg := hg
  · rw [he.index_next, he.lowlink_next]
  · rw [he.lowlink_of_ne g (he.ne_of_path h hg), he.index_of_path h hg]
    exact h.lowlink_le g hg

/-- The only arc looked at anew ends in `next`, whose index is above all
others. -/
theorem Enters.lowlink_bounds {g v w : Fin count} (hinner : s'.Innermost g v) (hv : v ∈ s'.sccStack)
    (hw : w ∈ s'.sccStack) (hvw : Processed successors s' v w) : s'.lowlink g ≤ s'.index w := by
  obtain ⟨hvne, hvw⟩ := he.processed v w hvw
  rw [he.sccStack, List.mem_cons, or_iff_right hvne] at hv
  obtain ⟨hg, hgv, hinner⟩ := hinner
  have hgne : g ≠ next := by
    rintro rfl
    rw [he.index_next, he.index_of_ne v hvne] at hgv
    have hlt := h.index_lt v
    omega
  rw [he.path, List.mem_cons, or_iff_right hgne] at hg
  rw [he.lowlink_of_ne g hgne]
  by_cases hwn : w = next
  · subst hwn
    have hle := h.lowlink_le g hg
    have hlt := h.index_lt g
    rw [he.index_next]
    omega
  · rw [he.index_of_ne w hwn]
    rw [he.sccStack, List.mem_cons, or_iff_right hwn] at hw
    refine h.lowlink_bounds g v ⟨hg, ?_, ?_⟩ hv w hw (hvw.resolve_right hwn)
    · rwa [he.index_of_ne g hgne, he.index_of_ne v hvne] at hgv
    · intro k hk
      have hbefore := hinner k (by rw [he.path]; exact List.mem_cons_of_mem _ hk)
      rwa [he.index_of_path h hk, he.index_of_ne g hgne, he.index_of_ne v hvne] at hbefore

theorem Enters.stack_rooted {v : Fin count} (hv : v ∈ s'.sccStack) : ∃ g ∈ s'.path, s'.index g ≤ s'.index v := by
  rw [he.sccStack, List.mem_cons] at hv
  rw [he.path]
  obtain rfl | hv := hv
  · exact ⟨v, List.mem_cons_self, le_rfl⟩
  · obtain ⟨g, hg, hle⟩ := h.stack_rooted v hv
    refine ⟨g, List.mem_cons_of_mem _ hg, ?_⟩
    rwa [he.index_of_path h hg, he.index_of_stack h hv]

theorem Enters.invariant : Invariant successors s' := by
  constructor
  case index_lt =>
    intro v
    rw [he.counter]
    by_cases hv : v = next
    · rw [hv, he.index_next]
      omega
    · have hlt := h.index_lt v
      rw [he.index_of_ne v hv]
      omega
  case index_ge =>
    intro v
    by_cases hv : v = next
    · rw [hv, he.index_next]
      omega
    · rw [he.index_of_ne v hv]
      exact h.index_ge v
  case stack_sorted => exact he.stack_sorted h
  case stack_visited =>
    intro v hv
    rw [he.sccStack, List.mem_cons] at hv
    exact (he.visited_iff v).mpr (hv.imp_right (h.stack_visited v))
  case onStack_iff =>
    intro v
    rw [he.sccStack, List.mem_cons]
    by_cases hv : v = next
    · simp [hv, he.onStack_next]
    · rw [or_iff_right hv, he.onStack_of_ne v hv, h.onStack_iff v]
  case path_sublist =>
    rw [he.path, he.sccStack]
    exact h.path_sublist.cons_cons next
  case processed_visited =>
    intro v w hvw
    exact (he.visited_iff w).mpr ((he.processed v w hvw).2.symm.imp_right (h.processed_visited v w))
  case path_reaches => exact fun g hg v hv hle => he.path_reaches h hg hv hle
  case left_reaches => exact fun v hv hout => he.left_reaches h hv hout
  case lowlink_reached => exact fun g hg => he.lowlink_reached h hg
  case lowlink_le => exact fun g hg => he.lowlink_le h hg
  case lowlink_bounds => exact fun g v hinner hv w hw hvw => he.lowlink_bounds h hinner hv hw hvw
  case stack_rooted => exact fun v hv => he.stack_rooted h hv
  case open_number =>
    intro v hv
    rw [he.componentOf]
    exact h.open_number v fun hd => hv ((he.done_iff v).mpr hd)
  case done_number =>
    intro v hv
    rw [he.componentOf, he.componentCount]
    exact h.done_number v ((he.done_iff v).mp hv)
  case done_closed =>
    intro v w hv hcall
    obtain ⟨hw, hle⟩ := h.done_closed v w ((he.done_iff v).mp hv) hcall
    rw [he.componentOf]
    exact ⟨(he.done_iff w).mpr hw, hle⟩
  case done_linked =>
    intro v w hv hw
    rw [he.componentOf]
    exact h.done_linked v w ((he.done_iff v).mp hv) ((he.done_iff w).mp hw)
  case number_used =>
    intro c hc
    rw [he.componentCount] at hc
    obtain ⟨v, hv, hnum⟩ := h.number_used c hc
    rw [he.componentOf]
    exact ⟨v, (he.done_iff v).mpr hv, hnum⟩

end Enters

/-- Entering a vertex keeps the invariant, whether it is a root of the search
or the next successor of the vertex on top. -/
theorem Invariant.discover (h : Invariant successors s) {work : List (Fin count × ℕ)}
    {next : Fin count} (hadvance : Advances successors s work next)
    (htop : ∀ node below, s.path = node :: below → Calls successors node next)
    (hnext : s.index next = -1) :
    Invariant successors (TarjanState.discover { s with work } next) :=
  (h.enters hadvance htop hnext).invariant h

end codespine.query.TarjanState
