import Codespine.Query.Components.Leave

open digraph

namespace codespine.query.TarjanState

variable {count : ℕ} {successors : Fin count → List (Fin count)} {s : TarjanState count}

/-- The pop loop removes the stack down to `node`, and stamps exactly the
vertices it removes. In particular it never pops an empty stack. -/
theorem popComponent_spec {node : Fin count} {above rest : List (Fin count)} (component : ℤ)
    (hnode : node ∉ above) (onStack : Fin count → Bool) (componentOf : Fin count → ℤ) :
    ∃ onStack' componentOf',
      popComponent node component (above ++ node :: rest) onStack componentOf =
        (rest, onStack', componentOf') ∧
      (∀ v, onStack' v = if v ∈ above ++ [node] then false else onStack v) ∧
      ∀ v, componentOf' v = if v ∈ above ++ [node] then component else componentOf v := by
  induction above generalizing onStack componentOf with
  | nil =>
    refine ⟨_, _, by simp [popComponent]; exact ⟨rfl, rfl⟩, fun v => ?_, fun v => ?_⟩ <;>
      simp [Function.update_apply]
  | cons member above ih =>
    rw [List.mem_cons, not_or] at hnode
    obtain ⟨onStack', componentOf', heq, hon, hnumber⟩ := ih hnode.2
      (Function.update onStack member false) (Function.update componentOf member component)
    refine ⟨onStack', componentOf', ?_, fun v => ?_, fun v => ?_⟩
    · simp only [List.cons_append, popComponent, if_neg (Ne.symm hnode.1)]
      exact heq
    · rw [hon v]
      by_cases hv : v = member <;> by_cases hv' : v ∈ above ++ [node] <;> simp_all
    · rw [hnumber v]
      by_cases hv : v = member <;> by_cases hv' : v ∈ above ++ [node] <;> simp_all

/-- A list sublist that starts with `node` continues below the first `node`. -/
theorem sublist_of_cons_sublist {α : Type*} {node : α} {above rest l : List α} (hnode : node ∉ above)
    (h : (node :: l).Sublist (above ++ node :: rest)) : l.Sublist rest := by
  induction above with
  | nil => exact (List.cons_sublist_cons.mp h)
  | cons member above ih =>
    rw [List.mem_cons, not_or] at hnode
    refine ih hnode.2 ?_
    cases h with
    | cons _ htail => exact htail
    | cons_cons => exact absurd rfl hnode.1

section Root

variable {node : Fin count} {position : ℕ} {below : List (Fin count × ℕ)}

/-- What lies at or above `node` on the component stack. -/
def Segment (s : TarjanState count) (node v : Fin count) : Prop :=
  v ∈ s.sccStack ∧ s.index node ≤ s.index v

/-- Every arc out of the segment of a root stays in the segment or enters a
closed component: a lower stacked target would have lowered the lowlink. -/
theorem Invariant.segment_step (h : Invariant successors s) (hwork : s.work = (node, position) :: below)
    (hend : (successors node).length ≤ position) (hroot : s.lowlink node = s.index node)
    {v w : Fin count} (hv : s.Segment node v) (hcall : Calls successors v w) :
    s.Segment node w ∨ s.Done w := by
  have hpath : s.path = node :: below.map Prod.fst := by simp [path, hwork]
  have hnode : node ∈ s.path := by simp [hpath]
  have hprocessed : Processed successors s v w := by
    by_cases hvn : v = node
    · subst hvn
      exact processed_top hwork hend hcall
    · refine Or.inr ⟨h.stack_visited v hv.1, fun hvp => hvn ?_, hcall⟩
      refine h.eq_of_index_eq hv.1 (h.mem_stack_of_path hnode) ?_
      have hle := h.index_le_top hpath hvp
      have hge := hv.2
      omega
  by_cases hw : w ∈ s.sccStack
  · refine Or.inl ⟨hw, ?_⟩
    rw [← hroot]
    refine h.lowlink_bounds node v ⟨hnode, hv.2, ?_⟩ hv.1 w hw hprocessed
    exact fun k hk => Or.inl (h.index_le_top hpath hk)
  · exact Or.inr ⟨h.processed_visited v w hprocessed, hw⟩

theorem Invariant.segment_reaches (h : Invariant successors s) (hwork : s.work = (node, position) :: below)
    (hend : (successors node).length ≤ position) (hroot : s.lowlink node = s.index node)
    {v w : Fin count} (hv : s.Segment node v) (hvw : Reaches (Calls successors) v w) :
    s.Segment node w ∨ s.Done w :=
  hvw.mem_or_of_closed (fun _ _ ha hab => h.segment_step hwork hend hroot ha hab)
    (fun a b ha hab => (h.done_closed a b ha hab).1) hv

/-- Every vertex of the segment of a root reaches the root: whatever was left
reaches something lower, which cannot lie below the root. -/
theorem Invariant.reaches_root (h : Invariant successors s) (hwork : s.work = (node, position) :: below)
    (hend : (successors node).length ≤ position) (hroot : s.lowlink node = s.index node)
    {v : Fin count} (hv : s.Segment node v) : Reaches (Calls successors) v node := by
  have hpath : s.path = node :: below.map Prod.fst := by simp [path, hwork]
  have hnode : node ∈ s.path := by simp [hpath]
  obtain ⟨distance, hdistance⟩ : ∃ d : ℕ, s.index v = s.index node + d :=
    ⟨(s.index v - s.index node).toNat, by have := hv.2; omega⟩
  induction distance using Nat.strong_induction_on generalizing v with
  | _ distance ih =>
    by_cases hvp : v ∈ s.path
    · have hle := h.index_le_top hpath hvp
      have heq : v = node := by
        refine h.eq_of_index_eq hv.1 (h.mem_stack_of_path hnode) ?_
        have := hv.2
        omega
      rw [heq]
      exact Reaches.refl node
    · obtain ⟨u, hu, hlt, hvu⟩ := h.left_reaches v hv.1 hvp
      rcases h.segment_reaches hwork hend hroot hv hvu with hseg | hdone
      · have hge := hseg.2
        exact hvu.trans (ih (s.index u - s.index node).toNat (by omega) hseg (by omega))
      · exact absurd hu hdone.2

theorem Invariant.segment_linked (h : Invariant successors s) (hwork : s.work = (node, position) :: below)
    (hend : (successors node).length ≤ position) (hroot : s.lowlink node = s.index node)
    {v : Fin count} (hv : s.Segment node v) : Linked (Calls successors) v node := by
  have hnode : node ∈ s.path := by simp [path, hwork]
  exact ⟨h.reaches_root hwork hend hroot hv, h.path_reaches node hnode v hv.1 hv.2⟩

end Root

/-- A closed component is closed under walks. -/
theorem Invariant.done_of_reaches (h : Invariant successors s) {v w : Fin count} (hv : s.Done v)
    (hvw : Reaches (Calls successors) v w) : s.Done w :=
  hvw.mem_of_closed (fun a b ha hab => (h.done_closed a b ha hab).1) hv

/-- What closing the component of `node` and leaving it changes: the segment of
`node` goes off the component stack, and gets the next number. -/
structure Closes (successors : Fin count → List (Fin count)) (s s' : TarjanState count) (node : Fin count) : Prop where
  path : s.path = node :: s'.path
  stack_iff : ∀ v, v ∈ s.sccStack ↔ s.Segment node v ∨ v ∈ s'.sccStack
  index_lt_of_stack : ∀ v ∈ s'.sccStack, s.index v < s.index node
  stack_sorted : s'.sccStack.Pairwise fun a b => s.index b < s.index a
  path_sublist : s'.path.Sublist s'.sccStack
  onStack_iff : ∀ v, s'.onStack v = true ↔ v ∈ s'.sccStack
  index : s'.index = s.index
  lowlink : s'.lowlink = s.lowlink
  counter : s'.counter = s.counter
  componentCount : s'.componentCount = s.componentCount + 1
  number_of_segment : ∀ v, s.Segment node v → s'.componentOf v = s.componentCount
  number_of_not_segment : ∀ v, ¬ s.Segment node v → s'.componentOf v = s.componentOf v
  processed : ∀ v w, Processed successors s' v w → Processed successors s v w
  segment_step : ∀ v w, s.Segment node v → Calls successors v w → s.Segment node w ∨ s.Done w
  segment_linked : ∀ v, s.Segment node v → Linked (Calls successors) v node

theorem Invariant.closes (h : Invariant successors s) {node : Fin count} {position : ℕ}
    {below : List (Fin count × ℕ)} (hwork : s.work = (node, position) :: below)
    (hend : (successors node).length ≤ position) (hroot : s.lowlink node = s.index node)
    {above rest : List (Fin count)} (hstack : s.sccStack = above ++ node :: rest)
    {onStack : Fin count → Bool} {componentOf : Fin count → ℤ}
    (hon : ∀ v, onStack v = if v ∈ above ++ [node] then false else s.onStack v)
    (hnumber : ∀ v, componentOf v = if v ∈ above ++ [node] then (s.componentCount : ℤ) else s.componentOf v) :
    Closes successors s { s with
      work := below
      sccStack := rest
      onStack := onStack
      componentOf := componentOf
      componentCount := s.componentCount + 1 } node := by
  have hpath : s.path = node :: below.map Prod.fst := by simp [path, hwork]
  have hnodup := h.stack_nodup
  rw [hstack] at hnodup
  have hnotAbove : node ∉ above := fun hmem =>
    (List.nodup_append.mp hnodup).2.2 node hmem node List.mem_cons_self rfl
  have hsorted := h.stack_sorted
  rw [hstack, List.pairwise_append, List.pairwise_cons] at hsorted
  have hrestLt : ∀ v ∈ rest, s.index v < s.index node := hsorted.2.1.1
  have hsegment : ∀ v, v ∈ above ++ [node] ↔ s.Segment node v := by
    intro v
    simp only [Segment, hstack, List.mem_append, List.mem_cons, List.not_mem_nil, or_false]
    constructor
    · rintro (hv | rfl)
      · exact ⟨Or.inl hv, (hsorted.2.2 v hv node List.mem_cons_self).le⟩
      · exact ⟨Or.inr (Or.inl rfl), le_rfl⟩
    · rintro ⟨hv | hv | hv, hle⟩
      · exact Or.inl hv
      · exact Or.inr hv
      · have hlt := hrestLt v hv
        omega
  have hstackSplit : ∀ v, v ∈ s.sccStack ↔ s.Segment node v ∨ v ∈ rest := by
    intro v
    rw [← hsegment, hstack]
    simp [or_assoc]
  constructor
  case path => exact hpath
  case stack_iff => exact hstackSplit
  case index_lt_of_stack => exact hrestLt
  case stack_sorted => exact hsorted.2.1.2
  case path_sublist =>
    have hsublist := h.path_sublist
    rw [hpath, hstack] at hsublist
    exact sublist_of_cons_sublist hnotAbove hsublist
  case onStack_iff =>
    intro v
    change onStack v = true ↔ v ∈ rest
    rw [hon v]
    by_cases hv : v ∈ above ++ [node]
    · simp only [if_pos hv, Bool.false_eq_true, false_iff]
      intro hmem
      have hlt := hrestLt v hmem
      have hge := ((hsegment v).mp hv).2
      omega
    · rw [if_neg hv, h.onStack_iff v, hstackSplit v, or_iff_right fun hseg => hv ((hsegment v).mpr hseg)]
  case index => rfl
  case lowlink => rfl
  case counter => rfl
  case componentCount => rfl
  case number_of_segment =>
    intro v hv
    change componentOf v = s.componentCount
    rw [hnumber v, if_pos ((hsegment v).mpr hv)]
  case number_of_not_segment =>
    intro v hv
    change componentOf v = s.componentOf v
    rw [hnumber v, if_neg fun hmem => hv ((hsegment v).mp hmem)]
  case processed => exact fun v w hvw => @processed_of_drop _ _ _ _ _ _ hwork hend s.lowlink _ _ hvw
  case segment_step => exact fun v w hv hcall => h.segment_step hwork hend hroot hv hcall
  case segment_linked => exact fun v hv => h.segment_linked hwork hend hroot hv

section Closes

variable {s' : TarjanState count} {node : Fin count} (hc : Closes successors s s' node)

include hc

theorem Closes.mem_path {g : Fin count} (hg : g ∈ s'.path) : g ∈ s.path := by
  rw [hc.path]
  exact List.mem_cons_of_mem _ hg

theorem Closes.node_mem_path : node ∈ s.path := by
  rw [hc.path]
  exact List.mem_cons_self

theorem Closes.mem_stack {v : Fin count} (hv : v ∈ s'.sccStack) : v ∈ s.sccStack := (hc.stack_iff v).mpr (Or.inr hv)

/-- What is left of the stack lies below the segment. -/
theorem Closes.mem_stack_of_lt {v : Fin count} (hv : v ∈ s.sccStack) (hlt : s.index v < s.index node) :
    v ∈ s'.sccStack := by
  refine ((hc.stack_iff v).mp hv).resolve_left fun hseg => ?_
  have hge := hseg.2
  omega

theorem Closes.visited_iff (v : Fin count) : s'.Visited v ↔ s.Visited v := by
  rw [Visited, hc.index, Visited]

/-- What lies below an old vertex of the new path lies on the new stack. -/
theorem Closes.left_reaches (h : Invariant successors s) {v : Fin count} (hv : v ∈ s'.sccStack) (hout : v ∉ s'.path) :
    ∃ u ∈ s'.sccStack, s.index u < s.index v ∧ Reaches (Calls successors) v u := by
  have hlt := hc.index_lt_of_stack v hv
  have hleft : v ∉ s.path := by
    rw [hc.path, List.mem_cons, not_or]
    refine ⟨?_, hout⟩
    rintro rfl
    omega
  obtain ⟨u, hu, hlt', hvu⟩ := h.left_reaches v (hc.mem_stack hv) hleft
  exact ⟨u, hc.mem_stack_of_lt hu (hlt'.trans hlt), hlt', hvu⟩

theorem Closes.lowlink_reached (h : Invariant successors s) {g : Fin count} (hg : g ∈ s'.path) :
    ∃ u ∈ s'.sccStack, s.index u = s.lowlink g ∧ Reaches (Calls successors) g u := by
  obtain ⟨u, hu, hindex, hgu⟩ := h.lowlink_reached g (hc.mem_path hg)
  refine ⟨u, hc.mem_stack_of_lt hu ?_, hindex, hgu⟩
  have hlow := h.lowlink_le g (hc.mem_path hg)
  have hsortedPath := h.path_sorted
  rw [hc.path, List.pairwise_cons] at hsortedPath
  have hlt := hsortedPath.1 g hg
  omega

theorem Closes.lowlink_bounds (h : Invariant successors s) {g v w : Fin count} (hinner : s'.Innermost g v)
    (hv : v ∈ s'.sccStack) (hw : w ∈ s'.sccStack) (hvw : Processed successors s' v w) : s.lowlink g ≤ s.index w := by
  obtain ⟨hg, hgv, hnone⟩ := hinner
  rw [hc.index] at hgv hnone
  refine h.lowlink_bounds g v ⟨hc.mem_path hg, hgv, ?_⟩ (hc.mem_stack hv) w (hc.mem_stack hw) (hc.processed v w hvw)
  intro k hk
  rw [hc.path, List.mem_cons] at hk
  obtain rfl | hk := hk
  · exact Or.inr (hc.index_lt_of_stack v hv)
  · exact hnone k hk

theorem Closes.stack_rooted (h : Invariant successors s) {v : Fin count} (hv : v ∈ s'.sccStack) :
    ∃ g ∈ s'.path, s.index g ≤ s.index v := by
  have hlt := hc.index_lt_of_stack v hv
  obtain ⟨g, hg, hle⟩ := h.stack_rooted v (hc.mem_stack hv)
  rw [hc.path, List.mem_cons] at hg
  obtain rfl | hg := hg
  · omega
  · exact ⟨g, hg, hle⟩

/-- The segment is what is closed anew. -/
theorem Closes.done_iff (h : Invariant successors s) (v : Fin count) : s'.Done v ↔ s.Done v ∨ s.Segment node v := by
  rw [Done, hc.visited_iff]
  constructor
  · rintro ⟨hvisited, hout⟩
    by_cases hv : v ∈ s.sccStack
    · exact Or.inr (((hc.stack_iff v).mp hv).resolve_right hout)
    · exact Or.inl ⟨hvisited, hv⟩
  · rintro (hv | hv)
    · exact ⟨hv.1, fun hmem => hv.2 (hc.mem_stack hmem)⟩
    · refine ⟨h.stack_visited v hv.1, fun hmem => ?_⟩
      have hlt := hc.index_lt_of_stack v hmem
      have hge := hv.2
      omega

theorem Closes.number_of_done {v : Fin count} (hv : s.Done v) : s'.componentOf v = s.componentOf v :=
  hc.number_of_not_segment v fun hseg => hv.2 hseg.1

theorem Closes.done_number (h : Invariant successors s) {v : Fin count} (hv : s'.Done v) :
    0 ≤ s'.componentOf v ∧ s'.componentOf v < s'.componentCount := by
  rw [hc.componentCount]
  obtain hv | hv := (hc.done_iff h v).mp hv
  · have hbounds := h.done_number v hv
    rw [hc.number_of_done hv]
    omega
  · rw [hc.number_of_segment v hv]
    omega

/-- Arcs of the segment lead into it or into components numbered before. -/
theorem Closes.done_closed (h : Invariant successors s) {v w : Fin count} (hv : s'.Done v)
    (hcall : Calls successors v w) : s'.Done w ∧ s'.componentOf w ≤ s'.componentOf v := by
  obtain hv | hv := (hc.done_iff h v).mp hv
  · obtain ⟨hw, hle⟩ := h.done_closed v w hv hcall
    refine ⟨(hc.done_iff h w).mpr (Or.inl hw), ?_⟩
    rwa [hc.number_of_done hv, hc.number_of_done hw]
  · rw [hc.number_of_segment v hv]
    obtain hw | hw := hc.segment_step v w hv hcall
    · exact ⟨(hc.done_iff h w).mpr (Or.inr hw), (hc.number_of_segment w hw).le⟩
    · refine ⟨(hc.done_iff h w).mpr (Or.inl hw), ?_⟩
      rw [hc.number_of_done hw]
      exact (h.done_number w hw).2.le

/-- The segment is one class of linked vertices, apart from those closed
before. -/
theorem Closes.done_linked (h : Invariant successors s) {v w : Fin count} (hv : s'.Done v) (hw : s'.Done w) :
    s'.componentOf v = s'.componentOf w ↔ Linked (Calls successors) v w := by
  have hseparate : ∀ v w, s.Done v → s.Segment node w →
      s.componentOf v ≠ s.componentCount ∧ ¬ Linked (Calls successors) v w := by
    intro v w hv hw
    refine ⟨(h.done_number v hv).2.ne, fun hlinked => ?_⟩
    exact (h.done_of_reaches hv hlinked.1).2 hw.1
  obtain hv | hv := (hc.done_iff h v).mp hv <;> obtain hw | hw := (hc.done_iff h w).mp hw
  · rw [hc.number_of_done hv, hc.number_of_done hw]
    exact h.done_linked v w hv hw
  · obtain ⟨hne, hnot⟩ := hseparate v w hv hw
    rw [hc.number_of_done hv, hc.number_of_segment w hw]
    exact iff_of_false hne hnot
  · obtain ⟨hne, hnot⟩ := hseparate w v hw hv
    rw [hc.number_of_done hw, hc.number_of_segment v hv]
    exact iff_of_false hne.symm fun hlinked => hnot hlinked.symm
  · rw [hc.number_of_segment v hv, hc.number_of_segment w hw]
    exact iff_of_true rfl ((hc.segment_linked v hv).trans (hc.segment_linked w hw).symm)

theorem Closes.number_used (h : Invariant successors s) {c : ℕ} (hlt : c < s'.componentCount) :
    ∃ v, s'.Done v ∧ s'.componentOf v = c := by
  rw [hc.componentCount] at hlt
  by_cases hlast : c = s.componentCount
  · have hseg : s.Segment node node := ⟨h.mem_stack_of_path hc.node_mem_path, le_rfl⟩
    exact ⟨node, (hc.done_iff h node).mpr (Or.inr hseg), hlast ▸ hc.number_of_segment node hseg⟩
  · obtain ⟨v, hv, hvc⟩ := h.number_used c (by omega)
    exact ⟨v, (hc.done_iff h v).mpr (Or.inl hv), (hc.number_of_done hv).trans hvc⟩

theorem Closes.invariant (h : Invariant successors s) : Invariant successors s' := by
  constructor
  case index_lt => exact fun v => by rw [hc.index, hc.counter]; exact h.index_lt v
  case index_ge => exact fun v => by rw [hc.index]; exact h.index_ge v
  case stack_sorted => exact hc.index ▸ hc.stack_sorted
  case stack_visited => exact fun v hv => (hc.visited_iff v).mpr (h.stack_visited v (hc.mem_stack hv))
  case onStack_iff => exact hc.onStack_iff
  case path_sublist => exact hc.path_sublist
  case processed_visited =>
    exact fun v w hvw => (hc.visited_iff w).mpr (h.processed_visited v w (hc.processed v w hvw))
  case path_reaches =>
    rw [hc.index]
    exact fun g hg v hv => h.path_reaches g (hc.mem_path hg) v (hc.mem_stack hv)
  case left_reaches =>
    rw [hc.index]
    exact fun v hv hout => hc.left_reaches h hv hout
  case lowlink_reached =>
    rw [hc.index, hc.lowlink]
    exact fun g hg => hc.lowlink_reached h hg
  case lowlink_le =>
    rw [hc.index, hc.lowlink]
    exact fun g hg => h.lowlink_le g (hc.mem_path hg)
  case lowlink_bounds =>
    rw [hc.index, hc.lowlink]
    exact fun g v hinner hv w hw hvw => hc.lowlink_bounds h hinner hv hw hvw
  case stack_rooted =>
    rw [hc.index]
    exact fun v hv => hc.stack_rooted h hv
  case open_number =>
    intro v hv
    rw [hc.done_iff h, not_or] at hv
    rw [hc.number_of_not_segment v hv.2]
    exact h.open_number v hv.1
  case done_number => exact fun v hv => hc.done_number h hv
  case done_closed => exact fun v w hv hcall => hc.done_closed h hv hcall
  case done_linked => exact fun v w hv hw => hc.done_linked h hv hw
  case number_used => exact fun c hlt => hc.number_used h hlt

end Closes

/-- Popping the component of a root and leaving it keeps the invariant: the
segment of the root is one class of linked vertices, and its arcs lead into
components that were closed, hence numbered, before. -/
theorem Invariant.leave_closed (h : Invariant successors s) {node : Fin count} {position : ℕ}
    {below : List (Fin count × ℕ)} (hwork : s.work = (node, position) :: below)
    (hend : (successors node).length ≤ position) (hroot : s.lowlink node = s.index node)
    {above rest : List (Fin count)} (hstack : s.sccStack = above ++ node :: rest)
    {onStack : Fin count → Bool} {componentOf : Fin count → ℤ}
    (hon : ∀ v, onStack v = if v ∈ above ++ [node] then false else s.onStack v)
    (hnumber : ∀ v, componentOf v = if v ∈ above ++ [node] then (s.componentCount : ℤ) else s.componentOf v) :
    Invariant successors { s with
      work := below
      sccStack := rest
      onStack := onStack
      componentOf := componentOf
      componentCount := s.componentCount + 1 } :=
  (h.closes hwork hend hroot hstack hon hnumber).invariant h

end codespine.query.TarjanState
