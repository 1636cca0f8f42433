import Codespine.Query.Components.Advance

open digraph

namespace codespine.query.TarjanState

variable {count : ℕ} {successors : Fin count → List (Fin count)} {s : TarjanState count}

section Frames

variable {node : Fin count} {position : ℕ} {below : List (Fin count × ℕ)}

/-- With its cursor at the end, the top vertex has all of its arcs processed. -/
theorem processed_top (hwork : s.work = (node, position) :: below)
    (hend : (successors node).length ≤ position) {w : Fin count} (hw : Calls successors node w) :
    Processed successors s node w := by
  refine Or.inl ⟨position, by rw [hwork]; exact List.mem_cons_self, ?_⟩
  rwa [List.take_of_length_le hend]

/-- Dropping the top frame once its cursor is at the end processes nothing
new. -/
theorem processed_of_drop (hwork : s.work = (node, position) :: below)
    (hend : (successors node).length ≤ position) {lowlink : Fin count → ℤ} {v w : Fin count}
    (hproc : Processed successors { s with work := below, lowlink } v w) :
    Processed successors s v w := by
  rcases hproc with ⟨cursor, hmem, htake⟩ | ⟨hvisited, hout, hcall⟩
  · exact Or.inl ⟨cursor, by rw [hwork]; exact List.mem_cons_of_mem _ hmem, htake⟩
  · by_cases hv : v = node
    · subst hv
      exact processed_top hwork hend hcall
    · refine Or.inr ⟨hvisited, ?_, hcall⟩
      have hpath : s.path = node :: below.map Prod.fst := by simp [path, hwork]
      rw [hpath, List.mem_cons, not_or]
      exact ⟨hv, hout⟩

end Frames

/-- The last vertex of the work stack is the root of its component. -/
theorem Invariant.lowlink_eq_of_bottom (h : Invariant successors s) {node : Fin count} {position : ℕ}
    (hwork : s.work = [(node, position)]) : s.lowlink node = s.index node := by
  have hpath : s.path = [node] := by simp [path, hwork]
  have hnode : node ∈ s.path := by simp [hpath]
  obtain ⟨u, hu, hindex, _⟩ := h.lowlink_reached node hnode
  obtain ⟨g, hg, hle⟩ := h.stack_rooted u hu
  rw [hpath, List.mem_singleton] at hg
  subst hg
  have := h.lowlink_le g hnode
  omega

theorem mem_path_of_tail {node : Fin count} {tail : List (Fin count)} (hpath : s.path = node :: tail) {g : Fin count}
    (hg : g ∈ tail) : g ∈ s.path := by
  rw [hpath]
  exact List.mem_cons_of_mem _ hg

section Open

variable {node : Fin count} {tail : List (Fin count)} (h : Invariant successors s) (hpath : s.path = node :: tail)

include h hpath

theorem Invariant.index_lt_top {g : Fin count} (hg : g ∈ tail) : s.index g < s.index node := by
  have hsorted := h.path_sorted
  rw [hpath, List.pairwise_cons] at hsorted
  exact hsorted.1 g hg

/-- A vertex that is left open reaches the one its lowlink names, which is
lower. -/
theorem Invariant.left_reaches_top (hroot : s.lowlink node ≠ s.index node) {v : Fin count} (hv : v ∈ s.sccStack)
    (hout : v ∉ tail) : ∃ u ∈ s.sccStack, s.index u < s.index v ∧ Reaches (Calls successors) v u := by
  have hnode : node ∈ s.path := by simp [hpath]
  by_cases hvn : v = node
  · subst hvn
    obtain ⟨u, hu, hindex, hvu⟩ := h.lowlink_reached v hnode
    have hle := h.lowlink_le v hnode
    exact ⟨u, hu, by omega, hvu⟩
  · refine h.left_reaches v hv ?_
    rw [hpath, List.mem_cons, not_or]
    exact ⟨hvn, hout⟩

/-- What lies below the top vertex reaches what the lower of the two lowlinks
names. -/
theorem Invariant.lowlink_reached_min {g : Fin count} (hg : g ∈ tail) :
    ∃ u ∈ s.sccStack, s.index u = min (s.lowlink g) (s.lowlink node) ∧ Reaches (Calls successors) g u := by
  have hnode : node ∈ s.path := by simp [hpath]
  have hgpath := mem_path_of_tail hpath hg
  obtain hle | hle := le_total (s.lowlink g) (s.lowlink node)
  · rw [min_eq_left hle]
    exact h.lowlink_reached g hgpath
  · rw [min_eq_right hle]
    obtain ⟨u, hu, hindex, hnu⟩ := h.lowlink_reached node hnode
    have hgn := h.path_reaches g hgpath node (h.mem_stack_of_path hnode) (h.index_lt_top hpath hg).le
    exact ⟨u, hu, hindex, hgn.trans hnu⟩

/-- Without the top vertex, what was innermost above it falls to its parent. -/
theorem Invariant.lowlink_bounds_tail {g v w : Fin count} (hg : g ∈ tail) (hgv : s.index g ≤ s.index v)
    (hnone : ∀ k ∈ tail, s.index k ≤ s.index g ∨ s.index v < s.index k) (hv : v ∈ s.sccStack)
    (hw : w ∈ s.sccStack) (hvw : Processed successors s v w) :
    s.lowlink g ≤ s.index w ∨ (∀ k ∈ tail, s.index k ≤ s.index g) ∧ s.lowlink node ≤ s.index w := by
  have hnode : node ∈ s.path := by simp [hpath]
  by_cases habove : s.index v < s.index node
  · -- the top vertex lies above `v`, so `g` was innermost before
    refine Or.inl (h.lowlink_bounds g v ⟨mem_path_of_tail hpath hg, hgv, ?_⟩ hv w hw hvw)
    intro k hk
    rw [hpath, List.mem_cons] at hk
    obtain rfl | hk := hk
    · exact Or.inr habove
    · exact hnone k hk
  · refine Or.inr ⟨fun k hk => ?_, h.lowlink_bounds node v ⟨hnode, not_lt.mp habove, ?_⟩ hv w hw hvw⟩
    · have hlt := h.index_lt_top hpath hk
      have hk := hnone k hk
      omega
    · exact fun k hk => Or.inl (h.index_le_top hpath hk)

end Open

/-- Leaving a vertex that is not the root of its component keeps the
invariant: it stays on the component stack, and its parent takes over its
lowlink. -/
theorem Invariant.leave_open (h : Invariant successors s) {node parent : Fin count}
    {position cursor : ℕ} {rest : List (Fin count × ℕ)}
    (hwork : s.work = (node, position) :: (parent, cursor) :: rest)
    (hend : (successors node).length ≤ position) (hroot : s.lowlink node ≠ s.index node)
    {low : ℤ} (hlow : low = min (s.lowlink parent) (s.lowlink node)) :
    Invariant successors { s with
      work := (parent, cursor) :: rest
      lowlink := Function.update s.lowlink parent low } := by
  set s' : TarjanState count := { s with
    work := (parent, cursor) :: rest
    lowlink := Function.update s.lowlink parent low } with hs'
  have hpath : s.path = node :: s'.path := by simp [hs', path, hwork]
  have hsub : ∀ g ∈ s'.path, g ∈ s.path := fun g hg => mem_path_of_tail hpath hg
  have hparent : parent ∈ s'.path := by simp [hs', path]
  have hlowParent : s'.lowlink parent = low := by simp [hs']
  have hlowNe : ∀ v, v ≠ parent → s'.lowlink v = s.lowlink v := fun v hv => by simp [hs', hv]
  have hlowLe : ∀ v, s'.lowlink v ≤ s.lowlink v := by
    intro v
    by_cases hv : v = parent
    · rw [hv, hlowParent, hlow]
      exact min_le_left _ _
    · rw [hlowNe v hv]
  have hprocessed : ∀ v w, Processed successors s' v w → Processed successors s v w :=
    fun v w hvw => processed_of_drop hwork hend hvw
  constructor
  case index_lt => exact h.index_lt
  case index_ge => exact h.index_ge
  case stack_sorted => exact h.stack_sorted
  case stack_visited => exact h.stack_visited
  case onStack_iff => exact h.onStack_iff
  case path_sublist =>
    have hsublist := h.path_sublist
    rw [hpath] at hsublist
    exact (List.sublist_cons_self node _).trans hsublist
  case processed_visited => exact fun v w hvw => h.processed_visited v w (hprocessed v w hvw)
  case path_reaches => exact fun g hg => h.path_reaches g (hsub g hg)
  case left_reaches => exact fun v hv hout => h.left_reaches_top hpath hroot hv hout
  case lowlink_reached =>
    intro g hg
    by_cases hgp : g = parent
    · rw [hgp, hlowParent, hlow]
      exact h.lowlink_reached_min hpath hparent
    · rw [hlowNe g hgp]
      exact h.lowlink_reached g (hsub g hg)
  case lowlink_le => exact fun g hg => (hlowLe g).trans (h.lowlink_le g (hsub g hg))
  case lowlink_bounds =>
    intro g v hinner hv w hw hvw
    obtain ⟨hg, hgv, hnone⟩ := hinner
    obtain hbound | ⟨hlast, hbound⟩ := h.lowlink_bounds_tail hpath hg hgv hnone hv hw (hprocessed v w hvw)
    · exact (hlowLe g).trans hbound
    · have hgp : g = parent := by
        refine h.eq_of_index_eq (h.mem_stack_of_path (hsub g hg)) (h.mem_stack_of_path (hsub parent hparent)) ?_
        have htail : s'.path.Pairwise fun a b => s.index b < s.index a :=
          h.path_sorted.sublist (hpath ▸ List.sublist_cons_self node _)
        have hge := hlast parent hparent
        obtain heq | hmem := List.mem_cons.mp hg
        · exact congrArg s.index heq
        · have hlt : s.index g < s.index parent := (List.pairwise_cons.mp htail).1 g hmem
          omega
      rw [hgp, hlowParent, hlow]
      exact (min_le_right _ _).trans hbound
  case stack_rooted =>
    intro v hv
    obtain ⟨g, hg, hle⟩ := h.stack_rooted v hv
    rw [hpath, List.mem_cons] at hg
    obtain rfl | hg := hg
    · exact ⟨parent, hparent, (h.index_lt_top hpath hparent).le.trans hle⟩
    · exact ⟨g, hg, hle⟩
  case open_number => exact h.open_number
  case done_number => exact h.done_number
  case done_closed => exact h.done_closed
  case done_linked => exact h.done_linked
  case number_used => exact h.number_used

end codespine.query.TarjanState
