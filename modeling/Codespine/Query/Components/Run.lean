import Mathlib.Algebra.BigOperators.Fin
import Mathlib.Algebra.Order.BigOperators.Group.Finset
import Codespine.Query.Components.Close

open digraph

namespace codespine.query.TarjanState

variable {count : ℕ} {successors : Fin count → List (Fin count)} {s : TarjanState count}

/-- Leaving a vertex whose cursor is at the end keeps the invariant. -/
theorem Invariant.finish (h : Invariant successors s) {node : Fin count} {position : ℕ}
    {below : List (Fin count × ℕ)} (hwork : s.work = (node, position) :: below)
    (hend : (successors node).length ≤ position) :
    Invariant successors ((closeComponent s node).leave node below) := by
  have hpath : s.path = node :: below.map Prod.fst := by simp [path, hwork]
  have hnode : node ∈ s.path := by simp [hpath]
  by_cases hroot : s.lowlink node = s.index node
  · obtain ⟨above, rest, hstack, hnotAbove⟩ := List.eq_append_cons_of_mem (h.mem_stack_of_path hnode)
    obtain ⟨onStack, componentOf, hpop, hon, hnumber⟩ :=
      @popComponent_spec _ _ _ rest s.componentCount hnotAbove s.onStack s.componentOf
    have hinv := h.leave_closed hwork hend hroot hstack hon hnumber
    have hkeep : ∀ parent cursor tail, below = (parent, cursor) :: tail →
        ¬ s.lowlink node < s.lowlink parent := by
      intro parent cursor tail hbelow
      have hparent : parent ∈ s.path := by simp [hpath, hbelow]
      have hle := h.lowlink_le parent hparent
      have hindex := h.index_le_top hpath hparent
      omega
    simp only [closeComponent, if_pos hroot, hstack, hpop]
    cases below with
    | nil => exact hinv
    | cons frame tail =>
      simp only [leave, if_neg (hkeep frame.1 frame.2 tail rfl)]
      exact hinv
  · simp only [closeComponent, if_neg hroot]
    cases below with
    | nil => exact absurd (h.lowlink_eq_of_bottom hwork) hroot
    | cons frame tail =>
      have hinv := h.leave_open hwork hend hroot rfl
      simp only [leave]
      split
      · next hlt =>
        rwa [min_eq_right hlt.le] at hinv
      · next hge =>
        rw [min_eq_left (not_lt.mp hge), Function.update_eq_self] at hinv
        exact hinv

/-- One iteration of the inner loop keeps the invariant. -/
theorem Invariant.step (h : Invariant successors s) : Invariant successors (s.step successors) := by
  unfold TarjanState.step
  split
  · exact h
  · next node position below hwork =>
    split
    · next hlt => exact h.visitSuccessor hwork hlt
    · next hend => exact h.finish hwork (not_lt.mp hend)

theorem visited_discover_self (s : TarjanState count) (v : Fin count) : (s.discover v).Visited v := by
  simp only [Visited, discover, Function.update_self]
  omega

theorem visited_discover {v : Fin count} (hv : s.Visited v) (u : Fin count) : (s.discover u).Visited v := by
  by_cases heq : v = u
  · rw [heq]
    exact visited_discover_self s u
  · simpa [Visited, discover, heq] using hv

/-- A vertex keeps the index it took. -/
theorem visited_step {v : Fin count} (hv : s.Visited v) : (s.step successors).Visited v := by
  have hclose : ∀ (t : TarjanState count) node below,
      ((closeComponent t node).leave node below).index = t.index := by
    intro t node below
    unfold closeComponent leave
    split <;> split <;> (try split) <;> rfl
  unfold TarjanState.step
  split
  · exact hv
  · split
    · unfold visitSuccessor
      split
      · exact visited_discover hv _
      · split <;> exact hv
    · simpa only [Visited, hclose] using hv

/-- Iterations the inner loop can still make: one per remaining successor and
one to leave, for every frame and for every vertex not yet entered. -/
def remaining (successors : Fin count → List (Fin count)) (s : TarjanState count) : ℕ :=
  (s.work.map fun frame => (successors frame.1).length - frame.2 + 1).sum +
    ∑ v, if s.index v = -1 then (successors v).length + 1 else 0

/-- Entering a vertex moves its share from the unvisited to the frames. -/
theorem remaining_discover (s : TarjanState count) {v : Fin count} (hv : s.index v = -1) :
    remaining successors (s.discover v) = remaining successors s := by
  have hsum : (∑ u, if (s.discover v).index u = -1 then (successors u).length + 1 else 0) +
      ((successors v).length + 1) = ∑ u, if s.index u = -1 then (successors u).length + 1 else 0 := by
    rw [← Finset.sum_erase_add _ _ (Finset.mem_univ v), ← Finset.sum_erase_add (a := v) _ _ (Finset.mem_univ v)]
    have hzero : (if (s.discover v).index v = -1 then (successors v).length + 1 else 0) = 0 := by
      rw [if_neg]
      simp only [discover, Function.update_self]
      omega
    rw [hzero, if_pos hv, Nat.add_zero]
    congr 1
    refine Finset.sum_congr rfl fun u hu => ?_
    simp [discover, Finset.ne_of_mem_erase hu]
  unfold remaining
  rw [← hsum]
  simp only [discover, List.map_cons, List.sum_cons, Nat.sub_zero]
  omega

theorem remaining_step (hwork : s.work ≠ []) :
    remaining successors (s.step successors) < remaining successors s := by
  have hleave : ∀ (t : TarjanState count) node below,
      remaining successors ((closeComponent t node).leave node below) =
        remaining successors { t with work := below } := by
    intro t node below
    unfold closeComponent leave
    split <;> split <;> (try split) <;> rfl
  unfold TarjanState.step
  split
  · next hnil => exact absurd hnil hwork
  · next node position below hcons =>
    split
    · next hlt =>
      have hcursor : remaining successors { s with work := (node, position + 1) :: below } <
          remaining successors s := by
        simp only [remaining, hcons, List.map_cons, List.sum_cons]
        omega
      refine lt_of_le_of_lt ?_ hcursor
      unfold visitSuccessor
      split
      · next hfresh => exact (remaining_discover _ hfresh).le
      · split <;> rfl
    · rw [hleave]
      simp only [remaining, hcons, List.map_cons, List.sum_cons]
      omega

theorem remaining_le_fuel (hwork : s.work = []) : remaining successors s ≤ fuel successors := by
  rw [remaining, hwork, fuel, ← List.sum_toFinset _ (List.nodup_finRange count), List.toFinset_finRange]
  simp only [List.map_nil, List.sum_nil, Nat.zero_add]
  refine Finset.sum_le_sum fun v _ => ?_
  split <;> omega

/-- The inner loop keeps the invariant and every index, and with enough fuel
it stops on an empty work stack. -/
theorem Invariant.loop (h : Invariant successors s) (budget : ℕ) :
    Invariant successors (s.loop successors budget) ∧
      (∀ v, s.Visited v → (s.loop successors budget).Visited v) ∧
      (remaining successors s ≤ budget → (s.loop successors budget).work = []) := by
  induction budget generalizing s with
  | zero =>
    refine ⟨h, fun _ hv => hv, fun hle => ?_⟩
    change s.work = []
    by_contra hwork
    have := @remaining_step _ successors _ hwork
    omega
  | succ budget ih =>
    by_cases hwork : s.work = []
    · simpa [TarjanState.loop, hwork] using h
    · obtain ⟨hinv, hvisited, hstop⟩ := ih h.step
      simp only [TarjanState.loop, if_neg hwork]
      refine ⟨hinv, fun v hv => hvisited v (visited_step hv), fun hle => hstop ?_⟩
      have := @remaining_step _ successors _ hwork
      omega

/-- Between two iterations of the outer loop the work stack is empty. -/
theorem Invariant.start (h : Invariant successors s) (hwork : s.work = []) (vertex : Fin count) :
    Invariant successors (s.start successors vertex) ∧ (s.start successors vertex).work = [] ∧
      (s.start successors vertex).Visited vertex ∧
      ∀ v, s.Visited v → (s.start successors vertex).Visited v := by
  unfold TarjanState.start
  split
  · next hv => exact ⟨h, hwork, hv, fun _ hv => hv⟩
  · next hv =>
    have hfresh : s.index vertex = -1 := not_not.mp hv
    have hinv : Invariant successors (s.discover vertex) := by
      refine h.discover (advances_refl s vertex) ?_ hfresh
      intro node below hpath
      simp [path, hwork] at hpath
    obtain ⟨hloop, hvisited, hstop⟩ := hinv.loop (fuel successors)
    have hbudget : remaining successors (s.discover vertex) ≤ fuel successors := by
      rw [remaining_discover s hfresh]
      exact remaining_le_fuel hwork
    exact ⟨hloop, hstop hbudget, hvisited vertex (visited_discover_self s vertex),
      fun v hv => hvisited v (visited_discover hv vertex)⟩

theorem Invariant.foldl_start (h : Invariant successors s) (hwork : s.work = []) (vertices : List (Fin count)) :
    Invariant successors (vertices.foldl (TarjanState.start successors) s) ∧
      (vertices.foldl (TarjanState.start successors) s).work = [] ∧
      ∀ v, s.Visited v ∨ v ∈ vertices → (vertices.foldl (TarjanState.start successors) s).Visited v := by
  induction vertices generalizing s with
  | nil => simpa using ⟨h, hwork⟩
  | cons vertex vertices ih =>
    obtain ⟨hinv, hempty, hself, hmono⟩ := h.start hwork vertex
    obtain ⟨hinv', hempty', hvisited⟩ := ih hinv hempty
    refine ⟨hinv', hempty', ?_⟩
    rintro v (hv | hv)
    · exact hvisited v (Or.inl (hmono v hv))
    · rcases List.mem_cons.mp hv with rfl | hv
      · exact hvisited v (Or.inl hself)
      · exact hvisited v (Or.inr hv)

end codespine.query.TarjanState

namespace codespine.query

open TarjanState

variable {count : ℕ}

/-- The iterative pass numbers the strongly connected components: every vertex
gets a number below the count, two vertices get the same number exactly when
they are linked, no arc climbs, and no number is skipped. -/
theorem GraphQuery.stronglyConnectedComponents_spec (successors : Fin count → List (Fin count)) :
    let result := GraphQuery.stronglyConnectedComponents successors
    Numbering (Calls successors) result.componentOf ∧
      (∀ v, 0 ≤ result.componentOf v ∧ result.componentOf v < result.componentCount) ∧
      ∀ c : ℕ, c < result.componentCount → ∃ v, result.componentOf v = c := by
  obtain ⟨hinv, hwork, hvisited⟩ :=
    (@initial_invariant _ successors).foldl_start rfl (List.finRange count)
  have hstack := hinv.stack_eq_nil hwork
  have hdone : ∀ v, ((List.finRange count).foldl (TarjanState.start successors)
      (TarjanState.initial count)).Done v := by
    intro v
    refine ⟨hvisited v (Or.inr (List.mem_finRange v)), ?_⟩
    rw [hstack]
    exact List.not_mem_nil
  refine ⟨⟨fun a b => hinv.done_linked a b (hdone a) (hdone b), fun a b hab => ?_⟩, fun v => ?_, fun c hc => ?_⟩
  · exact (hinv.done_closed a b (hdone a) hab).2
  · exact hinv.done_number v (hdone v)
  · obtain ⟨v, _, hv⟩ := hinv.number_used c hc
    exact ⟨v, hv⟩

end codespine.query
