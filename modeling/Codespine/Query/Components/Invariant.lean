import Codespine.Lib.Digraph
import Codespine.Query.Components

open digraph

namespace codespine.query.TarjanState

variable {count : ℕ} {successors : Fin count → List (Fin count)}

/-- The arcs of a successor table. -/
def Calls (successors : Fin count → List (Fin count)) (a b : Fin count) : Prop := b ∈ successors a

/-- Vertices on the work stack, top first. -/
def path (s : TarjanState count) : List (Fin count) := s.work.map Prod.fst

/-- A vertex that has taken its index. -/
def Visited (s : TarjanState count) (v : Fin count) : Prop := s.index v ≠ -1

/-- A vertex whose component is closed. -/
def Done (s : TarjanState count) (v : Fin count) : Prop := s.Visited v ∧ v ∉ s.sccStack

/-- The arc from `v` to `w` has been looked at: it lies before the cursor of
the frame of `v`, or `v` has been left altogether. -/
def Processed (successors : Fin count → List (Fin count)) (s : TarjanState count)
    (v w : Fin count) : Prop :=
  (∃ position, (v, position) ∈ s.work ∧ w ∈ (successors v).take position) ∨
    (s.Visited v ∧ v ∉ s.path ∧ w ∈ successors v)

/-- `g` is the innermost vertex of the work stack that was entered no later
than `v`. -/
def Innermost (s : TarjanState count) (g v : Fin count) : Prop :=
  g ∈ s.path ∧ s.index g ≤ s.index v ∧
    ∀ h ∈ s.path, s.index h ≤ s.index g ∨ s.index v < s.index h

/-- What holds between any two iterations. The component stack is ordered by
index and contains the work stack; every vertex of the work stack reaches what
lies above it; a vertex that was left but not popped reaches something lower;
a lowlink is the index of a stacked vertex that is reached, and bounds every
stacked target of an arc already looked at; closed components are exactly
classes of linked vertices and are numbered callee first. -/
structure Invariant (successors : Fin count → List (Fin count)) (s : TarjanState count) : Prop where
  index_lt : ∀ v, s.index v < s.counter
  index_ge : ∀ v, -1 ≤ s.index v
  stack_sorted : s.sccStack.Pairwise (fun a b => s.index b < s.index a)
  stack_visited : ∀ v ∈ s.sccStack, s.Visited v
  onStack_iff : ∀ v, s.onStack v = true ↔ v ∈ s.sccStack
  path_sublist : s.path.Sublist s.sccStack
  processed_visited : ∀ v w, Processed successors s v w → s.Visited w
  path_reaches : ∀ g ∈ s.path, ∀ v ∈ s.sccStack, s.index g ≤ s.index v →
    Reaches (Calls successors) g v
  left_reaches : ∀ v ∈ s.sccStack, v ∉ s.path →
    ∃ u ∈ s.sccStack, s.index u < s.index v ∧ Reaches (Calls successors) v u
  lowlink_reached : ∀ g ∈ s.path, ∃ u ∈ s.sccStack, s.index u = s.lowlink g ∧
    Reaches (Calls successors) g u
  lowlink_le : ∀ g ∈ s.path, s.lowlink g ≤ s.index g
  lowlink_bounds : ∀ g v, s.Innermost g v → v ∈ s.sccStack → ∀ w ∈ s.sccStack,
    Processed successors s v w → s.lowlink g ≤ s.index w
  stack_rooted : ∀ v ∈ s.sccStack, ∃ g ∈ s.path, s.index g ≤ s.index v
  open_number : ∀ v, ¬ s.Done v → s.componentOf v = -1
  done_number : ∀ v, s.Done v → 0 ≤ s.componentOf v ∧ s.componentOf v < s.componentCount
  done_closed : ∀ v w, s.Done v → Calls successors v w →
    s.Done w ∧ s.componentOf w ≤ s.componentOf v
  done_linked : ∀ v w, s.Done v → s.Done w →
    (s.componentOf v = s.componentOf w ↔ Linked (Calls successors) v w)
  number_used : ∀ c : ℕ, c < s.componentCount → ∃ v, s.Done v ∧ s.componentOf v = c

theorem initial_invariant : Invariant successors (initial count) := by
  have hdone : ∀ v, ¬ (initial count).Done v := fun v h => h.1 rfl
  constructor <;> simp [initial, path, Processed, Visited, Innermost, Done]

namespace Invariant

variable {s : TarjanState count}

theorem stack_nodup (h : Invariant successors s) : s.sccStack.Nodup :=
  h.stack_sorted.imp fun hlt heq => by simp [heq] at hlt

theorem mem_stack_of_path (h : Invariant successors s) {v : Fin count} (hv : v ∈ s.path) :
    v ∈ s.sccStack :=
  h.path_sublist.subset hv

theorem path_sorted (h : Invariant successors s) :
    s.path.Pairwise (fun a b => s.index b < s.index a) :=
  h.stack_sorted.sublist h.path_sublist

/-- The top of the work stack was entered last. -/
theorem index_le_top (h : Invariant successors s) {node : Fin count} {below : List (Fin count)}
    (hpath : s.path = node :: below) {g : Fin count} (hg : g ∈ s.path) : s.index g ≤ s.index node := by
  have hsorted := h.path_sorted
  rw [hpath, List.pairwise_cons] at hsorted
  rw [hpath, List.mem_cons] at hg
  rcases hg with rfl | hg
  · exact le_rfl
  · exact (hsorted.1 g hg).le

/-- On the component stack an index names one vertex. -/
theorem eq_of_index_eq (h : Invariant successors s) {a b : Fin count} (ha : a ∈ s.sccStack)
    (hb : b ∈ s.sccStack) (heq : s.index a = s.index b) : a = b := by
  have hinj : ∀ l : List (Fin count), l.Pairwise (fun a b => s.index b < s.index a) →
      a ∈ l → b ∈ l → a = b := by
    intro l hl ha hb
    induction hl with
    | nil => cases ha
    | cons hlt _ ih =>
      rcases List.mem_cons.mp ha with rfl | ha' <;> rcases List.mem_cons.mp hb with rfl | hb'
      · rfl
      · have := hlt b hb'
        omega
      · have := hlt a ha'
        omega
      · exact ih ha' hb'
  exact hinj s.sccStack h.stack_sorted ha hb

/-- Nothing is left on the component stack once the work stack is empty. -/
theorem stack_eq_nil (h : Invariant successors s) (hwork : s.work = []) : s.sccStack = [] := by
  rw [List.eq_nil_iff_forall_not_mem]
  intro v hv
  obtain ⟨g, hg, _⟩ := h.stack_rooted v hv
  simp [path, hwork] at hg

end Invariant

end codespine.query.TarjanState
