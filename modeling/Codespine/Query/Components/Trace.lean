import Codespine.Query.Components.Run

open digraph

namespace codespine.query.TarjanState

variable {count : ℕ} {successors : Fin count → List (Fin count)} {s : TarjanState count}

section Pop

/-- The vertices that the pop loop gives a number to, in order. -/
def poppedBy (node : Fin count) : List (Fin count) → List (Fin count)
  | [] => [node]
  | member :: rest => if member = node then [member] else member :: poppedBy node rest

/-- The pop loop reads `undefined` off an empty stack before it meets `node`. -/
def popsEmpty (node : Fin count) : List (Fin count) → Bool
  | [] => true
  | member :: rest => if member = node then false else popsEmpty node rest

variable {node : Fin count} {l : List (Fin count)}

theorem componentOf_popComponent (component : ℤ) (onStack : Fin count → Bool) (componentOf : Fin count → ℤ) :
    (popComponent node component l onStack componentOf).2.2 =
      (poppedBy node l).foldl (fun componentOf member => Function.update componentOf member component) componentOf := by
  induction l generalizing onStack componentOf with
  | nil => rfl
  | cons member rest ih =>
    simp only [popComponent, poppedBy]
    split
    · rfl
    · exact ih _ _

/-- What the pop loop takes off the stack is what it gives a number to. -/
theorem poppedBy_append (h : node ∈ l) (component : ℤ) (onStack : Fin count → Bool) (componentOf : Fin count → ℤ) :
    poppedBy node l ++ (popComponent node component l onStack componentOf).1 = l := by
  induction l generalizing onStack componentOf with
  | nil => cases h
  | cons member rest ih =>
    simp only [popComponent, poppedBy]
    split
    · rfl
    · next hne =>
      have hrest : node ∈ rest := (List.mem_cons.mp h).resolve_left (Ne.symm hne)
      rw [List.cons_append, ih hrest]

theorem popsEmpty_eq_false (h : node ∈ l) : popsEmpty node l = false := by
  induction l with
  | nil => cases h
  | cons member rest ih =>
    rw [popsEmpty]
    split
    · rfl
    · next hne => exact ih ((List.mem_cons.mp h).resolve_left (Ne.symm hne))

end Pop

section Step

/-- The vertex whose component one iteration of the inner loop closes. -/
def closing (successors : Fin count → List (Fin count)) (s : TarjanState count) : Option (Fin count) :=
  match s.work with
  | [] => none
  | (node, position) :: _ =>
    if position < (successors node).length then none
    else if s.lowlink node = s.index node then some node
    else none

/-- The vertices that it gives a component number to, in order. -/
def assigned (successors : Fin count → List (Fin count)) (s : TarjanState count) : List (Fin count) :=
  match closing successors s with
  | some node => poppedBy node s.sccStack
  | none => []

theorem leave_eq (s : TarjanState count) (node : Fin count) (below : List (Fin count × ℕ)) :
    ∃ lowlink, s.leave node below = { s with work := below, lowlink } := by
  unfold leave
  split
  · exact ⟨s.lowlink, rfl⟩
  · split
    · exact ⟨_, rfl⟩
    · exact ⟨s.lowlink, rfl⟩

theorem closing_eq_some_iff {node : Fin count} : closing successors s = some node ↔
    ∃ position below, s.work = (node, position) :: below ∧ (successors node).length ≤ position ∧
      s.lowlink node = s.index node := by
  unfold closing
  split
  · next hwork => simp [hwork]
  · next top position below hwork =>
    rw [hwork]
    constructor
    · intro h
      split at h
      · cases h
      · next hend =>
        split at h
        · next hroot =>
          cases h
          exact ⟨position, below, rfl, not_lt.mp hend, hroot⟩
        · cases h
    · rintro ⟨_, _, heq, hend, hroot⟩
      obtain ⟨⟨rfl, rfl⟩, rfl⟩ := by simpa using heq
      rw [if_neg (not_lt.mpr hend), if_pos hroot]

/-- An iteration that closes a component takes it off the stack. -/
theorem step_of_closing {node : Fin count} (h : closing successors s = some node) :
    (s.step successors).index = s.index ∧
      (s.step successors).sccStack = (popComponent node s.componentCount s.sccStack s.onStack s.componentOf).1 ∧
      (s.step successors).componentOf = (popComponent node s.componentCount s.sccStack s.onStack s.componentOf).2.2 := by
  obtain ⟨position, below, hwork, hend, hroot⟩ := closing_eq_some_iff.mp h
  obtain ⟨lowlink, hleave⟩ := leave_eq (closeComponent s node) node below
  have hstep : s.step successors = (closeComponent s node).leave node below := by
    simp only [TarjanState.step, hwork, dif_neg (not_lt.mpr hend)]
  rw [hstep, hleave, closeComponent, if_pos hroot]
  exact ⟨rfl, rfl, rfl⟩

/-- While a component is popped, `onStack` marks what is still on the stack. -/
theorem Invariant.onStack_popped (h : Invariant successors s) {popped rest : List (Fin count)}
    (hstack : s.sccStack = popped ++ rest) (v : Fin count) :
    popped.foldl (fun onStack member => Function.update onStack member false) s.onStack v = true ↔ v ∈ rest := by
  have hfold : ∀ (l : List (Fin count)) (onStack : Fin count → Bool),
      l.foldl (fun onStack member => Function.update onStack member false) onStack v = true ↔
        v ∉ l ∧ onStack v = true := by
    intro l
    induction l with
    | nil => simp
    | cons member l ih =>
      intro onStack
      rw [List.foldl_cons, ih, List.mem_cons, not_or]
      by_cases hv : v = member <;> simp [hv]
  have hnodup := h.stack_nodup
  rw [hstack] at hnodup
  rw [hfold, h.onStack_iff, hstack, List.mem_append]
  constructor
  · rintro ⟨hnot, hmem⟩
    exact hmem.resolve_left hnot
  · exact fun hrest => ⟨fun hpopped => List.disjoint_of_nodup_append hnodup hpopped hrest, Or.inr hrest⟩

/-- Any other iteration leaves the component numbers and what is done alone. -/
theorem step_of_not_closing (h : closing successors s = none) :
    (s.step successors).componentOf = s.componentOf ∧ ∀ v, (s.step successors).Done v ↔ s.Done v := by
  unfold TarjanState.step
  split
  · exact ⟨rfl, fun _ => Iff.rfl⟩
  · next node position below hwork =>
    split
    · next hlt =>
      unfold visitSuccessor
      split
      · next hfresh =>
        refine ⟨rfl, fun v => ?_⟩
        by_cases hv : v = (successors node)[position]
        · rw [hv]
          refine iff_of_false (fun hdone => hdone.2 List.mem_cons_self) fun hdone => hdone.1 hfresh
        · simp [Done, Visited, discover, hv]
      · split
        · exact ⟨rfl, fun _ => Iff.rfl⟩
        · exact ⟨rfl, fun _ => Iff.rfl⟩
    · next hend =>
      have hroot : ¬ s.lowlink node = s.index node := by
        intro hroot
        rw [closing_eq_some_iff.mpr ⟨position, below, hwork, not_lt.mp hend, hroot⟩] at h
        cases h
      obtain ⟨lowlink, hleave⟩ := leave_eq (closeComponent s node) node below
      rw [hleave, closeComponent, if_neg hroot]
      exact ⟨rfl, fun _ => Iff.rfl⟩

/-- The numbers that an iteration sets are those of the vertices it pops. -/
theorem componentOf_step (successors : Fin count → List (Fin count)) (s : TarjanState count) :
    (s.step successors).componentOf = (assigned successors s).foldl
      (fun componentOf member => Function.update componentOf member (s.componentCount : ℤ)) s.componentOf := by
  unfold assigned
  split
  · next node hclosing =>
    rw [(step_of_closing hclosing).2.2, componentOf_popComponent]
  · next hclosing => exact (step_of_not_closing hclosing).1

/-- The component that is closed has its root on the stack. -/
theorem Invariant.mem_stack_of_closing (h : Invariant successors s) {node : Fin count}
    (hclosing : closing successors s = some node) : node ∈ s.sccStack := by
  obtain ⟨position, below, hwork, _⟩ := closing_eq_some_iff.mp hclosing
  exact h.mem_stack_of_path (by simp [path, hwork])

/-- What an iteration gives a number to was on the stack, each vertex once. -/
theorem Invariant.assigned_sublist (h : Invariant successors s) : (assigned successors s).Sublist s.sccStack := by
  unfold assigned
  split
  · next node hclosing =>
    have happend := poppedBy_append (h.mem_stack_of_closing hclosing) s.componentCount s.onStack s.componentOf
    have hsublist := List.sublist_append_left (poppedBy node s.sccStack)
      (popComponent node s.componentCount s.sccStack s.onStack s.componentOf).1
    rwa [happend] at hsublist
  · exact List.nil_sublist _

/-- The vertices that are done afterwards are those that were, and those that
got a number. -/
theorem Invariant.done_step_iff (h : Invariant successors s) (v : Fin count) :
    (s.step successors).Done v ↔ s.Done v ∨ v ∈ assigned successors s := by
  unfold assigned
  split
  · next node hclosing =>
    obtain ⟨hindex, hstack, _⟩ := step_of_closing hclosing
    have happend := poppedBy_append (h.mem_stack_of_closing hclosing) s.componentCount s.onStack s.componentOf
    rw [← hstack] at happend
    have hnodup : (poppedBy node s.sccStack ++ (s.step successors).sccStack).Nodup := happend.symm ▸ h.stack_nodup
    have hmem : v ∈ s.sccStack ↔ v ∈ poppedBy node s.sccStack ∨ v ∈ (s.step successors).sccStack := by
      rw [← List.mem_append, happend]
    rw [Done, Visited, hindex, Done, Visited, hmem, not_or]
    constructor
    · rintro ⟨hvisited, hnot⟩
      by_cases hpopped : v ∈ poppedBy node s.sccStack
      · exact Or.inr hpopped
      · exact Or.inl ⟨hvisited, hpopped, hnot⟩
    · rintro (⟨hvisited, _, hnot⟩ | hpopped)
      · exact ⟨hvisited, hnot⟩
      · exact ⟨h.stack_visited v (hmem.mpr (Or.inl hpopped)), List.disjoint_of_nodup_append hnodup hpopped⟩
  · next hclosing => simpa using (step_of_not_closing hclosing).2 v

end Step

/-- The runs of the two loops, iteration by iteration: the vertices that the
outer loop has still to look at, the variables, and the vertices that got a
component number so far, in order. -/
inductive Trace (successors : Fin count → List (Fin count)) :
    List (Fin count) → TarjanState count → List (Fin count) → Prop
  | initial : Trace successors (List.finRange count) (initial count) []
  | skip {vertex pending s log} : Trace successors (vertex :: pending) s log → s.work = [] → s.index vertex ≠ -1 →
      Trace successors pending s log
  | enter {vertex pending s log} : Trace successors (vertex :: pending) s log → s.work = [] → s.index vertex = -1 →
      Trace successors pending (s.discover vertex) log
  | iterate {pending s log} : Trace successors pending s log → s.work ≠ [] →
      Trace successors pending (s.step successors) (log ++ assigned successors s)

section Trace

variable {pending log : List (Fin count)}

/-- Entering a vertex between two runs of the inner loop. -/
theorem Invariant.discover_root (h : Invariant successors s) (hwork : s.work = []) {vertex : Fin count}
    (hfresh : s.index vertex = -1) : Invariant successors (s.discover vertex) := by
  refine h.discover (advances_refl s vertex) ?_ hfresh
  intro node below hpath
  simp [path, hwork] at hpath

theorem done_discover_iff {vertex : Fin count} (hfresh : s.index vertex = -1) (v : Fin count) :
    (s.discover vertex).Done v ↔ s.Done v := by
  by_cases hv : v = vertex
  · rw [hv]
    exact iff_of_false (fun hdone => hdone.2 List.mem_cons_self) fun hdone => hdone.1 hfresh
  · simp [Done, Visited, discover, hv]

/-- In every state of a run the invariant holds, and the vertices that got a
number are the done ones, each of which got it once. -/
theorem Trace.invariant (h : Trace successors pending s log) :
    Invariant successors s ∧ log.Nodup ∧ ∀ v, v ∈ log ↔ s.Done v := by
  induction h with
  | initial =>
    refine ⟨initial_invariant, List.nodup_nil, fun v => ?_⟩
    exact iff_of_false List.not_mem_nil fun hdone => hdone.1 rfl
  | skip _ _ _ ih => exact ih
  | enter _ hwork hfresh ih =>
    obtain ⟨hinv, hnodup, hlog⟩ := ih
    exact ⟨hinv.discover_root hwork hfresh, hnodup, fun v => (hlog v).trans (done_discover_iff hfresh v).symm⟩
  | iterate _ _ ih =>
    obtain ⟨hinv, hnodup, hlog⟩ := ih
    refine ⟨hinv.step, ?_, fun v => ?_⟩
    · refine List.nodup_append.mpr ⟨hnodup, hinv.stack_nodup.sublist hinv.assigned_sublist, ?_⟩
      rintro v hv _ hassigned rfl
      exact ((hlog v).mp hv).2 (hinv.assigned_sublist.subset hassigned)
    · rw [List.mem_append, hlog v, hinv.done_step_iff]

/-- The inner loop is a part of a run. -/
theorem Trace.loop (h : Trace successors pending s log) (budget : ℕ) :
    ∃ log', Trace successors pending (s.loop successors budget) log' := by
  induction budget generalizing s log with
  | zero => exact ⟨log, h⟩
  | succ budget ih =>
    rw [TarjanState.loop]
    split
    · exact ⟨log, h⟩
    · next hwork => exact ih (h.iterate hwork)

theorem Trace.foldl_start (h : Trace successors pending s log) (hwork : s.work = []) :
    ∃ log', Trace successors [] (pending.foldl (TarjanState.start successors) s) log' := by
  induction pending generalizing s log with
  | nil => exact ⟨log, h⟩
  | cons vertex pending ih =>
    have hempty := (h.invariant.1.start hwork vertex).2.1
    rw [List.foldl_cons]
    by_cases hfresh : s.index vertex = -1
    · obtain ⟨log', htrace⟩ := (h.enter hwork hfresh).loop (fuel successors)
      have hstart : s.start successors vertex = TarjanState.loop successors (fuel successors) (s.discover vertex) :=
        if_neg (not_not.mpr hfresh)
      rw [hstart] at hempty ⊢
      exact ih htrace hempty
    · have hstart : s.start successors vertex = s := if_pos hfresh
      rw [hstart]
      exact ih (h.skip hwork hfresh) hwork

end Trace

end codespine.query.TarjanState

namespace codespine.query

open TarjanState

variable {count : ℕ}

/-- In every state of a run `onStack` marks what is on the component stack, also
while a component is popped; nothing stands there twice, and the work stack
keeps its order; a component that is closed has its root on the stack; no vertex
gets a number twice. In the end every vertex got one. -/
theorem GraphQuery.stronglyConnectedComponents_stack (successors : Fin count → List (Fin count)) :
    (∀ pending s log, Trace successors pending s log →
      (∀ v, s.onStack v = true ↔ v ∈ s.sccStack) ∧ s.sccStack.Nodup ∧ (s.work.map Prod.fst).Sublist s.sccStack ∧
      (∀ popped rest, s.sccStack = popped ++ rest → ∀ v,
        popped.foldl (fun onStack member => Function.update onStack member false) s.onStack v = true ↔ v ∈ rest) ∧
      (∀ node, closing successors s = some node → popsEmpty node s.sccStack = false) ∧
      (s.step successors).componentOf = (assigned successors s).foldl
        (fun componentOf member => Function.update componentOf member (s.componentCount : ℤ)) s.componentOf ∧
      ∀ v, log.count v ≤ 1) ∧
    ∃ final log, Trace successors [] final log ∧ final.work = [] ∧ (∀ v, log.count v = 1) ∧
      final.componentOf = (GraphQuery.stronglyConnectedComponents successors).componentOf ∧
      final.componentCount = (GraphQuery.stronglyConnectedComponents successors).componentCount := by
  refine ⟨fun pending s log htrace => ?_, ?_⟩
  · obtain ⟨hinv, hnodup, _⟩ := htrace.invariant
    refine ⟨hinv.onStack_iff, hinv.stack_nodup, hinv.path_sublist, fun _ _ hstack => hinv.onStack_popped hstack,
      fun node hclosing => ?_, componentOf_step successors s, List.nodup_iff_count_le_one.mp hnodup⟩
    exact popsEmpty_eq_false (hinv.mem_stack_of_closing hclosing)
  · obtain ⟨log, htrace⟩ := (@Trace.initial _ successors).foldl_start rfl
    obtain ⟨hinv, hnodup, hlog⟩ := htrace.invariant
    obtain ⟨_, hwork, hvisited⟩ := (@initial_invariant _ successors).foldl_start rfl (List.finRange count)
    refine ⟨_, log, htrace, hwork, fun v => List.count_eq_one_of_mem hnodup ((hlog v).mpr ⟨?_, ?_⟩), rfl, rfl⟩
    · exact hvisited v (Or.inr (List.mem_finRange v))
    · rw [hinv.stack_eq_nil hwork]
      exact List.not_mem_nil

/-- Components are numbered callee first: an arc that leaves its component leads
to a lower number. -/
theorem GraphQuery.componentOf_reverse_topological (successors : Fin count → List (Fin count)) :
    (∀ u v, (GraphQuery.stronglyConnectedComponents successors).componentOf u =
        (GraphQuery.stronglyConnectedComponents successors).componentOf v ↔ Linked (Calls successors) u v) ∧
    ∀ u v, v ∈ successors u → ¬ Linked (Calls successors) u v →
      (GraphQuery.stronglyConnectedComponents successors).componentOf v <
        (GraphQuery.stronglyConnectedComponents successors).componentOf u := by
  obtain ⟨hnumbering, _⟩ := stronglyConnectedComponents_spec successors
  refine ⟨hnumbering.eq_iff_linked, fun u v hcall hleaves => ?_⟩
  refine lt_of_le_of_ne (hnumbering.le_of_adj u v hcall) fun heq => ?_
  exact hleaves ((hnumbering.eq_iff_linked u v).mp heq.symm)

/-- A function and the one that it calls. -/
def callerTable (v : Fin 2) : List (Fin 2) := if v = 0 then [1] else []

theorem GraphQuery.componentOf_reverse_topological_caller :
    (GraphQuery.stronglyConnectedComponents callerTable).componentOf 1 <
      (GraphQuery.stronglyConnectedComponents callerTable).componentOf 0 := by
  refine (GraphQuery.componentOf_reverse_topological callerTable).2 0 1 (by decide) fun hlinked => ?_
  have hstays : ∀ a b, a = 1 → Calls callerTable a b → b = 1 := by
    rintro a b rfl hcall
    exact absurd hcall List.not_mem_nil
  exact absurd (hlinked.2.mem_of_closed hstays rfl) (by decide)

end codespine.query
