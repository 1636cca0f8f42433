import Mathlib.Data.List.Chain
import Mathlib.Data.Int.Order.Basic

namespace codespine.webview

namespace Selection

/-- What the selection reads and writes: whether a graph is loaded, the trail of
selected nodes with the cursor in it, the node that has the class `sel`, and the
two buttons. -/
structure State where
  cy : Bool
  history : List String
  historyIndex : ℤ
  sel : Option String
  navBackDisabled : Bool
  navForwardDisabled : Bool

/-- The page before its first graph. -/
def initial : State where
  cy := false
  history := []
  historyIndex := -1
  sel := none
  navBackDisabled := true
  navForwardDisabled := true

/-- `state.history[index]`. -/
def entryAt (state : State) (index : ℤ) : Option String :=
  if index < 0 then none else state.history[index.toNat]?

def updateHistoryButtons (state : State) : State :=
  { state with
    navBackDisabled := decide (state.historyIndex ≤ 0)
    navForwardDisabled := decide (state.historyIndex ≥ (state.history.length : ℤ) - 1) }

/-- The new length is never above the old one (`Invariant.index_lt`), so setting
it pads nothing. -/
def recordSelection (id : String) (state : State) : State :=
  if entryAt state state.historyIndex = some id then state else
  let history := state.history.take (state.historyIndex + 1).toNat ++ [id]
  updateHistoryButtons { state with history := history, historyIndex := (history.length : ℤ) - 1 }

def select (id : String) (recordHistory : Bool) (state : State) : State :=
  if state.cy = false then state else
  let selected := { state with sel := some id }
  if recordHistory = true then recordSelection id selected else selected

/-- `Selection.navigateHistory`, where `lookup` tells whether the graph has one
node of an id. -/
def navigateHistory (lookup : String → Bool) (delta : ℤ) (state : State) : State :=
  if state.cy = false then state else
  let nextIndex := state.historyIndex + delta
  if nextIndex < 0 ∨ nextIndex ≥ state.history.length then state else
  match entryAt state nextIndex with
  | none => state
  | some id =>
    if lookup id = false then state else
    updateHistoryButtons (select id false { state with historyIndex := nextIndex })

def focusNode (lookup : String → Bool) (id : String) (state : State) : State :=
  if state.cy = false then state else if lookup id = true then select id true state else state

def clearSelection (state : State) : State := { state with sel := none }

/-- `Graph.setData`: a new graph, in which nothing is selected. -/
def setData (state : State) : State :=
  { updateHistoryButtons { state with history := [], historyIndex := -1 } with cy := true, sel := none }

/-- What the page does with the selection. -/
inductive Event where
  | setData
  | select (id : String)
  | focus (lookup : String → Bool) (id : String)
  | back (lookup : String → Bool)
  | forward (lookup : String → Bool)
  | clear

def step (state : State) : Event → State
  | .setData => setData state
  | .select id => select id true state
  | .focus lookup id => focusNode lookup id state
  | .back lookup => navigateHistory lookup (-1) state
  | .forward lookup => navigateHistory lookup 1 state
  | .clear => clearSelection state

def run (events : List Event) : State := events.foldl step initial

/-- The cursor is on an entry, or before an empty trail; no entry follows
itself; before the first graph there is no trail; and a button is enabled when
there is a step to take. -/
structure Invariant (state : State) : Prop where
  neg_one_le : -1 ≤ state.historyIndex
  index_lt : state.historyIndex < max 1 (state.history.length : ℤ)
  index_nonneg : 0 ≤ state.historyIndex ↔ state.history ≠ []
  isChain : List.IsChain (· ≠ ·) state.history
  notLoaded : state.cy = false → state.history = [] ∧ state.sel = none
  back_eq : state.navBackDisabled = decide (state.historyIndex ≤ 0)
  forward_eq : state.navForwardDisabled = decide (state.historyIndex ≥ (state.history.length : ℤ) - 1)

section Entry

variable {state : State} {id : String}

theorem entryAt_of_neg {index : ℤ} (h : index < 0) : entryAt state index = none := if_pos h

theorem entryAt_of_nonneg {index : ℤ} (h : 0 ≤ index) : entryAt state index = state.history[index.toNat]? :=
  if_neg (by omega)

@[simp] theorem updateHistoryButtons_history : (updateHistoryButtons state).history = state.history := rfl

@[simp] theorem updateHistoryButtons_historyIndex : (updateHistoryButtons state).historyIndex = state.historyIndex := rfl

/-- Where the invariant holds the cursor is inside the trail, so that truncating
after it keeps the cursor's entry as the last. -/
theorem Invariant.length_take (h : Invariant state) :
    ((state.history.take (state.historyIndex + 1).toNat).length : ℤ) = state.historyIndex + 1 := by
  have hlow := h.neg_one_le
  have hhigh := h.index_lt
  have hlength : state.historyIndex + 1 ≤ state.history.length := by
    by_cases hempty : state.history = []
    · have := mt h.index_nonneg.mp (not_not_intro hempty)
      omega
    · have := List.length_pos_iff.mpr hempty
      omega
  rw [List.length_take]
  omega

theorem Invariant.getLast?_take (h : Invariant state) :
    (state.history.take (state.historyIndex + 1).toNat).getLast? = entryAt state state.historyIndex := by
  have hlow := h.neg_one_le
  have hlength := h.length_take
  by_cases hneg : state.historyIndex < 0
  · have : state.historyIndex = -1 := by omega
    rw [entryAt_of_neg hneg, this]
    simp
  · rw [entryAt_of_nonneg (by omega), List.getLast?_eq_getElem?, List.getElem?_take_of_lt (by omega)]
    congr 1
    omega

end Entry

section Record

variable {state : State} {id : String}

theorem recordSelection_of_eq (h : entryAt state state.historyIndex = some id) : recordSelection id state = state := if_pos h

/-- A node other than the cursor's follows the entries up to the cursor. -/
theorem recordSelection_history (h : entryAt state state.historyIndex ≠ some id) :
    (recordSelection id state).history = state.history.take (state.historyIndex + 1).toNat ++ [id] := by
  rw [recordSelection, if_neg h]
  rfl

theorem recordSelection_historyIndex (hinv : Invariant state) (h : entryAt state state.historyIndex ≠ some id) :
    (recordSelection id state).historyIndex = state.historyIndex + 1 := by
  have hlength := hinv.length_take
  rw [recordSelection, if_neg h]
  simp only [updateHistoryButtons_historyIndex, List.length_append, List.length_singleton]
  omega

@[simp] theorem recordSelection_sel : (recordSelection id state).sel = state.sel := by
  unfold recordSelection
  split <;> rfl

/-- Recorded or not, the node is the one under the cursor. -/
theorem entryAt_recordSelection (hinv : Invariant state) :
    entryAt (recordSelection id state) (recordSelection id state).historyIndex = some id := by
  by_cases h : entryAt state state.historyIndex = some id
  · rw [recordSelection_of_eq h]
    exact h
  · have hlow := hinv.neg_one_le
    have hlength := hinv.length_take
    rw [recordSelection_historyIndex hinv h, entryAt_of_nonneg (by omega), recordSelection_history h]
    have hindex : (state.historyIndex + 1).toNat = (state.history.take (state.historyIndex + 1).toNat).length := by omega
    nth_rewrite 2 [hindex]
    exact List.getElem?_concat_length

/-- The entry before the new one is the cursor's, which is another node. -/
theorem Invariant.recordSelection (hinv : Invariant state) (hcy : state.cy = true) : Invariant (recordSelection id state) := by
  by_cases h : entryAt state state.historyIndex = some id
  · rw [recordSelection_of_eq h]
    exact hinv
  · have hlow := hinv.neg_one_le
    have hlength := hinv.length_take
    have hhistory := recordSelection_history h
    have hindex := recordSelection_historyIndex hinv h
    refine ⟨?_, ?_, ?_, ?_, ?_, ?_, ?_⟩
    · omega
    · rw [hindex, hhistory, List.length_append, List.length_singleton]
      omega
    · rw [hindex, hhistory]
      exact iff_of_true (by omega) (by simp)
    · rw [hhistory, List.isChain_append]
      refine ⟨hinv.isChain.take _, List.isChain_singleton _, fun last hlast next hnext heq => h ?_⟩
      rw [hinv.getLast?_take] at hlast
      rw [List.head?_cons, Option.mem_some_iff] at hnext
      rw [hnext, ← heq]
      exact hlast
    · rw [Selection.recordSelection, if_neg h]
      intro hnot
      cases hcy.symm.trans hnot
    · rw [Selection.recordSelection, if_neg h]
      rfl
    · rw [Selection.recordSelection, if_neg h]
      rfl

end Record

section Navigate

variable {lookup : String → Bool} {delta : ℤ} {state : State} {id : String}

theorem lt_length_of_entryAt {index : ℤ} (h : entryAt state index = some id) : 0 ≤ index ∧ index < state.history.length := by
  by_cases hneg : index < 0
  · rw [entryAt_of_neg hneg] at h
    cases h
  · rw [entryAt_of_nonneg (by omega)] at h
    obtain ⟨hlt, _⟩ := List.getElem?_eq_some_iff.mp h
    omega

/-- The entry that a step of the cursor leads to, when it leads to a node of the
graph. -/
def Completes (lookup : String → Bool) (delta : ℤ) (state : State) (id : String) : Prop :=
  state.cy = true ∧ entryAt state (state.historyIndex + delta) = some id ∧ lookup id = true

theorem navigateHistory_of_completes (h : Completes lookup delta state id) : navigateHistory lookup delta state =
    updateHistoryButtons { state with historyIndex := state.historyIndex + delta, sel := some id } := by
  obtain ⟨hcy, hentry, hlookup⟩ := h
  obtain ⟨hlow, hhigh⟩ := lt_length_of_entryAt hentry
  have hrange : ¬ (state.historyIndex + delta < 0 ∨ state.historyIndex + delta ≥ state.history.length) := by omega
  simp [navigateHistory, select, hcy, hrange, hentry, hlookup]

theorem navigateHistory_of_not_completes (h : ∀ id, ¬ Completes lookup delta state id) :
    navigateHistory lookup delta state = state := by
  unfold navigateHistory
  split
  · rfl
  · next hcy =>
    dsimp only
    split
    · rfl
    · split
      · rfl
      · next id hentry =>
        split
        · rfl
        · next hlookup => exact absurd ⟨by simpa using hcy, hentry, by simpa using hlookup⟩ (h id)

/-- A step of the cursor is completed or changes nothing. -/
theorem navigateHistory_cases (lookup : String → Bool) (delta : ℤ) (state : State) :
    navigateHistory lookup delta state = state ∨ ∃ id, Completes lookup delta state id ∧ navigateHistory lookup delta state =
      updateHistoryButtons { state with historyIndex := state.historyIndex + delta, sel := some id } := by
  by_cases h : ∃ id, Completes lookup delta state id
  · obtain ⟨id, hid⟩ := h
    exact Or.inr ⟨id, hid, navigateHistory_of_completes hid⟩
  · exact Or.inl (navigateHistory_of_not_completes (not_exists.mp h))

theorem navigateHistory_history (lookup : String → Bool) (delta : ℤ) (state : State) :
    (navigateHistory lookup delta state).history = state.history := by
  rcases navigateHistory_cases lookup delta state with h | ⟨_, _, h⟩
  · rw [h]
  · rw [h, updateHistoryButtons_history]

theorem Invariant.navigateHistory (hinv : Invariant state) : Invariant (navigateHistory lookup delta state) := by
  rcases navigateHistory_cases lookup delta state with h | ⟨id, hid, h⟩
  · rw [h]
    exact hinv
  · obtain ⟨hcy, hentry, _⟩ := hid
    obtain ⟨hlow, hhigh⟩ := lt_length_of_entryAt hentry
    rw [h]
    refine ⟨?_, ?_, ?_, hinv.isChain, ?_, rfl, rfl⟩
    · simp only [updateHistoryButtons_historyIndex]
      omega
    · simp only [updateHistoryButtons_historyIndex, updateHistoryButtons_history]
      omega
    · refine iff_of_true hlow ?_
      simp only [updateHistoryButtons_history]
      rintro hnil
      rw [hnil, List.length_nil] at hhigh
      omega
    · intro hnot
      cases hcy.symm.trans hnot

end Navigate

section Run

variable {state : State} {id : String}

theorem Invariant.of_sel (hinv : Invariant state) (hcy : state.cy = true) (sel : Option String) : Invariant { state with sel := sel } where
  neg_one_le := hinv.neg_one_le
  index_lt := hinv.index_lt
  index_nonneg := hinv.index_nonneg
  isChain := hinv.isChain
  notLoaded hnot := by cases hcy.symm.trans hnot
  back_eq := hinv.back_eq
  forward_eq := hinv.forward_eq

theorem select_of_not_loaded (hcy : state.cy = false) (recordHistory : Bool) : select id recordHistory state = state := if_pos hcy

theorem select_of_loaded (hcy : state.cy = true) : select id true state = recordSelection id { state with sel := some id } := by
  simp [select, hcy]

theorem Invariant.select (hinv : Invariant state) : Invariant (select id true state) := by
  cases hcy : state.cy with
  | false =>
    rw [select_of_not_loaded hcy]
    exact hinv
  | true =>
    rw [select_of_loaded hcy]
    exact (hinv.of_sel hcy (some id)).recordSelection hcy

theorem invariant_setData : Invariant (setData state) where
  neg_one_le := Int.le_refl _
  index_lt := (by decide : (-1 : ℤ) < max 1 0)
  index_nonneg := by simp [setData]
  isChain := List.isChain_nil
  notLoaded hnot := by cases hnot
  back_eq := rfl
  forward_eq := rfl

theorem invariant_initial : Invariant initial where
  neg_one_le := Int.le_refl _
  index_lt := (by decide : (-1 : ℤ) < max 1 0)
  index_nonneg := by simp [initial]
  isChain := List.isChain_nil
  notLoaded _ := ⟨rfl, rfl⟩
  back_eq := by decide
  forward_eq := by decide

theorem Invariant.step (hinv : Invariant state) (event : Event) : Invariant (step state event) := by
  cases event with
  | setData => exact invariant_setData
  | select id => exact hinv.select
  | focus lookup id =>
    rw [Selection.step, focusNode]
    split_ifs
    · exact hinv
    · exact hinv.select
    · exact hinv
  | back lookup => exact hinv.navigateHistory
  | forward lookup => exact hinv.navigateHistory
  | clear =>
    cases hcy : state.cy with
    | false =>
      have hsame : clearSelection state = state := by
        have hsel := (hinv.notLoaded hcy).2
        cases state
        cases hsel
        rfl
      rw [Selection.step, hsame]
      exact hinv
    | true => exact hinv.of_sel hcy none

theorem invariant_run (events : List Event) : Invariant (run events) :=
  List.foldlRecOn events step invariant_initial fun _ hinv event _ => hinv.step event

end Run

section Select

variable {state : State} {id : String}

/-- A node other than the cursor's starts a new branch after it. -/
theorem step_select_of_ne (hinv : Invariant state) (hcy : state.cy = true) (hother : entryAt state state.historyIndex ≠ some id) :
    (step state (.select id)).history = state.history.take (state.historyIndex + 1).toNat ++ [id] ∧
      (step state (.select id)).historyIndex = state.historyIndex + 1 := by
  have hinv' := hinv.of_sel hcy (some id)
  rw [step, select_of_loaded hcy]
  exact ⟨recordSelection_history hother, recordSelection_historyIndex hinv' hother⟩

theorem step_select_of_eq (hsame : state.cy = false ∨ entryAt state state.historyIndex = some id) :
    (step state (.select id)).history = state.history ∧ (step state (.select id)).historyIndex = state.historyIndex := by
  cases hcy : state.cy with
  | false =>
    rw [step, select_of_not_loaded hcy]
    exact ⟨rfl, rfl⟩
  | true =>
    have hentry : entryAt state state.historyIndex = some id := by simpa [hcy] using hsame
    have hrecord : recordSelection id { state with sel := some id } = { state with sel := some id } := recordSelection_of_eq hentry
    rw [step, select_of_loaded hcy, hrecord]
    exact ⟨rfl, rfl⟩

/-- Before the first graph neither an entry nor a node is selected. -/
theorem entryAt_step_select (hinv : Invariant state) :
    entryAt (step state (.select id)) (step state (.select id)).historyIndex = (step state (.select id)).sel ∧
      (state.cy = true → (step state (.select id)).sel = some id) := by
  cases hcy : state.cy with
  | false =>
    obtain ⟨hhistory, hsel⟩ := hinv.notLoaded hcy
    rw [step, select_of_not_loaded hcy, hsel]
    refine ⟨entryAt_of_neg ?_, fun h => by cases h⟩
    have := mt hinv.index_nonneg.mp (not_not_intro hhistory)
    omega
  | true =>
    rw [step, select_of_loaded hcy, recordSelection_sel]
    exact ⟨entryAt_recordSelection (hinv.of_sel hcy (some id)), fun _ => rfl⟩

end Select

/-- The history of the selection is a trail as in a browser. In every state a
run reaches the cursor is on an entry, or before an empty trail, and no entry
follows itself; stepping the cursor, by one or by more, leaves the entries as
they are; selecting a node other than the cursor's cuts off what is ahead and
puts the node there, selecting the cursor's changes nothing; and after a
selection, or a step that is completed, the entry under the cursor is the node
selected. -/
theorem run_history (events : List Event) :
    let state := run events
    (-1 ≤ state.historyIndex ∧ state.historyIndex < max 1 (state.history.length : ℤ)) ∧
    (0 ≤ state.historyIndex ↔ state.history ≠ []) ∧
    List.IsChain (· ≠ ·) state.history ∧
    (∀ lookup delta, (navigateHistory lookup delta state).history = state.history) ∧
    (∀ id, state.cy = true → entryAt state state.historyIndex ≠ some id →
      (step state (.select id)).history = state.history.take (state.historyIndex + 1).toNat ++ [id] ∧
      (step state (.select id)).historyIndex = state.historyIndex + 1) ∧
    (∀ id, state.cy = false ∨ entryAt state state.historyIndex = some id →
      (step state (.select id)).history = state.history ∧ (step state (.select id)).historyIndex = state.historyIndex) ∧
    (∀ id, entryAt (step state (.select id)) (step state (.select id)).historyIndex = (step state (.select id)).sel ∧
      (state.cy = true → (step state (.select id)).sel = some id)) ∧
    (∀ lookup delta, (∀ id, ¬ Completes lookup delta state id) → navigateHistory lookup delta state = state) ∧
    ∀ lookup delta id, Completes lookup delta state id →
      (navigateHistory lookup delta state).historyIndex = state.historyIndex + delta ∧
      (navigateHistory lookup delta state).sel = some id ∧
      entryAt (navigateHistory lookup delta state) (navigateHistory lookup delta state).historyIndex = some id := by
  intro state
  have hinv : Invariant state := invariant_run events
  refine ⟨⟨hinv.neg_one_le, hinv.index_lt⟩, hinv.index_nonneg, hinv.isChain, fun lookup delta => navigateHistory_history lookup delta state,
    fun id hcy hother => step_select_of_ne hinv hcy hother, fun id hsame => step_select_of_eq hsame, fun id => entryAt_step_select hinv,
    fun lookup delta h => navigateHistory_of_not_completes h, fun lookup delta id h => ?_⟩
  rw [navigateHistory_of_completes h]
  exact ⟨rfl, rfl, h.2.1⟩

/-- Back over two nodes and on to another: what was ahead is gone. -/
example : (run [.setData, .select "main", .select "parse", .select "print", .back fun _ => true, .back fun _ => true,
    .select "check"]).history = ["main", "check"] := by decide

end Selection

end codespine.webview
