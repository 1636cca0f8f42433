import Codespine.Webview.Graph

open codespine.schema

namespace codespine.webview

/-- A legend on the page: what it lists, the box before each entry, and the box
for all of them. -/
structure Legend (κ : Type) where
  kinds : List κ
  checked : κ → Bool
  masterChecked : Bool
  masterIndeterminate : Bool

namespace Legend

variable {κ : Type} [DecidableEq κ]

def syncMaster (hiddenSet : Finset κ) (legend : Legend κ) : Legend κ :=
  let hiddenCount := (legend.kinds.filter fun kind => kind ∈ hiddenSet).length
  { legend with
    masterChecked := hiddenCount = 0
    masterIndeterminate := 0 < hiddenCount ∧ hiddenCount < legend.kinds.length }

/-- `renderLegend`, and `renderCommunities` for the communities. -/
def render (kinds : List κ) (hiddenSet : Finset κ) : Legend κ :=
  syncMaster hiddenSet
    { kinds, checked := fun kind => kind ∉ hiddenSet, masterChecked := false, masterIndeterminate := false }

/-- A click on the box of an entry: the browser has toggled it when its handler
runs. -/
def clickKind (kind : κ) (hiddenSet : Finset κ) (legend : Legend κ) : Finset κ × Legend κ :=
  if kind ∈ legend.kinds then
    let checked := Function.update legend.checked kind (!legend.checked kind)
    let hiddenSet := if checked kind then hiddenSet.erase kind else insert kind hiddenSet
    (hiddenSet, syncMaster hiddenSet { legend with checked })
  else (hiddenSet, legend)

/-- A click on the box for all, which is there when the legend lists something. -/
def clickMaster (hiddenSet : Finset κ) (legend : Legend κ) : Finset κ × Legend κ :=
  if legend.kinds = [] then (hiddenSet, legend) else
  let allVisible := legend.kinds.all fun kind => kind ∉ hiddenSet
  let hiddenSet := legend.kinds.foldl
    (fun hiddenSet kind => if allVisible then insert kind hiddenSet else hiddenSet.erase kind) hiddenSet
  let checked := fun kind => if kind ∈ legend.kinds then decide (kind ∉ hiddenSet) else legend.checked kind
  (hiddenSet, syncMaster hiddenSet { legend with checked })

/-- The boxes of a legend show what is hidden. -/
structure Agrees (legend : Legend κ) (hiddenSet : Finset κ) : Prop where
  box : ∀ kind ∈ legend.kinds, (legend.checked kind = true ↔ kind ∉ hiddenSet)
  master : legend.masterChecked = true ↔ ∀ kind ∈ legend.kinds, kind ∉ hiddenSet
  indeterminate : legend.masterIndeterminate = true ↔
    (∃ kind ∈ legend.kinds, kind ∈ hiddenSet) ∧ ∃ kind ∈ legend.kinds, kind ∉ hiddenSet

variable {legend : Legend κ} {hiddenSet : Finset κ}

@[simp] theorem kinds_syncMaster (hiddenSet : Finset κ) (legend : Legend κ) :
    (syncMaster hiddenSet legend).kinds = legend.kinds := rfl

/-- Once the box for all is synced, only the others need to be right. -/
theorem agrees_syncMaster (hbox : ∀ kind ∈ legend.kinds, (legend.checked kind = true ↔ kind ∉ hiddenSet)) :
    (syncMaster hiddenSet legend).Agrees hiddenSet := by
  have hpos : 0 < (legend.kinds.filter fun kind => kind ∈ hiddenSet).length ↔ ∃ kind ∈ legend.kinds, kind ∈ hiddenSet := by
    rw [List.length_filter_pos_iff]
    simp only [decide_eq_true_eq]
  have hlt : (legend.kinds.filter fun kind => kind ∈ hiddenSet).length < legend.kinds.length ↔
      ∃ kind ∈ legend.kinds, kind ∉ hiddenSet := by
    rw [List.length_filter_lt_length_iff_exists]
    simp only [decide_eq_true_eq]
  constructor
  case box => exact hbox
  case master =>
    change decide (_ = 0) = true ↔ _
    rw [decide_eq_true_eq, ← Nat.le_zero, ← not_lt, hpos]
    push Not
    rfl
  case indeterminate =>
    change decide (_ ∧ _) = true ↔ _
    rw [decide_eq_true_eq, hpos, hlt]
    rfl

theorem agrees_render (kinds : List κ) (hiddenSet : Finset κ) : (render kinds hiddenSet).Agrees hiddenSet :=
  agrees_syncMaster fun _ _ => decide_eq_true_iff

/-- A click on a box keeps the legend in agreement. -/
theorem Agrees.clickKind (h : legend.Agrees hiddenSet) (kind : κ) :
    (legend.clickKind kind hiddenSet).2.Agrees (legend.clickKind kind hiddenSet).1 := by
  unfold Legend.clickKind
  split
  · next hkind =>
    refine agrees_syncMaster fun other hother => ?_
    dsimp only
    by_cases hsame : other = kind
    · subst hsame
      rw [Function.update_self]
      split
      · next hchecked => simp [hchecked]
      · next hchecked => simp [hchecked]
    · rw [Function.update_of_ne hsame, h.box other hother]
      split
      · simp [hsame]
      · simp [hsame]
  · exact h

theorem mem_foldl_insert {kinds : List κ} {kind : κ} :
    kind ∈ kinds.foldl (fun hiddenSet kind => insert kind hiddenSet) hiddenSet ↔ kind ∈ kinds ∨ kind ∈ hiddenSet := by
  induction kinds generalizing hiddenSet with
  | nil => simp
  | cons first rest ih =>
    rw [List.foldl_cons, ih, Finset.mem_insert, List.mem_cons]
    tauto

theorem mem_foldl_erase {kinds : List κ} {kind : κ} :
    kind ∈ kinds.foldl (fun hiddenSet kind => hiddenSet.erase kind) hiddenSet ↔ kind ∉ kinds ∧ kind ∈ hiddenSet := by
  induction kinds generalizing hiddenSet with
  | nil => simp
  | cons first rest ih =>
    rw [List.foldl_cons, ih, Finset.mem_erase, List.mem_cons]
    tauto

theorem Agrees.clickMaster (h : legend.Agrees hiddenSet) :
    (legend.clickMaster hiddenSet).2.Agrees (legend.clickMaster hiddenSet).1 := by
  unfold Legend.clickMaster
  split
  · exact h
  · refine agrees_syncMaster fun kind hkind => ?_
    dsimp only
    rw [if_pos hkind, decide_eq_true_eq]

@[simp] theorem kinds_clickKind (legend : Legend κ) (kind : κ) (hiddenSet : Finset κ) :
    (legend.clickKind kind hiddenSet).2.kinds = legend.kinds := by
  unfold Legend.clickKind
  split <;> rfl

@[simp] theorem kinds_clickMaster (legend : Legend κ) (hiddenSet : Finset κ) :
    (legend.clickMaster hiddenSet).2.kinds = legend.kinds := by
  unfold Legend.clickMaster
  split <;> rfl

/-- The box for all hides everything when all is visible, shows everything
otherwise, and leaves alone what the legend does not list. -/
theorem mem_clickMaster (hkinds : legend.kinds ≠ []) (kind : κ) : kind ∈ (legend.clickMaster hiddenSet).1 ↔
    if kind ∈ legend.kinds then ∀ other ∈ legend.kinds, other ∉ hiddenSet else kind ∈ hiddenSet := by
  unfold Legend.clickMaster
  rw [if_neg hkinds]
  dsimp only
  cases hall : legend.kinds.all fun kind => kind ∉ hiddenSet with
  | true =>
    simp only [if_true]
    rw [mem_foldl_insert]
    rw [List.all_eq_true] at hall
    simp only [decide_eq_true_eq] at hall
    split
    · next hkind => exact iff_of_true (Or.inl hkind) hall
    · next hkind => exact or_iff_right hkind
  | false =>
    simp only [Bool.false_eq_true, if_false]
    rw [mem_foldl_erase]
    have hsome : ¬ ∀ other ∈ legend.kinds, other ∉ hiddenSet := by
      intro hnone
      rw [List.all_eq_true.mpr fun other hother => decide_eq_true (hnone other hother)] at hall
      cases hall
    split
    · next hkind => exact iff_of_false (fun h => h.1 hkind) hsome
    · next hkind => exact and_iff_right hkind

end Legend

end codespine.webview
