import Mathlib.Data.List.Basic

namespace interleaving

variable {σ α : Type*}

/-- Two views on the actions of a system. Every action shows in one of them at
least; those that show in one view only commute with those that show in the
other only, as far as an observer can tell. -/
structure Views (step : σ → α → σ) (same : σ → σ → Prop) (left right : α → Bool) : Prop where
  equivalence : Equivalence same
  congr : ∀ (a : α) {s s' : σ}, same s s' → same (step s a) (step s' a)
  shows : ∀ a, left a = true ∨ right a = true
  comm : ∀ {a b : α}, right a = false → left b = false → ∀ s, same (step (step s b) a) (step (step s a) b)

variable {step : σ → α → σ} {same : σ → σ → Prop} {left right : α → Bool}

/-- The views are interchangeable. -/
theorem Views.symm (h : Views step same left right) : Views step same right left where
  equivalence := h.equivalence
  congr := h.congr
  shows a := (h.shows a).symm
  comm hleft hright s := h.equivalence.symm (h.comm hright hleft s)

/-- An observer cannot tell later on what could not be told at first. -/
theorem Views.congr_run (h : Views step same left right) (actions : List α) {s s' : σ} (hsame : same s s') :
    same (actions.foldl step s) (actions.foldl step s') := by
  induction actions generalizing s s' with
  | nil => exact hsame
  | cons a rest ih => exact ih (h.congr a hsame)

/-- An action of one view can be put before a run of the other. -/
theorem Views.run_snoc (h : Views step same left right) {a : α} (ha : right a = false) {actions : List α}
    (hactions : ∀ b ∈ actions, left b = false) (s : σ) :
    same (step (actions.foldl step s) a) (actions.foldl step (step s a)) := by
  induction actions generalizing s with
  | nil => exact h.equivalence.refl _
  | cons b rest ih =>
    have hrest : same (step (rest.foldl step (step s b)) a) (rest.foldl step (step (step s b) a)) :=
      ih (fun c hc => hactions c (List.mem_cons_of_mem _ hc)) (step s b)
    have hswap : same (step (step s b) a) (step (step s a) b) := h.comm ha (hactions b List.mem_cons_self) s
    exact h.equivalence.trans hrest (h.congr_run rest hswap)

/-- The first action in a view, with what shows only in the other before it. -/
theorem Views.run_first (h : Views step same left right) {a : α} (hright : right a = false)
    {rest actions : List α} (hactions : actions.filter left = a :: rest.filter left)
    (hrest : actions.filter right = rest.filter right) :
    ∃ others : List α, others.filter left = rest.filter left ∧ others.filter right = rest.filter right ∧
      ∀ s, same (actions.foldl step s) (others.foldl step (step s a)) := by
  obtain ⟨before, after, rfl, hbefore, _, hafter⟩ := List.filter_eq_cons_iff.mp hactions
  have hunseen : ∀ b ∈ before, left b = false := fun b hb => Bool.eq_false_iff.mpr (hbefore b hb)
  refine ⟨before ++ after, ?_, ?_, fun s => ?_⟩
  · have hnone : before.filter left = [] := List.filter_eq_nil_iff.mpr hbefore
    rw [List.filter_append, hnone, List.nil_append, hafter]
  · rw [List.filter_append, List.filter_cons, if_neg (Bool.eq_false_iff.mp hright), ← List.filter_append] at hrest
    exact hrest
  · rw [List.foldl_append, List.foldl_append, List.foldl_cons]
    exact h.congr_run after (h.run_snoc hright hunseen s)

/-- Two runs with the same actions in either view end in states that an
observer cannot tell apart. -/
theorem Views.run (h : Views step same left right) {actions actions' : List α}
    (hleft : actions.filter left = actions'.filter left) (hright : actions.filter right = actions'.filter right)
    (s : σ) : same (actions.foldl step s) (actions'.foldl step s) := by
  induction actions generalizing actions' s with
  | nil =>
    cases actions' with
    | nil => exact h.equivalence.refl s
    | cons b rest =>
      rw [List.filter_nil, List.filter_cons] at hleft hright
      obtain hb | hb := h.shows b
      · rw [if_pos hb] at hleft
        cases hleft
      · rw [if_pos hb] at hright
        cases hright
  | cons a rest ih =>
    rw [List.filter_cons] at hleft hright
    cases hl : left a with
    | false =>
      have hr : right a = true := (h.shows a).resolve_left (by simp [hl])
      rw [if_neg (by simp [hl])] at hleft
      rw [if_pos hr] at hright
      obtain ⟨others, hothers, hothers', hrun⟩ := h.symm.run_first hl hright.symm hleft.symm
      exact h.equivalence.trans (ih hothers'.symm hothers.symm (step s a)) (h.equivalence.symm (hrun s))
    | true =>
      rw [if_pos hl] at hleft
      cases hr : right a with
      | false =>
        rw [if_neg (by simp [hr])] at hright
        obtain ⟨others, hothers, hothers', hrun⟩ := h.run_first hr hleft.symm hright.symm
        exact h.equivalence.trans (ih hothers.symm hothers'.symm (step s a)) (h.equivalence.symm (hrun s))
      | true =>
        rw [if_pos hr] at hright
        cases actions' with
        | nil => cases hleft
        | cons b rest' =>
          -- whichever view the next action shows in, it is the one both runs are at
          have hab : a = b := by
            obtain hb | hb := h.shows b
            · rw [List.filter_cons, if_pos hb] at hleft
              exact (List.cons.inj hleft).1
            · rw [List.filter_cons, if_pos hb] at hright
              exact (List.cons.inj hright).1
          subst hab
          rw [List.filter_cons, if_pos hl] at hleft
          rw [List.filter_cons, if_pos hr] at hright
          exact ih (List.cons.inj hleft).2 (List.cons.inj hright).2 (step s a)

/-- A look at the states of a system that shows nothing of some of the
actions. -/
structure Hides {τ : Type*} (step : σ → α → σ) (see : σ → τ) (shown : α → Bool) : Prop where
  congr : ∀ {a : α}, shown a = true → ∀ {s s' : σ}, see s = see s' → see (step s a) = see (step s' a)
  hidden : ∀ {a : α}, shown a = false → ∀ s, see (step s a) = see s

/-- A run looks like the run of the actions that show. -/
theorem Hides.run {τ : Type*} {see : σ → τ} {shown : α → Bool} (h : Hides step see shown) (actions : List α) {s s' : σ}
    (hsee : see s = see s') : see (actions.foldl step s) = see ((actions.filter shown).foldl step s') := by
  induction actions generalizing s s' with
  | nil => exact hsee
  | cons a rest ih =>
    rw [List.foldl_cons, List.filter_cons]
    cases ha : shown a with
    | false =>
      rw [if_neg (by simp)]
      exact ih ((h.hidden ha s).trans hsee)
    | true =>
      rw [if_pos rfl, List.foldl_cons]
      exact ih (h.congr ha hsee)

end interleaving
