import Mathlib.Data.List.Infix

namespace steps

/-- A step of a relative path: to the parent, or to a name. -/
inductive Step (α : Type*) where
  | up
  | name (a : α)

section Resolve

variable {α : Type*}

/-- Where a step leads. The root is its own parent. -/
def apply (start : List α) : Step α → List α
  | .up => start.dropLast
  | .name a => start ++ [a]

def resolve (start : List α) (path : List (Step α)) : List α := path.foldl apply start

/-- No relative path between the two places is shorter. -/
def IsShortest (start goal : List α) (path : List (Step α)) : Prop :=
  resolve start path = goal ∧ ∀ other, resolve start other = goal → path.length ≤ other.length

@[simp] theorem resolve_cons (start : List α) (step : Step α) (path : List (Step α)) :
    resolve start (step :: path) = resolve (apply start step) path := rfl

theorem resolve_append (start : List α) (first second : List (Step α)) :
    resolve start (first ++ second) = resolve (resolve start first) second := List.foldl_append

theorem resolve_up (before after : List α) : resolve (before ++ after) (List.replicate after.length .up) = before := by
  induction after using List.reverseRecOn with
  | nil => simp [resolve]
  | append_singleton after a ih =>
    rw [List.length_append, List.length_singleton, List.replicate_succ, resolve_cons, apply, ← List.append_assoc,
      List.dropLast_concat]
    exact ih

theorem resolve_name (start below : List α) : resolve start (below.map .name) = start ++ below := by
  induction below generalizing start with
  | nil => simp [resolve]
  | cons a below ih =>
    rw [List.map_cons, resolve_cons, ih, apply, List.append_assoc]
    rfl

end Resolve

section Route

variable {α : Type*} [DecidableEq α]

/-- Up from what the start has after the common beginning, and down what the
goal has. -/
def route : List α → List α → List (Step α)
  | [], goal => goal.map .name
  | _ :: start, [] => List.replicate (start.length + 1) .up
  | a :: start, b :: goal =>
    if a = b then route start goal else List.replicate (start.length + 1) .up ++ (b :: goal).map .name

@[simp] theorem route_nil (goal : List α) : route [] goal = goal.map .name := by rw [route]

@[simp] theorem route_nil_right (start : List α) : route start [] = List.replicate start.length .up := by
  cases start <;> rfl

@[simp] theorem route_cons (a : α) (start goal : List α) : route (a :: start) (a :: goal) = route start goal := if_pos rfl

theorem route_cons_of_ne {a b : α} (h : a ≠ b) (start goal : List α) :
    route (a :: start) (b :: goal) = List.replicate (start.length + 1) .up ++ (b :: goal).map .name := if_neg h

theorem resolve_route (start goal : List α) : resolve start (route start goal) = goal := by
  have hdown : ∀ before start goal : List α, resolve (before ++ start) (route start goal) = before ++ goal := by
    intro before start goal
    induction start generalizing before goal with
    | nil => rw [route_nil, List.append_nil, resolve_name]
    | cons a start ih =>
      cases goal with
      | nil => rw [route_nil_right, resolve_up, List.append_nil]
      | cons b goal =>
        by_cases h : a = b
        · subst h
          have hstep := ih (before ++ [a]) goal
          rw [route_cons]
          simpa using hstep
        · have hup := resolve_up before (a :: start)
          rw [List.length_cons] at hup
          rw [route_cons_of_ne h, resolve_append, hup, resolve_name]
  exact hdown [] start goal

/-- A step up is the first of the route, or the start lies on the way to the
goal. -/
theorem route_up (start goal : List α) : route start goal = .up :: route (apply start .up) goal ∨
    (route start goal).length ≤ (route (apply start .up) goal).length := by
  induction start generalizing goal with
  | nil => exact Or.inr le_rfl
  | cons a start ih =>
    cases goal with
    | nil => exact Or.inl (by simp [apply, List.replicate_succ])
    | cons b goal =>
      by_cases h : a = b
      · subst h
        cases start with
        | nil => exact Or.inr (by simp [apply])
        | cons a' start =>
          have hdrop : apply (a :: a' :: start) .up = a :: apply (a' :: start) .up := rfl
          rw [hdrop, route_cons, route_cons]
          exact ih goal
      · left
        cases start with
        | nil =>
          rw [route_cons_of_ne h]
          simp [apply]
        | cons a' start =>
          have hdrop : apply (a :: a' :: start) .up = a :: apply (a' :: start) .up := rfl
          rw [hdrop, route_cons_of_ne h, route_cons_of_ne h, apply, List.length_dropLast]
          rfl

/-- A step to a name is the first of the route, or the goal does not lie that
way. -/
theorem route_name (start goal : List α) (c : α) : route start goal = .name c :: route (apply start (.name c)) goal ∨
    (route start goal).length ≤ (route (apply start (.name c)) goal).length := by
  induction start generalizing goal with
  | nil =>
    cases goal with
    | nil => exact Or.inr (Nat.zero_le _)
    | cons b goal =>
      by_cases h : c = b
      · subst h
        exact Or.inl (by simp [apply])
      · right
        rw [apply, List.nil_append, route_cons_of_ne h]
        simp
  | cons a start ih =>
    have happend : apply (a :: start) (.name c) = a :: apply start (.name c) := rfl
    cases goal with
    | nil => exact Or.inr (by simp [apply])
    | cons b goal =>
      by_cases h : a = b
      · subst h
        rw [happend, route_cons, route_cons]
        exact ih goal
      · right
        rw [happend, route_cons_of_ne h, route_cons_of_ne h]
        simp [apply]

/-- The first step of a path is the first of the route, or it leads no closer to
the goal. -/
theorem route_step (start goal : List α) (step : Step α) : route start goal = step :: route (apply start step) goal ∨
    (route start goal).length ≤ (route (apply start step) goal).length := by
  cases step with
  | up => exact route_up start goal
  | name c => exact route_name start goal c

theorem length_route_le {start goal : List α} {path : List (Step α)} (h : resolve start path = goal) :
    (route start goal).length ≤ path.length := by
  induction path generalizing start with
  | nil =>
    have hsame : start = goal := h
    have hself : ∀ l : List α, route l l = [] := by
      intro l
      induction l with
      | nil => rfl
      | cons a l ih => rw [route_cons, ih]
    rw [hsame, hself]
  | cons step path ih =>
    have hrest := @ih (apply start step) h
    rw [List.length_cons]
    rcases route_step start goal step with heq | hle
    · rw [heq, List.length_cons]
      omega
    · omega

/-- A path that is no longer than the route is the route. -/
theorem eq_route {start goal : List α} {path : List (Step α)} (h : resolve start path = goal)
    (hlength : path.length ≤ (route start goal).length) : path = route start goal := by
  induction path generalizing start with
  | nil => exact (List.length_eq_zero_iff.mp (Nat.le_zero.mp (length_route_le h))).symm
  | cons step path ih =>
    have hrest := @length_route_le _ _ (apply start step) _ _ h
    rw [List.length_cons] at hlength
    rcases route_step start goal step with heq | hle
    · rw [heq, List.length_cons] at hlength
      rw [heq, ← @ih (apply start step) h (by omega)]
    · omega

/-- The route is the one shortest path. -/
theorem isShortest_iff {start goal : List α} {path : List (Step α)} : IsShortest start goal path ↔ path = route start goal := by
  constructor
  · rintro ⟨hresolve, hshortest⟩
    exact eq_route hresolve (hshortest _ (resolve_route start goal))
  · rintro rfl
    exact ⟨resolve_route start goal, fun _ => length_route_le⟩

theorem route_append (start below : List α) : route start (start ++ below) = below.map .name := by
  induction start with
  | nil => simp
  | cons a start ih => rw [List.cons_append, route_cons, ih]

/-- To what is not below the start the route begins with the parent. -/
theorem route_of_not_prefix {start goal : List α} (h : ¬ start <+: goal) : ∃ rest, route start goal = .up :: rest := by
  induction start generalizing goal with
  | nil => exact absurd List.nil_prefix h
  | cons a start ih =>
    cases goal with
    | nil => exact ⟨_, by rw [route_nil_right, List.length_cons, List.replicate_succ]⟩
    | cons b goal =>
      by_cases hab : a = b
      · subst hab
        obtain ⟨rest, hrest⟩ := ih fun hprefix => h (List.cons_prefix_cons.mpr ⟨rfl, hprefix⟩)
        exact ⟨rest, by rw [route_cons, hrest]⟩
      · exact ⟨_, by rw [route_cons_of_ne hab, List.replicate_succ, List.cons_append]⟩

end Route

end steps
