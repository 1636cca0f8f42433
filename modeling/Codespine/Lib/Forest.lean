import Mathlib

/-- Trees over numbered nodes: a node comes after its parent. -/
structure Forest (n : ℕ) where
  parent : Fin n → Option (Fin n)
  parent_lt : ∀ x p, parent x = some p → p < x

namespace Forest

variable {n : ℕ} (F : Forest n)

/-- The ancestors met on the first `fuel` steps up, nearest first. -/
def climb : ℕ → Fin n → List (Fin n)
  | 0, _ => []
  | fuel + 1, x =>
    match F.parent x with
    | some p => p :: climb fuel p
    | none => []

/-- All ancestors, nearest first. There are at most as many as nodes come
before. -/
def ancestors (x : Fin n) : List (Fin n) := F.climb x x

/-- The root of the tree a node is in. -/
def root (x : Fin n) : Fin n := (F.ancestors x).getLast?.getD x

/-- The proper descendants, in the order of the numbering. -/
def descendants (x : Fin n) : List (Fin n) := (List.finRange n).filter fun y => x ∈ F.ancestors y

def children (x : Fin n) : List (Fin n) := (List.finRange n).filter fun y => F.parent y = some x

variable {F}

theorem climb_of_le {fuel fuel' : ℕ} {x : Fin n} (h : (x : ℕ) ≤ fuel) (h' : (x : ℕ) ≤ fuel') :
    F.climb fuel x = F.climb fuel' x := by
  induction fuel generalizing x fuel' with
  | zero =>
    cases fuel' with
    | zero => rfl
    | succ fuel' =>
      simp only [climb]
      split
      · next p hp =>
        have hlt : (p : ℕ) < x := F.parent_lt x p hp
        omega
      · rfl
  | succ fuel ih =>
    cases hparent : F.parent x with
    | none => cases fuel' <;> simp [climb, hparent]
    | some p =>
      have hlt : (p : ℕ) < x := F.parent_lt x p hparent
      obtain ⟨k, rfl⟩ : ∃ k, fuel' = k + 1 := ⟨fuel' - 1, by omega⟩
      have hfuel : (p : ℕ) ≤ fuel := by omega
      have hfuel' : (p : ℕ) ≤ k := by omega
      simp only [climb, hparent]
      rw [ih hfuel hfuel']

theorem ancestors_of_parent {x p : Fin n} (h : F.parent x = some p) : F.ancestors x = p :: F.ancestors p := by
  have hlt : (p : ℕ) < x := F.parent_lt x p h
  obtain ⟨k, hk⟩ : ∃ k, (x : ℕ) = k + 1 := ⟨x - 1, by omega⟩
  have hclimb : F.ancestors x = p :: F.climb k p := by
    unfold ancestors
    rw [hk]
    simp only [climb, h]
  have hfuel : (p : ℕ) ≤ k := by omega
  rw [hclimb, climb_of_le hfuel le_rfl]
  rfl

theorem ancestors_of_root {x : Fin n} (h : F.parent x = none) : F.ancestors x = [] := by
  unfold ancestors
  generalize (x : ℕ) = fuel
  cases fuel <;> simp [climb, h]

/-- Induction from the roots down. -/
theorem induction_on {motive : Fin n → Prop} (hroot : ∀ x, F.parent x = none → motive x)
    (hchild : ∀ x p, F.parent x = some p → motive p → motive x) (x : Fin n) : motive x := by
  induction x using WellFoundedLT.induction with
  | _ x ih =>
    cases hparent : F.parent x with
    | none => exact hroot x hparent
    | some p => exact hchild x p hparent (ih p (F.parent_lt x p hparent))

theorem root_of_parent {x p : Fin n} (h : F.parent x = some p) : F.root x = F.root p := by
  unfold root
  rw [ancestors_of_parent h, List.getLast?_cons]
  rfl

theorem root_of_root {x : Fin n} (h : F.parent x = none) : F.root x = x := by
  unfold root
  rw [ancestors_of_root h]
  rfl

variable (F) in
theorem parent_root (x : Fin n) : F.parent (F.root x) = none := by
  induction x using induction_on (F := F) with
  | hroot x hparent => rwa [root_of_root hparent]
  | hchild x p hparent ih => rwa [root_of_parent hparent]

theorem root_of_mem_ancestors {a x : Fin n} (h : a ∈ F.ancestors x) : F.root a = F.root x := by
  induction x using induction_on (F := F) with
  | hroot x hparent =>
    rw [ancestors_of_root hparent] at h
    exact absurd h List.not_mem_nil
  | hchild x p hparent ih =>
    rw [root_of_parent hparent]
    rw [ancestors_of_parent hparent] at h
    obtain rfl | h := List.mem_cons.mp h
    · rfl
    · exact ih h

theorem exists_child_of_mem_ancestors {a x : Fin n} (h : a ∈ F.ancestors x) : ∃ y, F.parent y = some a := by
  induction x using induction_on (F := F) with
  | hroot x hparent =>
    rw [ancestors_of_root hparent] at h
    exact absurd h List.not_mem_nil
  | hchild x p hparent ih =>
    rw [ancestors_of_parent hparent] at h
    obtain rfl | h := List.mem_cons.mp h
    · exact ⟨x, hparent⟩
    · exact ih h

end Forest
