import Mathlib.Order.Interval.Set.Basic
import Codespine.Enrich.RuntimeJoin.RowOrder

open codespine.schema codespine.store

namespace codespine.enrich.RuntimeJoin

variable {nodes : List RuntimeTargetNode} {line : ℚ} {best node : RuntimeTargetNode}

/-- The lines of a node. -/
def lines (node : RuntimeTargetNode) : Set ℤ := Set.Icc node.startLine node.endLine

/-- Of two ranges, one lies in the other, or no line lies in both. -/
def NestedOrDisjoint (a b : RuntimeTargetNode) : Prop :=
  lines a ⊆ lines b ∨ lines b ⊆ lines a ∨ Disjoint (lines a) (lines b)

theorem width_le_iff {a b : RuntimeTargetNode} : width a ≤ width b ↔
    a.endLine - a.startLine ≤ b.endLine - b.startLine ∧
      (a.endLine - a.startLine = b.endLine - b.startLine → b.startLine ≤ a.startLine) := by
  rw [← not_lt, width_lt_iff]
  constructor
  · intro h
    omega
  · rintro ⟨hspan, hstart⟩ (hlt | ⟨heq, hlt⟩)
    · exact absurd hlt (not_lt.mpr hspan)
    · exact absurd hlt (not_lt.mpr (hstart heq.symm))

/-- Nothing is found below the first line, or where no range has the line. -/
theorem enclosingNode_eq_none_iff : enclosingNode nodes line = none ↔
    line < 1 ∨ ∀ node ∈ nodes, ¬ Encloses line node := by
  have hnone : enclosingNode nodes line = none ↔ ∀ node ∈ nodes, ¬ Encloses line node := by
    rw [enclosingNode_eq_argmin, List.argmin_eq_none, List.filter_eq_nil_iff]
    simp only [decide_eq_true_eq]
  rw [hnone]
  refine ⟨Or.inr, fun h => h.elim (fun hline node _ hencloses => ?_) id⟩
  have hstart : (1 : ℚ) ≤ node.startLine := by exact_mod_cast hencloses.1.1
  exact (hstart.trans hencloses.2.1).not_gt hline

/-- Two ranges that have a line in common are nested, the narrower one in the
wider one. -/
theorem lines_subset (hnested : NestedOrDisjoint best node) (hbest : Encloses line best) (hnode : Encloses line node)
    (hwidth : best.endLine - best.startLine ≤ node.endLine - node.startLine) : lines best ⊆ lines node := by
  obtain ⟨⟨_, hbestRange⟩, hbestStart, hbestEnd⟩ := hbest
  obtain ⟨⟨_, hnodeRange⟩, hnodeStart, hnodeEnd⟩ := hnode
  rcases hnested with hsubset | hsubset | hdisjoint
  · exact hsubset
  · obtain ⟨hstart, hend⟩ := (Set.Icc_subset_Icc_iff hnodeRange).mp hsubset
    exact Set.Icc_subset_Icc (by omega) (by omega)
  · -- the later of the two starts is in both
    have hcross : best.startLine ≤ node.endLine := by exact_mod_cast hbestStart.trans hnodeEnd
    have hcross' : node.startLine ≤ best.endLine := by exact_mod_cast hnodeStart.trans hbestEnd
    exact absurd ⟨le_max_left _ _, max_le hbestRange hcross'⟩
      (Set.disjoint_right.mp hdisjoint ⟨le_max_right best.startLine node.startLine, max_le hcross hnodeRange⟩)

/-- The search finds a node of the shortest range that has the line and, among
those, of the latest start; it finds none just when there is none. Where ranges
are nested or disjoint, the one it finds lies in all others that have the
line. -/
theorem enclosingNode_innermost (nodes : List RuntimeTargetNode) (line : ℚ) :
    (enclosingNode nodes line = none ↔ line < 1 ∨ ∀ node ∈ nodes, ¬ Encloses line node) ∧
    ∀ best, enclosingNode nodes line = some best → best ∈ nodes ∧ Encloses line best ∧
      (∀ node ∈ nodes, Encloses line node → best.endLine - best.startLine ≤ node.endLine - node.startLine) ∧
      (∀ node ∈ nodes, Encloses line node → best.endLine - best.startLine = node.endLine - node.startLine →
        node.startLine ≤ best.startLine) ∧
      ((∀ a ∈ nodes, ∀ b ∈ nodes, 1 ≤ a.startLine → a.startLine ≤ a.endLine → 1 ≤ b.startLine → b.startLine ≤ b.endLine →
          NestedOrDisjoint a b) →
        ∀ node ∈ nodes, Encloses line node → lines best ⊆ lines node) := by
  refine ⟨enclosingNode_eq_none_iff, fun best hbest => ?_⟩
  obtain ⟨hmem, hencloses, hleast⟩ := narrowest_of_enclosingNode hbest
  have hwidth : ∀ node ∈ nodes, Encloses line node →
      best.endLine - best.startLine ≤ node.endLine - node.startLine :=
    fun node hnode henclosing => (width_le_iff.mp (hleast node hnode henclosing)).1
  refine ⟨hmem, hencloses, hwidth, fun node hnode henclosing => (width_le_iff.mp (hleast node hnode henclosing)).2, ?_⟩
  intro hnested node hnode henclosing
  have hpair := hnested best hmem node hnode hencloses.1.1 hencloses.1.2 henclosing.1.1 henclosing.1.2
  exact lines_subset hpair hencloses henclosing (hwidth node hnode henclosing)

end codespine.enrich.RuntimeJoin
