import Codespine.Lib.Digraph
import Mathlib.Algebra.BigOperators.Group.Finset.Basic

open Relation

namespace digraph

variable {V : Type*} {child : V → V → Prop}

/-- A forest by its arcs: every vertex has one parent at most, and no walk
comes back to where it started. -/
structure IsForest (child : V → V → Prop) : Prop where
  parent_unique : ∀ {a b c}, child a c → child b c → a = b
  acyclic : ∀ {a b}, child a b → ¬ Reaches child b a

namespace IsForest

/-- Two ancestors of one vertex are on one line. -/
theorem comparable (h : IsForest child) {a b d : V} (had : Reaches child a d) (hbd : Reaches child b d) :
    Reaches child a b ∨ Reaches child b a := by
  have hunique : Relator.RightUnique (Function.swap child) := fun _ _ _ hac hbc => h.parent_unique hac hbc
  rcases ReflTransGen.total_of_right_unique hunique had.swap hbd.swap with hab | hba
  · exact .inr hab.swap
  · exact .inl hba.swap

/-- A walk to a vertex other than its start comes through the parent. -/
theorem reaches_parent (h : IsForest child) {a p c : V} (hac : Reaches child a c) (hne : a ≠ c) (hpc : child p c) :
    Reaches child a p := by
  rcases ReflTransGen.cases_tail hac with heq | ⟨q, haq, hqc⟩
  · exact absurd heq.symm hne
  · exact h.parent_unique hqc hpc ▸ haq

/-- The subtrees of two children have nothing in common. -/
theorem child_eq (h : IsForest child) {p a b d : V} (hpa : child p a) (hpb : child p b) (had : Reaches child a d)
    (hbd : Reaches child b d) : a = b := by
  by_contra hne
  rcases h.comparable had hbd with hab | hba
  · exact h.acyclic hpa (h.reaches_parent hab hne hpb)
  · exact h.acyclic hpb (h.reaches_parent hba (Ne.symm hne) hpa)

end IsForest

open Classical in
/-- The vertices of the subtree below a vertex, itself among them. -/
noncomputable def descendants (child : V → V → Prop) (verts : Finset V) (v : V) : Finset V :=
  verts.filter (Reaches child v)

theorem mem_descendants {verts : Finset V} {v d : V} :
    d ∈ descendants child verts v ↔ d ∈ verts ∧ Reaches child v d := by
  classical
  exact Finset.mem_filter

/-- What a subtree adds up to: its root, and the subtrees of the children. -/
theorem IsForest.sum_descendants {M : Type*} [AddCommMonoid M] (h : IsForest child) (own : V → M)
    {verts children : Finset V} {v : V} (hv : v ∈ verts) (hchildren : ∀ c, c ∈ children ↔ child v c) :
    ∑ d ∈ descendants child verts v, own d =
      own v + ∑ c ∈ children, ∑ d ∈ descendants child verts c, own d := by
  classical
  have hsplit : descendants child verts v = insert v (children.biUnion (descendants child verts)) := by
    ext d
    rw [Finset.mem_insert, Finset.mem_biUnion, mem_descendants]
    constructor
    · rintro ⟨hd, hvd⟩
      rcases ReflTransGen.cases_head hvd with rfl | ⟨c, hvc, hcd⟩
      · exact .inl rfl
      · exact .inr ⟨c, (hchildren c).mpr hvc, mem_descendants.mpr ⟨hd, hcd⟩⟩
    · rintro (rfl | ⟨c, hc, hd⟩)
      · exact ⟨hv, Reaches.refl d⟩
      · obtain ⟨hd, hcd⟩ := mem_descendants.mp hd
        exact ⟨hd, (Reaches.single ((hchildren c).mp hc)).trans hcd⟩
  have hroot : v ∉ children.biUnion (descendants child verts) := by
    intro hmem
    obtain ⟨c, hc, hv⟩ := Finset.mem_biUnion.mp hmem
    exact h.acyclic ((hchildren c).mp hc) (mem_descendants.mp hv).2
  have hdisjoint : (children : Set V).PairwiseDisjoint (descendants child verts) := by
    intro a ha b hb hne
    refine Finset.disjoint_left.mpr fun d had hbd => hne ?_
    exact h.child_eq ((hchildren a).mp ha) ((hchildren b).mp hb) (mem_descendants.mp had).2 (mem_descendants.mp hbd).2
  rw [hsplit, Finset.sum_insert hroot, Finset.sum_biUnion hdisjoint]

end digraph
