import Codespine.Lib.Digraph
import Mathlib.Data.List.Dedup

open Relation

namespace digraph

section Walk

variable {V : Type*} {adj : V → V → Prop}

/-- `b` is the end of a walk of exactly `n` arcs from `a`. -/
inductive Walk (adj : V → V → Prop) : ℕ → V → V → Prop
  | nil (a : V) : Walk adj 0 a a
  | snoc {n : ℕ} {a b c : V} : Walk adj n a b → adj b c → Walk adj (n + 1) a c

theorem Walk.reaches {n : ℕ} {a b : V} (h : Walk adj n a b) : Reaches adj a b := by
  induction h with
  | nil a => exact Reaches.refl a
  | snoc _ harc ih => exact ih.tail harc

theorem Walk.cons {n : ℕ} {a b c : V} (harc : adj a b) (h : Walk adj n b c) : Walk adj (n + 1) a c := by
  induction h with
  | nil b => exact .snoc (.nil a) harc
  | snoc _ hlast ih => exact .snoc (ih harc) hlast

theorem Walk.swap {n : ℕ} {a b : V} (h : Walk adj n a b) : Walk (Function.swap adj) n b a := by
  induction h with
  | nil a => exact .nil a
  | snoc _ harc ih => exact .cons harc ih

/-- Walks against the arcs are walks read backwards. -/
theorem walk_swap {n : ℕ} {a b : V} : Walk (Function.swap adj) n a b ↔ Walk adj n b a :=
  ⟨Walk.swap, Walk.swap⟩

theorem Walk.transGen {n : ℕ} {a b : V} (h : Walk adj (n + 1) a b) : TransGen adj a b := by
  cases h with
  | snoc hwalk harc => exact TransGen.tail' hwalk.reaches harc

end Walk

section Executable

variable {V : Type*} [DecidableEq V] (next : V → List V)

/-- The distinct ends of the walks of exactly `n` arcs from `v`. -/
def layer : ℕ → V → List V
  | 0, v => [v]
  | n + 1, v => ((layer n v).flatMap next).dedup

/-- The distinct ends of the walks of `1` to `bound` arcs from `v`. -/
def within (bound : ℕ) (v : V) : List V := ((List.range bound).flatMap fun n => layer next (n + 1) v).dedup

variable {next}

theorem mem_layer {n : ℕ} {v w : V} : w ∈ layer next n v ↔ Walk (fun a b => b ∈ next a) n v w := by
  induction n generalizing w with
  | zero =>
    constructor
    · intro h
      rw [List.mem_singleton.mp h]
      exact .nil v
    · intro h
      cases h
      exact List.mem_singleton_self v
  | succ n ih =>
    simp only [layer, List.mem_dedup, List.mem_flatMap, ih]
    constructor
    · rintro ⟨u, hwalk, harc⟩
      exact hwalk.snoc harc
    · rintro (_ | ⟨hwalk, harc⟩)
      exact ⟨_, hwalk, harc⟩

theorem mem_within {bound : ℕ} {v w : V} :
    w ∈ within next bound v ↔ ∃ n < bound, Walk (fun a b => b ∈ next a) (n + 1) v w := by
  simp only [within, List.mem_dedup, List.mem_flatMap, List.mem_range, mem_layer]

/-- One arc more: a walk of one arc, or an arc after a shorter walk. -/
theorem mem_within_succ {bound : ℕ} {v w : V} :
    w ∈ within next (bound + 1) v ↔ w ∈ next v ∨ ∃ u ∈ within next bound v, w ∈ next u := by
  simp only [mem_within]
  constructor
  · rintro ⟨n, hn, _ | ⟨hwalk, harc⟩⟩
    cases hwalk with
    | nil => exact Or.inl harc
    | @snoc n _ _ _ hwalk hlast => exact Or.inr ⟨_, ⟨n, by omega, hwalk.snoc hlast⟩, harc⟩
  · rintro (harc | ⟨u, ⟨n, hn, hwalk⟩, harc⟩)
    · exact ⟨0, by omega, .snoc (.nil v) harc⟩
    · exact ⟨n + 1, by omega, hwalk.snoc harc⟩

/-- When one arc more leads nowhere new, all that is reached is within the
bound. -/
theorem mem_within_of_closed {bound : ℕ} {v w : V} (hclosed : ∀ u ∈ within next (bound + 1) v, u ∈ within next bound v)
    (h : TransGen (fun a b => b ∈ next a) v w) : w ∈ within next bound v := by
  induction h with
  | single harc => exact hclosed _ (mem_within_succ.mpr (Or.inl harc))
  | tail _ harc ih => exact hclosed _ (mem_within_succ.mpr (Or.inr ⟨_, ih, harc⟩))

theorem nodup_within (bound : ℕ) (v : V) : (within next bound v).Nodup := List.nodup_dedup _

theorem transGen_of_mem_within {bound : ℕ} {v w : V} (h : w ∈ within next bound v) :
    TransGen (fun a b => b ∈ next a) v w := by
  obtain ⟨n, _, hwalk⟩ := mem_within.mp h
  exact hwalk.transGen

end Executable

end digraph
