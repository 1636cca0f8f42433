import Mathlib.Logic.Relation
import Mathlib.Data.Finset.Card
import Mathlib.Data.Finset.Filter
import Mathlib.Order.Basic

open Relation

namespace digraph

variable {V : Type*} {adj : V → V → Prop}

/-- `b` is reached from `a` along zero or more arcs. -/
def Reaches (adj : V → V → Prop) : V → V → Prop := ReflTransGen adj

/-- The two vertices lie on a common closed walk: they share a strongly
connected component. -/
def Linked (adj : V → V → Prop) (a b : V) : Prop := Reaches adj a b ∧ Reaches adj b a

theorem Reaches.refl (a : V) : Reaches adj a a := ReflTransGen.refl

theorem Reaches.single {a b : V} (h : adj a b) : Reaches adj a b := ReflTransGen.single h

theorem Reaches.trans {a b c : V} (hab : Reaches adj a b) (hbc : Reaches adj b c) : Reaches adj a c :=
  ReflTransGen.trans hab hbc

theorem Reaches.tail {a b c : V} (hab : Reaches adj a b) (hbc : adj b c) : Reaches adj a c :=
  ReflTransGen.tail hab hbc

theorem Linked.refl (a : V) : Linked adj a a := ⟨Reaches.refl a, Reaches.refl a⟩

theorem Linked.symm {a b : V} (h : Linked adj a b) : Linked adj b a := ⟨h.2, h.1⟩

theorem Linked.trans {a b c : V} (hab : Linked adj a b) (hbc : Linked adj b c) : Linked adj a c :=
  ⟨hab.1.trans hbc.1, hbc.2.trans hab.2⟩

/-- A set that absorbs every arc leaving it absorbs every walk leaving it. -/
theorem Reaches.mem_of_closed {S : V → Prop} (hclosed : ∀ a b, S a → adj a b → S b)
    {a b : V} (hab : Reaches adj a b) (ha : S a) : S b := by
  induction hab with
  | refl => exact ha
  | tail _ hstep ih => exact hclosed _ _ ih hstep

/-- A walk stays inside `S` until it enters a set `D` closed under arcs, when
every arc leaving `S` enters `D`. -/
theorem Reaches.mem_or_of_closed {S D : V → Prop}
    (hleave : ∀ a b, S a → adj a b → S b ∨ D b) (hclosed : ∀ a b, D a → adj a b → D b)
    {a b : V} (hab : Reaches adj a b) (ha : S a) : S b ∨ D b := by
  refine hab.mem_of_closed (S := fun v => S v ∨ D v) ?_ (Or.inl ha)
  rintro v w (hv | hv) hstep
  · exact hleave v w hv hstep
  · exact Or.inr (hclosed v w hv hstep)

/-- Arcs from a vertex to itself lead nowhere new. -/
theorem reaches_iff_of_loops {adj' : V → V → Prop} (h : ∀ a b, adj' a b ↔ adj a b ∧ a ≠ b) {a b : V} :
    Reaches adj' a b ↔ Reaches adj a b := by
  constructor
  · exact fun hreach => ReflTransGen.mono (fun a b hab => ((h a b).mp hab).1) _ _ hreach
  · intro hreach
    induction hreach with
    | refl => exact Reaches.refl a
    | @tail b c _ hbc ih =>
      by_cases hloop : b = c
      · exact hloop ▸ ih
      · exact ih.tail ((h b c).mpr ⟨hbc, hloop⟩)

theorem linked_iff_of_loops {adj' : V → V → Prop} (h : ∀ a b, adj' a b ↔ adj a b ∧ a ≠ b) {a b : V} :
    Linked adj' a b ↔ Linked adj a b :=
  and_congr (reaches_iff_of_loops h) (reaches_iff_of_loops h)

/-- A numbering of the vertices by component: two vertices share a number
exactly when they are linked, and no arc climbs. Every pass that numbers
components callee first produces one. -/
structure Numbering (adj : V → V → Prop) (number : V → ℤ) : Prop where
  eq_iff_linked : ∀ a b, number a = number b ↔ Linked adj a b
  le_of_adj : ∀ a b, adj a b → number b ≤ number a

section Image

variable {W : Type*} {adj' : W → W → Prop}

/-- A map that carries arcs to arcs carries walks to walks. -/
theorem Reaches.map {f : V → W} (hf : ∀ a b, adj a b → adj' (f a) (f b)) {a b : V}
    (h : Reaches adj a b) : Reaches adj' (f a) (f b) :=
  h.lift f hf

/-- Walks lift along an injection onto which every arc of the target lifts. -/
theorem Reaches.of_map {f : V → W} (hf : Function.Injective f)
    (hlift : ∀ a w, adj' (f a) w → ∃ b, f b = w ∧ adj a b) {a b : V}
    (h : Reaches adj' (f a) (f b)) : Reaches adj a b := by
  have key : ∀ w, Reaches adj' (f a) w → ∃ c, f c = w ∧ Reaches adj a c := by
    intro w hw
    induction hw with
    | refl => exact ⟨a, rfl, Reaches.refl a⟩
    | tail _ hstep ih =>
      obtain ⟨c, rfl, hc⟩ := ih
      obtain ⟨d, hd, hcd⟩ := hlift c _ hstep
      exact ⟨d, hd, hc.tail hcd⟩
  obtain ⟨c, hc, hac⟩ := key _ h
  rwa [← hf hc]

theorem Linked.map_iff {f : V → W} (hf : Function.Injective f)
    (hmap : ∀ a b, adj a b → adj' (f a) (f b))
    (hlift : ∀ a w, adj' (f a) w → ∃ b, f b = w ∧ adj a b) (a b : V) :
    Linked adj' (f a) (f b) ↔ Linked adj a b :=
  ⟨fun h => ⟨h.1.of_map hf hlift, h.2.of_map hf hlift⟩, fun h => ⟨h.1.map hmap, h.2.map hmap⟩⟩

end Image

section Rank

open Classical in
/-- How many of the vertices a vertex reaches. Leaving a component strictly
lowers it, so recurrences over components can be solved by induction on it. -/
noncomputable def rank (adj : V → V → Prop) (verts : Finset V) (v : V) : ℕ :=
  (verts.filter (Reaches adj v)).card

theorem rank_le_card (verts : Finset V) (v : V) : rank adj verts v ≤ verts.card := by
  classical
  exact Finset.card_filter_le _ _

theorem rank_pos {verts : Finset V} {v : V} (hv : v ∈ verts) : 0 < rank adj verts v := by
  classical
  exact Finset.card_pos.mpr ⟨v, Finset.mem_filter.mpr ⟨hv, Reaches.refl v⟩⟩

/-- Everything a reached vertex reaches was reached already. -/
theorem rank_le_of_reaches {verts : Finset V} {a b : V} (h : Reaches adj a b) :
    rank adj verts b ≤ rank adj verts a := by
  classical
  refine Finset.card_le_card fun v hv => ?_
  simp only [Finset.mem_filter] at hv ⊢
  exact ⟨hv.1, h.trans hv.2⟩

theorem rank_eq_of_linked {verts : Finset V} {a b : V} (h : Linked adj a b) :
    rank adj verts a = rank adj verts b :=
  le_antisymm (rank_le_of_reaches h.2) (rank_le_of_reaches h.1)

/-- An arc that leaves its component lowers the rank: the source itself is no
longer reached. -/
theorem rank_lt_of_cross {verts : Finset V} {a b : V} (ha : a ∈ verts) (hab : adj a b)
    (hcross : ¬ Linked adj a b) : rank adj verts b < rank adj verts a := by
  classical
  refine Finset.card_lt_card ⟨fun v hv => ?_, fun hsub => ?_⟩
  · simp only [Finset.mem_filter] at hv ⊢
    exact ⟨hv.1, (Reaches.single hab).trans hv.2⟩
  · have hmem := hsub (Finset.mem_filter.mpr ⟨ha, Reaches.refl a⟩)
    exact hcross ⟨Reaches.single hab, (Finset.mem_filter.mp hmem).2⟩

end Rank

end digraph
