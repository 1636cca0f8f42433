import Mathlib
import Codespine.Lib.Digraph

open digraph

namespace attribution

variable {V : Type*}

/-- One weighted call of a target by a source. -/
structure Arc (V : Type*) where
  source : V
  target : V
  weight : ℚ

/-- A finite weighted multigraph whose vertices carry a cost of their own.
Parallel arcs, arcs of weight zero and closed walks are allowed. -/
@[ext]
structure Network (V : Type*) where
  verts : Finset V
  arcs : Multiset (Arc V)
  own : V → ℚ
  source_mem : ∀ e ∈ arcs, e.source ∈ verts
  target_mem : ∀ e ∈ arcs, e.target ∈ verts

namespace Network

variable (N : Network V)

def Adj (a b : V) : Prop := ∃ e ∈ N.arcs, e.source = a ∧ e.target = b

/-- Two vertices in one strongly connected component. -/
def SameComponent (a b : V) : Prop := Linked N.Adj a b

/-- The cost of the whole network. -/
def total : ℚ := ∑ v ∈ N.verts, N.own v

open Classical in
/-- The strongly connected component of a vertex. -/
noncomputable def component (v : V) : Finset V := N.verts.filter (N.SameComponent v)

open Classical in
/-- The arcs between different components. -/
noncomputable def crossing : Multiset (Arc V) :=
  N.arcs.filter fun e => ¬ N.SameComponent e.source e.target

open Classical in
/-- The weight that enters a vertex from outside its component. -/
noncomputable def inbound (t : V) : ℚ :=
  ((N.crossing.filter fun e => e.target = t).map Arc.weight).sum

open Classical in
/-- The arcs that leave the component of a vertex for an entered vertex: those
along which it takes over cost. -/
noncomputable def leaving (v : V) : Multiset (Arc V) :=
  N.crossing.filter fun e => N.SameComponent v e.source ∧ 0 < N.inbound e.target

/-- The part of the target's cost that an arc carries to its source. -/
noncomputable def carry (f : V → ℚ) (e : Arc V) : ℚ := f e.target * e.weight / N.inbound e.target

/-- The propagation recurrence: the cost of a component is its own cost plus
what its outgoing arcs carry to it, and every member bears it whole. -/
def Solves (f : V → ℚ) : Prop :=
  ∀ v ∈ N.verts, f v = ∑ u ∈ N.component v, N.own u + ((N.leaving v).map (N.carry f)).sum

variable {N}

theorem mem_component {v u : V} : u ∈ N.component v ↔ u ∈ N.verts ∧ N.SameComponent v u := by
  classical
  simp [component]

theorem mem_leaving {v : V} {e : Arc V} : e ∈ N.leaving v ↔
    e ∈ N.arcs ∧ ¬ N.SameComponent e.source e.target ∧ N.SameComponent v e.source ∧
      0 < N.inbound e.target := by
  classical
  rw [leaving, crossing, Multiset.mem_filter, Multiset.mem_filter, and_assoc]

theorem component_eq {a b : V} (h : N.SameComponent a b) : N.component a = N.component b := by
  ext u
  simp only [mem_component]
  exact ⟨fun hu => ⟨hu.1, h.symm.trans hu.2⟩, fun hu => ⟨hu.1, h.trans hu.2⟩⟩

theorem leaving_eq {a b : V} (h : N.SameComponent a b) : N.leaving a = N.leaving b := by
  classical
  refine Multiset.filter_congr fun e _ => and_congr_left fun _ => ?_
  exact ⟨fun he => h.symm.trans he, fun he => h.trans he⟩

/-- A solution is constant on components. -/
theorem Solves.eq_of_sameComponent {f : V → ℚ} (hf : N.Solves f) {a b : V} (ha : a ∈ N.verts)
    (hb : b ∈ N.verts) (h : N.SameComponent a b) : f a = f b := by
  rw [hf a ha, hf b hb, component_eq h, leaving_eq h]

theorem rank_lt_of_mem_leaving {v : V} {e : Arc V} (he : e ∈ N.leaving v) :
    rank N.Adj N.verts e.target < rank N.Adj N.verts v := by
  obtain ⟨harc, hcross, hsame, _⟩ := mem_leaving.mp he
  rw [rank_eq_of_linked hsame]
  exact rank_lt_of_cross (N.source_mem e harc) ⟨e, harc, rfl, rfl⟩ hcross

/-- The recurrence has at most one solution: leaving a component lowers the
rank, so the right-hand side is settled before the left. -/
theorem Solves.unique {f g : V → ℚ} (hf : N.Solves f) (hg : N.Solves g) {v : V} (hv : v ∈ N.verts) :
    f v = g v := by
  induction hrank : rank N.Adj N.verts v using Nat.strong_induction_on generalizing v with
  | _ n ih =>
    rw [hf v hv, hg v hv]
    congr 1
    refine congrArg Multiset.sum (Multiset.map_congr rfl fun e he => ?_)
    have htarget := N.target_mem e (mem_leaving.mp he).1
    have hlt := rank_lt_of_mem_leaving he
    rw [carry, carry, ih _ (hrank ▸ hlt) htarget rfl]

section Nonnegative

variable (hown : ∀ v ∈ N.verts, 0 ≤ N.own v) (hweight : ∀ e ∈ N.arcs, 0 ≤ e.weight)

include hweight in
theorem inbound_nonneg (t : V) : 0 ≤ N.inbound t := by
  classical
  refine Multiset.sum_nonneg fun w hw => ?_
  obtain ⟨e, he, rfl⟩ := Multiset.mem_map.mp hw
  exact hweight e (Multiset.mem_of_mem_filter (Multiset.mem_of_mem_filter he))

include hown hweight in
/-- A solution is nowhere negative. -/
theorem Solves.nonneg {f : V → ℚ} (hf : N.Solves f) {v : V} (hv : v ∈ N.verts) : 0 ≤ f v := by
  induction hrank : rank N.Adj N.verts v using Nat.strong_induction_on generalizing v with
  | _ n ih =>
    rw [hf v hv]
    refine add_nonneg (Finset.sum_nonneg fun u hu => hown u (mem_component.mp hu).1) ?_
    refine Multiset.sum_nonneg fun q hq => ?_
    obtain ⟨e, he, rfl⟩ := Multiset.mem_map.mp hq
    have harc := (mem_leaving.mp he).1
    have hlt := rank_lt_of_mem_leaving he
    refine div_nonneg (mul_nonneg (ih _ (hrank ▸ hlt) (N.target_mem e harc) rfl) (hweight e harc)) ?_
    exact inbound_nonneg hweight e.target

end Nonnegative

/-- On an acyclic network a component is a single vertex. -/
theorem component_eq_singleton (hacyclic : ∀ a b, N.SameComponent a b → a = b) {v : V}
    (hv : v ∈ N.verts) : N.component v = {v} := by
  ext u
  rw [mem_component, Finset.mem_singleton]
  constructor
  · exact fun h => (hacyclic v u h.2).symm
  · rintro rfl
    exact ⟨hv, Linked.refl u⟩

theorem inbound_eq_zero {t : V} (ht : t ∉ N.verts) : N.inbound t = 0 := by
  classical
  refine Multiset.sum_eq_zero fun w hw => ?_
  obtain ⟨e, he, rfl⟩ := Multiset.mem_map.mp hw
  obtain ⟨he, rfl⟩ := Multiset.mem_filter.mp he
  exact absurd (N.target_mem e (Multiset.mem_of_mem_filter (Multiset.mem_of_mem_filter he))) ht

theorem mem_verts_of_inbound_pos {t : V} (ht : 0 < N.inbound t) : t ∈ N.verts := by
  by_contra hnot
  exact ht.ne' (inbound_eq_zero hnot)

section Acyclic

variable (hacyclic : ∀ a b, N.SameComponent a b → a = b) (hloop : ∀ e ∈ N.arcs, e.source ≠ e.target)

include hacyclic hloop

theorem crossing_of_acyclic : N.crossing = N.arcs := by
  classical
  exact Multiset.filter_eq_self.mpr fun e he hsame => hloop e he (hacyclic _ _ hsame)

theorem inbound_of_acyclic [DecidableEq V] (t : V) :
    N.inbound t = ((N.arcs.filter fun e => e.target = t).map Arc.weight).sum := by
  rw [inbound, crossing_of_acyclic hacyclic hloop]
  congr

/-- On an acyclic network the recurrence speaks of single vertices, and every
arc into a vertex counts towards the weight that enters it. -/
theorem Solves.of_acyclic [DecidableEq V] (hweight : ∀ e ∈ N.arcs, 0 ≤ e.weight) {f : V → ℚ} (hf : N.Solves f)
    {v : V} (hv : v ∈ N.verts) :
    f v = N.own v + ((N.arcs.filter fun e => e.source = v).map fun e =>
      f e.target * e.weight / ((N.arcs.filter fun e' => e'.target = e.target).map Arc.weight).sum).sum := by
  classical
  have hleaving : N.leaving v = (N.arcs.filter fun e => e.source = v).filter fun e => 0 < N.inbound e.target := by
    rw [leaving, crossing_of_acyclic hacyclic hloop, Multiset.filter_filter]
    refine Multiset.filter_congr fun e _ => ?_
    rw [and_comm]
    exact and_congr_right fun _ => ⟨fun h => (hacyclic _ _ h).symm, fun h => h ▸ Linked.refl _⟩
  rw [hf v hv, component_eq_singleton hacyclic hv, Finset.sum_singleton, hleaving]
  simp only [← inbound_of_acyclic hacyclic hloop]
  congr 1
  have hsplit := congrArg (fun M => (M.map (N.carry f)).sum)
    (Multiset.filter_add_not (fun e => 0 < N.inbound e.target) (N.arcs.filter fun e => e.source = v))
  -- a vertex that no weight enters is the target of arcs of weight zero only
  have hrest : (((N.arcs.filter fun e => e.source = v).filter fun e => ¬ 0 < N.inbound e.target).map
      (N.carry f)).sum = 0 := by
    refine Multiset.sum_eq_zero fun q hq => ?_
    obtain ⟨e, he, rfl⟩ := Multiset.mem_map.mp hq
    have hzero := le_antisymm (not_lt.mp (Multiset.mem_filter.mp he).2) (inbound_nonneg hweight e.target)
    rw [carry, hzero, div_zero]
  rw [Multiset.map_add, Multiset.sum_add, hrest, add_zero] at hsplit
  exact hsplit

end Acyclic

end Network

end attribution
