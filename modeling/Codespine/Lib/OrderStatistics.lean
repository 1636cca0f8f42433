import Mathlib.Algebra.Order.BigOperators.Group.List
import Mathlib.Data.List.Sort
import Mathlib.Order.Lattice
import Mathlib.Tactic

namespace orderStatistics

variable {α : Type*} [LinearOrder α] {s : List α} {x : α} {i : ℕ}

/-- Of a sorted list, the entries up to a place are at most what stands there. -/
theorem lt_countP_le (hsorted : s.Pairwise (· ≤ ·)) (hx : s[i]? = some x) : i < s.countP fun y => y ≤ x := by
  obtain ⟨hi, rfl⟩ := List.getElem?_eq_some_iff.mp hx
  have hle : ∀ y ∈ s.take (i + 1), y ≤ s[i] := by
    intro y hy
    obtain ⟨j, hj, rfl⟩ := List.mem_iff_getElem.mp hy
    rw [List.length_take, lt_min_iff] at hj
    rw [List.getElem_take]
    rcases (Nat.lt_succ_iff.mp hj.1).eq_or_lt with rfl | hlt
    · exact le_rfl
    · exact List.pairwise_iff_getElem.mp hsorted j i hj.2 hi hlt
  have hcount : (s.take (i + 1)).countP (fun y => y ≤ s[i]) = i + 1 := by
    rw [List.countP_eq_length.mpr fun y hy => decide_eq_true (hle y hy), List.length_take, min_eq_left (by omega)]
  have hsublist := (List.take_sublist (i + 1) s).countP_le (p := fun y => decide (y ≤ s[i]))
  omega

/-- The entries from a place on are at least what stands there. -/
theorem length_le_countP_ge (hsorted : s.Pairwise (· ≤ ·)) (hx : s[i]? = some x) :
    s.length ≤ i + s.countP fun y => x ≤ y := by
  obtain ⟨hi, rfl⟩ := List.getElem?_eq_some_iff.mp hx
  have hge : ∀ y ∈ s.drop i, s[i] ≤ y := by
    intro y hy
    obtain ⟨j, hj, rfl⟩ := List.mem_iff_getElem.mp hy
    rw [List.length_drop] at hj
    rw [List.getElem_drop]
    rcases Nat.eq_zero_or_pos j with rfl | hpos
    · exact le_rfl
    · exact List.pairwise_iff_getElem.mp hsorted i (i + j) hi (by omega) (by omega)
  have hcount : (s.drop i).countP (fun y => s[i] ≤ y) = s.length - i := by
    rw [List.countP_eq_length.mpr fun y hy => decide_eq_true (hge y hy), List.length_drop]
  have hsublist := (List.drop_sublist i s).countP_le (p := fun y => decide (s[i] ≤ y))
  omega

theorem countP_le_mono {y : α} (h : x ≤ y) (l : List α) : (l.countP fun z => z ≤ x) ≤ l.countP fun z => z ≤ y :=
  List.countP_mono_left fun _ _ hz => decide_eq_true ((of_decide_eq_true hz).trans h)

theorem countP_ge_mono {y : α} (h : x ≤ y) (l : List α) : (l.countP fun z => y ≤ z) ≤ l.countP fun z => x ≤ z :=
  List.countP_mono_left fun _ _ hz => decide_eq_true (h.trans (of_decide_eq_true hz))

/-- What lies between the two middle entries of a sorted list is a median: half
of the entries are at most it, and half are at least it. -/
theorem half_of_between {low high : α} (hsorted : s.Pairwise (· ≤ ·)) (hlow : s[(s.length - 1) / 2]? = some low)
    (hhigh : s[s.length / 2]? = some high) (hx : low ≤ x ∧ x ≤ high) :
    s.length ≤ 2 * (s.countP fun y => y ≤ x) ∧ s.length ≤ 2 * s.countP fun y => x ≤ y := by
  have hbelow := (lt_countP_le hsorted hlow).trans_le (countP_le_mono hx.1 s)
  have habove := length_le_countP_ge hsorted hhigh
  have hmono := countP_ge_mono hx.2 s
  omega

/-- A mean lies between any two bounds of the entries. -/
theorem mean_between {l : List ℚ} (hl : l ≠ []) {low high : ℚ} (hlow : ∀ y ∈ l, low ≤ y) (hhigh : ∀ y ∈ l, y ≤ high) :
    low ≤ l.sum / l.length ∧ l.sum / l.length ≤ high := by
  have hlength : (0 : ℚ) < l.length := by exact_mod_cast List.length_pos_iff.mpr hl
  have hleast := List.card_nsmul_le_sum l low hlow
  have hmost := List.sum_le_card_nsmul l high hhigh
  rw [nsmul_eq_mul] at hleast hmost
  constructor
  · rw [le_div_iff₀ hlength, mul_comm]
    exact hleast
  · rw [div_le_iff₀ hlength, mul_comm]
    exact hmost

end orderStatistics
