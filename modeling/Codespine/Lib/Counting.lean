import Mathlib

namespace counting

variable {κ : Type*} [DecidableEq κ] {ks : List κ}

/-- Occurrences, key by key, come to how many elements are keys. -/
theorem sum_count (hks : ks.Nodup) (list : List κ) : (ks.map fun k => list.count k).sum = list.countP fun a => a ∈ ks := by
  induction list with
  | nil => simp
  | cons a rest ih =>
    have hone : (ks.map fun k => if a = k then 1 else 0).sum = if a ∈ ks then 1 else 0 := by
      rw [← List.sum_toFinset _ hks, Finset.sum_ite_eq]
      simp only [List.mem_toFinset]
    simp only [List.count_cons, beq_iff_eq, List.countP_cons, decide_eq_true_eq]
    rw [List.sum_map_add, ih, hone]

theorem sum_count_le (hks : ks.Nodup) (list : List κ) : (ks.map fun k => list.count k).sum ≤ list.length := by
  rw [sum_count hks]
  exact List.countP_le_length

/-- With every element a key, to all of them. -/
theorem sum_count_eq (hks : ks.Nodup) {list : List κ} (hlist : ∀ a ∈ list, a ∈ ks) :
    (ks.map fun k => list.count k).sum = list.length := by
  rw [sum_count hks, List.countP_eq_length]
  exact fun a ha => decide_eq_true (hlist a ha)

end counting
