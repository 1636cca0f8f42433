import Mathlib

/-- A consistent comparison function: negative when its first argument goes
first, zero on a tie. -/
structure Comparator (α : Type*) where
  compare : α → α → ℚ
  neg_iff : ∀ a b, compare a b < 0 ↔ 0 < compare b a
  trans : ∀ a b c, compare a b ≤ 0 → compare b c ≤ 0 → compare a c ≤ 0

namespace Comparator

variable {α β : Type*}

theorem zero_iff (c : Comparator α) (a b : α) : c.compare a b = 0 ↔ c.compare b a = 0 := by
  have h := c.neg_iff a b
  have h' := c.neg_iff b a
  constructor <;> intro h0 <;> by_contra hne <;>
    rcases lt_or_gt_of_ne hne with hlt | hgt <;> simp_all

theorem total (c : Comparator α) (a b : α) : c.compare a b ≤ 0 ∨ c.compare b a ≤ 0 := by
  rcases le_or_gt (c.compare a b) 0 with h | h
  · exact Or.inl h
  · exact Or.inr ((c.neg_iff b a).mpr h).le

/-- `(a, b) => f(a) - f(b)`. -/
def ascending (f : α → ℚ) : Comparator α where
  compare a b := f a - f b
  neg_iff a b := by constructor <;> intro h <;> linarith
  trans a b c hab hbc := by linarith

/-- `(a, b) => f(b) - f(a)`. -/
def descending (f : α → ℚ) : Comparator α := ascending fun a => -f a

/-- `a < b ? -1 : a > b ? 1 : 0`. -/
def ofOrder [LinearOrder α] : Comparator α where
  compare a b := if a < b then -1 else if b < a then 1 else 0
  neg_iff a b := by
    rcases lt_trichotomy a b with h | rfl | h
    · simp [h, h.not_gt]
    · simp
    · simp [h, h.not_gt]
  trans a b c hab hbc := by
    have hle : ∀ x y : α, (if x < y then (-1 : ℚ) else if y < x then 1 else 0) ≤ 0 ↔ x ≤ y := by
      intro x y
      rcases lt_trichotomy x y with h | rfl | h
      · simp [h, h.le]
      · simp
      · simp only [h, h.not_gt, h.not_ge, if_false, if_true, iff_false, not_le, one_pos]
    rw [hle] at hab hbc ⊢
    exact hab.trans hbc

/-- Compares images. -/
def on (c : Comparator β) (f : α → β) : Comparator α where
  compare a b := c.compare (f a) (f b)
  neg_iff a b := c.neg_iff (f a) (f b)
  trans x y z := c.trans (f x) (f y) (f z)

/-- `(a, b) => c(a, b) || d(a, b)`: the second decides the ties of the first. -/
def thenBy (c d : Comparator α) : Comparator α where
  compare a b := if c.compare a b ≠ 0 then c.compare a b else d.compare a b
  neg_iff a b := by
    by_cases h : c.compare a b = 0
    · have h' := (c.zero_iff a b).mp h
      simpa [h, h'] using d.neg_iff a b
    · have h' : c.compare b a ≠ 0 := fun h0 => h ((c.zero_iff a b).mpr h0)
      simpa [h, h'] using c.neg_iff a b
  trans x y z hxy hyz := by
    have hle : ∀ a b, (if c.compare a b ≠ 0 then c.compare a b else d.compare a b) ≤ 0 → c.compare a b ≤ 0 := by
      intro a b hab
      split at hab
      · exact hab
      · next h => exact (not_not.mp h).le
    have htrans := c.trans x y z (hle x y hxy) (hle y z hyz)
    split
    · exact htrans
    · next hxz =>
      have hxz := not_not.mp hxz
      have hzx := (c.zero_iff x z).mp hxz
      have hxy0 : c.compare x y = 0 := by
        refine le_antisymm (hle x y hxy) (not_lt.mp fun hlt => ?_)
        have hpos := (c.neg_iff x y).mp hlt
        have := c.trans y z x (hle y z hyz) hzx.le
        linarith
      have hyz0 : c.compare y z = 0 := by
        refine le_antisymm (hle y z hyz) (not_lt.mp fun hlt => ?_)
        have hpos := (c.neg_iff y z).mp hlt
        have := c.trans z x y hzx.le (hle x y hxy)
        linarith
      rw [if_neg (not_not.mpr hxy0)] at hxy
      rw [if_neg (not_not.mpr hyz0)] at hyz
      exact d.trans x y z hxy hyz

theorem compare_le_of_thenBy {c d : Comparator α} {a b : α} (h : (c.thenBy d).compare a b ≤ 0) :
    c.compare a b ≤ 0 := by
  change (if c.compare a b ≠ 0 then c.compare a b else d.compare a b) ≤ 0 at h
  split at h
  · exact h
  · next hzero => exact (not_not.mp hzero).le

theorem thenBy_neg {c : Comparator α} (d : Comparator α) {a b : α} (h : c.compare a b < 0) :
    (c.thenBy d).compare a b < 0 := by
  change (if c.compare a b ≠ 0 then c.compare a b else d.compare a b) < 0
  rwa [if_pos h.ne]

theorem thenBy_of_zero {c : Comparator α} (d : Comparator α) {a b : α} (h : c.compare a b = 0) :
    (c.thenBy d).compare a b = d.compare a b := if_neg (not_not.mpr h)

theorem thenBy_congr {c c' : Comparator α} (d : Comparator α) {a b : α} (h : c.compare a b = c'.compare a b) :
    (c.thenBy d).compare a b = (c'.thenBy d).compare a b := by
  change (if c.compare a b ≠ 0 then c.compare a b else d.compare a b) =
    if c'.compare a b ≠ 0 then c'.compare a b else d.compare a b
  rw [h]

theorem thenBy_eq_zero_iff {c d : Comparator α} {a b : α} :
    (c.thenBy d).compare a b = 0 ↔ c.compare a b = 0 ∧ d.compare a b = 0 := by
  change (if c.compare a b ≠ 0 then c.compare a b else d.compare a b) = 0 ↔ _
  split
  · next hne => exact ⟨fun h => absurd h hne, fun h => h.1⟩
  · next hzero => exact ⟨fun h => ⟨not_not.mp hzero, h⟩, fun h => h.2⟩

theorem ofOrder_eq_zero_iff [LinearOrder α] {a b : α} : ofOrder.compare a b = 0 ↔ a = b := by
  change (if a < b then (-1 : ℚ) else if b < a then 1 else 0) = 0 ↔ _
  obtain h | rfl | h := lt_trichotomy a b
  · simp [h, h.ne]
  · simp
  · simp [h, h.not_gt, h.ne']

/-- `a` may stand before `b`. -/
def le (c : Comparator α) (a b : α) : Prop := c.compare a b ≤ 0

instance (c : Comparator α) : DecidableRel c.le := fun a b => inferInstanceAs (Decidable (c.compare a b ≤ 0))

instance (c : Comparator α) : Std.Total c.le := ⟨c.total⟩

instance (c : Comparator α) : IsTrans α c.le := ⟨c.trans⟩

/-- `Array.prototype.sort`, which is stable. -/
def sort (c : Comparator α) (l : List α) : List α := l.insertionSort c.le

theorem sort_perm (c : Comparator α) (l : List α) : (c.sort l).Perm l := List.perm_insertionSort c.le l

theorem mem_sort {c : Comparator α} {l : List α} {a : α} : a ∈ c.sort l ↔ a ∈ l := (c.sort_perm l).mem_iff

theorem sort_pairwise (c : Comparator α) (l : List α) : (c.sort l).Pairwise c.le :=
  List.pairwise_insertionSort c.le l

theorem sort_eq_self {c : Comparator α} {l : List α} (h : l.Pairwise c.le) : c.sort l = l := h.insertionSort_eq

/-- Where no two entries tie, the order they come in does not matter. -/
theorem sort_eq_of_perm {c : Comparator α} {l m : List α} (h : l.Perm m)
    (hties : ∀ a ∈ l, ∀ b ∈ l, c.compare a b = 0 → a = b) : c.sort l = c.sort m := by
  have hperm : (c.sort l).Perm (c.sort m) := (c.sort_perm l).trans (h.trans (c.sort_perm m).symm)
  refine hperm.eq_of_pairwise (fun a b ha hb hab hba => ?_) (c.sort_pairwise l) (c.sort_pairwise m)
  have hzero : c.compare a b = 0 := le_antisymm hab (not_lt.mp fun hlt => absurd ((c.neg_iff a b).mp hlt) (not_lt.mpr hba))
  exact hties a (mem_sort.mp ha) b (h.mem_iff.mpr (mem_sort.mp hb)) hzero

/-- Sorting goes through a map that the comparisons do not see. -/
theorem sort_map {c : Comparator α} {d : Comparator β} {f : α → β} (h : ∀ a b, d.compare (f a) (f b) = c.compare a b)
    (l : List α) : d.sort (l.map f) = (c.sort l).map f := by
  refine (List.map_insertionSort c.le d.le f l fun a _ b _ => ?_).symm
  unfold le
  rw [h]

theorem orderedInsert_append_left {c : Comparator α} {a : α} {m : List α} (hm : ∀ b ∈ m, c.le a b) (l : List α) :
    (l ++ m).orderedInsert c.le a = l.orderedInsert c.le a ++ m := by
  induction l with
  | nil =>
    cases m with
    | nil => rfl
    | cons b m => exact List.orderedInsert_cons_of_le c.le m (hm b List.mem_cons_self)
  | cons b l ih =>
    simp only [List.cons_append, List.orderedInsert_cons]
    split
    · rfl
    · rw [ih, List.cons_append]

theorem orderedInsert_append_right {c : Comparator α} {a : α} {l : List α} (hl : ∀ b ∈ l, ¬ c.le a b) (m : List α) :
    (l ++ m).orderedInsert c.le a = l ++ m.orderedInsert c.le a := by
  induction l with
  | nil => rfl
  | cons b l ih =>
    rw [List.cons_append, List.orderedInsert_cons, if_neg (hl b List.mem_cons_self),
      ih fun d hd => hl d (List.mem_cons_of_mem b hd), List.cons_append]

/-- Where everything in one list goes strictly before everything in another, the
two are sorted apart. -/
theorem sort_append {c : Comparator α} {l m : List α} (h : ∀ a ∈ l, ∀ b ∈ m, c.compare a b < 0) :
    c.sort (l ++ m) = c.sort l ++ c.sort m := by
  induction l with
  | nil => rfl
  | cons a l ih =>
    have hinsert : c.sort (a :: (l ++ m)) = (c.sort (l ++ m)).orderedInsert c.le a := rfl
    rw [List.cons_append, hinsert, ih fun b hb => h b (List.mem_cons_of_mem a hb)]
    exact orderedInsert_append_left (fun b hb => (h a List.mem_cons_self b (mem_sort.mp hb)).le) _

/-- Where everything that satisfies `p` goes strictly before everything that
does not, the two parts are sorted apart. -/
theorem sort_eq_append {c : Comparator α} {p : α → Bool} {l : List α}
    (h : ∀ a ∈ l, ∀ b ∈ l, p a = true → p b = false → c.compare a b < 0) :
    c.sort l = c.sort (l.filter p) ++ c.sort (l.filter fun a => !p a) := by
  induction l with
  | nil => rfl
  | cons a l ih =>
    have htail := ih fun b hb d hd => h b (List.mem_cons_of_mem a hb) d (List.mem_cons_of_mem a hd)
    have hinsert : c.sort (a :: l) = (c.sort l).orderedInsert c.le a := rfl
    rw [hinsert, htail]
    cases hp : p a with
    | true =>
      rw [List.filter_cons_of_pos hp, List.filter_cons_of_neg (by simp [hp])]
      refine orderedInsert_append_left (fun b hb => ?_) _
      obtain ⟨hmem, hnot⟩ := List.mem_filter.mp (mem_sort.mp hb)
      exact (h a List.mem_cons_self b (List.mem_cons_of_mem a hmem) hp (by simpa using hnot)).le
    | false =>
      rw [List.filter_cons_of_neg (by simp [hp]), List.filter_cons_of_pos (by simp [hp])]
      refine orderedInsert_append_right (fun b hb => ?_) _
      obtain ⟨hmem, hpb⟩ := List.mem_filter.mp (mem_sort.mp hb)
      have hlt := h b (List.mem_cons_of_mem a hmem) a List.mem_cons_self hpb hp
      exact not_le.mpr ((c.neg_iff b a).mp hlt)

end Comparator
