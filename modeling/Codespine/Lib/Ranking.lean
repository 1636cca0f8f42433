import Codespine.Lib.Comparator

namespace ranking

open Comparator

variable {α : Type*} {c : Comparator α}

/-- How many entries of a list rank strictly before one. -/
def before (c : Comparator α) (l : List α) (a : α) : ℕ := l.countP fun b => c.compare b a < 0

theorem before_perm {l m : List α} (h : l.Perm m) (a : α) : before c l a = before c m a := h.countP_eq _

theorem lt_of_lt_of_le {a b d : α} (hab : c.compare a b < 0) (hbd : c.compare b d ≤ 0) : c.compare a d < 0 := by
  by_contra hnot
  have hda : c.compare d a ≤ 0 := not_lt.mp fun hlt => hnot ((c.neg_iff a d).mpr hlt)
  exact absurd ((c.neg_iff a b).mp hab) (not_lt.mpr (c.trans b d a hbd hda))

/-- What ranks no later has no more before it. -/
theorem before_le {l : List α} {a b : α} (h : c.compare a b ≤ 0) : before c l a ≤ before c l b := by
  refine List.countP_mono_left fun d _ hd => ?_
  exact decide_eq_true (lt_of_lt_of_le (of_decide_eq_true hd) h)

theorem before_eq_of_tie {l : List α} {a b : α} (h : c.compare a b = 0) : before c l a = before c l b :=
  le_antisymm (before_le h.le) (before_le ((c.zero_iff a b).mp h).le)

section Stable

/-- A stable sort puts the first entry of a list behind those that rank before
it, and ahead of the others. -/
theorem sort_cons (c : Comparator α) (a : α) (l : List α) :
    c.sort (a :: l) = (c.sort l).takeWhile (fun b => ¬ c.le a b) ++ a :: (c.sort l).dropWhile fun b => ¬ c.le a b :=
  List.orderedInsert_eq_take_drop c.le a (c.sort l)

theorem not_le_iff {a b : α} : ¬ c.le a b ↔ c.compare b a < 0 := by
  rw [c.neg_iff b a]
  exact not_le

theorem takeWhile_sorted {a : α} {l : List α} (h : l.Pairwise c.le) :
    (l.takeWhile fun b => ¬ c.le a b) = l.filter fun b => c.compare b a < 0 := by
  induction l with
  | nil => rfl
  | cons b rest ih =>
    obtain ⟨hfirst, hrest⟩ := List.pairwise_cons.mp h
    by_cases hlt : c.compare b a < 0
    · have hnot : ¬ c.le a b := not_le_iff.mpr hlt
      simpa [hnot, hlt] using ih hrest
    · have hnone : rest.filter (fun d => c.compare d a < 0) = [] := by
        refine List.filter_eq_nil_iff.mpr fun d hd hda => hlt ?_
        have hba := (c.neg_iff d a).mp (of_decide_eq_true hda)
        by_contra hnot
        have hab : c.compare a b ≤ 0 := not_lt.mp fun hpos => hnot ((c.neg_iff b a).mpr hpos)
        exact absurd (c.trans a b d hab (hfirst d hd)) (not_le.mpr hba)
      have hle : c.le a b := not_not.mp fun h => hlt (not_le_iff.mp h)
      rw [List.filter_cons_of_neg (by simpa using hlt), hnone]
      simp [hle]

/-- The place of the first entry of a list in the sorted one. -/
theorem getElem?_sort_cons (a : α) (l : List α) : (c.sort (a :: l))[before c l a]? = some a := by
  have hlength : ((c.sort l).takeWhile fun b => ¬ c.le a b).length = before c l a := by
    rw [takeWhile_sorted (c.sort_pairwise l), ← List.countP_eq_length_filter]
    exact before_perm (c.sort_perm l) a
  rw [sort_cons, ← hlength, List.getElem?_append_right le_rfl, Nat.sub_self, List.getElem?_cons_zero]

/-- Of tied entries within the limit the one listed first is shown first. -/
theorem eq_of_take_sort_cons {β : Type*} (f : α → β) {a b : α} {l m : List α} {limit : ℕ}
    (hbefore : before c l a = before c m b) (hlimit : before c l a < limit)
    (h : ((c.sort (a :: l)).take limit).map f = ((c.sort (b :: m)).take limit).map f) : f a = f b := by
  have hget := congrArg (·[before c l a]?) h
  simp only [List.getElem?_map, List.getElem?_take_of_lt hlimit] at hget
  rw [getElem?_sort_cons, hbefore, getElem?_sort_cons] at hget
  exact Option.some.inj hget

/-- An entry has no more before it for standing in the list itself. -/
theorem before_cons_self (a : α) (l : List α) : before c (a :: l) a = before c l a := by
  refine List.countP_cons_of_neg fun h => ?_
  have hlt := of_decide_eq_true h
  exact absurd ((c.neg_iff a a).mp hlt) (not_lt.mpr hlt.le)

/-- Where no two entries tie within the limit, the order they come in does not
matter to a list that is sorted and cut off. -/
theorem take_sort_perm {l m : List α} {limit : ℕ} (h : l.Perm m)
    (hties : ∀ a ∈ l, ∀ b ∈ l, c.compare a b = 0 → a ≠ b → limit ≤ before c l a) :
    (c.sort l).take limit = (c.sort m).take limit := by
  -- what has fewer entries than the limit before it, and what has not
  let p : α → Bool := fun a => before c l a < limit
  have hp : ∀ {a}, p a = true ↔ before c l a < limit := by
    intro a
    exact decide_eq_true_iff
  have happart : ∀ a b, p a = true → p b = false → c.compare a b < 0 := by
    intro a b ha hb
    by_contra hnot
    have hba : c.compare b a ≤ 0 := not_lt.mp fun hpos => hnot ((c.neg_iff a b).mpr hpos)
    exact absurd (hp.mpr ((before_le hba).trans_lt (hp.mp ha))) (by simp [hb])
  have hsplit : ∀ k : List α, c.sort k = c.sort (k.filter p) ++ c.sort (k.filter fun a => !p a) :=
    fun k => sort_eq_append fun a _ b _ => happart a b
  have hfirst : c.sort (l.filter p) = c.sort (m.filter p) := by
    refine sort_eq_of_perm (h.filter p) fun a ha b hb htie => ?_
    obtain ⟨hmem, hpa⟩ := List.mem_filter.mp ha
    by_contra hne
    exact absurd (hties a hmem b (List.mem_of_mem_filter hb) htie hne) (not_le.mpr (hp.mp hpa))
  rw [hsplit l, hsplit m, hfirst]
  cases hlate : c.sort (l.filter fun a => !p a) with
  | nil =>
    have hnil : c.sort (m.filter fun a => !p a) = [] := by
      have hperm := (c.sort_perm _).trans ((h.filter fun a => !p a).symm.trans (c.sort_perm _).symm)
      exact List.perm_nil.mp (hlate ▸ hperm)
    rw [hnil]
  | cons a rest =>
    have ha : a ∈ l ∧ (!p a) = true := List.mem_filter.mp (mem_sort.mp (hlate ▸ List.mem_cons_self))
    have hleast : ∀ b ∈ l, c.compare b a < 0 → p b = true := by
      intro b hb hba
      by_contra hnot
      have hmem : b ∈ a :: rest := hlate ▸ mem_sort.mpr (List.mem_filter.mpr ⟨hb, by simpa using hnot⟩)
      have hsorted : (a :: rest).Pairwise c.le := hlate ▸ c.sort_pairwise _
      rcases List.mem_cons.mp hmem with rfl | hmem
      · exact absurd ((c.neg_iff b b).mp hba) (not_lt.mpr hba.le)
      · exact not_le_iff.mpr hba ((List.pairwise_cons.mp hsorted).1 b hmem)
    have hlong : limit ≤ (c.sort (m.filter p)).length := by
      rw [(c.sort_perm _).length_eq, ← (h.filter p).length_eq, ← List.countP_eq_length_filter]
      have hlimit : limit ≤ before c l a := not_lt.mp fun hlt => by simpa [hp.mpr hlt] using ha.2
      exact hlimit.trans (List.countP_mono_left fun b hb hba => hleast b hb (of_decide_eq_true hba))
    rw [List.take_append_of_le_length hlong, List.take_append_of_le_length hlong]

theorem le_refl (a : α) : c.le a a := by
  by_contra hnot
  have hpos : 0 < c.compare a a := not_le.mp hnot
  exact absurd ((c.neg_iff a a).mpr hpos) (not_lt.mpr hpos.le)

/-- What is among the first entries of a ranking has fewer before it. -/
theorem before_lt_of_mem_take {a : α} {l : List α} {limit : ℕ} (h : a ∈ (c.sort l).take limit) : before c l a < limit := by
  obtain ⟨pre, post, hsplit⟩ := List.append_of_mem h
  have hsort : c.sort l = pre ++ a :: (post ++ (c.sort l).drop limit) := by
    rw [← List.cons_append, ← List.append_assoc, ← hsplit, List.take_append_drop]
  have hsorted := c.sort_pairwise l
  rw [hsort, List.pairwise_append, List.pairwise_cons] at hsorted
  have hlate : (a :: (post ++ (c.sort l).drop limit)).countP (fun b => c.compare b a < 0) = 0 := by
    refine List.countP_eq_zero.mpr fun b hb hlt => ?_
    have hnot := not_le_iff.mpr (of_decide_eq_true hlt)
    rcases List.mem_cons.mp hb with rfl | hb
    · exact hnot (le_refl b)
    · exact hnot (hsorted.2.1.1 b hb)
  have hbefore : before c l a = pre.countP fun b => c.compare b a < 0 := by
    rw [← before_perm (c.sort_perm l) a, before, hsort, List.countP_append, hlate, Nat.add_zero]
  have hlength : pre.length + 1 ≤ limit := by
    have htake := List.length_take_le limit (c.sort l)
    rw [hsplit, List.length_append, List.length_cons] at htake
    omega
  rw [hbefore]
  exact Nat.lt_of_le_of_lt List.countP_le_length (Nat.lt_of_succ_le hlength)

/-- The first entry of a cut ranking that satisfies `p` ranks no later than any
entry of the ranking that does. -/
theorem le_of_find?_take {p : α → Bool} {a b : α} {l : List α} {limit : ℕ} (hsorted : l.Pairwise c.le)
    (hfind : (l.take limit).find? p = some a) (hb : b ∈ l) (hp : p b = true) : c.le a b := by
  obtain ⟨_, pre, post, hsplit, hpre⟩ := List.find?_eq_some_iff_append.mp hfind
  have hl : l = pre ++ a :: (post ++ l.drop limit) := by
    rw [← List.cons_append, ← List.append_assoc, ← hsplit, List.take_append_drop]
  rw [hl, List.pairwise_append, List.pairwise_cons] at hsorted
  rw [hl, List.mem_append, List.mem_cons] at hb
  rcases hb with hb | rfl | hb
  · exact absurd hp (by simpa using hpre b hb)
  · exact le_refl b
  · exact hsorted.2.1.1 b hb

end Stable

section Cut

/-- Every one of the first `k` entries that satisfy `p` satisfies `q` where each
that does not is preceded by `k` that do. -/
theorem forall_take_filter_iff {p q : α → Bool} (l : List α) (k : ℕ) :
    (∀ a ∈ (l.filter p).take k, q a = true) ↔
      ∀ pre a post, l = pre ++ a :: post → p a = true → q a = false → k ≤ (pre.filter fun b => p b && q b).length := by
  induction l generalizing k with
  | nil => simp
  | cons b rest ih =>
    have hcons : (∀ pre a post, b :: rest = pre ++ a :: post → p a = true → q a = false →
          k ≤ (pre.filter fun b => p b && q b).length) ↔
        (p b = true → q b = false → k = 0) ∧ ∀ pre a post, rest = pre ++ a :: post → p a = true → q a = false →
          k ≤ ((b :: pre).filter fun b => p b && q b).length := by
      constructor
      · intro h
        refine ⟨fun hpb hqb => Nat.le_zero.mp (h [] b rest rfl hpb hqb), fun pre a post hsplit => ?_⟩
        exact h (b :: pre) a post (by rw [hsplit, List.cons_append])
      · rintro ⟨hhead, htail⟩ pre a post hsplit hpa hqa
        rcases List.cons_eq_append_iff.mp hsplit with ⟨rfl, hab⟩ | ⟨pre, rfl, hrest⟩
        · obtain ⟨rfl, -⟩ := List.cons.inj hab
          exact (hhead hpa hqa).le
        · exact htail pre a post hrest hpa hqa
    rw [hcons]
    cases hpb : p b with
    | false =>
      rw [List.filter_cons_of_neg (by simp [hpb]), ih k]
      simp [hpb]
    | true =>
      rw [List.filter_cons_of_pos hpb]
      cases k with
      | zero => simp
      | succ k =>
        rw [List.take_succ_cons, List.forall_mem_cons, ih k]
        cases hqb : q b with
        | false => simp
        | true => simp [hpb, hqb]

/-- The first entries of a list that is sorted downwards weigh the most. -/
theorem sum_le_sum_take {l s : List ℚ} {k : ℕ} (hsorted : l.Pairwise (· ≥ ·)) (hnonneg : ∀ x ∈ l, 0 ≤ x)
    (hs : s.Subperm l) (hk : s.length ≤ k) : s.sum ≤ (l.take k).sum := by
  induction l generalizing s k with
  | nil => simp [List.subperm_nil.mp hs]
  | cons a rest ih =>
    obtain ⟨hfirst, hrest⟩ := List.pairwise_cons.mp hsorted
    obtain ⟨-, hnonneg'⟩ := List.forall_mem_cons.mp hnonneg
    cases s with
    | nil => exact List.sum_nonneg fun x hx => hnonneg x (List.mem_of_mem_take hx)
    | cons b s =>
      obtain ⟨k, rfl⟩ : ∃ j, k = j + 1 := ⟨k - 1, by simp only [List.length_cons] at hk; omega⟩
      -- what is exchanged for the head of the list: the head itself where it is there
      obtain ⟨x, hx, hxa, hsub⟩ : ∃ x ∈ b :: s, x ≤ a ∧ ((b :: s).erase x).Subperm rest := by
        by_cases ha : a ∈ b :: s
        · refine ⟨a, ha, le_rfl, ?_⟩
          simpa using hs.erase a
        · have hsub : (b :: s).Subperm rest := by
            simpa [List.erase_of_not_mem ha] using hs.erase a
          refine ⟨b, List.mem_cons_self, hfirst b (hsub.subset List.mem_cons_self), ?_⟩
          exact (List.erase_sublist).subperm.trans hsub
      have hlength : ((b :: s).erase x).length ≤ k := by
        rw [List.length_erase_of_mem hx]
        omega
      rw [(List.perm_cons_erase hx).sum_eq, List.sum_cons, List.take_succ_cons, List.sum_cons]
      exact add_le_add hxa (ih hrest hnonneg' hsub hlength)

end Cut

end ranking
