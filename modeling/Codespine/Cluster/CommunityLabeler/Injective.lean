import Codespine.Cluster.CommunityLabeler.Names

namespace codespine.cluster.CommunityLabeler

theorem toList_withOrdinal (i : ℕ) (name : String) :
    (withOrdinal i name).toList = name.toList ++ ' ' :: '#' :: Nat.toDigits 10 i := by
  simp [withOrdinal, String.toList_append, toString]

/-- What stands after the last `#` is the number. -/
theorem number_withOrdinal (i : ℕ) (name : String) :
    (withOrdinal i name).toList.reverse.takeWhile (fun c => c ≠ '#') = (Nat.toDigits 10 i).reverse := by
  have hdigits : ∀ c ∈ (Nat.toDigits 10 i).reverse, decide (c ≠ '#') = true := by
    intro c hc
    have hdigit : c.isDigit = true := Nat.isDigit_of_mem_toDigits (by decide) (by decide) (List.mem_reverse.mp hc)
    refine decide_eq_true fun heq => ?_
    rw [heq] at hdigit
    exact absurd hdigit (by decide)
  have hreverse : (withOrdinal i name).toList.reverse =
      (Nat.toDigits 10 i).reverse ++ '#' :: ' ' :: name.toList.reverse := by
    simp [toList_withOrdinal]
  rw [hreverse, List.takeWhile_append_of_pos hdigits, List.takeWhile_cons_of_neg (by simp), List.append_nil]

theorem withOrdinal_index_inj {i j : ℕ} {name name' : String} (h : withOrdinal i name = withOrdinal j name') :
    i = j := by
  have hdigits : Nat.toDigits 10 i = Nat.toDigits 10 j := by
    rw [← List.reverse_inj, ← number_withOrdinal i name, ← number_withOrdinal j name', h]
  refine Nat.repr_injective (String.toList_injective ?_)
  rwa [Nat.toList_repr, Nat.toList_repr]

theorem withOrdinal_ne (i : ℕ) (name : String) : withOrdinal i name ≠ name := by
  intro h
  have hlength := congrArg (fun text => text.toList.length) h
  simp only [toList_withOrdinal, List.length_append, List.length_cons] at hlength
  omega

/-- Labels are unique exactly when no community has to itself the name that
another gets by its number. -/
theorem label_injective_iff (input : CommunityLabelInput) :
    (∀ i j text, (label input).get i = some text → (label input).get j = some text → i = j) ↔
      ∀ i j name, i ≠ j → MemberName input i name → MemberName input j name →
        ∀ k, MemberName input k (withOrdinal i name) → ∃ l, k ≠ l ∧ MemberName input l (withOrdinal i name) := by
  constructor
  · intro h i j name hne hi hj k hk
    by_contra hnone
    have halone : ∀ l, MemberName input l (withOrdinal i name) → l = k := by
      intro l hl
      by_contra hlk
      exact hnone ⟨l, Ne.symm hlk, hl⟩
    have hlabel := get_label_iff.mpr ⟨name, hi, Or.inl ⟨⟨j, hne, hj⟩, rfl⟩⟩
    have hlabel' := get_label_iff.mpr ⟨_, hk, Or.inr ⟨halone, rfl⟩⟩
    obtain rfl := h i k _ hlabel hlabel'
    exact withOrdinal_ne i name (hk.unique hi)
  · intro h i j text hi hj
    obtain ⟨name, hname, hcase⟩ := get_label_iff.mp hi
    obtain ⟨name', hname', hcase'⟩ := get_label_iff.mp hj
    obtain ⟨⟨k, hne, hk⟩, rfl⟩ | ⟨halone, rfl⟩ := hcase <;>
      obtain ⟨⟨k', hne', hk'⟩, htext⟩ | ⟨halone', htext⟩ := hcase'
    · exact (withOrdinal_index_inj htext).symm
    · subst htext
      obtain ⟨l, hl, hmember⟩ := h i k name hne hname hk j hname'
      exact absurd (halone' l hmember).symm hl
    · subst htext
      obtain ⟨l, hl, hmember⟩ := h j k' name' hne' hname' hk' i hname
      exact absurd (halone l hmember).symm hl
    · subst htext
      exact (halone j hname').symm

/-- Three functions that call themselves, each a community: two are named `foo`,
and the file of the third is named `foo #0`. -/
def numberedFile : CommunityLabelInput where
  communityOf := OrderedMap.ofList [("a", 0), ("b", 1), ("c", 2)]
  nodes := [
    { id := "a", name := "foo", kind := "Function", filePath := "a/foo.ts" },
    { id := "b", name := "foo", kind := "Function", filePath := "b/foo.ts" },
    { id := "c", name := "bar", kind := "Function", filePath := "c/foo #0.ts" }]
  edges := [⟨"a", "a", 3⟩, ⟨"b", "b", 3⟩, ⟨"c", "c", 3⟩]

/-- The first community gets by its number the name that the third has by its
file. -/
theorem label_not_injective_numberedFile :
    ¬ ∀ i j text, (label numberedFile).get i = some text → (label numberedFile).get j = some text → i = j := by
  intro h
  have hfirst : (label numberedFile).get 0 = some "foo #0" := by decide +kernel
  have hthird : (label numberedFile).get 2 = some "foo #0" := by decide +kernel
  exact absurd (h 0 2 "foo #0" hfirst hthird) (by decide)

end codespine.cluster.CommunityLabeler
