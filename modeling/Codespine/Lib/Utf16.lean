import Codespine.Lib.Comparator

namespace utf16

/-- The code units of a character: itself, or a surrogate pair. -/
def encode (c : Char) : List ℕ :=
  if c.toNat < 0x10000 then [c.toNat]
  else [0xD800 + (c.toNat - 0x10000) / 0x400, 0xDC00 + (c.toNat - 0x10000) % 0x400]

def units (text : String) : List ℕ := text.toList.flatMap encode

/-- `text.length`. -/
def length (text : String) : ℕ := (units text).length

/-- The order of `<` on texts: by code unit, not by character. -/
def order : Comparator String := Comparator.ofOrder.on units

/-- A character is no surrogate, and beyond `0xFFFF` it has two of them. -/
theorem encode_append_inj {c d : Char} {l m : List ℕ} (h : encode c ++ l = encode d ++ m) : c = d ∧ l = m := by
  have hvalid : ∀ x : Char, x.toNat < 0xD800 ∨ 0xDFFF < x.toNat ∧ x.toNat < 0x110000 := fun x => x.valid
  have hc := hvalid c
  have hd := hvalid d
  have hsame : c.toNat = d.toNat → c = d := fun heq => Char.toNat_inj.mp heq
  unfold encode at h
  split at h <;> split at h <;>
    simp only [List.cons_append, List.nil_append, List.cons.injEq] at h
  · exact ⟨hsame h.1, h.2⟩
  · omega
  · omega
  · exact ⟨hsame (by omega), h.2.2⟩

theorem units_injective : Function.Injective units := by
  intro s t h
  refine String.toList_injective ?_
  unfold units at h
  generalize s.toList = l at h ⊢
  generalize t.toList = m at h ⊢
  have hne : ∀ c, encode c ≠ [] := by
    intro c
    unfold encode
    split <;> simp
  induction l generalizing m with
  | nil =>
    cases m with
    | nil => rfl
    | cons d m =>
      rw [List.flatMap_nil, List.flatMap_cons] at h
      exact absurd (List.append_eq_nil_iff.mp h.symm).1 (hne d)
  | cons c l ih =>
    cases m with
    | nil =>
      rw [List.flatMap_nil, List.flatMap_cons] at h
      exact absurd (List.append_eq_nil_iff.mp h).1 (hne c)
    | cons d m =>
      rw [List.flatMap_cons, List.flatMap_cons] at h
      obtain ⟨rfl, hrest⟩ := encode_append_inj h
      rw [ih m hrest]

theorem order_eq_zero_iff {s t : String} : order.compare s t = 0 ↔ s = t :=
  Comparator.ofOrder_eq_zero_iff.trans units_injective.eq_iff

end utf16
