import Mathlib.Tactic

namespace escaping

section Scan

variable {α : Type*} [DecidableEq α] (esc delim : α)

/-- Whether what follows an element is escaped: an escape that is not escaped
itself escapes it. -/
def next (escaped : Bool) (c : α) : Bool := !escaped && decide (c = esc)

/-- Whether what follows a text is escaped. -/
def after (escaped : Bool) (text : List α) : Bool := text.foldl (next esc) escaped

/-- The pieces of a text between the delimiters that are not escaped. -/
def split (escaped : Bool) : List α → List (List α)
  | [] => [[]]
  | c :: rest =>
    if escaped = false ∧ c = delim then [] :: split (next esc escaped c) rest
    else (split (next esc escaped c) rest).modifyHead (c :: ·)

/-- How many delimiters are not escaped. -/
def bare (escaped : Bool) : List α → ℕ
  | [] => 0
  | c :: rest => (if escaped = false ∧ c = delim then 1 else 0) + bare (next esc escaped c) rest

/-- How many delimiters are. -/
def covered (escaped : Bool) : List α → ℕ
  | [] => 0
  | c :: rest => (if escaped = true ∧ c = delim then 1 else 0) + covered (next esc escaped c) rest

/-- Puts an escape before every delimiter, escaped or not, and leaves the escapes
of the text as they are. -/
def escape (text : List α) : List α := text.flatMap fun c => if c = delim then [esc, delim] else [c]

variable {esc delim} {escaped : Bool} {text : List α}

theorem escape_cons_delim (text : List α) : escape esc delim (delim :: text) = esc :: delim :: escape esc delim text := by
  simp [escape]

theorem escape_cons_of_ne {c : α} (h : c ≠ delim) (text : List α) : escape esc delim (c :: text) = c :: escape esc delim text := by
  simp [escape, h]

/-- Escaping adds escapes only. -/
theorem mem_escape {c : α} (hesc : c ≠ esc) : c ∈ escape esc delim text ↔ c ∈ text := by
  rw [escape, List.mem_flatMap]
  constructor
  · rintro ⟨d, hd, hc⟩
    split at hc
    · next heq =>
      rcases List.mem_pair.mp hc with rfl | rfl
      · exact absurd rfl hesc
      · exact heq ▸ hd
    · exact List.mem_singleton.mp hc ▸ hd
  · intro hc
    refine ⟨c, hc, ?_⟩
    split
    · next heq => exact heq ▸ List.mem_cons_of_mem _ List.mem_cons_self
    · exact List.mem_singleton_self c

theorem length_split : (split esc delim escaped text).length = bare esc delim escaped text + 1 := by
  induction text generalizing escaped with
  | nil => rfl
  | cons c text ih =>
    rw [split, bare]
    split
    · rw [List.length_cons, ih]
      omega
    · rw [List.length_modifyHead, ih]
      omega

theorem after_append (first second : List α) :
    after esc escaped (first ++ second) = after esc (after esc escaped first) second := List.foldl_append

theorem bare_append (first second : List α) : bare esc delim escaped (first ++ second) =
    bare esc delim escaped first + bare esc delim (after esc escaped first) second := by
  induction first generalizing escaped with
  | nil => exact (Nat.zero_add _).symm
  | cons c first ih =>
    rw [List.cons_append, bare, bare, ih, Nat.add_assoc]
    rfl

theorem covered_append (first second : List α) : covered esc delim escaped (first ++ second) =
    covered esc delim escaped first + covered esc delim (after esc escaped first) second := by
  induction first generalizing escaped with
  | nil => exact (Nat.zero_add _).symm
  | cons c first ih =>
    rw [List.cons_append, covered, covered, ih, Nat.add_assoc]
    rfl

theorem bare_of_notMem (h : delim ∉ text) : bare esc delim escaped text = 0 := by
  induction text generalizing escaped with
  | nil => rfl
  | cons c text ih =>
    rw [List.mem_cons, not_or] at h
    rw [bare, ih h.2, if_neg fun hc => h.1 hc.2.symm]

theorem covered_of_notMem (h : delim ∉ text) : covered esc delim escaped text = 0 := by
  induction text generalizing escaped with
  | nil => rfl
  | cons c text ih =>
    rw [List.mem_cons, not_or] at h
    rw [covered, ih h.2, if_neg fun hc => h.1 hc.2.symm]

section Plain

variable {c : α} (hesc : c ≠ esc)
include hesc

/-- Nothing is escaped after an element that is no escape. -/
theorem next_of_ne : next esc escaped c = false := by
  simp [next, hesc]

theorem bare_cons_of_ne (hdelim : c ≠ delim) (text : List α) : bare esc delim escaped (c :: text) = bare esc delim false text := by
  rw [bare, next_of_ne hesc, if_neg fun h => hdelim h.2, Nat.zero_add]

end Plain

/-- Nothing is escaped after a text without an escape. -/
theorem after_of_notMem (h : esc ∉ text) (hne : text ≠ []) : after esc escaped text = false := by
  obtain ⟨initial, c, rfl⟩ := (List.eq_nil_or_concat' text).resolve_left hne
  have hc : c ≠ esc := fun heq => h (heq ▸ List.mem_append_right _ List.mem_cons_self)
  rw [after_append]
  exact next_of_ne hc

/-- A text in between without an escape or a delimiter keeps two texts apart. -/
theorem covered_append_append {middle : List α} (hesc : esc ∉ middle) (hdelim : delim ∉ middle) (hne : middle ≠ [])
    (first second : List α) : covered esc delim escaped (first ++ middle ++ second) =
      covered esc delim escaped first + covered esc delim false second := by
  rw [covered_append, covered_append, covered_of_notMem hdelim, after_append, after_of_notMem hesc hne, Nat.add_zero]

section Escaped

variable (hne : esc ≠ delim)
include hne

/-- Escaping covers the delimiters that were bare, and lays bare those that were
covered: the escape put before them is itself escaped. -/
theorem bare_escape : bare esc delim escaped (escape esc delim text) = covered esc delim escaped text := by
  induction text generalizing escaped with
  | nil => rfl
  | cons c text ih =>
    by_cases h : c = delim
    · subst h
      rw [escape_cons_delim, bare, bare, covered, ih]
      cases escaped <;> simp [next, hne, Ne.symm hne]
    · rw [escape_cons_of_ne h, bare, covered, ih, if_neg fun hc => h hc.2, if_neg fun hc => h hc.2]

theorem covered_escape : covered esc delim escaped (escape esc delim text) = bare esc delim escaped text := by
  induction text generalizing escaped with
  | nil => rfl
  | cons c text ih =>
    by_cases h : c = delim
    · subst h
      rw [escape_cons_delim, covered, covered, bare, ih]
      cases escaped <;> simp [next, hne, Ne.symm hne]
    · rw [escape_cons_of_ne h, covered, bare, ih, if_neg fun hc => h hc.2, if_neg fun hc => h hc.2]

end Escaped

end Scan

section Joined

variable {α : Type*} [DecidableEq α] {esc delim pad : α}

/-- A row of fields between delimiters, with a pad on either side of each. -/
def joined (delim pad : α) (fields : List (List α)) : List α :=
  [delim, pad] ++ List.intercalate [pad, delim, pad] fields ++ [pad, delim]

/-- A row has the delimiters between its fields, and those in them. -/
theorem bare_joined (hne : esc ≠ delim) (hpad : pad ≠ esc) (hpadDelim : pad ≠ delim) {fields : List (List α)} (hfields : fields ≠ []) :
    bare esc delim false (joined delim pad fields) = fields.length + 1 + (fields.map (bare esc delim false)).sum := by
  have hstep : ∀ (escaped : Bool) (rest : List α),
      bare esc delim escaped (pad :: delim :: rest) = 1 + bare esc delim false rest := by
    intro escaped rest
    rw [bare_cons_of_ne hpad hpadDelim, bare, if_pos ⟨rfl, rfl⟩, next_of_ne (Ne.symm hne)]
  have htail : ∀ fields : List (List α), fields ≠ [] →
      bare esc delim false (List.intercalate [pad, delim, pad] fields ++ [pad, delim]) =
        fields.length + (fields.map (bare esc delim false)).sum := by
    intro fields hfields
    induction fields with
    | nil => exact absurd rfl hfields
    | cons field rest ih =>
      cases rest with
      | nil =>
        rw [List.intercalate_singleton, bare_append, hstep]
        simp [bare]
        omega
      | cons second rest =>
        have hrest := ih (List.cons_ne_nil _ _)
        rw [List.intercalate_cons_cons, List.append_assoc, List.append_assoc, bare_append, List.cons_append, List.cons_append,
          hstep, List.singleton_append, bare_cons_of_ne hpad hpadDelim, hrest]
        simp only [List.length_cons, List.map_cons, List.sum_cons]
        omega
  rw [joined, List.append_assoc, List.cons_append, List.cons_append, List.nil_append, bare, if_pos ⟨rfl, rfl⟩,
    next_of_ne (Ne.symm hne), bare_cons_of_ne hpad hpadDelim, htail fields hfields]
  omega

end Joined

end escaping
