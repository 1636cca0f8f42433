import Mathlib

/-- A finite map that remembers the order in which its keys were first set:
overwriting a key keeps its place. Keys never repeat. -/
@[ext]
structure OrderedMap (κ ν : Type*) where
  entries : List (κ × ν)
  nodup : (entries.map Prod.fst).Nodup

namespace OrderedMap

variable {κ ν : Type*}

def empty : OrderedMap κ ν := ⟨[], List.nodup_nil⟩

instance : EmptyCollection (OrderedMap κ ν) := ⟨empty⟩

def keys (m : OrderedMap κ ν) : List κ := m.entries.map Prod.fst

def values (m : OrderedMap κ ν) : List ν := m.entries.map Prod.snd

theorem nodup_keys (m : OrderedMap κ ν) : m.keys.Nodup := m.nodup

@[simp] theorem keys_empty : (∅ : OrderedMap κ ν).keys = [] := rfl

@[simp] theorem values_empty : (∅ : OrderedMap κ ν).values = [] := rfl

/-- The map restricted to the entries that `p` keeps. -/
def filter (p : κ → ν → Bool) (m : OrderedMap κ ν) : OrderedMap κ ν where
  entries := m.entries.filter fun entry => p entry.1 entry.2
  nodup := m.nodup.sublist ((List.filter_sublist).map Prod.fst)

theorem filter_eq_self {m : OrderedMap κ ν} {q : κ → Bool} (h : ∀ k ∈ m.keys, q k = true) :
    (m.filter fun key _ => q key) = m :=
  OrderedMap.ext (List.filter_eq_self.mpr fun _ hentry => h _ (List.mem_map_of_mem hentry))

/-- Every value replaced by what `f` makes of it and its key. -/
def map {μ : Type*} (f : κ → ν → μ) (m : OrderedMap κ ν) : OrderedMap κ μ where
  entries := m.entries.map fun entry => (entry.1, f entry.1 entry.2)
  nodup := by
    rw [List.map_map]
    exact m.nodup

/-- Entries that are left out or given another value keep their keys apart. -/
theorem nodup_filterMap {μ : Type*} (g : κ × ν → Option μ) {l : List (κ × ν)} (hnodup : (l.map Prod.fst).Nodup) :
    ((l.filterMap fun entry => (g entry).map fun b => (entry.1, b)).map Prod.fst).Nodup := by
  refine hnodup.sublist ?_
  clear hnodup
  induction l with
  | nil => exact List.Sublist.refl _
  | cons entry rest ih =>
    rw [List.filterMap_cons]
    cases g entry with
    | none => exact ih.cons _
    | some b => exact ih.cons_cons _

variable [DecidableEq κ]

section Entries

/-- The value of the first entry of `k`. -/
def lookup (k : κ) : List (κ × ν) → Option ν
  | [] => none
  | entry :: rest => if entry.1 = k then some entry.2 else lookup k rest

/-- Overwrites the entry of `k`, or appends one. -/
def insertEntry (k : κ) (v : ν) : List (κ × ν) → List (κ × ν)
  | [] => [(k, v)]
  | entry :: rest => if entry.1 = k then (k, v) :: rest else entry :: insertEntry k v rest

theorem keys_insertEntry (k : κ) (v : ν) (l : List (κ × ν)) :
    (insertEntry k v l).map Prod.fst = if k ∈ l.map Prod.fst then l.map Prod.fst else l.map Prod.fst ++ [k] := by
  induction l with
  | nil => simp [insertEntry]
  | cons entry rest ih =>
    by_cases h : entry.1 = k
    · simp [insertEntry, h]
    · simp only [insertEntry, if_neg h, List.map_cons, ih, List.mem_cons, Ne.symm h, false_or]
      split <;> simp

theorem nodup_insertEntry {l : List (κ × ν)} (h : (l.map Prod.fst).Nodup) (k : κ) (v : ν) :
    ((insertEntry k v l).map Prod.fst).Nodup := by
  rw [keys_insertEntry]
  split
  · exact h
  · next hk =>
    refine List.nodup_append.mpr ⟨h, List.nodup_singleton k, fun a ha b hb hab => hk ?_⟩
    rwa [← List.mem_singleton.mp hb, ← hab]

theorem lookup_insertEntry (k j : κ) (v : ν) (l : List (κ × ν)) :
    lookup j (insertEntry k v l) = if j = k then some v else lookup j l := by
  induction l with
  | nil => simp [insertEntry, lookup, eq_comm]
  | cons entry rest ih =>
    by_cases hk : entry.1 = k
    · by_cases hj : j = k
      · simp [insertEntry, lookup, hk, hj]
      · simp [insertEntry, lookup, hk, hj, Ne.symm hj]
    · by_cases hj : entry.1 = j
      · simp [insertEntry, lookup, hj, show j ≠ k from hj ▸ hk]
      · simp [insertEntry, lookup, hk, hj, ih]

theorem lookup_eq_none_iff {k : κ} {l : List (κ × ν)} : lookup k l = none ↔ k ∉ l.map Prod.fst := by
  induction l with
  | nil => simp [lookup]
  | cons entry rest ih =>
    by_cases h : entry.1 = k
    · simp [lookup, h]
    · simp [lookup, h, Ne.symm h, ih]

theorem mem_of_lookup {k : κ} {v : ν} {l : List (κ × ν)} (h : lookup k l = some v) : (k, v) ∈ l := by
  induction l with
  | nil => simp [lookup] at h
  | cons entry rest ih =>
    unfold lookup at h
    split at h
    · next hk =>
      rw [← hk, ← Option.some.inj h]
      exact List.mem_cons_self
    · exact List.mem_cons_of_mem _ (ih h)

theorem lookup_of_mem {k : κ} {v : ν} {l : List (κ × ν)} (hnodup : (l.map Prod.fst).Nodup)
    (h : (k, v) ∈ l) : lookup k l = some v := by
  induction l with
  | nil => simp at h
  | cons entry rest ih =>
    rw [List.map_cons, List.nodup_cons] at hnodup
    rcases List.mem_cons.mp h with rfl | hmem
    · simp [lookup]
    · have hne : entry.1 ≠ k := fun heq => hnodup.1 (heq ▸ List.mem_map_of_mem hmem)
      simp [lookup, hne, ih hnodup.2 hmem]

/-- The first of the entries have the values of their keys. -/
theorem lookup_take {l : List (κ × ν)} (hnodup : (l.map Prod.fst).Nodup) (i : ℕ) (k : κ) :
    lookup k (l.take i) = if k ∈ (l.map Prod.fst).take i then lookup k l else none := by
  rw [← List.map_take]
  split
  · next hmem =>
    obtain ⟨entry, hentry, rfl⟩ := List.mem_map.mp hmem
    have hnodup' : ((l.take i).map Prod.fst).Nodup := hnodup.sublist ((List.take_sublist i l).map Prod.fst)
    rw [lookup_of_mem hnodup' hentry, lookup_of_mem hnodup (List.mem_of_mem_take hentry)]
  · next hmem => exact lookup_eq_none_iff.mpr hmem

theorem lookup_map {μ : Type*} (f : κ → ν → μ) (k : κ) (l : List (κ × ν)) :
    lookup k (l.map fun entry => (entry.1, f entry.1 entry.2)) = (lookup k l).map (f k) := by
  induction l with
  | nil => rfl
  | cons entry rest ih =>
    by_cases h : entry.1 = k
    · simp [lookup, h]
    · simp [lookup, h, ih]

theorem lookup_filterMap {μ : Type*} (g : κ × ν → Option μ) {l : List (κ × ν)} (hnodup : (l.map Prod.fst).Nodup)
    (k : κ) : lookup k (l.filterMap fun entry => (g entry).map fun b => (entry.1, b)) =
      (lookup k l).bind fun a => g (k, a) := by
  induction l with
  | nil => rfl
  | cons entry rest ih =>
    rw [List.map_cons, List.nodup_cons] at hnodup
    by_cases hk : entry.1 = k
    · have hrest : lookup k rest = none := lookup_eq_none_iff.mpr (hk ▸ hnodup.1)
      subst hk
      cases hg : g entry with
      | none => simp [lookup, hg, ih hnodup.2, hrest]
      | some b => simp [lookup, hg]
    · cases hg : g entry with
      | none => simp [lookup, hk, hg, ih hnodup.2]
      | some b => simp [lookup, hk, hg, ih hnodup.2]

theorem insertEntry_eq_self {k : κ} {v : ν} {l : List (κ × ν)} (h : lookup k l = some v) :
    insertEntry k v l = l := by
  induction l with
  | nil => simp [lookup] at h
  | cons entry rest ih =>
    by_cases hk : entry.1 = k
    · simp only [lookup, if_pos hk, Option.some.injEq] at h
      rw [insertEntry, if_pos hk, ← hk, ← h]
    · simp only [lookup, if_neg hk] at h
      simp only [insertEntry, if_neg hk, ih h]

theorem insertEntry_insertEntry (k : κ) (v w : ν) (l : List (κ × ν)) :
    insertEntry k w (insertEntry k v l) = insertEntry k w l := by
  induction l with
  | nil => simp [insertEntry]
  | cons entry rest ih =>
    by_cases hk : entry.1 = k
    · simp [insertEntry, hk]
    · simp [insertEntry, hk, ih]

/-- Replacing or appending an entry moves the total by what the entry grows. -/
theorem sum_insertEntry {M : Type*} [AddCommMonoid M] (size : ν → M) {k : κ} {v : ν} {amount : M}
    (l : List (κ × ν)) (h : size v = ((lookup k l).map size).getD 0 + amount) :
    ((insertEntry k v l).map fun entry => size entry.2).sum = (l.map fun entry => size entry.2).sum + amount := by
  induction l with
  | nil => simpa [insertEntry, lookup] using h
  | cons entry rest ih =>
    by_cases hk : entry.1 = k
    · simp only [lookup, if_pos hk, Option.map_some, Option.getD_some] at h
      simp only [insertEntry, if_pos hk, List.map_cons, List.sum_cons, h]
      abel
    · simp only [lookup, if_neg hk] at h
      simp only [insertEntry, if_neg hk, List.map_cons, List.sum_cons, ih h]
      abel

section Rekey

variable {μ : Type*} [DecidableEq μ] {f : κ → μ}

theorem lookup_rekey (hf : f.Injective) (k : κ) (l : List (κ × ν)) :
    lookup (f k) (l.map (Prod.map f id)) = lookup k l := by
  induction l with
  | nil => rfl
  | cons entry rest ih =>
    rw [List.map_cons, lookup, lookup, ih]
    simp only [Prod.map_fst, hf.eq_iff, Prod.map_snd, id_eq]

theorem insertEntry_rekey (hf : f.Injective) (k : κ) (v : ν) (l : List (κ × ν)) :
    insertEntry (f k) v (l.map (Prod.map f id)) = (insertEntry k v l).map (Prod.map f id) := by
  induction l with
  | nil => rfl
  | cons entry rest ih =>
    rw [List.map_cons, insertEntry, insertEntry, ih]
    simp only [Prod.map_fst, hf.eq_iff]
    split
    · rfl
    · rfl

end Rekey

end Entries

def get (m : OrderedMap κ ν) (k : κ) : Option ν := lookup k m.entries

def getD (m : OrderedMap κ ν) (k : κ) (default : ν) : ν := (m.get k).getD default

def set (m : OrderedMap κ ν) (k : κ) (v : ν) : OrderedMap κ ν :=
  ⟨insertEntry k v m.entries, nodup_insertEntry m.nodup k v⟩

/-- The map built by setting the pairs of a list one after another. -/
def ofList (l : List (κ × ν)) : OrderedMap κ ν := l.foldl (fun m entry => m.set entry.1 entry.2) ∅

@[simp] theorem get_empty (k : κ) : (∅ : OrderedMap κ ν).get k = none := rfl

theorem map_set {μ : Type*} (f : κ → ν → μ) (m : OrderedMap κ ν) (k : κ) (v : ν) :
    (m.set k v).map f = (m.map f).set k (f k v) := by
  refine OrderedMap.ext ?_
  change (insertEntry k v m.entries).map _ = insertEntry k (f k v) (m.entries.map _)
  induction m.entries with
  | nil => rfl
  | cons entry rest ih =>
    unfold insertEntry
    rw [List.map_cons]
    dsimp only
    split
    · rfl
    · rw [List.map_cons, ih]

theorem map_foldl_set {μ : Type*} (f : κ → ν → μ) (l : List (κ × ν)) (m : OrderedMap κ ν) :
    (l.foldl (fun m entry => m.set entry.1 entry.2) m).map f =
      (l.map fun entry => (entry.1, f entry.1 entry.2)).foldl (fun m entry => m.set entry.1 entry.2) (m.map f) := by
  induction l generalizing m with
  | nil => rfl
  | cons entry rest ih => rw [List.foldl_cons, ih, map_set, List.map_cons, List.foldl_cons]

theorem get_map {μ : Type*} (f : κ → ν → μ) (m : OrderedMap κ ν) (k : κ) : (m.map f).get k = (m.get k).map (f k) :=
  lookup_map f k m.entries

theorem keys_set (m : OrderedMap κ ν) (k : κ) (v : ν) :
    (m.set k v).keys = if k ∈ m.keys then m.keys else m.keys ++ [k] :=
  keys_insertEntry k v m.entries

theorem mem_keys_set {m : OrderedMap κ ν} {k j : κ} {v : ν} : j ∈ (m.set k v).keys ↔ j ∈ m.keys ∨ j = k := by
  rw [keys_set]
  split
  · next h =>
    refine ⟨Or.inl, ?_⟩
    rintro (hj | rfl)
    · exact hj
    · exact h
  · simp

theorem get_set (m : OrderedMap κ ν) (k j : κ) (v : ν) :
    (m.set k v).get j = if j = k then some v else m.get j :=
  lookup_insertEntry k j v m.entries

@[simp] theorem get_set_self (m : OrderedMap κ ν) (k : κ) (v : ν) : (m.set k v).get k = some v := by
  simp [get_set]

theorem get_set_ne {m : OrderedMap κ ν} {k j : κ} (h : j ≠ k) (v : ν) : (m.set k v).get j = m.get j := by
  simp [get_set, h]

theorem get_eq_none_iff {m : OrderedMap κ ν} {k : κ} : m.get k = none ↔ k ∉ m.keys := lookup_eq_none_iff

theorem get_eq_some_iff {m : OrderedMap κ ν} {k : κ} {v : ν} : m.get k = some v ↔ (k, v) ∈ m.entries :=
  ⟨mem_of_lookup, lookup_of_mem m.nodup⟩

/-- Keys the filter keeps have the values they had. -/
theorem get_filter {m : OrderedMap κ ν} {q : κ → Bool} {k : κ} (hk : q k = true) :
    (m.filter fun key _ => q key).get k = m.get k := by
  refine Option.ext fun v => ?_
  rw [get_eq_some_iff, get_eq_some_iff]
  unfold filter
  rw [List.mem_filter]
  exact and_iff_left hk

theorem mem_keys_of_get {m : OrderedMap κ ν} {k : κ} {v : ν} (h : m.get k = some v) : k ∈ m.keys := by
  by_contra hk
  rw [get_eq_none_iff.mpr hk] at h
  cases h

/-- Two maps with the same keys in the same order and the same values are one. -/
theorem ext_get {m m' : OrderedMap κ ν} (hkeys : m.keys = m'.keys) (hget : ∀ k ∈ m.keys, m.get k = m'.get k) :
    m = m' := by
  refine OrderedMap.ext (List.ext_getElem ?_ fun n hn hn' => ?_)
  · have hlength := congrArg List.length hkeys
    unfold keys at hlength
    rwa [List.length_map, List.length_map] at hlength
  · have hkey : (m.entries[n]).1 = (m'.entries[n]).1 := by
      have h := List.getElem_of_eq hkeys (i := n) (by unfold keys; rwa [List.length_map])
      unfold keys at h
      rwa [List.getElem_map, List.getElem_map] at h
    have hleft : m.get (m.entries[n]).1 = some (m.entries[n]).2 :=
      get_eq_some_iff.mpr (List.getElem_mem hn)
    have hright : m'.get (m'.entries[n]).1 = some (m'.entries[n]).2 :=
      get_eq_some_iff.mpr (List.getElem_mem hn')
    rw [hget _ (mem_keys_of_get hleft), hkey, hright] at hleft
    exact Prod.ext hkey (Option.some.inj hleft).symm

/-- Setting a key to the value it has changes nothing. -/
theorem set_eq_self {m : OrderedMap κ ν} {k : κ} {v : ν} (h : m.get k = some v) : m.set k v = m :=
  OrderedMap.ext (insertEntry_eq_self h)

@[simp] theorem set_set (m : OrderedMap κ ν) (k : κ) (v w : ν) : (m.set k v).set k w = m.set k w :=
  OrderedMap.ext (insertEntry_insertEntry k v w m.entries)

/-- Of two keys that are set, one that is there already keeps its place. -/
theorem set_comm_of_mem {m : OrderedMap κ ν} {k j : κ} (hk : k ∈ m.keys) (hne : j ≠ k) (v w : ν) :
    (m.set k v).set j w = (m.set j w).set k v := by
  refine ext_get ?_ fun i _ => ?_
  · rw [keys_set, keys_set, keys_set, keys_set, if_pos hk]
    by_cases hj : j ∈ m.keys
    · rw [if_pos hj, if_pos hk]
    · rw [if_neg hj, if_pos (List.mem_append_left _ hk)]
  · simp only [get_set]
    by_cases hi : i = j
    · rw [if_pos hi, if_neg fun h => hne (hi.symm.trans h), if_pos hi]
    · rw [if_neg hi, if_neg hi]

/-- Setting a key so that its size grows by `amount` adds `amount` to the
total size of the map. -/
theorem sum_values_set {M : Type*} [AddCommMonoid M] (size : ν → M) (m : OrderedMap κ ν) {k : κ} {v : ν}
    {amount : M} (h : size v = ((m.get k).map size).getD 0 + amount) :
    ((m.set k v).values.map size).sum = (m.values.map size).sum + amount := by
  have hsum := sum_insertEntry size m.entries h
  simpa only [values, set, List.map_map, Function.comp_def] using hsum

theorem getD_set (m : OrderedMap κ ν) (k j : κ) (v d : ν) :
    (m.set k v).getD j d = if j = k then v else m.getD j d := by
  unfold getD
  rw [get_set]
  split <;> rfl

/-- As `sum_values_set`, for an update that reads a default of size zero. -/
theorem sum_values_set_getD {M : Type*} [AddCommMonoid M] (size : ν → M) (m : OrderedMap κ ν) {k : κ} {v d : ν}
    {amount : M} (hd : size d = 0) (h : size v = size (m.getD k d) + amount) :
    ((m.set k v).values.map size).sum = (m.values.map size).sum + amount := by
  refine sum_values_set size m (h.trans ?_)
  unfold getD
  cases m.get k with
  | none => simp [hd]
  | some v => simp

/-- Reading the map at every key of a list that has all its keys, each once,
sums up its values. -/
theorem sum_getD {M : Type*} [AddCommMonoid M] (size : ν → M) (m : OrderedMap κ ν) {ks : List κ} {d : ν}
    (hd : size d = 0) (hnodup : ks.Nodup) (hkeys : ∀ k ∈ m.keys, k ∈ ks) :
    (ks.map fun k => size (m.getD k d)).sum = (m.values.map size).sum := by
  have hvalues : m.values.map size = m.keys.map fun k => size (m.getD k d) := by
    simp only [values, keys, List.map_map]
    refine List.map_congr_left fun entry hentry => ?_
    rw [Function.comp_apply, Function.comp_apply, getD, get_eq_some_iff.mpr hentry, Option.getD_some]
  rw [hvalues, ← List.sum_toFinset _ hnodup, ← List.sum_toFinset _ m.nodup_keys]
  refine (Finset.sum_subset (fun k hk => ?_) fun k _ hk => ?_).symm
  · exact List.mem_toFinset.mpr (hkeys k (List.mem_toFinset.mp hk))
  · rw [getD, get_eq_none_iff.mpr fun hmem => hk (List.mem_toFinset.mpr hmem)]
    exact hd

/-- Overwriting a key in place. -/
theorem entries_set_of_mem {m : OrderedMap κ ν} {k : κ} (hk : k ∈ m.keys) (v : ν) :
    (m.set k v).entries = m.entries.map fun entry => if entry.1 = k then (k, v) else entry := by
  obtain ⟨entries, hnodup⟩ := m
  change k ∈ entries.map Prod.fst at hk
  change insertEntry k v entries = _
  induction entries with
  | nil => cases hk
  | cons entry rest ih =>
    rw [List.map_cons, List.nodup_cons] at hnodup
    by_cases h : entry.1 = k
    · have hrest : rest.map (fun entry => if entry.1 = k then (k, v) else entry) = rest := by
        refine List.map_congr_left (g := id) (fun other hother => ?_) |>.trans (List.map_id rest)
        have hne : other.1 ≠ k := fun heq => hnodup.1 (h.trans heq.symm ▸ List.mem_map_of_mem hother)
        exact if_neg hne
      rw [insertEntry, if_pos h, List.map_cons, if_pos h, hrest]
    · have hrest : k ∈ rest.map Prod.fst := by simpa [Ne.symm h] using hk
      rw [insertEntry, if_neg h, List.map_cons, if_neg h, ih hnodup.2 hrest]

/-- An entry that the filter drops leaves no trace. -/
theorem filter_set_of_not {m : OrderedMap κ ν} {p : κ → ν → Bool} {k : κ} (hp : ∀ v, p k v = false) (v : ν) :
    (m.set k v).filter p = m.filter p := by
  refine OrderedMap.ext ?_
  change (insertEntry k v m.entries).filter _ = m.entries.filter _
  induction m.entries with
  | nil => simp [insertEntry, hp]
  | cons entry rest ih =>
    by_cases h : entry.1 = k
    · rw [insertEntry, if_pos h, List.filter_cons_of_neg (by simp [hp]),
        List.filter_cons_of_neg (by simp [h, hp])]
    · rw [insertEntry, if_neg h, List.filter_cons, List.filter_cons, ih]

/-- An entry that the filter keeps can be set before or after. -/
theorem filter_set_of {m : OrderedMap κ ν} {p : κ → ν → Bool} {k : κ} (hp : ∀ v, p k v = true) (v : ν) :
    (m.set k v).filter p = (m.filter p).set k v := by
  refine OrderedMap.ext ?_
  change (insertEntry k v m.entries).filter _ = insertEntry k v (m.entries.filter _)
  induction m.entries with
  | nil => simp [insertEntry, hp]
  | cons entry rest ih =>
    by_cases h : entry.1 = k
    · rw [insertEntry, if_pos h, List.filter_cons_of_pos (by simp [hp]),
        List.filter_cons_of_pos (by simp [h, hp]), insertEntry, if_pos h]
    · rw [insertEntry, if_neg h, List.filter_cons, List.filter_cons, ih]
      split
      · rw [insertEntry, if_neg h]
      · rfl

section Add

variable {M : Type*} [AddCommMonoid M]

/-- Adds `amount` to the value of `k`, counting a missing key as zero. -/
def add (m : OrderedMap κ M) (k : κ) (amount : M) : OrderedMap κ M := m.set k (m.getD k 0 + amount)

theorem sum_values_add (m : OrderedMap κ M) (k : κ) (amount : M) :
    (m.add k amount).values.sum = m.values.sum + amount := by
  have h := sum_values_set_getD id m (k := k) (v := m.getD k 0 + amount) (d := 0) rfl rfl
  simpa [add] using h

theorem getD_add (m : OrderedMap κ M) (k j : κ) (amount : M) :
    (m.add k amount).getD j 0 = m.getD j 0 + if j = k then amount else 0 := by
  rw [add, getD_set]
  split
  · next h => rw [h]
  · rw [add_zero]

theorem mem_keys_add {m : OrderedMap κ M} {k j : κ} {amount : M} :
    j ∈ (m.add k amount).keys ↔ j ∈ m.keys ∨ j = k :=
  mem_keys_set

/-- Sums under injective keys stay in step with the sums under what the keys
are made of. -/
theorem entries_add_rekey {μ : Type*} [DecidableEq μ] {f : κ → μ} (hf : f.Injective) {m : OrderedMap κ M} {m' : OrderedMap μ M}
    (h : m'.entries = m.entries.map (Prod.map f id)) (k : κ) (amount : M) :
    (m'.add (f k) amount).entries = (m.add k amount).entries.map (Prod.map f id) := by
  have hget : m'.getD (f k) 0 = m.getD k 0 := by
    rw [getD, getD, get, h, lookup_rekey hf]
    rfl
  change insertEntry (f k) _ m'.entries = (insertEntry k _ m.entries).map (Prod.map f id)
  rw [h, hget, insertEntry_rekey hf]

end Add

section OfList

theorem get_foldl_set (l : List (κ × ν)) (m : OrderedMap κ ν) {k : κ} (hk : k ∉ l.map Prod.fst) :
    (l.foldl (fun m entry => m.set entry.1 entry.2) m).get k = m.get k := by
  induction l generalizing m with
  | nil => rfl
  | cons entry rest ih =>
    rw [List.map_cons, List.mem_cons, not_or] at hk
    rw [List.foldl_cons, ih _ hk.2, get_set_ne hk.1]

theorem insertEntry_of_not_mem {k : κ} (v : ν) {l : List (κ × ν)} (hk : k ∉ l.map Prod.fst) :
    insertEntry k v l = l ++ [(k, v)] := by
  induction l with
  | nil => rfl
  | cons entry rest ih =>
    rw [List.map_cons, List.mem_cons, not_or] at hk
    rw [insertEntry, if_neg (Ne.symm hk.1), ih hk.2, List.cons_append]

/-- New entries are appended. -/
theorem entries_foldl_set_of_new {l : List (κ × ν)} {m : OrderedMap κ ν}
    (hnodup : ((m.entries ++ l).map Prod.fst).Nodup) :
    (l.foldl (fun m entry => m.set entry.1 entry.2) m).entries = m.entries ++ l := by
  induction l generalizing m with
  | nil => exact (List.append_nil _).symm
  | cons entry rest ih =>
    have hnot : entry.1 ∉ m.entries.map Prod.fst := by
      rw [List.map_append, List.nodup_append] at hnodup
      exact fun hmem => hnodup.2.2 _ hmem _ List.mem_cons_self rfl
    have hset : (m.set entry.1 entry.2).entries = m.entries ++ [entry] := insertEntry_of_not_mem _ hnot
    rw [List.foldl_cons, ih, hset, List.append_assoc, List.singleton_append]
    rw [hset, List.append_assoc, List.singleton_append]
    exact hnodup

/-- A map is made of its entries. -/
theorem ofList_entries (m : OrderedMap κ ν) : ofList m.entries = m :=
  OrderedMap.ext (@entries_foldl_set_of_new κ ν _ m.entries ∅ m.nodup)

theorem entries_ofList {l : List (κ × ν)} (hnodup : (l.map Prod.fst).Nodup) : (ofList l).entries = l :=
  congrArg OrderedMap.entries (ofList_entries ⟨l, hnodup⟩)

theorem get_ofList_of_mem {l : List (κ × ν)} (hnodup : (l.map Prod.fst).Nodup) {k : κ} {v : ν}
    (h : (k, v) ∈ l) : (ofList l).get k = some v := by
  have key : ∀ m : OrderedMap κ ν, (l.foldl (fun m entry => m.set entry.1 entry.2) m).get k = some v := by
    induction l with
    | nil => simp at h
    | cons entry rest ih =>
      intro m
      rw [List.map_cons, List.nodup_cons] at hnodup
      rcases List.mem_cons.mp h with rfl | hmem
      · rw [List.foldl_cons, get_foldl_set _ _ hnodup.1, get_set_self]
      · exact ih hnodup.2 hmem _
  exact key ∅

theorem mem_of_get_ofList {l : List (κ × ν)} {k : κ} {v : ν} (h : (ofList l).get k = some v) : (k, v) ∈ l := by
  induction l using List.reverseRecOn with
  | nil => cases h
  | append_singleton l entry ih =>
    rw [ofList, List.foldl_append, List.foldl_cons, List.foldl_nil, get_set] at h
    split at h
    · next hk =>
      rw [hk, ← Option.some.inj h]
      exact List.mem_append_right _ (List.mem_singleton_self _)
    · exact List.mem_append_left _ (ih h)

theorem get_ofList_eq_none {l : List (κ × ν)} {k : κ} (hk : k ∉ l.map Prod.fst) : (ofList l).get k = none := by
  rw [ofList, get_foldl_set _ _ hk, get_empty]

theorem keys_foldl_set {l : List (κ × ν)} {m : OrderedMap κ ν} (h : ∀ k ∈ l.map Prod.fst, k ∈ m.keys) :
    (l.foldl (fun m entry => m.set entry.1 entry.2) m).keys = m.keys := by
  induction l generalizing m with
  | nil => rfl
  | cons entry rest ih =>
    have hset : (m.set entry.1 entry.2).keys = m.keys := by
      rw [keys_set, if_pos (h _ List.mem_cons_self)]
    rw [List.foldl_cons, ih fun k hk => hset.symm ▸ h k (List.mem_cons_of_mem _ hk), hset]

theorem mem_keys_foldl_set {l : List (κ × ν)} {m : OrderedMap κ ν} {k : κ} :
    k ∈ (l.foldl (fun m entry => m.set entry.1 entry.2) m).keys ↔ k ∈ m.keys ∨ k ∈ l.map Prod.fst := by
  induction l generalizing m with
  | nil => simp
  | cons entry rest ih => rw [List.foldl_cons, ih, mem_keys_set, List.map_cons, List.mem_cons, or_assoc]

/-- A key that a batch sets has the value it last got, whatever was there. -/
theorem get_foldl_set_of_mem {l : List (κ × ν)} {k : κ} (hk : k ∈ l.map Prod.fst) (m m' : OrderedMap κ ν) :
    (l.foldl (fun m entry => m.set entry.1 entry.2) m).get k =
      (l.foldl (fun m entry => m.set entry.1 entry.2) m').get k := by
  induction l generalizing m m' with
  | nil => exact absurd hk List.not_mem_nil
  | cons entry rest ih =>
    rw [List.foldl_cons, List.foldl_cons]
    by_cases hrest : k ∈ rest.map Prod.fst
    · exact ih hrest _ _
    · obtain rfl := (List.mem_cons.mp hk).resolve_right hrest
      rw [get_foldl_set _ _ hrest, get_foldl_set _ _ hrest, get_set_self, get_set_self]

/-- A batch makes of a map with its keys, in its order, what it makes of none. -/
theorem foldl_set_eq_ofList {l : List (κ × ν)} {m : OrderedMap κ ν} (hkeys : m.keys = (ofList l).keys) :
    l.foldl (fun m entry => m.set entry.1 entry.2) m = ofList l := by
  have hmem : ∀ k, k ∈ (ofList l).keys ↔ k ∈ l.map Prod.fst := by
    intro k
    rw [ofList, mem_keys_foldl_set]
    exact or_iff_right List.not_mem_nil
  have hfold : (l.foldl (fun m entry => m.set entry.1 entry.2) m).keys = m.keys :=
    keys_foldl_set fun k hk => hkeys ▸ (hmem k).mpr hk
  refine ext_get (hfold.trans hkeys) fun k hk => ?_
  exact get_foldl_set_of_mem ((hmem k).mp (hkeys ▸ hfold ▸ hk)) _ _

end OfList

section Tally

/-- How often each entry of a list occurs. -/
def tally (l : List κ) : OrderedMap κ ℕ := l.foldl (fun counts k => counts.add k 1) ∅

theorem getD_tally (l : List κ) (k : κ) : (tally l).getD k 0 = l.count k := by
  have key : ∀ counts : OrderedMap κ ℕ,
      (l.foldl (fun counts k => counts.add k 1) counts).getD k 0 = counts.getD k 0 + l.count k := by
    induction l with
    | nil => exact fun _ => rfl
    | cons first rest ih =>
      intro counts
      rw [List.foldl_cons, ih, getD_add, List.count_cons]
      by_cases h : first = k
      · simp [h, add_assoc, add_comm 1]
      · simp [h, Ne.symm h]
  exact (key ∅).trans (zero_add _)

theorem mem_keys_tally {l : List κ} {k : κ} : k ∈ (tally l).keys ↔ k ∈ l := by
  have key : ∀ counts : OrderedMap κ ℕ,
      k ∈ (l.foldl (fun counts k => counts.add k 1) counts).keys ↔ k ∈ counts.keys ∨ k ∈ l := by
    induction l with
    | nil => simp
    | cons first rest ih =>
      intro counts
      rw [List.foldl_cons, ih, mem_keys_add, List.mem_cons, or_assoc]
  exact (key ∅).trans (or_iff_right List.not_mem_nil)

theorem get_tally (l : List κ) (k : κ) : (tally l).get k = if k ∈ l then some (l.count k) else none := by
  split
  · next h =>
    have hkey := mem_keys_tally.mpr h
    cases hget : (tally l).get k with
    | none => exact absurd hkey (get_eq_none_iff.mp hget)
    | some n =>
      have hcount := getD_tally l k
      rw [getD, hget] at hcount
      exact congrArg some hcount
  · next h => exact get_eq_none_iff.mpr (mt mem_keys_tally.mp h)

end Tally

/-- Maps that agree have the same entries, up to order. -/
theorem entries_perm {m m' : OrderedMap κ ν} (h : ∀ k, m.get k = m'.get k) : m.entries.Perm m'.entries := by
  refine (List.perm_ext_iff_of_nodup (List.Nodup.of_map _ m.nodup) (List.Nodup.of_map _ m'.nodup)).mpr fun entry => ?_
  obtain ⟨k, v⟩ := entry
  rw [← get_eq_some_iff, ← get_eq_some_iff, h]

/-- How often a value occurs, counted over keys among which are those of the
map. -/
theorem count_values [DecidableEq ν] {ks : List κ} (hnodup : ks.Nodup) {m : OrderedMap κ ν} (hks : ∀ k ∈ m.keys, k ∈ ks)
    (v : ν) : m.values.count v = ks.countP fun k => m.get k = some v := by
  have hperm : ((m.entries.filter fun entry => entry.2 = v).map Prod.fst).Perm (ks.filter fun k => m.get k = some v) := by
    refine (List.perm_ext_iff_of_nodup (m.nodup.sublist (List.filter_sublist.map _)) (hnodup.filter _)).mpr fun k => ?_
    simp only [List.mem_map, List.mem_filter, decide_eq_true_eq]
    constructor
    · rintro ⟨entry, ⟨hentry, rfl⟩, rfl⟩
      have hget : m.get entry.1 = some entry.2 := get_eq_some_iff.mpr hentry
      exact ⟨hks _ (mem_keys_of_get hget), hget⟩
    · rintro ⟨_, hget⟩
      exact ⟨(k, v), ⟨get_eq_some_iff.mp hget, rfl⟩, rfl⟩
  have hlength := hperm.length_eq
  rw [List.length_map, ← List.countP_eq_length_filter, ← List.countP_eq_length_filter] at hlength
  rw [← hlength, values, List.count_eq_countP, List.countP_map]
  exact List.countP_congr fun entry _ => by simp

/-- Where the keys are those of a list, there are as many of them as entries
of the list just when the list has no repetition. -/
theorem length_eq_length_keys_iff {m : OrderedMap κ ν} {l : List κ} (h : ∀ k, k ∈ m.keys ↔ k ∈ l) :
    l.length = m.keys.length ↔ l.Nodup := by
  have hperm : m.keys.Perm l.dedup :=
    (List.perm_ext_iff_of_nodup m.nodup_keys (List.nodup_dedup l)).mpr fun k => (h k).trans List.mem_dedup.symm
  rw [hperm.length_eq, ← List.dedup_eq_self]
  constructor
  · exact fun heq => (List.dedup_sublist l).eq_of_length heq.symm
  · exact fun heq => congrArg List.length heq.symm

/-- The entries of one key are at most one. -/
theorem filter_entries_key (m : OrderedMap κ ν) (k : κ) :
    (m.entries.filter fun entry => entry.1 = k).map Prod.snd = (m.get k).toList := by
  obtain ⟨entries, hnodup⟩ := m
  change (entries.filter _).map _ = (lookup k entries).toList
  induction entries with
  | nil => rfl
  | cons entry rest ih =>
    rw [List.map_cons, List.nodup_cons] at hnodup
    by_cases h : entry.1 = k
    · have hrest : rest.filter (fun entry => entry.1 = k) = [] := by
        refine List.filter_eq_nil_iff.mpr fun other hother heq => hnodup.1 ?_
        exact h.trans (of_decide_eq_true heq).symm ▸ List.mem_map_of_mem hother
      rw [List.filter_cons_of_pos (by simpa using h), hrest, lookup, if_pos h]
      rfl
    · rw [List.filter_cons_of_neg (by simpa using h), ih hnodup.2, lookup, if_neg h]

section Group

variable {α : Type*}

/-- Puts an entry at the end of the bucket of its key, when it has one. -/
def addTo (key : α → Option κ) (groups : OrderedMap κ (List α)) (a : α) : OrderedMap κ (List α) :=
  match key a with
  | some k => groups.set k (groups.getD k [] ++ [a])
  | none => groups

/-- The entries of a list by key, without those that have none. -/
def group (key : α → Option κ) (l : List α) : OrderedMap κ (List α) := l.foldl (addTo key) ∅

theorem get_addTo (key : α → Option κ) (groups : OrderedMap κ (List α)) (a : α) (k : κ) :
    (addTo key groups a).get k = if key a = some k then some (groups.getD k [] ++ [a]) else groups.get k := by
  unfold addTo
  cases hkey : key a with
  | none => rfl
  | some j =>
    by_cases h : j = k
    · subst h
      simp
    · have hsome : ¬ (some j = some k) := fun heq => h (Option.some.inj heq)
      rw [if_neg hsome]
      exact get_set_ne (Ne.symm h) _

/-- Takes an entry into the value of its key, when it has one: as the first
one, or as one more. -/
def accumulate (key : α → Option κ) (first : α → ν) (more : ν → α → ν) (m : OrderedMap κ ν) (a : α) : OrderedMap κ ν :=
  match key a with
  | some k => m.set k (((m.get k).map fun v => more v a).getD (first a))
  | none => m

/-- A value is made of the entries with its key, in order. -/
theorem get_foldl_accumulate (key : α → Option κ) (first : α → ν) (more : ν → α → ν) (l : List α) (k : κ) :
    (l.foldl (accumulate key first more) ∅).get k =
      (l.filter fun a => key a = some k).head?.map fun a =>
        (l.filter fun a => key a = some k).tail.foldl more (first a) := by
  induction l using List.reverseRecOn with
  | nil => rfl
  | append_singleton l a ih =>
    rw [List.foldl_append, List.foldl_cons, List.foldl_nil, List.filter_append]
    by_cases hkey : key a = some k
    · have hset : accumulate key first more (l.foldl (accumulate key first more) ∅) a =
          (l.foldl (accumulate key first more) ∅).set k
            ((((l.foldl (accumulate key first more) ∅).get k).map fun v => more v a).getD (first a)) := by
        rw [accumulate, hkey]
      rw [hset, get_set_self, ih, List.filter_cons_of_pos (by simpa using hkey), List.filter_nil]
      cases l.filter fun a => key a = some k with
      | nil => rfl
      | cons b rest => simp
    · have hother : (accumulate key first more (l.foldl (accumulate key first more) ∅) a).get k =
          (l.foldl (accumulate key first more) ∅).get k := by
        rw [accumulate]
        cases hj : key a with
        | none => rfl
        | some j => exact get_set_ne (fun heq => hkey (hj.trans (congrArg some heq.symm))) _
      rw [hother, ih, List.filter_cons_of_neg (by simpa using hkey), List.filter_nil, List.append_nil]

/-- An entry that is taken in adds its own size to the total size of the map. -/
theorem sum_accumulate {M : Type*} [AddCommMonoid M] (size : ν → M) (weight : α → M) {key : α → Option κ}
    {first : α → ν} {more : ν → α → ν} {a : α} (hkey : key a ≠ none) (hfirst : size (first a) = weight a)
    (hmore : ∀ v, size (more v a) = size v + weight a) (m : OrderedMap κ ν) :
    ((m.accumulate key first more a).values.map size).sum = (m.values.map size).sum + weight a := by
  obtain ⟨k, hk⟩ := Option.ne_none_iff_exists'.mp hkey
  rw [accumulate, hk]
  refine sum_values_set size m ?_
  cases m.get k with
  | none => exact hfirst.trans (zero_add _).symm
  | some v => exact hmore v

section Add

variable {M : Type*} [AddCommMonoid M] (key : α → Option κ) (weight : α → M)

theorem accumulate_add (m : OrderedMap κ M) (a : α) : accumulate key weight (fun v a => v + weight a) m a =
    match key a with
    | some k => m.add k (weight a)
    | none => m := by
  unfold accumulate
  cases key a with
  | none => rfl
  | some k =>
    refine congrArg (m.set k) ?_
    rw [getD]
    cases m.get k with
    | none => exact (zero_add _).symm
    | some v => rfl

/-- Weights that are added up by key: a key has the weights of all its
entries. -/
theorem get_foldl_add (l : List α) (k : κ) : (l.foldl (accumulate key weight fun v a => v + weight a) ∅).get k =
    if l.filter (fun a => key a = some k) = [] then none
    else some ((l.filter fun a => key a = some k).map weight).sum := by
  have hsum : ∀ (rest : List α) (v : M), rest.foldl (fun v a => v + weight a) v = v + (rest.map weight).sum := by
    intro rest
    induction rest with
    | nil => exact fun v => (add_zero v).symm
    | cons a rest ih => exact fun v => by rw [List.foldl_cons, ih, List.map_cons, List.sum_cons, add_assoc]
  rw [get_foldl_accumulate]
  cases l.filter fun a => key a = some k with
  | nil => rfl
  | cons a rest =>
    rw [if_neg (List.cons_ne_nil _ _), List.head?_cons, Option.map_some, List.tail_cons, hsum, List.map_cons,
      List.sum_cons]

end Add

/-- A bucket holds the entries with its key, in order. -/
theorem get_group (key : α → Option κ) (l : List α) (k : κ) :
    (group key l).get k =
      if l.filter (fun a => key a = some k) = [] then none else some (l.filter fun a => key a = some k) := by
  induction l using List.reverseRecOn with
  | nil => rfl
  | append_singleton l a ih =>
    have hstep : group key (l ++ [a]) = addTo key (group key l) a := by
      unfold group
      rw [List.foldl_append, List.foldl_cons, List.foldl_nil]
    have hbucket : (group key l).getD k [] = l.filter fun a => key a = some k := by
      rw [getD, ih]
      split
      · next hempty => rw [hempty]; rfl
      · rfl
    rw [hstep, get_addTo, List.filter_append, hbucket]
    by_cases hkey : key a = some k
    · simp [hkey]
    · simp [hkey, ih]

theorem map_addTo {β : Type*} {key : α → Option κ} {key' : β → Option κ} {f : α → β} (h : ∀ a, key' (f a) = key a)
    (groups : OrderedMap κ (List α)) (a : α) :
    addTo key' (groups.map fun _ bucket => bucket.map f) (f a) = (addTo key groups a).map fun _ bucket => bucket.map f := by
  unfold addTo
  rw [h]
  cases key a with
  | none => rfl
  | some k =>
    dsimp only
    rw [map_set, List.map_append, getD, getD, get_map]
    cases groups.get k <;> rfl

theorem map_group {β : Type*} {key : α → Option κ} {key' : β → Option κ} {f : α → β} (h : ∀ a, key' (f a) = key a)
    (l : List α) : group key' (l.map f) = (group key l).map fun _ bucket => bucket.map f := by
  induction l using List.reverseRecOn with
  | nil => rfl
  | append_singleton l a ih =>
    unfold group at ih ⊢
    rw [List.map_append, List.foldl_append, List.foldl_append, ih]
    exact map_addTo h _ a

end Group

end OrderedMap
