import Codespine.Cluster.CommunityLabeler

namespace codespine.cluster.CommunityLabeler

section Disambiguate

/-- Two indexes carry the label. -/
def Shared (labels : OrderedMap ℕ String) (label : String) : Prop :=
  ∃ i j, i ≠ j ∧ labels.get i = some label ∧ labels.get j = some label

theorem one_lt_count_iff {labels : OrderedMap ℕ String} {label : String} :
    1 < labels.values.count label ↔ Shared labels label := by
  have hlength : labels.values.count label = (labels.entries.filter fun entry => entry.2 = label).length := by
    rw [OrderedMap.values, List.count_eq_length_filter, List.filter_map, List.length_map]
    congr 2
  have hmem : ∀ entry, entry ∈ labels.entries.filter (fun entry => entry.2 = label) ↔
      labels.get entry.1 = some label ∧ entry.2 = label := by
    intro entry
    rw [List.mem_filter, decide_eq_true_eq, OrderedMap.get_eq_some_iff]
    exact and_congr_left fun h => h ▸ Iff.rfl
  have hnodup : ((labels.entries.filter fun entry => entry.2 = label).map Prod.fst).Nodup :=
    labels.nodup.sublist (List.filter_sublist.map Prod.fst)
  rw [hlength]
  generalize labels.entries.filter (fun entry => entry.2 = label) = found at hmem hnodup
  constructor
  · intro h
    cases found with
    | nil => simp at h
    | cons first others =>
      cases others with
      | nil => simp at h
      | cons second rest =>
        have hne : first.1 ≠ second.1 := by
          simp only [List.map_cons, List.nodup_cons, List.mem_cons, not_or] at hnodup
          exact hnodup.1.1
        have hfirst := (hmem first).mp List.mem_cons_self
        have hsecond := (hmem second).mp (List.mem_cons_of_mem _ List.mem_cons_self)
        exact ⟨first.1, second.1, hne, hfirst.1, hsecond.1⟩
  · rintro ⟨i, j, hne, hi, hj⟩
    have hi := (hmem (i, label)).mpr ⟨hi, rfl⟩
    have hj := (hmem (j, label)).mpr ⟨hj, rfl⟩
    have hlt : ({(i, label), (j, label)} : Finset (ℕ × String)).card ≤ found.length := by
      refine (Finset.card_le_card ?_).trans (List.toFinset_card_le found)
      intro entry hentry
      obtain rfl | hentry := Finset.mem_insert.mp hentry
      · exact List.mem_toFinset.mpr hi
      · exact List.mem_toFinset.mpr (Finset.mem_singleton.mp hentry ▸ hj)
    rw [Finset.card_pair fun heq => hne (congrArg Prod.fst heq)] at hlt
    exact hlt

/-- A pass renames what is shared and keeps the rest. -/
theorem get_disambiguate_iff {labels : OrderedMap ℕ String} {rename : ℕ → String → String} {i : ℕ} {label : String} :
    (disambiguate labels rename).get i = some label ↔
      ∃ old, labels.get i = some old ∧
        (Shared labels old ∧ rename i old = label ∨ ¬ Shared labels old ∧ old = label) := by
  unfold disambiguate
  dsimp only
  rw [OrderedMap.get_map, Option.map_eq_some_iff]
  refine exists_congr fun old => and_congr_right fun _ => ?_
  rw [OrderedMap.getD_tally]
  split
  · next h => simp [one_lt_count_iff.mp h]
  · next h => simp [mt one_lt_count_iff.mpr h]

end Disambiguate

section Names

variable (input : CommunityLabelInput)

/-- The nodes of a community, in the order they come in. -/
def members (i : ℕ) : List LabelableNode := input.nodes.filter fun node => input.communityOf.get node.id = some i

def hub (i : ℕ) : Option String := hubName (members input i) (internalDegree input.communityOf input.edges)

def baseLabel (i : ℕ) : String := composeLabel i (members input i) (hub input i)

/-- What a community is called by its members: the label it gets for itself,
with its hub when another community gets the same. -/
inductive MemberName : ℕ → String → Prop
  | alone {i : ℕ} (hi : members input i ≠ [])
      (halone : ∀ j, members input j ≠ [] → baseLabel input j = baseLabel input i → j = i) :
      MemberName i (baseLabel input i)
  | shared {i j : ℕ} (hi : members input i ≠ []) (hj : members input j ≠ []) (hne : i ≠ j)
      (hsame : baseLabel input j = baseLabel input i) : MemberName i (withHub (hub input i) (baseLabel input i))

variable {input}

theorem get_groupMembers (i : ℕ) : (groupMembers input.communityOf input.nodes).get i =
    if members input i = [] then none else some (members input i) :=
  OrderedMap.get_group (fun node : LabelableNode => input.communityOf.get node.id) input.nodes i

theorem get_baseOf_iff {i : ℕ} {label : String} :
    (baseOf input).get i = some label ↔ members input i ≠ [] ∧ baseLabel input i = label := by
  unfold baseOf
  rw [OrderedMap.get_map, get_groupMembers]
  split
  · next hempty => simp [hempty]
  · next hne => simp [hne, baseLabel, hub]

theorem getD_hubsOf {i : ℕ} (hi : members input i ≠ []) : (hubsOf input).getD i none = hub input i := by
  have hget : (hubsOf input).get i = some (hub input i) := by
    unfold hubsOf
    rw [OrderedMap.get_map, get_groupMembers, if_neg hi]
    rfl
  rw [OrderedMap.getD, hget]
  rfl

theorem shared_baseOf_iff {i : ℕ} (hi : members input i ≠ []) :
    Shared (baseOf input) (baseLabel input i) ↔
      ∃ j, i ≠ j ∧ members input j ≠ [] ∧ baseLabel input j = baseLabel input i := by
  constructor
  · rintro ⟨j, k, hne, hj, hk⟩
    obtain rfl | hij := eq_or_ne i j
    · exact ⟨k, hne, get_baseOf_iff.mp hk⟩
    · exact ⟨j, hij, get_baseOf_iff.mp hj⟩
  · rintro ⟨j, hne, hj⟩
    exact ⟨i, j, hne, get_baseOf_iff.mpr ⟨hi, rfl⟩, get_baseOf_iff.mpr hj⟩

/-- After the first pass a community is called by its members. -/
theorem get_dedupeByHub_iff {i : ℕ} {name : String} :
    (dedupeByHub (baseOf input) (hubsOf input)).get i = some name ↔ MemberName input i name := by
  unfold dedupeByHub
  rw [get_disambiguate_iff]
  constructor
  · rintro ⟨old, hold, hcase⟩
    obtain ⟨hi, rfl⟩ := get_baseOf_iff.mp hold
    rw [shared_baseOf_iff hi, getD_hubsOf hi] at hcase
    obtain ⟨⟨j, hne, hj, hsame⟩, rfl⟩ | ⟨halone, rfl⟩ := hcase
    · exact .shared hi hj hne hsame
    · refine .alone hi fun j hj hsame => ?_
      by_contra hne
      exact halone ⟨j, Ne.symm hne, hj, hsame⟩
  · intro h
    cases h with
    | alone hi halone =>
      refine ⟨_, get_baseOf_iff.mpr ⟨hi, rfl⟩, Or.inr ⟨?_, rfl⟩⟩
      rw [shared_baseOf_iff hi]
      rintro ⟨j, hne, hj, hsame⟩
      exact hne (halone j hj hsame).symm
    | shared hi hj hne hsame =>
      refine ⟨_, get_baseOf_iff.mpr ⟨hi, rfl⟩, Or.inl ⟨?_, ?_⟩⟩
      · exact (shared_baseOf_iff hi).mpr ⟨_, hne, hj, hsame⟩
      · rw [getD_hubsOf hi]

theorem MemberName.unique {i : ℕ} {name name' : String} (h : MemberName input i name) (h' : MemberName input i name') :
    name = name' :=
  Option.some.inj ((get_dedupeByHub_iff.mpr h).symm.trans (get_dedupeByHub_iff.mpr h'))

/-- A community is labelled with its name, or when another has the same, with
its name and number. -/
theorem get_label_iff {i : ℕ} {label : String} :
    (CommunityLabeler.label input).get i = some label ↔ ∃ name, MemberName input i name ∧
      ((∃ j, i ≠ j ∧ MemberName input j name) ∧ withOrdinal i name = label ∨
        (∀ j, MemberName input j name → j = i) ∧ name = label) := by
  unfold CommunityLabeler.label dedupe
  rw [get_disambiguate_iff]
  refine exists_congr fun name => ?_
  rw [get_dedupeByHub_iff]
  refine and_congr_right fun hname => ?_
  have hshared : Shared (dedupeByHub (baseOf input) (hubsOf input)) name ↔ ∃ j, i ≠ j ∧ MemberName input j name := by
    simp only [Shared, get_dedupeByHub_iff]
    constructor
    · rintro ⟨j, k, hne, hj, hk⟩
      obtain rfl | hij := eq_or_ne i j
      · exact ⟨k, hne, hk⟩
      · exact ⟨j, hij, hj⟩
    · rintro ⟨j, hne, hj⟩
      exact ⟨i, j, hne, hname, hj⟩
  have halone : (¬ ∃ j, i ≠ j ∧ MemberName input j name) ↔ ∀ j, MemberName input j name → j = i := by
    constructor
    · intro h j hj
      by_contra hne
      exact h ⟨j, Ne.symm hne, hj⟩
    · rintro h ⟨j, hne, hj⟩
      exact hne (h j hj).symm
  rw [hshared, halone]

end Names

end codespine.cluster.CommunityLabeler
