import Codespine.Cluster.CommunityLabeler.Names

namespace codespine.cluster.CommunityLabeler

section Order

theorem eq_of_hubOrder {degree : String → ℚ} {nodes : List LabelableNode} (hids : (nodes.map LabelableNode.id).Nodup)
    {a b : LabelableNode} (ha : a ∈ nodes) (hb : b ∈ nodes) (h : (hubOrder degree).compare a b = 0) : a = b :=
  List.inj_on_of_nodup_map hids ha hb (utf16.order_eq_zero_iff.mp (Comparator.thenBy_eq_zero_iff.mp h).2)

theorem eq_of_directoryOrder {counts : OrderedMap String ℕ} {a b : String × ℕ} (ha : a ∈ counts.entries)
    (hb : b ∈ counts.entries) (h : directoryOrder.compare a b = 0) : a = b :=
  List.inj_on_of_nodup_map counts.nodup ha hb (utf16.order_eq_zero_iff.mp (Comparator.thenBy_eq_zero_iff.mp h).2)

/-- The degrees of two ends are raised by each edge between them. -/
theorem getD_internalDegree (communityOf : OrderedMap String ℕ) (edges : List WeightedEdge) (id : String) :
    (internalDegree communityOf edges).getD id 0 = (edges.map fun edge =>
      if isInternal communityOf edge then
        (if id = edge.source then edge.weight else 0) + if id = edge.target then edge.weight else 0
      else 0).sum := by
  have key : ∀ degree : OrderedMap String ℚ, (edges.foldl (fun degree edge =>
      if isInternal communityOf edge then (degree.add edge.source edge.weight).add edge.target edge.weight
      else degree) degree).getD id 0 = degree.getD id 0 + (edges.map fun edge =>
      if isInternal communityOf edge then
        (if id = edge.source then edge.weight else 0) + if id = edge.target then edge.weight else 0
      else 0).sum := by
    induction edges with
    | nil => exact fun degree => (add_zero _).symm
    | cons edge rest ih =>
      intro degree
      rw [List.foldl_cons, ih, List.map_cons, List.sum_cons, ← add_assoc]
      congr 1
      split
      · rw [OrderedMap.getD_add, OrderedMap.getD_add, add_assoc]
      · rw [add_zero]
  exact (key ∅).trans (zero_add _)

theorem hubName_congr {members members' : List LabelableNode} (hperm : members.Perm members')
    (hids : (members.map LabelableNode.id).Nodup) {degree degree' : OrderedMap String ℚ}
    (hdegree : ∀ id, degree.getD id 0 = degree'.getD id 0) : hubName members degree = hubName members' degree' := by
  unfold hubName
  rw [funext hdegree, Comparator.sort_eq_of_perm hperm fun a ha b hb => eq_of_hubOrder hids ha hb]

theorem dominantDirectory_congr {members members' : List LabelableNode} (hperm : members.Perm members') :
    dominantDirectory members = dominantDirectory members' := by
  have hdirectories := hperm.map fun member => directoryOf member.filePath
  have hentries : (OrderedMap.tally (members.map fun member => directoryOf member.filePath)).entries.Perm
      (OrderedMap.tally (members'.map fun member => directoryOf member.filePath)).entries := by
    refine OrderedMap.entries_perm fun directory => ?_
    rw [OrderedMap.get_tally, OrderedMap.get_tally, hdirectories.count_eq]
    simp only [hdirectories.mem_iff]
  unfold dominantDirectory
  dsimp only
  rw [Comparator.sort_eq_of_perm hentries fun a ha b hb => eq_of_directoryOrder ha hb, hperm.length_eq]

/-- The members may come in any order. -/
theorem composeLabel_congr (index : ℕ) {members members' : List LabelableNode} (hperm : members.Perm members')
    (hub : Option String) : composeLabel index members hub = composeLabel index members' hub := by
  match members, members', hperm with
  | [], [], _ => rfl
  | [], _ :: _, hperm => exact absurd hperm.length_eq (by simp)
  | _ :: _, [], hperm => exact absurd hperm.length_eq (by simp)
  | first :: rest, first' :: rest', hperm =>
    have hfiles := (hperm.map LabelableNode.filePath).dedup
    unfold composeLabel
    dsimp only
    rw [hfiles.length_eq, dominantDirectory_congr hperm]
    split
    · next hone =>
      have hsame : first.filePath = first'.filePath := by
        obtain ⟨file, hfile⟩ := List.length_eq_one_iff.mp hone
        have hmem : ∀ member ∈ first' :: rest', member.filePath = file := by
          intro member hmember
          have h := List.mem_dedup.mpr (List.mem_map_of_mem (f := LabelableNode.filePath) hmember)
          rw [hfile] at h
          exact List.mem_singleton.mp h
        exact (hmem first (hperm.mem_iff.mp List.mem_cons_self)).trans (hmem first' List.mem_cons_self).symm
      rw [hsame]
    · rfl

end Order

section Renumbering

variable {input input' : CommunityLabelInput} {s : ℕ → ℕ}

/-- The second input has the communities of the first, each under the number
that `s` gives it, with what their labels are made of. -/
structure Renumbers (s : ℕ → ℕ) (input input' : CommunityLabelInput) : Prop where
  members_iff : ∀ k, members input' k ≠ [] ↔ ∃ i, members input i ≠ [] ∧ s i = k
  injective : ∀ i j, members input i ≠ [] → members input j ≠ [] → s i = s j → i = j
  baseLabel_eq : ∀ i, members input i ≠ [] → baseLabel input' (s i) = baseLabel input i
  hub_eq : ∀ i, members input i ≠ [] → hub input' (s i) = hub input i

theorem members_of_memberName {i : ℕ} {name : String} (h : MemberName input i name) : members input i ≠ [] := by
  cases h with
  | alone hi _ => exact hi
  | shared hi _ _ _ => exact hi

theorem exists_memberName {i : ℕ} (hi : members input i ≠ []) : ∃ name, MemberName input i name := by
  by_cases halone : ∀ j, members input j ≠ [] → baseLabel input j = baseLabel input i → j = i
  · exact ⟨_, .alone hi halone⟩
  · push Not at halone
    obtain ⟨j, hj, hsame, hne⟩ := halone
    exact ⟨_, .shared hi hj (Ne.symm hne) hsame⟩

/-- Names go with the communities. -/
theorem Renumbers.memberName (h : Renumbers s input input') {i : ℕ} {name : String} (hname : MemberName input i name) :
    MemberName input' (s i) name := by
  cases hname with
  | alone hi halone =>
    rw [← h.baseLabel_eq i hi]
    refine .alone ((h.members_iff _).mpr ⟨i, hi, rfl⟩) fun k hk hsame => ?_
    obtain ⟨j, hj, rfl⟩ := (h.members_iff k).mp hk
    rw [h.baseLabel_eq i hi, h.baseLabel_eq j hj] at hsame
    rw [halone j hj hsame]
  | @shared j hi hj hne hsame =>
    rw [← h.baseLabel_eq i hi, ← h.hub_eq i hi]
    refine .shared ((h.members_iff _).mpr ⟨i, hi, rfl⟩) ((h.members_iff _).mpr ⟨j, hj, rfl⟩) (fun heq => ?_) ?_
    · exact hne (h.injective i j hi hj heq)
    · rw [h.baseLabel_eq i hi, h.baseLabel_eq j hj, hsame]

theorem Renumbers.memberName_iff (h : Renumbers s input input') {k : ℕ} {name : String} :
    MemberName input' k name ↔ ∃ i, s i = k ∧ MemberName input i name := by
  constructor
  · intro hname
    obtain ⟨i, hi, rfl⟩ := (h.members_iff k).mp (members_of_memberName hname)
    obtain ⟨name', hname'⟩ := exists_memberName hi
    obtain rfl := (h.memberName hname').unique hname
    exact ⟨i, rfl, hname'⟩
  · rintro ⟨i, rfl, hname⟩
    exact h.memberName hname

/-- Whether a name is shared does not depend on the numbers. -/
theorem Renumbers.shared_iff (h : Renumbers s input input') {i : ℕ} {name : String} (hname : MemberName input i name) :
    (∃ k, s i ≠ k ∧ MemberName input' k name) ↔ ∃ j, i ≠ j ∧ MemberName input j name := by
  constructor
  · rintro ⟨k, hne, hk⟩
    obtain ⟨j, rfl, hj⟩ := h.memberName_iff.mp hk
    exact ⟨j, fun heq => hne (congrArg s heq), hj⟩
  · rintro ⟨j, hne, hj⟩
    refine ⟨s j, fun heq => hne ?_, h.memberName hj⟩
    exact h.injective i j (members_of_memberName hname) (members_of_memberName hj) heq

theorem get_label_of_alone {i : ℕ} {name : String} (hname : MemberName input i name)
    (halone : ¬ ∃ j, i ≠ j ∧ MemberName input j name) : (label input).get i = some name := by
  refine get_label_iff.mpr ⟨name, hname, Or.inr ⟨fun j hj => ?_, rfl⟩⟩
  by_contra hne
  exact halone ⟨j, Ne.symm hne, hj⟩

theorem get_label_of_shared {i : ℕ} {name : String} (hname : MemberName input i name)
    (hshared : ∃ j, i ≠ j ∧ MemberName input j name) : (label input).get i = some (withOrdinal i name) :=
  get_label_iff.mpr ⟨name, hname, Or.inl ⟨hshared, rfl⟩⟩

theorem get_label_of_empty {i : ℕ} (hi : members input i = []) : (label input).get i = none := by
  refine Option.eq_none_iff_forall_not_mem.mpr fun text htext => ?_
  obtain ⟨name, hname, _⟩ := get_label_iff.mp htext
  exact members_of_memberName hname hi

/-- The labels of a community under its two numbers: its name, with the number
after it where others share the name. -/
theorem Renumbers.get_label (h : Renumbers s input input') {i : ℕ} (hi : members input i ≠ []) :
    ∃ name, MemberName input i name ∧
      ((¬ ∃ j, i ≠ j ∧ MemberName input j name) ∧
          (label input).get i = some name ∧ (label input').get (s i) = some name ∨
        (∃ j, i ≠ j ∧ MemberName input j name) ∧
          (label input).get i = some (withOrdinal i name) ∧
            (label input').get (s i) = some (withOrdinal (s i) name)) := by
  obtain ⟨name, hname⟩ := exists_memberName hi
  have hname' := h.memberName hname
  have hiff := h.shared_iff hname
  refine ⟨name, hname, ?_⟩
  by_cases hshared : ∃ j, i ≠ j ∧ MemberName input j name
  · exact Or.inr ⟨hshared, get_label_of_shared hname hshared, get_label_of_shared hname' (hiff.mpr hshared)⟩
  · exact Or.inl ⟨hshared, get_label_of_alone hname hshared, get_label_of_alone hname' (mt hiff.mp hshared)⟩

/-- The partition under other numbers. -/
def renumber (s : ℕ → ℕ) (input : CommunityLabelInput) : CommunityLabelInput :=
  { input with communityOf := input.communityOf.map fun _ i => s i }

theorem mem_values_of_get {i : ℕ} {id : String} (h : input.communityOf.get id = some i) :
    i ∈ input.communityOf.values :=
  List.mem_map_of_mem (OrderedMap.get_eq_some_iff.mp h)

theorem mem_values_of_members {i : ℕ} (hi : members input i ≠ []) : i ∈ input.communityOf.values := by
  obtain ⟨node, hnode⟩ := List.exists_mem_of_ne_nil _ hi
  exact mem_values_of_get (of_decide_eq_true (List.mem_filter.mp hnode).2)

theorem members_renumber (hs : Set.InjOn s {i | i ∈ input.communityOf.values}) {i : ℕ}
    (hi : i ∈ input.communityOf.values) : members (renumber s input) (s i) = members input i := by
  refine List.filter_congr fun node _ => decide_eq_decide.mpr ?_
  change ((input.communityOf.map fun _ i => s i).get node.id = some (s i)) ↔ _
  rw [OrderedMap.get_map, Option.map_eq_some_iff]
  constructor
  · rintro ⟨j, hj, heq⟩
    rw [hj, hs (mem_values_of_get hj) hi heq]
  · exact fun h => ⟨i, h, rfl⟩

theorem internalDegree_renumber (hs : Set.InjOn s {i | i ∈ input.communityOf.values}) (edges : List WeightedEdge) :
    internalDegree (renumber s input).communityOf edges = internalDegree input.communityOf edges := by
  have hinternal : ∀ edge, isInternal (renumber s input).communityOf edge = isInternal input.communityOf edge := by
    intro edge
    unfold isInternal renumber
    simp only [OrderedMap.get_map, Option.isSome_map]
    cases hsource : input.communityOf.get edge.source with
    | none => simp
    | some i =>
      cases htarget : input.communityOf.get edge.target with
      | none => simp
      | some j =>
        have hiff : s i = s j ↔ i = j := hs.eq_iff (mem_values_of_get hsource) (mem_values_of_get htarget)
        simp [hiff]
  unfold internalDegree
  simp only [hinternal]

/-- No label names the number of its community, which always has a hub. -/
theorem composeLabel_index (i j : ℕ) {members : List LabelableNode} (hne : members ≠ []) (hub : String) :
    composeLabel i members (some hub) = composeLabel j members (some hub) := by
  match members, hne with
  | first :: rest, _ => rfl

theorem exists_hubName {members : List LabelableNode} (hne : members ≠ []) (degree : OrderedMap String ℚ) :
    ∃ hub, hubName members degree = some hub := by
  unfold hubName
  cases hsort : (hubOrder fun id => degree.getD id 0).sort members with
  | nil =>
    have hlength := ((hubOrder fun id => degree.getD id 0).sort_perm members).length_eq
    rw [hsort, List.length_nil, eq_comm, List.length_eq_zero_iff] at hlength
    exact absurd hlength hne
  | cons first rest => exact ⟨_, rfl⟩

theorem renumbers_renumber (hs : Set.InjOn s {i | i ∈ input.communityOf.values}) :
    Renumbers s input (renumber s input) where
  members_iff k := by
    constructor
    · intro hk
      obtain ⟨node, hnode⟩ := List.exists_mem_of_ne_nil _ hk
      have hget := of_decide_eq_true (List.mem_filter.mp hnode).2
      change (input.communityOf.map fun _ i => s i).get node.id = some k at hget
      rw [OrderedMap.get_map, Option.map_eq_some_iff] at hget
      obtain ⟨i, hi, rfl⟩ := hget
      rw [members_renumber hs (mem_values_of_get hi)] at hk
      exact ⟨i, hk, rfl⟩
    · rintro ⟨i, hi, rfl⟩
      rwa [members_renumber hs (mem_values_of_members hi)]
  injective i j hi hj heq := hs (mem_values_of_members hi) (mem_values_of_members hj) heq
  baseLabel_eq i hi := by
    unfold baseLabel hub
    rw [members_renumber hs (mem_values_of_members hi), internalDegree_renumber hs]
    obtain ⟨hub, hhub⟩ := exists_hubName hi (internalDegree input.communityOf input.edges)
    change composeLabel _ _ (hubName _ (internalDegree input.communityOf input.edges)) = _
    rw [hhub]
    exact composeLabel_index _ _ hi hub
  hub_eq i hi := by
    unfold hub
    rw [members_renumber hs (mem_values_of_members hi), internalDegree_renumber hs]
    rfl

/-- A renumbered community keeps its label, unless others share its name: then
its number stands after the name. -/
theorem label_renumber {s : ℕ → ℕ} {input : CommunityLabelInput}
    (hs : Set.InjOn s {i | i ∈ input.communityOf.values}) {i : ℕ} (hi : i ∈ input.communityOf.values) :
    (label input).get i = none ∧ (label (renumber s input)).get (s i) = none ∨
      ∃ name, MemberName input i name ∧
        ((¬ ∃ j, i ≠ j ∧ MemberName input j name) ∧
            (label input).get i = some name ∧ (label (renumber s input)).get (s i) = some name ∨
          (∃ j, i ≠ j ∧ MemberName input j name) ∧
            (label input).get i = some (withOrdinal i name) ∧
              (label (renumber s input)).get (s i) = some (withOrdinal (s i) name)) := by
  obtain hempty | hne := eq_or_ne (members input i) []
  · refine Or.inl ⟨get_label_of_empty hempty, get_label_of_empty ?_⟩
    rwa [members_renumber hs hi]
  · exact Or.inr ((renumbers_renumber hs).get_label hne)

/-- Two functions named `foo` that call themselves, each a community. -/
def twoFoos : CommunityLabelInput where
  communityOf := OrderedMap.ofList [("a", 0), ("b", 1)]
  nodes := [
    { id := "a", name := "foo", kind := "Function", filePath := "a/foo.ts" },
    { id := "b", name := "foo", kind := "Function", filePath := "b/foo.ts" }]
  edges := [⟨"a", "a", 3⟩, ⟨"b", "b", 3⟩]

theorem label_renumber_twoFoos :
    Set.InjOn Nat.succ {i | i ∈ twoFoos.communityOf.values} ∧ 0 ∈ twoFoos.communityOf.values ∧
      ((label twoFoos).get 0 = none ∧ (label (renumber Nat.succ twoFoos)).get 1 = none ∨
        ∃ name, MemberName twoFoos 0 name ∧
          ((¬ ∃ j, 0 ≠ j ∧ MemberName twoFoos j name) ∧
              (label twoFoos).get 0 = some name ∧ (label (renumber Nat.succ twoFoos)).get 1 = some name ∨
            (∃ j, 0 ≠ j ∧ MemberName twoFoos j name) ∧
              (label twoFoos).get 0 = some (withOrdinal 0 name) ∧
                (label (renumber Nat.succ twoFoos)).get 1 = some (withOrdinal 1 name))) := by
  have hzero : 0 ∈ twoFoos.communityOf.values := by decide
  exact ⟨Nat.succ_injective.injOn, hzero, label_renumber Nat.succ_injective.injOn hzero⟩

/-- The number shows in the label of a community whose name is shared. -/
theorem label_depends_on_number_twoFoos :
    ¬ ∀ s : ℕ → ℕ, Function.Injective s → ∀ i ∈ twoFoos.communityOf.values,
      (label (renumber s twoFoos)).get (s i) = (label twoFoos).get i := by
  intro h
  have hsame := h Nat.succ Nat.succ_injective 0 (by decide)
  exact absurd hsame (by decide +kernel)

/-- Rows in another order give every community what its label is made of. -/
theorem renumbers_of_perm {communityOf : OrderedMap String ℕ} {nodes nodes' : List LabelableNode}
    {edges edges' : List WeightedEdge} (hids : (nodes.map LabelableNode.id).Nodup) (hnodes : nodes.Perm nodes')
    (hedges : edges.Perm edges') : Renumbers id ⟨communityOf, nodes, edges⟩ ⟨communityOf, nodes', edges'⟩ := by
  have hmembers : ∀ i, (members ⟨communityOf, nodes, edges⟩ i).Perm (members ⟨communityOf, nodes', edges'⟩ i) :=
    fun i => hnodes.filter _
  have hhub : ∀ i, hub ⟨communityOf, nodes', edges'⟩ i = hub ⟨communityOf, nodes, edges⟩ i := by
    intro i
    refine (hubName_congr (hmembers i) (hids.sublist (List.filter_sublist.map _)) fun id => ?_).symm
    rw [getD_internalDegree, getD_internalDegree]
    exact (hedges.map _).sum_eq
  constructor
  case members_iff =>
    intro k
    have hiff : members ⟨communityOf, nodes', edges'⟩ k = [] ↔ members ⟨communityOf, nodes, edges⟩ k = [] := by
      rw [← List.length_eq_zero_iff, ← (hmembers k).length_eq, List.length_eq_zero_iff]
    simp [hiff]
  case injective => exact fun _ _ _ _ heq => heq
  case baseLabel_eq =>
    intro i _
    unfold baseLabel
    rw [id, hhub, composeLabel_congr i (hmembers i)]
  case hub_eq => exact fun i _ => hhub i

/-- Labels do not depend on the order of the rows. -/
theorem label_perm {communityOf : OrderedMap String ℕ} {nodes nodes' : List LabelableNode}
    {edges edges' : List WeightedEdge} (hids : (nodes.map LabelableNode.id).Nodup) (hnodes : nodes.Perm nodes')
    (hedges : edges.Perm edges') (i : ℕ) :
    (label ⟨communityOf, nodes', edges'⟩).get i = (label ⟨communityOf, nodes, edges⟩).get i := by
  have hsame : Renumbers id ⟨communityOf, nodes, edges⟩ ⟨communityOf, nodes', edges'⟩ :=
    renumbers_of_perm hids hnodes hedges
  by_cases hne : members ⟨communityOf, nodes, edges⟩ i = []
  · have hne' : members ⟨communityOf, nodes', edges'⟩ i = [] := by
      by_contra hsome
      obtain ⟨j, hj, rfl⟩ := (hsame.members_iff i).mp hsome
      exact hj hne
    rw [get_label_of_empty hne, get_label_of_empty hne']
  · obtain ⟨name, _, ⟨_, hbefore, hafter⟩ | ⟨_, hbefore, hafter⟩⟩ := hsame.get_label hne
    · rw [hbefore]
      exact hafter
    · rw [hbefore]
      exact hafter

theorem label_perm_twoFoos :
    (twoFoos.nodes.map LabelableNode.id).Nodup ∧ twoFoos.nodes.Perm twoFoos.nodes.reverse ∧
      twoFoos.edges.Perm twoFoos.edges.reverse ∧
      (label ⟨twoFoos.communityOf, twoFoos.nodes.reverse, twoFoos.edges.reverse⟩).get 0 = (label twoFoos).get 0 := by
  have hids : (twoFoos.nodes.map LabelableNode.id).Nodup := by decide
  have hnodes := (List.reverse_perm twoFoos.nodes).symm
  have hedges := (List.reverse_perm twoFoos.edges).symm
  exact ⟨hids, hnodes, hedges, label_perm hids hnodes hedges 0⟩

end Renumbering

end codespine.cluster.CommunityLabeler
