import Codespine.Enrich.CpuProfile

open codespine.schema

namespace codespine.enrich.CpuProfile

variable {profile : CpuProfileData} {walk : SubtreeWalk} {id : ℚ} {rest : List ℚ}

section Step

/-- The children of a node that go on the stack when it is on top. -/
def pendingOf (profile : CpuProfileData) (walk : SubtreeWalk) (id : ℚ) : List ℚ :=
  (knownChildren profile id).filter fun child => child ∉ walk.subtree.keys ∧ child ∉ walk.onStack

/-- What a node without pending children adds up to. -/
def sumAt (profile : CpuProfileData) (subtree : OrderedMap ℚ ℚ) (id : ℚ) : ℚ :=
  (samplesByNode profile).getD id 0 + ((knownChildren profile id).map fun child => subtree.getD child 0).sum

/-- The walk has put the id on its stack, or found it summed up. -/
def Met (walk : SubtreeWalk) (id : ℚ) : Prop := id ∈ walk.subtree.keys ∨ id ∈ walk.onStack

theorem mem_pendingOf {child : ℚ} :
    child ∈ pendingOf profile walk id ↔ child ∈ knownChildren profile id ∧ ¬ Met walk child := by
  rw [pendingOf, List.mem_filter, decide_eq_true_eq, Met, not_or]

theorem step_of_pending (hstack : walk.stack = id :: rest) (hpending : pendingOf profile walk id ≠ []) :
    walk.step profile =
      { walk with
        stack := (pendingOf profile walk id).reverse ++ walk.stack
        onStack := pendingOf profile walk id ++ walk.onStack } := by
  unfold SubtreeWalk.step
  rw [hstack]
  exact if_pos (List.length_pos_iff.mpr hpending)

theorem step_of_settled (hstack : walk.stack = id :: rest) (hpending : pendingOf profile walk id = []) :
    walk.step profile =
      { subtree := walk.subtree.set id (sumAt profile walk.subtree id)
        stack := rest
        onStack := walk.onStack.filter fun other => other ≠ id } := by
  have hsum : (knownChildren profile id).foldl (fun sum child => sum + walk.subtree.getD child 0)
      ((samplesByNode profile).getD id 0) = sumAt profile walk.subtree id := by
    rw [sumAt]
    generalize (samplesByNode profile).getD id 0 = own
    induction knownChildren profile id generalizing own with
    | nil => exact (add_zero own).symm
    | cons child children ih => rw [List.foldl_cons, ih, List.map_cons, List.sum_cons, add_assoc]
  unfold SubtreeWalk.step
  rw [hstack]
  refine (if_neg ?_).trans ?_
  · exact fun hpos => List.length_pos_iff.mp hpos hpending
  · rw [hsum]

/-- What has been met stays met: an id leaves the stack when it is summed up. -/
theorem Met.step {other : ℚ} (h : Met walk other) (hstack : walk.stack ≠ []) : Met (walk.step profile) other := by
  obtain ⟨id, rest, hstack⟩ := List.exists_cons_of_ne_nil hstack
  by_cases hpending : pendingOf profile walk id = []
  · rw [step_of_settled hstack hpending]
    rcases h with h | h
    · exact .inl (OrderedMap.mem_keys_set.mpr (.inl h))
    · by_cases heq : other = id
      · exact .inl (OrderedMap.mem_keys_set.mpr (.inr heq))
      · exact .inr (List.mem_filter.mpr ⟨h, decide_eq_true heq⟩)
  · rw [step_of_pending hstack hpending]
    rcases h with h | h
    · exact .inl h
    · exact .inr (List.mem_append_right _ h)

end Step

section Termination

/-- The profile nodes that still have children to put on the stack. -/
def unsettled (profile : CpuProfileData) (walk : SubtreeWalk) : Finset ℚ :=
  (nodeById profile).keys.toFinset.filter fun id => pendingOf profile walk id ≠ []

/-- What every round of a walk lowers: the entries on the stack, and twice
those that may still be put there. -/
def potential (profile : CpuProfileData) (walk : SubtreeWalk) : ℕ :=
  walk.stack.length + 2 * ∑ id ∈ unsettled profile walk, (knownChildren profile id).length

theorem mem_unsettled_of_pending (h : pendingOf profile walk id ≠ []) : id ∈ unsettled profile walk := by
  refine Finset.mem_filter.mpr ⟨List.mem_toFinset.mpr ?_, h⟩
  obtain ⟨child, hchild⟩ := List.exists_mem_of_ne_nil _ h
  have hknown := (mem_pendingOf.mp hchild).1
  unfold knownChildren at hknown
  cases hget : (nodeById profile).get id with
  | none => rw [hget] at hknown; cases hknown
  | some node => exact OrderedMap.mem_keys_of_get hget

theorem unsettled_step (hstack : walk.stack ≠ []) : unsettled profile (walk.step profile) ⊆ unsettled profile walk := by
  intro id hid
  obtain ⟨hkey, hpending⟩ := Finset.mem_filter.mp hid
  obtain ⟨child, hchild⟩ := List.exists_mem_of_ne_nil _ hpending
  obtain ⟨hknown, hmet⟩ := mem_pendingOf.mp hchild
  refine Finset.mem_filter.mpr ⟨hkey, List.ne_nil_of_mem (mem_pendingOf.mpr ⟨hknown, fun h => hmet ?_⟩)⟩
  exact h.step hstack

/-- A node that has put its children on the stack never does so again. -/
theorem not_mem_unsettled_step (hstack : walk.stack = id :: rest) (hpending : pendingOf profile walk id ≠ []) :
    id ∉ unsettled profile (walk.step profile) := by
  intro hid
  obtain ⟨child, hchild⟩ := List.exists_mem_of_ne_nil _ (Finset.mem_filter.mp hid).2
  obtain ⟨hknown, hmet⟩ := mem_pendingOf.mp hchild
  rw [step_of_pending hstack hpending] at hmet
  by_cases h : Met walk child
  · rcases h with h | h
    · exact hmet (.inl h)
    · exact hmet (.inr (List.mem_append_right _ h))
  · exact hmet (.inr (List.mem_append_left _ (mem_pendingOf.mpr ⟨hknown, h⟩)))

theorem potential_step (hstack : walk.stack ≠ []) : potential profile (walk.step profile) < potential profile walk := by
  have hsubset := @unsettled_step profile walk hstack
  obtain ⟨id, rest, hstack⟩ := List.exists_cons_of_ne_nil hstack
  unfold potential
  by_cases hpending : pendingOf profile walk id = []
  · have hsum := Finset.sum_le_sum_of_subset (f := fun id => (knownChildren profile id).length) hsubset
    have hlength : (walk.step profile).stack.length + 1 = walk.stack.length := by
      rw [step_of_settled hstack hpending, hstack, List.length_cons]
    omega
  · have hmem := mem_unsettled_of_pending hpending
    have herase : unsettled profile (walk.step profile) ⊆ (unsettled profile walk).erase id := fun other hother =>
      Finset.mem_erase.mpr ⟨fun heq => not_mem_unsettled_step hstack hpending (heq ▸ hother), hsubset hother⟩
    have hsum := Finset.sum_le_sum_of_subset (f := fun id => (knownChildren profile id).length) herase
    have hsplit := Finset.add_sum_erase _ (fun id => (knownChildren profile id).length) hmem
    have hlength : (walk.step profile).stack.length = (pendingOf profile walk id).length + walk.stack.length := by
      rw [step_of_pending hstack hpending, List.length_append, List.length_reverse]
    have hle : (pendingOf profile walk id).length ≤ (knownChildren profile id).length := List.length_filter_le _ _
    have hpos := List.length_pos_iff.mpr hpending
    omega

/-- With fuel for its potential a walk ends. -/
theorem stack_loop {fuel : ℕ} (hfuel : potential profile walk ≤ fuel) :
    (SubtreeWalk.loop profile fuel walk).stack = [] := by
  induction fuel generalizing walk with
  | zero =>
    have hlength : walk.stack.length = 0 := by
      unfold potential at hfuel
      omega
    exact List.length_eq_zero_iff.mp hlength
  | succ fuel ih =>
    unfold SubtreeWalk.loop
    split
    · next hstack => exact hstack
    · next hstack =>
      have hlt := @potential_step profile walk hstack
      exact ih (by omega)

theorem mem_of_get_nodeById {node : ProfileNode} (h : (nodeById profile).get id = some node) :
    node ∈ profile.nodes ∧ node.id = id := by
  obtain ⟨other, hother, heq⟩ := List.mem_map.mp (OrderedMap.mem_of_get_ofList h)
  obtain ⟨hid, rfl⟩ := Prod.mk.inj heq
  exact ⟨hother, hid⟩

/-- There are no more children in all than the profile lists. -/
theorem sum_knownChildren_le (profile : CpuProfileData) :
    ∑ id ∈ (nodeById profile).keys.toFinset, (knownChildren profile id).length ≤
      (profile.nodes.map fun node => (node.children.getD []).length).sum := by
  have hentry : ∀ entry ∈ (nodeById profile).entries, entry.2 ∈ profile.nodes ∧ entry.2.id = entry.1 := fun entry hentry =>
    mem_of_get_nodeById (OrderedMap.get_eq_some_iff.mpr hentry)
  have hids : (nodeById profile).values.map ProfileNode.id = (nodeById profile).keys := by
    rw [OrderedMap.values, List.map_map]
    exact List.map_congr_left fun entry hmem => (hentry entry hmem).2
  have hnodup : (nodeById profile).values.Nodup :=
    List.Nodup.of_map ProfileNode.id (hids ▸ (nodeById profile).nodup_keys)
  have hsubset : (nodeById profile).values ⊆ profile.nodes := by
    intro node hnode
    obtain ⟨entry, hmem, rfl⟩ := List.mem_map.mp hnode
    exact (hentry entry hmem).1
  obtain ⟨nodes, hperm, hsublist⟩ := List.subperm_of_subset hnodup hsubset
  have hvalues : ((nodeById profile).values.map fun node => (node.children.getD []).length).sum ≤
      (profile.nodes.map fun node => (node.children.getD []).length).sum := by
    rw [← (hperm.map _).sum_eq]
    exact (hsublist.map _).sum_le_sum fun _ _ => Nat.zero_le _
  rw [List.sum_toFinset _ (nodeById profile).nodup_keys]
  refine le_trans ?_ hvalues
  rw [OrderedMap.keys, OrderedMap.values, List.map_map, List.map_map]
  refine List.sum_le_sum fun entry hmem => ?_
  have hget : (nodeById profile).get entry.1 = some entry.2 := OrderedMap.get_eq_some_iff.mpr hmem
  change (knownChildren profile entry.1).length ≤ _
  rw [knownChildren, hget]
  exact List.length_filter_le _ _

/-- The fuel of a walk lasts, whatever the children of the profile are. -/
theorem stack_walk (profile : CpuProfileData) (subtree : OrderedMap ℚ ℚ) (root : ℚ) :
    (SubtreeWalk.loop profile (subtreeFuel profile) { subtree, stack := [root], onStack := [root] }).stack = [] := by
  refine stack_loop ?_
  have hsum := @Finset.sum_le_sum_of_subset _ _ _ _ _ (fun id => (knownChildren profile id).length) _ _
    (Finset.filter_subset (fun id => pendingOf profile { subtree, stack := [root], onStack := [root] } id ≠ [])
      (nodeById profile).keys.toFinset)
  have htotal := sum_knownChildren_le profile
  unfold potential subtreeFuel unsettled
  rw [List.length_singleton]
  omega

end Termination

end codespine.enrich.CpuProfile
