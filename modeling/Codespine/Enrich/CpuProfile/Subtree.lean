import Codespine.Enrich.CpuProfile.Walk
import Codespine.Lib.Branching

open codespine.schema digraph

namespace codespine.enrich.CpuProfile

variable {profile : CpuProfileData} {walk : SubtreeWalk} {id root : ℚ} {rest : List ℚ}

section Keys

/-- What every round of a walk keeps, the walk keeps. -/
theorem loop_induction {P : SubtreeWalk → Prop} (hstep : ∀ walk, walk.stack ≠ [] → P walk → P (walk.step profile))
    (fuel : ℕ) (h : P walk) : P (SubtreeWalk.loop profile fuel walk) := by
  induction fuel generalizing walk with
  | zero => exact h
  | succ fuel ih =>
    unfold SubtreeWalk.loop
    split
    · exact h
    · next hstack => exact ih (hstep walk hstack h)

/-- The walk that starts at a profile node. -/
def walkFrom (profile : CpuProfileData) (subtree : OrderedMap ℚ ℚ) (root : ℚ) : SubtreeWalk :=
  SubtreeWalk.loop profile (subtreeFuel profile) { subtree, stack := [root], onStack := [root] }

theorem onStack_subset_step (hstack : walk.stack ≠ []) (h : walk.onStack ⊆ walk.stack) :
    (walk.step profile).onStack ⊆ (walk.step profile).stack := by
  obtain ⟨id, rest, hstack⟩ := List.exists_cons_of_ne_nil hstack
  by_cases hpending : pendingOf profile walk id = []
  · rw [step_of_settled hstack hpending]
    intro other hother
    obtain ⟨hmem, hne⟩ := List.mem_filter.mp hother
    have hmem := h hmem
    rw [hstack] at hmem
    exact (List.mem_cons.mp hmem).resolve_left (of_decide_eq_true hne)
  · rw [step_of_pending hstack hpending]
    intro other hother
    rcases List.mem_append.mp hother with hother | hother
    · exact List.mem_append_left _ (List.mem_reverse.mpr hother)
    · exact List.mem_append_right _ (h hother)

/-- A walk sums up all it meets. -/
theorem mem_keys_of_met {subtree : OrderedMap ℚ ℚ} (h : id ∈ subtree.keys ∨ id = root) :
    id ∈ (walkFrom profile subtree root).subtree.keys := by
  have hmet : Met (walkFrom profile subtree root) id := by
    refine loop_induction (P := fun walk => Met walk id) (fun walk hstack hmet => hmet.step hstack) _ ?_
    rcases h with h | rfl
    · exact .inl h
    · exact .inr (List.mem_singleton_self _)
  have hsubset : (walkFrom profile subtree root).onStack ⊆ (walkFrom profile subtree root).stack :=
    loop_induction (P := fun walk => walk.onStack ⊆ walk.stack) (fun walk => onStack_subset_step) _ (List.Subset.refl _)
  rcases hmet with hmet | hmet
  · exact hmet
  · have hstack := hsubset hmet
    rw [walkFrom, stack_walk] at hstack
    cases hstack

/-- One round of the loop over profile nodes. -/
def sumFrom (profile : CpuProfileData) (subtree : OrderedMap ℚ ℚ) (root : ProfileNode) : OrderedMap ℚ ℚ :=
  if root.id ∈ subtree.keys then subtree else (walkFrom profile subtree root.id).subtree

theorem subtreeSamples_eq (profile : CpuProfileData) :
    subtreeSamples profile = profile.nodes.foldl (sumFrom profile) ∅ := rfl

theorem mem_keys_sumFrom {subtree : OrderedMap ℚ ℚ} {node : ProfileNode} (h : id ∈ subtree.keys ∨ id = node.id) :
    id ∈ (sumFrom profile subtree node).keys := by
  unfold sumFrom
  split
  · next hkey =>
    rcases h with h | rfl
    · exact h
    · exact hkey
  · exact mem_keys_of_met h

theorem mem_keys_foldl_sumFrom {nodes : List ProfileNode} {subtree : OrderedMap ℚ ℚ}
    (h : id ∈ subtree.keys ∨ id ∈ nodes.map ProfileNode.id) : id ∈ (nodes.foldl (sumFrom profile) subtree).keys := by
  induction nodes generalizing subtree with
  | nil => exact h.resolve_right List.not_mem_nil
  | cons node rest ih =>
    refine ih ?_
    rcases h with h | h
    · exact .inl (mem_keys_sumFrom (.inl h))
    · rcases List.mem_cons.mp h with rfl | h
      · exact .inl (mem_keys_sumFrom (.inr rfl))
      · exact .inr h

/-- Every profile node is given a value. -/
theorem mem_keys_subtreeSamples {node : ProfileNode} (hnode : node ∈ profile.nodes) :
    node.id ∈ (subtreeSamples profile).keys := by
  rw [subtreeSamples_eq]
  exact mem_keys_foldl_sumFrom (.inr (List.mem_map_of_mem hnode))

end Keys

section Forest

/-- One profile node is listed as a child of another. -/
def IsChild (profile : CpuProfileData) (parent child : ℚ) : Prop := child ∈ knownChildren profile parent

/-- The profile nodes form a forest: their ids are distinct, and each is listed
once as a child, by one parent, or not at all. -/
structure IsCallForest (profile : CpuProfileData) : Prop where
  distinct : (profile.nodes.map ProfileNode.id).Nodup
  once : ∀ id, (knownChildren profile id).Nodup
  forest : IsForest (IsChild profile)

/-- A profile that numbers every node after its parent, and lists it once as a
child, is a forest. -/
theorem isCallForest_of_increasing (hdistinct : (profile.nodes.map ProfileNode.id).Nodup)
    (honce : ((profile.nodes.map ProfileNode.id).flatMap (knownChildren profile)).Nodup)
    (hlt : ∀ node ∈ profile.nodes, ∀ child ∈ knownChildren profile node.id, node.id < child) :
    IsCallForest profile := by
  have hparent : ∀ {parent child}, IsChild profile parent child → ∃ node ∈ profile.nodes, node.id = parent := by
    intro parent child hchild
    unfold IsChild knownChildren at hchild
    cases hget : (nodeById profile).get parent with
    | none => rw [hget] at hchild; cases hchild
    | some node => exact ⟨node, mem_of_get_nodeById hget⟩
  have hmem : ∀ {parent child}, IsChild profile parent child → parent ∈ profile.nodes.map ProfileNode.id := by
    intro parent child hchild
    obtain ⟨node, hnode, rfl⟩ := hparent hchild
    exact List.mem_map_of_mem hnode
  have hle : ∀ {a b}, Reaches (IsChild profile) a b → a ≤ b := by
    intro a b hreach
    refine hreach.mem_of_closed (S := fun v => a ≤ v) (fun parent child hparent' hchild => ?_) le_rfl
    obtain ⟨node, hnode, rfl⟩ := hparent hchild
    exact hparent'.trans (hlt node hnode child hchild).le
  obtain ⟨hnodup, hdisjoint⟩ := List.nodup_flatMap.mp honce
  constructor
  case distinct => exact hdistinct
  case once =>
    intro id
    by_cases hid : id ∈ profile.nodes.map ProfileNode.id
    · exact hnodup id hid
    · have hnone : knownChildren profile id = [] :=
        List.eq_nil_iff_forall_not_mem.mpr fun child hchild => hid (hmem hchild)
      exact hnone ▸ List.nodup_nil
  case forest =>
    constructor
    case parent_unique =>
      intro a b child ha hb
      by_contra hne
      have hsymm : Std.Symm (Function.onFun List.Disjoint (knownChildren profile)) := ⟨fun _ _ h => h.symm⟩
      exact hdisjoint.forall (hmem ha) (hmem hb) hne ha hb
    case acyclic =>
      intro parent child hchild hback
      obtain ⟨node, hnode, rfl⟩ := hparent hchild
      exact (hlt node hnode child hchild).not_ge (hle hback)

/-- The samples of a profile node itself. -/
def ownSamples (profile : CpuProfileData) (id : ℚ) : ℚ := (samplesByNode profile).getD id 0

def nodeIds (profile : CpuProfileData) : Finset ℚ := (profile.nodes.map ProfileNode.id).toFinset

/-- The samples of a profile node and all its descendants. -/
noncomputable def totalBelow (profile : CpuProfileData) (id : ℚ) : ℚ :=
  ∑ other ∈ descendants (IsChild profile) (nodeIds profile) id, ownSamples profile other

theorem mem_keys_nodeById : id ∈ (nodeById profile).keys ↔ id ∈ nodeIds profile := by
  rw [nodeIds, List.mem_toFinset, nodeById, OrderedMap.ofList, OrderedMap.mem_keys_foldl_set, List.map_map]
  exact or_iff_right List.not_mem_nil

theorem mem_nodeIds_of_child {child : ℚ} (h : IsChild profile id child) : child ∈ nodeIds profile :=
  mem_keys_nodeById.mp (of_decide_eq_true (List.mem_filter.mp h).2)

theorem totalBelow_eq (hforest : IsCallForest profile) (hid : id ∈ nodeIds profile) :
    totalBelow profile id = ownSamples profile id + ((knownChildren profile id).map (totalBelow profile)).sum := by
  have hchildren : ∀ child, child ∈ (knownChildren profile id).toFinset ↔ IsChild profile id child :=
    fun child => List.mem_toFinset
  have hsum := hforest.forest.sum_descendants (ownSamples profile) hid hchildren
  rw [List.sum_toFinset _ (hforest.once id)] at hsum
  exact hsum

/-- The stack of a walk: every entry above the root is a child of one below
it. -/
inductive Rooted (profile : CpuProfileData) (root : ℚ) : List ℚ → Prop where
  | root : Rooted profile root [root]
  | child {parent id : ℚ} {stack : List ℚ} :
      Rooted profile root stack → parent ∈ stack → IsChild profile parent id → Rooted profile root (id :: stack)

namespace Rooted

variable {stack : List ℚ}

theorem reaches (h : Rooted profile root stack) (hid : id ∈ stack) : Reaches (IsChild profile) root id := by
  induction h generalizing id with
  | root => exact List.mem_singleton.mp hid ▸ Reaches.refl _
  | child _ hparent hchild ih =>
    rcases List.mem_cons.mp hid with rfl | hid
    · exact (ih hparent).tail hchild
    · exact ih hid

theorem parent_mem (h : Rooted profile root stack) (hid : id ∈ stack) :
    id = root ∨ ∃ parent ∈ stack, IsChild profile parent id := by
  induction h with
  | root => exact .inl (List.mem_singleton.mp hid)
  | child _ hparent hchild ih =>
    rcases List.mem_cons.mp hid with rfl | hid
    · exact .inr ⟨_, List.mem_cons_of_mem _ hparent, hchild⟩
    · rcases ih hid with heq | ⟨parent, hparent, hchild⟩
      · exact .inl heq
      · exact .inr ⟨parent, List.mem_cons_of_mem _ hparent, hchild⟩

theorem push (h : Rooted profile root stack) (hid : id ∈ stack) {children : List ℚ}
    (hchildren : ∀ child ∈ children, IsChild profile id child) : Rooted profile root (children ++ stack) := by
  induction children with
  | nil => exact h
  | cons child rest ih =>
    refine (ih fun other hother => hchildren other (List.mem_cons_of_mem _ hother)).child ?_
      (hchildren child List.mem_cons_self)
    exact List.mem_append_right _ hid

theorem tail (h : Rooted profile root (id :: rest)) : rest = [] ∨ Rooted profile root rest := by
  cases h with
  | root => exact .inl rfl
  | child hrest _ _ => exact .inr hrest

end Rooted

/-- What holds between the rounds of a walk through a forest. -/
structure Sound (profile : CpuProfileData) (root : ℚ) (walk : SubtreeWalk) : Prop where
  onStack_iff : ∀ id, id ∈ walk.onStack ↔ id ∈ walk.stack
  nodup : walk.stack.Nodup
  fresh : ∀ id ∈ walk.stack, id ∉ walk.subtree.keys
  known : ∀ id ∈ walk.stack, id ∈ nodeIds profile
  rooted : walk.stack = [] ∨ Rooted profile root walk.stack
  correct : ∀ id ∈ walk.subtree.keys, walk.subtree.get id = some (totalBelow profile id)

namespace Sound

/-- No child of the node on top is further down on the stack, so those that
are not pending are summed up. -/
theorem settled (hforest : IsCallForest profile) (h : Sound profile root walk) (hstack : walk.stack = id :: rest)
    (hpending : pendingOf profile walk id = []) {child : ℚ} (hchild : IsChild profile id child) :
    child ∈ walk.subtree.keys := by
  by_contra hkey
  have hnodup := h.nodup
  rw [hstack, List.nodup_cons] at hnodup
  have hmet : Met walk child := by
    by_contra hmet
    have hmem := mem_pendingOf.mpr ⟨hchild, hmet⟩
    rw [hpending] at hmem
    cases hmem
  have hmem := (h.onStack_iff child).mp (hmet.resolve_left hkey)
  have hrooted := h.rooted.resolve_left (List.ne_nil_of_mem hmem)
  have hreach := hrooted.reaches (hstack ▸ List.mem_cons_self : id ∈ walk.stack)
  rw [hstack] at hmem hrooted
  have hrest : child ∈ rest := by
    refine (List.mem_cons.mp hmem).resolve_left fun heq => ?_
    exact hforest.forest.acyclic hchild (heq ▸ Reaches.refl _)
  rcases (hrooted.tail.resolve_left (List.ne_nil_of_mem hrest)).parent_mem hrest with rfl | ⟨parent, hparent, hother⟩
  · exact hforest.forest.acyclic hchild hreach
  · exact hnodup.1 (hforest.forest.parent_unique hchild hother ▸ hparent)

/-- Putting the pending children on the stack. -/
theorem push (hforest : IsCallForest profile) (h : Sound profile root walk) (hstack : walk.stack = id :: rest)
    (hpending : pendingOf profile walk id ≠ []) : Sound profile root (walk.step profile) := by
  have hchild : ∀ child ∈ (pendingOf profile walk id).reverse, IsChild profile id child ∧ ¬ Met walk child :=
    fun child hmem => mem_pendingOf.mp (List.mem_reverse.mp hmem)
  have htop : id ∈ walk.stack := hstack ▸ List.mem_cons_self
  rw [step_of_pending hstack hpending]
  constructor
  case onStack_iff =>
    intro other
    rw [List.mem_append, List.mem_append, List.mem_reverse, h.onStack_iff]
  case nodup =>
    refine List.Nodup.append (List.nodup_reverse.mpr ((hforest.once id).filter _)) h.nodup fun other hnew hold => ?_
    exact (hchild other hnew).2 (.inr ((h.onStack_iff other).mpr hold))
  case fresh =>
    intro other hother
    rcases List.mem_append.mp hother with hnew | hold
    · exact fun hkey => (hchild other hnew).2 (.inl hkey)
    · exact h.fresh other hold
  case known =>
    intro other hother
    rcases List.mem_append.mp hother with hnew | hold
    · exact mem_nodeIds_of_child (hchild other hnew).1
    · exact h.known other hold
  case rooted =>
    exact .inr ((h.rooted.resolve_left (List.ne_nil_of_mem htop)).push htop fun child hmem => (hchild child hmem).1)
  case correct => exact h.correct

/-- Summing up the node on top. -/
theorem settle (hforest : IsCallForest profile) (h : Sound profile root walk) (hstack : walk.stack = id :: rest)
    (hpending : pendingOf profile walk id = []) : Sound profile root (walk.step profile) := by
  have htop : id ∈ walk.stack := hstack ▸ List.mem_cons_self
  have hnodup := h.nodup
  rw [hstack, List.nodup_cons] at hnodup
  have hrest : ∀ other ∈ rest, other ∈ walk.stack ∧ other ≠ id := fun other hother =>
    ⟨hstack ▸ List.mem_cons_of_mem _ hother, fun heq => hnodup.1 (heq ▸ hother)⟩
  have hsum : sumAt profile walk.subtree id = totalBelow profile id := by
    rw [sumAt, totalBelow_eq hforest (h.known id htop)]
    refine congrArg (ownSamples profile id + ·) (congrArg List.sum (List.map_congr_left fun child hchild => ?_))
    rw [OrderedMap.getD, h.correct child (h.settled hforest hstack hpending hchild)]
    rfl
  rw [step_of_settled hstack hpending]
  constructor
  case onStack_iff =>
    intro other
    rw [List.mem_filter, h.onStack_iff, hstack, List.mem_cons, decide_eq_true_eq]
    constructor
    · rintro ⟨hmem, hne⟩
      exact hmem.resolve_left hne
    · exact fun hmem => ⟨.inr hmem, (hrest other hmem).2⟩
  case nodup => exact hnodup.2
  case fresh =>
    intro other hother hkey
    rcases OrderedMap.mem_keys_set.mp hkey with hkey | heq
    · exact h.fresh other (hrest other hother).1 hkey
    · exact (hrest other hother).2 heq
  case known => exact fun other hother => h.known other (hrest other hother).1
  case rooted =>
    have hrooted := h.rooted.resolve_left (List.ne_nil_of_mem htop)
    rw [hstack] at hrooted
    exact hrooted.tail
  case correct =>
    intro other hother
    by_cases heq : other = id
    · rw [heq, OrderedMap.get_set_self, hsum]
    · rw [OrderedMap.get_set_ne heq]
      exact h.correct other ((OrderedMap.mem_keys_set.mp hother).resolve_right heq)

theorem step (hforest : IsCallForest profile) (hstack : walk.stack ≠ []) (h : Sound profile root walk) :
    Sound profile root (walk.step profile) := by
  obtain ⟨id, rest, hstack⟩ := List.exists_cons_of_ne_nil hstack
  by_cases hpending : pendingOf profile walk id = []
  · exact h.settle hforest hstack hpending
  · exact h.push hforest hstack hpending

end Sound

/-- A walk leaves right sums where it finds right sums. -/
theorem correct_sumFrom (hforest : IsCallForest profile) {subtree : OrderedMap ℚ ℚ} {node : ProfileNode}
    (hnode : node ∈ profile.nodes) (h : ∀ id ∈ subtree.keys, subtree.get id = some (totalBelow profile id)) :
    ∀ id ∈ (sumFrom profile subtree node).keys,
      (sumFrom profile subtree node).get id = some (totalBelow profile id) := by
  unfold sumFrom
  split
  · exact h
  · next hfresh =>
    have hinit : Sound profile node.id { subtree, stack := [node.id], onStack := [node.id] } := by
      constructor
      case onStack_iff => exact fun _ => Iff.rfl
      case nodup => exact List.nodup_singleton _
      case fresh => exact fun id hid => List.mem_singleton.mp hid ▸ hfresh
      case known =>
        intro id hid
        rw [List.mem_singleton.mp hid]
        exact List.mem_toFinset.mpr (List.mem_map_of_mem hnode)
      case rooted => exact .inr .root
      case correct => exact h
    exact (loop_induction (fun walk => Sound.step hforest) _ hinit).correct

/-- In a forest every profile node is given the samples of its subtree. -/
theorem get_subtreeSamples (hforest : IsCallForest profile) {node : ProfileNode} (hnode : node ∈ profile.nodes) :
    (subtreeSamples profile).get node.id = some (totalBelow profile node.id) := by
  have hcorrect : ∀ id ∈ (subtreeSamples profile).keys,
      (subtreeSamples profile).get id = some (totalBelow profile id) := by
    rw [subtreeSamples_eq]
    refine List.foldlRecOn (motive := fun subtree => ∀ id ∈ subtree.keys, subtree.get id = some (totalBelow profile id))
      profile.nodes (sumFrom profile) ?_ fun subtree h node hnode => ?_
    · exact fun id hid => absurd hid List.not_mem_nil
    · exact correct_sumFrom hforest hnode h
  exact hcorrect node.id (mem_keys_subtreeSamples hnode)

end Forest

section CallEdges

/-- The profile nodes that a profile node calls. -/
def childNodes (profile : CpuProfileData) (node : ProfileNode) : List ProfileNode :=
  (node.children.getD []).filterMap (nodeById profile).get

/-- The call edges that leave a profile node. -/
def callsFrom (profile : CpuProfileData) (node : ProfileNode) : List RuntimeCallEdge :=
  (node.children.getD []).filterMap fun childId =>
    ((nodeById profile).get childId).map fun child =>
      { caller := frameRef node.callFrame
        callee := frameRef child.callFrame
        samples := (subtreeSamples profile).getD childId 0 }

theorem callEdges_eq (profile : CpuProfileData) : callEdges profile = profile.nodes.flatMap (callsFrom profile) := rfl

theorem mem_of_mem_childNodes {node child : ProfileNode} (h : child ∈ childNodes profile node) :
    child ∈ profile.nodes := by
  obtain ⟨childId, _, hget⟩ := List.mem_filterMap.mp h
  exact (mem_of_get_nodeById hget).1

/-- One call edge for each child, with the samples of its subtree. -/
theorem callsFrom_eq (hforest : IsCallForest profile) (node : ProfileNode) :
    callsFrom profile node = (childNodes profile node).map fun child =>
      { caller := frameRef node.callFrame
        callee := frameRef child.callFrame
        samples := totalBelow profile child.id } := by
  rw [callsFrom, childNodes, List.map_filterMap]
  refine List.filterMap_congr fun childId _ => ?_
  cases hget : (nodeById profile).get childId with
  | none => rfl
  | some child =>
    obtain ⟨hchild, rfl⟩ := mem_of_get_nodeById hget
    rw [Option.map_some, Option.map_some, OrderedMap.getD, get_subtreeSamples hforest hchild]
    rfl

theorem get_nodeById (hdistinct : (profile.nodes.map ProfileNode.id).Nodup) {node : ProfileNode}
    (hnode : node ∈ profile.nodes) : (nodeById profile).get node.id = some node := by
  refine OrderedMap.get_ofList_of_mem ?_ (List.mem_map_of_mem hnode)
  rw [List.map_map]
  exact hdistinct

theorem ids_childNodes (hdistinct : (profile.nodes.map ProfileNode.id).Nodup) {node : ProfileNode}
    (hnode : node ∈ profile.nodes) : (childNodes profile node).map ProfileNode.id = knownChildren profile node.id := by
  rw [childNodes, knownChildren, get_nodeById hdistinct hnode, Option.bind_some]
  induction node.children.getD [] with
  | nil => rfl
  | cons childId rest ih =>
    cases hget : (nodeById profile).get childId with
    | none =>
      have hkey := OrderedMap.get_eq_none_iff.mp hget
      rw [List.filterMap_cons_none hget, ih, List.filter_cons_of_neg (by simpa using hkey)]
    | some child =>
      have hkey := OrderedMap.mem_keys_of_get hget
      rw [List.filterMap_cons_some hget, List.filter_cons_of_pos (by simpa using hkey), List.map_cons, ih,
        (mem_of_get_nodeById hget).2]

/-- What flows into a profile node ends in it or flows on. -/
theorem own_add_callsFrom (hforest : IsCallForest profile) {node : ProfileNode} (hnode : node ∈ profile.nodes) :
    ownSamples profile node.id + ((callsFrom profile node).map RuntimeCallEdge.samples).sum =
      totalBelow profile node.id := by
  have hid : node.id ∈ nodeIds profile := List.mem_toFinset.mpr (List.mem_map_of_mem hnode)
  rw [totalBelow_eq hforest hid, callsFrom_eq hforest, ← ids_childNodes hforest.distinct hnode, List.map_map,
    List.map_map]
  rfl

end CallEdges

/-- Every walk ends and every profile node is given a value. In a forest it is
the node's samples and those of all its descendants, and a call edge carries
what the called node keeps and hands on. -/
theorem subtreeSamples_correct (profile : CpuProfileData) :
    (∀ subtree root, (SubtreeWalk.loop profile (subtreeFuel profile)
      { subtree, stack := [root], onStack := [root] }).stack = []) ∧
    (∀ node ∈ profile.nodes, node.id ∈ (subtreeSamples profile).keys) ∧
    (IsCallForest profile →
      (∀ node ∈ profile.nodes, (subtreeSamples profile).get node.id =
        some (∑ id ∈ descendants (IsChild profile) (nodeIds profile) node.id, ownSamples profile id)) ∧
      callEdges profile = profile.nodes.flatMap (callsFrom profile) ∧
      ∀ node ∈ profile.nodes, callsFrom profile node = (childNodes profile node).map fun child =>
        { caller := frameRef node.callFrame
          callee := frameRef child.callFrame
          samples := ownSamples profile child.id + ((callsFrom profile child).map RuntimeCallEdge.samples).sum }) := by
  refine ⟨stack_walk profile, fun node => mem_keys_subtreeSamples, fun hforest => ⟨?_, rfl, ?_⟩⟩
  · exact fun node hnode => get_subtreeSamples hforest hnode
  · intro node hnode
    rw [callsFrom_eq hforest]
    refine List.map_congr_left fun child hchild => ?_
    rw [own_add_callsFrom hforest (mem_of_mem_childNodes hchild)]

/-- Two functions that call each other, with one tick in the innermost call. -/
def pingPong : CpuProfileData where
  nodes := [
    { id := 1, callFrame := ⟨"run", "file:///app/src/a.ts", 0, 0⟩, children := some [2] },
    { id := 2, callFrame := ⟨"load", "file:///app/src/b.ts", 0, 0⟩, children := some [3] },
    { id := 3, callFrame := ⟨"run", "file:///app/src/a.ts", 0, 0⟩, children := some [4] },
    { id := 4, callFrame := ⟨"load", "file:///app/src/b.ts", 0, 0⟩ }]
  samples := some [4]

theorem isCallForest_pingPong : IsCallForest pingPong :=
  isCallForest_of_increasing (by decide +kernel) (by decide +kernel) (by decide +kernel)

theorem subtreeSamples_correct_pingPong : (subtreeSamples pingPong).get 3 =
    some (∑ id ∈ descendants (IsChild pingPong) (nodeIds pingPong) 3, ownSamples pingPong id) :=
  ((subtreeSamples_correct pingPong).2.2 isCallForest_pingPong).1
    { id := 3, callFrame := ⟨"run", "file:///app/src/a.ts", 0, 0⟩, children := some [4] }
    (List.mem_cons_of_mem _ (List.mem_cons_of_mem _ List.mem_cons_self))

end codespine.enrich.CpuProfile
