import Codespine.Commands.ClusterCommand.Interrupted
import Codespine.Commands.History.Interleaving
import Codespine.Report.ReportData

open codespine.schema codespine.store codespine.store.KuzuStore codespine.cluster codespine.cluster.CommunityNamer
open codespine.enrich.RuntimeEnricher

namespace codespine.cluster

def CommunitySummary.relabel (asked : ℚ → Option String) (community : CommunitySummary) : CommunitySummary :=
  { community with currentLabel := (asked community.index).getD community.currentLabel }

/-- The dump with the labels asked for in place of those it has. -/
def CommunitiesDump.relabel (asked : ℚ → Option String) (dump : CommunitiesDump) : CommunitiesDump :=
  { dump with communities := dump.communities.map (CommunitySummary.relabel asked) }

end codespine.cluster

namespace codespine.commands

namespace ClusterCommand

/-- `cluster communities`. -/
def runCommunities (host : Host) (store : KuzuStore) : CommunitiesDump :=
  summarize host.showNumber (store.readNodes.map toAssigned)

/-- The label requested for a community. -/
def requestedLabel (labels : OrderedMap ℕ String) (index : ℚ) : Option String :=
  (labels.entries.find? fun entry => (entry.1 : ℚ) = index).map Prod.snd

/-- The label that a command asks for. -/
def askedBy (derivation : Derivation) (index : ℚ) : Option String :=
  match derivation with
  | .rename requested => requestedLabel requested.labels index
  | _ => none

/-- An index that a command requests a label for is shown by its digits, which
JavaScript does below 10 ^ 21. -/
def ShowsRequested (host : Host) (derivation : Derivation) : Prop :=
  ∀ requested, derivation = .rename requested → ∀ n ∈ requested.labels.keys, host.showNumber n = toString n

/-- The label that the last request for a community is for. -/
def lastRequested (derivations : List Derivation) (index : ℚ) : Option String :=
  derivations.foldl (fun asked derivation => (askedBy derivation index).or asked) none

/-- A dump lists each community once, with all of its members and no others,
largest first, and agrees with the report on the sizes. -/
structure Lists (store : KuzuStore) (dump : CommunitiesDump) : Prop where
  communityCount : dump.communityCount = dump.communities.length
  once : (dump.communities.map CommunitySummary.index).Nodup
  members : ∀ community ∈ dump.communities, community.members.Perm
    ((store.readNodes.filter fun node => communityIn node.metadata = some community.index).map fun node =>
      { name := node.name, kind := node.kind, filePath := node.filePath })
  sizes : (dump.communities.map fun community => (community.index, community.size)).Perm
    (report.ReportData.communitySizes store.readNodes).entries
  sorted : dump.communities.Pairwise fun first second =>
    second.size < first.size ∨ first.size = second.size ∧ first.index < second.index

section Lists

theorem entries_group {store : KuzuStore} {entry : ℚ × List AssignedNode} (h : entry ∈ (group (assignedOf store)).entries) :
    entry.2 = (store.readNodes.filter fun node => communityIn node.metadata = some entry.1).map toAssigned ∧
      entry.2 ≠ [] := by
  have hget := OrderedMap.get_eq_some_iff.mpr h
  unfold group at hget
  rw [OrderedMap.get_group] at hget
  split at hget
  · cases hget
  · next hne =>
    have hbucket := Option.some.inj hget
    refine ⟨?_, hbucket ▸ hne⟩
    rw [← hbucket]
    unfold assignedOf
    rw [List.filter_map]
    rfl

theorem lists_runCommunities (host : Host) (store : KuzuStore) : Lists store (runCommunities host store) := by
  set groups := group (assignedOf store) with hgroups
  have hperm : (runCommunities host store).communities.Perm
      (groups.entries.map fun entry => summary host.showNumber entry.1 entry.2) := Comparator.sort_perm _ _
  have honce : ((runCommunities host store).communities.map CommunitySummary.index).Nodup := by
    rw [(hperm.map CommunitySummary.index).nodup_iff, List.map_map]
    exact groups.nodup_keys
  constructor
  case communityCount =>
    rw [hperm.length_eq, List.length_map]
    exact List.length_map _
  case once => exact honce
  case members =>
    intro community hcommunity
    obtain ⟨entry, hentry, rfl⟩ := List.mem_map.mp (hperm.mem_iff.mp hcommunity)
    have hbucket := (entries_group hentry).1
    refine ((memberOrder.sort_perm entry.2).map toMember).trans (List.Perm.of_eq ?_)
    rw [hbucket, List.map_map]
    rfl
  case sizes =>
    refine (hperm.map _).trans ?_
    rw [List.map_map]
    refine OrderedMap.entries_perm (m := groups.map fun _ bucket => bucket.length) fun index => ?_
    unfold report.ReportData.communitySizes
    rw [OrderedMap.get_map, OrderedMap.get_tally, hgroups, group, OrderedMap.get_group]
    have hcount : ((assignedOf store).filter fun node => node.community = some index).length =
        (store.readNodes.filterMap fun node => communityIn node.metadata).count index := by
      unfold assignedOf
      rw [List.filter_map, List.length_map, List.count_filterMap, ← List.countP_eq_length_filter]
      exact List.countP_congr fun node _ => decide_eq_true_iff.trans beq_iff_eq.symm
    have hmem : index ∈ (store.readNodes.filterMap fun node => communityIn node.metadata) ↔
        ((assignedOf store).filter fun node => node.community = some index) ≠ [] := by
      rw [← List.count_pos_iff, ← hcount, List.length_pos_iff]
    split
    · next hempty => rw [if_neg fun h => hmem.mp h hempty, Option.map_none]
    · next hne => rw [if_pos (hmem.mpr hne), Option.map_some, hcount]
  case sorted =>
    have hsorted : (runCommunities host store).communities.Pairwise dumpOrder.le := Comparator.sort_pairwise _ _
    refine (hsorted.and (List.pairwise_map.mp honce)).imp fun {first second} ⟨hle, hne⟩ => ?_
    have hsize : -(first.size : ℚ) - -(second.size : ℚ) ≤ 0 := Comparator.compare_le_of_thenBy hle
    have hsize : (second.size : ℚ) ≤ first.size := by linarith
    rcases lt_or_eq_of_le (Nat.cast_le.mp hsize) with hlt | heq
    · exact Or.inl hlt
    · right
      have htie : (Comparator.descending fun community : CommunitySummary => (community.size : ℚ)).compare first second = 0 := by
        change -(first.size : ℚ) - -(second.size : ℚ) = 0
        rw [heq, sub_self]
      unfold dumpOrder Comparator.le at hle
      rw [Comparator.thenBy_of_zero _ htie] at hle
      exact ⟨heq.symm, lt_of_le_of_ne (sub_nonpos.mp hle) hne⟩

end Lists

section Rename

variable {store : KuzuStore} {labels : OrderedMap ℕ String}

/-- What a rename makes of a node as the namer sees it. -/
def renamedMember (store : KuzuStore) (labels : OrderedMap ℕ String) (member : AssignedNode) : AssignedNode :=
  match labels.entries.find? fun entry => member.community = some (entry.1 : ℚ) with
  | some (index, label) => if currentLabel store index = label then member else { member with currentLabel := some label }
  | none => member

theorem assignedOf_applyRename (store : KuzuStore) (labels : OrderedMap ℕ String) :
    assignedOf (applyRename store labels) = (assignedOf store).map (renamedMember store labels) := by
  unfold assignedOf readNodes
  rw [entries_applyRename, List.map_map, List.map_map, List.map_map, List.map_map]
  refine List.map_congr_left fun entry _ => ?_
  simp only [Function.comp_apply, toAssigned, communityIn_relabelled]
  unfold relabelled renamedMember
  have hsame : requestedFor labels entry.2.metadata =
      labels.entries.find? fun other => communityIn entry.2.metadata = some (other.1 : ℚ) := rfl
  rw [hsame]
  dsimp only
  cases labels.entries.find? fun other => communityIn entry.2.metadata = some (other.1 : ℚ) with
  | none => rfl
  | some other =>
    dsimp only
    split
    · rfl
    · rw [labelIn_set]

theorem currentLabelAt_natCast {showNumber : ℚ → String} {index : ℕ} (hshow : showNumber index = toString index)
    (members : List AssignedNode) : currentLabelAt showNumber index members = currentLabelOf index members := by
  unfold currentLabelAt currentLabelOf
  rw [hshow]

/-- A community is called what was asked for it, and otherwise as before. -/
theorem currentLabelAt_renamed {showNumber : ℚ → String} (hshow : ∀ n ∈ labels.keys, showNumber n = toString n)
    (hne : ∀ label ∈ labels.values, label ≠ "") {index : ℚ} {bucket : List AssignedNode}
    (hbucket : (index, bucket) ∈ (group (assignedOf store)).entries) :
    currentLabelAt showNumber index (bucket.map (renamedMember store labels)) =
      (requestedLabel labels index).getD (currentLabelAt showNumber index bucket) := by
  obtain ⟨heq, hnonempty⟩ := entries_group hbucket
  dsimp only at heq hnonempty
  have hcommunity : ∀ member ∈ bucket, member.community = some index := by
    rw [heq]
    intro member hmember
    obtain ⟨node, hnode, rfl⟩ := List.mem_map.mp hmember
    exact of_decide_eq_true (List.mem_filter.mp hnode).2
  have hfind : ∀ member ∈ bucket, renamedMember store labels member =
      match labels.entries.find? fun entry => (entry.1 : ℚ) = index with
      | some (n, label) => if currentLabel store n = label then member else { member with currentLabel := some label }
      | none => member := by
    intro member hmember
    unfold renamedMember
    rw [hcommunity member hmember]
    have hsame : (fun entry : ℕ × String => decide (some index = some (entry.1 : ℚ))) =
        fun entry => decide ((entry.1 : ℚ) = index) :=
      funext fun entry => decide_eq_decide.mpr (Option.some_inj.trans eq_comm)
    rw [hsame]
  rw [List.map_congr_left hfind]
  unfold requestedLabel
  cases hfound : labels.entries.find? fun entry => (entry.1 : ℚ) = index with
  | none => rw [List.map_id', Option.map_none, Option.getD_none]
  | some entry =>
    obtain ⟨n, label⟩ := entry
    have hindex := List.find?_some hfound
    obtain rfl : (n : ℚ) = index := of_decide_eq_true hindex
    have hmembers : membersOf store n = bucket := by
      rw [heq]
      unfold membersOf
      rw [List.filter_map]
      rfl
    rw [Option.map_some, Option.getD_some]
    dsimp only
    split
    · next hcurrent =>
      have hrequested : n ∈ labels.keys := List.mem_map_of_mem (List.mem_of_find?_eq_some hfound)
      rw [List.map_id', currentLabelAt_natCast (hshow n hrequested), ← hmembers]
      exact hcurrent
    · have hlabel : label ≠ "" := hne label (List.mem_map_of_mem (List.mem_of_find?_eq_some hfound))
      obtain ⟨first, rest, rfl⟩ := List.exists_cons_of_ne_nil hnonempty
      have hkept : (some label).filter (fun label => decide (label ≠ "")) = some label := by
        simp [hlabel]
      unfold currentLabelAt
      rw [List.map_cons, List.findSome?_cons]
      dsimp only
      rw [hkept]

/-- The order of the members goes by what a dump shows of them. -/
theorem memberOrder_congr {a b a' b' : AssignedNode} (ha : toMember a = toMember a') (hb : toMember b = toMember b') :
    memberOrder.compare a b = memberOrder.compare a' b' := by
  obtain ⟨_, name, kind, filePath, _, _⟩ := a
  obtain ⟨_, name', kind', filePath', _, _⟩ := b
  obtain ⟨rfl, rfl, rfl⟩ := (CommunityMember.mk.injEq _ _ _ _ _ _).mp ha
  obtain ⟨rfl, rfl, rfl⟩ := (CommunityMember.mk.injEq _ _ _ _ _ _).mp hb
  rfl

/-- After a rename the dump shows what was asked for, and all else as before. -/
theorem runCommunities_applyRename {host : Host} (hshow : ∀ n ∈ labels.keys, host.showNumber n = toString n)
    (hne : ∀ label ∈ labels.values, label ≠ "") :
    runCommunities host (applyRename store labels) = (runCommunities host store).relabel (requestedLabel labels) := by
  have hcommunity : ∀ member, (renamedMember store labels member).community = member.community := by
    intro member
    unfold renamedMember
    split
    · split <;> rfl
    · rfl
  have hmember : ∀ member, toMember (renamedMember store labels member) = toMember member := by
    intro member
    unfold renamedMember
    split
    · split <;> rfl
    · rfl
  have hgroup : group (assignedOf (applyRename store labels)) =
      (group (assignedOf store)).map fun _ bucket => bucket.map (renamedMember store labels) := by
    rw [assignedOf_applyRename]
    exact OrderedMap.map_group hcommunity _
  have hsummary : ∀ entry ∈ (group (assignedOf store)).entries,
      summary host.showNumber entry.1 (entry.2.map (renamedMember store labels)) =
        (summary host.showNumber entry.1 entry.2).relabel (requestedLabel labels) := by
    intro entry hentry
    have hsort : memberOrder.sort (entry.2.map (renamedMember store labels)) =
        (memberOrder.sort entry.2).map (renamedMember store labels) :=
      Comparator.sort_map (fun a b => memberOrder_congr (hmember a) (hmember b)) _
    have hmembers : ((memberOrder.sort entry.2).map (renamedMember store labels)).map toMember =
        (memberOrder.sort entry.2).map toMember := by
      rw [List.map_map]
      exact List.map_congr_left fun member _ => hmember member
    unfold summary CommunitySummary.relabel
    rw [currentLabelAt_renamed hshow hne hentry, hsort, hmembers, List.length_map]
  change summarize host.showNumber (assignedOf (applyRename store labels)) = _
  unfold summarize
  dsimp only
  rw [hgroup]
  have hkeys : ((group (assignedOf store)).map fun _ bucket => bucket.map (renamedMember store labels)).keys =
      (group (assignedOf store)).keys := List.map_map
  have hentries : ((group (assignedOf store)).map fun _ bucket => bucket.map (renamedMember store labels)).entries =
      (group (assignedOf store)).entries.map fun entry => (entry.1, entry.2.map (renamedMember store labels)) := rfl
  rw [hkeys, hentries, List.map_map]
  refine congrArg (CommunitiesDump.mk _) ?_
  calc dumpOrder.sort ((group (assignedOf store)).entries.map fun entry =>
          summary host.showNumber entry.1 (entry.2.map (renamedMember store labels)))
      = dumpOrder.sort (((group (assignedOf store)).entries.map fun entry => summary host.showNumber entry.1 entry.2).map
          (CommunitySummary.relabel (requestedLabel labels))) := by
        rw [List.map_map]
        exact congrArg _ (List.map_congr_left hsummary)
    _ = _ := @Comparator.sort_map _ _ dumpOrder dumpOrder (CommunitySummary.relabel _) (fun _ _ => rfl) _

end Rename

section Run

theorem relabel_none (dump : CommunitiesDump) : dump.relabel (fun _ => none) = dump :=
  congrArg (CommunitiesDump.mk _) (List.map_id _)

theorem relabel_relabel (asked later : ℚ → Option String) (dump : CommunitiesDump) :
    (dump.relabel asked).relabel later = dump.relabel fun index => (later index).or (asked index) := by
  unfold CommunitiesDump.relabel
  rw [List.map_map]
  refine congrArg (CommunitiesDump.mk _) (List.map_congr_left fun community _ => ?_)
  unfold CommunitySummary.relabel
  dsimp only [Function.comp_apply]
  cases later community.index <;> rfl

variable {host : Host} {store : KuzuStore}

/-- Without communities there is nothing to list. -/
theorem communities_eq_nil (h : (assignedOf store).all fun node => node.community = none) :
    (runCommunities host store).communities = [] := by
  have hentries : (group (assignedOf store)).entries = [] := by
    refine List.eq_nil_iff_forall_not_mem.mpr fun entry hentry => ?_
    obtain ⟨heq, hne⟩ := entries_group hentry
    obtain ⟨member, hmember⟩ := List.exists_mem_of_ne_nil _ hne
    rw [heq] at hmember
    obtain ⟨node, hnode, rfl⟩ := List.mem_map.mp hmember
    obtain ⟨hnode, hcommunity⟩ := List.mem_filter.mp hnode
    have hnone := of_decide_eq_true (List.all_eq_true.mp h _ (List.mem_map_of_mem hnode))
    exact nomatch hnone.symm.trans (of_decide_eq_true hcommunity)
  change dumpOrder.sort ((group (assignedOf store)).entries.map _) = []
  rw [hentries]
  rfl

/-- What one command makes of the dump. -/
theorem runCommunities_derive {derivation : Derivation} (hshow : ShowsRequested host derivation)
    (h : derivation.detects = false) :
    runCommunities host (derivation.run store) = (runCommunities host store).relabel (askedBy derivation) := by
  cases derivation with
  | enrich host' root profileText =>
    obtain ⟨effect, heffect⟩ := exists_enrichment host' root profileText (targetsOf store)
    have hassigned := (heffect store rfl).assignedOf_eq
    exact (congrArg (summarize host.showNumber) hassigned).trans (relabel_none _).symm
  | cluster library weights options => cases h
  | rename requested =>
    rw [run_rename]
    split
    · next hnone =>
      have hempty := @communities_eq_nil host store hnone
      unfold CommunitiesDump.relabel
      rw [hempty, List.map_nil, ← hempty]
    · exact runCommunities_applyRename (hshow requested rfl) requested.ne_empty

end Run

/-- However a clustered graph is enriched and renamed, what is shown of its
communities lists each with its members, and changes in the labels only: each
community is called what the last request for it says, and without one what it
was called before. -/
theorem communities_run {host : Host} (store : KuzuStore) {derivations : List Derivation}
    (hshow : ∀ derivation ∈ derivations, ShowsRequested host derivation)
    (hkept : ∀ derivation ∈ derivations, derivation.detects = false) :
    Lists (derivations.foldl Derivation.run store) (runCommunities host (derivations.foldl Derivation.run store)) ∧
      runCommunities host (derivations.foldl Derivation.run store) =
        (runCommunities host store).relabel (lastRequested derivations) := by
  refine ⟨lists_runCommunities host _, ?_⟩
  induction derivations using List.reverseRecOn with
  | nil => exact (relabel_none _).symm
  | append_singleton derivations derivation ih =>
    have hlast : derivation ∈ derivations ++ [derivation] := List.mem_append_right _ List.mem_cons_self
    rw [List.foldl_append, List.foldl_cons, List.foldl_nil,
      runCommunities_derive (hshow derivation hlast) (hkept derivation hlast),
      ih (fun other hother => hshow other (List.mem_append_left _ hother))
        (fun other hother => hkept other (List.mem_append_left _ hother)), relabel_relabel]
    unfold lastRequested
    simp only [List.foldl_append, List.foldl_cons, List.foldl_nil]

/-- A rename, and an enrichment after it. -/
def namedThenMeasured : List Derivation := [.rename startupLabel, .enrich profileHost "/app" idleText]

/-- A graph with one community. -/
def oneCommunityStore : KuzuStore :=
  reached [.load twoFunctions, .derive (.enrich profileHost "/app" callText),
    .derive (.cluster oneCommunity CLUSTER_EDGE_WEIGHTS DEFAULT_COMMUNITY_OPTIONS)]

theorem communities_run_named : lastRequested namedThenMeasured 0 = some "startup" ∧
    runCommunities profileHost (namedThenMeasured.foldl Derivation.run oneCommunityStore) =
      (runCommunities profileHost oneCommunityStore).relabel (lastRequested namedThenMeasured) :=
  ⟨by decide +kernel, (communities_run oneCommunityStore (fun _ _ _ _ n _ => congrArg toString (Rat.num_natCast n)) (by decide)).2⟩

end ClusterCommand

end codespine.commands
