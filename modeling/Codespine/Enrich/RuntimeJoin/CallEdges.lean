import Codespine.Enrich.RuntimeJoin.Decodable
import Codespine.Enrich.RuntimeJoin.Runs
import Codespine.Extract.Syntax

open codespine.schema codespine.store codespine.extract

namespace codespine.enrich.RuntimeJoin

variable {host : Host} {nodes : List RuntimeTargetNode} {root : String}

/-- The two nodes that a call edge counts for, by their ids: none when an end
resolves to nothing, or both ends to one node. -/
def pairOf (host : Host) (nodes : List RuntimeTargetNode) (root : String) (edge : RuntimeCallEdge) :
    Option (String × String) :=
  (nodeOf host nodes root edge.caller).bind fun caller =>
    (nodeOf host nodes root edge.callee).bind fun callee =>
      if caller.id = callee.id then none else some (caller.id, callee.id)

/-- The key of a pair of ids. -/
def arrow (pair : String × String) : String := pair.1 ++ "->" ++ pair.2

/-- The key a call edge is aggregated under. -/
def keyOf (host : Host) (nodes : List RuntimeTargetNode) (root : String) (edge : RuntimeCallEdge) : Option String :=
  (pairOf host nodes root edge).map arrow

/-- The record that the first call edge of a key starts. -/
def firstRecord (host : Host) (nodes : List RuntimeTargetNode) (root : String) (edge : RuntimeCallEdge) : RuntimeEdge :=
  let pair := (pairOf host nodes root edge).getD ("", "")
  { source := pair.1, target := pair.2, samples := edge.samples }

def addSamples (existing : RuntimeEdge) (edge : RuntimeCallEdge) : RuntimeEdge :=
  { existing with samples := existing.samples + edge.samples }

/-- The variables of the loop over call edges when it is through with them. -/
def countCalls (host : Host) (nodes : List RuntimeTargetNode) (root : String) (callEdges : List RuntimeCallEdge) :
    CallJoinState :=
  callEdges.foldl (fun state edge => state.record edge.samples (nodeOf host nodes root edge.caller)
    (nodeOf host nodes root edge.callee)) {}

theorem pairOf_eq_some_iff {edge : RuntimeCallEdge} {pair : String × String} :
    pairOf host nodes root edge = some pair ↔
      ∃ caller callee, nodeOf host nodes root edge.caller = some caller ∧
        nodeOf host nodes root edge.callee = some callee ∧ caller.id ≠ callee.id ∧ pair = (caller.id, callee.id) := by
  unfold pairOf
  cases nodeOf host nodes root edge.caller with
  | none => simp
  | some caller =>
    cases nodeOf host nodes root edge.callee with
    | none => simp
    | some callee =>
      by_cases h : caller.id = callee.id
      · simp [h]
      · simp [h, eq_comm]

/-- A call edge of no pair is dropped. -/
theorem record_of_noPair {edge : RuntimeCallEdge} (h : pairOf host nodes root edge = none) (state : CallJoinState) :
    state.record edge.samples (nodeOf host nodes root edge.caller) (nodeOf host nodes root edge.callee) =
      { state with droppedEdges := state.droppedEdges + 1, droppedSamples := state.droppedSamples + edge.samples } := by
  unfold pairOf at h
  cases hcaller : nodeOf host nodes root edge.caller with
  | none => rfl
  | some caller =>
    cases hcallee : nodeOf host nodes root edge.callee with
    | none => rfl
    | some callee =>
      rw [hcaller, hcallee] at h
      have hself : caller.id = callee.id := by
        by_contra hne
        rw [Option.bind_some, Option.bind_some, if_neg hne] at h
        cases h
      rw [CallJoinState.record, if_pos hself]

/-- A call edge of a pair is added to its record. -/
theorem record_of_pair {edge : RuntimeCallEdge} {pair : String × String}
    (h : pairOf host nodes root edge = some pair) (state : CallJoinState) :
    state.record edge.samples (nodeOf host nodes root edge.caller) (nodeOf host nodes root edge.callee) =
      { state with
        aggregated := state.aggregated.accumulate (keyOf host nodes root) (firstRecord host nodes root) addSamples edge
        matchedEdges := state.matchedEdges + 1 } := by
  have hkey : keyOf host nodes root edge = some (arrow pair) := by rw [keyOf, h]; rfl
  have hfirst : firstRecord host nodes root edge =
      { source := pair.1, target := pair.2, samples := edge.samples } := by rw [firstRecord, h]; rfl
  obtain ⟨caller, callee, hcaller, hcallee, hne, rfl⟩ := pairOf_eq_some_iff.mp h
  rw [hcaller, hcallee, CallJoinState.record, if_neg hne, OrderedMap.accumulate, hkey, hfirst]
  refine congrArg (fun record => CallJoinState.mk (state.aggregated.set (arrow (caller.id, callee.id)) record)
    (state.matchedEdges + 1) state.droppedEdges state.droppedSamples) ?_
  unfold arrow
  cases state.aggregated.get (caller.id ++ "->" ++ callee.id) <;> rfl

theorem countCalls_concat (callEdges : List RuntimeCallEdge) (edge : RuntimeCallEdge) :
    countCalls host nodes root (callEdges ++ [edge]) =
      (countCalls host nodes root callEdges).record edge.samples (nodeOf host nodes root edge.caller)
        (nodeOf host nodes root edge.callee) := by
  rw [countCalls, List.foldl_append]
  rfl

/-- The records are those of an aggregation by key. -/
theorem aggregated_countCalls (callEdges : List RuntimeCallEdge) :
    (countCalls host nodes root callEdges).aggregated =
      callEdges.foldl (OrderedMap.accumulate (keyOf host nodes root) (firstRecord host nodes root) addSamples) ∅ := by
  induction callEdges using List.reverseRecOn with
  | nil => rfl
  | append_singleton callEdges edge ih =>
    rw [countCalls_concat, List.foldl_append, List.foldl_cons, List.foldl_nil, ← ih]
    cases hpair : pairOf host nodes root edge with
    | none =>
      rw [record_of_noPair hpair, OrderedMap.accumulate, keyOf, hpair]
      rfl
    | some pair => rw [record_of_pair hpair]

theorem foldl_addSamples (record : RuntimeEdge) (callEdges : List RuntimeCallEdge) :
    callEdges.foldl addSamples record =
      { record with samples := record.samples + (callEdges.map RuntimeCallEdge.samples).sum } := by
  induction callEdges generalizing record with
  | nil => simp
  | cons edge rest ih =>
    rw [List.foldl_cons, ih, List.map_cons, List.sum_cons, addSamples, add_assoc]

/-- The record of a key has the pair of the first call edge with this key, and
the samples of all of them. -/
theorem get_aggregated {callEdges : List RuntimeCallEdge} {key : String} {record : RuntimeEdge}
    (h : (countCalls host nodes root callEdges).aggregated.get key = some record) :
    key = arrow (record.source, record.target) ∧
      (∃ edge ∈ callEdges, pairOf host nodes root edge = some (record.source, record.target)) ∧
      record.samples = ((callEdges.filter fun edge => keyOf host nodes root edge = some key).map
        RuntimeCallEdge.samples).sum := by
  rw [aggregated_countCalls, OrderedMap.get_foldl_accumulate] at h
  cases hcalls : callEdges.filter fun edge => keyOf host nodes root edge = some key with
  | nil => rw [hcalls] at h; cases h
  | cons first rest =>
    rw [hcalls, List.head?_cons, List.tail_cons, Option.map_some, foldl_addSamples] at h
    obtain ⟨hfirst, hkey⟩ := List.mem_filter.mp (hcalls ▸ List.mem_cons_self)
    have hkey := of_decide_eq_true hkey
    unfold keyOf at hkey
    obtain ⟨pair, hpair, rfl⟩ := Option.map_eq_some_iff.mp hkey
    have hrecord : firstRecord host nodes root first =
        { source := pair.1, target := pair.2, samples := first.samples } := by rw [firstRecord, hpair]; rfl
    rw [hrecord] at h
    obtain rfl := Option.some.inj h
    exact ⟨rfl, ⟨first, hfirst, hpair⟩, rfl⟩

theorem get_aggregated_eq_none_iff {callEdges : List RuntimeCallEdge} {key : String} :
    (countCalls host nodes root callEdges).aggregated.get key = none ↔
      ∀ edge ∈ callEdges, keyOf host nodes root edge ≠ some key := by
  rw [aggregated_countCalls, OrderedMap.get_foldl_accumulate, Option.map_eq_none_iff, List.head?_eq_none_iff,
    List.filter_eq_nil_iff]
  simp only [decide_eq_true_eq, ne_eq]

/-- What the loop has counted is what it has been fed. -/
theorem countCalls_counts (callEdges : List RuntimeCallEdge) :
    (countCalls host nodes root callEdges).matchedEdges + (countCalls host nodes root callEdges).droppedEdges =
        callEdges.length ∧
      ((countCalls host nodes root callEdges).aggregated.values.map RuntimeEdge.samples).sum +
          (countCalls host nodes root callEdges).droppedSamples = (callEdges.map RuntimeCallEdge.samples).sum := by
  induction callEdges using List.reverseRecOn with
  | nil => exact ⟨rfl, by simp [countCalls]⟩
  | append_singleton callEdges edge ih =>
    obtain ⟨hedges, hsamples⟩ := ih
    rw [countCalls_concat, List.length_append, List.map_append, List.sum_append, ← hedges, ← hsamples]
    cases hpair : pairOf host nodes root edge with
    | none =>
      rw [record_of_noPair hpair]
      exact ⟨(add_assoc _ _ _).symm, by simp [add_assoc]⟩
    | some pair =>
      rw [record_of_pair hpair]
      refine ⟨add_right_comm _ _ _, ?_⟩
      have hkey : keyOf host nodes root edge ≠ none := by
        rw [keyOf, hpair]
        exact Option.some_ne_none _
      have hsum := @OrderedMap.sum_accumulate _ _ _ _ _ _ RuntimeEdge.samples RuntimeCallEdge.samples _
        (firstRecord host nodes root) addSamples _ hkey rfl (fun _ => rfl) (countCalls host nodes root callEdges).aggregated
      change ((OrderedMap.accumulate _ _ _ _ edge).values.map RuntimeEdge.samples).sum +
        (countCalls host nodes root callEdges).droppedSamples = _
      rw [hsum, add_right_comm]
      simp

/-- Where every url can be decoded, the loop ends. -/
theorem joinCallEdges_of_decodes {callEdges : List RuntimeCallEdge}
    (hdecodes : ∀ edge ∈ callEdges, (urlToAbsolute host edge.caller.url).isOk = true ∧
      (urlToAbsolute host edge.callee.url).isOk = true) :
    joinCallEdges host nodes callEdges root = .ok (countCalls host nodes root callEdges).result := by
  have hok : (joinCallEdges host nodes callEdges root).isOk = true :=
    (isOk_joinCallEdges nodes callEdges root).mpr fun edge hedge =>
      ⟨isOk_urlToAbsolute.mp (hdecodes edge hedge).1, isOk_urlToAbsolute.mp (hdecodes edge hedge).2⟩
  cases hjoin : joinCallEdges host nodes callEdges root with
  | error e => rw [hjoin] at hok; cases hok
  | ok result => rw [joinCallEdges_eq_ok hjoin, countCalls]

/-- A pair of ids can be told from its key, where the ids hold no arrow. -/
theorem arrow_inj {a b c d : String} (ha : includes a "->" = false) (hb : includes b "->" = false) :
    arrow (a, c) = arrow (b, d) ↔ a = b ∧ c = d := by
  constructor
  · exact eq_of_arrow_eq ha hb
  · rintro ⟨rfl, rfl⟩
    rfl

theorem source_of_pairOf {edge : RuntimeCallEdge} {source target : String}
    (h : pairOf host nodes root edge = some (source, target)) : ∃ node ∈ nodes, node.id = source := by
  obtain ⟨caller, callee, hcaller, _, _, hpair⟩ := pairOf_eq_some_iff.mp h
  exact ⟨caller, mem_of_nodeOf hcaller, (Prod.mk.inj hpair).1.symm⟩

theorem keyOf_eq_arrow_iff (harrow : ∀ node ∈ nodes, includes node.id "->" = false) {edge : RuntimeCallEdge}
    {a : RuntimeTargetNode} (ha : a ∈ nodes) {target : String} :
    keyOf host nodes root edge = some (arrow (a.id, target)) ↔ pairOf host nodes root edge = some (a.id, target) := by
  unfold keyOf
  constructor
  · intro h
    obtain ⟨⟨source, other⟩, hpair, hkey⟩ := Option.map_eq_some_iff.mp h
    obtain ⟨node, hnode, rfl⟩ := source_of_pairOf hpair
    obtain ⟨hsource, rfl⟩ := (arrow_inj (harrow node hnode) (harrow a ha)).mp hkey
    rw [hpair, hsource]
  · intro h
    rw [h]
    rfl

/-- The records of a pair of nodes: one with the samples of all its call
edges, if it has any. -/
theorem edges_of_pair (harrow : ∀ node ∈ nodes, includes node.id "->" = false) (callEdges : List RuntimeCallEdge)
    {a b : RuntimeTargetNode} (ha : a ∈ nodes) :
    ((countCalls host nodes root callEdges).result.edges.filter fun edge => edge.source = a.id ∧ edge.target = b.id) =
      if (callEdges.filter fun edge => pairOf host nodes root edge = some (a.id, b.id)) = [] then []
      else [⟨a.id, b.id, ((callEdges.filter fun edge => pairOf host nodes root edge = some (a.id, b.id)).map
        RuntimeCallEdge.samples).sum⟩] := by
  have hentries : ((countCalls host nodes root callEdges).result.edges.filter fun edge =>
      edge.source = a.id ∧ edge.target = b.id) =
      ((countCalls host nodes root callEdges).aggregated.get (arrow (a.id, b.id))).toList := by
    rw [← OrderedMap.filter_entries_key]
    change (List.map Prod.snd _).filter _ = _
    rw [List.filter_map]
    refine congrArg (List.map Prod.snd) (List.filter_congr fun entry hentry => ?_)
    obtain ⟨hkey, ⟨edge, _, hpair⟩, _⟩ := get_aggregated (OrderedMap.get_eq_some_iff.mpr hentry)
    obtain ⟨node, hnode, hsource⟩ := source_of_pairOf hpair
    rw [Function.comp_apply, decide_eq_decide, hkey]
    exact (arrow_inj (hsource ▸ harrow node hnode) (harrow a ha)).symm
  have hcalls : (callEdges.filter fun edge => keyOf host nodes root edge = some (arrow (a.id, b.id))) =
      callEdges.filter fun edge => pairOf host nodes root edge = some (a.id, b.id) :=
    List.filter_congr fun edge _ => decide_eq_decide.mpr (keyOf_eq_arrow_iff harrow ha)
  rw [hentries]
  cases hget : (countCalls host nodes root callEdges).aggregated.get (arrow (a.id, b.id)) with
  | none =>
    have hnone := get_aggregated_eq_none_iff.mp hget
    rw [if_pos]
    · rfl
    · refine List.filter_eq_nil_iff.mpr fun edge hedge h => hnone edge hedge ?_
      exact (keyOf_eq_arrow_iff harrow ha).mpr (of_decide_eq_true h)
  | some record =>
    obtain ⟨hkey, ⟨edge, hedge, hpair⟩, hsum⟩ := get_aggregated hget
    obtain ⟨node, hnode, hsource⟩ := source_of_pairOf hpair
    obtain ⟨hsource, htarget⟩ := (arrow_inj (harrow a ha) (hsource ▸ harrow node hnode)).mp hkey
    rw [if_neg]
    · rw [← hcalls, ← hsum, hsource, htarget]
      rfl
    · refine List.ne_nil_of_mem (List.mem_filter.mpr ⟨hedge, decide_eq_true ?_⟩)
      rw [hpair, hsource, htarget]

/-- Every record joins two different nodes of the list. -/
theorem ends_of_mem_edges {callEdges : List RuntimeCallEdge} {record : RuntimeEdge}
    (h : record ∈ (countCalls host nodes root callEdges).result.edges) :
    ∃ edge ∈ callEdges, ∃ caller callee, nodeOf host nodes root edge.caller = some caller ∧
      nodeOf host nodes root edge.callee = some callee ∧ caller.id ≠ callee.id ∧
      record.source = caller.id ∧ record.target = callee.id := by
  obtain ⟨entry, hentry, rfl⟩ := List.mem_map.mp h
  obtain ⟨_, ⟨edge, hedge, hpair⟩, _⟩ := get_aggregated (OrderedMap.get_eq_some_iff.mpr hentry)
  obtain ⟨caller, callee, hcaller, hcallee, hne, hends⟩ := pairOf_eq_some_iff.mp hpair
  obtain ⟨hsource, htarget⟩ := Prod.mk.inj hends
  exact ⟨edge, hedge, caller, callee, hcaller, hcallee, hne, hsource, htarget⟩

theorem pairOf_ids_iff (hdistinct : (nodes.map RuntimeTargetNode.id).Nodup) {edge : RuntimeCallEdge}
    {a b : RuntimeTargetNode} (ha : a ∈ nodes) (hb : b ∈ nodes) (hne : a ≠ b) :
    pairOf host nodes root edge = some (a.id, b.id) ↔
      nodeOf host nodes root edge.caller = some a ∧ nodeOf host nodes root edge.callee = some b := by
  have hinj := List.inj_on_of_nodup_map hdistinct
  rw [pairOf_eq_some_iff]
  constructor
  · rintro ⟨caller, callee, hcaller, hcallee, _, hpair⟩
    obtain ⟨hsource, htarget⟩ := Prod.mk.inj hpair
    obtain rfl := hinj ha (mem_of_nodeOf hcaller) hsource
    obtain rfl := hinj hb (mem_of_nodeOf hcallee) htarget
    exact ⟨hcaller, hcallee⟩
  · rintro ⟨hcaller, hcallee⟩
    exact ⟨a, b, hcaller, hcallee, fun heq => hne (hinj ha hb heq), rfl⟩

/-- The runtime call edges are the call edges by pairs of nodes: one record
for every pair, with the samples of all its calls, and nothing lost. -/
theorem joinCallEdges_exact {callEdges : List RuntimeCallEdge} (hdistinct : (nodes.map RuntimeTargetNode.id).Nodup)
    (harrow : ∀ node ∈ nodes, includes node.id "->" = false)
    (hdecodes : ∀ edge ∈ callEdges, (urlToAbsolute host edge.caller.url).isOk = true ∧
      (urlToAbsolute host edge.callee.url).isOk = true) :
    ∃ result, joinCallEdges host nodes callEdges root = .ok result ∧
      (∀ a ∈ nodes, ∀ b ∈ nodes, a ≠ b →
        let calls := callEdges.filter fun edge =>
          nodeOf host nodes root edge.caller = some a ∧ nodeOf host nodes root edge.callee = some b
        (result.edges.filter fun edge => edge.source = a.id ∧ edge.target = b.id) =
          if calls = [] then [] else [⟨a.id, b.id, (calls.map RuntimeCallEdge.samples).sum⟩]) ∧
      (∀ edge ∈ result.edges, ∃ a ∈ nodes, ∃ b ∈ nodes, a ≠ b ∧ edge.source = a.id ∧ edge.target = b.id) ∧
      (∀ edge ∈ result.edges, edge.source ≠ edge.target) ∧
      result.matchedEdges + result.droppedEdges = callEdges.length ∧
      (result.edges.map RuntimeEdge.samples).sum + result.droppedSamples =
        (callEdges.map RuntimeCallEdge.samples).sum := by
  obtain ⟨hcount, hsum⟩ := @countCalls_counts host nodes root callEdges
  refine ⟨_, joinCallEdges_of_decodes hdecodes, ?_, ?_, ?_, hcount, hsum⟩
  · intro a ha b hb hne
    have hcalls : (callEdges.filter fun edge => pairOf host nodes root edge = some (a.id, b.id)) =
        callEdges.filter fun edge =>
          nodeOf host nodes root edge.caller = some a ∧ nodeOf host nodes root edge.callee = some b :=
      List.filter_congr fun edge _ => decide_eq_decide.mpr (pairOf_ids_iff hdistinct ha hb hne)
    rw [edges_of_pair harrow callEdges ha, hcalls]
  · intro edge hedge
    obtain ⟨_, _, caller, callee, hcaller, hcallee, hne, hsource, htarget⟩ := ends_of_mem_edges hedge
    exact ⟨caller, mem_of_nodeOf hcaller, callee, mem_of_nodeOf hcallee,
      fun heq => hne (congrArg RuntimeTargetNode.id heq), hsource, htarget⟩
  · intro edge hedge
    obtain ⟨_, _, _, _, _, _, hne, hsource, htarget⟩ := ends_of_mem_edges hedge
    rwa [hsource, htarget]

/-- Two functions in two files. -/
def runAndLoad : List RuntimeTargetNode :=
  [⟨"Function:src/a.ts#run@1", .Function, "run", "src/a.ts", 1, 9⟩,
    ⟨"Function:src/b.ts#load@1", .Function, "load", "src/b.ts", 1, 5⟩]

/-- Two calls from `run` to `load`, one back, and one out of the project. -/
def callsOfRun : List RuntimeCallEdge :=
  [⟨⟨"run", "file:///app/src/a.ts", 1⟩, ⟨"load", "file:///app/src/b.ts", 1⟩, 4⟩,
    ⟨⟨"load", "file:///app/src/b.ts", 1⟩, ⟨"run", "file:///app/src/a.ts", 1⟩, 2⟩,
    ⟨⟨"run", "file:///app/src/a.ts", 1⟩, ⟨"", "file:///app/src/b.ts", 3⟩, 1⟩,
    ⟨⟨"run", "file:///app/src/a.ts", 1⟩, ⟨"readFile", "node:fs", 1⟩, 3⟩]

theorem joinCallEdges_exact_run : ∃ result, joinCallEdges (posixHost []) runAndLoad callsOfRun "/app" = .ok result ∧
    result.matchedEdges + result.droppedEdges = 4 ∧
    (result.edges.map RuntimeEdge.samples).sum + result.droppedSamples = 10 := by
  obtain ⟨result, hjoin, _, _, _, hcount, hsum⟩ := @joinCallEdges_exact (posixHost []) runAndLoad "/app" callsOfRun
    (by decide +kernel) (by decide +kernel) (by decide +kernel)
  exact ⟨result, hjoin, hcount, hsum.trans (by decide +kernel)⟩

end codespine.enrich.RuntimeJoin
