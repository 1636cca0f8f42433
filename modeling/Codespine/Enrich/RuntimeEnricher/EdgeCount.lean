import Codespine.Enrich.RuntimeEnricher.Idempotence

open codespine.schema codespine.store codespine.store.KuzuStore

namespace codespine.enrich

namespace RuntimeJoin

variable {host : Host} {nodes : List RuntimeTargetNode} {root : String}

/-- Every call edge with a key counts as matched. -/
theorem matchedEdges_countCalls (callEdges : List RuntimeCallEdge) :
    (countCalls host nodes root callEdges).matchedEdges = (callEdges.filterMap (keyOf host nodes root)).length := by
  induction callEdges using List.reverseRecOn with
  | nil => rfl
  | append_singleton callEdges edge ih =>
    rw [countCalls_concat, List.filterMap_append, List.length_append, ← ih]
    cases hpair : pairOf host nodes root edge with
    | none =>
      have hkey : keyOf host nodes root edge = none := by rw [keyOf, hpair]; rfl
      rw [record_of_noPair hpair, List.filterMap_cons_none hkey]
      rfl
    | some pair =>
      have hkey : keyOf host nodes root edge = some (arrow pair) := by rw [keyOf, hpair]; rfl
      rw [record_of_pair hpair, List.filterMap_cons_some hkey]
      rfl

/-- As many call edges match as there are records exactly when no two of them
have one key. -/
theorem matchedEdges_eq_length_iff (callEdges : List RuntimeCallEdge) :
    (countCalls host nodes root callEdges).matchedEdges = (countCalls host nodes root callEdges).result.edges.length ↔
      (callEdges.filterMap (keyOf host nodes root)).Nodup := by
  have hkeys : ∀ key, key ∈ (countCalls host nodes root callEdges).aggregated.keys ↔
      key ∈ callEdges.filterMap (keyOf host nodes root) := by
    intro key
    rw [← not_iff_not, ← OrderedMap.get_eq_none_iff, get_aggregated_eq_none_iff, List.mem_filterMap]
    simp only [not_exists, not_and, ne_eq]
  have hlength : (countCalls host nodes root callEdges).result.edges.length =
      (countCalls host nodes root callEdges).aggregated.keys.length := by
    change (List.map Prod.snd _).length = (List.map Prod.fst _).length
    rw [List.length_map, List.length_map]
  rw [matchedEdges_countCalls, hlength]
  exact OrderedMap.length_eq_length_keys_iff hkeys

end RuntimeJoin

namespace RuntimeEnricher

variable {host : Host} {root profileText : String}

/-- How many relationships of the runtime call graph the database has. -/
def runtimeEdgesOf (store : KuzuStore) : ℕ := (store.edges.filter fun key _ => key.kind = .CALLS_RUNTIME).keys.length

/-- The report counts the calls of the call tree, the database has a
relationship for each pair: the numbers agree when no two calls are of one. -/
theorem runtimeEdges_eq_iff {store after : KuzuStore} {report : EnrichReport} {profile : CpuProfileData}
    (hparse : CpuProfile.parse host profileText = .ok profile)
    (hrun : (enrich host profileText root).exec store = (.ok report, after)) :
    report.runtimeEdges = runtimeEdgesOf after ↔
      ((CpuProfile.callEdges profile).filterMap (RuntimeJoin.keyOf host (targetsOf store) root)).Nodup := by
  obtain ⟨ingested, hingest, rfl, rfl⟩ := exec_enrich_eq_ok_iff.mp hrun
  obtain ⟨hparsed, _, hedges⟩ := ingest_eq_ok_iff.mp hingest
  obtain rfl : profile = ingested.profile := Except.ok.inj (hparse.symm.trans hparsed)
  rw [runtimeEdgesOf, OrderedMap.keys, List.length_map, runtimeEdges_apply hedges, List.length_map,
    ← RuntimeJoin.matchedEdges_eq_length_iff]
  change ingested.edgeResult.matchedEdges = ingested.edgeResult.edges.length ↔ _
  rw [RuntimeJoin.joinCallEdges_eq_ok hedges]
  rfl

/-- A profile node of `src/main.ts`, as the text of a profile and decoded. -/
def callNodeText (id functionName lineNumber children : String) : String :=
  "\x7b\"id\":" ++ id ++ ",\"callFrame\":\x7b\"functionName\":\"" ++ functionName ++
  "\",\"url\":\"file:///app/src/main.ts\",\"lineNumber\":" ++ lineNumber ++
  ",\"columnNumber\":0\x7d,\"children\":[" ++ children ++ "]\x7d"

def callNodeJson (id : ℚ) (functionName : String) (lineNumber : ℚ) (children : List Json) : Json :=
  .obj [
    ("id", .num id),
    ("callFrame", .obj [("functionName", .str functionName), ("url", .str "file:///app/src/main.ts"),
      ("lineNumber", .num lineNumber), ("columnNumber", .num 0)]),
    ("children", .arr children)]

/-- `parse` calls `render`, which calls `parse`. -/
def calledBackText : String :=
  "\x7b\"nodes\":[" ++ callNodeText "1" "parse" "0" "2" ++ "," ++ callNodeText "2" "render" "10" "3" ++ "," ++
  callNodeText "3" "parse" "0" "" ++ "],\"samples\":[3],\"timeDeltas\":[1000]\x7d"

def calledBackJson : Json :=
  .obj [
    ("nodes", .arr [callNodeJson 1 "parse" 0 [.num 2], callNodeJson 2 "render" 10 [.num 3], callNodeJson 3 "parse" 0 []]),
    ("samples", .arr [.num 3]),
    ("timeDeltas", .arr [.num 1000])]

theorem runtimeEdges_eq_iff_calledBack : ∃ report after,
    (enrich (posixHost [(calledBackText, calledBackJson)]) calledBackText "/app").exec twoFunctionStore =
      (.ok report, after) ∧ report.runtimeEdges = runtimeEdgesOf after := by
  obtain ⟨report, hrun⟩ := exists_run_of_isOk (posixHost [(calledBackText, calledBackJson)]) calledBackText "/app"
    twoFunctionStore (by decide +kernel)
  have hkeys : (CpuProfile.parse (posixHost [(calledBackText, calledBackJson)]) calledBackText).map (fun profile =>
      (CpuProfile.callEdges profile).filterMap (RuntimeJoin.keyOf (posixHost [(calledBackText, calledBackJson)])
        (targetsOf twoFunctionStore) "/app")) =
      .ok ["src/main.ts#parse->src/main.ts#render", "src/main.ts#render->src/main.ts#parse"] := by decide +kernel
  cases hparse : CpuProfile.parse (posixHost [(calledBackText, calledBackJson)]) calledBackText with
  | error e => rw [hparse] at hkeys; cases hkeys
  | ok profile =>
    rw [hparse] at hkeys
    have hkeys := Except.ok.inj hkeys
    dsimp only at hkeys
    refine ⟨report, _, hrun, (runtimeEdges_eq_iff hparse hrun).mpr ?_⟩
    rw [hkeys]
    decide

/-- `parse` calls `render`, which calls `parse`, which calls `render`. -/
def nestedText : String :=
  "\x7b\"nodes\":[" ++ callNodeText "1" "parse" "0" "2" ++ "," ++ callNodeText "2" "render" "10" "3" ++ "," ++
  callNodeText "3" "parse" "0" "4" ++ "," ++ callNodeText "4" "render" "10" "" ++
  "],\"samples\":[4],\"timeDeltas\":[1000]\x7d"

def nestedJson : Json :=
  .obj [
    ("nodes", .arr [callNodeJson 1 "parse" 0 [.num 2], callNodeJson 2 "render" 10 [.num 3],
      callNodeJson 3 "parse" 0 [.num 4], callNodeJson 4 "render" 10 []]),
    ("samples", .arr [.num 4]),
    ("timeDeltas", .arr [.num 1000])]

/-- Three calls of the call tree, and two relationships. -/
theorem runtimeEdges_ne_nested : ¬ ∀ (host : Host) (profileText root : String) (store after : KuzuStore)
    (report : EnrichReport), (enrich host profileText root).exec store = (.ok report, after) →
      report.runtimeEdges = runtimeEdgesOf after := by
  intro hclaim
  obtain ⟨report, hrun⟩ := exists_run_of_isOk (posixHost [(nestedText, nestedJson)]) nestedText "/app" twoFunctionStore
    (by decide +kernel)
  have hcount := hclaim _ _ _ _ _ _ hrun
  have hthree : ((enrich (posixHost [(nestedText, nestedJson)]) nestedText "/app").exec twoFunctionStore).1.map
      EnrichReport.runtimeEdges = .ok 3 := by decide +kernel
  rw [hrun] at hthree
  rw [Except.ok.inj hthree] at hcount
  exact absurd hcount (by decide +kernel)

end RuntimeEnricher

end codespine.enrich
