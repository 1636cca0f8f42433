import Codespine.Enrich.RuntimeEnricher.Run
import Codespine.Enrich.RuntimeJoin.Decodable

open codespine.schema codespine.store codespine.store.KuzuStore

namespace codespine.enrich

variable {host : Host} {root : String}

namespace RuntimeEnricher

/-- The database holds already what the first two writes of a run put there. -/
structure Recorded (store : KuzuStore) (profile : CpuProfileData) (result : RuntimeJoinResult) : Prop where
  manifest_eq : store.graphMeta.get RUNTIME_MANIFEST_KEY = some (manifest profile result).toRecord
  runtime_eq : ∀ id row attribution, store.nodes.get id = some row →
    result.attributions.get id = some attribution →
    row.metadata.get RUNTIME_METADATA_KEY = some (toMetrics attribution).toJson

/-- Writing the metadata and the manifest goes unnoticed only when both are
there already. -/
theorem annotate_eq_self_iff {store : KuzuStore} {profile : CpuProfileData} {result : RuntimeJoinResult} :
    annotate store profile result = store ↔ Recorded store profile result := by
  have hentries := entries_annotate store profile result
  have hmeta := graphMeta_annotate store profile result
  constructor
  · intro heq
    rw [heq] at hentries hmeta
    constructor
    case manifest_eq =>
      rw [hmeta]
      exact OrderedMap.get_set_self _ _ _
    case runtime_eq =>
      intro id row attribution hrow hattribution
      have hmem : (id, row) ∈ store.nodes.entries := OrderedMap.get_eq_some_iff.mp hrow
      rw [hentries] at hmem
      obtain ⟨entry, hentry, hsame⟩ := List.mem_map.mp hmem
      obtain ⟨rfl, rfl⟩ := Prod.mk.inj hsame
      rw [withRuntime, hattribution]
      exact OrderedMap.get_set_self _ _ _
  · rintro ⟨hmanifest, hruntime⟩
    refine KuzuStore.ext (OrderedMap.ext ?_) (edges_annotate _ _ _) ?_
    · rw [hentries]
      refine (List.map_congr_left (g := fun entry => entry) fun entry hentry => ?_).trans (List.map_id' _)
      have hkept : withRuntime result.attributions entry.1 entry.2.metadata = entry.2.metadata := by
        unfold withRuntime
        split
        · next attribution hattribution =>
          exact OrderedMap.set_eq_self
            (hruntime entry.1 entry.2 attribution (OrderedMap.get_eq_some_iff.mpr hentry) hattribution)
        · rfl
      rw [hkept]
    · rw [hmeta]
      exact OrderedMap.set_eq_self hmanifest

/-- A run that throws leaves the database as it was exactly when it throws
before its first write, or writes only what is there already. The second join
meets frames that no sample landed in; when one of their urls does not decode
while those of all sampled frames do, metadata and manifest are written. -/
theorem enrich_atomic_iff (store : KuzuStore) (profileText : String) :
    (∀ e after, (enrich host profileText root).exec store = (.error e, after) → after = store) ↔
    ∀ profile, CpuProfile.parse host profileText = .ok profile →
      (∀ frame ∈ CpuProfile.aggregate profile, Decodable host frame.url) →
      (∀ edge ∈ CpuProfile.callEdges profile, Decodable host edge.caller.url ∧ Decodable host edge.callee.url) ∨
      ∀ result, RuntimeJoin.join host (targetsOf store) (CpuProfile.aggregate profile) root = .ok result →
        Recorded store profile result := by
  rw [exec_enrich]
  cases CpuProfile.parse host profileText with
  | error e => exact iff_of_true (fun _ _ h => (Prod.mk.inj h).2.symm) fun _ hparse => nomatch hparse
  | ok profile =>
    have hjoinable := @RuntimeJoin.isOk_join host (targetsOf store) (CpuProfile.aggregate profile) root
    have hedges := @RuntimeJoin.isOk_joinCallEdges host (targetsOf store) (CpuProfile.callEdges profile) root
    simp only [Except.ok.injEq, forall_eq', ← hjoinable, ← hedges]
    cases RuntimeJoin.join host (targetsOf store) (CpuProfile.aggregate profile) root with
    | error e => exact iff_of_true (fun _ _ h => (Prod.mk.inj h).2.symm) fun hok => nomatch hok
    | ok result =>
      cases RuntimeJoin.joinCallEdges host (targetsOf store) (CpuProfile.callEdges profile) root with
      | error e =>
        constructor
        · refine fun h _ => Or.inr fun result' hresult => ?_
          rw [← Except.ok.inj hresult]
          exact annotate_eq_self_iff.mp (h e _ rfl)
        · intro h _ after hafter
          rcases h rfl with hok | hrecorded
          · cases hok
          · rw [← (Prod.mk.inj hafter).2]
            exact annotate_eq_self_iff.mpr (hrecorded result rfl)
      | ok edgeResult => exact iff_of_true (fun _ _ h => nomatch (Prod.mk.inj h).1) fun _ => Or.inl rfl

/-- A graph of one function. -/
def mainNode : GraphNode where
  id := "src/main.ts#main"
  kind := .Function
  name := "main"
  filePath := "src/main.ts"
  range := some ⟨1, 0, 9, 0⟩
  exported := some true

def mainStore : KuzuStore := (KuzuStore.initSchema.load [mainNode] []).1

/-- A sampled frame that calls one whose url does not decode and that no
sample landed in. -/
def unsampledText : String :=
  "\x7b\"nodes\":[\x7b\"id\":1,\"callFrame\":\x7b\"functionName\":\"main\",\"url\":\"file:///app/src/main.ts\"," ++
  "\"lineNumber\":0,\"columnNumber\":0\x7d,\"children\":[2]\x7d,\x7b\"id\":2,\"callFrame\":\x7b" ++
  "\"functionName\":\"load\",\"url\":\"file:///app/%zz.js\",\"lineNumber\":0,\"columnNumber\":0\x7d\x7d]," ++
  "\"samples\":[1],\"timeDeltas\":[250]\x7d"

def unsampledJson : Json :=
  .obj [
    ("nodes", .arr [
      .obj [
        ("id", .num 1),
        ("callFrame", .obj [("functionName", .str "main"), ("url", .str "file:///app/src/main.ts"),
          ("lineNumber", .num 0), ("columnNumber", .num 0)]),
        ("children", .arr [.num 2])],
      .obj [
        ("id", .num 2),
        ("callFrame", .obj [("functionName", .str "load"), ("url", .str "file:///app/%zz.js"),
          ("lineNumber", .num 0), ("columnNumber", .num 0)])]]),
    ("samples", .arr [.num 1]),
    ("timeDeltas", .arr [.num 250])]

theorem enrich_unsampled_not_atomic : ¬ ∀ e after,
    (enrich (posixHost [(unsampledText, unsampledJson)]) unsampledText "/app").exec mainStore = (.error e, after) →
      after = mainStore := by
  intro hatomic
  have hthrows : ((enrich (posixHost [(unsampledText, unsampledJson)]) unsampledText "/app").exec
      mainStore).1.isOk = false := by decide +kernel
  have hwritten : (((enrich (posixHost [(unsampledText, unsampledJson)]) unsampledText "/app").exec
      mainStore).2.graphMeta.get RUNTIME_MANIFEST_KEY).isSome = true := by decide +kernel
  have habsent : (mainStore.graphMeta.get RUNTIME_MANIFEST_KEY).isSome = false := by decide +kernel
  cases hrun : (enrich (posixHost [(unsampledText, unsampledJson)]) unsampledText "/app").exec mainStore with
  | mk outcome after =>
    rw [hrun] at hthrows hwritten
    cases outcome with
    | ok report => cases hthrows
    | error e =>
      rw [hatomic e after hrun, habsent] at hwritten
      cases hwritten

end RuntimeEnricher

end codespine.enrich
