import Codespine.Commands.History.Facts
import Codespine.Enrich.RuntimeEnricher.Coverage

open codespine.schema codespine.store codespine.store.KuzuStore codespine.enrich codespine.enrich.RuntimeEnricher
open codespine.cluster codespine.query codespine.query.GraphQuery

namespace codespine.commands

/-- A load forgets what an enrichment has recorded. -/
theorem runtimeRecord_load (store : KuzuStore) (data : GraphData) :
    (LoadCommand.loadGraph store data).2.readGraphMeta RUNTIME_MANIFEST_KEY = none := by
  unfold readGraphMeta
  rw [LoadCommand.graphMeta_loadGraph]
  refine OrderedMap.get_eq_none_iff.mpr fun hmem => ?_
  obtain ⟨entry, hentry, hkey⟩ := List.mem_map.mp hmem
  exact of_decide_eq_true (List.mem_filter.mp hentry).2 hkey

/-- The manifest that an enrichment of a database records: it has got past the
join of the frames. -/
def Recorded (store : KuzuStore) (host : Host) (root profileText : String) (record : Metadata) : Prop :=
  ∃ profile result, CpuProfile.parse host profileText = .ok profile ∧
    RuntimeJoin.join host (targetsOf store) (CpuProfile.aggregate profile) root = .ok result ∧
      record = (manifest profile result).toRecord

theorem runtimeRecord_enrich (host : Host) (root profileText : String) (store : KuzuStore) :
    (Derivation.run store (.enrich host root profileText)).readGraphMeta RUNTIME_MANIFEST_KEY =
        store.readGraphMeta RUNTIME_MANIFEST_KEY ∨
      ∃ record, (Derivation.run store (.enrich host root profileText)).readGraphMeta RUNTIME_MANIFEST_KEY =
          some record ∧ Recorded store host root profileText record := by
  unfold Derivation.run readGraphMeta
  dsimp only
  rw [exec_enrich]
  cases hparse : CpuProfile.parse host profileText with
  | error e => exact Or.inl rfl
  | ok profile =>
    dsimp only
    cases hjoin : RuntimeJoin.join host (targetsOf store) (CpuProfile.aggregate profile) root with
    | error e => exact Or.inl rfl
    | ok result =>
      refine Or.inr ⟨(manifest profile result).toRecord, ?_, profile, result, hparse, hjoin, rfl⟩
      dsimp only
      cases RuntimeJoin.joinCallEdges host (targetsOf store) (CpuProfile.callEdges profile) root with
      | error e => rw [graphMeta_annotate, OrderedMap.get_set_self]
      | ok edgeResult => rw [graphMeta_rewire, graphMeta_annotate, OrderedMap.get_set_self]

/-- Neither clusterings nor renames touch that record. -/
theorem runtimeRecord_other {derivation : Derivation} (store : KuzuStore)
    (h : ∀ host root profileText, derivation ≠ .enrich host root profileText) :
    (derivation.run store).readGraphMeta RUNTIME_MANIFEST_KEY = store.readGraphMeta RUNTIME_MANIFEST_KEY := by
  have hne : RUNTIME_MANIFEST_KEY ≠ CLUSTERING_MANIFEST_KEY := by decide
  cases derivation with
  | enrich host root profileText => exact absurd rfl (h host root profileText)
  | cluster library weights options =>
    change (GraphClusterer.assign store _ _ _).graphMeta.get _ = _
    rw [GraphClusterer.graphMeta_assign, OrderedMap.get_set_ne hne]
    rfl
  | rename requested =>
    obtain hkept | hrenamed := runRename_cases requested store
    · rw [hkept]
    · unfold readGraphMeta
      rw [hrenamed, ClusterCommand.graphMeta_applyRename]
      split
      · exact OrderedMap.get_set_ne hne _
      · rfl

/-- Where in a history the manifest comes from: an enrichment with no load
after it. -/
def RecordedIn (history : List Command) (record : Metadata) : Prop :=
  ∃ earlier host root profileText later, history = earlier ++ .derive (.enrich host root profileText) :: later ∧
    (∀ command ∈ later, command.loads = false) ∧ Recorded (reached earlier) host root profileText record

theorem RecordedIn.append {history : List Command} {record : Metadata} (h : RecordedIn history record)
    {command : Command} (hcommand : command.loads = false) : RecordedIn (history ++ [command]) record := by
  obtain ⟨earlier, host, root, profileText, later, rfl, hlater, hrecorded⟩ := h
  refine ⟨earlier, host, root, profileText, later ++ [command], by simp, fun other hother => ?_, hrecorded⟩
  obtain hother | hother := List.mem_append.mp hother
  · exact hlater other hother
  · rw [List.mem_singleton.mp hother]
    exact hcommand

theorem runtimeRecord_reached {history : List Command} {record : Metadata}
    (h : (reached history).readGraphMeta RUNTIME_MANIFEST_KEY = some record) : RecordedIn history record := by
  induction history using List.reverseRecOn with
  | nil => cases h
  | append_singleton history command ih =>
    rw [reached_append] at h
    cases command with
    | load data =>
      rw [show (Command.run (reached history) (.load data)) = (LoadCommand.loadGraph (reached history) data).2 from rfl,
        runtimeRecord_load] at h
      cases h
    | derive derivation =>
      change (derivation.run (reached history)).readGraphMeta _ = _ at h
      by_cases henrich : ∃ host root profileText, derivation = .enrich host root profileText
      · obtain ⟨host, root, profileText, rfl⟩ := henrich
        obtain hsame | ⟨written, hwritten, hrecorded⟩ := runtimeRecord_enrich host root profileText (reached history)
        · exact (ih (hsame ▸ h)).append rfl
        · obtain rfl : written = record := Option.some.inj (hwritten.symm.trans h)
          exact ⟨history, host, root, profileText, [], rfl, by simp, hrecorded⟩
      · rw [runtimeRecord_other _ fun host root profileText heq => henrich ⟨host, root, profileText, heq⟩] at h
        exact (ih h).append rfl

/-- In every state that a history of commands reaches, the coverage a cost
report shows is that of an enrichment of the graph loaded last. It is a
fraction: of self time always, of samples when the profiles count none twice. -/
theorem coverage_reached (history : List Command) (metric : CostMetric) {share : ℚ}
    (hshare : coverageFor (readRuntimeManifest (reached history)) metric = some share)
    (hprofiles : metric = .samples → ∀ host root profileText profile,
      .derive (.enrich host root profileText) ∈ history → CpuProfile.parse host profileText = .ok profile →
        profile.WellFormed) :
    (0 ≤ share ∧ share ≤ 1) ∧ ∃ record, RecordedIn history record ∧
      coverageFor (RuntimeManifest.safeParse record) metric = some share := by
  unfold readRuntimeManifest at hshare
  cases hrecord : (reached history).readGraphMeta RUNTIME_MANIFEST_KEY with
  | none => rw [hrecord] at hshare; cases hshare
  | some record =>
    rw [hrecord, Option.bind_some] at hshare
    have hin := runtimeRecord_reached hrecord
    refine ⟨?_, record, hin, hshare⟩
    obtain ⟨earlier, host, root, profileText, later, rfl, _, profile, result, hparse, hjoin, rfl⟩ := hin
    obtain ⟨hmicros, hsamples⟩ := manifest_matched_le hjoin
    rw [safeParse_toRecord, coverageFor, Option.bind_some] at hshare
    cases metric with
    | selfTime => exact coverageFor_fraction hmicros.1 hmicros.2 hshare
    | samples =>
      have hwell := hprofiles rfl host root profileText profile (by simp) hparse
      exact coverageFor_fraction (hsamples hwell).1 (hsamples hwell).2 hshare

/-- A graph enriched, clustered and renamed. -/
def measured : List Command := [.load twoFunctions, .derive (.enrich profileHost "/app" callText),
  .derive (.cluster oneCommunity CLUSTER_EDGE_WEIGHTS DEFAULT_COMMUNITY_OPTIONS)]

theorem coverage_reached_measured :
    coverageFor (readRuntimeManifest (reached measured)) .selfTime = some 1 ∧ (0 ≤ (1 : ℚ) ∧ (1 : ℚ) ≤ 1) ∧
      ∃ record, RecordedIn measured record ∧ coverageFor (RuntimeManifest.safeParse record) .selfTime = some 1 := by
  have hshare : coverageFor (readRuntimeManifest (reached measured)) .selfTime = some 1 := by decide +kernel
  exact ⟨hshare, coverage_reached measured .selfTime hshare fun h => nomatch h⟩

end codespine.commands
