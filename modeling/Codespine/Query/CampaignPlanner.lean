import Codespine.Query.DeadExports

open codespine.schema codespine.store

namespace codespine.query

/-- How a campaign item can be taken. -/
inductive CampaignReadiness where
  | autoApplicable | needsWorkload | manual
deriving DecidableEq, Repr

/-- Which graph signal surfaced the candidate. -/
inductive CampaignCandidate where
  | deadExport | hotspot
deriving DecidableEq, Repr

/-- One ranked entry of a campaign worklist. -/
structure CampaignItem extends SymbolRef where
  candidate : CampaignCandidate
  readiness : CampaignReadiness
  score : ℚ
  metric : Option HotspotMetric
  blastRadius : ℕ

structure CampaignReport where
  enriched : Bool
  metric : HotspotMetric
  fellBack : Bool
  maxBlastRadius : ℕ
  items : List CampaignItem

structure CampaignOptions where
  limit : Option JsNumber := none
  maxBlastRadius : Option JsNumber := none
  metric : Option HotspotMetric := none

namespace CampaignPlanner

def DEFAULT_LIMIT : JsNumber := .finite 20

def MAX_LIMIT : ℕ := 1000

def DEFAULT_MAX_BLAST_RADIUS : JsNumber := .finite 25

def BLAST_RADIUS_DEPTH : JsNumber := .finite 10

/-- Safe removals first, then bounded hotspots, then the manual ones. -/
def READINESS_RANK : CampaignReadiness → ℚ
  | .autoApplicable => 0
  | .needsWorkload => 1
  | .manual => 2

def clamp (value : JsNumber) (min max : ℕ) : ℕ :=
  match value with
  | .nonFinite => min
  | .finite value => if ⌊value⌋ < min then min else if max < ⌊value⌋ then max else ⌊value⌋.toNat

/-- The dead exports, as the safest wins. -/
def safeRemovals (store : KuzuStore) : List CampaignItem :=
  (GraphQuery.deadExports store).map fun ref =>
    { ref with
      candidate := .deadExport
      readiness := .autoApplicable
      score := 0
      metric := none
      blastRadius := 0 }

/-- A hotspot stays workable up to `maxBlastRadius` and is manual above it. -/
def rankedHotspot (store : KuzuStore) (maxBlastRadius : ℕ) (hotspot : HotspotRef) : CampaignItem :=
  let blastRadius := (GraphQuery.blastRadius store hotspot.id BLAST_RADIUS_DEPTH).length
  { hotspot.toSymbolRef with
    candidate := .hotspot
    readiness := if blastRadius ≤ maxBlastRadius then .needsWorkload else .manual
    score := hotspot.score
    metric := some hotspot.metric
    blastRadius }

def rankedHotspots (store : KuzuStore) (report : HotspotReport) (maxBlastRadius : ℕ) : List CampaignItem :=
  report.hotspots.map (rankedHotspot store maxBlastRadius)

/-- By readiness, then by score, then by path and line. -/
def worklistOrder (localeCompare : Comparator String) : Comparator CampaignItem :=
  (((Comparator.ascending fun item => READINESS_RANK item.readiness).thenBy
    (Comparator.descending CampaignItem.score)).thenBy (localeCompare.on fun item => item.filePath)).thenBy
    (Comparator.ascending fun item => item.startLine)

/-- The number of items asked for. -/
def limitOf (options : CampaignOptions) : ℕ := clamp (options.limit.getD DEFAULT_LIMIT) 1 MAX_LIMIT

/-- The blast-radius ceiling asked for. -/
def ceilingOf (options : CampaignOptions) : ℕ :=
  clamp (options.maxBlastRadius.getD DEFAULT_MAX_BLAST_RADIUS) 0 MAX_LIMIT

/-- The hotspot ranking a plan is made from. -/
def hotspotReport (localeCompare : Comparator String) (store : KuzuStore) (options : CampaignOptions) : HotspotReport :=
  GraphQuery.hotspots localeCompare store { metric := options.metric, limit := some (.finite (limitOf options)) }

/-- Composes the graph's safety signals into one ranked worklist. -/
def plan (localeCompare : Comparator String) (store : KuzuStore) (options : CampaignOptions) : CampaignReport :=
  let limit := limitOf options
  let maxBlastRadius := ceilingOf options
  let removals := safeRemovals store
  let report := hotspotReport localeCompare store options
  let hotspots := rankedHotspots store report maxBlastRadius
  { enriched := report.enriched
    metric := report.metric
    fellBack := report.fellBack
    maxBlastRadius
    items := ((worklistOrder localeCompare).sort (removals ++ hotspots)).take limit }

theorem mem_plan_items {localeCompare : Comparator String} {store : KuzuStore} {options : CampaignOptions}
    {item : CampaignItem} (h : item ∈ (plan localeCompare store options).items) :
    item ∈ safeRemovals store ∨
      ∃ hotspot ∈ (hotspotReport localeCompare store options).hotspots,
        item = rankedHotspot store (ceilingOf options) hotspot := by
  have hmem := List.mem_append.mp (Comparator.mem_sort.mp (List.mem_of_mem_take h))
  refine hmem.imp_right fun hmem => ?_
  obtain ⟨hotspot, hhotspot, heq⟩ := List.mem_map.mp hmem
  exact ⟨hotspot, hhotspot, heq.symm⟩

theorem candidate_of_mem_safeRemovals {store : KuzuStore} {item : CampaignItem} (h : item ∈ safeRemovals store) :
    item.candidate = .deadExport := by
  obtain ⟨ref, _, rfl⟩ := List.mem_map.mp h
  rfl

end CampaignPlanner

end codespine.query
