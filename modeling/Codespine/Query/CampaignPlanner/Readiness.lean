import Codespine.Query.BlastRadius.Impact
import Codespine.Query.CampaignPlanner

open codespine.schema codespine.store

namespace codespine.query

namespace GraphQuery

/-- A hotspot is a stored node. -/
theorem mem_readNodes_of_hotspot {localeCompare : Comparator String} {store : KuzuStore} {options : HotspotOptions}
    {hotspot : HotspotRef} (h : hotspot ∈ (hotspots localeCompare store options).hotspots) :
    ∃ node ∈ store.readNodes, symbolOf node = hotspot.toSymbolRef := by
  obtain ⟨entry, hentry, rfl⟩ := List.mem_map.mp h
  have hranked := Comparator.mem_sort.mp (List.mem_of_mem_take hentry)
  obtain ⟨node, hnode, rfl⟩ := List.mem_map.mp (List.mem_filter.mp hranked).1
  refine ⟨node, ?_, rfl⟩
  split at hnode
  · exact (List.mem_filter.mp hnode).1
  · exact hnode

end GraphQuery

namespace CampaignPlanner

open GraphQuery

/-- A hotspot of a plan carries the size of its impact set, and is manual
exactly when that exceeds the ceiling, exactly when no node calls it only by
chains of more than ten calls and it is on no cycle of at most ten calls, or
when one node does and it is. The size is the score that ranking by blast
radius gives it. -/
theorem plan_blastRadius_iff (localeCompare : Comparator String) (store : KuzuStore) (options : CampaignOptions)
    {item : CampaignItem} (hitem : item ∈ (plan localeCompare store options).items)
    (hhotspot : item.candidate = .hotspot) :
    (blastRadiusSizes store.readNodes (readCallEdges store)).get item.id =
        some ((impactSet (readCallEdges store) item.id).ncard : ℚ) ∧
      (item.blastRadius = (impactSet (readCallEdges store) item.id).ncard ∧
          (item.readiness = .manual ↔
            (plan localeCompare store options).maxBlastRadius < (impactSet (readCallEdges store) item.id).ncard) ↔
        (¬ ClosesWithin (readCallEdges store) 10 item.id ∧
            (impactBeyond (readCallEdges store) 10 item.id).ncard = 0) ∨
          (ClosesWithin (readCallEdges store) 10 item.id ∧
            (impactBeyond (readCallEdges store) 10 item.id).ncard = 1)) := by
  obtain hremoval | ⟨hotspot, hmem, rfl⟩ := mem_plan_items hitem
  · rw [candidate_of_mem_safeRemovals hremoval] at hhotspot
    exact absurd hhotspot (by decide)
  · obtain ⟨node, hnode, hsymbol⟩ := mem_readNodes_of_hotspot hmem
    have hid : node.id = hotspot.id := congrArg SymbolRef.id hsymbol
    have hdepth : clampDepth BLAST_RADIUS_DEPTH = 10 := by decide +kernel
    have hradius : (rankedHotspot store (ceilingOf options) hotspot).blastRadius =
        (blastRadius store hotspot.id BLAST_RADIUS_DEPTH).length := rfl
    refine ⟨hid ▸ get_blastRadiusSizes _ hnode, ?_⟩
    have hiff := length_blastRadius_eq_iff store hotspot.id BLAST_RADIUS_DEPTH
    rw [hdepth] at hiff
    refine Iff.trans ⟨fun h => h.1, fun h => ⟨h, ?_⟩⟩ hiff
    change (if (blastRadius store hotspot.id BLAST_RADIUS_DEPTH).length ≤ ceilingOf options
      then CampaignReadiness.needsWorkload else .manual) = .manual ↔ ceilingOf options < _
    rw [hradius] at h
    rw [h]
    split
    · next hle => simpa using hle
    · next hgt => simpa using hgt

/-- A function with nothing recorded about it. -/
def plainFunction (id : String) : GraphNode where
  id
  kind := .Function
  name := id
  filePath := "src/main.ts"

def callOf (source target : String) : GraphEdge where
  id := source ++ "->" ++ target
  kind := .CALLS
  source
  target

/-- A function that calls itself and that nothing else calls. -/
def recursiveStore : KuzuStore := (KuzuStore.initSchema.load [plainFunction "walk"] [callOf "walk" "walk"]).1

/-- Twelve functions, each of which calls the one before it. -/
def chainStore : KuzuStore :=
  let ids := ["a", "b", "c", "d", "e", "f", "g", "h", "i", "j", "k", "l"]
  (KuzuStore.initSchema.load (ids.map plainFunction) ((ids.tail.zip ids).map fun pair => callOf pair.1 pair.2)).1

theorem plan_blastRadius_iff_recursive :
    ∃ item ∈ (plan .ofOrder recursiveStore {}).items,
      ¬ (item.blastRadius = (impactSet (readCallEdges recursiveStore) item.id).ncard ∧
        (item.readiness = .manual ↔
          (plan .ofOrder recursiveStore {}).maxBlastRadius < (impactSet (readCallEdges recursiveStore) item.id).ncard)) := by
  have hexists : ∃ item ∈ (plan .ofOrder recursiveStore {}).items, item.candidate = .hotspot ∧ item.id = "walk" := by
    decide +kernel
  obtain ⟨item, hitem, hhotspot, hid⟩ := hexists
  have hnone : (impactSet (readCallEdges recursiveStore) "walk").ncard = 0 := by
    rw [ncard_impactSet]
    decide +kernel
  have hbeyond : (impactBeyond (readCallEdges recursiveStore) 10 "walk").ncard = 0 :=
    Nat.le_zero.mp (hnone ▸ Set.ncard_le_ncard (Set.sep_subset _ _) (finite_impactSet _ _))
  have hcycle : ClosesWithin (readCallEdges recursiveStore) 10 "walk" := by
    rw [ClosesWithin, ← mem_within_inboundCalls]
    decide +kernel
  refine ⟨item, hitem, fun hclaim => ?_⟩
  have hiff := (plan_blastRadius_iff .ofOrder recursiveStore {} hitem hhotspot).2.mp hclaim
  rw [hid, hbeyond] at hiff
  simp [hcycle] at hiff

/-- The chain's first function is left to autonomous work although eleven
functions call it and the ceiling is ten; the recursive one is manual although
nothing else calls it. -/
theorem plan_blastRadius_not_impact :
    (¬ ∀ item ∈ (plan .ofOrder chainStore { maxBlastRadius := some (.finite 10) }).items, item.candidate = .hotspot →
      item.blastRadius = (impactSet (readCallEdges chainStore) item.id).ncard ∧
        (item.readiness = .manual ↔ 10 < (impactSet (readCallEdges chainStore) item.id).ncard)) ∧
    ¬ ∀ item ∈ (plan .ofOrder recursiveStore { maxBlastRadius := some (.finite 0) }).items, item.candidate = .hotspot →
      item.blastRadius = (impactSet (readCallEdges recursiveStore) item.id).ncard ∧
        (item.readiness = .manual ↔ 0 < (impactSet (readCallEdges recursiveStore) item.id).ncard) := by
  simp only [ncard_impactSet]
  decide +kernel

end CampaignPlanner

end codespine.query
