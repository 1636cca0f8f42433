import Codespine.Query.CampaignPlanner.Worklist

open codespine.schema codespine.store

namespace codespine.query.CampaignPlanner

open GraphQuery

/-- A list is cut to `k`, its elements with `p` are put before those without,
`r` is put before both and the whole is cut to `k`. The first cut is without
effect when there is no element with `p` behind it, or when there are enough
elements without it. -/
theorem take_partition_eq_iff {α : Type} (p : α → Bool) (r l : List α) (k : ℕ) :
    (r ++ ((l.take k).filter p ++ (l.take k).filter fun a => !p a)).take k =
        (r ++ (l.filter p ++ l.filter fun a => !p a)).take k ↔
      k ≤ r.length + (l.take k).countP p ∨ ∀ a ∈ l.drop k, p a = false := by
  have hsplit : ∀ q : α → Bool, l.filter q = (l.take k).filter q ++ (l.drop k).filter q := by
    intro q
    rw [← List.filter_append, List.take_append_drop]
  have hlength : ((l.take k).filter p).length + ((l.take k).filter fun a => !p a).length = (l.take k).length :=
    (List.length_eq_length_filter_add p).symm
  rw [List.countP_eq_length_filter, hsplit p, hsplit fun a => !p a]
  generalize (l.take k).filter p = w at hlength ⊢
  generalize hm : ((l.take k).filter fun a => !p a) = m at hlength ⊢
  obtain hle | hlt := le_or_gt k (r.length + w.length)
  · refine iff_of_true ?_ (Or.inl hle)
    have hcut : ∀ rest, (r ++ (w ++ rest)).take k = (r ++ w).take k := by
      intro rest
      rw [← List.append_assoc, List.take_append_of_le_length (by simpa using hle)]
    rw [hcut, List.append_assoc, hcut]
  · cases hnone : (l.drop k).filter p with
    | nil =>
      refine iff_of_true ?_ (Or.inr fun a ha => ?_)
      · rw [List.append_nil]
        obtain hshort | hlong := le_or_gt l.length k
        · rw [List.drop_of_length_le hshort, List.filter_nil, List.append_nil]
        · rw [List.length_take, min_eq_left hlong.le] at hlength
          have hcut : ∀ rest, (r ++ (w ++ (m ++ rest))).take k = (r ++ (w ++ m)).take k := by
            intro rest
            rw [← List.append_assoc, ← List.append_assoc, ← List.append_assoc, List.append_assoc r w m,
              List.take_append_of_le_length]
            simp only [List.length_append]
            omega
          exact (hcut _).symm
      · exact Bool.eq_false_iff.mpr (List.filter_eq_nil_iff.mp hnone a ha)
    | cons x rest =>
      obtain ⟨hx, hpx⟩ := List.mem_filter.mp (hnone ▸ List.mem_cons_self : x ∈ (l.drop k).filter p)
      refine iff_of_false (fun heq => ?_) ?_
      · -- behind `r` and `w` one list goes on without `p`, the other with it
        have hlong : k < l.length := by
          by_contra hshort
          rw [List.drop_of_length_le (not_lt.mp hshort)] at hx
          exact List.not_mem_nil hx
        rw [List.length_take, min_eq_left hlong.le] at hlength
        cases m with
        | nil => simp at hlength; omega
        | cons y m' =>
          have hget := congrArg (fun list : List α => list[r.length + w.length]?) heq
          simp only [List.getElem?_take_of_lt hlt, ← List.append_assoc] at hget
          have hpy := (List.mem_filter.mp (hm ▸ List.mem_cons_self : y ∈ (l.take k).filter fun a => !p a)).2
          simp at hget
          rw [hget, hpx] at hpy
          exact absurd hpy (by decide)
      · rintro (hle | hall)
        · omega
        · rw [hall x hx] at hpx
          exact absurd hpx (by decide)

/-- The options with another limit. -/
def withLimit (options : CampaignOptions) (limit : ℕ) : CampaignOptions :=
  { options with limit := some (.finite limit) }

theorem limitOf_withLimit (options : CampaignOptions) {limit : ℕ} (hpos : 1 ≤ limit) (hmax : limit ≤ MAX_LIMIT) :
    limitOf (withLimit options limit) = limit := by
  unfold MAX_LIMIT at hmax
  simp only [limitOf, withLimit, Option.getD_some, clamp, Int.floor_natCast, MAX_LIMIT, Nat.cast_one, Int.toNat_natCast]
  rw [if_neg (by omega), if_neg (by omega)]

theorem clampLimit_of_le {limit : ℕ} (hpos : 1 ≤ limit) (hmax : limit ≤ MAX_LIMIT) :
    clampLimit (some (.finite limit)) = limit := by
  unfold MAX_LIMIT at hmax
  simp only [clampLimit, Int.floor_natCast, Int.toNat_natCast]
  rw [if_neg (by omega), if_neg (by omega)]

section Truncation

variable (localeCompare : Comparator String) (store : KuzuStore) (options : CampaignOptions)

/-- The hotspots by leverage, as far as any plan reads them. -/
def leverageRanking : List HotspotRef :=
  (hotspotReport localeCompare store (withLimit options MAX_LIMIT)).hotspots

/-- A hotspot within the blast-radius ceiling. -/
def IsWorkable (hotspot : HotspotRef) : Bool :=
  (blastRadius store hotspot.id BLAST_RADIUS_DEPTH).length ≤ ceilingOf options

theorem hotspotReport_withLimit {limit : ℕ} (hpos : 1 ≤ limit) (hmax : limit ≤ MAX_LIMIT) :
    (hotspotReport localeCompare store (withLimit options limit)).hotspots =
      (leverageRanking localeCompare store options).take limit := by
  simp only [leverageRanking, hotspotReport, hotspots, limitOf_withLimit options hpos hmax,
    limitOf_withLimit options (by decide : 1 ≤ MAX_LIMIT) le_rfl, clampLimit_of_le hpos hmax,
    clampLimit_of_le (by decide : 1 ≤ MAX_LIMIT) le_rfl, ← List.map_take, List.take_take, min_eq_left hmax]
  rfl

/-- The manual hotspots are sorted as they are ranked. -/
theorem sortedManual_eq : sortedManual localeCompare store options =
    (rankedHotspots store (hotspotReport localeCompare store options) (ceilingOf options)).filter fun item =>
      item.readiness ≠ .needsWorkload := by
  refine Comparator.sort_eq_self (((pairwise_rankedHotspots localeCompare store options).filter _).imp_of_mem ?_)
  have hmanual : ∀ item ∈ (rankedHotspots store (hotspotReport localeCompare store options)
      (ceilingOf options)).filter (fun item => item.readiness ≠ .needsWorkload), item.readiness = .manual := by
    intro item hitem
    obtain ⟨hmem, hnot⟩ := List.mem_filter.mp hitem
    obtain ⟨hotspot, _, rfl⟩ := List.mem_map.mp hmem
    have hnot := of_decide_eq_true hnot
    rw [readiness_rankedHotspot] at hnot ⊢
    split
    · next hle => exact absurd (if_pos hle) hnot
    · rfl
  intro a b ha hb hle
  change (worklistOrder localeCompare).compare a b ≤ 0
  rw [worklistOrder_of_rank_eq localeCompare ((hmanual a ha).trans (hmanual b hb).symm)]
  exact hle

/-- The ranked hotspots as items, up to a limit. -/
def rankedUpTo (limit : ℕ) : List CampaignItem :=
  ((leverageRanking localeCompare store options).take limit).map (rankedHotspot store (ceilingOf options))

theorem plan_items_withLimit {limit : ℕ} (hpos : 1 ≤ limit) (hmax : limit ≤ MAX_LIMIT) :
    (plan localeCompare store (withLimit options limit)).items =
      (sortedRemovals localeCompare store ++
        ((rankedUpTo localeCompare store options limit).filter (fun item => item.readiness = .needsWorkload) ++
          (rankedUpTo localeCompare store options limit).filter fun item =>
            !decide (item.readiness = .needsWorkload))).take limit := by
  have hitems : rankedHotspots store (hotspotReport localeCompare store (withLimit options limit))
      (ceilingOf (withLimit options limit)) = rankedUpTo localeCompare store options limit := by
    rw [rankedHotspots, hotspotReport_withLimit localeCompare store options hpos hmax]
    rfl
  rw [plan_items_eq, limitOf_withLimit options hpos hmax, sortedManual_eq, ← filter_rankedHotspots, hitems]
  simp only [ne_eq, decide_not]

/-- A shorter plan is the beginning of a longer one exactly when removals and
workable hotspots within the shorter ranking fill it, or when no hotspot that
only the longer ranking reaches is workable. -/
theorem plan_prefix_iff {limit limit' : ℕ} (hpos : 1 ≤ limit) (hle : limit ≤ limit') (hmax : limit' ≤ MAX_LIMIT) :
    (plan localeCompare store (withLimit options limit)).items =
        (plan localeCompare store (withLimit options limit')).items.take limit ↔
      limit ≤ (deadExports store).length +
          ((leverageRanking localeCompare store options).take limit).countP (IsWorkable store options) ∨
        ∀ hotspot ∈ ((leverageRanking localeCompare store options).take limit').drop limit,
          IsWorkable store options hotspot = false := by
  have hprefix : rankedUpTo localeCompare store options limit =
      (rankedUpTo localeCompare store options limit').take limit := by
    rw [rankedUpTo, rankedUpTo, ← List.map_take, List.take_take, min_eq_left hle]
  have hremovals : (sortedRemovals localeCompare store).length = (deadExports store).length := by
    rw [sortedRemovals, (Comparator.sort_perm _ _).length_eq, safeRemovals, List.length_map]
  have hworkable : ∀ hotspot, decide ((rankedHotspot store (ceilingOf options) hotspot).readiness = .needsWorkload) =
      IsWorkable store options hotspot := by
    intro hotspot
    rw [readiness_rankedHotspot, IsWorkable, decide_eq_decide]
    split <;> simp_all
  rw [plan_items_withLimit localeCompare store options hpos (hle.trans hmax),
    plan_items_withLimit localeCompare store options (hpos.trans hle) hmax, List.take_take, min_eq_left hle, hprefix,
    take_partition_eq_iff, hremovals, ← hprefix]
  simp only [rankedUpTo, List.countP_map, ← List.map_drop, List.forall_mem_map, hworkable, Function.comp_def]

end Truncation

/-- A measured function, and a slower one that it calls. -/
def slowCalleeStore : KuzuStore :=
  let measured (id : String) (selfMs : ℚ) : GraphNode :=
    { id
      kind := .Function
      name := id
      filePath := "src/main.ts"
      metadata := some (OrderedMap.ofList [("runtime", .obj [("selfMs", .num selfMs)])]) }
  (KuzuStore.initSchema.load [measured "main" 5, measured "slow" 9]
    [{ id := "CALLS:main->slow", kind := .CALLS, source := "main", target := "slow" }]).1

theorem plan_prefix_iff_workable :
    (plan .ofOrder slowCalleeStore (withLimit {} 1)).items =
      (plan .ofOrder slowCalleeStore (withLimit {} 2)).items.take 1 :=
  (plan_prefix_iff .ofOrder slowCalleeStore {} le_rfl one_le_two (by decide)).mpr (Or.inl (by decide +kernel))

/-- The best hotspot is manual: a plan of one item consists of it, a plan of
two puts the workable one first. -/
theorem plan_not_prefix_manual :
    ¬ (plan .ofOrder slowCalleeStore (withLimit { maxBlastRadius := some (.finite 0) } 1)).items =
      (plan .ofOrder slowCalleeStore (withLimit { maxBlastRadius := some (.finite 0) } 2)).items.take 1 := by
  intro hprefix
  have hids := congrArg (List.map fun item : CampaignItem => item.id) hprefix
  revert hids
  decide +kernel

end codespine.query.CampaignPlanner
