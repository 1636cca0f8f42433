import Codespine.Lib.Comparator
import Codespine.Lib.OrderStatistics

namespace codespine.benchmark

/-- A metric over some runs: the median, and the spread that qualifies it. -/
structure BenchmarkStatsSummary where
  runs : ℕ
  median : ℚ
  min : ℚ
  max : ℚ
  mean : ℚ
  spread : ℚ
  values : List ℚ
deriving DecidableEq

/-- A median next to that of an earlier benchmark; the percentage of nothing is
`NaN`, here none. -/
structure BenchmarkDelta where
  baselineMedian : ℚ
  currentMedian : ℚ
  absolute : ℚ
  percent : Option ℚ
deriving DecidableEq

/-- What a delta amounts to, for a metric of which less is better. -/
inductive Direction where
  | improved | regressed | unchanged
deriving DecidableEq, Repr

namespace BenchmarkStats

/-- The median of some values: the mean of the two middle ones when there are
evenly many. -/
def median (values : List ℚ) : Except String ℚ :=
  if values.length = 0 then .error "median of an empty sample set"
  else
    let sorted := (Comparator.ascending id).sort values
    let mid := sorted.length / 2
    if sorted.length % 2 = 1 then .ok (sorted.getD mid 0)
    else .ok ((sorted.getD (mid - 1) 0 + sorted.getD mid 0) / 2)

/-- Reduces the values of the runs to their summary. -/
def summarize (values : List ℚ) : Except String BenchmarkStatsSummary :=
  if values.length = 0 then .error "cannot summarize a benchmark with no runs"
  else do
    let min := values.min?.getD 0
    let max := values.max?.getD 0
    let mean := values.foldl (fun sum value => sum + value) (0 : ℚ) / values.length
    let median ← median values
    return { runs := values.length, median, min, max, mean, spread := max - min, values }

def delta (baselineMedian currentMedian : ℚ) : BenchmarkDelta :=
  let absolute := currentMedian - baselineMedian
  { baselineMedian
    currentMedian
    absolute
    percent := if baselineMedian = 0 then none else some (absolute / baselineMedian) }

/-- A difference within the spread is noise. -/
def direction (delta : BenchmarkDelta) (spread : ℚ) : Direction :=
  if |delta.absolute| ≤ spread then .unchanged else if delta.absolute < 0 then .improved else .regressed

variable {values values' : List ℚ}

theorem sorted_pairwise (values : List ℚ) : ((Comparator.ascending id).sort values).Pairwise (· ≤ ·) :=
  ((Comparator.ascending id).sort_pairwise values).imp fun h => sub_nonpos.mp h

theorem length_sorted (values : List ℚ) : ((Comparator.ascending id).sort values).length = values.length :=
  ((Comparator.ascending id).sort_perm values).length_eq

/-- The values in order do not depend on the order of the runs. -/
theorem sorted_perm (h : values.Perm values') :
    (Comparator.ascending id).sort values = (Comparator.ascending id).sort values' :=
  Comparator.sort_eq_of_perm h fun _ _ _ _ htie => sub_eq_zero.mp htie

/-- The median lies between the two middle values. -/
theorem median_between (h : values ≠ []) : ∃ low high median, BenchmarkStats.median values = .ok median ∧
    ((Comparator.ascending id).sort values)[(((Comparator.ascending id).sort values).length - 1) / 2]? = some low ∧
    ((Comparator.ascending id).sort values)[((Comparator.ascending id).sort values).length / 2]? = some high ∧
    low ≤ median ∧ median ≤ high := by
  have hlength : values.length ≠ 0 := fun hzero => h (List.length_eq_zero_iff.mp hzero)
  set sorted := (Comparator.ascending id).sort values with hsorted
  have hpos : 0 < sorted.length := by
    rw [hsorted, length_sorted]
    omega
  obtain ⟨low, hlow⟩ : ∃ low, sorted[(sorted.length - 1) / 2]? = some low :=
    ⟨_, List.getElem?_eq_getElem (by omega)⟩
  obtain ⟨high, hhigh⟩ : ∃ high, sorted[sorted.length / 2]? = some high := ⟨_, List.getElem?_eq_getElem (by omega)⟩
  have hle : low ≤ high := by
    obtain ⟨hi, rfl⟩ := List.getElem?_eq_some_iff.mp hlow
    obtain ⟨hj, rfl⟩ := List.getElem?_eq_some_iff.mp hhigh
    rcases Nat.eq_or_lt_of_le (show (sorted.length - 1) / 2 ≤ sorted.length / 2 by omega) with heq | hlt
    · simp only [heq, le_refl]
    · exact List.pairwise_iff_getElem.mp (sorted_pairwise values) _ _ hi hj hlt
  unfold BenchmarkStats.median
  rw [if_neg hlength]
  dsimp only
  rw [← hsorted]
  have hhighD : sorted.getD (sorted.length / 2) 0 = high := by rw [List.getD_eq_getElem?_getD, hhigh, Option.getD_some]
  split
  · exact ⟨low, high, high, by rw [hhighD], hlow, hhigh, hle, le_rfl⟩
  · next heven =>
    have hmid : sorted.length / 2 - 1 = (sorted.length - 1) / 2 := by omega
    have hlowD : sorted.getD (sorted.length / 2 - 1) 0 = low := by
      rw [List.getD_eq_getElem?_getD, hmid, hlow, Option.getD_some]
    refine ⟨low, high, (low + high) / 2, by rw [hlowD, hhighD], hlow, hhigh, ?_, ?_⟩ <;> linarith

theorem min_spec (h : values ≠ []) : ∃ least ∈ values, values.min? = some least ∧ ∀ value ∈ values, least ≤ value := by
  obtain ⟨least, hleast⟩ := Option.isSome_iff_exists.mp (List.isSome_min?_iff.mpr h)
  obtain ⟨hmem, hle⟩ := List.min?_eq_some_iff.mp hleast
  exact ⟨least, hmem, hleast, hle⟩

theorem max_spec (h : values ≠ []) : ∃ most ∈ values, values.max? = some most ∧ ∀ value ∈ values, value ≤ most := by
  obtain ⟨most, hmost⟩ := Option.ne_none_iff_exists'.mp fun hnone => h (List.max?_eq_none_iff.mp hnone)
  obtain ⟨hmem, hle⟩ := List.max?_eq_some_iff.mp hmost
  exact ⟨most, hmem, hmost, hle⟩

theorem min_perm (h : values.Perm values') : values.min? = values'.min? := by
  cases hmin : values.min? with
  | none =>
    rw [List.min?_eq_none_iff] at hmin
    rw [hmin] at h
    rw [List.nil_perm.mp h]
    rfl
  | some least =>
    obtain ⟨hmem, hle⟩ := List.min?_eq_some_iff.mp hmin
    exact (List.min?_eq_some_iff.mpr ⟨h.mem_iff.mp hmem, fun value hvalue => hle value (h.mem_iff.mpr hvalue)⟩).symm

theorem max_perm (h : values.Perm values') : values.max? = values'.max? := by
  cases hmax : values.max? with
  | none =>
    rw [List.max?_eq_none_iff] at hmax
    rw [hmax] at h
    rw [List.nil_perm.mp h]
    rfl
  | some most =>
    obtain ⟨hmem, hle⟩ := List.max?_eq_some_iff.mp hmax
    exact (List.max?_eq_some_iff.mpr ⟨h.mem_iff.mp hmem, fun value hvalue => hle value (h.mem_iff.mpr hvalue)⟩).symm

/-- A summary of some values: their least and their greatest, with the median
between them. -/
theorem summarize_eq_ok {summary : BenchmarkStatsSummary} (h : summarize values = .ok summary) :
    summary.values = values ∧ summary.runs = values.length ∧ summary.spread = summary.max - summary.min ∧
      (∀ value ∈ values, summary.min ≤ value ∧ value ≤ summary.max) ∧
      summary.min ≤ summary.median ∧ summary.median ≤ summary.max := by
  unfold summarize at h
  split at h
  · cases h
  · next hlength =>
    have hne : values ≠ [] := fun hnil => hlength (hnil ▸ rfl)
    obtain ⟨low, high, median, hmedian, hlow, hhigh, hlowLe, hleHigh⟩ := median_between hne
    obtain ⟨least, _, hmin, hleast⟩ := min_spec hne
    obtain ⟨most, _, hmax, hmost⟩ := max_spec hne
    have hperm := (Comparator.ascending id).sort_perm values
    have hlowMem : low ∈ values := hperm.mem_iff.mp (List.mem_of_getElem? hlow)
    have hhighMem : high ∈ values := hperm.mem_iff.mp (List.mem_of_getElem? hhigh)
    rw [hmedian, hmin, hmax] at h
    cases h
    exact ⟨rfl, rfl, rfl, fun value hvalue => ⟨hleast value hvalue, hmost value hvalue⟩,
      (hleast low hlowMem).trans hlowLe, hleHigh.trans (hmost high hhighMem)⟩

theorem direction_eq_improved {delta : BenchmarkDelta} {spread : ℚ} (h : direction delta spread = .improved) :
    delta.absolute < -spread := by
  unfold direction at h
  by_cases hnoise : |delta.absolute| ≤ spread
  · rw [if_pos hnoise] at h
    cases h
  · by_cases hless : delta.absolute < 0
    · rw [abs_of_neg hless] at hnoise
      linarith
    · rw [if_neg hnoise, if_neg hless] at h
      cases h

theorem direction_eq_regressed {delta : BenchmarkDelta} {spread : ℚ} (h : direction delta spread = .regressed) :
    spread < delta.absolute := by
  unfold direction at h
  by_cases hnoise : |delta.absolute| ≤ spread
  · rw [if_pos hnoise] at h
    cases h
  · by_cases hless : delta.absolute < 0
    · rw [if_neg hnoise, if_pos hless] at h
      cases h
    · rw [abs_of_nonneg (not_lt.mp hless)] at hnoise
      linarith

/-- A change that is called one shows in every run: each of them lies on the
same side of the baseline. -/
theorem direction_spec {summary : BenchmarkStatsSummary} (h : summarize values = .ok summary) (baselineMedian : ℚ) :
    (direction (delta baselineMedian summary.median) summary.spread = .improved →
        ∀ value ∈ values, value < baselineMedian) ∧
      (direction (delta baselineMedian summary.median) summary.spread = .regressed →
        ∀ value ∈ values, baselineMedian < value) := by
  obtain ⟨_, _, hspread, hbounds, hmin, hmax⟩ := summarize_eq_ok h
  constructor
  · intro himproved value hvalue
    have hbeyond : summary.median - baselineMedian < -summary.spread := direction_eq_improved himproved
    linarith [(hbounds value hvalue).2]
  · intro hregressed value hvalue
    have hbeyond : summary.spread < summary.median - baselineMedian := direction_eq_regressed hregressed
    linarith [(hbounds value hvalue).1]

/-- A reordering of the runs changes the values of the summary only. -/
theorem summarize_perm (h : values.Perm values') :
    summarize values' = (summarize values).map fun summary => { summary with values := values' } := by
  have hmedian : median values' = median values := by
    unfold median
    rw [sorted_perm h, h.length_eq]
  have hsum : values'.foldl (fun sum value => sum + value) (0 : ℚ) = values.foldl (fun sum value => sum + value) (0 : ℚ) :=
    h.symm.foldl_eq 0
  unfold summarize
  rw [hmedian, hsum, min_perm h, max_perm h, h.length_eq]
  split
  · rfl
  · cases median values <;> rfl

/-- A summary is made of order statistics: the median has half of the values on
either side, and with the mean lies between the least value and the greatest.
Only `values` tells in which order the runs came. -/
theorem summarize_order_statistics (values : List ℚ) (h : values ≠ []) :
    ∃ summary, summarize values = .ok summary ∧
      (summary.min ≤ summary.median ∧ summary.median ≤ summary.max) ∧
      (summary.min ≤ summary.mean ∧ summary.mean ≤ summary.max) ∧ 0 ≤ summary.spread ∧
      values.length ≤ 2 * (values.countP fun value => value ≤ summary.median) ∧
      values.length ≤ 2 * (values.countP fun value => summary.median ≤ value) ∧
      summary.values = values ∧
      ∀ values', values.Perm values' → summarize values' = .ok { summary with values := values' } := by
  obtain ⟨low, high, median, hmedian, hlow, hhigh, hlowLe, hleHigh⟩ := median_between h
  obtain ⟨least, _, hmin, hleast⟩ := min_spec h
  obtain ⟨most, _, hmax, hmost⟩ := max_spec h
  have hperm := (Comparator.ascending id).sort_perm values
  have hlowMem : low ∈ values := hperm.mem_iff.mp (List.mem_of_getElem? hlow)
  have hhighMem : high ∈ values := hperm.mem_iff.mp (List.mem_of_getElem? hhigh)
  have hhalf := orderStatistics.half_of_between (sorted_pairwise values) hlow hhigh ⟨hlowLe, hleHigh⟩
  rw [hperm.length_eq, hperm.countP_eq, hperm.countP_eq] at hhalf
  have hmean := orderStatistics.mean_between h hleast hmost
  have hsummary : summarize values = .ok
      { runs := values.length, median, min := least, max := most, mean := values.sum / values.length,
        spread := most - least, values } := by
    unfold summarize
    rw [if_neg fun hzero => h (List.length_eq_zero_iff.mp hzero), hmedian, hmin, hmax, List.sum_eq_foldl]
    rfl
  refine ⟨_, hsummary, ⟨(hleast low hlowMem).trans hlowLe, hleHigh.trans (hmost high hhighMem)⟩, hmean,
    sub_nonneg.mpr ((hleast low hlowMem).trans (hmost low hlowMem)), hhalf.1, hhalf.2, rfl, fun values' hvalues => ?_⟩
  rw [summarize_perm hvalues, hsummary]
  rfl

/-- Four runs, two of which took the same. -/
theorem summarize_order_statistics_fourRuns : ∃ summary, summarize [40, 10, 20, 20] = .ok summary ∧
    summary.median = 20 ∧ summarize [10, 20, 20, 40] = .ok { summary with values := [10, 20, 20, 40] } := by
  obtain ⟨summary, hsummary, _, _, _, _, _, _, hperm⟩ := summarize_order_statistics [40, 10, 20, 20] (by decide)
  refine ⟨summary, hsummary, ?_, hperm _ (by decide)⟩
  have hmedian : (summarize [40, 10, 20, 20]).map (fun summary => summary.median) = .ok 20 := by decide +kernel
  rw [hsummary] at hmedian
  exact Except.ok.inj hmedian

end BenchmarkStats

end codespine.benchmark
