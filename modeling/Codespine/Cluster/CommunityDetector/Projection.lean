import Codespine.Cluster.CommunityDetector.Partition

namespace codespine.cluster.CommunityDetector

section Index

/-- `ids` and `indexOf`: the numbering and its inverse. -/
structure NodeIndex where
  ids : List String
  indexOf : OrderedMap String ℕ
  get_iff : ∀ id i, indexOf.get id = some i ↔ ids[i]? = some id

namespace NodeIndex

/-- Gives an id the next number, when it has none. -/
def touch (index : NodeIndex) (id : String) : NodeIndex :=
  if h : id ∈ index.indexOf.keys then index
  else
    { ids := index.ids ++ [id]
      indexOf := index.indexOf.set id index.ids.length
      get_iff := fun other i => by
        have hfresh : ∀ j : ℕ, index.ids[j]? ≠ some id := by
          intro j hj
          exact h (OrderedMap.mem_keys_of_get ((index.get_iff id j).mpr hj))
        rcases lt_trichotomy i index.ids.length with hi | rfl | hi
        · rw [List.getElem?_append_left hi]
          by_cases hother : other = id
          · subst hother
            rw [OrderedMap.get_set_self, Option.some.injEq]
            exact iff_of_false hi.ne' (hfresh i)
          · rw [OrderedMap.get_set_ne hother, index.get_iff]
        · rw [List.getElem?_concat_length, Option.some.injEq]
          by_cases hother : other = id
          · subst hother
            rw [OrderedMap.get_set_self]
            simp
          · rw [OrderedMap.get_set_ne hother, index.get_iff, List.getElem?_eq_none le_rfl]
            exact iff_of_false (Option.some_ne_none _).symm (Ne.symm hother)
        · have hlate : (index.ids ++ [id])[i]? = none := List.getElem?_eq_none (by simpa using hi)
          rw [hlate]
          by_cases hother : other = id
          · subst hother
            rw [OrderedMap.get_set_self, Option.some.injEq]
            exact iff_of_false hi.ne (Option.some_ne_none _).symm
          · rw [OrderedMap.get_set_ne hother, index.get_iff, List.getElem?_eq_none hi.le] }

/-- `indexNodes`, with both of the things it returns. -/
def ofEdges (edges : List WeightedEdge) : NodeIndex :=
  (edges.flatMap fun edge => [edge.source, edge.target]).foldl touch ⟨[], ∅, by simp⟩

theorem indexOf_touch (index : NodeIndex) (id : String) : (index.touch id).indexOf =
    if id ∈ index.indexOf.keys then index.indexOf else index.indexOf.set id index.ids.length := by
  unfold touch
  split <;> rfl

theorem ids_touch (index : NodeIndex) (id : String) :
    (index.touch id).ids = if id ∈ index.indexOf.keys then index.ids else index.ids ++ [id] := by
  unfold touch
  split <;> rfl

theorem ofEdges_eq (edges : List WeightedEdge) :
    (ofEdges edges).indexOf = indexNodes edges ∧ (ofEdges edges).ids = (indexNodes edges).keys := by
  have key : ∀ (ids : List String) (index : NodeIndex) (indexOf : OrderedMap String ℕ),
      index.indexOf = indexOf → index.ids = indexOf.keys →
      (ids.foldl touch index).indexOf = ids.foldl
          (fun indexOf id => if id ∈ indexOf.keys then indexOf else indexOf.set id indexOf.keys.length) indexOf ∧
        (ids.foldl touch index).ids = (ids.foldl
          (fun indexOf id => if id ∈ indexOf.keys then indexOf else indexOf.set id indexOf.keys.length) indexOf).keys := by
    intro ids
    induction ids with
    | nil => exact fun index indexOf hindex hids => ⟨hindex, hids⟩
    | cons id ids ih =>
      rintro index _ rfl hids
      refine ih _ _ ?_ ?_
      · rw [indexOf_touch, hids]
      · rw [ids_touch, hids]
        beta_reduce
        split
        · rfl
        · next hmem => rw [OrderedMap.keys_set, if_neg hmem]
  exact key _ _ ∅ rfl rfl

/-- Two ids with one number are one. -/
theorem eq_of_get {index : NodeIndex} {x y : String} {i : ℕ} (hx : index.indexOf.get x = some i)
    (hy : index.indexOf.get y = some i) : x = y :=
  Option.some.inj (((index.get_iff x i).mp hx).symm.trans ((index.get_iff y i).mp hy))

/-- Some edge touches the node. -/
def Touched (edges : List WeightedEdge) (id : String) : Prop := ∃ edge ∈ edges, id = edge.source ∨ id = edge.target

theorem touched_iff {edges : List WeightedEdge} {id : String} :
    Touched edges id ↔ ∃ i, (ofEdges edges).indexOf.get id = some i := by
  rw [Touched, ← mem_keys_indexNodes, (ofEdges_eq edges).1]
  constructor
  · intro hmem
    exact Option.ne_none_iff_exists'.mp fun hnone => OrderedMap.get_eq_none_iff.mp hnone hmem
  · rintro ⟨i, hi⟩
    exact OrderedMap.mem_keys_of_get hi

/-- The touched nodes are numbered without a gap. -/
theorem bijOn_get (edges : List WeightedEdge) :
    Set.BijOn (ofEdges edges).indexOf.get {id | Touched edges id} (some '' Set.Iio (ofEdges edges).ids.length) := by
  refine ⟨fun id hid => ?_, fun x hx y hy heq => ?_, fun value hvalue => ?_⟩
  · obtain ⟨i, hi⟩ := touched_iff.mp hid
    obtain ⟨hlt, _⟩ := List.getElem?_eq_some_iff.mp (((ofEdges edges).get_iff id i).mp hi)
    exact ⟨i, hlt, hi.symm⟩
  · obtain ⟨i, hi⟩ := touched_iff.mp hx
    exact eq_of_get hi (heq ▸ hi)
  · obtain ⟨i, hlt, rfl⟩ := hvalue
    have hget := ((ofEdges edges).get_iff _ i).mpr (List.getElem?_eq_getElem hlt)
    exact ⟨_, touched_iff.mpr ⟨i, hget⟩, hget⟩

end NodeIndex

end Index

section Key

/-- `low:high`. -/
def pairKey (pair : ℕ × ℕ) : String := toString pair.1 ++ ":" ++ toString pair.2

/-- `Number` of a text of decimal digits. -/
def numberOf (digits : List Char) : ℕ := Nat.ofDigitChars 10 digits 0

/-- The numbers before and behind the first `:`. -/
def parseKey (key : String) : ℕ × ℕ :=
  let separator := key.toList.idxOf ':'
  (numberOf (key.toList.take separator), numberOf (key.toList.drop (separator + 1)))

theorem toList_pairKey (low high : ℕ) : (pairKey (low, high)).toList = Nat.toDigits 10 low ++ ':' :: Nat.toDigits 10 high := by
  rw [pairKey, String.toList_append, String.toList_append]
  simp [toString]

/-- A digit is no separator. -/
theorem separator_notMem (n : ℕ) : ':' ∉ Nat.toDigits 10 n := by
  intro hmem
  exact absurd (Nat.isDigit_of_mem_toDigits (by decide) (by decide) hmem) (by decide)

theorem parseKey_pairKey (pair : ℕ × ℕ) : parseKey (pairKey pair) = pair := by
  obtain ⟨low, high⟩ := pair
  have hseparator : (pairKey (low, high)).toList.idxOf ':' = (Nat.toDigits 10 low).length := by
    rw [toList_pairKey, List.idxOf_append_of_notMem (separator_notMem low), List.idxOf_cons_self, Nat.add_zero]
  have hlow : (pairKey (low, high)).toList.take (Nat.toDigits 10 low).length = Nat.toDigits 10 low := by
    rw [toList_pairKey, List.take_left]
  have hhigh : (pairKey (low, high)).toList.drop ((Nat.toDigits 10 low).length + 1) = Nat.toDigits 10 high := by
    rw [toList_pairKey, ← List.drop_drop, List.drop_left, List.drop_one, List.tail_cons]
  unfold parseKey
  dsimp only
  rw [hseparator, hlow, hhigh, numberOf, numberOf, Nat.ofDigitChars_ten_toDigits, Nat.ofDigitChars_ten_toDigits]

theorem pairKey_injective : Function.Injective pairKey := Function.LeftInverse.injective parseKey_pairKey

end Key

section Undirected

/-- The edges a projection returns, as the three lists the library takes. -/
structure UndirectedEdges where
  sources : List ℕ
  targets : List ℕ
  weights : List ℚ

def UndirectedEdges.rows (projected : UndirectedEdges) : List ((ℕ × ℕ) × ℚ) :=
  (projected.sources.zip projected.targets).zip projected.weights

/-- Takes an edge into the weights by text key. -/
def mergeEdge (indexOf : OrderedMap String ℕ) (merged : OrderedMap String ℚ) (edge : WeightedEdge) : OrderedMap String ℚ :=
  match indexOf.get edge.source, indexOf.get edge.target with
  | some a, some b =>
    if a = b then merged
    else
      let low := if a < b then a else b
      let high := if a < b then b else a
      let key := pairKey (low, high)
      merged.set key (merged.getD key 0 + edge.weight)
  | _, _ => merged

/-- `symmetrize`, with its text keys and what is read back from them. -/
def symmetrizeKeys (edges : List WeightedEdge) (indexOf : OrderedMap String ℕ) : UndirectedEdges :=
  let merged := edges.foldl (mergeEdge indexOf) ∅
  { sources := merged.entries.map fun entry => (parseKey entry.1).1
    targets := merged.entries.map fun entry => (parseKey entry.1).2
    weights := merged.entries.map fun entry => entry.2 }

theorem rows_symmetrizeKeys (edges : List WeightedEdge) (indexOf : OrderedMap String ℕ) :
    (symmetrizeKeys edges indexOf).rows = (symmetrize edges indexOf).entries := by
  have key : (edges.foldl (mergeEdge indexOf) ∅).entries = (symmetrize edges indexOf).entries.map (Prod.map pairKey id) := by
    unfold symmetrize
    induction edges using List.reverseRecOn with
    | nil => rfl
    | append_singleton edges edge ih =>
      rw [List.foldl_append, List.foldl_append, List.foldl_cons, List.foldl_cons, List.foldl_nil, List.foldl_nil, mergeEdge]
      cases indexOf.get edge.source with
      | none => exact ih
      | some a =>
        cases indexOf.get edge.target with
        | none => exact ih
        | some b =>
          dsimp only
          split
          · exact ih
          · have hlow : (if a < b then a else b) = min a b := by
              rw [min_def]
              split_ifs <;> omega
            have hhigh : (if a < b then b else a) = max a b := by
              rw [max_def]
              split_ifs <;> omega
            rw [hlow, hhigh]
            exact OrderedMap.entries_add_rekey pairKey_injective ih _ _
  unfold symmetrizeKeys UndirectedEdges.rows
  dsimp only
  rw [key, List.zip_map', List.zip_map', List.map_map]
  refine List.map_id'' (fun entry => ?_) _
  rw [Function.comp_apply, Prod.map_fst, parseKey_pairKey]
  rfl

/-- The numbers of the ends of an edge, the lower one first, unless it is a
self-loop. -/
def pairOf (indexOf : OrderedMap String ℕ) (edge : WeightedEdge) : Option (ℕ × ℕ) :=
  match indexOf.get edge.source, indexOf.get edge.target with
  | some a, some b => if a = b then none else some (min a b, max a b)
  | _, _ => none

theorem symmetrize_eq (edges : List WeightedEdge) (indexOf : OrderedMap String ℕ) : symmetrize edges indexOf =
    edges.foldl (OrderedMap.accumulate (pairOf indexOf) WeightedEdge.weight fun v edge => v + edge.weight) ∅ := by
  unfold symmetrize
  refine congrArg (fun step => edges.foldl step ∅) (funext fun merged => funext fun edge => ?_)
  rw [OrderedMap.accumulate_add, pairOf]
  cases indexOf.get edge.source with
  | none => rfl
  | some a =>
    cases indexOf.get edge.target with
    | none => rfl
    | some b =>
      dsimp only
      split <;> rfl

/-- The edges between two nodes, in both directions. -/
def between (edges : List WeightedEdge) (x y : String) : List WeightedEdge :=
  edges.filter fun edge => (edge.source = x ∧ edge.target = y) ∨ (edge.source = y ∧ edge.target = x)

/-- An edge has the numbers of two nodes exactly when it joins the two. -/
theorem pairOf_eq_iff {index : NodeIndex} {x y : String} {i j : ℕ} (hx : index.indexOf.get x = some i)
    (hy : index.indexOf.get y = some j) (hne : x ≠ y) (edge : WeightedEdge) :
    pairOf index.indexOf edge = some (min i j, max i j) ↔
      (edge.source = x ∧ edge.target = y) ∨ (edge.source = y ∧ edge.target = x) := by
  have hij : i ≠ j := by
    rintro rfl
    exact hne (NodeIndex.eq_of_get hx hy)
  constructor
  · intro hpair
    unfold pairOf at hpair
    cases hsource : index.indexOf.get edge.source with
    | none => rw [hsource] at hpair; cases hpair
    | some a =>
      cases htarget : index.indexOf.get edge.target with
      | none => rw [hsource, htarget] at hpair; cases hpair
      | some b =>
        rw [hsource, htarget] at hpair
        dsimp only at hpair
        split at hpair
        · cases hpair
        · obtain ⟨hmin, hmax⟩ := Prod.mk.inj (Option.some.inj hpair)
          have hends : (a = i ∧ b = j) ∨ (a = j ∧ b = i) := by omega
          rcases hends with ⟨rfl, rfl⟩ | ⟨rfl, rfl⟩
          · exact Or.inl ⟨NodeIndex.eq_of_get hsource hx, NodeIndex.eq_of_get htarget hy⟩
          · exact Or.inr ⟨NodeIndex.eq_of_get hsource hy, NodeIndex.eq_of_get htarget hx⟩
  · rintro (⟨rfl, rfl⟩ | ⟨rfl, rfl⟩)
    · rw [pairOf, hx, hy]
      exact if_neg hij
    · rw [pairOf, hx, hy]
      exact (if_neg hij.symm).trans (by rw [min_comm, max_comm])

/-- What the projection holds for two nodes: the sum of all that is between
them. -/
theorem get_symmetrize {edges : List WeightedEdge} {index : NodeIndex} {x y : String} {i j : ℕ}
    (hx : index.indexOf.get x = some i) (hy : index.indexOf.get y = some j) (hne : x ≠ y) :
    (symmetrize edges index.indexOf).get (min i j, max i j) =
      if between edges x y = [] then none else some ((between edges x y).map WeightedEdge.weight).sum := by
  have hfilter : (edges.filter fun edge => pairOf index.indexOf edge = some (min i j, max i j)) = between edges x y :=
    List.filter_congr fun edge _ => decide_eq_decide.mpr (pairOf_eq_iff hx hy hne edge)
  rw [symmetrize_eq, OrderedMap.get_foldl_add, hfilter]

/-- Every row is about two different nodes, the lower number first. -/
theorem mem_symmetrize {edges : List WeightedEdge} {index : NodeIndex} {row : (ℕ × ℕ) × ℚ}
    (h : row ∈ (symmetrize edges index.indexOf).entries) : row.1.1 < row.1.2 ∧ row.1.2 < index.ids.length := by
  have hget : (symmetrize edges index.indexOf).get row.1 ≠ none := by
    rw [OrderedMap.get_eq_some_iff.mpr h]
    exact Option.some_ne_none _
  rw [symmetrize_eq, OrderedMap.get_foldl_add] at hget
  obtain ⟨edge, hedge⟩ := List.exists_mem_of_ne_nil _ fun hnil => hget (if_pos hnil)
  have hpair : pairOf index.indexOf edge = some row.1 := of_decide_eq_true (List.mem_filter.mp hedge).2
  have hbound : ∀ {id i}, index.indexOf.get id = some i → i < index.ids.length := by
    intro id i hi
    exact (List.getElem?_eq_some_iff.mp ((index.get_iff id i).mp hi)).1
  unfold pairOf at hpair
  cases hsource : index.indexOf.get edge.source with
  | none => rw [hsource] at hpair; cases hpair
  | some a =>
    cases htarget : index.indexOf.get edge.target with
    | none => rw [hsource, htarget] at hpair; cases hpair
    | some b =>
      rw [hsource, htarget] at hpair
      dsimp only at hpair
      split at hpair
      · cases hpair
      · have ha := hbound hsource
        have hb := hbound htarget
        rw [← Option.some.inj hpair]
        dsimp only
        omega

/-- What the projection of a list of edges holds for two ids. -/
def undirectedWeight (edges : List WeightedEdge) (x y : String) : Option ℚ :=
  let index := NodeIndex.ofEdges edges
  (index.indexOf.get x).bind fun i => (index.indexOf.get y).bind fun j =>
    OrderedMap.lookup (min i j, max i j) (symmetrizeKeys edges index.indexOf).rows

theorem between_comm (edges : List WeightedEdge) (x y : String) : between edges x y = between edges y x :=
  List.filter_congr fun _ _ => decide_eq_decide.mpr or_comm

/-- Nothing is between a node that no edge touches and another. -/
theorem between_eq_nil {edges : List WeightedEdge} {x : String} (h : (NodeIndex.ofEdges edges).indexOf.get x = none)
    (y : String) : between edges x y = [] := by
  have huntouched : ¬ NodeIndex.Touched edges x := by
    rw [NodeIndex.touched_iff, h]
    simp
  refine List.filter_eq_nil_iff.mpr fun edge hedge hends => huntouched ⟨edge, hedge, ?_⟩
  rcases of_decide_eq_true hends with ⟨hsource, -⟩ | ⟨-, htarget⟩
  · exact Or.inl hsource.symm
  · exact Or.inr htarget.symm

theorem undirectedWeight_eq (edges : List WeightedEdge) (x y : String) : undirectedWeight edges x y =
    if x = y ∨ between edges x y = [] then none else some ((between edges x y).map WeightedEdge.weight).sum := by
  unfold undirectedWeight
  dsimp only
  rw [rows_symmetrizeKeys]
  cases hx : (NodeIndex.ofEdges edges).indexOf.get x with
  | none => exact (if_pos (Or.inr (between_eq_nil hx y))).symm
  | some i =>
    cases hy : (NodeIndex.ofEdges edges).indexOf.get y with
    | none =>
      have hnone : between edges x y = [] := (between_comm edges x y).trans (between_eq_nil hy x)
      exact (if_pos (Or.inr hnone)).symm
    | some j =>
      rw [Option.bind_some, Option.bind_some]
      by_cases hne : x = y
      · subst hne
        obtain rfl := Option.some.inj (hx.symm.trans hy)
        rw [if_pos (Or.inl rfl), OrderedMap.lookup_eq_none_iff]
        intro hmem
        obtain ⟨row, hrow, hkey⟩ := List.mem_map.mp hmem
        have hlt := (mem_symmetrize hrow).1
        rw [hkey] at hlt
        dsimp only at hlt
        omega
      · have hget := @get_symmetrize edges _ _ _ _ _ hx hy hne
        rw [OrderedMap.get] at hget
        rw [hget]
        simp only [hne, false_or]

/-- Which way an edge points makes no difference to what is between two
nodes. -/
theorem weights_between_reversed {edges edges' : List WeightedEdge} (x y : String)
    (h : List.Forall₂ (fun edge edge' => edge' = edge ∨ edge' = ⟨edge.target, edge.source, edge.weight⟩) edges edges') :
    (between edges' x y).map WeightedEdge.weight = (between edges x y).map WeightedEdge.weight := by
  induction h with
  | nil => rfl
  | @cons edge edge' edges edges' hedge _ ih =>
    have hends : ((edge'.source = x ∧ edge'.target = y) ∨ (edge'.source = y ∧ edge'.target = x)) ↔
        ((edge.source = x ∧ edge.target = y) ∨ (edge.source = y ∧ edge.target = x)) := by
      rcases hedge with rfl | rfl
      · rfl
      · rw [or_comm, and_comm, @and_comm (edge.target = x)]
    have hweight : edge'.weight = edge.weight := by
      rcases hedge with rfl | rfl <;> rfl
    unfold between at ih ⊢
    rw [List.filter_cons, List.filter_cons]
    simp only [hends]
    split
    · rw [List.map_cons, List.map_cons, ih, hweight]
    · exact ih

/-- The undirected projection is exact, and does not depend on which way an
edge points. -/
theorem projection_exact (edges : List WeightedEdge) :
    Set.BijOn (NodeIndex.ofEdges edges).indexOf.get {id | ∃ edge ∈ edges, id = edge.source ∨ id = edge.target}
      (some '' Set.Iio (NodeIndex.ofEdges edges).ids.length) ∧
    (∀ id, (¬ ∃ edge ∈ edges, id = edge.source ∨ id = edge.target) → (NodeIndex.ofEdges edges).indexOf.get id = none) ∧
    (∀ row ∈ (symmetrizeKeys edges (NodeIndex.ofEdges edges).indexOf).rows,
      row.1.1 < row.1.2 ∧ row.1.2 < (NodeIndex.ofEdges edges).ids.length) ∧
    (∀ x y i j, (NodeIndex.ofEdges edges).indexOf.get x = some i → (NodeIndex.ofEdges edges).indexOf.get y = some j →
      i < j → ((symmetrizeKeys edges (NodeIndex.ofEdges edges).indexOf).rows.filter fun row => row.1 = (i, j)).map Prod.snd =
        if between edges x y = [] then [] else [((between edges x y).map WeightedEdge.weight).sum]) ∧
    ∀ edges', List.Forall₂ (fun edge edge' => edge' = edge ∨ edge' = ⟨edge.target, edge.source, edge.weight⟩) edges edges' →
      ∀ x y, undirectedWeight edges' x y = undirectedWeight edges x y := by
  refine ⟨NodeIndex.bijOn_get edges, fun id hid => ?_, fun row hrow => ?_, fun x y i j hx hy hlt => ?_,
    fun edges' hreversed x y => ?_⟩
  · by_contra hsome
    exact hid (NodeIndex.touched_iff.mpr (Option.ne_none_iff_exists'.mp hsome))
  · rw [rows_symmetrizeKeys] at hrow
    exact mem_symmetrize hrow
  · have hne : x ≠ y := by
      rintro rfl
      exact hlt.ne (Option.some.inj (hx.symm.trans hy))
    have hget := @get_symmetrize edges _ _ _ _ _ hx hy hne
    rw [min_eq_left hlt.le, max_eq_right hlt.le] at hget
    rw [rows_symmetrizeKeys, OrderedMap.filter_entries_key, hget]
    split <;> rfl
  · have hweights := weights_between_reversed x y hreversed
    have hnil : between edges' x y = [] ↔ between edges x y = [] := by
      rw [← List.map_eq_nil_iff (f := WeightedEdge.weight), hweights, List.map_eq_nil_iff]
    rw [undirectedWeight_eq, undirectedWeight_eq, hweights]
    simp only [hnil]

/-- Calls both ways, a call of a third node and a self-loop. -/
def bothWays : List WeightedEdge := [⟨"a", "b", 2⟩, ⟨"b", "a", 3⟩, ⟨"b", "c", 1⟩, ⟨"c", "c", 9⟩]

theorem projection_exact_bothWays :
    ((symmetrizeKeys bothWays (NodeIndex.ofEdges bothWays).indexOf).rows.filter fun row => row.1 = (0, 1)).map Prod.snd = [5] ∧
      undirectedWeight (bothWays.map fun edge => ⟨edge.target, edge.source, edge.weight⟩) "a" "b" =
        undirectedWeight bothWays "a" "b" := by
  obtain ⟨_, _, _, hrows, hreversed⟩ := projection_exact bothWays
  refine ⟨(hrows "a" "b" 0 1 (by decide) (by decide) (by decide)).trans (by decide +kernel), ?_⟩
  exact hreversed _ (List.forall₂_map_right_iff.mpr (List.forall₂_same.mpr fun _ _ => Or.inr rfl)) "a" "b"

end Undirected

end codespine.cluster.CommunityDetector
