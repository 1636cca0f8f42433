import Codespine.Lib.Digraph
import Codespine.Lib.OrderedMap

open Relation

namespace digraph

variable {V : Type*} [DecidableEq V]

/-- A depth-first search under way: what has been visited, in order, and the
stack of what is still to look at, top first. -/
structure Search (V : Type*) where
  visited : List V
  stack : List V

namespace Search

variable (next : V → List V)

/-- One turn: take the top of the stack; unless it has been visited, visit it
and push those of its successors that have not been. -/
def turn (s : Search V) : Search V :=
  match s.stack with
  | [] => s
  | v :: rest =>
    if v ∈ s.visited then { s with stack := rest }
    else
      let visited := s.visited ++ [v]
      { visited, stack := ((next v).filter fun w => w ∉ visited).reverse ++ rest }

/-- Takes turns until the stack is empty, at most `fuel` of them. -/
def run : ℕ → Search V → Search V
  | 0, s => s
  | fuel + 1, s => if s.stack = [] then s else run fuel (turn next s)

/-- What a search started from `roots` maintains: it stays within what the
roots reach, and no arc leaves the visited vertices but to the stack. -/
structure Sound (roots : List V) (s : Search V) : Prop where
  nodup : s.visited.Nodup
  reached : ∀ w, w ∈ s.visited ∨ w ∈ s.stack → ∃ r ∈ roots, Reaches (fun a b => b ∈ next a) r w
  rooted : ∀ r ∈ roots, r ∈ s.visited ∨ r ∈ s.stack
  closed : ∀ v ∈ s.visited, ∀ w ∈ next v, w ∈ s.visited ∨ w ∈ s.stack

omit [DecidableEq V] in
theorem sound_start (roots : List V) : Sound next roots ⟨[], roots⟩ where
  nodup := List.nodup_nil
  reached w hw := ⟨w, by simpa using hw, Reaches.refl w⟩
  rooted r hr := Or.inr hr
  closed v hv := by simp at hv

variable {next}

theorem Sound.turn {roots : List V} {s : Search V} (hs : Sound next roots s) : Sound next roots (s.turn next) := by
  obtain ⟨visited, stack⟩ := s
  cases stack with
  | nil => exact hs
  | cons v rest =>
    by_cases hv : v ∈ visited
    · have hturn : Search.turn next ⟨visited, v :: rest⟩ = ⟨visited, rest⟩ := if_pos hv
      have hdrop : ∀ w, w ∈ visited ∨ w ∈ v :: rest → w ∈ visited ∨ w ∈ rest := by
        rintro w (hw | hw)
        · exact Or.inl hw
        · obtain rfl | hw := List.mem_cons.mp hw
          · exact Or.inl hv
          · exact Or.inr hw
      rw [hturn]
      exact ⟨hs.nodup, fun w hw => hs.reached w (hw.imp_right (List.mem_cons_of_mem v)),
        fun r hr => hdrop r (hs.rooted r hr), fun u hu w hw => hdrop w (hs.closed u hu w hw)⟩
    · have hturn : Search.turn next ⟨visited, v :: rest⟩ =
          ⟨visited ++ [v], ((next v).filter fun w => w ∉ visited ++ [v]).reverse ++ rest⟩ := if_neg hv
      have hmove : ∀ w, w ∈ visited ∨ w ∈ v :: rest →
          w ∈ visited ++ [v] ∨ w ∈ ((next v).filter fun w => w ∉ visited ++ [v]).reverse ++ rest := by
        rintro w (hw | hw)
        · exact Or.inl (List.mem_append_left _ hw)
        · obtain rfl | hw := List.mem_cons.mp hw
          · exact Or.inl (by simp)
          · exact Or.inr (List.mem_append_right _ hw)
      rw [hturn]
      refine ⟨?_, ?_, fun r hr => hmove r (hs.rooted r hr), ?_⟩
      · exact hs.nodup.append (List.nodup_singleton v) (by simpa using hv)
      · rintro w (hw | hw)
        · obtain hw | hw := List.mem_append.mp hw
          · exact hs.reached w (Or.inl hw)
          · rw [List.mem_singleton.mp hw]
            exact hs.reached v (Or.inr List.mem_cons_self)
        · obtain hw | hw := List.mem_append.mp hw
          · obtain ⟨r, hr, hreach⟩ := hs.reached v (Or.inr List.mem_cons_self)
            have hstep : w ∈ next v := (List.mem_filter.mp (List.mem_reverse.mp hw)).1
            exact ⟨r, hr, hreach.tail hstep⟩
          · exact hs.reached w (Or.inr (List.mem_cons_of_mem v hw))
      · intro u hu w hw
        obtain hu | hu := List.mem_append.mp hu
        · exact hmove w (hs.closed u hu w hw)
        · rw [List.mem_singleton.mp hu] at hw
          by_cases hvisited : w ∈ visited ++ [v]
          · exact Or.inl hvisited
          · exact Or.inr (List.mem_append_left _ (List.mem_reverse.mpr (List.mem_filter.mpr ⟨hw, by simpa using hvisited⟩)))

theorem Sound.run {roots : List V} (fuel : ℕ) {s : Search V} (hs : Sound next roots s) :
    Sound next roots (s.run next fuel) := by
  induction fuel generalizing s with
  | zero => exact hs
  | succ fuel ih =>
    unfold Search.run
    split
    · exact hs
    · exact ih hs.turn

omit [DecidableEq V] in
/-- A search that has emptied its stack has visited exactly what its roots
reach. -/
theorem Sound.mem_visited_iff {roots : List V} {s : Search V} (hs : Sound next roots s) (hstack : s.stack = [])
    (w : V) : w ∈ s.visited ↔ ∃ r ∈ roots, Reaches (fun a b => b ∈ next a) r w := by
  constructor
  · exact fun hw => hs.reached w (Or.inl hw)
  · rintro ⟨r, hr, hreach⟩
    refine hreach.mem_of_closed (S := fun v => v ∈ s.visited) (fun a b ha hab => ?_) ?_
    · simpa [hstack] using hs.closed a ha b hab
    · simpa [hstack] using hs.rooted r hr

/-- The turns a search may still take: one for each vertex on its stack and one
for each arc out of a vertex it has not visited. -/
def measure (next : V → List V) (keys : Finset V) (s : Search V) : ℕ :=
  s.stack.length + ∑ v ∈ keys.filter fun v => v ∉ s.visited, (next v).length

variable {keys : Finset V}

theorem measure_turn_lt (hkeys : ∀ v, v ∉ keys → next v = []) {s : Search V} (hstack : s.stack ≠ []) :
    (s.turn next).measure next keys < s.measure next keys := by
  obtain ⟨visited, stack⟩ := s
  cases stack with
  | nil => exact absurd rfl hstack
  | cons v rest =>
    by_cases hv : v ∈ visited
    · have hturn : Search.turn next ⟨visited, v :: rest⟩ = ⟨visited, rest⟩ := if_pos hv
      rw [hturn]
      simp [measure]
    · have hturn : Search.turn next ⟨visited, v :: rest⟩ =
          ⟨visited ++ [v], ((next v).filter fun w => w ∉ visited ++ [v]).reverse ++ rest⟩ := if_neg hv
      -- what visiting `v` may push, the arcs out of `v` no longer count
      have hsum : (∑ u ∈ keys.filter fun u => u ∉ visited ++ [v], (next u).length) + (next v).length =
          ∑ u ∈ keys.filter fun u => u ∉ visited, (next u).length := by
        have herase : (keys.filter fun u => u ∉ visited ++ [v]) = (keys.filter fun u => u ∉ visited).erase v := by
          ext u
          simp only [Finset.mem_filter, Finset.mem_erase, List.mem_append, List.mem_singleton, not_or]
          tauto
        rw [herase]
        by_cases hmem : v ∈ keys
        · exact Finset.sum_erase_add _ _ (Finset.mem_filter.mpr ⟨hmem, hv⟩)
        · rw [hkeys v hmem, List.length_nil, Nat.add_zero,
            Finset.erase_eq_of_notMem fun h => hmem (Finset.mem_filter.mp h).1]
      have hpushed : ((next v).filter fun w => w ∉ visited ++ [v]).length ≤ (next v).length :=
        List.length_filter_le _ _
      rw [hturn]
      simp only [measure, List.length_append, List.length_reverse, List.length_cons]
      omega

theorem stack_run (hkeys : ∀ v, v ∉ keys → next v = []) (fuel : ℕ) {s : Search V}
    (hfuel : s.measure next keys ≤ fuel) : (s.run next fuel).stack = [] := by
  induction fuel generalizing s with
  | zero =>
    have hlength : s.stack.length = 0 := by
      unfold measure at hfuel
      omega
    exact List.length_eq_zero_iff.mp hlength
  | succ fuel ih =>
    unfold run
    split
    · assumption
    · next hstack =>
      have hlt := measure_turn_lt hkeys hstack
      exact ih (by omega)

/-- A search with fuel for every arc visits exactly what its roots reach, and
nothing twice. -/
theorem run_visits (hkeys : ∀ v, v ∉ keys → next v = []) (roots : List V) {fuel : ℕ}
    (hfuel : roots.length + ∑ v ∈ keys, (next v).length ≤ fuel) :
    ((⟨[], roots⟩ : Search V).run next fuel).visited.Nodup ∧
      ∀ w, w ∈ ((⟨[], roots⟩ : Search V).run next fuel).visited ↔
        ∃ r ∈ roots, Reaches (fun a b => b ∈ next a) r w := by
  have hsound := (sound_start next roots).run fuel
  have hstack := stack_run (s := ⟨[], roots⟩) hkeys fuel (by simpa [measure] using hfuel)
  exact ⟨hsound.nodup, hsound.mem_visited_iff hstack⟩

end Search

end digraph
