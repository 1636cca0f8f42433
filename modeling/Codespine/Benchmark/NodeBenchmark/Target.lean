import Codespine.Benchmark.NodeBenchmark
import Codespine.Query.Find

open codespine.schema codespine.store codespine.query codespine.query.GraphQuery

namespace codespine.benchmark

/-- The node a benchmark measures. -/
structure BenchmarkTarget where
  id : String
  name : String
  kind : NodeKind
  filePath : String
  startLine : ℤ
deriving DecidableEq

namespace NodeBenchmark

def noMatchMessage (target : String) : String :=
  "no node matches \"" ++ target ++ "\" — resolve a symbol name with `find` first"

def ambiguousMessage (target : String) (candidates : List String) : String :=
  "\"" ++ target ++ "\" is ambiguous — narrow it to one of: " ++ ", ".intercalate candidates

/-- Resolves a target name to a node, or fails with guidance. -/
def resolveTarget (lower : String → String) (store : KuzuStore) (target : String) : Except String BenchmarkTarget :=
  let found := find lower store target
  if found.length = 0 then .error (noMatchMessage target)
  else
    let exact := found.filter fun ref => ref.name = target
    let chosen := if exact.length = 1 then exact.head? else if found.length = 1 then found.head? else none
    match chosen with
    | none => .error (ambiguousMessage target (((if 0 < exact.length then exact else found).take 8).map fun ref => ref.id))
    | some ref =>
      .ok { id := ref.id, name := ref.name, kind := ref.kind, filePath := ref.filePath, startLine := ref.startLine }

/-- A stored node as a benchmark reports it. -/
def targetOf (node : StoredNode) : BenchmarkTarget where
  id := node.id
  name := node.name
  kind := node.kind
  filePath := node.filePath
  startLine := node.startLine

/-- The nodes that are named exactly `target`. -/
def named (store : KuzuStore) (target : String) : List StoredNode :=
  store.readNodes.filter fun node => node.kind ≠ .Module ∧ node.name = target

/-- Those of them that a search for `target` shows. -/
def reached (lower : String → String) (store : KuzuStore) (target : String) : List StoredNode :=
  (named store target).filter fun node => placeOf lower store target node < findLimit

section Resolve

variable {lower : String → String} {store : KuzuStore} {target : String}

theorem named_matched {node : StoredNode} (hnode : node ∈ named store target) : node ∈ matched lower store target := by
  obtain ⟨hread, hname⟩ := List.mem_filter.mp hnode
  obtain ⟨hkind, rfl⟩ := of_decide_eq_true hname
  exact mem_matched.mpr ⟨hread, matchesPattern_name lower hkind⟩

/-- The exact matches among the rows of the search. -/
theorem exact_perm :
    (((matched lower store target).take findLimit).filter fun node => node.name = target).Perm (reached lower store target) := by
  have hnodup : ((matched lower store target).take findLimit).Nodup :=
    (List.Nodup.of_map _ nodup_matched).sublist (List.take_sublist _ _)
  have hreached : (reached lower store target).Nodup :=
    ((List.Nodup.of_map _ store.readNodes_nodup).filter _).filter _
  refine (List.perm_ext_iff_of_nodup (hnodup.filter _) hreached).mpr fun node => ?_
  rw [List.mem_filter, reached, List.mem_filter, decide_eq_true_iff, decide_eq_true_iff]
  constructor
  · rintro ⟨htake, hname⟩
    have hmatched := List.mem_of_mem_take htake
    obtain ⟨hread, hmatches⟩ := mem_matched.mp hmatched
    have hkind : node.kind ≠ .Module := (of_decide_eq_true hmatches).1
    exact ⟨List.mem_filter.mpr ⟨hread, decide_eq_true ⟨hkind, hname⟩⟩, (mem_take_matched hmatched _).mp htake⟩
  · rintro ⟨hnamed, hplace⟩
    obtain ⟨_, hname⟩ := List.mem_filter.mp hnamed
    exact ⟨(mem_take_matched (named_matched hnamed) _).mpr hplace, (of_decide_eq_true hname).2⟩

theorem exact_eq : ((find lower store target).filter fun ref => ref.name = target) =
    (((matched lower store target).take findLimit).filter fun node => node.name = target).map symbolOf :=
  List.filter_map

theorem length_exact :
    ((find lower store target).filter fun ref => ref.name = target).length = (reached lower store target).length := by
  rw [exact_eq, List.length_map, exact_perm.length_eq]

/-- The one node that is named so and shown is the target. -/
theorem resolveTarget_of_reached {node : StoredNode} (h : reached lower store target = [node]) :
    resolveTarget lower store target = .ok (targetOf node) := by
  have hexact : ((find lower store target).filter fun ref => ref.name = target) = [symbolOf node] := by
    have hperm := @exact_perm lower store target
    rw [h] at hperm
    rw [exact_eq, hperm.eq_singleton]
    rfl
  have hfound : (find lower store target).length ≠ 0 := by
    intro hzero
    rw [List.length_eq_zero_iff.mp hzero] at hexact
    cases hexact
  unfold resolveTarget
  dsimp only
  rw [if_neg hfound, hexact]
  rfl

/-- Where a node is named so and not one such node is shown, or several are, the
search has other rows too, and no target is chosen. -/
theorem resolveTarget_of_not_reached {node : StoredNode} (hnode : node ∈ named store target)
    (h : (reached lower store target).length ≠ 1) : ∃ message, resolveTarget lower store target = .error message := by
  have hfound : (find lower store target).length ≠ 1 := by
    intro hone
    rw [find, List.length_map, List.length_take] at hone
    have hlength : (matched lower store target).length = 1 := by
      rw [findLimit] at hone
      omega
    obtain ⟨only, honly⟩ := List.length_eq_one_iff.mp hlength
    obtain rfl : node = only := List.mem_singleton.mp (honly ▸ named_matched hnode)
    have hname : node.name = target := (of_decide_eq_true (List.mem_filter.mp hnode).2).2
    apply h
    rw [← exact_perm.length_eq, honly]
    simp [findLimit, hname]
  have hexact := length_exact.trans_ne h
  unfold resolveTarget
  dsimp only
  by_cases hnone : (find lower store target).length = 0
  · rw [if_pos hnone]
    exact ⟨_, rfl⟩
  · rw [if_neg hnone, if_neg hexact, if_neg hfound]
    exact ⟨_, rfl⟩

/-- A benchmark picks the node that was meant, or none, just when exactly one of
the nodes of the name being shown means that there is exactly one. -/
theorem resolveTarget_exact_iff (lower : String → String) (store : KuzuStore) (target : String) :
    ((∀ node, named store target = [node] → resolveTarget lower store target = .ok (targetOf node)) ∧
        (2 ≤ (named store target).length → ∃ message, resolveTarget lower store target = .error message)) ↔
      ((reached lower store target).length = 1 ↔ (named store target).length = 1) := by
  have hsublist : (reached lower store target).Sublist (named store target) := List.filter_sublist
  constructor
  · rintro ⟨hunique, hseveral⟩
    constructor
    · intro hone
      obtain ⟨node, hnode⟩ := List.length_eq_one_iff.mp hone
      by_contra hother
      have hpos := hsublist.length_le
      obtain ⟨message, hmessage⟩ := hseveral (by omega)
      rw [resolveTarget_of_reached hnode] at hmessage
      cases hmessage
    · intro hone
      obtain ⟨node, hnode⟩ := List.length_eq_one_iff.mp hone
      by_contra hother
      obtain ⟨message, hmessage⟩ := resolveTarget_of_not_reached (hnode ▸ List.mem_singleton.mpr rfl) hother
      rw [hunique node hnode] at hmessage
      cases hmessage
  · intro hiff
    refine ⟨fun node hnode => ?_, fun hseveral => ?_⟩
    · have hone := hiff.mpr (by rw [hnode, List.length_singleton])
      exact resolveTarget_of_reached ((hsublist.eq_of_length (by rw [hone, hnode, List.length_singleton])).trans hnode)
    · obtain ⟨node, hnode⟩ := List.exists_mem_of_length_pos (Nat.zero_lt_of_lt hseveral)
      exact resolveTarget_of_not_reached hnode fun hone => by
        have hnamed := hiff.mp hone
        omega

end Resolve

/-- ASCII lower case. -/
def asciiLower (text : String) : String := String.ofList (text.toList.map Char.toLower)

/-- A function `run`, so many that are named `runner`, and one more `run`. -/
def runners (count : ℕ) : KuzuStore :=
  (KuzuStore.initSchema.load
    ({ id := "Function:src/a.ts#run@1", kind := .Function, name := "run", filePath := "src/a.ts" } ::
      (List.range count).map (fun i =>
        { id := "Function:src/b.ts#runner@" ++ toString i, kind := .Function, name := "runner", filePath := "src/b.ts" }) ++
      [{ id := "Function:src/c.ts#run@1", kind := .Function, name := "run", filePath := "src/c.ts" }]) []).1

/-- With fifty matches before it, a second `run` is not seen. -/
theorem resolveTarget_unseen : ¬ ∀ (lower : String → String) (store : KuzuStore) (target : String),
    (∀ node, named store target = [node] → resolveTarget lower store target = .ok (targetOf node)) ∧
      (2 ≤ (named store target).length → ∃ message, resolveTarget lower store target = .error message) := by
  intro hclaim
  obtain ⟨message, hmessage⟩ := (hclaim asciiLower (runners 49) "run").2 (by decide +kernel)
  have hchosen : resolveTarget asciiLower (runners 49) "run" = .ok ⟨"Function:src/a.ts#run@1", "run", .Function, "src/a.ts", 0⟩ := by
    decide +kernel
  rw [hchosen] at hmessage
  cases hmessage

/-- With fewer, both are, and the name is ambiguous. -/
theorem resolveTarget_exact_iff_runners :
    ∃ message, resolveTarget asciiLower (runners 2) "run" = .error message := by
  refine ((resolveTarget_exact_iff asciiLower (runners 2) "run").mpr ?_).2 (by decide +kernel)
  decide +kernel

end NodeBenchmark

end codespine.benchmark
