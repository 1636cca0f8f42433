import Mathlib

namespace codespine.query

/-- The local variables of `GraphQuery.stronglyConnectedComponents`. Arrays are
functions of the vertex; an entry that holds no number yet is `-1`, as in the
source. The two stacks are lists with their top first, and `workNode` with
`workNext`, which are only ever pushed and popped together, form one list of
pairs. -/
structure TarjanState (count : ℕ) where
  index : Fin count → ℤ
  lowlink : Fin count → ℤ
  onStack : Fin count → Bool
  componentOf : Fin count → ℤ
  sccStack : List (Fin count)
  work : List (Fin count × ℕ)
  counter : ℕ
  componentCount : ℕ

namespace TarjanState

variable {count : ℕ}

def initial (count : ℕ) : TarjanState count where
  index := fun _ => -1
  lowlink := fun _ => 0
  onStack := fun _ => false
  componentOf := fun _ => -1
  sccStack := []
  work := []
  counter := 0
  componentCount := 0

/-- First visit of a vertex: it takes the next index and goes on both stacks. -/
def discover (s : TarjanState count) (vertex : Fin count) : TarjanState count :=
  { s with
    index := Function.update s.index vertex s.counter
    lowlink := Function.update s.lowlink vertex s.counter
    counter := s.counter + 1
    sccStack := vertex :: s.sccStack
    onStack := Function.update s.onStack vertex true
    work := (vertex, 0) :: s.work }

/-- The `if` on one successor of the vertex on top of the work stack, whose
cursor has moved past it already. -/
def visitSuccessor (s : TarjanState count) (node next : Fin count) : TarjanState count :=
  if s.index next = -1 then
    s.discover next
  else if s.onStack next = true ∧ s.index next < s.lowlink node then
    { s with lowlink := Function.update s.lowlink node (s.index next) }
  else s

/-- The `do … while` loop that pops a finished component. On an empty stack the
popped value is `undefined` and `node` itself is used, which ends the loop. -/
def popComponent (node : Fin count) (component : ℤ) :
    List (Fin count) → (Fin count → Bool) → (Fin count → ℤ) →
      List (Fin count) × (Fin count → Bool) × (Fin count → ℤ)
  | [], onStack, componentOf =>
    ([], Function.update onStack node false, Function.update componentOf node component)
  | member :: rest, onStack, componentOf =>
    let onStack := Function.update onStack member false
    let componentOf := Function.update componentOf member component
    if member = node then (rest, onStack, componentOf)
    else popComponent node component rest onStack componentOf

/-- Pops the component rooted at `node` when its lowlink never left it. -/
def closeComponent (s : TarjanState count) (node : Fin count) : TarjanState count :=
  if s.lowlink node = s.index node then
    let popped := popComponent node s.componentCount s.sccStack s.onStack s.componentOf
    { s with
      sccStack := popped.1
      onStack := popped.2.1
      componentOf := popped.2.2
      componentCount := s.componentCount + 1 }
  else s

/-- Leaves `node`: its frame is dropped and its lowlink handed to the parent. -/
def leave (s : TarjanState count) (node : Fin count) (below : List (Fin count × ℕ)) :
    TarjanState count :=
  match below with
  | [] => { s with work := below }
  | (parent, _) :: _ =>
    if s.lowlink node < s.lowlink parent then
      { s with work := below, lowlink := Function.update s.lowlink parent (s.lowlink node) }
    else { s with work := below }

/-- One iteration of the inner `while` loop. -/
def step (successors : Fin count → List (Fin count)) (s : TarjanState count) : TarjanState count :=
  match s.work with
  | [] => s
  | (node, position) :: below =>
    if h : position < (successors node).length then
      visitSuccessor { s with work := (node, position + 1) :: below } node (successors node)[position]
    else (closeComponent s node).leave node below

/-- The inner `while` loop, for at most `fuel` iterations. -/
def loop (successors : Fin count → List (Fin count)) : ℕ → TarjanState count → TarjanState count
  | 0, s => s
  | fuel + 1, s => if s.work = [] then s else loop successors fuel (s.step successors)

/-- Iterations that suffice for every run of the inner loop: a vertex is
entered once, takes one iteration per successor and one to be left. -/
def fuel (successors : Fin count → List (Fin count)) : ℕ :=
  ((List.finRange count).map fun v => (successors v).length + 1).sum

/-- The body of the outer `for` loop. -/
def start (successors : Fin count → List (Fin count)) (s : TarjanState count) (vertex : Fin count) :
    TarjanState count :=
  if s.index vertex ≠ -1 then s else loop successors (fuel successors) (s.discover vertex)

end TarjanState

/-- The value `stronglyConnectedComponents` returns. -/
structure Components (count : ℕ) where
  componentOf : Fin count → ℤ
  componentCount : ℕ

/-- Tarjan's strongly connected components over the index-based successor
lists, with an explicit work stack. A table whose entries are valid indices is
a function into lists of vertices. -/
def GraphQuery.stronglyConnectedComponents {count : ℕ} (successors : Fin count → List (Fin count)) :
    Components count :=
  let final := (List.finRange count).foldl (TarjanState.start successors) (TarjanState.initial count)
  { componentOf := final.componentOf, componentCount := final.componentCount }

end codespine.query
