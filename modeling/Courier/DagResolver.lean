import Courier.Library.Dict
import Mathlib.Data.List.Sort

/-!
# The dependency resolver

The resolver counts for each item of a catalog the known entries of its list of dependencies, takes away the items
with nothing left to wait for, stage after stage, and raises an error if some are left over.
-/

namespace Courier.DagResolver

variable {α : Type} [LinearOrder α]

instance lawfulBEq : LawfulBEq α := inferInstance

/-- The items with the items they depend on. -/
abbrev Graph (α : Type) := Dict α (List α)

/-- Topological order and parallel stages. -/
structure DAGResolutionReport (α : Type) where
  isAcyclic : Bool
  executionOrder : List α
  stages : List (List α)
  itemDependencies : Graph α

/-- The error about a circular dependency, with the nodes it names. -/
structure CycleDetectedError (α : Type) where
  cyclicNodes : List α
  deriving DecidableEq

/-- How many entries each node waits for, and the nodes that wait for it. -/
structure Degrees (α : Type) where
  inDegree : Dict α Int
  dependents : Dict α (List α)

/-- The stage that is taken away: the degrees, and the nodes of the next one. -/
structure Pass (α : Type) where
  inDegree : Dict α Int
  nextQ : List α

def degree (inDegree : Dict α Int) (node : α) : Int :=
  (inDegree.get? node).getD 0

/-- The nodes that wait for a node. -/
def dependentsOf (dependents : Dict α (List α)) (node : α) : List α :=
  (dependents.get? node).getD []

def sorted (l : List α) : List α :=
  l.insertionSort (· ≤ ·)

namespace Degrees

/-- No node waits for another one. -/
def fresh (nodes : List α) : Degrees α where
  inDegree := nodes.foldl (fun d k => d.set k 0) ∅
  dependents := nodes.foldl (fun d k => d.set k []) ∅

def add (nodes : List α) (node : α) (s : Degrees α) (d : α) : Degrees α :=
  if d ∈ nodes then
    { inDegree := s.inDegree.set node (degree s.inDegree node + 1)
      dependents := s.dependents.set d ((dependentsOf s.dependents d).insert node) }
  else s

def ofGraph (graph : Graph α) : Degrees α :=
  graph.entries.foldl (fun s p => p.2.foldl (add graph.keys p.1) s) (fresh graph.keys)

end Degrees

/-- A node that waits for one fewer. -/
def release (s : Pass α) (dep : α) : Pass α :=
  let left := degree s.inDegree dep - 1
  { inDegree := s.inDegree.set dep left
    nextQ := if left = 0 then s.nextQ ++ [dep] else s.nextQ }

/-- A node that is taken away. -/
def visit (dependents : Dict α (List α)) (s : Pass α) (node : α) : Pass α :=
  (sorted (dependentsOf dependents node)).foldl release s

/-- At most `fuel` stages: the degrees, the stages and the order at the end. -/
def loop (dependents : Dict α (List α)) :
    Nat → Pass α → List (List α) → List α → Option (Dict α Int × List (List α) × List α)
  | 0, _, _, _ => none
  | fuel + 1, s, stages, executionOrder =>
      if s.nextQ = [] then some (s.inDegree, stages, executionOrder)
      else
        let currentStage := sorted s.nextQ
        loop dependents fuel (currentStage.foldl (visit dependents) { s with nextQ := [] })
          (stages ++ [currentStage]) (executionOrder ++ currentStage)

/-- `resolve`, if the loop ends within a stage for every node and one more. -/
def resolve (graph : Graph α) : Option (Except (CycleDetectedError α) (DAGResolutionReport α)) :=
  let degrees := Degrees.ofGraph graph
  let q := (degrees.inDegree.entries.filter fun p => p.2 = 0).map Prod.fst
  match loop degrees.dependents (graph.keys.length + 1) ⟨degrees.inDegree, q⟩ [] [] with
  | none => none
  | some (inDegree, stages, executionOrder) =>
      if executionOrder.length ≠ graph.keys.length then
        some (.error ⟨(inDegree.entries.filter fun p => 0 < p.2).map Prod.fst⟩)
      else some (.ok ⟨true, executionOrder, stages, graph⟩)

end Courier.DagResolver
