import ClassDiagram.Diagram.Model
import Std.Data.HashMap
import Std.Data.HashSet

/-!
# The graph of a diagram

Entities as nodes and relationships as edges between the positions of nodes. Two
questions are asked of it: which entities are direct subtypes of a given one, and which
groups of entities own each other in a circle, that is, each member is reached from each
other member through ownership edges. Groups and their members are listed in ascending
order of their names, so the answer does not depend on the order of the diagram.
-/

namespace ClassDiagram

/-- A node of the graph. -/
structure GraphNode where
  name : String
  kind : EntityKind
  deriving DecidableEq, Inhabited, Repr

/-- An edge of the graph, from the position of one node to that of another. -/
structure GraphEdge where
  source : Nat
  target : Nat
  kind : RelationshipKind
  multiplicity : Option Multiplicity
  label : Option String
  deriving DecidableEq, Inhabited, Repr

/-- The graph of a diagram. -/
structure ClassGraph where
  nodes : List GraphNode
  edges : List GraphEdge
  deriving Inhabited, Repr

namespace ClassGraph

/-- The positions of the entities, by their names. -/
def positions (d : Diagram) : Std.HashMap String Nat :=
  .ofList (d.entities.zipIdx.map fun (e, i) => (e.name, i))

/-- The edge of a relationship whose two ends have positions. -/
def edge? (positions : Std.HashMap String Nat) (r : Relationship) : Option GraphEdge := do
  return ⟨← positions[r.source]?, ← positions[r.target]?, r.kind, r.multiplicity, r.label⟩

/-- A node for each entity, and an edge for each relationship whose two ends are nodes. -/
def ofDiagram (d : Diagram) : ClassGraph where
  nodes := d.entities.map fun e => ⟨e.name, e.kind⟩
  edges := d.relationships.filterMap (edge? (positions d))

/-- The edges, each with the nodes at its two ends. -/
def edgesWithNodes (g : ClassGraph) : List (GraphNode × GraphNode × GraphEdge) :=
  g.edges.filterMap fun e => do
    return (← g.nodes[e.source]?, ← g.nodes[e.target]?, e)

end ClassGraph

/-- The order in which names are listed: by code points, which is the order of their
UTF-8 bytes. -/
def nameLe (a b : String) : Bool :=
  !decide (b < a)

/-- The order in which groups of names are listed: by the first place where they
differ. -/
def namesLe : List String → List String → Bool
  | [], _ => true
  | _ :: _, [] => false
  | a :: as, b :: bs => if a == b then namesLe as bs else nameLe a b

namespace Diagram

/-- The direct subtypes of `name`, ascending; one for each edge. -/
def subtypesOf (d : Diagram) (name : String) : List String :=
  let found := d.edges.filter fun r => r.target == name && r.kind.isSubtyping
  (found.map (·.source)).mergeSort nameLe

/-- The ownership edges, as pairs of names. -/
def ownershipEdges (d : Diagram) : List (String × String) :=
  (d.edges.filter fun r => r.kind.isOwnership).map fun r => (r.source, r.target)

end Diagram

namespace Reach

/-- The targets of each source. -/
def successors (edges : List (String × String)) : Std.HashMap String (List String) :=
  edges.foldl (fun m e => m.insert e.1 (e.2 :: m.getD e.1 [])) ∅

/-- Marks everything reached from `frontier`. A step takes one name off the frontier, and
an unmarked name is marked and replaced by its successors; `fuel` bounds the steps. -/
def mark (next : String → List String) :
    Nat → List String → Std.HashSet String → Std.HashSet String
  | 0, _, marked => marked
  | _ + 1, [], marked => marked
  | fuel + 1, name :: frontier, marked =>
    if marked.contains name then mark next fuel frontier marked
    else mark next fuel (next name ++ frontier) (marked.insert name)

/-- Everything reached from `start` along `edges`, itself included. Every edge puts at
most one name on the frontier, so one step for each edge and two more are enough. -/
def closure (edges : List (String × String)) (start : String) : Std.HashSet String :=
  let table := successors edges
  mark (fun name => table.getD name []) (edges.length + 2) [start] ∅

end Reach

namespace Diagram

/-- The groups of at least two entities that own each other in a circle. -/
def ownershipCycles (d : Diagram) : List (List String) :=
  let owns := d.ownershipEdges
  let names := d.entities.map (·.name)
  let reached := names.map fun n => (n, Reach.closure owns n)
  let groups := reached.map fun (n, closure) =>
    ((reached.filter fun (o, back) => closure.contains o && back.contains n).map
      (·.1)).mergeSort nameLe
  -- each group is found once for every member; its least member stands for it
  let first := (names.zip groups).filter fun (n, g) => 1 < g.length && g.head? == some n
  (first.map (·.2)).mergeSort namesLe

end Diagram

end ClassDiagram
