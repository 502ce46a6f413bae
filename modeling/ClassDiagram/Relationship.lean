/-!
# Relationships

A directed edge of a class diagram. Two edges are the same edge when they agree on
source, target, kind and label; the multiplicity is not part of that identity, so
the first edge added for a key settles it. `RelationshipSet` keeps the edges in the
order of their first arrival and never holds a key twice.
-/

namespace ClassDiagram

/-- The kind of a relationship between two entities. -/
inductive RelationshipKind where
  | inheritance
  | realization
  | composition
  | aggregation
  | association
  | dependency
  deriving DecidableEq, Inhabited, Repr

namespace RelationshipKind

/-- Every kind, in the order of the summaries. -/
def all : List RelationshipKind :=
  [.inheritance, .realization, .composition, .aggregation, .association, .dependency]

/-- The word for a kind. -/
def text : RelationshipKind → String
  | .inheritance => "inheritance"
  | .realization => "realization"
  | .composition => "composition"
  | .aggregation => "aggregation"
  | .association => "association"
  | .dependency => "dependency"

/-- Whether the source of such an edge holds its target. -/
def isOwnership : RelationshipKind → Bool
  | .composition | .aggregation => true
  | _ => false

/-- Whether the source of such an edge is a subtype of its target. -/
def isSubtyping : RelationshipKind → Bool
  | .inheritance | .realization => true
  | _ => false

/-- The list of kinds is complete. -/
theorem mem_all (k : RelationshipKind) : k ∈ all := by
  cases k <;> decide

end RelationshipKind

/-- How many targets one source has. -/
inductive Multiplicity where
  | one
  | zeroOrOne
  | many
  deriving DecidableEq, Inhabited, Repr

/-- The written form of a multiplicity. -/
def Multiplicity.text : Multiplicity → String
  | .one => "1"
  | .zeroOrOne => "0..1"
  | .many => "0..*"

/-- The identity of a relationship. -/
structure RelationshipKey where
  source : String
  target : String
  kind : RelationshipKind
  label : Option String
  deriving DecidableEq, Inhabited, Repr

/-- A directed edge of the diagram. -/
structure Relationship where
  source : String
  target : String
  kind : RelationshipKind
  multiplicity : Option Multiplicity
  label : Option String
  deriving DecidableEq, Inhabited, Repr

namespace Relationship

/-- What makes the edge the edge it is: all but the multiplicity. -/
def key (r : Relationship) : RelationshipKey :=
  ⟨r.source, r.target, r.kind, r.label⟩

/-- Whether the edge leads back to its source. -/
def isSelfLoop (r : Relationship) : Bool :=
  r.source == r.target

/-- One line for an edge: `A -[kind]-> B [multiplicity] (label)`. -/
def text (r : Relationship) : String :=
  r.source ++ " -[" ++ r.kind.text ++ "]-> " ++ r.target
    ++ (match r.multiplicity with | some m => " [" ++ m.text ++ "]" | none => "")
    ++ (match r.label with | some l => " (" ++ l ++ ")" | none => "")

end Relationship

/-- Edges in the order of their first arrival, one for each key. -/
structure RelationshipSet where
  edges : List Relationship
  deriving Inhabited, Repr

namespace RelationshipSet

/-- The set without edges. -/
def empty : RelationshipSet :=
  ⟨[]⟩

/-- Whether an edge with this key is present. -/
def contains (s : RelationshipSet) (key : RelationshipKey) : Bool :=
  s.edges.any fun r => r.key == key

/-- Adds an edge at the end, unless one with the same key is present. -/
def insert (s : RelationshipSet) (r : Relationship) : RelationshipSet :=
  if s.contains r.key then s else ⟨s.edges ++ [r]⟩

/-- Adds edges one after the other. -/
def extend (s : RelationshipSet) (rs : List Relationship) : RelationshipSet :=
  rs.foldl insert s

/-- The set of the given edges. -/
def ofList (rs : List Relationship) : RelationshipSet :=
  empty.extend rs

/-- How many edges there are. -/
def size (s : RelationshipSet) : Nat :=
  s.edges.length

@[simp] theorem edges_empty : empty.edges = [] := rfl

@[simp] theorem extend_nil (s : RelationshipSet) : s.extend [] = s := rfl

@[simp] theorem extend_cons (s : RelationshipSet) (r : Relationship) (rs : List Relationship) :
    s.extend (r :: rs) = (s.insert r).extend rs := rfl

/-- A relationship whose key is there already changes nothing. -/
theorem insert_of_contains {s : RelationshipSet} {r : Relationship}
    (h : s.contains r.key = true) : s.insert r = s := by
  simp [insert, h]

end RelationshipSet

end ClassDiagram
