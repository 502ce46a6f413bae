import ClassDiagram.Entity
import ClassDiagram.Error
import ClassDiagram.Relationship

/-!
# The diagram

A diagram has entities, one for each name and in the order in which the names arrived,
and relationships between them. It is put together by a `Draft`, which takes entities and
relationships in any order and, at the end, adds a stub for every endpoint that got no
entity. So a finished diagram is closed: both ends of every relationship are in it.
-/

namespace ClassDiagram

/-- A finished diagram. -/
structure Diagram where
  entities : List Entity
  relationships : List Relationship
  deriving DecidableEq, Inhabited, Repr

namespace Diagram

/-- The entity called `name`. -/
def entity? (d : Diagram) (name : String) : Option Entity :=
  d.entities.find? fun e => e.name == name

/-- Whether there is an entity called `name`. -/
def contains (d : Diagram) (name : String) : Bool :=
  d.entities.any fun e => e.name == name

/-- The position of the entity called `name`, which serves as its id. -/
def indexOf? (d : Diagram) (name : String) : Option Nat :=
  d.entities.findIdx? fun e => e.name == name

/-- The relationships that start at `source`. -/
def relationshipsFrom (d : Diagram) (source : String) : List Relationship :=
  d.relationships.filter fun r => r.source == source

/-- The relationships that can be drawn: those whose two ends are both in the diagram. -/
def edges (d : Diagram) : List Relationship :=
  d.relationships.filter fun r => d.contains r.source && d.contains r.target

/-- Whether both ends of every relationship are entities of the diagram. -/
def isClosed (d : Diagram) : Bool :=
  d.relationships.all fun r => d.contains r.source && d.contains r.target

end Diagram

/-- A diagram in the making. -/
structure Draft where
  entities : List Entity
  relationships : RelationshipSet
  deriving Inhabited, Repr

namespace Draft

/-- The draft to start from. -/
def empty : Draft :=
  ⟨[], .empty⟩

/-- Adds an entity. A second one of the same name is refused and the first one kept. -/
def addEntity (b : Draft) (e : Entity) : Except AnalysisError Draft :=
  if b.entities.any fun old => old.name == e.name then .error (.duplicateEntity e.name)
  else .ok { b with entities := b.entities ++ [e] }

/-- Adds relationships; the first one for a key stands. -/
def addRelationships (b : Draft) (rs : List Relationship) : Draft :=
  { b with relationships := b.relationships.extend rs }

/-- Adds a stub for `name` unless an entity has that name. -/
def withStub (entities : List Entity) (name : String) : List Entity :=
  if entities.any fun e => e.name == name then entities else entities ++ [.stub name]

/-- The names at the two ends of relationships, source before target. -/
def endpoints (rs : List Relationship) : List String :=
  rs.flatMap fun r => [r.source, r.target]

/-- The finished diagram, with a stub for every endpoint that has no entity. -/
def finish (b : Draft) : Diagram where
  entities := (endpoints b.relationships.edges).foldl withStub b.entities
  relationships := b.relationships.edges

end Draft

end ClassDiagram
