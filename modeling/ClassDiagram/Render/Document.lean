import ClassDiagram.Analysis
import ClassDiagram.Json.Diagram
import ClassDiagram.Json.Writer

/-!
# Documents for other tools

Two documents: the diagram as it is, with failures and duplicates, and the node and edge
lists that a graphical diagram editor takes, in which an entity is known by its
position. The first one says where entities stand, and so there is none when one of them
stands in a file whose path is no text; the editor's diagram can always be written.
-/

namespace ClassDiagram.Render

/-- The diagram with what went wrong on the way, if all its entities have documents. -/
def modelDocument? (a : Analysis) : Option Json := do
  let entities ← Json.ofList? Entity.toJson? a.diagram.entities
  return .obj [("entities", entities),
    ("relationships", .ofList Relationship.toJson a.diagram.relationships),
    ("failures", .strings (a.failures.map AnalysisError.message)),
    ("duplicates", .strings a.duplicates)]

/-- A node of the editor's diagram. -/
structure EditorNode where
  id : Nat
  entity : Entity

/-- An edge of the editor's diagram, between the positions of two nodes. -/
structure EditorEdge where
  fromId : Nat
  toId : Nat
  relationship : Relationship

/-- The editor's diagram. -/
structure EditorDiagram where
  nodes : List EditorNode
  edges : List EditorEdge

/-- The edge of a relationship whose two ends have positions. -/
def editorEdge? (d : Diagram) (r : Relationship) : Option EditorEdge := do
  return ⟨← d.indexOf? r.source, ← d.indexOf? r.target, r⟩

/-- Entities by position, and relationships between positions. -/
def editorDiagram (d : Diagram) : EditorDiagram where
  nodes := d.entities.zipIdx.map fun (e, i) => ⟨i, e⟩
  edges := d.relationships.filterMap (editorEdge? d)

/-- The editor's word for a kind of box; it has none for stubs. -/
def editorNodeType : EntityKind → String
  | .class | .external => "class"
  | .abstractClass => "abstract-class"
  | .interface => "interface"
  | .enum => "enumeration"

/-- The editor's word for a kind of relationship. -/
def editorEdgeType : RelationshipKind → String
  | .inheritance => "generalization"
  | .realization => "interface-realization"
  | .composition => "composition"
  | .aggregation => "aggregation"
  | .association => "association"
  | .dependency => "dependency"

/-- The document of a field. -/
def editorProperty (f : FieldSummary) : Json :=
  .obj [("name", .str f.name), ("type", .str f.type),
    ("accessModifier", .str f.visibility.symbol)]

/-- The document of a constructor or method. -/
def editorOperation (m : MethodSummary) : Json :=
  .obj [("name", .str m.name), ("type", .str (m.returnType.getD "void")),
    ("accessModifier", .str m.visibility.symbol),
    ("attributes", .ofList
      (fun (p : ParamSummary) => .obj [("name", .str p.name), ("type", .str p.type)]) m.params)]

/-- The document of a node, with its members if they are wanted. -/
def EditorNode.toJson (members : Bool) (n : EditorNode) : Json :=
  .obj [("id", .nat n.id), ("name", .str n.entity.simpleName),
    ("type", .str (editorNodeType n.entity.kind)),
    ("properties", .ofList editorProperty (if members then n.entity.fields else [])),
    ("operations", .ofList editorOperation (if members then n.entity.methods else [])),
    ("comment", .str (if n.entity.isExternal then "external" else ""))]

/-- The document of an edge. -/
def EditorEdge.toJson (e : EditorEdge) : Json :=
  .obj [("type", .str (editorEdgeType e.relationship.kind)),
    ("fromId", .nat e.fromId), ("toId", .nat e.toId),
    ("multiplicity", .str ((e.relationship.multiplicity.map Multiplicity.text).getD "")),
    ("label", .str (e.relationship.label.getD ""))]

/-- The document of the editor's diagram. -/
def editorDocument (members : Bool) (d : Diagram) : Json :=
  let diagram := editorDiagram d
  .obj [("nodes", .ofList (EditorNode.toJson members) diagram.nodes),
    ("edges", .ofList EditorEdge.toJson diagram.edges)]

end ClassDiagram.Render
