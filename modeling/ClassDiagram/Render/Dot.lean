import ClassDiagram.Diagram.Model
import ClassDiagram.Text.Affix
import ClassDiagram.Text.Blank

/-!
# Graphviz class diagrams

An entity is a record node: a title and, if members are wanted and the entity is no stub,
a compartment of fields and one of methods. In a record label braces, bars, angle
brackets and quotes structure the label, so inside names they are escaped. Relationships
carry the arrow heads of a class diagram.
-/

namespace ClassDiagram.Render.Dot

open ClassDiagram.Text

/-- A character of an id: separators become underscores. -/
def idChar (c : Char) : List Char :=
  if c = '/' ∨ c = '.' ∨ c = '-' ∨ c = ' ' ∨ c = '$' then ['_'] else [c]

/-- The id made from a qualified name. -/
def nodeId (name : String) : String :=
  replaceEach idChar name

/-- A character inside a record label. -/
def recordChar (c : Char) : List Char :=
  if c = '\x7b' ∨ c = '\x7d' ∨ c = '|' ∨ c = '<' ∨ c = '>' ∨ c = '"' then ['\\', c] else [c]

/-- A line inside a record label, without leading blanks. -/
def escapeRecord (s : String) : String :=
  trimLeft (replaceEach recordChar s)

/-- The mark in the title of a kind; plain classes have none. -/
def stereotype : EntityKind → String
  | .class => ""
  | .abstractClass => "«abstract»\\n"
  | .interface => "«interface»\\n"
  | .enum => "«enumeration»\\n"
  | .external => "«external»\\n"

/-- The text of a field before it is escaped. -/
def fieldText (f : FieldSummary) : String :=
  f.visibility.symbol ++ " " ++ f.name ++ " : " ++ f.type

/-- The text of a constructor or method before it is escaped. -/
def methodText (m : MethodSummary) : String :=
  let params := m.params.map fun p => p.name ++ " : " ++ p.type
  let result := match m.returnType with
    | some t => " : " ++ t
    | none => ""
  m.visibility.symbol ++ " " ++ m.name ++ "(" ++ joinWith ", " params ++ ")" ++ result

/-- A compartment: its lines, each closed by the mark for left alignment. -/
def compartment (lines : List String) : String :=
  String.join (lines.map fun l => escapeRecord l ++ "\\l")

/-- The title of a record label. -/
def title (e : Entity) : String :=
  stereotype e.kind ++ escapeRecord e.simpleName

/-- The record label of an entity. -/
def recordLabel (members : Bool) (e : Entity) : String :=
  if !members || e.isExternal then "\x7b" ++ title e ++ "\x7d"
  else "\x7b" ++ title e ++ "|" ++ compartment (e.fields.map fieldText) ++ "|"
    ++ compartment (e.methods.map methodText) ++ "\x7d"

/-- The statement of a node. -/
def nodeLine (members : Bool) (e : Entity) : String :=
  "  " ++ nodeId e.name ++ " [label=\"" ++ recordLabel members e ++ "\""
    ++ (if e.isExternal then ", style=dashed" else "") ++ "];\n"

/-- The arrow of a kind of relationship. -/
def arrow : RelationshipKind → String
  | .inheritance => "arrowhead=empty"
  | .realization => "arrowhead=empty, style=dashed"
  | .composition => "dir=both, arrowtail=diamond, arrowhead=vee"
  | .aggregation => "dir=both, arrowtail=odiamond, arrowhead=vee"
  | .association => "arrowhead=vee"
  | .dependency => "arrowhead=vee, style=dashed"

/-- The statement of an edge. -/
def edgeLine (r : Relationship) : String :=
  let label := match r.label with
    | some l => ", label=\"" ++ escapeQuotes l ++ "\""
    | none => ""
  let head := match r.multiplicity with
    | some m => ", headlabel=\"" ++ m.text ++ "\""
    | none => ""
  "  " ++ nodeId r.source ++ " -> " ++ nodeId r.target ++ " [" ++ arrow r.kind ++ label ++ head
    ++ "];\n"

/-- The whole diagram. -/
def render (members : Bool) (d : Diagram) : String :=
  "digraph classes \x7b\n  rankdir=BT;\n"
    ++ "  node [shape=record, fontname=\"Helvetica\", fontsize=10];\n"
    ++ "  edge [fontname=\"Helvetica\", fontsize=9];\n\n"
    ++ String.join (d.entities.map (nodeLine members)) ++ "\n"
    ++ String.join (d.edges.map edgeLine) ++ "\x7d\n"

end ClassDiagram.Render.Dot
