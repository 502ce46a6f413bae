import ClassDiagram.Diagram.Model
import ClassDiagram.Text.Affix

/-!
# Mermaid class diagrams

An entity is declared under an id made from its qualified name and labelled with its
simple name; its members and then the relationships follow, a line each.
-/

namespace ClassDiagram.Render.Mermaid

open ClassDiagram.Text

/-- A character of an id: separators become underscores, angle brackets vanish. -/
def idChar (c : Char) : List Char :=
  if c = '/' ∨ c = '.' ∨ c = '-' ∨ c = ' ' ∨ c = '$' then ['_']
  else if c = '<' ∨ c = '>' then []
  else [c]

/-- The id made from a qualified name. -/
def nodeId (name : String) : String :=
  replaceEach idChar name

/-- A type as it is written here: generics stand between tildes. -/
def typeText (type : String) : String :=
  replaceEach (fun c => if c = '<' ∨ c = '>' then ['~'] else [c]) type

/-- The mark on the box of a kind; plain classes have none. -/
def stereotype? : EntityKind → Option String
  | .class => none
  | .abstractClass => some "abstract"
  | .interface => some "interface"
  | .enum => some "enumeration"
  | .external => some "external"

/-- The arrow of a kind of relationship. -/
def arrow : RelationshipKind → String
  | .inheritance => "--|>"
  | .realization => "..|>"
  | .composition => "*--"
  | .aggregation => "o--"
  | .association => "-->"
  | .dependency => "..>"

/-- The line of a field. -/
def fieldLine (id : String) (f : FieldSummary) : String :=
  "  " ++ id ++ " : " ++ f.visibility.symbol ++ typeText f.type ++ " " ++ f.name ++ "\n"

/-- The line of a constructor or method. -/
def methodLine (id : String) (m : MethodSummary) : String :=
  let params := m.params.map fun p => typeText p.type ++ " " ++ p.name
  let result := match m.returnType with
    | some t => " " ++ typeText t
    | none => ""
  "  " ++ id ++ " : " ++ m.visibility.symbol ++ m.name ++ "(" ++ joinWith ", " params ++ ")"
    ++ result ++ "\n"

/-- The lines of an entity, with its members if they are wanted. -/
def entityLines (members : Bool) (e : Entity) : String :=
  let id := nodeId e.name
  "  class " ++ id ++ "[\"" ++ escapeQuotes e.simpleName ++ "\"]\n"
    ++ (match stereotype? e.kind with
        | some s => "  <<" ++ s ++ ">> " ++ id ++ "\n"
        | none => "")
    ++ (if members then
          String.join (e.fields.map (fieldLine id)) ++ String.join (e.methods.map (methodLine id))
        else "")

/-- The line of a relationship. -/
def edgeLine (r : Relationship) : String :=
  let cardinality := match r.multiplicity with
    | some m => " \"" ++ m.text ++ "\""
    | none => ""
  let label := match r.label with
    | some l => " : " ++ l
    | none => ""
  "  " ++ nodeId r.source ++ " " ++ arrow r.kind ++ cardinality ++ " " ++ nodeId r.target
    ++ label ++ "\n"

/-- The whole diagram. -/
def render (members : Bool) (d : Diagram) : String :=
  "classDiagram\n" ++ String.join (d.entities.map (entityLines members))
    ++ String.join (d.edges.map edgeLine)

end ClassDiagram.Render.Mermaid
