import ClassDiagram.Render.Document
import ClassDiagram.Render.Dot
import ClassDiagram.Render.Mermaid
import ClassDiagram.Render.Report

/-!
# Output formats

The five formats in which an analysis can be shown, by name.
-/

namespace ClassDiagram

/-- A format for an analysis. -/
inductive OutputFormat where
  | text
  | json
  | glsp
  | mermaid
  | dot
  deriving DecidableEq, Inhabited, Repr

namespace OutputFormat

/-- The names of the formats. -/
def names : List (String × OutputFormat) :=
  [("text", .text), ("json", .json), ("glsp", .glsp), ("mermaid", .mermaid), ("dot", .dot)]

/-- Reads the name of a format in its exact case. -/
def parse? (s : String) : Option OutputFormat :=
  names.lookup s

/-- Reads the name of a format, the case of ASCII letters aside. -/
def parseLoosely? (s : String) : Option OutputFormat :=
  names.lookup (String.ofList (s.toList.map Char.toLower))

/-- How a format is written out. -/
structure Options where
  colours : Bool := false
  /-- Whether boxes show their members; reports and plain documents always do. -/
  members : Bool := true
  /-- Whether documents are written on one line. -/
  compact : Bool := false
  deriving DecidableEq, Inhabited, Repr

/-- A document written out. -/
def document (o : Options) (v : Json) : String :=
  if o.compact then v.compact else v.pretty

/-- An analysis in a format, if it can be written in it. -/
def render? (o : Options) (a : Analysis) : OutputFormat → Option String
  | .text => some (Render.report o.colours a)
  | .json => (Render.modelDocument? a).map (document o)
  | .glsp => some (document o (Render.editorDocument o.members a.diagram))
  | .mermaid => some (Render.Mermaid.render o.members a.diagram)
  | .dot => some (Render.Dot.render o.members a.diagram)

end OutputFormat

end ClassDiagram
