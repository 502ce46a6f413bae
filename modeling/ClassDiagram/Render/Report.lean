import ClassDiagram.Analysis
import ClassDiagram.Diagram.Graph
import ClassDiagram.Text.Affix

/-!
# The report for a terminal

Counts, entities, relationships with a tally by kind, ownership circles, duplicates and
failures, as lines of text. With colours, headings and marks are wrapped in terminal
escapes; without them the same text comes out bare.
-/

namespace ClassDiagram.Render

open ClassDiagram.Text

/-- How a piece of text is set off. The codes are those of a terminal. -/
inductive Emphasis where
  | plain
  | bold
  | dimmed
  | cyan
  | boldYellow
  | boldGreen
  | boldRed
  deriving DecidableEq, Inhabited, Repr

/-- The terminal codes of an emphasis; none for plain text. -/
def Emphasis.codes? : Emphasis → Option String
  | .plain => none
  | .bold => some "1"
  | .dimmed => some "2"
  | .cyan => some "36"
  | .boldYellow => some "1;33"
  | .boldGreen => some "1;32"
  | .boldRed => some "1;31"

/-- A text with its emphasis, if colours are on. -/
def emphasize (colours : Bool) (e : Emphasis) (s : String) : String :=
  match colours, e.codes? with
  | true, some codes => "\x1b[" ++ codes ++ "m" ++ s ++ "\x1b[0m"
  | _, _ => s

/-- A line drawn with `mark`. -/
def rule (mark : String) : String :=
  repeated mark 40

/-- The emphasis of the kind of a box. -/
def kindEmphasis : EntityKind → Emphasis
  | .external => .dimmed
  | .interface => .cyan
  | _ => .plain

/-- A number in decimal digits. -/
def number (n : Nat) : String :=
  String.ofList (Nat.toDigits 10 n)

/-- Texts put together. -/
def concat (parts : List String) : String :=
  String.join parts

/-- The section of the entities. -/
def entitySection (colours : Bool) (d : Diagram) : String :=
  "\n" ++ emphasize colours .bold "Entities" ++ "\n" ++ rule "-" ++ "\n"
    ++ concat (d.entities.map fun e =>
      "  " ++ emphasize colours (kindEmphasis e.kind) (padRight 16 e.kind.text)
        ++ " " ++ e.name ++ "\n")

/-- The lines that count relationships by kind. -/
def kindCounts (rs : List Relationship) : String :=
  concat (RelationshipKind.all.map fun k =>
    let n := rs.countP fun r => r.kind == k
    if n = 0 then "" else "    " ++ k.text ++ ": " ++ number n ++ "\n")

/-- The section of the relationships; nothing if there are none. -/
def relationshipSection (colours : Bool) (d : Diagram) : String :=
  if d.relationships.isEmpty then ""
  else "\n" ++ emphasize colours .bold "Relationships" ++ "\n" ++ rule "-" ++ "\n"
    ++ concat (d.relationships.map fun r => "  " ++ r.text ++ "\n")
    ++ "\n  By kind:\n" ++ kindCounts d.relationships

/-- The section of the ownership circles; nothing if there are none. -/
def cycleSection (colours : Bool) (d : Diagram) : String :=
  let cycles := d.ownershipCycles
  if cycles.isEmpty then ""
  else "\n" ++ emphasize colours .boldYellow "Ownership cycles" ++ " (" ++ number cycles.length
    ++ " found)\n" ++ rule "-" ++ "\n"
    ++ concat (cycles.map fun c =>
      "  " ++ emphasize colours .boldYellow "WARN" ++ " " ++ joinWith " <-> " c ++ "\n")

/-- The section of the names declared more than once; nothing if there are none. -/
def duplicateSection (colours : Bool) (duplicates : List String) : String :=
  if duplicates.isEmpty then ""
  else "\n" ++ emphasize colours .boldYellow "Duplicate declarations" ++ "\n"
    ++ concat (duplicates.map fun name => "  " ++ name ++ " (first declaration kept)\n")

/-- The closing section: that all is well, or what failed. -/
def failureSection (colours : Bool) (failures : List AnalysisError) : String :=
  if failures.isEmpty then
    "\n" ++ emphasize colours .boldGreen "All entities classified." ++ "\n"
  else "\n" ++ emphasize colours .boldRed "Classification failures" ++ " ("
    ++ number failures.length ++ " entities)\n"
    ++ concat (failures.map fun e =>
      "  " ++ emphasize colours .boldRed "ERROR" ++ " " ++ e.message ++ "\n")

/-- The report of an analysis. -/
def report (colours : Bool) (a : Analysis) : String :=
  let d := a.diagram
  "\n" ++ emphasize colours .bold "umlgen - Class Diagram Analysis" ++ "\n" ++ rule "=" ++ "\n\n"
    ++ emphasize colours .bold "Summary" ++ ": " ++ number d.entities.length ++ " entities ("
    ++ number (d.entities.countP Entity.isExternal) ++ " external), "
    ++ number d.relationships.length ++ " relationships\n"
    ++ entitySection colours d
    ++ relationshipSection colours d
    ++ cycleSection colours d
    ++ duplicateSection colours a.duplicates
    ++ failureSection colours a.failures
    ++ "\n"

end ClassDiagram.Render
