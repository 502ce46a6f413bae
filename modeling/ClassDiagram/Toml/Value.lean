/-!
# Values of a settings file

Settings are written as TOML. A document is a table, and a table holds values by their
keys. Numbers and moments in time are kept as they were written, because no setting is
one.
-/

namespace ClassDiagram.Toml

/-- A value. -/
inductive Value where
  | text (s : String)
  | flag (b : Bool)
  /-- An integer or a decimal number. -/
  | number (written : String)
  /-- A date, a time of day, or both. -/
  | moment (written : String)
  | list (items : List Value)
  | table (entries : List (String × Value))
  deriving Inhabited, Repr

/-- A line of a document that says something. -/
inductive Statement where
  /-- Gives a value to a key; dots in the key lead through tables. -/
  | assign (key : List String) (value : Value)
  /-- Opens a table. -/
  | header (key : List String)
  /-- Opens the next table of a list of tables. -/
  | element (key : List String)
  deriving Inhabited, Repr

end ClassDiagram.Toml
