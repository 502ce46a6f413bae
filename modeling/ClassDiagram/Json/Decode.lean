import ClassDiagram.Json.Value

/-!
# Reading values out of documents

Small readers from which the readers of the data types are built. They answer nothing
when a document does not have the expected shape. A record may be written as an object,
whose unknown entries are ignored, or as the list of its fields in their order; a choice
as the name of the alternative, or as an object with that name as its only key.
-/

namespace ClassDiagram.Json

/-- A reader of values of one type. -/
abbrev Reader (α : Type) := Json → Option α

/-- Reads a text. -/
def asString : Reader String
  | .str s => some s
  | _ => none

/-- Reads a truth value. -/
def asBool : Reader Bool
  | .bool b => some b
  | _ => none

/-- Reads an unsigned number of 64 bits. -/
def asNat64 : Reader Nat
  | .num (.ofNat n) 0 => if n < 18446744073709551616 then some n else none
  | _ => none

/-- Reads a list. -/
def asList {α : Type} (item : Reader α) : Reader (List α)
  | .arr items => items.mapM item
  | _ => none

/-- Reads a value or null. -/
def asOption {α : Type} (value : Reader α) : Reader (Option α)
  | .null => some none
  | v => (value v).map some

/-- A record as it was written. -/
inductive Record where
  /-- By the names of its fields. -/
  | keyed (entries : List (String × Json))
  /-- By the order of its fields. -/
  | listed (items : List Json)

/-- Sees a document as a record of `width` fields. -/
def asRecord (width : Nat) : Json → Option Record
  | .obj entries => some (.keyed entries)
  | .arr items => if items.length ≤ width then some (.listed items) else none
  | _ => none

namespace Record

/-- What was written for the field `name`, which is the `i`-th. -/
def field? (r : Record) (i : Nat) (name : String) : Option Json :=
  match r with
  | .keyed entries => entries.lookup name
  | .listed items => items[i]?

/-- A field that has to be present. -/
def required {α : Type} (r : Record) (i : Nat) (name : String) (read : Reader α) : Option α :=
  (r.field? i name).bind read

/-- A field that may be missing and then has a default. -/
def defaulting {α : Type} (r : Record) (i : Nat) (name : String) (default : α)
    (read : Reader α) : Option α :=
  match r.field? i name with
  | none => some default
  | some v => read v

/-- A field that may be null, and missing only where fields are given by name. -/
def optional {α : Type} (r : Record) (i : Nat) (name : String) (read : Reader α) :
    Option (Option α) :=
  match r.field? i name, r with
  | some v, _ => asOption read v
  | none, .keyed _ => some none
  | none, .listed _ => none

end Record

/-- The alternative a choice names, and what was written with it. -/
def asChoice : Json → Option (String × Option Json)
  | .str name => some (name, none)
  | .obj [(name, v)] => some (name, some v)
  | _ => none

/-- Reads one of the named alternatives, none of which carries a value. -/
def asOneOf {α : Type} (alternatives : List (String × α)) : Reader α := fun v =>
  match asChoice v with
  | some (name, none) => alternatives.lookup name
  | some (name, some .null) => alternatives.lookup name
  | _ => none

end ClassDiagram.Json
