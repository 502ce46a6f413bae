import ClassDiagram.Toml.Value

/-!
# Documents out of statements

The statements of a document build one table. Every table remembers how it came about,
because that decides what may still be added: a header opens a table that does not exist
yet, or that so far only lies on the way to another header; a dotted key passes through
tables of its own kind only. A value, once given, is never changed.
-/

namespace ClassDiagram.Toml

/-- How a table came about. -/
inductive Origin where
  /-- By a header of its own. -/
  | header
  /-- It lies on the way to a header. -/
  | implied
  /-- It lies on the way to a key with dots. -/
  | dotted
  deriving DecidableEq, Inhabited, Repr

/-- What a key of an unfinished table holds. -/
inductive Item where
  | value (v : Value)
  | table (origin : Origin) (entries : List (String × Item))
  /-- A list of tables, of which only the latest can grow; the others are latest first. -/
  | elements (latest : List (String × Item)) (earlier : List (List (String × Item)))
  deriving Inhabited

/-- The entries of an unfinished table, in the order of their keys' first use. -/
abbrev Entries := List (String × Item)

namespace Entries

/-- The entries with a key given another item. -/
def replace (key : String) (item : Item) : Entries → Entries
  | [] => []
  | (k, old) :: rest => if k == key then (k, item) :: rest else (k, old) :: replace key item rest

/-- Changes the table that a path leads to. Missing tables on the way are made. When
`dotted` is set the path belongs to a key, and does not pass through tables with headers of
their own. -/
def within (dotted : Bool) (change : Origin → Entries → Option Entries) :
    List String → Origin → Entries → Option Entries
  | [], origin, entries => change origin entries
  | key :: path, _, entries =>
    match entries.lookup key with
    | none => do
      let origin := if dotted then .dotted else .implied
      return entries ++ [(key, .table origin (← within dotted change path origin []))]
    | some (.value _) => none
    | some (.table origin inner) =>
      if dotted && origin == .header then none
      else do
        return replace key (.table origin (← within dotted change path origin inner)) entries
    | some (.elements latest earlier) => do
      return replace key (.elements (← within dotted change path .header latest) earlier) entries

/-- Adds a key to a table. Keys with dots are added to tables made by such keys, and keys
without to any other. -/
def add (hasDots : Bool) (key : String) (v : Value) (origin : Origin) (entries : Entries) :
    Option Entries :=
  if (origin == .dotted) != hasDots then none
  else if (entries.lookup key).isSome then none
  else some (entries ++ [(key, .value v)])

/-- Gives a value to a key of a table. -/
def assign (key : List String) (v : Value) (origin : Origin) (entries : Entries) :
    Option Entries := do
  let last ← key.getLast?
  within true (add (1 < key.length) last v) key.dropLast origin entries

/-- Opens a table. -/
def openTable (key : List String) (entries : Entries) : Option Entries := do
  let last ← key.getLast?
  let change (_ : Origin) (entries : Entries) : Option Entries :=
    match entries.lookup last with
    | none => some (entries ++ [(last, .table .header [])])
    | some (.table .implied inner) => some (replace last (.table .header inner) entries)
    | some _ => none
  within false change key.dropLast .header entries

/-- Opens the next table of a list. -/
def openElement (key : List String) (entries : Entries) : Option Entries := do
  let last ← key.getLast?
  let change (_ : Origin) (entries : Entries) : Option Entries :=
    match entries.lookup last with
    | none => some (entries ++ [(last, .elements [] [])])
    | some (.elements latest earlier) =>
      some (replace last (.elements [] (latest :: earlier)) entries)
    | some _ => none
  within false change key.dropLast .header entries

end Entries

mutual

/-- The value of a finished item. -/
def Item.finish : Item → Value
  | .value v => v
  | .table _ entries => .table (finishEntries entries)
  | .elements latest earlier =>
    .list ((.table (finishEntries latest) :: finishTables earlier).reverse)

/-- The values of finished entries. -/
def finishEntries : List (String × Item) → List (String × Value)
  | [] => []
  | (key, item) :: rest => (key, item.finish) :: finishEntries rest

/-- The values of finished tables. -/
def finishTables : List (List (String × Item)) → List Value
  | [] => []
  | entries :: rest => .table (finishEntries entries) :: finishTables rest

end

/-- An unfinished document. -/
structure Draft where
  entries : Entries
  /-- The key of the header that was opened last. -/
  opened : List String

namespace Draft

/-- Nothing said yet. -/
def empty : Draft :=
  ⟨[], []⟩

/-- The document after one more statement. -/
def say (d : Draft) : Statement → Option Draft
  | .assign key v => do
    let entries ← Entries.within false (Entries.assign key v) d.opened .header d.entries
    return { d with entries }
  | .header key => do
    return ⟨← Entries.openTable key d.entries, key⟩
  | .element key => do
    return ⟨← Entries.openElement key d.entries, key⟩

end Draft

/-- The document of some statements. -/
def Value.ofStatements? (statements : List Statement) : Option Value := do
  let d ← statements.foldlM Draft.say .empty
  return .table (finishEntries d.entries)

/-- The table of some keys and values written between braces. -/
def Value.ofAssignments? (assignments : List (List String × Value)) : Option Value := do
  let entries ← assignments.foldlM (fun e (key, v) => Entries.assign key v .header e) []
  return .table (finishEntries entries)

end ClassDiagram.Toml
