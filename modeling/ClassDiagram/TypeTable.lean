import ClassDiagram.Declaration
import ClassDiagram.Settings
import ClassDiagram.Text.Affix
import Std.Data.HashMap

/-!
# The table of user-defined types

All names known to be user-defined, in the order of their arrival, and beside them
an index by simple name that remembers the first name to arrive for each. A plain
name is answered from the index; a partly qualified one by a search for the first
name that ends in it. Both obey one rule: the name itself if it is known, and
otherwise the earliest known name that ends in a dot and the name asked for.
-/

namespace ClassDiagram

open ClassDiagram.Dotted ClassDiagram.Text

/-- Names known to be user-defined, and simple names known to be foreign. -/
structure TypeTable where
  /-- The known names, in the order of their arrival, none of them twice. -/
  names : List String
  /-- For each simple name the first known name that ends in it. -/
  bySimpleName : Std.HashMap String String
  /-- Simple names imported from a foreign package. -/
  foreignImports : List String

namespace TypeTable

/-- The table that knows nothing. -/
def empty : TypeTable :=
  ⟨[], ∅, []⟩

/-- Makes a name known. The first name to arrive keeps its simple name. -/
def insert (t : TypeTable) (name : String) : TypeTable :=
  if t.names.contains name then t
  else { t with
    names := t.names ++ [name]
    bySimpleName := t.bySimpleName.insertIfNew (simpleName name) name }

/-- Makes a simple name known to be foreign. -/
def insertForeign (t : TypeTable) (simple : String) : TypeTable :=
  { t with foreignImports := t.foreignImports ++ [simple] }

/-- Makes names known, one after the other. -/
def insertAll (t : TypeTable) (names : List String) : TypeTable :=
  names.foldl insert t

/-- Takes an import into account: an import on demand says nothing about a single
name, one under a foreign beginning makes its simple name foreign, and any other
names a user-defined type. -/
def addImport (settings : ResolverSettings) (t : TypeTable) (path : String) : TypeTable :=
  if endsWith path "*" then t
  else if settings.foreignPrefixes.any (beginsWith path) then t.insertForeign (simpleName path)
  else t.insert path

/-- The table of one run: declared names first, so that they win an ambiguous simple
name, then the names the settings add, then the imports. -/
def ofDeclarations (decls : List ClassDecl) (settings : ResolverSettings) : TypeTable :=
  let declared := (empty.insertAll (decls.map (·.name))).insertAll settings.userTypes
  (decls.flatMap (·.imports)).foldl (addImport settings) declared

/-- The known name that a use of `name` refers to. -/
def lookup (t : TypeTable) (name : String) : Option String :=
  if t.names.contains name then some name
  else if isDotted name then t.names.find? fun q => endsWith q ("." ++ name)
  else t.bySimpleName[name]?

/-- Whether a name was imported from a foreign package. -/
def isForeignImport (t : TypeTable) (name : String) : Bool :=
  t.foreignImports.contains name

/-- How many names are known. -/
def size (t : TypeTable) : Nat :=
  t.names.length

/-- The rule that `lookup` follows: a known name stands for itself, and any other for
the earliest known name that ends in a dot and this name. -/
def resolveSuffix (names : List String) (name : String) : Option String :=
  if names.contains name then some name
  else names.find? fun q => endsWith q ("." ++ name)

/-- A name that is there already changes nothing. -/
theorem insert_of_contains {t : TypeTable} {name : String}
    (h : t.names.contains name = true) : t.insert name = t := by
  simp only [insert, h, if_true]

/-- A new name comes last. -/
theorem names_insert (t : TypeTable) (name : String) :
    (t.insert name).names
      = if t.names.contains name then t.names else t.names ++ [name] := by
  unfold insert
  split <;> simp_all

@[simp] theorem lookup_empty (name : String) : empty.lookup name = none := by
  simp [lookup, empty]

/-- A name of the table is found as it is. -/
theorem lookup_of_contains {t : TypeTable} {name : String}
    (h : t.names.contains name = true) : t.lookup name = some name := by
  simp only [lookup, h, if_true]

end TypeTable

end ClassDiagram
