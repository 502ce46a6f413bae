import ClassDiagram.RawPath

/-!
# Paths and the names in them

A path is made of names with slashes between them. With a slash in front it starts at the top
of the file system, otherwise at the working directory, which the empty path names too.
Everything here looks at the bytes of the path only; what it leads to is the business of the
storage.
-/

namespace ClassDiagram.Path

open RawPath (slash point)

/-- The parts between the slashes. -/
def split : List UInt8 → List (List UInt8)
  | [] => [[]]
  | b :: bs =>
    if b = slash then [] :: split bs
    else
      match split bs with
      | [] => [[b]]
      | part :: parts => (b :: part) :: parts

/-- The parts between the slashes of a path. -/
def parts (path : RawPath) : List RawPath :=
  (split path.bytes).map RawPath.mk

/-- The parts that name something: empty ones and single dots are passed over. -/
def components (path : RawPath) : List RawPath :=
  (parts path).filter fun p => p != "" && p != "."

/-- Whether a path starts at the top. -/
def isAbsolute (path : RawPath) : Bool :=
  path.bytes.head? == some slash

/-- The path of `below`, taken to start at `path`. -/
def join (path below : RawPath) : RawPath :=
  if path == "" || path.bytes.getLast? == some slash then path ++ below else path ++ "/" ++ below

/-- The names with slashes between them. -/
def joinNames : List RawPath → RawPath
  | [] => ""
  | [name] => name
  | name :: next :: rest => name ++ "/" ++ joinNames (next :: rest)

/-- A path with its components. -/
def render (absolute : Bool) (components : List RawPath) : RawPath :=
  (if absolute then "/" else "") ++ joinNames components

/-- A path and the paths above it, the nearest first. -/
def ancestors (path : RawPath) : List RawPath :=
  let names := components path
  ((List.range (names.length + 1)).reverse).map fun n =>
    render (isAbsolute path) (names.take n)

/-- What follows the last point of a name, unless that point comes first. -/
def extension? (name : RawPath) : Option RawPath :=
  let back := name.bytes.reverse
  match back.dropWhile (· ≠ point) with
  | [] => none
  | [_] => none
  | _ :: _ :: _ => some ⟨(back.takeWhile (· ≠ point)).reverse⟩

/-- Whether one list of names comes before another one: at the first place where they differ
the bytes decide. -/
def Before (names names' : List RawPath) : Prop :=
  names.map RawPath.bytes < names'.map RawPath.bytes

instance (names names' : List RawPath) : Decidable (Before names names') :=
  inferInstanceAs (Decidable (_ < _))

/-- The order in which paths are listed, given by their names. -/
def le (names names' : List RawPath) : Bool :=
  !decide (Before names' names)

end ClassDiagram.Path
