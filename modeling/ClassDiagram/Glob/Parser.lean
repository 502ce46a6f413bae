import ClassDiagram.Glob

/-!
# Reading path patterns

A pattern is read from left to right; braces open and close groups of alternatives, which
may nest. `?` is one byte and `*` any run. `**` stands for whole directories where it fills
a component: `**/` at the start of a pattern or alternative, `/**/` inside, and `/**` at the
end; anywhere else it is two runs. Square brackets list characters and ranges, with `!` or
`^` in front for everything else; a backslash takes the next character as it is.

A pattern with an open bracket or brace, a stray closing brace, a range that runs
backwards or a backslash at its end is not a pattern.
-/

namespace ClassDiagram.Glob

/-- What has been read of a pattern. Lists of pieces have the latest piece first. -/
structure Reading where
  /-- The group of alternatives each open brace interrupted, and the alternatives that are
  complete, innermost group first. -/
  groups : List (List Piece × List (List Piece))
  /-- The alternative being read. -/
  current : List Piece
  /-- The character read last. -/
  last : Option Char
  deriving Inhabited

namespace Reading

/-- Nothing read yet. -/
def start : Reading :=
  ⟨[], [], none⟩

/-- Whether an alternative of a group is being read. -/
def inGroup (r : Reading) : Bool :=
  !r.groups.isEmpty

/-- Adds a piece that ends with the character `last`. -/
def add (r : Reading) (p : Piece) (last : Char) : Reading :=
  { r with current := p :: r.current, last := some last }

/-- Opens a group. -/
def openGroup (r : Reading) : Reading :=
  ⟨(r.current, []) :: r.groups, [], some '\x7b'⟩

/-- A comma begins the next alternative; outside of groups it stands for itself. -/
def comma (r : Reading) : Reading :=
  match r.groups with
  | [] => r.add (.literal ',') ','
  | (outer, complete) :: groups => ⟨(outer, r.current.reverse :: complete) :: groups, [], some ','⟩

/-- Closes the innermost group. -/
def closeGroup (r : Reading) : Option Reading :=
  match r.groups with
  | [] => none
  | (outer, complete) :: groups =>
    let branches := (r.current.reverse :: complete).reverse
    some ⟨groups, .alternatives branches :: outer, some '\x7d'⟩

/-- Two stars that do not fill a component. -/
def twoRuns (r : Reading) : Reading :=
  { r with current := .anyRun :: .anyRun :: r.current, last := some '*' }

/-- The piece that `**` and the slash before it become. Directories already spanned stay as
they are. -/
def span (isLast : Bool) : Piece → Piece
  | .leadingDirectories => .leadingDirectories
  | .everythingBelow => .everythingBelow
  | _ => if isLast then .everythingBelow else .innerDirectories

/-- Adds `**`, given what follows it; also answers what is left after the slash it may
take with it. -/
def doubleStar (r : Reading) (rest : List Char) : Reading × List Char :=
  match r.current with
  | [] =>
    match rest with
    | [] => (r.add .leadingDirectories '*', [])
    | '/' :: after => (r.add .leadingDirectories '/', after)
    | _ => (r.twoRuns, rest)
  | previous :: before =>
    let opens := r.last == some '/'
      || (r.inGroup && (r.last == some ',' || r.last == some '\x7b'))
    let replace (isLast : Bool) (c : Char) : Reading :=
      { r with current := span isLast previous :: before, last := some c }
    if opens then
      match rest with
      | [] => (replace true '*', [])
      | '/' :: after => (replace false '/', after)
      | c :: _ =>
        if r.inGroup && (c = ',' || c = '\x7d') then (replace true '*', rest)
        else (r.twoRuns, rest)
    else (r.twoRuns, rest)

end Reading

/-- What has been read between square brackets; the latest range comes first. -/
structure RangeReading where
  ranges : List (Char × Char)
  /-- Whether a dash after the latest range waits for its other end. -/
  dashed : Bool

namespace RangeReading

/-- Nothing read yet. -/
def start : RangeReading :=
  ⟨[], false⟩

/-- Adds a character: the end of the latest range after a dash, else a range of its own.
A range may not run backwards. -/
def add (r : RangeReading) (c : Char) : Option RangeReading :=
  match r.dashed, r.ranges with
  | true, (low, _) :: ranges => if c < low then none else some ⟨(low, c) :: ranges, false⟩
  | _, ranges => some ⟨(c, c) :: ranges, false⟩

/-- The ranges read; a dash that waits for nothing stands for itself. -/
def finish (r : RangeReading) : List (Char × Char) :=
  (if r.dashed then ('-', '-') :: r.ranges else r.ranges).reverse

end RangeReading

/-- Reads up to the closing square bracket and answers the ranges and what is left. The
first character never closes. -/
def readRanges (r : RangeReading) : List Char → Option (List (Char × Char) × List Char)
  | [] => none
  | c :: rest =>
    if r.ranges.isEmpty then do readRanges (← r.add c) rest
    else if c = ']' then some (r.finish, rest)
    else if c = '-' && !r.dashed then readRanges { r with dashed := true } rest
    else do readRanges (← r.add c) rest

/-- Reads one piece off a pattern. -/
def readPiece (r : Reading) (c : Char) (rest : List Char) : Option (Reading × List Char) :=
  match c with
  | '?' => some (r.add .anyByte c, rest)
  | '*' =>
    match rest with
    | '*' :: after => some (r.doubleStar after)
    | _ => some (r.add .anyRun c, rest)
  | '[' => do
    let (negated, body) := match rest with
      | '!' :: body => (true, body)
      | '^' :: body => (true, body)
      | _ => (false, rest)
    let (ranges, after) ← readRanges .start body
    return (r.add (.oneOf negated ranges) ']', after)
  | '\x7b' => some (r.openGroup, rest)
  | '\x7d' => r.closeGroup.map fun r => (r, rest)
  | ',' => some (r.comma, rest)
  | '\\' =>
    match rest with
    | [] => none
    | e :: after => some (r.add (.literal e) e, after)
  | _ => some (r.add (.literal c) c, rest)

/-- Reads a pattern to its end, with `fuel` for one piece each. -/
def readAll : Nat → Reading → List Char → Option Reading
  | _, r, [] => some r
  | 0, _, _ :: _ => none
  | fuel + 1, r, c :: rest => do
    let (r, rest) ← readPiece r c rest
    readAll fuel r rest

/-- Reads a pattern. Every piece takes at least one character. -/
def parse? (pattern : String) : Option Glob := do
  let cs := pattern.toList
  let r ← readAll cs.length .start cs
  if r.inGroup then none else some ⟨r.current.reverse⟩

end ClassDiagram.Glob
