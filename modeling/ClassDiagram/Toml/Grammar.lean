import ClassDiagram.Toml.Document
import ClassDiagram.Toml.Scalar

/-!
# Reading documents

A document is read line by line: a line gives a value to a key, opens a table, or says
nothing; a comment may end it. Lists and tables in brackets may run over several lines, and
may hold comments and a comma after the last item. They nest at most `nestingLimit` deep.
-/

namespace ClassDiagram.Toml

/-- How deep values in brackets may nest. -/
def nestingLimit : Nat :=
  80

/-- What is left after spaces and tabs. -/
def skipSpaces (cs : List Char) : List Char :=
  cs.dropWhile isSpace

/-- What is left after spaces, line ends and comments; `comment` tells whether a comment
has begun. -/
def skipGap (comment : Bool) : List Char → Option (List Char)
  | [] => some []
  | '\n' :: cs => skipGap false cs
  | '\r' :: '\n' :: cs => skipGap false cs
  | c :: cs =>
    if comment then if isControl c then none else skipGap true cs
    else if isSpace c then skipGap false cs
    else if c == '#' then skipGap true cs
    else some (c :: cs)

/-- What is left after a comment; the line end stays. -/
def skipComment : List Char → Option (List Char)
  | [] => some []
  | '\n' :: cs => some ('\n' :: cs)
  | '\r' :: '\n' :: cs => some ('\r' :: '\n' :: cs)
  | c :: cs => if isControl c then none else skipComment cs

/-- What is left after the end of a line, on which only a comment may stand. -/
def finishLine (cs : List Char) : Option (List Char) := do
  let rest ← match skipSpaces cs with
    | '#' :: comment => skipComment comment
    | rest => some rest
  match rest with
  | [] => some []
  | _ :: _ => afterLineEnd? rest

/-- Whether a character may stand in a key without quotes. -/
def isKeyChar (c : Char) : Bool :=
  c.isAlphanum || c == '_' || c == '-'

/-- Reads a part of a key. -/
def readKeyPart (cs : List Char) : Option (String × List Char) :=
  match readLine cs with
  | some read => some read
  | none =>
    match cs.takeWhile isKeyChar with
    | [] => none
    | word => some (String.ofList word, cs.dropWhile isKeyChar)

/-- Reads a key, with dots between its parts, and the spaces after it. -/
def readKey : Nat → List Char → Option (List String × List Char)
  | 0, _ => none
  | fuel + 1, cs => do
    let (part, rest) ← readKeyPart cs
    match skipSpaces rest with
    | '.' :: more =>
      let (parts, rest) ← readKey fuel (skipSpaces more)
      return (part :: parts, rest)
    | rest => return ([part], rest)

/-- A reader of values. -/
abbrev ValueReader := List Char → Option (Value × List Char)

/-- Reads a key, an equals sign and a value. -/
def readAssignment (value : ValueReader) (cs : List Char) :
    Option ((List String × Value) × List Char) := do
  let (key, rest) ← readKey (cs.length + 1) cs
  match rest with
  | '=' :: rest =>
    let (v, rest) ← value (skipSpaces rest)
    return ((key, v), rest)
  | _ => none

/-- Reads items up to a closing bracket, with commas between them; every item takes at
least one character, and `fuel` bounds their number. -/
def readItems {α : Type} (item : List Char → Option (α × List Char)) (close : Char) :
    Nat → List Char → Option (List α × List Char)
  | 0, _ => none
  | fuel + 1, cs => do
    match ← skipGap false cs with
    | [] => none
    | c :: rest =>
      if c == close then return ([], rest)
      let (first, rest) ← item (c :: rest)
      match ← skipGap false rest with
      | [] => none
      | d :: rest =>
        if d == close then return ([first], rest)
        else if d == ',' then
          let (others, rest) ← readItems item close fuel rest
          return (first :: others, rest)
        else none

/-- Reads a value in which brackets nest at most so deep. -/
def readValue : Nat → ValueReader
  | depth, cs =>
    match cs with
    | '[' :: rest =>
      match depth with
      | 0 => none
      | depth + 1 => do
        let (items, rest) ← readItems (readValue depth) ']' (rest.length + 1) rest
        return (.list items, rest)
    | '\x7b' :: rest =>
      match depth with
      | 0 => none
      | depth + 1 => do
        let (items, rest) ←
          readItems (readAssignment (readValue depth)) '\x7d' (rest.length + 1) rest
        return (← Value.ofAssignments? items, rest)
    | '"' :: _ => (readText cs).map fun (s, rest) => (.text s, rest)
    | '\x27' :: _ => (readText cs).map fun (s, rest) => (.text s, rest)
    | _ => readAtom cs

/-- Reads the statement at the start of a line. -/
def readStatement (cs : List Char) : Option (Statement × List Char) := do
  match cs with
  | '[' :: '[' :: rest =>
    let (key, rest) ← readKey (rest.length + 1) (skipSpaces rest)
    match rest with
    | ']' :: ']' :: rest => return (.element key, rest)
    | _ => none
  | '[' :: rest =>
    let (key, rest) ← readKey (rest.length + 1) (skipSpaces rest)
    match rest with
    | ']' :: rest => return (.header key, rest)
    | _ => none
  | _ =>
    let ((key, v), rest) ← readAssignment (readValue nestingLimit) cs
    return (.assign key v, rest)

/-- Reads the statements of a document, with `fuel` for one line each. -/
def readStatements : Nat → List Char → Option (List Statement)
  | 0, _ => none
  | fuel + 1, cs => do
    match ← skipGap false cs with
    | [] => return []
    | rest =>
      let (statement, rest) ← readStatement rest
      return statement :: (← readStatements fuel (← finishLine rest))

/-- Reads a document; a byte order mark in front is passed over. -/
def parse? (text : String) : Option Value := do
  let cs := match text.toList with
    | '\uFEFF' :: cs => cs
    | cs => cs
  Value.ofStatements? (← readStatements (cs.length + 1) cs)

end ClassDiagram.Toml
