import ClassDiagram.Java.Token
import ClassDiagram.Java.Tree

/-!
# Reading tokens

A parser takes tokens from the front and answers what it read, or fails and takes none.
Repetition is bounded by the number of tokens, because every round has to take at least
one. The rules of the grammar that nest in themselves are gathered in `Rules`; a rule is
written as a plain function of the rules for what is nested in it.
-/

namespace ClassDiagram.Java

/-- A parser of some part of a source file. -/
abbrev Parser := StateT (List Token) Option

namespace Parser

variable {α β : Type}

/-- The next token, if there is one, left in place. -/
def peek : Parser (Option Token) := do
  return (← get).head?

/-- Whether the next token has this text. -/
def at? (text : String) : Parser Bool := do
  return (← peek).any (·.text == text)

/-- Takes the next token if it passes a test. -/
def takeIf (test : Token → Bool) : Parser Token := fun ts =>
  match ts with
  | t :: rest => if test t then some (t, rest) else none
  | [] => none

/-- Takes the next token if it has this text. -/
def token (text : String) : Parser Token :=
  takeIf (·.text == text)

/-- Passes over the next token if it has this text. -/
def skip (text : String) : Parser Unit := do
  let _ ← token text

/-- Takes the next token if it has this text and nothing stands before it. -/
def adjacent (text : String) : Parser Unit := do
  let _ ← takeIf fun t => t.text == text && t.lead.isEmpty

/-- What a parser reads, if it reads anything. -/
def optionally (p : Parser α) : Parser (Option α) := fun ts =>
  match p ts with
  | some (a, rest) => some (some a, rest)
  | none => some (none, ts)

/-- What a parser reads, or a default. -/
def orDefault (default : α) (p : Parser α) : Parser α := do
  return (← optionally p).getD default

/-- Whether a parser reads anything; what it reads is passed over. -/
def accepts (p : Parser α) : Parser Bool := do
  return (← optionally p).isSome

/-- Reads as often as it goes, at most `fuel` times and taking tokens each time. -/
def repeatWhile (p : Parser α) : Nat → List Token → List α × List Token
  | 0, ts => ([], ts)
  | fuel + 1, ts =>
    match p ts with
    | none => ([], ts)
    | some (a, rest) =>
      if rest.length < ts.length then
        let (as, last) := repeatWhile p fuel rest
        (a :: as, last)
      else ([], ts)

/-- Reads as often as it goes. -/
def many (p : Parser α) : Parser (List α) := fun ts =>
  some (repeatWhile p ts.length ts)

/-- Reads once and then as often as it goes. -/
def many1 (p : Parser α) : Parser (List α) := do
  return (← p) :: (← many p)

/-- Reads at least one part, with a separator between two. -/
def separated1 (separator : String) (p : Parser α) : Parser (List α) := do
  return (← p) :: (← many (do skip separator; p))

/-- Reads any number of parts, with a separator between two. -/
def separated (separator : String) (p : Parser α) : Parser (List α) :=
  orDefault [] (separated1 separator p)

/-- Reads with what was read, and the tokens it took. -/
def spanned (p : Parser α) : Parser (α × List Token) := fun ts =>
  match p ts with
  | some (a, rest) => some ((a, ts.take (ts.length - rest.length)), rest)
  | none => none

/-- Passes over everything up to the bracket that closes `depth + 1` open ones, that
bracket included. -/
def skipToClose : Nat → List Token → Option (List Token)
  | _, [] => none
  | depth, t :: rest =>
    if ["(", "[", "\x7b"].contains t.text then skipToClose (depth + 1) rest
    else if [")", "]", "\x7d"].contains t.text then
      match depth with
      | 0 => some rest
      | d + 1 => skipToClose d rest
    else skipToClose depth rest

/-- Passes over a bracket that opens with `text`, and all up to where it closes. -/
def skipBalanced (text : String) : Parser Unit := fun ts =>
  match ts with
  | t :: rest => if t.text == text then (skipToClose 0 rest).map fun r => ((), r) else none
  | [] => none

/-- Passes over tokens up to and with a semicolon or a block in braces, whichever comes
first; a closing brace ends it too and stays. -/
def skipDamaged : Nat → List Token → List Token
  | 0, ts => ts
  | _ + 1, [] => []
  | fuel + 1, t :: rest =>
    if t.text == ";" then rest
    else if t.text == "\x7d" then t :: rest
    else if t.text == "\x7b" then (skipToClose 0 rest).getD []
    else skipDamaged fuel rest

/-- Reads with `p`; where that fails, passes over what is damaged. A closing brace, or the
end, is never passed over. -/
def recovering (p : Parser α) : Parser (Option α) := fun ts =>
  match p ts with
  | some (a, rest) => some (some a, rest)
  | none =>
    match ts with
    | [] => none
    | t :: _ => if t.text == "\x7d" then none else some (none, skipDamaged ts.length ts)

end Parser

/-- The words that are never identifiers. -/
def keywords : List String :=
  ["abstract", "assert", "boolean", "break", "byte", "case", "catch", "char", "class",
   "continue", "default", "do", "double", "else", "enum", "extends", "final", "finally",
   "float", "for", "if", "implements", "import", "instanceof", "int", "interface", "long",
   "native", "new", "package", "private", "protected", "public", "return", "short", "static",
   "strictfp", "super", "switch", "synchronized", "this", "throw", "throws", "transient",
   "try", "void", "volatile", "while", "true", "false", "null"]

/-- The words that are identifiers everywhere but in the name of a type. -/
def reservedIdentifiers : List String :=
  ["open", "module", "record", "with", "sealed", "yield"]

/-- The names of the primitive types. -/
def primitiveNames : List String :=
  ["byte", "short", "int", "long", "char", "float", "double", "boolean"]

namespace Parser

/-- Reads an identifier. -/
def identifier : Parser Token :=
  takeIf fun t => t.kind == .word && !keywords.contains t.text

/-- Reads an identifier that may name a type. -/
def typeIdentifier : Parser Token :=
  takeIf fun t => t.kind == .word && !keywords.contains t.text
    && !reservedIdentifiers.contains t.text

/-- Reads a dotted name and answers its text as it was written. -/
def dottedName : Parser String := do
  let (_, taken) ← spanned (do
    let _ ← identifier
    many (do skip "."; identifier))
  return spanText taken

end Parser

/-- A written type with the expressions inside its annotations. -/
structure TypeNode where
  type : TypeExpr
  notes : List Code
  deriving Inhabited

/-- An annotation: its name as it was written, and the expressions inside it. -/
structure Mark where
  name : String
  notes : List Code
  deriving Inhabited

/-- The rules that nest in themselves. -/
structure Rules where
  /-- A type, with or without annotations before it. -/
  type : Parser TypeNode
  /-- An annotation. -/
  mark : Parser Mark
  /-- The value of a variable or of an annotation: an expression or a list in braces. -/
  value : Parser Code
  expression : Parser Code
  /-- An expression without binary operators: what a cast applies to. -/
  operand : Parser Code
  /-- An expression in a case label, where an arrow ends the label. -/
  caseExpression : Parser Code
  /-- A record pattern; only the expressions inside annotations are kept. -/
  recordPattern : Parser (List Code)
  statement : Parser Code
  /-- A type declaration with its modifiers. -/
  declaration : Parser TypeDecl
  /-- The members of a type, in braces. -/
  classBody : Parser (List Member)

end ClassDiagram.Java
