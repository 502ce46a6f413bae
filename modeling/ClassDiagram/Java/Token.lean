import ClassDiagram.Text.Blank

/-!
# Tokens of Java source

Source text is cut into tokens: words, literals and symbols. What stands between two
tokens, blanks and comments, is kept as the *lead* of the token after it, so the text of
any run of tokens can be put together again exactly as it was written. A token knows the
line and the column of its first character; columns count bytes of UTF-8, both count from
one, and only a line feed ends a line.

A closing angle bracket is always a token of its own, because it may close type arguments;
operators made of several of them are put together where expressions are read.
-/

namespace ClassDiagram.Java

/-- What a token is. -/
inductive TokenKind where
  /-- An identifier or a keyword. -/
  | word
  /-- A number, a character, a string or a text block. -/
  | literal
  /-- An operator or a separator. -/
  | symbol
  deriving DecidableEq, Inhabited, Repr

/-- A token and what stands before it. -/
structure Token where
  /-- The blanks and comments between the token before and this one. -/
  lead : List Char
  text : String
  kind : TokenKind
  line : Nat
  column : Nat
  deriving Inhabited, Repr

/-- A place in a source text. -/
structure Position where
  line : Nat
  column : Nat
  deriving DecidableEq, Inhabited, Repr

/-- The place after a character. -/
def Position.after (p : Position) (c : Char) : Position :=
  if c = '\n' then ⟨p.line + 1, 1⟩ else ⟨p.line, p.column + c.utf8Size⟩

/-- The place after some characters. -/
def Position.afterAll (p : Position) (cs : List Char) : Position :=
  cs.foldl Position.after p

namespace Lexer

/-- Whether a character may begin a word. In correct source every character beyond ASCII
that is not blank belongs to a word. -/
def isWordStart (c : Char) : Bool :=
  c.isAlpha || c == '_' || c == '$' || (0x80 ≤ c.toNat && !Text.isBlank c)

/-- Whether a character may continue a word. -/
def isWordPart (c : Char) : Bool :=
  isWordStart c || c.isDigit

/-- Whether a character stands between tokens. The byte order mark counts as a gap. -/
def isGap (c : Char) : Bool :=
  Text.isBlank c || c.toNat == 0xFEFF

/-- How many characters a block comment has after its first two, the closing mark
included. -/
def blockCommentLength : List Char → Nat
  | [] => 0
  | '*' :: '/' :: _ => 2
  | _ :: cs => blockCommentLength cs + 1

/-- How many characters a literal in quotes has after its first, the closing quote
included. A backslash takes the next character with it. -/
def quotedLength (quote : Char) : List Char → Nat
  | [] => 0
  | ['\\'] => 1
  | '\\' :: _ :: cs => quotedLength quote cs + 2
  | c :: cs => if c = quote then 1 else quotedLength quote cs + 1

/-- How many characters a text block has after its first three, the closing quotes
included. -/
def textBlockLength : List Char → Nat
  | [] => 0
  | ['\\'] => 1
  | '\\' :: _ :: cs => textBlockLength cs + 2
  | '"' :: '"' :: '"' :: _ => 3
  | _ :: cs => textBlockLength cs + 1

/-- Whether a sign after `previous` belongs to the exponent of a number. -/
def endsExponentMark (hex : Bool) (previous : Char) : Bool :=
  if hex then previous == 'p' || previous == 'P' else previous == 'e' || previous == 'E'

/-- How many characters a number has after `previous`. -/
def numberLength (hex point : Bool) (previous : Char) : List Char → Nat
  | [] => 0
  | c :: cs =>
    if c.isAlphanum || c == '_' then numberLength hex point c cs + 1
    else if c == '.' && !point && cs.head? != some '.' then numberLength hex true c cs + 1
    else if (c == '+' || c == '-') && endsExponentMark hex previous then
      numberLength hex point c cs + 1
    else 0

/-- The symbols of more than one character, longer ones first. -/
def longSymbols : List (List Char) :=
  ["...", "<<=", "->", "::", "++", "--", "&&", "||", "==", "!=", "<=", "<<",
   "+=", "-=", "*=", "/=", "%=", "&=", "|=", "^="].map String.toList

/-- How many characters a symbol has after its first. -/
def symbolLength (c : Char) (cs : List Char) : Nat :=
  match longSymbols.find? fun s => s.isPrefixOf (c :: cs) with
  | some s => s.length - 1
  | none => 0

/-- What begins at a character: a gap (nothing) or a token of some kind, and how many more
characters belong to it. -/
def lexeme (c : Char) (cs : List Char) : Option TokenKind × Nat :=
  if isGap c then (none, 0)
  else if c == '/' && cs.head? == some '/' then (none, (cs.takeWhile (· != '\n')).length)
  else if c == '/' && cs.head? == some '*' then (none, blockCommentLength cs.tail + 1)
  else if isWordStart c then (some .word, (cs.takeWhile isWordPart).length)
  else if c.isDigit then
    let hex := c == '0' && (cs.head? == some 'x' || cs.head? == some 'X')
    (some .literal, numberLength hex false c cs)
  else if c == '.' && (cs.head?.any Char.isDigit) then
    (some .literal, numberLength false true c cs)
  else if c == '"' then
    if ['"', '"'].isPrefixOf cs then (some .literal, textBlockLength (cs.drop 2) + 2)
    else (some .literal, quotedLength '"' cs)
  else if c == '\x27' then (some .literal, quotedLength '\x27' cs)
  else (some .symbol, symbolLength c cs)

/-- The tokens of the characters from a place on; `lead` is the gap before them. Every
step takes at least one character, so the number of characters bounds the steps. -/
def scan : Nat → Position → List Char → List Char → List Token
  | 0, _, _, _ => []
  | _ + 1, _, _, [] => []
  | fuel + 1, place, lead, c :: cs =>
    let (kind, n) := lexeme c cs
    let taken := c :: cs.take n
    let rest := cs.drop n
    let next := place.afterAll taken
    match kind with
    | none => scan fuel next (lead ++ taken) rest
    | some k =>
      ⟨lead, String.ofList taken, k, place.line, place.column⟩ :: scan fuel next [] rest

end Lexer

/-- The tokens of a source text. -/
def tokenize (source : String) : List Token :=
  let chars := source.toList
  Lexer.scan chars.length ⟨1, 1⟩ [] chars

/-- The text of a run of tokens exactly as it was written, without what stands before the
first one. -/
def spanText : List Token → String
  | [] => ""
  | t :: ts => t.text ++ String.join (ts.map fun u => String.ofList u.lead ++ u.text)

end ClassDiagram.Java
