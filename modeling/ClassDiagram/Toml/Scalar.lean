import ClassDiagram.Toml.Value

/-!
# Numbers, moments and texts

The values that are written without brackets. Digits may be grouped with single
underscores. A moment has to exist: no thirteenth month, and a twenty-ninth of February in
leap years only. A text stands between quotes: double quotes allow escapes, single quotes
do not, and three of a kind allow line ends. Control characters other than the tab stand in
no text.
-/

namespace ClassDiagram.Toml

/-! ## Numbers -/

/-- Whether the characters are digits of a kind, with single underscores between them. -/
def isGrouped (digit : Char → Bool) : List Char → Bool
  | [] => false
  | [c] => digit c
  | c :: '_' :: rest => digit c && isGrouped digit rest
  | c :: rest => digit c && isGrouped digit rest

/-- The characters after a sign, if there is one. -/
def unsigned : List Char → List Char
  | '+' :: cs => cs
  | '-' :: cs => cs
  | cs => cs

/-- Whether the characters are a whole number without a sign: no zero goes before other
digits. -/
def isWhole (cs : List Char) : Bool :=
  match cs with
  | ['0'] => true
  | '0' :: _ => false
  | _ => isGrouped Char.isDigit cs

/-- Whether a character is a hexadecimal digit. -/
def isHexDigit (c : Char) : Bool :=
  c.isDigit || ('a' ≤ c && c ≤ 'f') || ('A' ≤ c && c ≤ 'F')

/-- Whether the characters are an integer, decimal or with the mark of another base. -/
def isInteger (cs : List Char) : Bool :=
  match cs with
  | '0' :: 'x' :: ds => isGrouped isHexDigit ds
  | '0' :: 'o' :: ds => isGrouped (fun c => '0' ≤ c && c ≤ '7') ds
  | '0' :: 'b' :: ds => isGrouped (fun c => c == '0' || c == '1') ds
  | _ => isWhole (unsigned cs)

/-- Whether the characters are an exponent with its mark. -/
def isExponent (cs : List Char) : Bool :=
  match cs with
  | c :: ds => (c == 'e' || c == 'E') && isGrouped Char.isDigit (unsigned ds)
  | [] => false

/-- Whether the characters are a decimal number with a fraction or an exponent, or one of
the words for no finite number. -/
def isDecimal (cs : List Char) : Bool :=
  let digits (c : Char) : Bool := c.isDigit || c == '_'
  let body := unsigned cs
  if body == ['i', 'n', 'f'] || body == ['n', 'a', 'n'] then true
  else
    isWhole (body.takeWhile digits) &&
      match body.dropWhile digits with
      | '.' :: rest =>
        isGrouped Char.isDigit (rest.takeWhile digits) &&
          (let tail := rest.dropWhile digits
           tail.isEmpty || isExponent tail)
      | rest => isExponent rest

/-! ## Moments -/

/-- The number two digits write. -/
def twoDigits? (a b : Char) : Option Nat :=
  if a.isDigit && b.isDigit then some (10 * (a.toNat - 48) + (b.toNat - 48)) else none

/-- How many days a month has. -/
def daysIn (year month : Nat) : Nat :=
  if month == 2 then
    if year % 4 == 0 && (year % 100 != 0 || year % 400 == 0) then 29 else 28
  else if month == 4 || month == 6 || month == 9 || month == 11 then 30
  else 31

/-- Passes over a date. -/
def afterDate? : List Char → Option (List Char)
  | y₁ :: y₂ :: y₃ :: y₄ :: '-' :: m₁ :: m₂ :: '-' :: d₁ :: d₂ :: rest => do
    let year := 100 * (← twoDigits? y₁ y₂) + (← twoDigits? y₃ y₄)
    let month ← twoDigits? m₁ m₂
    let day ← twoDigits? d₁ d₂
    if 1 ≤ month && month ≤ 12 && 1 ≤ day && day ≤ daysIn year month then some rest else none
  | _ => none

/-- Passes over the fraction of a second. -/
def afterFraction? : List Char → Option (List Char)
  | '.' :: rest =>
    if (rest.takeWhile Char.isDigit).isEmpty then none else some (rest.dropWhile Char.isDigit)
  | rest => some rest

/-- Passes over a time of day, whose seconds may be left out. -/
def afterTime? : List Char → Option (List Char)
  | h₁ :: h₂ :: ':' :: m₁ :: m₂ :: rest => do
    let hour ← twoDigits? h₁ h₂
    let minute ← twoDigits? m₁ m₂
    if hour > 23 || minute > 59 then none
    match rest with
    | ':' :: s₁ :: s₂ :: rest =>
      let second ← twoDigits? s₁ s₂
      if second > 60 then none
      afterFraction? rest
    | ':' :: _ => none
    | rest => some rest
  | _ => none

/-- Whether the characters are nothing or a distance from universal time. -/
def isOffset : List Char → Bool
  | [] => true
  | ['Z'] => true
  | ['z'] => true
  | [sign, h₁, h₂, ':', m₁, m₂] =>
    (sign == '+' || sign == '-') && (twoDigits? h₁ h₂).any (· ≤ 23)
      && (twoDigits? m₁ m₂).any (· ≤ 59)
  | _ => false

/-- Whether the characters are a date. -/
def isDate (cs : List Char) : Bool :=
  (afterDate? cs).any List.isEmpty

/-- Whether the characters are a date, a time of day, or both. -/
def isMoment (cs : List Char) : Bool :=
  match afterDate? cs with
  | some [] => true
  | some (c :: rest) => (c == 'T' || c == 't' || c == ' ') && (afterTime? rest).any isOffset
  | none => (afterTime? cs).any List.isEmpty

/-- The value of a word that stands for itself. -/
def atom? (cs : List Char) : Option Value :=
  if cs == ['t', 'r', 'u', 'e'] then some (.flag true)
  else if cs == ['f', 'a', 'l', 's', 'e'] then some (.flag false)
  else if isInteger cs || isDecimal cs then some (.number (String.ofList cs))
  else if isMoment cs then some (.moment (String.ofList cs))
  else none

/-- Whether a character may stand in a number, a moment or a word. -/
def isAtomChar (c : Char) : Bool :=
  c.isAlphanum || c == '_' || c == '+' || c == '-' || c == '.' || c == ':'

/-- Reads a value without quotes or brackets. A space may stand between a date and a time. -/
def readAtom (cs : List Char) : Option (Value × List Char) := do
  let word := cs.takeWhile isAtomChar
  let rest := cs.dropWhile isAtomChar
  match rest with
  | ' ' :: c :: more =>
    if isDate word && c.isDigit then
      let time := (c :: more).takeWhile isAtomChar
      return (← atom? (word ++ ' ' :: time), (c :: more).dropWhile isAtomChar)
    else
      return (← atom? word, rest)
  | _ => return (← atom? word, rest)

/-! ## Texts -/

/-- Whether a character may not stand in a text or comment. -/
def isControl (c : Char) : Bool :=
  (c.toNat < 0x20 && c != '\t') || c.toNat == 0x7F

/-- The value of a hexadecimal digit. -/
def hexValue? (c : Char) : Option Nat :=
  if c.isDigit then some (c.toNat - 48)
  else if 'a' ≤ c && c ≤ 'f' then some (c.toNat - 87)
  else if 'A' ≤ c && c ≤ 'F' then some (c.toNat - 55)
  else none

/-- Reads a number of hexadecimal digits, given the value of those before. -/
def readHex : Nat → Nat → List Char → Option (Nat × List Char)
  | 0, value, cs => some (value, cs)
  | n + 1, value, c :: cs => do readHex n (16 * value + (← hexValue? c)) cs
  | _ + 1, _, [] => none

/-- Reads the character with a code of so many digits. -/
def readCode (digits : Nat) (cs : List Char) : Option (Char × List Char) := do
  let (code, rest) ← readHex digits 0 cs
  if code.isValidChar then some (Char.ofNat code, rest) else none

/-- Reads what follows the backslash of an escape. -/
def readEscape : List Char → Option (Char × List Char)
  | 'b' :: cs => some ('\x08', cs)
  | 't' :: cs => some ('\t', cs)
  | 'n' :: cs => some ('\n', cs)
  | 'f' :: cs => some ('\x0c', cs)
  | 'r' :: cs => some ('\r', cs)
  | 'e' :: cs => some ('\x1b', cs)
  | '"' :: cs => some ('"', cs)
  | '\\' :: cs => some ('\\', cs)
  | 'x' :: cs => readCode 2 cs
  | 'u' :: cs => readCode 4 cs
  | 'U' :: cs => readCode 8 cs
  | _ => none

/-- What a reader of characters has read, and what is left. -/
abbrev Read := Option (List Char × List Char)

/-- A character before what is read after it. -/
def Read.cons (c : Char) (r : Read) : Read :=
  r.map fun (read, rest) => (c :: read, rest)

/-- Reads a text on one line to its closing double quote. -/
def readQuoted : Nat → List Char → Read
  | 0, _ => none
  | _ + 1, [] => none
  | _ + 1, '"' :: cs => some ([], cs)
  | fuel + 1, '\\' :: cs => do
    let (c, rest) ← readEscape cs
    Read.cons c (readQuoted fuel rest)
  | fuel + 1, c :: cs => if isControl c then none else Read.cons c (readQuoted fuel cs)

/-- Reads a text on one line to its closing single quote. -/
def readVerbatim : List Char → Read
  | [] => none
  | '\x27' :: cs => some ([], cs)
  | c :: cs => if isControl c then none else Read.cons c (readVerbatim cs)

/-- The end of a text between threefold quotes: one or two further quotes belong to the
text. -/
def closing (quote : Char) : List Char → List Char × List Char
  | a :: b :: cs =>
    if a == quote && b == quote then ([quote, quote], cs)
    else if a == quote then ([quote], b :: cs)
    else ([], a :: b :: cs)
  | [a] => if a == quote then ([quote], []) else ([], [a])
  | [] => ([], [])

/-- The line end in front, if there is one, taken off. -/
def afterLineEnd? : List Char → Option (List Char)
  | '\n' :: cs => some cs
  | '\r' :: '\n' :: cs => some cs
  | _ => none

/-- Whether a character is a space or a tab. -/
def isSpace (c : Char) : Bool :=
  c == ' ' || c == '\t'

/-- What is left after spaces, tabs and line ends. -/
def skipLines : List Char → List Char
  | '\r' :: '\n' :: cs => skipLines cs
  | c :: cs => if isSpace c || c == '\n' then skipLines cs else c :: cs
  | [] => []

/-- Reads a text to its closing three double quotes. A backslash at the end of a line joins
it to the next text on the lines below. -/
def readLongQuoted : Nat → List Char → Read
  | 0, _ => none
  | _ + 1, [] => none
  | _ + 1, '"' :: '"' :: '"' :: cs => some (closing '"' cs)
  | fuel + 1, '\\' :: cs =>
    match afterLineEnd? (cs.dropWhile isSpace) with
    | some below => readLongQuoted fuel (skipLines below)
    | none => do
      let (c, rest) ← readEscape cs
      Read.cons c (readLongQuoted fuel rest)
  | fuel + 1, '\r' :: '\n' :: cs => Read.cons '\r' (Read.cons '\n' (readLongQuoted fuel cs))
  | fuel + 1, c :: cs =>
    if isControl c && c != '\n' then none else Read.cons c (readLongQuoted fuel cs)

/-- Reads a text to its closing three single quotes. -/
def readLongVerbatim : List Char → Read
  | [] => none
  | '\x27' :: '\x27' :: '\x27' :: cs => some (closing '\x27' cs)
  | '\r' :: '\n' :: cs => Read.cons '\r' (Read.cons '\n' (readLongVerbatim cs))
  | c :: cs =>
    if isControl c && c != '\n' then none else Read.cons c (readLongVerbatim cs)

/-- A text without the line end that may follow its opening quotes. -/
def withoutFirstLineEnd (cs : List Char) : List Char :=
  (afterLineEnd? cs).getD cs

/-- Reads a text that begins with some quotes; nothing when there are none. -/
def readText (cs : List Char) : Option (String × List Char) :=
  let read := match cs with
    | '"' :: '"' :: '"' :: rest => readLongQuoted (rest.length + 1) (withoutFirstLineEnd rest)
    | '\x27' :: '\x27' :: '\x27' :: rest => readLongVerbatim (withoutFirstLineEnd rest)
    | '"' :: rest => readQuoted (rest.length + 1) rest
    | '\x27' :: rest => readVerbatim rest
    | _ => none
  read.map fun (text, rest) => (String.ofList text, rest)

/-- Reads a text on one line. -/
def readLine (cs : List Char) : Option (String × List Char) :=
  let read := match cs with
    | '"' :: rest => readQuoted (rest.length + 1) rest
    | '\x27' :: rest => readVerbatim rest
    | _ => none
  read.map fun (text, rest) => (String.ofList text, rest)

end ClassDiagram.Toml
