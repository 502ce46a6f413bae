import ClassDiagram.Json.Value
import ClassDiagram.Text.Affix

/-!
# The written form of documents

One writer, given a *layout* that says what stands between the parts of a list or
object. The compact layout puts nothing there; the pretty one begins a line for every
part, indented by two spaces a level, and puts a space after a colon. Both write the same
characters apart from these gaps. A text is quoted with escapes for the quote, the
backslash and the control characters, and everything else stands for itself.
-/

namespace ClassDiagram.Json

/-- What a layout puts between the parts of a document. -/
structure Layout where
  /-- What stands before a part, and before a closing bracket, at a depth. -/
  gap : Nat → List Char
  /-- What follows the colon of an entry. -/
  afterColon : List Char

/-- Nothing between the parts. -/
def Layout.compact : Layout where
  gap _ := []
  afterColon := []

/-- A line for every part, indented by two spaces a level. -/
def Layout.pretty : Layout where
  gap depth := '\n' :: List.replicate (2 * depth) ' '
  afterColon := [' ']

/-- The digit of a number below sixteen, in lower case. -/
def hexDigit (n : Nat) : Char :=
  if n < 10 then Char.ofNat (48 + n) else Char.ofNat (87 + n)

/-- A character inside quotes. -/
def escape (c : Char) : List Char :=
  if c = '"' then ['\\', '"']
  else if c = '\\' then ['\\', '\\']
  else if c = '\x08' then ['\\', 'b']
  else if c = '\x0c' then ['\\', 'f']
  else if c = '\n' then ['\\', 'n']
  else if c = '\r' then ['\\', 'r']
  else if c = '\t' then ['\\', 't']
  else if c.toNat < 0x20 then
    ['\\', 'u', '0', '0', hexDigit (c.toNat / 16), hexDigit (c.toNat % 16)]
  else [c]

/-- A text in quotes. -/
def quoted (s : String) : List Char :=
  '"' :: (s.toList.flatMap escape ++ ['"'])

/-- The digits of a natural number. -/
def natChars (n : Nat) : List Char :=
  Nat.toDigits 10 n

/-- A decimal number: a sign if it is negative, and a point if it has decimals. -/
def numChars (mantissa : Int) (decimals : Nat) : List Char :=
  let sign := if mantissa < 0 then ['-'] else []
  let digits := natChars mantissa.natAbs
  if decimals = 0 then sign ++ digits
  else
    let padded := List.replicate (decimals + 1 - digits.length) '0' ++ digits
    let whole := padded.length - decimals
    sign ++ padded.take whole ++ '.' :: padded.drop whole

mutual

/-- The written form of a document that stands at a depth. -/
def chars (l : Layout) (depth : Nat) : Json → List Char
  | .null => ['n', 'u', 'l', 'l']
  | .bool true => ['t', 'r', 'u', 'e']
  | .bool false => ['f', 'a', 'l', 's', 'e']
  | .num mantissa decimals => numChars mantissa decimals
  | .str s => quoted s
  | .arr items =>
    match items with
    | [] => ['[', ']']
    | _ => '[' :: (itemChars l (depth + 1) items ++ l.gap depth ++ [']'])
  | .obj entries =>
    match entries with
    | [] => ['\x7b', '\x7d']
    | _ => '\x7b' :: (entryChars l (depth + 1) entries ++ l.gap depth ++ ['\x7d'])

/-- The items of a list, divided by commas. -/
def itemChars (l : Layout) (depth : Nat) : List Json → List Char
  | [] => []
  | [v] => l.gap depth ++ chars l depth v
  | v :: w :: rest => l.gap depth ++ chars l depth v ++ ',' :: itemChars l depth (w :: rest)

/-- The entries of an object, divided by commas. -/
def entryChars (l : Layout) (depth : Nat) : List (String × Json) → List Char
  | [] => []
  | [(k, v)] => l.gap depth ++ quoted k ++ ':' :: (l.afterColon ++ chars l depth v)
  | (k, v) :: e :: rest =>
    l.gap depth ++ quoted k ++ ':' :: (l.afterColon ++ chars l depth v)
      ++ ',' :: entryChars l depth (e :: rest)

end

/-- A document on one line, without any gaps. -/
def compact (v : Json) : String :=
  String.ofList (chars .compact 0 v)

/-- A document with a line for every part. -/
def pretty (v : Json) : String :=
  String.ofList (chars .pretty 0 v)

end ClassDiagram.Json
