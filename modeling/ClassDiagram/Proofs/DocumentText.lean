import ClassDiagram.Proofs.DataFormat
import ClassDiagram.Render.Format
import Mathlib.Data.List.Basic

/-!
# Compact and pretty documents say the same

A document is written on one line or with a line for every part, and both texts carry the same
document. Texts may hold quotes, backslashes and line feeds of their own, so a written document
is first cut into *pieces*: a text in quotes is one piece, whatever stands in it, and any other
character is one (`pieces`). A document has pieces without regard to a layout (`docPieces`), and
every layout writes these with blanks between them (`solid_chars`). From this follows the rest
(`carried`): without its blanks the pretty text is the compact one, set out with line feeds and
indentation the compact text is the pretty one, and the texts of the document are in both of
them, in their order, escaped in a way that can be undone.

The document of an analysis says where the entities stand, so there is one exactly if all
these paths are texts (`modelDocument?_eq_none_iff`). No other format depends on it
(`render?_eq_none_iff`).
-/

namespace ClassDiagram.Json

open ClassDiagram.Text

/-! ## Pieces of a written document -/

/-- A piece of a written document. -/
inductive Piece where
  /-- A text in quotes, as it stands between them. -/
  | text (body : List Char)
  /-- A character outside of quotes. -/
  | mark (c : Char)
  deriving DecidableEq, Repr

namespace Piece

/-- A piece as it is written. -/
def chars : Piece → List Char
  | .text body => '"' :: (body ++ ['"'])
  | .mark c => [c]

/-- Whether a piece is more than a blank outside of quotes. -/
def isSolid : Piece → Bool
  | .text _ => true
  | .mark c => !isBlank c

/-- What stands between the quotes of a text. -/
def body? : Piece → Option (List Char)
  | .text body => some body
  | .mark _ => none

end Piece

mutual

/-- Cuts a written document into its pieces. -/
def pieces : List Char → List Piece
  | [] => []
  | '"' :: rest => textPieces [] rest
  | c :: rest => .mark c :: pieces rest

/-- Cuts what follows an opening quote and the characters `body` after it. A backslash takes the
next character with it. -/
def textPieces (body : List Char) : List Char → List Piece
  | [] => [.text body]
  | '"' :: rest => .text body :: pieces rest
  | '\\' :: c :: rest => textPieces (body ++ ['\\', c]) rest
  | c :: rest => textPieces (body ++ [c]) rest

end

/-- The pieces of a written document that are more than blanks. -/
def solid (text : List Char) : List Piece :=
  (pieces text).filter Piece.isSolid

/-- A written document without the blanks outside of quotes. -/
def withoutGaps (text : List Char) : List Char :=
  (solid text).flatMap Piece.chars

/-- What stands between quotes in a written document. -/
def literals (text : List Char) : List (List Char) :=
  (pieces text).filterMap Piece.body?

/-- A line feed and the indentation of a depth. -/
def newLine (depth : Nat) : List Char :=
  '\n' :: List.replicate (2 * depth) ' '

/-- Sets out pieces at a depth. A line begins after an opening bracket and after a comma, and
before a closing bracket; nothing stands between two brackets that hold nothing, and a blank
follows a colon. -/
def setOut : Nat → List Piece → List Char
  | _, [] => []
  | depth, .mark '[' :: .mark ']' :: rest => '[' :: ']' :: setOut depth rest
  | depth, .mark '\x7b' :: .mark '\x7d' :: rest => '\x7b' :: '\x7d' :: setOut depth rest
  | depth, p :: rest =>
    if p = .mark '[' ∨ p = .mark '\x7b' then
      p.chars ++ newLine (depth + 1) ++ setOut (depth + 1) rest
    else if p = .mark ']' ∨ p = .mark '\x7d' then
      newLine (depth - 1) ++ p.chars ++ setOut (depth - 1) rest
    else if p = .mark ',' then p.chars ++ newLine depth ++ setOut depth rest
    else if p = .mark ':' then p.chars ++ ' ' :: setOut depth rest
    else p.chars ++ setOut depth rest

/-- A written document with a line for every part, indented by two spaces a level. -/
def setOutText (text : List Char) : List Char :=
  setOut 0 (solid text)

/-! ## Escapes undone -/

/-- The value of a hexadecimal digit. -/
def hexValue? (c : Char) : Option Nat :=
  if '0' ≤ c ∧ c ≤ '9' then some (c.toNat - 48)
  else if 'a' ≤ c ∧ c ≤ 'f' then some (c.toNat - 87)
  else if 'A' ≤ c ∧ c ≤ 'F' then some (c.toNat - 55)
  else none

/-- The characters with an escape of two characters, by the second one. -/
def shortEscapes : List (Char × Char) :=
  [('"', '"'), ('\\', '\\'), ('/', '/'), ('b', '\x08'), ('f', '\x0c'), ('n', '\n'), ('r', '\r'),
    ('t', '\t')]

/-- Undoes the escapes between two quotes. -/
def unescape : List Char → Option (List Char)
  | [] => some []
  | ['\\'] => none
  | '\\' :: 'u' :: a :: b :: c :: d :: rest => do
    let n := (((← hexValue? a) * 16 + (← hexValue? b)) * 16 + (← hexValue? c)) * 16
      + (← hexValue? d)
    return Char.ofNat n :: (← unescape rest)
  | '\\' :: c :: rest => do return (← shortEscapes.lookup c) :: (← unescape rest)
  | c :: rest => do return c :: (← unescape rest)

/-! ## Documents -/

mutual

/-- The pieces of a document, without regard to a layout. -/
def docPieces : Json → List Piece
  | .str s => [.text (s.toList.flatMap escape)]
  | .arr items => .mark '[' :: (itemPieces items ++ [.mark ']'])
  | .obj entries => .mark '\x7b' :: (entryPieces entries ++ [.mark '\x7d'])
  | .null => ['n', 'u', 'l', 'l'].map .mark
  | .bool true => ['t', 'r', 'u', 'e'].map .mark
  | .bool false => ['f', 'a', 'l', 's', 'e'].map .mark
  | .num mantissa decimals => (numChars mantissa decimals).map .mark

def itemPieces : List Json → List Piece
  | [] => []
  | [v] => v.docPieces
  | v :: w :: rest => v.docPieces ++ .mark ',' :: itemPieces (w :: rest)

def entryPieces : List (String × Json) → List Piece
  | [] => []
  | [(k, v)] => .text (k.toList.flatMap escape) :: .mark ':' :: v.docPieces
  | (k, v) :: e :: rest =>
    .text (k.toList.flatMap escape) :: .mark ':' :: (v.docPieces
      ++ .mark ',' :: entryPieces (e :: rest))

end

mutual

/-- The texts of a document, keys included, in their order. -/
def texts : Json → List String
  | .str s => [s]
  | .arr items => itemTexts items
  | .obj entries => entryTexts entries
  | _ => []

def itemTexts : List Json → List String
  | [] => []
  | v :: rest => v.texts ++ itemTexts rest

def entryTexts : List (String × Json) → List String
  | [] => []
  | (k, v) :: rest => k :: (v.texts ++ entryTexts rest)

end

/-! ## Texts in quotes -/

/-- A character that is no quote is a piece by itself. -/
theorem pieces_mark {c : Char} (h : c ≠ '"') (rest : List Char) :
    pieces (c :: rest) = .mark c :: pieces rest := by
  rw [pieces]
  exact h

/-- Characters that never end a text in quotes. -/
def Sealed (cs : List Char) : Prop :=
  ∀ body rest, textPieces body (cs ++ rest) = textPieces (body ++ cs) rest

namespace Sealed

theorem nil : Sealed [] := by
  intro body rest
  rw [List.nil_append, List.append_nil]

/-- Sealed characters can be put together. -/
theorem append {cs ds : List Char} (hcs : Sealed cs) (hds : Sealed ds) : Sealed (cs ++ ds) := by
  intro body rest
  rw [List.append_assoc, hcs, hds, List.append_assoc]

/-- A backslash seals the character after it. -/
theorem pair (c : Char) : Sealed ['\\', c] := by
  intro body rest
  rfl

/-- Any other character is sealed if it is neither a quote nor a backslash. -/
theorem single {c : Char} (hquote : c ≠ '"') (hbackslash : c ≠ '\\') : Sealed [c] := by
  intro body rest
  show textPieces body (c :: rest) = _
  rw [textPieces]
  · exact hquote
  · intro d rest' heq
    exact absurd heq hbackslash

end Sealed

/-- A digit in an escape ends no text. -/
theorem hexDigit_ne {n : Nat} (h : n < 16) : hexDigit n ≠ '"' ∧ hexDigit n ≠ '\\' := by
  have hall : ∀ n < 16, hexDigit n ≠ '"' ∧ hexDigit n ≠ '\\' := by decide
  exact hall n h

/-- A character that is neither a quote nor a backslash nor below the blank stands for itself. -/
theorem escape_of_visible {c : Char} (hquote : c ≠ '"') (hbackslash : c ≠ '\\')
    (hvisible : 0x20 ≤ c.toNat) : escape c = [c] := by
  have hne : ∀ d : Char, d.toNat < 0x20 → c ≠ d := by
    intro d hd heq
    rw [heq] at hvisible
    omega
  rw [escape, if_neg hquote, if_neg hbackslash, if_neg (hne _ (by decide)),
    if_neg (hne _ (by decide)), if_neg (hne _ (by decide)), if_neg (hne _ (by decide)),
    if_neg (hne _ (by decide)), if_neg (by omega)]

/-- How a character is escaped: by a backslash and one more character, by its number, or not at
all. In each case the escape can be undone. -/
theorem escape_cases (c : Char) :
    (∃ d, escape c = ['\\', d] ∧ d ≠ 'u' ∧ 0x20 ≤ d.toNat ∧ shortEscapes.lookup d = some c)
    ∨ (escape c = ['\\', 'u', '0', '0', hexDigit (c.toNat / 16), hexDigit (c.toNat % 16)]
        ∧ c.toNat < 0x20)
    ∨ (escape c = [c] ∧ c ≠ '"' ∧ c ≠ '\\' ∧ 0x20 ≤ c.toNat) := by
  by_cases hquote : c = '"'
  · subst hquote
    exact .inl ⟨'"', by decide⟩
  by_cases hbackslash : c = '\\'
  · subst hbackslash
    exact .inl ⟨'\\', by decide⟩
  by_cases hvisible : 0x20 ≤ c.toNat
  · exact .inr (.inr ⟨escape_of_visible hquote hbackslash hvisible, hquote, hbackslash, hvisible⟩)
  -- five of the control characters have an escape of their own
  by_cases hb : c = '\x08'
  · subst hb
    exact .inl ⟨'b', by decide⟩
  by_cases hf : c = '\x0c'
  · subst hf
    exact .inl ⟨'f', by decide⟩
  by_cases hn : c = '\n'
  · subst hn
    exact .inl ⟨'n', by decide⟩
  by_cases hr : c = '\r'
  · subst hr
    exact .inl ⟨'r', by decide⟩
  by_cases ht : c = '\t'
  · subst ht
    exact .inl ⟨'t', by decide⟩
  refine .inr (.inl ⟨?_, by omega⟩)
  rw [escape, if_neg hquote, if_neg hbackslash, if_neg hb, if_neg hf, if_neg hn, if_neg hr,
    if_neg ht, if_pos (by omega)]

/-- An escaped character never ends the text that it stands in. -/
theorem sealed_escape (c : Char) : Sealed (escape c) := by
  rcases escape_cases c with ⟨d, heq, -⟩ | ⟨heq, hlow⟩ | ⟨heq, hquote, hbackslash, -⟩
  · rw [heq]
    exact .pair d
  · have hhigh := hexDigit_ne (n := c.toNat / 16) (by omega)
    have hlast := hexDigit_ne (n := c.toNat % 16) (by omega)
    have hzero : Sealed ['0'] := .single (by decide) (by decide)
    have hdigits := (Sealed.single hhigh.1 hhigh.2).append (.single hlast.1 hlast.2)
    rw [heq]
    exact (Sealed.pair 'u').append (hzero.append (hzero.append hdigits))
  · rw [heq]
    exact .single hquote hbackslash

/-- Nor does an escaped text. -/
theorem sealed_flatMap_escape (cs : List Char) : Sealed (cs.flatMap escape) := by
  induction cs with
  | nil => exact .nil
  | cons c cs ih =>
    rw [List.flatMap_cons]
    exact (sealed_escape c).append ih

/-- A text in quotes is one piece, whatever stands in it. -/
theorem pieces_quoted (s : String) (rest : List Char) :
    pieces (quoted s ++ rest) = .text (s.toList.flatMap escape) :: pieces rest := by
  show textPieces [] ((s.toList.flatMap escape ++ ['"']) ++ rest) = _
  rw [List.append_assoc, sealed_flatMap_escape s.toList]
  rfl

/-- Undoing escapes gives back the first character and goes on after its escape. -/
theorem unescape_escape_append (c : Char) (cs : List Char) :
    unescape (escape c ++ cs) = (unescape cs).map (c :: ·) := by
  rcases escape_cases c with ⟨d, heq, hu, -, hlookup⟩ | ⟨heq, hlow⟩ | ⟨heq, -, hbackslash, -⟩
  · rw [heq]
    show unescape ('\\' :: d :: cs) = _
    rw [unescape, hlookup]
    · cases unescape cs <;> rfl
    · intro a b c' d' rest hd
      exact absurd hd hu
  · have hdigits : ∀ n < 0x20, hexValue? (hexDigit (n / 16)) = some (n / 16)
        ∧ hexValue? (hexDigit (n % 16)) = some (n % 16) := by decide
    obtain ⟨hhigh, hlast⟩ := hdigits c.toNat hlow
    have hzero : hexValue? '0' = some 0 := by decide
    have hnumber : ((0 * 16 + 0) * 16 + c.toNat / 16) * 16 + c.toNat % 16 = c.toNat := by omega
    rw [heq]
    show unescape ('\\' :: 'u' :: '0' :: '0' :: hexDigit (c.toNat / 16)
      :: hexDigit (c.toNat % 16) :: cs) = _
    rw [unescape, hzero, hhigh, hlast]
    simp only [bind, Option.bind, pure, hnumber, Char.ofNat_toNat]
    cases unescape cs <;> rfl
  · rw [heq]
    show unescape (c :: cs) = _
    rw [unescape]
    · cases unescape cs <;> rfl
    all_goals intros; simp_all

/-- The escapes in a text can be undone. -/
theorem unescape_flatMap_escape (cs : List Char) : unescape (cs.flatMap escape) = some cs := by
  induction cs with
  | nil => rfl
  | cons c cs ih =>
    rw [List.flatMap_cons, unescape_escape_append, ih]
    rfl

/-! ## Solid pieces -/

/-- The characters that give a document its structure. -/
def structureMarks : List Char :=
  ['"', '[', ']', '\x7b', '\x7d', ',', ':']

/-- A visible character that has no part in the structure of a document: a character of a number
or of a word. -/
def isInert (c : Char) : Bool :=
  decide (0x20 ≤ c.toNat) && !isBlank c && !structureMarks.contains c

theorem isInert_iff {c : Char} :
    isInert c = true ↔ 0x20 ≤ c.toNat ∧ isBlank c = false ∧ c ∉ structureMarks := by
  rw [isInert, Bool.and_eq_true, Bool.and_eq_true, decide_eq_true_eq, Bool.not_eq_true',
    Bool.not_eq_true', ← Bool.not_eq_true (List.contains _ _), List.contains_iff_mem, and_assoc]

/-- Digits have no part in the structure of a document. -/
theorem isInert_of_isDigit {c : Char} (h : c.isDigit = true) : isInert c = true := by
  have hbounds : 48 ≤ c.toNat ∧ c.toNat ≤ 57 := by
    rw [Char.isDigit, Bool.and_eq_true, decide_eq_true_eq, decide_eq_true_eq,
      ge_iff_le, UInt32.le_iff_toNat_le, UInt32.le_iff_toNat_le] at h
    exact h
  have hall : ∀ n < 58, 48 ≤ n → isInert (Char.ofNat n) = true := by decide
  have hc := hall c.toNat (by omega) hbounds.1
  rwa [Char.ofNat_toNat] at hc

/-- A visible character outside of quotes is a solid piece. -/
theorem solid_mark {c : Char} (hquote : c ≠ '"') (hblank : isBlank c = false)
    (rest : List Char) : solid (c :: rest) = .mark c :: solid rest := by
  rw [solid, pieces_mark hquote, List.filter_cons_of_pos (by simp [Piece.isSolid, hblank])]
  rfl

/-- Blanks outside of quotes leave no solid piece. -/
theorem solid_gap {cs : List Char} (h : ∀ c ∈ cs, isBlank c = true) (rest : List Char) :
    solid (cs ++ rest) = solid rest := by
  induction cs with
  | nil => rfl
  | cons c cs ih =>
    obtain ⟨hc, hcs⟩ := List.forall_mem_cons.mp h
    have hquote : c ≠ '"' := by
      intro heq
      rw [heq] at hc
      exact absurd hc (by decide)
    rw [← ih hcs, List.cons_append, solid, pieces_mark hquote,
      List.filter_cons_of_neg (by simp [Piece.isSolid, hc])]
    rfl

/-- The characters of a number or of a word are pieces one by one. -/
theorem solid_inert (cs : List Char) (h : ∀ c ∈ cs, isInert c = true) (rest : List Char) :
    solid (cs ++ rest) = cs.map .mark ++ solid rest := by
  induction cs with
  | nil => rfl
  | cons c cs ih =>
    obtain ⟨hc, hcs⟩ := List.forall_mem_cons.mp h
    obtain ⟨-, hblank, hmarks⟩ := isInert_iff.mp hc
    have hquote : c ≠ '"' := fun heq => hmarks (heq ▸ List.mem_cons_self)
    rw [List.cons_append, solid_mark hquote hblank, ih hcs]
    rfl

/-- A text in quotes is a solid piece, even if it is full of blanks. -/
theorem solid_quoted (s : String) (rest : List Char) :
    solid (quoted s ++ rest) = .text (s.toList.flatMap escape) :: solid rest := by
  rw [solid, pieces_quoted, List.filter_cons_of_pos rfl]
  rfl

/-- A number is written with digits, a sign and a point. -/
theorem isInert_of_mem_numChars {mantissa : Int} {decimals : Nat} {c : Char}
    (h : c ∈ numChars mantissa decimals) : isInert c = true := by
  have hmarks : ∀ d ∈ ['-', '.', '0'], isInert d = true := List.all_eq_true.mp (by decide)
  have hdigits : ∀ d ∈ natChars mantissa.natAbs, isInert d = true := by
    intro d hd
    exact isInert_of_isDigit (Nat.isDigit_of_mem_toDigits (by decide) (by decide) hd)
  have hsign : ∀ d ∈ if mantissa < 0 then ['-'] else [], isInert d = true := by
    intro d hd
    split at hd
    · rw [List.mem_singleton.mp hd]
      exact hmarks '-' (by decide)
    · cases hd
  have hpadded : ∀ d ∈ List.replicate (decimals + 1 - (natChars mantissa.natAbs).length) '0'
      ++ natChars mantissa.natAbs, isInert d = true := by
    intro d hd
    rcases List.mem_append.mp hd with hd | hd
    · rw [List.eq_of_mem_replicate hd]
      exact hmarks '0' (by decide)
    · exact hdigits d hd
  unfold numChars at h
  dsimp only at h
  split at h
  · rcases List.mem_append.mp h with h | h
    · exact hsign c h
    · exact hdigits c h
  · rcases List.mem_append.mp h with h | h
    · rcases List.mem_append.mp h with h | h
      · exact hsign c h
      · exact hpadded c (List.mem_of_mem_take h)
    · rcases List.mem_cons.mp h with h | h
      · rw [h]
        exact hmarks '.' (by decide)
      · exact hpadded c (List.mem_of_mem_drop h)

/-- There is something to be seen of every number. -/
theorem numChars_ne_nil (mantissa : Int) (decimals : Nat) : numChars mantissa decimals ≠ [] := by
  unfold numChars
  dsimp only
  split
  · exact List.append_ne_nil_of_right_ne_nil _ Nat.toDigits_ne_nil
  · exact List.append_ne_nil_of_right_ne_nil _ (List.cons_ne_nil _ _)

/-- A layout that puts only blanks between the parts. -/
structure Layout.IsBlank (l : Layout) : Prop where
  gap : ∀ depth, ∀ c ∈ l.gap depth, Text.isBlank c = true
  afterColon : ∀ c ∈ l.afterColon, Text.isBlank c = true

theorem Layout.isBlank_compact : Layout.compact.IsBlank :=
  ⟨fun _ => List.forall_mem_nil _, List.forall_mem_nil _⟩

/-- A line for every part needs line feeds and indentation only. -/
theorem Layout.isBlank_pretty : Layout.pretty.IsBlank := by
  refine ⟨fun depth => ?_, ?_⟩
  · refine List.forall_mem_cons.mpr ⟨by decide, ?_⟩
    intro c hc
    rw [List.eq_of_mem_replicate hc]
    decide
  · exact List.forall_mem_singleton.mpr (by decide)

section

variable {l : Layout} (hl : l.IsBlank)

include hl

mutual

/-- Whatever the layout, the solid pieces of a written document are those of the document. -/
theorem solid_chars : ∀ (depth : Nat) (v : Json) (rest : List Char),
    solid (chars l depth v ++ rest) = v.docPieces ++ solid rest
  | _, .null, rest => solid_inert ['n', 'u', 'l', 'l'] (List.all_eq_true.mp (by decide)) rest
  | _, .bool true, rest => solid_inert ['t', 'r', 'u', 'e'] (List.all_eq_true.mp (by decide)) rest
  | _, .bool false, rest =>
    solid_inert ['f', 'a', 'l', 's', 'e'] (List.all_eq_true.mp (by decide)) rest
  | _, .num mantissa decimals, rest => by
    rw [chars, docPieces]
    exact solid_inert _ (fun c hc => isInert_of_mem_numChars hc) rest
  | _, .str s, rest => by
    rw [chars, docPieces]
    exact solid_quoted s rest
  | depth, .arr items, rest => by
    cases items with
    | nil => rfl
    | cons v more =>
      have hitems := solid_itemChars (depth + 1) (v :: more) (l.gap depth ++ (']' :: rest))
      rw [solid_gap (hl.gap depth), solid_mark (by decide) (by decide)] at hitems
      simp only [chars, docPieces, List.cons_append, List.append_assoc, List.nil_append]
      rw [solid_mark (by decide) (by decide), hitems]
  | depth, .obj entries, rest => by
    cases entries with
    | nil => rfl
    | cons e more =>
      have hentries := solid_entryChars (depth + 1) (e :: more) (l.gap depth ++ ('\x7d' :: rest))
      rw [solid_gap (hl.gap depth), solid_mark (by decide) (by decide)] at hentries
      simp only [chars, docPieces, List.cons_append, List.append_assoc, List.nil_append]
      rw [solid_mark (by decide) (by decide), hentries]

/-- The same for the elements of a list. -/
theorem solid_itemChars : ∀ (depth : Nat) (items : List Json) (rest : List Char),
    solid (itemChars l depth items ++ rest) = itemPieces items ++ solid rest
  | _, [], _ => rfl
  | depth, [v], rest => by
    rw [itemChars, itemPieces, List.append_assoc, solid_gap (hl.gap depth)]
    exact solid_chars depth v rest
  | depth, v :: w :: more, rest => by
    rw [itemChars, itemPieces, List.append_assoc, List.append_assoc, solid_gap (hl.gap depth),
      solid_chars depth v, List.cons_append, solid_mark (by decide) (by decide),
      solid_itemChars depth (w :: more) rest, List.append_assoc, List.cons_append]

/-- The same for the entries of an object. -/
theorem solid_entryChars : ∀ (depth : Nat) (entries : List (String × Json)) (rest : List Char),
    solid (entryChars l depth entries ++ rest) = entryPieces entries ++ solid rest
  | _, [], _ => rfl
  | depth, [(k, v)], rest => by
    rw [entryChars, entryPieces, List.append_assoc, List.append_assoc, solid_gap (hl.gap depth),
      solid_quoted, List.cons_append, solid_mark (by decide) (by decide), List.append_assoc,
      solid_gap hl.afterColon, solid_chars depth v]
    rfl
  | depth, (k, v) :: e :: more, rest => by
    simp only [entryChars, entryPieces, List.append_assoc, List.cons_append]
    rw [solid_gap (hl.gap depth), solid_quoted, solid_mark (by decide) (by decide),
      solid_gap hl.afterColon, solid_chars depth v, solid_mark (by decide) (by decide),
      solid_entryChars depth (e :: more) rest]

end

end

/-! ## The compact text -/

theorem flatMap_chars_mark (cs : List Char) : (cs.map Piece.mark).flatMap Piece.chars = cs := by
  rw [List.flatMap_map]
  exact List.flatMap_singleton' cs

mutual

/-- The compact text is made of the pieces alone. -/
theorem flatMap_docPieces : ∀ (depth : Nat) (v : Json),
    v.docPieces.flatMap Piece.chars = chars .compact depth v
  | _, .null => rfl
  | _, .bool true => rfl
  | _, .bool false => rfl
  | _, .num mantissa decimals => by
    rw [docPieces, chars, flatMap_chars_mark]
  | _, .str s => by
    rw [docPieces, chars, List.flatMap_singleton]
    rfl
  | depth, .arr items => by
    cases items with
    | nil => rfl
    | cons v more =>
      rw [docPieces, List.flatMap_cons, List.flatMap_append,
        flatMap_itemPieces (depth + 1) (v :: more)]
      simp [chars, Piece.chars, Layout.compact]
  | depth, .obj entries => by
    cases entries with
    | nil => rfl
    | cons e more =>
      rw [docPieces, List.flatMap_cons, List.flatMap_append,
        flatMap_entryPieces (depth + 1) (e :: more)]
      simp [chars, Piece.chars, Layout.compact]

/-- Elements on one line are their pieces and nothing else. -/
theorem flatMap_itemPieces : ∀ (depth : Nat) (items : List Json),
    (itemPieces items).flatMap Piece.chars = itemChars .compact depth items
  | _, [] => rfl
  | depth, [v] => flatMap_docPieces depth v
  | depth, v :: w :: more => by
    rw [itemPieces, List.flatMap_append, List.flatMap_cons, flatMap_docPieces depth v,
      flatMap_itemPieces depth (w :: more)]
    simp [itemChars, Piece.chars, Layout.compact]

/-- So are entries. -/
theorem flatMap_entryPieces : ∀ (depth : Nat) (entries : List (String × Json)),
    (entryPieces entries).flatMap Piece.chars = entryChars .compact depth entries
  | _, [] => rfl
  | depth, [(k, v)] => by
    rw [entryPieces, List.flatMap_cons, List.flatMap_cons, flatMap_docPieces depth v]
    simp [entryChars, Piece.chars, Layout.compact, quoted]
  | depth, (k, v) :: e :: more => by
    rw [entryPieces, List.flatMap_cons, List.flatMap_cons, List.flatMap_append,
      List.flatMap_cons, flatMap_docPieces depth v, flatMap_entryPieces depth (e :: more)]
    simp [entryChars, Piece.chars, Layout.compact, quoted]

end

/-- A piece without control characters. -/
def Piece.Visible (p : Piece) : Prop :=
  ∀ c ∈ p.chars, 0x20 ≤ c.toNat

theorem visible_mark {c : Char} (h : 0x20 ≤ c.toNat) : (Piece.mark c).Visible :=
  List.forall_mem_singleton.mpr h

/-- Inert characters are visible. -/
theorem visible_marks {cs : List Char} (h : ∀ c ∈ cs, isInert c = true) :
    ∀ p ∈ cs.map Piece.mark, p.Visible := by
  intro p hp
  obtain ⟨c, hc, rfl⟩ := List.mem_map.mp hp
  exact visible_mark (isInert_iff.mp (h c hc)).1

/-- No control character is left in an escape. -/
theorem visible_of_mem_escape {c d : Char} (h : d ∈ escape c) : 0x20 ≤ d.toNat := by
  have hhex : ∀ n < 16, 0x20 ≤ (hexDigit n).toNat := by decide
  rcases escape_cases c with ⟨e, heq, -, hvisible, -⟩ | ⟨heq, hlow⟩ | ⟨heq, -, -, hvisible⟩
  · rw [heq] at h
    rcases List.mem_pair.mp h with rfl | rfl
    · decide
    · exact hvisible
  · have hhigh := hhex (c.toNat / 16) (by omega)
    have hlast := hhex (c.toNat % 16) (by omega)
    rw [heq] at h
    simp only [List.mem_cons, List.not_mem_nil, or_false] at h
    rcases h with rfl | rfl | rfl | rfl | rfl | rfl
    · decide
    · decide
    · decide
    · decide
    · exact hhigh
    · exact hlast
  · rw [heq] at h
    exact List.mem_singleton.mp h ▸ hvisible

/-- So a text in quotes has none, whatever it says. -/
theorem visible_text (s : String) : (Piece.text (s.toList.flatMap escape)).Visible := by
  intro c hc
  rw [Piece.chars, List.mem_cons, List.mem_append, List.mem_singleton] at hc
  rcases hc with rfl | hc | rfl
  · decide
  · obtain ⟨d, -, hd⟩ := List.mem_flatMap.mp hc
    exact visible_of_mem_escape hd
  · decide

mutual

theorem visible_docPieces : ∀ v : Json, ∀ p ∈ v.docPieces, p.Visible
  | .null => visible_marks (List.all_eq_true.mp (by decide))
  | .bool true => visible_marks (List.all_eq_true.mp (by decide))
  | .bool false => visible_marks (List.all_eq_true.mp (by decide))
  | .num mantissa decimals => by
    rw [docPieces]
    exact visible_marks fun c hc => isInert_of_mem_numChars hc
  | .str s => List.forall_mem_singleton.mpr (visible_text s)
  | .arr items => by
    rw [docPieces, List.forall_mem_cons, List.forall_mem_append, List.forall_mem_singleton]
    exact ⟨visible_mark (by decide), visible_itemPieces items, visible_mark (by decide)⟩
  | .obj entries => by
    rw [docPieces, List.forall_mem_cons, List.forall_mem_append, List.forall_mem_singleton]
    exact ⟨visible_mark (by decide), visible_entryPieces entries, visible_mark (by decide)⟩

theorem visible_itemPieces : ∀ items : List Json, ∀ p ∈ itemPieces items, p.Visible
  | [] => List.forall_mem_nil _
  | [v] => visible_docPieces v
  | v :: w :: more => by
    rw [itemPieces, List.forall_mem_append, List.forall_mem_cons]
    exact ⟨visible_docPieces v, visible_mark (by decide), visible_itemPieces (w :: more)⟩

theorem visible_entryPieces :
    ∀ entries : List (String × Json), ∀ p ∈ entryPieces entries, p.Visible
  | [] => List.forall_mem_nil _
  | [(k, v)] => by
    rw [entryPieces, List.forall_mem_cons, List.forall_mem_cons]
    exact ⟨visible_text k, visible_mark (by decide), visible_docPieces v⟩
  | (k, v) :: e :: more => by
    rw [entryPieces, List.forall_mem_cons, List.forall_mem_cons, List.forall_mem_append,
      List.forall_mem_cons]
    exact ⟨visible_text k, visible_mark (by decide), visible_docPieces v,
      visible_mark (by decide), visible_entryPieces (e :: more)⟩

end

/-! ## The texts -/

/-- Characters outside of quotes are no texts. -/
theorem filterMap_body?_mark (cs : List Char) : (cs.map Piece.mark).filterMap Piece.body? = [] := by
  rw [List.filterMap_map]
  exact List.filterMap_eq_nil_iff.mpr fun _ _ => rfl

mutual

/-- The texts among the pieces are those of the document. -/
theorem filterMap_docPieces : ∀ v : Json,
    v.docPieces.filterMap Piece.body? = v.texts.map fun s => s.toList.flatMap escape
  | .null => rfl
  | .bool true => rfl
  | .bool false => rfl
  | .num mantissa decimals => by
    rw [docPieces, filterMap_body?_mark]
    rfl
  | .str _ => rfl
  | .arr items => by
    rw [docPieces, texts, ← filterMap_itemPieces items, List.filterMap_cons_none rfl,
      List.filterMap_append, List.filterMap_cons_none rfl, List.filterMap_nil, List.append_nil]
  | .obj entries => by
    rw [docPieces, texts, ← filterMap_entryPieces entries, List.filterMap_cons_none rfl,
      List.filterMap_append, List.filterMap_cons_none rfl, List.filterMap_nil, List.append_nil]

/-- The texts of a list are those of its elements. -/
theorem filterMap_itemPieces : ∀ items : List Json,
    (itemPieces items).filterMap Piece.body?
      = (itemTexts items).map fun s => s.toList.flatMap escape
  | [] => rfl
  | [v] => by
    rw [itemPieces, itemTexts, itemTexts, List.append_nil, filterMap_docPieces v]
  | v :: w :: more => by
    rw [itemPieces, itemTexts, List.map_append, ← filterMap_docPieces v,
      ← filterMap_itemPieces (w :: more), List.filterMap_append, List.filterMap_cons_none rfl]

/-- The texts of an object are its keys and those of its values. -/
theorem filterMap_entryPieces : ∀ entries : List (String × Json),
    (entryPieces entries).filterMap Piece.body?
      = (entryTexts entries).map fun s => s.toList.flatMap escape
  | [] => rfl
  | [(k, v)] => by
    rw [entryPieces, entryTexts, entryTexts, List.append_nil, List.map_cons,
      ← filterMap_docPieces v]
    rfl
  | (k, v) :: e :: more => by
    have hmore : (v.docPieces ++ .mark ',' :: entryPieces (e :: more)).filterMap Piece.body?
        = (v.texts ++ entryTexts (e :: more)).map fun s => s.toList.flatMap escape := by
      rw [List.map_append, ← filterMap_docPieces v, ← filterMap_entryPieces (e :: more),
        List.filterMap_append, List.filterMap_cons_none rfl]
    rw [entryPieces, entryTexts, List.map_cons, ← hmore]
    rfl

end

/-- No text is lost with the gaps. -/
theorem filterMap_body?_solid (text : List Char) :
    (solid text).filterMap Piece.body? = literals text := by
  rw [solid, literals, List.filterMap_filter]
  refine List.filterMap_congr fun p _ => ?_
  cases p with
  | text body => rfl
  | mark c =>
    split <;> rfl

/-! ## The pretty text -/

/-- A piece that does not structure the document is set out as it is. -/
theorem setOut_inert {p : Piece} (h : ∀ c, p = .mark c → isInert c = true) (depth : Nat)
    (rest : List Piece) : setOut depth (p :: rest) = p.chars ++ setOut depth rest := by
  have hne : ∀ c, isInert c = false → p ≠ .mark c := by
    intro c hc heq
    rw [h c heq] at hc
    cases hc
  rw [setOut, if_neg (not_or.mpr ⟨hne _ (by decide), hne _ (by decide)⟩),
    if_neg (not_or.mpr ⟨hne _ (by decide), hne _ (by decide)⟩), if_neg (hne _ (by decide)),
    if_neg (hne _ (by decide))]
  · intro rest' heq
    exact absurd heq (hne _ (by decide))
  · intro rest' heq
    exact absurd heq (hne _ (by decide))

/-- The characters of a number or of a word stay together. -/
theorem setOut_inertRun (cs : List Char) (h : ∀ c ∈ cs, isInert c = true) (depth : Nat)
    (rest : List Piece) : setOut depth (cs.map .mark ++ rest) = cs ++ setOut depth rest := by
  induction cs with
  | nil => rfl
  | cons c cs ih =>
    obtain ⟨hc, hcs⟩ := List.forall_mem_cons.mp h
    rw [List.map_cons, List.cons_append, setOut_inert ?_, ih hcs]
    · rfl
    · intro d heq
      cases heq
      exact hc

/-- A text is set out as it is, with all that looks like structure in it. -/
theorem setOut_text (body : List Char) (depth : Nat) (rest : List Piece) :
    setOut depth (.text body :: rest) = '"' :: (body ++ '"' :: setOut depth rest) := by
  have htext : ∀ c, Piece.text body = .mark c → isInert c = true := by
    intro c heq
    cases heq
  rw [setOut_inert htext, Piece.chars, List.cons_append, List.append_assoc]
  rfl

/-- An opening bracket that does not close at once. -/
theorem setOut_open {c : Char} (close : Char) (h : (c, close) ∈ [('[', ']'), ('\x7b', '\x7d')])
    {p : Piece} (hp : p ≠ .mark close) (depth : Nat) (rest : List Piece) :
    setOut depth (.mark c :: p :: rest)
      = c :: (newLine (depth + 1) ++ setOut (depth + 1) (p :: rest)) := by
  rcases List.mem_pair.mp h with heq | heq <;> cases heq
  all_goals
    rw [setOut, if_pos (by decide)]
    · rfl
    all_goals
      intro rest' heq₁ heq₂
      simp_all

/-- A closing bracket begins a line of its own, one level further out. -/
theorem setOut_close {close : Char} (h : close ∈ [']', '\x7d']) (depth : Nat)
    (rest : List Piece) :
    setOut (depth + 1) (.mark close :: rest)
      = newLine depth ++ close :: setOut depth rest := by
  rcases List.mem_pair.mp h with heq | heq <;> cases heq <;> simp [setOut, Piece.chars]

/-- A line ends after a comma. -/
theorem setOut_comma (depth : Nat) (rest : List Piece) :
    setOut depth (.mark ',' :: rest) = ',' :: (newLine depth ++ setOut depth rest) := by
  simp [setOut, Piece.chars]

theorem setOut_colon (depth : Nat) (rest : List Piece) :
    setOut depth (.mark ':' :: rest) = ':' :: ' ' :: setOut depth rest := by
  simp [setOut, Piece.chars]

/-- No document begins with a closing bracket. -/
theorem exists_docPieces (v : Json) :
    ∃ p ps, v.docPieces = p :: ps ∧ p ≠ .mark ']' ∧ p ≠ .mark '\x7d' := by
  cases v with
  | null => exact ⟨_, _, rfl, by decide⟩
  | bool b => cases b <;> exact ⟨_, _, rfl, by decide⟩
  | str s => exact ⟨_, _, rfl, nofun, nofun⟩
  | arr items => exact ⟨_, _, rfl, by decide⟩
  | obj entries => exact ⟨_, _, rfl, by decide⟩
  | num mantissa decimals =>
    obtain ⟨c, cs, heq⟩ := List.exists_cons_of_ne_nil (numChars_ne_nil mantissa decimals)
    have hmem : c ∈ numChars mantissa decimals := heq ▸ List.mem_cons_self
    have hc : isInert c = true := isInert_of_mem_numChars hmem
    have hne : ∀ d, isInert d = false → Piece.mark c ≠ .mark d := by
      intro d hd hcd
      cases hcd
      rw [hc] at hd
      cases hd
    refine ⟨.mark c, cs.map .mark, ?_, hne _ (by decide), hne _ (by decide)⟩
    rw [docPieces, heq, List.map_cons]

/-- So a list with elements does not close at once. -/
theorem exists_itemPieces (v : Json) (more : List Json) :
    ∃ p ps, itemPieces (v :: more) = p :: ps ∧ p ≠ .mark ']' := by
  obtain ⟨p, ps, heq, hp, -⟩ := exists_docPieces v
  cases more with
  | nil => exact ⟨p, ps, heq, hp⟩
  | cons w more => exact ⟨p, _, by rw [itemPieces, heq, List.cons_append], hp⟩

/-- Neither does an object with entries. -/
theorem exists_entryPieces (e : String × Json) (more : List (String × Json)) :
    ∃ p ps, entryPieces (e :: more) = p :: ps ∧ p ≠ .mark '\x7d' := by
  obtain ⟨k, v⟩ := e
  cases more with
  | nil => exact ⟨.text _, _, by rw [entryPieces], nofun⟩
  | cons e more => exact ⟨.text _, _, by rw [entryPieces], nofun⟩

mutual

/-- Set out, the pieces of a document are its pretty text. -/
theorem setOut_docPieces : ∀ (depth : Nat) (v : Json) (rest : List Piece),
    setOut depth (v.docPieces ++ rest) = chars .pretty depth v ++ setOut depth rest
  | depth, .null, rest =>
    setOut_inertRun ['n', 'u', 'l', 'l'] (List.all_eq_true.mp (by decide)) depth rest
  | depth, .bool true, rest =>
    setOut_inertRun ['t', 'r', 'u', 'e'] (List.all_eq_true.mp (by decide)) depth rest
  | depth, .bool false, rest =>
    setOut_inertRun ['f', 'a', 'l', 's', 'e'] (List.all_eq_true.mp (by decide)) depth rest
  | depth, .num mantissa decimals, rest => by
    rw [docPieces, chars]
    exact setOut_inertRun _ (fun c hc => isInert_of_mem_numChars hc) depth rest
  | depth, .str s, rest => by
    rw [docPieces, chars, List.singleton_append, setOut_text, quoted, List.cons_append,
      List.append_assoc, List.singleton_append]
  | depth, .arr items, rest => by
    cases items with
    | nil => rfl
    | cons v more =>
      have hitems := setOut_itemPieces (depth + 1) (v :: more) (List.cons_ne_nil _ _)
        (.mark ']' :: rest)
      obtain ⟨p, ps, heq, hp⟩ := exists_itemPieces v more
      rw [heq, setOut_close (by decide), List.cons_append] at hitems
      rw [docPieces, heq, List.cons_append, List.append_assoc, List.singleton_append,
        List.cons_append, setOut_open ']' (by decide) hp, hitems]
      simp [chars, Layout.pretty, newLine]
  | depth, .obj entries, rest => by
    cases entries with
    | nil => rfl
    | cons e more =>
      have hentries := setOut_entryPieces (depth + 1) (e :: more) (List.cons_ne_nil _ _)
        (.mark '\x7d' :: rest)
      obtain ⟨p, ps, heq, hp⟩ := exists_entryPieces e more
      rw [heq, setOut_close (by decide), List.cons_append] at hentries
      rw [docPieces, heq, List.cons_append, List.append_assoc, List.singleton_append,
        List.cons_append, setOut_open '\x7d' (by decide) hp, hentries]
      simp [chars, Layout.pretty, newLine]

/-- The elements of a list stand on a line each. -/
theorem setOut_itemPieces : ∀ (depth : Nat) (items : List Json), items ≠ [] →
    ∀ rest : List Piece, newLine depth ++ setOut depth (itemPieces items ++ rest)
      = itemChars .pretty depth items ++ setOut depth rest
  | _, [], h, _ => absurd rfl h
  | depth, [v], _, rest => by
    rw [itemPieces, itemChars, setOut_docPieces depth v rest, List.append_assoc]
    rfl
  | depth, v :: w :: more, _, rest => by
    rw [itemPieces, itemChars, List.append_assoc, setOut_docPieces depth v, List.cons_append,
      setOut_comma, setOut_itemPieces depth (w :: more) (List.cons_ne_nil _ _) rest]
    simp [Layout.pretty, newLine]

/-- So do the entries of an object, with a blank between the colon and the value. -/
theorem setOut_entryPieces : ∀ (depth : Nat) (entries : List (String × Json)), entries ≠ [] →
    ∀ rest : List Piece, newLine depth ++ setOut depth (entryPieces entries ++ rest)
      = entryChars .pretty depth entries ++ setOut depth rest
  | _, [], h, _ => absurd rfl h
  | depth, [(k, v)], _, rest => by
    rw [entryPieces, entryChars, List.cons_append, List.cons_append, setOut_text, setOut_colon,
      setOut_docPieces depth v rest]
    simp [Layout.pretty, newLine, quoted]
  | depth, (k, v) :: e :: more, _, rest => by
    rw [entryPieces, entryChars, List.cons_append, List.cons_append, List.append_assoc,
      setOut_text, setOut_colon, setOut_docPieces depth v, List.cons_append, setOut_comma,
      setOut_entryPieces depth (e :: more) (List.cons_ne_nil _ _) rest]
    simp [Layout.pretty, newLine, quoted]

end

/-! ## Both texts of a document -/

/-- Two texts that carry the document `v`, the one on a single line and the other with a line
for every part. -/
structure Carried (v : Json) (compact pretty : String) : Prop where
  /-- There is no control character, and so no line feed, in the compact text. -/
  single_line : ∀ c ∈ compact.toList, 0x20 ≤ c.toNat
  /-- The texts differ only in blanks outside of quotes. -/
  without_gaps : withoutGaps pretty.toList = compact.toList
  /-- The pretty text begins its lines and indents them as it has to. -/
  set_out : setOutText compact.toList = pretty.toList
  /-- Every text of the document stands in the compact text, escaped in a way that can be
  undone. -/
  compact_literals : (literals compact.toList).map unescape = v.texts.map fun s => some s.toList
  pretty_literals : (literals pretty.toList).map unescape = v.texts.map fun s => some s.toList

/-- Whatever the layout, the solid pieces of a whole text are those of its document. -/
theorem solid_text {l : Layout} (hl : l.IsBlank) (v : Json) :
    solid (chars l 0 v) = v.docPieces := by
  have hsolid := solid_chars hl 0 v []
  rwa [List.append_nil, show solid [] = [] from rfl, List.append_nil] at hsolid

/-- The texts in a written document are read back. -/
theorem map_unescape_literals {l : Layout} (hl : l.IsBlank) (v : Json) :
    (literals (chars l 0 v)).map unescape = v.texts.map fun s => some s.toList := by
  rw [← filterMap_body?_solid, solid_text hl, filterMap_docPieces, List.map_map]
  refine List.map_congr_left fun s _ => ?_
  exact unescape_flatMap_escape s.toList

/-- The two texts of a document carry it. -/
theorem carried (v : Json) : Carried v v.compact v.pretty := by
  have hcompact : v.compact.toList = chars .compact 0 v := String.toList_ofList
  have hpretty : v.pretty.toList = chars .pretty 0 v := String.toList_ofList
  constructor
  · rw [hcompact, ← flatMap_docPieces 0 v]
    intro c hc
    obtain ⟨p, hp, hc⟩ := List.mem_flatMap.mp hc
    exact visible_docPieces v p hp c hc
  · rw [hcompact, hpretty, withoutGaps, solid_text Layout.isBlank_pretty, flatMap_docPieces 0]
  · have hset := setOut_docPieces 0 v []
    rw [List.append_nil, show setOut 0 [] = [] from rfl, List.append_nil] at hset
    rw [hcompact, hpretty, setOutText, solid_text Layout.isBlank_compact, hset]
  · rw [hcompact]
    exact map_unescape_literals Layout.isBlank_compact v
  · rw [hpretty]
    exact map_unescape_literals Layout.isBlank_pretty v

end ClassDiagram.Json

namespace ClassDiagram

/-- The entities of a diagram that stand anywhere stand in files whose paths are texts. -/
def Diagram.HasTextPaths (d : Diagram) : Prop :=
  ∀ e ∈ d.entities, ∀ l ∈ e.location, l.file.IsText

/-- There is no document of an analysis if one of these paths is no text. -/
theorem Render.modelDocument?_eq_none_iff {a : Analysis} :
    Render.modelDocument? a = none ↔ ¬a.diagram.HasTextPaths := by
  have hentities : (Json.ofList? Entity.toJson? a.diagram.entities = none)
      ↔ ¬a.diagram.HasTextPaths := by
    unfold Json.ofList? Diagram.HasTextPaths
    rw [Option.map_eq_none_iff, Json.mapM_eq_none_iff]
    simp only [Entity.toJson?_eq_none_iff, not_forall, exists_prop]
  rw [← hentities]
  unfold Render.modelDocument?
  cases Json.ofList? Entity.toJson? a.diagram.entities with
  | none => exact ⟨fun _ => rfl, fun _ => rfl⟩
  | some v => exact ⟨nofun, nofun⟩

namespace OutputFormat

open Render

/-- An analysis can be written in every format but that of its document, and in this one unless
a path is no text. -/
theorem render?_eq_none_iff {o : Options} {a : Analysis} {format : OutputFormat} :
    render? o a format = none ↔ format = .json ∧ ¬a.diagram.HasTextPaths := by
  cases format with
  | json =>
    rw [render?, Option.map_eq_none_iff, modelDocument?_eq_none_iff, eq_self, true_and]
  | text | glsp | mermaid | dot => exact ⟨nofun, nofun⟩

/-- **Compact and pretty output carry the same document**, for the diagram as it is and for the
editor's diagram, with or without members. Of a diagram in which a path is no text there is
neither the one nor the other. -/
theorem render_carried (o : Options) (a : Analysis) :
    ((a.diagram.HasTextPaths ∧ ∃ document compact pretty, modelDocument? a = some document
        ∧ render? { o with compact := true } a .json = some compact
        ∧ render? { o with compact := false } a .json = some pretty
        ∧ Json.Carried document compact pretty)
      ∨ (¬a.diagram.HasTextPaths ∧ render? { o with compact := true } a .json = none
        ∧ render? { o with compact := false } a .json = none))
    ∧ ∃ compact pretty, render? { o with compact := true } a .glsp = some compact
        ∧ render? { o with compact := false } a .glsp = some pretty
        ∧ Json.Carried (editorDocument o.members a.diagram) compact pretty := by
  constructor
  · cases hdocument : modelDocument? a with
    | none =>
      have hpaths := modelDocument?_eq_none_iff.mp hdocument
      exact .inr ⟨hpaths, render?_eq_none_iff.mpr ⟨rfl, hpaths⟩,
        render?_eq_none_iff.mpr ⟨rfl, hpaths⟩⟩
    | some v =>
      have hpaths : a.diagram.HasTextPaths := by
        by_contra hstray
        rw [modelDocument?_eq_none_iff.mpr hstray] at hdocument
        cases hdocument
      have hrender : ∀ o' : Options, render? o' a .json = some (document o' v) := by
        intro o'
        rw [render?, hdocument]
        rfl
      exact .inl ⟨hpaths, v, v.compact, v.pretty, rfl, hrender _, hrender _, v.carried⟩
  · exact ⟨_, _, rfl, rfl, (editorDocument o.members a.diagram).carried⟩

end OutputFormat

end ClassDiagram
