/-!
# Paths as they are kept

A path, or a single name in one, is a list of bytes. Most are texts in UTF-8, but a storage
does not keep to that: a name made of other bytes leads to a file like any other name. It
matters only where a path is written down. A document has no form for a path that is no text
(`text?`), and a message puts replacement characters for what it cannot show (`shown`).
-/

namespace ClassDiagram

/-- A path, or one of the names in it. -/
structure RawPath where
  bytes : List UInt8
  deriving DecidableEq, Inhabited, Repr

namespace RawPath

/-- The path that a text spells. -/
def ofText (text : String) : RawPath :=
  ⟨text.toUTF8.data.toList⟩

instance : Coe String RawPath :=
  ⟨ofText⟩

instance : Append RawPath :=
  ⟨fun p q => ⟨p.bytes ++ q.bytes⟩⟩

/-- The slash between names. -/
def slash : UInt8 :=
  47

/-- The point before an extension. -/
def point : UInt8 :=
  46

/-- The text that spells a path, if one does. -/
def text? (p : RawPath) : Option String :=
  String.fromUTF8? ⟨p.bytes.toArray⟩

/-- Whether a path is a text. -/
def IsText (p : RawPath) : Prop :=
  ∃ text, p = ofText text

/-! ### What is shown of a path -/

/-- The ranges of the bytes that follow a leading byte, or nothing if no character begins
with it. -/
def followers? (b : UInt8) : Option (List (UInt8 × UInt8)) :=
  let tail := (0x80, 0xbf)
  if b ≤ 0x7f then some []
  else if 0xc2 ≤ b && b ≤ 0xdf then some [tail]
  else if b == 0xe0 then some [(0xa0, 0xbf), tail]
  else if b == 0xed then some [(0x80, 0x9f), tail]
  else if 0xe1 ≤ b && b ≤ 0xef then some [tail, tail]
  else if b == 0xf0 then some [(0x90, 0xbf), tail, tail]
  else if 0xf1 ≤ b && b ≤ 0xf3 then some [tail, tail, tail]
  else if b == 0xf4 then some [(0x80, 0x8f), tail, tail]
  else none

/-- How many bytes at the front lie each in its range. -/
def fitting : List (UInt8 × UInt8) → List UInt8 → Nat
  | (low, high) :: ranges, b :: rest =>
    if low ≤ b && b ≤ high then fitting ranges rest + 1 else 0
  | _, _ => 0

/-- The character with the given leading byte and the bytes that follow it. -/
def decoded (lead : UInt8) (tail : List UInt8) : Char :=
  let front := if tail.isEmpty then lead.toNat else lead.toNat % (64 >>> tail.length)
  Char.ofNat (tail.foldl (fun value b => 64 * value + b.toNat % 64) front)

/-- Bytes as characters, where the first `taken` bytes belong to a character before them. The
longest beginning of a character that breaks off is replaced as a whole. -/
def shownFrom : Nat → List UInt8 → List Char
  | _, [] => []
  | taken + 1, _ :: rest => shownFrom taken rest
  | 0, b :: rest =>
    match followers? b with
    | none => '\ufffd' :: shownFrom 0 rest
    | some ranges =>
      let n := fitting ranges rest
      (if n == ranges.length then decoded b (rest.take n) else '\ufffd') :: shownFrom n rest

/-- A path as messages show it. -/
def shown (p : RawPath) : String :=
  match p.text? with
  | some text => text
  | none => String.ofList (shownFrom 0 p.bytes)

/-! ### Paths that are texts -/

/-- Bytes are read as a text exactly if they are the bytes of that text. -/
theorem fromUTF8?_eq_some_iff {bytes : ByteArray} {text : String} :
    String.fromUTF8? bytes = some text ↔ bytes = text.toUTF8 := by
  unfold String.fromUTF8?
  constructor
  · intro h
    split at h
    · cases h
      rfl
    · cases h
  · intro h
    cases h
    rw [String.toUTF8_eq_toByteArray, dif_pos text.isValidUTF8]
    rfl

/-- The text of a path spells it. -/
theorem text?_eq_some_iff {p : RawPath} {text : String} :
    p.text? = some text ↔ p = ofText text := by
  unfold text? ofText
  rw [fromUTF8?_eq_some_iff]
  constructor
  · intro h
    rw [← h]
  · intro h
    rw [h]

/-- A text is the text of the path that it spells. -/
@[simp] theorem text?_ofText (text : String) : (ofText text).text? = some text :=
  text?_eq_some_iff.mpr rfl

/-- Different texts spell different paths. -/
theorem ofText_injective {s t : String} (h : ofText s = ofText t) : s = t := by
  have hs := text?_ofText s
  rw [h, text?_ofText] at hs
  exact (Option.some.inj hs).symm

/-- A path has a text exactly if it is one. -/
theorem isSome_text?_iff {p : RawPath} : p.text?.isSome = true ↔ p.IsText := by
  rw [Option.isSome_iff_exists]
  exact exists_congr fun _ => text?_eq_some_iff

/-- A path that is no text has none. -/
theorem text?_eq_none_iff {p : RawPath} : p.text? = none ↔ ¬p.IsText := by
  rw [← isSome_text?_iff, Bool.not_eq_true, Option.isSome_eq_false_iff, Option.isNone_iff_eq_none]

/-- A path that is a text is shown as it is. -/
theorem shown_ofText (text : String) : (ofText text).shown = text := by
  unfold shown
  rw [text?_ofText]

/-- A broken beginning of a character is replaced as a whole, and what follows is read on. -/
example : shown ⟨[0x61, 0xe2, 0x82, 0x62, 0xff]⟩ = "a\ufffdb\ufffd" := by decide +kernel

instance (p : RawPath) : Decidable p.IsText :=
  decidable_of_iff _ isSome_text?_iff

end RawPath

end ClassDiagram
