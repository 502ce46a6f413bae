/-!
# Beginnings, endings and replacements

Tests for how a text begins and ends, and the one substitution that diagram ids
and quoted labels need: every character is replaced by a piece of text on its own,
so the result is determined character by character.
-/

namespace ClassDiagram.Text

/-- Whether `s` begins with `start`. -/
def beginsWith (s start : String) : Bool :=
  start.toList.isPrefixOf s.toList

/-- Whether `s` ends with `tail`. -/
def endsWith (s tail : String) : Bool :=
  tail.toList.isSuffixOf s.toList

/-- Replaces each character by the text `f` gives for it. -/
def replaceEach (f : Char → List Char) (s : String) : String :=
  String.ofList (s.toList.flatMap f)

/-- A text to stand between double quotes: a backslash goes before each quote in it. -/
def escapeQuotes (s : String) : String :=
  replaceEach (fun c => if c = '"' then ['\\', '"'] else [c]) s

/-- The texts joined, with `separator` between neighbours. -/
def joinWith (separator : String) : List String → String
  | [] => ""
  | [s] => s
  | s :: t :: rest => s ++ separator ++ joinWith separator (t :: rest)

/-- A text written out `n` times. -/
def repeated (s : String) : Nat → String
  | 0 => ""
  | n + 1 => s ++ repeated s n

/-- A text padded with spaces on the right to at least `width` characters. -/
def padRight (width : Nat) (s : String) : String :=
  s ++ repeated " " (width - s.length)

/-- A text ends with another one when something can be put before this one to make it. -/
theorem endsWith_iff {s tail : String} :
    endsWith s tail = true ↔ ∃ front, s.toList = front ++ tail.toList := by
  unfold endsWith
  rw [List.isSuffixOf_iff_suffix]
  exact ⟨fun ⟨front, h⟩ => ⟨front, h.symm⟩, fun ⟨front, h⟩ => ⟨front, h.symm⟩⟩

/-- What is in none of some texts is not in them when they are joined. -/
theorem not_mem_joinWith {c : Char} {separator : String} (hseparator : c ∉ separator.toList) :
    ∀ {ls : List String}, (∀ l ∈ ls, c ∉ l.toList) → c ∉ (joinWith separator ls).toList
  | [], _ => by simp [joinWith]
  | [l], h => by
    rw [joinWith]
    exact h l List.mem_cons_self
  | l :: l' :: ls, h => by
    have hrest : c ∉ (joinWith separator (l' :: ls)).toList :=
      not_mem_joinWith hseparator fun x hx => h x (List.mem_cons_of_mem _ hx)
    have hl := h l List.mem_cons_self
    simp [joinWith, hl, hseparator, hrest]

end ClassDiagram.Text
