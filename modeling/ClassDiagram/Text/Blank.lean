/-!
# White space

One table for the property every name check and every label relies on: a
character is blank when Unicode gives it the property `White_Space`. The table is
complete, so a name that passes `isBlank` nowhere can be put between blanks and
read back without loss.
-/

namespace ClassDiagram.Text

/-- The ranges of code points with the property `White_Space`, ascending and
inclusive at both ends. -/
def blankRanges : List (Nat × Nat) :=
  [(0x09, 0x0D), (0x20, 0x20), (0x85, 0x85), (0xA0, 0xA0), (0x1680, 0x1680),
   (0x2000, 0x200A), (0x2028, 0x2029), (0x202F, 0x202F), (0x205F, 0x205F),
   (0x3000, 0x3000)]

/-- Whether `c` has the property `White_Space`. -/
def isBlank (c : Char) : Bool :=
  blankRanges.any fun r => r.1 ≤ c.toNat && c.toNat ≤ r.2

/-- A text without its leading blanks. -/
def trimLeft (s : String) : String :=
  String.ofList (s.toList.dropWhile isBlank)

/-- A text without any blanks, wherever they stand. -/
def withoutBlanks (s : String) : String :=
  String.ofList (s.toList.filter fun c => !isBlank c)

/-- The ranges are in ascending order and do not touch. -/
theorem blankRanges_ascending :
    (blankRanges.zip blankRanges.tail).all (fun p => p.1.2 + 1 < p.2.1) = true := by
  decide

/-- No character of a text stripped of its blanks is blank. -/
theorem not_isBlank_of_mem_withoutBlanks {s : String} {c : Char}
    (h : c ∈ (withoutBlanks s).toList) : isBlank c = false := by
  simp only [withoutBlanks, String.toList_ofList, List.mem_filter] at h
  simpa using h.2

/-- Blanks are taken out of two texts one by one. -/
theorem withoutBlanks_append (s t : String) :
    withoutBlanks (s ++ t) = withoutBlanks s ++ withoutBlanks t := by
  simp [withoutBlanks]

/-- A text without blanks stays as it is. -/
theorem withoutBlanks_eq_self {s : String} (h : ∀ c ∈ s.toList, isBlank c = false) :
    withoutBlanks s = s := by
  have hall : s.toList.filter (fun c => !isBlank c) = s.toList :=
    List.filter_eq_self.mpr fun c hc => by rw [h c hc]; rfl
  rw [withoutBlanks, hall, String.ofList_toList]

/-- Once the blanks are out there are none to take out. -/
theorem withoutBlanks_withoutBlanks (s : String) :
    withoutBlanks (withoutBlanks s) = withoutBlanks s :=
  withoutBlanks_eq_self fun _ => not_isBlank_of_mem_withoutBlanks

end ClassDiagram.Text
