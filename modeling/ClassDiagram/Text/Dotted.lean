import ClassDiagram.Text.Blank

/-!
# Dotted names

Qualified names are plain texts whose segments are divided by dots. The last
segment is the *simple name*, all before its dot the *package*. A name is
*qualified* when it is an identifier (not empty, without blanks) and no segment
between its dots is empty.
-/

namespace ClassDiagram.Dotted

open ClassDiagram.Text

/-- The last segment of a dotted name; the whole name if it has no dot. -/
def simpleName (name : String) : String :=
  String.ofList (name.toList.reverse.takeWhile (· != '.')).reverse

/-- What stands before the last dot, if there is one. -/
def package? (name : String) : Option String :=
  match name.toList.reverse.dropWhile (· != '.') with
  | [] => none
  | _ :: front => some (String.ofList front.reverse)

/-- What stands before the first dot, if there is one. -/
def outermost? (name : String) : Option String :=
  if name.toList.contains '.' then
    some (String.ofList (name.toList.takeWhile (· != '.')))
  else none

/-- The pieces of a text between its dots. There is always at least one. -/
def segments : List Char → List (List Char)
  | [] => [[]]
  | c :: rest =>
    if c = '.' then [] :: segments rest
    else match segments rest with
      | [] => [[c]]
      | s :: more => (c :: s) :: more

/-- Whether a text is an identifier: not empty and free of blanks. -/
def isIdentifier (name : String) : Bool :=
  !name.toList.isEmpty && !name.toList.any isBlank

/-- Whether a text is a qualified name: an identifier none of whose segments is
empty. -/
def isQualified (name : String) : Bool :=
  isIdentifier name && (segments name.toList).all fun s => !s.isEmpty

/-- Whether a text has a dot. -/
def isDotted (name : String) : Bool :=
  name.toList.contains '.'

/-- A name is plain if it has a character and no blank. -/
theorem isIdentifier_iff {name : String} :
    isIdentifier name = true ↔ name ≠ "" ∧ ∀ c ∈ name.toList, isBlank c = false := by
  rw [isIdentifier, Bool.and_eq_true, Bool.not_eq_true', Bool.not_eq_true']
  refine and_congr ?_ ?_
  · rw [List.isEmpty_eq_false_iff, ne_eq, String.toList_eq_nil_iff]
  · rw [List.any_eq_false]
    simp only [Bool.not_eq_true]

/-- Every qualified name is a plain one too. -/
theorem isIdentifier_of_isQualified {name : String} (h : isQualified name = true) :
    isIdentifier name = true := by
  simp only [isQualified, Bool.and_eq_true] at h
  exact h.1

/-- A simple name has no dot. -/
theorem dot_not_mem_simpleName (name : String) : '.' ∉ (simpleName name).toList := by
  intro h
  simp only [simpleName, String.toList_ofList, List.mem_reverse] at h
  simpa using List.all_eq_true.1 List.all_takeWhile _ h

end ClassDiagram.Dotted
