import ClassDiagram.Render.Dot
import Mathlib.Data.Bool.AllAny
import Mathlib.Data.List.Basic

/-!
# Record labels can be read back

In a record label a backslash takes the next character with it, and what is left unescaped
structures the label. `glyphs` reads a label by this rule. Names and types may hold braces,
bars, angle brackets and quotes of their own, and none of these may get out of its place:
read back, a label has one pair of braces around it, one bar between two compartments, and in
each compartment the lines that were put there (`recordLabel_readable`).

Leading blanks are cut off after a line has been escaped. An escaped character begins with a
backslash, which is not blank, so that it makes no difference
(`dropWhile_flatMap_recordChar`). A backslash inside a name is not escaped, and such names are
left out.
-/

namespace ClassDiagram

/-- The texts that the record label of an entity shows. -/
def Entity.texts (e : Entity) : List String :=
  e.name :: (e.fields.flatMap (fun f => [f.name, f.type])
    ++ e.methods.flatMap fun m =>
      m.name :: (m.params.flatMap (fun p => [p.name, p.type]) ++ m.returnType.toList))

/-- No text of the entity has a backslash in it. -/
def Entity.WithoutBackslash (e : Entity) : Prop :=
  ∀ s ∈ e.texts, '\\' ∉ s.toList

instance (e : Entity) : Decidable e.WithoutBackslash :=
  List.decidableBAll _ _

namespace Render.Dot

open ClassDiagram.Text

/-! ## Reading a label -/

/-- A character of a label: by itself, or after a backslash. -/
inductive Glyph where
  | plain (c : Char)
  | escaped (c : Char)
  deriving DecidableEq, Repr

/-- Reads a label. A backslash takes the next character with it. -/
def glyphs : List Char → List Glyph
  | [] => []
  | '\\' :: c :: rest => .escaped c :: glyphs rest
  | c :: rest => .plain c :: glyphs rest

/-- The character that is shown. An escaped `n` begins a line. -/
def Glyph.shown : Glyph → Char
  | .plain c => c
  | .escaped 'n' => '\n'
  | .escaped c => c

/-- The lines of a compartment, without their escapes: each one ends at an escaped `l`. -/
def linesOf (gs : List Glyph) : List String :=
  (gs.splitOn (.escaped 'l')).map fun line => String.ofList (line.map Glyph.shown)

/-- The line that says what kind of entity a record is; plain classes have none. -/
def kindLine : EntityKind → String
  | .class => ""
  | .abstractClass => "«abstract»\n"
  | .interface => "«interface»\n"
  | .enum => "«enumeration»\n"
  | .external => "«external»\n"

/-- The title as it is shown. -/
def titleText (e : Entity) : String :=
  kindLine e.kind ++ trimLeft e.simpleName

/-- The compartments as they are shown: the title, and after it the fields and the methods, if
members are wanted and the entity has any. -/
def shownCompartments (members : Bool) (e : Entity) : List (List String) :=
  if members && !e.isExternal then
    [[titleText e], (e.fields.map fun f => trimLeft (fieldText f)) ++ [""],
      (e.methods.map fun m => trimLeft (methodText m)) ++ [""]]
  else [[titleText e]]

/-! ## Escaped text -/

/-- The characters that structure a label. -/
def recordMarks : List Char :=
  ['\x7b', '\x7d', '|', '<', '>', '"']

/-- A character with a meaning in a label is written with a backslash before it. -/
theorem recordChar_eq (c : Char) :
    recordChar c = if c ∈ recordMarks then ['\\', c] else [c] := by
  simp [recordChar, recordMarks]

/-- How a character of a name is read in a label. -/
def recordGlyph (c : Char) : Glyph :=
  if c ∈ recordMarks then .escaped c else .plain c

/-- Any character but a backslash is read as itself. -/
theorem glyphs_plain {c : Char} (h : c ≠ '\\') (rest : List Char) :
    glyphs (c :: rest) = .plain c :: glyphs rest := by
  rw [glyphs]
  intro d rest' hc
  exact absurd hc h

/-- A text without backslashes is read glyph by glyph, escaped or not. -/
theorem glyphs_flatMap_recordChar {cs : List Char} (h : '\\' ∉ cs) (rest : List Char) :
    glyphs (cs.flatMap recordChar ++ rest) = cs.map recordGlyph ++ glyphs rest := by
  induction cs with
  | nil => rfl
  | cons c cs ih =>
    rw [List.mem_cons, not_or] at h
    obtain ⟨hc, hcs⟩ := h
    rw [List.flatMap_cons, List.append_assoc, List.map_cons, List.cons_append, ← ih hcs,
      recordChar_eq, recordGlyph]
    by_cases hmark : c ∈ recordMarks
    · rw [if_pos hmark, if_pos hmark]
      rfl
    · rw [if_neg hmark, if_neg hmark]
      exact glyphs_plain (fun heq => hc heq.symm) _

/-- Cutting off blanks and escaping go together. -/
theorem dropWhile_flatMap_recordChar (cs : List Char) :
    (cs.flatMap recordChar).dropWhile isBlank = (cs.dropWhile isBlank).flatMap recordChar := by
  have hmarks : ∀ c ∈ recordMarks, isBlank c = false :=
    List.all_iff_forall_prop.mp (by decide)
  induction cs with
  | nil => rfl
  | cons c cs ih =>
    rw [List.flatMap_cons, recordChar_eq]
    by_cases hmark : c ∈ recordMarks
    · have hblank : isBlank c = false := hmarks c hmark
      rw [if_pos hmark, List.dropWhile_cons_of_neg (by rw [hblank]; decide), List.flatMap_cons,
        recordChar_eq, if_pos hmark]
      exact List.dropWhile_cons_of_neg (by decide)
    · rw [if_neg hmark]
      by_cases hblank : isBlank c = true
      · rw [List.dropWhile_cons_of_pos hblank, ← ih]
        exact List.dropWhile_cons_of_pos hblank
      · rw [List.dropWhile_cons_of_neg hblank, List.flatMap_cons, recordChar_eq, if_neg hmark]
        exact List.dropWhile_cons_of_neg hblank

/-- A line as it is read in a label. -/
def lineGlyphs (s : String) : List Glyph :=
  (trimLeft s).toList.map recordGlyph

/-- An escaped line is read as the glyphs of that line. -/
theorem glyphs_escapeRecord {s : String} (h : '\\' ∉ s.toList) (rest : List Char) :
    glyphs ((escapeRecord s).toList ++ rest) = lineGlyphs s ++ glyphs rest := by
  have htrimmed : '\\' ∉ s.toList.dropWhile isBlank :=
    fun hmem => h ((List.dropWhile_suffix _).subset hmem)
  rw [escapeRecord, trimLeft, replaceEach, String.toList_ofList, String.toList_ofList,
    dropWhile_flatMap_recordChar, glyphs_flatMap_recordChar htrimmed, lineGlyphs, trimLeft,
    String.toList_ofList]

/-- No character that structures a label is left unescaped in a line. -/
theorem plain_not_mem_lineGlyphs {c : Char} (h : c ∈ recordMarks) (s : String) :
    .plain c ∉ lineGlyphs s := by
  intro hmem
  obtain ⟨d, -, hd⟩ := List.mem_map.mp hmem
  unfold recordGlyph at hd
  split at hd
  · cases hd
  · next hmark =>
    cases hd
    exact hmark h

/-- What is escaped in a line is a character that structures a label. -/
theorem escaped_not_mem_lineGlyphs {c : Char} (h : c ∉ recordMarks) (s : String) :
    .escaped c ∉ lineGlyphs s := by
  intro hmem
  obtain ⟨d, -, hd⟩ := List.mem_map.mp hmem
  unfold recordGlyph at hd
  split at hd
  · next hmark =>
    cases hd
    exact h hmark
  · cases hd

/-- What is shown of a line is the line, up to blanks at its front. -/
theorem shown_lineGlyphs (s : String) : (lineGlyphs s).map Glyph.shown = (trimLeft s).toList := by
  have hshown : ∀ c, (recordGlyph c).shown = c := by
    intro c
    unfold recordGlyph
    by_cases hmark : c ∈ recordMarks
    · rw [if_pos hmark]
      have hn : c ≠ 'n' := by
        intro heq
        rw [heq] at hmark
        exact absurd hmark (by decide)
      rw [Glyph.shown]
      exact hn
    · rw [if_neg hmark]
      rfl
  rw [lineGlyphs, List.map_map]
  exact (List.map_congr_left fun c _ => hshown c).trans (List.map_id' _)

/-! ## Titles and compartments -/

/-- The line of a kind as it is read in a label. -/
def kindGlyphs (k : EntityKind) : List Glyph :=
  (kindLine k).toList.map fun c => if c = '\n' then .escaped 'n' else .plain c

/-- The line above a title is read as the kind of the entity. -/
theorem glyphs_stereotype (k : EntityKind) (rest : List Char) :
    glyphs ((stereotype k).toList ++ rest) = kindGlyphs k ++ glyphs rest := by
  cases k <;> simp [stereotype, kindGlyphs, kindLine, glyphs]

/-- What is shown of it names the kind. -/
theorem shown_kindGlyphs (k : EntityKind) :
    (kindGlyphs k).map Glyph.shown = (kindLine k).toList := by
  cases k <;> simp [kindGlyphs, kindLine, Glyph.shown]

/-- The title as it is read in a label. -/
def titleGlyphs (e : Entity) : List Glyph :=
  kindGlyphs e.kind ++ lineGlyphs e.simpleName

/-- No character with a meaning is left bare in a title. -/
theorem plain_not_mem_titleGlyphs {c : Char} (h : c ∈ recordMarks) (e : Entity) :
    .plain c ∉ titleGlyphs e := by
  have hkind : ∀ k, ∀ d ∈ recordMarks, .plain d ∉ kindGlyphs k := by
    intro k
    cases k <;> simp [kindGlyphs, kindLine, recordMarks]
  intro hmem
  rcases List.mem_append.mp hmem with hmem | hmem
  · exact hkind e.kind c h hmem
  · exact plain_not_mem_lineGlyphs h _ hmem

/-- A title is one line. -/
theorem linesOf_titleGlyphs (e : Entity) : linesOf (titleGlyphs e) = [titleText e] := by
  have hline : .escaped 'l' ∉ titleGlyphs e := by
    intro hmem
    rcases List.mem_append.mp hmem with hmem | hmem
    · cases hkind : e.kind <;> simp [hkind, kindGlyphs, kindLine] at hmem
    · exact escaped_not_mem_lineGlyphs (by decide) _ hmem
  rw [linesOf, List.splitOn_eq_singleton hline, List.map_singleton, titleGlyphs, List.map_append,
    shown_kindGlyphs, shown_lineGlyphs, titleText, ← String.toList_append, String.ofList_toList]

/-- Lines as they are read in a label, each closed by its mark. -/
def compartmentGlyphs (ls : List String) : List Glyph :=
  ls.flatMap fun l => lineGlyphs l ++ [.escaped 'l']

/-- A compartment is read line by line. -/
theorem glyphs_compartment {ls : List String} (h : ∀ l ∈ ls, '\\' ∉ l.toList)
    (rest : List Char) :
    glyphs ((compartment ls).toList ++ rest) = compartmentGlyphs ls ++ glyphs rest := by
  have hchars : ∀ ls : List String, (compartment ls).toList
      = ls.flatMap fun l => (escapeRecord l).toList ++ ['\\', 'l'] := by
    intro ls
    rw [compartment, String.toList_join, List.flatMap_map]
    refine List.flatMap_congr fun l _ => ?_
    simp
  rw [hchars]
  induction ls with
  | nil => rfl
  | cons l ls ih =>
    obtain ⟨hl, hls⟩ := List.forall_mem_cons.mp h
    rw [List.flatMap_cons, compartmentGlyphs, List.flatMap_cons, List.append_assoc,
      List.append_assoc, glyphs_escapeRecord hl, List.append_assoc, List.append_assoc]
    refine congrArg (lineGlyphs l ++ ·) ?_
    exact congrArg (Glyph.escaped 'l' :: ·) (ih hls)

/-- No character with a meaning is left bare in a compartment. -/
theorem plain_not_mem_compartmentGlyphs {c : Char} (h : c ∈ recordMarks) (ls : List String) :
    .plain c ∉ compartmentGlyphs ls := by
  intro hmem
  obtain ⟨l, -, hl⟩ := List.mem_flatMap.mp hmem
  rcases List.mem_append.mp hl with hl | hl
  · exact plain_not_mem_lineGlyphs h _ hl
  · cases List.mem_singleton.mp hl

/-- Each line of a compartment ends, so there is an empty one after the last. -/
theorem linesOf_compartmentGlyphs (ls : List String) :
    linesOf (compartmentGlyphs ls) = ls.map trimLeft ++ [""] := by
  induction ls with
  | nil => rfl
  | cons l ls ih =>
    have hl : .escaped 'l' ∉ lineGlyphs l := escaped_not_mem_lineGlyphs (by decide) l
    rw [compartmentGlyphs, List.flatMap_cons, List.append_assoc, List.singleton_append, linesOf,
      List.splitOn_append_cons_self_of_not_mem hl, List.map_cons, shown_lineGlyphs,
      String.ofList_toList, List.map_cons, List.cons_append, ← ih]
    rfl

/-! ## Whole labels -/

/-- The inside of the label of an entity as it is read. -/
def innerGlyphs (members : Bool) (e : Entity) : List Glyph :=
  if members && !e.isExternal then
    titleGlyphs e ++ .plain '|' :: (compartmentGlyphs (e.fields.map fieldText)
      ++ .plain '|' :: compartmentGlyphs (e.methods.map methodText))
  else titleGlyphs e

section

variable {e : Entity} (h : e.WithoutBackslash)

include h

/-- The simple name is a part of the name, which has no backslash. -/
theorem backslash_not_mem_simpleName : '\\' ∉ e.simpleName.toList := by
  intro hmem
  rw [Entity.simpleName, Dotted.simpleName, String.toList_ofList, List.mem_reverse] at hmem
  have hname : '\\' ∈ e.name.toList :=
    List.mem_reverse.mp ((List.takeWhile_prefix _).subset hmem)
  exact h e.name List.mem_cons_self hname

/-- The line of a field has none, as its name and its type have none. -/
theorem backslash_not_mem_fieldText {f : FieldSummary} (hf : f ∈ e.fields) :
    '\\' ∉ (fieldText f).toList := by
  have htexts : ∀ s ∈ [f.name, f.type], s ∈ e.texts := by
    intro s hs
    exact List.mem_cons_of_mem _
      (List.mem_append_left _ (List.mem_flatMap.mpr ⟨f, hf, hs⟩))
  have hname := h f.name (htexts _ (by simp))
  have htype := h f.type (htexts _ (by simp))
  cases hvisibility : f.visibility <;>
    simp [fieldText, Visibility.symbol, hvisibility, hname, htype]

/-- Neither has the line of a method. -/
theorem backslash_not_mem_methodText {m : MethodSummary} (hm : m ∈ e.methods) :
    '\\' ∉ (methodText m).toList := by
  have htexts : ∀ s ∈ m.name :: (m.params.flatMap (fun p => [p.name, p.type])
      ++ m.returnType.toList), s ∈ e.texts := by
    intro s hs
    exact List.mem_cons_of_mem _
      (List.mem_append_right _ (List.mem_flatMap.mpr ⟨m, hm, hs⟩))
  have hname := h m.name (htexts _ List.mem_cons_self)
  have hparams : ∀ s ∈ m.params.map fun p => p.name ++ " : " ++ p.type, '\\' ∉ s.toList := by
    intro s hs
    obtain ⟨p, hp, rfl⟩ := List.mem_map.mp hs
    have hparam : ∀ s ∈ [p.name, p.type], '\\' ∉ s.toList := by
      intro s hs
      exact h s (htexts s (List.mem_cons_of_mem _
        (List.mem_append_left _ (List.mem_flatMap.mpr ⟨p, hp, hs⟩))))
    have hpname := hparam p.name (by simp)
    have hptype := hparam p.type (by simp)
    simp [hpname, hptype]
  have hjoined : '\\' ∉ (joinWith ", " (m.params.map fun p => p.name ++ " : " ++ p.type)).toList :=
    not_mem_joinWith (by simp) hparams
  have hresult : ∀ t ∈ m.returnType, '\\' ∉ t.toList := by
    intro t ht
    exact h t (htexts t (List.mem_cons_of_mem _
      (List.mem_append_right _ (Option.mem_toList.mpr ht))))
  cases hvisibility : m.visibility <;> cases hreturn : m.returnType <;>
    simp_all [methodText, Visibility.symbol]

/-- A label stands in braces of its own. -/
theorem glyphs_recordLabel (members : Bool) :
    glyphs (recordLabel members e).toList
      = .plain '\x7b' :: (innerGlyphs members e ++ [.plain '\x7d']) := by
  have htitle : ∀ rest, glyphs ((title e).toList ++ rest) = titleGlyphs e ++ glyphs rest := by
    intro rest
    rw [title, String.toList_append, List.append_assoc, glyphs_stereotype,
      glyphs_escapeRecord (backslash_not_mem_simpleName h), titleGlyphs, List.append_assoc]
  have hfields : ∀ l ∈ e.fields.map fieldText, '\\' ∉ l.toList := by
    intro l hl
    obtain ⟨f, hf, rfl⟩ := List.mem_map.mp hl
    exact backslash_not_mem_fieldText h hf
  have hmethods : ∀ l ∈ e.methods.map methodText, '\\' ∉ l.toList := by
    intro l hl
    obtain ⟨m, hm, rfl⟩ := List.mem_map.mp hl
    exact backslash_not_mem_methodText h hm
  by_cases hshown : (members && !e.isExternal) = true
  · have hlabel : (recordLabel members e).toList
        = '\x7b' :: ((title e).toList ++ '|' :: ((compartment (e.fields.map fieldText)).toList
          ++ '|' :: ((compartment (e.methods.map methodText)).toList ++ ['\x7d']))) := by
      simp_all [recordLabel]
    rw [hlabel, innerGlyphs, if_pos hshown, glyphs_plain (by decide), htitle,
      glyphs_plain (by decide), glyphs_compartment hfields, glyphs_plain (by decide),
      glyphs_compartment hmethods]
    simp [glyphs]
  · have hlabel : (recordLabel members e).toList = '\x7b' :: ((title e).toList ++ ['\x7d']) := by
      cases members <;> simp_all [recordLabel]
    rw [hlabel, innerGlyphs, if_neg hshown, glyphs_plain (by decide), htitle]
    rfl

end

/-- No character that structures a label is left unescaped inside it but the bars. -/
theorem plain_not_mem_innerGlyphs {c : Char} (h : c ∈ recordMarks) (hbar : c ≠ '|')
    (members : Bool) (e : Entity) : .plain c ∉ innerGlyphs members e := by
  unfold innerGlyphs
  split
  · simp [plain_not_mem_titleGlyphs h, plain_not_mem_compartmentGlyphs h, hbar]
  · exact plain_not_mem_titleGlyphs h e

/-- Between the bars stand the title, the fields and the methods. -/
theorem splitOn_innerGlyphs (members : Bool) (e : Entity) :
    (innerGlyphs members e).splitOn (.plain '|')
      = if members && !e.isExternal then
          [titleGlyphs e, compartmentGlyphs (e.fields.map fieldText),
            compartmentGlyphs (e.methods.map methodText)]
        else [titleGlyphs e] := by
  have htitle : .plain '|' ∉ titleGlyphs e := plain_not_mem_titleGlyphs (by decide) e
  have hcompartment : ∀ ls, .plain '|' ∉ compartmentGlyphs ls :=
    plain_not_mem_compartmentGlyphs (by decide)
  unfold innerGlyphs
  split
  · rw [List.splitOn_append_cons_self_of_not_mem htitle,
      List.splitOn_append_cons_self_of_not_mem (hcompartment _),
      List.splitOn_eq_singleton (hcompartment _)]
  · exact List.splitOn_eq_singleton htitle

/-- There are two bars if members are shown, and otherwise none. -/
theorem count_innerGlyphs (members : Bool) (e : Entity) :
    (innerGlyphs members e).count (.plain '|') = if members && !e.isExternal then 2 else 0 := by
  have htitle : .plain '|' ∉ titleGlyphs e := plain_not_mem_titleGlyphs (by decide) e
  have hcompartment : ∀ ls, .plain '|' ∉ compartmentGlyphs ls :=
    plain_not_mem_compartmentGlyphs (by decide)
  unfold innerGlyphs
  split
  · simp [List.count_append, List.count_eq_zero_of_not_mem, htitle, hcompartment]
  · exact List.count_eq_zero_of_not_mem htitle

/-- **A record label can be read back.** It has an unescaped brace at its beginning and at its
end and nowhere else, no unescaped angle bracket or quote, and two unescaped bars if there are
members to show and none otherwise. The compartments between the bars, without their escapes,
are the title, and one line for each field and one for each method in their order, up to
leading blanks. -/
theorem recordLabel_readable (members : Bool) (e : Entity) (h : e.WithoutBackslash) :
    ∃ inner, glyphs (recordLabel members e).toList
        = .plain '\x7b' :: (inner ++ [.plain '\x7d'])
      ∧ (∀ c ∈ ['\x7b', '\x7d', '<', '>', '"'], .plain c ∉ inner)
      ∧ inner.count (.plain '|') = (if members && !e.isExternal then 2 else 0)
      ∧ (inner.splitOn (.plain '|')).map linesOf = shownCompartments members e := by
  refine ⟨innerGlyphs members e, glyphs_recordLabel h members, ?_, count_innerGlyphs members e, ?_⟩
  · have hmarks : ∀ c ∈ ['\x7b', '\x7d', '<', '>', '"'], c ∈ recordMarks ∧ c ≠ '|' :=
      List.all_iff_forall_prop.mp (by decide)
    intro c hc
    exact plain_not_mem_innerGlyphs (hmarks c hc).1 (hmarks c hc).2 members e
  · rw [splitOn_innerGlyphs, shownCompartments]
    split
    · simp only [List.map_cons, List.map_nil, linesOf_titleGlyphs, linesOf_compartmentGlyphs,
        List.map_map]
      rfl
    · rw [List.map_singleton, linesOf_titleGlyphs]

/-- An abstract class whose names and types have characters of every special kind. -/
def shelf : Entity where
  name := "home.Shelf|\x7bA\x7d"
  kind := .abstractClass
  fields := [⟨"books", "Map<Title, List<Book>>", .package⟩, ⟨"\"mark\"", "Mark[]", .private⟩]
  methods := [⟨"find", [⟨"title", "Title"⟩, ⟨"or", "A|B"⟩], some "Set<Book>", .public⟩]
  supertypes := []
  location := none

/-- The label of a shelf whose names are full of marks is read back: its title, its fields and
its methods. -/
theorem recordLabel_readable_shelf :
    shelf.WithoutBackslash
    ∧ ∃ inner, glyphs (recordLabel true shelf).toList = .plain '\x7b' :: (inner ++ [.plain '\x7d'])
      ∧ inner.count (.plain '|') = 2
      ∧ (inner.splitOn (.plain '|')).map linesOf
        = [["«abstract»\nShelf|\x7bA\x7d"],
          ["books : Map<Title, List<Book>>", "- \"mark\" : Mark[]", ""],
          ["+ find(title : Title, or : A|B) : Set<Book>", ""]] := by
  have hshelf : shelf.WithoutBackslash := by decide +kernel
  have hshown : shownCompartments true shelf
      = [["«abstract»\nShelf|\x7bA\x7d"],
        ["books : Map<Title, List<Book>>", "- \"mark\" : Mark[]", ""],
        ["+ find(title : Title, or : A|B) : Set<Book>", ""]] := by decide +kernel
  obtain ⟨inner, hread, -, hbars, hlines⟩ := recordLabel_readable true shelf hshelf
  exact ⟨hshelf, inner, hread, hbars, hlines.trans hshown⟩

end Render.Dot

end ClassDiagram
