import ClassDiagram.Java.Token
import Mathlib.Data.Bool.AllAny
import Mathlib.Data.List.Infix

/-!
# What tokens are made of

The tokens of a source text with the gaps before them make up the text again, up to what
stands after the last one (`tokenize_chars`). So the text of any run of tokens is a piece of
the source (`spanText_infix`). Two things are kept about single tokens (`Token.WellLexed`): a
word is made of the characters of words, and a gap without a slash has no comment in it.

A dotted name that is read from tokens is the text of a run of tokens without its blanks. It
is *plain* if there is a word before, between and after its dots. What can keep it from being
plain are the things that may stand inside such a run besides words and dots: type arguments,
annotations and comments, and each of them leaves a character that no word has (`rawMarks`).
-/

namespace ClassDiagram.Java

open Text

namespace Lexer

/-- Whether characters make up a word. -/
def isWord (cs : List Char) : Bool :=
  cs.head?.any isWordStart && cs.all isWordPart

/-- A word begins with a letter or a mark like one and goes on with such characters and
digits. -/
theorem isWord_iff {cs : List Char} :
    isWord cs = true
      ↔ ∃ c rest, cs = c :: rest ∧ isWordStart c = true ∧ ∀ d ∈ rest, isWordPart d = true := by
  cases cs with
  | nil => simp [isWord]
  | cons c rest =>
    rw [isWord, List.head?_cons, Option.any_some, List.all_cons, Bool.and_eq_true,
      Bool.and_eq_true, List.all_eq_true]
    constructor
    · rintro ⟨hc, -, hrest⟩
      exact ⟨c, rest, rfl, hc, hrest⟩
    · rintro ⟨_, _, ⟨⟩, hc, hrest⟩
      exact ⟨hc, by rw [isWordPart, hc, Bool.true_or], hrest⟩

/-- A word stays one when characters of words are put after it. -/
theorem isWord_append {cs more : List Char} (h : isWord cs = true)
    (hmore : ∀ c ∈ more, isWordPart c = true) : isWord (cs ++ more) = true := by
  obtain ⟨c, rest, rfl, hc, hrest⟩ := isWord_iff.mp h
  exact isWord_iff.mpr ⟨c, rest ++ more, rfl, hc, List.forall_mem_append.mpr ⟨hrest, hmore⟩⟩

/-- A word stays one when characters that may begin a word are put before it. -/
theorem isWord_append_left {cs before : List Char} (h : isWord cs = true)
    (hbefore : ∀ c ∈ before, isWordStart c = true) : isWord (before ++ cs) = true := by
  induction before with
  | nil => exact h
  | cons b before ih =>
    obtain ⟨hb, htail⟩ := List.forall_mem_cons.mp hbefore
    obtain ⟨c, rest, heq, hc, hrest⟩ := isWord_iff.mp (ih htail)
    refine isWord_iff.mpr ⟨b, before ++ cs, rfl, hb, ?_⟩
    rw [heq]
    exact List.forall_mem_cons.mpr ⟨by rw [isWordPart, hc, Bool.true_or], hrest⟩

/-- What passes for a gap but is not blank may begin a word: the byte order mark. -/
theorem isWordStart_of_isGap {c : Char} (hgap : isGap c = true) (hblank : isBlank c = false) :
    isWordStart c = true := by
  rw [isGap, hblank, Bool.false_or, beq_iff_eq] at hgap
  simp [isWordStart, hgap, hblank]

/-- A character of a word is a visible one of ASCII, or not blank by definition. -/
theorem isWordPart_bounds {c : Char} (h : isWordPart c = true) :
    0x20 < c.toNat ∧ (c.toNat < 0x80 ∨ isBlank c = false) := by
  have hsmall : ∀ low high : Char, 0x20 < low.toNat → high.toNat < 0x80 →
      low.val ≤ c.val ∧ c.val ≤ high.val →
      0x20 < c.toNat ∧ (c.toNat < 0x80 ∨ isBlank c = false) := by
    intro low high hlow hhigh hc
    rw [UInt32.le_iff_toNat_le, UInt32.le_iff_toNat_le, Char.toNat_val, Char.toNat_val,
      Char.toNat_val] at hc
    exact ⟨by omega, .inl (by omega)⟩
  simp only [isWordPart, isWordStart, Bool.or_eq_true, Bool.and_eq_true, beq_iff_eq,
    decide_eq_true_eq, Bool.not_eq_true'] at h
  rcases h with (((hletter | rfl) | rfl) | ⟨hhigh, hblank⟩) | hdigit
  · rcases Bool.or_eq_true_iff.mp hletter with hupper | hlower
    · exact hsmall 'A' 'Z' (by decide) (by decide) (of_decide_eq_true hupper)
    · exact hsmall 'a' 'z' (by decide) (by decide)
        ((Bool.and_eq_true_iff.mp hlower).imp of_decide_eq_true of_decide_eq_true)
  · exact ⟨by decide, .inl (by decide)⟩
  · exact ⟨by decide, .inl (by decide)⟩
  · exact ⟨by omega, .inr hblank⟩
  · exact hsmall '0' '9' (by decide) (by decide)
      ((Bool.and_eq_true_iff.mp hdigit).imp of_decide_eq_true of_decide_eq_true)

/-- There is no blank in a word. -/
theorem not_isBlank_of_isWordPart {c : Char} (h : isWordPart c = true) : isBlank c = false := by
  obtain ⟨hlow, hhigh | hblank⟩ := isWordPart_bounds h
  · simp only [isBlank, blankRanges, List.any_eq_false, List.mem_cons, List.not_mem_nil, or_false,
      Bool.and_eq_true, decide_eq_true_eq]
    rintro r (rfl | rfl | rfl | rfl | rfl | rfl | rfl | rfl | rfl | rfl) <;> omega
  · exact hblank

/-- The symbols that may stand around and between names. -/
def nameSymbols : List Char :=
  ['.', '<', '>', ',', '[', ']', '@', '?', '/']

/-- Nor one of the symbols that stand around names. -/
theorem not_mem_nameSymbols_of_isWordPart {c : Char} (h : isWordPart c = true) :
    c ∉ nameSymbols := by
  have hnone : ∀ d ∈ nameSymbols, isWordPart d = false :=
    List.all_iff_forall_prop.mp (by decide)
  intro hc
  rw [hnone c hc] at h
  cases h

/-- In particular, there is no dot in a word. -/
theorem dot_not_mem_of_isWord {cs : List Char} (h : isWord cs = true) : '.' ∉ cs := by
  rw [isWord, Bool.and_eq_true, List.all_eq_true] at h
  intro hdot
  exact not_mem_nameSymbols_of_isWordPart (h.2 _ hdot) (by decide)

end Lexer

open Lexer

/-! ## Tokens and the source -/

namespace Token

/-- A token with the gap before it. -/
def chars (t : Token) : List Char :=
  t.lead ++ t.text.toList

/-- What is known of every token of a source text. -/
structure WellLexed (t : Token) : Prop where
  word : t.kind = .word → isWord t.text.toList = true
  /-- Where there is no slash, there is no comment. -/
  gap : '/' ∉ t.lead → ∀ c ∈ t.lead, isGap c = true

end Token

/-- A gap is one blank, or a comment. -/
theorem lexeme_eq_none {c : Char} {cs : List Char} {n : Nat} (h : lexeme c cs = (none, n)) :
    isGap c = true ∧ n = 0 ∨ c = '/' := by
  unfold lexeme at h
  grind

/-- A word goes on as long as it can. -/
theorem lexeme_eq_word {c : Char} {cs : List Char} {n : Nat}
    (h : lexeme c cs = (some .word, n)) :
    isWordStart c = true ∧ n = (cs.takeWhile isWordPart).length := by
  unfold lexeme at h
  grind

/-- The lead of a token grows by gaps and by comments, which begin with a slash. -/
theorem wellLexed_of_mem_scan {fuel : Nat} : ∀ {place lead cs t},
    ('/' ∉ lead → ∀ c ∈ lead, isGap c = true) → t ∈ scan fuel place lead cs → t.WellLexed := by
  induction fuel with
  | zero => intro place lead cs t _ ht; cases ht
  | succ fuel ih =>
    intro place lead cs t hlead ht
    cases cs with
    | nil => cases ht
    | cons c cs =>
      rw [scan] at ht
      rcases hlexeme : lexeme c cs with ⟨_ | kind, n⟩
      · -- the gap goes on
        rw [hlexeme] at ht
        refine ih ?_ ht
        intro hslash
        rw [List.mem_append, not_or] at hslash
        rcases lexeme_eq_none hlexeme with ⟨hc, rfl⟩ | rfl
        · exact List.forall_mem_append.mpr ⟨hlead hslash.1, by simpa using hc⟩
        · exact absurd (List.mem_cons_self ..) hslash.2
      · rw [hlexeme] at ht
        rcases List.mem_cons.mp ht with rfl | hrest
        · refine ⟨fun hkind => ?_, hlead⟩
          cases hkind
          obtain ⟨hc, rfl⟩ := lexeme_eq_word hlexeme
          have htaken : cs.take (cs.takeWhile isWordPart).length = cs.takeWhile isWordPart :=
            (List.prefix_iff_eq_take.mp (List.takeWhile_prefix _)).symm
          rw [String.toList_ofList, htaken]
          exact isWord_iff.mpr ⟨c, _, rfl, hc, fun d hd => List.all_eq_true.mp List.all_takeWhile d
            hd⟩
        · exact ih (fun _ => List.forall_mem_nil _) hrest

/-- Nothing is lost between two tokens. -/
theorem scan_chars {fuel : Nat} : ∀ {place lead cs},
    (scan fuel place lead cs).flatMap Token.chars <+: lead ++ cs := by
  induction fuel with
  | zero => intro place lead cs; exact List.nil_prefix
  | succ fuel ih =>
    intro place lead cs
    cases cs with
    | nil => exact List.nil_prefix
    | cons c cs =>
      rw [scan]
      rcases lexeme c cs with ⟨_ | kind, n⟩
      · have hnext := @ih (place.afterAll (c :: cs.take n)) (lead ++ c :: cs.take n) (cs.drop n)
        rwa [List.append_assoc, List.cons_append, List.take_append_drop] at hnext
      · have hnext := @ih (place.afterAll (c :: cs.take n)) [] (cs.drop n)
        rw [List.flatMap_cons, Token.chars, String.toList_ofList, List.append_assoc,
          List.prefix_append_right_inj, List.cons_append, List.prefix_cons_inj]
        conv_rhs => rw [← List.take_append_drop n cs]
        rwa [List.prefix_append_right_inj]

/-- All tokens of a source have the form of their kind. -/
theorem wellLexed_of_mem_tokenize {source : String} {t : Token} (h : t ∈ tokenize source) :
    t.WellLexed :=
  wellLexed_of_mem_scan (fun _ => List.forall_mem_nil _) h

/-- The tokens with their gaps are the source, up to what stands behind the last of them. -/
theorem tokenize_chars (source : String) :
    (tokenize source).flatMap Token.chars <+: source.toList :=
  scan_chars

/-- The text of a run has no gap before its first token. -/
theorem toList_spanText_cons (t : Token) (ts : List Token) :
    (spanText (t :: ts)).toList = t.text.toList ++ ts.flatMap Token.chars := by
  simp only [spanText, String.toList_append, String.toList_join, List.flatMap_map,
    String.toList_ofList]
  rfl

/-- The text of a run of tokens is a piece of the source. -/
theorem spanText_infix {source : String} {piece : List Token} (h : piece <:+: tokenize source) :
    (spanText piece).toList <:+: source.toList := by
  have hpiece : (spanText piece).toList <:+: piece.flatMap Token.chars := by
    cases piece with
    | nil => exact List.nil_infix
    | cons t ts =>
      rw [toList_spanText_cons, List.flatMap_cons, Token.chars, List.append_assoc]
      exact (List.suffix_append _ _).isInfix
  have hchars : piece.flatMap Token.chars <:+: (tokenize source).flatMap Token.chars := by
    obtain ⟨before, after, heq⟩ := h
    rw [← heq, List.flatMap_append, List.flatMap_append]
    exact ⟨_, _, rfl⟩
  exact hpiece.trans (hchars.trans (tokenize_chars source).isInfix)

/-! ## Dotted names -/

/-- A text with a word before, between and after its dots. -/
def IsPlain (cs : List Char) : Prop :=
  ∀ segment ∈ cs.splitOn '.', isWord segment = true

instance (cs : List Char) : Decidable (IsPlain cs) :=
  List.decidableBAll _ _

/-- A text is gone through from dot to dot. -/
@[elab_as_elim]
theorem dots_induction {motive : List Char → Prop} (none : ∀ cs, '.' ∉ cs → motive cs)
    (dot : ∀ front back, '.' ∉ front → motive back → motive (front ++ '.' :: back))
    (cs : List Char) : motive cs := by
  by_cases hdot : '.' ∈ cs
  · obtain ⟨front, back, heq, hfront⟩ := List.eq_append_cons_of_mem hdot
    have hlength : back.length < cs.length := by
      rw [heq, List.length_append, List.length_cons]
      omega
    rw [heq]
    exact dot front back hfront (dots_induction none dot back)
  · exact none cs hdot
termination_by cs.length

namespace IsPlain

/-- A plain name without dots is a word. -/
theorem iff_isWord {cs : List Char} (hdot : '.' ∉ cs) : IsPlain cs ↔ isWord cs = true := by
  rw [IsPlain, List.splitOn_eq_singleton hdot, List.forall_mem_singleton]

/-- A plain name is plain on both sides of any dot. -/
theorem append_dot_iff {xs ys : List Char} :
    IsPlain (xs ++ '.' :: ys) ↔ IsPlain xs ∧ IsPlain ys := by
  rw [IsPlain, List.splitOn_append_cons_self, List.forall_mem_append]
  rfl

theorem of_isWord {cs : List Char} (h : isWord cs = true) : IsPlain cs :=
  (iff_isWord (dot_not_mem_of_isWord h)).mpr h

/-- The last word of a plain text may go on. -/
theorem append {cs more : List Char} (h : IsPlain cs) (hmore : ∀ c ∈ more, isWordPart c = true) :
    IsPlain (cs ++ more) := by
  induction cs using dots_induction with
  | none cs hdot => exact of_isWord (isWord_append ((iff_isWord hdot).mp h) hmore)
  | dot front back _ ih =>
    obtain ⟨hfront, hback⟩ := append_dot_iff.mp h
    rw [List.append_assoc, List.cons_append]
    exact append_dot_iff.mpr ⟨hfront, ih hback⟩

/-- A plain text is made of words and dots. -/
theorem isWordPart_of_mem {cs : List Char} (h : IsPlain cs) {c : Char} (hc : c ∈ cs)
    (hne : c ≠ '.') : isWordPart c = true := by
  have hword : ∀ {front : List Char}, '.' ∉ front → IsPlain front → c ∈ front →
      isWordPart c = true := by
    intro front hdot hfront hmem
    have hword := (iff_isWord hdot).mp hfront
    rw [isWord, Bool.and_eq_true, List.all_eq_true] at hword
    exact hword.2 c hmem
  induction cs using dots_induction with
  | none cs hdot => exact hword hdot h hc
  | dot front back hdot ih =>
    obtain ⟨hfront, hback⟩ := append_dot_iff.mp h
    rw [List.mem_append, List.mem_cons] at hc
    rcases hc with hc | rfl | hc
    · exact hword hdot hfront hc
    · exact absurd rfl hne
    · exact ih hback hc

end IsPlain

/-- The characters that are left where a name stretches over type arguments, an annotation or
a comment. -/
def rawMarks : List Char :=
  ['<', '@', '/']

/-- A plain name has none of the marks that belong to no name. -/
theorem IsPlain.not_mem_of_mem_rawMarks {cs : List Char} (h : IsPlain cs) {c : Char}
    (hc : c ∈ rawMarks) : c ∉ cs := by
  have hsymbol : ∀ d ∈ rawMarks, d ∈ nameSymbols ∧ d ≠ '.' :=
    List.all_iff_forall_prop.mp (by decide)
  intro hmem
  exact not_mem_nameSymbols_of_isWordPart (h.isWordPart_of_mem hmem (hsymbol c hc).2)
    (hsymbol c hc).1

/-- The characters of a name that is read from a run of tokens. -/
def nameChars (piece : List Token) : List Char :=
  (withoutBlanks (spanText piece)).toList

/-- A name goes on with the tokens that are taken after it. -/
theorem nameChars_append {piece more : List Token} (hpiece : piece ≠ []) :
    nameChars (piece ++ more)
      = nameChars piece ++ (more.flatMap Token.chars).filter fun c => !isBlank c := by
  obtain ⟨t, ts, rfl⟩ := List.exists_cons_of_ne_nil hpiece
  simp only [nameChars, withoutBlanks, String.toList_ofList, List.cons_append,
    toList_spanText_cons, List.flatMap_append, List.filter_append, List.append_assoc]

/-- A word loses nothing with its blanks. -/
theorem filter_not_isBlank_of_isWord {cs : List Char} (h : isWord cs = true) :
    (cs.filter fun c => !isBlank c) = cs := by
  rw [isWord, Bool.and_eq_true, List.all_eq_true] at h
  rw [List.filter_eq_self]
  intro c hc
  rw [not_isBlank_of_isWordPart (h.2 c hc), Bool.not_false]

/-- The name that is read from a word is this word. -/
theorem nameChars_word {t : Token} (h : isWord t.text.toList = true) :
    nameChars [t] = t.text.toList := by
  rw [nameChars, withoutBlanks, String.toList_ofList, toList_spanText_cons, List.flatMap_nil,
    List.append_nil, filter_not_isBlank_of_isWord h]

/-- A run of tokens from which a name is read: either the name is plain, or something is left
in it that belongs to no name. -/
structure Spelled (piece : List Token) : Prop where
  nonempty : piece ≠ []
  plain_or_raw : IsPlain (nameChars piece) ∨ ∃ c ∈ rawMarks, c ∈ nameChars piece

namespace Spelled

/-- A single word spells a name. -/
theorem word {t : Token} (h : isWord t.text.toList = true) : Spelled [t] := by
  refine ⟨List.cons_ne_nil _ _, .inl ?_⟩
  rw [nameChars_word h]
  exact .of_isWord h

variable {piece more : List Token}

/-- A mark that has been read stays in the name. -/
theorem append_raw (hpiece : piece ≠ []) {c : Char} (hc : c ∈ rawMarks)
    (hmore : c ∈ more.flatMap Token.chars) : Spelled (piece ++ more) := by
  have hblank : ∀ d ∈ rawMarks, isBlank d = false := List.all_iff_forall_prop.mp (by decide)
  refine ⟨List.append_ne_nil_of_left_ne_nil hpiece _, .inr ⟨c, hc, ?_⟩⟩
  rw [nameChars_append hpiece, List.mem_append, List.mem_filter, hblank c hc]
  exact .inr ⟨hmore, rfl⟩

/-- A gap without a comment leaves nothing in a name, or a byte order mark, which counts as the
beginning of a word. -/
theorem isWordStart_of_mem_lead {t : Token} (ht : t.WellLexed) (hslash : '/' ∉ t.lead) {c : Char}
    (hc : c ∈ t.lead.filter fun c => !isBlank c) : isWordStart c = true := by
  obtain ⟨hmem, hblank⟩ := List.mem_filter.mp hc
  exact isWordStart_of_isGap (ht.gap hslash c hmem) (by simpa using hblank)

/-- A dot and a further word, with or without gaps and comments before them. -/
theorem append_word (h : Spelled piece) {dot t : Token} (hdot : dot.WellLexed)
    (htext : dot.text = ".") (ht : t.WellLexed) (hword : isWord t.text.toList = true) :
    Spelled (piece ++ [dot, t]) := by
  have hchars : [dot, t].flatMap Token.chars = dot.lead ++ '.' :: (t.lead ++ t.text.toList) := by
    simp [Token.chars, htext]
  have happend : ∀ {c : Char}, c ∈ rawMarks → c ∈ [dot, t].flatMap Token.chars →
      Spelled (piece ++ [dot, t]) := fun hc hmem => append_raw h.nonempty hc hmem
  rw [hchars] at happend
  by_cases hslash : '/' ∈ dot.lead
  · exact happend (c := '/') (by decide) (List.mem_append_left _ hslash)
  by_cases hslash' : '/' ∈ t.lead
  · exact happend (c := '/') (by decide)
      (List.mem_append_right _ (List.mem_cons_of_mem _ (List.mem_append_left _ hslash')))
  refine ⟨List.append_ne_nil_of_left_ne_nil h.nonempty _, ?_⟩
  rw [nameChars_append h.nonempty, hchars]
  rcases h.plain_or_raw with hplain | ⟨c, hc, hmem⟩
  · left
    rw [List.filter_append, List.filter_cons_of_pos (by decide), List.filter_append,
      filter_not_isBlank_of_isWord hword, ← List.append_assoc]
    refine IsPlain.append_dot_iff.mpr
      ⟨hplain.append ?_, .of_isWord (isWord_append_left hword ?_)⟩
    · intro c hc
      rw [isWordPart, isWordStart_of_mem_lead hdot hslash hc, Bool.true_or]
    · intro c hc
      exact isWordStart_of_mem_lead ht hslash' hc
  · exact .inr ⟨c, hc, List.mem_append_left _ hmem⟩

end Spelled

end ClassDiagram.Java
