import ClassDiagram.Proofs.Respacing
import Mathlib.Data.List.Find

/-!
# Blanks beside a dot

A blank that is put before or after a dot leaves the tokens of a source as they are, up to
their gaps and places, if the dot is a token of its own (`FreeDot`). Such a dot ends whatever
was read before it, and so does a blank, so no token before the dot can tell the one from the
other: whatever begins before the dot and ends there takes the same characters
(`lexeme_of_short`). The one thing that looks further is a number, which takes a dot unless a
second dot follows, and this is why no dot may stand beside the dot.

The gaps around the dot are free where the grammar does not look at them: not in the name of an
annotation, and not before a symbol that is read together with the one before it.
-/

namespace ClassDiagram.Java

open Text Lexer

/-! ## Lexemes that end before a dot -/

variable {x back y : List Char}

/-- A run ends where the text after it stops it. -/
theorem takeWhile_append_of_stop {p : Char → Bool} (h : ∀ d ∈ y.head?, p d = false)
    (x : List Char) : (x ++ y).takeWhile p = x.takeWhile p := by
  induction x with
  | nil =>
    cases y with
    | nil => rfl
    | cons d y =>
      rw [List.nil_append, List.takeWhile_cons_of_neg (by simp [h d rfl]), List.takeWhile_nil]
  | cons c x ih =>
    rw [List.cons_append, List.takeWhile_cons, List.takeWhile_cons, ih]

/-- A run that does not reach the dot does not see what stands there instead. -/
theorem takeWhile_append_of_short {p : Char → Bool} (hdot : p '.' = true)
    (h : ((x ++ '.' :: back).takeWhile p).length ≤ x.length) :
    (x ++ y).takeWhile p = (x ++ '.' :: back).takeWhile p := by
  induction x with
  | nil => simp [hdot] at h
  | cons c x ih =>
    by_cases hc : p c = true
    · simp only [List.cons_append, List.takeWhile_cons, hc, if_true, List.length_cons] at h ⊢
      rw [ih (by omega)]
    · simp [hc]

/-- Nor does a comment that ends before the dot. -/
theorem blockCommentLength_of_short (h : blockCommentLength (x ++ '.' :: back) ≤ x.length) :
    blockCommentLength (x ++ y) = blockCommentLength (x ++ '.' :: back) := by
  induction x with
  | nil => simp [blockCommentLength] at h
  | cons c x ih =>
    cases x with
    | nil =>
      simp [blockCommentLength] at h
    | cons d x =>
      by_cases hend : c = '*' ∧ d = '/'
      · obtain ⟨rfl, rfl⟩ := hend
        rfl
      · have hstep : ∀ ys,
            blockCommentLength (c :: d :: ys) = blockCommentLength (d :: ys) + 1 := by
          intro ys
          rw [blockCommentLength]
          intro rest heq
          simp_all
        simp only [List.cons_append, hstep, List.length_cons] at h ih ⊢
        rw [ih (by omega)]

/-- A text in quotes goes on until the quote. -/
theorem quotedLength_cons {quote c : Char} (hc : c ≠ '\\') (cs : List Char) :
    quotedLength quote (c :: cs) = if c = quote then 1 else quotedLength quote cs + 1 := by
  rw [quotedLength]
  · intro heq
    exact absurd heq hc
  · intro d rest heq
    exact absurd heq hc

/-- A text in quotes that ends before the dot is as long without it. -/
theorem quotedLength_of_short {quote : Char} (hquote : quote ≠ '.') (x : List Char) :
    quotedLength quote (x ++ '.' :: back) ≤ x.length →
      quotedLength quote (x ++ y) = quotedLength quote (x ++ '.' :: back) := by
  intro h
  match x with
  | [] =>
    rw [List.nil_append, quotedLength_cons (by decide), if_neg hquote.symm] at h
    exact absurd h (by simp)
  | c :: x =>
    by_cases hc : c = '\\'
    · subst hc
      -- the next character goes with the backslash
      match x with
      | [] => simp [quotedLength] at h
      | d :: x =>
        simp only [List.cons_append, quotedLength, List.length_cons] at h ⊢
        rw [quotedLength_of_short hquote x (by omega)]
    · rw [List.cons_append, quotedLength_cons hc] at h ⊢
      rw [List.cons_append, quotedLength_cons hc]
      by_cases hend : c = quote
      · rw [if_pos hend, if_pos hend]
      · rw [if_neg hend] at h ⊢
        rw [if_neg hend, quotedLength_of_short hquote x (by rw [List.length_cons] at h; omega)]

/-- A text block goes on until three quotes. -/
theorem textBlockLength_cons {c : Char} {cs : List Char} (hc : c ≠ '\\')
    (hend : ¬['"', '"', '"'] <+: c :: cs) :
    textBlockLength (c :: cs) = textBlockLength cs + 1 := by
  rw [textBlockLength]
  · intro heq
    exact absurd heq hc
  · intro d rest heq
    exact absurd heq hc
  · intro rest heq heq'
    subst heq heq'
    exact hend ⟨rest, rfl⟩

/-- A text that begins some characters ends before one of them or goes beyond it. -/
theorem prefix_or_of_append_cons {l a z : List Char} {d : Char} (h : l <+: a ++ d :: z) :
    l <+: a ∨ a ++ [d] <+: l := by
  have hlong : a ++ [d] <+: a ++ d :: z := ⟨z, by simp⟩
  rcases List.prefix_or_prefix_of_prefix h hlong with hl | hl
  · rcases List.prefix_concat_iff.mp hl with rfl | hshort
    · exact .inr (List.prefix_refl _)
    · exact .inl hshort
  · exact .inr hl

/-- A symbol without a certain character ends before it. -/
theorem prefix_append_cons_iff {l a z : List Char} {d : Char} (hd : d ∉ l) :
    l <+: a ++ d :: z ↔ l <+: a := by
  constructor
  · intro h
    rcases prefix_or_of_append_cons h with hshort | hlong
    · exact hshort
    · exact absurd (hlong.subset (by simp)) hd
  · intro h
    exact h.trans (List.prefix_append a _)

/-- A text block that ends before the dot is as long without it. -/
theorem textBlockLength_of_short (hy : ∀ d ∈ y.head?, d ≠ '"') (x : List Char) :
    textBlockLength (x ++ '.' :: back) ≤ x.length →
      textBlockLength (x ++ y) = textBlockLength (x ++ '.' :: back) := by
  intro h
  match x with
  | [] =>
    rw [List.nil_append, textBlockLength_cons (by decide) (by simp)] at h
    exact absurd h (by simp)
  | c :: x =>
    by_cases hc : c = '\\'
    · subst hc
      match x with
      | [] => simp [textBlockLength] at h
      | d :: x =>
        simp only [List.cons_append, textBlockLength, List.length_cons] at h ⊢
        rw [textBlockLength_of_short hy x (by omega)]
    · by_cases hend : ['"', '"', '"'] <+: c :: x
      · obtain ⟨rest, heq⟩ := hend
        rw [← heq]
        rfl
      · have hend' : ¬['"', '"', '"'] <+: c :: (x ++ y) := by
          cases y with
          | nil => rwa [List.append_nil]
          | cons d y =>
            rw [← List.cons_append, prefix_append_cons_iff]
            · exact hend
            · simp [hy d rfl]
        rw [List.cons_append, textBlockLength_cons hc
          (by rwa [← List.cons_append, prefix_append_cons_iff (by decide)])] at h
        rw [List.cons_append, textBlockLength_cons hc hend', List.cons_append,
          textBlockLength_cons hc (by rwa [← List.cons_append, prefix_append_cons_iff (by decide)]),
          textBlockLength_of_short hy x (by rw [List.length_cons] at h; omega)]

/-- So is a number, unless it ends in a point. -/
theorem numberLength_of_short {hex : Bool} (hlast : x.getLast? ≠ some '.')
    (hy : ∀ point previous, numberLength hex point previous ('.' :: back) = 0 →
      numberLength hex point previous y = 0) (point : Bool) (previous : Char)
    (h : numberLength hex point previous (x ++ '.' :: back) ≤ x.length) :
    numberLength hex point previous (x ++ y)
      = numberLength hex point previous (x ++ '.' :: back) := by
  induction x generalizing point previous with
  | nil =>
    have hzero : numberLength hex point previous ('.' :: back) = 0 := by simpa using h
    rw [List.nil_append, List.nil_append, hzero, hy point previous hzero]
  | cons c x ih =>
    have htail : x.getLast? ≠ some '.' := by
      cases x with
      | nil => simp
      | cons d x => simpa [List.getLast?_cons_cons] using hlast
    -- a dot at the end of `x` would look at what comes next
    have hlook : (c == '.' && !point && (x ++ y).head? != some '.')
        = (c == '.' && !point && (x ++ '.' :: back).head? != some '.') := by
      cases x with
      | nil =>
        have hc : c ≠ '.' := by simpa using hlast
        simp [hc]
      | cons d x => rfl
    simp only [List.cons_append, numberLength, hlook, List.length_cons] at h ⊢
    split
    · next hpart =>
      rw [if_pos hpart] at h
      rw [ih htail _ _ (by omega)]
    · next hpart =>
      rw [if_neg hpart] at h
      split
      · next hpoint =>
        rw [if_pos hpoint] at h
        rw [ih htail _ _ (by omega)]
      · next hpoint =>
        rw [if_neg hpoint] at h
        split
        · next hsign =>
          rw [if_pos hsign] at h
          rw [ih htail _ _ (by omega)]
        · rfl

/-- What follows a text after a blank was put beside the dot that followed it. -/
inductive Spaced (back : List Char) : List Char → Prop
  | before {b : Char} (hb : isBlank b = true) : Spaced back (b :: '.' :: back)
  | after {b : Char} (hb : isBlank b = true) : Spaced back ('.' :: b :: back)

namespace Spaced

/-- One blank is added to the dot. -/
theorem length_eq (h : Spaced back y) : y.length = back.length + 2 := by
  cases h <;> rfl

/-- The text goes on with the dot or with the blank. -/
theorem exists_head (h : Spaced back y) :
    ∃ d z, y = d :: z ∧ (d = '.' ∨ isBlank d = true) := by
  cases h with
  | before hb => exact ⟨_, _, rfl, .inr hb⟩
  | after _ => exact ⟨_, _, rfl, .inl rfl⟩

/-- It begins with no character but a dot or a blank. -/
theorem head_ne (h : Spaced back y) (e : Char) (hdot : e ≠ '.') (hblank : isBlank e = false) :
    ∀ d ∈ y.head?, d ≠ e := by
  obtain ⟨d, z, rfl, hd⟩ := h.exists_head
  rintro _ ⟨⟩ rfl
  rcases hd with rfl | hd
  · exact hdot rfl
  · rw [hblank] at hd
    cases hd

/-- Neither of them goes on with a word. -/
theorem head_not_wordPart (h : Spaced back y) : ∀ d ∈ y.head?, isWordPart d = false := by
  intro d hd
  by_cases hpart : isWordPart d = true
  · refine absurd rfl (h.head_ne d ?_ (not_isBlank_of_isWordPart hpart) d hd)
    rintro rfl
    exact absurd hpart (by decide)
  · exact Bool.not_eq_true _ ▸ hpart

/-- A blank ends a number, and so does the dot that ended it before. -/
theorem numberLength_eq_zero (h : Spaced back y) (hback : back.head? ≠ some '.') {hex : Bool}
    (point : Bool) (previous : Char)
    (hdot : numberLength hex point previous ('.' :: back) = 0) :
    numberLength hex point previous y = 0 := by
  cases h with
  | @before b hb =>
    have hne : ∀ e, isBlank e = false → b ≠ e := by
      rintro e he rfl
      rw [hb] at he
      cases he
    have halnum : (b.isAlphanum || b == '_') = false := by
      by_contra hpart
      refine hne b (not_isBlank_of_isWordPart ?_) rfl
      simp only [Char.isAlphanum, Bool.not_eq_false] at hpart
      simp only [isWordPart, isWordStart]
      grind
    rw [numberLength, halnum]
    simp [hne '+' (by decide), hne '-' (by decide)]
  | after hb =>
    cases point with
    | true => rfl
    | false => simp [numberLength, hback] at hdot

end Spaced

/-- What ends without a dot does so from the second character on. -/
theorem getLast?_of_cons {c : Char} (h : (c :: x).getLast? ≠ some '.') : x.getLast? ≠ some '.' := by
  cases x with
  | nil => simp
  | cons d x => simpa [List.getLast?_cons_cons] using h

/-- There is no blank in a symbol. -/
theorem not_isBlank_of_mem_longSymbols {l : List Char} (hl : l ∈ longSymbols) {d : Char}
    (hd : d ∈ l) : isBlank d = false := by
  have hall : (longSymbols.all fun l => l.all fun d => !isBlank d) = true := by decide
  simpa using List.all_eq_true.mp (List.all_eq_true.mp hall l hl) d hd

/-- The only symbol with dots has nothing else. -/
theorem eq_dot_of_mem_longSymbols {l : List Char} (hl : l ∈ longSymbols) (hdot : '.' ∈ l) {d : Char}
    (hd : d ∈ l) : d = '.' := by
  have hall : (longSymbols.all fun l => !l.contains '.' || l.all (· == '.')) = true := by decide
  have hdots := List.all_eq_true.mp hall l hl
  rw [List.contains_iff_mem.mpr hdot, Bool.not_true, Bool.false_or, List.all_eq_true] at hdots
  exact beq_iff_eq.mp (hdots d hd)

/-- A symbol ends before a dot, as long as no dot stands before that. -/
theorem prefix_of_longSymbols {l z : List Char} (hl : l ∈ longSymbols) {c : Char}
    (hlast : (c :: x).getLast? ≠ some '.') (h : l <+: c :: (x ++ '.' :: z)) : l <+: c :: x := by
  rcases prefix_or_of_append_cons (List.cons_append ▸ h) with hshort | hlong
  · exact hshort
  · obtain ⟨d, hd⟩ : ∃ d, (c :: x).getLast? = some d := ⟨_, List.getLast?_eq_some_getLast (by simp)⟩
    have hmem : d ∈ l := hlong.subset (List.mem_append_left _ (List.mem_of_getLast? hd))
    exact absurd (eq_dot_of_mem_longSymbols hl (hlong.subset (by simp)) hmem ▸ hd) hlast

/-- A symbol that does not end in a dot is not made longer by one. -/
theorem symbolLength_spaced (h : Spaced back y) {c : Char} (hlast : (c :: x).getLast? ≠ some '.') :
    symbolLength c (x ++ y) = symbolLength c (x ++ '.' :: back) := by
  have hdot : ∀ z, ∀ l ∈ longSymbols, l <+: c :: (x ++ '.' :: z) ↔ l <+: c :: x := by
    intro z l hl
    exact ⟨prefix_of_longSymbols hl hlast, fun h => h.trans (List.prefix_append (c :: x) _)⟩
  have hsame : ∀ l ∈ longSymbols, l <+: c :: (x ++ y) ↔ l <+: c :: x := by
    intro l hl
    cases h with
    | @before b hb =>
      refine prefix_append_cons_iff (a := c :: x) ?_
      intro hmem
      rw [not_isBlank_of_mem_longSymbols hl hmem] at hb
      cases hb
    | after _ => exact hdot _ l hl
  have hfind : longSymbols.find? (fun l => l.isPrefixOf (c :: (x ++ y)))
      = longSymbols.find? fun l => l.isPrefixOf (c :: (x ++ '.' :: back)) := by
    refine List.find?_congr fun l hl => ?_
    rw [Bool.eq_iff_iff, List.isPrefixOf_iff_prefix, List.isPrefixOf_iff_prefix, hsame l hl,
      hdot back l hl]
  rw [symbolLength, symbolLength, hfind]

/-- Two choices under one condition agree if both of their branches do. -/
theorem ite_eq_of_short {p : Prop} [Decidable p] {a a' b b' : Option TokenKind × Nat} {n : Nat}
    (hpos : p → a'.2 ≤ n → a = a') (hneg : ¬p → b'.2 ≤ n → b = b') :
    (if p then a' else b').2 ≤ n → (if p then a else b) = if p then a' else b' := by
  by_cases hp : p
  · rw [if_pos hp, if_pos hp]
    exact hpos hp
  · rw [if_neg hp, if_neg hp]
    exact hneg hp

/-- A lexeme that ends before the dot is the same with blanks around the dot. -/
theorem lexeme_of_short (hy : Spaced back y) (hback : back.head? ≠ some '.') {c : Char}
    (hlast : (c :: x).getLast? ≠ some '.') (h : (lexeme c (x ++ '.' :: back)).2 ≤ x.length) :
    lexeme c (x ++ y) = lexeme c (x ++ '.' :: back) := by
  obtain ⟨d, z, rfl, -⟩ := hy.exists_head
  have hhead : ∀ e, e ≠ '.' → isBlank e = false →
      ((x ++ d :: z).head? == some e) = ((x ++ '.' :: back).head? == some e) := by
    intro e hdot hblank
    cases x with
    | nil => simp [hy.head_ne e hdot hblank d rfl, hdot.symm]
    | cons _ _ => rfl
  have hdigit : (c == '.' && (x ++ d :: z).head?.any Char.isDigit)
      = (c == '.' && (x ++ '.' :: back).head?.any Char.isDigit) := by
    cases x with
    | nil =>
      have hc : c ≠ '.' := by simpa using hlast
      simp [hc]
    | cons _ _ => rfl
  have hquotes : ['"', '"'].isPrefixOf (x ++ d :: z)
      = ['"', '"'].isPrefixOf (x ++ '.' :: back) := by
    have hquote : d ≠ '"' := hy.head_ne _ (by decide) (by decide) d rfl
    rw [Bool.eq_iff_iff, List.isPrefixOf_iff_prefix, List.isPrefixOf_iff_prefix,
      prefix_append_cons_iff (by simp [hquote]), prefix_append_cons_iff (by decide)]
  have hdotPart : ∀ e ∈ ('.' :: back).head?, isWordPart e = false := by
    rintro _ ⟨⟩
    decide
  revert h
  unfold lexeme
  rw [hhead '/' (by decide) (by decide), hhead '*' (by decide) (by decide),
    hhead 'x' (by decide) (by decide), hhead 'X' (by decide) (by decide), hdigit, hquotes]
  refine ite_eq_of_short (fun _ _ => rfl) fun _ => ?_
  refine ite_eq_of_short (fun _ h => ?_) fun _ => ?_
  · rw [takeWhile_append_of_short (by decide) h]
  refine ite_eq_of_short (fun hblock h => ?_) fun _ => ?_
  · cases x with
    | nil => simp at hblock
    | cons e x =>
      simp only [List.cons_append, List.tail_cons, List.length_cons] at h ⊢
      rw [blockCommentLength_of_short (Nat.le_of_succ_le_succ h)]
  refine ite_eq_of_short (fun _ _ => ?_) fun _ => ?_
  · rw [takeWhile_append_of_stop hy.head_not_wordPart, takeWhile_append_of_stop hdotPart]
  refine ite_eq_of_short (fun _ h => ?_) fun _ => ?_
  · dsimp only at h ⊢
    rw [numberLength_of_short (getLast?_of_cons hlast) (hy.numberLength_eq_zero hback) _ _ h]
  refine ite_eq_of_short (fun _ h => ?_) fun _ => ?_
  · rw [numberLength_of_short (getLast?_of_cons hlast) (hy.numberLength_eq_zero hback) _ _ h]
  refine ite_eq_of_short (fun _ => ite_eq_of_short (fun hopen h => ?_) fun _ h => ?_) fun _ => ?_
  · obtain ⟨x, rfl⟩ :=
      (prefix_append_cons_iff (by decide)).mp (List.isPrefixOf_iff_prefix.mp hopen)
    have hquote : ∀ e ∈ (d :: z).head?, e ≠ '"' := hy.head_ne _ (by decide) (by decide)
    simp only [List.cons_append, List.nil_append, List.drop_succ_cons, List.drop_zero,
      List.length_cons] at h ⊢
    rw [textBlockLength_of_short hquote x (Nat.le_of_add_le_add_right h)]
  · rw [quotedLength_of_short (by decide) x h]
  refine ite_eq_of_short (fun _ h => ?_) fun _ _ => ?_
  · rw [quotedLength_of_short (by decide) x h]
  · rw [symbolLength_spaced hy hlast]

/-! ## Tokens around a dot -/

section

variable {fuel n : Nat} {place : Position} {lead cs : List Char} {c : Char}

/-- At the end of the text there is no token. -/
theorem scan_nil : scan fuel place lead [] = [] := by
  cases fuel <;> rfl

/-- A gap is kept for the token after it. -/
theorem scan_gap (h : lexeme c cs = (none, n)) :
    scan (fuel + 1) place lead (c :: cs)
      = scan fuel (place.afterAll (c :: cs.take n)) (lead ++ c :: cs.take n) (cs.drop n) := by
  rw [scan, h]

/-- A token has the gap before it, and the next one starts without. -/
theorem scan_token {kind : TokenKind} (h : lexeme c cs = (some kind, n)) :
    scan (fuel + 1) place lead (c :: cs)
      = ⟨lead, String.ofList (c :: cs.take n), kind, place.line, place.column⟩
        :: scan fuel (place.afterAll (c :: cs.take n)) [] (cs.drop n) := by
  rw [scan, h]

/-- What stands before the first token is in its lead. -/
theorem length_lead_le {fuel : Nat} : ∀ {place lead cs t ts},
    scan fuel place lead cs = t :: ts → lead.length ≤ t.lead.length := by
  induction fuel with
  | zero => intro place lead cs t ts h; cases h
  | succ fuel ih =>
    intro place lead cs t ts h
    cases cs with
    | nil => cases h
    | cons c cs =>
      rcases hlexeme : lexeme c cs with ⟨_ | kind, n⟩
      · rw [scan_gap hlexeme] at h
        have hlead := ih h
        rw [List.length_append] at hlead
        omega
      · rw [scan_token hlexeme] at h
        cases h
        exact Nat.le_refl _

end

/-- Two scans of the same characters, after gaps that differ in blanks. -/
theorem respaced_scan_lead (fuel : Nat) : ∀ {fuel' place place' lead lead' cs} {w : Preceding},
    cs.length ≤ fuel → cs.length ≤ fuel' →
    lead.filter (fun c => !isBlank c) = lead'.filter (fun c => !isBlank c) →
    (∀ t ∈ scan fuel place lead cs, t.WellLexed) →
    (lead = lead' ∨ ∀ t ∈ (scan fuel place lead cs).head?, w.isTight t = false) →
    RespacedFrom w (scan fuel place lead cs) (scan fuel' place' lead' cs) := by
  induction fuel with
  | zero =>
    intro fuel' place place' lead lead' cs w hfuel _ _ _ _
    obtain rfl : cs = [] := List.eq_nil_of_length_eq_zero (Nat.le_zero.mp hfuel)
    rw [scan_nil, scan_nil]
    exact .nil w
  | succ fuel ih =>
    intro fuel' place place' lead lead' cs w hfuel hfuel' hlead hlexed htight
    cases cs with
    | nil =>
      rw [scan_nil, scan_nil]
      exact .nil w
    | cons c cs =>
      obtain ⟨fuel', rfl⟩ : ∃ k, fuel' = k + 1 :=
        ⟨fuel' - 1, by rw [List.length_cons] at hfuel'; omega⟩
      rw [List.length_cons] at hfuel hfuel'
      rcases hlexeme : lexeme c cs with ⟨_ | kind, n⟩
      · rw [scan_gap hlexeme] at hlexed htight ⊢
        rw [scan_gap hlexeme]
        refine ih ?_ ?_ ?_ hlexed (htight.imp_left (congrArg (· ++ _)))
        · rw [List.length_drop]; omega
        · rw [List.length_drop]; omega
        · rw [List.filter_append, List.filter_append, hlead]
      · rw [scan_token hlexeme] at hlexed htight ⊢
        rw [scan_token hlexeme]
        obtain ⟨hfirst, hrest⟩ := List.forall_mem_cons.mp hlexed
        refine .cons hfirst ?_ ?_ (ih ?_ ?_ rfl hrest (.inl rfl))
        · rw [Token.Alike, Token.unspaced, Token.unspaced, hlead]
        · intro ht
          rcases htight with heq | hloose
          · exact heq
          · rw [hloose _ rfl] at ht
            cases ht
        · rw [List.length_drop]; omega
        · rw [List.length_drop]; omega

/-- Among the tokens, there is a dot of its own after the characters `front`, and the gaps
before and after it are free. -/
def FreeDot (w : Preceding) (front : List Char) (ts : List Token) : Prop :=
  ∃ before dot after, ts = before ++ dot :: after ∧ dot.text = "."
    ∧ (before ++ [dot]).flatMap Token.chars = front ++ ['.']
    ∧ w.afterAll before = .other ∧ ∀ t ∈ after.head?, t.text ∉ Preceding.touching

namespace FreeDot

variable {w : Preceding} {front : List Char} {ts : List Token} {t : Token}

/-- The first token is the dot, or the dot comes after it. -/
theorem of_cons (h : FreeDot w front (t :: ts)) :
    (t.text = "." ∧ front = t.lead ∧ w = .other ∧ ∀ u ∈ ts.head?, u.text ∉ Preceding.touching)
    ∨ ∃ rest, front = t.chars ++ rest ∧ FreeDot (w.after t) rest ts := by
  obtain ⟨before, dot, after, heq, hdot, hchars, hw, hafter⟩ := h
  have hdotChars : dot.chars = dot.lead ++ ['.'] := by
    rw [Token.chars, hdot]
    rfl
  cases before with
  | nil =>
    obtain ⟨rfl, rfl⟩ := List.cons.inj heq
    rw [List.nil_append, List.flatMap_singleton, hdotChars] at hchars
    exact .inl ⟨hdot, (List.append_cancel_right hchars).symm, hw, hafter⟩
  | cons u before =>
    obtain ⟨rfl, rfl⟩ := List.cons.inj heq
    refine .inr ⟨before.flatMap Token.chars ++ dot.lead, ?_, before, dot, after, rfl, hdot, ?_, hw,
      hafter⟩
    · rw [List.cons_append, List.flatMap_cons, List.flatMap_append, List.flatMap_singleton,
        hdotChars, ← List.append_assoc, ← List.append_assoc] at hchars
      rw [← List.append_cancel_right hchars, List.append_assoc]
    · rw [List.flatMap_append, List.flatMap_singleton, hdotChars, List.append_assoc]

/-- The gap before the first token comes before the dot. -/
theorem length_lead_le {fuel : Nat} {place : Position} {lead cs : List Char}
    (h : FreeDot w front (scan fuel place lead cs)) : lead.length ≤ front.length := by
  generalize hts : scan fuel place lead cs = ts at h
  cases ts with
  | nil =>
    obtain ⟨before, dot, after, heq, -⟩ := h
    simp at heq
  | cons t ts =>
    have hlead := Java.length_lead_le hts
    rcases h.of_cons with ⟨-, rfl, -⟩ | ⟨rest, rfl, -⟩
    · exact hlead
    · rw [Token.chars, List.length_append, List.length_append]
      omega

end FreeDot

/-- A dot begins a number if a digit follows, and otherwise a symbol. -/
theorem lexeme_dot (cs : List Char) :
    lexeme '.' cs
      = if cs.head?.any Char.isDigit then (some .literal, numberLength false true '.' cs)
        else (some .symbol, symbolLength '.' cs) := by
  rfl

/-- A blank is a gap of one character. -/
theorem lexeme_of_isBlank {b : Char} (hb : isBlank b = true) (cs : List Char) :
    lexeme b cs = (none, 0) := by
  rw [lexeme, if_pos (by rw [isGap, hb, Bool.true_or])]

/-- A dot before the characters `cs` is a token of its own. -/
def ScansDot (cs : List Char) : Prop :=
  ∀ fuel place lead, scan (fuel + 1) place lead ('.' :: cs)
    = ⟨lead, ".", .symbol, place.line, place.column⟩ :: scan fuel (place.after '.') [] cs

/-- A symbol of one character that is a dot is scanned as one. -/
theorem scansDot_of_take {cs : List Char} {n : Nat} (h : lexeme '.' cs = (some .symbol, n))
    (htake : cs.take n = []) : ScansDot cs := by
  intro fuel place lead
  have hdrop : cs.drop n = cs := by
    rcases List.take_eq_nil_iff.mp htake with rfl | rfl
    · rfl
    · exact List.drop_nil
  rw [scan_token h, htake, hdrop]
  rfl

/-- So is a dot with a blank behind it. -/
theorem scansDot_of_isBlank {b : Char} (hb : isBlank b = true) (cs : List Char) :
    ScansDot (b :: cs) := by
  have hdigit : b.isDigit = false := by
    by_contra hpart
    rw [not_isBlank_of_isWordPart (by simp_all [isWordPart])] at hb
    cases hb
  have hnone : longSymbols.find? (fun l => l.isPrefixOf ('.' :: b :: cs)) = none := by
    have hlong : (longSymbols.any fun l => l.isPrefixOf ['.']) = false := by decide
    refine List.find?_eq_none.mpr fun l hl hpre => ?_
    rw [List.isPrefixOf_iff_prefix] at hpre
    have hshort := (prefix_append_cons_iff (a := ['.']) fun hmem => ?_).mp hpre
    · exact absurd (List.isPrefixOf_iff_prefix.mpr hshort) (List.any_eq_false.mp hlong l hl)
    · rw [not_isBlank_of_mem_longSymbols hl hmem] at hb
      cases hb
  refine scansDot_of_take (n := 0) ?_ rfl
  rw [lexeme_dot, List.head?_cons, Option.any_some, hdigit, symbolLength, hnone]
  rfl

/-- Where the dot comes next, it is a token of its own. -/
theorem FreeDot.scansDot {w : Preceding} {fuel : Nat} {place : Position} {lead : List Char}
    (h : FreeDot w lead (scan (fuel + 1) place lead ('.' :: back))) : ScansDot back := by
  rcases hlexeme : lexeme '.' back with ⟨_ | kind, n⟩
  · rw [lexeme_dot] at hlexeme
    split at hlexeme <;> cases hlexeme
  · rw [scan_token hlexeme] at h
    rcases h.of_cons with ⟨htext, -⟩ | ⟨rest, hlead, -⟩
    · have htake : back.take n = [] := by
        simpa using congrArg String.toList htext
      rw [lexeme_dot] at hlexeme
      split at hlexeme
      · next hdigit =>
        -- a digit after the dot would be part of the token
        cases back with
        | nil => cases hdigit
        | cons d back =>
          have halnum : d.isAlphanum = true := by
            rw [Char.isAlphanum, show d.isDigit = true from hdigit, Bool.or_true]
          cases hlexeme
          simp [numberLength, halnum] at htake
      · next hdigit =>
        cases hlexeme
        exact scansDot_of_take (by rw [lexeme_dot, if_neg hdigit]) htake
    · have hlength := congrArg List.length hlead
      simp [Token.chars] at hlength

/-- A blank goes into the gap before the next token. -/
theorem scan_blank {b : Char} (hb : isBlank b = true) (fuel : Nat) (place : Position)
    (lead cs : List Char) :
    scan (fuel + 1) place lead (b :: cs) = scan fuel (place.after b) (lead ++ [b]) cs :=
  scan_gap (lexeme_of_isBlank hb cs)

/-- A blank beside a free dot changes the gaps of the tokens and nothing else. -/
theorem respaced_scan_dot (hy : Spaced back y) {fuel fuel' : Nat} {place place' : Position}
    {lead : List Char} {w : Preceding} (hfuel : back.length ≤ fuel) (hfuel' : back.length ≤ fuel')
    (hlexed : ∀ t ∈ scan (fuel + 1) place lead ('.' :: back), t.WellLexed)
    (hdot : FreeDot w lead (scan (fuel + 1) place lead ('.' :: back))) :
    RespacedFrom w (scan (fuel + 1) place lead ('.' :: back)) (scan (fuel' + 2) place' lead y) := by
  have hscan := hdot.scansDot
  rw [hscan] at hlexed hdot ⊢
  obtain ⟨hfirst, hrest⟩ := List.forall_mem_cons.mp hlexed
  rcases hdot.of_cons with ⟨-, -, rfl, hafter⟩ | ⟨rest, hlead, -⟩
  · cases hy with
    | @before b hb =>
      rw [scan_blank hb, hscan]
      refine .cons hfirst ?_
        (fun ht => absurd ht (by simp [Preceding.isTight, Preceding.touching])) ?_
      · simp [Token.Alike, Token.unspaced, hb]
      · exact respaced_scan_lead fuel hfuel hfuel' rfl hrest (.inl rfl)
    | @after b hb =>
      rw [scansDot_of_isBlank hb, scan_blank hb]
      refine .cons hfirst rfl (fun _ => rfl) ?_
      refine respaced_scan_lead fuel hfuel hfuel' (by simp [hb]) hrest (.inr fun t ht => ?_)
      simpa [Preceding.isTight, Preceding.after] using hafter t ht
  · have hlength := congrArg List.length hlead
    simp [Token.chars] at hlength

/-- What begins before the dot ends before it. -/
theorem FreeDot.lexeme_le {w : Preceding} {fuel : Nat} {place : Position} {lead : List Char}
    {c : Char}
    (h : FreeDot w (lead ++ c :: x) (scan (fuel + 1) place lead (c :: (x ++ '.' :: back)))) :
    (lexeme c (x ++ '.' :: back)).2 ≤ x.length := by
  rcases hlexeme : lexeme c (x ++ '.' :: back) with ⟨_ | kind, n⟩
  · rw [scan_gap hlexeme] at h
    have hlead := h.length_lead_le
    simp only [List.length_append, List.length_cons, List.length_take] at hlead
    show n ≤ x.length
    omega
  · rw [scan_token hlexeme] at h
    rcases h.of_cons with ⟨-, hfront, -⟩ | ⟨more, hfront, -⟩
    · simp at hfront
    · have hx : x = (x ++ '.' :: back).take n ++ more := by
        simpa [Token.chars] using hfront
      have hlength := congrArg List.length hx
      simp only [List.length_append, List.length_cons, List.length_take] at hlength
      show n ≤ x.length
      omega

/-- A blank beside a free dot changes the gaps of the tokens and nothing else, wherever the dot
is. -/
theorem respaced_scan (hy : Spaced back y) (hback : back.head? ≠ some '.') (fuel : Nat) :
    ∀ {fuel' place place' lead front} {w : Preceding},
      (front ++ '.' :: back).length ≤ fuel → (front ++ y).length ≤ fuel' →
      front.getLast? ≠ some '.' →
      (∀ t ∈ scan fuel place lead (front ++ '.' :: back), t.WellLexed) →
      FreeDot w (lead ++ front) (scan fuel place lead (front ++ '.' :: back)) →
      RespacedFrom w (scan fuel place lead (front ++ '.' :: back))
        (scan fuel' place' lead (front ++ y)) := by
  induction fuel with
  | zero =>
    intro fuel' place place' lead front w hfuel
    rw [List.length_append, List.length_cons] at hfuel
    omega
  | succ fuel ih =>
    intro fuel' place place' lead front w hfuel hfuel' hlast hlexed hdot
    cases front with
    | nil =>
      rw [List.nil_append, List.length_cons] at hfuel
      rw [List.nil_append, hy.length_eq] at hfuel'
      obtain ⟨fuel', rfl⟩ : ∃ k, fuel' = k + 2 := ⟨fuel' - 2, by omega⟩
      rw [List.append_nil] at hdot
      exact respaced_scan_dot hy (by omega) (by omega) hlexed hdot
    | cons c x =>
      rw [List.cons_append] at hfuel hfuel' hlexed hdot ⊢
      rw [List.cons_append]
      rw [List.length_cons, List.length_append] at hfuel hfuel'
      obtain ⟨fuel', rfl⟩ : ∃ k, fuel' = k + 1 := ⟨fuel' - 1, by omega⟩
      have hn := hdot.lexeme_le
      have hsame := lexeme_of_short hy hback hlast hn
      rcases hlexeme : lexeme c (x ++ '.' :: back) with ⟨kind?, n⟩
      rw [hlexeme] at hn hsame
      have htake : ∀ z, (x ++ z).take n = x.take n := fun z => List.take_append_of_le_length hn
      have hdrop : ∀ z, (x ++ z).drop n = x.drop n ++ z := fun z =>
        List.drop_append_of_le_length hn
      have hlast' : (x.drop n).getLast? ≠ some '.' := by
        rw [List.getLast?_drop]
        split
        · simp
        · exact getLast?_of_cons hlast
      have hfits : (x.drop n ++ '.' :: back).length ≤ fuel := by
        rw [List.length_append, List.length_drop]
        omega
      have hfits' : (x.drop n ++ y).length ≤ fuel' := by
        rw [List.length_append, List.length_drop]
        omega
      cases kind? with
      | none =>
        rw [scan_gap hlexeme, htake, hdrop] at hlexed hdot
        rw [scan_gap hlexeme, scan_gap hsame, htake, htake, hdrop, hdrop]
        refine ih hfits hfits' hlast' hlexed ?_
        rwa [List.append_assoc, List.cons_append, List.take_append_drop]
      | some kind =>
        rw [scan_token hlexeme, htake, hdrop] at hlexed hdot
        rw [scan_token hlexeme, scan_token hsame, htake, htake, hdrop, hdrop]
        obtain ⟨hfirst, hrest⟩ := List.forall_mem_cons.mp hlexed
        rcases hdot.of_cons with ⟨-, hfront, -⟩ | ⟨more, hfront, hmore⟩
        · simp at hfront
        · obtain rfl : more = x.drop n := by
            have hx : x = x.take n ++ more := by simpa [Token.chars] using hfront
            exact List.append_cancel_left (hx.symm.trans (List.take_append_drop n x).symm)
          exact .cons hfirst rfl (fun _ => rfl) (ih hfits hfits' hlast' hrest hmore)

end ClassDiagram.Java
