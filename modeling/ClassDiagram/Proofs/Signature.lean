import ClassDiagram.TypeRef
import Mathlib.Data.List.Infix
import Mathlib.Logic.Relation

/-!
# A signature determines its type

The memo is keyed by written forms, so two types that are written alike share one
answer. This file says when that is harmless: if no name in either type has one of
the five delimiters `<`, `>`, `,`, `[` and `]` in it, types with one signature are
equal (`eq_of_signature_eq`). Whatever the names are, a type is never written like
one of its own parts, for the written form of a part is a piece of the whole and
something is put after it (`signature_faithful`).

The proof reads a written form from the left. Every type is a named type followed by
some pairs of brackets (`exists_arrayOf`), its name ends at the first delimiter
(`append_eq_of_delimited`), and what follows a complete type is the end of the text
or one of `>` and `,`. The induction carries the text that follows along
(`chars_append_cancel`): without it the arguments of a generic type could not be
told apart one by one. Arrays are written behind their element, so the induction
stops at the named type inside and leaves the brackets to be counted afterwards.
-/

namespace ClassDiagram.TypeRef

/-- The characters that the written form of a type puts between names. -/
def delimiters : List Char :=
  ['<', '>', ',', '[', ']']

/-- No name that occurs in the type, at whatever depth, has a delimiter in it. -/
def Unambiguous (t : TypeRef) : Prop :=
  ∀ name ∈ t.names, ∀ c ∈ name.toList, c ∉ delimiters

/-- Whether a type is free of delimiters can be computed. -/
theorem unambiguous_iff_all {t : TypeRef} :
    (t.names.all fun name => name.toList.all fun c => !delimiters.contains c) = true
      ↔ t.Unambiguous := by
  simp [Unambiguous]

instance (t : TypeRef) : Decidable t.Unambiguous :=
  decidable_of_iff _ unambiguous_iff_all

theorem Unambiguous.element {t : TypeRef} (h : (array t).Unambiguous) : t.Unambiguous := by
  intro name hname
  exact h name (by rw [names]; exact hname)

theorem Unambiguous.name {name : String} {args : List TypeRef}
    (h : (named name args).Unambiguous) : ∀ c ∈ name.toList, c ∉ delimiters :=
  h name (by rw [names]; exact List.mem_cons_self)

/-- The names of an argument are among the names of the arguments. -/
theorem names_subset_argumentNames {a : TypeRef} {args : List TypeRef} (h : a ∈ args) :
    ∀ name ∈ a.names, name ∈ argumentNames args := by
  induction args with
  | nil => cases h
  | cons b rest ih =>
    intro name hname
    rw [argumentNames]
    rcases List.mem_cons.mp h with rfl | hrest
    · exact List.mem_append_left _ hname
    · exact List.mem_append_right _ (ih hrest name hname)

theorem Unambiguous.argument {name : String} {args : List TypeRef} {a : TypeRef}
    (h : (named name args).Unambiguous) (ha : a ∈ args) : a.Unambiguous := by
  intro n hn
  refine h n ?_
  rw [names]
  exact List.mem_cons_of_mem _ (names_subset_argumentNames ha n hn)

/-! ## Texts that end at a delimiter -/

/-- Two texts without delimiters, each followed by the end or by a delimiter, are told
apart by what they are written as. -/
theorem append_eq_of_delimited {n n' x x' : List Char}
    (hn : ∀ c ∈ n, c ∉ delimiters) (hn' : ∀ c ∈ n', c ∉ delimiters)
    (hx : ∀ c ∈ x.head?, c ∈ delimiters) (hx' : ∀ c ∈ x'.head?, c ∈ delimiters)
    (h : n ++ x = n' ++ x') : n = n' ∧ x = x' := by
  induction n generalizing n' with
  | nil =>
    cases n' with
    | nil => exact ⟨rfl, h⟩
    | cons c rest =>
      -- `x` would have to start with `c`, which is no delimiter
      have hc : c ∈ delimiters := hx c (by rw [List.nil_append] at h; rw [h]; rfl)
      exact absurd hc (hn' c List.mem_cons_self)
  | cons c rest ih =>
    cases n' with
    | nil =>
      have hc : c ∈ delimiters := hx' c (by rw [List.nil_append] at h; rw [← h]; rfl)
      exact absurd hc (hn c List.mem_cons_self)
    | cons c' rest' =>
      rw [List.cons_append, List.cons_append] at h
      injection h with hhead htail
      obtain ⟨hrest, htext⟩ := ih (fun d hd => hn d (List.mem_cons_of_mem _ hd))
        (fun d hd => hn' d (List.mem_cons_of_mem _ hd)) htail
      exact ⟨by rw [hhead, hrest], htext⟩

/-- What may follow a complete type: nothing, the end of the arguments it is one of, or
the next argument. -/
def Closes (rest : List Char) : Prop :=
  ∀ c ∈ rest.head?, c = '>' ∨ c = ','

theorem closes_nil : Closes [] := by
  intro c hc
  cases hc

theorem closes_gt (rest : List Char) : Closes ('>' :: rest) := by
  intro c hc
  exact .inl (Option.some.inj hc).symm

theorem closes_comma (rest : List Char) : Closes (',' :: rest) := by
  intro c hc
  exact .inr (Option.some.inj hc).symm

/-! ## Brackets -/

/-- The written form of `k` array dimensions. -/
def brackets : Nat → List Char
  | 0 => []
  | k + 1 => '[' :: ']' :: brackets k

/-- Two runs of brackets in a row are one run. -/
theorem brackets_add (k i : Nat) : brackets (k + i) = brackets k ++ brackets i := by
  induction k with
  | zero => rw [Nat.zero_add]; rfl
  | succ k ih =>
    rw [Nat.succ_add]
    show '[' :: ']' :: brackets (k + i) = '[' :: ']' :: (brackets k ++ brackets i)
    rw [ih]

/-- The text of an array is the text of its element with the brackets behind it. -/
theorem chars_arrayOf (t : TypeRef) (k : Nat) :
    (arrayOf t k).chars = t.chars ++ brackets k := by
  induction k with
  | zero => simp [arrayOf, brackets]
  | succ k ih => rw [arrayOf, chars_array, ih, brackets_add k 1, List.append_assoc]; rfl

/-- A dimension directly around the element may as well be counted. -/
theorem arrayOf_array (t : TypeRef) (k : Nat) : arrayOf (array t) k = arrayOf t (k + 1) := by
  induction k with
  | zero => rfl
  | succ k ih => rw [arrayOf, ih, ← arrayOf]

/-- Every type is a named type with some array dimensions around it. -/
theorem exists_arrayOf : ∀ t : TypeRef, ∃ name args k, t = arrayOf (named name args) k
  | .named name args => ⟨name, args, 0, rfl⟩
  | .array element => by
    obtain ⟨name, args, k, h⟩ := exists_arrayOf element
    exact ⟨name, args, k + 1, by rw [h, arrayOf]⟩

theorem Unambiguous.of_arrayOf {t : TypeRef} :
    ∀ {k : Nat}, (arrayOf t k).Unambiguous → t.Unambiguous
  | 0, h => h
  | _ + 1, h => Unambiguous.of_arrayOf h.element

/-- In front of a text that closes a type, brackets can be counted. -/
theorem brackets_append_cancel {r r' : List Char} (hr : Closes r) (hr' : Closes r') :
    ∀ {k k' : Nat}, brackets k ++ r = brackets k' ++ r' → k = k' ∧ r = r'
  | 0, 0, h => ⟨rfl, h⟩
  | 0, k + 1, h => by
    have hc := hr '[' (by rw [show r = _ from h]; rfl)
    simp at hc
  | k + 1, 0, h => by
    have hc := hr' '[' (by rw [show r' = _ from h.symm]; rfl)
    simp at hc
  | k + 1, k' + 1, h => by
    have htail : brackets k ++ r = brackets k' ++ r' := by
      simpa [brackets] using h
    obtain ⟨hk, hrest⟩ := brackets_append_cancel hr hr' htail
    exact ⟨by rw [hk], hrest⟩

/-! ## Arguments -/

/-- What follows the name of a type: its arguments, if it has any. -/
def argumentPart : List TypeRef → List Char
  | [] => []
  | args => '<' :: (argumentChars args ++ ['>'])

theorem chars_named (name : String) (args : List TypeRef) :
    (named name args).chars = name.toList ++ argumentPart args := by
  cases args with
  | nil => simp [chars, argumentPart]
  | cons a rest => simp [chars, argumentPart]

/-- What follows one of several arguments: the end, or a comma and the others. -/
def afterArgument (y : List Char) : List TypeRef → List Char
  | [] => '>' :: y
  | a :: rest => ',' :: ' ' :: (a.chars ++ afterArgument y rest)

/-- An argument list that is closed starts with its first argument, and what follows it is a
comma or the closing bracket. -/
theorem argumentChars_append (a : TypeRef) (rest : List TypeRef) (y : List Char) :
    argumentChars (a :: rest) ++ '>' :: y = a.chars ++ afterArgument y rest := by
  induction rest generalizing a with
  | nil => rw [argumentChars, afterArgument]
  | cons b rest ih => simp [argumentChars, afterArgument, ih]

theorem argumentPart_append (a : TypeRef) (rest : List TypeRef) (y : List Char) :
    argumentPart (a :: rest) ++ y = '<' :: (a.chars ++ afterArgument y rest) := by
  rw [← argumentChars_append]
  simp [argumentPart]

/-- What follows an argument can be no part of it. -/
theorem closes_afterArgument (y : List Char) (rest : List TypeRef) :
    Closes (afterArgument y rest) := by
  cases rest with
  | nil => exact closes_gt _
  | cons b rest => exact closes_comma _

/-- The text after a name starts with a delimiter, be it the one of the arguments, of the
brackets, or of what closes the type. -/
theorem delimited_after_name {r : List Char} (hr : Closes r) (args : List TypeRef) (k : Nat) :
    ∀ c ∈ (argumentPart args ++ (brackets k ++ r)).head?, c ∈ delimiters := by
  intro c hc
  cases args with
  | cons a rest =>
    rw [show c = '<' from (Option.some.inj hc).symm]
    decide
  | nil =>
    cases k with
    | succ k =>
      rw [show c = '[' from (Option.some.inj hc).symm]
      decide
    | zero => rcases hr c hc with rfl | rfl <;> decide

/-- No arguments begin where brackets or the end of the type do. -/
theorem argumentPart_ne {r : List Char} (hr : Closes r) (k : Nat) (a : TypeRef)
    (rest : List TypeRef) (y : List Char) :
    brackets k ++ r ≠ argumentPart (a :: rest) ++ y := by
  intro h
  cases k with
  | succ k => simp [brackets, argumentPart] at h
  | zero =>
    have hc := hr '<' (by rw [show r = argumentPart (a :: rest) ++ y from h]; rfl)
    simp at hc

/-- Behind a name the arguments are written as they would be behind another argument, but
for how they begin, so equal texts there are equal texts here. -/
theorem afterArgument_eq_of_argumentPart {args args' : List TypeRef} {k k' : Nat}
    {r r' : List Char} (hr : Closes r) (hr' : Closes r')
    (h : argumentPart args ++ (brackets k ++ r) = argumentPart args' ++ (brackets k' ++ r')) :
    afterArgument (brackets k ++ r) args = afterArgument (brackets k' ++ r') args' := by
  cases args with
  | nil =>
    cases args' with
    | nil => exact congrArg (List.cons '>') h
    | cons b rest' => exact absurd h (argumentPart_ne hr k b rest' _)
  | cons a rest =>
    cases args' with
    | nil => exact absurd h.symm (argumentPart_ne hr' k' a rest _)
    | cons b rest' =>
      rw [argumentPart_append, argumentPart_append] at h
      injection h with _ h
      exact congrArg (fun text => ',' :: ' ' :: text) h

mutual

/-- A type can be read off the beginning of a text, if what follows it closes a type. The
dimensions around it are counted apart, for they are written behind everything that
recursion on the type takes to pieces. -/
theorem chars_append_cancel : ∀ (t : TypeRef) (k : Nat), t.Unambiguous →
    ∀ {u : TypeRef} {r r' : List Char}, u.Unambiguous → Closes r → Closes r' →
      (arrayOf t k).chars ++ r = u.chars ++ r' → arrayOf t k = u ∧ r = r'
  | .array element, k, ht, u, r, r', hu, hr, hr', h => by
    rw [arrayOf_array] at h ⊢
    exact chars_append_cancel element (k + 1) ht.element hu hr hr' h
  | .named name args, k, ht, u, r, r', hu, hr, hr', h => by
    obtain ⟨name', args', k', rfl⟩ := exists_arrayOf u
    have hu' := hu.of_arrayOf
    rw [chars_arrayOf, chars_arrayOf, chars_named, chars_named] at h
    simp only [List.append_assoc] at h
    -- name, arguments and brackets in turn: each is told by where the next one begins
    obtain ⟨hname, hrest⟩ := append_eq_of_delimited ht.name hu'.name
      (delimited_after_name hr args k) (delimited_after_name hr' args' k') h
    obtain ⟨hargs, hbrackets⟩ := afterArgument_cancel args (fun a => ht.argument)
      (fun a => hu'.argument) (afterArgument_eq_of_argumentPart hr hr' hrest)
    obtain ⟨hk, hr⟩ := brackets_append_cancel hr hr' hbrackets
    exact ⟨by rw [String.toList_inj.mp hname, hargs, hk], hr⟩

/-- So can the arguments of a type, one by one. -/
theorem afterArgument_cancel : ∀ (rest : List TypeRef), (∀ a ∈ rest, a.Unambiguous) →
    ∀ {rest' : List TypeRef} {y y' : List Char}, (∀ a ∈ rest', a.Unambiguous) →
      afterArgument y rest = afterArgument y' rest' → rest = rest' ∧ y = y'
  | [], _, rest', y, y', _, h => by
    cases rest' with
    | nil => exact ⟨rfl, by simpa [afterArgument] using h⟩
    | cons b rest' => simp [afterArgument] at h
  | a :: rest, ha, rest', y, y', hb, h => by
    cases rest' with
    | nil => simp [afterArgument] at h
    | cons b rest' =>
      have htail : a.chars ++ afterArgument y rest = b.chars ++ afterArgument y' rest' := by
        simpa [afterArgument] using h
      -- an argument is a complete type, closed by what follows it
      obtain ⟨hab, hafter⟩ := chars_append_cancel a 0 (ha a List.mem_cons_self)
        (hb b List.mem_cons_self) (closes_afterArgument y rest) (closes_afterArgument y' rest')
        htail
      obtain ⟨hrest, hy⟩ := afterArgument_cancel rest
        (fun x hx => ha x (List.mem_cons_of_mem _ hx))
        (fun x hx => hb x (List.mem_cons_of_mem _ hx)) hafter
      exact ⟨by rw [show a = b from hab, hrest], hy⟩

end

/-- **A signature determines its type** as long as no name has a delimiter in it. -/
theorem eq_of_signature_eq {t u : TypeRef} (ht : t.Unambiguous) (hu : u.Unambiguous)
    (h : t.signature = u.signature) : t = u := by
  have hchars : (arrayOf t 0).chars ++ [] = u.chars ++ [] := by
    have := congrArg String.toList h
    simpa [signature, arrayOf] using this
  exact (chars_append_cancel t 0 ht hu closes_nil closes_nil hchars).1

/-! ## The written forms of parts -/

/-- `t` is an array of `part`, or has it as an argument. -/
inductive Encloses : TypeRef → TypeRef → Prop
  | element (t : TypeRef) : Encloses (array t) t
  | argument {name : String} {args : List TypeRef} {a : TypeRef} (h : a ∈ args) :
      Encloses (named name args) a

/-- Each argument stands in the text of the argument list. -/
theorem chars_infix_argumentChars {a : TypeRef} {args : List TypeRef} (h : a ∈ args) :
    a.chars <:+: argumentChars args := by
  induction args with
  | nil => cases h
  | cons b rest ih =>
    cases rest with
    | nil =>
      rw [List.mem_singleton.mp h, argumentChars]
    | cons c rest =>
      rw [argumentChars]
      rcases List.mem_cons.mp h with rfl | hrest
      · exact (List.prefix_append _ _).isInfix
      · have htail : argumentChars (c :: rest) <:+ ',' :: ' ' :: argumentChars (c :: rest) :=
          List.suffix_append [',', ' '] _
        exact (ih hrest).trans (htail.trans (List.suffix_append _ _)).isInfix

/-- What is written after a part is at least one closing bracket. -/
theorem Encloses.chars_infix {t part : TypeRef} (h : Encloses t part) :
    part.chars <:+: t.chars ∧ part.chars.length < t.chars.length := by
  cases h with
  | element =>
    rw [chars_array, List.length_append]
    exact ⟨(List.prefix_append _ _).isInfix, Nat.lt_add_of_pos_right (by decide)⟩
  | @argument name args _ hmem =>
    have hargs := chars_infix_argumentChars hmem
    have hlength := hargs.length_le
    cases args with
    | nil => cases hmem
    | cons b rest =>
      rw [chars_named, show argumentPart (b :: rest) = '<' :: (argumentChars (b :: rest) ++ ['>'])
        from rfl]
      refine ⟨?_, ?_⟩
      · have hinner : argumentChars (b :: rest) <:+: '<' :: (argumentChars (b :: rest) ++ ['>']) :=
          ⟨['<'], ['>'], rfl⟩
        exact hargs.trans (hinner.trans (List.suffix_append _ _).isInfix)
      · simp only [List.length_append, List.length_cons, List.length_nil]
        omega

/-- The same of parts at any depth. -/
theorem chars_infix_of_transGen {t part : TypeRef} (h : Relation.TransGen Encloses t part) :
    part.chars <:+: t.chars ∧ part.chars.length < t.chars.length := by
  induction h with
  | single hlast => exact hlast.chars_infix
  | tail _ hlast ih =>
    obtain ⟨hpiece, hlength⟩ := hlast.chars_infix
    exact ⟨hpiece.trans ih.1, hlength.trans ih.2⟩

/-- **A signature stands for one type**, as long as no name has a delimiter in it. And with
whatever names, the signatures of the parts of a type are pieces of its own and strictly
shorter. -/
theorem signature_faithful :
    (∀ t u : TypeRef, t.Unambiguous → u.Unambiguous → (t.signature = u.signature ↔ t = u))
    ∧ ∀ t part : TypeRef, Relation.TransGen Encloses t part →
        part.signature.toList <:+: t.signature.toList
        ∧ part.signature.length < t.signature.length := by
  refine ⟨fun t u ht hu => ⟨eq_of_signature_eq ht hu, congrArg signature⟩, ?_⟩
  intro t part hpart
  obtain ⟨hpiece, hlength⟩ := chars_infix_of_transGen hpart
  rw [signature, signature, String.length_ofList, String.length_ofList, String.toList_ofList,
    String.toList_ofList]
  exact ⟨hpiece, hlength⟩

/-- Lists of arrays and arrays of lists, with a name that is empty. -/
theorem signature_faithful_lists :
    (array (named "List" [plain ""])).Unambiguous
    ∧ (named "List" [array (plain "")]).Unambiguous
    ∧ (array (named "List" [plain ""])).signature ≠ (named "List" [array (plain "")]).signature
    ∧ (plain "").signature.length < (array (named "List" [plain ""])).signature.length := by
  have ht : (array (named "List" [plain ""])).Unambiguous := by decide
  have hu : (named "List" [array (plain "")]).Unambiguous := by decide
  obtain ⟨hinjective, hparts⟩ := signature_faithful
  have hpart : Relation.TransGen Encloses (array (named "List" [plain ""])) (plain "") :=
    .tail (.single (.element _)) (.argument List.mem_cons_self)
  refine ⟨ht, hu, ?_, (hparts _ _ hpart).2⟩
  intro heq
  cases (hinjective _ _ ht hu).mp heq

end ClassDiagram.TypeRef
