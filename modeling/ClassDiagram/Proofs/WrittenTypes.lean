import ClassDiagram.Java.Grammar.Types
import ClassDiagram.Proofs.BodyScope
import ClassDiagram.Proofs.Lexemes
import ClassDiagram.Proofs.Reading

/-!
# Types as they are written

A tree that the grammar reads is *written* in the source: each name in one of its types, and
each bare name in its code, is the text of a run of tokens that a name is read from
(`Spelled`), and each declared type is called by a single word. `Rules.Sound` asks this of
all rules that nest in themselves, and what one rule reads then follows from what its parts
read. This module has the predicates and the rules for types; the run of tokens that a class
type is read from is followed from dot to dot (`ClassTypeRun`).

Only what becomes part of a declaration has to be written so. The bodies of anonymous classes
and of local types never do, and nothing is said about them.
-/

namespace ClassDiagram.Java

open ClassDiagram.Java.Parser Grammar Lexer Text

/-! ## Written trees -/

/-- A name in a type, as the source has it: the text of some tokens without its blanks. The
name `Object` stands for a wildcard. -/
def TypeName (source n : String) : Prop :=
  n = "Object" ∨ ∃ piece, piece <:+: tokenize source ∧ Spelled piece
    ∧ n = withoutBlanks (spanText piece)

/-- A type in which each name is one of the source. -/
def NamedFrom (source : String) (t : TypeRef) : Prop :=
  ∀ n ∈ t.names, TypeName source n

/-- A written type whose type reference, if there is one, has names of the source. -/
def TypeExpr.Written (source : String) (e : TypeExpr) : Prop :=
  ∀ t, e.toTypeRef? = some t → NamedFrom source t

/-- What a node brings into the facts about a body by itself is written in the source. A bare
name can turn out to be a type. -/
def Code.OwnWritten (source : String) : Code → Prop
  | .name x => TypeName source x
  | .create _ type _ _ => type.Written source
  | .locals _ type _ => type.Written source
  | .forEach _ type _ _ => type.Written source
  | _ => True

/-- Code whose nodes are all written in the source. -/
def Code.Written (source : String) (c : Code) : Prop :=
  c.OwnWritten source ∧ ∀ n ∈ c.inner, n.OwnWritten source

def AllWritten (source : String) (cs : List Code) : Prop :=
  ∀ c ∈ cs, c.Written source

def Declarator.Written (source : String) : Declarator → Prop
  | .mk _ _ notes value => AllWritten source notes ∧ ∀ c ∈ value, c.Written source

structure TypeNode.Written (source : String) (node : TypeNode) : Prop where
  type : node.type.Written source
  notes : AllWritten source node.notes

/-- What a type declaration says before its body is written in the source, and its name is a
single word. -/
structure TypeHead.Written (source : String) (h : TypeHead) : Prop where
  name : isWord h.name.toList = true
  supertypes : ∀ s ∈ h.supertypes, s.2.Written source
  components : ∀ p ∈ h.components, p.type.Written source

mutual

def TypeDecl.Written (source : String) : TypeDecl → Prop
  | .mk head members => head.Written source ∧ membersWritten source members

def membersWritten (source : String) : List Member → Prop
  | [] => True
  | m :: rest => m.Written source ∧ membersWritten source rest

def Member.Written (source : String) : Member → Prop
  | .field _ type declarators =>
    type.Written source ∧ ∀ d ∈ declarators, d.Written source
  | .constructor _ _ params body =>
    (∀ p ∈ params, p.type.Written source) ∧ AllWritten source body
  | .method _ type _ params body =>
    type.Written source ∧ (∀ p ∈ params, p.type.Written source)
      ∧ ∀ code ∈ body, AllWritten source code
  | .nested decl => decl.Written source

end

/-- Members are written one by one. -/
theorem membersWritten_iff {source : String} {members : List Member} :
    membersWritten source members ↔ ∀ m ∈ members, m.Written source := by
  induction members with
  | nil => simp [membersWritten]
  | cons m rest ih => rw [membersWritten, ih, List.forall_mem_cons]

/-- The rules that nest in themselves read only what is written in the source. -/
structure Rules.Sound (source : String) (r : Rules) : Prop where
  type : Reads (tokenize source) (TypeNode.Written source) r.type
  mark : Reads (tokenize source) (fun m => AllWritten source m.notes) r.mark
  /-- An annotation begins with its sign. -/
  mark_begins : Begins (tokenize source) "@" r.mark
  value : Reads (tokenize source) (Code.Written source) r.value
  expression : Reads (tokenize source) (Code.Written source) r.expression
  operand : Reads (tokenize source) (Code.Written source) r.operand
  caseExpression : Reads (tokenize source) (Code.Written source) r.caseExpression
  recordPattern : Reads (tokenize source) (AllWritten source) r.recordPattern
  statement : Reads (tokenize source) (Code.Written source) r.statement
  declaration : Reads (tokenize source) (TypeDecl.Written source) r.declaration
  classBody : Reads (tokenize source) (fun ms => ∀ m ∈ ms, m.Written source) r.classBody

variable {source : String}

/-! ## Names -/

/-- The text of a run that spells a name, without its blanks, is a name of the source. -/
theorem typeName_of_spelled {piece : List Token} (hpiece : piece <:+: tokenize source)
    (h : Spelled piece) : TypeName source (withoutBlanks (spanText piece)) :=
  .inr ⟨piece, hpiece, h, rfl⟩

/-- A single word of the source is a name of it. -/
theorem typeName_of_word {t : Token} (ht : t ∈ tokenize source)
    (hword : isWord t.text.toList = true) : TypeName source t.text := by
  have hname : withoutBlanks (spanText [t]) = t.text :=
    String.toList_injective (nameChars_word hword)
  obtain ⟨before, after, heq⟩ := List.append_of_mem ht
  rw [← hname]
  exact typeName_of_spelled ⟨before, after, by simp [heq]⟩ (.word hword)

/-! ## Written types, by their form -/

namespace TypeExpr

/-- Type arguments that stand for no type are dropped. -/
theorem argTypeRefs_eq_filterMap (args : List TypeExpr) :
    argTypeRefs args = args.filterMap toTypeRef? := by
  induction args with
  | nil => rfl
  | cons a rest ih =>
    rw [argTypeRefs, List.filterMap_cons, ih]
    cases a.toTypeRef? <;> rfl

/-- Brackets add no name to a type. -/
theorem names_arrayOf (t : TypeRef) (n : Nat) : (t.arrayOf n).names = t.names := by
  induction n with
  | zero => rfl
  | succ n ih => rw [TypeRef.arrayOf, TypeRef.names, ih]

/-- The names in type arguments are those of each argument. -/
theorem mem_argumentNames_iff {n : String} {args : List TypeRef} :
    n ∈ TypeRef.argumentNames args ↔ ∃ t ∈ args, n ∈ t.names := by
  induction args with
  | nil => simp [TypeRef.argumentNames]
  | cons a rest ih => rw [TypeRef.argumentNames, List.mem_append, ih, List.exists_mem_cons_iff]

/-- A type that stands for a single name is written if this name is. -/
theorem written_plain {e : TypeExpr} {n : String} (he : e.toTypeRef? = some (.plain n))
    (hn : TypeName source n) : e.Written source := by
  intro t ht m hm
  rw [he] at ht
  cases ht
  rw [TypeRef.plain, TypeRef.names, TypeRef.argumentNames, List.mem_singleton] at hm
  exact hm ▸ hn

theorem written_void : TypeExpr.void.Written source := by
  intro t ht
  cases ht

/-- A wildcard without a bound stands for `Object`. -/
theorem written_unbounded : TypeExpr.unbounded.Written source :=
  written_plain rfl (.inl rfl)

/-- A generic type is written if its base spells a name and its arguments are written. -/
theorem written_generic {base : String} {args : List TypeExpr}
    (hbase : TypeName source (withoutBlanks base)) (hargs : ∀ a ∈ args, a.Written source) :
    (TypeExpr.generic base args).Written source := by
  intro t ht n hn
  rw [toTypeRef?, argTypeRefs_eq_filterMap] at ht
  cases ht
  rw [TypeRef.names, List.mem_cons, mem_argumentNames_iff] at hn
  rcases hn with rfl | ⟨t, ht, hn⟩
  · exact hbase
  · obtain ⟨a, ha, hat⟩ := List.mem_filterMap.mp ht
    exact hargs a ha t hat n hn

/-- Brackets behind a written type leave it written. -/
theorem Written.array {element : TypeExpr} (h : element.Written source) (dimensions : Nat) :
    (TypeExpr.array element dimensions).Written source := by
  intro t ht n hn
  obtain ⟨u, hu, rfl⟩ := Option.map_eq_some_iff.mp ht
  rw [names_arrayOf] at hn
  exact h u hu n hn

/-- A bounded wildcard stands for its bound. -/
theorem Written.bounded {bound : TypeExpr} (h : bound.Written source) :
    (TypeExpr.bounded bound).Written source :=
  h

end TypeExpr

/-! ## Written code, by its form -/

@[simp] theorem allWritten_nil : AllWritten source [] :=
  List.forall_mem_nil _

@[simp] theorem allWritten_cons {c : Code} {cs : List Code} :
    AllWritten source (c :: cs) ↔ c.Written source ∧ AllWritten source cs :=
  List.forall_mem_cons

@[simp] theorem allWritten_append {cs ds : List Code} :
    AllWritten source (cs ++ ds) ↔ AllWritten source cs ∧ AllWritten source ds :=
  List.forall_mem_append

theorem allWritten_flatten {css : List (List Code)} :
    AllWritten source css.flatten ↔ ∀ cs ∈ css, AllWritten source cs := by
  simp only [AllWritten, List.mem_flatten]
  grind

theorem allWritten_flatMap {α : Type} {f : α → List Code} {as : List α} :
    AllWritten source (as.flatMap f) ↔ ∀ a ∈ as, AllWritten source (f a) := by
  simp only [AllWritten, List.mem_flatMap]
  grind

theorem allWritten_toList {o : Option Code} :
    AllWritten source o.toList ↔ ∀ c ∈ o, c.Written source := by
  simp only [AllWritten, Option.mem_toList, Option.mem_def]

/-! ## Rules for names and annotations -/

/-- What is read as a name is a word of the source. -/
theorem reads_identifier :
    Reads (tokenize source) (fun t => t ∈ tokenize source ∧ isWord t.text.toList = true)
      identifier := by
  refine (reads_takeIf _).mono ?_
  rintro t ⟨ht, htest⟩
  rw [Bool.and_eq_true, beq_iff_eq] at htest
  exact ⟨ht, (wellLexed_of_mem_tokenize ht).word htest.1⟩

/-- So is what is read as the name of a type. -/
theorem reads_typeIdentifier :
    Reads (tokenize source) (fun t => t ∈ tokenize source ∧ isWord t.text.toList = true)
      typeIdentifier := by
  refine (reads_takeIf _).mono ?_
  rintro t ⟨ht, htest⟩
  rw [Bool.and_eq_true, Bool.and_eq_true, beq_iff_eq] at htest
  exact ⟨ht, (wellLexed_of_mem_tokenize ht).word htest.1.1⟩

theorem reads_dottedName {all : List Token} : Reads all (fun _ => True) dottedName :=
  ((reads_takeIf _).bind fun _ _ =>
    ((reads_skip _).bind fun _ _ => reads_takeIf _).many).spanned.bind fun _ _ => .pure trivial

variable {r : Rules}

/-- A named value in an annotation leaves the value. -/
theorem reads_markPair (hr : r.Sound source) :
    Reads (tokenize source) (Code.Written source) (markPair r) := by
  refine reads_identifier.bind fun _ _ => ?_
  refine (reads_skip _).bind fun _ _ => ?_
  exact hr.value

/-- The values of an annotation are named, or there is a single one, or none. -/
theorem reads_markArguments (hr : r.Sound source) :
    Reads (tokenize source) (AllWritten source) (markArguments r) := by
  have hsingle : Reads (tokenize source) (AllWritten source) (do return [← r.value]) :=
    hr.value.bind fun c hc => .pure (by simpa using hc)
  have hpairs : Reads (tokenize source) (AllWritten source) (separated1 "," (markPair r)) :=
    (reads_markPair hr).separated1 ","
  refine (reads_skip _).bind fun _ _ => ?_
  refine (hpairs.orElse (.orDefault allWritten_nil hsingle)).bind fun _ hvalues => ?_
  refine (reads_skip _).bind fun _ _ => ?_
  exact .pure hvalues

/-- An annotation is read for the values in it. -/
theorem reads_markRule (hr : r.Sound source) :
    Reads (tokenize source) (fun m => AllWritten source m.notes) (markRule r) := by
  refine (reads_skip _).bind fun _ _ => ?_
  refine reads_dottedName.bind fun _ _ => ?_
  refine (Reads.orDefault allWritten_nil (reads_markArguments hr)).bind fun _ hnotes => ?_
  exact .pure hnotes

/-- An annotation is known by its first token. -/
theorem begins_markRule (hr : r.Sound source) : Begins (tokenize source) "@" (markRule r) := by
  refine .skip_bind (P := fun _ => True) ?_
  refine reads_dottedName.bind fun _ _ => ?_
  refine (Reads.orDefault allWritten_nil (reads_markArguments hr)).bind fun _ _ => ?_
  exact .pure trivial

/-- Annotations in a row leave the values of all of them. -/
theorem reads_marks (hr : r.Sound source) :
    Reads (tokenize source) (AllWritten source) (marks r) :=
  hr.mark.many.bind fun _ hmarks => .pure (allWritten_flatMap.mpr hmarks)

/-- Where there are annotations, the first of them begins with its sign. -/
theorem begins_marks (hr : r.Sound source) {ts rest : List Token} {notes : List Code}
    (hts : ts <:+ tokenize source) (h : marks r ts = some (notes, rest)) :
    rest = ts ∨ ∃ t more, ts = t :: more ∧ t.text = "@" ∧ rest <:+ more := by
  obtain ⟨found, next, hfound, hpure⟩ := bind_eq_some_iff.mp h
  obtain ⟨-, rfl⟩ := pure_eq_some_iff.mp hpure
  exact hr.mark_begins.many hr.mark hts hfound

/-- A modifier that is a word takes this word and has no values in it. -/
theorem reads_keywordModifier {all : List Token} : Reads all (fun _ => True) keywordModifier := by
  refine ⟨?_⟩
  intro ts m rest _ hread
  unfold keywordModifier at hread
  cases ts with
  | nil => cases hread
  | cons t ts =>
    obtain ⟨m, -, heq⟩ := Option.map_eq_some_iff.mp hread
    cases heq
    exact ⟨List.suffix_cons _ _, trivial⟩

/-- A modifier that is no keyword needs a look at what comes next, which takes nothing. -/
theorem reads_sealedModifier {all : List Token} : Reads all (fun _ => True) sealedModifier := by
  refine Reads.bind (P := fun _ => True) (.orElse ?_ (reads_skip _)) fun _ _ => ?_
  · refine (reads_skip _).bind fun _ _ => ?_
    exact (reads_adjacent _).bind fun _ _ => reads_adjacent _
  · refine reads_peek.bind fun _ _ => ?_
    exact .ite (.pure trivial) .failure

/-- Of the modifiers, only annotations have values in them. -/
theorem reads_modifier (hr : r.Sound source) :
    Reads (tokenize source) (fun x => AllWritten source x.2) (modifier r) := by
  refine .orElse ?_ (.orElse ?_ ?_)
  · exact reads_keywordModifier.bind fun _ _ => .pure allWritten_nil
  · exact hr.mark.bind fun _ hnotes => .pure hnotes
  · exact reads_sealedModifier.bind fun _ _ => .pure allWritten_nil

theorem reads_modifiers (hr : r.Sound source) :
    Reads (tokenize source) (fun x => AllWritten source x.2) (modifiers r) :=
  (reads_modifier hr).many.bind fun _ hmodifiers => .pure (allWritten_flatMap.mpr hmodifiers)

/-! ## Rules for types -/

/-- Brackets can have annotations before them, and the values in these are kept. -/
theorem reads_dimensions (hr : r.Sound source) :
    Reads (tokenize source) (fun x => AllWritten source x.2) (dimensions r) := by
  have hbrackets : Reads (tokenize source) (AllWritten source) (do
      let notes ← marks r
      skip "["
      skip "]"
      return notes) := by
    refine (reads_marks hr).bind fun _ hnotes => ?_
    refine (reads_skip _).bind fun _ _ => ?_
    refine (reads_skip _).bind fun _ _ => ?_
    exact .pure hnotes
  exact hbrackets.many1.spanned.bind fun _ hnotes => .pure (allWritten_flatten.mpr hnotes)

/-- A type argument is a type or a wildcard, with or without a bound. -/
theorem reads_typeArgument (hr : r.Sound source) :
    Reads (tokenize source) (TypeNode.Written source) (typeArgument r) := by
  refine .orElse ?_ hr.type
  refine (reads_marks hr).bind fun before hbefore => ?_
  refine (reads_skip _).bind fun _ _ => ?_
  have hbound := (((reads_skip "extends").orElse (reads_skip "super")).bind fun _ _ =>
    hr.type).optionally
  refine hbound.bind fun bound hbound => ?_
  cases bound with
  | none => exact .pure ⟨TypeExpr.written_unbounded, hbefore⟩
  | some b =>
    have hb := hbound b rfl
    exact .pure ⟨hb.type.bounded, allWritten_append.mpr ⟨hbefore, hb.notes⟩⟩

/-- The type arguments after the opening bracket. -/
theorem reads_typeArguments_tail (hr : r.Sound source) :
    Reads (tokenize source)
      (fun x => (∀ a ∈ x.1, a.Written source) ∧ AllWritten source x.2) (do
        let args ← separated "," (typeArgument r)
        skip ">"
        return (args.map (·.type), args.flatMap (·.notes))) := by
  refine ((reads_typeArgument hr).separated ",").bind fun args hargs => ?_
  refine (reads_skip _).bind fun _ _ => ?_
  refine .pure ⟨?_, ?_⟩
  · exact List.forall_mem_map.mpr fun a ha => (hargs a ha).type
  · exact allWritten_flatMap.mpr fun a ha => (hargs a ha).notes

/-- The type arguments are written, and so are the values in their annotations. -/
theorem reads_typeArguments (hr : r.Sound source) :
    Reads (tokenize source)
      (fun x => (∀ a ∈ x.1, a.Written source) ∧ AllWritten source x.2) (typeArguments r) :=
  (reads_skip _).bind fun _ _ => reads_typeArguments_tail hr

/-- Type arguments are known by the opening bracket. -/
theorem begins_typeArguments (hr : r.Sound source) :
    Begins (tokenize source) "<" (typeArguments r) :=
  .skip_bind (reads_typeArguments_tail hr)

/-- The state of the reader inside a class type that begins at `start`: what has been taken so
far spells a name. -/
structure ClassTypeRun (source : String) (start here : List Token) (node : TypeNode) : Prop where
  start_suffix : start <:+ tokenize source
  here_suffix : here <:+ start
  spelled : Spelled (start.take (start.length - here.length))
  node : node.Written source

namespace ClassTypeRun

variable {start here : List Token} {node : TypeNode}

/-- What has been taken is what is there at first without what is left. -/
theorem take_length_sub (taken here : List Token) :
    (taken ++ here).take ((taken ++ here).length - here.length) = taken := by
  rw [List.length_append, Nat.add_sub_cancel, List.take_left]

/-- What has been taken, and what is taken next. -/
theorem take_append (h : ClassTypeRun source start here node) (more : List Token)
    {rest : List Token} (hmore : here = more ++ rest) :
    start.take (start.length - rest.length)
      = start.take (start.length - here.length) ++ more := by
  obtain ⟨taken, rfl⟩ := h.here_suffix
  rw [take_length_sub, hmore, ← List.append_assoc, take_length_sub]

/-- What has been taken so far is a name of the source. -/
theorem typeName (h : ClassTypeRun source start here node) :
    TypeName source (withoutBlanks (spanText (start.take (start.length - here.length)))) :=
  typeName_of_spelled ((List.take_prefix _ _).isInfix.trans h.start_suffix.isInfix) h.spelled

/-- What is left of the type is left of the source. -/
theorem here_suffix_source (h : ClassTypeRun source start here node) : here <:+ tokenize source :=
  h.here_suffix.trans h.start_suffix

/-- A mark that is read on the way stays in the name. -/
theorem spelled_append (h : ClassTypeRun source start here node) (more : List Token)
    {rest : List Token} (hmore : here = more ++ rest) {t : Token} (ht : t ∈ more) {c : Char}
    (hc : c ∈ rawMarks) (htext : c ∈ t.text.toList) :
    Spelled (start.take (start.length - rest.length)) := by
  rw [h.take_append more hmore]
  exact .append_raw h.spelled.nonempty hc
    (List.mem_flatMap.mpr ⟨t, ht, List.mem_append_right _ htext⟩)

/-- Type arguments. -/
theorem typeArguments (h : ClassTypeRun source start here node) (hr : r.Sound source)
    {rest : List Token} {args : List TypeExpr} {notes : List Code}
    (hread : typeArguments r here = some ((args, notes), rest)) :
    ClassTypeRun source start rest
      ⟨.generic (spanText (start.take (start.length - here.length))) args,
        node.notes ++ notes⟩ := by
  obtain ⟨hrest, hargs, hnotes⟩ := (reads_typeArguments hr).of_read h.here_suffix_source hread
  obtain ⟨t, more, rfl, ht, taken, rfl⟩ :=
    (begins_typeArguments hr).of_read h.here_suffix_source hread
  refine ⟨h.start_suffix, hrest.trans h.here_suffix, ?_, ?_, ?_⟩
  · exact h.spelled_append (t :: taken) rfl (List.mem_cons_self ..) (c := '<') (by decide)
      (by simp [ht])
  · exact TypeExpr.written_generic h.typeName hargs
  · exact allWritten_append.mpr ⟨h.node.notes, hnotes⟩

/-- A dot and a further name, with or without annotations before it. -/
theorem scopedTail (h : ClassTypeRun source start here node) (hr : r.Sound source)
    {rest : List Token} {longer : TypeNode}
    (hread : classTypeTail.scopedTail r start node here = some (longer, rest)) :
    ClassTypeRun source start rest longer := by
  obtain ⟨⟨⟩, afterDot, hskip, hmarked⟩ := bind_eq_some_iff.mp hread
  obtain ⟨dot, hdot, rfl⟩ := skip_eq_some_iff.mp hskip
  have hafterDot : afterDot <:+ tokenize source :=
    (List.suffix_cons _ _).trans h.here_suffix_source
  obtain ⟨notes, afterMarks, hmarks, hnamed⟩ := bind_eq_some_iff.mp hmarked
  obtain ⟨hafterMarks, hnotes⟩ := (reads_marks hr).of_read hafterDot hmarks
  obtain ⟨t, afterName, hname, hended⟩ := bind_eq_some_iff.mp hnamed
  obtain ⟨hafterName, ht, hword⟩ := reads_typeIdentifier.of_read (hafterMarks.trans hafterDot) hname
  obtain ⟨-, rfl⟩ := takeIf_eq_some_iff.mp hname
  obtain ⟨rfl, rfl⟩ := pure_eq_some_iff.mp hended
  have hspelled : Spelled (start.take (start.length - afterName.length)) := by
    rcases begins_marks hr hafterDot hmarks with rfl | ⟨sign, more, rfl, hsign, taken, rfl⟩
    · rw [h.take_append [dot, t] rfl]
      exact h.spelled.append_word
        (wellLexed_of_mem_tokenize (h.here_suffix_source.subset (List.mem_cons_self ..))) hdot
        (wellLexed_of_mem_tokenize ht) hword
    · exact h.spelled_append (dot :: sign :: taken ++ [t]) (by simp) (t := sign) (by simp)
        (c := '@') (by decide) (by simp [hsign])
  have hhere : afterName <:+ start :=
    (hafterName.trans hafterMarks).trans ((List.suffix_cons _ _).trans h.here_suffix)
  refine ⟨h.start_suffix, hhere, hspelled, ?_, allWritten_append.mpr ⟨h.node.notes, hnotes⟩⟩
  refine TypeExpr.written_plain rfl (typeName_of_spelled ?_ hspelled)
  exact (List.take_prefix _ _).isInfix.trans h.start_suffix.isInfix

/-- A class type goes on with type arguments or with a dot and a name; both keep the run. -/
theorem tail (h : ClassTypeRun source start here node) (hr : r.Sound source)
    {rest : List Token} {longer : TypeNode}
    (hread : classTypeTail r start node here = some (longer, rest)) :
    ClassTypeRun source start rest longer := by
  obtain ⟨tokens, next, hget, hrest⟩ := bind_eq_some_iff.mp hread
  obtain ⟨rfl, rfl⟩ := pure_eq_some_iff.mp hget
  cases htype : node.type with
  | generic =>
    rw [htype] at hrest
    exact h.scopedTail hr hrest
  | void | simple | «scoped» | array | unbounded | bounded =>
    rw [htype] at hrest
    rcases orElse_eq_some_iff.mp hrest with hgeneric | ⟨-, hdot⟩
    · obtain ⟨⟨args, notes⟩, next, hargs, hpure⟩ := bind_eq_some_iff.mp hgeneric
      obtain ⟨rfl, rfl⟩ := pure_eq_some_iff.mp hpure
      exact h.typeArguments hr hargs
    · exact h.scopedTail hr hdot

/-- However often a class type goes on, the run is kept. -/
theorem rest (hr : r.Sound source) {fuel : Nat} :
    ∀ {here node longer rest}, ClassTypeRun source start here node →
      classTypeRest r start fuel node here = some (longer, rest) →
      ClassTypeRun source start rest longer := by
  induction fuel with
  | zero =>
    intro here node longer rest h hread
    obtain ⟨rfl, rfl⟩ := pure_eq_some_iff.mp hread
    exact h
  | succ fuel ih =>
    intro here node longer rest h hread
    obtain ⟨found, next, hfound, hmore⟩ := bind_eq_some_iff.mp hread
    rcases optionally_eq_some_iff.mp hfound with ⟨further, rfl, htail⟩ | ⟨rfl, -, rfl⟩
    · exact ih (h.tail hr htail) hmore
    · obtain ⟨rfl, rfl⟩ := pure_eq_some_iff.mp hmore
      exact h

end ClassTypeRun

/-- A class type is followed from its first name as a run. -/
theorem reads_classType (hr : r.Sound source) :
    Reads (tokenize source) (TypeNode.Written source) (classType r) := by
  refine ⟨?_⟩
  intro ts node rest hts hread
  obtain ⟨start, next, hget, hfirst⟩ := bind_eq_some_iff.mp hread
  obtain ⟨rfl, rfl⟩ := pure_eq_some_iff.mp hget
  obtain ⟨t, next, hname, hrest⟩ := bind_eq_some_iff.mp hfirst
  obtain ⟨-, ht, hword⟩ := reads_typeIdentifier.of_read hts hname
  obtain ⟨-, rfl⟩ := takeIf_eq_some_iff.mp hname
  have hrun : ClassTypeRun source (t :: next) next ⟨.simple t.text, []⟩ := by
    refine ⟨hts, List.suffix_cons _ _, ?_, ?_, allWritten_nil⟩
    · exact ClassTypeRun.take_length_sub [t] next ▸ Spelled.word hword
    · exact TypeExpr.written_plain rfl (typeName_of_word ht hword)
  have hend := hrun.rest hr hrest
  exact ⟨hend.here_suffix, hend.node⟩

/-- A type without brackets is primitive, `void`, or a class type. -/
theorem reads_simpleType (hr : r.Sound source) :
    Reads (tokenize source) (TypeNode.Written source) (simpleType r) := by
  have hprimitive : ∀ n ∈ primitiveNames, isWord n.toList = true := by decide
  refine .orElse ?_ (.orElse ?_ (reads_classType hr))
  · refine (reads_takeIf _).bind fun t ht => .pure ⟨?_, allWritten_nil⟩
    have hword := hprimitive _ (List.contains_iff_mem.mp ht.2)
    exact TypeExpr.written_plain rfl (typeName_of_word ht.1 hword)
  · exact (reads_skip _).bind fun _ _ => .pure ⟨TypeExpr.written_void, allWritten_nil⟩

/-- Brackets make an array of the type before them. -/
theorem reads_plainType (hr : r.Sound source) :
    Reads (tokenize source) (TypeNode.Written source) (plainType r) := by
  refine (reads_simpleType hr).bind fun node hnode => ?_
  refine (reads_dimensions hr).optionally.bind fun brackets hbrackets => ?_
  cases brackets with
  | none => exact .pure hnode
  | some x =>
    obtain ⟨n, notes⟩ := x
    exact .pure ⟨hnode.type.array n, allWritten_append.mpr ⟨hnode.notes, hbrackets _ rfl⟩⟩

/-- Annotations before a type add their values to those inside it. -/
theorem reads_typeRule (hr : r.Sound source) :
    Reads (tokenize source) (TypeNode.Written source) (typeRule r) := by
  refine (reads_marks hr).bind fun _ hbefore => ?_
  refine (reads_plainType hr).bind fun _ hnode => ?_
  exact .pure ⟨hnode.type, allWritten_append.mpr ⟨hbefore, hnode.notes⟩⟩

theorem reads_typeList (hr : r.Sound source) :
    Reads (tokenize source) (fun nodes => ∀ node ∈ nodes, node.Written source) (typeList r) :=
  hr.type.separated1 ","

/-- Of a type parameter nothing is kept. -/
theorem reads_typeParameter (hr : r.Sound source) :
    Reads (tokenize source) (fun _ => True) (typeParameter r) := by
  refine (reads_marks hr).bind fun _ _ => ?_
  refine reads_identifier.bind fun _ _ => ?_
  refine ((reads_skip _).bind fun _ _ => hr.type.separated1 "&").optionally.bind fun _ _ => ?_
  exact .pure trivial

theorem reads_typeParameters (hr : r.Sound source) :
    Reads (tokenize source) (fun _ => True) (typeParameters r) := by
  refine (reads_skip _).bind fun _ _ => ?_
  refine ((reads_typeParameter hr).separated1 ",").bind fun _ _ => ?_
  exact reads_skip _

end ClassDiagram.Java
