import ClassDiagram.Java.Grammar.Types
import ClassDiagram.Proofs.OpaqueTypes
import ClassDiagram.Proofs.Respacing

/-!
# Types in respaced source

A written type is known by its text where it has dots in it, and this text differs in blanks
where the source does. `TypeExpr.unspaced` takes the blanks away, and the type reference of a
written type does not depend on them. In the same view of types, code is compared after
`Code.hollow`, that is without the types nested in it.

There is one lemma for each rule: set on respaced tokens, it reads alike, given that the rules
for what is nested in it do (`Rules.ReadAlike`). Only two of them rest on what stands before a
token: the name of an annotation is read with its gaps, and `non-sealed` without any.
-/

namespace ClassDiagram

/-- A declaration without its place in the source. -/
def ClassDecl.unlocated (d : ClassDecl) : ClassDecl :=
  { d with location := none }

namespace Java

open Text ClassDiagram.Java.Parser Grammar

/-! ## Views without blanks -/

mutual

/-- A written type without the blanks in its texts. -/
def TypeExpr.unspaced : TypeExpr → TypeExpr
  | .void => .void
  | .simple name => .simple name
  | .scoped text => .scoped (withoutBlanks text)
  | .generic base args => .generic (withoutBlanks base) (unspacedArgs args)
  | .array element n => .array element.unspaced n
  | .unbounded => .unbounded
  | .bounded bound => .bounded bound.unspaced

def unspacedArgs : List TypeExpr → List TypeExpr
  | [] => []
  | a :: rest => a.unspaced :: unspacedArgs rest

end

/-- Type arguments lose their blanks one by one. -/
theorem unspacedArgs_eq_map (args : List TypeExpr) :
    unspacedArgs args = args.map TypeExpr.unspaced := by
  induction args with
  | nil => rfl
  | cons a rest ih => rw [unspacedArgs, ih, List.map_cons]

mutual

/-- A type reference has no blanks in its names anyway. -/
theorem TypeExpr.toTypeRef?_unspaced : ∀ t : TypeExpr, t.unspaced.toTypeRef? = t.toTypeRef?
  | .void | .simple _ | .unbounded => rfl
  | .scoped text => by
    rw [TypeExpr.unspaced, TypeExpr.toTypeRef?, TypeExpr.toTypeRef?, withoutBlanks_withoutBlanks]
  | .generic base args => by
    rw [TypeExpr.unspaced, TypeExpr.toTypeRef?, TypeExpr.toTypeRef?, withoutBlanks_withoutBlanks,
      argTypeRefs_unspaced args]
  | .array element n => by
    rw [TypeExpr.unspaced, TypeExpr.toTypeRef?, TypeExpr.toTypeRef?, element.toTypeRef?_unspaced]
  | .bounded bound => by
    rw [TypeExpr.unspaced, TypeExpr.toTypeRef?, TypeExpr.toTypeRef?, bound.toTypeRef?_unspaced]

/-- Nor have those of type arguments. -/
theorem argTypeRefs_unspaced : ∀ args : List TypeExpr,
    TypeExpr.argTypeRefs (unspacedArgs args) = TypeExpr.argTypeRefs args
  | [] => rfl
  | a :: rest => by
    rw [unspacedArgs, TypeExpr.argTypeRefs, TypeExpr.argTypeRefs, a.toTypeRef?_unspaced,
      argTypeRefs_unspaced rest]

end

/-- Types without blanks. In the facts about a body they are what they were. -/
def TypeView.unspaced : TypeView := ⟨TypeExpr.unspaced, id, id⟩

/-- Without blanks a type is still `var` or not, and refers to the same type. -/
theorem TypeView.lawful_unspaced : TypeView.unspaced.Lawful where
  var_iff t := by cases t <;> simp [unspaced, TypeExpr.unspaced]
  type t := congrArg (Option.map id) t.toTypeRef?_unspaced
  withBrackets t n := congrArg (Option.map fun r : TypeRef => r.arrayOf n) t.toTypeRef?_unspaced

/-- Two types that differ in blanks. -/
abbrev TypeExpr.Alike (t t' : TypeExpr) : Prop :=
  t.unspaced = t'.unspaced

/-- Code that differs in the blanks of types, and in the types nested in it. -/
abbrev Code.Alike (c c' : Code) : Prop :=
  c.hollow .unspaced = c'.hollow .unspaced

/-- The same for several statements or expressions. -/
abbrev AllAlike (cs cs' : List Code) : Prop :=
  hollowAll .unspaced cs = hollowAll .unspaced cs'

namespace AllAlike

variable {c c' : Code} {cs cs' ds ds' : List Code}

theorem nil : AllAlike [] [] :=
  rfl

/-- Lists of code are alike if their elements are. -/
theorem cons (hc : c.Alike c') (hcs : AllAlike cs cs') : AllAlike (c :: cs) (c' :: cs') := by
  rw [AllAlike, hollowAll, hollowAll, hc, hcs]

theorem single (hc : c.Alike c') : AllAlike [c] [c'] :=
  cons hc nil

/-- Code is hollowed piece by piece. -/
theorem hollowAll_append (v : TypeView) (cs ds : List Code) :
    hollowAll v (cs ++ ds) = hollowAll v cs ++ hollowAll v ds := by
  induction cs with
  | nil => rfl
  | cons c cs ih => rw [List.cons_append, hollowAll, ih, hollowAll, List.cons_append]

/-- Code that is put together of alike parts is alike. -/
theorem append (hcs : AllAlike cs cs') (hds : AllAlike ds ds') :
    AllAlike (cs ++ ds) (cs' ++ ds') := by
  rw [AllAlike, hollowAll_append, hollowAll_append, hcs, hds]

/-- Pieces that are alike in pairs are alike as a whole. -/
theorem of_forall₂ (h : List.Forall₂ Code.Alike cs cs') : AllAlike cs cs' := by
  induction h with
  | nil => exact nil
  | cons hc _ ih => exact cons hc ih

/-- Code collected from things that are alike. -/
theorem flatMap {α : Type} {R : α → α → Prop} {f : α → List Code} {xs ys : List α}
    (h : List.Forall₂ R xs ys) (hf : ∀ x y, R x y → AllAlike (f x) (f y)) :
    AllAlike (xs.flatMap f) (ys.flatMap f) := by
  induction h with
  | nil => exact nil
  | cons hxy _ ih =>
    rw [List.flatMap_cons, List.flatMap_cons]
    exact (hf _ _ hxy).append ih

/-- The same for code that is already collected. -/
theorem flatten {xs ys : List (List Code)} (h : List.Forall₂ AllAlike xs ys) :
    AllAlike xs.flatten ys.flatten := by
  rw [← List.flatMap_id, ← List.flatMap_id]
  exact flatMap h fun _ _ hxy => hxy

/-- A piece that may be missing is missing on both sides or on none. -/
theorem toList {o o' : Option Code} (h : Option.Rel Code.Alike o o') :
    AllAlike o.toList o'.toList := by
  cases h with
  | none => exact nil
  | some hc => exact single hc

end AllAlike

structure TypeNode.Alike (n n' : TypeNode) : Prop where
  type : n.type.Alike n'.type
  notes : AllAlike n.notes n'.notes

structure Mark.Alike (m m' : Mark) : Prop where
  name : m.name = m'.name
  notes : AllAlike m.notes m'.notes

/-! ## The name of an annotation -/

section

variable {ts ts' : List Token} {w : Preceding}

/-- A word after the sign of an annotation begins its name. -/
theorem Preceding.after_of_kind {t : Token} (h : t.WellLexed) (hkind : t.kind = .word) :
    Preceding.sign.after t = .markName := by
  have hword := h.word hkind
  have hsign : t.text ≠ "@" := by
    intro heq
    rw [heq] at hword
    exact absurd hword (by decide)
  have hminus : t.text ≠ "-" := by
    intro heq
    rw [heq] at hword
    exact absurd hword (by decide)
  rw [after, if_neg hsign, if_neg hminus, if_pos ⟨rfl, hkind⟩]

/-- A dot and an identifier, as they go on in a dotted name. -/
def furtherName : Parser Token := do
  skip "."
  identifier

/-- Further words of a dotted name are read alike. -/
theorem agree_furtherName : Agree Token.Alike furtherName furtherName :=
  (agree_skip ".").seq agree_identifier

/-- A further word takes the dot and the word after it. -/
theorem furtherName_eq_some_iff {word : Token} {rest : List Token} :
    furtherName ts = some (word, rest) ↔ ∃ dot, ts = dot :: word :: rest ∧ dot.text = "."
      ∧ (word.kind == .word && !keywords.contains word.text) = true := by
  unfold furtherName
  rw [bind_eq_some_iff]
  constructor
  · intro hread
    obtain ⟨⟨⟩, next, hskip, hnext⟩ := hread
    obtain ⟨dot, hdot, rfl⟩ := skip_eq_some_iff.mp hskip
    obtain ⟨hword, rfl⟩ := takeIf_eq_some_iff.mp hnext
    exact ⟨dot, rfl, hdot, hword⟩
  · intro hread
    obtain ⟨dot, rfl, hdot, hword⟩ := hread
    exact ⟨(), _, skip_eq_some_iff.mpr ⟨dot, hdot, rfl⟩, takeIf_eq_some_iff.mpr ⟨hword, rfl⟩⟩

/-- After a word in the name of an annotation, a dot and an identifier have the gaps before
them in common, and the name may go on after them. -/
theorem RespacedFrom.of_furtherName {word word' : Token} {rest rest' : List Token}
    (h : RespacedFrom .markName ts ts') (hread : furtherName ts = some (word, rest))
    (hread' : furtherName ts' = some (word', rest')) :
    ∃ dot dot', ts = dot :: word :: rest ∧ ts' = dot' :: word' :: rest'
      ∧ dot.chars = dot'.chars ∧ word.chars = word'.chars
      ∧ RespacedFrom .markName rest rest' := by
  obtain ⟨dot, rfl, hdot, hword⟩ := furtherName_eq_some_iff.mp hread
  obtain ⟨dot', rfl, -, -⟩ := furtherName_eq_some_iff.mp hread'
  rw [Bool.and_eq_true, beq_iff_eq] at hword
  have hsign : Preceding.markName.after dot = .sign := by
    simp [Preceding.after, hdot]
  cases h with
  | cons _ hdots hdotTight hmore =>
    rw [hsign] at hmore
    cases hmore with
    | cons hlexed hwords hwordTight hrest =>
      refine ⟨dot, dot', rfl, rfl, ?_, ?_, Preceding.after_of_kind hlexed hword.1 ▸ hrest⟩
      · rw [Token.chars, Token.chars, hdots.text_eq, hdotTight (by simp [Preceding.isTight, hdot])]
      · rw [Token.chars, Token.chars, hwords.text_eq, hwordTight rfl]

/-- A round of a repetition that reads further names takes two tokens. -/
theorem repeatWhile_furtherName {dot word : Token} {rest : List Token} (fuel : Nat)
    (hread : furtherName (dot :: word :: rest) = some (word, rest)) :
    (repeatWhile furtherName (fuel + 1) (dot :: word :: rest)).2
      = (repeatWhile furtherName fuel rest).2 := by
  have hshort : rest.length < (dot :: word :: rest).length := by
    rw [List.length_cons, List.length_cons]
    omega
  rw [repeatWhile, hread]
  dsimp only
  rw [if_pos hshort]

/-- The further words in the name of an annotation are the same text. -/
theorem RespacedFrom.repeat_furtherName (fuel : Nat) (h : RespacedFrom .markName ts ts') :
    ∃ taken taken', ts = taken ++ (repeatWhile furtherName fuel ts).2
      ∧ ts' = taken' ++ (repeatWhile furtherName fuel ts').2
      ∧ taken.flatMap Token.chars = taken'.flatMap Token.chars := by
  induction fuel generalizing ts ts' with
  | zero => exact ⟨[], [], rfl, rfl, rfl⟩
  | succ fuel ih =>
    have hagree := agree_furtherName.on h.respaced
    generalize hread : furtherName ts = o, hread' : furtherName ts' = o' at hagree
    cases hagree with
    | none =>
      rw [repeatWhile, repeatWhile, hread, hread']
      exact ⟨[], [], rfl, rfl, rfl⟩
    | @some word word' rest rest' _ _ =>
      obtain ⟨dot, dot', rfl, rfl, hdots, hwords, hrest⟩ := h.of_furtherName hread hread'
      obtain ⟨taken, taken', heq, heq', hchars⟩ := ih hrest
      rw [repeatWhile_furtherName fuel hread, repeatWhile_furtherName fuel hread']
      refine ⟨dot :: word :: taken, dot' :: word' :: taken', ?_, ?_, ?_⟩
      · exact congrArg (dot :: word :: ·) heq
      · exact congrArg (dot' :: word' :: ·) heq'
      · simp only [List.flatMap_cons, hdots, hwords, hchars]

/-- A dotted name takes a word, and then further names as far as they go. -/
theorem dottedName_of_identifier {t : Token}
    (ht : (t.kind == .word && !keywords.contains t.text) = true) {taken : List Token}
    (htaken : ts = taken ++ (repeatWhile furtherName ts.length ts).2) :
    dottedName (t :: ts)
      = some (spanText (t :: taken), (repeatWhile furtherName ts.length ts).2) := by
  have hread : (do let _ ← identifier; many furtherName : Parser (List Token)) (t :: ts)
      = some (repeatWhile furtherName ts.length ts) :=
    bind_eq_some_iff.mpr ⟨t, ts, takeIf_eq_some_iff.mpr ⟨ht, rfl⟩, rfl⟩
  have hspan : (t :: ts).take ((t :: ts).length - (repeatWhile furtherName ts.length ts).2.length)
      = t :: taken := by
    generalize (repeatWhile furtherName ts.length ts).2 = rest at htaken
    rw [htaken, ← List.cons_append, List.length_append, Nat.add_sub_cancel, List.take_left]
  show (spanned (do let _ ← identifier; many furtherName) >>= fun x => pure (spanText x.2))
      (t :: ts)
    = _
  refine bind_eq_some_iff.mpr ⟨((repeatWhile furtherName ts.length ts).1, t :: taken), _, ?_, rfl⟩
  rw [spanned, hread]
  exact congrArg (fun us => some ((_, us), _)) hspan

/-- A dotted name begins with an identifier. -/
theorem dottedName_eq_none (h : identifier ts = none) : dottedName ts = none := by
  have hread : (do let _ ← identifier; many furtherName : Parser (List Token)) ts = none := by
    show (identifier ts).bind _ = none
    rw [h, Option.bind_none]
  show ((spanned (do let _ ← identifier; many furtherName)) ts).bind _ = none
  rw [spanned, hread, Option.bind_none]

/-- The name of an annotation is the same text. -/
theorem RespacedFrom.dottedName_eq (h : RespacedFrom .sign ts ts') :
    Outcome Eq (dottedName ts) (dottedName ts') := by
  have hagree := agree_identifier.on h.respaced
  generalize hread : identifier ts = o, hread' : identifier ts' = o' at hagree
  cases hagree with
  | none =>
    rw [dottedName_eq_none hread, dottedName_eq_none hread']
    exact .none
  | @some t t' rest rest' halike hrest =>
    obtain ⟨ht, rfl⟩ := takeIf_eq_some_iff.mp hread
    obtain ⟨ht', rfl⟩ := takeIf_eq_some_iff.mp hread'
    have hkind : t.kind = .word := beq_iff_eq.mp (Bool.and_eq_true_iff.mp ht).1
    cases h with
    | cons hlexed _ _ hmore =>
      rw [Preceding.after_of_kind hlexed hkind] at hmore
      obtain ⟨taken, taken', heq, heq', hchars⟩ := hmore.repeat_furtherName rest.length
      have hends : Respaced (repeatWhile furtherName rest.length rest).2
          (repeatWhile furtherName rest'.length rest').2 := by
        rw [← hrest.length_eq]
        exact (agree_furtherName.repeatWhile rest.length hrest).2
      rw [hrest.length_eq] at heq'
      rw [dottedName_of_identifier ht heq, dottedName_of_identifier ht' heq']
      refine .some (String.toList_inj.mp ?_) hends
      rw [toList_spanText_cons, toList_spanText_cons, halike.text_eq, hchars]

/-- A reading after a token with a certain text, where this text tells what stands before the
rest. -/
theorem agree_after {α : Type} {R : α → α → Prop} {p : Parser Unit} {q : Parser α}
    {text : String} (hp : Agree Eq p p)
    (hone : ∀ {ts rest}, p ts = some ((), rest) → ∃ t, t.text = text ∧ ts = t :: rest)
    (hafter : ∀ (v : Preceding) (t : Token), t.text = text → v.after t = w)
    (hq : ∀ {ts ts'}, RespacedFrom w ts ts' → Outcome R (q ts) (q ts')) :
    Agree R (do p; q) (do p; q) := by
  refine ⟨?_⟩
  intro ts ts' hts
  have hfirst := hp.on hts
  show Outcome R ((p ts).bind fun x => q x.2) ((p ts').bind fun x => q x.2)
  generalize hread : p ts = o, hread' : p ts' = o' at hfirst
  cases hfirst with
  | none => exact .none
  | some _ _ =>
    obtain ⟨t, ht, rfl⟩ := hone hread
    obtain ⟨t', -, rfl⟩ := hone hread'
    obtain ⟨v, h⟩ := hts
    cases h with
    | cons _ _ _ hrest => exact hq (hafter v t ht ▸ hrest)

/-- The name of an annotation, with the sign before it. -/
theorem agree_markName : Agree Eq (do skip "@"; dottedName) (do skip "@"; dottedName) :=
  agree_after (agree_skip "@") skip_eq_some_iff.mp (fun _ _ ht => if_pos ht)
    RespacedFrom.dottedName_eq

/-- A symbol that touches the one before it has the text that is asked for. -/
theorem adjacent_eq_some {text : String} {rest : List Token}
    (h : adjacent text ts = some ((), rest)) : ∃ t, t.text = text ∧ ts = t :: rest := by
  obtain ⟨t, next, htake, hpure⟩ := bind_eq_some_iff.mp h
  obtain ⟨ht, rfl⟩ := takeIf_eq_some_iff.mp htake
  obtain ⟨-, rfl⟩ := pure_eq_some_iff.mp hpure
  exact ⟨t, beq_iff_eq.mp (Bool.and_eq_true_iff.mp ht).1, rfl⟩

/-- The end of `non-sealed`, the minus sign included. -/
theorem agree_minusSealed :
    Agree Eq (do adjacent "-"; adjacent "sealed") (do adjacent "-"; adjacent "sealed") := by
  refine agree_after (w := .minus) (agree_adjacent (by decide)) adjacent_eq_some ?_ ?_
  · intro v t ht
    rw [Preceding.after, if_neg (by rw [ht]; decide), if_pos ht]
  · intro ts ts' h
    cases h with
    | nil => exact .none
    | cons hlexed halike htight hrest =>
      have hts : Respaced _ _ := ⟨_, .cons hlexed halike htight hrest⟩
      refine (takeIf_respaced hts ?_).bind fun _ _ _ => .pure rfl
      rw [halike.text_eq, htight rfl]

end

/-! ## Rules for what is nested -/

/-- Two members that say the same, but for the places of the types in them. -/
structure Member.Alike (m m' : Member) : Prop where
  fieldDecls : ∀ inInterface, m.fieldDecls inInterface = m'.fieldDecls inInterface
  constructor? : ∀ inInterface fields,
    m.constructor? inInterface fields = m'.constructor? inInterface fields
  method? : ∀ inInterface fields, m.method? inInterface fields = m'.method? inInterface fields
  declarations : ∀ file outer, (m.declarations file outer).map ClassDecl.unlocated
    = (m'.declarations file outer).map ClassDecl.unlocated

/-- Two type declarations that say the same, but for their places. -/
def TypeDecl.Alike (d d' : TypeDecl) : Prop :=
  ∀ file outer, (d.declarations file outer).map ClassDecl.unlocated
    = (d'.declarations file outer).map ClassDecl.unlocated

/-- The rules for what is nested read alike. -/
structure Rules.ReadAlike (r : Rules) : Prop where
  type : Agree TypeNode.Alike r.type r.type
  mark : Agree Mark.Alike r.mark r.mark
  value : Agree Code.Alike r.value r.value
  expression : Agree Code.Alike r.expression r.expression
  operand : Agree Code.Alike r.operand r.operand
  caseExpression : Agree Code.Alike r.caseExpression r.caseExpression
  recordPattern : Agree AllAlike r.recordPattern r.recordPattern
  statement : Agree Code.Alike r.statement r.statement
  declaration : Agree TypeDecl.Alike r.declaration r.declaration
  classBody : Agree (List.Forall₂ Member.Alike) r.classBody r.classBody

variable {r : Rules}

/-! ## Annotations and modifiers -/

/-- The names of values in an annotation may be different in their blanks, as they are
dropped. -/
theorem agree_markPair (hr : r.ReadAlike) : Agree Code.Alike (markPair r) (markPair r) := by
  refine agree_identifier.seq ?_
  refine (agree_skip _).seq ?_
  exact hr.value

/-- The values in an annotation are named, single or missing in both readings. -/
theorem agree_markArguments (hr : r.ReadAlike) :
    Agree AllAlike (markArguments r) (markArguments r) := by
  have hpairs : Agree AllAlike (separated1 "," (markPair r)) (separated1 "," (markPair r)) :=
    ((agree_markPair hr).separated1 ",").mono fun _ _ => AllAlike.of_forall₂
  have hsingle : Agree AllAlike (do return [← r.value]) (do return [← r.value]) :=
    hr.value.bind fun _ _ hvalue => .pure (.single hvalue)
  refine (agree_skip _).seq ?_
  refine (hpairs.orElse (hsingle.orDefault rfl)).bind fun _ _ hvalues => ?_
  refine (agree_skip _).seq ?_
  exact .pure hvalues

/-- The name of an annotation is the same text, because its gaps are tight. -/
theorem agree_markRule (hr : r.ReadAlike) : Agree Mark.Alike (markRule r) (markRule r) := by
  have hname : markRule r = (do skip "@"; dottedName) >>= fun name => do
      let notes ← orDefault [] (markArguments r)
      return ⟨name, notes⟩ := (bind_assoc ..).symm
  rw [hname]
  refine agree_markName.same fun name => ?_
  refine ((agree_markArguments hr).orDefault rfl).bind fun _ _ hnotes => ?_
  exact .pure ⟨rfl, hnotes⟩

theorem agree_marks (hr : r.ReadAlike) : Agree AllAlike (marks r) (marks r) :=
  hr.mark.many.bind fun _ _ hms => .pure (AllAlike.flatMap hms fun _ _ hm => hm.notes)

/-- A modifier is told by the text of its word. -/
theorem agree_keywordModifier : Agree Eq keywordModifier keywordModifier := by
  refine ⟨?_⟩
  intro ts ts' hts
  cases ts with
  | nil =>
    rw [hts.nil_left]
    exact .none
  | cons t ts =>
    obtain ⟨t', ts', rfl⟩ := hts.exists_cons_left
    unfold keywordModifier
    dsimp only
    rw [← hts.text_eq]
    cases keywordModifiers.lookup t.text with
    | none => exact .none
    | some m => exact .some rfl hts.tail

/-- A modifier that is no keyword is told by the next word too. -/
theorem agree_sealedModifier : Agree Eq sealedModifier sealedModifier := by
  refine (((agree_skip _).seq agree_minusSealed).orElse (agree_skip _)).seq ?_
  refine agree_peek.bind fun next next' hnext => ?_
  refine .ite ?_ (.pure rfl) .failure
  rw [any_unspaced (fun _ => rfl) hnext]

/-- Modifiers that are the same, with values in them that are alike. -/
def ModifiersAlike (x y : List Modifier × List Code) : Prop :=
  x.1 = y.1 ∧ AllAlike x.2 y.2

/-- Annotations count as modifiers by their names. -/
theorem agree_modifier (hr : r.ReadAlike) :
    Agree (fun x y => x.1 = y.1 ∧ AllAlike x.2 y.2) (modifier r) (modifier r) := by
  refine .orElse (agree_keywordModifier.same fun _ => .pure ⟨rfl, rfl⟩) ?_
  refine .orElse (hr.mark.bind fun _ _ hm => .pure ⟨congrArg Modifier.mark hm.name, hm.notes⟩) ?_
  refine agree_sealedModifier.same fun _ => ?_
  exact .pure ⟨rfl, rfl⟩

/-- Modifiers are read in the same number and order. -/
theorem agree_modifiers (hr : r.ReadAlike) :
    Agree ModifiersAlike (modifiers r) (modifiers r) := by
  refine (agree_modifier hr).many.bind fun ms ms' hms => .pure ⟨?_, ?_⟩
  · exact map_eq_of_forall₂ hms fun _ _ hm => hm.1
  · exact AllAlike.flatMap hms fun _ _ hm => hm.2

/-! ## Types -/

/-- Brackets that are as many, with values in them that are alike. -/
def BracketsAlike (x y : Nat × List Code) : Prop :=
  x.1 = y.1 ∧ AllAlike x.2 y.2

/-- Brackets are counted in the text that is taken, which differs in blanks only. -/
theorem agree_dimensions (hr : r.ReadAlike) :
    Agree BracketsAlike (dimensions r) (dimensions r) := by
  have hpair : Agree AllAlike (do let notes ← marks r; skip "["; skip "]"; return notes)
      (do let notes ← marks r; skip "["; skip "]"; return notes) := by
    refine (agree_marks hr).bind fun _ _ hnotes => ?_
    refine (agree_skip _).seq ?_
    refine (agree_skip _).seq ?_
    exact .pure hnotes
  refine hpair.many1.spanned.bind fun ⟨notes, taken⟩ ⟨notes', taken'⟩ h => .pure ⟨?_, ?_⟩
  · show (spanText taken).toList.count '[' = (spanText taken').toList.count '['
    rw [← count_withoutBlanks (by decide), withoutBlanks_spanText h.2,
      count_withoutBlanks (by decide)]
  · exact AllAlike.flatten h.1

/-- A wildcard has a bound in both readings or in none. -/
theorem agree_typeArgument (hr : r.ReadAlike) :
    Agree TypeNode.Alike (typeArgument r) (typeArgument r) := by
  refine .orElse ?_ hr.type
  refine (agree_marks hr).bind fun before before' hbefore => ?_
  refine (agree_skip _).seq ?_
  have hbound := (((agree_skip "extends").orElse (agree_skip "super")).seq hr.type).optionally
  refine hbound.bind fun bound bound' hbound => ?_
  cases hbound with
  | none => exact .pure ⟨rfl, hbefore⟩
  | some hb => exact .pure ⟨congrArg TypeExpr.bounded hb.type, hbefore.append hb.notes⟩

/-- Type arguments are the same up to the blanks in their names. -/
theorem agree_typeArguments (hr : r.ReadAlike) :
    Agree (fun x y => unspacedArgs x.1 = unspacedArgs y.1 ∧ AllAlike x.2 y.2)
      (typeArguments r) (typeArguments r) := by
  refine (agree_skip _).seq ?_
  refine ((agree_typeArgument hr).separated ",").bind fun args args' hargs => ?_
  refine (agree_skip _).seq ?_
  refine .pure ⟨?_, AllAlike.flatMap hargs fun _ _ h => h.notes⟩
  rw [unspacedArgs_eq_map, unspacedArgs_eq_map, List.map_map, List.map_map]
  exact map_eq_of_forall₂ hargs fun _ _ h => h.type

section

variable {start start' : List Token} {node node' : TypeNode}

/-- The text of a class type so far, without blanks. -/
theorem withoutBlanks_spanText_take {here here' : List Token}
    (hstart : start.map Token.unspaced = start'.map Token.unspaced) (hhere : Respaced here here') :
    withoutBlanks (spanText (start.take (start.length - here.length)))
      = withoutBlanks (spanText (start'.take (start'.length - here'.length))) := by
  refine withoutBlanks_spanText ?_
  have hlength : start.length = start'.length := by
    simpa using congrArg List.length hstart
  rw [List.map_take, List.map_take, hstart, hlength, hhere.length_eq]

/-- A further name makes a scoped type, whose text is everything taken so far. -/
theorem agree_scopedTail (hr : r.ReadAlike)
    (hstart : start.map Token.unspaced = start'.map Token.unspaced) (hnode : node.Alike node') :
    Agree TypeNode.Alike (classTypeTail.scopedTail r start node)
      (classTypeTail.scopedTail r start' node') := by
  refine (agree_skip _).seq ?_
  refine (agree_marks hr).bind fun notes notes' hnotes => ?_
  refine agree_typeIdentifier.seq ?_
  refine agree_get.bind fun here here' hhere => ?_
  refine .pure ⟨?_, hnode.notes.append hnotes⟩
  exact congrArg TypeExpr.scoped (withoutBlanks_spanText_take hstart hhere)

/-- Whether type arguments may follow is seen by the form of the type so far. -/
theorem agree_classTypeTail (hr : r.ReadAlike)
    (hstart : start.map Token.unspaced = start'.map Token.unspaced) (hnode : node.Alike node') :
    Agree TypeNode.Alike (classTypeTail r start node) (classTypeTail r start' node') := by
  have hscoped := agree_scopedTail hr hstart hnode
  refine agree_get.bind fun here here' hhere => ?_
  have hgeneric : Agree TypeNode.Alike
      (do
        let x ← typeArguments r
        return ⟨.generic (spanText (start.take (start.length - here.length))) x.1,
          node.notes ++ x.2⟩)
      (do
        let x ← typeArguments r
        return ⟨.generic (spanText (start'.take (start'.length - here'.length))) x.1,
          node'.notes ++ x.2⟩) := by
    refine (agree_typeArguments hr).bind fun x x' h => .pure ⟨?_, hnode.notes.append h.2⟩
    show TypeExpr.generic _ _ = TypeExpr.generic _ _
    rw [withoutBlanks_spanText_take hstart hhere, h.1]
  have hboth := hgeneric.orElse hscoped
  have htype := hnode.type
  cases hn : node.type <;> cases hn' : node'.type <;>
    simp only [TypeExpr.Alike, hn, hn', TypeExpr.unspaced, reduceCtorEq] at htype
  case generic.generic => exact hscoped
  all_goals exact hboth

/-- A class type goes on as long in both readings. -/
theorem agree_classTypeRest (hr : r.ReadAlike)
    (hstart : start.map Token.unspaced = start'.map Token.unspaced) (fuel : Nat)
    (hnode : node.Alike node') :
    Agree TypeNode.Alike (classTypeRest r start fuel node) (classTypeRest r start' fuel node') := by
  induction fuel generalizing node node' with
  | zero => exact .pure hnode
  | succ fuel ih =>
    refine (agree_classTypeTail hr hstart hnode).optionally.bind fun longer longer' hlonger => ?_
    cases hlonger with
    | none => exact .pure hnode
    | some h => exact ih h

end

/-- A class type keeps where it starts, and its text is cut out there. -/
theorem agree_classType (hr : r.ReadAlike) :
    Agree TypeNode.Alike (classType r) (classType r) := by
  refine agree_get.bind fun start start' hstart => ?_
  refine agree_typeIdentifier.bind fun t t' ht => ?_
  rw [← hstart.length_eq]
  exact agree_classTypeRest hr hstart.map_unspaced_eq _ ⟨by rw [ht.text_eq], rfl⟩

/-- A primitive type is known by its word. -/
theorem agree_simpleType (hr : r.ReadAlike) :
    Agree TypeNode.Alike (simpleType r) (simpleType r) :=
  .orElse ((agree_takeIf fun _ => rfl).bind fun t t' ht => .pure ⟨by rw [ht.text_eq], rfl⟩) <|
    .orElse ((agree_skip _).seq (.pure ⟨rfl, rfl⟩)) (agree_classType hr)

/-- Brackets behind a type are as many in both readings. -/
theorem agree_plainType (hr : r.ReadAlike) :
    Agree TypeNode.Alike (plainType r) (plainType r) := by
  refine (agree_simpleType hr).bind fun node node' hnode => ?_
  refine (agree_dimensions hr).optionally.bind fun brackets brackets' hbrackets => ?_
  cases hbrackets with
  | none => exact .pure hnode
  | @some x y h =>
    refine .pure ⟨?_, hnode.notes.append h.2⟩
    show TypeExpr.array _ _ = TypeExpr.array _ _
    rw [hnode.type, h.1]

/-- Annotations before a type add alike values to it. -/
theorem agree_typeRule (hr : r.ReadAlike) : Agree TypeNode.Alike (typeRule r) (typeRule r) := by
  refine (agree_marks hr).bind fun _ _ hbefore => ?_
  refine (agree_plainType hr).bind fun _ _ hnode => ?_
  exact .pure ⟨hnode.type, hbefore.append hnode.notes⟩

theorem agree_typeList (hr : r.ReadAlike) :
    Agree (List.Forall₂ TypeNode.Alike) (typeList r) (typeList r) :=
  hr.type.separated1 ","

/-- Type parameters are passed over alike. -/
theorem agree_typeParameter (hr : r.ReadAlike) :
    Agree Eq (typeParameter r) (typeParameter r) := by
  refine (agree_marks hr).seq ?_
  refine agree_identifier.seq ?_
  refine ((agree_skip _).seq (hr.type.separated1 "&")).optionally.seq ?_
  exact .pure rfl

theorem agree_typeParameters (hr : r.ReadAlike) :
    Agree Eq (typeParameters r) (typeParameters r) := by
  refine (agree_skip _).seq ?_
  refine ((agree_typeParameter hr).separated1 ",").seq ?_
  exact agree_skip _

end Java

end ClassDiagram
