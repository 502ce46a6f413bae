import ClassDiagram.Java.Grammar.Statements
import ClassDiagram.Proofs.RespacedTypes

/-!
# Code in respaced source

What the rules for expressions and statements read of respaced tokens is alike, given that the
rules for what is nested in them read alike. There is one lemma for each rule, and it follows
the rule from part to part.

Where a rule is chosen by a look ahead, the look is at texts and kinds of tokens only. Two
choices hang on a type that has been read: whether a parenthesis is a cast, and whether a type
may stand for an expression. Both see its form and the characters that are not blank.
-/

namespace ClassDiagram.Java

open Text ClassDiagram.Java.Parser Grammar

/-! ## Code that is alike, by its form -/

/-- Declared variables that differ in the blanks of types, and in nested types. -/
abbrev Declarator.Alike (d d' : Declarator) : Prop :=
  d.hollow .unspaced = d'.hollow .unspaced

namespace Code.Alike

variable {c c' e e' : Code} {args args' notes notes' parts parts' : List Code}
  {type type' : TypeExpr} {x x' : String}

/-- Names have no blanks in them. -/
theorem name (hx : x = x') : (Code.name x).Alike (.name x') :=
  congrArg Code.name hx

theorem group (h : AllAlike parts parts') : (Code.group parts).Alike (.group parts') :=
  congrArg Code.group h

/-- The object is compared, and the name of the member. -/
theorem access (h : c.Alike c') (hx : x = x') : (Code.access c x).Alike (.access c' x') := by
  rw [Code.Alike, hollow, hollow, h, hx]

theorem invoke (hx : x = x') (hargs : AllAlike args args') :
    (Code.invoke x args).Alike (.invoke x' args') := by
  rw [Code.Alike, hollow, hollow, hx, hargs]

theorem call (h : c.Alike c') (hnotes : AllAlike notes notes') (hx : x = x')
    (hargs : AllAlike args args') :
    (Code.call c notes x args).Alike (.call c' notes' x' args') := by
  rw [Code.Alike, hollow, hollow, h, hnotes, hx, hargs]

/-- The members of an anonymous class do not count. -/
theorem create (hparts : AllAlike parts parts') (htype : type.Alike type')
    (hargs : AllAlike args args') (body body' : List Member) :
    (Code.create parts type args body).Alike (.create parts' type' args' body') := by
  show Code.create _ type.unspaced _ _ = Code.create _ type'.unspaced _ _
  rw [hparts, htype, hargs]

/-- Both sides of an assignment are compared. -/
theorem assign (h : c.Alike c') (he : e.Alike e') : (Code.assign c e).Alike (.assign c' e') := by
  rw [Code.Alike, hollow, hollow, h, he]

/-- The type that local variables share may differ in blanks. -/
theorem locals (hnotes : AllAlike notes notes') (htype : type.Alike type')
    {ds ds' : List Declarator} (hds : List.Forall₂ Declarator.Alike ds ds') :
    (Code.locals notes type ds).Alike (.locals notes' type' ds') := by
  have hall : hollowDeclarators .unspaced ds = hollowDeclarators .unspaced ds' := by
    induction hds with
    | nil => rfl
    | cons hd _ ih => rw [hollowDeclarators, hollowDeclarators, hd, ih]
  show Code.locals _ type.unspaced _ = Code.locals _ type'.unspaced _
  rw [hnotes, htype, hall]

/-- So may the type of the variable of a loop. -/
theorem forEach (hnotes : AllAlike notes notes') (htype : type.Alike type') (hx : x = x')
    (hparts : AllAlike parts parts') :
    (Code.forEach notes type x parts).Alike (.forEach notes' type' x' parts') := by
  show Code.forEach _ type.unspaced _ _ = Code.forEach _ type'.unspaced _ _
  rw [hnotes, htype, hx, hparts]

/-- Which constructor is called is part of the code. -/
theorem delegate (toThis : Bool) (hparts : AllAlike parts parts') (hargs : AllAlike args args') :
    (Code.delegate toThis parts args).Alike (.delegate toThis parts' args') := by
  rw [Code.Alike, hollow, hollow, hparts, hargs]

/-- A local type does not count. -/
theorem declare (decl decl' : TypeDecl) : (Code.declare decl).Alike (.declare decl') :=
  rfl

end Code.Alike

variable {r : Rules}

/-! ## Expressions -/

theorem agree_typeArgumentNotes (hr : r.ReadAlike) :
    Agree AllAlike (orDefault [] (do return (← typeArguments r).2))
      (orDefault [] (do return (← typeArguments r).2)) :=
  ((agree_typeArguments hr).bind fun _ _ h => Agree.pure h.2).orDefault .nil

/-- Brackets behind a name may be missing. -/
theorem agree_brackets (hr : r.ReadAlike) :
    Agree BracketsAlike (orDefault (0, []) (dimensions r)) (orDefault (0, []) (dimensions r)) :=
  (agree_dimensions hr).orDefault ⟨rfl, .nil⟩

theorem agree_arguments (hr : r.ReadAlike) : Agree AllAlike (arguments r) (arguments r) := by
  refine (agree_skip _).seq ?_
  refine (hr.expression.separated ",").bind fun _ _ hargs => ?_
  refine (agree_skip _).seq ?_
  exact .pure (.of_forall₂ hargs)

/-- The values of an array in braces. -/
theorem agree_braced (hr : r.ReadAlike) : Agree Code.Alike (braced r) (braced r) := by
  refine (agree_skip _).seq ?_
  refine (hr.value.separated ",").bind fun _ _ hvalues => ?_
  refine (agree_skip _).accepts.seq ?_
  refine (agree_skip _).seq ?_
  exact .pure (.group (.of_forall₂ hvalues))

/-- A value in an annotation can be an annotation, of which the values are kept. -/
theorem agree_valueRule (hr : r.ReadAlike) : Agree Code.Alike (valueRule r) (valueRule r) := by
  refine .orElse (agree_braced hr) ?_
  refine .orElse hr.expression ?_
  refine hr.mark.bind fun _ _ hm => ?_
  exact .pure (.group hm.notes)

/-- There have to be lengths or brackets, and their number is the same in both readings. -/
theorem agree_arrayLengths (hr : r.ReadAlike) :
    Agree AllAlike (arrayLengths r) (arrayLengths r) := by
  have hlength : Agree AllAlike
      (do let notes ← marks r; skip "["; let length ← r.expression; skip "]"
          return notes ++ [length])
      (do let notes ← marks r; skip "["; let length ← r.expression; skip "]"
          return notes ++ [length]) := by
    refine (agree_marks hr).bind fun _ _ hnotes => ?_
    refine (agree_skip _).seq ?_
    refine hr.expression.bind fun _ _ hlength => ?_
    refine (agree_skip _).seq ?_
    exact .pure (hnotes.append (.single hlength))
  refine hlength.many.bind fun lengths lengths' hlengths => ?_
  refine (agree_brackets hr).bind fun empty empty' hempty => ?_
  have hall : AllAlike (lengths.flatten ++ empty.2) (lengths'.flatten ++ empty'.2) :=
    (AllAlike.flatten hlengths).append hempty.2
  have hnone : (lengths.isEmpty && empty.1 == 0) = (lengths'.isEmpty && empty'.1 == 0) := by
    rw [hempty.1]
    cases hlengths <;> rfl
  exact .ite (by rw [hnone]) (Agree.failure (R := Eq).seq (.pure hall)) (.pure hall)

/-- What stands in front of the type is kept, whether an object or an array is made. -/
theorem agree_creation (hr : r.ReadAlike) {before before' : List Code}
    (hbefore : AllAlike before before') :
    Agree Code.Alike (creation r before) (creation r before') := by
  refine (agree_skip _).seq ?_
  refine (agree_marks hr).bind fun first first' hfirst => ?_
  refine (agree_typeArgumentNotes hr).bind fun args args' hargs => ?_
  refine (agree_marks hr).bind fun second second' hsecond => ?_
  refine (agree_simpleType hr).bind fun node node' hnode => ?_
  have hparts := (((hbefore.append hfirst).append hargs).append hsecond).append hnode.notes
  refine (agree_at? _).same fun _ => .ite Iff.rfl ?_ ?_
  · refine (agree_arguments hr).bind fun values values' hvalues => ?_
    refine (hr.classBody.orDefault .nil).bind fun body body' _ => ?_
    exact .pure (.create hparts hnode.type hvalues body body')
  · refine (agree_arrayLengths hr).bind fun lengths lengths' hlengths => ?_
    refine (agree_braced hr).optionally.bind fun values values' hvalues => ?_
    exact .pure (.group ((hparts.append hlengths).append (.toList hvalues)))

/-- What is left of the things that could be read is alike. -/
theorem forall₂_filterMap_id {α : Type} {R : α → α → Prop} {xs ys : List (Option α)}
    (h : List.Forall₂ (Option.Rel R) xs ys) :
    List.Forall₂ R (xs.filterMap id) (ys.filterMap id) := by
  induction h with
  | nil => exact .nil
  | cons hxy _ ih =>
    cases hxy with
    | none => exact ih
    | some hab => exact .cons hab ih

/-- Statements that could not be read are left out in both readings. -/
theorem agree_statements (hr : r.ReadAlike) :
    Agree (fun xs ys => AllAlike (xs.filterMap id) (ys.filterMap id))
      (many (recovering r.statement)) (many (recovering r.statement)) :=
  hr.statement.recovering.many.mono fun _ _ h => .of_forall₂ (forall₂_filterMap_id h)

theorem agree_block (hr : r.ReadAlike) : Agree AllAlike (block r) (block r) := by
  refine (agree_skip _).seq ?_
  refine (agree_statements hr).bind fun _ _ hstatements => ?_
  refine (agree_skip _).seq ?_
  exact .pure hstatements

/-! ## Parameters and lambdas -/

/-- Types that differ in blanks stand for the same type. -/
theorem TypeExpr.Alike.toTypeRef?_eq {t t' : TypeExpr} (h : t.Alike t') :
    t.toTypeRef? = t'.toTypeRef? := by
  rw [← t.toTypeRef?_unspaced, h, t'.toTypeRef?_unspaced]

/-- A parameter that binds the same, with values in it that are alike. -/
def ParameterAlike (x y : Option Param × List Code) : Prop :=
  x.1.bind Param.toBinding? = y.1.bind Param.toBinding? ∧ AllAlike x.2 y.2

/-- A parameter binds its name to what its type stands for. -/
theorem Param.toBinding?_eq {type type' : TypeExpr} {name name' : String} {n n' : Nat}
    (htype : type.Alike type') (hname : name = name') (hn : n = n') (variadic : Bool) :
    Param.toBinding? ⟨name, type, n, variadic⟩ = Param.toBinding? ⟨name', type', n', variadic⟩ := by
  rw [toBinding?, toBinding?, htype.toTypeRef?_eq, hname, hn]

/-- A parameter binds something or is the receiver, which binds nothing. -/
theorem agree_parameter (hr : r.ReadAlike) : Agree ParameterAlike (parameter r) (parameter r) := by
  refine (agree_modifiers hr).bind fun ⟨_, before⟩ ⟨_, before'⟩ hbefore => ?_
  refine (agree_plainType hr).bind fun node node' hnode => ?_
  have hnotes : AllAlike (before ++ node.notes) (before' ++ node'.notes) :=
    hbefore.2.append hnode.notes
  refine (agree_skip _).accepts.same fun _ => .ite Iff.rfl (.pure ⟨rfl, hnotes⟩) ?_
  refine (agree_skip _).accepts.same fun _ => .ite Iff.rfl ?_ ?_
  · refine (agree_marks hr).bind fun more more' hmore => ?_
    refine agree_identifier.bind fun name name' hname => ?_
    refine (agree_brackets hr).bind fun ⟨_, dim⟩ ⟨_, dim'⟩ hdim => ?_
    refine .pure ⟨?_, (hnotes.append hmore).append hdim.2⟩
    exact Param.toBinding?_eq hnode.type hname.text_eq rfl true
  · refine agree_identifier.bind fun name name' hname => ?_
    refine (agree_at? _).same fun _ => .ite Iff.rfl ?_ ?_
    · refine ((agree_skip _).seq agree_identifier).many.seq ?_
      refine (agree_skip _).seq ?_
      refine (agree_skip _).seq ?_
      exact .pure ⟨rfl, hnotes⟩
    · refine (agree_brackets hr).bind fun ⟨n, dim⟩ ⟨n', dim'⟩ hdim => ?_
      have hbinding := Param.toBinding?_eq hnode.type hname.text_eq hdim.1 false
      exact .pure ⟨hbinding, hnotes.append hdim.2⟩

/-- Parameters that bind the same, with values in them that are alike. -/
def ParametersAlike (x y : List Param × List Code) : Prop :=
  bindings x.1 = bindings y.1 ∧ AllAlike x.2 y.2

theorem agree_parameters (hr : r.ReadAlike) :
    Agree ParametersAlike (parameters r) (parameters r) := by
  refine (agree_skip _).seq ?_
  refine ((agree_parameter hr).separated ",").bind fun ps ps' hps => ?_
  refine (agree_skip _).seq ?_
  refine .pure ⟨?_, .flatMap hps fun _ _ hp => hp.2⟩
  rw [bindings, bindings, List.filterMap_filterMap, List.filterMap_filterMap]
  exact filterMap_eq_of_forall₂ hps fun _ _ hp => hp.1

/-- Of the parameters of a lambda, only values in annotations are left. -/
theorem agree_lambdaParameters (hr : r.ReadAlike) :
    Agree AllAlike (lambdaParameters r) (lambdaParameters r) := by
  refine .orElse ?_ (.orElse ?_ ?_)
  · exact agree_identifier.seq (.pure .nil)
  · refine (agree_skip _).seq ?_
    refine (agree_identifier.separated ",").seq ?_
    exact (agree_skip _).seq (.pure .nil)
  · exact (agree_parameters hr).bind fun _ _ h => .pure h.2

/-- The body of a lambda is a block or an expression. -/
theorem agree_lambda (hr : r.ReadAlike) : Agree Code.Alike (lambda r) (lambda r) := by
  have hbody : Agree Code.Alike ((do return Code.group (← block r)) <|> r.expression)
      ((do return Code.group (← block r)) <|> r.expression) :=
    .orElse ((agree_block hr).bind fun _ _ hblock => .pure (.group hblock)) hr.expression
  refine (agree_lambdaParameters hr).bind fun _ _ hnotes => ?_
  refine (agree_skip _).seq ?_
  refine hbody.bind fun _ _ hbody => ?_
  exact .pure (.group (hnotes.append (.single hbody)))

/-- The look ahead for a lambda goes beyond a closing bracket, to the arrow. -/
theorem agree_beginsLambda : Agree Eq beginsLambda beginsLambda := by
  refine agree_get.bind fun ts ts' hts => ?_
  cases ts with
  | nil =>
    rw [hts.nil_left]
    exact .pure rfl
  | cons t ts =>
    obtain ⟨t', ts', rfl⟩ := hts.exists_cons_left
    refine .ite (by rw [hts.text_eq]) (.pure ?_) (.pure ?_)
    · have hclose := skipToClose_respaced 0 hts.tail
      generalize skipToClose 0 ts = o, skipToClose 0 ts' = o' at hclose ⊢
      cases hclose with
      | none => rfl
      | some hrest => exact any_unspaced (fun _ => rfl) (head?_unspaced hrest)
    · exact any_unspaced (fun _ => rfl) (head?_unspaced hts.tail)

/-! ## Casts and types as expressions -/

/-- Whether a cast is possible hangs on the form of the type alone. -/
theorem castFollows_unspaced (type : TypeExpr) : castFollows type.unspaced = castFollows type := by
  cases type <;> rfl

/-- And on the next token, which is alike. -/
theorem agree_castFollows {type type' : TypeExpr} (h : type.Alike type') :
    Agree Eq (castFollows type) (castFollows type') := by
  rw [← castFollows_unspaced type, h, castFollows_unspaced]
  refine agree_get.bind fun ts ts' hts => ?_
  cases ts with
  | nil =>
    rw [hts.nil_left]
    exact .pure rfl
  | cons t ts =>
    obtain ⟨t', ts', rfl⟩ := hts.exists_cons_left
    have hstarts : startsOperand t = startsOperand t' := by
      rw [startsOperand, startsOperand, hts.text_eq, hts.kind_eq]
    refine .ite (by rw [hstarts]) (.pure rfl) (.ite (by rw [hts.text_eq]) (.pure rfl) ?_)
    refine .ite (by rw [hts.text_eq]) ?_ (.pure rfl)
    have hnext : ts.head?.any startsOperand = ts'.head?.any startsOperand :=
      any_unspaced (fun _ => rfl) (head?_unspaced hts.tail)
    cases type' <;> exact .pure (by first | rfl | exact hnext)

/-- Of the types of a cast, only a single one decides what may follow it. -/
theorem agree_cast (hr : r.ReadAlike) : Agree Code.Alike (cast r) (cast r) := by
  refine (agree_skip _).seq ?_
  refine (hr.type.separated1 "&").bind fun types types' htypes => ?_
  refine (agree_skip _).seq ?_
  have hnotes : AllAlike (types.flatMap (·.notes)) (types'.flatMap (·.notes)) :=
    .flatMap htypes fun _ _ h => h.notes
  have hvalue : Agree Code.Alike (do return .group (types.flatMap (·.notes) ++ [← r.operand]))
      (do return .group (types'.flatMap (·.notes) ++ [← r.operand])) :=
    hr.operand.bind fun _ _ hvalue => .pure (.group (hnotes.append (.single hvalue)))
  refine (agree_castFollows ?_).same fun _ => .ite Iff.rfl hvalue .failure
  -- only a single type counts
  cases htypes with
  | nil => rfl
  | cons hfirst hmore =>
    cases hmore with
    | nil => exact hfirst.type
    | cons => rfl

theorem agree_parenthesized (hr : r.ReadAlike) :
    Agree Code.Alike (parenthesized r) (parenthesized r) := by
  refine (agree_skip _).seq ?_
  refine hr.expression.bind fun _ _ he => ?_
  refine (agree_skip _).seq ?_
  exact .pure (.group (.single he))

/-- A scoped type counts as a literal only with a bracket in its text, which is no blank. -/
theorem agree_typeLiteral (hr : r.ReadAlike) :
    Agree Code.Alike (typeLiteral r) (typeLiteral r) := by
  refine (agree_plainType hr).bind fun node node' hnode => ?_
  have hgroup : (Code.group node.notes).Alike (.group node'.notes) := .group hnode.notes
  have hend : Agree Code.Alike
      (do
        if ← at? "::" then return .group node.notes
        skip "."
        skip "class"
        return .group node.notes)
      (do
        if ← at? "::" then return .group node'.notes
        skip "."
        skip "class"
        return .group node'.notes) := by
    refine (agree_at? _).same fun _ => .ite Iff.rfl (.pure hgroup) ?_
    refine (agree_skip _).seq ?_
    refine (agree_skip _).seq ?_
    exact .pure hgroup
  have htype := hnode.type
  cases hn : node.type <;> cases hn' : node'.type <;>
    simp only [TypeExpr.Alike, hn, hn', TypeExpr.unspaced, reduceCtorEq, TypeExpr.simple.injEq,
      TypeExpr.scoped.injEq] at htype
  case simple.simple x y =>
    subst htype
    exact .ite Iff.rfl hend (Agree.failure (R := Eq).seq hend)
  case scoped.scoped x y =>
    refine .ite ?_ hend (Agree.failure (R := Eq).seq hend)
    rw [List.contains_iff_mem, List.contains_iff_mem, ← List.count_pos_iff, ← List.count_pos_iff,
      ← count_withoutBlanks (by decide), htype, count_withoutBlanks (by decide)]
  all_goals exact hend

/-! ## Patterns and switches -/

theorem agree_patternName : Agree Eq patternName patternName :=
  (agree_takeIf fun _ => rfl).seq (.pure rfl)

theorem agree_typePattern (hr : r.ReadAlike) : Agree AllAlike (typePattern r) (typePattern r) := by
  refine (agree_modifiers hr).bind fun ⟨_, _⟩ ⟨_, _⟩ hnotes => ?_
  refine (agree_plainType hr).bind fun _ _ hnode => ?_
  refine agree_patternName.seq ?_
  exact .pure (hnotes.2.append hnode.notes)

/-- Patterns inside a record pattern are read in the same order. -/
theorem agree_recordPatternRule (hr : r.ReadAlike) :
    Agree AllAlike (recordPatternRule r) (recordPatternRule r) := by
  have hpart : Agree AllAlike (r.recordPattern <|> typePattern r <|> (do skip "_"; return []))
      (r.recordPattern <|> typePattern r <|> (do skip "_"; return [])) :=
    .orElse hr.recordPattern <| .orElse (agree_typePattern hr) <| (agree_skip _).seq (.pure .nil)
  refine (agree_plainType hr).bind fun _ _ hnode => ?_
  refine (agree_skip _).seq ?_
  refine (hpart.separated ",").bind fun _ _ hparts => ?_
  refine (agree_skip _).seq ?_
  refine agree_patternName.accepts.seq ?_
  exact .pure (hnode.notes.append (.flatten hparts))

/-- What follows a pattern is looked at, but not taken. -/
theorem agree_inCase {α : Type} {R : α → α → Prop} {p : Parser α} (hp : Agree R p p) :
    Agree R (inCase p) (inCase p) := by
  refine hp.bind fun _ _ ha => ?_
  refine agree_peek.bind fun _ _ hnext => ?_
  exact .ite (by rw [any_unspaced (fun _ => rfl) hnext]) (.pure ha) .failure

/-- Labels have constants and patterns, and perhaps a guard. -/
theorem agree_switchLabel (hr : r.ReadAlike) : Agree AllAlike (switchLabel r) (switchLabel r) := by
  have hdefault : Agree AllAlike (do skip "default"; return []) (do skip "default"; return []) :=
    (agree_skip _).seq (.pure .nil)
  have hsingle : Agree AllAlike (do return [← r.caseExpression]) (do return [← r.caseExpression]) :=
    hr.caseExpression.bind fun _ _ he => .pure (.single he)
  have hitem := hdefault.orElse <| (agree_inCase hr.recordPattern).orElse <|
    (agree_inCase (agree_typePattern hr)).orElse hsingle
  have hguard := ((agree_skip "when").seq hr.caseExpression).optionally
  refine Agree.bind (R := AllAlike) (hdefault.orElse ?_) fun _ _ hparts => ?_
  · refine (agree_skip _).seq ?_
    refine (hitem.separated1 ",").bind fun _ _ hitems => ?_
    refine hguard.bind fun _ _ hguard => ?_
    exact .pure ((AllAlike.flatten hitems).append (.toList hguard))
  · refine ((agree_skip _).orElse (agree_skip _)).seq ?_
    exact .pure hparts

/-- Labels and statements alternate in any way. -/
theorem agree_switchRule (hr : r.ReadAlike) : Agree Code.Alike (switchRule r) (switchRule r) := by
  have hpart : Agree AllAlike (switchLabel r <|> (do return (← recovering r.statement).toList))
      (switchLabel r <|> (do return (← recovering r.statement).toList)) :=
    .orElse (agree_switchLabel hr) <| hr.statement.recovering.bind fun _ _ h => .pure (.toList h)
  refine (agree_skip _).seq ?_
  refine (agree_skip _).seq ?_
  refine hr.expression.bind fun _ _ hvalue => ?_
  refine (agree_skip _).seq ?_
  refine (agree_skip _).seq ?_
  refine hpart.many.bind fun _ _ hparts => ?_
  refine (agree_skip _).seq ?_
  exact .pure (.group (.cons hvalue (.flatten hparts)))

/-! ## Operands and operators -/

/-- An operator made of several symbols needs them to touch in both readings. -/
theorem agree_binaryOperator : Agree Eq binaryOperator binaryOperator := by
  have hequals : Agree Eq (adjacent "=") (adjacent "=") := agree_adjacent (by decide)
  have hangle : Agree Eq (adjacent ">") (adjacent ">") := agree_adjacent (by decide)
  refine .orElse ((agree_takeIf fun _ => rfl).seq (.pure rfl)) ?_
  refine (agree_skip _).seq ?_
  refine hequals.accepts.same fun _ => .ite Iff.rfl (.pure rfl) ?_
  refine (hangle.seq hangle.optionally).optionally.seq ?_
  exact hequals.accepts.same fun _ => .ite Iff.rfl .failure (.pure rfl)

/-- So does the operator of an assignment. -/
theorem agree_assignmentOperator : Agree Eq assignmentOperator assignmentOperator := by
  have hangle : Agree Eq (adjacent ">") (adjacent ">") := agree_adjacent (by decide)
  refine .orElse ((agree_takeIf fun _ => rfl).seq (.pure rfl)) ?_
  refine (agree_skip _).seq ?_
  refine hangle.seq ?_
  refine hangle.optionally.seq ?_
  exact agree_adjacent (by decide)

/-- A name with or without arguments. -/
theorem agree_nameOrCall (hr : r.ReadAlike) :
    Agree Code.Alike
      (do
        let name ← identifier
        if ← at? "(" then return .invoke name.text (← arguments r)
        return .name name.text)
      (do
        let name ← identifier
        if ← at? "(" then return .invoke name.text (← arguments r)
        return .name name.text) := by
  refine agree_identifier.bind fun _ _ hname => ?_
  refine (agree_at? _).same fun _ => .ite Iff.rfl ?_ ?_
  · exact (agree_arguments hr).bind fun _ _ hargs => .pure (.invoke hname.text_eq hargs)
  · exact .pure (.name hname.text_eq)

/-- The first token, which is alike, decides how an operand is read. -/
theorem agree_primary (hr : r.ReadAlike) (arrows : Bool) :
    Agree Code.Alike (primary r arrows) (primary r arrows) := by
  have hplain : Agree Code.Alike (primary r false) (primary r false) := by
    refine agree_peek.bind fun next next' hnext => ?_
    cases next with
    | none =>
      cases next' with
      | none => exact .failure
      | some t' => cases hnext
    | some t =>
      cases next' with
      | none => cases hnext
      | some t' =>
        have htext : t.text = t'.text := Token.Alike.text_eq (Option.some.inj hnext)
        have hkind : t.kind = t'.kind := Token.Alike.kind_eq (Option.some.inj hnext)
        refine .ite (by rw [htext, hkind]) ?_ ?_
        · rw [htext]
          exact (agree_skip _).seq (.pure (.group .nil))
        refine .ite (by rw [htext]) ((agree_skip _).seq (.pure rfl)) ?_
        refine .ite (by rw [htext]) ((agree_skip _).seq (.pure (.group .nil))) ?_
        refine .ite (by rw [htext]) (agree_creation hr .nil) ?_
        refine .ite (by rw [htext]) ((agree_cast hr).orElse (agree_parenthesized hr)) ?_
        exact .ite (by rw [htext]) (agree_switchRule hr)
          ((agree_typeLiteral hr).orElse (agree_nameOrCall hr))
  cases arrows with
  | false => exact hplain
  | true =>
    -- a lambda is tried first, and everything else comes after it
    refine agree_beginsLambda.same fun _ => .ite Iff.rfl ?_ hplain
    refine (agree_lambda hr).optionally.bind fun found found' hfound => ?_
    cases hfound with
    | none => exact hplain
    | some he => exact .pure he

/-- What follows a dot is tried in the same order in both readings. -/
theorem agree_afterDot (hr : r.ReadAlike) {e e' : Code} (he : e.Alike e') :
    Agree Code.Alike (afterDot r e) (afterDot r e') := by
  have hgroup : (Code.group [e]).Alike (.group [e']) := .group (.single he)
  have hcall : ∀ {notes notes' x x'}, AllAlike notes notes' → x = x' →
      Agree Code.Alike (do return .call e notes x (← arguments r))
        (do return .call e' notes' x' (← arguments r)) :=
    fun hnotes hx => (agree_arguments hr).bind fun _ _ hargs => .pure (.call he hnotes hx hargs)
  refine .orElse ((agree_skip _).seq (.pure (.group .nil))) ?_
  refine .orElse (agree_creation hr (.single he)) ?_
  refine .orElse ((agree_skip _).seq (.pure (.access he rfl))) ?_
  refine .orElse ?_ (.orElse ?_ (.orElse ?_ ?_))
  · -- a member of a supertype
    refine (agree_skip _).seq ?_
    refine (agree_at? _).same fun _ => .ite Iff.rfl (.pure hgroup) ?_
    refine (agree_skip _).seq ?_
    refine (agree_typeArgumentNotes hr).bind fun _ _ hnotes => ?_
    refine agree_identifier.bind fun _ _ hname => ?_
    refine (agree_at? _).same fun _ => ?_
    exact .ite Iff.rfl (hcall hnotes hname.text_eq) (.pure (.access he hname.text_eq))
  · refine (agree_typeArguments hr).bind fun ⟨_, _⟩ ⟨_, _⟩ h => ?_
    exact agree_identifier.bind fun _ _ hname => hcall h.2 hname.text_eq
  · refine agree_identifier.bind fun _ _ hname => ?_
    refine (agree_at? _).same fun _ => ?_
    exact .ite Iff.rfl (hcall .nil hname.text_eq) (.pure (.access he hname.text_eq))
  · exact (agree_takeIf fun _ => rfl).seq (.pure hgroup)

/-- One more thing behind an operand. -/
theorem agree_suffix (hr : r.ReadAlike) {e e' : Code} (he : e.Alike e') :
    Agree Code.Alike (suffix r e) (suffix r e') := by
  refine .orElse ?_ (.orElse ?_ (.orElse ?_ ?_))
  · exact (agree_skip _).seq (agree_afterDot hr he)
  · refine (agree_skip _).seq ?_
    refine hr.expression.bind fun _ _ hi => ?_
    refine (agree_skip _).seq ?_
    exact .pure (.group (.cons he (.single hi)))
  · refine ((agree_skip _).orElse (agree_skip _)).seq ?_
    exact .pure (.group (.single he))
  · refine (agree_skip _).seq ?_
    refine (agree_typeArgumentNotes hr).bind fun _ _ hnotes => ?_
    refine ((agree_skip _).orElse (agree_identifier.seq (.pure rfl))).seq ?_
    exact .pure (.group (.cons he hnotes))

/-- As many things follow an operand in both readings. -/
theorem agree_suffixes (hr : r.ReadAlike) (fuel : Nat) {e e' : Code} (he : e.Alike e') :
    Agree Code.Alike (suffixes r fuel e) (suffixes r fuel e') := by
  induction fuel generalizing e e' with
  | zero => exact .pure he
  | succ fuel ih =>
    refine (agree_suffix hr he).optionally.bind fun found found' hfound => ?_
    cases hfound with
    | none => exact .pure he
    | some hlonger => exact ih hlonger

/-- There are signs before an operand in both readings or in none. -/
theorem agree_signed (hr : r.ReadAlike) (arrows : Bool) :
    Agree Code.Alike (signed r arrows) (signed r arrows) := by
  refine (agree_takeIf fun _ => rfl).many.bind fun before before' hbefore => ?_
  refine (agree_primary hr arrows).bind fun e e' he => ?_
  refine agree_get.bind fun ts ts' hts => ?_
  rw [← hts.length_eq]
  refine (agree_suffixes hr ts.length he).bind fun e e' he => .pure ?_
  cases hbefore with
  | nil => exact he
  | cons => exact .group (.single he)

/-- Of a test for a type, the values in annotations are kept. -/
theorem agree_instanceTest (hr : r.ReadAlike) :
    Agree AllAlike (instanceTest r) (instanceTest r) := by
  refine (agree_skip _).seq ?_
  refine (agree_modifiers hr).bind fun ⟨_, _⟩ ⟨_, _⟩ hnotes => ?_
  refine .orElse ?_ ?_
  · exact hr.recordPattern.bind fun _ _ hpattern => .pure (hnotes.2.append hpattern)
  · refine (agree_plainType hr).bind fun _ _ hnode => ?_
    exact agree_patternName.accepts.seq (.pure (hnotes.2.append hnode.notes))

/-- A chain is a single operand in both readings or in none. -/
theorem agree_chain (hr : r.ReadAlike) (arrows : Bool) :
    Agree Code.Alike (chain r arrows) (chain r arrows) := by
  have hoperand : Agree AllAlike (do binaryOperator; return [← signed r arrows])
      (do binaryOperator; return [← signed r arrows]) :=
    agree_binaryOperator.seq <| (agree_signed hr arrows).bind fun _ _ he => .pure (.single he)
  refine (agree_signed hr arrows).bind fun first first' hfirst => ?_
  refine (hoperand.orElse (agree_instanceTest hr)).many.bind fun more more' hmore => .pure ?_
  cases hmore with
  | nil => exact hfirst
  | cons h hrest => exact .group (.cons hfirst (.flatten (.cons h hrest)))

/-- What follows the first operand tells a choice from an assignment. -/
theorem agree_expressionRule (hr : r.ReadAlike) :
    Agree Code.Alike (expressionRule r) (expressionRule r) := by
  refine (agree_chain hr true).bind fun first first' hfirst => ?_
  refine (agree_skip _).accepts.same fun _ => .ite Iff.rfl ?_ ?_
  · refine hr.expression.bind fun _ _ hyes => ?_
    refine (agree_skip _).seq ?_
    refine hr.expression.bind fun _ _ hno => ?_
    exact .pure (.group (.cons hfirst (.cons hyes (.single hno))))
  · refine agree_assignmentOperator.accepts.same fun _ => .ite Iff.rfl ?_ (.pure hfirst)
    exact hr.expression.bind fun _ _ hvalue => .pure (.assign hfirst hvalue)

/-! ## Statements -/

/-- A declared variable is compared with its brackets and its value. -/
theorem Declarator.alike_mk {x x' : String} {n n' : Nat} {notes notes' : List Code}
    {value value' : Option Code} (hx : x = x') (hn : n = n') (hnotes : AllAlike notes notes')
    (hvalue : Option.Rel Code.Alike value value') :
    (Declarator.mk x n notes value).Alike (.mk x' n' notes' value') := by
  cases hvalue with
  | none => rw [Declarator.Alike, hollow, hollow, hx, hn, hnotes]
  | some h => rw [Declarator.Alike, hollow, hollow, hx, hn, hnotes, h]

/-- A declared variable may have brackets of its own. -/
theorem agree_declarator (hr : r.ReadAlike) :
    Agree Declarator.Alike (declarator r) (declarator r) := by
  refine agree_identifier.bind fun _ _ hname => ?_
  refine (agree_brackets hr).bind fun ⟨_, _⟩ ⟨_, _⟩ hdim => ?_
  refine ((agree_skip _).seq hr.value).optionally.bind fun _ _ hvalue => ?_
  exact .pure (Declarator.alike_mk hname.text_eq hdim.1 hdim.2 hvalue)

/-- Local variables are as many in both readings. -/
theorem agree_localVariables (hr : r.ReadAlike) :
    Agree Code.Alike (localVariables r) (localVariables r) := by
  refine (agree_modifiers hr).bind fun ⟨_, _⟩ ⟨_, _⟩ hnotes => ?_
  refine (agree_plainType hr).bind fun _ _ hnode => ?_
  refine ((agree_declarator hr).separated1 ",").bind fun _ _ hdeclarators => ?_
  refine (agree_skip _).seq ?_
  exact .pure (.locals (hnotes.2.append hnode.notes) hnode.type hdeclarators)

theorem agree_condition (hr : r.ReadAlike) : Agree Code.Alike (condition r) (condition r) := by
  refine (agree_skip _).seq ?_
  refine hr.expression.bind fun _ _ he => ?_
  refine (agree_skip _).seq ?_
  exact .pure he

/-- The other branch may be missing in both readings. -/
theorem agree_ifStatement (hr : r.ReadAlike) :
    Agree Code.Alike (ifStatement r) (ifStatement r) := by
  refine (agree_skip _).seq ?_
  refine (agree_condition hr).bind fun _ _ htest => ?_
  refine hr.statement.bind fun _ _ hyes => ?_
  refine ((agree_skip _).seq hr.statement).optionally.bind fun _ _ hno => ?_
  exact .pure (.group (.cons htest (.cons hyes (.toList hno))))

theorem agree_whileStatement (hr : r.ReadAlike) :
    Agree Code.Alike (whileStatement r) (whileStatement r) := by
  refine (agree_skip _).seq ?_
  refine (agree_condition hr).bind fun _ _ htest => ?_
  refine hr.statement.bind fun _ _ hbody => ?_
  exact .pure (.group (.cons htest (.single hbody)))

theorem agree_doStatement (hr : r.ReadAlike) :
    Agree Code.Alike (doStatement r) (doStatement r) := by
  refine (agree_skip _).seq ?_
  refine hr.statement.bind fun _ _ hbody => ?_
  refine (agree_skip _).seq ?_
  refine (agree_condition hr).bind fun _ _ htest => ?_
  refine (agree_skip _).seq ?_
  exact .pure (.group (.cons hbody (.single htest)))

/-- The variable of a loop over values keeps its name. -/
theorem agree_forEachStatement (hr : r.ReadAlike) :
    Agree Code.Alike (forEachStatement r) (forEachStatement r) := by
  refine (agree_skip _).seq ?_
  refine (agree_skip _).seq ?_
  refine (agree_modifiers hr).bind fun ⟨_, _⟩ ⟨_, _⟩ hnotes => ?_
  refine (agree_plainType hr).bind fun _ _ hnode => ?_
  refine agree_identifier.bind fun _ _ hname => ?_
  refine (agree_brackets hr).bind fun ⟨_, _⟩ ⟨_, _⟩ hdim => ?_
  refine (agree_skip _).seq ?_
  refine hr.expression.bind fun _ _ hvalues => ?_
  refine (agree_skip _).seq ?_
  refine hr.statement.bind fun _ _ hbody => ?_
  have hallNotes := (hnotes.2.append hnode.notes).append hdim.2
  have hparts := AllAlike.cons hvalues (.single hbody)
  exact .pure (.forEach hallNotes hnode.type hname.text_eq hparts)

/-- The start of a loop declares variables or is a list of expressions. -/
theorem agree_forStatement (hr : r.ReadAlike) :
    Agree Code.Alike (forStatement r) (forStatement r) := by
  have hstart : Agree AllAlike
      ((do return [← localVariables r]) <|> (do
        let es ← separated "," r.expression
        skip ";"
        return es))
      ((do return [← localVariables r]) <|> (do
        let es ← separated "," r.expression
        skip ";"
        return es)) :=
    .orElse ((agree_localVariables hr).bind fun _ _ h => .pure (.single h)) <|
      (hr.expression.separated ",").bind fun _ _ hes => (agree_skip _).seq (.pure (.of_forall₂ hes))
  refine (agree_skip _).seq ?_
  refine (agree_skip _).seq ?_
  refine hstart.bind fun _ _ hstart => ?_
  refine hr.expression.optionally.bind fun _ _ htest => ?_
  refine (agree_skip _).seq ?_
  refine (hr.expression.separated ",").bind fun _ _ hsteps => ?_
  refine (agree_skip _).seq ?_
  refine hr.statement.bind fun _ _ hbody => ?_
  have hhead := (hstart.append (.toList htest)).append (.of_forall₂ hsteps)
  exact .pure (.group (hhead.append (.single hbody)))

/-- A resource is a variable or an expression. -/
theorem agree_resource (hr : r.ReadAlike) : Agree AllAlike (resource r) (resource r) := by
  refine .orElse ?_ ?_
  · refine (agree_modifiers hr).bind fun ⟨_, _⟩ ⟨_, _⟩ hnotes => ?_
    refine (agree_plainType hr).bind fun _ _ hnode => ?_
    refine agree_identifier.seq ?_
    refine (agree_brackets hr).bind fun ⟨_, _⟩ ⟨_, _⟩ hdim => ?_
    refine (agree_skip _).seq ?_
    refine hr.expression.bind fun _ _ hvalue => ?_
    exact .pure (((hnotes.2.append hnode.notes).append hdim.2).append (.single hvalue))
  · exact hr.expression.bind fun _ _ he => .pure (.single he)

theorem agree_resources (hr : r.ReadAlike) : Agree AllAlike (resources r) (resources r) := by
  refine (agree_skip _).seq ?_
  refine ((agree_resource hr).separated1 ";").bind fun _ _ hresources => ?_
  refine (agree_skip _).accepts.seq ?_
  refine (agree_skip _).seq ?_
  exact .pure (.flatten hresources)

/-- Of what is caught, only the values in annotations are kept. -/
theorem agree_catchClause (hr : r.ReadAlike) : Agree AllAlike (catchClause r) (catchClause r) := by
  refine (agree_skip _).seq ?_
  refine (agree_skip _).seq ?_
  refine (agree_modifiers hr).bind fun ⟨_, _⟩ ⟨_, _⟩ hnotes => ?_
  refine ((agree_plainType hr).separated1 "|").bind fun types types' htypes => ?_
  refine agree_identifier.seq ?_
  refine (agree_brackets hr).bind fun ⟨_, _⟩ ⟨_, _⟩ hdim => ?_
  refine (agree_skip _).seq ?_
  refine (agree_block hr).bind fun _ _ hbody => .pure ?_
  have htypeNotes : AllAlike (types.flatMap (·.notes)) (types'.flatMap (·.notes)) :=
    .flatMap htypes fun _ _ h => h.notes
  exact ((hnotes.2.append htypeNotes).append hdim.2).append hbody

/-- The blocks of a guarded statement are as many in both readings. -/
theorem agree_tryStatement (hr : r.ReadAlike) :
    Agree Code.Alike (tryStatement r) (tryStatement r) := by
  refine (agree_skip _).seq ?_
  refine ((agree_resources hr).orDefault .nil).bind fun _ _ hopened => ?_
  refine (agree_block hr).bind fun _ _ hbody => ?_
  refine (agree_catchClause hr).many.bind fun _ _ hhandlers => ?_
  refine (((agree_skip _).seq (agree_block hr)).orDefault .nil).bind fun _ _ hlast => ?_
  exact .pure (.group (((hopened.append hbody).append (.flatten hhandlers)).append hlast))

/-- A jump may give a value. -/
theorem agree_jump (hr : r.ReadAlike) (keyword : String) :
    Agree Code.Alike (jump r keyword) (jump r keyword) := by
  refine (agree_skip _).seq ?_
  refine hr.expression.optionally.bind fun _ _ hvalue => ?_
  refine (agree_skip _).seq ?_
  exact .pure (.group (.toList hvalue))

theorem agree_synchronizedStatement (hr : r.ReadAlike) :
    Agree Code.Alike (synchronizedStatement r) (synchronizedStatement r) := by
  refine (agree_skip _).seq ?_
  refine (agree_condition hr).bind fun _ _ hlock => ?_
  refine (agree_block hr).bind fun _ _ hbody => ?_
  exact .pure (.group (.cons hlock hbody))

theorem agree_assertStatement (hr : r.ReadAlike) :
    Agree Code.Alike (assertStatement r) (assertStatement r) := by
  refine (agree_skip _).seq ?_
  refine hr.expression.bind fun _ _ htest => ?_
  refine ((agree_skip _).seq hr.expression).optionally.bind fun _ _ hmessage => ?_
  refine (agree_skip _).seq ?_
  exact .pure (.group (.cons htest (.toList hmessage)))

theorem agree_labeledStatement (hr : r.ReadAlike) :
    Agree Code.Alike (labeledStatement r) (labeledStatement r) := by
  refine agree_identifier.seq ?_
  refine (agree_skip _).seq ?_
  exact hr.statement

theorem agree_expressionStatement (hr : r.ReadAlike) :
    Agree Code.Alike (expressionStatement r) (expressionStatement r) := by
  refine hr.expression.bind fun _ _ he => ?_
  refine (agree_skip _).seq ?_
  exact .pure (.group (.single he))

theorem agree_leave (keyword : String) : Agree Code.Alike (leave keyword) (leave keyword) := by
  refine (agree_skip _).seq ?_
  refine agree_identifier.optionally.seq ?_
  refine (agree_skip _).seq ?_
  exact .pure (.group .nil)

/-- The declaration of an annotation is skipped as a whole. -/
theorem agree_markDeclaration (hr : r.ReadAlike) :
    Agree Eq (markDeclaration r) (markDeclaration r) := by
  refine (agree_modifiers hr).seq ?_
  refine (agree_skip _).seq ?_
  refine (agree_skip _).seq ?_
  refine agree_identifier.seq ?_
  exact agree_skipBalanced _

/-- A statement that no keyword tells is tried as one kind after the other. -/
theorem agree_plainStatement (hr : r.ReadAlike) :
    Agree Code.Alike (plainStatement r) (plainStatement r) := by
  refine .orElse (hr.declaration.bind fun _ _ _ => .pure (.declare _ _)) ?_
  refine .orElse ((agree_markDeclaration hr).seq (.pure (.group .nil))) ?_
  refine .orElse (agree_localVariables hr) ?_
  refine .orElse (agree_labeledStatement hr) ?_
  exact .orElse (agree_expressionStatement hr) (agree_jump hr "yield")

/-- Every rule that is chosen by a keyword reads alike. -/
theorem agree_of_mem_statementRules (hr : r.ReadAlike) {rule : String × Parser Code}
    (h : rule ∈ statementRules r) : Agree Code.Alike rule.2 rule.2 := by
  simp only [statementRules, List.mem_cons, List.not_mem_nil, or_false] at h
  rcases h with rfl | rfl | rfl | rfl | rfl | rfl | rfl | rfl | rfl | rfl | rfl | rfl | rfl | rfl
  · exact (agree_block hr).bind fun _ _ hblock => .pure (.group hblock)
  · exact (agree_skip _).seq (.pure (.group .nil))
  · exact agree_ifStatement hr
  · exact agree_whileStatement hr
  · exact agree_doStatement hr
  · exact (agree_forEachStatement hr).orElse (agree_forStatement hr)
  · exact agree_tryStatement hr
  · exact agree_switchRule hr
  · exact agree_synchronizedStatement hr
  · exact agree_assertStatement hr
  · exact agree_jump hr "return"
  · exact agree_jump hr "throw"
  · exact agree_leave "break"
  · exact agree_leave "continue"

/-- The first word chooses the same rule in both readings. -/
theorem agree_statementRule (hr : r.ReadAlike) :
    Agree Code.Alike (statementRule r) (statementRule r) := by
  refine agree_peek.bind fun next next' hnext => ?_
  have hself : ∀ o : Option Token, ((o.map Token.unspaced).bind fun t =>
      (statementRules r).lookup t.text) = o.bind fun t => (statementRules r).lookup t.text := by
    intro o
    cases o <;> rfl
  rw [← hself next, hnext, hself]
  cases hrule : next'.bind fun t => (statementRules r).lookup t.text with
  | none => exact agree_plainStatement hr
  | some rule =>
    obtain ⟨t, -, hlookup⟩ := Option.bind_eq_some_iff.mp hrule
    obtain ⟨before, after, hrules, -⟩ := List.lookup_eq_some_iff.mp hlookup
    have hmem : (t.text, rule) ∈ statementRules r :=
      hrules ▸ List.mem_append_right _ (List.mem_cons_self ..)
    exact (agree_of_mem_statementRules hr hmem).orElse (agree_plainStatement hr)

end ClassDiagram.Java
