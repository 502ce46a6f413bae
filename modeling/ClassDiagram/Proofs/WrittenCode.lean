import ClassDiagram.Java.Grammar.Statements
import ClassDiagram.Proofs.WrittenTypes

/-!
# Code as it is written

What the rules for expressions and statements read is written in the source, given that the
rules for what is nested in them read nothing else. There is one lemma for each rule, and it
follows the rule from part to part.
-/

namespace ClassDiagram.Java

open ClassDiagram.Java.Parser Grammar Lexer

variable {source : String}

/-! ## Written code, by its form -/

/-- All nodes of some code are written exactly if each piece of it is, with what it contains. -/
theorem forall_allNodes_iff {cs : List Code} :
    (∀ n ∈ allNodes cs, n.OwnWritten source) ↔ AllWritten source cs := by
  induction cs with
  | nil => simp [allNodes]
  | cons c rest ih =>
    rw [allNodes, List.cons_append, List.forall_mem_cons, List.forall_mem_append, ih,
      allWritten_cons, Code.Written, and_assoc]

/-- A declared variable brings in the nodes of its annotations and of its first value. -/
theorem forall_nodes_iff {d : Declarator} :
    (∀ n ∈ d.nodes, n.OwnWritten source) ↔ d.Written source := by
  obtain ⟨name, dimensions, notes, value⟩ := d
  cases value with
  | none =>
    rw [Declarator.nodes, Declarator.Written, forall_allNodes_iff]
    simp
  | some value =>
    rw [Declarator.nodes, Declarator.Written, List.forall_mem_append, List.forall_mem_cons,
      forall_allNodes_iff]
    simp [Code.Written]

/-- The nodes of several declared variables are those of each. -/
theorem forall_declaratorNodes_iff {ds : List Declarator} :
    (∀ n ∈ declaratorNodes ds, n.OwnWritten source) ↔ ∀ d ∈ ds, d.Written source := by
  induction ds with
  | nil => simp [declaratorNodes]
  | cons d rest ih =>
    rw [declaratorNodes, List.forall_mem_append, ih, List.forall_mem_cons, forall_nodes_iff]

namespace Code

/-- A bare name is what a type can be taken from, so it has to be a name of the source. -/
@[simp] theorem written_name {x : String} :
    (Code.name x).Written source ↔ TypeName source x :=
  and_iff_left (List.forall_mem_nil _)

/-- There is no name in `this`. -/
@[simp] theorem written_this : Code.this.Written source :=
  ⟨trivial, List.forall_mem_nil _⟩

/-- A local type is not looked into. -/
@[simp] theorem written_declare {decl : TypeDecl} : (Code.declare decl).Written source :=
  ⟨trivial, List.forall_mem_nil _⟩

/-- The name of a member that is accessed never becomes a type; only its object counts. -/
@[simp] theorem written_access {object : Code} {member : String} :
    (Code.access object member).Written source ↔ object.Written source := by
  show True ∧ _ ↔ _
  rw [true_and, inner, List.forall_mem_cons, Written]

/-- The name of a method is no type either. -/
@[simp] theorem written_invoke {x : String} {args : List Code} :
    (Code.invoke x args).Written source ↔ AllWritten source args := by
  show True ∧ _ ↔ _
  rw [true_and, inner, forall_allNodes_iff]

/-- Code without a meaning of its own is written if its parts are. -/
@[simp] theorem written_group {parts : List Code} :
    (Code.group parts).Written source ↔ AllWritten source parts := by
  show True ∧ _ ↔ _
  rw [true_and, inner, forall_allNodes_iff]

/-- A call is written if its receiver, its type arguments and its arguments are. -/
@[simp] theorem written_call {receiver : Code} {notes args : List Code} {x : String} :
    (Code.call receiver notes x args).Written source
      ↔ receiver.Written source ∧ AllWritten source notes ∧ AllWritten source args := by
  show True ∧ _ ↔ _
  simp only [true_and, inner, List.cons_append, List.forall_mem_cons, List.forall_mem_append,
    forall_allNodes_iff, Written, and_assoc]

/-- Both sides of an assignment count, for the target can be the name of a field. -/
@[simp] theorem written_assign {target value : Code} :
    (Code.assign target value).Written source
      ↔ target.Written source ∧ value.Written source := by
  show True ∧ _ ↔ _
  simp only [true_and, inner, List.cons_append, List.forall_mem_cons, List.forall_mem_append,
    Written, and_assoc]

@[simp] theorem written_delegate {toThis : Bool} {before args : List Code} :
    (Code.delegate toThis before args).Written source
      ↔ AllWritten source before ∧ AllWritten source args := by
  show True ∧ _ ↔ _
  rw [true_and, inner, List.forall_mem_append, forall_allNodes_iff, forall_allNodes_iff]

/-- The body of an anonymous class does not count. -/
@[simp] theorem written_create {before args : List Code} {type : TypeExpr} {body : List Member} :
    (Code.create before type args body).Written source
      ↔ type.Written source ∧ AllWritten source before ∧ AllWritten source args := by
  rw [Written, inner, List.forall_mem_append, forall_allNodes_iff, forall_allNodes_iff]
  rfl

/-- Local variables have one type in common and annotations and values of their own. -/
@[simp] theorem written_locals {notes : List Code} {type : TypeExpr} {ds : List Declarator} :
    (Code.locals notes type ds).Written source
      ↔ type.Written source ∧ AllWritten source notes ∧ ∀ d ∈ ds, d.Written source := by
  rw [Written, inner, List.forall_mem_append, forall_allNodes_iff, forall_declaratorNodes_iff]
  rfl

@[simp] theorem written_forEach {notes parts : List Code} {type : TypeExpr} {x : String} :
    (Code.forEach notes type x parts).Written source
      ↔ type.Written source ∧ AllWritten source notes ∧ AllWritten source parts := by
  rw [Written, inner, List.forall_mem_append, forall_allNodes_iff, forall_allNodes_iff]
  rfl

end Code

variable {r : Rules}

/-! ## Expressions -/

/-- The values in annotations inside type arguments. -/
theorem reads_typeArgumentNotes (hr : r.Sound source) :
    Reads (tokenize source) (AllWritten source)
      (orDefault [] (do return (← typeArguments r).2)) :=
  .orDefault allWritten_nil <| (reads_typeArguments hr).bind fun _ h => .pure h.2

/-- The values in annotations inside brackets, if there are any. -/
theorem reads_dimensionNotes (hr : r.Sound source) :
    Reads (tokenize source) (fun x => AllWritten source x.2) (orDefault (0, []) (dimensions r)) :=
  .orDefault allWritten_nil (reads_dimensions hr)

theorem reads_arguments (hr : r.Sound source) :
    Reads (tokenize source) (AllWritten source) (arguments r) := by
  refine (reads_skip _).bind fun _ _ => ?_
  refine (hr.expression.separated ",").bind fun _ hargs => ?_
  refine (reads_skip _).bind fun _ _ => ?_
  exact .pure hargs

/-- The values of an array in braces, with or without a comma after the last. -/
theorem reads_braced (hr : r.Sound source) :
    Reads (tokenize source) (Code.Written source) (braced r) := by
  refine (reads_skip _).bind fun _ _ => ?_
  refine (hr.value.separated ",").bind fun _ hvalues => ?_
  refine (reads_skip _).accepts.bind fun _ _ => ?_
  refine (reads_skip _).bind fun _ _ => ?_
  exact .pure (Code.written_group.mpr hvalues)

/-- A value in an annotation can be an annotation itself, which leaves the values in it. -/
theorem reads_valueRule (hr : r.Sound source) :
    Reads (tokenize source) (Code.Written source) (valueRule r) := by
  refine .orElse (reads_braced hr) ?_
  refine .orElse hr.expression ?_
  refine hr.mark.bind fun _ hnotes => ?_
  exact .pure (Code.written_group.mpr hnotes)

/-- Lengths and empty brackets, at least one of them, leave the lengths and the values in
annotations. -/
theorem reads_arrayLengths (hr : r.Sound source) :
    Reads (tokenize source) (AllWritten source) (arrayLengths r) := by
  have hlength : Reads (tokenize source) (AllWritten source) (do
      let notes ← marks r
      skip "["
      let length ← r.expression
      skip "]"
      return notes ++ [length]) := by
    refine (reads_marks hr).bind fun _ hnotes => ?_
    refine (reads_skip _).bind fun _ _ => ?_
    refine hr.expression.bind fun _ hlength => ?_
    refine (reads_skip _).bind fun _ _ => ?_
    exact .pure (by simp [hnotes, hlength])
  refine hlength.many.bind fun lengths hlengths => ?_
  refine (reads_dimensionNotes hr).bind fun empty hempty => ?_
  have hall : AllWritten source (lengths.flatten ++ empty.2) := by
    simp [allWritten_flatten.mpr hlengths, hempty]
  exact .ite (Reads.failure (P := fun _ => True) |>.bind fun _ _ => .pure hall) (.pure hall)

/-- Whatever follows `new`, the type that is made is the one that is spelled there, and all
values on the way are kept. -/
theorem reads_creation (hr : r.Sound source) {before : List Code}
    (hbefore : AllWritten source before) :
    Reads (tokenize source) (Code.Written source) (creation r before) := by
  refine (reads_skip _).bind fun _ _ => ?_
  refine (reads_marks hr).bind fun first hfirst => ?_
  refine (reads_typeArgumentNotes hr).bind fun args hargs => ?_
  refine (reads_marks hr).bind fun second hsecond => ?_
  refine (reads_simpleType hr).bind fun node hnode => ?_
  refine (reads_at? _).bind fun _ _ => .ite ?_ ?_
  · refine (reads_arguments hr).bind fun values hvalues => ?_
    refine (hr.classBody.orDefault (List.forall_mem_nil _)).bind fun body _ => .pure ?_
    simp [hbefore, hfirst, hargs, hsecond, hnode.type, hnode.notes, hvalues]
  · refine (reads_arrayLengths hr).bind fun lengths hlengths => ?_
    refine (reads_braced hr).optionally.bind fun values hvalues => .pure ?_
    simp [hbefore, hfirst, hargs, hsecond, hnode.notes, hlengths, allWritten_toList.mpr hvalues]

/-- Statements that could not be read leave nothing. -/
theorem allWritten_filterMap_id {found : List (Option Code)}
    (h : ∀ o ∈ found, ∀ c ∈ o, c.Written source) :
    AllWritten source (found.filterMap id) := by
  intro c hc
  obtain ⟨o, ho, heq⟩ := List.mem_filterMap.mp hc
  exact h o ho c heq

theorem reads_block (hr : r.Sound source) :
    Reads (tokenize source) (AllWritten source) (block r) := by
  refine (reads_skip _).bind fun _ _ => ?_
  refine hr.statement.recovering.many.bind fun _ hstatements => ?_
  refine (reads_skip _).bind fun _ _ => ?_
  exact .pure (allWritten_filterMap_id hstatements)

/-- The type of a parameter is written, and so are the values in its annotations. A receiver
parameter binds nothing. -/
theorem reads_parameter (hr : r.Sound source) :
    Reads (tokenize source)
      (fun x => (∀ p ∈ x.1, p.type.Written source) ∧ AllWritten source x.2) (parameter r) := by
  refine (reads_modifiers hr).bind fun ⟨ms, before⟩ hbefore => ?_
  refine (reads_plainType hr).bind fun node hnode => ?_
  have hnotes : AllWritten source (before ++ node.notes) :=
    allWritten_append.mpr ⟨hbefore, hnode.notes⟩
  refine (reads_skip _).accepts.bind fun _ _ => .ite (.pure ⟨nofun, hnotes⟩) ?_
  have hparam : ∀ {name dimensions variadic}, ∀ p ∈ some (Param.mk name node.type dimensions
      variadic), p.type.Written source := by
    rintro name dimensions variadic p ⟨⟩
    exact hnode.type
  refine (reads_skip _).accepts.bind fun _ _ => .ite ?_ ?_
  · refine (reads_marks hr).bind fun more hmore => ?_
    refine reads_identifier.bind fun _ _ => ?_
    refine (reads_dimensionNotes hr).bind fun ⟨_, dimNotes⟩ hdim => ?_
    exact .pure ⟨hparam, by simp [hbefore, hnode.notes, hmore, hdim]⟩
  · refine reads_identifier.bind fun _ _ => ?_
    refine (reads_at? _).bind fun _ _ => .ite ?_ ?_
    · refine ((reads_skip _).bind fun _ _ => reads_identifier).many.bind fun _ _ => ?_
      refine (reads_skip _).bind fun _ _ => ?_
      refine (reads_skip _).bind fun _ _ => ?_
      exact .pure ⟨nofun, hnotes⟩
    · refine (reads_dimensionNotes hr).bind fun ⟨_, dimNotes⟩ hdim => ?_
      exact .pure ⟨hparam, by simp [hbefore, hnode.notes, hdim]⟩

/-- The parameters that bind something have written types. -/
theorem reads_parameters (hr : r.Sound source) :
    Reads (tokenize source)
      (fun x => (∀ p ∈ x.1, p.type.Written source) ∧ AllWritten source x.2) (parameters r) := by
  refine (reads_skip _).bind fun _ _ => ?_
  refine ((reads_parameter hr).separated ",").bind fun ps hps => ?_
  refine (reads_skip _).bind fun _ _ => ?_
  refine .pure ⟨?_, allWritten_flatMap.mpr fun p hp => (hps p hp).2⟩
  intro p hp
  obtain ⟨x, hx, heq⟩ := List.mem_filterMap.mp hp
  exact (hps x hx).1 p heq

/-- Of the parameters of a lambda, only the values in their annotations are kept. -/
theorem reads_lambdaParameters (hr : r.Sound source) :
    Reads (tokenize source) (AllWritten source) (lambdaParameters r) := by
  refine .orElse ?_ (.orElse ?_ ?_)
  · exact reads_identifier.bind fun _ _ => .pure allWritten_nil
  · refine (reads_skip _).bind fun _ _ => ?_
    refine (reads_identifier.separated ",").bind fun _ _ => ?_
    refine (reads_skip _).bind fun _ _ => ?_
    exact .pure allWritten_nil
  · exact (reads_parameters hr).bind fun _ h => .pure h.2

/-- A lambda leaves its body behind the values in its parameters. -/
theorem reads_lambda (hr : r.Sound source) :
    Reads (tokenize source) (Code.Written source) (lambda r) := by
  have hblock : Reads (tokenize source) (Code.Written source) (do return .group (← block r)) :=
    (reads_block hr).bind fun _ hstatements => .pure (Code.written_group.mpr hstatements)
  refine (reads_lambdaParameters hr).bind fun _ hnotes => ?_
  refine (reads_skip _).bind fun _ _ => ?_
  refine (hblock.orElse hr.expression).bind fun _ hbody => ?_
  exact .pure (by simp [hnotes, hbody])

/-- The look ahead for a lambda takes nothing. -/
theorem reads_beginsLambda {all : List Token} : Reads all (fun _ => True) beginsLambda := by
  refine reads_get.bind fun ts _ => ?_
  cases ts with
  | nil => exact .pure trivial
  | cons t rest => exact .ite (.pure trivial) (.pure trivial)

/-- The look ahead behind a parenthesis takes nothing. -/
theorem reads_castFollows {all : List Token} (type : TypeExpr) :
    Reads all (fun _ => True) (castFollows type) := by
  refine reads_get.bind fun ts _ => ?_
  cases ts with
  | nil => exact .pure trivial
  | cons t rest =>
    refine .ite (.pure trivial) (.ite (.pure trivial) (.ite ?_ (.pure trivial)))
    cases type <;> exact .pure trivial

/-- A cast leaves its value, not its type. -/
theorem reads_cast (hr : r.Sound source) :
    Reads (tokenize source) (Code.Written source) (cast r) := by
  refine (reads_skip _).bind fun _ _ => ?_
  refine (hr.type.separated1 "&").bind fun types htypes => ?_
  refine (reads_skip _).bind fun _ _ => ?_
  refine (reads_castFollows _).bind fun _ _ => .ite ?_ .failure
  have hnotes : AllWritten source (types.flatMap (·.notes)) :=
    allWritten_flatMap.mpr fun node hnode => (htypes node hnode).notes
  exact hr.operand.bind fun _ hvalue => .pure (by simp [hnotes, hvalue])

theorem reads_parenthesized (hr : r.Sound source) :
    Reads (tokenize source) (Code.Written source) (parenthesized r) := by
  refine (reads_skip _).bind fun _ _ => ?_
  refine hr.expression.bind fun _ he => ?_
  refine (reads_skip _).bind fun _ _ => ?_
  exact .pure (by simp [he])

/-- A type in an expression leaves the values in its annotations only. A name without arguments
and brackets has to be that of a primitive type, or the rule fails. -/
theorem reads_typeLiteral (hr : r.Sound source) :
    Reads (tokenize source) (Code.Written source) (typeLiteral r) := by
  refine (reads_plainType hr).bind fun node hnode => ?_
  have hgroup : (Code.group node.notes).Written source := Code.written_group.mpr hnode.notes
  have hend : Reads (tokenize source) (Code.Written source) (do
      if ← at? "::" then return .group node.notes
      skip "."
      skip "class"
      return .group node.notes) := by
    refine (reads_at? _).bind fun _ _ => .ite (.pure hgroup) ?_
    refine (reads_skip _).bind fun _ _ => ?_
    refine (reads_skip _).bind fun _ _ => ?_
    exact .pure hgroup
  have hnone : Reads (tokenize source) (Code.Written source)
      ((failure : Parser Unit) >>= fun _ => do
        if ← at? "::" then return .group node.notes
        skip "."
        skip "class"
        return .group node.notes) :=
    (Reads.failure (P := fun _ => True)).bind fun _ _ => hend
  cases node.type with
  | simple name => exact .ite hend hnone
  | «scoped» name => exact .ite hend hnone
  | void | generic | array | unbounded | bounded => exact hend

theorem reads_patternName {all : List Token} : Reads all (fun _ => True) patternName :=
  (reads_takeIf _).bind fun _ _ => .pure trivial

theorem reads_typePattern (hr : r.Sound source) :
    Reads (tokenize source) (AllWritten source) (typePattern r) := by
  refine (reads_modifiers hr).bind fun _ hnotes => ?_
  refine (reads_plainType hr).bind fun _ hnode => ?_
  refine reads_patternName.bind fun _ _ => ?_
  exact .pure (allWritten_append.mpr ⟨hnotes, hnode.notes⟩)

/-- A record pattern leaves the values in the annotations of all its types. -/
theorem reads_recordPatternRule (hr : r.Sound source) :
    Reads (tokenize source) (AllWritten source) (recordPatternRule r) := by
  have hpart : Reads (tokenize source) (AllWritten source)
      (r.recordPattern <|> typePattern r <|> (do skip "_"; return [])) :=
    .orElse hr.recordPattern <| .orElse (reads_typePattern hr) <|
      (reads_skip _).bind fun _ _ => .pure allWritten_nil
  refine (reads_plainType hr).bind fun _ hnode => ?_
  refine (reads_skip _).bind fun _ _ => ?_
  refine (hpart.separated ",").bind fun _ hparts => ?_
  refine (reads_skip _).bind fun _ _ => ?_
  refine reads_patternName.accepts.bind fun _ _ => ?_
  exact .pure (allWritten_append.mpr ⟨hnode.notes, allWritten_flatten.mpr hparts⟩)

/-- What is only read where a case goes on is read as it is. -/
theorem reads_inCase {α : Type} {all : List Token} {P : α → Prop} {p : Parser α}
    (hp : Reads all P p) : Reads all P (inCase p) := by
  refine hp.bind fun _ ha => ?_
  refine reads_peek.bind fun _ _ => ?_
  exact .ite (.pure ha) .failure

/-- A label leaves its constants and patterns and the guard behind them. -/
theorem reads_switchLabel (hr : r.Sound source) :
    Reads (tokenize source) (AllWritten source) (switchLabel r) := by
  have hdefault : Reads (tokenize source) (AllWritten source) (do skip "default"; return []) :=
    (reads_skip _).bind fun _ _ => .pure allWritten_nil
  have hsingle : Reads (tokenize source) (AllWritten source) (do return [← r.caseExpression]) :=
    hr.caseExpression.bind fun _ he => .pure (by simp [he])
  have hitem := hdefault.orElse <| (reads_inCase hr.recordPattern).orElse <|
    (reads_inCase (reads_typePattern hr)).orElse hsingle
  have hguard := ((reads_skip "when").bind fun _ _ => hr.caseExpression).optionally
  refine Reads.bind (P := AllWritten source) (hdefault.orElse ?_) fun _ hparts => ?_
  · refine (reads_skip _).bind fun _ _ => ?_
    refine (hitem.separated1 ",").bind fun _ hitems => ?_
    refine hguard.bind fun _ hguard => ?_
    exact .pure (allWritten_append.mpr
      ⟨allWritten_flatten.mpr hitems, allWritten_toList.mpr hguard⟩)
  · refine ((reads_skip _).orElse (reads_skip _)).bind fun _ _ => ?_
    exact .pure hparts

/-- A switch leaves its value and, one after the other, its labels and statements. -/
theorem reads_switchRule (hr : r.Sound source) :
    Reads (tokenize source) (Code.Written source) (switchRule r) := by
  have hpart : Reads (tokenize source) (AllWritten source)
      (switchLabel r <|> (do return (← recovering r.statement).toList)) :=
    .orElse (reads_switchLabel hr) <|
      hr.statement.recovering.bind fun _ h => .pure (allWritten_toList.mpr h)
  refine (reads_skip _).bind fun _ _ => ?_
  refine (reads_skip _).bind fun _ _ => ?_
  refine hr.expression.bind fun _ hvalue => ?_
  refine (reads_skip _).bind fun _ _ => ?_
  refine (reads_skip _).bind fun _ _ => ?_
  refine hpart.many.bind fun _ hparts => ?_
  refine (reads_skip _).bind fun _ _ => ?_
  exact .pure (by simp [hvalue, allWritten_flatten.mpr hparts])

/-- An operator leaves nothing, whether it is one token or several that touch. -/
theorem reads_binaryOperator {all : List Token} : Reads all (fun _ => True) binaryOperator := by
  refine .orElse ((reads_takeIf _).bind fun _ _ => .pure trivial) ?_
  refine (reads_skip _).bind fun _ _ => ?_
  refine (reads_adjacent _).accepts.bind fun _ _ => .ite (.pure trivial) ?_
  have hshift : Reads all (fun _ => True) (do adjacent ">"; optionally (adjacent ">")) :=
    (reads_adjacent _).bind fun _ _ => (reads_adjacent _).optionally.mono fun _ _ => trivial
  refine hshift.optionally.bind fun _ _ => ?_
  refine (reads_adjacent _).accepts.bind fun _ _ => ?_
  exact .ite .failure (.pure trivial)

theorem reads_assignmentOperator {all : List Token} :
    Reads all (fun _ => True) assignmentOperator := by
  refine .orElse ((reads_takeIf _).bind fun _ _ => .pure trivial) ?_
  refine (reads_skip _).bind fun _ _ => ?_
  refine (reads_adjacent _).bind fun _ _ => ?_
  refine (reads_adjacent _).optionally.bind fun _ _ => ?_
  exact reads_adjacent _

/-- A name with or without arguments. -/
theorem reads_nameOrCall (hr : r.Sound source) :
    Reads (tokenize source) (Code.Written source) (do
      let name ← identifier
      if ← at? "(" then return .invoke name.text (← arguments r)
      return .name name.text) := by
  refine reads_identifier.bind fun _ hname => ?_
  refine (reads_at? _).bind fun _ _ => .ite ?_ ?_
  · exact (reads_arguments hr).bind fun _ hargs => .pure (Code.written_invoke.mpr hargs)
  · exact .pure (Code.written_name.mpr (typeName_of_word hname.1 hname.2))

/-- The first token decides what an operand is read as. Everything but a lambda is read in the
same way whether or not a lambda may stand there. -/
theorem reads_primary (hr : r.Sound source) (arrows : Bool) :
    Reads (tokenize source) (Code.Written source) (primary r arrows) := by
  have hempty : (Code.group []).Written source := by simp
  have hplain : Reads (tokenize source) (Code.Written source) (primary r false) := by
    refine reads_peek.bind fun next _ => ?_
    cases next with
    | none => exact .failure
    | some t =>
      refine .ite ((reads_skip _).bind fun _ _ => .pure hempty) ?_
      refine .ite ((reads_skip _).bind fun _ _ => .pure Code.written_this) ?_
      refine .ite ((reads_skip _).bind fun _ _ => .pure hempty) ?_
      refine .ite (reads_creation hr allWritten_nil) ?_
      refine .ite ((reads_cast hr).orElse (reads_parenthesized hr)) ?_
      exact .ite (reads_switchRule hr) ((reads_typeLiteral hr).orElse (reads_nameOrCall hr))
  cases arrows with
  | false => exact hplain
  | true =>
    -- a lambda is tried first, and everything else comes after it
    refine reads_beginsLambda.bind fun _ _ => .ite ?_ hplain
    refine (reads_lambda hr).optionally.bind fun found hfound => ?_
    cases found with
    | none => exact hplain
    | some e => exact .pure (hfound e rfl)

/-- What follows a dot is a member of what stands before it, a call of it, or something that is
made inside it. -/
theorem reads_afterDot (hr : r.Sound source) {e : Code} (he : e.Written source) :
    Reads (tokenize source) (Code.Written source) (afterDot r e) := by
  have hgroup : (Code.group [e]).Written source := by simp [he]
  have hmember : ∀ {x}, (Code.access e x).Written source := Code.written_access.mpr he
  have hcall : ∀ {notes x}, AllWritten source notes →
      Reads (tokenize source) (Code.Written source) (do
        return .call e notes x (← arguments r)) :=
    fun hnotes => (reads_arguments hr).bind fun _ hargs =>
      .pure (Code.written_call.mpr ⟨he, hnotes, hargs⟩)
  refine .orElse ((reads_skip _).bind fun _ _ => .pure (by simp)) ?_
  refine .orElse (reads_creation hr (by simp [he])) ?_
  refine .orElse ((reads_skip _).bind fun _ _ => .pure hmember) ?_
  refine .orElse ?_ (.orElse ?_ (.orElse ?_ ?_))
  · -- a member of a supertype
    refine (reads_skip _).bind fun _ _ => ?_
    refine (reads_at? _).bind fun _ _ => .ite (.pure hgroup) ?_
    refine (reads_skip _).bind fun _ _ => ?_
    refine (reads_typeArgumentNotes hr).bind fun _ hnotes => ?_
    refine reads_identifier.bind fun _ _ => ?_
    exact (reads_at? _).bind fun _ _ => .ite (hcall hnotes) (.pure hmember)
  · refine (reads_typeArguments hr).bind fun _ h => ?_
    exact reads_identifier.bind fun _ _ => hcall h.2
  · refine reads_identifier.bind fun _ _ => ?_
    exact (reads_at? _).bind fun _ _ => .ite (hcall allWritten_nil) (.pure hmember)
  · exact (reads_takeIf _).bind fun _ _ => .pure hgroup

/-- One more thing behind an operand keeps the operand as a part. -/
theorem reads_suffix (hr : r.Sound source) {e : Code} (he : e.Written source) :
    Reads (tokenize source) (Code.Written source) (suffix r e) := by
  refine .orElse ?_ (.orElse ?_ (.orElse ?_ ?_))
  · exact (reads_skip _).bind fun _ _ => reads_afterDot hr he
  · refine (reads_skip _).bind fun _ _ => ?_
    refine hr.expression.bind fun _ hi => ?_
    refine (reads_skip _).bind fun _ _ => ?_
    exact .pure (by simp [he, hi])
  · refine ((reads_skip _).orElse (reads_skip _)).bind fun _ _ => ?_
    exact .pure (by simp [he])
  · have hname : Reads (tokenize source) (fun _ => True)
        (skip "new" <|> (do let _ ← identifier)) :=
      .orElse (reads_skip _) (reads_identifier.bind fun _ _ => .pure trivial)
    refine (reads_skip _).bind fun _ _ => ?_
    refine (reads_typeArgumentNotes hr).bind fun _ hnotes => ?_
    refine hname.bind fun _ _ => ?_
    exact .pure (by simp [he, hnotes])

/-- The operand grows with each thing behind it and stays written. -/
theorem reads_suffixes (hr : r.Sound source) (fuel : Nat) : ∀ {e : Code}, e.Written source →
    Reads (tokenize source) (Code.Written source) (suffixes r fuel e) := by
  induction fuel with
  | zero => exact fun he => .pure he
  | succ fuel ih =>
    intro e he
    refine (reads_suffix hr he).optionally.bind fun found hfound => ?_
    cases found with
    | none => exact .pure he
    | some longer => exact ih (hfound longer rfl)

/-- Signs before an operand put it into a group. -/
theorem reads_signed (hr : r.Sound source) (arrows : Bool) :
    Reads (tokenize source) (Code.Written source) (signed r arrows) := by
  refine (reads_takeIf _).many.bind fun before _ => ?_
  refine (reads_primary hr arrows).bind fun e he => ?_
  refine reads_get.bind fun ts _ => ?_
  refine (reads_suffixes hr ts.length he).bind fun e he => .pure ?_
  split
  · exact he
  · simpa using he

/-- Of a test for a type, the values in annotations are kept. -/
theorem reads_instanceTest (hr : r.Sound source) :
    Reads (tokenize source) (AllWritten source) (instanceTest r) := by
  refine (reads_skip _).bind fun _ _ => ?_
  refine (reads_modifiers hr).bind fun ⟨_, _⟩ hnotes => ?_
  refine .orElse ?_ ?_
  · refine hr.recordPattern.bind fun _ hpattern => ?_
    exact .pure (allWritten_append.mpr ⟨hnotes, hpattern⟩)
  · refine (reads_plainType hr).bind fun _ hnode => ?_
    refine reads_patternName.accepts.bind fun _ _ => ?_
    exact .pure (allWritten_append.mpr ⟨hnotes, hnode.notes⟩)

/-- A single operand stays what it is; several are grouped. -/
theorem reads_chain (hr : r.Sound source) (arrows : Bool) :
    Reads (tokenize source) (Code.Written source) (chain r arrows) := by
  have hoperand : Reads (tokenize source) (AllWritten source) (do
      binaryOperator
      return [← signed r arrows]) :=
    reads_binaryOperator.bind fun _ _ => (reads_signed hr arrows).bind fun _ he =>
      .pure (by simp [he])
  refine (reads_signed hr arrows).bind fun first hfirst => ?_
  refine (hoperand.orElse (reads_instanceTest hr)).many.bind fun more hmore => .pure ?_
  split
  · exact hfirst
  · simp [hfirst, allWritten_flatten.mpr hmore]

/-- A choice and an assignment are told apart by what follows the first operand. A target that is
a bare name keeps that name. -/
theorem reads_expressionRule (hr : r.Sound source) :
    Reads (tokenize source) (Code.Written source) (expressionRule r) := by
  refine (reads_chain hr true).bind fun first hfirst => ?_
  refine (reads_skip _).accepts.bind fun _ _ => .ite ?_ ?_
  · refine hr.expression.bind fun _ hyes => ?_
    refine (reads_skip _).bind fun _ _ => ?_
    refine hr.expression.bind fun _ hno => ?_
    exact .pure (by simp [hfirst, hyes, hno])
  · refine reads_assignmentOperator.accepts.bind fun _ _ => .ite ?_ (.pure hfirst)
    refine hr.expression.bind fun _ hvalue => ?_
    exact .pure (Code.written_assign.mpr ⟨hfirst, hvalue⟩)

/-! ## Statements -/

/-- A declared variable with its brackets and its value. -/
theorem reads_declarator (hr : r.Sound source) :
    Reads (tokenize source) (Declarator.Written source) (declarator r) := by
  refine reads_identifier.bind fun _ _ => ?_
  refine (reads_dimensionNotes hr).bind fun ⟨_, _⟩ hnotes => ?_
  refine ((reads_skip _).bind fun _ _ => hr.value).optionally.bind fun _ hvalue => ?_
  exact .pure ⟨hnotes, hvalue⟩

/-- Local variables have the written type before them, and the annotations of both it and the
modifiers. -/
theorem reads_localVariables (hr : r.Sound source) :
    Reads (tokenize source) (Code.Written source) (localVariables r) := by
  refine (reads_modifiers hr).bind fun ⟨_, _⟩ hnotes => ?_
  refine (reads_plainType hr).bind fun _ hnode => ?_
  refine ((reads_declarator hr).separated1 ",").bind fun _ hdeclarators => ?_
  refine (reads_skip _).bind fun _ _ => ?_
  have hallNotes := allWritten_append.mpr ⟨hnotes, hnode.notes⟩
  exact .pure (Code.written_locals.mpr ⟨hnode.type, hallNotes, hdeclarators⟩)

/-- A condition is what stands in the parentheses. -/
theorem reads_condition (hr : r.Sound source) :
    Reads (tokenize source) (Code.Written source) (condition r) := by
  refine (reads_skip _).bind fun _ _ => ?_
  refine hr.expression.bind fun _ he => ?_
  refine (reads_skip _).bind fun _ _ => ?_
  exact .pure he

/-- Both branches are kept, also where there is only one. -/
theorem reads_ifStatement (hr : r.Sound source) :
    Reads (tokenize source) (Code.Written source) (ifStatement r) := by
  refine (reads_skip _).bind fun _ _ => ?_
  refine (reads_condition hr).bind fun _ htest => ?_
  refine hr.statement.bind fun _ hyes => ?_
  refine ((reads_skip _).bind fun _ _ => hr.statement).optionally.bind fun _ hno => ?_
  exact .pure (by simp [htest, hyes, allWritten_toList.mpr hno])

theorem reads_whileStatement (hr : r.Sound source) :
    Reads (tokenize source) (Code.Written source) (whileStatement r) := by
  refine (reads_skip _).bind fun _ _ => ?_
  refine (reads_condition hr).bind fun _ htest => ?_
  refine hr.statement.bind fun _ hbody => ?_
  exact .pure (by simp [htest, hbody])

theorem reads_doStatement (hr : r.Sound source) :
    Reads (tokenize source) (Code.Written source) (doStatement r) := by
  refine (reads_skip _).bind fun _ _ => ?_
  refine hr.statement.bind fun _ hbody => ?_
  refine (reads_skip _).bind fun _ _ => ?_
  refine (reads_condition hr).bind fun _ htest => ?_
  refine (reads_skip _).bind fun _ _ => ?_
  exact .pure (by simp [htest, hbody])

/-- The variable of a loop over values has a written type. -/
theorem reads_forEachStatement (hr : r.Sound source) :
    Reads (tokenize source) (Code.Written source) (forEachStatement r) := by
  refine (reads_skip _).bind fun _ _ => ?_
  refine (reads_skip _).bind fun _ _ => ?_
  refine (reads_modifiers hr).bind fun ⟨_, _⟩ hnotes => ?_
  refine (reads_plainType hr).bind fun _ hnode => ?_
  refine reads_identifier.bind fun _ _ => ?_
  refine (reads_dimensionNotes hr).bind fun ⟨_, _⟩ hdim => ?_
  refine (reads_skip _).bind fun _ _ => ?_
  refine hr.expression.bind fun _ hvalues => ?_
  refine (reads_skip _).bind fun _ _ => ?_
  refine hr.statement.bind fun _ hbody => ?_
  exact .pure (by simp [hnotes, hnode.type, hnode.notes, hdim, hvalues, hbody])

/-- The start of a loop declares variables or is a list of expressions. -/
theorem reads_forStatement (hr : r.Sound source) :
    Reads (tokenize source) (Code.Written source) (forStatement r) := by
  have hstart : Reads (tokenize source) (AllWritten source)
      ((do return [← localVariables r]) <|> (do
        let es ← separated "," r.expression
        skip ";"
        return es)) :=
    .orElse ((reads_localVariables hr).bind fun _ h => .pure (by simp [h])) <|
      (hr.expression.separated ",").bind fun _ hes => (reads_skip _).bind fun _ _ => .pure hes
  refine (reads_skip _).bind fun _ _ => ?_
  refine (reads_skip _).bind fun _ _ => ?_
  refine hstart.bind fun _ hstart => ?_
  refine hr.expression.optionally.bind fun _ htest => ?_
  refine (reads_skip _).bind fun _ _ => ?_
  refine (hr.expression.separated ",").bind fun _ (hsteps : AllWritten source _) => ?_
  refine (reads_skip _).bind fun _ _ => ?_
  refine hr.statement.bind fun _ hbody => ?_
  exact .pure (by simp [hstart, allWritten_toList.mpr htest, hsteps, hbody])

/-- A resource is a variable, of which the value is kept, or an expression. -/
theorem reads_resource (hr : r.Sound source) :
    Reads (tokenize source) (AllWritten source) (resource r) := by
  refine .orElse ?_ ?_
  · refine (reads_modifiers hr).bind fun ⟨_, _⟩ hnotes => ?_
    refine (reads_plainType hr).bind fun _ hnode => ?_
    refine reads_identifier.bind fun _ _ => ?_
    refine (reads_dimensionNotes hr).bind fun ⟨_, _⟩ hdim => ?_
    refine (reads_skip _).bind fun _ _ => ?_
    refine hr.expression.bind fun _ hvalue => ?_
    exact .pure (by simp [hnotes, hnode.notes, hdim, hvalue])
  · exact hr.expression.bind fun _ he => .pure (by simp [he])

theorem reads_resources (hr : r.Sound source) :
    Reads (tokenize source) (AllWritten source) (resources r) := by
  refine (reads_skip _).bind fun _ _ => ?_
  refine ((reads_resource hr).separated1 ";").bind fun _ hresources => ?_
  refine (reads_skip _).accepts.bind fun _ _ => ?_
  refine (reads_skip _).bind fun _ _ => ?_
  exact .pure (allWritten_flatten.mpr hresources)

/-- Of what is caught, only the values in annotations are kept. -/
theorem reads_catchClause (hr : r.Sound source) :
    Reads (tokenize source) (AllWritten source) (catchClause r) := by
  refine (reads_skip _).bind fun _ _ => ?_
  refine (reads_skip _).bind fun _ _ => ?_
  refine (reads_modifiers hr).bind fun ⟨_, _⟩ hnotes => ?_
  refine ((reads_plainType hr).separated1 "|").bind fun types htypes => ?_
  refine reads_identifier.bind fun _ _ => ?_
  refine (reads_dimensionNotes hr).bind fun ⟨_, _⟩ hdim => ?_
  refine (reads_skip _).bind fun _ _ => ?_
  refine (reads_block hr).bind fun _ hbody => .pure ?_
  have htypeNotes : AllWritten source (types.flatMap (·.notes)) :=
    allWritten_flatMap.mpr fun node hnode => (htypes node hnode).notes
  simp [hnotes, htypeNotes, hdim, hbody]

/-- All blocks of a guarded statement are kept, in their order. -/
theorem reads_tryStatement (hr : r.Sound source) :
    Reads (tokenize source) (Code.Written source) (tryStatement r) := by
  refine (reads_skip _).bind fun _ _ => ?_
  refine ((reads_resources hr).orDefault allWritten_nil).bind fun _ hopened => ?_
  refine (reads_block hr).bind fun _ hbody => ?_
  refine (reads_catchClause hr).many.bind fun _ hhandlers => ?_
  have hfinally := ((reads_skip "finally").bind fun _ _ => reads_block hr).orDefault allWritten_nil
  refine hfinally.bind fun _ hlast => ?_
  exact .pure (by simp [hopened, hbody, allWritten_flatten.mpr hhandlers, hlast])

/-- A jump keeps the value that it gives, if any. -/
theorem reads_jump (hr : r.Sound source) (keyword : String) :
    Reads (tokenize source) (Code.Written source) (jump r keyword) := by
  refine (reads_skip _).bind fun _ _ => ?_
  refine hr.expression.optionally.bind fun _ hvalue => ?_
  refine (reads_skip _).bind fun _ _ => ?_
  exact .pure (Code.written_group.mpr (allWritten_toList.mpr hvalue))

theorem reads_synchronizedStatement (hr : r.Sound source) :
    Reads (tokenize source) (Code.Written source) (synchronizedStatement r) := by
  refine (reads_skip _).bind fun _ _ => ?_
  refine (reads_condition hr).bind fun _ hlock => ?_
  refine (reads_block hr).bind fun _ hbody => ?_
  exact .pure (by simp [hlock, hbody])

theorem reads_assertStatement (hr : r.Sound source) :
    Reads (tokenize source) (Code.Written source) (assertStatement r) := by
  refine (reads_skip _).bind fun _ _ => ?_
  refine hr.expression.bind fun _ htest => ?_
  refine ((reads_skip _).bind fun _ _ => hr.expression).optionally.bind fun _ hmessage => ?_
  refine (reads_skip _).bind fun _ _ => ?_
  exact .pure (by simp [htest, allWritten_toList.mpr hmessage])

/-- A label is dropped. -/
theorem reads_labeledStatement (hr : r.Sound source) :
    Reads (tokenize source) (Code.Written source) (labeledStatement r) := by
  refine reads_identifier.bind fun _ _ => ?_
  refine (reads_skip _).bind fun _ _ => ?_
  exact hr.statement

theorem reads_expressionStatement (hr : r.Sound source) :
    Reads (tokenize source) (Code.Written source) (expressionStatement r) := by
  refine hr.expression.bind fun _ he => ?_
  refine (reads_skip _).bind fun _ _ => ?_
  exact .pure (by simp [he])

/-- A jump without a value leaves nothing. -/
theorem reads_leave (keyword : String) :
    Reads (tokenize source) (Code.Written source) (leave keyword) := by
  refine (reads_skip _).bind fun _ _ => ?_
  refine reads_identifier.optionally.bind fun _ _ => ?_
  refine (reads_skip _).bind fun _ _ => ?_
  exact .pure (by simp)

/-- The declaration of an annotation is skipped as a whole. -/
theorem reads_markDeclaration (hr : r.Sound source) :
    Reads (tokenize source) (fun _ => True) (markDeclaration r) := by
  refine (reads_modifiers hr).bind fun _ _ => ?_
  refine (reads_skip _).bind fun _ _ => ?_
  refine (reads_skip _).bind fun _ _ => ?_
  refine reads_identifier.bind fun _ _ => ?_
  exact reads_skipBalanced _

/-- A statement that no keyword tells is tried as one kind after the other. -/
theorem reads_plainStatement (hr : r.Sound source) :
    Reads (tokenize source) (Code.Written source) (plainStatement r) := by
  refine .orElse (hr.declaration.bind fun _ _ => .pure Code.written_declare) ?_
  refine .orElse ((reads_markDeclaration hr).bind fun _ _ => .pure (by simp)) ?_
  refine .orElse (reads_localVariables hr) ?_
  refine .orElse (reads_labeledStatement hr) ?_
  exact .orElse (reads_expressionStatement hr) (reads_jump hr "yield")

/-- All rules that are chosen by a keyword read written code. -/
theorem reads_of_mem_statementRules (hr : r.Sound source) {rule : String × Parser Code}
    (h : rule ∈ statementRules r) : Reads (tokenize source) (Code.Written source) rule.2 := by
  simp only [statementRules, List.mem_cons, List.not_mem_nil, or_false] at h
  rcases h with rfl | rfl | rfl | rfl | rfl | rfl | rfl | rfl | rfl | rfl | rfl | rfl | rfl | rfl
  · exact (reads_block hr).bind fun _ hblock => .pure (Code.written_group.mpr hblock)
  · exact (reads_skip _).bind fun _ _ => .pure (by simp)
  · exact reads_ifStatement hr
  · exact reads_whileStatement hr
  · exact reads_doStatement hr
  · exact (reads_forEachStatement hr).orElse (reads_forStatement hr)
  · exact reads_tryStatement hr
  · exact reads_switchRule hr
  · exact reads_synchronizedStatement hr
  · exact reads_assertStatement hr
  · exact reads_jump hr "return"
  · exact reads_jump hr "throw"
  · exact reads_leave "break"
  · exact reads_leave "continue"

/-- A statement is read by the rule of its first word, and by the plain rule where that one
fails. -/
theorem reads_statementRule (hr : r.Sound source) :
    Reads (tokenize source) (Code.Written source) (statementRule r) := by
  refine reads_peek.bind fun next _ => ?_
  cases hrule : next.bind fun t => (statementRules r).lookup t.text with
  | none => exact reads_plainStatement hr
  | some rule =>
    obtain ⟨t, -, hlookup⟩ := Option.bind_eq_some_iff.mp hrule
    obtain ⟨before, after, hrules, -⟩ := List.lookup_eq_some_iff.mp hlookup
    have hmem : (t.text, rule) ∈ statementRules r :=
      hrules ▸ List.mem_append_right _ (List.mem_cons_self ..)
    exact (reads_of_mem_statementRules hr hmem).orElse (reads_plainStatement hr)

end ClassDiagram.Java
