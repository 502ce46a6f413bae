import ClassDiagram.Java.Grammar
import ClassDiagram.Proofs.WrittenCode

/-!
# Source files as they are written

What the rules for members and types read is written in the source, as it is with code.
Nesting is bounded, so this holds of the rules of any depth (`sound_ofDepth`), and with them of
the types of a whole file (`written_of_mem_types`).
-/

namespace ClassDiagram.Java

open ClassDiagram.Java.Parser Grammar Lexer

variable {source : String} {r : Rules}

/-! ## Members and types -/

/-- Exceptions that are declared are passed over. -/
theorem reads_throwsClause (hr : r.Sound source) :
    Reads (tokenize source) (fun _ => True) (throwsClause r) := by
  refine (reads_skip _).bind fun _ _ => ?_
  refine (reads_typeList hr).bind fun _ _ => ?_
  exact .pure trivial

/-- A call of another constructor leaves its arguments, behind the outer value and the values in
its type arguments. -/
theorem reads_constructorCall (hr : r.Sound source) :
    Reads (tokenize source) (Code.Written source) (constructorCall r) := by
  refine (reads_typeArgumentNotes hr).bind fun _ htypeArgs => ?_
  refine Reads.bind (P := Code.Written source) (.orElse ?_ ?_) fun _ hcall => ?_
  · -- a call of a constructor of the same class or of its parent
    have hname : Reads (tokenize source) (fun _ => True)
        ((do skip "this"; return true) <|> (do skip "super"; return false)) := by
      refine .orElse ?_ ?_
      · exact (reads_skip _).bind fun _ _ => .pure trivial
      · exact (reads_skip _).bind fun _ _ => .pure trivial
    refine hname.bind fun _ _ => ?_
    refine (reads_arguments hr).bind fun _ hargs => ?_
    exact .pure (Code.written_delegate.mpr ⟨htypeArgs, hargs⟩)
  · -- the same with an outer value
    refine hr.operand.bind fun _ houter => ?_
    refine (reads_skip _).bind fun _ _ => ?_
    refine (reads_typeArgumentNotes hr).bind fun _ hnotes => ?_
    refine (reads_skip _).bind fun _ _ => ?_
    refine (reads_arguments hr).bind fun _ hargs => ?_
    exact .pure (by simp [houter, hnotes, hargs])
  · exact (reads_skip _).bind fun _ _ => .pure hcall

/-- The body of a constructor can begin with a call of another one. -/
theorem reads_constructorBody (hr : r.Sound source) :
    Reads (tokenize source) (AllWritten source) (constructorBody r) := by
  refine (reads_skip _).bind fun _ _ => ?_
  refine (reads_constructorCall hr).optionally.bind fun _ hcall => ?_
  refine hr.statement.recovering.many.bind fun _ hstatements => ?_
  refine (reads_skip _).bind fun _ _ => ?_
  exact .pure (allWritten_append.mpr
    ⟨allWritten_toList.mpr hcall, allWritten_filterMap_id hstatements⟩)

/-- A written member that declares no type. -/
structure Member.WrittenPlain (source : String) (m : Member) : Prop where
  written : m.Written source
  plain : ∀ d, m ≠ .nested d

/-- A constructor has written parameters and a written body, and declares no type. -/
theorem reads_constructorRest (hr : r.Sound source) (ms : List Modifier) :
    Reads (tokenize source) (Member.WrittenPlain source) (constructorRest r ms) := by
  refine reads_identifier.bind fun _ _ => ?_
  refine (reads_parameters hr).bind fun ⟨_, _⟩ hparams => ?_
  refine (reads_throwsClause hr).accepts.bind fun _ _ => ?_
  refine (reads_constructorBody hr).bind fun _ hbody => ?_
  exact .pure ⟨⟨hparams.1, hbody⟩, nofun⟩

/-- So does a method, whose body can be missing. The type before its name is its result. -/
theorem reads_methodRest (hr : r.Sound source) (ms : List Modifier) {type : TypeExpr}
    (htype : type.Written source) (name : String) :
    Reads (tokenize source) (Member.WrittenPlain source) (methodRest r ms type name) := by
  have hbody : Reads (tokenize source)
      (fun body : Option (List Code) => ∀ code ∈ body, AllWritten source code)
      ((do skip ";"; return none) <|> (do return some (← block r))) := by
    refine .orElse ((reads_skip _).bind fun _ _ => .pure nofun) ?_
    refine (reads_block hr).bind fun block hblock => .pure ?_
    intro code hcode
    cases hcode
    exact hblock
  refine (reads_parameters hr).bind fun ⟨_, _⟩ hparams => ?_
  refine (reads_dimensions hr).optionally.bind fun _ _ => ?_
  refine (reads_throwsClause hr).accepts.bind fun _ _ => ?_
  refine hbody.bind fun _ hbody => ?_
  exact .pure ⟨⟨htype, hparams.1, hbody⟩, nofun⟩

/-- Modifiers and type parameters come before the type of a method. -/
theorem reads_methodDeclaration (hr : r.Sound source) :
    Reads (tokenize source) (Member.WrittenPlain source) (methodDeclaration r) := by
  refine (reads_modifiers hr).bind fun ⟨ms, _⟩ _ => ?_
  refine ((reads_typeParameters hr).bind fun _ _ => reads_marks hr).optionally.bind fun _ _ => ?_
  refine (reads_plainType hr).bind fun _ hnode => ?_
  refine reads_identifier.bind fun name _ => ?_
  exact reads_methodRest hr ms hnode.type name.text

/-- The variables of a field share the type before them. -/
theorem reads_fieldDeclaration (hr : r.Sound source) :
    Reads (tokenize source) (Member.WrittenPlain source) (fieldDeclaration r) := by
  refine (reads_modifiers hr).bind fun ⟨_, _⟩ _ => ?_
  refine (reads_plainType hr).bind fun _ hnode => ?_
  refine ((reads_declarator hr).separated1 ",").bind fun _ hdeclarators => ?_
  refine (reads_skip _).bind fun _ _ => ?_
  exact .pure ⟨⟨hnode.type, hdeclarators⟩, nofun⟩

/-- Type parameters of a constructor are passed over. -/
theorem reads_constructorDeclaration (hr : r.Sound source) :
    Reads (tokenize source) (Member.WrittenPlain source) (constructorDeclaration r) := by
  refine (reads_modifiers hr).bind fun ⟨ms, _⟩ _ => ?_
  refine (reads_typeParameters hr).accepts.bind fun _ _ => ?_
  exact reads_constructorRest hr ms

/-- A compact constructor is skipped with its body. -/
theorem reads_compactConstructor (hr : r.Sound source) :
    Reads (tokenize source) (fun _ => True) (compactConstructor r) := by
  refine (reads_modifiers hr).bind fun _ _ => ?_
  refine reads_identifier.bind fun _ _ => ?_
  exact reads_skipBalanced _

/-- A block that stands by itself is skipped. -/
theorem reads_initializerBlock {all : List Token} :
    Reads all (fun _ => True) initializerBlock :=
  (reads_skip _).accepts.bind fun _ _ => reads_skipBalanced _

/-- A member is written if there is one; what is no member leaves nothing. -/
theorem reads_member (hr : r.Sound source) :
    Reads (tokenize source) (fun o => ∀ m ∈ o, m.Written source) (member r) := by
  have hsome : ∀ {p : Parser Member}, Reads (tokenize source) (Member.WrittenPlain source) p →
      Reads (tokenize source) (fun o => ∀ m ∈ o, m.Written source) (do return some (← p)) := by
    intro p hp
    refine hp.bind fun m hm => .pure ?_
    intro m' hm'
    cases hm'
    exact hm.written
  have hnone : ∀ {p : Parser Unit}, Reads (tokenize source) (fun _ => True) p →
      Reads (tokenize source) (fun o : Option Member => ∀ m ∈ o, m.Written source)
        (do p; return none) :=
    fun hp => hp.bind fun _ _ => .pure nofun
  have hnested : Reads (tokenize source) (fun o => ∀ m ∈ o, m.Written source)
      (do return some (Member.nested (← r.declaration))) := by
    refine hr.declaration.bind fun d hd => .pure ?_
    intro m hm
    cases hm
    exact hd
  refine .orElse (hnone (reads_skip _)) ?_
  refine .orElse (hnone reads_initializerBlock) ?_
  refine .orElse hnested ?_
  refine .orElse (hnone (reads_markDeclaration hr)) ?_
  refine .orElse (hsome (reads_constructorDeclaration hr)) ?_
  refine .orElse (hnone (reads_compactConstructor hr)) ?_
  exact .orElse (hsome (reads_methodDeclaration hr)) (hsome (reads_fieldDeclaration hr))

/-- All members of a body are written, and what cannot be read is left out. -/
theorem reads_members (hr : r.Sound source) :
    Reads (tokenize source) (fun ms => ∀ m ∈ ms, m.Written source) (members r) := by
  refine (reads_member hr).recovering.many.bind fun found hfound => .pure ?_
  intro m hm
  obtain ⟨o, ho, hbind⟩ := List.mem_filterMap.mp hm
  obtain ⟨o', rfl, heq⟩ := Option.bind_eq_some_iff.mp hbind
  exact hfound _ ho o' rfl m heq

/-- The body of a class is the members between its braces. -/
theorem reads_classBodyRule (hr : r.Sound source) :
    Reads (tokenize source) (fun ms => ∀ m ∈ ms, m.Written source) (classBodyRule r) := by
  refine (reads_skip _).bind fun _ _ => ?_
  refine (reads_members hr).bind fun _ hms => ?_
  refine (reads_skip _).bind fun _ _ => ?_
  exact .pure hms

/-- Passing over the constants of an enum ends somewhere in what is left of the source. -/
theorem skipConstants_suffix {fuel : Nat} : ∀ {ts rest : List Token},
    skipConstants fuel ts = some rest → rest <:+ ts := by
  induction fuel with
  | zero => intro ts rest h; cases h
  | succ fuel ih =>
    intro ts rest h
    cases ts with
    | nil => cases h
    | cons t ts =>
      rw [skipConstants] at h
      split at h
      · cases h
        exact List.suffix_cons _ _
      · split at h
        · cases h
          exact List.suffix_refl _
        · split at h
          · obtain ⟨next, hnext, hmore⟩ := Option.bind_eq_some_iff.mp h
            exact (ih hmore).trans ((skipToClose_suffix hnext).trans (List.suffix_cons _ _))
          · exact (ih h).trans (List.suffix_cons _ _)

/-- The members of an enum are read from where its constants end. -/
theorem exists_of_enumBody {ts rest : List Token} {ms : List Member}
    (h : enumBody r ts = some (ms, rest)) :
    ∃ next, next <:+ ts ∧ (do
      let ms ← members r
      skip "\x7d"
      return ms) next = some (ms, rest) := by
  obtain ⟨⟨⟩, start, hskip, hconstants⟩ := bind_eq_some_iff.mp h
  obtain ⟨t, -, rfl⟩ := skip_eq_some_iff.mp hskip
  obtain ⟨_, _, hget, hlifted⟩ := bind_eq_some_iff.mp hconstants
  obtain ⟨rfl, rfl⟩ := pure_eq_some_iff.mp hget
  obtain ⟨_, _, hget, hset⟩ := bind_eq_some_iff.mp hlifted
  obtain ⟨rfl, rfl⟩ := pure_eq_some_iff.mp hget
  obtain ⟨next, _, hlift, hmembers⟩ := bind_eq_some_iff.mp hset
  cases hfound : skipConstants (start.length + 1) start with
  | none =>
    rw [hfound] at hlift
    cases hlift
  | some found =>
    rw [hfound] at hlift
    cases hlift
    exact ⟨next, (skipConstants_suffix hfound).trans (List.suffix_cons _ _), hmembers⟩

/-- The members of an enum are written. Its constants are not looked into. -/
theorem reads_enumBody (hr : r.Sound source) :
    Reads (tokenize source) (fun ms => ∀ m ∈ ms, m.Written source) (enumBody r) := by
  refine ⟨?_⟩
  intro ts ms rest hts hread
  obtain ⟨next, hnext, hmembers⟩ := exists_of_enumBody hread
  have htail : Reads (tokenize source) (fun ms => ∀ m ∈ ms, m.Written source) (do
      let ms ← members r
      skip "\x7d"
      return ms) := by
    refine (reads_members hr).bind fun _ hms => ?_
    exact (reads_skip _).bind fun _ _ => .pure hms
  obtain ⟨hrest, hms⟩ := htail.of_read (hnext.trans hts) hmembers
  exact ⟨hrest.trans hnext, hms⟩

/-- The supertypes behind a keyword are written; without the keyword there are none. -/
theorem reads_supertypes (hr : r.Sound source) (keyword : String) (kind : SupertypeKind) :
    Reads (tokenize source) (fun ss => ∀ s ∈ ss, s.2.Written source)
      (supertypes r keyword kind) := by
  refine .orDefault (List.forall_mem_nil _) ?_
  refine (reads_skip _).bind fun _ _ => ?_
  refine (reads_typeList hr).bind fun nodes hnodes => .pure ?_
  exact List.forall_mem_map.mpr fun node hnode => (hnodes node hnode).type

/-- The types that may extend a class are passed over. -/
theorem reads_permits (hr : r.Sound source) :
    Reads (tokenize source) (fun _ => True) (permits r) :=
  ((reads_skip _).bind fun _ _ => reads_typeList hr).optionally.bind fun _ _ => .pure trivial

/-- A declared type is written if its head and its members are. -/
theorem TypeDecl.written_mk {head : TypeHead} {members : List Member}
    (hhead : head.Written source) (hmembers : ∀ m ∈ members, m.Written source) :
    (TypeDecl.mk head members).Written source :=
  ⟨hhead, membersWritten_iff.mpr hmembers⟩

/-- A class has its parent and then its interfaces as supertypes. -/
theorem reads_classDeclaration (hr : r.Sound source) (ms : List Modifier) :
    Reads (tokenize source) (TypeDecl.Written source) (classDeclaration r ms) := by
  refine (reads_skip _).bind fun _ _ => ?_
  refine reads_identifier.bind fun _ hname => ?_
  refine (reads_typeParameters hr).accepts.bind fun _ _ => ?_
  refine (reads_supertypes hr _ _).bind fun _ hparent => ?_
  refine (reads_supertypes hr _ _).bind fun _ hinterfaces => ?_
  refine (reads_permits hr).bind fun _ _ => ?_
  refine hr.classBody.bind fun _ hbody => ?_
  have hsupertypes := List.forall_mem_append.mpr ⟨hparent, hinterfaces⟩
  exact .pure (TypeDecl.written_mk ⟨hname.2, hsupertypes, List.forall_mem_nil _⟩ hbody)

/-- An interface has the interfaces that it extends as supertypes. -/
theorem reads_interfaceDeclaration (hr : r.Sound source) (ms : List Modifier) :
    Reads (tokenize source) (TypeDecl.Written source) (interfaceDeclaration r ms) := by
  refine (reads_skip _).bind fun _ _ => ?_
  refine reads_identifier.bind fun _ hname => ?_
  refine (reads_typeParameters hr).accepts.bind fun _ _ => ?_
  refine (reads_supertypes hr _ _).bind fun _ hparents => ?_
  refine (reads_permits hr).bind fun _ _ => ?_
  refine hr.classBody.bind fun _ hbody => ?_
  exact .pure (TypeDecl.written_mk ⟨hname.2, hparents, List.forall_mem_nil _⟩ hbody)

/-- An enum has only interfaces as supertypes. -/
theorem reads_enumDeclaration (hr : r.Sound source) (ms : List Modifier) :
    Reads (tokenize source) (TypeDecl.Written source) (enumDeclaration r ms) := by
  refine (reads_skip _).bind fun _ _ => ?_
  refine reads_identifier.bind fun _ hname => ?_
  refine (reads_supertypes hr _ _).bind fun _ hinterfaces => ?_
  refine (reads_enumBody hr).bind fun _ hbody => ?_
  exact .pure (TypeDecl.written_mk ⟨hname.2, hinterfaces, List.forall_mem_nil _⟩ hbody)

/-- A record has its components in parentheses, which are read like parameters. -/
theorem reads_recordDeclaration (hr : r.Sound source) (ms : List Modifier) :
    Reads (tokenize source) (TypeDecl.Written source) (recordDeclaration r ms) := by
  refine (reads_skip _).bind fun _ _ => ?_
  refine reads_identifier.bind fun _ hname => ?_
  refine (reads_typeParameters hr).accepts.bind fun _ _ => ?_
  refine (reads_parameters hr).bind fun ⟨_, _⟩ hcomponents => ?_
  refine (reads_supertypes hr _ _).bind fun _ hinterfaces => ?_
  refine hr.classBody.bind fun _ hbody => ?_
  exact .pure (TypeDecl.written_mk ⟨hname.2, hinterfaces, hcomponents.1⟩ hbody)

/-- The word behind the modifiers tells the kind of a declaration. -/
theorem reads_declarationRule (hr : r.Sound source) :
    Reads (tokenize source) (TypeDecl.Written source) (declarationRule r) := by
  refine (reads_modifiers hr).bind fun ⟨ms, _⟩ _ => ?_
  refine .orElse (reads_classDeclaration hr ms) ?_
  refine .orElse (reads_interfaceDeclaration hr ms) ?_
  exact .orElse (reads_enumDeclaration hr ms) (reads_recordDeclaration hr ms)

/-! ## Source files -/

/-- Rules of any depth read only what is written in the source. -/
theorem sound_ofDepth (n : Nat) : (Rules.ofDepth n).Sound source := by
  induction n with
  | zero =>
    exact ⟨.failure, .failure, ⟨nofun⟩, .failure, .failure, .failure, .failure, .failure, .failure,
      .failure, .failure⟩
  | succ n ih =>
    exact {
      type := reads_typeRule ih
      mark := reads_markRule ih
      mark_begins := begins_markRule ih
      value := reads_valueRule ih
      expression := reads_expressionRule ih
      operand := reads_signed ih true
      caseExpression := reads_chain ih false
      recordPattern := reads_recordPatternRule ih
      statement := reads_statementRule ih
      declaration := reads_declarationRule ih
      classBody := reads_classBodyRule ih }

/-- An item at the top level whose type, if it is one, is written in the source. -/
def Grammar.Item.Written (source : String) : Item → Prop
  | .type decl => decl.Written source
  | _ => True

/-- An item at the top level that is no type. -/
def Grammar.Item.IsPlain (i : Item) : Prop :=
  ∀ decl, i ≠ .type decl

/-- What is no type need not be looked into. -/
theorem Grammar.Item.IsPlain.written {i : Item} (h : i.IsPlain) : i.Written source := by
  cases i with
  | type decl => exact absurd rfl (h decl)
  | package | «import» | other => trivial

/-- A package declares no type. -/
theorem reads_packageDeclaration (hr : r.Sound source) :
    Reads (tokenize source) Item.IsPlain (packageDeclaration r) := by
  refine (reads_marks hr).bind fun _ _ => ?_
  refine (reads_skip _).bind fun _ _ => ?_
  refine reads_dottedName.bind fun _ _ => ?_
  refine (reads_skip _).bind fun _ _ => ?_
  exact .pure nofun

/-- Neither does an import, be it of one type or of many. -/
theorem reads_importDeclaration {all : List Token} :
    Reads all Item.IsPlain importDeclaration := by
  refine (reads_skip _).bind fun _ _ => ?_
  refine (reads_skip _).accepts.bind fun _ _ => ?_
  refine reads_dottedName.bind fun _ _ => ?_
  refine ((reads_skip _).bind fun _ _ => reads_skip _).accepts.bind fun _ _ => ?_
  refine (reads_skip _).bind fun _ _ => ?_
  exact .ite (.pure nofun) (.pure nofun)

/-- A module is skipped with its body. -/
theorem reads_moduleDeclaration (hr : r.Sound source) :
    Reads (tokenize source) Item.IsPlain (moduleDeclaration r) := by
  refine (reads_marks hr).bind fun _ _ => ?_
  refine (reads_skip _).accepts.bind fun _ _ => ?_
  refine (reads_skip _).bind fun _ _ => ?_
  refine reads_dottedName.bind fun _ _ => ?_
  refine (reads_skipBalanced _).bind fun _ _ => ?_
  exact .pure nofun

/-- Only declarations leave a type at the top level. Methods and statements are passed over
there. -/
theorem reads_item (hr : r.Sound source) :
    Reads (tokenize source) (Item.Written source) (item r) := by
  have hplain : ∀ {p : Parser Item}, Reads (tokenize source) Item.IsPlain p →
      Reads (tokenize source) (Item.Written source) p :=
    fun hp => hp.mono fun _ h => h.written
  have hother : ∀ {α : Type} {P : α → Prop} {p : Parser α}, Reads (tokenize source) P p →
      Reads (tokenize source) (Item.Written source) (do let _ ← p; return .other) :=
    fun hp => hp.bind fun _ _ => .pure trivial
  refine .orElse (hplain (reads_packageDeclaration hr)) ?_
  refine .orElse (hplain reads_importDeclaration) ?_
  refine .orElse (hplain (reads_moduleDeclaration hr)) ?_
  refine .orElse (hr.declaration.bind fun _ hdecl => .pure hdecl) ?_
  -- what is left is no item, but it is passed over like one
  refine .orElse (hother (reads_markDeclaration hr)) ?_
  exact .orElse (hother (reads_methodDeclaration hr)) (hother hr.statement)

/-- All items of a file are written, and a closing brace too many is passed over. -/
theorem reads_items (hr : r.Sound source) :
    Reads (tokenize source) (fun is => ∀ i ∈ is, i.Written source) (items r) := by
  have hpart : Reads (tokenize source) (fun o => ∀ i ∈ o, i.Written source)
      (recovering (item r) <|> (do skip "\x7d"; return none)) :=
    (reads_item hr).recovering.orElse ((reads_skip _).bind fun _ _ => .pure nofun)
  refine hpart.many.bind fun found hfound => .pure ?_
  intro i hi
  obtain ⟨o, ho, heq⟩ := List.mem_filterMap.mp hi
  exact hfound o ho i heq

/-- The types of a file are written in its source. -/
theorem written_of_mem_types {d : TypeDecl} (h : d ∈ (CompilationUnit.parse source).types) :
    d.Written source := by
  unfold CompilationUnit.parse at h
  dsimp only at h
  split at h
  · next found rest hread =>
    obtain ⟨-, hitems⟩ := (reads_items (sound_ofDepth _)).of_read (List.suffix_refl _) hread
    obtain ⟨i, hi, heq⟩ := List.mem_filterMap.mp h
    cases i with
    | type decl =>
      cases heq
      exact hitems _ hi
    | package | «import» | other => cases heq
  · cases h

end ClassDiagram.Java
