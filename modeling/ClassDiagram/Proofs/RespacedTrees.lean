import ClassDiagram.Java.Grammar
import ClassDiagram.Proofs.RespacedCode

/-!
# Declarations in respaced source

Members and types are compared by what is made of them: two of them are alike if the same
declarations come out, places aside. What the rules for them read of respaced tokens is alike,
and since nesting is bounded this holds of the rules of any depth (`readAlike_ofDepth`).

The two things that are kept as the text they were written as, and never lose their blanks, are
the name of the package and the paths of the imports. Of a whole file, they are alike up to
their blanks, and the types in it are alike under any package and any imports
(`parse_respaced`).
-/

namespace ClassDiagram.Java

open Text ClassDiagram.Java.Parser Grammar

/-! ## Members that are alike, by their form -/

/-- Bodies that are alike have the same facts. -/
theorem AllAlike.factsOf_eq {code code' : List Code} (h : AllAlike code code')
    (params : List Binding) (fields : List String) :
    factsOf params fields (allSightings code) = factsOf params fields (allSightings code') := by
  have hfacts := factsOf_mapTypes_eq TypeView.lawful_unspaced h params fields
  rwa [TypeView.unspaced, BodyFacts.mapTypes_id, BodyFacts.mapTypes_id] at hfacts

namespace Declarator

variable (d : Declarator)

/-- The name of a declared variable has no blanks. -/
theorem name_unspaced : (d.hollow .unspaced).name = d.name := by
  rcases d with ⟨x, n, notes, _ | value⟩ <;> rfl

/-- Nor have the brackets behind it. -/
theorem dimensions_unspaced : (d.hollow .unspaced).dimensions = d.dimensions := by
  rcases d with ⟨x, n, notes, _ | value⟩ <;> rfl

/-- What a variable is first set to can be seen without blanks and nested types. -/
theorem initializer_unspaced : (d.hollow .unspaced).initializer = d.initializer := by
  rcases d with ⟨x, n, notes, _ | value⟩
  · rfl
  · have hcreated : (value.hollow .unspaced).created? = value.created? := by
      have h := value.face.created?_hollow TypeView.lawful_unspaced
      rw [Code.created?_eq, Code.created?_eq, Code.face_hollow]
      simpa [TypeView.unspaced] using h
    have hvalue : (Declarator.hollow .unspaced ⟨x, n, notes, some value⟩).value?
        = some (value.hollow .unspaced) := rfl
    simp only [Declarator.initializer, hvalue, hcreated]
    rfl

end Declarator

/-- The variables of a field become the same fields. -/
theorem fieldDecls_eq {type type' : TypeExpr} {ds ds' : List Declarator} (htype : type.Alike type')
    (hds : List.Forall₂ Declarator.Alike ds ds') (inInterface : Bool) (ms : List Modifier) :
    fieldDecls inInterface ms type ds = fieldDecls inInterface ms type' ds' := by
  rw [fieldDecls, fieldDecls, htype.toTypeRef?_eq]
  split
  · rfl
  · refine map_eq_of_forall₂ hds fun d d' hd => ?_
    rw [← d.name_unspaced, ← d.dimensions_unspaced, ← d.initializer_unspaced, hd,
      d'.name_unspaced, d'.dimensions_unspaced, d'.initializer_unspaced]

namespace Member

variable {ms : List Modifier} {type type' : TypeExpr} {name name' : String}
  {params params' : List Param}

/-- A field only declares fields. -/
theorem alike_field (htype : type.Alike type') {ds ds' : List Declarator}
    (hds : List.Forall₂ Declarator.Alike ds ds') :
    (Member.field ms type ds).Alike (.field ms type' ds') where
  fieldDecls inInterface := fieldDecls_eq htype hds inInterface ms
  constructor? _ _ := rfl
  method? _ _ := rfl
  declarations _ _ := rfl

/-- A constructor is known by what its parameters bind and by the facts about its body. -/
theorem alike_constructor (hname : name = name') (hparams : bindings params = bindings params')
    {body body' : List Code} (hbody : AllAlike body body') :
    (Member.constructor ms name params body).Alike (.constructor ms name' params' body') where
  fieldDecls _ := rfl
  constructor? inInterface fields := by
    rw [constructor?, constructor?, hname, hparams, hbody.factsOf_eq]
  method? _ _ := rfl
  declarations _ _ := rfl

/-- A method is known by its result as well. -/
theorem alike_method (htype : type.Alike type') (hname : name = name')
    (hparams : bindings params = bindings params') {body body' : Option (List Code)}
    (hbody : Option.Rel AllAlike body body') :
    (Member.method ms type name params body).Alike (.method ms type' name' params' body') where
  fieldDecls _ := rfl
  constructor? _ _ := rfl
  method? inInterface fields := by
    simp only [method?, hname, hparams, htype.toTypeRef?_eq]
    cases hbody with
    | none => rfl
    | some h => simp only [h.factsOf_eq, Option.isNone_some]
  declarations _ _ := rfl

/-- A nested type adds its declarations and nothing else. -/
theorem alike_nested {d d' : TypeDecl} (h : d.Alike d') : (Member.nested d).Alike (.nested d') where
  fieldDecls _ := rfl
  constructor? _ _ := rfl
  method? _ _ := rfl
  declarations := h

end Member

/-- What two type declarations say before their bodies, if it is the same but for its place. -/
structure TypeHead.Alike (h h' : TypeHead) : Prop where
  keyword : h.keyword = h'.keyword
  modifiers : h.modifiers = h'.modifiers
  name : h.name = h'.name
  supertypes : List.Forall₂ (fun s s' => s.1 = s'.1 ∧ s.2.Alike s'.2) h.supertypes h'.supertypes
  components : bindings h.components = bindings h'.components

section

variable {head head' : TypeHead} {members members' : List Member}

/-- Two heads that are alike, with members that are alike, make the same declaration up to its
place. -/
theorem TypeHead.declaration_unlocated (hhead : head.Alike head')
    (hmembers : List.Forall₂ Member.Alike members members') (file : FileContext) (name : String) :
    (head.declaration file name members).unlocated
      = (head'.declaration file name members').unlocated := by
  have hkind : head.kind = head'.kind := by
    rw [kind, kind, hhead.keyword, hhead.modifiers]
  have hfields : ∀ inInterface, members.flatMap (Member.fieldDecls inInterface)
      = members'.flatMap (Member.fieldDecls inInterface) := by
    intro inInterface
    rw [List.flatMap_def, List.flatMap_def,
      map_eq_of_forall₂ hmembers fun _ _ hm => hm.fieldDecls inInterface]
  have hconstructors : ∀ inInterface fields,
      members.filterMap (Member.constructor? inInterface fields)
        = members'.filterMap (Member.constructor? inInterface fields) := fun inInterface fields =>
    filterMap_eq_of_forall₂ hmembers fun _ _ hm => hm.constructor? inInterface fields
  have hmethods : ∀ inInterface fields, members.filterMap (Member.method? inInterface fields)
      = members'.filterMap (Member.method? inInterface fields) := fun inInterface fields =>
    filterMap_eq_of_forall₂ hmembers fun _ _ hm => hm.method? inInterface fields
  have hsupertypes : head.supertypes.filterMap
        (fun s => s.2.toTypeRef?.map fun t => (⟨t, s.1⟩ : Supertype))
      = head'.supertypes.filterMap fun s => s.2.toTypeRef?.map fun t => ⟨t, s.1⟩ :=
    filterMap_eq_of_forall₂ hhead.supertypes fun s s' hs => by rw [hs.1, hs.2.toTypeRef?_eq]
  simp only [declaration, ClassDecl.unlocated, hkind, hhead.keyword, hhead.name, hhead.components,
    hfields, hconstructors, hmethods, ClassDecl.mk.injEq, true_and, and_true]
  exact hsupertypes

/-- The types among the members make the same declarations. -/
theorem nestedDeclarations_unlocated (hmembers : List.Forall₂ Member.Alike members members')
    (file : FileContext) (outer : Option String) :
    (nestedDeclarations file outer members).map ClassDecl.unlocated
      = (nestedDeclarations file outer members').map ClassDecl.unlocated := by
  induction hmembers with
  | nil => rfl
  | cons hm _ ih =>
    rw [nestedDeclarations, nestedDeclarations, List.map_append, List.map_append,
      hm.declarations, ih]

/-- A type is alike if its head and its members are. -/
theorem TypeDecl.alike_mk (hhead : head.Alike head')
    (hmembers : List.Forall₂ Member.Alike members members') :
    (TypeDecl.mk head members).Alike (.mk head' members') := by
  intro file outer
  rw [TypeDecl.declarations, TypeDecl.declarations, List.map_cons, List.map_cons, hhead.name,
    TypeHead.declaration_unlocated hhead hmembers, nestedDeclarations_unlocated hmembers]

end

/-! ## Members and types -/

variable {r : Rules}

theorem agree_throwsClause (hr : r.ReadAlike) : Agree Eq (throwsClause r) (throwsClause r) := by
  refine (agree_skip _).seq ?_
  refine (agree_typeList hr).seq ?_
  exact .pure rfl

/-- A call of another constructor is told by its word, behind an outer value if there is one. -/
theorem agree_constructorCall (hr : r.ReadAlike) :
    Agree Code.Alike (constructorCall r) (constructorCall r) := by
  refine (agree_typeArgumentNotes hr).bind fun typeArgs typeArgs' htypeArgs => ?_
  refine Agree.bind (R := Code.Alike) (.orElse ?_ ?_) fun _ _ hcall => ?_
  · -- a call of a constructor of the same class or of its parent
    have hname : Agree Eq ((do skip "this"; return true) <|> (do skip "super"; return false))
        ((do skip "this"; return true) <|> (do skip "super"; return false)) :=
      .orElse ((agree_skip _).seq (.pure rfl)) ((agree_skip _).seq (.pure rfl))
    refine hname.same fun toThis => ?_
    refine (agree_arguments hr).bind fun _ _ hargs => ?_
    exact .pure (.delegate toThis htypeArgs hargs)
  · -- the same with an outer value
    refine hr.operand.bind fun _ _ houter => ?_
    refine (agree_skip _).seq ?_
    refine (agree_typeArgumentNotes hr).bind fun _ _ hnotes => ?_
    refine (agree_skip _).seq ?_
    refine (agree_arguments hr).bind fun _ _ hargs => ?_
    exact .pure (.delegate false (.cons houter hnotes) hargs)
  · exact (agree_skip _).seq (.pure hcall)

/-- A body begins with a call of another constructor in both readings or in none. -/
theorem agree_constructorBody (hr : r.ReadAlike) :
    Agree AllAlike (constructorBody r) (constructorBody r) := by
  refine (agree_skip _).seq ?_
  refine (agree_constructorCall hr).optionally.bind fun _ _ hcall => ?_
  refine (agree_statements hr).bind fun _ _ hstatements => ?_
  refine (agree_skip _).seq ?_
  exact .pure (.append (.toList hcall) hstatements)

/-- A constructor is alike if its parameters and its body are. -/
theorem agree_constructorRest (hr : r.ReadAlike) (ms : List Modifier) :
    Agree Member.Alike (constructorRest r ms) (constructorRest r ms) := by
  refine agree_identifier.bind fun _ _ hname => ?_
  refine (agree_parameters hr).bind fun ⟨_, _⟩ ⟨_, _⟩ hparams => ?_
  refine (agree_throwsClause hr).accepts.seq ?_
  refine (agree_constructorBody hr).bind fun _ _ hbody => ?_
  exact .pure (Member.alike_constructor hname.text_eq hparams.1 hbody)

/-- A method has a body in both readings or in none. -/
theorem agree_methodRest (hr : r.ReadAlike) (ms : List Modifier) {type type' : TypeExpr}
    (htype : type.Alike type') {name name' : String} (hname : name = name') :
    Agree Member.Alike (methodRest r ms type name) (methodRest r ms type' name') := by
  have hbody : Agree (Option.Rel AllAlike)
      ((do skip ";"; return none) <|> (do return some (← block r)))
      ((do skip ";"; return none) <|> (do return some (← block r))) :=
    .orElse ((agree_skip _).seq (.pure .none)) <|
      (agree_block hr).bind fun _ _ hblock => .pure (.some hblock)
  refine (agree_parameters hr).bind fun ⟨_, _⟩ ⟨_, _⟩ hparams => ?_
  refine (agree_dimensions hr).optionally.seq ?_
  refine (agree_throwsClause hr).accepts.seq ?_
  refine hbody.bind fun _ _ hbody => ?_
  exact .pure (Member.alike_method htype hname hparams.1 hbody)

/-- The modifiers of a method are the same, as they are kept. -/
theorem agree_methodDeclaration (hr : r.ReadAlike) :
    Agree Member.Alike (methodDeclaration r) (methodDeclaration r) := by
  refine (agree_modifiers hr).bind fun ⟨ms, _⟩ ⟨ms', _⟩ hms => ?_
  obtain rfl : ms = ms' := hms.1
  refine ((agree_typeParameters hr).seq (agree_marks hr)).optionally.seq ?_
  refine (agree_plainType hr).bind fun _ _ hnode => ?_
  refine agree_identifier.bind fun _ _ hname => ?_
  exact agree_methodRest hr ms hnode.type hname.text_eq

/-- The modifiers of a field are the same too. -/
theorem agree_fieldDeclaration (hr : r.ReadAlike) :
    Agree Member.Alike (fieldDeclaration r) (fieldDeclaration r) := by
  refine (agree_modifiers hr).bind fun ⟨ms, _⟩ ⟨ms', _⟩ hms => ?_
  obtain rfl : ms = ms' := hms.1
  refine (agree_plainType hr).bind fun _ _ hnode => ?_
  refine ((agree_declarator hr).separated1 ",").bind fun _ _ hdeclarators => ?_
  refine (agree_skip _).seq ?_
  exact .pure (Member.alike_field hnode.type hdeclarators)

theorem agree_constructorDeclaration (hr : r.ReadAlike) :
    Agree Member.Alike (constructorDeclaration r) (constructorDeclaration r) := by
  refine (agree_modifiers hr).bind fun ⟨ms, _⟩ ⟨ms', _⟩ hms => ?_
  obtain rfl : ms = ms' := hms.1
  exact (agree_typeParameters hr).accepts.seq (agree_constructorRest hr ms)

theorem agree_compactConstructor (hr : r.ReadAlike) :
    Agree Eq (compactConstructor r) (compactConstructor r) := by
  refine (agree_modifiers hr).seq ?_
  refine agree_identifier.seq ?_
  exact agree_skipBalanced _

theorem agree_initializerBlock : Agree Eq initializerBlock initializerBlock :=
  (agree_skip _).accepts.seq (agree_skipBalanced _)

/-- What is no member leaves nothing in both readings. -/
theorem agree_member (hr : r.ReadAlike) :
    Agree (Option.Rel Member.Alike) (member r) (member r) := by
  have hsome : ∀ {p : Parser Member}, Agree Member.Alike p p →
      Agree (Option.Rel Member.Alike) (do return some (← p)) (do return some (← p)) :=
    fun hp => hp.bind fun _ _ hm => .pure (.some hm)
  have hnone : ∀ {p : Parser Unit}, Agree Eq p p →
      Agree (Option.Rel Member.Alike) (do p; return none) (do p; return none) :=
    fun hp => hp.seq (.pure .none)
  refine .orElse (hnone (agree_skip _)) ?_
  refine .orElse (hnone agree_initializerBlock) ?_
  refine .orElse (hr.declaration.bind fun _ _ hd => .pure (.some (Member.alike_nested hd))) ?_
  refine .orElse (hnone (agree_markDeclaration hr)) ?_
  refine .orElse (hsome (agree_constructorDeclaration hr)) ?_
  refine .orElse (hnone (agree_compactConstructor hr)) ?_
  exact .orElse (hsome (agree_methodDeclaration hr)) (hsome (agree_fieldDeclaration hr))

/-- Members are as many in both readings, and those that cannot be read are left out. -/
theorem agree_members (hr : r.ReadAlike) :
    Agree (List.Forall₂ Member.Alike) (members r) (members r) := by
  refine (agree_member hr).recovering.many.bind fun found found' hfound => .pure ?_
  induction hfound with
  | nil => exact .nil
  | cons hread _ ih =>
    cases hread with
    | none => exact ih
    | some hmember =>
      cases hmember with
      | none => exact ih
      | some hm => exact .cons hm ih

theorem agree_classBodyRule (hr : r.ReadAlike) :
    Agree (List.Forall₂ Member.Alike) (classBodyRule r) (classBodyRule r) := by
  refine (agree_skip _).seq ?_
  refine (agree_members hr).bind fun _ _ hms => ?_
  refine (agree_skip _).seq ?_
  exact .pure hms

/-- The constants of an enum end at the same token. -/
theorem skipConstants_respaced (fuel : Nat) : ∀ {ts ts'}, Respaced ts ts' →
    Option.Rel Respaced (skipConstants fuel ts) (skipConstants fuel ts') := by
  induction fuel with
  | zero =>
    intro ts ts' _
    exact .none
  | succ fuel ih =>
    intro ts ts' hts
    cases ts with
    | nil =>
      rw [hts.nil_left]
      exact .none
    | cons t ts =>
      obtain ⟨t', ts', rfl⟩ := hts.exists_cons_left
      rw [skipConstants, skipConstants, ← hts.text_eq]
      have hclose := skipToClose_respaced 0 hts.tail
      split
      · exact .some hts.tail
      · split
        · exact .some hts
        · split
          · generalize skipToClose 0 ts = o, skipToClose 0 ts' = o' at hclose ⊢
            cases hclose with
            | none => exact .none
            | some hrest => exact ih hrest
          · exact ih hts.tail

/-- Reading goes on at another place. -/
theorem agree_set {α : Type} {R : α → α → Prop} {p q : Parser α} {o o' : Option (List Token)}
    (ho : Option.Rel Respaced o o') (hp : Agree R p q) :
    Agree R (do set (← o); p) (do set (← o'); q) := by
  refine ⟨?_⟩
  intro ts ts' _
  cases ho with
  | none => exact .none
  | some hrest => exact hp.on hrest

/-- The members of an enum are read from the same token on. -/
theorem agree_enumBody (hr : r.ReadAlike) :
    Agree (List.Forall₂ Member.Alike) (enumBody r) (enumBody r) := by
  have htail : Agree (List.Forall₂ Member.Alike) (do let ms ← members r; skip "\x7d"; return ms)
      (do let ms ← members r; skip "\x7d"; return ms) :=
    (agree_members hr).bind fun _ _ hms => (agree_skip _).seq (.pure hms)
  refine (agree_skip _).seq ?_
  refine agree_get.bind fun ts ts' hts => ?_
  refine agree_get.bind fun us us' hus => ?_
  rw [← hts.length_eq]
  exact agree_set (skipConstants_respaced (ts.length + 1) hus) htail

/-- Supertypes are of the same kind and differ in blanks. -/
theorem agree_supertypes (hr : r.ReadAlike) (keyword : String) (kind : SupertypeKind) :
    Agree (List.Forall₂ fun s s' => s.1 = s'.1 ∧ s.2.Alike s'.2) (supertypes r keyword kind)
      (supertypes r keyword kind) := by
  refine Agree.orDefault ?_ .nil
  refine (agree_skip _).seq ?_
  refine (agree_typeList hr).bind fun nodes nodes' hnodes => .pure ?_
  rw [List.forall₂_map_left_iff, List.forall₂_map_right_iff]
  exact hnodes.imp fun _ _ hnode => ⟨rfl, hnode.type⟩

theorem agree_permits (hr : r.ReadAlike) : Agree Eq (permits r) (permits r) :=
  ((agree_skip _).seq (agree_typeList hr)).optionally.seq (.pure rfl)

/-- A class has its parent and then its interfaces as supertypes. -/
theorem agree_classDeclaration (hr : r.ReadAlike) (ms : List Modifier) :
    Agree TypeDecl.Alike (classDeclaration r ms) (classDeclaration r ms) := by
  refine (agree_skip _).seq ?_
  refine agree_identifier.bind fun _ _ hname => ?_
  refine (agree_typeParameters hr).accepts.seq ?_
  refine (agree_supertypes hr _ _).bind fun _ _ hparent => ?_
  refine (agree_supertypes hr _ _).bind fun _ _ hinterfaces => ?_
  refine (agree_permits hr).seq ?_
  refine hr.classBody.bind fun _ _ hbody => ?_
  have hsupertypes := List.rel_append hparent hinterfaces
  exact .pure (TypeDecl.alike_mk ⟨rfl, rfl, hname.text_eq, hsupertypes, rfl⟩ hbody)

/-- An interface has the interfaces that it extends as supertypes. -/
theorem agree_interfaceDeclaration (hr : r.ReadAlike) (ms : List Modifier) :
    Agree TypeDecl.Alike (interfaceDeclaration r ms) (interfaceDeclaration r ms) := by
  refine (agree_skip _).seq ?_
  refine agree_identifier.bind fun _ _ hname => ?_
  refine (agree_typeParameters hr).accepts.seq ?_
  refine (agree_supertypes hr _ _).bind fun _ _ hparents => ?_
  refine (agree_permits hr).seq ?_
  refine hr.classBody.bind fun _ _ hbody => ?_
  exact .pure (TypeDecl.alike_mk ⟨rfl, rfl, hname.text_eq, hparents, rfl⟩ hbody)

theorem agree_enumDeclaration (hr : r.ReadAlike) (ms : List Modifier) :
    Agree TypeDecl.Alike (enumDeclaration r ms) (enumDeclaration r ms) := by
  refine (agree_skip _).seq ?_
  refine agree_identifier.bind fun _ _ hname => ?_
  refine (agree_supertypes hr _ _).bind fun _ _ hinterfaces => ?_
  refine (agree_enumBody hr).bind fun _ _ hbody => ?_
  exact .pure (TypeDecl.alike_mk ⟨rfl, rfl, hname.text_eq, hinterfaces, rfl⟩ hbody)

/-- The components of a record bind the same in both readings. -/
theorem agree_recordDeclaration (hr : r.ReadAlike) (ms : List Modifier) :
    Agree TypeDecl.Alike (recordDeclaration r ms) (recordDeclaration r ms) := by
  refine (agree_skip _).seq ?_
  refine agree_identifier.bind fun _ _ hname => ?_
  refine (agree_typeParameters hr).accepts.seq ?_
  refine (agree_parameters hr).bind fun ⟨_, _⟩ ⟨_, _⟩ hcomponents => ?_
  refine (agree_supertypes hr _ _).bind fun _ _ hinterfaces => ?_
  refine hr.classBody.bind fun _ _ hbody => ?_
  exact .pure (TypeDecl.alike_mk ⟨rfl, rfl, hname.text_eq, hinterfaces, hcomponents.1⟩ hbody)

/-- The word behind the modifiers tells the kind of a declaration. -/
theorem agree_declarationRule (hr : r.ReadAlike) :
    Agree TypeDecl.Alike (declarationRule r) (declarationRule r) := by
  refine (agree_modifiers hr).bind fun ⟨ms, _⟩ ⟨ms', _⟩ hms => ?_
  obtain rfl : ms = ms' := hms.1
  refine .orElse (agree_classDeclaration hr ms) ?_
  refine .orElse (agree_interfaceDeclaration hr ms) ?_
  exact .orElse (agree_enumDeclaration hr ms) (agree_recordDeclaration hr ms)

/-! ## Source files -/

/-- Rules of any depth read respaced tokens alike. -/
theorem readAlike_ofDepth (n : Nat) : (Rules.ofDepth n).ReadAlike := by
  induction n with
  | zero =>
    exact ⟨.failure, .failure, .failure, .failure, .failure, .failure, .failure, .failure, .failure,
      .failure⟩
  | succ n ih =>
    exact {
      type := agree_typeRule ih
      mark := agree_markRule ih
      value := agree_valueRule ih
      expression := agree_expressionRule ih
      operand := agree_signed ih true
      caseExpression := agree_chain ih false
      recordPattern := agree_recordPatternRule ih
      statement := agree_statementRule ih
      declaration := agree_declarationRule ih
      classBody := agree_classBodyRule ih }

/-- Two names that differ in blanks. -/
abbrev NamesAlike (x y : String) : Prop :=
  withoutBlanks x = withoutBlanks y

/-- Two items at the top level that are alike. -/
inductive Grammar.Item.Alike : Item → Item → Prop
  | package {x y : String} (h : NamesAlike x y) : Alike (.package x) (.package y)
  | «import» {x y : String} (h : NamesAlike x y) : Alike (.import x) (.import y)
  | type {d d' : TypeDecl} (h : d.Alike d') : Alike (.type d) (.type d')
  | other : Alike .other .other

/-- The names of packages and imports are kept with their blanks, so they are alike up to
them. -/
theorem agree_dottedName : Agree NamesAlike dottedName dottedName :=
  (agree_identifier.seq ((agree_skip ".").seq agree_identifier).many).spanned.bind
    fun ⟨_, _⟩ ⟨_, _⟩ h => .pure (withoutBlanks_spanText h.2)

theorem agree_packageDeclaration (hr : r.ReadAlike) :
    Agree Item.Alike (packageDeclaration r) (packageDeclaration r) := by
  refine (agree_marks hr).seq ?_
  refine (agree_skip _).seq ?_
  refine agree_dottedName.bind fun _ _ hname => ?_
  refine (agree_skip _).seq ?_
  exact .pure (.package hname)

/-- Something put behind two names leaves them alike. -/
theorem NamesAlike.append {x y : String} (h : NamesAlike x y) (z : String) :
    NamesAlike (x ++ z) (y ++ z) := by
  rw [NamesAlike, withoutBlanks_append, withoutBlanks_append, h]

/-- An import is of one type or of many in both readings. Only static ones are passed over. -/
theorem agree_importDeclaration : Agree Item.Alike importDeclaration importDeclaration := by
  refine (agree_skip _).seq ?_
  refine (agree_skip _).accepts.same fun isStatic => ?_
  refine agree_dottedName.bind fun path path' hpath => ?_
  refine ((agree_skip _).seq (agree_skip _)).accepts.same fun onDemand => ?_
  refine (agree_skip _).seq ?_
  refine .ite Iff.rfl (.pure .other) (.pure (.import ?_))
  cases onDemand with
  | true => exact hpath.append ".*"
  | false => exact hpath

theorem agree_moduleDeclaration (hr : r.ReadAlike) :
    Agree Item.Alike (moduleDeclaration r) (moduleDeclaration r) := by
  refine (agree_marks hr).seq ?_
  refine (agree_skip _).accepts.seq ?_
  refine (agree_skip _).seq ?_
  refine agree_dottedName.seq ?_
  refine (agree_skipBalanced _).seq ?_
  exact .pure .other

/-- What is no type, package or import is passed over in both readings. -/
theorem agree_item (hr : r.ReadAlike) : Agree Item.Alike (item r) (item r) := by
  refine .orElse (agree_packageDeclaration hr) ?_
  refine .orElse agree_importDeclaration ?_
  refine .orElse (agree_moduleDeclaration hr) ?_
  refine .orElse (hr.declaration.bind fun _ _ hd => .pure (.type hd)) ?_
  refine .orElse ((agree_markDeclaration hr).seq (.pure .other)) ?_
  exact .orElse ((agree_methodDeclaration hr).seq (.pure .other)) (hr.statement.seq (.pure .other))

/-- Items are as many in both readings. -/
theorem agree_items (hr : r.ReadAlike) :
    Agree (List.Forall₂ Item.Alike) (items r) (items r) := by
  have hpart := (agree_item hr).recovering.orElse ((agree_skip "\x7d").seq (.pure .none))
  refine hpart.many.bind fun _ _ hfound => ?_
  exact .pure (forall₂_filterMap_id hfound)

namespace CompilationUnit

/-- Two files whose packages and imports differ in blanks, and whose types say the same but for
their places, whatever package and imports they are put under. -/
structure Alike (u u' : CompilationUnit) : Prop where
  package? : u.package?.map withoutBlanks = u'.package?.map withoutBlanks
  imports : u.imports.map withoutBlanks = u'.imports.map withoutBlanks
  types : ∀ file outer,
    (u.types.flatMap (TypeDecl.declarations file outer)).map ClassDecl.unlocated
      = (u'.types.flatMap (TypeDecl.declarations file outer)).map ClassDecl.unlocated

/-- Items that are alike make files that are alike. -/
theorem alike_ofItems {found found' : List Item} (h : List.Forall₂ Item.Alike found found') :
    (ofItems found).Alike (ofItems found') where
  package? := by
    rw [ofItems, ofItems, ← List.getLast?_map, ← List.getLast?_map, List.map_filterMap,
      List.map_filterMap]
    refine congrArg List.getLast? (filterMap_eq_of_forall₂ h fun i i' hi => ?_)
    cases hi with
    | package hname => exact congrArg some hname
    | «import» | type | other => rfl
  imports := by
    rw [ofItems, ofItems, List.map_filterMap, List.map_filterMap]
    refine filterMap_eq_of_forall₂ h fun i i' hi => ?_
    cases hi with
    | «import» hpath => exact congrArg some hpath
    | package | type | other => rfl
  types file outer := by
    induction h with
    | nil => rfl
    | @cons i i' rest rest' hi _ ih =>
      cases hi with
      | @type d d' hd =>
        show (d.declarations file outer ++ (ofItems rest).types.flatMap _).map _
          = (d'.declarations file outer ++ (ofItems rest').types.flatMap _).map _
        rw [List.map_append, List.map_append, hd, ih]
      | package | «import» | other => exact ih

/-- Respaced tokens are read as files that are alike. -/
theorem parse_respaced {source source' : String}
    (h : Respaced (tokenize source) (tokenize source')) : (parse source).Alike (parse source') := by
  unfold parse
  dsimp only
  rw [← h.length_eq]
  have hread := (agree_items (readAlike_ofDepth (2 * (tokenize source).length + 8))).on h
  generalize items _ (tokenize source) = o, items _ (tokenize source') = o' at hread ⊢
  cases hread with
  | none => exact alike_ofItems .nil
  | some hitems _ => exact alike_ofItems hitems

end CompilationUnit

end ClassDiagram.Java
