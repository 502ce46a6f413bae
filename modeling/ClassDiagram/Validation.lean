import ClassDiagram.Declaration
import ClassDiagram.Error

/-!
# Shape checks

A declaration is checked before anything is classified: its name, then its fields,
its constructors and methods, and last its supertypes. Inside a constructor or
method the parameters come first, then the result type, the local variables and the
static calls. The first fault found in this order is the one reported, so a
declaration with several faults always gives the same error.
-/

namespace ClassDiagram.Validation

open ClassDiagram.Dotted

/-- Fails unless every name in the list is a qualified name; the first one that is
not is reported as standing at `place`. -/
def checkTypeNames (entity place : String) : List String → Except AnalysisError Unit
  | [] => .ok ()
  | name :: rest =>
    if isQualified name then checkTypeNames entity place rest
    else .error (.malformed entity (.typeName name place))

/-- Fails unless every name in `type` is a qualified name. -/
def checkType (entity place : String) (type : TypeRef) : Except AnalysisError Unit :=
  checkTypeNames entity place type.names

/-- Checks fields from left to right; `seen` holds the names before them. -/
def checkFields (entity : String) (seen : List String) :
    List FieldDecl → Except AnalysisError Unit
  | [] => .ok ()
  | f :: rest => do
    if !isIdentifier f.name then
      throw (.malformed entity .fieldName)
    if seen.contains f.name then
      throw (.malformed entity (.duplicateField f.name))
    checkType entity ("field `" ++ f.name ++ "`") f.type
    checkFields entity (f.name :: seen) rest

/-- Checks the parameters of `method` from left to right; `seen` holds the names
before them. -/
def checkParams (entity method : String) (seen : List String) :
    List Binding → Except AnalysisError Unit
  | [] => .ok ()
  | p :: rest => do
    if !isIdentifier p.name then
      throw (.malformed entity (.parameterName method))
    if seen.contains p.name then
      throw (.malformed entity (.duplicateParameter p.name method))
    checkType entity ("parameter `" ++ p.name ++ "`") p.type
    checkParams entity method (p.name :: seen) rest

/-- Checks a constructor or method. -/
def checkCallable (entity : String) (m : MethodDecl) : Except AnalysisError Unit := do
  if !isIdentifier m.name then
    throw (.malformed entity (.methodName m.name))
  checkParams entity m.name [] m.params
  match m.returnType with
  | some type => checkType entity ("return type of `" ++ m.name ++ "`") type
  | none => pure ()
  m.body.locals.forM fun l => checkType entity ("local `" ++ l.name ++ "`") l.type
  m.body.staticCalls.forM fun c => checkType entity ("static call `" ++ c.method ++ "`") c.type

/-- Checks one declaration. -/
def checkDeclaration (decl : ClassDecl) : Except AnalysisError Unit := do
  if !isQualified decl.name then
    throw (.malformed decl.name .declarationName)
  checkFields decl.name [] decl.fields
  decl.callables.forM (checkCallable decl.name)
  decl.supertypes.forM fun s => checkType decl.name "supertype" s.type

/-- Checks every declaration; the first malformed one fails them all. -/
def checkAll (decls : List ClassDecl) : Except AnalysisError Unit :=
  decls.forM checkDeclaration

/-- Checks made one after the other all pass, or the first that does not is reported. -/
theorem forM_eq_ok_iff {α : Type} {check : α → Except AnalysisError Unit} {l : List α} :
    l.forM check = .ok () ↔ ∀ a ∈ l, check a = .ok () := by
  induction l with
  | nil => simp [pure, Except.pure]
  | cons a l ih =>
    rw [List.forall_mem_cons, ← ih, List.forM]
    cases check a with
    | ok _ => simp [bind, Except.bind]
    | error e => simp [bind, Except.bind]

/-- A list is accepted exactly when each of its declarations is. -/
theorem checkAll_eq_ok_iff {decls : List ClassDecl} :
    checkAll decls = .ok () ↔ ∀ d ∈ decls, checkDeclaration d = .ok () :=
  forM_eq_ok_iff

/-- A check and the one after it pass exactly when both do. -/
theorem bind_eq_ok_iff {check : Except AnalysisError Unit}
    {next : Unit → Except AnalysisError Unit} :
    (check >>= next) = .ok () ↔ check = .ok () ∧ next () = .ok () := by
  cases check with
  | ok u => simp [bind, Except.bind]
  | error e => simp [bind, Except.bind]

/-- A fault that is found ends the check. -/
theorem unless_eq_ok_iff {fault : Bool} {e : AnalysisError}
    {next : Unit → Except AnalysisError Unit} {rest : Except AnalysisError Unit} :
    (if fault = true then throw e >>= next else rest) = .ok ()
      ↔ fault = false ∧ rest = .ok () := by
  cases fault with
  | true => simp [throw, throwThe, MonadExceptOf.throw, bind, Except.bind]
  | false => simp

theorem checkTypeNames_eq_ok_iff {entity place : String} {names : List String} :
    checkTypeNames entity place names = .ok () ↔ ∀ name ∈ names, isQualified name = true := by
  induction names with
  | nil => simp [checkTypeNames]
  | cons name rest ih =>
    rw [checkTypeNames, List.forall_mem_cons, ← ih]
    cases isQualified name with
    | true => simp
    | false => simp

/-- A type is accepted exactly when every name in it is a qualified one. -/
theorem checkType_eq_ok_iff {entity place : String} {t : TypeRef} :
    checkType entity place t = .ok () ↔ ∀ name ∈ t.names, isQualified name = true :=
  checkTypeNames_eq_ok_iff

/-- Accepted fields have plain names, and types whose names are qualified. -/
theorem of_checkFields {entity : String} {seen : List String} {fields : List FieldDecl}
    (h : checkFields entity seen fields = .ok ()) :
    ∀ f ∈ fields, isIdentifier f.name = true ∧ ∀ name ∈ f.type.names, isQualified name = true := by
  induction fields generalizing seen with
  | nil => simp
  | cons f rest ih =>
    simp only [checkFields, unless_eq_ok_iff, bind_eq_ok_iff, checkType_eq_ok_iff,
      Bool.not_eq_false'] at h
    obtain ⟨hname, -, htype, hrest⟩ := h
    exact List.forall_mem_cons.mpr ⟨⟨hname, htype⟩, ih hrest⟩

/-- No two fields have one name. -/
theorem nodup_of_checkFields {entity : String} {seen : List String} {fields : List FieldDecl}
    (h : checkFields entity seen fields = .ok ()) :
    (fields.map FieldDecl.name).Nodup ∧ ∀ f ∈ fields, f.name ∉ seen := by
  induction fields generalizing seen with
  | nil => simp
  | cons f rest ih =>
    simp only [checkFields, unless_eq_ok_iff, bind_eq_ok_iff, List.contains_eq_mem,
      decide_eq_false_iff_not] at h
    obtain ⟨-, hnew, -, hrest⟩ := h
    obtain ⟨hnodup, hlater⟩ := ih hrest
    refine ⟨List.nodup_cons.mpr ⟨fun hmem => ?_, hnodup⟩, ?_⟩
    · obtain ⟨g, hg, hname⟩ := List.mem_map.mp hmem
      exact hlater g hg (hname ▸ List.mem_cons_self)
    · refine List.forall_mem_cons.mpr ⟨hnew, fun g hg hseen => ?_⟩
      exact hlater g hg (List.mem_cons_of_mem _ hseen)

/-- Accepted parameters have plain names, and types whose names are qualified. -/
theorem of_checkParams {entity method : String} {seen : List String} {params : List Binding}
    (h : checkParams entity method seen params = .ok ()) :
    ∀ p ∈ params, isIdentifier p.name = true ∧ ∀ name ∈ p.type.names, isQualified name = true := by
  induction params generalizing seen with
  | nil => simp
  | cons p rest ih =>
    simp only [checkParams, unless_eq_ok_iff, bind_eq_ok_iff, checkType_eq_ok_iff,
      Bool.not_eq_false'] at h
    obtain ⟨hname, -, htype, hrest⟩ := h
    exact List.forall_mem_cons.mpr ⟨⟨hname, htype⟩, ih hrest⟩

/-- What is looked at in a constructor or method: its name, its parameters, its return type, the
types of its locals and the receivers of its static calls. -/
theorem checkCallable_eq_ok_iff {entity : String} {m : MethodDecl} :
    checkCallable entity m = .ok () ↔ isIdentifier m.name = true
      ∧ checkParams entity m.name [] m.params = .ok ()
      ∧ (∀ t ∈ m.returnType, ∀ name ∈ t.names, isQualified name = true)
      ∧ (∀ l ∈ m.body.locals, ∀ name ∈ l.type.names, isQualified name = true)
      ∧ ∀ c ∈ m.body.staticCalls, ∀ name ∈ c.type.names, isQualified name = true := by
  simp only [checkCallable, unless_eq_ok_iff, bind_eq_ok_iff, Bool.not_eq_false']
  refine and_congr_right fun _ => and_congr_right fun _ => ?_
  cases m.returnType with
  | none => simp only [bind_eq_ok_iff, forM_eq_ok_iff, checkType_eq_ok_iff]; simp
  | some t => simp only [bind_eq_ok_iff, forM_eq_ok_iff, checkType_eq_ok_iff]; simp

/-- What is looked at in a declaration: its name, its fields, its constructors and methods and
its supertypes. -/
theorem checkDeclaration_eq_ok_iff {decl : ClassDecl} :
    checkDeclaration decl = .ok () ↔ isQualified decl.name = true
      ∧ checkFields decl.name [] decl.fields = .ok ()
      ∧ (∀ m ∈ decl.callables, checkCallable decl.name m = .ok ())
      ∧ ∀ s ∈ decl.supertypes, ∀ name ∈ s.type.names, isQualified name = true := by
  simp only [checkDeclaration, unless_eq_ok_iff, bind_eq_ok_iff, forM_eq_ok_iff,
    checkType_eq_ok_iff, Bool.not_eq_false']

/-! ### Complaints -/

/-- All that a check can find is a malformation of `entity`. -/
def ComplainsOf (entity : String) (check : Except AnalysisError Unit) : Prop :=
  ∀ e, check = .error e → ∃ reason, e = .malformed entity reason

theorem complainsOf_ok (entity : String) : ComplainsOf entity (.ok ()) :=
  nofun

/-- Two checks in a row complain of the entity that each of them complains of. -/
theorem ComplainsOf.bind {entity : String} {check : Except AnalysisError Unit}
    {next : Unit → Except AnalysisError Unit} (hcheck : ComplainsOf entity check)
    (hnext : ComplainsOf entity (next ())) : ComplainsOf entity (check >>= next) := by
  cases check with
  | ok u => exact hnext
  | error e => exact hcheck

theorem ComplainsOf.unless {entity : String} {fault : Bool} {reason : Malformation}
    {next : Unit → Except AnalysisError Unit} {rest : Except AnalysisError Unit}
    (hrest : ComplainsOf entity rest) :
    ComplainsOf entity (if fault = true then throw (.malformed entity reason) >>= next
      else rest) := by
  cases fault with
  | true =>
    intro e he
    exact ⟨reason, (Except.error.inj he).symm⟩
  | false => exact hrest

/-- A check of every element complains of the entity that the check of one complains of. -/
theorem complainsOf_forM {α : Type} {entity : String} {check : α → Except AnalysisError Unit}
    (h : ∀ a, ComplainsOf entity (check a)) (l : List α) : ComplainsOf entity (l.forM check) := by
  induction l with
  | nil => exact complainsOf_ok entity
  | cons a l ih => exact (h a).bind ih

theorem complainsOf_checkType (entity place : String) (type : TypeRef) :
    ComplainsOf entity (checkType entity place type) := by
  unfold checkType
  induction type.names with
  | nil => exact complainsOf_ok entity
  | cons name rest ih =>
    unfold checkTypeNames
    split
    · exact ih
    · intro e he
      exact ⟨_, (Except.error.inj he).symm⟩

theorem complainsOf_checkFields (entity : String) (seen : List String)
    (fields : List FieldDecl) : ComplainsOf entity (checkFields entity seen fields) := by
  induction fields generalizing seen with
  | nil => exact complainsOf_ok entity
  | cons f rest ih =>
    exact .unless (.unless ((complainsOf_checkType entity _ f.type).bind (ih _)))

theorem complainsOf_checkParams (entity method : String) (seen : List String)
    (params : List Binding) : ComplainsOf entity (checkParams entity method seen params) := by
  induction params generalizing seen with
  | nil => exact complainsOf_ok entity
  | cons p rest ih =>
    exact .unless (.unless ((complainsOf_checkType entity _ p.type).bind (ih _)))

theorem complainsOf_checkCallable (entity : String) (m : MethodDecl) :
    ComplainsOf entity (checkCallable entity m) := by
  have hbody : ComplainsOf entity (do
      m.body.locals.forM fun l => checkType entity ("local `" ++ l.name ++ "`") l.type
      m.body.staticCalls.forM fun c =>
        checkType entity ("static call `" ++ c.method ++ "`") c.type) :=
    (complainsOf_forM (fun _ => complainsOf_checkType entity _ _) _).bind
      (complainsOf_forM (fun _ => complainsOf_checkType entity _ _) _)
  refine .unless ((complainsOf_checkParams entity m.name [] m.params).bind ?_)
  cases m.returnType with
  | none => exact hbody
  | some type => exact (complainsOf_checkType entity _ type).bind hbody

/-- What a check finds is a malformation of the declaration that was checked. -/
theorem complainsOf_checkDeclaration (decl : ClassDecl) :
    ComplainsOf decl.name (checkDeclaration decl) := by
  have hfields := complainsOf_checkFields decl.name [] decl.fields
  have hcallables := complainsOf_forM (complainsOf_checkCallable decl.name) decl.callables
  refine .unless (hfields.bind (hcallables.bind ?_))
  exact complainsOf_forM (fun _ => complainsOf_checkType decl.name _ _) decl.supertypes

/-- What fails is the check of one of the declarations. -/
theorem exists_of_checkAll_eq_error {decls : List ClassDecl} {e : AnalysisError}
    (h : checkAll decls = .error e) :
    ∃ d ∈ decls, ∃ reason, e = .malformed d.name reason := by
  unfold checkAll at h
  induction decls with
  | nil => cases h
  | cons d rest ih =>
    cases hd : checkDeclaration d with
    | error e' =>
      rw [List.forM, hd] at h
      obtain ⟨reason, hreason⟩ := complainsOf_checkDeclaration d e' hd
      exact ⟨d, List.mem_cons_self, reason, Except.error.inj h ▸ hreason⟩
    | ok u =>
      rw [List.forM, hd] at h
      obtain ⟨d', hmem, hreason⟩ := ih h
      exact ⟨d', List.mem_cons_of_mem _ hmem, hreason⟩

end ClassDiagram.Validation
