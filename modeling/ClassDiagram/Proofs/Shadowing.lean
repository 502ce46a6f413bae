import ClassDiagram.Proofs.Sightings

/-!
# Local variables that hide a field

A body that declares a variable `x` means this variable wherever it writes a bare `x`, even
where the type around it has a field of that name. What a body says about a bare `x` is
judged by the variables that were *seen*, though, and a variable is seen only with its type:
one declared with `var` whose value creates nothing has none.

`KeptApart` says that the variable is not taken for the field or for a type, and
`keptApart_iff` when this is so: if the type of the variable can be told, if a parameter has
the same name, or if there is nothing that could be mistaken. In the first two cases bare
assignments to `x` have no effect at all: `declaration_sparing` takes them out of the code,
and the declaration of the type stays the same, so that no relationship can depend on them.
-/

namespace ClassDiagram.Java

/-! ## Declared variables -/

/-- Whether the type of a declared variable can be told. That of a variable declared with
`var` can be told only from a value that creates an instance. -/
def Declarator.isTyped (declared : TypeExpr) (d : Declarator) : Bool :=
  match declared with
  | .simple "var" =>
    match d.value? with
    | some (.create _ type _ _) => type.isType
    | _ => false
  | type => type.isType

namespace Code

/-- The names of the variables that a node declares, in a declaration or in the head of a loop
over elements. -/
def declaredNames : Code → List String
  | .locals _ _ declarators => declarators.map Declarator.name
  | .forEach _ _ x _ => [x]
  | _ => []

/-- The names of the variables that a node declares with a type that can be told. -/
def typedNames : Code → List String
  | .locals _ type declarators => (declarators.filter (·.isTyped type)).map Declarator.name
  | .forEach _ type x _ => if type.isType then [x] else []
  | _ => []

end Code

/-- Somewhere in the code a variable `x` is declared, nested types aside. -/
def Declares (code : List Code) (x : String) : Prop :=
  ∃ n ∈ allNodes code, x ∈ n.declaredNames

instance (code : List Code) (x : String) : Decidable (Declares code x) :=
  inferInstanceAs (Decidable (∃ n ∈ allNodes code, x ∈ n.declaredNames))

/-- Somewhere in the code a variable `x` is declared with a type that can be told. -/
def DeclaresTyped (code : List Code) (x : String) : Prop :=
  ∃ n ∈ allNodes code, x ∈ n.typedNames

instance (code : List Code) (x : String) : Decidable (DeclaresTyped code x) :=
  inferInstanceAs (Decidable (∃ n ∈ allNodes code, x ∈ n.typedNames))

/-- A variable has a type that is known if one is written, or if it is made of a known one. -/
theorem Declarator.isSome_type? (declared : TypeExpr) (d : Declarator) :
    (d.type? declared).isSome = d.isTyped declared := by
  unfold Declarator.type?
  split
  next =>
    -- with `var` only the value tells the type
    rw [Declarator.isTyped]
    cases d.value? with
    | none => rfl
    | some value =>
      cases value with
      | create before type args body => exact type.isSome_toTypeRef?
      | name | this | access | invoke | call | assign | locals | forEach | delegate | declare
      | group => rfl
  next hvar => rw [Option.isSome_map, TypeExpr.isSome_toTypeRef?, Declarator.isTyped.eq_2 _ _ hvar]

/-- The variables seen of a node are those that it declares with a type that can be told. -/
theorem Code.exists_variable_iff {n : Code} {x : String} :
    (∃ t, Sighting.variable ⟨x, t⟩ ∈ n.ownSightings) ↔ x ∈ n.typedNames := by
  cases n with
  | locals notes type declarators =>
    have hseen : ∀ d : Declarator, (∃ t, d.type? type = some t) ↔ d.isTyped type = true := by
      intro d
      rw [← Option.isSome_iff_exists, d.isSome_type?]
    simp only [ownSightings, localSightings, typedNames, List.mem_filterMap, List.mem_map,
      List.mem_filter, ← hseen, Option.map_eq_some_iff, Sighting.variable.injEq, Binding.mk.injEq]
    grind
  | forEach notes type y parts =>
    rw [ownSightings, typedNames, ← type.isSome_toTypeRef?]
    cases type.toTypeRef? <;> simp
  | access object member =>
    -- a bare receiver shows a use of a type or an access, and no variable
    cases object with
    | name y =>
      simp only [ownSightings, typedNames, Sighting.receiver]
      grind
    | this | access | invoke | call | create | assign | locals | forEach | delegate | declare
    | group => simp [ownSightings, typedNames]
  | call receiver notes method args =>
    simp only [ownSightings, typedNames, callSightings, argumentSightings, Sighting.receiver]
    grind
  | invoke | create =>
    simp only [ownSightings, typedNames, argumentSightings]
    grind
  | assign target value =>
    simp only [ownSightings, typedNames, assignSightings]
    grind
  | delegate toThis before args =>
    simp only [ownSightings, typedNames, argumentSightings]
    grind
  | name | this | declare | group => simp [ownSightings, typedNames]

/-- The local variables that were seen in some code are those of which the type can be told. -/
theorem mem_locals_iff {code : List Code} {x : String} :
    x ∈ (Sighting.locals (allSightings code)).map Binding.name ↔ DeclaresTyped code x := by
  simp only [List.mem_map, Sighting.mem_locals, mem_allSightings_iff, DeclaresTyped,
    ← Code.exists_variable_iff]
  constructor
  · rintro ⟨b, ⟨n, hn, hb⟩, rfl⟩
    exact ⟨n, hn, b.type, hb⟩
  · rintro ⟨n, hn, t, ht⟩
    exact ⟨⟨x, t⟩, ⟨n, hn, ht⟩, rfl⟩

/-! ## What could be mistaken -/

/-- Whatever a body does with the bare name `x`, none of it is taken for the field `x` or for
a type `x`. -/
structure KeptApart (code : List Code) (c : MethodDecl) (x : String) : Prop where
  /-- The assignments to the field `x` are those through `this`. -/
  assignments : c.body.fieldAssignments.filter (fun a => a.field = x) =
    (((allNodes code).filterMap Code.ownAssignment?).filter fun a => a.1 = x).map
      fun a => ⟨a.1, a.2.sourceAmong (c.params.map Binding.name)⟩
  /-- No use of a type `x` is noted. -/
  statics : ∀ use ∈ c.body.staticCalls, use.type ≠ .plain x

/-- The code neither assigns to the bare name `x`, if this is a field, nor has it as a receiver
that would be taken for a type. -/
structure NothingToMistake (fields : List String) (code : List Code) (x : String) : Prop where
  assignments : x ∈ fields → ∀ value, (x, value) ∉ (allNodes code).filterMap Code.bareAssignment?
  statics : x ∉ fields → isCapitalized x →
    ∀ member, (x, member) ∉ (allNodes code).filterMap Code.receiver?

section

variable {fields : List String} {code : List Code} {c : MethodDecl} {x : String}

/-- All assignments to a name are taken for those of the field exactly if no variable hides it,
or there is no bare one. -/
theorem RespectsScope.assignments_iff (h : RespectsScope fields code c) :
    c.body.fieldAssignments.filter (fun a => a.field = x) =
      (((allNodes code).filterMap Code.ownAssignment?).filter fun a => a.1 = x).map
        (fun a => ⟨a.1, a.2.sourceAmong (c.params.map Binding.name)⟩)
    ↔ x ∈ c.variables ∨ (x ∈ fields →
      ∀ value, (x, value) ∉ (allNodes code).filterMap Code.bareAssignment?) := by
  -- those through `this` stand first, so that the two lists agree if nothing follows them
  rw [h.assignments, List.map_append, List.filter_append, List.filter_map, List.filter_map]
  simp only [Function.comp_def]
  rw [List.append_right_eq_self, List.map_eq_nil_iff, List.filter_filter,
    List.filter_eq_nil_iff]
  grind

/-- No static call is seen on a name exactly if a variable or a field hides it, or it looks like
no type, or nothing is called on it. -/
theorem RespectsScope.statics_iff (h : RespectsScope fields code c) :
    (∀ use ∈ c.body.staticCalls, use.type ≠ .plain x)
    ↔ x ∈ c.variables ∨ (x ∉ fields → isCapitalized x →
      ∀ member, (x, member) ∉ (allNodes code).filterMap Code.receiver?) := by
  have hplain : ∀ y : String, TypeRef.plain y = TypeRef.plain x ↔ y = x := by
    simp [TypeRef.plain]
  rw [h.statics]
  simp only [List.forall_mem_map, List.mem_filter, decide_eq_true_eq, ne_eq, hplain]
  grind

/-- **When a variable is kept apart** from the field and the type of its name. -/
theorem RespectsScope.keptApart_iff (h : RespectsScope fields code c) :
    KeptApart code c x ↔ x ∈ c.variables ∨ NothingToMistake fields code x := by
  constructor
  · intro hapart
    rcases h.assignments_iff.mp hapart.assignments with hvariable | hassign
    · exact .inl hvariable
    · rcases h.statics_iff.mp hapart.statics with hvariable | hstatic
      · exact .inl hvariable
      · exact .inr ⟨hassign, hstatic⟩
  · intro hcase
    refine ⟨h.assignments_iff.mpr ?_, h.statics_iff.mpr ?_⟩
    · exact hcase.imp_right fun hnothing => hnothing.assignments
    · exact hcase.imp_right fun hnothing => hnothing.statics

/-- The variables that count are the parameters and the local variables with a known type. -/
theorem mem_variables_iff (h : c.body = factsOf c.params fields (allSightings code)) :
    x ∈ c.variables ↔ x ∈ c.params.map Binding.name ∨ DeclaresTyped code x := by
  rw [MethodDecl.variables, List.map_append, List.mem_append, ← mem_locals_iff, h, factsOf]

end

/-! ## Code without the assignments -/

/-- Whether a node is the bare name `x`. -/
def Code.isName (x : String) : Code → Bool
  | .name y => y == x
  | _ => false

mutual

/-- A node in which nothing is assigned to the bare name `x`. Of such an assignment only the
value is left. -/
def Code.sparing (x : String) : Code → Code
  | .name y => .name y
  | .this => .this
  | .access object member => .access (object.sparing x) member
  | .invoke y args => .invoke y (sparingAll x args)
  | .call receiver notes y args =>
    .call (receiver.sparing x) (sparingAll x notes) y (sparingAll x args)
  | .create before type args body => .create (sparingAll x before) type (sparingAll x args) body
  | .assign target value =>
    if target.isName x then .group [value.sparing x]
    else .assign (target.sparing x) (value.sparing x)
  | .locals notes type declarators =>
    .locals (sparingAll x notes) type (sparingDeclarators x declarators)
  | .forEach notes type y parts => .forEach (sparingAll x notes) type y (sparingAll x parts)
  | .delegate toThis before args => .delegate toThis (sparingAll x before) (sparingAll x args)
  | .declare decl => .declare decl
  | .group parts => .group (sparingAll x parts)

/-- Code in which nothing is assigned to the bare name `x`. -/
def sparingAll (x : String) : List Code → List Code
  | [] => []
  | c :: rest => c.sparing x :: sparingAll x rest

def sparingDeclarators (x : String) : List Declarator → List Declarator
  | [] => []
  | d :: rest => d.sparing x :: sparingDeclarators x rest

def Declarator.sparing (x : String) : Declarator → Declarator
  | .mk y dimensions notes none => .mk y dimensions (sparingAll x notes) none
  | .mk y dimensions notes (some value) =>
    .mk y dimensions (sparingAll x notes) (some (value.sparing x))

end

/-- Whether something seen is an assignment to the bare name `x`. -/
def Sighting.assignsBare (x : String) : Sighting → Bool
  | .bareAssignment y _ => y == x
  | _ => false

section

variable (x : String)

/-- What is left of an assignment shows as little to the node around it as the assignment. -/
theorem Code.face_sparing (c : Code) : (c.sparing x).face = c.face := by
  cases c with
  | assign target value => rw [Code.sparing]; split <;> rfl
  | access object member =>
    cases object with
    | assign target value => rw [Code.sparing, Code.sparing]; split <;> rfl
    | name | this | access | invoke | call | create | locals | forEach | delegate | declare
    | group => rfl
  | name | this | invoke | call | create | locals | forEach | delegate | declare
  | group => rfl

/-- Leaving out assignments changes no form. -/
theorem map_face_sparingAll (cs : List Code) :
    (sparingAll x cs).map Code.face = cs.map Code.face := by
  induction cs with
  | nil => rfl
  | cons c rest ih => rw [sparingAll, List.map_cons, List.map_cons, ih, Code.face_sparing]

/-- It changes nothing about local variables. -/
theorem localSightings_sparing (type : TypeExpr) (ds : List Declarator) :
    localSightings type (sparingDeclarators x ds) = localSightings type ds := by
  induction ds with
  | nil => rfl
  | cons d rest ih =>
    have hsame : (d.sparing x).name = d.name ∧ (d.sparing x).type? type = d.type? type := by
      simp only [Declarator.type?_eq]
      rcases d with ⟨y, n, notes, _ | value⟩
      · exact ⟨rfl, rfl⟩
      · refine ⟨rfl, ?_⟩
        simp only [Declarator.sparing, Declarator.value?, Declarator.dimensions, Option.map_some,
          Code.face_sparing]
    unfold localSightings at ih ⊢
    rw [sparingDeclarators, List.filterMap_cons, List.filterMap_cons, ih, hsame.1, hsame.2]

/-! What assigns nothing is not left out. -/

/-- A receiver is no assignment. -/
theorem assignsBare_receiver (y member : String) :
    (Sighting.receiver y member).assignsBare x = false := by
  unfold Sighting.receiver
  split
  · split <;> rfl
  · rfl

/-- Arguments are no assignments. -/
theorem filter_argumentSightings (args : List Code) :
    (argumentSightings args).filter (fun s => !s.assignsBare x) = argumentSightings args := by
  refine List.filter_eq_self.mpr fun s hs => ?_
  rw [argumentSightings_eq] at hs
  obtain ⟨face, -, hface⟩ := List.mem_filterMap.mp hs
  cases face <;> cases hface
  rfl

/-- Local variables are no assignments to a field. -/
theorem filter_localSightings (type : TypeExpr) (ds : List Declarator) :
    (localSightings type ds).filter (fun s => !s.assignsBare x) = localSightings type ds := by
  refine List.filter_eq_self.mpr fun s hs => ?_
  obtain ⟨d, -, hd⟩ := List.mem_filterMap.mp hs
  obtain ⟨t, -, rfl⟩ := Option.map_eq_some_iff.mp hd
  rfl

/-- An access is no assignment. -/
theorem filter_accessed (face : Face) (member : String) :
    (face.accessed member).filter (fun s => !s.assignsBare x) = face.accessed member := by
  cases face <;> simp [Face.accessed, assignsBare_receiver]

/-- Neither is a call. -/
theorem filter_called (face : Face) (method : String) :
    (face.called method).filter (fun s => !s.assignsBare x) = face.called method := by
  cases face <;> simp [Face.called, assignsBare_receiver]
  rfl

/-- An assignment to anything but the bare name is kept. -/
theorem filter_assigned {target : Code} (h : target.isName x = false) (source : AssignSource) :
    (target.face.assigned source).filter (fun s => !s.assignsBare x)
      = target.face.assigned source := by
  cases target with
  | name y => simpa [Code.face, Face.assigned, Sighting.assignsBare, Code.isName] using h
  | access object member => cases object <;> rfl
  | this | invoke | call | create | assign | locals | forEach | delegate | declare | group => rfl

mutual

/-- Code in which the bare assignments to a name do nothing shows everything but these
assignments. -/
theorem Code.sightings_sparing : ∀ c : Code,
    (c.sparing x).sightings = c.sightings.filter fun s => !s.assignsBare x
  | .name _ => rfl
  | .this => rfl
  | .access object member => by
    rw [Code.sparing, Code.sightings_access_eq, Code.sightings_access_eq, Code.face_sparing,
      List.filter_append, Code.sightings_sparing object, filter_accessed]
  | .invoke y args => by
    rw [Code.sparing, Code.sightings, Code.sightings, argumentSightings_eq, map_face_sparingAll,
      ← argumentSightings_eq, List.filter_append, filter_argumentSightings,
      allSightings_sparingAll args]
  | .call receiver notes y args => by
    simp only [Code.sparing, Code.sightings, callSightings_eq, Code.face_sparing,
      argumentSightings_eq (sparingAll x args), map_face_sparingAll, ← argumentSightings_eq,
      List.filter_append, filter_argumentSightings, filter_called, Code.sightings_sparing receiver,
      allSightings_sparingAll]
  | .create before type args body => by
    simp only [Code.sparing, Code.sightings, argumentSightings_eq (sparingAll x args),
      map_face_sparingAll, ← argumentSightings_eq, List.filter_append, filter_argumentSightings,
      allSightings_sparingAll]
  | .assign target value => by
    rw [Code.sparing]
    cases hname : target.isName x with
    | true =>
      -- the assignment itself goes, and with its target nothing else that was seen
      have htarget : target = .name x := by
        cases target with
        | name y => rw [beq_iff_eq.mp hname]
        | this | access | invoke | call | create | assign | locals | forEach | delegate | declare
        | group => cases hname
      subst htarget
      simp [Code.sightings, allSightings, assignSightings, Sighting.assignsBare,
        Code.sightings_sparing value]
    | false =>
      simp only [Bool.false_eq_true, if_false, Code.sightings, assignSightings_eq,
        Code.face_sparing, List.filter_append, filter_assigned x hname,
        Code.sightings_sparing target, Code.sightings_sparing value]
  | .locals notes type declarators => by
    simp only [Code.sparing, Code.sightings, localSightings_sparing, List.filter_append,
      filter_localSightings, allSightings_sparingAll, variableSightings_sparing declarators]
  | .forEach notes type y parts => by
    have hfirst : (type.toTypeRef?.map fun t => Sighting.variable ⟨y, t⟩).toList.filter
          (fun s => !s.assignsBare x)
        = (type.toTypeRef?.map fun t => Sighting.variable ⟨y, t⟩).toList := by
      cases type.toTypeRef? <;> rfl
    simp only [Code.sparing, Code.sightings_forEach_eq, List.filter_append, hfirst,
      allSightings_sparingAll]
  | .delegate toThis before args => by
    have hfirst : (if toThis then [Sighting.delegation] else []).filter
          (fun s => !s.assignsBare x)
        = if toThis then [.delegation] else [] := by
      cases toThis <;> rfl
    simp only [Code.sparing, Code.sightings, argumentSightings_eq (sparingAll x args),
      map_face_sparingAll, ← argumentSightings_eq, List.filter_append, filter_argumentSightings,
      allSightings_sparingAll, hfirst]
  | .declare _ => rfl
  | .group parts => by
    rw [Code.sparing, Code.sightings, Code.sightings, allSightings_sparingAll parts]

/-- The same for several pieces of code. -/
theorem allSightings_sparingAll : ∀ cs : List Code,
    allSightings (sparingAll x cs) = (allSightings cs).filter fun s => !s.assignsBare x
  | [] => rfl
  | c :: rest => by
    rw [sparingAll, allSightings, allSightings, List.filter_append, Code.sightings_sparing c,
      allSightings_sparingAll rest]

/-- The same for the values of variables. -/
theorem variableSightings_sparing : ∀ ds : List Declarator,
    variableSightings (sparingDeclarators x ds)
      = (variableSightings ds).filter fun s => !s.assignsBare x
  | [] => rfl
  | d :: rest => by
    rw [sparingDeclarators, variableSightings, variableSightings, List.filter_append,
      Declarator.sightings_sparing d, variableSightings_sparing rest]

theorem Declarator.sightings_sparing : ∀ d : Declarator,
    (d.sparing x).sightings = d.sightings.filter fun s => !s.assignsBare x
  | .mk _ _ notes none => by
    rw [Declarator.sparing, Declarator.sightings, Declarator.sightings,
      allSightings_sparingAll notes]
  | .mk _ _ notes (some value) => by
    rw [Declarator.sparing, Declarator.sightings, Declarator.sightings, List.filter_append,
      allSightings_sparingAll notes, Code.sightings_sparing value]

end

end

/-! ## The declaration of a type -/

/-- A constructor or method without the assignments to the bare name `x`, if its body declares
a variable of this name. -/
def Member.sparing (x : String) : Member → Member
  | .constructor ms name params body =>
    .constructor ms name params (if Declares body x then sparingAll x body else body)
  | .method ms type name params (some body) =>
    .method ms type name params (some (if Declares body x then sparingAll x body else body))
  | m => m

/-- Where the body of a constructor or method declares a variable `x`, its type can be told
there, or there is a parameter of this name. -/
def Member.Settles (x : String) : Member → Prop
  | .constructor _ _ params body =>
    Declares body x → x ∈ (bindings params).map Binding.name ∨ DeclaresTyped body x
  | .method _ _ _ params (some body) =>
    Declares body x → x ∈ (bindings params).map Binding.name ∨ DeclaresTyped body x
  | _ => True

instance (x : String) : (m : Member) → Decidable (m.Settles x)
  | .constructor _ _ _ _ => inferInstanceAs (Decidable (_ → _))
  | .method _ _ _ _ (some _) => inferInstanceAs (Decidable (_ → _))
  | .method _ _ _ _ none => inferInstanceAs (Decidable True)
  | .field _ _ _ => inferInstanceAs (Decidable True)
  | .nested _ => inferInstanceAs (Decidable True)

/-- What is not seen in bare assignments is seen in the rest. -/
theorem filterMap_sparing {β : Type} {select : Sighting → Option β}
    (h : ∀ y source, select (.bareAssignment y source) = none) (x : String) (ss : List Sighting) :
    (ss.filter fun s => !s.assignsBare x).filterMap select = ss.filterMap select := by
  rw [List.filterMap_filter]
  congr 1
  funext s
  cases s with
  | bareAssignment y source => rw [h y source, ite_self]
  | argument | access | typeUse | ownAssignment | «variable» | delegation => rfl

/-- Of the bare assignments, those to the other names are left. -/
theorem bareAssignments_sparing (x : String) (ss : List Sighting) :
    Sighting.bareAssignments (ss.filter fun s => !s.assignsBare x)
      = (Sighting.bareAssignments ss).filter fun a => a.field != x := by
  unfold Sighting.bareAssignments
  rw [List.filterMap_filter, List.filter_filterMap]
  congr 1
  funext s
  cases s with
  | bareAssignment y source => simp [Sighting.assignsBare, Option.filter, bne]
  | argument | access | typeUse | ownAssignment | «variable» | delegation => rfl

/-- Calls of other constructors are left as they are. -/
theorem delegates_sparing (x : String) (ss : List Sighting) :
    Sighting.delegates (ss.filter fun s => !s.assignsBare x) = Sighting.delegates ss := by
  unfold Sighting.delegates
  rw [List.any_filter]
  congr 1
  funext s
  cases s with
  | bareAssignment y source => exact Bool.and_false _
  | argument | access | typeUse | ownAssignment | «variable» | delegation => rfl

/-- Assignments to a variable play no part in the facts about a body. -/
theorem factsOf_sparing {params : List Binding} {code : List Code} {x : String}
    (h : x ∈ params.map Binding.name ∨ DeclaresTyped code x) (fields : List String) :
    factsOf params fields (allSightings (sparingAll x code))
      = factsOf params fields (allSightings code) := by
  have hvariable : (params.any (fun b => b.name == x)
      || (Sighting.locals (allSightings code)).any fun b => b.name == x) = true := by
    rw [any_name_eq, any_name_eq, Bool.or_eq_true, decide_eq_true_eq, decide_eq_true_eq,
      mem_locals_iff]
    exact h
  have hlocals : Sighting.locals ((allSightings code).filter fun s => !s.assignsBare x)
      = Sighting.locals (allSightings code) := filterMap_sparing (fun _ _ => rfl) x _
  have haccesses : Sighting.accesses ((allSightings code).filter fun s => !s.assignsBare x)
      = Sighting.accesses (allSightings code) := filterMap_sparing (fun _ _ => rfl) x _
  have harguments : Sighting.arguments ((allSightings code).filter fun s => !s.assignsBare x)
      = Sighting.arguments (allSightings code) := filterMap_sparing (fun _ _ => rfl) x _
  have huses : Sighting.typeUses ((allSightings code).filter fun s => !s.assignsBare x)
      = Sighting.typeUses (allSightings code) := filterMap_sparing (fun _ _ => rfl) x _
  have hown : Sighting.ownAssignments ((allSightings code).filter fun s => !s.assignsBare x)
      = Sighting.ownAssignments (allSightings code) := filterMap_sparing (fun _ _ => rfl) x _
  -- what was taken out assigns to a variable, and would not be kept anyway
  have hkept : ∀ a : FieldAssignment,
      ((fields.contains a.field && !(params.any (fun b => b.name == a.field)
          || (Sighting.locals (allSightings code)).any fun b => b.name == a.field))
        && a.field != x)
      = (fields.contains a.field && !(params.any (fun b => b.name == a.field)
          || (Sighting.locals (allSightings code)).any fun b => b.name == a.field)) := by
    intro a
    by_cases ha : a.field = x
    · rw [ha, hvariable, Bool.not_true, Bool.and_false, Bool.false_and]
    · rw [bne_iff_ne.mpr ha, Bool.and_true]
  simp only [factsOf, allSightings_sparingAll, hlocals, haccesses, harguments, huses, hown,
    delegates_sparing, bareAssignments_sparing, List.filter_filter, hkept]

/-- A constructor that settles the name has the same declaration without these assignments. -/
theorem Member.constructor?_sparing {x : String} {m : Member} (h : m.Settles x)
    (inInterface : Bool) (fields : List String) :
    (m.sparing x).constructor? inInterface fields = m.constructor? inInterface fields := by
  cases m with
  | constructor ms name params body =>
    by_cases hdeclares : Declares body x
    · simp only [Member.sparing, Member.constructor?, if_pos hdeclares,
        factsOf_sparing (h hdeclares)]
    · simp only [Member.sparing, if_neg hdeclares]
  | method ms type name params body => cases body <;> rfl
  | field | nested => rfl

/-- So has a method. -/
theorem Member.method?_sparing {x : String} {m : Member} (h : m.Settles x)
    (inInterface : Bool) (fields : List String) :
    (m.sparing x).method? inInterface fields = m.method? inInterface fields := by
  cases m with
  | method ms type name params body =>
    cases body with
    | none => rfl
    | some body =>
      by_cases hdeclares : Declares body x
      · simp only [Member.sparing, Member.method?, if_pos hdeclares,
          factsOf_sparing (h hdeclares), Option.isNone_some]
      · simp only [Member.sparing, if_neg hdeclares]
  | constructor | field | nested => rfl

/-- Fields have no assignments in them. -/
theorem Member.fieldDecls_sparing (x : String) (m : Member) (inInterface : Bool) :
    (m.sparing x).fieldDecls inInterface = m.fieldDecls inInterface := by
  cases m with
  | method ms type name params body => cases body <;> rfl
  | constructor | field | nested => rfl

/-- The declaration of a type does not depend on assignments to variables. -/
theorem TypeHead.declaration_sparing (file : FileContext) (name : String) (head : TypeHead)
    {members : List Member} {x : String} (h : ∀ m ∈ members, m.Settles x) :
    head.declaration file name (members.map (Member.sparing x))
      = head.declaration file name members := by
  have hfields : ∀ inInterface, (members.map (Member.sparing x)).flatMap
        (Member.fieldDecls inInterface)
      = members.flatMap (Member.fieldDecls inInterface) := by
    intro inInterface
    rw [List.flatMap_map]
    congr 1
    funext m
    exact m.fieldDecls_sparing x inInterface
  have hconstructors : ∀ inInterface fields, (members.map (Member.sparing x)).filterMap
        (Member.constructor? inInterface fields)
      = members.filterMap (Member.constructor? inInterface fields) := by
    intro inInterface fields
    rw [List.filterMap_map]
    exact List.filterMap_congr fun m hm => Member.constructor?_sparing (h m hm) inInterface fields
  have hmethods : ∀ inInterface fields, (members.map (Member.sparing x)).filterMap
        (Member.method? inInterface fields)
      = members.filterMap (Member.method? inInterface fields) := by
    intro inInterface fields
    rw [List.filterMap_map]
    exact List.filterMap_congr fun m hm => Member.method?_sparing (h m hm) inInterface fields
  simp only [TypeHead.declaration, hfields, hconstructors, hmethods]

/-- In a body with these facts, each declared variable is kept apart exactly if a parameter has
its name, if its type can be told, or if there is nothing to mistake. -/
def HidesExactly (fields : List String) (code : List Code) (c : MethodDecl) : Prop :=
  ∀ x, Declares code x → (KeptApart code c x ↔
    x ∈ c.params.map Binding.name ∨ DeclaresTyped code x ∨ NothingToMistake fields code x)

/-- A body with the facts of its code hides names exactly as they say. -/
theorem hidesExactly_of_body_eq {fields : List String} {code : List Code} {c : MethodDecl}
    (h : c.body = factsOf c.params fields (allSightings code)) : HidesExactly fields code c := by
  intro x _
  rw [(respectsScope_of_body_eq h).keptApart_iff, mem_variables_iff h, or_assoc]

/-- **When a local variable hides the field of its name.** In every constructor and method of
a type, a variable that the body declares is kept apart from the field and from the type of
its name exactly if its type can be told, if there is a parameter of this name, or if nothing
could be mistaken. And where the first or second holds in all bodies that declare `x`, their
assignments to the bare `x` have no effect on the declaration, and so on no relationship. -/
theorem TypeHead.declaration_hidesExactly (file : FileContext) (name : String) (head : TypeHead)
    (members : List Member) :
    let d := head.declaration file name members
    let fields := d.fields.map FieldDecl.name
    (∃ declared,
      d.constructors = (if head.keyword = .record
          then [canonicalConstructor head.name (bindings head.components)] else []) ++ declared
      ∧ List.Forall₂ (HidesExactly fields) (members.filterMap Member.constructorBody?) declared)
    ∧ List.Forall₂ (HidesExactly fields) (members.filterMap Member.methodBody?) d.methods
    ∧ ∀ x, (∀ m ∈ members, m.Settles x) →
      head.declaration file name (members.map (Member.sparing x)) = d := by
  intro d fields
  obtain ⟨hconstructors, hmethods⟩ :=
    head.forall₂_declaration hidesExactly_of_body_eq file name members
  exact ⟨hconstructors, hmethods, fun x hsettles => head.declaration_sparing file name hsettles⟩

/-- The head of a class `Hub`. -/
def hubHead : TypeHead := ⟨.class, [], "Hub", 1, 7, [], []⟩

/-- The members of a class `Hub` with a field `logger` and a constructor. -/
def hubMembers (body : List Code) : List Member :=
  [.field [] (.simple "Logger") [.mk "logger" 0 [] none], .constructor [] "Hub" [] body]

/-- The code `type logger = make(); logger = new Logger();`. -/
def reassigned (type : TypeExpr) : List Code :=
  [.locals [] type [.mk "logger" 0 [] (some (.invoke "make" []))],
   .group [.assign (.name "logger") (.create [] (.simple "Logger") [] [])]]

/-- A variable with a written type hides the field. -/
theorem declaration_hidesExactly_hub :
    (∀ m ∈ hubMembers (reassigned (.simple "Logger")), m.Settles "logger")
    ∧ (hubMembers (reassigned (.simple "Logger"))).map (Member.sparing "logger")
      = hubMembers [.locals [] (.simple "Logger") [.mk "logger" 0 [] (some (.invoke "make" []))],
          .group [.group [.create [] (.simple "Logger") [] []]]]
    ∧ hubHead.declaration ⟨"Hub.java", []⟩ "Hub"
        ((hubMembers (reassigned (.simple "Logger"))).map (Member.sparing "logger"))
      = hubHead.declaration ⟨"Hub.java", []⟩ "Hub" (hubMembers (reassigned (.simple "Logger"))) :=
        by
  have hsettles : ∀ m ∈ hubMembers (reassigned (.simple "Logger")), m.Settles "logger" := by
    decide
  exact ⟨hsettles, rfl, (TypeHead.declaration_hidesExactly _ _ _ _).2.2 "logger" hsettles⟩

/-- A variable declared with `var` and the result of a call does not: the assignment to it is
taken for one to the field, and makes the field a part of the hub. -/
theorem var_mistaken_for_field :
    let hub := hubHead.declaration ⟨"Hub.java", []⟩ "Hub" (hubMembers (reassigned (.simple "var")))
    Declares (reassigned (.simple "var")) "logger"
    ∧ ∃ c f, hub.constructors = [c] ∧ hub.fields = [f] ∧ f.name = "logger"
      ∧ c.body.fieldAssignments = [⟨"logger", .construct (.plain "Logger")⟩]
      ∧ ¬ KeptApart (reassigned (.simple "var")) c "logger"
      ∧ hub.ownershipClue (m := Id) (fun _ => .ok (.scalar "Logger")) f "Logger"
        = .constructedInline := by
  intro hub
  refine ⟨by decide, _, _, rfl, rfl, rfl, rfl, fun hapart => ?_, rfl⟩
  cases hapart.assignments

end ClassDiagram.Java
