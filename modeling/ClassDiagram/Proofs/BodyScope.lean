import ClassDiagram.Java.Extraction
import ClassDiagram.Proofs.FirstOccurrences
import Mathlib.Data.List.Forall2

/-!
# Names in a body keep to their scope

What a name in a body stands for is judged by the parameters of the constructor or method,
its local variables and the fields around it. `RespectsScope` states the judgement on the
nodes of the body (`allNodes`): those of nested statements, lambdas and arguments are among
them, those of nested types are not.

The tree is walked once, in `filterMap_allSightings`: whatever is selected among the
sightings of a body, arguments, variables and delegations aside, is what each of its nodes
shows on its own, from left to right. From there on everything is about a list of nodes.
Two facts close the gap between what was collected and what is reported: a variable is a
parameter or a local variable of the finished facts (`isVariable_eq`), and an assigned name
is a parameter only if it is among them (`judged_assignSource`).
-/

namespace ClassDiagram

/-- The names of the parameters and local variables of a constructor or method. -/
def MethodDecl.variables (c : MethodDecl) : List String :=
  (c.params ++ c.body.locals).map Binding.name

namespace Java

/-! ## The nodes of a body -/

mutual

/-- All nodes inside a node, each before its parts and parts in the order of the source. A
declared type and the body of an anonymous class are not entered. -/
def Code.inner : Code → List Code
  | .name _ => []
  | .this => []
  | .access object _ => object :: object.inner
  | .invoke _ args => allNodes args
  | .call receiver notes _ args => receiver :: receiver.inner ++ allNodes notes ++ allNodes args
  | .create before _ args _ => allNodes before ++ allNodes args
  | .assign target value => target :: target.inner ++ value :: value.inner
  | .locals notes _ declarators => allNodes notes ++ declaratorNodes declarators
  | .forEach notes _ _ parts => allNodes notes ++ allNodes parts
  | .delegate _ before args => allNodes before ++ allNodes args
  | .declare _ => []
  | .group parts => allNodes parts

/-- Some nodes, each with all nodes inside it. -/
def allNodes : List Code → List Code
  | [] => []
  | c :: rest => c :: c.inner ++ allNodes rest

/-- The nodes in the values of declared variables. -/
def declaratorNodes : List Declarator → List Code
  | [] => []
  | d :: rest => d.nodes ++ declaratorNodes rest

/-- The nodes in the value of a declared variable. -/
def Declarator.nodes : Declarator → List Code
  | .mk _ _ notes none => allNodes notes
  | .mk _ _ notes (some value) => allNodes notes ++ value :: value.inner

end

namespace Code

/-- The receiver and the member of a node `receiver.member` or `receiver.member(…)` whose
receiver is a bare name. -/
def receiver? : Code → Option (String × String)
  | .access (.name x) member => some (x, member)
  | .call (.name x) _ member _ => some (x, member)
  | _ => none

/-- The field of a node `this.field.method(…)`. -/
def calledField? : Code → Option String
  | .call (.access .this field) _ _ _ => some field
  | _ => none

/-- The field and the value of a node `this.field = value`. -/
def ownAssignment? : Code → Option (String × Code)
  | .assign (.access .this field) value => some (field, value)
  | _ => none

/-- The name and the value of a node `x = value`. -/
def bareAssignment? : Code → Option (String × Code)
  | .assign (.name x) value => some (x, value)
  | _ => none

/-- What an assigned expression is, where `params` are the names of the parameters. -/
def sourceAmong (params : List String) : Code → AssignSource
  | .create _ type _ _ =>
    match type.toTypeRef? with
    | some t => .construct t
    | none => .other
  | .name x => if x ∈ params then .parameter x else .other
  | _ => .other

end Code

/-- Whether a name begins with an ASCII capital. -/
def isCapitalized (name : String) : Bool :=
  name.toList.head?.any Char.isUpper

/-- The facts about a constructor or method `c` with the body `code`, in a type with the
given fields, say of each name what it stands for. -/
structure RespectsScope (fields : List String) (code : List Code) (c : MethodDecl) : Prop where
  /-- The assignments to fields: those through `this`, then those to a bare name that is a
  field and no variable, both in the order of the source. -/
  assignments : c.body.fieldAssignments =
    ((allNodes code).filterMap Code.ownAssignment?
      ++ ((allNodes code).filterMap Code.bareAssignment?).filter
          fun a => a.1 ∈ fields ∧ a.1 ∉ c.variables).map
      fun a => ⟨a.1, a.2.sourceAmong (c.params.map Binding.name)⟩
  /-- What is assigned as a parameter is one. -/
  parameters : ∀ a ∈ c.body.fieldAssignments, ∀ p,
    a.source = .parameter p → p ∈ c.params.map Binding.name
  /-- The uses of types: each occurrence of a capitalized receiver that is neither a variable
  nor a field, in the order of the source. -/
  statics : c.body.staticCalls =
    (((allNodes code).filterMap Code.receiver?).filter
      fun r => isCapitalized r.1 ∧ r.1 ∉ c.variables ∧ r.1 ∉ fields).map
      fun r => ⟨.plain r.1, r.2⟩
  /-- The names of which a member is accessed: all other bare receivers, and the fields on
  which a method is called through `this`. -/
  accesses : ∀ x, x ∈ c.body.memberAccesses ↔
    (∃ member, (x, member) ∈ (allNodes code).filterMap Code.receiver?
      ∧ (isCapitalized x → x ∈ c.variables ∨ x ∈ fields))
    ∨ x ∈ (allNodes code).filterMap Code.calledField?
  accesses_nodup : c.body.memberAccesses.Nodup
  arguments_nodup : c.body.callArguments.Nodup

/-! ## What is seen, node by node -/

/-- What is seen of a node itself and judged by the names in scope. -/
def Code.shows (n : Code) : List Sighting :=
  ((n.receiver?.filter fun r => isCapitalized r.1).map fun r => .typeUse r.1 r.2).toList
    ++ ((n.receiver?.filter fun r => !isCapitalized r.1).map fun r => .access r.1).toList
    ++ (n.calledField?.map .access).toList
    ++ (n.ownAssignment?.map fun a => .ownAssignment a.1 a.2.assignSource).toList
    ++ (n.bareAssignment?.map fun a => .bareAssignment a.1 a.2.assignSource).toList

/-- A bare receiver is seen in one of two ways. -/
theorem Code.shows_eq_receiver {n : Code} {x member : String}
    (hreceiver : n.receiver? = some (x, member)) (hfield : n.calledField? = none)
    (hown : n.ownAssignment? = none) (hbare : n.bareAssignment? = none) :
    n.shows = [.receiver x member] := by
  have hcase : Sighting.receiver x member
      = if isCapitalized x then .typeUse x member else .access x := by
    rw [Sighting.receiver, isCapitalized]
    cases x.toList.head? <;> rfl
  rw [Code.shows, hreceiver, hfield, hown, hbare, hcase]
  by_cases hx : isCapitalized x = true <;> simp [Option.filter, hx]

/-- An access shows its object and then what is in it. -/
theorem Code.sightings_access (object : Code) (member : String) :
    (Code.access object member).sightings
      = (Code.access object member).shows ++ object.sightings := by
  cases object with
  | name x => rw [Code.shows_eq_receiver rfl rfl rfl rfl]; rfl
  | this | access | invoke | call | create | assign | locals | forEach | delegate | declare
  | group => rfl

theorem Code.shows_call (receiver : Code) (notes : List Code) (x : String) (args : List Code) :
    (Code.call receiver notes x args).shows = callSightings receiver x := by
  cases receiver with
  | name y => exact Code.shows_eq_receiver rfl rfl rfl rfl
  | access object field => cases object <;> rfl
  | this | invoke | call | create | assign | locals | forEach | delegate | declare
  | group => rfl

theorem Code.shows_assign (target value : Code) :
    (Code.assign target value).shows = assignSightings target value := by
  cases target with
  | access object field => cases object <;> rfl
  | name | this | invoke | call | create | assign | locals | forEach | delegate | declare
  | group => rfl

/-- What a node shows by itself: a receiver, which is a type or not by its first letter, a called
field, and an assignment. -/
theorem Code.filterMap_shows {β : Type} (select : Sighting → Option β) (n : Code) :
    n.shows.filterMap select
      = ((n.receiver?.filter fun r => isCapitalized r.1).bind
            fun r => select (.typeUse r.1 r.2)).toList
        ++ ((n.receiver?.filter fun r => !isCapitalized r.1).bind
            fun r => select (.access r.1)).toList
        ++ (n.calledField?.bind fun field => select (.access field)).toList
        ++ (n.ownAssignment?.bind
            fun a => select (.ownAssignment a.1 a.2.assignSource)).toList
        ++ (n.bareAssignment?.bind
            fun a => select (.bareAssignment a.1 a.2.assignSource)).toList := by
  have hpart : ∀ {α : Type} (f : α → Sighting) (o : Option α),
      (o.map f).toList.filterMap select = (o.bind fun a => select (f a)).toList := by
    intro α f o
    cases o with
    | none => rfl
    | some a => cases h : select (f a) <;> simp [h]
  simp only [Code.shows, List.filterMap_append, hpart]

/-- A selection of sightings that no argument, variable or delegation belongs to. -/
structure OfNames {β : Type} (select : Sighting → Option β) : Prop where
  no_argument : ∀ x, select (.argument x) = none
  no_variable : ∀ v, select (.variable v) = none
  no_delegation : select .delegation = none

section

variable {β : Type} {select : Sighting → Option β}

/-- Arguments show no name that is used in any other way. -/
theorem filterMap_argumentSightings (h : OfNames select) (args : List Code) :
    (argumentSightings args).filterMap select = [] := by
  refine List.filterMap_eq_nil_iff.mpr fun s hs => ?_
  obtain ⟨c, -, hc⟩ := List.mem_filterMap.mp hs
  cases c with
  | name x =>
    cases hc
    exact h.no_argument x
  | this | access | invoke | call | create | assign | locals | forEach | delegate | declare
  | group => cases hc

/-- Neither do local variables. -/
theorem filterMap_localSightings (h : OfNames select) (type : TypeExpr)
    (declarators : List Declarator) :
    (localSightings type declarators).filterMap select = [] := by
  refine List.filterMap_eq_nil_iff.mpr fun s hs => ?_
  obtain ⟨d, -, hd⟩ := List.mem_filterMap.mp hs
  obtain ⟨t, -, rfl⟩ := Option.map_eq_some_iff.mp hd
  exact h.no_variable _

mutual

/-- What is selected in a node is what it and the nodes inside it show. -/
theorem filterMap_sightings (h : OfNames select) : ∀ c : Code,
    c.sightings.filterMap select = (c :: c.inner).flatMap fun n => n.shows.filterMap select
  | .name _ => rfl
  | .this => rfl
  | .access object member => by
    rw [Code.sightings_access, List.filterMap_append, Code.inner, List.flatMap_cons,
      filterMap_sightings h object]
  | .invoke x args => by
    rw [Code.sightings, List.filterMap_append, filterMap_argumentSightings h,
      filterMap_allSightings h args, Code.inner, List.flatMap_cons]
    rfl
  | .call receiver notes x args => by
    simp only [Code.sightings, List.filterMap_append, filterMap_argumentSightings h,
      filterMap_sightings h receiver, filterMap_allSightings h, Code.inner, List.flatMap_cons,
      List.flatMap_append, List.append_assoc, List.cons_append, List.nil_append, Code.shows_call]
  | .create before type args body => by
    simp only [Code.sightings, List.filterMap_append, filterMap_argumentSightings h,
      filterMap_allSightings h, Code.inner, List.flatMap_cons, List.flatMap_append,
      List.append_nil]
    rfl
  | .assign target value => by
    simp only [Code.sightings, List.filterMap_append, filterMap_sightings h target,
      filterMap_sightings h value, Code.inner, List.flatMap_cons,
      List.flatMap_append, List.append_assoc, List.cons_append, Code.shows_assign]
  | .locals notes type declarators => by
    simp only [Code.sightings, List.filterMap_append, filterMap_localSightings h,
      filterMap_allSightings h, filterMap_variableSightings h, Code.inner, List.flatMap_cons,
      List.flatMap_append, List.nil_append]
    rfl
  | .forEach notes type x parts => by
    -- the variable of the loop is seen first, and never selected
    have hloop : (Code.forEach notes type x parts).sightings.filterMap select
        = (allSightings notes ++ allSightings parts).filterMap select := by
      rw [Code.sightings]
      cases type.toTypeRef? with
      | none => rfl
      | some t => exact List.filterMap_cons_none (h.no_variable _)
    rw [hloop, List.filterMap_append, filterMap_allSightings h notes,
      filterMap_allSightings h parts, Code.inner, List.flatMap_cons, List.flatMap_append]
    rfl
  | .delegate toThis before args => by
    have hfirst : List.filterMap select (if toThis then [.delegation] else []) = [] := by
      cases toThis with
      | false => rfl
      | true => rw [if_pos rfl, List.filterMap_cons_none h.no_delegation, List.filterMap_nil]
    simp only [Code.sightings, List.filterMap_append, hfirst, filterMap_argumentSightings h,
      filterMap_allSightings h, Code.inner, List.flatMap_cons, List.flatMap_append,
      List.append_nil, List.nil_append]
    rfl
  | .declare _ => rfl
  | .group parts => by
    rw [Code.sightings, filterMap_allSightings h parts, Code.inner, List.flatMap_cons]
    rfl

/-- What code shows of names is what its nodes show, one after the other. -/
theorem filterMap_allSightings (h : OfNames select) : ∀ cs : List Code,
    (allSightings cs).filterMap select = (allNodes cs).flatMap fun n => n.shows.filterMap select
  | [] => rfl
  | c :: rest => by
    rw [allSightings, List.filterMap_append, filterMap_sightings h c, filterMap_allSightings h rest,
      allNodes, List.flatMap_append]

/-- The same for the values of variables. -/
theorem filterMap_variableSightings (h : OfNames select) : ∀ ds : List Declarator,
    (variableSightings ds).filterMap select
      = (declaratorNodes ds).flatMap fun n => n.shows.filterMap select
  | [] => rfl
  | d :: rest => by
    rw [variableSightings, List.filterMap_append, Declarator.filterMap_sightings h d,
      filterMap_variableSightings h rest, declaratorNodes, List.flatMap_append]

theorem Declarator.filterMap_sightings (h : OfNames select) : ∀ d : Declarator,
    d.sightings.filterMap select = d.nodes.flatMap fun n => n.shows.filterMap select
  | .mk _ _ notes none => by
    rw [Declarator.sightings, Declarator.nodes, filterMap_allSightings h notes]
  | .mk _ _ notes (some value) => by
    rw [Declarator.sightings, Declarator.nodes, List.filterMap_append,
      filterMap_allSightings h notes, Java.filterMap_sightings h value, List.flatMap_append]

end

end

/-! ## What each kind of sighting comes to -/

section

variable (code : List Code)

/-- The assignments to the object are those of all nodes, in their order. -/
theorem ownAssignments_allSightings : Sighting.ownAssignments (allSightings code)
    = ((allNodes code).filterMap Code.ownAssignment?).map
        fun a => ⟨a.1, a.2.assignSource⟩ := by
  rw [Sighting.ownAssignments, filterMap_allSightings ⟨fun _ => rfl, fun _ => rfl, rfl⟩,
    List.map_filterMap, List.filterMap_eq_flatMap_toList]
  simp only [Code.filterMap_shows, Option.bind_fun_none, Option.toList_none, List.nil_append,
    List.append_nil, Option.map_eq_bind, Function.comp_def]

/-- So are the assignments to bare names. -/
theorem bareAssignments_allSightings : Sighting.bareAssignments (allSightings code)
    = ((allNodes code).filterMap Code.bareAssignment?).map
        fun a => ⟨a.1, a.2.assignSource⟩ := by
  rw [Sighting.bareAssignments, filterMap_allSightings ⟨fun _ => rfl, fun _ => rfl, rfl⟩,
    List.map_filterMap, List.filterMap_eq_flatMap_toList]
  simp only [Code.filterMap_shows, Option.bind_fun_none, Option.toList_none, List.nil_append,
    Option.map_eq_bind, Function.comp_def]

/-- Receivers with a capital letter are taken for types at first. -/
theorem typeUses_allSightings : Sighting.typeUses (allSightings code)
    = ((allNodes code).filterMap Code.receiver?).filter fun r => isCapitalized r.1 := by
  rw [Sighting.typeUses, filterMap_allSightings ⟨fun _ => rfl, fun _ => rfl, rfl⟩,
    List.filter_filterMap, List.filterMap_eq_flatMap_toList]
  simp only [Code.filterMap_shows, Option.bind_fun_none, Option.toList_none, List.append_nil,
    Prod.eta, Option.bind_fun_some]

/-- Other receivers, and fields on which something is called, are accesses. -/
theorem mem_accesses_allSightings {x : String} : x ∈ Sighting.accesses (allSightings code)
    ↔ (∃ member, (x, member) ∈ (allNodes code).filterMap Code.receiver? ∧ ¬ isCapitalized x)
      ∨ x ∈ (allNodes code).filterMap Code.calledField? := by
  have hnode : ∀ n : Code, x ∈ Sighting.accesses n.shows
      ↔ (∃ member, n.receiver? = some (x, member) ∧ ¬ isCapitalized x)
        ∨ n.calledField? = some x := by
    intro n
    rw [Sighting.accesses, Code.filterMap_shows]
    simp [Option.bind_eq_some_iff, Option.filter_eq_some_iff]
  rw [Sighting.accesses, filterMap_allSightings ⟨fun _ => rfl, fun _ => rfl, rfl⟩,
    List.mem_flatMap]
  constructor
  · rintro ⟨n, hn, hx⟩
    rcases (hnode n).mp hx with ⟨member, hreceiver, hcap⟩ | hfield
    · exact .inl ⟨member, List.mem_filterMap.mpr ⟨n, hn, hreceiver⟩, hcap⟩
    · exact .inr (List.mem_filterMap.mpr ⟨n, hn, hfield⟩)
  · rintro (⟨member, hmem, hcap⟩ | hmem)
    · obtain ⟨n, hn, hreceiver⟩ := List.mem_filterMap.mp hmem
      exact ⟨n, hn, (hnode n).mpr (.inl ⟨member, hreceiver, hcap⟩)⟩
    · obtain ⟨n, hn, hfield⟩ := List.mem_filterMap.mp hmem
      exact ⟨n, hn, (hnode n).mpr (.inr hfield)⟩

end

/-! ## What the facts say -/

/-- First occurrences are what is left without repetitions. -/
theorem firstOccurrences_eq (xs : List String) :
    firstOccurrences xs = firstsAfter id [] xs := by
  have hfold : firstOccurrences xs = xs.foldl (keepNew id) [] := by
    rw [firstOccurrences]
    congr 1
    funext seen x
    rw [keepNew, any_key_eq, List.map_id, id]
  rw [hfold, foldl_keepNew, List.map_nil, List.nil_append]

/-- None of them occurs twice. -/
theorem nodup_firstOccurrences (xs : List String) : (firstOccurrences xs).Nodup := by
  rw [firstOccurrences_eq]
  exact nodup_firstsAfter_id [] xs

/-- Whether a name is bound is decided by the names alone. -/
theorem any_name_eq (bs : List Binding) (x : String) :
    (bs.any fun b => b.name == x) = decide (x ∈ bs.map Binding.name) := by
  rw [Bool.eq_iff_iff]
  simp

/-- A bare name that is assigned is a parameter, if there is one of this name. -/
theorem judged_assignSource (params : List Binding) (field : String) (value : Code) :
    FieldAssignment.judged params ⟨field, value.assignSource⟩
      = ⟨field, value.sourceAmong (params.map Binding.name)⟩ := by
  cases value with
  | name x =>
    simp only [FieldAssignment.judged, Code.assignSource, Code.sourceAmong, any_name_eq,
      decide_eq_true_eq]
    split <;> rfl
  | create before type args body =>
    simp only [Code.assignSource, Code.sourceAmong]
    cases type.toTypeRef? <;> rfl
  | this | access | invoke | call | assign | locals | forEach | delegate | declare
  | group => rfl

/-- A parameter that is assigned is one of the parameters. -/
theorem mem_of_sourceAmong_eq {params : List String} {value : Code} {p : String}
    (h : value.sourceAmong params = .parameter p) : p ∈ params := by
  cases value with
  | name x =>
    rw [Code.sourceAmong] at h
    split at h
    · cases h
      assumption
    · cases h
  | create before type args body =>
    rw [Code.sourceAmong] at h
    cases htype : type.toTypeRef? <;> rw [htype] at h <;> cases h
  | this | access | invoke | call | assign | locals | forEach | delegate | declare
  | group => cases h

section

variable {fields : List String} {code : List Code} {c : MethodDecl}
  (h : c.body = factsOf c.params fields (allSightings code))

include h

/-- A name is a variable if it is a parameter or a local variable. -/
theorem isVariable_eq (x : String) :
    (c.params.any (fun b => b.name == x)
        || (Sighting.locals (allSightings code)).any fun b => b.name == x)
      = decide (x ∈ c.variables) := by
  have hlocals : c.body.locals = Sighting.locals (allSightings code) := by rw [h, factsOf]
  rw [any_name_eq, any_name_eq, ← Bool.decide_or, decide_eq_decide, MethodDecl.variables,
    hlocals, List.map_append, List.mem_append]

/-- Assignments to the object come first, then those to bare names of fields that no variable
hides. -/
theorem fieldAssignments_eq : c.body.fieldAssignments =
    ((allNodes code).filterMap Code.ownAssignment?
      ++ ((allNodes code).filterMap Code.bareAssignment?).filter
          fun a => a.1 ∈ fields ∧ a.1 ∉ c.variables).map
      fun a => ⟨a.1, a.2.sourceAmong (c.params.map Binding.name)⟩ := by
  rw [h]
  simp only [factsOf, isVariable_eq h, ownAssignments_allSightings, bareAssignments_allSightings]
  rw [List.filter_map, ← List.map_append, List.map_map]
  simp [Function.comp_def, judged_assignSource]

/-- Static calls are those on capitalized names that are neither variables nor fields. -/
theorem staticCalls_eq : c.body.staticCalls =
    (((allNodes code).filterMap Code.receiver?).filter
      fun r => isCapitalized r.1 ∧ r.1 ∉ c.variables ∧ r.1 ∉ fields).map
      fun r => ⟨.plain r.1, r.2⟩ := by
  rw [h]
  simp only [factsOf, isVariable_eq h, typeUses_allSightings]
  rw [List.filter_filter]
  congr 2
  funext r
  simp [Bool.and_comm]

/-- What else something is called on is an access. -/
theorem mem_memberAccesses_iff (x : String) : x ∈ c.body.memberAccesses ↔
    (∃ member, (x, member) ∈ (allNodes code).filterMap Code.receiver?
      ∧ (isCapitalized x → x ∈ c.variables ∨ x ∈ fields))
    ∨ x ∈ (allNodes code).filterMap Code.calledField? := by
  rw [h]
  simp only [factsOf, isVariable_eq h, typeUses_allSightings]
  rw [firstOccurrences_eq, mem_firstsAfter_id, List.mem_append, mem_accesses_allSightings]
  have hvalues : ∀ uses : List (String × String),
      x ∈ ((uses.filter fun r => isCapitalized r.1).filter
          fun u => decide (u.1 ∈ c.variables) || fields.contains u.1).map (·.1)
        ↔ ∃ member, (x, member) ∈ uses ∧ (x ∈ c.variables ∨ x ∈ fields)
          ∧ isCapitalized x := by
    intro uses
    simp [and_assoc]
  rw [hvalues]
  -- a capitalized name comes from the second list only, any other one from the first
  by_cases hx : isCapitalized x = true <;> simp [hx, or_comm]

end

/-! ## The constructors and methods of a type -/

/-- The body of a member that is a constructor. -/
def Member.constructorBody? : Member → Option (List Code)
  | .constructor _ _ _ body => some body
  | _ => none

/-- The body of a member that is a method, empty if it has none. -/
def Member.methodBody? : Member → Option (List Code)
  | .method _ _ _ _ body => some (body.getD [])
  | _ => none

/-- The facts about a body are judged by the names in scope. -/
theorem respectsScope_of_body_eq {fields : List String} {code : List Code} {c : MethodDecl}
    (h : c.body = factsOf c.params fields (allSightings code)) :
    RespectsScope fields code c where
  assignments := fieldAssignments_eq h
  parameters := by
    intro a ha p hp
    rw [fieldAssignments_eq h] at ha
    obtain ⟨b, -, rfl⟩ := List.mem_map.mp ha
    exact mem_of_sourceAmong_eq hp
  statics := staticCalls_eq h
  accesses := mem_memberAccesses_iff h
  accesses_nodup := by
    rw [h]
    exact nodup_firstOccurrences _
  arguments_nodup := by
    rw [h]
    exact nodup_firstOccurrences _

section

variable {R : List String → List Code → MethodDecl → Prop}
  (hR : ∀ {fields : List String} {code : List Code} {c : MethodDecl},
    c.body = factsOf c.params fields (allSightings code) → R fields code c)
include hR

/-- What holds of every body and the facts about it holds of a constructor. -/
theorem Member.constructor?_rel (inInterface : Bool) (fields : List String) (m : Member) :
    Option.Rel (R fields) m.constructorBody? (m.constructor? inInterface fields) := by
  cases m with
  | constructor => exact .some (hR rfl)
  | field | method | nested => exact .none

/-- It holds of a method as well, whose body is empty if it has none. -/
theorem Member.method?_rel (inInterface : Bool) (fields : List String) (m : Member) :
    Option.Rel (R fields) m.methodBody? (m.method? inInterface fields) := by
  cases m with
  | method ms type name params body =>
    cases body with
    | none => exact .some (hR rfl)
    | some body => exact .some (hR rfl)
  | field | constructor | nested => exact .none

/-- In the declaration of a type it holds of every declared constructor and every method, in the
order of the members. The one constructor more is that of a record. -/
theorem TypeHead.forall₂_declaration (file : FileContext) (name : String) (head : TypeHead)
    (members : List Member) :
    let d := head.declaration file name members
    let fields := d.fields.map FieldDecl.name
    (∃ declared,
      d.constructors = (if head.keyword = .record
          then [canonicalConstructor head.name (bindings head.components)] else []) ++ declared
      ∧ List.Forall₂ (R fields) (members.filterMap Member.constructorBody?) declared)
    ∧ List.Forall₂ (R fields) (members.filterMap Member.methodBody?) d.methods := by
  intro d fields
  have halign : ∀ {f : Member → Option (List Code)} {g : Member → Option MethodDecl},
      (∀ m, Option.Rel (R fields) (f m) (g m)) →
        List.Forall₂ (R fields) (members.filterMap f) (members.filterMap g) := by
    intro f g h
    refine List.rel_filterMap (R := Eq) (fun m m' heq => ?_) (List.forall₂_refl members)
    rw [← heq]
    exact h m
  refine ⟨⟨members.filterMap (Member.constructor? (head.kind == .interface) fields), ?_, ?_⟩, ?_⟩
  · by_cases hrecord : head.keyword = .record
    · simp [d, fields, TypeHead.declaration, hrecord]
    · simp [d, fields, TypeHead.declaration, hrecord]
  · exact halign (Member.constructor?_rel hR _ fields)
  · exact halign (Member.method?_rel hR (head.kind == .interface) fields)

end

/-- In the declaration of a type, every declared constructor and every method respects the
scope of its body. The one constructor more is that of a record. -/
theorem TypeHead.declaration_respectsScope (file : FileContext) (name : String) (head : TypeHead)
    (members : List Member) :
    let d := head.declaration file name members
    let fields := d.fields.map FieldDecl.name
    (∃ declared,
      d.constructors = (if head.keyword = .record
          then [canonicalConstructor head.name (bindings head.components)] else []) ++ declared
      ∧ List.Forall₂ (RespectsScope fields) (members.filterMap Member.constructorBody?) declared)
    ∧ List.Forall₂ (RespectsScope fields) (members.filterMap Member.methodBody?) d.methods :=
  head.forall₂_declaration respectsScope_of_body_eq file name members

end Java

end ClassDiagram
