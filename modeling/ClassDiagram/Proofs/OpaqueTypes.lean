import ClassDiagram.Java.Grammar
import ClassDiagram.Proofs.Consultation
import ClassDiagram.Proofs.Sightings

/-!
# Nested types are opaque

The types inside a body, anonymous ones included, are a scope of their own, and the facts
about the body should not depend on what stands in them. `Code.hollow` empties them, and the
facts are the same. The arguments of the call that creates an anonymous class stay, and count
like any others.

There is one way in which the contents of a nested type come to light after all. A dotted type
name, and the brackets after a type, are known by the text they were written as, and this text
holds the annotations inside it, with any class that is created in an annotation. A
`TypeView` says how much of a written type is looked at: `TypeView.exact` all of it, and
`TypeView.outline` nothing of the texts. `allSightings_hollowAll` holds of both, so that two
bodies that agree in outline have the same facts up to the types in these, and the very same
facts exactly if the types are the same (`factsOf_opaque`).
-/

namespace ClassDiagram

/-- The source of an assignment with another type for a fresh instance. -/
def AssignSource.mapType (f : TypeRef → TypeRef) : AssignSource → AssignSource
  | .construct t => .construct (f t)
  | .parameter p => .parameter p
  | .other => .other

/-- The facts about a body with other types. -/
def BodyFacts.mapTypes (f : TypeRef → TypeRef) (b : BodyFacts) : BodyFacts :=
  { b with
    fieldAssignments := b.fieldAssignments.map fun a => ⟨a.field, a.source.mapType f⟩
    locals := b.locals.map fun l => ⟨l.name, f l.type⟩ }

/-- The types of fresh instances in some assignments. -/
def freshTypes (assignments : List FieldAssignment) : List TypeRef :=
  assignments.flatMap (·.source.types)

/-- Assignments that agree but for their types, and in their types, are the same. -/
theorem assignments_eq_of_mapType_eq {f : TypeRef → TypeRef} :
    ∀ {as bs : List FieldAssignment},
      (as.map fun a => (⟨a.field, a.source.mapType f⟩ : FieldAssignment))
        = (bs.map fun a => ⟨a.field, a.source.mapType f⟩) →
      freshTypes as = freshTypes bs → as = bs
  | [], [], _, _ => rfl
  | ⟨x, source⟩ :: as, ⟨y, source'⟩ :: bs, h, htypes => by
    rw [List.map_cons, List.map_cons, List.cons.injEq, FieldAssignment.mk.injEq] at h
    obtain ⟨⟨rfl, hsource⟩, hrest⟩ := h
    rw [freshTypes, freshTypes, List.flatMap_cons, List.flatMap_cons] at htypes
    -- the two sources have a type each, or none of them has one
    cases source <;> cases source' <;> simp only [AssignSource.mapType, reduceCtorEq] at hsource
    case construct.construct t u =>
      obtain ⟨rfl, hmore⟩ := List.cons.inj htypes
      rw [assignments_eq_of_mapType_eq hrest hmore]
    case parameter.parameter p q =>
      cases hsource
      rw [assignments_eq_of_mapType_eq hrest htypes]
    case other.other => rw [assignments_eq_of_mapType_eq hrest htypes]

/-- Bindings are the same if their names and their types are. -/
theorem bindings_eq_of_map_eq {as bs : List Binding}
    (hname : as.map Binding.name = bs.map Binding.name)
    (htype : as.map Binding.type = bs.map Binding.type) : as = bs := by
  have hzip : ∀ ls : List Binding,
      ls = List.zipWith Binding.mk (ls.map Binding.name) (ls.map Binding.type) := by
    intro ls
    rw [List.zipWith_map, List.zipWith_self, List.map_id']
  rw [hzip as, hzip bs, hname, htype]

/-- Facts that agree but for their types are the same exactly if the types of the local
variables and of the fresh instances are. -/
theorem BodyFacts.eq_iff_of_mapTypes_eq {f : TypeRef → TypeRef} {a b : BodyFacts}
    (h : a.mapTypes f = b.mapTypes f) :
    a = b ↔ a.locals.map Binding.type = b.locals.map Binding.type
      ∧ freshTypes a.fieldAssignments = freshTypes b.fieldAssignments := by
  constructor
  · rintro rfl
    exact ⟨rfl, rfl⟩
  · rintro ⟨hlocals, hfresh⟩
    obtain ⟨accesses, arguments, assignments, statics, locals, delegates⟩ := a
    obtain ⟨accesses', arguments', assignments', statics', locals', delegates'⟩ := b
    simp only [BodyFacts.mapTypes, BodyFacts.mk.injEq] at h
    obtain ⟨rfl, rfl, hassignments, rfl, hbindings, rfl⟩ := h
    have hname : locals.map Binding.name = locals'.map Binding.name := by
      simpa [Function.comp_def] using congrArg (List.map Binding.name) hbindings
    rw [assignments_eq_of_mapType_eq hassignments hfresh, bindings_eq_of_map_eq hname hlocals]

/-- Looking at types as they are changes no facts. -/
theorem BodyFacts.mapTypes_id (b : BodyFacts) : b.mapTypes id = b := by
  have hsource : ∀ source : AssignSource, source.mapType id = source := by
    intro source
    cases source <;> rfl
  simp [BodyFacts.mapTypes, hsource]

namespace Java

/-! ## Views of types -/

/-- How much of the types in a body is looked at. -/
structure TypeView where
  /-- What is left of a written type. -/
  written : TypeExpr → TypeExpr
  /-- What is left of the number of brackets after a name. -/
  brackets : Nat → Nat
  /-- What is left of a type in the facts about the body. -/
  seen : TypeRef → TypeRef

/-- What is left of the written types determines what is left of those in the facts. -/
structure TypeView.Lawful (v : TypeView) : Prop where
  var_iff : ∀ t, v.written t = .simple "var" ↔ t = .simple "var"
  type : ∀ t, (v.written t).toTypeRef?.map v.seen = t.toTypeRef?.map v.seen
  withBrackets : ∀ t n, (v.written t).toTypeRef?.map (fun r => v.seen (r.arrayOf (v.brackets n)))
    = t.toTypeRef?.map fun r => v.seen (r.arrayOf n)

mutual

/-- A written type without the texts of its dotted names and the number of its brackets. -/
def TypeExpr.outline : TypeExpr → TypeExpr
  | .void => .void
  | .simple name => .simple name
  | .scoped _ => .scoped ""
  | .generic _ args => .generic "" (outlineArgs args)
  | .array element _ => .array element.outline 0
  | .unbounded => .unbounded
  | .bounded bound => .bounded bound.outline

def outlineArgs : List TypeExpr → List TypeExpr
  | [] => []
  | a :: rest => a.outline :: outlineArgs rest

end

namespace TypeView

/-- Types as they are written. -/
def exact : TypeView := ⟨id, id, id⟩

/-- Types without the texts of dotted names and the number of brackets. What they are in the
facts is left open. -/
def outline : TypeView := ⟨TypeExpr.outline, fun _ => 0, fun _ => .plain ""⟩

/-- Looking at types as they are is lawful. -/
theorem lawful_exact : exact.Lawful where
  var_iff _ := Iff.rfl
  type _ := rfl
  withBrackets _ _ := rfl

/-- Whether a written type is one can be told from its outline. -/
theorem isType_outline : ∀ t : TypeExpr, t.outline.isType = t.isType
  | .void | .simple _ | .scoped _ | .generic _ _ | .unbounded => by
    simp [TypeExpr.outline, TypeExpr.isType]
  | .array element _ => by
    rw [TypeExpr.outline, TypeExpr.isType, TypeExpr.isType, isType_outline element]
  | .bounded bound => by
    rw [TypeExpr.outline, TypeExpr.isType, TypeExpr.isType, isType_outline bound]

/-- The outline keeps what the facts about a body need of a type. -/
theorem lawful_outline : outline.Lawful := by
  have hconstant : ∀ (t : TypeExpr) (r : TypeRef),
      t.outline.toTypeRef?.map (fun _ => r) = t.toTypeRef?.map fun _ => r := by
    intro t r
    have hsome : t.outline.toTypeRef?.isSome = t.toTypeRef?.isSome := by
      rw [TypeExpr.isSome_toTypeRef?, isType_outline, TypeExpr.isSome_toTypeRef?]
    cases hleft : t.outline.toTypeRef? <;> cases hright : t.toTypeRef? <;> simp_all
  refine ⟨fun t => ?_, fun t => hconstant t _, fun t n => hconstant t _⟩
  cases t <;> simp [outline, TypeExpr.outline]

end TypeView

/-! ## Emptied code -/

mutual

/-- A node in which all nested types are empty, and of whose own types only a view is left. -/
def Code.hollow (v : TypeView) : Code → Code
  | .name x => .name x
  | .this => .this
  | .access object member => .access (object.hollow v) member
  | .invoke x args => .invoke x (hollowAll v args)
  | .call receiver notes x args =>
    .call (receiver.hollow v) (hollowAll v notes) x (hollowAll v args)
  | .create before type args _ =>
    .create (hollowAll v before) (v.written type) (hollowAll v args) []
  | .assign target value => .assign (target.hollow v) (value.hollow v)
  | .locals notes type declarators =>
    .locals (hollowAll v notes) (v.written type) (hollowDeclarators v declarators)
  | .forEach notes type x parts =>
    .forEach (hollowAll v notes) (v.written type) x (hollowAll v parts)
  | .delegate toThis before args => .delegate toThis (hollowAll v before) (hollowAll v args)
  | .declare _ => .declare default
  | .group parts => .group (hollowAll v parts)

/-- Code in which all nested types are empty. -/
def hollowAll (v : TypeView) : List Code → List Code
  | [] => []
  | c :: rest => c.hollow v :: hollowAll v rest

def hollowDeclarators (v : TypeView) : List Declarator → List Declarator
  | [] => []
  | d :: rest => d.hollow v :: hollowDeclarators v rest

def Declarator.hollow (v : TypeView) : Declarator → Declarator
  | .mk x n notes none => .mk x (v.brackets n) (hollowAll v notes) none
  | .mk x n notes (some value) => .mk x (v.brackets n) (hollowAll v notes) (some (value.hollow v))

end

/-- What a node with emptied types shows to the node around it. -/
def Face.hollow (v : TypeView) : Face → Face
  | .fresh type => .fresh (v.written type)
  | face => face

/-- What is left of the types in something seen. -/
def Sighting.through (v : TypeView) : Sighting → Sighting
  | .variable b => .variable ⟨b.name, v.seen b.type⟩
  | .ownAssignment field source => .ownAssignment field (source.mapType v.seen)
  | .bareAssignment field source => .bareAssignment field (source.mapType v.seen)
  | s => s

/-! ## What is seen in emptied code -/

/-- The face of code without its nested types is its face under the view. -/
theorem Code.face_hollow (v : TypeView) (c : Code) : (c.hollow v).face = c.face.hollow v := by
  cases c with
  | access object member => cases object <;> rfl
  | name | this | invoke | call | create | assign | locals | forEach | delegate | declare
  | group => rfl

namespace Face

variable (v : TypeView) (face : Face)

/-- A view of types does not change which names are passed as arguments. -/
theorem argument?_hollow : (face.hollow v).argument? = face.argument? := by
  cases face <;> rfl

/-- Nor which names are accessed. -/
theorem accessed_hollow (member : String) :
    (face.hollow v).accessed member = face.accessed member := by
  cases face <;> rfl

/-- Nor what is called. -/
theorem called_hollow (method : String) :
    (face.hollow v).called method = face.called method := by
  cases face <;> rfl

/-- Nor where an assignment goes. -/
theorem assigned_hollow (source : AssignSource) :
    (face.hollow v).assigned source = face.assigned source := by
  cases face <;> rfl

variable {v}

/-- The source of an assignment is changed as the view changes types. -/
theorem source_hollow (hv : v.Lawful) :
    (face.hollow v).source.mapType v.seen = face.source.mapType v.seen := by
  cases face with
  | fresh type =>
    have htype := hv.type type
    simp only [hollow, source]
    cases hleft : (v.written type).toTypeRef? <;> cases hright : type.toTypeRef? <;>
      simp_all [AssignSource.mapType]
  | name | this | own | other => rfl

/-- So is the type that is made. -/
theorem created?_hollow (hv : v.Lawful) :
    (face.hollow v).created?.map v.seen = face.created?.map v.seen := by
  cases face with
  | fresh type => exact hv.type type
  | name | this | own | other => rfl

end Face

/-- Arguments show the same without nested types. -/
theorem argumentSightings_hollow (v : TypeView) (args : List Code) :
    argumentSightings (hollowAll v args) = argumentSightings args := by
  rw [argumentSightings_eq, argumentSightings_eq]
  induction args with
  | nil => rfl
  | cons c rest ih =>
    rw [hollowAll, List.map_cons, List.map_cons, List.filterMap_cons, List.filterMap_cons, ih,
      Code.face_hollow, Face.argument?_hollow]

section

variable {v : TypeView}

/-- A variable has its type under the view. -/
theorem Declarator.type?_hollow (hv : v.Lawful) (type : TypeExpr) (d : Declarator) :
    ((d.hollow v).type? (v.written type)).map v.seen = (d.type? type).map v.seen := by
  rw [Declarator.type?_eq, Declarator.type?_eq]
  by_cases hvar : type = .simple "var"
  · subst hvar
    rw [(hv.var_iff _).mpr rfl]
    rcases d with ⟨x, n, notes, _ | value⟩
    · rfl
    · show (value.hollow v).face.created?.map v.seen = value.face.created?.map v.seen
      rw [Code.face_hollow, Face.created?_hollow _ hv]
  · have hwritten : v.written type ≠ .simple "var" := mt (hv.var_iff type).mp hvar
    have hdimensions : (d.hollow v).dimensions = v.brackets d.dimensions := by
      rcases d with ⟨x, n, notes, _ | value⟩ <;> rfl
    split
    next => contradiction
    next =>
      rw [Option.map_map, Option.map_map, hdimensions]
      exact hv.withBrackets type d.dimensions

/-- Local variables show the same, up to the view of their types. -/
theorem localSightings_hollow (hv : v.Lawful) (type : TypeExpr) (ds : List Declarator) :
    (localSightings (v.written type) (hollowDeclarators v ds)).map (Sighting.through v)
      = (localSightings type ds).map (Sighting.through v) := by
  unfold localSightings
  induction ds with
  | nil => rfl
  | cons d rest ih =>
    have hname : (d.hollow v).name = d.name := by
      rcases d with ⟨x, n, notes, _ | value⟩ <;> rfl
    have htype := d.type?_hollow hv type
    rw [hollowDeclarators, List.filterMap_cons, List.filterMap_cons, hname]
    cases hleft : (d.hollow v).type? (v.written type) <;> cases hright : d.type? type <;>
      simp_all [Sighting.through]

/-- So do assignments. -/
theorem assignSightings_hollow (hv : v.Lawful) (target value : Code) :
    (assignSightings (target.hollow v) (value.hollow v)).map (Sighting.through v)
      = (assignSightings target value).map (Sighting.through v) := by
  have hsource : (value.hollow v).face.source.mapType v.seen
      = value.face.source.mapType v.seen := by
    rw [Code.face_hollow, Face.source_hollow _ hv]
  rw [assignSightings_eq, assignSightings_eq, Code.face_hollow v target, Face.assigned_hollow]
  cases target.face <;> simp [Face.assigned, Sighting.through, hsource]

/-- So does the variable of a loop. -/
theorem map_through_variable (hv : v.Lawful) (type : TypeExpr) (x : String) :
    ((v.written type).toTypeRef?.map fun t => Sighting.variable ⟨x, t⟩).toList.map
        (Sighting.through v)
      = (type.toTypeRef?.map fun t => Sighting.variable ⟨x, t⟩).toList.map
          (Sighting.through v) := by
  have htype := hv.type type
  cases hleft : (v.written type).toTypeRef? <;> cases hright : type.toTypeRef? <;>
    simp_all [Sighting.through]

mutual

/-- Code shows the same without the types nested in it, up to the view of types. -/
theorem Code.sightings_hollow (hv : v.Lawful) : ∀ c : Code,
    (c.hollow v).sightings.map (Sighting.through v) = c.sightings.map (Sighting.through v)
  | .name _ => rfl
  | .this => rfl
  | .access object member => by
    rw [Code.hollow, Code.sightings_access_eq, Code.sightings_access_eq, Code.face_hollow,
      Face.accessed_hollow, List.map_append, List.map_append, Code.sightings_hollow hv object]
  | .invoke x args => by
    rw [Code.hollow, Code.sightings, Code.sightings, argumentSightings_hollow, List.map_append,
      List.map_append, allSightings_hollowAll hv args]
  | .call receiver notes x args => by
    simp only [Code.hollow, Code.sightings, callSightings_eq, Code.face_hollow,
      Face.called_hollow, argumentSightings_hollow, List.map_append,
      Code.sightings_hollow hv receiver, allSightings_hollowAll hv]
  | .create before type args body => by
    simp only [Code.hollow, Code.sightings, argumentSightings_hollow, List.map_append,
      allSightings_hollowAll hv]
  | .assign target value => by
    simp only [Code.hollow, Code.sightings, List.map_append, assignSightings_hollow hv,
      Code.sightings_hollow hv target, Code.sightings_hollow hv value]
  | .locals notes type declarators => by
    simp only [Code.hollow, Code.sightings, List.map_append, localSightings_hollow hv,
      allSightings_hollowAll hv, variableSightings_hollow hv declarators]
  | .forEach notes type x parts => by
    simp only [Code.hollow, Code.sightings_forEach_eq, List.map_append, map_through_variable hv,
      allSightings_hollowAll hv]
  | .delegate toThis before args => by
    simp only [Code.hollow, Code.sightings, argumentSightings_hollow, List.map_append,
      allSightings_hollowAll hv]
  | .declare _ => rfl
  | .group parts => by
    rw [Code.hollow, Code.sightings, Code.sightings, allSightings_hollowAll hv parts]

/-- What is seen in code does not depend on the types nested in it, and depends on its own
types only as far as the view goes. -/
theorem allSightings_hollowAll (hv : v.Lawful) : ∀ cs : List Code,
    (allSightings (hollowAll v cs)).map (Sighting.through v)
      = (allSightings cs).map (Sighting.through v)
  | [] => rfl
  | c :: rest => by
    rw [hollowAll, allSightings, allSightings, List.map_append, List.map_append,
      Code.sightings_hollow hv c, allSightings_hollowAll hv rest]

/-- So do the values of variables. -/
theorem variableSightings_hollow (hv : v.Lawful) : ∀ ds : List Declarator,
    (variableSightings (hollowDeclarators v ds)).map (Sighting.through v)
      = (variableSightings ds).map (Sighting.through v)
  | [] => rfl
  | d :: rest => by
    rw [hollowDeclarators, variableSightings, variableSightings, List.map_append,
      List.map_append, Declarator.sightings_hollow hv d, variableSightings_hollow hv rest]

theorem Declarator.sightings_hollow (hv : v.Lawful) : ∀ d : Declarator,
    (d.hollow v).sightings.map (Sighting.through v) = d.sightings.map (Sighting.through v)
  | .mk _ _ notes none => by
    rw [Declarator.hollow, Declarator.sightings, Declarator.sightings,
      allSightings_hollowAll hv notes]
  | .mk _ _ notes (some value) => by
    rw [Declarator.hollow, Declarator.sightings, Declarator.sightings, List.map_append,
      List.map_append, allSightings_hollowAll hv notes, Code.sightings_hollow hv value]

end

end

/-! ## The facts -/

/-- What does not depend on types is seen through any view. -/
theorem filterMap_through {β : Type} {v : TypeView} {select : Sighting → Option β}
    (h : ∀ s, select (s.through v) = select s) (ss : List Sighting) :
    (ss.map (Sighting.through v)).filterMap select = ss.filterMap select := by
  rw [List.filterMap_map]
  congr 1
  funext s
  exact h s

/-- The facts about what is seen through a view. -/
theorem factsOf_through (v : TypeView) (params : List Binding) (fields : List String)
    (ss : List Sighting) :
    factsOf params fields (ss.map (Sighting.through v))
      = (factsOf params fields ss).mapTypes v.seen := by
  have hlocals : Sighting.locals (ss.map (Sighting.through v))
      = (Sighting.locals ss).map fun b => ⟨b.name, v.seen b.type⟩ := by
    rw [Sighting.locals, Sighting.locals, List.filterMap_map, List.map_filterMap]
    congr 1
    funext s
    cases s <;> rfl
  have hbare : Sighting.bareAssignments (ss.map (Sighting.through v))
      = (Sighting.bareAssignments ss).map fun a => ⟨a.field, a.source.mapType v.seen⟩ := by
    rw [Sighting.bareAssignments, Sighting.bareAssignments, List.filterMap_map, List.map_filterMap]
    congr 1
    funext s
    cases s <;> rfl
  have hown : Sighting.ownAssignments (ss.map (Sighting.through v))
      = (Sighting.ownAssignments ss).map fun a => ⟨a.field, a.source.mapType v.seen⟩ := by
    rw [Sighting.ownAssignments, Sighting.ownAssignments, List.filterMap_map, List.map_filterMap]
    congr 1
    funext s
    cases s <;> rfl
  have haccesses : Sighting.accesses (ss.map (Sighting.through v)) = Sighting.accesses ss :=
    filterMap_through (fun s => by cases s <;> rfl) ss
  have harguments : Sighting.arguments (ss.map (Sighting.through v)) = Sighting.arguments ss :=
    filterMap_through (fun s => by cases s <;> rfl) ss
  have huses : Sighting.typeUses (ss.map (Sighting.through v)) = Sighting.typeUses ss :=
    filterMap_through (fun s => by cases s <;> rfl) ss
  have hdelegates : Sighting.delegates (ss.map (Sighting.through v)) = Sighting.delegates ss := by
    rw [Sighting.delegates, Sighting.delegates, List.any_map]
    congr 1
    funext s
    cases s <;> rfl
  have hjudged : ∀ a : FieldAssignment,
      FieldAssignment.judged params ⟨a.field, a.source.mapType v.seen⟩
        = ⟨(FieldAssignment.judged params a).field,
            (FieldAssignment.judged params a).source.mapType v.seen⟩ := by
    rintro ⟨field, source⟩
    cases source with
    | parameter p =>
      simp only [FieldAssignment.judged, AssignSource.mapType]
      split <;> rfl
    | construct | other => rfl
  simp only [factsOf, BodyFacts.mapTypes, hlocals, hbare, hown, haccesses, harguments, huses,
    hdelegates, List.any_map, Function.comp_def, List.filter_map, ← List.map_append, List.map_map,
    hjudged]

/-- The facts about two bodies that agree in a view of their types, nested types aside. -/
theorem factsOf_mapTypes_eq {v : TypeView} (hv : v.Lawful) {code₁ code₂ : List Code}
    (h : hollowAll v code₁ = hollowAll v code₂) (params : List Binding) (fields : List String) :
    (factsOf params fields (allSightings code₁)).mapTypes v.seen
      = (factsOf params fields (allSightings code₂)).mapTypes v.seen := by
  rw [← factsOf_through, ← factsOf_through, ← allSightings_hollowAll hv code₁, h,
    allSightings_hollowAll hv code₂]

/-! ## Arguments of a creation -/

/-- What is seen in the arguments of a creation, and these themselves, is seen in the code
around it. -/
theorem mem_allSightings_of_create {code before args : List Code} {type : TypeExpr}
    {body : List Member} (h : .create before type args body ∈ allNodes code) {s : Sighting}
    (hs : s ∈ argumentSightings args ++ allSightings args) : s ∈ allSightings code := by
  rw [mem_allSightings_iff]
  rcases List.mem_append.mp hs with hargument | hinner
  · exact ⟨_, h, hargument⟩
  · obtain ⟨n, hn, hshown⟩ := (mem_allSightings_iff args).mp hinner
    have hpart : n ∈ (Code.create before type args body).inner := by
      rw [Code.inner]
      exact List.mem_append_right _ hn
    exact ⟨n, allNodes_trans hpart code h, hshown⟩

/-- **Nested types are opaque** to the body around them, but for the texts of types. Two bodies
that agree, whatever stands in the types nested in them, have the same facts; if only the
texts of dotted types and the number of brackets differ as well, they have the same facts but
for types, and the same facts exactly if the types of their local variables and of the fresh
instances that they assign are the same. Arguments of a creation count in the body, whether
an anonymous class follows or not. -/
theorem factsOf_opaque (params : List Binding) (fields : List String) (code₁ code₂ : List Code)
    (h : hollowAll .outline code₁ = hollowAll .outline code₂) :
    let b₁ := factsOf params fields (allSightings code₁)
    let b₂ := factsOf params fields (allSightings code₂)
    (hollowAll .exact code₁ = hollowAll .exact code₂ → b₁ = b₂)
    ∧ b₁.mapTypes (fun _ => .plain "") = b₂.mapTypes (fun _ => .plain "")
    ∧ (b₁ = b₂ ↔ b₁.locals.map Binding.type = b₂.locals.map Binding.type
        ∧ freshTypes b₁.fieldAssignments = freshTypes b₂.fieldAssignments)
    ∧ ∀ before type args body, .create before type args body ∈ allNodes code₁ →
        (∀ x, .name x ∈ args → x ∈ b₁.callArguments)
        ∧ ∀ s ∈ allSightings args, s ∈ allSightings code₁ := by
  intro b₁ b₂
  have houtline : b₁.mapTypes (fun _ => .plain "") = b₂.mapTypes (fun _ => .plain "") :=
    factsOf_mapTypes_eq TypeView.lawful_outline h params fields
  refine ⟨fun hexact => ?_, houtline, BodyFacts.eq_iff_of_mapTypes_eq houtline, ?_⟩
  · have hsame := factsOf_mapTypes_eq TypeView.lawful_exact hexact params fields
    exact (BodyFacts.mapTypes_id b₁).symm.trans (hsame.trans (BodyFacts.mapTypes_id b₂))
  · intro before type args body hcreate
    refine ⟨fun x hx => ?_, fun s hs => mem_allSightings_of_create hcreate
      (List.mem_append_right _ hs)⟩
    have hargument : Sighting.argument x ∈ argumentSightings args :=
      List.mem_filterMap.mpr ⟨.name x, hx, rfl⟩
    have hseen := mem_allSightings_of_create hcreate (List.mem_append_left _ hargument)
    show x ∈ firstOccurrences (Sighting.arguments (allSightings code₁))
    rw [firstOccurrences_eq, mem_firstsAfter_id]
    exact ⟨List.mem_filterMap.mpr ⟨_, hseen, rfl⟩, List.not_mem_nil⟩

/-- The code `Room room = new Room(); start(new Task(room) { … });`. -/
def starting (body : List Member) : List Code :=
  [.locals [] (.simple "Room") [.mk "room" 0 [] (some (.create [] (.simple "Room") [] []))],
   .group [.invoke "start" [.create [] (.simple "Task") [.name "room"] body]]]

/-- An anonymous class that assigns to a field of its own. -/
def assigningBody : List Member :=
  [.field [] (.simple "Room") [.mk "room" 0 [] none],
   .method [] .void "run" [] (some [.group [.assign (.access .this "room") (.name "next")]])]

/-- An anonymous class with another body has the same outline, and the facts about the code
around it are the same. The name that is passed on is seen in both. -/
theorem factsOf_opaque_starting :
    hollowAll .outline (starting []) = hollowAll .outline (starting assigningBody)
    ∧ factsOf [] ["room"] (allSightings (starting []))
      = factsOf [] ["room"] (allSightings (starting assigningBody))
    ∧ "room" ∈ (factsOf [] ["room"] (allSightings (starting []))).callArguments := by
  have houtline : hollowAll .outline (starting []) = hollowAll .outline (starting assigningBody) :=
    rfl
  obtain ⟨hexact, -, -, hcreate⟩ :=
    factsOf_opaque [] ["room"] (starting []) (starting assigningBody) houtline
  refine ⟨houtline, hexact rfl, ?_⟩
  refine (hcreate [] (.simple "Task") [.name "room"] [] ?_).1 "room" (List.mem_singleton_self _)
  simp [starting, allNodes, Code.inner, declaratorNodes, Declarator.nodes]

/-- A class with a method that creates a door. The type of the door has an annotation inside
it, and in this an anonymous class with the given content is created. -/
def keptDoor (content : String) : String :=
  "class Hub \x7b void open() \x7b this.front = new House.@Kept(new Object() \x7b " ++ content
    ++ " \x7d) Door(); \x7d \x7d"

/-- The types of the fresh instances that the methods in a source text assign. -/
def assignedNames (source : String) : List String :=
  (declarations "Hub.java" source).flatMap fun d =>
    d.methods.flatMap fun m => (freshTypes m.body.fieldAssignments).flatMap TypeRef.names

/-- The content of an anonymous class shows in the name of a type. -/
theorem content_shows_in_types :
    assignedNames (keptDoor "int x;") = ["House.@Kept(newObject()\x7bintx;\x7d)Door"]
    ∧ assignedNames (keptDoor "int y;") = ["House.@Kept(newObject()\x7binty;\x7d)Door"] := by
  decide +kernel

end Java

end ClassDiagram
