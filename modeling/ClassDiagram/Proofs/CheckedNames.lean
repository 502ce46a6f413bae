import ClassDiagram.Proofs.EdgeGroups

/-!
# The names that are checked

A declaration holds names in a dozen places, and what passes the checks should have none that
is empty or has a blank, wherever it stands: not its own name, no name in a type, and no name
that an edge can bear as its label. `ClassDecl.WellNamed` says this of all places at once.

The checks go through nearly all of them. What they leave out is listed here: the types of
fresh instances (`createdTypes`), and the names that only a body introduces (`bodyLabels`).
`wellNamed_exactly` says that nothing else is left out, so that an accepted declaration is
well named exactly when these are. `accepted_not_wellNamed` shows each of the gaps.
-/

namespace ClassDiagram

namespace Dotted

/-- Not empty and without blanks. -/
def IsPlainName (name : String) : Prop :=
  name ≠ "" ∧ ∀ c ∈ name.toList, Text.isBlank c = false

/-- A plain name with something before, between and after its dots. -/
def IsDottedName (name : String) : Prop :=
  IsPlainName name ∧ ∀ segment ∈ name.toList.splitOn '.', segment ≠ []

-- the characters of the name are gone through, and not all characters there are
instance (name : String) : Decidable (IsPlainName name) :=
  @instDecidableAnd _ _ inferInstance (List.decidableBAll _ _)

instance (name : String) : Decidable (IsDottedName name) :=
  inferInstanceAs (Decidable (_ ∧ _))

theorem segments_eq_splitOn (cs : List Char) : segments cs = cs.splitOn '.' := by
  induction cs with
  | nil => rfl
  | cons c rest ih =>
    rw [segments, ih, List.splitOn_cons_eq_if_modifyHead]
    simp only [beq_iff_eq]
    split
    · rfl
    · -- there is always a segment to put the character before
      cases hrest : rest.splitOn '.' with
      | nil => exact absurd hrest (List.splitOn_ne_nil _ _)
      | cons segment more => rfl

/-- The check of a qualified name accepts exactly the dotted names. -/
theorem isQualified_iff {name : String} : isQualified name = true ↔ IsDottedName name := by
  rw [isQualified, Bool.and_eq_true, isIdentifier_iff, segments_eq_splitOn, List.all_eq_true]
  simp only [Bool.not_eq_true', List.isEmpty_eq_false_iff]
  rfl

end Dotted

open Dotted

/-- Every name in a type is a dotted name. -/
def TypeRef.DottedNames (t : TypeRef) : Prop :=
  ∀ name ∈ t.names, IsDottedName name

instance (t : TypeRef) : Decidable t.DottedNames :=
  inferInstanceAs (Decidable (∀ name ∈ t.names, IsDottedName name))

/-! ## The places of names -/

namespace MethodDecl

variable (method : MethodDecl)

/-- The names that only the body introduces: of local variables, and of what is used of a
type. -/
def bodyLabels : List String :=
  method.body.locals.map (·.name) ++ method.body.staticCalls.map (·.method)

/-- The types of the fresh instances that are assigned to fields. -/
def createdTypes : List TypeRef :=
  method.body.fieldAssignments.flatMap (·.source.types)

/-- The types that are checked. -/
def checkedTypes : List TypeRef :=
  method.params.map (·.type) ++ method.returnType.toList ++ method.body.locals.map (·.type)
    ++ method.body.staticCalls.map (·.type)

end MethodDecl

namespace ClassDecl

variable (decl : ClassDecl)

/-- All types in a declaration: those that classification may ask for, and the results of its
methods. -/
def typeRefs : List TypeRef :=
  decl.types ++ decl.callables.flatMap (·.returnType.toList)

/-- The names that edges can bear as labels. -/
def labels : List String :=
  decl.fields.map (·.name)
    ++ decl.callables.flatMap fun m => m.params.map (·.name) ++ m.bodyLabels

/-- A declaration without an empty or broken name in any place that is read later. -/
structure WellNamed : Prop where
  name : IsDottedName decl.name
  types : ∀ t ∈ decl.typeRefs, t.DottedNames
  labels : ∀ label ∈ decl.labels, IsPlainName label

instance : Decidable decl.WellNamed :=
  decidable_of_iff (IsDottedName decl.name ∧ (∀ t ∈ decl.typeRefs, t.DottedNames)
      ∧ ∀ label ∈ decl.labels, IsPlainName label)
    ⟨fun ⟨name, types, labels⟩ => ⟨name, types, labels⟩,
      fun ⟨name, types, labels⟩ => ⟨name, types, labels⟩⟩

/-- The types of fresh instances. -/
def createdTypes : List TypeRef :=
  decl.fields.flatMap (·.initializer.types) ++ decl.callables.flatMap (·.createdTypes)

def bodyLabels : List String :=
  decl.callables.flatMap (·.bodyLabels)

/-- The types that are checked. -/
def checkedTypes : List TypeRef :=
  decl.fields.map (·.type) ++ decl.callables.flatMap (·.checkedTypes)
    ++ decl.supertypes.map (·.type)

variable {decl}

/-- The types that a declaration mentions are those its check looks at and those it only
creates. -/
theorem mem_typeRefs_iff {t : TypeRef} :
    t ∈ decl.typeRefs ↔ t ∈ decl.checkedTypes ∨ t ∈ decl.createdTypes := by
  simp only [typeRefs, types, checkedTypes, createdTypes, MethodDecl.types, MethodDecl.checkedTypes,
    MethodDecl.createdTypes, List.mem_append, List.mem_flatMap, List.mem_cons]
  grind

/-- The labels that a declaration can put on an edge, by where they stand. -/
theorem mem_labels_iff {label : String} :
    label ∈ decl.labels ↔ (∃ f ∈ decl.fields, f.name = label)
      ∨ (∃ m ∈ decl.callables, ∃ p ∈ m.params, p.name = label) ∨ label ∈ decl.bodyLabels := by
  simp only [labels, bodyLabels, List.mem_append, List.mem_flatMap, List.mem_map]
  grind

/-! ## What later stages read -/

theorem mem_labels_of_mem_usagesFrom {answers : Answers} {method : MethodDecl}
    (hmethod : method ∈ decl.callables) {c : Candidate} (h : c ∈ usagesFrom answers method)
    {label : String} (hlabel : c.label = some label) : label ∈ decl.labels := by
  refine mem_labels_iff.mpr (.inr ?_)
  rcases List.mem_append.mp h with hreference | hstatic
  · obtain ⟨b, hb, hc⟩ := List.mem_flatMap.mp hreference
    rw [Usage.label_of_mem_candidates hc] at hlabel
    cases hlabel
    rcases List.mem_append.mp hb with hparam | hlocal
    · exact .inl ⟨method, hmethod, b, (List.mem_filter.mp hparam).1, rfl⟩
    · exact .inr (List.mem_flatMap.mpr
        ⟨method, hmethod, List.mem_append_left _ (List.mem_map_of_mem hlocal)⟩)
  · obtain ⟨call, hcall, hc⟩ := List.mem_flatMap.mp hstatic
    rw [Usage.label_of_mem_candidates hc] at hlabel
    cases hlabel
    exact .inr (List.mem_flatMap.mpr
      ⟨method, hmethod, List.mem_append_right _ (List.mem_map_of_mem hcall)⟩)

/-- The label of an edge is a name in one of the listed places. -/
theorem mem_labels_of_mem_edgesFrom {answers : Answers} {r : Relationship}
    (h : r ∈ edgesFrom answers decl) {label : String} (hlabel : r.label = some label) :
    label ∈ decl.labels := by
  rw [edgesFrom, RelationshipSet.ofList_edges] at h
  obtain ⟨c, hc, rfl⟩ := List.mem_map.mp (mem_of_mem_firstsAfter h)
  change c.label = some label at hlabel
  rcases List.mem_append.mp hc with hfirst | huse
  · rcases List.mem_append.mp hfirst with hsup | hfield
    · rw [label_of_mem_supertypes hsup] at hlabel
      cases hlabel
    · obtain ⟨f, hf, hmem⟩ := List.mem_flatMap.mp hfield
      rw [StoredMember.label_of_mem_candidates hmem] at hlabel
      cases hlabel
      exact mem_labels_iff.mpr (.inl ⟨f, hf, rfl⟩)
  · obtain ⟨method, hmethod, hmem⟩ := List.mem_flatMap.mp (List.mem_filter.mp huse).1
    exact mem_labels_of_mem_usagesFrom hmethod hmem hlabel

/-! ## What the checks cover -/

section

open Validation

variable (h : checkDeclaration decl = .ok ())

include h

theorem dottedNames_of_mem_checkedTypes {t : TypeRef} (ht : t ∈ decl.checkedTypes) :
    t.DottedNames := by
  obtain ⟨-, hfields, hcallables, hsupertypes⟩ := checkDeclaration_eq_ok_iff.mp h
  have hdotted : ∀ {t : TypeRef}, (∀ name ∈ t.names, isQualified name = true) → t.DottedNames :=
    fun hnames name hname => isQualified_iff.mp (hnames name hname)
  rcases List.mem_append.mp ht with hfirst | hsup
  · rcases List.mem_append.mp hfirst with hfield | hcallable
    · obtain ⟨f, hf, rfl⟩ := List.mem_map.mp hfield
      exact hdotted (of_checkFields hfields f hf).2
    · obtain ⟨m, hm, hmem⟩ := List.mem_flatMap.mp hcallable
      obtain ⟨-, hparams, hresult, hlocals, hstatics⟩ := checkCallable_eq_ok_iff.mp (hcallables m
        hm)
      rcases List.mem_append.mp hmem with hbefore | hstatic
      · rcases List.mem_append.mp hbefore with hbefore | hlocal
        · rcases List.mem_append.mp hbefore with hparam | hreturn
          · obtain ⟨p, hp, rfl⟩ := List.mem_map.mp hparam
            exact hdotted (of_checkParams hparams p hp).2
          · exact hdotted (hresult t (Option.mem_toList.mp hreturn))
        · obtain ⟨l, hl, rfl⟩ := List.mem_map.mp hlocal
          exact hdotted (hlocals l hl)
      · obtain ⟨c, hc, rfl⟩ := List.mem_map.mp hstatic
        exact hdotted (hstatics c hc)
  · obtain ⟨sup, hmem, rfl⟩ := List.mem_map.mp hsup
    exact hdotted (hsupertypes sup hmem)

theorem isPlainName_of_field {f : FieldDecl} (hf : f ∈ decl.fields) : IsPlainName f.name := by
  obtain ⟨-, hfields, -, -⟩ := checkDeclaration_eq_ok_iff.mp h
  exact isIdentifier_iff.mp (of_checkFields hfields f hf).1

theorem isPlainName_of_param {m : MethodDecl} (hm : m ∈ decl.callables) {p : Binding}
    (hp : p ∈ m.params) : IsPlainName p.name := by
  obtain ⟨-, -, hcallables, -⟩ := checkDeclaration_eq_ok_iff.mp h
  obtain ⟨-, hparams, -⟩ := checkCallable_eq_ok_iff.mp (hcallables m hm)
  exact isIdentifier_iff.mp (of_checkParams hparams p hp).1

end

/-- **What the checks cover.** An accepted declaration is well named, in its own name, in all
types and in all labels, if and only if the types of fresh instances have dotted names and the
names that only bodies introduce are plain: all else is checked. The labels are those that its
edges bear, whatever the resolver answers. -/
theorem wellNamed_exactly (decl : ClassDecl) (h : Validation.checkDeclaration decl = .ok ()) :
    (decl.WellNamed ↔ (∀ t ∈ decl.createdTypes, t.DottedNames)
      ∧ ∀ label ∈ decl.bodyLabels, IsPlainName label)
    ∧ ∀ (s : Scope) (m m' : Memo) (edges : List Relationship),
      (decl.relationships (Resolver.remembering s)).run m = (.ok edges, m') →
      ∀ r ∈ edges, ∀ label, r.label = some label → label ∈ decl.labels := by
  refine ⟨⟨fun hnamed => ⟨fun t ht => ?_, fun label hlabel => ?_⟩, ?_⟩, ?_⟩
  · exact hnamed.types t (mem_typeRefs_iff.mpr (.inr ht))
  · exact hnamed.labels label (mem_labels_iff.mpr (.inr (.inr hlabel)))
  · rintro ⟨hcreated, hbody⟩
    refine ⟨?_, fun t ht => ?_, fun label hlabel => ?_⟩
    · exact isQualified_iff.mp (Validation.checkDeclaration_eq_ok_iff.mp h).1
    · rcases mem_typeRefs_iff.mp ht with hchecked | hmem
      · exact dottedNames_of_mem_checkedTypes h hchecked
      · exact hcreated t hmem
    · rcases mem_labels_iff.mp hlabel with ⟨f, hf, rfl⟩ | ⟨m, hm, p, hp, rfl⟩ | hmem
      · exact isPlainName_of_field h hf
      · exact isPlainName_of_param h hm hp
      · exact hbody label hmem
  · intro s m m' edges hrun r hr label hlabel
    obtain ⟨-, rfl⟩ := of_relationships_run hrun
    exact mem_labels_of_mem_edgesFrom hr hlabel

/-- A hub that fills its fields itself and uses a helper. -/
def carefulHub : ClassDecl where
  name := "home.Hub"
  kind := .class
  fields :=
    [{ name := "rooms", type := .named "List" [.plain "Room"]
       initializer := .construct (.named "java.util.ArrayList" []) },
     { name := "logger", type := .plain "Logger" }]
  constructors :=
    [{ name := "Hub"
       body := { fieldAssignments := [⟨"logger", .construct (.plain "FileLogger")⟩]
                 locals := [⟨"light", .array (.plain "Light")⟩]
                 staticCalls := [⟨.plain "Helper", "assist"⟩] } }]

/-- A hub whose initializers and assignments build well-named types is accepted, and then every
name it holds is well formed. -/
theorem wellNamed_exactly_hub :
    Validation.checkDeclaration carefulHub = .ok () ∧ carefulHub.WellNamed :=
  ⟨rfl, (wellNamed_exactly carefulHub rfl).1.mpr (by decide)⟩

/-- Four hubs with one broken name each: in an initializer, in a fresh instance that a
constructor assigns, of a local variable, and of what is used of a type. -/
def carelessHubs : List ClassDecl :=
  [{ name := "Hub", kind := .class
     fields := [{ name := "logger", type := .plain "Logger"
                  initializer := .construct (.plain "") }] },
   { name := "Hub", kind := .class
     fields := [{ name := "logger", type := .plain "Logger" }]
     constructors := [{ name := "Hub"
                        body := { fieldAssignments :=
                          [⟨"logger", .construct (.plain "File Logger")⟩] } }] },
   { name := "Hub", kind := .class
     methods := [{ name := "open", body := { locals := [⟨"", .plain "Room"⟩] } }] },
   { name := "Hub", kind := .class
     methods := [{ name := "open"
                   body := { staticCalls := [⟨.plain "Helper", "as sist"⟩] } }] }]

/-- All four pass the checks. -/
theorem accepted_not_wellNamed :
    carelessHubs.map Validation.checkDeclaration = [.ok (), .ok (), .ok (), .ok ()]
    ∧ ∀ decl ∈ carelessHubs, ¬ decl.WellNamed :=
  ⟨rfl, by decide⟩

end ClassDecl

end ClassDiagram
