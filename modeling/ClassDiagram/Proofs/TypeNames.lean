import ClassDiagram.Proofs.CheckedNames
import ClassDiagram.Proofs.MemberTypes
import ClassDiagram.Proofs.Sightings

/-!
# The names in types

Every name in a type of a declaration is a piece of the source without its blanks, or the
`Object` of a wildcard. It should be a dotted name, with a word before, between and after its
dots and nothing else in it. This holds exactly where the piece has no type arguments,
annotations or comments inside it, and each of these can be told from the name itself by one
character (`typeNames_plain_iff`). The name of a class type is the text of everything before
its last type arguments, so that `Outer<A>.Inner<B>` is not cut off before its first ones
(`raw_type_name`).

Where types come from is followed from the declaration down to the nodes of bodies. What a
body says about types is found among its sightings (`written_allSightings`), and nothing that
is judged later adds to them.
-/

namespace ClassDiagram.Java

open Text Lexer

variable {source : String}

/-! ## Types in bodies -/

/-- The types and names in something seen are written in the source. -/
def Sighting.Written (source : String) : Sighting → Prop
  | .variable v => NamedFrom source v.type
  | .typeUse receiver _ => TypeName source receiver
  | .ownAssignment _ value => ∀ t ∈ value.types, NamedFrom source t
  | .bareAssignment _ value => ∀ t ∈ value.types, NamedFrom source t
  | _ => True

/-- A single name of the source makes a type with names of the source. -/
theorem namedFrom_plain {n : String} (h : TypeName source n) : NamedFrom source (.plain n) := by
  intro m hm
  rw [TypeRef.plain, TypeRef.names, TypeRef.argumentNames, List.mem_singleton] at hm
  exact hm ▸ h

/-- Brackets add no name. -/
theorem namedFrom_arrayOf {t : TypeRef} (h : NamedFrom source t) (n : Nat) :
    NamedFrom source (t.arrayOf n) := by
  intro m hm
  rw [TypeExpr.names_arrayOf] at hm
  exact h m hm

theorem written_receiver {x member : String} (h : TypeName source x) :
    (Sighting.receiver x member).Written source := by
  unfold Sighting.receiver
  split
  · split
    · exact h
    · trivial
  · trivial

/-- A type that is made in an assignment is written where it is made. -/
theorem Code.namedFrom_assignSource {c : Code} (h : c.Written source) :
    ∀ t ∈ c.assignSource.types, NamedFrom source t := by
  cases c with
  | create before type args body =>
    rw [Code.assignSource]
    cases htype : type.toTypeRef? with
    | none => exact List.forall_mem_nil _
    | some t => exact List.forall_mem_singleton.mpr ((written_create.mp h).1 t htype)
  | name | this | access | invoke | call | assign | locals | forEach | delegate | declare
  | group => exact List.forall_mem_nil _

/-- So is one that an initializer makes. -/
theorem Code.namedFrom_created? {c : Code} (h : c.Written source) :
    ∀ t, c.created? = some t → NamedFrom source t := by
  cases c with
  | create before type args body => exact (written_create.mp h).1
  | name | this | access | invoke | call | assign | locals | forEach | delegate | declare
  | group => nofun

/-- Arguments show names that are no types. -/
theorem written_argumentSightings (args : List Code) :
    ∀ s ∈ argumentSightings args, s.Written source := by
  intro s hs
  obtain ⟨c, -, hc⟩ := List.mem_filterMap.mp hs
  cases c with
  | name x =>
    cases hc
    trivial
  | this | access | invoke | call | create | assign | locals | forEach | delegate | declare
  | group => cases hc

/-- A call shows its receiver, which may be a type. -/
theorem written_callSightings {receiver : Code} (h : receiver.Written source) (x : String) :
    ∀ s ∈ callSightings receiver x, s.Written source := by
  unfold callSightings
  split
  · exact List.forall_mem_singleton.mpr (written_receiver (Code.written_name.mp h))
  · exact List.forall_mem_singleton.mpr trivial
  · exact List.forall_mem_nil _

/-- An assignment shows the type that is made, if one is. -/
theorem written_assignSightings {target value : Code} (h : value.Written source) :
    ∀ s ∈ assignSightings target value, s.Written source := by
  unfold assignSightings
  split
  · exact List.forall_mem_singleton.mpr (Code.namedFrom_assignSource h)
  · exact List.forall_mem_singleton.mpr (Code.namedFrom_assignSource h)
  · exact List.forall_mem_nil _

/-- Local variables show the type before them. -/
theorem written_localSightings {type : TypeExpr} {ds : List Declarator}
    (htype : type.Written source) (hds : ∀ d ∈ ds, d.Written source) :
    ∀ s ∈ localSightings type ds, s.Written source := by
  intro s hs
  obtain ⟨d, hd, heq⟩ := List.mem_filterMap.mp hs
  obtain ⟨t, ht, rfl⟩ := Option.map_eq_some_iff.mp heq
  unfold Declarator.type? at ht
  split at ht
  · -- declared with `var`: the type is that of the value
    obtain ⟨value, hvalue, hcreated⟩ := Option.bind_eq_some_iff.mp ht
    obtain ⟨x, n, notes, _⟩ := d
    cases hvalue
    exact Code.namedFrom_created? ((hds _ hd).2 value rfl) t hcreated
  · obtain ⟨u, hu, rfl⟩ := Option.map_eq_some_iff.mp ht
    exact namedFrom_arrayOf (htype u hu) d.dimensions

/-- What a written node shows by itself is written. -/
theorem Code.written_ownSightings {n : Code} (h : n.Written source) :
    ∀ s ∈ n.ownSightings, s.Written source := by
  cases n with
  | access object member =>
    cases object with
    | name x =>
      have hname := Code.written_name.mp (Code.written_access.mp h)
      exact List.forall_mem_singleton.mpr (written_receiver hname)
    | this | access | invoke | call | create | assign | locals | forEach | delegate | declare
    | group => exact List.forall_mem_nil _
  | invoke x args => exact written_argumentSightings args
  | call receiver notes x args =>
    rw [Code.ownSightings, List.forall_mem_append]
    exact ⟨written_callSightings (Code.written_call.mp h).1 x, written_argumentSightings args⟩
  | create before type args body => exact written_argumentSightings args
  | assign target value => exact written_assignSightings (Code.written_assign.mp h).2
  | locals notes type ds =>
    obtain ⟨htype, -, hds⟩ := Code.written_locals.mp h
    exact written_localSightings htype hds
  | forEach notes type x parts =>
    rw [Code.ownSightings]
    cases ht : type.toTypeRef? with
    | none => exact List.forall_mem_nil _
    | some t => exact List.forall_mem_singleton.mpr ((Code.written_forEach.mp h).1 t ht)
  | delegate toThis before args =>
    rw [Code.ownSightings, List.forall_mem_append]
    refine ⟨?_, written_argumentSightings args⟩
    split
    · exact List.forall_mem_singleton.mpr trivial
    · exact List.forall_mem_nil _
  | name | this | declare | group => exact List.forall_mem_nil _

/-- Everything that written code shows is written. -/
theorem written_allSightings {code : List Code} (h : AllWritten source code) :
    ∀ s ∈ allSightings code, s.Written source := by
  have hown := forall_allNodes_iff.mpr h
  intro s hs
  obtain ⟨n, hn, hshown⟩ := (mem_allSightings_iff code).mp hs
  -- a node looks into its parts, and these are nodes of the code as well
  have hnode : n.Written source := ⟨hown n hn, fun m hm => hown m (allNodes_trans hm code hn)⟩
  exact Code.written_ownSightings hnode s hshown

section Selected

variable {ss : List Sighting}

/-- What is used as a type has been seen so. -/
theorem mem_of_mem_typeUses {u : String × String} (h : u ∈ Sighting.typeUses ss) :
    .typeUse u.1 u.2 ∈ ss := by
  obtain ⟨s, hs, heq⟩ := List.mem_filterMap.mp h
  cases s <;> cases heq
  exact hs

/-- An assignment to the object has been seen so. -/
theorem mem_of_mem_ownAssignments {a : FieldAssignment} (h : a ∈ Sighting.ownAssignments ss) :
    .ownAssignment a.field a.source ∈ ss := by
  obtain ⟨s, hs, heq⟩ := List.mem_filterMap.mp h
  cases s <;> cases heq
  exact hs

/-- So has an assignment to a bare name. -/
theorem mem_of_mem_bareAssignments {a : FieldAssignment} (h : a ∈ Sighting.bareAssignments ss) :
    .bareAssignment a.field a.source ∈ ss := by
  obtain ⟨s, hs, heq⟩ := List.mem_filterMap.mp h
  cases s <;> cases heq
  exact hs

end Selected

/-- The types in the facts about a body. -/
def factTypes (facts : BodyFacts) : List TypeRef :=
  facts.locals.map (·.type) ++ facts.staticCalls.map (·.type)
    ++ facts.fieldAssignments.flatMap (·.source.types)

/-- To find a parameter in an assignment adds no type. -/
theorem types_judged_subset (params : List Binding) (a : FieldAssignment) :
    (FieldAssignment.judged params a).source.types ⊆ a.source.types := by
  obtain ⟨field, value⟩ := a
  cases value with
  | parameter p =>
    simp only [FieldAssignment.judged]
    split <;> exact List.Subset.refl _
  | construct | other => exact List.Subset.refl _

/-- The types in the facts about a written body are of the source. -/
theorem namedFrom_factsOf {code : List Code} (h : AllWritten source code) (params : List Binding)
    (fields : List String) :
    ∀ t ∈ factTypes (factsOf params fields (allSightings code)), NamedFrom source t := by
  have hseen := written_allSightings h
  have hlocals : ∀ v ∈ Sighting.locals (allSightings code), NamedFrom source v.type :=
    fun v hv => hseen _ (Sighting.mem_locals.mp hv)
  have huses : ∀ u ∈ Sighting.typeUses (allSightings code), TypeName source u.1 :=
    fun u hu => hseen _ (mem_of_mem_typeUses hu)
  have hassigned : ∀ a ∈ Sighting.ownAssignments (allSightings code)
      ++ Sighting.bareAssignments (allSightings code), ∀ t ∈ a.source.types,
        NamedFrom source t := by
    rw [List.forall_mem_append]
    exact ⟨fun a ha => hseen _ (mem_of_mem_ownAssignments ha),
      fun a ha => hseen _ (mem_of_mem_bareAssignments ha)⟩
  rw [factTypes, List.forall_mem_append, List.forall_mem_append]
  refine ⟨⟨?_, ?_⟩, ?_⟩
  · intro t ht
    obtain ⟨v, hv, rfl⟩ := List.mem_map.mp ht
    exact hlocals v hv
  · intro t ht
    obtain ⟨call, hcall, rfl⟩ := List.mem_map.mp ht
    obtain ⟨u, hu, rfl⟩ := List.mem_map.mp hcall
    exact namedFrom_plain (huses u (List.mem_filter.mp hu).1)
  · intro t ht
    obtain ⟨_, hjudged, ht⟩ := List.mem_flatMap.mp ht
    obtain ⟨a, ha, rfl⟩ := List.mem_map.mp hjudged
    refine hassigned a ?_ t (types_judged_subset params a ht)
    rcases List.mem_append.mp ha with hown | hbare
    · exact List.mem_append_left _ hown
    · exact List.mem_append_right _ (List.mem_filter.mp hbare).1

/-! ## Types in declarations -/

/-- Parameters have the types that are written before them. -/
theorem namedFrom_bindings {params : List Param} (h : ∀ p ∈ params, p.type.Written source) :
    ∀ b ∈ bindings params, NamedFrom source b.type := by
  intro b hb
  obtain ⟨p, hp, heq⟩ := List.mem_filterMap.mp hb
  obtain ⟨t, ht, rfl⟩ := Option.map_eq_some_iff.mp heq
  have hnamed := h p hp t ht
  dsimp only
  split
  · exact hnamed
  · exact namedFrom_arrayOf hnamed p.dimensions

/-- So have fields, and the types that their initializers make. -/
theorem namedFrom_fieldDecls {inInterface : Bool} {ms : List Modifier} {type : TypeExpr}
    {ds : List Declarator} (htype : type.Written source) (hds : ∀ d ∈ ds, d.Written source) :
    ∀ f ∈ fieldDecls inInterface ms type ds,
      NamedFrom source f.type ∧ ∀ t ∈ f.initializer.types, NamedFrom source t := by
  intro f hf
  unfold fieldDecls at hf
  split at hf
  · cases hf
  · next t ht =>
    obtain ⟨d, hd, rfl⟩ := List.mem_map.mp hf
    refine ⟨namedFrom_arrayOf (htype t ht) d.dimensions, ?_⟩
    obtain ⟨x, n, notes, value⟩ := d
    cases value with
    | none => exact List.forall_mem_nil _
    | some value =>
      have hvalue := (hds _ hd).2 value rfl
      simp only [Declarator.initializer, Declarator.value?]
      cases hcreated : value.created? with
      | none => exact List.forall_mem_nil _
      | some u => exact List.forall_mem_singleton.mpr (Code.namedFrom_created? hvalue u hcreated)

/-- A constructor or method whose types have names of the source. -/
structure CallableNamed (source : String) (m : MethodDecl) : Prop where
  params : ∀ b ∈ m.params, NamedFrom source b.type
  body : ∀ t ∈ factTypes m.body, NamedFrom source t
  result : ∀ t ∈ m.returnType, NamedFrom source t

/-- All types in a constructor or method have names of the source. -/
theorem CallableNamed.types {m : MethodDecl} (h : CallableNamed source m) :
    ∀ t ∈ m.types ++ m.returnType.toList, NamedFrom source t := by
  have htypes : m.types = m.params.map (·.type) ++ factTypes m.body := by
    simp only [MethodDecl.types, factTypes, List.append_assoc]
  rw [htypes, List.forall_mem_append, List.forall_mem_append]
  refine ⟨⟨List.forall_mem_map.mpr h.params, h.body⟩, ?_⟩
  intro t ht
  exact h.result t (Option.mem_toList.mp ht)

/-- This holds of a constructor that is written. -/
theorem callableNamed_constructor? {m : Member} (h : m.Written source) {inInterface : Bool}
    {fields : List String} {c : MethodDecl} (hc : m.constructor? inInterface fields = some c) :
    CallableNamed source c := by
  cases m with
  | constructor ms name params body =>
    cases hc
    exact ⟨namedFrom_bindings h.1, namedFrom_factsOf h.2 _ _, nofun⟩
  | field | method | nested => cases hc

/-- It holds of a method that is written. -/
theorem callableNamed_method? {m : Member} (h : m.Written source) {inInterface : Bool}
    {fields : List String} {c : MethodDecl} (hc : m.method? inInterface fields = some c) :
    CallableNamed source c := by
  cases m with
  | method ms type name params body =>
    obtain ⟨htype, hparams, hbody⟩ := h
    cases hc
    refine ⟨namedFrom_bindings hparams, ?_, htype⟩
    cases body with
    | none => exact List.forall_mem_nil _
    | some code => exact namedFrom_factsOf (hbody code rfl) _ _
  | field | constructor | nested => cases hc

/-- It holds of the constructor that a record has by itself. -/
theorem callableNamed_canonicalConstructor {name : String} {components : List Binding}
    (h : ∀ b ∈ components, NamedFrom source b.type) :
    CallableNamed source (canonicalConstructor name components) := by
  refine ⟨h, ?_, nofun⟩
  intro t ht
  simp only [factTypes, canonicalConstructor, List.map_nil, List.nil_append, List.mem_flatMap,
    List.mem_map] at ht
  obtain ⟨_, ⟨b, -, rfl⟩, ht⟩ := ht
  cases ht

/-- The types of a written type's declaration have names of the source. -/
theorem namedFrom_declaration {head : TypeHead} {members : List Member}
    (hhead : head.Written source) (hmembers : ∀ m ∈ members, m.Written source)
    (file : FileContext) (name : String) :
    ∀ t ∈ (head.declaration file name members).typeRefs, NamedFrom source t := by
  have hcomponents : ∀ b ∈ (if head.keyword == .record then bindings head.components else []),
      NamedFrom source b.type := by
    split
    · exact namedFrom_bindings hhead.components
    · exact List.forall_mem_nil _
  have hsupertypes : ∀ s ∈ (head.declaration file name members).supertypes,
      NamedFrom source s.type := by
    intro s hs
    obtain ⟨⟨kind, e⟩, he, heq⟩ := List.mem_filterMap.mp hs
    obtain ⟨t, ht, rfl⟩ := Option.map_eq_some_iff.mp heq
    exact hhead.supertypes _ he t ht
  have hfields : ∀ f ∈ (head.declaration file name members).fields,
      NamedFrom source f.type ∧ ∀ t ∈ f.initializer.types, NamedFrom source t := by
    intro f hf
    rcases List.mem_append.mp hf with hcomponent | hmember
    · obtain ⟨b, hb, rfl⟩ := List.mem_map.mp hcomponent
      exact ⟨hcomponents b hb, List.forall_mem_nil _⟩
    · obtain ⟨m, hm, hf⟩ := List.mem_flatMap.mp hmember
      have hwritten := hmembers m hm
      cases m with
      | field ms type ds => exact namedFrom_fieldDecls hwritten.1 hwritten.2 f hf
      | constructor | method | nested => cases hf
  have hcallables : ∀ c ∈ (head.declaration file name members).callables,
      CallableNamed source c := by
    intro c hc
    rcases List.mem_append.mp hc with hconstructor | hmethod
    · rcases List.mem_append.mp hconstructor with hcanonical | hmember
      · split at hcanonical
        · obtain rfl := List.mem_singleton.mp hcanonical
          exact callableNamed_canonicalConstructor (namedFrom_bindings hhead.components)
        · cases hcanonical
      · obtain ⟨m, hm, hc⟩ := List.mem_filterMap.mp hmember
        exact callableNamed_constructor? (hmembers m hm) hc
    · obtain ⟨m, hm, hc⟩ := List.mem_filterMap.mp hmethod
      exact callableNamed_method? (hmembers m hm) hc
  intro t ht
  simp only [ClassDecl.typeRefs, ClassDecl.types, List.mem_append, List.mem_map,
    List.mem_flatMap, List.mem_cons] at ht
  rcases ht with ((⟨s, hs, rfl⟩ | ⟨f, hf, rfl | hinit⟩) | ⟨c, hc, htype⟩) | ⟨c, hc, hresult⟩
  · exact hsupertypes s hs
  · exact (hfields f hf).1
  · exact (hfields f hf).2 t hinit
  · exact (hcallables c hc).types t (List.mem_append_left _ htype)
  · exact (hcallables c hc).types t (List.mem_append_right _ hresult)

/-- Every name in a type of a declaration is read from the source. -/
theorem typeName_of_mem_declarations {path : RawPath} {decl : ClassDecl}
    (hdecl : decl ∈ declarations path source) {t : TypeRef} (ht : t ∈ decl.typeRefs) {n : String}
    (hn : n ∈ t.names) : TypeName source n := by
  obtain ⟨⟨head, members⟩, hwritten, heq⟩ := exists_written_of_mem_declarations hdecl
  rw [heq] at ht
  exact namedFrom_declaration hwritten.1 (membersWritten_iff.mp hwritten.2) _ _ t ht n hn

/-! ## Names and raw text -/

/-- A name that is no raw text: words with dots between them, and none of the symbols and
blanks that stand around names. -/
structure IsTypeName (n : String) : Prop where
  words : IsPlain n.toList
  symbols : ∀ c ∈ n.toList, c ∉ ['<', '>', ',', '[', ']', '@', '?']
  blanks : ∀ c ∈ n.toList, isBlank c = false

/-- That a name is made of words with dots between them says it all: symbols and blanks are in no
word. -/
theorem isTypeName_iff {n : String} : IsTypeName n ↔ IsPlain n.toList := by
  refine ⟨IsTypeName.words, fun h => ⟨h, ?_, ?_⟩⟩
  · intro c hc hsymbol
    have hsymbols : ∀ d ∈ ['<', '>', ',', '[', ']', '@', '?'], d ∈ nameSymbols ∧ d ≠ '.' :=
      List.all_iff_forall_prop.mp (by decide)
    obtain ⟨hmem, hdot⟩ := hsymbols c hsymbol
    exact not_mem_nameSymbols_of_isWordPart (h.isWordPart_of_mem hc hdot) hmem
  · intro c hc
    by_cases hdot : c = '.'
    · rw [hdot]
      decide
    · exact not_isBlank_of_isWordPart (h.isWordPart_of_mem hc hdot)

instance (n : String) : Decidable (IsTypeName n) :=
  decidable_of_iff (IsPlain n.toList) isTypeName_iff.symm

/-- **Type names and raw text.** Every name in a type of a declaration is `Object`, for a
wildcard, or a piece of the source without its blanks. It is a plain name exactly if none of the
marks stands in it that a raw scoped type can carry along. -/
theorem typeNames_plain_iff {path : RawPath} {source : String} {decl : ClassDecl}
    (hdecl : decl ∈ declarations path source) {t : TypeRef} (ht : t ∈ decl.typeRefs) {n : String}
    (hn : n ∈ t.names) :
    (n = "Object" ∨ ∃ piece, piece <:+: source.toList
      ∧ n.toList = piece.filter fun c => !isBlank c)
    ∧ (IsTypeName n ↔ ∀ c ∈ rawMarks, c ∉ n.toList) := by
  rw [isTypeName_iff]
  rcases typeName_of_mem_declarations hdecl ht hn with rfl | ⟨piece, hpiece, hspelled, rfl⟩
  · exact ⟨.inl rfl, iff_of_true (by decide) (List.all_iff_forall_prop.mp (by decide))⟩
  · refine ⟨.inr ⟨_, spanText_infix hpiece, ?_⟩, ?_, ?_⟩
    · rw [withoutBlanks, String.toList_ofList]
    · intro hplain c hc
      exact hplain.not_mem_of_mem_rawMarks hc
    · intro hnone
      rcases hspelled.plain_or_raw with hplain | ⟨c, hc, hmem⟩
      · exact hplain
      · exact absurd hmem (hnone c hc)

/-- A field with a type whose arguments stand before and behind a dot. -/
def boxedSource : String :=
  "class A \x7b java . util.Map<K, Outer<B>.Inner<C>> f; \x7d"

/-- The name of the outer type of the field is a plain one, although blanks stand in it in the
source. -/
theorem typeNames_plain_iff_boxed :
    ∃ decl ∈ declarations "A.java" boxedSource, ∃ t ∈ decl.typeRefs, ∃ n ∈ t.names,
      n = "java.util.Map" ∧ IsTypeName n ∧ ∀ c ∈ rawMarks, c ∉ n.toList := by
  have hread : ∃ decl ∈ declarations "A.java" boxedSource, ∃ t ∈ decl.typeRefs, ∃ n ∈ t.names,
      n = "java.util.Map" := by
    decide +kernel
  obtain ⟨decl, hdecl, t, ht, n, hn, rfl⟩ := hread
  have hplain : IsTypeName "java.util.Map" := by decide
  exact ⟨decl, hdecl, t, ht, _, hn, rfl, hplain, (typeNames_plain_iff hdecl ht hn).2.mp hplain⟩

/-- What stands before the last dot of a qualified type is taken as raw text. -/
theorem raw_type_name :
    ∃ decl ∈ declarations "A.java" boxedSource, ∃ t ∈ decl.typeRefs, ∃ n ∈ t.names,
      n = "Outer<B>.Inner" ∧ ¬IsTypeName n := by
  decide +kernel

end ClassDiagram.Java
