import ClassDiagram.Proofs.EdgeGroups

/-!
# What becomes of uses

Which edges a declaration has because its constructors and methods use a type without
storing it, and how they look (`ClassDecl.relationships_usages`). A reference is *transient*
if it is a parameter that is assigned to no field, or a local variable. It is an association
where a member of it is accessed and a dependency where none is; a static call is a
dependency, too. The same name may stand for many references, in one body and in another,
and with different types. All that agree in kind, target and name are one edge, and where
this is an association its multiplicity is that of the first one of them.

Since the uses are a group of edges of their own (`edgesFrom_eq_append`), it is enough to
look for the first one among them: what comes before them cannot interfere.
-/

namespace ClassDiagram

/-! ## Candidates of uses -/

/-- The candidate is of this kind, leads to `target` and goes by `label`. -/
def Candidate.IsFor (kind : RelationshipKind) (target label : String) (c : Candidate) : Prop :=
  c.kind = kind ∧ c.target = target ∧ c.label = some label

namespace Usage

/-- The kind of the edges of a use. -/
def edgeKind : Usage → RelationshipKind
  | .memberAccess => .association
  | .passThrough | .static => .dependency

theorem exists_candidate_iff {u : Usage} {r : Resolution} {name : String}
    {kind : RelationshipKind} {target label : String} :
    (∃ c ∈ u.candidates r name, c.IsFor kind target label)
      ↔ u.edgeKind = kind ∧ target ∈ r.targets ∧ name = label := by
  constructor
  · rintro ⟨c, hc, hkind, htarget, hlabel⟩
    obtain ⟨t, ht, rfl⟩ := List.mem_map.mp hc
    cases u with
    | memberAccess | passThrough | static => exact ⟨hkind, htarget ▸ ht, Option.some.inj hlabel⟩
  · rintro ⟨rfl, htarget, rfl⟩
    refine ⟨_, List.mem_map_of_mem htarget, ?_⟩
    cases u with
    | memberAccess | passThrough | static => exact ⟨rfl, rfl, rfl⟩

/-- The multiplicity of an association is that of the type. -/
theorem multiplicity_of_mem_candidates {u : Usage} {r : Resolution} {name : String}
    {c : Candidate} (h : c ∈ u.candidates r name) (hkind : c.kind = .association) :
    c.multiplicity = some (if r.isCollection then .many else .one) := by
  obtain ⟨target, -, rfl⟩ := List.mem_map.mp h
  cases u with
  | memberAccess => rfl
  | passThrough | static => cases hkind

theorem edgeKind_ofBody (body : BodyFacts) (name : String) :
    (ofBody body name).edgeKind
      = if name ∈ body.memberAccesses then .association else .dependency := by
  unfold ofBody BodyFacts.accesses
  rw [List.contains_eq_mem]
  by_cases h : name ∈ body.memberAccesses
  · simp [h, edgeKind]
  · simp [h, edgeKind]

end Usage

/-- A parameter or local variable together with the constructor or method it is found in. -/
structure Reference where
  method : MethodDecl
  binding : Binding

namespace Reference

/-- It is called `label` and leads to `target`. -/
def Names (answers : Answers) (label target : String) (ref : Reference) : Prop :=
  ref.binding.name = label ∧ answers.LeadsTo ref.binding.type target

/-- A member of it is accessed in the body it is found in. -/
def IsAccessed (ref : Reference) : Prop :=
  ref.binding.name ∈ ref.method.body.memberAccesses

/-- Its candidates. -/
def candidates (answers : Answers) (ref : Reference) : List Candidate :=
  (Usage.ofBody ref.method.body ref.binding.name).candidates
    (answers.resolution ref.binding.type) ref.binding.name

variable {answers : Answers} {ref : Reference} {target label : String}

theorem exists_association_iff :
    (∃ c ∈ ref.candidates answers, c.IsFor .association target label)
      ↔ ref.Names answers label target ∧ ref.IsAccessed := by
  unfold candidates Names IsAccessed
  rw [Usage.exists_candidate_iff, Usage.edgeKind_ofBody, Answers.mem_targets_resolution]
  by_cases h : ref.binding.name ∈ ref.method.body.memberAccesses
  · simp [h, and_comm]
  · simp [h]

theorem exists_dependency_iff :
    (∃ c ∈ ref.candidates answers, c.IsFor .dependency target label)
      ↔ ref.Names answers label target ∧ ¬ref.IsAccessed := by
  unfold candidates Names IsAccessed
  rw [Usage.exists_candidate_iff, Usage.edgeKind_ofBody, Answers.mem_targets_resolution]
  by_cases h : ref.binding.name ∈ ref.method.body.memberAccesses
  · simp [h]
  · simp [h, and_comm]

end Reference

namespace ClassDecl

/-- A parameter that the body assigns to no field, or a local variable. -/
def IsTransient (decl : ClassDecl) (ref : Reference) : Prop :=
  ref.method ∈ decl.callables
    ∧ ((ref.binding ∈ ref.method.params
        ∧ ∀ a ∈ ref.method.body.fieldAssignments, a.source ≠ .parameter ref.binding.name)
      ∨ ref.binding ∈ ref.method.body.locals)

/-- The transient references. Constructors come before methods, and parameters before local
variables. -/
def transientReferences (decl : ClassDecl) : List Reference :=
  decl.callables.flatMap fun method => method.transients.map (Reference.mk method)

variable {answers : Answers} {decl : ClassDecl}

theorem mem_transientReferences {ref : Reference} :
    ref ∈ decl.transientReferences ↔ decl.IsTransient ref := by
  have htransients : ref.binding ∈ ref.method.transients
      ↔ (ref.binding ∈ ref.method.params
          ∧ ∀ a ∈ ref.method.body.fieldAssignments, a.source ≠ .parameter ref.binding.name)
        ∨ ref.binding ∈ ref.method.body.locals := by
    unfold MethodDecl.transients
    rw [List.mem_append, List.mem_filter, Bool.not_eq_true', MethodDecl.stores_eq_false_iff]
  unfold transientReferences IsTransient
  rw [← htransients]
  simp only [List.mem_flatMap, List.mem_map]
  constructor
  · rintro ⟨method, hmethod, b, hb, rfl⟩
    exact ⟨hmethod, hb⟩
  · rintro ⟨hmethod, hb⟩
    exact ⟨ref.method, hmethod, ref.binding, hb, rfl⟩

/-- The candidates of a constructor or method are those of its references, and then those of
its static calls. -/
theorem usagesFrom_eq (method : MethodDecl) :
    usagesFrom answers method
      = (method.transients.map (Reference.mk method)).flatMap (Reference.candidates answers)
        ++ method.body.staticCalls.flatMap fun call =>
          Usage.static.candidates (receiverFrom answers call.type) call.method := by
  rw [List.flatMap_map]
  rfl

/-- What the constructors and methods have candidates for. -/
theorem exists_use_iff {kind : RelationshipKind} {target label : String} :
    (∃ c ∈ decl.callables.flatMap (usagesFrom answers), c.IsFor kind target label)
      ↔ (∃ ref, decl.IsTransient ref
          ∧ ∃ c ∈ ref.candidates answers, c.IsFor kind target label)
        ∨ ∃ method ∈ decl.callables, ∃ call ∈ method.body.staticCalls,
            .dependency = kind ∧ call.method = label
              ∧ answers call.type = .ok (.scalar target) := by
  have hstatic : ∀ call : StaticCall,
      (∃ c ∈ Usage.static.candidates (receiverFrom answers call.type) call.method,
        c.IsFor kind target label)
      ↔ .dependency = kind ∧ call.method = label ∧ answers call.type = .ok (.scalar target) := by
    intro call
    rw [Usage.exists_candidate_iff, mem_targets_receiverFrom, and_comm (a := answers _ = _)]
    rfl
  simp only [← hstatic, ← mem_transientReferences]
  unfold transientReferences
  constructor
  · rintro ⟨c, hc, hfor⟩
    obtain ⟨method, hmethod, hc⟩ := List.mem_flatMap.mp hc
    rw [usagesFrom_eq] at hc
    rcases List.mem_append.mp hc with hc | hc
    · obtain ⟨ref, href, hc⟩ := List.mem_flatMap.mp hc
      exact .inl ⟨ref, List.mem_flatMap.mpr ⟨method, hmethod, href⟩, c, hc, hfor⟩
    · obtain ⟨call, hcall, hc⟩ := List.mem_flatMap.mp hc
      exact .inr ⟨method, hmethod, call, hcall, c, hc, hfor⟩
  · rintro (⟨ref, href, c, hc, hfor⟩ | ⟨method, hmethod, call, hcall, c, hc, hfor⟩)
    · obtain ⟨method, hmethod, href⟩ := List.mem_flatMap.mp href
      refine ⟨c, List.mem_flatMap.mpr ⟨method, hmethod, ?_⟩, hfor⟩
      rw [usagesFrom_eq]
      exact List.mem_append_left _ (List.mem_flatMap.mpr ⟨ref, href, hc⟩)
    · refine ⟨c, List.mem_flatMap.mpr ⟨method, hmethod, ?_⟩, hfor⟩
      rw [usagesFrom_eq]
      exact List.mem_append_right _ (List.mem_flatMap.mpr ⟨call, hcall, hc⟩)

/-- Associations are looked for among the references only. -/
theorem find?_usages {p : Candidate → Bool} (hp : ∀ c, p c = true → c.kind = .association) :
    (decl.callables.flatMap (usagesFrom answers)).find? p
      = decl.transientReferences.findSome? fun ref => (ref.candidates answers).find? p := by
  have hstatic : ∀ method : MethodDecl, (method.body.staticCalls.flatMap fun call =>
      Usage.static.candidates (receiverFrom answers call.type) call.method).find? p = none := by
    intro method
    rw [List.find?_eq_none]
    intro c hc hpc
    obtain ⟨call, -, hc⟩ := List.mem_flatMap.mp hc
    obtain ⟨target, -, rfl⟩ := List.mem_map.mp hc
    cases hp _ hpc
  unfold transientReferences
  rw [List.find?_flatMap, findSome?_flatMap]
  simp only [usagesFrom_eq, List.find?_append, hstatic, Option.or_none, List.find?_flatMap]

/-! ## Edges of uses -/

theorem not_mem_storedFrom {target : String} :
    target ∉ storedFrom answers decl ↔ ∀ f ∈ decl.fields, ¬answers.LeadsTo f.type target := by
  rw [mem_storedFrom]
  simp only [not_exists, not_and]

/-- An edge comes from a supertype or a field, or it is the first of a use. -/
theorem origin_of_mem_edgesFrom {r : Relationship} (h : r ∈ edgesFrom answers decl) :
    ((r.label = none ∧ ∃ sup ∈ decl.supertypes, answers sup.type = .ok (.scalar r.target))
      ∨ ∃ f ∈ decl.fields, r.label = some f.name ∧ answers.LeadsTo f.type r.target)
    ∨ ∃ c ∈ firstsAfter (Candidate.key decl.name) [] (usesFrom answers decl),
        c.toRelationship decl.name = r := by
  rw [edgesFrom_eq_append] at h
  obtain ⟨c, hc, rfl⟩ := List.mem_map.mp h
  rcases List.mem_append.mp hc with hfirst | huse
  · left
    rcases List.mem_append.mp (mem_of_mem_firstsAfter hfirst) with hsup | hfield
    · obtain ⟨sup, hsup', hc⟩ := List.mem_filterMap.mp hsup
      exact .inl ⟨label_of_mem_supertypes hsup, sup, hsup',
        (supertypeFrom_target_iff.mp ⟨c, hc, rfl⟩).1⟩
    · obtain ⟨f, hf, hc⟩ := List.mem_flatMap.mp hfield
      have htarget := List.mem_map_of_mem (f := Candidate.target) hc
      rw [StoredMember.map_target_candidates] at htarget
      exact .inr ⟨f, hf, StoredMember.label_of_mem_candidates hc,
        Answers.mem_targets_resolution.mp htarget⟩
  · exact .inr ⟨c, huse, rfl⟩

/-- A labelled edge to what is not stored is the first of a use. -/
theorem exists_first_use {r : Relationship} (h : r ∈ edgesFrom answers decl) {label : String}
    (hlabel : r.label = some label)
    (hstored : ∀ f ∈ decl.fields, ¬answers.LeadsTo f.type r.target) :
    ∃ c ∈ firstsAfter (Candidate.key decl.name) [] (usesFrom answers decl),
      c.toRelationship decl.name = r := by
  rcases origin_of_mem_edgesFrom h with (⟨hnone, -⟩ | ⟨f, hf, -, hlead⟩) | huse
  · rw [hlabel] at hnone
    cases hnone
  · exact absurd hlead (hstored f hf)
  · exact huse

section

variable {target : String} (hne : target ≠ decl.name)
  (hstored : ∀ f ∈ decl.fields, ¬answers.LeadsTo f.type target)

include hne hstored

/-- Whatever is used without being stored has its edge. -/
theorem exists_edge_iff_use {kind : RelationshipKind} {label : String} :
    (∃ r ∈ edgesFrom answers decl, r.kind = kind ∧ r.target = target ∧ r.label = some label)
      ↔ ∃ c ∈ decl.callables.flatMap (usagesFrom answers), c.IsFor kind target label := by
  constructor
  · rintro ⟨r, hr, rfl, rfl, hlabel⟩
    obtain ⟨c, hc, rfl⟩ := exists_first_use hr hlabel hstored
    exact ⟨c, (List.mem_filter.mp (mem_of_mem_firstsAfter hc)).1, rfl, rfl, hlabel⟩
  · rintro ⟨c, hc, rfl, rfl, hlabel⟩
    have huse : c ∈ usesFrom answers decl :=
      mem_usesFrom.mpr ⟨List.mem_flatMap.mp hc, hne, not_mem_storedFrom.mpr hstored⟩
    obtain ⟨r, hr, hkey⟩ := exists_mem_edgesFrom (List.mem_append_right _ huse)
    exact ⟨r, hr, congrArg RelationshipKey.kind hkey, congrArg RelationshipKey.target hkey,
      (congrArg RelationshipKey.label hkey).trans hlabel⟩

/-- The multiplicity of an association is that of the first reference it is for. -/
theorem exists_first_access {r : Relationship} (h : r ∈ edgesFrom answers decl)
    (hkind : r.kind = .association) (htarget : r.target = target) {label : String}
    (hlabel : r.label = some label) :
    ∃ before ref after, decl.transientReferences = before ++ ref :: after
      ∧ (ref.Names answers label target ∧ ref.IsAccessed)
      ∧ (∀ earlier ∈ before, ¬(earlier.Names answers label target ∧ earlier.IsAccessed))
      ∧ r.multiplicity
        = some (if (answers.resolution ref.binding.type).isCollection then .many else .one) := by
  subst htarget
  obtain ⟨c, hc, rfl⟩ := exists_first_use h hlabel hstored
  -- the candidates with its key are those for the same association
  have hkey : ∀ c' : Candidate, (c'.key decl.name == c.key decl.name) = true
      ↔ c'.IsFor .association c.target label := by
    intro c'
    rw [beq_iff_eq, Candidate.key_eq_iff, Candidate.IsFor, and_left_comm,
      show c.kind = .association from hkind, show c.label = some label from hlabel]
  have hfind := mem_firstsAfter_iff.mp hc
  have hkept : (usesFrom answers decl).find? (fun c' => c'.key decl.name == c.key decl.name)
      = (decl.callables.flatMap (usagesFrom answers)).find?
          fun c' => c'.key decl.name == c.key decl.name := by
    -- it is kept, and so are all that lead where it leads
    rw [usesFrom, List.find?_filter]
    refine congrArg (List.find? · _) (funext fun c' => ?_)
    rw [Bool.eq_iff_iff, decide_eq_true_iff]
    refine and_iff_right_of_imp fun hc' => ?_
    obtain ⟨-, htarget, -⟩ := (hkey c').mp hc'
    rw [htarget, Bool.and_eq_true, bne_iff_ne, Bool.not_eq_true', List.contains_eq_mem,
      decide_eq_false_iff_not]
    exact ⟨hne, not_mem_storedFrom.mpr hstored⟩
  rw [hkept, find?_usages fun c' hc' => ((hkey c').mp hc').1] at hfind
  obtain ⟨before, ref, after, hsplit, hfound, hearlier⟩ := List.findSome?_eq_some_iff.mp hfind
  have hmem := List.mem_of_find?_eq_some hfound
  refine ⟨before, ref, after, hsplit, ?_, fun earlier hmem' haccess => ?_, ?_⟩
  · exact Reference.exists_association_iff.mp ⟨c, hmem, hkind, rfl, hlabel⟩
  · obtain ⟨c', hc', hfor⟩ := Reference.exists_association_iff.mpr haccess
    exact List.find?_eq_none.mp (hearlier earlier hmem') c' hc' ((hkey c').mpr hfor)
  · exact Usage.multiplicity_of_mem_candidates hmem hkind

end

/-- **Uses are classified exactly.** Let a resolver that remembers anything at all classify a
declaration with success. There is a dependency on a type, under a given label, exactly if
a transient reference of that name leads there and no member of it is accessed, or if a
static call of a method of that name names just this type. There is an association exactly
if such a reference is accessed, and its multiplicity is that of the first one that is. All
this is for types other than the declared one and those that fields lead to. To these an
edge comes from a supertype or a field, and what is found for uses never leads there. -/
theorem relationships_usages (s : Scope) (decl : ClassDecl) (m m' : Memo)
    (rs : List Relationship)
    (h : (decl.relationships (Resolver.remembering s)).run m = (.ok rs, m')) :
    (∀ target : String, target ≠ decl.name →
      (∀ f ∈ decl.fields, ¬(s.answers m').LeadsTo f.type target) → ∀ label : String,
        ((∃ r ∈ rs, r.kind = .dependency ∧ r.target = target ∧ r.label = some label)
          ↔ (∃ ref, decl.IsTransient ref ∧ ref.Names (s.answers m') label target
              ∧ ¬ref.IsAccessed)
            ∨ ∃ method ∈ decl.callables, ∃ call ∈ method.body.staticCalls,
                call.method = label ∧ s.answers m' call.type = .ok (.scalar target))
        ∧ ((∃ r ∈ rs, r.kind = .association ∧ r.target = target ∧ r.label = some label)
          ↔ ∃ ref, decl.IsTransient ref ∧ ref.Names (s.answers m') label target
              ∧ ref.IsAccessed)
        ∧ ∀ r ∈ rs, r.kind = .association → r.target = target → r.label = some label →
            ∃ before ref after, decl.transientReferences = before ++ ref :: after
              ∧ (ref.Names (s.answers m') label target ∧ ref.IsAccessed)
              ∧ (∀ earlier ∈ before,
                  ¬(earlier.Names (s.answers m') label target ∧ earlier.IsAccessed))
              ∧ ∃ res, s.answers m' ref.binding.type = .ok res
                ∧ r.multiplicity = some (if res.isCollection then .many else .one))
    ∧ (∀ r ∈ rs, (r.target = decl.name ∨ ∃ f ∈ decl.fields,
          (s.answers m').LeadsTo f.type r.target) →
        (r.label = none ∧ ∃ sup ∈ decl.supertypes,
          s.answers m' sup.type = .ok (.scalar r.target))
        ∨ ∃ f ∈ decl.fields, r.label = some f.name ∧ (s.answers m').LeadsTo f.type r.target)
    ∧ ∀ (before after : Memo) (found : List Candidate),
      (decl.usageCandidates (Resolver.remembering s)).run before = (.ok found, after) →
        ∀ c ∈ found, c.target ≠ decl.name
          ∧ ∀ f ∈ decl.fields, ¬(s.answers after).LeadsTo f.type c.target := by
  obtain ⟨-, rfl⟩ := of_relationships_run h
  refine ⟨fun target hne hstored label => ⟨?_, ?_, fun r hr hkind htarget hlabel => ?_⟩,
    fun r hr hown => ?_, fun before after found hfound c hc => ?_⟩
  · rw [exists_edge_iff_use hne hstored, exists_use_iff]
    simp only [Reference.exists_dependency_iff, true_and]
  · rw [exists_edge_iff_use hne hstored, exists_use_iff]
    simp [Reference.exists_association_iff]
  · obtain ⟨before, ref, after, hsplit, haccess, hearlier, hmultiplicity⟩ :=
      exists_first_access hne hstored hr hkind htarget hlabel
    obtain ⟨res, hres, -⟩ := haccess.1.2
    rw [Answers.resolution, hres] at hmultiplicity
    exact ⟨before, ref, after, hsplit, haccess, hearlier, res, hres, hmultiplicity⟩
  · rcases origin_of_mem_edgesFrom hr with horigin | ⟨c, hc, rfl⟩
    · exact horigin
    · obtain ⟨-, hne, hstored⟩ := mem_usesFrom.mp (mem_of_mem_firstsAfter hc)
      rcases hown with hself | ⟨f, hf, hlead⟩
      · exact absurd hself hne
      · exact absurd hlead (not_mem_storedFrom.mp hstored f hf)
  · have hend := (usageCandidates_consults s decl).run_eq_ok hfound
    rw [(usageCandidates_yields _ decl).eq_of_run_eq_ok hend] at hc
    obtain ⟨-, hne, hstored⟩ := mem_usesFrom.mp hc
    exact ⟨hne, not_mem_storedFrom.mp hstored⟩

/-- The array that the constructor of a hub goes through. -/
def roomsOfHub : Reference :=
  ⟨{ name := "Hub", params := [⟨"room", .array (.plain "Room")⟩],
     body := { memberAccesses := ["room"] } }, ⟨"room", .array (.plain "Room")⟩⟩

/-- The room that its method opens. -/
def roomOfHub : Reference :=
  ⟨{ name := "open", params := [⟨"room", .plain "Room"⟩],
     body := { memberAccesses := ["room"], staticCalls := [⟨.plain "Guest", "next"⟩] } },
   ⟨"room", .plain "Room"⟩⟩

/-- A hub that goes through rooms, opens one of them and calls for the next guest. -/
def openingDecl : ClassDecl :=
  { name := "Hub", kind := .class, constructors := [roomsOfHub.method],
    methods := [roomOfHub.method] }

/-- What is called `room` is one edge, to many rooms since the constructor comes first, and
not a dependency. -/
theorem relationships_usages_opening :
    ∃ rs m', (openingDecl.relationships
        (Resolver.remembering ⟨⟨["Hub", "Room", "Guest"], ∅, []⟩, {}⟩)).run .empty = (.ok rs, m')
      ∧ (∃ r ∈ rs, r.kind = .association ∧ r.target = "Room" ∧ r.label = some "room"
          ∧ r.multiplicity = some .many)
      ∧ (¬∃ r ∈ rs, r.kind = .dependency ∧ r.target = "Room" ∧ r.label = some "room")
      ∧ ∃ r ∈ rs, r.kind = .dependency ∧ r.target = "Guest" ∧ r.label = some "next" := by
  have hrequired : openingDecl.required.findSome?
      (Answers.unresolved? (Scope.resolve ⟨⟨["Hub", "Room", "Guest"], ∅, []⟩, {}⟩)) = none := rfl
  obtain ⟨m', hrun, hanswers⟩ := relationships_of_resolved openingDecl _ (by decide) hrequired
  have hmany := (hanswers (.array (.plain "Room")) (by decide)).trans
    (show _ = .ok (.list "Room") from rfl)
  have hguest := (hanswers (.plain "Guest") (by decide)).trans
    (show _ = .ok (.scalar "Guest") from rfl)
  have hfirst : roomsOfHub.Names (Scope.answers ⟨⟨["Hub", "Room", "Guest"], ∅, []⟩, {}⟩ m')
      "room" "Room" ∧ roomsOfHub.IsAccessed :=
    ⟨⟨rfl, _, hmany, List.mem_cons_self⟩, List.mem_cons_self⟩
  obtain ⟨huses, -, -⟩ := relationships_usages _ _ _ _ _ hrun
  obtain ⟨hdepends, hassociates, hmultiplicity⟩ := huses "Room" (by decide) nofun "room"
  refine ⟨_, m', hrun, ?_, fun hdepend => ?_, (huses "Guest" (by decide) nofun "next").1.mpr ?_⟩
  · obtain ⟨r, hr, hkind, htarget, hlabel⟩ :=
      hassociates.mpr ⟨roomsOfHub, ⟨List.mem_cons_self, .inl ⟨List.mem_cons_self, nofun⟩⟩, hfirst⟩
    obtain ⟨before, ref, after, hsplit, -, hearlier, res, hres, hr'⟩ :=
      hmultiplicity r hr hkind htarget hlabel
    -- nothing comes before the array, for it would have to be the array
    cases before with
    | nil =>
      cases hsplit
      cases hres.symm.trans hmany
      exact ⟨r, hr, hkind, htarget, hlabel, hr'⟩
    | cons earlier before =>
      have harray : roomsOfHub = earlier := (List.cons.inj hsplit).1
      exact absurd hfirst (harray ▸ hearlier earlier List.mem_cons_self)
  · have haccessed : ∀ ref ∈ [roomsOfHub, roomOfHub],
        ref.binding.name ∈ ref.method.body.memberAccesses := by decide
    have hcalls : ∀ method ∈ openingDecl.callables, ∀ call ∈ method.body.staticCalls,
        call.method ≠ "room" := by decide
    rcases hdepends.mp hdepend with
      ⟨ref, hmem, -, hpassed⟩ | ⟨method, hmethod, call, hcall, hname, -⟩
    · exact hpassed (haccessed ref (mem_transientReferences.mpr hmem))
    · exact hcalls method hmethod call hcall hname
  · exact .inr ⟨roomOfHub.method, List.mem_cons_of_mem _ List.mem_cons_self, _,
      List.mem_cons_self, rfl, hguest⟩

end ClassDecl

end ClassDiagram
