import ClassDiagram.Proofs.KnownNames
import ClassDiagram.Proofs.Ownership

/-!
# No reference is lost and none is invented

Fields and uses are classified apart, and the classification of uses leaves out whatever
it finds stored in a field. Between them they might drop a type altogether. They do not:
the targets of the edges of a declaration are exactly those it refers to
(`ClassDecl.RefersTo`), its supertypes, all that its fields hold and all that its
constructors and methods mention without storing it, itself left out except for fields.

The reason is in the two `map_target_candidates`: a field and a use alike have one
candidate for each target of their type, whatever the clue, the usage or the label. So a
use that is left out because its target is stored has an edge of the field in its place,
under the field's own label. Dropping edges that repeat a key loses no target, for the
target is part of the key (`exists_mem_edgesFrom`).
-/

namespace ClassDiagram

/-- The type resolves, and `target` is among its targets. -/
def Answers.LeadsTo (answers : Answers) (t : TypeRef) (target : String) : Prop :=
  ∃ r, answers t = .ok r ∧ target ∈ r.targets

/-- The body of a constructor or method mentions `target` without storing it: by a
parameter that it assigns to no field, by a local variable, or as the single type on which
a static member is used. -/
def MethodDecl.Mentions (answers : Answers) (method : MethodDecl) (target : String) : Prop :=
  (∃ p ∈ method.params, (∀ a ∈ method.body.fieldAssignments, a.source ≠ .parameter p.name)
    ∧ answers.LeadsTo p.type target)
  ∨ (∃ l ∈ method.body.locals, answers.LeadsTo l.type target)
  ∨ (∃ c ∈ method.body.staticCalls, answers c.type = .ok (.scalar target))

/-- The declaration refers to `target`: by a supertype, by a field, or in the body of a
constructor or method. Only by a field does it refer to itself. -/
def ClassDecl.RefersTo (answers : Answers) (decl : ClassDecl) (target : String) : Prop :=
  (∃ sup ∈ decl.supertypes, answers sup.type = .ok (.scalar target) ∧ target ≠ decl.name)
  ∨ (∃ f ∈ decl.fields, answers.LeadsTo f.type target)
  ∨ (target ≠ decl.name ∧ ∃ method ∈ decl.callables, method.Mentions answers target)

theorem Answers.mem_targets_resolution {answers : Answers} {t : TypeRef} {target : String} :
    target ∈ (answers.resolution t).targets ↔ answers.LeadsTo t target := by
  unfold resolution LeadsTo
  cases answers t with
  | ok r =>
    constructor
    · intro h
      exact ⟨r, rfl, h⟩
    · rintro ⟨r', heq, h⟩
      rwa [Except.ok.inj heq]
  | error name =>
    constructor
    · intro h; cases h
    · rintro ⟨r, heq, -⟩; cases heq

/-! ## One candidate for each target -/

theorem Usage.map_target_candidates (u : Usage) (r : Resolution) (label : String) :
    (u.candidates r label).map Candidate.target = r.targets := by
  unfold candidates
  rw [List.map_map]
  cases u with
  | memberAccess => exact List.map_id _
  | passThrough => exact List.map_id _
  | static => exact List.map_id _

theorem StoredMember.map_target_candidates (member : StoredMember) :
    member.candidates.map Candidate.target = member.resolution.targets := by
  unfold candidates
  cases member.resolution with
  | foreign | scalar t | optional t | list t | set t => rfl
  | map key value =>
    show ((key ++ value).map _).map Candidate.target = key ++ value
    rw [List.map_map]
    exact List.map_id _

theorem StoredMember.label_of_mem_candidates {member : StoredMember} {c : Candidate}
    (h : c ∈ member.candidates) : c.label = some member.name := by
  unfold candidates at h
  cases hres : member.resolution with
  | foreign => rw [hres] at h; cases h
  | scalar t | optional t =>
    rw [hres] at h
    rw [List.mem_singleton.mp h]
  | list t | set t | map key value =>
    rw [hres] at h
    obtain ⟨target, -, rfl⟩ := List.mem_map.mp h
    rfl

theorem MethodDecl.stores_eq_false_iff {method : MethodDecl} {name : String} :
    method.stores name = false
      ↔ ∀ a ∈ method.body.fieldAssignments, a.source ≠ .parameter name := by
  unfold stores
  rw [List.any_eq_false]
  refine forall_congr' fun a => imp_congr_right fun _ => ?_
  cases a.source with
  | parameter p => simp
  | construct t => simp
  | other => simp

namespace ClassDecl

variable {answers : Answers} {decl : ClassDecl}

/-- A supertype gives an edge to the entity it resolves to, other than the declaration itself. -/
theorem supertypeFrom_target_iff {sup : Supertype} {target : String} :
    (∃ c, supertypeFrom answers decl sup = some c ∧ c.target = target)
      ↔ answers sup.type = .ok (.scalar target) ∧ target ≠ decl.name := by
  rw [← Answers.resolution_eq_iff (by simp)]
  unfold supertypeFrom
  cases answers.resolution sup.type with
  | foreign | optional _ | list _ | set _ | map _ _ => simp
  | scalar t =>
    dsimp only
    by_cases hself : t = decl.name
    · rw [if_pos (beq_iff_eq.mpr hself)]
      constructor
      · rintro ⟨c, hc, -⟩; cases hc
      · rintro ⟨heq, hne⟩
        exact absurd ((Resolution.scalar.inj heq).symm.trans hself) hne
    · rw [if_neg (fun h => hself (beq_iff_eq.mp h))]
      constructor
      · rintro ⟨c, hc, rfl⟩
        cases hc
        exact ⟨rfl, hself⟩
      · rintro ⟨heq, -⟩
        exact ⟨_, rfl, Resolution.scalar.inj heq⟩

theorem mem_targets_receiverFrom {t : TypeRef} {target : String} :
    target ∈ (receiverFrom answers t).targets ↔ answers t = .ok (.scalar target) := by
  rw [← Answers.resolution_eq_iff (by simp)]
  unfold receiverFrom
  cases answers.resolution t with
  | foreign | optional _ | list _ | set _ | map _ _ => simp [Resolution.targets]
  | scalar u => simp [Resolution.targets, eq_comm]

theorem mem_targets_usagesFrom {method : MethodDecl} {target : String} :
    target ∈ (usagesFrom answers method).map Candidate.target
      ↔ method.Mentions answers target := by
  have htransients : ∀ b : Binding, b ∈ method.transients
      ↔ (b ∈ method.params ∧ method.stores b.name = false) ∨ b ∈ method.body.locals := by
    intro b
    rw [MethodDecl.transients, List.mem_append, List.mem_filter, Bool.not_eq_true']
  unfold usagesFrom MethodDecl.Mentions
  rw [List.map_append, List.map_flatMap, List.map_flatMap, List.mem_append, List.mem_flatMap,
    List.mem_flatMap]
  simp only [Usage.map_target_candidates, Answers.mem_targets_resolution,
    mem_targets_receiverFrom, htransients, MethodDecl.stores_eq_false_iff]
  constructor
  · rintro (⟨b, ⟨hparam, hfree⟩ | hlocal, hlead⟩ | hstatic)
    · exact .inl ⟨b, hparam, hfree, hlead⟩
    · exact .inr (.inl ⟨b, hlocal, hlead⟩)
    · exact .inr (.inr hstatic)
  · rintro (⟨b, hparam, hfree, hlead⟩ | ⟨b, hlocal, hlead⟩ | hstatic)
    · exact .inl ⟨b, .inl ⟨hparam, hfree⟩, hlead⟩
    · exact .inl ⟨b, .inr hlocal, hlead⟩
    · exact .inr hstatic

/-! ## All candidates, and the edges they become -/

/-- The targets that a declaration stores are those that the types of its fields lead to. -/
theorem mem_storedFrom {target : String} :
    target ∈ storedFrom answers decl ↔ ∃ f ∈ decl.fields, answers.LeadsTo f.type target := by
  unfold storedFrom
  rw [List.mem_flatMap]
  exact exists_congr fun f => and_congr_right fun _ => Answers.mem_targets_resolution

/-- A field has a candidate, under its own name, for each of its targets. -/
theorem exists_candidate_of_field {f : FieldDecl} (hf : f ∈ decl.fields) {target : String}
    (h : answers.LeadsTo f.type target) :
    ∃ c ∈ candidatesFrom answers decl, c.target = target ∧ c.label = some f.name := by
  have hmem : target ∈ (memberFrom answers decl f).candidates.map Candidate.target := by
    rw [StoredMember.map_target_candidates]
    exact Answers.mem_targets_resolution.mpr h
  obtain ⟨c, hc, rfl⟩ := List.mem_map.mp hmem
  refine ⟨c, ?_, rfl, StoredMember.label_of_mem_candidates hc⟩
  exact List.mem_append_left _ (List.mem_append_right _ (List.mem_flatMap.mpr ⟨f, hf, hc⟩))

/-- A declaration has a candidate for a target exactly when it refers to it. -/
theorem exists_candidate_iff {target : String} :
    (∃ c ∈ candidatesFrom answers decl, c.target = target)
      ↔ decl.RefersTo answers target := by
  constructor
  · rintro ⟨c, hc, rfl⟩
    unfold candidatesFrom at hc
    rcases List.mem_append.mp hc with hfirst | huse
    · rcases List.mem_append.mp hfirst with hsup | hfield
      · obtain ⟨sup, hsup, hc⟩ := List.mem_filterMap.mp hsup
        exact .inl ⟨sup, hsup, supertypeFrom_target_iff.mp ⟨c, hc, rfl⟩⟩
      · obtain ⟨f, hf, hc⟩ := List.mem_flatMap.mp hfield
        have hmem := List.mem_map_of_mem (f := Candidate.target) hc
        rw [StoredMember.map_target_candidates] at hmem
        exact .inr (.inl ⟨f, hf, Answers.mem_targets_resolution.mp hmem⟩)
    · obtain ⟨huse, hkept⟩ := List.mem_filter.mp huse
      obtain ⟨method, hmethod, hc⟩ := List.mem_flatMap.mp huse
      rw [Bool.and_eq_true, bne_iff_ne] at hkept
      exact .inr (.inr ⟨hkept.1, method, hmethod,
        mem_targets_usagesFrom.mp (List.mem_map_of_mem hc)⟩)
  · rintro (⟨sup, hsup, htarget⟩ | ⟨f, hf, hlead⟩ | ⟨hne, method, hmethod, huse⟩)
    · obtain ⟨c, hc, rfl⟩ := supertypeFrom_target_iff.mpr htarget
      refine ⟨c, List.mem_append_left _ (List.mem_append_left _ ?_), rfl⟩
      exact List.mem_filterMap.mpr ⟨sup, hsup, hc⟩
    · obtain ⟨c, hc, htarget, -⟩ := exists_candidate_of_field hf hlead
      exact ⟨c, hc, htarget⟩
    · -- a use of what is stored is left out, and the field stands in for it
      by_cases hstored : target ∈ storedFrom answers decl
      · obtain ⟨f, hf, hlead⟩ := mem_storedFrom.mp hstored
        obtain ⟨c, hc, htarget, -⟩ := exists_candidate_of_field hf hlead
        exact ⟨c, hc, htarget⟩
      · obtain ⟨c, hc, rfl⟩ := List.mem_map.mp (mem_targets_usagesFrom.mpr huse)
        refine ⟨c, List.mem_append_right _ (List.mem_filter.mpr ⟨?_, ?_⟩), rfl⟩
        · exact List.mem_flatMap.mpr ⟨method, hmethod, hc⟩
        · simp [hne, hstored]

/-- Every candidate has an edge that agrees with it on all but the multiplicity. -/
theorem exists_mem_edgesFrom {c : Candidate} (h : c ∈ candidatesFrom answers decl) :
    ∃ r ∈ edgesFrom answers decl, r.key = (c.toRelationship decl.name).key := by
  rw [edgesFrom, RelationshipSet.ofList_edges]
  refine List.mem_map.mp (mem_map_firstsAfter.mpr ⟨?_, List.not_mem_nil⟩)
  exact List.mem_map_of_mem (List.mem_map_of_mem h)

theorem exists_edge_iff {target : String} :
    (∃ r ∈ edgesFrom answers decl, r.target = target) ↔ decl.RefersTo answers target := by
  rw [← exists_candidate_iff]
  constructor
  · rintro ⟨r, hr, rfl⟩
    rw [edgesFrom, RelationshipSet.ofList_edges] at hr
    obtain ⟨c, hc, rfl⟩ := List.mem_map.mp (mem_of_mem_firstsAfter hr)
    exact ⟨c, hc, rfl⟩
  · rintro ⟨c, hc, rfl⟩
    obtain ⟨r, hr, hkey⟩ := exists_mem_edgesFrom hc
    exact ⟨r, hr, congrArg RelationshipKey.target hkey⟩

/-- The declaration cannot be classified without resolving this type: it is the type of a
supertype, of a field, of a parameter that no assignment of its constructor or method
stores, of a local variable or of a static call. -/
def Requires (decl : ClassDecl) (t : TypeRef) : Prop :=
  (∃ sup ∈ decl.supertypes, sup.type = t)
  ∨ (∃ f ∈ decl.fields, f.type = t)
  ∨ ∃ method ∈ decl.callables,
      (∃ p ∈ method.params,
        (∀ a ∈ method.body.fieldAssignments, a.source ≠ .parameter p.name) ∧ p.type = t)
      ∨ (∃ l ∈ method.body.locals, l.type = t)
      ∨ ∃ c ∈ method.body.staticCalls, c.type = t

/-- The required types of a declaration are listed as such. -/
theorem mem_required_iff {t : TypeRef} :
    t ∈ decl.required ↔ decl.Requires t := by
  have hmethod : ∀ method : MethodDecl,
      t ∈ method.transients.map (·.type) ++ method.body.staticCalls.map (·.type)
        ↔ (∃ p ∈ method.params,
            (∀ a ∈ method.body.fieldAssignments, a.source ≠ .parameter p.name) ∧ p.type = t)
          ∨ (∃ l ∈ method.body.locals, l.type = t)
          ∨ ∃ c ∈ method.body.staticCalls, c.type = t := by
    intro method
    unfold MethodDecl.transients
    rw [List.map_append, List.mem_append, List.mem_append, List.mem_map, List.mem_map,
      List.mem_map, or_assoc]
    refine or_congr_left (exists_congr fun p => ?_)
    rw [List.mem_filter, Bool.not_eq_true', MethodDecl.stores_eq_false_iff, and_assoc]
  unfold required Requires
  rw [List.mem_append, List.mem_append, List.mem_map, List.mem_map, List.mem_flatMap, or_assoc]
  simp only [hmethod]

/-- Whatever a declaration refers to comes from a type that it requires. -/
theorem RefersTo.exists_required {target : String} (h : decl.RefersTo answers target) :
    ∃ t ∈ decl.required, answers.LeadsTo t target := by
  have hscalar : ∀ {t : TypeRef}, answers t = .ok (.scalar target) → answers.LeadsTo t target :=
    fun ht => ⟨_, ht, List.mem_cons_self⟩
  simp only [mem_required_iff]
  rcases h with ⟨sup, hsup, ht, -⟩ | ⟨f, hf, hlead⟩ | ⟨-, method, hmethod, huse⟩
  · exact ⟨_, .inl ⟨sup, hsup, rfl⟩, hscalar ht⟩
  · exact ⟨_, .inr (.inl ⟨f, hf, rfl⟩), hlead⟩
  · rcases huse with ⟨p, hp, hfree, hlead⟩ | ⟨l, hl, hlead⟩ | ⟨c, hc, ht⟩
    · exact ⟨_, .inr (.inr ⟨method, hmethod, .inl ⟨p, hp, hfree, rfl⟩⟩), hlead⟩
    · exact ⟨_, .inr (.inr ⟨method, hmethod, .inr (.inl ⟨l, hl, rfl⟩)⟩), hlead⟩
    · exact ⟨_, .inr (.inr ⟨method, hmethod, .inr (.inr ⟨c, hc, rfl⟩)⟩), hscalar ht⟩

/-- **No reference is lost and none is invented.** Let a resolver that remembers anything at
all classify a declaration with success, and let it be asked about types afterwards. The
targets of the edges are exactly what the declaration refers to. And each field has an
edge, under its own name, to each of its targets, so that leaving out the uses of what is
stored loses nothing. -/
theorem relationships_references (s : Scope) (decl : ClassDecl) (m m' : Memo)
    (rs : List Relationship)
    (h : (decl.relationships (Resolver.remembering s)).run m = (.ok rs, m')) :
    (∀ target : String,
      (∃ r ∈ rs, r.target = target) ↔ decl.RefersTo (s.answers m') target)
    ∧ ∀ f ∈ decl.fields, ∀ target : String, (s.answers m').LeadsTo f.type target →
        ∃ r ∈ rs, r.target = target ∧ r.label = some f.name := by
  have hrs : rs = edgesFrom (s.answers m') decl :=
    (relationships_yields _ decl).eq_of_run_eq_ok ((relationships_consults s decl).run_eq_ok h)
  subst hrs
  refine ⟨fun target => exists_edge_iff, fun f hf target hlead => ?_⟩
  obtain ⟨c, hc, rfl, hlabel⟩ := exists_candidate_of_field hf hlead
  obtain ⟨r, hr, hkey⟩ := exists_mem_edgesFrom hc
  exact ⟨r, hr, congrArg RelationshipKey.target hkey,
    (congrArg RelationshipKey.label hkey).trans hlabel⟩

/-- A hub with a room that is shown another room and handles another hub. -/
def porterDecl : ClassDecl :=
  { name := "Hub", kind := .class,
    fields := [{ name := "room", type := .plain "Room" }],
    methods := [{ name := "compare", params := [⟨"other", .plain "Room"⟩],
                  body := { locals := [⟨"next", .plain "Hub"⟩] } }] }

/-- It refers to rooms, through its field already, and not to itself. -/
theorem relationships_references_porter :
    ∃ rs m', (porterDecl.relationships
        (Resolver.remembering ⟨⟨["Hub", "Room"], ∅, []⟩, {}⟩)).run .empty = (.ok rs, m')
      ∧ (∃ r ∈ rs, r.target = "Room" ∧ r.label = some "room")
      ∧ ¬∃ r ∈ rs, r.target = "Hub" := by
  have hroom : Scope.resolve ⟨⟨["Hub", "Room"], ∅, []⟩, {}⟩ (.plain "Room")
      = .ok (.scalar "Room") := Scope.resolve_of_knows rfl rfl []
  have hhub : Scope.resolve ⟨⟨["Hub", "Room"], ∅, []⟩, {}⟩ (.plain "Hub")
      = .ok (.scalar "Hub") := Scope.resolve_of_knows rfl rfl []
  have hrequired : ∀ t ∈ porterDecl.required,
      ∃ r, Scope.resolve ⟨⟨["Hub", "Room"], ∅, []⟩, {}⟩ t = .ok r := by
    show ∀ t ∈ [TypeRef.plain "Room", .plain "Room", .plain "Hub"], _
    simp [hroom, hhub]
  obtain ⟨m', hrun, hanswers⟩ := relationships_of_resolved porterDecl
    ⟨⟨["Hub", "Room"], ∅, []⟩, {}⟩ (by decide)
    ((unresolved?_required_eq_none_iff _ _).mpr hrequired)
  have hfield := (hanswers (.plain "Room") (by decide)).trans hroom
  obtain ⟨htargets, hfields⟩ := relationships_references _ _ _ _ _ hrun
  refine ⟨_, m', hrun, ?_, fun hself => ?_⟩
  · exact hfields _ List.mem_cons_self "Room" ⟨_, hfield, List.mem_cons_self⟩
  · -- only a field could refer to the hub itself, and the one field does not
    rcases (htargets "Hub").mp hself with ⟨sup, hsup, -⟩ | ⟨f, hf, r, hr, hmem⟩ | ⟨hne, -⟩
    · cases hsup
    · rw [List.mem_singleton.mp hf] at hr
      cases hr.symm.trans hfield
      exact absurd hmem (by decide)
    · exact hne rfl

end ClassDecl

end ClassDiagram
