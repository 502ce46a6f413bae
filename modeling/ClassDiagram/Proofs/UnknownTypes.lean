import ClassDiagram.Proofs.Drafting
import ClassDiagram.Proofs.KnownNames
import ClassDiagram.Proofs.Restriction
import ClassDiagram.Proofs.Schedule

/-!
# What the treatment of unknown types can change

Runs over the same declarations that differ in nothing but their treatment of unknown
names. Two things are shown about them.

* Drawing unknown types as external adds edges and stubs and changes nothing else: the
  diagram in which they are foreign is the other one without the edges to names that the
  table does not have, and without their stubs (`run_foreign_of_external`).
* Being strict adds failures and changes nothing else: if a strict run has none, the lenient
  runs come to the same analysis (`run_lenient_of_strict`).

Both rest on four facts about resolutions in the three treatments, each of them a relation
that resolution respects: a lenient resolution never fails, the foreign one is the external
one restricted to known targets, a strict one that succeeds is both lenient ones and has
known targets only, and all three agree on which types stand for a known target. The last
one is what ownership needs: a type that is constructed somewhere may be an error, foreign
or external, but none of these makes it an instance of something known.
-/

namespace ClassDiagram

/-! ## Four relations that resolution respects -/

/-- A pair of sides is never a single target. -/
theorem Slot.sides_ne_scalar (key value : Slot) (target : String) :
    Slot.sides key value ≠ .ok (.scalar target) := by
  unfold Slot.sides
  cases key with
  | error name => simp
  | ok k =>
    cases value with
    | error name => simp
    | ok v => rcases Resolution.ofSides_cases k.targets v.targets with ⟨-, -, h⟩ | h <;> simp [h]

/-- Neither is anything in a wrapper. -/
theorem Slot.map_apply_ne_scalar (w : Wrapper) (transparent : Bool) (slot : Slot)
    (target : String) : slot.map (w.apply transparent) ≠ .ok (.scalar target) := by
  have haround : ∀ t, w.around t ≠ .scalar target := by
    intro t
    cases w <;> simp [Wrapper.around]
  cases slot with
  | error name => simp [Except.map]
  | ok r =>
    cases r with
    | foreign | map _ _ => simp [Except.map, Wrapper.apply]
    | scalar t | optional t => simp [Except.map, Wrapper.apply, haround]
    | list t | set t => cases transparent <;> simp [Except.map, Wrapper.apply, haround]

/-- Resolving respects that there is an answer. -/
theorem respected_isOk : Respected fun slot _ => ∃ r, slot = .ok r where
  foreign := ⟨_, rfl⟩
  wrap := by
    rintro w transparent a b ⟨r, rfl⟩
    exact ⟨_, rfl⟩
  sides := by
    rintro k k' v v' ⟨r, rfl⟩ ⟨r', rfl⟩
    exact ⟨_, rfl⟩

section

variable (p : String → Bool)

/-- It respects that one answer is the other, restricted to some names. -/
theorem respected_restrict : Respected fun a b => a = b.map (Resolution.restrict p) where
  foreign := rfl
  wrap := by
    rintro w transparent a b rfl
    cases b with
    | error name => rfl
    | ok r => exact congrArg Except.ok (Resolution.restrict_apply p w transparent r).symm
  sides := by
    rintro k k' v v' rfl rfl
    cases k' with
    | error name => rfl
    | ok k =>
      cases v' with
      | error name => rfl
      | ok v =>
        refine congrArg Except.ok ?_
        rw [Resolution.targets_restrict, Resolution.targets_restrict, Resolution.restrict_ofSides]

/-- It respects that an answer is the same and loses nothing by the restriction. -/
theorem respected_settled :
    Respected fun a b => ∀ r, a = .ok r → b = .ok r ∧ r.restrict p = r where
  foreign := by
    rintro r hr
    cases hr
    exact ⟨rfl, rfl⟩
  wrap := by
    intro w transparent a b h r hr
    cases a with
    | error name => cases hr
    | ok r' =>
      cases hr
      obtain ⟨rfl, hrestrict⟩ := h r' rfl
      exact ⟨rfl, by rw [Resolution.restrict_apply, hrestrict]⟩
  sides := by
    intro k k' v v' hk hv r hr
    cases k with
    | error name => cases hr
    | ok k =>
      cases v with
      | error name => cases hr
      | ok v =>
        cases hr
        obtain ⟨rfl, hkey⟩ := hk k rfl
        obtain ⟨rfl, hvalue⟩ := hv v rfl
        refine ⟨rfl, ?_⟩
        rw [Resolution.restrict_ofSides, ← Resolution.targets_restrict,
          ← Resolution.targets_restrict, hkey, hvalue]

/-- It respects that a single target is the same, if it is one of these names. -/
theorem respected_scalar : Respected fun a b => ∀ target : String, p target = true →
    (a = .ok (.scalar target) ↔ b = .ok (.scalar target)) where
  foreign := fun _ _ => Iff.rfl
  -- a container is never a single target, whatever it holds
  wrap := fun w transparent _ _ _ target _ =>
    iff_of_false (Slot.map_apply_ne_scalar w transparent _ target)
      (Slot.map_apply_ne_scalar w transparent _ target)
  sides := fun _ _ target _ =>
    iff_of_false (Slot.sides_ne_scalar _ _ target) (Slot.sides_ne_scalar _ _ target)

end

namespace Scope

variable {s : Scope} (hs : s.table.Indexed) (t : TypeRef)
include hs

/-- A lenient resolver has an answer for every type. -/
theorem resolve_lenient (u : UnknownTypes) : ∃ r, (s.treating false u).resolve t = .ok r := by
  refine @resolve_treating_related _ s false false u u hs respected_isOk ?_ ?_ t
  · exact fun name _ => ⟨_, rfl⟩
  · intro name _
    cases u with
    | foreign => exact ⟨_, rfl⟩
    | external => exact ⟨_, rfl⟩

/-- Unknown types as foreign ones: what is left of the answer with external ones. -/
theorem resolve_foreign : (s.treating false .foreign).resolve t
    = ((s.treating false .external).resolve t).map (Resolution.restrict s.knows) := by
  refine resolve_treating_related hs (respected_restrict s.knows) ?_ ?_ t
  · intro name hknown
    show _ = Except.ok (if s.knows name then _ else _)
    rw [if_pos hknown]
  · intro name hunknown
    show _ = Except.ok (if s.knows name then _ else _)
    rw [hunknown]
    rfl

/-- Where a strict resolver has an answer, a lenient one has the same, and only known names are
in it. -/
theorem resolve_of_strict (u u' : UnknownTypes) {r : Resolution}
    (h : (s.treating true u).resolve t = .ok r) :
    (s.treating false u').resolve t = .ok r ∧ r.restrict s.knows = r := by
  refine resolve_treating_related hs (respected_settled s.knows) ?_ ?_ t r h
  · rintro name hknown r hr
    cases hr
    exact ⟨rfl, if_pos hknown⟩
  · rintro name - r hr
    cases hr

/-- For a known name, it does not matter how unknown types are treated. -/
theorem resolve_scalar_iff (strict strict' : Bool) (u u' : UnknownTypes) {target : String}
    (h : s.knows target = true) :
    (s.treating strict u).resolve t = .ok (.scalar target)
      ↔ (s.treating strict' u').resolve t = .ok (.scalar target) := by
  -- what becomes of an unknown name is itself at most
  have hunknown : ∀ name (strict : Bool) (u : UnknownTypes), s.knows name = false →
      ∀ target, s.knows target = true →
        (s.treating strict u).unknownOutcome name ≠ .ok (.scalar target) := by
    intro name strict u hname target htarget
    have hne : name ≠ target := by
      rintro rfl
      rw [hname] at htarget
      cases htarget
    cases strict with
    | true => simp [unknownOutcome, treating]
    | false => cases u <;> simp [unknownOutcome, treating, hne]
  refine resolve_treating_related hs (respected_scalar s.knows) ?_ ?_ t target h
  · exact fun _ _ _ _ => Iff.rfl
  · exact fun name hname target htarget =>
      iff_of_false (hunknown name strict u hname target htarget)
        (hunknown name strict' u' hname target htarget)

/-- Of the types that a strict resolution accepts, it finds known targets only. -/
theorem knows_of_strict (u : UnknownTypes) {r : Resolution}
    (h : (s.treating true u).resolve t = .ok r) {target : String} (htarget : target ∈ r.targets) :
    s.knows target = true := by
  rw [← (resolve_of_strict hs t u u h).2, Resolution.targets_restrict] at htarget
  exact (List.mem_filter.mp htarget).2

/-- The answers with foreign types are restrictions of those with external ones. -/
theorem restricts_foreign (types : List TypeRef) :
    Answers.Restricts s.knows types (s.treating false .foreign).resolve
      (s.treating false .external).resolve where
  resolution := by
    intro t _
    obtain ⟨r, hr⟩ := resolve_lenient hs t .external
    unfold Answers.resolution
    rw [resolve_foreign hs, hr]
    rfl
  scalar := fun t _ => resolve_scalar_iff hs t _ _ _ _

/-- So are strict answers, where there are any, of lenient ones. -/
theorem restricts_strict {types : List TypeRef} (u u' : UnknownTypes)
    (h : ∀ t ∈ types, ∃ r, (s.treating true u).resolve t = .ok r) :
    Answers.Restricts s.knows types (s.treating true u).resolve
      (s.treating false u').resolve where
  resolution := by
    intro t ht
    obtain ⟨r, hr⟩ := h t ht
    obtain ⟨hr', hrestrict⟩ := resolve_of_strict hs t u u' hr
    unfold Answers.resolution
    rw [hr, hr']
    exact hrestrict.symm
  scalar := fun t _ => resolve_scalar_iff hs t _ _ _ _

end Scope

/-! ## Edges -/

namespace ClassDecl

open Scope

variable {s : Scope}

/-- A declaration that can be resolved strictly has the same edges in all treatments. -/
theorem edgesFrom_of_strict (hs : s.table.Indexed) (u u' : UnknownTypes) {decl : ClassDecl}
    (h : ∀ t ∈ decl.required, ∃ r, (s.treating true u).resolve t = .ok r) :
    edgesFrom (s.treating true u).resolve decl = edgesFrom (s.treating false u').resolve decl := by
  rw [edgesFrom_of_restricts (restricts_strict hs u u' h), List.filter_eq_self]
  intro r hr
  -- an edge leads to a target of a required type, and these are all known
  obtain ⟨t, ht, res, hres, htarget⟩ := (exists_edge_iff.mp ⟨r, hr, rfl⟩).exists_required
  obtain ⟨res', hres'⟩ := h t ht
  have heq := (resolve_of_strict hs t u u' hres').1.symm.trans hres
  cases heq
  exact knows_of_strict hs t u hres' htarget

end ClassDecl

/-! ## Runs -/

namespace Analysis

open ClassDecl

section

variable (settings : ResolverSettings) {decls : List ClassDecl}

/-- How unknown types are treated has no influence on the names that are known. -/
theorem scopeOf_treating (decls : List ClassDecl) (strict : Bool) (u : UnknownTypes) :
    scopeOf { settings with strict := strict, unknownTypes := u } decls
      = (scopeOf settings decls).treating strict u := rfl

/-- The names of a scope are found by their last parts. -/
theorem indexed_scopeOf (decls : List ClassDecl) : (scopeOf settings decls).table.Indexed :=
  TypeTable.indexed_ofDeclarations decls settings

/-- A scope knows what is declared, what the settings name and what is imported as a user
type. -/
theorem knows_scopeOf_iff {name : String} :
    (scopeOf settings decls).knows name = true
      ↔ name ∈ decls.map ClassDecl.name ∨ name ∈ settings.userTypes
        ∨ (name ∈ decls.flatMap ClassDecl.imports ∧ TypeTable.IsUserImport settings name) :=
  List.contains_iff_mem.trans TypeTable.mem_names_ofDeclarations

/-- Without delimiters in type names, a run gives each declaration the outcome of the plain
resolutions. -/
theorem outcomes_of_unambiguous (h : ∀ d ∈ decls, ∀ t ∈ d.types, t.Unambiguous) :
    outcomes settings decls
      = (kept decls).map (outcomeFrom (scopeOf settings (kept decls)).resolve) := by
  have hkept : ∀ d ∈ kept decls, ∀ t ∈ d.types, t.Unambiguous :=
    fun d hd => h d (mem_of_mem_firstsAfter hd)
  exact (classifyAll_transparent (Stock.unambiguous _) hkept .empty (Stock.faithful_empty _)).1

/-- Without ambiguous types, the edges come from the plain answers. -/
theorem ofValid_relationships_of_unambiguous
    (h : ∀ d ∈ decls, ∀ t ∈ d.types, t.Unambiguous) :
    (ofValid settings decls).diagram.relationships = (kept decls).flatMap fun d =>
      edgesOf (outcomeFrom (scopeOf settings (kept decls)).resolve d) := by
  rw [ofValid_relationships, outcomes_of_unambiguous settings h, List.flatMap_map]

/-- So do the failures. -/
theorem ofValid_failures_of_unambiguous
    (h : ∀ d ∈ decls, ∀ t ∈ d.types, t.Unambiguous) :
    (ofValid settings decls).failures = (kept decls).filterMap fun d =>
      failure? (outcomeFrom (scopeOf settings (kept decls)).resolve d) := by
  rw [ofValid_failures, outcomes_of_unambiguous settings h, List.filterMap_map]
  rfl

/-- No declaration of a lenient run fails. -/
theorem outcomes_lenient (h : ∀ d ∈ decls, ∀ t ∈ d.types, t.Unambiguous) (u : UnknownTypes) :
    outcomes { settings with strict := false, unknownTypes := u } decls
      = (kept decls).map fun d =>
          .ok (edgesFrom ((scopeOf settings (kept decls)).treating false u).resolve d) := by
  rw [outcomes_of_unambiguous _ h, scopeOf_treating]
  refine List.map_congr_left fun d _ => outcomeFrom_of_resolved _ _ fun t _ => ?_
  exact Scope.resolve_lenient (indexed_scopeOf settings _) t u

/-- A lenient run has an outcome for every declaration. -/
theorem ofValid_relationships_lenient (h : ∀ d ∈ decls, ∀ t ∈ d.types, t.Unambiguous)
    (u : UnknownTypes) :
    (ofValid { settings with strict := false, unknownTypes := u } decls).diagram.relationships
      = (kept decls).flatMap
          (edgesFrom ((scopeOf settings (kept decls)).treating false u).resolve) := by
  rw [ofValid_relationships, outcomes_lenient settings h, List.flatMap_map]
  rfl

/-- The boxes are those of the declarations that are kept, and stubs for the other ends of
edges. -/
theorem ofValid_entities (decls : List ClassDecl) :
    (ofValid settings decls).diagram.entities = (kept decls).map ClassDecl.entity
      ++ (firstsAfter id ((kept decls).map ClassDecl.name)
          (Draft.endpoints (ofValid settings decls).diagram.relationships)).map Entity.stub := by
  rw [ofValid_eq]
  refine (Draft.finish_entities _).trans ?_
  have hnames : ((kept decls).map ClassDecl.entity).map Entity.name
      = (kept decls).map ClassDecl.name := List.map_map
  show _ ++ List.map Entity.stub (firstsAfter id (((kept decls).map ClassDecl.entity).map
    Entity.name) _) = _
  rw [hnames]
  rfl

/-- A run is complete if all required types have an answer. -/
theorem ofValid_isComplete_iff (h : ∀ d ∈ decls, ∀ t ∈ d.types, t.Unambiguous) :
    (ofValid settings decls).isComplete = true
      ↔ ∀ d ∈ kept decls, ∀ t ∈ d.required,
        ∃ r, (scopeOf settings (kept decls)).resolve t = .ok r := by
  unfold isComplete
  rw [ofValid_failures_of_unambiguous settings h, List.isEmpty_iff, List.filterMap_eq_nil_iff]
  refine forall_congr' fun d => imp_congr_right fun _ => ?_
  rw [← unresolved?_required_eq_none_iff, outcomeFrom]
  cases d.required.findSome? (Answers.unresolved? (scopeOf settings (kept decls)).resolve) with
  | none => simp [failure?]
  | some name => simp [failure?]

/-- With foreign types, the edges to unknown ends are missing. -/
theorem ofValid_relationships_foreign (h : ∀ d ∈ decls, ∀ t ∈ d.types, t.Unambiguous) :
    (ofValid { settings with strict := false, unknownTypes := .foreign }
        decls).diagram.relationships
      = (ofValid { settings with strict := false, unknownTypes := .external }
          decls).diagram.relationships.filter
        fun r => (scopeOf settings (kept decls)).knows r.target := by
  rw [ofValid_relationships_lenient settings h, ofValid_relationships_lenient settings h,
    List.filter_flatMap]
  exact List.flatMap_congr fun d _ =>
    edgesFrom_of_restricts (Scope.restricts_foreign (indexed_scopeOf settings _) d.required)

/-- A complete strict run has the outcomes of a lenient one. -/
theorem outcomes_strict (h : ∀ d ∈ decls, ∀ t ∈ d.types, t.Unambiguous)
    (hcomplete : (ofValid { settings with strict := true } decls).isComplete = true)
    (u : UnknownTypes) :
    outcomes { settings with strict := true } decls
      = outcomes { settings with strict := false, unknownTypes := u } decls := by
  have hresolved := (ofValid_isComplete_iff _ h).mp hcomplete
  rw [outcomes_of_unambiguous _ h, outcomes_lenient settings h]
  refine List.map_congr_left fun d hd => ?_
  rw [outcomeFrom_of_resolved _ _ (hresolved d hd)]
  exact congrArg _ (edgesFrom_of_strict (indexed_scopeOf settings (kept decls))
    settings.unknownTypes u (hresolved d hd))

/-- Edges start at declarations. -/
theorem source_mem_of_mem_edgesFrom {answers : Answers} {r : Relationship}
    (h : r ∈ (kept decls).flatMap (edgesFrom answers)) :
    r.source ∈ (kept decls).map ClassDecl.name := by
  obtain ⟨d, hd, hr⟩ := List.mem_flatMap.mp h
  exact List.mem_map.mpr ⟨d, hd, (source_of_mem_edgesFrom hr).symm⟩

/-- Only stubs can be filtered out by their names. -/
theorem filter_entities (p : String → Bool) (decls : List ClassDecl) (stubs : List String) :
    (decls.map ClassDecl.entity ++ stubs.map Entity.stub).filter
        (fun e => !e.isExternal || p e.name)
      = decls.map ClassDecl.entity ++ (stubs.filter p).map Entity.stub := by
  rw [List.filter_append, List.filter_map, List.filter_map]
  -- no box of a declaration is external
  refine congrArg (List.map ClassDecl.entity · ++ _) (List.filter_eq_self.mpr fun d _ => ?_)
  rw [Function.comp_apply, entity_isExternal]
  rfl

end

/-- **Drawing unknown types as external is a conservative extension.** Take well-formed
declarations without delimiters in their type names, and two lenient runs that differ in
the treatment of unknown types. Both succeed. The relationships of the one for which
unknown types are foreign are those of the other that lead to known names, with all that
belongs to them and in the same order; and its entities are those of the other without the
stubs for unknown names. Known are the names that are declared, that the settings add and
that are imported, unless the import is on demand or foreign. -/
theorem run_foreign_of_external (settings : ResolverSettings) (decls : List ClassDecl)
    (hvalid : Validation.checkAll decls = .ok ())
    (hnames : ∀ d ∈ decls, ∀ t ∈ d.types, t.Unambiguous) :
    ∃ foreign external : Analysis,
      run { settings with strict := false, unknownTypes := .foreign } decls = .ok foreign
      ∧ run { settings with strict := false, unknownTypes := .external } decls = .ok external
      ∧ foreign.diagram.relationships = external.diagram.relationships.filter
          (fun r => (scopeOf settings (kept decls)).knows r.target)
      ∧ foreign.diagram.entities = external.diagram.entities.filter
          (fun e => !e.isExternal || (scopeOf settings (kept decls)).knows e.name)
      ∧ ∀ name : String, (scopeOf settings (kept decls)).knows name = true
          ↔ name ∈ (kept decls).map ClassDecl.name ∨ name ∈ settings.userTypes
            ∨ (name ∈ (kept decls).flatMap ClassDecl.imports
              ∧ TypeTable.IsUserImport settings name) := by
  refine ⟨_, _, run_of_valid _ hvalid, run_of_valid _ hvalid, ?_⟩
  refine ⟨ofValid_relationships_foreign settings hnames, ?_, fun name => knows_scopeOf_iff settings⟩
  rw [ofValid_entities, ofValid_entities, filter_entities,
    ofValid_relationships_foreign settings hnames, Draft.firstsAfter_endpoints_filter]
  -- no source gets a stub, so the stubs that go are those for the targets that go
  intro r hr
  rw [ofValid_relationships_lenient settings hnames] at hr
  exact source_mem_of_mem_edgesFrom hr

/-- A hub that finds its rooms by tokens. -/
def hotel : ClassDecl :=
  { name := "Hub", kind := .class,
    fields := [{ name := "rooms", type := .named "Map" [.plain "Token", .plain "Room"] }] }

/-- The hub and its rooms, without the tokens. -/
def lodging : List ClassDecl :=
  [hotel, { name := "Room", kind := .class }]

/-- The sides of the map are resolved one by one. -/
theorem lodging_resolve_map :
    ((scopeOf {} lodging).treating false .external).resolve
        (.named "Map" [.plain "Token", .plain "Room"]) = .ok (.map ["Token"] ["Room"]) := by
  have hlookup : ∀ name ∈ ["Map", "Token"], (scopeOf {} lodging).table.lookup name = none := by
    intro name hname
    refine TypeTable.lookup_eq_none (indexed_scopeOf {} lodging) ?_ ?_
    · revert name
      decide
    · revert name
      show ∀ name ∈ ["Map", "Token"], ∀ known ∈ ["Hub", "Room"], _
      decide
  have hmap : ((scopeOf {} lodging).treating false .external).role "Map" = .mapLike := by
    rw [Scope.role_treating, hlookup "Map" (by decide)]
    rfl
  have htoken : ((scopeOf {} lodging).treating false .external).role "Token"
      = .leaf (.ok (.scalar "Token")) := by
    rw [Scope.role_treating, hlookup "Token" (by decide)]
    rfl
  have hroom : ((scopeOf {} lodging).treating false .external).resolve (.plain "Room")
      = .ok (.scalar "Room") := Scope.resolve_of_knows rfl rfl []
  rw [Scope.resolve, hmap]
  show Scope.resolveSides _ [.named "Token" [], .plain "Room"] = _
  rw [Scope.resolveSides, hroom, Scope.resolve, htoken]
  rfl

/-- There is an edge to tokens if they are external, and it goes if they are foreign. -/
theorem run_foreign_of_external_lodging :
    ∃ foreign external : Analysis, run { unknownTypes := .foreign } lodging = .ok foreign
      ∧ run { unknownTypes := .external } lodging = .ok external
      ∧ (∃ r ∈ external.diagram.relationships, r.target = "Token")
      ∧ foreign.diagram.relationships
        = external.diagram.relationships.filter (fun r => ["Hub", "Room"].contains r.target)
      ∧ foreign.diagram.entities = external.diagram.entities.filter
          (fun e => !e.isExternal || ["Hub", "Room"].contains e.name) := by
  obtain ⟨foreign, external, hforeign, hexternal, hrelationships, hentities, -⟩ :=
    run_foreign_of_external {} lodging rfl (by decide)
  refine ⟨foreign, external, hforeign, hexternal, ?_, hrelationships, hentities⟩
  rw [run_of_valid _ rfl] at hexternal
  cases hexternal
  have hedge : ∃ r ∈ edgesFrom ((scopeOf {} lodging).treating false .external).resolve hotel,
      r.target = "Token" := by
    refine exists_edge_iff.mpr (.inr (.inl ⟨_, List.mem_cons_self, _, lodging_resolve_map, ?_⟩))
    exact List.mem_cons_self
  obtain ⟨r, hr, htarget⟩ := hedge
  refine ⟨r, ?_, htarget⟩
  rw [ofValid_relationships_lenient {} (by decide)]
  exact List.mem_append_left _ hr

/-- **Strictness only adds failures.** Take well-formed declarations without delimiters in
their type names. The strict run over them succeeds, and if it is complete, then both
lenient runs end with the very same analysis: the same diagram, the same duplicates and no
failure. -/
theorem run_lenient_of_strict (settings : ResolverSettings) (decls : List ClassDecl)
    (hvalid : Validation.checkAll decls = .ok ())
    (hnames : ∀ d ∈ decls, ∀ t ∈ d.types, t.Unambiguous) :
    ∃ strict : Analysis, run { settings with strict := true } decls = .ok strict
      ∧ (strict.isComplete = true → ∀ u : UnknownTypes,
          run { settings with strict := false, unknownTypes := u } decls = .ok strict) := by
  refine ⟨_, run_of_valid _ hvalid, fun hcomplete u => ?_⟩
  rw [run_of_valid _ hvalid, ofValid_eq, ofValid_eq, outcomes_strict settings hnames hcomplete u]

/-- A hub whose room is made as a suite, of which nothing is known. -/
def suites : List ClassDecl :=
  [{ name := "Hub", kind := .class,
     fields := [{ name := "room", type := .plain "Room",
                  initializer := .construct (.plain "Suite") }] },
   { name := "Room", kind := .class }]

/-- What is only made somewhere need not be known: the strict run is complete. -/
theorem run_lenient_of_strict_suites :
    ∃ a : Analysis, run { strict := true } suites = .ok a ∧ a.isComplete = true
      ∧ run { unknownTypes := .foreign } suites = .ok a
      ∧ run { unknownTypes := .external } suites = .ok a := by
  have hnames : ∀ d ∈ suites, ∀ t ∈ d.types, t.Unambiguous := by decide
  obtain ⟨a, hrun, hlenient⟩ := run_lenient_of_strict {} suites rfl hnames
  have hcomplete : (ofValid { strict := true } suites).isComplete = true := by
    refine (ofValid_isComplete_iff _ hnames).mpr ?_
    -- the room is the one type that has to be resolved
    intro d hd t ht
    have hroom : t = .plain "Room" := by
      rcases List.mem_cons.mp hd with rfl | hd
      · exact List.mem_singleton.mp ht
      · rw [List.mem_singleton.mp hd] at ht
        cases ht
    rw [hroom]
    exact ⟨_, Scope.resolve_of_knows rfl rfl []⟩
  rw [run_of_valid _ rfl] at hrun
  cases hrun
  exact ⟨_, run_of_valid _ rfl, hcomplete, hlenient hcomplete .foreign,
    hlenient hcomplete .external⟩

end Analysis

end ClassDiagram
