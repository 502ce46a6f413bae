import ClassDiagram.Proofs.Leaves
import ClassDiagram.Proofs.SuffixRule
import ClassDiagram.Proofs.UnknownTypes

/-!
# Declaring what is a stub

A stub stands for a type that is referred to and not declared. Take one with a name without
dots and add a declaration of it, without members, at the end. All that changes is the box:
it is no stub any more (`run_declare_stub`).

The new name enters the table before all names that the settings and the imports bring, and
every lookup of the run sees it there. It does no harm. Whatever refers to the stub does so
by this very name, because a lookup finds the name asked for or a dotted one
(`Scope.leaf_of_leadsTo`); so the name stood for itself before, as it does now. And no other
name is looked up differently, because a name without dots does not end in a dot and
something else (`TypeTable.lookup_bare`). Hence all names keep their roles and all types
their resolutions (`resolve_bare`).

That the declaration may be added at all has to do with where stubs come from: the name was
written in some type that was checked (`isQualified_of_requires`).
-/

namespace ClassDiagram

open ClassDiagram.Dotted ClassDiagram.Text

/-- A declaration of a type about which nothing else is said. -/
def ClassDecl.bare (name : String) (kind : DeclKind) : ClassDecl :=
  { name := name, kind := kind }

/-- The names in the types that a declaration requires are checked with it. -/
theorem ClassDecl.isQualified_of_requires {decl : ClassDecl}
    (h : Validation.checkDeclaration decl = .ok ()) {t : TypeRef} (ht : decl.Requires t) :
    ∀ name ∈ t.names, isQualified name = true := by
  obtain ⟨-, hfields, hcallables, hsupertypes⟩ := Validation.checkDeclaration_eq_ok_iff.mp h
  rcases ht with ⟨sup, hsup, rfl⟩ | ⟨f, hf, rfl⟩ | ⟨method, hmethod, huse⟩
  · exact hsupertypes sup hsup
  · exact (Validation.of_checkFields hfields f hf).2
  · obtain ⟨-, hparams, -, hlocals, hstatics⟩ :=
      Validation.checkCallable_eq_ok_iff.mp (hcallables method hmethod)
    rcases huse with ⟨p, hp, -, rfl⟩ | ⟨l, hl, rfl⟩ | ⟨c, hc, rfl⟩
    · exact (Validation.of_checkParams hparams p hp).2
    · exact hlocals l hl
    · exact hstatics c hc

/-! ## The table with one more declaration -/

namespace TypeTable

variable {decls : List ClassDecl} {settings : ResolverSettings} {new : String} {kind : DeclKind}

theorem imports_bare :
    (decls ++ [ClassDecl.bare new kind]).flatMap ClassDecl.imports
      = decls.flatMap ClassDecl.imports := by
  rw [List.flatMap_append, List.flatMap_singleton]
  exact List.append_nil _

/-- Nothing but the new name is added. -/
theorem names_bare :
    (ofDeclarations (decls ++ [.bare new kind]) settings).names.filter (fun q => q != new)
      = (ofDeclarations decls settings).names.filter fun q => q != new := by
  have hself : [new].filter (fun q => q != new) = [] := by simp
  have hnames : (decls ++ [ClassDecl.bare new kind]).map ClassDecl.name
      = decls.map ClassDecl.name ++ [new] := List.map_append
  -- whether it is left out before or after the deduplication makes no difference
  rw [names_ofDeclarations, names_ofDeclarations, imports_bare, hnames]
  refine (firstsAfter_filter id (fun q => q != new) [] _).symm.trans ?_
  refine Eq.trans ?_ (firstsAfter_filter id (fun q => q != new) [] _)
  refine congrArg (firstsAfter id []) ?_
  dsimp only [id]
  rw [List.filter_append, List.filter_append, List.filter_append, hself, List.append_nil,
    List.filter_append, List.filter_append]

/-- A new name without dots is found under itself and makes no difference to any other. -/
theorem lookup_bare (hplain : isDotted new = false) (name : String) :
    (ofDeclarations (decls ++ [.bare new kind]) settings).lookup name
      = if name = new then some new else (ofDeclarations decls settings).lookup name := by
  split
  next hname =>
    rw [hname]
    refine lookup_of_contains (List.contains_iff_mem.mpr (mem_names_ofDeclarations.mpr (.inl ?_)))
    exact List.mem_map.mpr ⟨.bare new kind, List.mem_append_right _ List.mem_cons_self, rfl⟩
  next hne =>
    rw [lookup_eq_resolveSuffix (firstIndexed_ofDeclarations _ _),
      lookup_eq_resolveSuffix (firstIndexed_ofDeclarations _ _)]
    exact resolveSuffix_of_filter_ne hplain names_bare hne

theorem isForeignImport_bare (simple : String) :
    (ofDeclarations (decls ++ [.bare new kind]) settings).isForeignImport simple
      = (ofDeclarations decls settings).isForeignImport simple := by
  rw [Bool.eq_iff_iff, isForeignImport_ofDeclarations_iff, isForeignImport_ofDeclarations_iff,
    imports_bare]

end TypeTable

/-! ## Resolutions with one more declaration -/

namespace Scope

variable {s : Scope}

/-- What leads to a name without dots has it for a leaf. -/
theorem leaf_of_leadsTo (hindexed : s.table.FirstIndexed) {t : TypeRef} {target : String}
    (hplain : isDotted target = false) (h : Answers.LeadsTo s.resolve t target) :
    target ∈ s.leaves t ∧ primitiveTypes.contains target = false
      ∧ s.role target = .leaf (.ok (.scalar target)) := by
  obtain ⟨name, hleaf, hopens, houtcome, hprimitive, hlookup⟩ := s.exists_leaf_of_leadsTo h
  have hname : name = target := by
    rcases hlookup with hfound | ⟨-, rfl⟩
    · rw [TypeTable.lookup_eq_resolveSuffix hindexed] at hfound
      rcases (TypeTable.resolveSuffix_cases hfound).2 with rfl | hends
      · rfl
      · rw [not_endsWith_of_plain hplain] at hends
        cases hends
    · rfl
  subst hname
  exact ⟨hleaf, hprimitive, by rw [s.role_of_not_opens hopens, houtcome]⟩

theorem role_of_lookup {name known : String} (hprimitive : primitiveTypes.contains name = false)
    (hlookup : s.table.lookup name = some known) :
    s.role name = .leaf (.ok (.scalar known)) := by
  unfold role
  rw [hprimitive, hlookup]
  rfl

end Scope

namespace Analysis

open ClassDecl

section

variable (settings : ResolverSettings) {decls : List ClassDecl}

/-- Declaring a name that stood for itself already leaves all resolutions as they are. -/
theorem resolve_bare {name : String} (hplain : isDotted name = false)
    (hprimitive : primitiveTypes.contains name = false)
    (hrole : (scopeOf settings decls).role name = .leaf (.ok (.scalar name))) (kind : DeclKind) :
    (scopeOf settings (decls ++ [.bare name kind])).resolve = (scopeOf settings decls).resolve := by
  refine funext (Scope.resolve_congr fun other => ?_)
  have hlookup : (scopeOf settings (decls ++ [.bare name kind])).table.lookup other
      = if other = name then some name else (scopeOf settings decls).table.lookup other :=
    TypeTable.lookup_bare hplain other
  by_cases hother : other = name
  · subst hother
    rw [if_pos rfl] at hlookup
    rw [hrole]
    exact Scope.role_of_lookup hprimitive hlookup
  · rw [if_neg hother] at hlookup
    exact Scope.role_congr TypeTable.isForeignImport_bare hlookup rfl

/-! ## Stubs -/

/-- A stub in the diagram is one of those that were made for an endpoint. -/
theorem eq_stub_of_isExternal {e : Entity} (he : e ∈ (ofValid settings decls).diagram.entities)
    (hexternal : e.isExternal = true) :
    e = .stub e.name ∧ e.name ∈ firstsAfter id ((kept decls).map ClassDecl.name)
      (Draft.endpoints (ofValid settings decls).diagram.relationships) := by
  rw [ofValid_entities] at he
  rcases List.mem_append.mp he with hbox | hstub
  · obtain ⟨d, -, rfl⟩ := List.mem_map.mp hbox
    rw [entity_isExternal] at hexternal
    cases hexternal
  · obtain ⟨name, hname, rfl⟩ := List.mem_map.mp hstub
    exact ⟨rfl, hname⟩

/-- Some kept declaration requires a type that leads to the stub. -/
theorem exists_required_of_stub (h : ∀ d ∈ decls, ∀ t ∈ d.types, t.Unambiguous) {name : String}
    (hend : name ∈ Draft.endpoints (ofValid settings decls).diagram.relationships)
    (hnew : name ∉ (kept decls).map ClassDecl.name) :
    ∃ d ∈ kept decls, ∃ t ∈ d.required,
      Answers.LeadsTo (scopeOf settings (kept decls)).resolve t name := by
  obtain ⟨r, hr, hname⟩ := Draft.mem_endpoints.mp hend
  rw [ofValid_relationships_of_unambiguous settings h] at hr
  obtain ⟨d, hd, hedge⟩ := List.mem_flatMap.mp hr
  rcases hname with rfl | rfl
  · -- edges start at declarations
    rw [source_of_mem_edgesOf (outcomeFrom_isOwn _ d) hedge] at hnew
    exact absurd (List.mem_map_of_mem hd) hnew
  · unfold outcomeFrom at hedge
    split at hedge
    · cases hedge
    · exact ⟨d, hd, (exists_edge_iff.mp ⟨r, hedge, rfl⟩).exists_required⟩

/-- A stub without dots has a name that may be declared and that stands for itself. -/
theorem role_of_stub (hvalid : Validation.checkAll decls = .ok ())
    (h : ∀ d ∈ decls, ∀ t ∈ d.types, t.Unambiguous) {name : String}
    (hplain : isDotted name = false)
    (hend : name ∈ Draft.endpoints (ofValid settings decls).diagram.relationships)
    (hnew : name ∉ (kept decls).map ClassDecl.name) :
    isQualified name = true ∧ primitiveTypes.contains name = false
      ∧ (scopeOf settings (kept decls)).role name = .leaf (.ok (.scalar name)) := by
  obtain ⟨d, hd, t, ht, hlead⟩ := exists_required_of_stub settings h hend hnew
  obtain ⟨hleaf, hprimitive, hrole⟩ :=
    Scope.leaf_of_leadsTo (TypeTable.firstIndexed_ofDeclarations _ _) hplain hlead
  have hchecked := Validation.checkAll_eq_ok_iff.mp hvalid d (mem_of_mem_firstsAfter hd)
  have hmem : name ∈ t.names := Scope.leaves_subset_names _ t name hleaf
  exact ⟨isQualified_of_requires hchecked (mem_required_iff.mp ht) name hmem, hprimitive, hrole⟩

/-- Of boxes and stubs, one stub becomes a box. -/
theorem perm_of_stub {boxes : List Entity} {stubs : List String} (hnodup : stubs.Nodup)
    {name : String} (hname : name ∈ stubs) (box : Entity) :
    (boxes ++ [box] ++ (stubs.filter fun n => n != name).map Entity.stub).Perm
      (box :: (boxes ++ stubs.map Entity.stub).erase (Entity.stub name)) := by
  have hstubs : stubs.Perm (name :: stubs.filter fun n => n != name) := by
    rw [← hnodup.erase_eq_filter]
    exact List.perm_cons_erase hname
  have hmem : Entity.stub name ∈ boxes ++ stubs.map Entity.stub :=
    List.mem_append_right _ (List.mem_map_of_mem hname)
  -- both sides are compared with the stub put in front of them
  have hrest : (Entity.stub name :: (boxes ++ stubs.map Entity.stub).erase (Entity.stub name)).Perm
      (Entity.stub name :: (boxes ++ (stubs.filter fun n => n != name).map Entity.stub)) := by
    refine (List.perm_cons_erase hmem).symm.trans ?_
    exact ((hstubs.map Entity.stub).append_left boxes).trans List.perm_middle
  rw [List.append_assoc]
  exact List.perm_middle.trans (hrest.cons_inv.symm.cons box)

theorem checkAll_bare (hvalid : Validation.checkAll decls = .ok ()) {name : String}
    (hname : isQualified name = true) (kind : DeclKind) :
    Validation.checkAll (decls ++ [.bare name kind]) = .ok () := by
  rw [Validation.checkAll_eq_ok_iff] at hvalid ⊢
  intro d hd
  rcases List.mem_append.mp hd with hold | hadded
  · exact hvalid d hold
  · rw [List.mem_singleton.mp hadded, Validation.checkDeclaration_eq_ok_iff]
    exact ⟨hname, rfl, List.forall_mem_nil _, List.forall_mem_nil _⟩

theorem unambiguous_bare (h : ∀ d ∈ decls, ∀ t ∈ d.types, t.Unambiguous) (name : String)
    (kind : DeclKind) : ∀ d ∈ decls ++ [.bare name kind], ∀ t ∈ d.types, t.Unambiguous := by
  intro d hd
  rcases List.mem_append.mp hd with hold | hadded
  · exact h d hold
  · rw [List.mem_singleton.mp hadded]
    exact List.forall_mem_nil _

end

/-! ## Runs -/

/-- **Declaring a stub changes nothing but the stub.** Take declarations without delimiters
in their type names on which a run succeeds, and a stub of its diagram whose name has no
dots. With a declaration of that name and of any kind, but without members, added at the
end, the run succeeds as well. It comes to the same relationships, in the same order, the
same failures and the same duplicates. Its entities are the same too, in some order, but
that the stub has become a box of the given kind. -/
theorem run_declare_stub (settings : ResolverSettings) (decls : List ClassDecl) (a : Analysis)
    (hrun : run settings decls = .ok a)
    (hnames : ∀ d ∈ decls, ∀ t ∈ d.types, t.Unambiguous)
    (e : Entity) (he : e ∈ a.diagram.entities) (hexternal : e.isExternal = true)
    (hplain : isDotted e.name = false) (kind : DeclKind) :
    ∃ a' : Analysis, run settings (decls ++ [.bare e.name kind]) = .ok a'
      ∧ a'.diagram.relationships = a.diagram.relationships
      ∧ a'.failures = a.failures
      ∧ a'.duplicates = a.duplicates
      ∧ a'.diagram.entities.Perm
          ({ e with kind := kind.toEntityKind } :: a.diagram.entities.erase e) := by
  obtain ⟨hvalid, rfl⟩ := run_eq_ok_iff.mp hrun
  obtain ⟨hbox, hstub⟩ := eq_stub_of_isExternal settings he hexternal
  generalize e.name = name at hbox hstub hplain
  subst hbox
  obtain ⟨hend, hnew⟩ := mem_firstsAfter_id.mp hstub
  obtain ⟨hqualified, hprimitive, hrole⟩ := role_of_stub settings hvalid hnames hplain hend hnew
  have hkept : kept (decls ++ [.bare name kind]) = kept decls ++ [.bare name kind] :=
    kept_append_cons hnew []
  have hresolve := resolve_bare settings hplain hprimitive hrole kind
  have hnames' := unambiguous_bare hnames name kind
  -- the added declaration has neither edges nor a failure
  have hedges : (ofValid settings (decls ++ [.bare name kind])).diagram.relationships
      = (ofValid settings decls).diagram.relationships := by
    rw [ofValid_relationships_of_unambiguous settings hnames',
      ofValid_relationships_of_unambiguous settings hnames, hkept, hresolve, List.flatMap_append]
    exact List.append_nil _
  refine ⟨_, run_of_valid settings (checkAll_bare hvalid hqualified kind), hedges, ?_, ?_, ?_⟩
  · rw [ofValid_failures_of_unambiguous settings hnames',
      ofValid_failures_of_unambiguous settings hnames, hkept, hresolve, List.filterMap_append]
    exact List.append_nil _
  · rw [ofValid_duplicates, ofValid_duplicates, dropped_concat (d := .bare name kind) hnew]
  · rw [ofValid_entities, ofValid_entities, hedges, hkept, List.map_append, List.map_append,
      List.map_singleton, List.map_singleton]
    show (_ ++ List.map Entity.stub (firstsAfter id (_ ++ [name]) _)).Perm _
    rw [firstsAfter_concat]
    exact perm_of_stub (nodup_firstsAfter_id _ _) hstub _

theorem lodging_stub_token :
    Entity.stub "Token" ∈ (ofValid { unknownTypes := .external } lodging).diagram.entities := by
  have hedge : ∃ r ∈ edgesFrom ((scopeOf {} lodging).treating false .external).resolve hotel,
      r.target = "Token" := by
    refine exists_edge_iff.mpr (.inr (.inl ⟨_, List.mem_cons_self, _, lodging_resolve_map, ?_⟩))
    exact List.mem_cons_self
  obtain ⟨r, hr, htarget⟩ := hedge
  have hmem : r ∈ (ofValid { unknownTypes := .external } lodging).diagram.relationships := by
    rw [ofValid_relationships_lenient {} (by decide)]
    exact List.mem_append_left _ hr
  rw [ofValid_entities]
  refine List.mem_append_right _ (List.mem_map_of_mem (mem_firstsAfter_id.mpr ⟨?_, by decide⟩))
  exact Draft.mem_endpoints.mpr ⟨r, hmem, .inr htarget⟩

/-- The tokens of the hub are declared as an enumeration. -/
theorem run_declare_stub_lodging :
    ∃ a a' : Analysis, run { unknownTypes := .external } lodging = .ok a
      ∧ Entity.stub "Token" ∈ a.diagram.entities
      ∧ run { unknownTypes := .external } (lodging ++ [.bare "Token" .enum]) = .ok a'
      ∧ a'.diagram.relationships = a.diagram.relationships
      ∧ a'.failures = a.failures
      ∧ a'.duplicates = a.duplicates
      ∧ a'.diagram.entities.Perm
          ({ Entity.stub "Token" with kind := .enum }
            :: a.diagram.entities.erase (Entity.stub "Token")) := by
  have hrun : run { unknownTypes := .external } lodging
      = .ok (ofValid { unknownTypes := .external } lodging) := run_of_valid _ rfl
  obtain ⟨a', hrun', hrest⟩ := run_declare_stub { unknownTypes := .external } lodging _ hrun
    (by decide) (Entity.stub "Token") lodging_stub_token rfl rfl .enum
  exact ⟨_, a', hrun, lodging_stub_token, hrun', hrest⟩

end Analysis

end ClassDiagram
