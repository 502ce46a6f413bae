import ClassDiagram.Proofs.SuffixRule
import ClassDiagram.Proofs.UnknownTypes

/-!
# The order of the input

Declarations have an order, and it can be seen in a diagram: boxes, edges and failures come
in it. This file shows that nothing else depends on it, provided that names are
unambiguous: no two declarations share their name, and no two names of the table their last
segment.

The order enters a run in four places. The table looks for the first name that ends in the
one asked for; where last segments differ there is at most one (`resolve_perm`). The memo is
filled by whoever comes first; without delimiters this cannot be seen. The set of edges
keeps the first of each key; edges of different declarations never share one. And stubs
stand in the order of the edges that need them, but which there are is a matter of the set
(`stubs_perm`).
-/

namespace ClassDiagram.Analysis

open ClassDecl ClassDiagram.Dotted

section

variable (settings : ResolverSettings) {decls decls' : List ClassDecl}

/-- Where last segments tell the names of the table apart, resolution does not depend on the
order of the declarations. -/
theorem resolve_perm (hperm : decls.Perm decls')
    (hsegments : ∀ q ∈ (TypeTable.ofDeclarations decls settings).names,
      ∀ q' ∈ (TypeTable.ofDeclarations decls settings).names,
        simpleName q = simpleName q' → q = q')
    (t : TypeRef) :
    (scopeOf settings decls).resolve t = (scopeOf settings decls').resolve t := by
  have himports : ∀ path, path ∈ decls.flatMap ClassDecl.imports
      ↔ path ∈ decls'.flatMap ClassDecl.imports :=
    fun path => (hperm.flatMap_right ClassDecl.imports).mem_iff
  have hknown : ∀ q, q ∈ (TypeTable.ofDeclarations decls settings).names
      ↔ q ∈ (TypeTable.ofDeclarations decls' settings).names := by
    intro q
    rw [TypeTable.mem_names_ofDeclarations, TypeTable.mem_names_ofDeclarations,
      (hperm.map ClassDecl.name).mem_iff, himports]
  have hforeign : ∀ simple, (scopeOf settings decls).table.isForeignImport simple
      = (scopeOf settings decls').table.isForeignImport simple := by
    intro simple
    unfold scopeOf
    rw [Bool.eq_iff_iff, TypeTable.isForeignImport_ofDeclarations_iff,
      TypeTable.isForeignImport_ofDeclarations_iff]
    exact exists_congr fun path => and_congr_left fun _ => himports path
  have hlookup : ∀ name, (scopeOf settings decls).table.lookup name
      = (scopeOf settings decls').table.lookup name := by
    intro name
    unfold scopeOf
    rw [TypeTable.lookup_eq_resolveSuffix (TypeTable.firstIndexed_ofDeclarations _ _),
      TypeTable.lookup_eq_resolveSuffix (TypeTable.firstIndexed_ofDeclarations _ _)]
    exact TypeTable.resolveSuffix_congr hknown hsegments name
  exact Scope.resolve_congr (fun name => Scope.role_congr hforeign (hlookup name) rfl) t

theorem kept_of_nodup (h : (decls.map ClassDecl.name).Nodup) : kept decls = decls :=
  firstsAfter_of_nodup h

/-- Of names and edges in another order the same stubs are made. -/
theorem stubs_perm {names names' : List String} {rs rs' : List Relationship}
    (hnames : names.Perm names') (hedges : rs.Perm rs') :
    (firstsAfter id names (Draft.endpoints rs)).Perm
      (firstsAfter id names' (Draft.endpoints rs')) := by
  rw [List.perm_ext_iff_of_nodup (nodup_firstsAfter_id _ _) (nodup_firstsAfter_id _ _)]
  intro name
  rw [mem_firstsAfter_id, mem_firstsAfter_id, hnames.mem_iff]
  exact and_congr_left fun _ => (hedges.flatMap_right _).mem_iff

end

/-- **The order of the input does not matter** where names are unambiguous. Take well-formed
declarations of different names, without delimiters in their type names, such that no two
names of the table have one last segment. In whatever order they are given, the run
succeeds, and it comes to the same boxes, the same edges, with all that belongs to them,
and the same failures, in some order each. -/
theorem run_perm (settings : ResolverSettings) (decls decls' : List ClassDecl)
    (hvalid : Validation.checkAll decls = .ok ())
    (hdistinct : (decls.map ClassDecl.name).Nodup)
    (hnames : ∀ d ∈ decls, ∀ t ∈ d.types, t.Unambiguous)
    (hsegments : ∀ q ∈ (TypeTable.ofDeclarations decls settings).names,
      ∀ q' ∈ (TypeTable.ofDeclarations decls settings).names,
        simpleName q = simpleName q' → q = q')
    (hperm : decls.Perm decls') :
    ∃ a a' : Analysis, run settings decls = .ok a ∧ run settings decls' = .ok a'
      ∧ a.diagram.entities.Perm a'.diagram.entities
      ∧ a.diagram.relationships.Perm a'.diagram.relationships
      ∧ a.failures.Perm a'.failures := by
  have hvalid' : Validation.checkAll decls' = .ok () := by
    rw [Validation.checkAll_eq_ok_iff] at hvalid ⊢
    exact fun d hd => hvalid d (hperm.mem_iff.mpr hd)
  have hnames' : ∀ d ∈ decls', ∀ t ∈ d.types, t.Unambiguous :=
    fun d hd => hnames d (hperm.mem_iff.mpr hd)
  have hkept := kept_of_nodup hdistinct
  have hkept' := kept_of_nodup ((hperm.map ClassDecl.name).nodup_iff.mp hdistinct)
  -- each declaration has one outcome, whichever order it comes in
  have hresolve : (scopeOf settings decls').resolve = (scopeOf settings decls).resolve :=
    funext fun t => (resolve_perm settings hperm hsegments t).symm
  have hedges : (ofValid settings decls).diagram.relationships.Perm
      (ofValid settings decls').diagram.relationships := by
    rw [ofValid_relationships_of_unambiguous settings hnames,
      ofValid_relationships_of_unambiguous settings hnames', hkept, hkept', hresolve]
    exact hperm.flatMap_right _
  refine ⟨_, _, run_of_valid settings hvalid, run_of_valid settings hvalid', ?_, hedges, ?_⟩
  · rw [ofValid_entities, ofValid_entities, hkept, hkept']
    refine (hperm.map _).append (List.Perm.map _ ?_)
    exact stubs_perm (hperm.map _) hedges
  · rw [ofValid_failures_of_unambiguous settings hnames,
      ofValid_failures_of_unambiguous settings hnames', hkept, hkept', hresolve]
    exact hperm.filterMap _

/-- The hub and its rooms may be given the other way round. -/
theorem run_perm_lodging :
    ∃ a a' : Analysis, run { unknownTypes := .external } lodging = .ok a
      ∧ run { unknownTypes := .external } lodging.reverse = .ok a'
      ∧ a.diagram.entities.Perm a'.diagram.entities
      ∧ a.diagram.relationships.Perm a'.diagram.relationships
      ∧ a.failures.Perm a'.failures := by
  refine run_perm { unknownTypes := .external } lodging lodging.reverse rfl (by decide)
    (by decide) ?_ (List.reverse_perm _).symm
  show ∀ q ∈ ["Hub", "Room"], ∀ q' ∈ ["Hub", "Room"], simpleName q = simpleName q' → q = q'
  decide

end ClassDiagram.Analysis
