import ClassDiagram.Resolution.Memo

/-!
# Known and unknown names

Which names a table knows, how its index is kept in step with them (`FirstIndexed`), and
what the treatment of all other names can change about a resolution.

A scope treats unknown names in one of three ways: strictly, as foreign, or as external
types in their own right. `Scope.treating` switches between them, and
`role_treating_related` says all there is to say about names: any name that is primitive,
known, a container or foreign plays the same role in each treatment, and any other is
not in the table and plays the role that the treatment gives it.

What follows for whole types is proved once, for any relation between outcomes that the
clauses of resolution respect (`Respected`): if the roles of all names are related, so are
the resolutions of all types (`Respected.resolve`).
-/

namespace ClassDiagram

open ClassDiagram.Dotted ClassDiagram.Text

/-! ## The names of a table -/

namespace TypeTable

variable {t : TypeTable} {name : String}

/-- An import that makes its name known: it is not on demand, and no foreign beginning
claims it. -/
def IsUserImport (settings : ResolverSettings) (path : String) : Prop :=
  endsWith path "*" = false ∧ ∀ p ∈ settings.foreignPrefixes, beginsWith path p = false

/-- Inserting a name adds this name and nothing else. -/
theorem mem_names_insert {new : String} :
    name ∈ (t.insert new).names ↔ name ∈ t.names ∨ name = new := by
  rw [names_insert]
  split
  next h =>
    rw [List.contains_iff_mem] at h
    constructor
    · exact .inl
    · rintro (hold | rfl)
      · exact hold
      · exact h
  next => rw [List.mem_append, List.mem_singleton]

/-- The same for several names. -/
theorem mem_names_insertAll {names : List String} :
    name ∈ (t.insertAll names).names ↔ name ∈ t.names ∨ name ∈ names := by
  unfold insertAll
  induction names generalizing t with
  | nil => simp
  | cons new rest ih => rw [List.foldl_cons, ih, mem_names_insert, List.mem_cons, or_assoc]

/-- An import adds its path if it is one of a user type. -/
theorem mem_names_addImport {settings : ResolverSettings} {path : String} :
    name ∈ (addImport settings t path).names
      ↔ name ∈ t.names ∨ (name = path ∧ IsUserImport settings path) := by
  have hforeign : settings.foreignPrefixes.any (beginsWith path) = false
      ↔ ∀ p ∈ settings.foreignPrefixes, beginsWith path p = false := by
    simp [List.any_eq_false]
  unfold addImport IsUserImport
  rw [← hforeign]
  cases endsWith path "*" with
  | true => simp
  | false =>
    cases settings.foreignPrefixes.any (beginsWith path) with
    | true => simp [insertForeign]
    | false => simp [mem_names_insert]

/-- The same for several imports. -/
theorem mem_names_addImports {settings : ResolverSettings} {paths : List String} :
    name ∈ (paths.foldl (addImport settings) t).names
      ↔ name ∈ t.names ∨ (name ∈ paths ∧ IsUserImport settings name) := by
  induction paths generalizing t with
  | nil => simp
  | cons path rest ih =>
    rw [List.foldl_cons, ih, mem_names_addImport, List.mem_cons, or_assoc]
    refine or_congr_right ?_
    constructor
    · rintro (⟨rfl, huser⟩ | ⟨hmem, huser⟩)
      · exact ⟨.inl rfl, huser⟩
      · exact ⟨.inr hmem, huser⟩
    · rintro ⟨rfl | hmem, huser⟩
      · exact .inl ⟨rfl, huser⟩
      · exact .inr ⟨hmem, huser⟩

/-- The names of a run's table: what is declared, what the settings add and what is
imported from elsewhere than a foreign package. -/
theorem mem_names_ofDeclarations {decls : List ClassDecl} {settings : ResolverSettings} :
    name ∈ (ofDeclarations decls settings).names
      ↔ name ∈ decls.map ClassDecl.name ∨ name ∈ settings.userTypes
        ∨ (name ∈ decls.flatMap ClassDecl.imports ∧ IsUserImport settings name) := by
  unfold ofDeclarations
  rw [mem_names_addImports, mem_names_insertAll, mem_names_insertAll, or_assoc, or_assoc]
  exact or_iff_right List.not_mem_nil

/-- For each simple name the index has the first known name with that last segment. -/
def FirstIndexed (t : TypeTable) : Prop :=
  ∀ simple : String, t.bySimpleName[simple]? = t.names.find? fun q => simpleName q == simple

theorem firstIndexed_empty : empty.FirstIndexed := by
  intro simple
  simp [empty]

/-- An insertion keeps the first name for each simple name. -/
theorem FirstIndexed.insert (h : t.FirstIndexed) (new : String) : (t.insert new).FirstIndexed := by
  unfold TypeTable.insert
  split
  · exact h
  · intro simple
    show (t.bySimpleName.insertIfNew (simpleName new) new)[simple]? = _
    simp only [Std.HashMap.getElem?_insertIfNew, List.find?_append, ← h simple,
      Std.HashMap.mem_iff_isSome_getElem?]
    by_cases hsimple : simpleName new = simple
    · -- the new name counts if nothing before it has its last segment
      subst hsimple
      cases t.bySimpleName[simpleName new]? with
      | none => simp
      | some old => simp
    · have hnew : [new].find? (fun q => simpleName q == simple) = none := by simp [hsimple]
      rw [hnew, Option.or_none, if_neg fun hif => hsimple (beq_iff_eq.mp hif.1)]

/-- So does an import. -/
theorem FirstIndexed.addImport (h : t.FirstIndexed) (settings : ResolverSettings)
    (path : String) : (TypeTable.addImport settings t path).FirstIndexed := by
  unfold TypeTable.addImport
  split
  · exact h
  · split
    · exact h
    · exact h.insert path

/-- So does any sequence of such steps. -/
theorem FirstIndexed.foldl {α : Type} {step : TypeTable → α → TypeTable}
    (hstep : ∀ (t : TypeTable) (a : α), t.FirstIndexed → (step t a).FirstIndexed)
    (h : t.FirstIndexed) (l : List α) : (l.foldl step t).FirstIndexed := by
  induction l generalizing t with
  | nil => exact h
  | cons a rest ih => exact ih (hstep t a h)

/-- The table of a project is filled by such steps. -/
theorem firstIndexed_ofDeclarations (decls : List ClassDecl) (settings : ResolverSettings) :
    (ofDeclarations decls settings).FirstIndexed := by
  have hinsert : ∀ (t : TypeTable) (new : String), t.FirstIndexed → (t.insert new).FirstIndexed :=
    fun _ new h => h.insert new
  have hdeclared := firstIndexed_empty.foldl hinsert (decls.map ClassDecl.name)
  have hadded := hdeclared.foldl hinsert settings.userTypes
  exact hadded.foldl (fun _ path h => h.addImport settings path) _

/-- The index leads from simple names to names of the table that have them. -/
def Indexed (t : TypeTable) : Prop :=
  ∀ simple name : String, t.bySimpleName[simple]? = some name →
    name ∈ t.names ∧ simpleName name = simple

/-- What is found by a simple name is one of the names. -/
theorem FirstIndexed.indexed (h : t.FirstIndexed) : t.Indexed := by
  intro simple name hname
  rw [h simple] at hname
  exact ⟨List.mem_of_find?_eq_some hname, beq_iff_eq.mp (List.find?_some hname :)⟩

theorem indexed_ofDeclarations (decls : List ClassDecl) (settings : ResolverSettings) :
    (ofDeclarations decls settings).Indexed :=
  (firstIndexed_ofDeclarations decls settings).indexed

/-- A use refers to a name of the table or to nothing. -/
theorem lookup_mem (h : t.Indexed) {found : String} (hfound : t.lookup name = some found) :
    found ∈ t.names := by
  unfold lookup at hfound
  split at hfound
  next hknown => exact Option.some.inj hfound ▸ List.contains_iff_mem.mp hknown
  next =>
    split at hfound
    · exact List.mem_of_find?_eq_some hfound
    · exact (h _ _ hfound).1

/-- A name without dots that is not the simple name of anything known refers to nothing. -/
theorem lookup_eq_none (h : t.Indexed) (hplain : isDotted name = false)
    (hnone : ∀ known ∈ t.names, known ≠ name ∧ simpleName known ≠ name) :
    t.lookup name = none := by
  cases hfound : t.lookup name with
  | none => rfl
  | some found =>
    unfold lookup at hfound
    split at hfound
    next hknown => exact absurd rfl (hnone name (List.contains_iff_mem.mp hknown)).1
    next =>
      rw [hplain] at hfound
      obtain ⟨hmem, hsimple⟩ := h _ _ hfound
      exact absurd hsimple (hnone found hmem).2

/-- A name that is not found is not in the table. -/
theorem not_mem_of_lookup_eq_none (h : t.lookup name = none) : name ∉ t.names := by
  intro hmem
  rw [lookup_of_contains (List.contains_iff_mem.mpr hmem)] at h
  cases h

end TypeTable

/-! ## Relations between resolutions -/

/-- The outcome for a map, from those for its two sides. -/
def Slot.sides (key value : Slot) : Slot :=
  match key with
  | .error name => .error name
  | .ok k =>
    match value with
    | .error name => .error name
    | .ok v => .ok (.ofSides k.targets v.targets)

/-- A relation between outcomes that the clauses of resolution respect. -/
structure Respected (R : Slot → Slot → Prop) : Prop where
  foreign : R (.ok .foreign) (.ok .foreign)
  wrap : ∀ (w : Wrapper) (transparent : Bool) {a b : Slot}, R a b →
    R (a.map (w.apply transparent)) (b.map (w.apply transparent))
  sides : ∀ {k k' v v' : Slot}, R k k' → R v v' → R (Slot.sides k v) (Slot.sides k' v')

/-- Two roles of one shape, with related outcomes where they settle a type. -/
inductive NameRole.Related (R : Slot → Slot → Prop) : NameRole → NameRole → Prop
  | leaf {a b : Slot} : R a b → Related R (.leaf a) (.leaf b)
  | mapLike : Related R .mapLike .mapLike
  | wrapper (w : Wrapper) (transparent : Bool) :
      Related R (.wrapper w transparent) (.wrapper w transparent)

namespace Respected

variable {R : Slot → Slot → Prop} {s s' : Scope}

mutual

/-- If names play related roles in two scopes, types have related resolutions. -/
theorem resolve (h : Respected R)
    (hroles : ∀ name, NameRole.Related R (s.role name) (s'.role name)) :
    ∀ t : TypeRef, R (s.resolve t) (s'.resolve t)
  | .array element => by
    rw [Scope.resolve, Scope.resolve]
    exact h.wrap .list false (resolve h hroles element)
  | .named name args => by
    rw [Scope.resolve, Scope.resolve]
    have hrole := hroles name
    generalize s.role name = role at hrole ⊢
    generalize s'.role name = role' at hrole ⊢
    cases hrole with
    | leaf houtcome => exact houtcome
    | mapLike => exact resolveSides h hroles args
    | wrapper w transparent => exact resolveElement h hroles w transparent args

/-- The sides of a pair are related if the roles of all names are. -/
theorem resolveSides (h : Respected R)
    (hroles : ∀ name, NameRole.Related R (s.role name) (s'.role name)) :
    ∀ args : List TypeRef, R (s.resolveSides args) (s'.resolveSides args)
  | [] => h.foreign
  | [_] => h.foreign
  | _ :: _ :: _ :: _ => h.foreign
  | [key, value] => by
    rw [Scope.resolveSides, Scope.resolveSides]
    exact h.sides (resolve h hroles key) (resolve h hroles value)

/-- So is the element of a collection. -/
theorem resolveElement (h : Respected R)
    (hroles : ∀ name, NameRole.Related R (s.role name) (s'.role name))
    (w : Wrapper) (transparent : Bool) : ∀ args : List TypeRef,
      R (s.resolveElement w transparent args) (s'.resolveElement w transparent args)
  | [] => h.foreign
  | [element] => by
    rw [Scope.resolveElement, Scope.resolveElement]
    exact h.wrap w transparent (resolve h hroles element)
  | _ :: next :: rest => by
    rw [Scope.resolveElement, Scope.resolveElement]
    exact resolveElement h hroles w transparent (next :: rest)

end

end Respected

namespace Scope

/-- Whether the table has this name. -/
def knows (s : Scope) (name : String) : Bool :=
  s.table.names.contains name

/-- The scope with another treatment of unknown names. -/
def treating (s : Scope) (strict : Bool) (unknownTypes : UnknownTypes) : Scope :=
  { s with settings := { s.settings with strict := strict, unknownTypes := unknownTypes } }

/-- A name that the table has is resolved to itself, unless it is primitive. -/
theorem resolve_of_knows {s : Scope} {name : String} (hknown : s.knows name = true)
    (hprimitive : primitiveTypes.contains name = false) (args : List TypeRef) :
    s.resolve (.named name args) = .ok (.scalar name) := by
  have hrole : s.role name = .leaf (.ok (.scalar name)) := by
    rw [role, hprimitive, TypeTable.lookup_of_contains hknown]
    rfl
  rw [resolve, hrole]

section

variable {R : Slot → Slot → Prop} {s : Scope} {strict strict' : Bool} {u u' : UnknownTypes}

/-- How unknown types are treated changes the roles of unknown names only. -/
theorem role_treating (s : Scope) (strict : Bool) (u : UnknownTypes) (name : String) :
    (s.treating strict u).role name
      = if primitiveTypes.contains name then .leaf (.ok .foreign)
        else match s.table.lookup name with
          | some known => .leaf (.ok (.scalar known))
          | none =>
            if s.isMap (simpleName name) then .mapLike
            else if s.isList (simpleName name) then
              .wrapper .list (s.isOptional (simpleName name))
            else if s.isSet (simpleName name) then
              .wrapper .set (s.isOptional (simpleName name))
            else if s.isOptional (simpleName name) then .wrapper .optional true
            else if s.isForeign name then .leaf (.ok .foreign)
            else .leaf ((s.treating strict u).unknownOutcome name) := rfl

/-- Names that are not unknown play one role in all treatments; those that are unknown are
not in the table, and the treatment settles them. -/
theorem role_treating_related (hs : s.table.Indexed) (hR : Respected R)
    (hknown : ∀ name, s.knows name = true → R (.ok (.scalar name)) (.ok (.scalar name)))
    (hunknown : ∀ name, s.knows name = false →
      R ((s.treating strict u).unknownOutcome name) ((s.treating strict' u').unknownOutcome name))
    (name : String) : NameRole.Related R ((s.treating strict u).role name)
      ((s.treating strict' u').role name) := by
  rw [role_treating, role_treating]
  -- both sides branch alike, down to the outcome for what nothing is known about
  split
  · exact .leaf hR.foreign
  · cases hlookup : s.table.lookup name with
    | some found =>
      exact .leaf (hknown found (List.contains_iff_mem.mpr (TypeTable.lookup_mem hs hlookup)))
    | none =>
      dsimp only
      split
      · exact .mapLike
      split
      · exact .wrapper _ _
      split
      · exact .wrapper _ _
      split
      · exact .wrapper _ _
      split
      · exact .leaf hR.foreign
      refine .leaf (hunknown name ?_)
      rw [knows, ← Bool.not_eq_true, List.contains_iff_mem]
      exact TypeTable.not_mem_of_lookup_eq_none hlookup

/-- Two treatments of unknown types give related answers if they do so for every name, known or
not. -/
theorem resolve_treating_related (hs : s.table.Indexed) (hR : Respected R)
    (hknown : ∀ name, s.knows name = true → R (.ok (.scalar name)) (.ok (.scalar name)))
    (hunknown : ∀ name, s.knows name = false →
      R ((s.treating strict u).unknownOutcome name) ((s.treating strict' u').unknownOutcome name))
    (t : TypeRef) : R ((s.treating strict u).resolve t) ((s.treating strict' u').resolve t) :=
  hR.resolve (role_treating_related hs hR hknown hunknown) t

end

end Scope

end ClassDiagram
