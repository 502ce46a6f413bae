import ClassDiagram.Proofs.FirstOccurrences
import ClassDiagram.Proofs.KnownNames

/-!
# One rule for every lookup

A table answers a plain name from an index and a dotted one by a search. Both follow
`TypeTable.resolveSuffix`: a known name stands for itself, and any other name for the
earliest known one that ends in a dot and it (`lookup_eq_resolveSuffix`). The reason is
`FirstIndexed`: the index has, for each simple name, the first name with that last segment,
and a name without dots is the last segment of just the names that the search would accept
(`Dotted.simpleName_eq_iff`).

From then on a table is its list of names, and questions about lookups become questions
about lists. If no two names share their last segment, the order of the names does not
matter (`resolveSuffix_congr`). A name without dots matters to nothing but itself
(`resolveSuffix_of_filter_ne`): no name ends in a dot and something else there. And what one
more name changes can be read off (`resolveSuffix_concat`), so that the rule can be said of
whatever arrives in whatever order (`lookup_suffixRule`).
-/

namespace ClassDiagram

open ClassDiagram.Dotted ClassDiagram.Text

/-! ## Last segments -/

namespace Dotted

theorem isDotted_eq_false_iff {name : String} : isDotted name = false ↔ '.' ∉ name.toList := by
  unfold isDotted
  rw [← Bool.not_eq_true, List.contains_iff_mem]

/-- A name without dots is its own simple name. -/
theorem simpleName_of_plain {name : String} (h : isDotted name = false) :
    simpleName name = name := by
  have hnone : ∀ c ∈ name.toList.reverse, (c != '.') = true := by
    intro c hc
    rw [bne_iff_ne]
    rintro rfl
    exact isDotted_eq_false_iff.mp h (List.mem_reverse.mp hc)
  have htake : name.toList.reverse.takeWhile (· != '.') = name.toList.reverse := by
    rw [← List.append_nil name.toList.reverse, List.takeWhile_append_of_pos hnone]
    rfl
  rw [simpleName, htake, List.reverse_reverse, String.ofList_toList]

theorem toList_dot_append (name : String) : ("." ++ name).toList = '.' :: name.toList := by
  rw [String.toList_append]
  rfl

/-- What ends in a dot and a name has the name's last segment. -/
theorem simpleName_of_endsWith {q name : String} (h : endsWith q ("." ++ name) = true) :
    simpleName q = simpleName name := by
  obtain ⟨front, hq⟩ := endsWith_iff.mp h
  have hreverse : q.toList.reverse = name.toList.reverse ++ '.' :: front.reverse := by
    rw [hq, toList_dot_append]
    simp
  unfold simpleName
  rw [hreverse, List.takeWhile_append]
  -- the search for a dot stops inside the name or right before it
  split
  next hwhole =>
    rw [List.takeWhile_cons_of_neg (by decide), List.append_nil]
    exact congrArg (fun l => String.ofList (List.reverse l))
      ((List.takeWhile_prefix _).eq_of_length hwhole).symm
  next => rfl

/-- A name without dots is no qualified one. -/
theorem not_endsWith_of_plain {q : String} (h : isDotted q = false) (name : String) :
    endsWith q ("." ++ name) = false := by
  rw [← Bool.not_eq_true]
  intro hends
  obtain ⟨front, hq⟩ := endsWith_iff.mp hends
  rw [toList_dot_append] at hq
  refine isDotted_eq_false_iff.mp h ?_
  rw [hq]
  exact List.mem_append_right _ List.mem_cons_self

/-- A name without dots is the last segment of itself and of whatever ends in a dot and
it. -/
theorem simpleName_eq_iff {q name : String} (hplain : isDotted name = false) :
    simpleName q = name ↔ q = name ∨ endsWith q ("." ++ name) = true := by
  constructor
  · intro h
    have hsplit := List.takeWhile_append_dropWhile (p := (· != '.')) (l := q.toList.reverse)
    have htake : q.toList.reverse.takeWhile (· != '.') = name.toList.reverse := by
      rw [← h, simpleName, String.toList_ofList, List.reverse_reverse]
    rw [htake] at hsplit
    cases hdrop : q.toList.reverse.dropWhile (· != '.') with
    | nil =>
      rw [hdrop, List.append_nil] at hsplit
      exact .inl (String.toList_inj.mp (List.reverse_inj.mp hsplit).symm)
    | cons c rest =>
      have hdot : c = '.' := by
        have hhead := List.head_dropWhile_not (· != '.') (l := q.toList.reverse) (by simp [hdrop])
        simpa [hdrop] using hhead
      refine .inr (endsWith_iff.mpr ⟨rest.reverse, ?_⟩)
      rw [toList_dot_append, ← List.reverse_reverse q.toList, ← hsplit, hdrop, hdot]
      simp
  · rintro (rfl | hends)
    · exact simpleName_of_plain hplain
    · rw [simpleName_of_endsWith hends, simpleName_of_plain hplain]

end Dotted

/-! ## The index follows the rule -/

theorem find?_congr {α : Type} {p q : α → Bool} {l : List α} (h : ∀ a ∈ l, p a = q a) :
    l.find? p = l.find? q := by
  rw [← List.head?_filter, ← List.head?_filter, List.filter_congr h]

/-- If at most one element has a property, searching for it finds that element. -/
theorem find?_eq_some_iff_of_unique {α : Type} {p : α → Bool} {l : List α}
    (h : ∀ a ∈ l, ∀ b ∈ l, p a = true → p b = true → a = b) {a : α} :
    l.find? p = some a ↔ a ∈ l ∧ p a = true := by
  constructor
  · intro hfound
    exact ⟨List.mem_of_find?_eq_some hfound, List.find?_some hfound⟩
  · rintro ⟨ha, hp⟩
    obtain ⟨b, hfound⟩ := Option.isSome_iff_exists.mp (List.find?_isSome.mpr ⟨a, ha, hp⟩)
    rw [hfound, h a ha b (List.mem_of_find?_eq_some hfound) hp (List.find?_some hfound)]

namespace TypeTable

variable {t : TypeTable}

/-- **One rule for every lookup.** -/
theorem lookup_eq_resolveSuffix (h : t.FirstIndexed) (name : String) :
    t.lookup name = resolveSuffix t.names name := by
  unfold lookup resolveSuffix
  split
  · rfl
  next hunknown =>
    rw [List.contains_iff_mem] at hunknown
    split
    · rfl
    next hplain =>
      rw [Bool.not_eq_true] at hplain
      rw [h name]
      refine find?_congr fun q hq => ?_
      -- a name of the table with the last segment `name` is longer than `name`
      have hne : q ≠ name := fun heq => hunknown (heq ▸ hq)
      rw [Bool.eq_iff_iff, beq_iff_eq, simpleName_eq_iff hplain]
      exact or_iff_right hne

/-! ## What a lookup does not depend on -/

/-- What is found is one of the names, and either the name itself or one that ends in it. -/
theorem resolveSuffix_cases {names : List String} {name found : String}
    (h : resolveSuffix names name = some found) :
    found ∈ names ∧ (found = name ∨ endsWith found ("." ++ name) = true) := by
  unfold resolveSuffix at h
  split at h
  next hknown =>
    cases h
    exact ⟨List.contains_iff_mem.mp hknown, .inl rfl⟩
  next => exact ⟨List.mem_of_find?_eq_some h, .inr (List.find?_some h :)⟩

/-- Where last segments tell names apart, only the set of the names counts. -/
theorem resolveSuffix_congr {names names' : List String} (hmem : ∀ q, q ∈ names ↔ q ∈ names')
    (hsegments : ∀ q ∈ names, ∀ q' ∈ names, simpleName q = simpleName q' → q = q')
    (name : String) : resolveSuffix names name = resolveSuffix names' name := by
  have hcontains : names.contains name = names'.contains name := by
    rw [Bool.eq_iff_iff, List.contains_iff_mem, List.contains_iff_mem]
    exact hmem name
  unfold resolveSuffix
  rw [hcontains]
  split
  · rfl
  · -- at most one name ends in a dot and `name`, so the first one is the only one
    have hunique : ∀ q ∈ names, ∀ q' ∈ names, endsWith q ("." ++ name) = true →
        endsWith q' ("." ++ name) = true → q = q' := by
      intro q hq q' hq' hends hends'
      refine hsegments q hq q' hq' ?_
      rw [simpleName_of_endsWith hends, simpleName_of_endsWith hends']
    have hunique' : ∀ q ∈ names', ∀ q' ∈ names', endsWith q ("." ++ name) = true →
        endsWith q' ("." ++ name) = true → q = q' :=
      fun q hq q' hq' => hunique q ((hmem q).mpr hq) q' ((hmem q').mpr hq')
    refine Option.ext fun q => ?_
    rw [find?_eq_some_iff_of_unique hunique, find?_eq_some_iff_of_unique hunique', hmem]

/-- A name without dots matters to itself alone. -/
theorem resolveSuffix_of_filter_ne {names names' : List String} {new : String}
    (hplain : isDotted new = false)
    (h : names.filter (fun q => q != new) = names'.filter fun q => q != new) {name : String}
    (hne : name ≠ new) : resolveSuffix names name = resolveSuffix names' name := by
  have hsearch : ∀ l : List String, l.find? (fun q => endsWith q ("." ++ name))
      = (l.filter fun q => q != new).find? fun q => endsWith q ("." ++ name) := by
    intro l
    rw [List.find?_filter]
    refine find?_congr fun q _ => ?_
    by_cases hq : q = new
    · rw [hq, not_endsWith_of_plain hplain]
      simp
    · simp [hq]
  have hcontains : ∀ l : List String, name ∈ l ↔ name ∈ l.filter fun q => q != new := by
    intro l
    rw [List.mem_filter, bne_iff_ne]
    exact (and_iff_left hne).symm
  have hsame : names.contains name = names'.contains name := by
    rw [Bool.eq_iff_iff, List.contains_iff_mem, List.contains_iff_mem, hcontains names, h,
      ← hcontains names']
  unfold resolveSuffix
  rw [hsame, hsearch names, h, ← hsearch names']

/-! ## The names of a run's table -/

instance (settings : ResolverSettings) (path : String) :
    Decidable (IsUserImport settings path) :=
  inferInstanceAs (Decidable (_ ∧ _))

/-- Inserting a name keeps the first of each. -/
theorem names_insert_eq_keepNew (t : TypeTable) (new : String) :
    (t.insert new).names = keepNew id t.names new := by
  rw [names_insert, keepNew, any_key_eq, List.map_id]
  rfl

/-- Names that are inserted one after the other come in that order. -/
theorem names_insertAll (t : TypeTable) (names : List String) :
    (t.insertAll names).names = names.foldl (keepNew id) t.names := by
  unfold insertAll
  induction names generalizing t with
  | nil => rfl
  | cons new rest ih => rw [List.foldl_cons, ih, names_insert_eq_keepNew, List.foldl_cons]

/-- Of the imports, only those of user types become names. -/
theorem names_addImports (settings : ResolverSettings) (t : TypeTable) (paths : List String) :
    (paths.foldl (addImport settings) t).names
      = (paths.filter fun p => IsUserImport settings p).foldl (keepNew id) t.names := by
  induction paths generalizing t with
  | nil => rfl
  | cons path rest ih =>
    rw [List.foldl_cons, ih]
    have hforeign : settings.foreignPrefixes.any (beginsWith path) = false
        ↔ ∀ p ∈ settings.foreignPrefixes, beginsWith path p = false := by
      simp [List.any_eq_false]
    by_cases huser : IsUserImport settings path
    · have hadd : addImport settings t path = t.insert path := by
        rw [addImport, huser.1, hforeign.mpr huser.2]
        rfl
      rw [List.filter_cons_of_pos (by simpa using huser), List.foldl_cons, hadd,
        names_insert_eq_keepNew]
    · -- an import on demand or a foreign one leaves the names as they are
      have hadd : (addImport settings t path).names = t.names := by
        unfold addImport
        split
        · rfl
        next hdemand =>
          split
          · rfl
          next hother =>
            rw [Bool.not_eq_true] at hdemand hother
            exact absurd ⟨hdemand, hforeign.mp hother⟩ huser
      rw [List.filter_cons_of_neg (by simpa using huser), hadd]

/-- A run's table has the declared names, those that the settings add and those imported
from elsewhere than a foreign package, each where it first occurs. -/
theorem names_ofDeclarations (decls : List ClassDecl) (settings : ResolverSettings) :
    (ofDeclarations decls settings).names
      = firstsAfter id [] (decls.map ClassDecl.name ++ settings.userTypes
          ++ (decls.flatMap ClassDecl.imports).filter fun p => IsUserImport settings p) := by
  unfold ofDeclarations
  rw [names_addImports, names_insertAll, names_insertAll, ← List.foldl_append,
    ← List.foldl_append, foldl_keepNew, List.append_assoc]
  rfl

/-- A name that is inserted is no foreign import. -/
theorem foreignImports_insert (t : TypeTable) (new : String) :
    (t.insert new).foreignImports = t.foreignImports := by
  unfold insert
  split <;> rfl

/-- Neither are several. -/
theorem foreignImports_insertAll (t : TypeTable) (names : List String) :
    (t.insertAll names).foreignImports = t.foreignImports := by
  unfold insertAll
  induction names generalizing t with
  | nil => rfl
  | cons new rest ih => rw [List.foldl_cons, ih, foreignImports_insert]

/-- A simple name is foreign if an import of a single type with a foreign prefix ends in it. -/
theorem mem_foreignImports_addImports {settings : ResolverSettings} {paths : List String}
    {simple : String} :
    simple ∈ (paths.foldl (addImport settings) t).foreignImports
      ↔ simple ∈ t.foreignImports ∨ ∃ path ∈ paths, endsWith path "*" = false
        ∧ settings.foreignPrefixes.any (beginsWith path) = true ∧ simpleName path = simple := by
  induction paths generalizing t with
  | nil => simp
  | cons path rest ih =>
    simp only [List.foldl_cons, ih, List.mem_cons, exists_eq_or_imp, ← or_assoc]
    refine or_congr_left ?_
    unfold addImport
    cases endsWith path "*" with
    | true => simp
    | false =>
      cases settings.foreignPrefixes.any (beginsWith path) with
      | true => simp [insertForeign, eq_comm]
      | false => simp [foreignImports_insert]

/-- A simple name is foreign by import if some import under a foreign beginning, not one on
demand, ends in it. -/
theorem isForeignImport_ofDeclarations_iff {decls : List ClassDecl}
    {settings : ResolverSettings} {simple : String} :
    (ofDeclarations decls settings).isForeignImport simple = true
      ↔ ∃ path ∈ decls.flatMap ClassDecl.imports, endsWith path "*" = false
        ∧ settings.foreignPrefixes.any (beginsWith path) = true ∧ simpleName path = simple := by
  unfold isForeignImport ofDeclarations
  rw [List.contains_iff_mem, mem_foreignImports_addImports, foreignImports_insertAll,
    foreignImports_insertAll]
  exact or_iff_right List.not_mem_nil

/-! ## Names that arrive one after the other -/

/-- A name that arrives once more makes no difference. -/
theorem resolveSuffix_firstsAfter (names : List String) (name : String) :
    resolveSuffix (firstsAfter id [] names) name = resolveSuffix names name := by
  have hcontains : (firstsAfter id [] names).contains name = names.contains name := by
    rw [Bool.eq_iff_iff, List.contains_iff_mem, List.contains_iff_mem, mem_firstsAfter_id]
    exact and_iff_left List.not_mem_nil
  have hsearch : (firstsAfter id [] names).find? (fun q => endsWith q ("." ++ name))
      = names.find? fun q => endsWith q ("." ++ name) :=
    find?_firstsAfter (p := fun q => endsWith q ("." ++ name))
      (fun _ hk => absurd hk List.not_mem_nil) names
  unfold resolveSuffix
  rw [hcontains, hsearch]

/-- One more name is found under itself, and under what it ends in if nothing was found
there before. -/
theorem resolveSuffix_concat (names : List String) (new name : String) :
    resolveSuffix (names ++ [new]) name
      = if name = new then some new
        else (resolveSuffix names name).or
          (if endsWith new ("." ++ name) then some new else none) := by
  have hcontains : (names ++ [new]).contains name = (names.contains name || name == new) := by
    rw [Bool.eq_iff_iff, Bool.or_eq_true, List.contains_iff_mem, List.contains_iff_mem,
      List.mem_append, List.mem_singleton, beq_iff_eq]
  unfold resolveSuffix
  rw [hcontains, List.find?_append, List.find?_singleton]
  by_cases hname : name = new
  · rw [hname, beq_self_eq_true, Bool.or_true, if_pos rfl, if_pos rfl]
  · rw [beq_false_of_ne hname, Bool.or_false, if_neg hname]
    cases names.contains name with
    | true => rfl
    | false => rfl

/-- Names are found by their simple names in the order of insertion. -/
theorem firstIndexed_insertAll (h : t.FirstIndexed) (names : List String) :
    (t.insertAll names).FirstIndexed :=
  h.foldl (fun _ new h => h.insert new) names

/-- Of names that are inserted into the empty table, the first of each is left. -/
theorem names_insertAll_empty (names : List String) :
    (empty.insertAll names).names = firstsAfter id [] names := by
  rw [names_insertAll, foldl_keepNew]
  rfl

/-- What names that arrive one after the other are looked up as. -/
theorem lookup_insertAll_empty (names : List String) (name : String) :
    (empty.insertAll names).lookup name = resolveSuffix names name := by
  rw [lookup_eq_resolveSuffix (firstIndexed_insertAll firstIndexed_empty names),
    names_insertAll_empty, resolveSuffix_firstsAfter]

/-- The names that make up the table of a run, in the order of their arrival: those that are
declared, those that the settings add and those that are imported from elsewhere than a
foreign package. -/
def arrivals (decls : List ClassDecl) (settings : ResolverSettings) : List String :=
  decls.map ClassDecl.name ++ settings.userTypes
    ++ (decls.flatMap ClassDecl.imports).filter fun p => IsUserImport settings p

/-- Foreign imports aside, the table of a run is what its names make of the empty one. -/
theorem lookup_ofDeclarations (decls : List ClassDecl) (settings : ResolverSettings)
    (more : List String) (name : String) :
    ((ofDeclarations decls settings).insertAll more).lookup name
      = (empty.insertAll (arrivals decls settings ++ more)).lookup name := by
  have hnames : ((ofDeclarations decls settings).insertAll more).names
      = (empty.insertAll (arrivals decls settings ++ more)).names := by
    rw [names_insertAll, names_ofDeclarations, names_insertAll, List.foldl_append,
      foldl_keepNew id (arrivals decls settings)]
    rfl
  rw [lookup_eq_resolveSuffix
      (firstIndexed_insertAll (firstIndexed_ofDeclarations decls settings) more),
    lookup_eq_resolveSuffix (firstIndexed_insertAll firstIndexed_empty _), hnames]

/-- **Index and search obey one rule.** Make any names known one after the other, the
declared ones, added ones and imports of a run among them. A name is then looked up as
itself if it has arrived, and otherwise as the earliest arrival that ends in a dot and it.
Hence what is found has arrived and is looked up as itself, and a further arrival makes a
difference to its own name and to names that were not found, and to no other. -/
theorem lookup_suffixRule (names : List String) :
    (∀ name, (empty.insertAll names).lookup name
      = if name ∈ names then some name else names.find? fun q => endsWith q ("." ++ name))
    ∧ (∀ name found, (empty.insertAll names).lookup name = some found →
      found ∈ names ∧ (empty.insertAll names).lookup found = some found)
    ∧ (∀ new name, ((empty.insertAll names).insert new).lookup name
          ≠ (empty.insertAll names).lookup name →
        name = new ∨ (empty.insertAll names).lookup name = none)
    ∧ ∀ (decls : List ClassDecl) (settings : ResolverSettings) (more : List String)
        (name : String), ((ofDeclarations decls settings).insertAll more).lookup name
          = (empty.insertAll (arrivals decls settings ++ more)).lookup name := by
  have hinsert : ∀ new, (empty.insertAll names).insert new = empty.insertAll (names ++ [new]) := by
    intro new
    unfold insertAll
    rw [List.foldl_append]
    rfl
  refine ⟨fun name => ?_, fun name found hfound => ?_, fun new name hchanged => ?_,
    lookup_ofDeclarations⟩
  · rw [lookup_insertAll_empty, resolveSuffix]
    simp only [List.contains_iff_mem]
  · rw [lookup_insertAll_empty] at hfound
    obtain ⟨hmem, -⟩ := resolveSuffix_cases hfound
    refine ⟨hmem, lookup_of_contains (List.contains_iff_mem.mpr ?_)⟩
    exact mem_names_insertAll.mpr (.inr hmem)
  · rw [hinsert, lookup_insertAll_empty, lookup_insertAll_empty, resolveSuffix_concat] at hchanged
    rw [lookup_insertAll_empty]
    by_cases hname : name = new
    · exact .inl hname
    · rw [if_neg hname] at hchanged
      -- what was found before is still found first
      cases hfound : resolveSuffix names name with
      | none => exact .inr rfl
      | some found =>
        rw [hfound] at hchanged
        exact absurd rfl hchanged

/-- The first door to arrive has the plain name, and `House.Door` tells the doors apart. -/
example :
    (empty.insertAll ["barn.Door", "home.House.Door"]).lookup "Door" = some "barn.Door"
    ∧ (empty.insertAll ["barn.Door", "home.House.Door"]).lookup "House.Door"
      = some "home.House.Door" := by
  rw [lookup_insertAll_empty, lookup_insertAll_empty]
  decide

end TypeTable

/-! ## Scopes that look names up alike -/

/-- Resolving respects equality. -/
theorem respected_eq : Respected fun a b => a = b where
  foreign := rfl
  wrap := by
    rintro w transparent a b rfl
    rfl
  sides := by
    rintro k k' v v' rfl rfl
    rfl

namespace Scope

variable {s s' : Scope}

/-- A scope reads its table by lookups and foreign imports only. -/
theorem role_congr
    (hforeign : ∀ simple, s.table.isForeignImport simple = s'.table.isForeignImport simple)
    {name : String} (hlookup : s.table.lookup name = s'.table.lookup name)
    (hsettings : s.settings = s'.settings) : s.role name = s'.role name := by
  obtain ⟨table, settings⟩ := s
  obtain ⟨table', settings'⟩ := s'
  dsimp only at hsettings hforeign hlookup
  subst hsettings
  unfold role isForeign isForeignName
  simp only [hlookup, hforeign]
  rfl

/-- A type is resolved by the roles of names and nothing else. -/
theorem resolve_congr (hroles : ∀ name, s.role name = s'.role name) (t : TypeRef) :
    s.resolve t = s'.resolve t := by
  refine respected_eq.resolve (fun name => ?_) t
  rw [hroles name]
  cases s'.role name with
  | leaf outcome => exact .leaf rfl
  | mapLike => exact .mapLike
  | wrapper w transparent => exact .wrapper w transparent

end Scope

end ClassDiagram
