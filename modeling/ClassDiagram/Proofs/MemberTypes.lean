import ClassDiagram.Proofs.SourceOrder
import Mathlib.Data.List.Forall2
import Mathlib.Data.List.Nodup

/-!
# The types of a file

A type of a file has an *address*: its position among the types at the top level, or the
address of the type around it and its position among the types nested there. Types inside the
bodies of methods, constructors and anonymous classes have none. In the order of addresses as
lists of numbers an outer type comes before what is nested in it, and siblings follow each
other.

`extractedAs_declarations` says that the declarations of a file are the types at its
addresses, in that order, which is also that of their places in the source, each under the
dotted name of the types around it. The walk through nested types is an induction of its own
(`types_induction`). Names have no dot in them, because each is a single word of the source,
so a dotted name can be taken apart again and leads back to one address.
-/

namespace ClassDiagram.Java

/-! ## Addresses -/

/-- The types that members declare, in their order. -/
def nestedTypes (members : List Member) : List TypeDecl :=
  members.filterMap fun
    | .nested d => some d
    | _ => none

/-- The type at an address, and the names of the types around it and its own, from the outside
in. -/
def typeAt? : List TypeDecl → List Nat → Option (List String × TypeDecl)
  | _, [] => none
  | types, [i] => types[i]?.map fun d => ([d.head.name], d)
  | types, i :: j :: rest =>
    types[i]?.bind fun d => (typeAt? (nestedTypes d.members) (j :: rest)).map fun x =>
      (d.head.name :: x.1, x.2)

/-- The types that are declared in the type at an address, or at the top level for the empty
address. -/
def siblingsAt : List TypeDecl → List Nat → List TypeDecl
  | types, [] => types
  | types, i :: rest =>
    match types[i]? with
    | some d => siblingsAt (nestedTypes d.members) rest
    | none => []

/-- Types that are declared side by side have different simple names. -/
def SiblingsDiffer (types : List TypeDecl) : Prop :=
  ∀ a, ((siblingsAt types a).map fun d => d.head.name).Nodup

/-- The addresses below siblings, given those inside each of them. -/
def below (inside : List (List (List Nat))) : List (List Nat) :=
  inside.zipIdx.flatMap fun x => x.1.map (x.2 :: ·)

mutual

/-- The addresses inside a type, itself included. -/
def TypeDecl.addresses : TypeDecl → List (List Nat)
  | .mk _ members => [] :: below (memberAddresses members)

/-- The addresses inside each of the types that members declare. -/
def memberAddresses : List Member → List (List (List Nat))
  | [] => []
  | m :: rest => m.addresses ++ memberAddresses rest

def Member.addresses : Member → List (List (List Nat))
  | .nested d => [d.addresses]
  | _ => []

end

/-- All addresses, in their order. -/
def addresses (types : List TypeDecl) : List (List Nat) :=
  below (types.map TypeDecl.addresses)

/-- Addresses below a type are counted by its nested types alone. -/
theorem memberAddresses_eq (members : List Member) :
    memberAddresses members = (nestedTypes members).map TypeDecl.addresses := by
  induction members with
  | nil => rfl
  | cons m rest ih =>
    rw [memberAddresses, ih]
    cases m <;> rfl

/-- A type has the empty address, and its nested types have those below it. -/
theorem TypeDecl.addresses_eq (d : TypeDecl) :
    d.addresses = [] :: Java.addresses (nestedTypes d.members) := by
  obtain ⟨head, members⟩ := d
  rw [TypeDecl.addresses, memberAddresses_eq, Java.addresses, TypeDecl.members]

/-- Nested types are parts of the members. -/
theorem sizeOf_nestedTypes_le (members : List Member) :
    sizeOf (nestedTypes members) ≤ sizeOf members := by
  induction members with
  | nil => exact Nat.le_refl _
  | cons m rest ih =>
    cases m with
    | nested d =>
      have hcons : nestedTypes (.nested d :: rest) = d :: nestedTypes rest := rfl
      simp only [hcons, List.cons.sizeOf_spec, Member.nested.sizeOf_spec]
      omega
    | field | constructor | method =>
      refine Nat.le_trans ih ?_
      rw [List.cons.sizeOf_spec]
      omega

/-- Types are gone through from the inside out. -/
@[elab_as_elim]
theorem types_induction {motive : List TypeDecl → Prop}
    (step : ∀ types, (∀ d ∈ types, motive (nestedTypes d.members)) → motive types)
    (types : List TypeDecl) : motive types := by
  refine step types fun d hd => ?_
  have hsize : sizeOf (nestedTypes d.members) < sizeOf types := by
    have hd := List.sizeOf_lt_of_mem hd
    obtain ⟨head, members⟩ := d
    rw [TypeDecl.mk.sizeOf_spec] at hd
    have hmembers := sizeOf_nestedTypes_le members
    rw [TypeDecl.members]
    omega
  exact types_induction step _
termination_by sizeOf types

/-- An address begins with the position of a type and goes on inside it. -/
theorem mem_addresses_iff {types : List TypeDecl} {a : List Nat} :
    a ∈ addresses types ↔ ∃ i d rest, a = i :: rest ∧ types[i]? = some d
      ∧ (rest = [] ∨ rest ∈ addresses (nestedTypes d.members)) := by
  rw [addresses]
  simp only [below, List.mem_flatMap, List.mem_map, Prod.exists,
    List.mem_zipIdx_iff_getElem?, List.getElem?_map, Option.map_eq_some_iff]
  constructor
  · rintro ⟨inside, i, ⟨d, hd, rfl⟩, rest, hrest, rfl⟩
    rw [TypeDecl.addresses_eq, List.mem_cons] at hrest
    exact ⟨i, d, rest, rfl, hd, hrest⟩
  · rintro ⟨i, d, rest, rfl, hd, hrest⟩
    refine ⟨d.addresses, i, ⟨d, hd, rfl⟩, rest, ?_, rfl⟩
    rw [TypeDecl.addresses_eq, List.mem_cons]
    exact hrest

/-- Addresses are listed in ascending order: an outer type before the types inside it, and
siblings one after the other. -/
theorem addresses_pairwise (types : List TypeDecl) : (addresses types).Pairwise (· < ·) := by
  induction types using types_induction with
  | step types ih =>
    have hinside : ∀ d ∈ types, d.addresses.Pairwise (· < ·) := by
      intro d hd
      rw [TypeDecl.addresses_eq, List.pairwise_cons]
      refine ⟨?_, ih d hd⟩
      intro a ha
      obtain ⟨i, _, rest, rfl, -⟩ := mem_addresses_iff.mp ha
      exact List.nil_lt_cons i rest
    have hpositions : (types.map TypeDecl.addresses).zipIdx.Pairwise fun x y => x.2 < y.2 := by
      rw [← List.pairwise_map, List.zipIdx_map_snd]
      exact List.pairwise_lt_range'
    rw [addresses, below, List.pairwise_flatMap]
    refine ⟨?_, hpositions.imp fun hlt a ha b hb => ?_⟩
    · rintro ⟨inside, i⟩ hmem
      obtain ⟨d, hd, rfl⟩ := List.mem_map.mp (List.fst_mem_of_mem_zipIdx hmem)
      rw [List.pairwise_map]
      exact (hinside d hd).imp List.cons_lt_cons_self.mpr
    · obtain ⟨_, -, rfl⟩ := List.mem_map.mp ha
      obtain ⟨_, -, rfl⟩ := List.mem_map.mp hb
      exact List.cons_lt_cons_iff.mpr (.inl hlt)

/-- No two types have one address. -/
theorem addresses_nodup (types : List TypeDecl) : (addresses types).Nodup := by
  refine (addresses_pairwise types).imp ?_
  rintro a _ hlt rfl
  exact List.lt_irrefl a hlt

/-! ## What is extracted -/

/-- Declarations are the types of a file at their addresses, each under the dotted name of the
package, the types around it and its own name. -/
structure CompilationUnit.ExtractedAs (path : RawPath) (u : CompilationUnit)
    (decls : List ClassDecl) : Prop where
  /-- Outer types come before the types inside them, and siblings in their order. -/
  order : (addresses u.types).Pairwise (· < ·)
  /-- Every type at the top level or nested in one counts, and nothing else does. -/
  complete : ∀ a, a ∈ addresses u.types ↔ (typeAt? u.types a).isSome = true
  /-- There is one declaration for each address, that of the type there. -/
  each : List.Forall₂ (fun a decl => ∃ names d, typeAt? u.types a = some (names, d)
      ∧ decl.name = ".".intercalate (u.package?.toList ++ names)
      ∧ decl = d.head.declaration ⟨path, u.imports⟩ decl.name d.members)
    (addresses u.types) decls
  /-- The declarations follow each other as their names do in the source. -/
  places : decls.Pairwise fun earlier later => ∃ p q : Position,
    earlier.location = some ⟨path, p.line, p.column⟩
    ∧ later.location = some ⟨path, q.line, q.column⟩ ∧ p.Before q
  /-- Every declaration has all imports of the file. -/
  imports : ∀ decl ∈ decls, decl.imports = u.imports
  /-- Where siblings have different simple names, no two declarations share a name. -/
  distinct : SiblingsDiffer u.types → (decls.map ClassDecl.name).Nodup

theorem TypeHead.imports_declaration (file : FileContext) (name : String) (h : TypeHead)
    (members : List Member) : (h.declaration file name members).imports = file.imports :=
  rfl

/-- The declarations among members are those of the nested types. -/
theorem nestedDeclarations_eq (file : FileContext) (outer : Option String)
    (members : List Member) :
    nestedDeclarations file outer members
      = (nestedTypes members).flatMap (TypeDecl.declarations file outer) := by
  induction members with
  | nil => rfl
  | cons m rest ih =>
    rw [nestedDeclarations, ih]
    cases m <;> rfl

/-- A type is declared before the types nested in it, which are put under its name. -/
theorem TypeDecl.declarations_eq (file : FileContext) (outer : Option String) (d : TypeDecl) :
    d.declarations file outer
      = d.head.declaration file (qualify outer d.head.name) d.members
        :: (nestedTypes d.members).flatMap
            (TypeDecl.declarations file (some (qualify outer d.head.name))) := by
  obtain ⟨head, members⟩ := d
  rw [TypeDecl.declarations, nestedDeclarations_eq]
  rfl

/-- A name below another one is the two with a dot between them. -/
theorem qualify_eq (outer : Option String) (name : String) :
    qualify outer name = ".".intercalate (outer.toList ++ [name]) := by
  cases outer with
  | none => exact String.intercalate_singleton.symm
  | some o => rfl

/-- Names on the way to a type are joined in the same way, however they are grouped. -/
theorem intercalate_qualify (outer : Option String) (name : String) {names : List String}
    (hnames : names ≠ []) :
    ".".intercalate ((some (qualify outer name)).toList ++ names)
      = ".".intercalate (outer.toList ++ name :: names) := by
  have hfront : outer.toList ++ [name] ≠ [] := List.append_ne_nil_of_right_ne_nil _ (by simp)
  rw [Option.toList_some, List.singleton_append, String.intercalate_cons_of_ne_nil hnames,
    qualify_eq, ← String.intercalate_append_of_ne_nil hfront hnames, List.append_assoc,
    List.singleton_append]

/-- An address inside a type is one of the file with the position of the type before it. -/
theorem typeAt?_cons {types : List TypeDecl} {i : Nat} {d e : TypeDecl} {a : List Nat}
    {names : List String} (hd : types[i]? = some d)
    (ha : typeAt? (nestedTypes d.members) a = some (names, e)) :
    typeAt? types (i :: a) = some (d.head.name :: names, e) := by
  cases a with
  | nil => cases ha
  | cons j rest => rw [typeAt?, hd, Option.bind_some, ha, Option.map_some]

/-- A type is at the top level, or it is inside one that is. -/
theorem typeAt?_eq_some_iff {types : List TypeDecl} {a : List Nat} {names : List String}
    {e : TypeDecl} :
    typeAt? types a = some (names, e) ↔ ∃ i d rest, a = i :: rest ∧ types[i]? = some d
      ∧ (rest = [] ∧ names = [d.head.name] ∧ e = d
        ∨ ∃ inner, typeAt? (nestedTypes d.members) rest = some (inner, e)
          ∧ names = d.head.name :: inner) := by
  constructor
  · intro h
    match a with
    | [] => cases h
    | [i] =>
      obtain ⟨d, hd, heq⟩ := Option.map_eq_some_iff.mp h
      cases heq
      exact ⟨i, _, [], rfl, hd, .inl ⟨rfl, rfl, rfl⟩⟩
    | i :: j :: rest =>
      obtain ⟨d, hd, hinner⟩ := Option.bind_eq_some_iff.mp h
      obtain ⟨⟨inner, e⟩, hrest, heq⟩ := Option.map_eq_some_iff.mp hinner
      cases heq
      exact ⟨i, d, j :: rest, rfl, hd, .inr ⟨inner, hrest, rfl⟩⟩
  · rintro ⟨i, d, rest, rfl, hd, ⟨rfl, rfl, he⟩ | ⟨inner, hrest, rfl⟩⟩
    · rw [typeAt?, hd, Option.map_some, he]
    · exact typeAt?_cons hd hrest

/-- There is a type at each address, and nowhere else. -/
theorem mem_addresses_iff_isSome {types : List TypeDecl} {a : List Nat} :
    a ∈ addresses types ↔ (typeAt? types a).isSome = true := by
  rw [Option.isSome_iff_exists, Prod.exists]
  induction types using types_induction generalizing a with
  | step types ih =>
    constructor
    · intro h
      obtain ⟨i, d, rest, rfl, hd, rfl | hrest⟩ := mem_addresses_iff.mp h
      · exact ⟨_, d, typeAt?_eq_some_iff.mpr ⟨i, d, [], rfl, hd, .inl ⟨rfl, rfl, rfl⟩⟩⟩
      · obtain ⟨names, e, he⟩ := (ih d (List.mem_of_getElem? hd)).mp hrest
        exact ⟨_, e, typeAt?_cons hd he⟩
    · rintro ⟨names, e, h⟩
      obtain ⟨i, d, rest, rfl, hd, ⟨rfl, -, -⟩ | ⟨inner, he, -⟩⟩ := typeAt?_eq_some_iff.mp h
      · exact mem_addresses_iff.mpr ⟨i, d, [], rfl, hd, .inl rfl⟩
      · have hrest := (ih d (List.mem_of_getElem? hd)).mpr ⟨inner, e, he⟩
        exact mem_addresses_iff.mpr ⟨i, d, rest, rfl, hd, .inr hrest⟩

/-- Outside the addresses there is nothing to compare. -/
theorem siblingsAt_eq_nil {a : List Nat} : ∀ {types : List TypeDecl}, a ≠ [] →
    a ∉ addresses types → siblingsAt types a = [] := by
  induction a with
  | nil => intro types h; exact absurd rfl h
  | cons i rest ih =>
    intro types _ ha
    rw [siblingsAt]
    cases hd : types[i]? with
    | none => rfl
    | some d =>
      have hrest : ¬(rest = [] ∨ rest ∈ addresses (nestedTypes d.members)) :=
        fun hrest => ha (mem_addresses_iff.mpr ⟨i, d, rest, rfl, hd, hrest⟩)
      rw [not_or] at hrest
      exact ih hrest.1 hrest.2

instance (types : List TypeDecl) : Decidable (SiblingsDiffer types) :=
  decidable_of_iff
    (∀ a ∈ [] :: addresses types, ((siblingsAt types a).map fun d => d.head.name).Nodup) <| by
    refine ⟨fun h a => ?_, fun h a _ => h a⟩
    by_cases ha : a ∈ [] :: addresses types
    · exact h a ha
    · rw [List.mem_cons, not_or] at ha
      rw [siblingsAt_eq_nil ha.1 ha.2]
      exact List.nodup_nil

/-- There is at least one name on the way to a type. -/
theorem typeAt?_names_ne_nil {types : List TypeDecl} {a : List Nat} {names : List String}
    {d : TypeDecl} (h : typeAt? types a = some (names, d)) : names ≠ [] := by
  obtain ⟨_, _, _, -, -, ⟨-, rfl, -⟩ | ⟨_, -, rfl⟩⟩ := typeAt?_eq_some_iff.mp h
  · exact List.cons_ne_nil _ _
  · exact List.cons_ne_nil _ _

/-- What belongs to each sibling, one after the other, belongs to the addresses below them. -/
theorem forall₂_below {β : Type} {R : List Nat → β → Prop} {f : TypeDecl → List β}
    {types : List TypeDecl} {n : Nat}
    (h : ∀ x ∈ types.zipIdx n,
      List.Forall₂ (fun a b => R (x.2 :: a) b) x.1.addresses (f x.1)) :
    List.Forall₂ R
      (((types.map TypeDecl.addresses).zipIdx n).flatMap fun x => x.1.map (x.2 :: ·))
      (types.flatMap f) := by
  induction types generalizing n with
  | nil => exact .nil
  | cons d rest ih =>
    rw [List.zipIdx_cons, List.forall_mem_cons] at h
    rw [List.map_cons, List.zipIdx_cons, List.flatMap_cons, List.flatMap_cons]
    exact List.rel_append (List.forall₂_map_left_iff.mpr h.1) (ih h.2)

/-- The declarations of types, address by address. -/
theorem declarations_forall₂ (file : FileContext) (types : List TypeDecl) :
    ∀ outer : Option String, List.Forall₂ (fun a decl => ∃ names d,
        typeAt? types a = some (names, d)
        ∧ decl.name = ".".intercalate (outer.toList ++ names)
        ∧ decl = d.head.declaration file decl.name d.members)
      (addresses types) (types.flatMap (TypeDecl.declarations file outer)) := by
  induction types using types_induction with
  | step types ih =>
    intro outer
    refine forall₂_below fun x hx => ?_
    obtain ⟨d, i⟩ := x
    have hd : types[i]? = some d := List.mem_zipIdx_iff_getElem?.mp hx
    rw [TypeDecl.addresses_eq, TypeDecl.declarations_eq]
    refine .cons ⟨[d.head.name], d, by simp [typeAt?, hd], qualify_eq outer d.head.name, rfl⟩ ?_
    have hmem : d ∈ types := List.mem_of_getElem? hd
    -- a type inside `d` has the name of `d` before its own names
    refine (ih d hmem (some (qualify outer d.head.name))).imp ?_
    rintro a decl ⟨names, e, ha, hname, hdecl⟩
    refine ⟨d.head.name :: names, e, typeAt?_cons hd ha, ?_, hdecl⟩
    rw [hname, intercalate_qualify _ _ (typeAt?_names_ne_nil ha)]

/-! ## Places -/

/-- The place of a type comes before those of the types nested in it. -/
theorem TypeDecl.places_eq (d : TypeDecl) :
    d.places = ⟨d.head.line, d.head.column⟩
      :: (nestedTypes d.members).flatMap TypeDecl.places := by
  obtain ⟨head, members⟩ := d
  rw [TypeDecl.places_mk, TypeDecl.head, TypeDecl.members]
  congr 1
  induction members with
  | nil => rfl
  | cons m rest ih =>
    rw [List.flatMap_cons, ih]
    cases m <;> rfl

/-- Declarations point to the places of their types. -/
theorem locations_declarations (file : FileContext) (types : List TypeDecl) :
    ∀ outer : Option String,
      (types.flatMap (TypeDecl.declarations file outer)).map ClassDecl.location
        = (types.flatMap TypeDecl.places).map fun p => some ⟨file.path, p.line, p.column⟩ := by
  induction types using types_induction with
  | step types ih =>
    intro outer
    rw [List.map_flatMap, List.map_flatMap]
    refine List.flatMap_congr fun d hd => ?_
    rw [TypeDecl.declarations_eq, TypeDecl.places_eq, List.map_cons, List.map_cons, ih d hd]
    rfl

/-- The declarations of a file point into that file. -/
theorem file_of_mem_declarations {path : RawPath} {source : String} {d : ClassDecl}
    (hd : d ∈ declarations path source) : ∃ l, d.location = some l ∧ l.file = path := by
  have hmem : d.location ∈ (declarations path source).map ClassDecl.location :=
    List.mem_map_of_mem hd
  rw [declarations, CompilationUnit.declarations, locations_declarations] at hmem
  obtain ⟨place, -, heq⟩ := List.mem_map.mp hmem
  exact ⟨_, heq.symm, rfl⟩

/-- The declarations of a file point to places that follow each other. -/
theorem locations_pairwise (path : RawPath) (source : String) :
    (declarations path source).Pairwise fun earlier later => ∃ p q : Position,
      earlier.location = some ⟨path, p.line, p.column⟩
      ∧ later.location = some ⟨path, q.line, q.column⟩ ∧ p.Before q := by
  rw [← List.pairwise_map (f := ClassDecl.location) (R := fun l m => ∃ p q : Position,
    l = some ⟨path, p.line, p.column⟩ ∧ m = some ⟨path, q.line, q.column⟩ ∧ p.Before q)]
  rw [declarations, CompilationUnit.declarations, locations_declarations, List.pairwise_map]
  exact (places_pairwise source).imp fun h => ⟨_, _, rfl, rfl, h⟩

/-! ## Names -/

/-- Nested types of a written type are written. -/
theorem written_nestedTypes {source : String} {d : TypeDecl} (h : d.Written source) :
    ∀ e ∈ nestedTypes d.members, e.Written source := by
  obtain ⟨head, members⟩ := d
  intro e he
  obtain ⟨m, hm, heq⟩ := List.mem_filterMap.mp he
  have hmember := membersWritten_iff.mp h.2 m hm
  cases m with
  | nested d =>
    cases heq
    exact hmember
  | field | constructor | method => cases heq

/-- A written type is called by a word. -/
theorem isWord_name {source : String} {d : TypeDecl} (h : d.Written source) :
    Lexer.isWord d.head.name.toList = true := by
  obtain ⟨head, members⟩ := d
  exact h.1.name

/-- A type inside written types is written, and so are the names around it. -/
theorem typeAt?_written {source : String} {a : List Nat} : ∀ {types : List TypeDecl}
    {names : List String} {d : TypeDecl}, (∀ t ∈ types, t.Written source) →
    typeAt? types a = some (names, d) →
    d.Written source ∧ ∀ n ∈ names, Lexer.isWord n.toList = true := by
  induction a with
  | nil => intro types names d _ h; cases h
  | cons i rest ih =>
    intro types names e htypes h
    obtain ⟨_, d, _, ⟨⟩, hd, hcase⟩ := typeAt?_eq_some_iff.mp h
    have hwritten := htypes d (List.mem_of_getElem? hd)
    rcases hcase with ⟨rfl, rfl, rfl⟩ | ⟨inner, hrest, rfl⟩
    · exact ⟨hwritten, List.forall_mem_singleton.mpr (isWord_name hwritten)⟩
    · obtain ⟨he, hnames⟩ := ih (written_nestedTypes hwritten) hrest
      exact ⟨he, List.forall_mem_cons.mpr ⟨isWord_name hwritten, hnames⟩⟩

/-- Nested types side by side differ as well. -/
theorem SiblingsDiffer.nested {types : List TypeDecl} (h : SiblingsDiffer types) {i : Nat}
    {d : TypeDecl} (hd : types[i]? = some d) : SiblingsDiffer (nestedTypes d.members) := by
  intro a
  have hbelow := h (i :: a)
  rwa [siblingsAt, hd] at hbelow

/-- The names around a type lead to one address, where siblings have different names. -/
theorem typeAt?_inj {a : List Nat} : ∀ {types : List TypeDecl} {b : List Nat}
    {names : List String} {d e : TypeDecl}, SiblingsDiffer types →
    typeAt? types a = some (names, d) → typeAt? types b = some (names, e) → a = b := by
  induction a with
  | nil => intro types b names d e _ ha; cases ha
  | cons i rest ih =>
    intro types b names d e hdiffer ha hb
    obtain ⟨_, t, _, ⟨⟩, ht, hat⟩ := typeAt?_eq_some_iff.mp ha
    obtain ⟨j, u, rest', rfl, hu, hbu⟩ := typeAt?_eq_some_iff.mp hb
    have hhead : t.head.name = u.head.name := by
      rcases hat with ⟨-, rfl, -⟩ | ⟨_, -, rfl⟩ <;> rcases hbu with ⟨-, hn, -⟩ | ⟨_, -, hn⟩ <;>
        exact (List.cons.inj hn).1
    -- two siblings of one name are the same one
    have hnodup : (types.map fun d => d.head.name).Nodup := hdiffer []
    obtain rfl : i = j := by
      refine (List.getElem?_inj ?_ hnodup).mp ?_
      · rw [List.length_map]
        exact (List.getElem?_eq_some_iff.mp ht).1
      · rw [List.getElem?_map, List.getElem?_map, ht, hu, Option.map_some, Option.map_some, hhead]
    obtain rfl : t = u := Option.some.inj (ht.symm.trans hu)
    rcases hat with ⟨rfl, rfl, -⟩ | ⟨inner, hinner, rfl⟩
    · rcases hbu with ⟨rfl, -, -⟩ | ⟨inner, hinner, hn⟩
      · rfl
      · exact absurd (List.cons.inj hn).2.symm (typeAt?_names_ne_nil hinner)
    · rcases hbu with ⟨-, hn, -⟩ | ⟨inner', hinner', hn⟩
      · exact absurd (List.cons.inj hn).2 (typeAt?_names_ne_nil hinner)
      · obtain rfl := (List.cons.inj hn).2
        rw [ih (hdiffer.nested ht) hinner hinner']

/-- Words are found again in what they make up with dots between them. -/
theorem words_of_intercalate_eq {xs ys : List String} (hxs : xs ≠ []) (hys : ys ≠ [])
    (hxwords : ∀ x ∈ xs, Lexer.isWord x.toList = true)
    (hywords : ∀ y ∈ ys, Lexer.isWord y.toList = true)
    (h : ".".intercalate xs = ".".intercalate ys) : xs = ys := by
  have hsplit : ∀ {zs : List String}, zs ≠ [] → (∀ z ∈ zs, Lexer.isWord z.toList = true) →
      (".".intercalate zs).toList.splitOn '.' = zs.map String.toList := by
    intro zs hzs hwords
    rw [String.toList_intercalate]
    refine List.splitOn_intercalate _ ?_ (by simpa using hzs)
    intro cs hcs hdot
    obtain ⟨z, hz, rfl⟩ := List.mem_map.mp hcs
    exact Lexer.dot_not_mem_of_isWord (hwords z hz) hdot
  have hmap := hsplit hxs hxwords
  rw [h, hsplit hys hywords] at hmap
  exact (List.map_inj_right fun _ _ heq => String.toList_injective heq).mp hmap.symm

/-- A package before two names says nothing about them. -/
theorem intercalate_package_inj {package : Option String} {xs ys : List String} (hxs : xs ≠ [])
    (hys : ys ≠ [])
    (h : ".".intercalate (package.toList ++ xs) = ".".intercalate (package.toList ++ ys)) :
    ".".intercalate xs = ".".intercalate ys := by
  cases package with
  | none => exact h
  | some p =>
    rw [Option.toList_some, List.singleton_append, List.singleton_append,
      String.intercalate_cons_of_ne_nil hxs, String.intercalate_cons_of_ne_nil hys] at h
    exact String.append_right_inj _ |>.mp h

/-- Each element of the second list is related to one of the first. -/
theorem exists_of_forall₂ {α β : Type} {R : α → β → Prop} {as : List α} {bs : List β}
    (h : List.Forall₂ R as bs) {b : β} (hb : b ∈ bs) : ∃ a ∈ as, R a b := by
  induction h with
  | nil => cases hb
  | cons hab _ ih =>
    rcases List.mem_cons.mp hb with rfl | hb
    · exact ⟨_, List.mem_cons_self .., hab⟩
    · obtain ⟨a, ha, hR⟩ := ih hb
      exact ⟨a, List.mem_cons_of_mem _ ha, hR⟩

/-- Where the first elements can be told from what the second ones give, nothing is given
twice. -/
theorem nodup_map_of_forall₂ {α β γ : Type} {R : α → β → Prop} {f : β → γ} {as : List α}
    {bs : List β} (h : List.Forall₂ R as bs) (has : as.Nodup)
    (hinj : ∀ {a a' b b'}, R a b → R a' b' → f b = f b' → a = a') : (bs.map f).Nodup := by
  induction h with
  | nil => exact List.nodup_nil
  | cons hab hrest ih =>
    obtain ⟨ha, has⟩ := List.nodup_cons.mp has
    refine List.nodup_cons.mpr ⟨?_, ih has⟩
    intro hmem
    obtain ⟨b', hb', heq⟩ := List.mem_map.mp hmem
    obtain ⟨a', ha', hab'⟩ := exists_of_forall₂ hrest hb'
    exact ha (hinj hab hab' heq.symm ▸ ha')

/-! ## The declarations of a file -/

/-- A declaration of a file comes from a type that is written in it. -/
theorem exists_written_of_mem_declarations {path : RawPath} {source : String} {decl : ClassDecl}
    (h : decl ∈ declarations path source) :
    ∃ d : TypeDecl, d.Written source ∧ decl = d.head.declaration
      ⟨path, (CompilationUnit.parse source).imports⟩ decl.name d.members := by
  rw [declarations, CompilationUnit.declarations] at h
  obtain ⟨a, -, names, d, hd, -, hdecl⟩ := exists_of_forall₂ (declarations_forall₂ _ _ _) h
  exact ⟨d, (typeAt?_written (fun _ => written_of_mem_types) hd).1, hdecl⟩

/-- If types side by side have different names, no two declarations of the file have one. -/
theorem nodup_names_of_siblingsDiffer {path : RawPath} {source : String}
    (h : SiblingsDiffer (CompilationUnit.parse source).types) :
    ((declarations path source).map ClassDecl.name).Nodup := by
  refine nodup_map_of_forall₂ (declarations_forall₂ _ _ _) (addresses_nodup _) ?_
  rintro a b decl decl' ⟨names, d, ha, hname, -⟩ ⟨names', e, hb, hname', -⟩ heq
  have hwords := (typeAt?_written (fun _ => written_of_mem_types) ha).2
  have hwords' := (typeAt?_written (fun _ => written_of_mem_types) hb).2
  have hnames := typeAt?_names_ne_nil ha
  have hnames' := typeAt?_names_ne_nil hb
  rw [hname, hname'] at heq
  obtain rfl : names = names' :=
    words_of_intercalate_eq hnames hnames' hwords hwords'
      (intercalate_package_inj hnames hnames' heq)
  exact typeAt?_inj h ha hb

/-- The declarations of a source text are its types, each once, in the order of the source, and
under their qualified names. -/
theorem extractedAs_declarations (path : RawPath) (source : String) :
    (CompilationUnit.parse source).ExtractedAs path (declarations path source) where
  order := addresses_pairwise _
  complete _ := mem_addresses_iff_isSome
  each := declarations_forall₂ _ _ _
  places := locations_pairwise path source
  imports decl h := by
    obtain ⟨d, -, hdecl⟩ := exists_written_of_mem_declarations h
    rw [hdecl, TypeHead.imports_declaration]
  distinct := nodup_names_of_siblingsDiffer

/-- A file with types in types of each kind, beside types in a method, in the body of a constant
and in a declaration of annotations, which do not count. -/
def shelfSource : String :=
  "package home; import java.util.List; " ++
  "class Shelf \x7b record Slot() \x7b enum Side \x7b LEFT \x7b class Odd \x7b\x7d \x7d; " ++
  "interface Turn \x7b\x7d \x7d \x7d void sort() \x7b class Local \x7b\x7d \x7d \x7d " ++
  "interface Side \x7b\x7d @interface Mark \x7b class Odd \x7b\x7d \x7d"

/-- The types of the file have names of their own, which are the paths to them, and all of them
have its import. -/
theorem extractedAs_declarations_shelf :
    SiblingsDiffer (CompilationUnit.parse shelfSource).types
    ∧ ((declarations "Shelf.java" shelfSource).map ClassDecl.name).Nodup
    ∧ (declarations "Shelf.java" shelfSource).map (fun d => (d.name, d.imports))
      = ["home.Shelf", "home.Shelf.Slot", "home.Shelf.Slot.Side", "home.Shelf.Slot.Side.Turn",
          "home.Side"].map fun name => (name, ["java.util.List"]) := by
  have hread : SiblingsDiffer (CompilationUnit.parse shelfSource).types
      ∧ (declarations "Shelf.java" shelfSource).map (fun d => (d.name, d.imports))
        = ["home.Shelf", "home.Shelf.Slot", "home.Shelf.Slot.Side", "home.Shelf.Slot.Side.Turn",
            "home.Side"].map fun name => (name, ["java.util.List"]) := by
    decide +kernel
  exact ⟨hread.1, (extractedAs_declarations "Shelf.java" shelfSource).distinct hread.1, hread.2⟩

end ClassDiagram.Java
