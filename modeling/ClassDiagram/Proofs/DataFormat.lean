import ClassDiagram.Json.Diagram
import ClassDiagram.Json.Settings
import Mathlib.Data.List.Forall2

/-!
# Reading undoes writing

Every value of the data format is read back from its document (`ofJson?_toJson`). There is one
value that has no document: a location in a file whose path is no text. So a declaration or an
entity has a document exactly if its location, where it has one, names a text, and then it is
read back as well (`ClassDecl.toJson?_eq_none_iff`, `ClassDecl.ofJson?_of_toJson?`).

A record is written with all its fields, so each of them is found under its name, and the
reader of the field gets what its writer made. What is left are the writers and readers of
the fields: texts, truth values, words, lists and optional values (`asList_ofList`,
`asOption_ofOption`), and types.

Types nest, and their reader counts down the depth of the document. `read_eq_ofJson?` gets
rid of the counter: any fuel above the depth gives the same answer. So the reader obeys the
equations that one would write without it (`ofJson?_named`, `ofJson?_array`), the round trip
is an induction over the type, and what the reader accepts can be said in full
(`ofJson?_eq_some_iff`).
-/

namespace ClassDiagram

namespace Json

/-! ## Depth -/

/-- The elements of a list are no deeper than the deepest of them. -/
theorem depth_le_itemsDepth {items : List Json} {v : Json} (h : v ∈ items) :
    v.depth ≤ itemsDepth items := by
  induction items with
  | nil => cases h
  | cons w rest ih =>
    rw [itemsDepth]
    rcases List.mem_cons.mp h with rfl | hrest
    · omega
    · have := ih hrest
      omega

/-- What is found under a key is no deeper than the deepest value. -/
theorem depth_le_entriesDepth {entries : List (String × Json)} {name : String} {v : Json}
    (h : entries.lookup name = some v) : v.depth ≤ entriesDepth entries := by
  induction entries with
  | nil => cases h
  | cons e rest ih =>
    obtain ⟨k, w⟩ := e
    rw [entriesDepth]
    rw [List.lookup_cons] at h
    split at h
    · rw [Option.some.inj h]
      omega
    · have := ih h
      omega

/-- What is written in a field is not as deep as the record. -/
theorem depth_lt_of_field? {width i : Nat} {name : String} {v w : Json} {r : Record}
    (hr : asRecord width v = some r) (hw : r.field? i name = some w) : w.depth < v.depth := by
  cases v with
  | obj entries =>
    obtain rfl := Option.some.inj hr
    rw [depth]
    exact Nat.lt_succ_of_le (depth_le_entriesDepth hw)
  | arr items =>
    rw [asRecord] at hr
    split at hr
    · obtain rfl := Option.some.inj hr
      rw [depth]
      exact Nat.lt_succ_of_le (depth_le_itemsDepth (List.mem_of_getElem? hw))
    · cases hr
  | null | bool _ | num _ _ | str _ => cases hr

/-! ## Readers of lists, optional values and words -/

/-- Reading all elements depends on nothing but the elements. -/
theorem mapM_congr {α β : Type} {f g : α → Option β} {l : List α} (h : ∀ a ∈ l, f a = g a) :
    l.mapM f = l.mapM g := by
  induction l with
  | nil => rfl
  | cons a rest ih =>
    rw [List.mapM_cons, List.mapM_cons, h a List.mem_cons_self,
      ih fun b hb => h b (List.mem_cons_of_mem a hb)]

/-- All elements are read, each by itself. -/
theorem mapM_eq_some_iff {α β : Type} {f : α → Option β} {l : List α} {bs : List β} :
    l.mapM f = some bs ↔ List.Forall₂ (fun a b => f a = some b) l bs := by
  induction l generalizing bs with
  | nil =>
    rw [List.mapM_nil, List.forall₂_nil_left_iff]
    exact ⟨fun h => (Option.some.inj h).symm, fun h => congrArg some h.symm⟩
  | cons a rest ih =>
    rw [List.mapM_cons, List.forall₂_cons_left_iff]
    constructor
    · intro h
      obtain ⟨b, hb, h⟩ := Option.bind_eq_some_iff.mp h
      obtain ⟨bs', hbs, h⟩ := Option.bind_eq_some_iff.mp h
      exact ⟨b, bs', hb, ih.mp hbs, (Option.some.inj h).symm⟩
    · intro h
      obtain ⟨b, bs', hb, hbs, rfl⟩ := h
      rw [hb, ih.mpr hbs]
      rfl

/-- A list fails where one of its members does. -/
theorem mapM_eq_none_iff {α β : Type} {f : α → Option β} {l : List α} :
    l.mapM f = none ↔ ∃ a ∈ l, f a = none := by
  induction l with
  | nil => exact ⟨nofun, nofun⟩
  | cons a rest ih =>
    rw [List.mapM_cons, List.exists_mem_cons_iff, ← ih]
    cases f a with
    | none => exact ⟨fun _ => .inl rfl, fun _ => rfl⟩
    | some b =>
      cases rest.mapM f with
      | none => exact ⟨fun _ => .inr rfl, fun _ => rfl⟩
      | some bs => exact ⟨nofun, nofun⟩

/-- The reader of a list sees nothing but its items. -/
theorem asList_congr {α : Type} {read read' : Reader α} {v : Json}
    (h : ∀ w : Json, w.depth < v.depth → read w = read' w) : asList read v = asList read' v := by
  cases v with
  | arr items =>
    refine mapM_congr fun w hw => h w ?_
    rw [depth]
    exact Nat.lt_succ_of_le (depth_le_itemsDepth hw)
  | null | bool _ | num _ _ | str _ | obj _ => rfl

/-- A list is read back if its elements are. -/
theorem asList_ofList {α : Type} {encode : α → Json} {read : Reader α} {xs : List α}
    (h : ∀ a ∈ xs, read (encode a) = some a) : asList read (.ofList encode xs) = some xs := by
  show (xs.map encode).mapM read = some xs
  rw [mapM_eq_some_iff, List.forall₂_map_left_iff, List.forall₂_same]
  exact h

/-- Strings are read back as they are. -/
theorem asList_strings (xs : List String) : asList asString (.strings xs) = some xs :=
  asList_ofList fun _ _ => rfl

/-- A value is told from its absence as long as it is not written as null. -/
theorem asOption_ofOption {α : Type} {encode : α → Json} {read : Reader α} {o : Option α}
    (hnull : ∀ a, encode a ≠ .null) (h : ∀ a ∈ o, read (encode a) = some a) :
    asOption read (.ofOption encode o) = some o := by
  cases o with
  | none => rfl
  | some a =>
    have hvalue := h a rfl
    show asOption read (encode a) = some (some a)
    cases hv : encode a with
    | null => exact absurd hv (hnull a)
    | bool _ | num _ _ | str _ | arr _ | obj _ =>
      rw [hv] at hvalue
      rw [asOption, hvalue]
      all_goals simp

/-- The reader of a list in a field sees nothing but what lies below the record. -/
theorem required_asList_congr {α : Type} {read read' : Reader α} {width i : Nat} {name : String}
    {v : Json} {r : Record} (hr : asRecord width v = some r)
    (h : ∀ u : Json, u.depth < v.depth → read u = read' u) :
    r.required i name (asList read) = r.required i name (asList read') := by
  unfold Record.required
  cases hw : r.field? i name with
  | none => rfl
  | some w =>
    have hbelow := depth_lt_of_field? hr hw
    exact asList_congr fun u hu => h u (Nat.lt_trans hu hbelow)

@[simp] theorem asString_str (s : String) : asString (.str s) = some s := rfl

@[simp] theorem asBool_bool (b : Bool) : asBool (.bool b) = some b := rfl

@[simp] theorem asRecord_obj (width : Nat) (entries : List (String × Json)) :
    asRecord width (.obj entries) = some (.keyed entries) := rfl

/-- A required field of an object is looked up by its name, wherever it stands. -/
@[simp] theorem required_keyed {α : Type} (entries : List (String × Json)) (i : Nat)
    (name : String) (read : Reader α) :
    (Record.keyed entries).required i name read = (entries.lookup name).bind read := rfl

/-- A field that is missing has its default; one that is there has to be read. -/
@[simp] theorem defaulting_keyed {α : Type} (entries : List (String × Json)) (i : Nat)
    (name : String) (default : α) (read : Reader α) :
    (Record.keyed entries).defaulting i name default read
      = (entries.lookup name).elim (some default) read := by
  have hfield : (Record.keyed entries).field? i name = entries.lookup name := rfl
  unfold Record.defaulting
  rw [hfield]
  cases entries.lookup name with
  | none => rfl
  | some v => rfl

/-- A field that may be null can also be missing. -/
@[simp] theorem optional_keyed {α : Type} (entries : List (String × Json)) (i : Nat)
    (name : String) (read : Reader α) :
    (Record.keyed entries).optional i name read
      = (entries.lookup name).elim (some none) (asOption read) := by
  have hfield : (Record.keyed entries).field? i name = entries.lookup name := rfl
  unfold Record.optional
  rw [hfield]
  cases entries.lookup name with
  | none => rfl
  | some v => rfl

/-- A number of 64 bits is read back. -/
theorem asNat64_nat {n : Nat} (h : n < 18446744073709551616) : asNat64 (.nat n) = some n :=
  if_pos h

end Json

open Json

/-! ## Types -/

namespace TypeRef

/-- An object with one entry is one level deeper than its value. -/
theorem depth_single (name : String) (v : Json) : (Json.obj [(name, v)]).depth = v.depth + 1 := by
  simp [Json.depth, Json.entriesDepth]

/-- Any fuel above the depth of the document will do. -/
theorem read_eq_read {fuel fuel' : Nat} {v : Json} (h : v.depth < fuel) (h' : v.depth < fuel') :
    read fuel v = read fuel' v := by
  induction fuel generalizing fuel' v with
  | zero => omega
  | succ fuel ih =>
    cases fuel' with
    | zero => omega
    | succ fuel' =>
      unfold read
      split
      next payload =>
        rw [depth_single] at h h'
        cases hr : asRecord 2 payload with
        | none => rfl
        | some r =>
          have hargs : r.required 1 "args" (asList (read fuel))
              = r.required 1 "args" (asList (read fuel')) :=
            required_asList_congr hr fun u hu => ih (by omega) (by omega)
          show (r.required 0 "name" asString).bind _ = (r.required 0 "name" asString).bind _
          rw [hargs]
      next element =>
        rw [depth_single] at h h'
        have hbelow : read fuel element = read fuel' element := ih (by omega) (by omega)
        rw [hbelow]
      next => rfl

/-- In particular any fuel above the depth reads what reading without a counter does. -/
theorem read_eq_ofJson? {fuel : Nat} {v : Json} (h : v.depth < fuel) : read fuel v = ofJson? v :=
  read_eq_read h (Nat.lt_succ_self _)

/-- Reading a named type, without a counter. -/
theorem ofJson?_named (payload : Json) :
    ofJson? (.obj [("named", payload)]) = do
      let r ← asRecord 2 payload
      let name ← r.required 0 "name" asString
      let args ← r.required 1 "args" (asList ofJson?)
      return .named name args := by
  rw [ofJson?, read, depth_single]
  cases hr : asRecord 2 payload with
  | none => rfl
  | some r =>
    have hargs : r.required 1 "args" (asList (read (payload.depth + 1)))
        = r.required 1 "args" (asList ofJson?) :=
      required_asList_congr hr fun u hu => read_eq_ofJson? (by omega)
    show (r.required 0 "name" asString).bind _ = (r.required 0 "name" asString).bind _
    rw [hargs]

/-- Reading an array type, without a counter. -/
theorem ofJson?_array (element : Json) :
    ofJson? (.obj [("array", element)]) = (ofJson? element).map .array := by
  rw [ofJson?, read, depth_single, read_eq_ofJson? (Nat.lt_succ_self _)]

/-- No other document is read as a type. -/
theorem ofJson?_eq_none {v : Json} (hnamed : ∀ payload, v ≠ .obj [("named", payload)])
    (harray : ∀ element, v ≠ .obj [("array", element)]) : ofJson? v = none := by
  unfold ofJson?
  exact read.eq_4 v v.depth hnamed harray

/-- The two fields of a named type: entries of an object, in any order and among others, or
the two items of a list. -/
def IsNamedPayload (payload : Json) (name : String) (items : List Json) : Prop :=
  (∃ entries, payload = .obj entries ∧ entries.lookup "name" = some (.str name)
    ∧ entries.lookup "args" = some (.arr items))
  ∨ payload = .arr [.str name, .arr items]

/-- What stands under `named` has a name and arguments, by their keys or in this order. -/
theorem isNamedPayload_iff {payload : Json} {name : String} {items : List Json} :
    IsNamedPayload payload name items ↔ ∃ r, asRecord 2 payload = some r
      ∧ r.field? 0 "name" = some (.str name) ∧ r.field? 1 "args" = some (.arr items) := by
  constructor
  · intro h
    rcases h with ⟨entries, rfl, hname, hargs⟩ | rfl
    · exact ⟨.keyed entries, rfl, hname, hargs⟩
    · exact ⟨.listed [.str name, .arr items], rfl, rfl, rfl⟩
  · intro h
    obtain ⟨r, hr, hname, hargs⟩ := h
    cases payload with
    | obj entries =>
      obtain rfl := Option.some.inj hr
      exact .inl ⟨entries, rfl, hname, hargs⟩
    | arr fields =>
      rw [asRecord] at hr
      split at hr
      next hlength =>
        obtain rfl := Option.some.inj hr
        -- there are two places and both are taken
        match fields, hlength, hname, hargs with
        | [_, _], _, hname, hargs =>
          obtain rfl := Option.some.inj hname
          obtain rfl := Option.some.inj hargs
          exact .inr rfl
      next => cases hr
    | null | bool _ | num _ _ | str _ => cases hr

/-- Only a string is read as one. -/
theorem asString_eq_some_iff {v : Json} {s : String} : asString v = some s ↔ v = .str s := by
  cases v with
  | str s' => simp [asString]
  | null | bool _ | num _ _ | arr _ | obj _ => simp [asString]

/-- Only a list is read as one, element by element. -/
theorem asList_eq_some_iff {v : Json} {args : List TypeRef} :
    asList ofJson? v = some args ↔ ∃ items, v = .arr items
      ∧ List.Forall₂ (fun w t => ofJson? w = some t) items args := by
  cases v with
  | arr items =>
    show items.mapM ofJson? = some args ↔ _
    rw [mapM_eq_some_iff]
    exact ⟨fun h => ⟨items, rfl, h⟩, fun ⟨_, heq, h⟩ => Json.arr.inj heq ▸ h⟩
  | null | bool _ | num _ _ | str _ | obj _ => simp [asList]

/-- **What is read as a type.** -/
theorem ofJson?_eq_some_iff {v : Json} {t : TypeRef} :
    ofJson? v = some t
      ↔ (∃ payload name items args, v = .obj [("named", payload)]
          ∧ IsNamedPayload payload name items
          ∧ List.Forall₂ (fun w a => ofJson? w = some a) items args ∧ t = .named name args)
        ∨ ∃ element a, v = .obj [("array", element)] ∧ ofJson? element = some a
          ∧ t = .array a := by
  constructor
  · intro h
    by_cases hnamed : ∃ payload, v = .obj [("named", payload)]
    · obtain ⟨payload, rfl⟩ := hnamed
      rw [ofJson?_named] at h
      obtain ⟨r, hr, h⟩ := Option.bind_eq_some_iff.mp h
      obtain ⟨name, hname, h⟩ := Option.bind_eq_some_iff.mp h
      obtain ⟨args, hargs, h⟩ := Option.bind_eq_some_iff.mp h
      obtain ⟨w, hw, hname⟩ := Option.bind_eq_some_iff.mp hname
      obtain ⟨u, hu, hargs⟩ := Option.bind_eq_some_iff.mp hargs
      rw [asString_eq_some_iff] at hname
      obtain ⟨items, rfl, hitems⟩ := asList_eq_some_iff.mp hargs
      rw [hname] at hw
      exact .inl ⟨payload, name, items, args, rfl, isNamedPayload_iff.mpr ⟨r, hr, hw, hu⟩,
        hitems, (Option.some.inj h).symm⟩
    by_cases harray : ∃ element, v = .obj [("array", element)]
    · obtain ⟨element, rfl⟩ := harray
      rw [ofJson?_array] at h
      obtain ⟨a, ha, rfl⟩ := Option.map_eq_some_iff.mp h
      exact .inr ⟨element, a, rfl, ha, rfl⟩
    · rw [ofJson?_eq_none (not_exists.mp hnamed) (not_exists.mp harray)] at h
      cases h
  · intro h
    rcases h with ⟨payload, name, items, args, rfl, hpayload, hitems, rfl⟩
      | ⟨element, a, rfl, ha, rfl⟩
    · obtain ⟨r, hr, hname, hargs⟩ := isNamedPayload_iff.mp hpayload
      have hlist : asList ofJson? (.arr items) = some args :=
        asList_eq_some_iff.mpr ⟨items, rfl, hitems⟩
      rw [ofJson?_named, hr]
      simp [Record.required, hname, hargs, hlist, asString]
    · rw [ofJson?_array, ha]
      rfl

mutual

/-- A type is read back from its document. -/
theorem ofJson?_toJson : ∀ t : TypeRef, ofJson? t.toJson = some t
  | .array element => by
    rw [toJson, ofJson?_array, ofJson?_toJson element]
    rfl
  | .named name args => by
    rw [toJson]
    exact ofJson?_eq_some_iff.mpr (.inl ⟨_, name, argsToJson args, args, rfl,
      .inl ⟨_, rfl, rfl, rfl⟩, ofJson?_argsToJson args, rfl⟩)

/-- Type arguments are read back in their order. -/
theorem ofJson?_argsToJson : ∀ args : List TypeRef,
    List.Forall₂ (fun w a => ofJson? w = some a) (argsToJson args) args
  | [] => by
    rw [argsToJson]
    exact .nil
  | a :: rest => by
    rw [argsToJson]
    exact .cons (ofJson?_toJson a) (ofJson?_argsToJson rest)

end

/-- A type is never written as null, so it can be told from its absence. -/
theorem toJson_ne_null (t : TypeRef) : t.toJson ≠ .null := by
  cases t with
  | named name args =>
    rw [toJson]
    simp
  | array element =>
    rw [toJson]
    simp

end TypeRef

/-! ## Words -/

/-- A visibility is known by its word. -/
theorem Visibility.asOneOf_text (x : Visibility) :
    asOneOf Visibility.words (.str x.text) = some x := by
  cases x <;> decide

/-- So is the kind of a declaration. -/
theorem DeclKind.asOneOf_text (x : DeclKind) : asOneOf DeclKind.words (.str x.text) = some x := by
  cases x <;> decide

/-- So is the kind of a supertype. -/
theorem SupertypeKind.asOneOf_text (x : SupertypeKind) :
    asOneOf SupertypeKind.words (.str x.text) = some x := by
  cases x <;> decide

/-- So is the kind of a relationship. -/
theorem RelationshipKind.asOneOf_text (x : RelationshipKind) :
    asOneOf RelationshipKind.words (.str x.text) = some x := by
  cases x <;> decide

/-- So is a multiplicity. -/
theorem Multiplicity.asOneOf_text (x : Multiplicity) :
    asOneOf Multiplicity.words (.str x.text) = some x := by
  cases x <;> decide

/-- So is the kind of an entity. -/
theorem EntityKind.asOneOf_text (x : EntityKind) :
    asOneOf EntityKind.words (.str x.text) = some x := by
  cases x <;> decide

/-- So is what becomes of unknown types. -/
theorem UnknownTypes.asOneOf_text (x : UnknownTypes) :
    asOneOf UnknownTypes.words (.str x.text) = some x := by
  cases x <;> decide

/-! ## Declarations -/

/-- The three forms of an initializer are told apart. -/
theorem Initializer.ofJson?_toJson (i : Initializer) : ofJson? i.toJson = some i := by
  cases i with
  | absent => rfl
  | other => rfl
  | construct type =>
    show (TypeRef.ofJson? type.toJson).map _ = _
    rw [TypeRef.ofJson?_toJson]
    rfl

/-- So are the three sources of an assignment. -/
theorem AssignSource.ofJson?_toJson (a : AssignSource) : ofJson? a.toJson = some a := by
  cases a with
  | other => rfl
  | parameter name => rfl
  | construct type =>
    show (TypeRef.ofJson? type.toJson).map _ = _
    rw [TypeRef.ofJson?_toJson]
    rfl

/-- A field is read back, whether or not it says that it can be null. -/
theorem FieldDecl.ofJson?_toJson (f : FieldDecl) : ofJson? f.toJson = some f := by
  have hnullable : asOption asBool (.ofOption .bool f.nullable) = some f.nullable :=
    asOption_ofOption (fun b => by simp) fun _ _ => rfl
  simp [ofJson?, toJson, List.lookup_cons, TypeRef.ofJson?_toJson, Visibility.asOneOf_text,
    Initializer.ofJson?_toJson, hnullable]

theorem Binding.ofJson?_toJson (b : Binding) : ofJson? b.toJson = some b := by
  simp [ofJson?, toJson, List.lookup_cons, TypeRef.ofJson?_toJson]

theorem FieldAssignment.ofJson?_toJson (a : FieldAssignment) : ofJson? a.toJson = some a := by
  simp [ofJson?, toJson, List.lookup_cons, AssignSource.ofJson?_toJson]

theorem StaticCall.ofJson?_toJson (c : StaticCall) : ofJson? c.toJson = some c := by
  simp [ofJson?, toJson, List.lookup_cons, TypeRef.ofJson?_toJson]

theorem Supertype.ofJson?_toJson (s : Supertype) : ofJson? s.toJson = some s := by
  simp [ofJson?, toJson, List.lookup_cons, TypeRef.ofJson?_toJson, SupertypeKind.asOneOf_text]

/-- The facts about a body are read back list by list. -/
theorem BodyFacts.ofJson?_toJson (b : BodyFacts) : ofJson? b.toJson = some b := by
  have hassignments : asList FieldAssignment.ofJson?
      (.ofList FieldAssignment.toJson b.fieldAssignments) = some b.fieldAssignments :=
    asList_ofList fun a _ => a.ofJson?_toJson
  have hcalls : asList StaticCall.ofJson? (.ofList StaticCall.toJson b.staticCalls)
      = some b.staticCalls :=
    asList_ofList fun c _ => c.ofJson?_toJson
  have hlocals : asList Binding.ofJson? (.ofList Binding.toJson b.locals) = some b.locals :=
    asList_ofList fun l _ => l.ofJson?_toJson
  simp [ofJson?, toJson, List.lookup_cons, asList_strings, hassignments, hcalls, hlocals]

/-- A method is read back, whether or not it has a result. -/
theorem MethodDecl.ofJson?_toJson (m : MethodDecl) : ofJson? m.toJson = some m := by
  have hparams : asList Binding.ofJson? (.ofList Binding.toJson m.params) = some m.params :=
    asList_ofList fun p _ => p.ofJson?_toJson
  have hreturn : asOption TypeRef.ofJson? (.ofOption TypeRef.toJson m.returnType)
      = some m.returnType :=
    asOption_ofOption TypeRef.toJson_ne_null fun t _ => t.ofJson?_toJson
  simp [ofJson?, toJson, List.lookup_cons, Visibility.asOneOf_text, BodyFacts.ofJson?_toJson,
    hparams, hreturn]

/-- Line and column are unsigned numbers of 64 bits. -/
def SourceLocation.InRange (l : SourceLocation) : Prop :=
  l.line < 18446744073709551616 ∧ l.column < 18446744073709551616

namespace SourceLocation

/-- A location has a document unless it is in a file whose path is no text. -/
theorem toJson?_eq_none_iff {l : SourceLocation} : l.toJson? = none ↔ ¬l.file.IsText := by
  rw [← RawPath.text?_eq_none_iff]
  unfold toJson?
  cases l.file.text? with
  | none => exact ⟨fun _ => rfl, fun _ => rfl⟩
  | some text => exact ⟨nofun, nofun⟩

/-- A location is read back from its document, which is not null. -/
theorem ofJson?_of_toJson? {l : SourceLocation} {v : Json} (hrange : l.InRange)
    (hv : l.toJson? = some v) : v ≠ .null ∧ ofJson? v = some l := by
  obtain ⟨text, htext, hv⟩ := Option.bind_eq_some_iff.mp hv
  obtain rfl := Option.some.inj hv
  have hfile : l.file = .ofText text := RawPath.text?_eq_some_iff.mp htext
  refine ⟨by simp, ?_⟩
  simp [ofJson?, List.lookup_cons, asNat64_nat hrange.1, asNat64_nat hrange.2, ← hfile]

variable {o : Option SourceLocation}

/-- Where something stands can be written unless it is in such a file. -/
theorem ofOption?_eq_none_iff :
    Json.ofOption? toJson? o = none ↔ ∃ l ∈ o, ¬l.file.IsText := by
  cases o with
  | none => exact ⟨nofun, nofun⟩
  | some l =>
    refine toJson?_eq_none_iff.trans ⟨fun h => ⟨l, rfl, h⟩, fun h => ?_⟩
    obtain ⟨l', hl, h⟩ := h
    obtain rfl := Option.some.inj hl
    exact h

/-- Where something stands, if anywhere, is read back. -/
theorem asOption_of_ofOption? {v : Json} (hrange : ∀ l ∈ o, l.InRange)
    (hv : Json.ofOption? toJson? o = some v) : asOption ofJson? v = some o := by
  cases o with
  | none =>
    obtain rfl := Option.some.inj hv
    rfl
  | some l =>
    obtain ⟨hnull, hread⟩ := ofJson?_of_toJson? (hrange l rfl) hv
    cases v with
    | null => exact absurd rfl hnull
    | bool _ | num _ _ | str _ | arr _ | obj _ =>
      rw [asOption, hread]
      all_goals simp

end SourceLocation

/-- A declaration has a document unless it stands in a file whose path is no text. -/
theorem ClassDecl.toJson?_eq_none_iff {d : ClassDecl} :
    d.toJson? = none ↔ ∃ l ∈ d.location, ¬l.file.IsText := by
  rw [← SourceLocation.ofOption?_eq_none_iff]
  unfold toJson?
  cases Json.ofOption? SourceLocation.toJson? d.location with
  | none => exact ⟨fun _ => rfl, fun _ => rfl⟩
  | some v => exact ⟨nofun, nofun⟩

/-- A declaration is read back from its document. -/
theorem ClassDecl.ofJson?_of_toJson? {d : ClassDecl} {v : Json}
    (hrange : ∀ l ∈ d.location, l.InRange) (hv : d.toJson? = some v) : ofJson? v = some d := by
  obtain ⟨location, hlocation, hv⟩ := Option.bind_eq_some_iff.mp hv
  obtain rfl := Option.some.inj hv
  have hread := SourceLocation.asOption_of_ofOption? hrange hlocation
  have hfields : asList FieldDecl.ofJson? (.ofList FieldDecl.toJson d.fields) = some d.fields :=
    asList_ofList fun f _ => f.ofJson?_toJson
  have hmethods : ∀ ms : List MethodDecl,
      asList MethodDecl.ofJson? (.ofList MethodDecl.toJson ms) = some ms :=
    fun ms => asList_ofList fun m _ => m.ofJson?_toJson
  have hsupertypes : asList Supertype.ofJson? (.ofList Supertype.toJson d.supertypes)
      = some d.supertypes :=
    asList_ofList fun s _ => s.ofJson?_toJson
  simp [ofJson?, List.lookup_cons, DeclKind.asOneOf_text, asList_strings, hfields, hmethods,
    hsupertypes, hread]

/-! ## Diagrams and settings -/

/-- A relationship is read back, with and without a multiplicity and a label. -/
theorem Relationship.ofJson?_toJson (r : Relationship) : ofJson? r.toJson = some r := by
  have hmultiplicity : asOption (asOneOf Multiplicity.words)
      (.ofOption (fun m => .str m.text) r.multiplicity) = some r.multiplicity :=
    asOption_ofOption (fun m => by simp) fun m _ => m.asOneOf_text
  have hlabel : asOption asString (.ofOption .str r.label) = some r.label :=
    asOption_ofOption (fun s => by simp) fun _ _ => rfl
  simp [ofJson?, toJson, List.lookup_cons, RelationshipKind.asOneOf_text, hmultiplicity, hlabel]

theorem FieldSummary.ofJson?_toJson (f : FieldSummary) : ofJson? f.toJson = some f := by
  simp [ofJson?, toJson, List.lookup_cons, Visibility.asOneOf_text]

theorem ParamSummary.ofJson?_toJson (p : ParamSummary) : ofJson? p.toJson = some p := by
  simp [ofJson?, toJson, List.lookup_cons]

/-- The lines of a box are read back. -/
theorem MethodSummary.ofJson?_toJson (m : MethodSummary) : ofJson? m.toJson = some m := by
  have hparams : asList ParamSummary.ofJson? (.ofList ParamSummary.toJson m.params)
      = some m.params :=
    asList_ofList fun p _ => p.ofJson?_toJson
  have hreturn : asOption asString (.ofOption .str m.returnType) = some m.returnType :=
    asOption_ofOption (fun s => by simp) fun _ _ => rfl
  simp [ofJson?, toJson, List.lookup_cons, Visibility.asOneOf_text, hparams, hreturn]

/-- An entity has a document unless it stands in a file whose path is no text. -/
theorem Entity.toJson?_eq_none_iff {e : Entity} :
    e.toJson? = none ↔ ∃ l ∈ e.location, ¬l.file.IsText := by
  rw [← SourceLocation.ofOption?_eq_none_iff]
  unfold toJson?
  cases Json.ofOption? SourceLocation.toJson? e.location with
  | none => exact ⟨fun _ => rfl, fun _ => rfl⟩
  | some v => exact ⟨nofun, nofun⟩

/-- An entity is read back from its document. -/
theorem Entity.ofJson?_of_toJson? {e : Entity} {v : Json}
    (hrange : ∀ l ∈ e.location, l.InRange) (hv : e.toJson? = some v) : ofJson? v = some e := by
  obtain ⟨location, hlocation, hv⟩ := Option.bind_eq_some_iff.mp hv
  obtain rfl := Option.some.inj hv
  have hread := SourceLocation.asOption_of_ofOption? hrange hlocation
  have hfields : asList FieldSummary.ofJson? (.ofList FieldSummary.toJson e.fields)
      = some e.fields :=
    asList_ofList fun f _ => f.ofJson?_toJson
  have hmethods : asList MethodSummary.ofJson? (.ofList MethodSummary.toJson e.methods)
      = some e.methods :=
    asList_ofList fun m _ => m.ofJson?_toJson
  simp [ofJson?, List.lookup_cons, EntityKind.asOneOf_text, asList_strings, hfields, hmethods,
    hread]

/-- The settings are read back, the default prefixes included. -/
theorem ResolverSettings.ofJson?_toJson (s : ResolverSettings) : ofJson? s.toJson = some s := by
  simp [ofJson?, toJson, List.lookup_cons, UnknownTypes.asOneOf_text, asList_strings]

/-- What cannot be written only because of where it stands is written and read back where that
is a text. -/
theorem exists_document {α : Type} {write : α → Option Json} {read : Reader α}
    {o : Option SourceLocation} {a : α} (hwrite : write a = none ↔ ∃ l ∈ o, ¬l.file.IsText)
    (hread : ∀ v, write a = some v → read v = some a) (htext : ∀ l ∈ o, l.file.IsText) :
    ∃ v, write a = some v ∧ read v = some a := by
  cases hv : write a with
  | none =>
    obtain ⟨l, hl, hstray⟩ := hwrite.mp hv
    exact absurd (htext l hl) hstray
  | some v => exact ⟨v, rfl, hread v hv⟩

/-- **Reading undoes writing.** Relationships and resolver settings are read back from their
documents. So are declarations and entities, where lines and columns are numbers of 64 bits;
they have a document exactly if they do not stand in a file whose path is no text. And a
document is read as a type if and only if it is an object with one entry that is called `named`
or `array` and what stands there is read: a name and a list of documents that are read as
types, or one such document. -/
theorem documents_roundTrip :
    (∀ d : ClassDecl,
      ((∀ l ∈ d.location, l.InRange) → (∀ l ∈ d.location, l.file.IsText) →
        ∃ v, d.toJson? = some v ∧ ClassDecl.ofJson? v = some d)
      ∧ ((∃ l ∈ d.location, ¬l.file.IsText) → d.toJson? = none))
    ∧ (∀ e : Entity,
      ((∀ l ∈ e.location, l.InRange) → (∀ l ∈ e.location, l.file.IsText) →
        ∃ v, e.toJson? = some v ∧ Entity.ofJson? v = some e)
      ∧ ((∃ l ∈ e.location, ¬l.file.IsText) → e.toJson? = none))
    ∧ (∀ r : Relationship, Relationship.ofJson? r.toJson = some r)
    ∧ (∀ s : ResolverSettings, ResolverSettings.ofJson? s.toJson = some s)
    ∧ ∀ (v : Json) (t : TypeRef), TypeRef.ofJson? v = some t
      ↔ (∃ payload name items args, v = .obj [("named", payload)]
          ∧ TypeRef.IsNamedPayload payload name items
          ∧ List.Forall₂ (fun w a => TypeRef.ofJson? w = some a) items args
          ∧ t = .named name args)
        ∨ ∃ element a, v = .obj [("array", element)] ∧ TypeRef.ofJson? element = some a
          ∧ t = .array a := by
  refine ⟨?_, ?_, Relationship.ofJson?_toJson, ResolverSettings.ofJson?_toJson,
    fun _ _ => TypeRef.ofJson?_eq_some_iff⟩
  · intro d
    refine ⟨fun hrange htext => ?_, ClassDecl.toJson?_eq_none_iff.mpr⟩
    exact exists_document ClassDecl.toJson?_eq_none_iff
      (fun _ => ClassDecl.ofJson?_of_toJson? hrange) htext
  · intro e
    refine ⟨fun hrange htext => ?_, Entity.toJson?_eq_none_iff.mpr⟩
    exact exists_document Entity.toJson?_eq_none_iff
      (fun _ => Entity.ofJson?_of_toJson? hrange) htext

/-- A house with a nested type, a constructor that makes what a field holds, and a location
as far away as a location can be. -/
def houseDecl : ClassDecl where
  name := "home.House"
  kind := .abstractClass
  fields := [
    { name := "plan",
      type := .named "Map" [.plain "Floor", .array (.named "List" [.plain "Room"])],
      isFinal := true, nullable := some false, initializer := .other }]
  constructors := [
    { name := "House", params := [⟨"floor", .plain "Floor"⟩],
      body := {
        fieldAssignments := [⟨"plan", .construct (.plain "Plan")⟩, ⟨"floor", .parameter "floor"⟩],
        delegatesToThis := true } }]
  supertypes := [⟨.plain "Building", .implements⟩]
  imports := ["java.util.Map"]
  location := some ⟨"House.java", 18446744073709551615, 1⟩

/-- The house in a file whose name is a byte that no text has. -/
def strayHouse : ClassDecl :=
  { houseDecl with location := some ⟨⟨[0xff]⟩, 1, 1⟩ }

/-- The house and its box are read back from their documents; in the stray file they have
none. -/
theorem documents_roundTrip_house :
    (∃ v, houseDecl.toJson? = some v ∧ ClassDecl.ofJson? v = some houseDecl)
    ∧ (∃ v, houseDecl.entity.toJson? = some v ∧ Entity.ofJson? v = some houseDecl.entity)
    ∧ strayHouse.toJson? = none := by
  have hrange : ∀ l ∈ houseDecl.location, l.InRange := by
    intro l hl
    obtain rfl : _ = l := Option.some.inj hl
    exact ⟨by decide, by decide⟩
  have htext : ∀ l ∈ houseDecl.location, l.file.IsText := by
    intro l hl
    obtain rfl : _ = l := Option.some.inj hl
    exact ⟨"House.java", rfl⟩
  have hstray : ∃ l ∈ strayHouse.location, ¬l.file.IsText := ⟨_, rfl, by decide⟩
  exact ⟨(documents_roundTrip.1 houseDecl).1 hrange htext,
    (documents_roundTrip.2.1 houseDecl.entity).1 hrange htext,
    (documents_roundTrip.1 strayHouse).2 hstray⟩

/-- Not everything is read back: the stray house stands at a line and a column in range, but it
has no document, and its box has none either. -/
theorem strayHouse_unwritten :
    (∀ l ∈ strayHouse.location, l.InRange)
    ∧ ¬(∃ v, strayHouse.toJson? = some v ∧ ClassDecl.ofJson? v = some strayHouse)
    ∧ ¬∃ v, strayHouse.entity.toJson? = some v ∧ Entity.ofJson? v = some strayHouse.entity := by
  have hstray : ∃ l ∈ strayHouse.location, ¬l.file.IsText := ⟨_, rfl, by decide⟩
  have hstrayBox : ∃ l ∈ strayHouse.entity.location, ¬l.file.IsText := hstray
  refine ⟨?_, ?_, ?_⟩
  · intro l hl
    obtain rfl : _ = l := Option.some.inj hl
    exact ⟨by decide, by decide⟩
  · intro h
    obtain ⟨v, hv, -⟩ := h
    rw [ClassDecl.toJson?_eq_none_iff.mpr hstray] at hv
    cases hv
  · intro h
    obtain ⟨v, hv, -⟩ := h
    rw [Entity.toJson?_eq_none_iff.mpr hstrayBox] at hv
    cases hv

end ClassDiagram
