import ClassDiagram.Proofs.WrittenTrees

/-!
# The order of the source

Tokens stand in a source text one after the other (`tokenize_places`). A type keeps the place
of its name, and the types that are read from some tokens, outer ones before those nested in
them, have their names there in this order (`Takes`). So the types of a file are listed in the
order in which they begin (`places_pairwise`).
-/

namespace ClassDiagram.Java

open ClassDiagram.Java.Parser Grammar Lexer

/-! ## Places of tokens -/

/-- Whether a place comes before another one. -/
def Position.Before (p q : Position) : Prop :=
  p.line < q.line ∨ p.line = q.line ∧ p.column < q.column

/-- What comes before something comes before everything after it. -/
theorem Position.Before.trans {p q s : Position} (hpq : p.Before q) (hqs : q.Before s) :
    p.Before s := by
  unfold Position.Before at *
  omega

theorem Position.before_after (p : Position) (c : Char) : p.Before (p.after c) := by
  unfold Position.after
  split
  · exact .inl (Nat.lt_succ_self _)
  · exact .inr ⟨rfl, Nat.lt_add_of_pos_right c.utf8Size_pos⟩

theorem Position.before_afterAll {cs : List Char} (h : cs ≠ []) (p : Position) :
    p.Before (p.afterAll cs) := by
  induction cs generalizing p with
  | nil => exact absurd rfl h
  | cons c cs ih =>
    show p.Before ((p.after c).afterAll cs)
    by_cases hcs : cs = []
    · rw [hcs]
      exact p.before_after c
    · exact (p.before_after c).trans (ih hcs _)

/-- The place of the first character of a token. -/
def Token.place (t : Token) : Position :=
  ⟨t.line, t.column⟩

/-- Tokens begin at the given place or after it, each one after those before it. -/
theorem scan_places {fuel : Nat} : ∀ {place lead cs},
    (∀ t ∈ scan fuel place lead cs, t.place = place ∨ place.Before t.place)
    ∧ (scan fuel place lead cs).Pairwise fun t u => t.place.Before u.place := by
  induction fuel with
  | zero => intro place lead cs; exact ⟨List.forall_mem_nil _, .nil⟩
  | succ fuel ih =>
    intro place lead cs
    cases cs with
    | nil => exact ⟨List.forall_mem_nil _, .nil⟩
    | cons c cs =>
      -- what comes after the first lexeme comes after its place
      have hlater : ∀ {n lead'}, ∀ t ∈ scan fuel (place.afterAll (c :: cs.take n)) lead'
          (cs.drop n), place.Before t.place := by
        intro n lead' t ht
        have hnext := Position.before_afterAll (List.cons_ne_nil c (cs.take n)) place
        rcases ih.1 t ht with heq | hbefore
        · exact heq ▸ hnext
        · exact hnext.trans hbefore
      rw [scan]
      rcases lexeme c cs with ⟨_ | kind, n⟩
      · exact ⟨fun t ht => .inr (hlater t ht), ih.2⟩
      · refine ⟨List.forall_mem_cons.mpr ⟨.inl rfl, fun t ht => .inr (hlater t ht)⟩, ?_⟩
        exact List.pairwise_cons.mpr ⟨hlater, ih.2⟩

/-- The tokens of a source are listed in the order of their places. -/
theorem tokenize_places (source : String) :
    ((tokenize source).map Token.place).Pairwise Position.Before :=
  List.pairwise_map.mpr scan_places.2

/-! ## Places of types -/

mutual

/-- The places of the names of a type and of the types nested in it, outer ones first. -/
def TypeDecl.places : TypeDecl → List Position
  | .mk head members => ⟨head.line, head.column⟩ :: memberPlaces members

def memberPlaces : List Member → List Position
  | [] => []
  | m :: rest => m.places ++ memberPlaces rest

def Member.places : Member → List Position
  | .nested d => d.places
  | _ => []

end

/-- The places of members are those of each member in turn. -/
theorem memberPlaces_eq (members : List Member) :
    memberPlaces members = members.flatMap Member.places := by
  induction members with
  | nil => rfl
  | cons m rest ih => rw [memberPlaces, ih, List.flatMap_cons]

/-- A member that declares no type has no place to be listed. -/
theorem Member.WrittenPlain.places {source : String} {m : Member} (h : m.WrittenPlain source) :
    m.places = [] := by
  cases m with
  | nested d => exact absurd rfl (h.plain d)
  | field | constructor | method => rfl

/-- What `p` reads has its places, as far as they are not known before, among those of the
tokens that it takes, and in their order. -/
structure Parser.Takes {α : Type} (all : List Token) (before : List Position)
    (places : α → List Position) (p : Parser α) : Prop where
  of_read : ∀ {ts a rest}, ts <:+ all → p ts = some (a, rest) →
    ∃ taken, ts = taken ++ rest ∧ (places a).Sublist (before ++ taken.map Token.place)

namespace Parser.Takes

variable {α β : Type} {all : List Token} {before : List Position} {f : α → List Position}
  {g : β → List Position}

/-- Reading nothing keeps the places that are known before. -/
protected theorem pure {a : α} (h : f a = before) : Takes all before f (pure a) := by
  refine ⟨?_⟩
  intro ts b rest _ hread
  obtain ⟨rfl, rfl⟩ := pure_eq_some_iff.mp hread
  exact ⟨[], rfl, by simp [h]⟩

/-- The places of the first part are known before the second. -/
protected theorem bind {p : Parser α} {k : α → Parser β} (hp : Takes all [] f p)
    (hk : ∀ a, Takes all (before ++ f a) g (k a)) : Takes all before g (p >>= k) := by
  refine ⟨?_⟩
  intro ts b rest hts hread
  obtain ⟨a, next, hfirst, hsecond⟩ := bind_eq_some_iff.mp hread
  obtain ⟨taken, rfl, htaken⟩ := hp.of_read hts hfirst
  obtain ⟨more, rfl, hmore⟩ := (hk a).of_read ((List.suffix_append _ _).trans hts) hsecond
  refine ⟨taken ++ more, (List.append_assoc ..).symm, hmore.trans ?_⟩
  rw [List.map_append, ← List.append_assoc]
  exact (List.append_sublist_append_left before).mpr htaken |>.append_right _

/-- What is passed over takes tokens, but no place of it is kept. -/
protected theorem pass {P : α → Prop} {p : Parser α} {k : α → Parser β} (hp : Reads all P p)
    (hk : ∀ a, P a → Takes all before g (k a)) : Takes all before g (p >>= k) := by
  refine ⟨?_⟩
  intro ts b rest hts hread
  obtain ⟨a, next, hfirst, hsecond⟩ := bind_eq_some_iff.mp hread
  obtain ⟨⟨taken, rfl⟩, ha⟩ := hp.of_read hts hfirst
  obtain ⟨more, rfl, hmore⟩ := (hk a ha).of_read ((List.suffix_append _ _).trans hts) hsecond
  refine ⟨taken ++ more, (List.append_assoc ..).symm, hmore.trans ?_⟩
  rw [List.map_append]
  exact (List.append_sublist_append_left before).mpr (List.sublist_append_right _ _)

protected theorem failure : Takes all before f failure :=
  ⟨nofun⟩

/-- Either way of reading keeps the order. -/
protected theorem orElse {p q : Parser α} (hp : Takes all before f p) (hq : Takes all before f q) :
    Takes all before f (p <|> q) := by
  refine ⟨?_⟩
  intro ts a rest hts hread
  rcases orElse_eq_some_iff.mp hread with hfirst | ⟨-, hsecond⟩
  · exact hp.of_read hts hfirst
  · exact hq.of_read hts hsecond

/-- The places of all rounds come one after the other. -/
theorem repeatWhile {p : Parser α} (hp : Takes all [] f p) (fuel : Nat) :
    ∀ {ts as rest}, ts <:+ all → Parser.repeatWhile p fuel ts = (as, rest) →
      ∃ taken, ts = taken ++ rest ∧ (as.flatMap f).Sublist (taken.map Token.place) := by
  have hstop : ∀ {ts as rest}, (([], ts) : List α × List Token) = (as, rest) →
      ∃ taken, ts = taken ++ rest ∧ (as.flatMap f).Sublist (taken.map Token.place) := by
    intro ts as rest heq
    cases heq
    exact ⟨[], rfl, List.Sublist.refl _⟩
  induction fuel with
  | zero =>
    intro ts as rest _ hread
    exact hstop hread
  | succ fuel ih =>
    intro ts as rest hts hread
    rw [Parser.repeatWhile] at hread
    cases hfirst : p ts with
    | none =>
      rw [hfirst] at hread
      exact hstop hread
    | some x =>
      obtain ⟨a, next⟩ := x
      rw [hfirst] at hread
      dsimp only at hread
      split at hread
      · obtain ⟨taken, rfl, htaken⟩ := hp.of_read hts hfirst
        cases hmore : Parser.repeatWhile p fuel next with
        | mk others last =>
          rw [hmore] at hread
          cases hread
          obtain ⟨more, rfl, hothers⟩ := ih ((List.suffix_append _ _).trans hts) hmore
          refine ⟨taken ++ more, (List.append_assoc ..).symm, ?_⟩
          rw [List.flatMap_cons, List.map_append]
          exact htaken.append hothers
      · exact hstop hread

protected theorem many {p : Parser α} (hp : Takes all [] f p) :
    Takes all [] (fun as => as.flatMap f) (many p) := by
  refine ⟨?_⟩
  intro ts as rest hts hread
  exact hp.repeatWhile ts.length hts (Option.some.inj hread)

protected theorem recovering {p : Parser α} (hp : Takes all [] f p) :
    Takes all [] (fun o => o.toList.flatMap f) (recovering p) := by
  refine ⟨?_⟩
  intro ts o rest hts hread
  unfold Parser.recovering at hread
  cases hfirst : p ts with
  | some x =>
    rw [hfirst] at hread
    cases hread
    obtain ⟨taken, heq, htaken⟩ := hp.of_read hts hfirst
    exact ⟨taken, heq, by simpa using htaken⟩
  | none =>
    rw [hfirst] at hread
    cases ts with
    | nil => cases hread
    | cons t ts =>
      dsimp only at hread
      split at hread
      · cases hread
      · cases hread
        have hsuffix : skipDamaged (t :: ts).length (t :: ts) <:+ t :: ts := skipDamaged_suffix
        obtain ⟨taken, heq⟩ := hsuffix
        exact ⟨taken, heq.symm, List.nil_sublist _⟩

end Parser.Takes

variable {source : String} {r : Rules}

/-- Rules that read types in the order of the source. -/
structure Rules.KeepsOrder (source : String) (r : Rules) : Prop where
  sound : r.Sound source
  declaration : Takes (tokenize source) [] TypeDecl.places r.declaration
  classBody : Takes (tokenize source) [] (fun ms => ms.flatMap Member.places) r.classBody

/-- A name has the place of its token. -/
theorem takes_identifier :
    Takes (tokenize source) [] (fun t => [t.place]) identifier := by
  refine ⟨?_⟩
  intro ts t rest _ hread
  obtain ⟨-, rfl⟩ := takeIf_eq_some_iff.mp hread
  exact ⟨[t], rfl, List.Sublist.refl _⟩

/-- A member that declares no type has no places. -/
theorem takes_plainMember {p : Parser Member}
    (hp : Reads (tokenize source) (Member.WrittenPlain source) p) :
    Takes (tokenize source) [] (fun o => o.toList.flatMap Member.places) (do return some (← p)) :=
  .pass hp fun m hm => .pure (by simp [hm.places])

/-- What is passed over as a member has no places. -/
theorem takes_none {α : Type} {P : α → Prop} {p : Parser α} (hp : Reads (tokenize source) P p) :
    Takes (tokenize source) [] (fun o : Option Member => o.toList.flatMap Member.places)
      (do let _ ← p; return none) :=
  .pass hp fun _ _ => .pure rfl

/-- Only a nested type has places among the members. -/
theorem takes_member (hr : r.KeepsOrder source) :
    Takes (tokenize source) [] (fun o => o.toList.flatMap Member.places) (member r) := by
  refine .orElse (takes_none (reads_skip _)) ?_
  refine .orElse (takes_none reads_initializerBlock) ?_
  refine .orElse (hr.declaration.bind fun d => .pure (by simp [Member.places])) ?_
  refine .orElse (takes_none (reads_markDeclaration hr.sound)) ?_
  refine .orElse (takes_plainMember (reads_constructorDeclaration hr.sound)) ?_
  refine .orElse (takes_none (reads_compactConstructor hr.sound)) ?_
  exact .orElse (takes_plainMember (reads_methodDeclaration hr.sound)) (takes_plainMember
    (reads_fieldDeclaration hr.sound))

/-- Members that cannot be read leave no places. -/
theorem takes_members (hr : r.KeepsOrder source) :
    Takes (tokenize source) [] (fun ms => ms.flatMap Member.places) (members r) := by
  refine (takes_member hr).recovering.many.bind fun found => .pure ?_
  rw [List.filterMap_eq_flatMap_toList, List.flatMap_assoc]
  refine List.flatMap_congr fun o _ => ?_
  cases o with
  | none => rfl
  | some m => simp

theorem takes_classBodyRule (hr : r.KeepsOrder source) :
    Takes (tokenize source) [] (fun ms => ms.flatMap Member.places) (classBodyRule r) := by
  refine .pass (reads_skip _) fun _ _ => ?_
  refine (takes_members hr).bind fun _ => ?_
  refine .pass (reads_skip _) fun _ _ => ?_
  exact .pure rfl

/-- The constants before the members are passed over, with all their places. -/
theorem takes_enumBody (hr : r.KeepsOrder source) :
    Takes (tokenize source) [] (fun ms => ms.flatMap Member.places) (enumBody r) := by
  refine ⟨?_⟩
  intro ts ms rest hts hread
  obtain ⟨next, ⟨passed, rfl⟩, hmembers⟩ := exists_of_enumBody hread
  have htail : Takes (tokenize source) [] (fun ms => ms.flatMap Member.places) (do
      let ms ← members r
      skip "\x7d"
      return ms) := by
    refine (takes_members hr).bind fun _ => ?_
    exact .pass (reads_skip _) fun _ _ => .pure rfl
  obtain ⟨taken, rfl, htaken⟩ := htail.of_read ((List.suffix_append _ _).trans hts) hmembers
  refine ⟨passed ++ taken, (List.append_assoc ..).symm, htaken.trans ?_⟩
  rw [List.map_append]
  exact List.sublist_append_right _ _

/-- The head of a type comes before its body. -/
theorem TypeDecl.places_mk (head : TypeHead) (members : List Member) :
    (TypeDecl.mk head members).places
      = ⟨head.line, head.column⟩ :: members.flatMap Member.places := by
  rw [TypeDecl.places, memberPlaces_eq]

/-- The place of a class is that of its name, which comes before all types in its body. -/
theorem takes_classDeclaration (hr : r.KeepsOrder source) (ms : List Modifier) :
    Takes (tokenize source) [] TypeDecl.places (classDeclaration r ms) := by
  refine .pass (reads_skip _) fun _ _ => ?_
  refine takes_identifier.bind fun _ => ?_
  refine .pass (reads_typeParameters hr.sound).accepts fun _ _ => ?_
  refine .pass (reads_supertypes hr.sound _ _) fun _ _ => ?_
  refine .pass (reads_supertypes hr.sound _ _) fun _ _ => ?_
  refine .pass (reads_permits hr.sound) fun _ _ => ?_
  refine hr.classBody.bind fun _ => ?_
  exact .pure (TypeDecl.places_mk _ _)

/-- The same holds of an interface. -/
theorem takes_interfaceDeclaration (hr : r.KeepsOrder source) (ms : List Modifier) :
    Takes (tokenize source) [] TypeDecl.places (interfaceDeclaration r ms) := by
  refine .pass (reads_skip _) fun _ _ => ?_
  refine takes_identifier.bind fun _ => ?_
  refine .pass (reads_typeParameters hr.sound).accepts fun _ _ => ?_
  refine .pass (reads_supertypes hr.sound _ _) fun _ _ => ?_
  refine .pass (reads_permits hr.sound) fun _ _ => ?_
  refine hr.classBody.bind fun _ => ?_
  exact .pure (TypeDecl.places_mk _ _)

/-- The same holds of an enum. -/
theorem takes_enumDeclaration (hr : r.KeepsOrder source) (ms : List Modifier) :
    Takes (tokenize source) [] TypeDecl.places (enumDeclaration r ms) := by
  refine .pass (reads_skip _) fun _ _ => ?_
  refine takes_identifier.bind fun _ => ?_
  refine .pass (reads_supertypes hr.sound _ _) fun _ _ => ?_
  refine (takes_enumBody hr).bind fun _ => ?_
  exact .pure (TypeDecl.places_mk _ _)

/-- The components of a record come between its name and its body, but declare no type. -/
theorem takes_recordDeclaration (hr : r.KeepsOrder source) (ms : List Modifier) :
    Takes (tokenize source) [] TypeDecl.places (recordDeclaration r ms) := by
  refine .pass (reads_skip _) fun _ _ => ?_
  refine takes_identifier.bind fun _ => ?_
  refine .pass (reads_typeParameters hr.sound).accepts fun _ _ => ?_
  refine .pass (reads_parameters hr.sound) fun ⟨_, _⟩ _ => ?_
  refine .pass (reads_supertypes hr.sound _ _) fun _ _ => ?_
  refine hr.classBody.bind fun _ => ?_
  exact .pure (TypeDecl.places_mk _ _)

theorem takes_declarationRule (hr : r.KeepsOrder source) :
    Takes (tokenize source) [] TypeDecl.places (declarationRule r) := by
  refine .pass (reads_modifiers hr.sound) fun ⟨ms, _⟩ _ => ?_
  refine .orElse (takes_classDeclaration hr ms) ?_
  refine .orElse (takes_interfaceDeclaration hr ms) ?_
  exact .orElse (takes_enumDeclaration hr ms) (takes_recordDeclaration hr ms)

/-- Rules of any depth read types in the order of the source. -/
theorem keepsOrder_ofDepth (n : Nat) : (Rules.ofDepth n).KeepsOrder source := by
  induction n with
  | zero => exact ⟨sound_ofDepth 0, .failure, .failure⟩
  | succ n ih => exact ⟨sound_ofDepth (n + 1), takes_declarationRule ih, takes_classBodyRule ih⟩

/-! ## Places of a file -/

/-- The places of an item at the top level. -/
def Grammar.Item.places : Item → List Position
  | .type decl => decl.places
  | _ => []

/-- What is no type has no place. -/
theorem Grammar.Item.IsPlain.places {i : Item} (h : i.IsPlain) : i.places = [] := by
  cases i with
  | type decl => exact absurd rfl (h decl)
  | package | «import» | other => rfl

/-- An item at the top level has the places of its type, if it is one. -/
theorem takes_item (hr : r.KeepsOrder source) :
    Takes (tokenize source) [] Item.places (item r) := by
  have hplain : ∀ {p : Parser Item}, Reads (tokenize source) Item.IsPlain p →
      Takes (tokenize source) [] Item.places p := by
    intro p hp
    refine ⟨?_⟩
    intro ts i rest hts hread
    obtain ⟨⟨taken, heq⟩, hi⟩ := hp.of_read hts hread
    exact ⟨taken, heq.symm, hi.places ▸ List.nil_sublist _⟩
  have hother : ∀ {α : Type} {P : α → Prop} {p : Parser α}, Reads (tokenize source) P p →
      Takes (tokenize source) [] Item.places (do let _ ← p; return .other) :=
    fun hp => .pass hp fun _ _ => .pure rfl
  refine .orElse (hplain (reads_packageDeclaration hr.sound)) ?_
  refine .orElse (hplain reads_importDeclaration) ?_
  refine .orElse (hplain (reads_moduleDeclaration hr.sound)) ?_
  refine .orElse (hr.declaration.bind fun _ => .pure rfl) ?_
  refine .orElse (hother (reads_markDeclaration hr.sound)) ?_
  exact .orElse (hother (reads_methodDeclaration hr.sound)) (hother hr.sound.statement)

theorem takes_items (hr : r.KeepsOrder source) :
    Takes (tokenize source) [] (fun is => is.flatMap Item.places) (items r) := by
  have hpart : Takes (tokenize source) [] (fun o : Option Item => o.toList.flatMap Item.places)
      (recovering (item r) <|> (do skip "\x7d"; return none)) :=
    (takes_item hr).recovering.orElse (.pass (reads_skip _) fun _ _ => .pure rfl)
  refine hpart.many.bind fun found => .pure ?_
  rw [List.filterMap_eq_flatMap_toList, List.flatMap_assoc]
  rfl

/-- The types of a file are those of its items, in their order. -/
theorem places_ofItems (is : List Item) :
    (CompilationUnit.ofItems is).types.flatMap TypeDecl.places = is.flatMap Item.places := by
  induction is with
  | nil => rfl
  | cons i rest ih =>
    rw [List.flatMap_cons, ← ih]
    cases i <;> rfl

/-- The types of a file are listed in the order of the source. -/
theorem places_pairwise (source : String) :
    ((CompilationUnit.parse source).types.flatMap TypeDecl.places).Pairwise Position.Before := by
  unfold CompilationUnit.parse
  dsimp only
  split
  · next found rest hread =>
    obtain ⟨taken, heq, htaken⟩ :=
      (takes_items (keepsOrder_ofDepth _)).of_read (List.suffix_refl _) hread
    rw [places_ofItems]
    have hprefix : taken.map Token.place <+: (tokenize source).map Token.place :=
      (heq ▸ List.prefix_append taken rest).map _
    exact (tokenize_places source).sublist (htaken.trans hprefix.sublist)
  · exact .nil

end ClassDiagram.Java
