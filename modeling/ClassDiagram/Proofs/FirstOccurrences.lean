import ClassDiagram.Analysis

/-!
# The first of each key

Three times an analysis keeps the first of several things with one key and drops the
others: declarations by their name, relationships by their identity, and entities by
their name when stubs are added. All three are the same fold, `keepNew`, and this file
says once what it leaves: what was there before, followed by the elements whose key is
new where they stand (`foldl_keepNew`). What is dropped on the way is `repeatsAfter`.

The bridges at the end put the three uses into this form: `extend_edges` for sets of
relationships, `finish_entities` for stubs and `dedupe_eq` for declarations.
-/

namespace ClassDiagram

section

variable {α κ : Type} [BEq κ] (key : α → κ)

/-- The elements whose key is neither in `seen` nor that of an element before them. -/
def firstsAfter (seen : List κ) : List α → List α
  | [] => []
  | a :: rest =>
    if seen.contains (key a) then firstsAfter seen rest
    else a :: firstsAfter (seen ++ [key a]) rest

/-- The elements whose key is in `seen` or that of an element before them. -/
def repeatsAfter (seen : List κ) : List α → List α
  | [] => []
  | a :: rest =>
    if seen.contains (key a) then a :: repeatsAfter seen rest
    else repeatsAfter (seen ++ [key a]) rest

/-- Appends an element unless its key is present. -/
def keepNew (kept : List α) (a : α) : List α :=
  if kept.any fun b => key b == key a then kept else kept ++ [a]

variable {key}

theorem mem_of_mem_firstsAfter {seen : List κ} {l : List α} {a : α}
    (h : a ∈ firstsAfter key seen l) : a ∈ l := by
  induction l generalizing seen with
  | nil => cases h
  | cons b rest ih =>
    rw [firstsAfter] at h
    split at h
    · exact List.mem_cons_of_mem _ (ih h)
    · rcases List.mem_cons.mp h with rfl | hrest
      · exact List.mem_cons_self
      · exact List.mem_cons_of_mem _ (ih hrest)

/-- The key of an image is a key of the element. -/
theorem firstsAfter_map {β : Type} (f : β → α) (seen : List κ) (l : List β) :
    firstsAfter key seen (l.map f) = (firstsAfter (fun b => key (f b)) seen l).map f := by
  induction l generalizing seen with
  | nil => rfl
  | cons b rest ih =>
    rw [List.map_cons, firstsAfter, firstsAfter]
    split
    · exact ih seen
    · rw [List.map_cons, ih]

/-- Each element is kept or dropped. -/
theorem length_firstsAfter_add (seen : List κ) (l : List α) :
    (firstsAfter key seen l).length + (repeatsAfter key seen l).length = l.length := by
  induction l generalizing seen with
  | nil => rfl
  | cons a rest ih =>
    rw [firstsAfter, repeatsAfter]
    split
    · rw [List.length_cons, List.length_cons, ← ih seen]
      omega
    · rw [List.length_cons, List.length_cons, ← ih (seen ++ [key a])]
      omega

/-- The second of two lists is looked at with the kept keys of the first one seen. -/
theorem firstsAfter_append (seen : List κ) (l l' : List α) :
    firstsAfter key seen (l ++ l')
      = firstsAfter key seen l
        ++ firstsAfter key (seen ++ (firstsAfter key seen l).map key) l' := by
  induction l generalizing seen with
  | nil => rw [List.nil_append, firstsAfter, List.map_nil, List.append_nil, List.nil_append]
  | cons a rest ih =>
    rw [List.cons_append, firstsAfter, firstsAfter]
    split
    · exact ih seen
    · rw [ih, List.map_cons, List.append_assoc, List.cons_append]
      rfl

/-- The repetitions of two lists in a row are those of the first and those of the second after
the keys that the first kept. -/
theorem repeatsAfter_append (seen : List κ) (l l' : List α) :
    repeatsAfter key seen (l ++ l')
      = repeatsAfter key seen l
        ++ repeatsAfter key (seen ++ (firstsAfter key seen l).map key) l' := by
  induction l generalizing seen with
  | nil => rw [List.nil_append, firstsAfter, List.map_nil, List.append_nil, repeatsAfter,
      List.nil_append]
  | cons a rest ih =>
    rw [List.cons_append, repeatsAfter, repeatsAfter, firstsAfter]
    split
    · rw [ih, List.cons_append]
    · rw [ih, List.map_cons, List.append_assoc, List.cons_append]
      rfl

variable [LawfulBEq κ]

theorem any_key_eq (key : α → κ) (kept : List α) (a : α) :
    (kept.any fun b => key b == key a) = (kept.map key).contains (key a) := by
  rw [Bool.eq_iff_iff, List.any_eq_true, List.contains_iff_mem, List.mem_map]
  constructor
  · rintro ⟨b, hb, hkey⟩
    exact ⟨b, hb, eq_of_beq hkey⟩
  · rintro ⟨b, hb, hkey⟩
    exact ⟨b, hb, by rw [hkey]; exact beq_self_eq_true _⟩

/-- What the fold leaves. -/
theorem foldl_keepNew (key : α → κ) (l kept : List α) :
    l.foldl (keepNew key) kept = kept ++ firstsAfter key (kept.map key) l := by
  -- what has been kept so far is what counts as seen
  induction l generalizing kept with
  | nil => rw [List.foldl_nil, firstsAfter, List.append_nil]
  | cons a rest ih =>
    rw [List.foldl_cons, ih, firstsAfter, keepNew, any_key_eq]
    by_cases h : (kept.map key).contains (key a) = true
    · rw [if_pos h, if_pos h]
    · rw [if_neg h, if_neg h, List.map_append, List.append_assoc]
      rfl

/-- A key is kept if it occurs and was not seen before. -/
theorem mem_map_firstsAfter {seen : List κ} {l : List α} {k : κ} :
    k ∈ (firstsAfter key seen l).map key ↔ k ∈ l.map key ∧ k ∉ seen := by
  induction l generalizing seen with
  | nil => simp [firstsAfter]
  | cons a rest ih =>
    rw [firstsAfter, List.map_cons, List.mem_cons]
    split
    next h =>
      -- a key that was seen is not that of `a`'s place in the result
      rw [List.contains_iff_mem] at h
      rw [ih]
      constructor
      · rintro ⟨hk, hseen⟩
        exact ⟨.inr hk, hseen⟩
      · rintro ⟨rfl | hk, hseen⟩
        · exact absurd h hseen
        · exact ⟨hk, hseen⟩
    next h =>
      rw [List.contains_iff_mem] at h
      rw [List.map_cons, List.mem_cons, ih, List.mem_append, List.mem_singleton]
      constructor
      · rintro (rfl | ⟨hk, hseen⟩)
        · exact ⟨.inl rfl, h⟩
        · exact ⟨.inr hk, fun hmem => hseen (.inl hmem)⟩
      · rintro ⟨rfl | hk, hseen⟩
        · exact .inl rfl
        · by_cases hka : k = key a
          · exact .inl hka
          · exact .inr ⟨hk, fun hmem => hmem.elim hseen hka⟩

theorem mem_firstsAfter_id {seen l : List κ} {k : κ} :
    k ∈ firstsAfter id seen l ↔ k ∈ l ∧ k ∉ seen := by
  have h : k ∈ (firstsAfter id seen l).map id ↔ k ∈ l.map id ∧ k ∉ seen := mem_map_firstsAfter
  rwa [List.map_id, List.map_id] at h

/-- An element that is the only one with its key is kept, however often it occurs. -/
theorem mem_firstsAfter_of_unique {l : List α} {a : α} (h : a ∈ l)
    (hunique : ∀ b ∈ l, key b = key a → b = a) : a ∈ firstsAfter key [] l := by
  have hkey : key a ∈ (firstsAfter key [] l).map key :=
    mem_map_firstsAfter.mpr ⟨List.mem_map_of_mem h, List.not_mem_nil⟩
  obtain ⟨b, hb, heq⟩ := List.mem_map.mp hkey
  rwa [hunique b (mem_of_mem_firstsAfter hb) heq] at hb

/-- No key is kept twice. -/
theorem nodup_firstsAfter (seen : List κ) (l : List α) :
    ((firstsAfter key seen l).map key).Nodup := by
  induction l generalizing seen with
  | nil => exact List.nodup_nil
  | cons a rest ih =>
    rw [firstsAfter]
    split
    · exact ih seen
    · rw [List.map_cons, List.nodup_cons]
      refine ⟨fun hmem => ?_, ih _⟩
      exact (mem_map_firstsAfter.mp hmem).2 (List.mem_append_right _ List.mem_cons_self)

theorem nodup_firstsAfter_id (seen l : List κ) : (firstsAfter id seen l).Nodup := by
  have h : ((firstsAfter id seen l).map id).Nodup := nodup_firstsAfter seen l
  rwa [List.map_id] at h

/-- What was seen and what is kept have the keys of what was seen and what there is. -/
theorem mem_append_map_firstsAfter {seen : List κ} {l : List α} {k : κ} :
    k ∈ seen ++ (firstsAfter key seen l).map key ↔ k ∈ seen ∨ k ∈ l.map key := by
  rw [List.mem_append, mem_map_firstsAfter]
  by_cases hseen : k ∈ seen
  · exact ⟨fun _ => .inl hseen, fun _ => .inl hseen⟩
  · simp [hseen]

theorem nodup_append_firstsAfter {seen : List κ} (h : seen.Nodup) (l : List α) :
    (seen ++ (firstsAfter key seen l).map key).Nodup := by
  rw [List.nodup_append]
  refine ⟨h, nodup_firstsAfter seen l, ?_⟩
  rintro k hk k' hk' rfl
  exact (mem_map_firstsAfter.mp hk').2 hk

/-- In the words of the library: the elements whose keys were not seen, without those that
repeat a key. -/
theorem firstsAfter_eq_eraseDupsBy (seen : List κ) (l : List α) :
    firstsAfter key seen l
      = (l.filter fun a => !seen.contains (key a)).eraseDupsBy fun a b => key a == key b := by
  induction l generalizing seen with
  | nil => rfl
  | cons a rest ih =>
    rw [firstsAfter]
    split
    next h =>
      rw [List.filter_cons_of_neg (by simpa using h)]
      exact ih seen
    next h =>
      rw [List.filter_cons_of_pos (by simpa using h), List.eraseDupsBy_cons, ih, List.filter_filter]
      refine congrArg (fun l => a :: List.eraseDupsBy _ l) (List.filter_congr fun b _ => ?_)
      -- a key is new behind `a` if it is not that of `a` and was new before
      rw [List.contains_eq_mem, List.contains_eq_mem, Bool.eq_iff_iff]
      simp [and_comm]

/-- Keeping first occurrences from nothing seen is removing duplicates by key. -/
theorem firstsAfter_nil (l : List α) :
    firstsAfter key [] l = l.eraseDupsBy fun a b => key a == key b := by
  rw [firstsAfter_eq_eraseDupsBy]
  exact congrArg _ (List.filter_eq_self.mpr fun _ _ => rfl)

/-- Of what was seen only the keys that occur count. -/
theorem firstsAfter_congr {seen seen' : List κ} {l : List α}
    (h : ∀ a ∈ l, key a ∈ seen ↔ key a ∈ seen') :
    firstsAfter key seen l = firstsAfter key seen' l := by
  rw [firstsAfter_eq_eraseDupsBy, firstsAfter_eq_eraseDupsBy]
  refine congrArg _ (List.filter_congr fun a ha => ?_)
  rw [List.contains_eq_mem, List.contains_eq_mem, decide_eq_decide.mpr (h a ha)]

/-- Whatever goes by its key can be left out before or after. -/
theorem firstsAfter_filter (key : α → κ) (p : κ → Bool) (seen : List κ) (l : List α) :
    firstsAfter key seen (l.filter fun a => p (key a))
      = (firstsAfter key seen l).filter fun a => p (key a) := by
  induction l generalizing seen with
  | nil => rfl
  | cons a rest ih =>
    rw [firstsAfter]
    cases hp : p (key a) with
    | true =>
      rw [List.filter_cons_of_pos (p := fun a => p (key a)) hp, firstsAfter]
      split
      · exact ih seen
      · rw [List.filter_cons_of_pos (p := fun a => p (key a)) hp, ih]
    | false =>
      rw [List.filter_cons_of_neg (p := fun a => p (key a)) (by simp [hp])]
      split
      · exact ih seen
      · -- `a` is kept and then left out, and nothing that stays has its key
        rw [List.filter_cons_of_neg (p := fun a => p (key a)) (by simp [hp]), ← ih]
        refine firstsAfter_congr fun b hb => ?_
        have hne : key b ≠ key a := by
          intro heq
          rw [← heq, (List.mem_filter.mp hb).2] at hp
          cases hp
        simp [hne]

/-- A search by the key finds the same element before and after, unless it would stop at a
key that was seen. -/
theorem find?_firstsAfter {p : κ → Bool} {seen : List κ} (h : ∀ k ∈ seen, p k = false)
    (l : List α) :
    (firstsAfter key seen l).find? (fun a => p (key a)) = l.find? fun a => p (key a) := by
  induction l generalizing seen with
  | nil => rfl
  | cons a rest ih =>
    rw [firstsAfter, List.find?_cons]
    split
    next hseen =>
      rw [h _ (List.contains_iff_mem.mp hseen)]
      exact ih h
    next =>
      rw [List.find?_cons]
      cases hp : p (key a) with
      | true => rfl
      | false =>
        refine ih fun k hk => ?_
        rcases List.mem_append.mp hk with hold | hnew
        · exact h k hold
        · rwa [List.mem_singleton.mp hnew]

/-- Where no key repeats, a search for the key of an element finds this element. -/
theorem find?_key_of_nodup {l : List α} (h : (l.map key).Nodup) {a : α} (ha : a ∈ l) :
    l.find? (fun b => key b == key a) = some a := by
  induction l with
  | nil => cases ha
  | cons b rest ih =>
    rw [List.map_cons, List.nodup_cons] at h
    rcases List.mem_cons.mp ha with rfl | hmem
    · exact List.find?_cons_of_pos (beq_self_eq_true _)
    · have hne : ¬(key b == key a) = true := by
        intro heq
        exact h.1 (eq_of_beq heq ▸ List.mem_map_of_mem hmem)
      rw [List.find?_cons_of_neg (p := fun b => key b == key a) hne]
      exact ih h.2 hmem

/-- What is kept for a key is the first element that has it. -/
theorem mem_firstsAfter_iff {l : List α} {a : α} :
    a ∈ firstsAfter key [] l ↔ l.find? (fun b => key b == key a) = some a := by
  have hsearch : (firstsAfter key [] l).find? (fun b => key b == key a)
      = l.find? fun b => key b == key a :=
    find?_firstsAfter (p := fun k => k == key a) (fun _ hk => absurd hk List.not_mem_nil) l
  rw [← hsearch]
  exact ⟨find?_key_of_nodup (nodup_firstsAfter [] l), List.mem_of_find?_eq_some⟩

/-- One more key that counts as seen is one key less that is kept. -/
theorem firstsAfter_concat (seen : List κ) (k : κ) (l : List α) :
    firstsAfter key (seen ++ [k]) l = (firstsAfter key seen l).filter fun a => key a != k := by
  rw [← firstsAfter_filter key (fun k' => k' != k), firstsAfter_eq_eraseDupsBy,
    firstsAfter_eq_eraseDupsBy, List.filter_filter]
  refine congrArg _ (List.filter_congr fun a _ => ?_)
  rw [List.contains_eq_mem, List.contains_eq_mem, Bool.eq_iff_iff]
  simp

/-- Lists without a common key are gone through apart. -/
theorem firstsAfter_append_of_disjoint {l l' : List α}
    (h : ∀ a ∈ l, ∀ b ∈ l', key a ≠ key b) :
    firstsAfter key [] (l ++ l') = firstsAfter key [] l ++ firstsAfter key [] l' := by
  rw [firstsAfter_append]
  refine congrArg _ (firstsAfter_congr fun b hb => ?_)
  refine iff_of_false (fun hmem => ?_) List.not_mem_nil
  obtain ⟨a, ha, hkey⟩ := List.mem_map.mp hmem
  exact h a (mem_of_mem_firstsAfter ha) b hb hkey

/-- So are any number of groups. -/
theorem firstsAfter_flatMap_of_disjoint {β : Type} {groups : List β} {f : β → List α}
    (h : groups.Pairwise fun g g' => ∀ a ∈ f g, ∀ b ∈ f g', key a ≠ key b) :
    firstsAfter key [] (groups.flatMap f) = groups.flatMap fun g => firstsAfter key [] (f g) := by
  induction groups with
  | nil => rfl
  | cons g rest ih =>
    obtain ⟨hfirst, hrest⟩ := List.pairwise_cons.mp h
    rw [List.flatMap_cons, List.flatMap_cons, firstsAfter_append_of_disjoint, ih hrest]
    intro a ha b hb
    obtain ⟨g', hg', hmem⟩ := List.mem_flatMap.mp hb
    exact hfirst g' hg' a ha b hmem

/-- Keys that tell the same elements apart keep the same ones. -/
theorem firstsAfter_congr_key {κ' : Type} [BEq κ'] [LawfulBEq κ'] {key' : α → κ'} {l : List α}
    (h : ∀ a ∈ l, ∀ b ∈ l, key a = key b ↔ key' a = key' b) :
    firstsAfter key [] l = firstsAfter key' [] l := by
  have hseen : ∀ (seen : List κ) (seen' : List κ'), (∀ a ∈ l, key a ∈ seen ↔ key' a ∈ seen') →
      firstsAfter key seen l = firstsAfter key' seen' l := by
    induction l with
    | nil => intro _ _ _; rfl
    | cons a rest ih =>
      intro seen seen' hagree
      have hrest := ih fun b hb c hc =>
        h b (List.mem_cons_of_mem _ hb) c (List.mem_cons_of_mem _ hc)
      have hcontains : seen.contains (key a) = seen'.contains (key' a) := by
        rw [Bool.eq_iff_iff, List.contains_iff_mem, List.contains_iff_mem]
        exact hagree a List.mem_cons_self
      rw [firstsAfter, firstsAfter, hcontains]
      split
      · exact hrest _ _ fun b hb => hagree b (List.mem_cons_of_mem _ hb)
      · refine congrArg _ (hrest _ _ fun b hb => ?_)
        rw [List.mem_append, List.mem_append, List.mem_singleton, List.mem_singleton,
          hagree b (List.mem_cons_of_mem _ hb),
          h b (List.mem_cons_of_mem _ hb) a List.mem_cons_self]
  exact hseen [] [] fun a _ => iff_of_false List.not_mem_nil List.not_mem_nil

/-- So any of them will do to say what is dropped. -/
theorem firstsAfter_nil_of_key {κ' : Type} [BEq κ'] [LawfulBEq κ'] (key' : α → κ') {l : List α}
    (h : ∀ a ∈ l, ∀ b ∈ l, key a = key b ↔ key' a = key' b) :
    firstsAfter key [] l = l.eraseDupsBy fun a b => key' a == key' b :=
  (firstsAfter_congr_key h).trans (firstsAfter_nil l)

theorem not_contains_of_nodup {seen rest : List κ} {k : κ} (h : (seen ++ k :: rest).Nodup) :
    ¬seen.contains k = true := by
  rw [List.contains_iff_mem]
  intro hmem
  exact (List.nodup_append.mp h).2.2 _ hmem _ List.mem_cons_self rfl

/-- Nothing is dropped where no key repeats. -/
theorem firstsAfter_of_nodup {seen : List κ} {l : List α}
    (h : (seen ++ l.map key).Nodup) : firstsAfter key seen l = l := by
  induction l generalizing seen with
  | nil => rfl
  | cons a rest ih =>
    rw [firstsAfter, if_neg (not_contains_of_nodup h), ih]
    rwa [List.append_assoc]

/-- Nothing repeats there either. -/
theorem repeatsAfter_of_nodup {seen : List κ} {l : List α}
    (h : (seen ++ l.map key).Nodup) : repeatsAfter key seen l = [] := by
  induction l generalizing seen with
  | nil => rfl
  | cons a rest ih =>
    rw [repeatsAfter, if_neg (not_contains_of_nodup h), ih]
    rwa [List.append_assoc]

end

/-! ## The three uses -/

namespace RelationshipSet

/-- Inserting a relationship keeps it when its key is new. -/
theorem insert_edges (s : RelationshipSet) (r : Relationship) :
    (s.insert r).edges = keepNew Relationship.key s.edges r := by
  rw [insert, keepNew, contains]
  split <;> rfl

/-- A set keeps its edges and takes, of those added to it, the first for each new key. -/
theorem extend_edges (s : RelationshipSet) (rs : List Relationship) :
    (s.extend rs).edges
      = s.edges ++ firstsAfter Relationship.key (s.edges.map Relationship.key) rs := by
  rw [← foldl_keepNew]
  induction rs generalizing s with
  | nil => rfl
  | cons r rest ih => rw [extend_cons, ih, insert_edges, List.foldl_cons]

/-- The edges of a set built from a list are the first ones of each key. -/
theorem ofList_edges (rs : List Relationship) :
    (ofList rs).edges = firstsAfter Relationship.key [] rs := by
  rw [ofList, extend_edges]
  rfl

end RelationshipSet

namespace Draft

/-- A finished diagram has the entities of the draft, and then a stub for each endpoint
of which no entity before it has the name. -/
theorem finish_entities (b : Draft) :
    b.finish.entities = b.entities ++ (firstsAfter id (b.entities.map Entity.name)
      (endpoints b.relationships.edges)).map Entity.stub := by
  have hfold := foldl_keepNew Entity.name ((endpoints b.relationships.edges).map Entity.stub)
    b.entities
  rw [List.foldl_map, firstsAfter_map] at hfold
  exact hfold

end Draft

namespace Analysis

/-- Removing repeated declarations keeps the first of each name and reports the names of the
others. -/
theorem dedupe_eq (decls : List ClassDecl) :
    dedupe decls = (firstsAfter ClassDecl.name [] decls,
      (repeatsAfter ClassDecl.name [] decls).map ClassDecl.name) := by
  have hfold : ∀ (l kept : List ClassDecl) (dropped : List String),
      l.foldl (fun acc d =>
        if acc.1.any fun k => k.name == d.name then (acc.1, acc.2 ++ [d.name])
        else (acc.1 ++ [d], acc.2)) (kept, dropped)
      = (kept ++ firstsAfter ClassDecl.name (kept.map ClassDecl.name) l,
          dropped ++ (repeatsAfter ClassDecl.name (kept.map ClassDecl.name) l).map
            ClassDecl.name) := by
    intro l
    induction l with
    | nil => intro kept dropped; simp [firstsAfter, repeatsAfter]
    | cons d rest ih =>
      intro kept dropped
      rw [List.foldl_cons, firstsAfter, repeatsAfter]
      dsimp only
      rw [any_key_eq ClassDecl.name kept d]
      by_cases h : (kept.map ClassDecl.name).contains d.name = true
      · rw [if_pos h, if_pos h, if_pos h, ih]
        simp
      · rw [if_neg h, if_neg h, if_neg h, ih]
        simp
  exact hfold decls [] []

end Analysis

end ClassDiagram
