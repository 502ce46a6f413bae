import ClassDiagram.Proofs.Restriction

/-!
# The leaves of a type

Seen from its resolution a type is a tree. Arrays and containers are looked into, a map on
both sides and any other container at its last argument, and the names where this ends are
its *leaves* (`Scope.leaves`). A container that has not the arguments it takes has no leaf.

Everything a resolution says about user-defined types it has from the leaves, read from
left to right (`resolve_shows`): it fails with the first leaf that fails, and if none
does, its targets are those of the leaves, one after the other. How containers are nested
decides about the shape of a resolution and about nothing else.

What a leaf comes to by itself is a matter of its name. In a strict scope it fails exactly
if nothing says what the name stands for (`isUnresolvable`), so a strict resolution fails
with the leftmost unresolvable leaf (`unresolved?_eq_find?`).
-/

namespace ClassDiagram

open ClassDiagram.Dotted

namespace Scope

/-- Whether a type with this name is looked into: the name is neither primitive nor known,
and its last segment is that of a container. -/
def opens (s : Scope) (name : String) : Bool :=
  !primitiveTypes.contains name && (s.table.lookup name).isNone
    && s.isContainer (simpleName name)

/-- Whether nothing says what a name stands for: it is neither primitive nor known, neither
a container nor foreign. -/
def isUnresolvable (s : Scope) (name : String) : Bool :=
  !primitiveTypes.contains name && (s.table.lookup name).isNone
    && !s.isContainer (simpleName name) && !s.isForeign name

mutual

/-- The names that the resolution of a type comes down to, from left to right. -/
def leaves (s : Scope) : TypeRef → List String
  | .array element => s.leaves element
  | .named name args =>
    if s.opens name then
      if s.isMap (simpleName name) then s.sideLeaves args else s.elementLeaves args
    else [name]

/-- The leaves of a map: those of its key, then those of its value. -/
def sideLeaves (s : Scope) : List TypeRef → List String
  | [key, value] => s.leaves key ++ s.leaves value
  | _ => []

/-- The leaves of any other container: those of its last argument. -/
def elementLeaves (s : Scope) : List TypeRef → List String
  | [] => []
  | [element] => s.leaves element
  | _ :: next :: rest => s.elementLeaves (next :: rest)

end

variable (s : Scope)

mutual

/-- A leaf is one of the names in the type. -/
theorem leaves_subset_names : ∀ t : TypeRef, ∀ name ∈ s.leaves t, name ∈ t.names
  | .array element, name, h => by
    rw [leaves] at h
    rw [TypeRef.names]
    exact leaves_subset_names element name h
  | .named outer args, name, h => by
    rw [leaves] at h
    rw [TypeRef.names, List.mem_cons]
    split at h
    · split at h
      · exact .inr (sideLeaves_subset_names args name h)
      · exact .inr (elementLeaves_subset_names args name h)
    · exact .inl (List.mem_singleton.mp h)

theorem sideLeaves_subset_names : ∀ args : List TypeRef, ∀ name ∈ s.sideLeaves args,
    name ∈ TypeRef.argumentNames args
  | [], _, h => by cases h
  | [_], _, h => by cases h
  | _ :: _ :: _ :: _, _, h => by cases h
  | [key, value], name, h => by
    rw [sideLeaves] at h
    rw [TypeRef.argumentNames, TypeRef.argumentNames, TypeRef.argumentNames, List.append_nil,
      List.mem_append]
    rcases List.mem_append.mp h with hkey | hvalue
    · exact .inl (leaves_subset_names key name hkey)
    · exact .inr (leaves_subset_names value name hvalue)

theorem elementLeaves_subset_names : ∀ args : List TypeRef, ∀ name ∈ s.elementLeaves args,
    name ∈ TypeRef.argumentNames args
  | [], _, h => by cases h
  | [element], name, h => by
    rw [elementLeaves] at h
    rw [TypeRef.argumentNames]
    exact List.mem_append_left _ (leaves_subset_names element name h)
  | _ :: next :: rest, name, h => by
    rw [elementLeaves] at h
    rw [TypeRef.argumentNames]
    exact List.mem_append_right _ (elementLeaves_subset_names (next :: rest) name h)

end

/-! ## Roles -/

/-- What a name comes to where a type is not looked into. -/
def leafOutcome (name : String) : Slot :=
  if primitiveTypes.contains name then .ok .foreign
  else match s.table.lookup name with
    | some known => .ok (.scalar known)
    | none => if s.isForeign name then .ok .foreign else s.unknownOutcome name

/-- A name is that of a leaf, of a map or of another container. -/
theorem role_cases (name : String) :
    (s.opens name = false ∧ s.role name = .leaf (s.leafOutcome name))
    ∨ (s.opens name = true ∧ s.isMap (simpleName name) = true ∧ s.role name = .mapLike)
    ∨ (s.opens name = true ∧ s.isMap (simpleName name) = false
        ∧ ∃ w transparent, s.role name = .wrapper w transparent) := by
  unfold opens role leafOutcome isContainer
  dsimp only
  cases primitiveTypes.contains name with
  | true => exact .inl ⟨rfl, rfl⟩
  | false =>
    cases s.table.lookup name with
    | some known => exact .inl ⟨rfl, rfl⟩
    | none =>
      -- the kinds of containers in the order in which they are tried
      cases s.isMap (simpleName name) with
      | true => simp
      | false =>
        cases s.isList (simpleName name) with
        | true => simp
        | false =>
          cases s.isSet (simpleName name) with
          | true => simp
          | false =>
            cases s.isOptional (simpleName name) with
            | true => simp
            | false =>
              refine .inl ⟨rfl, ?_⟩
              cases s.isForeign name with
              | true => rfl
              | false => rfl

theorem role_of_not_opens {name : String} (h : s.opens name = false) :
    s.role name = .leaf (s.leafOutcome name) := by
  rcases s.role_cases name with ⟨-, hrole⟩ | ⟨htrue, -⟩ | ⟨htrue, -⟩
  · exact hrole
  · rw [h] at htrue; cases htrue
  · rw [h] at htrue; cases htrue

end Scope

/-! ## What resolutions show of their leaves -/

/-- A container of any kind has the targets of its element. -/
theorem Wrapper.targets_apply (w : Wrapper) (transparent : Bool) (r : Resolution) :
    (w.apply transparent r).targets = r.targets := by
  cases r with
  | foreign | map _ _ => rfl
  | scalar t | optional t => cases w <;> rfl
  | list t | set t => cases transparent <;> cases w <;> rfl

/-- It is foreign if its element is. -/
theorem Wrapper.apply_eq_foreign_iff (w : Wrapper) {transparent : Bool} {r : Resolution} :
    w.apply transparent r = .foreign ↔ r = .foreign := by
  cases r with
  | foreign | map _ _ => exact Iff.rfl
  | scalar t | optional t => cases w <;> exact ⟨nofun, nofun⟩
  | list t | set t => cases transparent <;> cases w <;> exact ⟨nofun, nofun⟩

/-- The outcome is the failure, if there is one, and otherwise has these targets. -/
def Slot.Shows (slot : Slot) (failure : Option String) (targets : List String) : Prop :=
  match failure with
  | some name => slot = .error name
  | none => ∃ r, slot = .ok r ∧ r.targets = targets

namespace Slot.Shows

variable {slot key value : Slot} {failure failure' : Option String} {targets targets' : List String}

theorem foreign : Slot.Shows (.ok .foreign) none [] :=
  ⟨_, rfl, rfl⟩

theorem wrap (w : Wrapper) (transparent : Bool) (h : Slot.Shows slot failure targets) :
    Slot.Shows (slot.map (w.apply transparent)) failure targets := by
  cases failure with
  | some name =>
    have hslot : slot = .error name := h
    rw [hslot]
    exact rfl
  | none =>
    obtain ⟨r, rfl, rfl⟩ := h
    exact ⟨_, rfl, w.targets_apply transparent r⟩

/-- A map shows its key before its value. -/
theorem sides (hkey : Slot.Shows key failure targets) (hvalue : Slot.Shows value failure' targets')
  :
    Slot.Shows (Slot.sides key value) (failure.or failure') (targets ++ targets') := by
  cases failure with
  | some name =>
    have hslot : key = .error name := hkey
    rw [hslot]
    exact rfl
  | none =>
    obtain ⟨k, rfl, rfl⟩ := hkey
    cases failure' with
    | some name =>
      have hslot : value = .error name := hvalue
      rw [hslot]
      exact rfl
    | none =>
      obtain ⟨v, rfl, rfl⟩ := hvalue
      exact ⟨_, rfl, Resolution.targets_ofSides _ _⟩

theorem ofAnswers (answers : Answers) (t : TypeRef) :
    Slot.Shows (answers t) (answers.unresolved? t) (answers.resolution t).targets := by
  unfold Answers.unresolved? Answers.resolution
  cases answers t with
  | ok r => exact ⟨r, rfl, rfl⟩
  | error name => exact rfl

theorem unresolved?_eq {answers : Answers} {t : TypeRef}
    (h : Slot.Shows (answers t) failure targets) : answers.unresolved? t = failure := by
  unfold Answers.unresolved?
  cases failure with
  | some name =>
    have hslot : answers t = .error name := h
    rw [hslot]
  | none =>
    obtain ⟨r, hslot, -⟩ := h
    rw [hslot]

theorem targets_eq {r : Resolution} (h : Slot.Shows slot failure targets) (hr : slot = .ok r) :
    r.targets = targets := by
  cases failure with
  | some name => cases hr.symm.trans h
  | none =>
    obtain ⟨r', hslot, htargets⟩ := h
    cases hr.symm.trans hslot
    exact htargets

end Slot.Shows

namespace Scope

variable (s : Scope)

/-- The failure of a leaf. -/
def leafFailure? (name : String) : Option String :=
  Answers.unresolved? s.resolve (.plain name)

/-- The targets of a leaf. -/
def leafTargets (name : String) : List String :=
  (Answers.resolution s.resolve (.plain name)).targets

/-- The failure and the targets of leaves, from left to right, are what an outcome shows. -/
def Shows (slot : Slot) (leaves : List String) : Prop :=
  slot.Shows (leaves.findSome? s.leafFailure?) (leaves.flatMap s.leafTargets)

variable {s}

theorem shows_leaf {name : String} (hopens : s.opens name = false) (args : List TypeRef) :
    s.Shows (s.resolve (.named name args)) [name] := by
  -- the arguments of a leaf are not looked at
  have hargs : s.resolve (.named name args) = s.resolve (.plain name) := by
    unfold TypeRef.plain
    rw [resolve, resolve, s.role_of_not_opens hopens]
  unfold Shows
  rw [hargs, List.flatMap_singleton, List.findSome?_singleton]
  exact Slot.Shows.ofAnswers s.resolve (.plain name)

theorem Shows.append {key value : Slot} {l l' : List String} (hkey : s.Shows key l)
    (hvalue : s.Shows value l') : s.Shows (Slot.sides key value) (l ++ l') := by
  unfold Shows
  rw [List.findSome?_append, List.flatMap_append]
  exact Slot.Shows.sides hkey hvalue

variable (s)

mutual

/-- **A resolution shows what its leaves show.** -/
theorem resolve_shows : ∀ t : TypeRef, s.Shows (s.resolve t) (s.leaves t)
  | .array element => by
    rw [resolve, leaves]
    exact (resolve_shows element).wrap .list false
  | .named name args => by
    rw [leaves]
    rcases s.role_cases name with ⟨hopens, -⟩ | ⟨hopens, hmap, hrole⟩
      | ⟨hopens, hmap, w, transparent, hrole⟩
    · rw [hopens]
      exact shows_leaf hopens args
    · rw [hopens, hmap, resolve, hrole]
      exact resolveSides_shows args
    · rw [hopens, hmap, resolve, hrole]
      exact resolveElement_shows w transparent args

theorem resolveSides_shows : ∀ args : List TypeRef,
    s.Shows (s.resolveSides args) (s.sideLeaves args)
  | [] => Slot.Shows.foreign
  | [_] => Slot.Shows.foreign
  | _ :: _ :: _ :: _ => Slot.Shows.foreign
  | [key, value] => by
    rw [resolveSides, sideLeaves]
    exact (resolve_shows key).append (resolve_shows value)

theorem resolveElement_shows (w : Wrapper) (transparent : Bool) : ∀ args : List TypeRef,
    s.Shows (s.resolveElement w transparent args) (s.elementLeaves args)
  | [] => Slot.Shows.foreign
  | [element] => by
    rw [resolveElement, elementLeaves]
    exact (resolve_shows element).wrap w transparent
  | _ :: next :: rest => by
    rw [resolveElement, elementLeaves]
    exact resolveElement_shows w transparent (next :: rest)

end

/-! ## Single leaves -/

/-- A container that is named by itself holds nothing. -/
theorem resolve_plain (name : String) :
    s.resolve (.plain name) = if s.opens name then .ok .foreign else s.leafOutcome name := by
  unfold TypeRef.plain
  rw [resolve]
  rcases s.role_cases name with ⟨hopens, hrole⟩ | ⟨hopens, -, hrole⟩ | ⟨hopens, -, w, tr, hrole⟩
  · rw [hopens, hrole]
    rfl
  · rw [hopens, hrole]
    rfl
  · rw [hopens, hrole]
    rfl

/-- A target of a leaf is what the table has for its name, or the name itself if nothing is
known about it. -/
theorem leafOutcome_scalar {name target : String} {r : Resolution}
    (h : s.leafOutcome name = .ok r) (htarget : target ∈ r.targets) :
    r = .scalar target ∧ primitiveTypes.contains name = false
      ∧ (s.table.lookup name = some target ∨ (s.table.lookup name = none ∧ target = name)) := by
  unfold leafOutcome at h
  cases hprimitive : primitiveTypes.contains name with
  | true =>
    rw [hprimitive] at h
    cases h
    cases htarget
  | false =>
    rw [hprimitive] at h
    cases hlookup : s.table.lookup name with
    | some known =>
      rw [hlookup] at h
      cases h
      rw [List.mem_singleton.mp htarget]
      exact ⟨rfl, rfl, .inl rfl⟩
    | none =>
      rw [hlookup] at h
      cases hforeign : s.isForeign name with
      | true =>
        rw [hforeign] at h
        cases h
        cases htarget
      | false =>
        -- nothing is known of the name, and it stands for itself or for nothing
        rw [hforeign] at h
        have hunknown : s.unknownOutcome name = .ok r := h
        unfold unknownOutcome at hunknown
        split at hunknown
        · cases hunknown
        · split at hunknown
          · cases hunknown
            cases htarget
          · cases hunknown
            rw [List.mem_singleton.mp htarget]
            exact ⟨rfl, rfl, .inr ⟨rfl, rfl⟩⟩

/-- Every target of a type is the target of one of its leaves. -/
theorem exists_leaf_of_leadsTo {t : TypeRef} {target : String}
    (h : Answers.LeadsTo s.resolve t target) :
    ∃ name ∈ s.leaves t, s.opens name = false ∧ s.leafOutcome name = .ok (.scalar target)
      ∧ primitiveTypes.contains name = false
      ∧ (s.table.lookup name = some target ∨ (s.table.lookup name = none ∧ target = name)) := by
  obtain ⟨r, hr, htarget⟩ := h
  rw [(s.resolve_shows t).targets_eq hr] at htarget
  obtain ⟨name, hname, hmem⟩ := List.mem_flatMap.mp htarget
  obtain ⟨r', hr', htarget'⟩ := Answers.mem_targets_resolution.mp hmem
  rw [resolve_plain] at hr'
  cases hopens : s.opens name with
  | true =>
    rw [hopens] at hr'
    cases hr'
    cases htarget'
  | false =>
    rw [hopens] at hr'
    have hleaf : s.leafOutcome name = .ok r' := hr'
    obtain ⟨rfl, hprimitive, hlookup⟩ := s.leafOutcome_scalar hleaf htarget'
    exact ⟨name, hname, hopens, hleaf, hprimitive, hlookup⟩

section

variable {s} (hstrict : s.settings.strict = true)
include hstrict

/-- In a strict scope a leaf fails if nothing says what it stands for, and with its own
name. -/
theorem leafFailure?_of_strict (name : String) :
    s.leafFailure? name = Option.guard s.isUnresolvable name := by
  have hunknown : s.unknownOutcome name = .error name := by
    rw [unknownOutcome, hstrict]
    rfl
  unfold leafFailure? Answers.unresolved? Option.guard
  rw [resolve_plain, opens, leafOutcome, hunknown, isUnresolvable]
  cases primitiveTypes.contains name with
  | true => rfl
  | false =>
    cases s.table.lookup name with
    | some known => rfl
    | none =>
      cases s.isContainer (simpleName name) with
      | true => rfl
      | false =>
        cases s.isForeign name with
        | true => rfl
        | false => rfl

/-- **A strict resolution fails with the leftmost unresolvable leaf.** -/
theorem unresolved?_eq_find? (t : TypeRef) :
    Answers.unresolved? s.resolve t = (s.leaves t).find? s.isUnresolvable := by
  rw [(s.resolve_shows t).unresolved?_eq, ← List.findSome?_guard]
  exact congrArg (fun f => (s.leaves t).findSome? f) (funext (leafFailure?_of_strict hstrict))

/-- A type by a name of which nothing is known is not resolved. -/
theorem resolve_ne_ok_of_isUnresolvable {name : String} (h : s.isUnresolvable name = true)
    (args : List TypeRef) (r : Resolution) : s.resolve (.named name args) ≠ .ok r := by
  have hopens : s.opens name = false := by
    unfold isUnresolvable at h
    unfold opens
    simp only [Bool.and_eq_true, Bool.not_eq_true'] at h
    rw [h.1.2, Bool.and_false]
  intro hr
  have hfirst := unresolved?_eq_find? hstrict (.named name args)
  rw [leaves, hopens, if_neg Bool.false_ne_true, List.find?_cons_of_pos h, Answers.unresolved?,
    hr] at hfirst
  cases hfirst

end

end Scope

end ClassDiagram
