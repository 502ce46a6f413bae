import ClassDiagram.Proofs.Leaves

/-!
# Containers are flattened

Seen as a tree, a type consists of wrappers, maps and leaves (`Scope.tree`). Its resolution
forgets this tree but for two things. The first is what stands at the leaves, from left to
right: the leftmost unknown name fails a strict resolution, and where nothing fails, the
targets are those of the leaves, one after the other (`outcome_shows`). The second is how
the targets are held (`HeldAs`). A map shows through all wrappers around it and keeps its
two sides apart. What is not in a map has a single target, and of the wrappers around it the
outermost list or set counts, wherever it stands; optionals count only among themselves.

The tree is made once, by recursion on the type (`resolve_eq_outcome`). All else is
induction on trees, where a wrapper is one case and not two kinds of types and three kinds
of names. That wrappers can be taken from the outside in although a resolution is worked out
from the inside is `Wrapper.apply_holding`.
-/

namespace ClassDiagram

open ClassDiagram.Dotted

/-! ## Trees -/

/-- What a type comes down to where it is not looked into. -/
inductive Leaf where
  /-- A name that stands for this name of the table. -/
  | known (target : String)
  /-- A primitive or foreign name, or a container without the arguments it takes. -/
  | foreign
  /-- A name that nothing is known about. -/
  | unknown (name : String)
  deriving DecidableEq, Repr

namespace Leaf

/-- What a leaf stands for. Only settings that draw the unknown give it a target. -/
def targets (unknownTypes : UnknownTypes) : Leaf → List String
  | .known target => [target]
  | .foreign => []
  | .unknown name =>
    match unknownTypes with
    | .foreign => []
    | .external => [name]

/-- The name that nothing is known about. -/
def unknown? : Leaf → Option String
  | .unknown name => some name
  | _ => none

end Leaf

/-- A type as its resolution sees it. -/
inductive TypeTree where
  | leaf (l : Leaf)
  /-- A list, set or optional of one element. -/
  | wrap (w : Wrapper) (element : TypeTree)
  | map (key value : TypeTree)
  deriving DecidableEq, Repr

namespace TypeTree

/-- The leaves from left to right. -/
def leaves : TypeTree → List Leaf
  | .leaf l => [l]
  | .wrap _ element => element.leaves
  | .map key value => key.leaves ++ value.leaves

/-- The targets of the leaves, one after the other. -/
def targets (unknownTypes : UnknownTypes) (tree : TypeTree) : List String :=
  tree.leaves.flatMap (Leaf.targets unknownTypes)

/-- The wrappers on the outside, outermost first. -/
def wrappers : TypeTree → List Wrapper
  | .wrap w element => w :: element.wrappers
  | _ => []

/-- What is inside of these wrappers: a leaf or a map. -/
def core : TypeTree → TypeTree
  | .wrap _ element => element.core
  | tree => tree

end TypeTree

/-- A target inside of wrappers, outermost first. The outermost list or set holds it; an
optional does where there is neither. -/
def Wrapper.holding (wrappers : List Wrapper) (target : String) : Resolution :=
  match wrappers.find? fun w => w != .optional with
  | some w => w.around target
  | none => if wrappers.isEmpty then .scalar target else .optional target

/-- The resolution holds its targets the way that the tree says. -/
structure TypeTree.HeldAs (unknownTypes : UnknownTypes) (tree : TypeTree) (r : Resolution) :
    Prop where
  /-- What leads nowhere is foreign, and nothing else is. -/
  foreign : r = .foreign ↔ r.targets = []
  /-- A map shows through, with the targets of each side on that side. -/
  map : ∀ key value, tree.core = .map key value → r.targets ≠ [] →
    r = .map (key.targets unknownTypes) (value.targets unknownTypes)
  /-- Outside of maps the wrappers decide. -/
  single : ∀ l, tree.core = .leaf l → ∀ target ∈ r.targets,
    r = Wrapper.holding tree.wrappers target

namespace Scope

mutual

/-- The tree of a type. A name that is neither primitive nor known is that of a container if
its last segment is; maps are tried first, then lists, sets and optionals. -/
def tree (s : Scope) : TypeRef → TypeTree
  | .array element => .wrap .list (s.tree element)
  | .named name args =>
    if primitiveTypes.contains name then .leaf .foreign
    else match s.table.lookup name with
      | some known => .leaf (.known known)
      | none =>
        if s.isMap (simpleName name) then s.sidesTree args
        else if s.isList (simpleName name) then s.elementTree .list args
        else if s.isSet (simpleName name) then s.elementTree .set args
        else if s.isOptional (simpleName name) then s.elementTree .optional args
        else if s.isForeign name then .leaf .foreign
        else .leaf (.unknown name)

/-- The tree of a map, which takes two arguments. -/
def sidesTree (s : Scope) : List TypeRef → TypeTree
  | [key, value] => .map (s.tree key) (s.tree value)
  | _ => .leaf .foreign

/-- The tree of any other container, which takes its last argument. -/
def elementTree (s : Scope) (w : Wrapper) : List TypeRef → TypeTree
  | [] => .leaf .foreign
  | [element] => .wrap w (s.tree element)
  | _ :: next :: rest => s.elementTree w (next :: rest)

end

/-- No simple name is that of an optional and of a list or set as well. -/
def KindsApart (s : Scope) : Prop :=
  ∀ simple, s.isOptional simple = true → s.isList simple = false ∧ s.isSet simple = false

/-- The leftmost name that nothing is known about, where that is a failure. -/
def failure? (s : Scope) (tree : TypeTree) : Option String :=
  if s.settings.strict then tree.leaves.findSome? Leaf.unknown? else none

end Scope

/-! ## Resolution of trees -/

namespace TypeTree

/-- The resolution of a tree, from the leaves upwards. -/
def outcome (s : Scope) : TypeTree → Slot
  | .leaf (.known target) => .ok (.scalar target)
  | .leaf .foreign => .ok .foreign
  | .leaf (.unknown name) => s.unknownOutcome name
  | .wrap w element => (element.outcome s).map (w.apply (w == .optional))
  | .map key value => Slot.sides (key.outcome s) (value.outcome s)

end TypeTree

namespace Scope

variable {s : Scope}

theorem KindsApart.isOptional_eq_false (h : s.KindsApart) {simple : String}
    (hmany : s.isList simple = true ∨ s.isSet simple = true) : s.isOptional simple = false := by
  rw [← Bool.not_eq_true]
  intro hoptional
  obtain ⟨hlist, hset⟩ := h simple hoptional
  rcases hmany with hmany | hmany
  · rw [hlist] at hmany
    cases hmany
  · rw [hset] at hmany
    cases hmany

mutual

/-- A type is resolved like its tree. -/
theorem resolve_eq_outcome (h : s.KindsApart) :
    ∀ t : TypeRef, s.resolve t = (s.tree t).outcome s
  | .array element => by
    rw [resolve, tree, TypeTree.outcome, resolve_eq_outcome h element]
    rfl
  | .named name args => by
    rw [resolve, tree, role]
    cases primitiveTypes.contains name with
    | true => rfl
    | false =>
      cases s.table.lookup name with
      | some known => rfl
      | none =>
        -- the kinds of containers in the order in which they are tried
        cases s.isMap (simpleName name) with
        | true => exact resolveSides_eq_outcome h args
        | false =>
          cases hlist : s.isList (simpleName name) with
          | true =>
            rw [h.isOptional_eq_false (.inl hlist)]
            exact resolveElement_eq_outcome h .list args
          | false =>
            cases hset : s.isSet (simpleName name) with
            | true =>
              rw [h.isOptional_eq_false (.inr hset)]
              exact resolveElement_eq_outcome h .set args
            | false =>
              cases s.isOptional (simpleName name) with
              | true => exact resolveElement_eq_outcome h .optional args
              | false =>
                cases s.isForeign name with
                | true => rfl
                | false => rfl

theorem resolveSides_eq_outcome (h : s.KindsApart) :
    ∀ args : List TypeRef, s.resolveSides args = (s.sidesTree args).outcome s
  | [] => rfl
  | [_] => rfl
  | _ :: _ :: _ :: _ => rfl
  | [key, value] => by
    rw [resolveSides, sidesTree, TypeTree.outcome, resolve_eq_outcome h key,
      resolve_eq_outcome h value]
    rfl

theorem resolveElement_eq_outcome (h : s.KindsApart) (w : Wrapper) : ∀ args : List TypeRef,
    s.resolveElement w (w == .optional) args = (s.elementTree w args).outcome s
  | [] => rfl
  | [element] => by
    rw [resolveElement, elementTree, TypeTree.outcome, resolve_eq_outcome h element]
  | _ :: next :: rest => by
    rw [resolveElement, elementTree]
    exact resolveElement_eq_outcome h w (next :: rest)

end

end Scope

theorem Slot.exists_of_sides_eq_ok {key value : Slot} {r : Resolution}
    (h : Slot.sides key value = .ok r) :
    ∃ k v, key = .ok k ∧ value = .ok v ∧ r = .ofSides k.targets v.targets := by
  cases key with
  | error name => cases h
  | ok k =>
    cases value with
    | error name => cases h
    | ok v => exact ⟨k, v, rfl, rfl, (Except.ok.inj h).symm⟩

namespace Wrapper

variable (w : Wrapper)

/-- One more wrapper on the outside. -/
theorem apply_holding (wrappers : List Wrapper) (target : String) :
    w.apply (w == .optional) (holding wrappers target) = holding (w :: wrappers) target := by
  unfold holding
  cases w with
  | list | set =>
    -- a list or set takes the place of whatever holds the target inside
    rw [List.find?_cons_of_pos (by decide)]
    cases wrappers.find? fun v => v != .optional with
    | some v => cases v <;> rfl
    | none => cases wrappers <;> rfl
  | optional =>
    rw [List.find?_cons_of_neg (by decide)]
    cases wrappers.find? fun v => v != .optional with
    | some v => cases v <;> rfl
    | none => cases wrappers <;> rfl

end Wrapper

namespace TypeTree

variable (s : Scope)

/-- **A tree shows what its leaves show.** -/
theorem outcome_shows (tree : TypeTree) :
    (tree.outcome s).Shows (s.failure? tree) (tree.targets s.settings.unknownTypes) := by
  unfold Scope.failure? targets
  induction tree with
  | leaf l =>
    rw [leaves, List.findSome?_singleton, List.flatMap_singleton]
    cases l with
    | known target => cases s.settings.strict <;> exact ⟨_, rfl, rfl⟩
    | foreign => cases s.settings.strict <;> exact ⟨_, rfl, rfl⟩
    | unknown name =>
      rw [outcome, Scope.unknownOutcome]
      cases s.settings.strict with
      | true => exact rfl
      | false => cases s.settings.unknownTypes <;> exact ⟨_, rfl, rfl⟩
  | wrap w element ih => exact ih.wrap w _
  | map key value ihkey ihvalue =>
    rw [leaves, List.findSome?_append, List.flatMap_append]
    have hboth := ihkey.sides ihvalue
    -- the leftmost failure of both sides, or none on either side
    cases hstrict : s.settings.strict with
    | true => rwa [hstrict] at hboth
    | false => rwa [hstrict] at hboth

theorem targets_of_outcome {tree : TypeTree} {r : Resolution} (h : tree.outcome s = .ok r) :
    r.targets = tree.targets s.settings.unknownTypes :=
  (tree.outcome_shows s).targets_eq h

/-- A leaf that resolves is foreign or has a single target. -/
theorem outcome_leaf {l : Leaf} {r : Resolution} (h : (leaf l).outcome s = .ok r) :
    r = .foreign ∨ ∃ target, r = .scalar target := by
  cases l with
  | known target => exact .inr ⟨target, (Except.ok.inj h).symm⟩
  | foreign => exact .inl (Except.ok.inj h).symm
  | unknown name =>
    rw [outcome, Scope.unknownOutcome] at h
    split at h
    · cases h
    · split at h
      · exact .inl (Except.ok.inj h).symm
      · exact .inr ⟨name, (Except.ok.inj h).symm⟩

/-- **The tree decides how the targets are held.** -/
theorem outcome_heldAs (tree : TypeTree) {r : Resolution} (h : tree.outcome s = .ok r) :
    tree.HeldAs s.settings.unknownTypes r := by
  induction tree generalizing r with
  | leaf l =>
    rcases outcome_leaf s h with rfl | ⟨t, rfl⟩
    · exact ⟨⟨fun _ => rfl, fun _ => rfl⟩, nofun, nofun⟩
    · refine ⟨⟨nofun, nofun⟩, nofun, fun _ _ target htarget => ?_⟩
      rw [List.mem_singleton.mp htarget]
      rfl
  | wrap w element ih =>
    rw [outcome] at h
    cases hinner : element.outcome s with
    | error name =>
      rw [hinner] at h
      cases h
    | ok inner =>
    rw [hinner] at h
    cases h
    have hheld := ih hinner
    refine ⟨?_, fun key value hcore hsome => ?_, fun l hcore target htarget => ?_⟩
    · rw [w.apply_eq_foreign_iff, w.targets_apply]
      exact hheld.foreign
    · rw [w.targets_apply] at hsome
      rw [hheld.map key value hcore hsome]
      rfl
    · rw [w.targets_apply] at htarget
      rw [hheld.single l hcore target htarget]
      exact w.apply_holding element.wrappers target
  | map key value _ _ =>
    obtain ⟨k, v, hk, hv, rfl⟩ := Slot.exists_of_sides_eq_ok h
    rw [targets_of_outcome s hk, targets_of_outcome s hv]
    refine ⟨?_, fun _ _ hcore hsome => ?_, nofun⟩
    · rw [Resolution.targets_ofSides]
      exact Resolution.ofSides_eq_foreign_iff
    · cases hcore
      rcases Resolution.ofSides_cases (key.targets s.settings.unknownTypes)
        (value.targets s.settings.unknownTypes) with ⟨-, -, hnone⟩ | hmap
      · rw [hnone] at hsome
        exact absurd rfl hsome
      · exact hmap

end TypeTree

namespace Scope

/-- **Containers are flattened, and no target is lost or invented.** Let no name be that of
an optional and of a list or set. In a strict scope the leftmost leaf that nothing is known
about fails the resolution. If there is none, and in any other scope, the type resolves; its
targets are those of its leaves from left to right, and they are held as the tree says. -/
theorem resolve_flattens (s : Scope) (hkinds : s.KindsApart) (t : TypeRef) :
    (∀ name, s.settings.strict = true → (s.tree t).leaves.findSome? Leaf.unknown? = some name →
      s.resolve t = .error name)
    ∧ (s.settings.strict = false ∨ (s.tree t).leaves.findSome? Leaf.unknown? = none →
      ∃ r, s.resolve t = .ok r
        ∧ r.targets = (s.tree t).leaves.flatMap (Leaf.targets s.settings.unknownTypes)
        ∧ (s.tree t).HeldAs s.settings.unknownTypes r) := by
  have hshows := (s.tree t).outcome_shows s
  rw [resolve_eq_outcome hkinds t]
  constructor
  · intro name hstrict hname
    rw [failure?, if_pos hstrict, hname] at hshows
    exact hshows
  · intro hfine
    have hnone : s.failure? (s.tree t) = none := by
      unfold failure?
      rcases hfine with hlenient | hnone
      · rw [hlenient]
        rfl
      · rw [hnone]
        exact ite_self none
    rw [hnone] at hshows
    obtain ⟨r, hr, htargets⟩ := hshows
    exact ⟨r, hr, htargets, (s.tree t).outcome_heldAs s hr⟩

/-- An optional map from tokens, about which nothing is known, to arrays of rooms. -/
def keyring : TypeRef :=
  .named "java.util.Optional"
    [.named "java.util.Map" [.plain "desk.Token", .array (.plain "Room")]]

theorem tree_keyring (strict : Bool) (u : UnknownTypes) :
    Scope.tree ⟨⟨["Room"], ∅, []⟩, { strict := strict, unknownTypes := u }⟩ keyring
      = .wrap .optional
          (.map (.leaf (.unknown "desk.Token")) (.wrap .list (.leaf (.known "Room")))) := by
  rfl

theorem kindsApart_builtin (table : TypeTable) (strict : Bool) (u : UnknownTypes) :
    Scope.KindsApart ⟨table, { strict := strict, unknownTypes := u }⟩ := by
  intro simple hoptional
  have hname : simple = "Optional" := by
    simpa [isOptional, builtinOptionals] using hoptional
  subst hname
  exact ⟨rfl, rfl⟩

/-- Where tokens are drawn all the same, they are the keys to the rooms; in a strict scope
they are what fails. -/
theorem resolve_flattens_keyring :
    Scope.resolve ⟨⟨["Room"], ∅, []⟩, { unknownTypes := .external }⟩ keyring
        = .ok (.map ["desk.Token"] ["Room"])
    ∧ Scope.resolve ⟨⟨["Room"], ∅, []⟩, { strict := true }⟩ keyring = .error "desk.Token" := by
  constructor
  · have h := (resolve_flattens ⟨⟨["Room"], ∅, []⟩, { unknownTypes := .external }⟩
      (kindsApart_builtin _ false .external) keyring).2 (.inl rfl)
    rw [tree_keyring] at h
    obtain ⟨r, hr, htargets, hheld⟩ := h
    rw [hr, hheld.map _ _ rfl (by rw [htargets]; decide)]
    rfl
  · refine (resolve_flattens ⟨⟨["Room"], ∅, []⟩, { strict := true }⟩
      (kindsApart_builtin _ true .foreign) keyring).1 _ rfl ?_
    rw [tree_keyring]
    rfl

end Scope

end ClassDiagram
