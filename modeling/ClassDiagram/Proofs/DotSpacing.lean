import ClassDiagram.Proofs.MemberTypes
import ClassDiagram.Proofs.RespacedText
import ClassDiagram.Proofs.RespacedTrees
import ClassDiagram.Proofs.SuffixRule
import ClassDiagram.Validation
import Mathlib.Logic.Relation

/-!
# Layout of qualified names

What the declarations of a file owe to the blanks around the dots of its qualified names.
Putting a blank beside a dot is one step (`DotSpaced`), and sources that differ in such blanks
are the ones that steps lead between, forwards and backwards.

Types may be written with any blanks around their dots. The name of the package and the paths of
the imports are taken from the source as they stand, so they carry their blanks into the names
and imports of the declarations: `declarations_dotSpacing` says that nothing else does. The file
is the same up to its places if and only if these texts are, a file whose package has a blank in
it is rejected, and the imports that count as foreign are those of the paths as they were
written.
-/

namespace ClassDiagram

open Text

/-- A declaration without its place in the source and without the blanks in its name and in its
imports. -/
def ClassDecl.unspaced (d : ClassDecl) : ClassDecl :=
  { d with
    name := withoutBlanks d.name
    imports := d.imports.map withoutBlanks
    location := none }

/-- A declaration of a file without package and imports, in a file that has them. -/
def ClassDecl.under (package? : Option String) (imports : List String) (d : ClassDecl) :
    ClassDecl :=
  { d with name := Java.qualify package? d.name, imports := imports }

namespace Java

open Lexer Validation Dotted

/-! ## Sources -/

/-- The second source is the first one with a blank beside a dot. The dot does not belong to a
number, an ellipsis, the name of an annotation, a literal or a comment. -/
def DotSpaced (source source' : String) : Prop :=
  ∃ front back y, source.toList = front ++ '.' :: back ∧ source'.toList = front ++ y
    ∧ Spaced back y ∧ front.getLast? ≠ some '.' ∧ back.head? ≠ some '.'
    ∧ FreeDot .other front (tokenize source)

/-- A blank more beside a dot leaves the tokens respaced. -/
theorem DotSpaced.respaced {source source' : String} (h : DotSpaced source source') :
    Respaced (tokenize source) (tokenize source') := by
  obtain ⟨front, back, y, hsource, hsource', hy, hlast, hhead, hdot⟩ := h
  have hlexed : ∀ t ∈ tokenize source, t.WellLexed := fun _ => wellLexed_of_mem_tokenize
  rw [tokenize, hsource] at hdot hlexed
  rw [tokenize, tokenize, hsource, hsource']
  exact (respaced_scan hy hhead _ (Nat.le_refl _) (Nat.le_refl _) hlast hlexed hdot).respaced

/-- A dot is free if it is the token with number `n` and the tokens beside it say so. -/
theorem FreeDot.of_getElem? {w : Preceding} {front : List Char} {ts : List Token} (n : Nat)
    (h : ts[n]?.map Token.text = some "." ∧ (ts.take (n + 1)).flatMap Token.chars = front ++ ['.']
      ∧ w.afterAll (ts.take n) = .other
      ∧ ts[n + 1]?.all (fun t => !Preceding.touching.contains t.text) = true) :
    FreeDot w front ts := by
  obtain ⟨hdot, hfront, hbefore, hafter⟩ := h
  obtain ⟨dot, hget, htext⟩ := Option.map_eq_some_iff.mp hdot
  obtain ⟨hn, rfl⟩ := List.getElem?_eq_some_iff.mp hget
  refine ⟨ts.take n, ts[n], ts.drop (n + 1), ?_, htext, ?_, hbefore, fun t ht => ?_⟩
  · rw [List.getElem_cons_drop, List.take_append_drop]
  · rw [← hfront, List.take_add_one, hget]
    rfl
  · rw [List.head?_drop] at ht
    rw [ht] at hafter
    simpa using hafter

/-! ## Declarations in a package -/

/-- What is around a type in a package, where only the types around it are given. -/
def within (package? outer : Option String) : Option String :=
  match outer with
  | some o => some (qualify package? o)
  | none => package?

/-- A name is put under a package like under an outer type. -/
theorem qualify_within (package? outer : Option String) (name : String) :
    qualify (within package? outer) name = qualify package? (qualify outer name) := by
  cases outer with
  | none => rfl
  | some o =>
    cases package? with
    | none => rfl
    | some p => simp only [within, qualify, String.append_assoc]

/-- Types under a package and with imports are declared like those of a bare file, and then put
there. -/
theorem flatMap_declarations_under (path : RawPath) (imports : List String)
    (package? : Option String) (types : List TypeDecl) : ∀ outer,
    types.flatMap (TypeDecl.declarations ⟨path, imports⟩ (within package? outer))
      = (types.flatMap (TypeDecl.declarations ⟨path, []⟩ outer)).map
          (ClassDecl.under package? imports) := by
  induction types using types_induction with
  | step types ih =>
    intro outer
    rw [List.map_flatMap]
    refine List.flatMap_congr fun d hd => ?_
    rw [TypeDecl.declarations_eq, TypeDecl.declarations_eq, qualify_within, List.map_cons,
      ← ih d hd]
    rfl

namespace CompilationUnit

/-- The declarations of a file, had it neither package nor imports. -/
def bareDeclarations (path : RawPath) (u : CompilationUnit) : List ClassDecl :=
  u.types.flatMap (TypeDecl.declarations ⟨path, []⟩ none)

/-- So are the declarations of a whole file. -/
theorem declarations_eq_under (path : RawPath) (u : CompilationUnit) :
    u.declarations path = (u.bareDeclarations path).map (.under u.package? u.imports) :=
  flatMap_declarations_under path u.imports u.package? u.types none

/-- This does not touch their places. -/
theorem unlocated_declarations (path : RawPath) (u : CompilationUnit) :
    (u.declarations path).map ClassDecl.unlocated
      = ((u.bareDeclarations path).map ClassDecl.unlocated).map (.under u.package? u.imports) := by
  rw [declarations_eq_under, List.map_map, List.map_map]
  rfl

namespace Alike

variable {u u' u'' : CompilationUnit}

protected theorem refl (u : CompilationUnit) : u.Alike u :=
  ⟨rfl, rfl, fun _ _ => rfl⟩

/-- A file is alike to one that is alike to it. -/
protected theorem symm (h : u.Alike u') : u'.Alike u :=
  ⟨h.package?.symm, h.imports.symm, fun file outer => (h.types file outer).symm⟩

/-- Files that are alike to one file are alike. -/
protected theorem trans (h : u.Alike u') (h' : u'.Alike u'') : u.Alike u'' :=
  ⟨h.package?.trans h'.package?, h.imports.trans h'.imports, fun file outer =>
    (h.types file outer).trans (h'.types file outer)⟩

end Alike

end CompilationUnit

/-- Blanks around the dots of qualified names are found in the package and in the imports, and
nowhere else. -/
theorem alike_of_dotSpacing {source source' : String}
    (h : Relation.EqvGen DotSpaced source source') :
    (CompilationUnit.parse source).Alike (.parse source') := by
  induction h with
  | rel _ _ h => exact CompilationUnit.parse_respaced h.respaced
  | refl s => exact .refl _
  | symm _ _ _ ih => exact ih.symm
  | trans _ _ _ _ _ ih ih' => exact ih.trans ih'

/-! ## What blanks around dots change -/

/-- A qualified name loses its blanks part by part. -/
theorem withoutBlanks_qualify (outer : Option String) (name : String) :
    withoutBlanks (qualify outer name)
      = qualify (outer.map withoutBlanks) (withoutBlanks name) := by
  cases outer with
  | none => rfl
  | some o =>
    have hdot : withoutBlanks "." = "." := by decide
    rw [qualify, withoutBlanks_append, withoutBlanks_append, hdot]
    rfl

/-- Without blanks, a declaration is the same under a package without blanks. -/
theorem ClassDecl.unspaced_under (package? : Option String) (imports : List String)
    (d : ClassDecl) : (d.under package? imports).unspaced
      = (d.under (package?.map withoutBlanks) (imports.map withoutBlanks)).unspaced := by
  have htwice : withoutBlanks ∘ withoutBlanks = withoutBlanks := funext withoutBlanks_withoutBlanks
  simp only [ClassDecl.unspaced, ClassDecl.under, withoutBlanks_qualify, Option.map_map,
    List.map_map, htwice]

/-- What a name is put under can be read off, if it is known whether there is anything. -/
theorem qualify_right_cancel {outer outer' : Option String} {name : String}
    (hsome : outer.isSome = outer'.isSome) (h : qualify outer name = qualify outer' name) :
    outer = outer' := by
  cases outer with
  | none =>
    cases outer' with
    | none => rfl
    | some o' => cases hsome
  | some o =>
    cases outer' with
    | none => cases hsome
    | some o' =>
      have hchars := congrArg String.toList h
      simp only [qualify, String.toList_append, List.append_left_inj] at hchars
      rw [String.toList_injective hchars]

/-- In a name that is well formed, no blank stands before the last part either. -/
theorem not_isBlank_of_qualify {o name : String} (h : isQualified (qualify (some o) name) = true) :
    ∀ c ∈ o.toList, isBlank c = false := by
  intro c hc
  refine (isIdentifier_iff.mp (isIdentifier_of_isQualified h)).2 c ?_
  simp [qualify, hc]

/-- The check of a declaration looks neither at its imports nor at its place. -/
theorem checkAll_unlocated (decls : List ClassDecl) (package? : Option String)
    (imports : List String) :
    checkAll (decls.map (ClassDecl.under package? imports))
      = checkAll ((decls.map ClassDecl.unlocated).map (ClassDecl.under package? [])) := by
  induction decls with
  | nil => rfl
  | cons d rest ih => exact congrArg (checkDeclaration (d.under package? imports) >>= fun _ => ·) ih

namespace CompilationUnit.Alike

variable {u u' : CompilationUnit}

/-- Apart from package and imports, alike files declare the same up to places. -/
theorem bareDeclarations_unlocated (h : u.Alike u') (path : RawPath) :
    (u.bareDeclarations path).map ClassDecl.unlocated
      = (u'.bareDeclarations path).map ClassDecl.unlocated :=
  h.types _ _

/-- Apart from blanks, they declare the same. -/
theorem declarations_unspaced (h : u.Alike u') (path : RawPath) :
    (u.declarations path).map ClassDecl.unspaced
      = (u'.declarations path).map ClassDecl.unspaced := by
  have hview : ∀ v : CompilationUnit, (v.declarations path).map ClassDecl.unspaced
      = ((v.bareDeclarations path).map ClassDecl.unlocated).map fun d =>
          (d.under (v.package?.map withoutBlanks) (v.imports.map withoutBlanks)).unspaced := by
    intro v
    rw [declarations_eq_under, List.map_map, List.map_map]
    exact List.map_congr_left fun d _ => ClassDecl.unspaced_under v.package? v.imports d
  rw [hview, hview, h.bareDeclarations_unlocated, h.package?, h.imports]

/-- They declare exactly the same if they declare nothing, or if package and imports are written
alike. -/
theorem declarations_unlocated_iff (h : u.Alike u') (path : RawPath) :
    (u.declarations path).map ClassDecl.unlocated = (u'.declarations path).map ClassDecl.unlocated
      ↔ u.declarations path = [] ∨ u.package? = u'.package? ∧ u.imports = u'.imports := by
  have hbare := h.bareDeclarations_unlocated path
  have hnil : u.declarations path = []
      ↔ (u.bareDeclarations path).map ClassDecl.unlocated = [] := by
    rw [declarations_eq_under, List.map_eq_nil_iff, List.map_eq_nil_iff]
  rw [unlocated_declarations, unlocated_declarations, hnil, ← hbare]
  constructor
  · intro heq
    cases hdecls : (u.bareDeclarations path).map ClassDecl.unlocated with
    | nil => exact .inl rfl
    | cons d rest =>
      rw [hdecls, List.map_cons, List.map_cons] at heq
      obtain ⟨hd, -⟩ := List.cons.inj heq
      have hsome : u.package?.isSome = u'.package?.isSome := by
        simpa using congrArg Option.isSome h.package?
      exact .inr ⟨qualify_right_cancel hsome (congrArg ClassDecl.name hd),
        congrArg ClassDecl.imports hd⟩
  · rintro (hempty | ⟨hpackage, himports⟩)
    · rw [hempty, List.map_nil, List.map_nil]
    · rw [hpackage, himports]

/-- If the packages are written alike, both files are well formed or neither is. -/
theorem checkAll_eq (h : u.Alike u') (hpackage : u.package? = u'.package?) (path : RawPath) :
    checkAll (u.declarations path) = checkAll (u'.declarations path) := by
  rw [declarations_eq_under, declarations_eq_under, checkAll_unlocated (u.bareDeclarations path),
    checkAll_unlocated (u'.bareDeclarations path), h.bareDeclarations_unlocated, hpackage]

/-- In a file with types that passes, the package is written without blanks. -/
theorem withoutBlanks_package? {path : RawPath} (hdecls : u.declarations path ≠ [])
    (h : checkAll (u.declarations path) = .ok ()) : u.package?.map withoutBlanks = u.package? := by
  rw [declarations_eq_under] at hdecls h
  obtain ⟨d, hd⟩ := List.exists_mem_of_ne_nil _ hdecls
  obtain ⟨hname, -⟩ := checkDeclaration_eq_ok_iff.mp (checkAll_eq_ok_iff.mp h d hd)
  obtain ⟨d, -, rfl⟩ := List.mem_map.mp hd
  cases hpackage : u.package? with
  | none => rfl
  | some o =>
    rw [hpackage] at hname
    rw [Option.map_some, withoutBlanks_eq_self (not_isBlank_of_qualify hname)]

/-- If both files are well formed and declare anything, the packages are the same. -/
theorem package?_eq (h : u.Alike u') {path : RawPath} (hdecls : u.declarations path ≠ [])
    (hcheck : checkAll (u.declarations path) = .ok ())
    (hcheck' : checkAll (u'.declarations path) = .ok ()) : u.package? = u'.package? := by
  have hdecls' : u'.declarations path ≠ [] := by
    intro hnil
    have hunspaced := h.declarations_unspaced path
    rw [hnil] at hunspaced
    exact hdecls (List.map_eq_nil_iff.mp hunspaced)
  rw [← withoutBlanks_package? hdecls hcheck, h.package?, withoutBlanks_package? hdecls' hcheck']

/-- If the imports are written alike, the same simple names are foreign. -/
theorem isForeignImport_eq (h : u.Alike u') (himports : u.imports = u'.imports) (path : RawPath)
    (settings : ResolverSettings) (simple : String) :
    (TypeTable.ofDeclarations (u.declarations path) settings).isForeignImport simple
      = (TypeTable.ofDeclarations (u'.declarations path) settings).isForeignImport simple := by
  have hpaths : ∀ v : CompilationUnit, (v.declarations path).flatMap ClassDecl.imports
      = ((v.bareDeclarations path).map ClassDecl.unlocated).flatMap fun _ => v.imports := by
    intro v
    rw [declarations_eq_under, List.flatMap_map, List.flatMap_map]
    rfl
  rw [Bool.eq_iff_iff, TypeTable.isForeignImport_ofDeclarations_iff,
    TypeTable.isForeignImport_ofDeclarations_iff, hpaths, hpaths, h.bareDeclarations_unlocated,
    himports]

end CompilationUnit.Alike

/-- What is the same in two sources up to blanks around the dots of qualified names. -/
structure SameButForBlanks (path : RawPath) (source source' : String) : Prop where
  /-- The declarations differ in their places, and in blanks of their names and imports. -/
  unspaced : (declarations path source).map ClassDecl.unspaced
    = (declarations path source').map ClassDecl.unspaced
  /-- They differ in their places alone, exactly if package and imports are written with the same
  blanks. -/
  unlocated_iff : (declarations path source).map ClassDecl.unlocated
      = (declarations path source').map ClassDecl.unlocated
    ↔ declarations path source = []
      ∨ (CompilationUnit.parse source).package? = (CompilationUnit.parse source').package?
        ∧ (CompilationUnit.parse source).imports = (CompilationUnit.parse source').imports
  /-- The same package gives the same verdict. -/
  checked : (CompilationUnit.parse source).package? = (CompilationUnit.parse source').package? →
    checkAll (declarations path source) = checkAll (declarations path source')
  /-- At most one way to write the package passes. -/
  package?_eq : declarations path source ≠ [] → checkAll (declarations path source) = .ok () →
    checkAll (declarations path source') = .ok () →
    (CompilationUnit.parse source).package? = (CompilationUnit.parse source').package?
  /-- The same imports make the same names foreign. -/
  foreign : (CompilationUnit.parse source).imports = (CompilationUnit.parse source').imports →
    ∀ settings simple,
      (TypeTable.ofDeclarations (declarations path source) settings).isForeignImport simple
        = (TypeTable.ofDeclarations (declarations path source') settings).isForeignImport simple

/-- Blanks around the dots of qualified names matter in the package and in the imports, and
nowhere else. -/
theorem declarations_dotSpacing {source source' : String}
    (h : Relation.EqvGen DotSpaced source source') (path : RawPath) :
    SameButForBlanks path source source' :=
  have halike := alike_of_dotSpacing h
  { unspaced := halike.declarations_unspaced path
    unlocated_iff := halike.declarations_unlocated_iff path
    checked := fun hpackage => halike.checkAll_eq hpackage path
    package?_eq := halike.package?_eq
    foreign := fun himports => halike.isForeignImport_eq himports path }

/-- Blanks in a type do not matter. -/
theorem declarations_dotSpacing_type :
    (declarations "Hub.java" "class Hub \x7b java.io.File log; \x7d").map ClassDecl.unlocated
      = (declarations "Hub.java" "class Hub \x7b java .io.File log; \x7d").map
          ClassDecl.unlocated := by
  have hdot : DotSpaced "class Hub \x7b java.io.File log; \x7d"
      "class Hub \x7b java .io.File log; \x7d" :=
    ⟨"class Hub \x7b java".toList, "io.File log; \x7d".toList, _, by decide +kernel,
      by decide +kernel, .before (b := ' ') (by decide), by decide +kernel, by decide +kernel,
      .of_getElem? 4 (by decide +kernel)⟩
  exact (declarations_dotSpacing (.rel _ _ hdot) "Hub.java").unlocated_iff.mpr
    (.inr (by decide +kernel))

/-- A source with a dot in its package and a dot in its import, each to be written in several
ways. -/
def hubSource (packageDot importDot : String) : String :=
  "package my" ++ packageDot ++ "app; import java" ++ importDot ++ "io.File; class Hub \x7b\x7d"

/-- Blanks in the package and in an import do matter: the declaration of the spaced source is
rejected for its name, and its import is not known to be foreign. -/
theorem package_blank_rejected :
    Relation.EqvGen DotSpaced (hubSource "." ".") (hubSource " ." " .")
    ∧ checkAll (declarations "Hub.java" (hubSource "." ".")) = .ok ()
    ∧ checkAll (declarations "Hub.java" (hubSource " ." " ."))
      = .error (.malformed "my .app.Hub" .declarationName)
    ∧ (TypeTable.ofDeclarations (declarations "Hub.java" (hubSource "." "."))
        {}).isForeignImport "File" = true
    ∧ (TypeTable.ofDeclarations (declarations "Hub.java" (hubSource " ." " ."))
        {}).isForeignImport "File" = false := by
  have hpackage : DotSpaced (hubSource "." ".") (hubSource " ." ".") :=
    ⟨"package my".toList, "app; import java.io.File; class Hub \x7b\x7d".toList, _,
      by decide +kernel, by decide +kernel, .before (b := ' ') (by decide), by decide +kernel,
      by decide +kernel, .of_getElem? 2 (by decide +kernel)⟩
  have himport : DotSpaced (hubSource " ." ".") (hubSource " ." " .") :=
    ⟨"package my .app; import java".toList, "io.File; class Hub \x7b\x7d".toList, _,
      by decide +kernel, by decide +kernel, .before (b := ' ') (by decide), by decide +kernel,
      by decide +kernel, .of_getElem? 7 (by decide +kernel)⟩
  refine ⟨.trans _ _ _ (.rel _ _ hpackage) (.rel _ _ himport), ?_⟩
  decide +kernel

end Java

end ClassDiagram
