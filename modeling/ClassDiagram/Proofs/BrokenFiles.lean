import ClassDiagram.Command.Run
import ClassDiagram.Proofs.DocumentText
import ClassDiagram.Proofs.Leniency
import ClassDiagram.Proofs.MemberTypes
import ClassDiagram.Proofs.NameOrder
import ClassDiagram.Proofs.StoredFiles
import ClassDiagram.Proofs.UnknownTypes
import ClassDiagram.Proofs.StrictFailures

/-!
# Broken files do not touch the rest of a run

A file below the analysed directory is *taken* (`Sources.Takes`) if it is a Java file that no
pattern excludes, if it is text, and if all that it declares is well formed. What is collected
are the declarations of the files that are taken, in ascending order of their paths
(`collect_run`, `mem_taken`, `pairwise_taken`). A list that ascends strictly is determined by
its members, so neither the order in which the storage lists the files nor a file that is not
taken makes a difference (`taken_congr`).

Whether a file is taken is decided by itself alone, and declarations are well formed one by
one. Hence what is collected is always fit for an analysis (`checkAll_taken`), which then
succeeds. It can report failures only if it is strict (`Analysis.strict_of_failures_ne_nil`),
and the exit code of the command tells whether it does (`run_of_report`).

What the command shows is another matter. Files may have any names, and a document has no form
for a path that is no text. So if the document of the analysis is asked for and an entity
stands in a file with such a path, which can only be a file that was taken
(`exists_taken_of_location`), the command gives up after the analysis and exits with 2.
-/

namespace ClassDiagram.Sources

/-- The file is taken, and it has these declarations: it is a Java file, no pattern excludes
it, it is text, and everything that it declares is well formed. -/
def Takes (settings : ProjectSettings) (root : RawPath) (file : SourceFile)
    (decls : List ClassDecl) : Prop :=
  isJava root file.path = true ∧ isExcluded (patterns settings) file.path = false
    ∧ ∃ text : String, file.content = .ok text.toUTF8
      ∧ Java.declarations (placeOf root file.path) text = decls
      ∧ Validation.checkAll decls = .ok ()

section

variable {settings : ProjectSettings} {root : RawPath} {file : SourceFile}
  {files : List SourceFile}

/-- Whether a file is looked into. -/
def isSource (settings : ProjectSettings) (root : RawPath) (path : List RawPath) : Bool :=
  isJava root path && !isExcluded (patterns settings) path

/-- What a file that is looked into declares. -/
def declared? (root : RawPath) (file : SourceFile) : Option (List ClassDecl) :=
  file.content.toOption.bind (declarations? (placeOf root file.path))

/-- A file that can be read declares what its bytes do. -/
theorem declared?_of_content (root : RawPath) (path : List RawPath) (bytes : ByteArray) :
    declared? root ⟨path, .ok bytes⟩ = declarations? (placeOf root path) bytes :=
  rfl

/-- What a file declares is known if its bytes are a text and everything in it is well
formed. -/
theorem declarations?_eq_some_iff {place : RawPath} {bytes : ByteArray} {decls : List ClassDecl} :
    declarations? place bytes = some decls ↔ ∃ text : String, bytes = text.toUTF8
      ∧ Java.declarations place text = decls ∧ Validation.checkAll decls = .ok () := by
  unfold declarations?
  constructor
  · intro h
    obtain ⟨text, htext, h⟩ := Option.bind_eq_some_iff.mp h
    refine ⟨text, RawPath.fromUTF8?_eq_some_iff.mp htext, ?_⟩
    dsimp only at h
    split at h
    next hvalid =>
      have heq : Java.declarations place text = decls := Option.some.inj h
      exact ⟨heq, heq ▸ hvalid⟩
    next => exact absurd h (Option.some_ne_none decls).symm
  · intro h
    obtain ⟨text, htext, rfl, hvalid⟩ := h
    refine Option.bind_eq_some_iff.mpr ⟨text, RawPath.fromUTF8?_eq_some_iff.mpr htext, ?_⟩
    dsimp only
    rw [hvalid]
    rfl

theorem takes_iff {decls : List ClassDecl} :
    Takes settings root file decls
      ↔ isSource settings root file.path = true ∧ declared? root file = some decls := by
  unfold Takes isSource declared?
  rw [Bool.and_eq_true, Bool.not_eq_true', and_assoc]
  refine and_congr_right fun _ => and_congr_right fun _ => ?_
  cases file.content with
  | error fault =>
    constructor
    · intro h
      obtain ⟨text, htext, -⟩ := h
      cases htext
    · intro h
      cases h
  | ok bytes =>
    have hbytes : (Except.ok bytes : Except Fault ByteArray).toOption = some bytes := rfl
    rw [hbytes, Option.bind_some, declarations?_eq_some_iff]
    simp only [Except.ok.injEq]

/-- The files that are looked into, in the order of their paths. -/
def sources (settings : ProjectSettings) (root : RawPath) (files : List SourceFile) :
    List SourceFile :=
  (files.filter fun file => isSource settings root file.path).mergeSort
    fun a b => Path.le a.path b.path

/-- The files that are taken, in the order of their paths, each with its declarations. -/
def taken (settings : ProjectSettings) (root : RawPath) (files : List SourceFile) :
    List (List RawPath × List ClassDecl) :=
  (sources settings root files).filterMap fun file =>
    (declared? root file).map fun decls => (file.path, decls)

/-- The source files of a project are the files whose path the settings select. -/
theorem mem_sources : file ∈ sources settings root files
    ↔ file ∈ files ∧ isSource settings root file.path = true := by
  unfold sources
  rw [List.mem_mergeSort, List.mem_filter]

theorem map_path_sources (settings : ProjectSettings) (root : RawPath)
    (files : List SourceFile) :
    (sources settings root files).map SourceFile.path
      = ((files.map SourceFile.path).filter (isSource settings root)).mergeSort Path.le := by
  rw [List.filter_map]
  exact List.map_mergeSort fun _ _ _ _ => rfl

theorem select_of_perm {paths : List (List RawPath)}
    (h : paths.Perm (files.map SourceFile.path)) :
    select (patterns settings) root paths
      = (sources settings root files).map SourceFile.path := by
  rw [map_path_sources]
  exact Path.sortsUniquely_le.mergeSort_eq (h.filter _)

/-- A file is taken, with its declarations, when it is a selected file that can be read and
parsed. -/
theorem mem_taken {path : List RawPath} {decls : List ClassDecl} :
    (path, decls) ∈ taken settings root files
      ↔ ∃ file ∈ files, file.path = path ∧ Takes settings root file decls := by
  unfold taken
  rw [List.mem_filterMap]
  constructor
  · intro h
    obtain ⟨file, hfile, h⟩ := h
    obtain ⟨decls', hdeclared, heq⟩ := Option.map_eq_some_iff.mp h
    cases heq
    obtain ⟨hmem, hsource⟩ := mem_sources.mp hfile
    exact ⟨file, hmem, rfl, takes_iff.mpr ⟨hsource, hdeclared⟩⟩
  · intro h
    obtain ⟨file, hmem, rfl, htakes⟩ := h
    obtain ⟨hsource, hdeclared⟩ := takes_iff.mp htakes
    exact ⟨file, mem_sources.mpr ⟨hmem, hsource⟩, by rw [hdeclared]; rfl⟩

/-- The files that are taken come in the order of their paths. -/
theorem pairwise_taken (h : (files.map SourceFile.path).Nodup) :
    (taken settings root files).Pairwise fun a b => Path.Before a.1 b.1 := by
  have hpaths : ((sources settings root files).map SourceFile.path).Pairwise
      Path.Before := by
    rw [map_path_sources]
    exact Path.pairwise_mergeSort_le (h.filter _)
  unfold taken
  rw [List.pairwise_filterMap]
  refine (List.pairwise_map.mp hpaths).imp fun {a b} hab x hx y hy => ?_
  obtain ⟨decls, -, rfl⟩ := Option.map_eq_some_iff.mp hx
  obtain ⟨decls', -, rfl⟩ := Option.map_eq_some_iff.mp hy
  exact hab

/-- A list that ascends strictly is determined by its members. -/
theorem eq_of_ascending {l l' : List (List RawPath × List ClassDecl)}
    (h : l.Pairwise fun a b => Path.Before a.1 b.1)
    (h' : l'.Pairwise fun a b => Path.Before a.1 b.1)
    (hmem : ∀ x, x ∈ l ↔ x ∈ l') : l = l' := by
  have hnodup : ∀ {l : List (List RawPath × List ClassDecl)},
      (l.Pairwise fun a b => Path.Before a.1 b.1) → l.Nodup := by
    intro l hl
    refine hl.imp fun {a b} hab heq => ?_
    rw [heq] at hab
    exact List.lt_irrefl _ hab
  have hperm : l.Perm l' := (List.perm_ext_iff_of_nodup (hnodup h) (hnodup h')).mpr hmem
  refine hperm.eq_of_pairwise (fun a b _ _ hab hba => ?_) h h'
  exact absurd hba (List.lt_asymm hab)

/-! ### Collecting -/

variable {σ : Type} {s : Storage (StateM σ)} {t : σ}

/-- Reading one thing after the other, when reading changes nothing. -/
theorem run_filterMapM_map {α β γ : Type} {f : α → StateM σ (Option β)} {p : γ → α}
    {g : γ → Option β} {l : List γ} (h : ∀ c ∈ l, (f (p c)).run t = (g c, t)) :
    ((l.map p).filterMapM f).run t = (l.filterMap g, t) := by
  induction l with
  | nil => rfl
  | cons c rest ih =>
    have hrest := ih fun d hd => h d (List.mem_cons_of_mem _ hd)
    rw [List.map_cons, List.filterMapM_cons, run_bind_of_run (h c List.mem_cons_self),
      List.filterMap_cons]
    cases g c with
    | none => exact hrest
    | some b => exact run_bind_of_run hrest _

theorem flatMap_filterMap {α β γ : Type} (f : α → Option β) (g : β → List γ) (l : List α) :
    (l.filterMap f).flatMap g = l.flatMap fun a => ((f a).map g).getD [] := by
  induction l with
  | nil => rfl
  | cons a rest ih =>
    rw [List.filterMap_cons, List.flatMap_cons, ← ih]
    cases f a with
    | none => rfl
    | some b => rfl

/-- The declarations of a project are those of the files taken, file by file. -/
theorem gather_eq_flatMap_taken (settings : ProjectSettings) (root : RawPath)
    (files : List SourceFile) :
    gather ((sources settings root files).filterMap fun file =>
        file.content.toOption.map fun bytes => (placeOf root file.path, bytes))
      = (taken settings root files).flatMap (·.2) := by
  unfold gather taken
  rw [flatMap_filterMap, flatMap_filterMap]
  refine congrArg (fun f => List.flatMap f _) (funext fun file => ?_)
  unfold declared?
  cases file.content with
  | error fault => rfl
  | ok bytes =>
    show (declarations? (placeOf root file.path) bytes).getD []
      = (((declarations? (placeOf root file.path) bytes).map _).map _).getD []
    cases declarations? (placeOf root file.path) bytes with
    | none => rfl
    | some decls => rfl

/-- Collecting gives the declarations of the files that are taken, one file after the
other. -/
theorem collect_run (h : Holds s t root files) (settings : ProjectSettings) :
    (collect s settings root).run t
      = ((taken settings root files).flatMap (·.2), t) := by
  obtain ⟨paths, hwalk, hperm⟩ := h.walk
  have hlist : (list s settings root).run t
      = ((sources settings root files).map SourceFile.path, t) := by
    rw [← select_of_perm hperm]
    exact run_bind_of_run hwalk _
  have hread : ∀ file ∈ sources settings root files,
      (do return (← s.read (placeOf root file.path)).toOption.map fun bytes =>
        (placeOf root file.path, bytes) : StateM σ _).run t
      = (file.content.toOption.map fun bytes => (placeOf root file.path, bytes), t) := by
    intro file hfile
    exact run_bind_of_run (h.read file (mem_sources.mp hfile).1) _
  unfold collect
  rw [run_bind_of_run hlist, run_bind_of_run (run_filterMapM_map hread),
    ← gather_eq_flatMap_taken]
  rfl

/-- What is collected is well formed. -/
theorem checkAll_taken (settings : ProjectSettings) (root : RawPath) (files : List SourceFile) :
    Validation.checkAll ((taken settings root files).flatMap (·.2)) = .ok () := by
  rw [Validation.checkAll_eq_ok_iff]
  intro d hd
  obtain ⟨⟨path, decls⟩, hmem, hd⟩ := List.mem_flatMap.mp hd
  obtain ⟨file, -, -, htakes⟩ := mem_taken.mp hmem
  obtain ⟨-, -, text, -, -, hvalid⟩ := htakes
  exact Validation.checkAll_eq_ok_iff.mp hvalid d hd

/-- What is declared in a file that is taken stands in that file. -/
theorem exists_taken_of_mem {d : ClassDecl} {l : SourceLocation}
    (hd : d ∈ (taken settings root files).flatMap (·.2)) (hl : l ∈ d.location) :
    ∃ part ∈ taken settings root files, l.file = placeOf root part.1 := by
  obtain ⟨⟨path, decls⟩, hpart, hd⟩ := List.mem_flatMap.mp hd
  obtain ⟨file, -, rfl, htakes⟩ := mem_taken.mp hpart
  obtain ⟨-, -, text, -, rfl, -⟩ := htakes
  obtain ⟨l', hl', hfile⟩ := Java.file_of_mem_declarations hd
  obtain rfl : l' = l := Option.some.inj (hl'.symm.trans hl)
  exact ⟨_, hpart, hfile⟩

/-- Files that are not taken do not count. -/
theorem taken_congr {files' : List SourceFile} (h : (files.map SourceFile.path).Nodup)
    (h' : (files'.map SourceFile.path).Nodup)
    (hsame : ∀ file decls, Takes settings root file decls → (file ∈ files ↔ file ∈ files')) :
    taken settings root files = taken settings root files' := by
  refine eq_of_ascending (pairwise_taken h) (pairwise_taken h') fun x => ?_
  obtain ⟨path, decls⟩ := x
  rw [mem_taken, mem_taken]
  constructor
  · intro hx
    obtain ⟨file, hmem, hpath, htakes⟩ := hx
    exact ⟨file, (hsame file decls htakes).mp hmem, hpath, htakes⟩
  · intro hx
    obtain ⟨file, hmem, hpath, htakes⟩ := hx
    exact ⟨file, (hsame file decls htakes).mpr hmem, hpath, htakes⟩

end

end ClassDiagram.Sources

namespace ClassDiagram.Command

open Sources

/-- The settings in effect are strict when the command line or the settings file says so. -/
theorem strict_of_effectiveSettings {o : AnalyzeOptions} {loaded settings : Settings}
    (h : effectiveSettings o loaded = .ok settings) :
    settings.resolver.strict = (o.strict || loaded.resolver.strict) := by
  unfold effectiveSettings at h
  cases hchoice : o.unknownTypes with
  | none =>
    rw [hchoice] at h
    cases h
    rfl
  | some text =>
    rw [hchoice] at h
    dsimp only at h
    cases hparse : UnknownTypes.parse? text with
    | none =>
      rw [hparse] at h
      cases h
    | some choice =>
      rw [hparse] at h
      cases h
      rfl

/-- A computation that succeeds has a first step that succeeds. -/
theorem exists_of_bind_eq_ok {α β : Type} {x : Except Refusal α} {f : α → Except Refusal β}
    {b : β} (h : (x >>= f) = .ok b) : ∃ a, x = .ok a ∧ f a = .ok b := by
  cases x with
  | error r => cases h
  | ok a => exact ⟨a, rfl, h⟩

/-- The command line can make a run strict, but not lenient. -/
theorem strict_of_plan {o : AnalyzeOptions} {loaded settings : Settings} {format : OutputFormat}
    (h : plan o loaded = .ok (settings, format)) :
    settings.resolver.strict = (o.strict || loaded.resolver.strict) := by
  obtain ⟨effective, hsettings, h⟩ := exists_of_bind_eq_ok h
  obtain ⟨format', -, h⟩ := exists_of_bind_eq_ok h
  cases h
  exact strict_of_effectiveSettings hsettings

/-- An entity stands where a declaration does. -/
theorem exists_decl_of_location {settings : ResolverSettings} {decls : List ClassDecl}
    {e : Entity} {l : SourceLocation}
    (he : e ∈ (Analysis.ofValid settings decls).diagram.entities) (hl : l ∈ e.location) :
    ∃ d ∈ decls, l ∈ d.location := by
  obtain ⟨stubs, hentities⟩ := Analysis.assemble_entities (Analysis.kept decls)
    ((Analysis.dropped decls).map ClassDecl.name) (Analysis.outcomes settings decls)
  rw [Analysis.ofValid_eq, hentities, List.mem_append] at he
  rcases he with hbox | hstub
  · obtain ⟨d, hd, rfl⟩ := List.mem_map.mp hbox
    exact ⟨d, mem_of_mem_firstsAfter hd, hl⟩
  · -- a stub stands nowhere
    obtain ⟨name, -, rfl⟩ := List.mem_map.mp hstub
    cases hl

/-- An entity of an analysis stands in one of the files that were taken. -/
theorem exists_taken_of_location {settings : Settings} {root : RawPath} {files : List SourceFile}
    {e : Entity} {l : SourceLocation}
    (he : e ∈ (Analysis.ofValid settings.resolver
      ((taken settings.project root files).flatMap (·.2))).diagram.entities)
    (hl : l ∈ e.location) :
    ∃ part ∈ taken settings.project root files, l.file = placeOf root part.1 := by
  obtain ⟨d, hd, hl⟩ := exists_decl_of_location he hl
  exact exists_taken_of_mem hd hl

/-! ### Exit codes -/

/-- The exit code of an analysis that is shown tells whether it has failures. -/
theorem exitCode_conclude (shown : String) (a : Analysis) :
    (conclude shown a).exitCode = if a.failures = [] then 0 else 1 := by
  unfold conclude Analysis.isComplete
  simp only [List.isEmpty_iff]

/-- An analysis that is shown exits with 1 exactly if it has failures. -/
theorem exitCode_eq_one_iff {shown : String} {a : Analysis} :
    (conclude shown a).exitCode = 1 ↔ a.failures ≠ [] := by
  rw [exitCode_conclude]
  split
  next hnone => exact ⟨nofun, fun hsome => absurd hnone hsome⟩
  next hsome => exact ⟨fun _ => hsome, fun _ => rfl⟩

/-- An analysis that is shown exits with 0 exactly if it has none. -/
theorem exitCode_eq_zero_iff {shown : String} {a : Analysis} :
    (conclude shown a).exitCode = 0 ↔ a.failures = [] := by
  rw [exitCode_conclude]
  split
  next hnone => exact ⟨fun _ => hnone, fun _ => rfl⟩
  next hsome => exact ⟨nofun, fun hnone => absurd hnone hsome⟩

/-- What a run writes for an analysis, and whether it can, depends on the format only. -/
theorem textOf_eq_error_iff {format : OutputFormat} {o : AnalyzeOptions} {settings : Settings}
    {a : Analysis} {r : Refusal} :
    textOf format o settings a = .error r
      ↔ r = .unwritable ∧ format = .json ∧ ¬a.diagram.HasTextPaths := by
  rw [← OutputFormat.render?_eq_none_iff
    (o := { members := settings.output.includeMembers, compact := o.compact })]
  unfold textOf
  dsimp only
  split
  next hnone =>
    constructor
    · intro h
      exact ⟨(Except.error.inj h).symm, hnone⟩
    · intro h
      rw [h.1]
  next text hsome =>
    constructor
    · intro h
      cases format <;> cases h
    · intro h
      rw [hsome] at h
      cases h.2

section

variable {o : AnalyzeOptions} {settings : Settings} {format : OutputFormat}
  {decls : List ClassDecl} {a : Analysis}

/-- An analysis is shown unless its document is asked for and has no form. -/
theorem report_of_writable (hrun : Analysis.run settings.resolver decls = .ok a)
    (hwritable : format = .json → a.diagram.HasTextPaths) :
    ∃ shown, report o settings format decls = .ok (conclude shown a) := by
  unfold report
  rw [hrun]
  cases htext : textOf format o settings a with
  | ok shown => exact ⟨shown, by simp [htext, Except.map]⟩
  | error r =>
    obtain ⟨-, hjson, hstray⟩ := textOf_eq_error_iff.mp htext
    exact absurd (hwritable hjson) hstray

/-- Otherwise the command gives up. -/
theorem report_of_stray (hrun : Analysis.run settings.resolver decls = .ok a)
    (hjson : format = .json) (hstray : ¬a.diagram.HasTextPaths) :
    report o settings format decls = .error .unwritable := by
  unfold report
  rw [hrun]
  dsimp only
  rw [textOf_eq_error_iff.mpr ⟨rfl, hjson, hstray⟩]
  rfl

variable {σ : Type} {s : Storage (StateM σ)} {t : σ} {loaded : Settings}

/-- What becomes of a directory that can be analysed is what becomes of the report. -/
theorem run_of_report (hload : (loadSettings s o).run t = (.ok loaded, t))
    (hplan : plan o loaded = .ok (settings, format))
    (hnode : (s.node? o.path).run t = (some .directory, t))
    (hcollect : (collect s settings.project o.path).run t = (decls, t))
    {result : Except Refusal Outcome} (hreport : report o settings format decls = result) :
    (run s (.analyze o)).run t
      = (match result with
        | .ok outcome => outcome
        | .error r => refuse r, t) := by
  have hanalyze : (runAnalyze s o).run t = (result, t) := by
    have hbound : (Except.ok loaded).bind (plan o) = .ok (settings, format) := hplan
    unfold runAnalyze
    rw [run_bind_of_run hload, hbound, ← hreport]
    dsimp only
    rw [run_bind_of_run hnode]
    exact run_bind_of_run hcollect _
  unfold run
  rw [run_bind_of_run hanalyze]
  cases result with
  | ok outcome => rfl
  | error r => rfl

end

/-- **A broken file never affects the rest of a run.** What is collected below a directory are
the declarations of exactly those files that are taken, in ascending order of their paths; in
which order the storage lists the files does not matter. An analysis of what is collected
succeeds, it has failures only if it is strict, and its entities stand in the files that were
taken. With other files, among which the same are taken, the same is collected and the analysis
is the same.

If the command gets to analyse the directory and can write the result, it exits with 1 exactly
if there are failures, and otherwise with 0. It can write every format but the document of the
analysis, and this one too if all entities stand in files whose paths are texts. If it cannot,
it exits with 2, whether or not there are failures, and writes nothing but the reason. -/
theorem run_despite_broken_files {σ : Type} (s : Storage (StateM σ)) (t : σ) (root : RawPath)
    (files : List SourceFile) (h : Holds s t root files) (settings : Settings) :
    ∃ (parts : List (List RawPath × List ClassDecl)) (a : Analysis),
      (∀ path decls, (path, decls) ∈ parts
        ↔ ∃ file ∈ files, file.path = path ∧ Takes settings.project root file decls)
      ∧ (parts.Pairwise fun p q => Path.Before p.1 q.1)
      ∧ (collect s settings.project root).run t = (parts.flatMap (·.2), t)
      ∧ Analysis.run settings.resolver (parts.flatMap (·.2)) = .ok a
      ∧ (a.failures ≠ [] → settings.resolver.strict = true)
      ∧ (∀ e ∈ a.diagram.entities, ∀ l ∈ e.location, ∃ p ∈ parts, l.file = placeOf root p.1)
      ∧ (∀ (σ' : Type) (s' : Storage (StateM σ')) (t' : σ') (files' : List SourceFile),
          Holds s' t' root files' →
          (∀ file decls, Takes settings.project root file decls →
            (file ∈ files ↔ file ∈ files')) →
          (collect s' settings.project root).run t' = (parts.flatMap (·.2), t')
            ∧ Analysis.run settings.resolver ((collect s' settings.project root).run t').1 = .ok a)
      ∧ ∀ (o : AnalyzeOptions) (loaded : Settings) (format : OutputFormat), o.path = root →
          (loadSettings s o).run t = (.ok loaded, t) →
          plan o loaded = .ok (settings, format) →
          (s.node? root).run t = (some .directory, t) →
          ∃ outcome, (run s (.analyze o)).run t = (outcome, t)
            ∧ ((format = .json → a.diagram.HasTextPaths) →
              (outcome.exitCode = 1 ↔ a.failures ≠ [])
              ∧ (outcome.exitCode = 0 ↔ a.failures = []))
            ∧ (format = .json → ¬a.diagram.HasTextPaths →
              outcome = ⟨2, "", "Error: failed to serialize model: path contains invalid UTF-8 "
                ++ "characters\n"⟩)
            ∧ (outcome.exitCode = 1 → o.strict = true ∨ loaded.resolver.strict = true) := by
  have hcollect := collect_run h settings.project
  have hvalid := checkAll_taken settings.project root files
  have hrun := Analysis.run_of_valid settings.resolver hvalid
  refine ⟨taken settings.project root files, _, fun _ _ => mem_taken, pairwise_taken h.once,
    hcollect, hrun, Analysis.strict_of_failures_ne_nil, ?_, ?_, ?_⟩
  · intro e he l hl
    exact exists_taken_of_location he hl
  · intro σ' s' t' files' h' hsame
    rw [collect_run h', ← taken_congr h.once h'.once hsame]
    exact ⟨rfl, hrun⟩
  · intro o loaded format hpath hload hplan hnode
    subst hpath
    by_cases hwritable : format = .json →
        (Analysis.ofValid settings.resolver
          ((taken settings.project o.path files).flatMap (·.2))).diagram.HasTextPaths
    · obtain ⟨shown, hreport⟩ := report_of_writable (o := o) hrun hwritable
      refine ⟨_, run_of_report hload hplan hnode hcollect hreport, ?_, ?_, ?_⟩
      · intro _
        exact ⟨exitCode_eq_one_iff, exitCode_eq_zero_iff⟩
      · intro hjson hstray
        exact absurd (hwritable hjson) hstray
      · intro hone
        have hstrict := Analysis.strict_of_failures_ne_nil (exitCode_eq_one_iff.mp hone)
        rw [strict_of_plan hplan, Bool.or_eq_true] at hstrict
        exact hstrict
    · obtain ⟨hjson, hstray⟩ := Classical.not_imp.mp hwritable
      have hreport := report_of_stray (o := o) hrun hjson hstray
      exact ⟨_, run_of_report hload hplan hnode hcollect hreport,
        fun h => absurd h hwritable, fun _ _ => rfl, nofun⟩

/-- A project with a single file. -/
def house : FileTree :=
  .directory [("House.java", .file "class House { Room room; }".toUTF8)]

/-- The same project with one more file, which is no text. -/
def brokenHouse : FileTree :=
  .directory
    [("Broken.java", .file ⟨#[0xff]⟩), ("House.java", .file "class House { Room room; }".toUTF8)]

theorem isName_house : FileTree.IsName "House.java" := by
  unfold FileTree.IsName
  decide

theorem wellFormed_house : house.WellFormed :=
  .directory (by decide) (by simp [isName_house]) (by simp [FileTree.WellFormed.file])

theorem wellFormed_brokenHouse : brokenHouse.WellFormed := by
  have hname : FileTree.IsName "Broken.java" := by
    unfold FileTree.IsName
    decide
  exact .directory (by decide) (by simp [isName_house, hname])
    (by simp [FileTree.WellFormed.file])

/-- The project with the broken file has this file before those of the project without it. -/
theorem sourceFiles_brokenHouse :
    brokenHouse.sourceFiles = ⟨["Broken.java"], .ok ⟨#[0xff]⟩⟩ :: house.sourceFiles := by
  unfold brokenHouse house FileTree.sourceFiles
  simp only [FileTree.files, FileTree.filesOfEntries, List.map_cons, List.map_nil,
    List.cons_append, List.nil_append]

/-- The two projects differ in a file that is not taken. -/
theorem mem_brokenHouse_iff {file : SourceFile} {decls : List ClassDecl}
    (h : Takes {} "estate" file decls) :
    file ∈ brokenHouse.sourceFiles ↔ file ∈ house.sourceFiles := by
  have hne : file ≠ ⟨["Broken.java"], .ok ⟨#[0xff]⟩⟩ := by
    intro heq
    subst heq
    obtain ⟨-, -, text, htext, -⟩ := h
    have hnone : String.fromUTF8? ⟨#[0xff]⟩ = none := by decide
    rw [RawPath.fromUTF8?_eq_some_iff.mpr (Except.ok.inj htext)] at hnone
    cases hnone
  rw [sourceFiles_brokenHouse, List.mem_cons, or_iff_right hne]

/-- A file that is no text is added to a project: the analysis is the same as before, and the
command exits with 0. -/
theorem run_despite_broken_files_house :
    ∃ a outcome,
      Analysis.run {} ((collect FileTree.storage {} "estate").run
        (.directory [("estate", house)])).1 = .ok a
      ∧ Analysis.run {} ((collect FileTree.storage {} "estate").run
        (.directory [("estate", brokenHouse)])).1 = .ok a
      ∧ (run FileTree.storage (.analyze { path := "estate" })).run
        (.directory [("estate", brokenHouse)])
          = (outcome, .directory [("estate", brokenHouse)])
      ∧ outcome.exitCode = 0 := by
  have hbefore : Holds FileTree.storage (.directory [("estate", house)]) "estate"
      house.sourceFiles := FileTree.holds rfl wellFormed_house
  have hafter : Holds FileTree.storage (.directory [("estate", brokenHouse)]) "estate"
      brokenHouse.sourceFiles := FileTree.holds rfl wellFormed_brokenHouse
  obtain ⟨parts, a, -, -, hcollect, hrun, hfailures, -, hother, hcommand⟩ :=
    run_despite_broken_files FileTree.storage _ "estate" _ hafter {}
  obtain ⟨outcome, houtcome, hcodes, -, -⟩ :=
    hcommand { path := "estate" } {} .text rfl rfl rfl rfl
  refine ⟨a, outcome, ?_, ?_, houtcome, ?_⟩
  · exact (hother _ _ _ _ hbefore fun file decls => mem_brokenHouse_iff).2
  · rw [hcollect]
    exact hrun
  · refine (hcodes nofun).2.mpr (Classical.byContradiction fun hne => ?_)
    exact Bool.false_ne_true (hfailures hne)

/-! ### An analysis that cannot be shown -/

/-- A name that is no text. -/
def strayName : RawPath :=
  ⟨[0xff]⟩ ++ ".java"

/-- A class with a field of a type that nobody declares. -/
def hubText : String :=
  "class Hub \x7b Room room; \x7d"

/-- A project with this class in a file of that name. -/
def strayHub : FileTree :=
  .directory [(strayName, .file hubText.toUTF8)]

/-- What is declared in the file. -/
def hubDecls : List ClassDecl :=
  Java.declarations (placeOf "estate" [strayName]) hubText

/-- The class is well formed. -/
theorem checkAll_hubDecls : Validation.checkAll hubDecls = .ok () := by
  decide +kernel

/-- It is collected in spite of the name of its file. -/
theorem collect_strayHub :
    (collect FileTree.storage {} "estate").run (.directory [("estate", strayHub)])
      = (hubDecls, .directory [("estate", strayHub)]) := by
  have hname : FileTree.IsName strayName := by
    unfold FileTree.IsName
    decide
  have hformed : strayHub.WellFormed :=
    .directory (by decide) (by simp [hname]) (by simp [FileTree.WellFormed.file])
  have hfiles : strayHub.sourceFiles = [⟨[strayName], .ok hubText.toUTF8⟩] := by
    unfold strayHub FileTree.sourceFiles
    simp only [FileTree.files, FileTree.filesOfEntries, List.map_cons, List.map_nil,
      List.append_nil]
  have hsource : isSource {} "estate" [strayName] = true := by decide +kernel
  have hdeclared : declared? "estate" ⟨[strayName], .ok hubText.toUTF8⟩ = some hubDecls := by
    rw [declared?_of_content, declarations?_eq_some_iff]
    exact ⟨hubText, rfl, rfl, checkAll_hubDecls⟩
  have htaken : taken {} "estate" strayHub.sourceFiles = [([strayName], hubDecls)] := by
    unfold taken sources
    rw [hfiles, List.filter_singleton, hsource]
    dsimp only [cond_true]
    rw [List.mergeSort_singleton, List.filterMap_cons, hdeclared]
    rfl
  rw [collect_run (FileTree.holds rfl hformed), htaken, List.flatMap_singleton]

open Analysis in
/-- Nothing is known about the type of the field. -/
theorem isUnresolvable_room :
    (scopeOf { strict := true } (kept hubDecls)).isUnresolvable "Room" = true := by
  have hnames : (TypeTable.ofDeclarations (kept hubDecls) { strict := true }).names = ["Hub"] := by
    decide +kernel
  have hlookup : (TypeTable.ofDeclarations (kept hubDecls) { strict := true }).lookup "Room"
      = none := by
    rw [TypeTable.lookup_eq_resolveSuffix (TypeTable.firstIndexed_ofDeclarations _ _), hnames]
    decide
  unfold scopeOf Scope.isUnresolvable
  dsimp only
  rw [hlookup]
  decide +kernel

open Analysis in
/-- So the class fails. -/
theorem failures_hubDecls : (ofValid { strict := true } hubDecls).failures ≠ [] := by
  have hunambiguous : ∀ d ∈ hubDecls, ∀ t ∈ d.types, t.Unambiguous := by decide +kernel
  have hroom : ∃ d ∈ kept hubDecls, ∃ t ∈ d.required,
      t.Unambiguous ∧ t.signature = (TypeRef.plain "Room").signature := by decide +kernel
  have hplain : (TypeRef.plain "Room").Unambiguous := by decide
  obtain ⟨d, hd, t, ht, hunambiguousType, hwritten⟩ := hroom
  have hroomType : t = .plain "Room" :=
    TypeRef.eq_of_signature_eq hunambiguousType hplain hwritten
  intro hnone
  have hcomplete := (ofValid_isComplete_iff { strict := true } hunambiguous).mp
    (List.isEmpty_iff.mpr hnone)
  obtain ⟨r, hr⟩ := hcomplete d hd t ht
  rw [hroomType] at hr
  exact Scope.resolve_ne_ok_of_isUnresolvable rfl isUnresolvable_room [] r hr

open Analysis in
/-- And its box stands in a file whose path is no text. -/
theorem not_hasTextPaths_hubDecls (settings : ResolverSettings) :
    ¬(ofValid settings hubDecls).diagram.HasTextPaths := by
  have hbox : ∃ d ∈ kept hubDecls, ∃ l ∈ d.location, ¬l.file.IsText := by decide +kernel
  obtain ⟨d, hd, l, hl, hstray⟩ := hbox
  intro hpaths
  refine hstray (hpaths d.entity ?_ l hl)
  rw [ofValid_entities]
  exact List.mem_append_left _ (List.mem_map_of_mem hd)

/-- The exit code does not always tell whether there are failures: the document of this class
is asked for, and the analysis succeeds with a failure, but the command exits with 2. -/
theorem exitCode_strayHub :
    ∃ a outcome,
      Analysis.run { strict := true } ((collect FileTree.storage {} "estate").run
        (.directory [("estate", strayHub)])).1 = .ok a
      ∧ a.failures ≠ []
      ∧ (run FileTree.storage
          (.analyze { path := "estate", format := some .json, strict := true })).run
        (.directory [("estate", strayHub)]) = (outcome, .directory [("estate", strayHub)])
      ∧ outcome.exitCode = 2 := by
  have hrun := Analysis.run_of_valid { strict := true } checkAll_hubDecls
  have hreport : report { path := "estate", format := some .json, strict := true }
      { resolver := { strict := true } } .json hubDecls = .error .unwritable :=
    report_of_stray hrun rfl (not_hasTextPaths_hubDecls _)
  have hload : (loadSettings FileTree.storage
      { path := "estate", format := some .json, strict := true }).run
        (.directory [("estate", strayHub)]) = (.ok {}, .directory [("estate", strayHub)]) := rfl
  have hplan : plan { path := "estate", format := some .json, strict := true } {}
      = .ok ({ resolver := { strict := true } }, .json) := rfl
  have hnode : (FileTree.storage.node? "estate").run (.directory [("estate", strayHub)])
      = (some .directory, .directory [("estate", strayHub)]) := rfl
  have houtcome := run_of_report hload hplan hnode collect_strayHub hreport
  have hcollected : ((collect FileTree.storage {} "estate").run
      (.directory [("estate", strayHub)])).1 = hubDecls := by
    rw [collect_strayHub]
  refine ⟨_, _, ?_, failures_hubDecls, houtcome, rfl⟩
  rw [hcollected, hrun]

end ClassDiagram.Command
