import ClassDiagram.Project.FileTree
import ClassDiagram.Project.Sources
import Mathlib.Data.List.Nodup

/-!
# The files that a storage holds

`Sources.Holds` says what is expected of a storage where the sources of a project are
collected: below the analysed directory it lists every file once, in whatever order, and a file
that is read under the path made of the directory's and its own (`Sources.placeOf`) gives its
content.

A tree of files in memory keeps this promise (`FileTree.holds`), provided that the entries of
its directories have names and no two of them the same (`FileTree.WellFormed`). The paths in
question are made by joining names to the path of the directory and are then taken apart
again; that nothing is lost on the way is `follow_join`.
-/

namespace ClassDiagram

namespace Path

open RawPath (slash)

/-- There is always a part, if only an empty one. -/
theorem split_ne_nil (bs : List UInt8) : split bs ≠ [] := by
  cases bs with
  | nil => exact List.cons_ne_nil _ _
  | cons b bs =>
    unfold split
    split
    · exact List.cons_ne_nil _ _
    · split
      · exact List.cons_ne_nil _ _
      · exact List.cons_ne_nil _ _

/-- A slash is where parts end, whatever stands around it. -/
theorem split_append_slash (as bs : List UInt8) :
    split (as ++ slash :: bs) = split as ++ split bs := by
  induction as with
  | nil => rfl
  | cons a as ih =>
    rw [List.cons_append, split, split, ih]
    by_cases ha : a = slash
    · rw [if_pos ha, if_pos ha]
      rfl
    · rw [if_neg ha, if_neg ha]
      cases has : split as with
      | nil => exact absurd has (split_ne_nil as)
      | cons part parts => rfl

/-- Without a slash there is one part. -/
theorem split_of_not_mem {bs : List UInt8} (h : slash ∉ bs) : split bs = [bs] := by
  induction bs with
  | nil => rfl
  | cons b bs ih =>
    rw [List.mem_cons, not_or] at h
    rw [split, if_neg (Ne.symm h.1), ih h.2]

/-- A slash between two paths keeps their parts apart. -/
theorem parts_append_slash (a b : RawPath) : parts (a ++ "/" ++ b) = parts a ++ parts b := by
  have hbytes : (a ++ ("/" : RawPath) ++ b).bytes = a.bytes ++ slash :: b.bytes := by
    show a.bytes ++ [slash] ++ b.bytes = _
    rw [List.append_assoc]
    rfl
  unfold parts
  rw [hbytes, split_append_slash, List.map_append]

/-- Names without slashes are the parts of the path that they make up. -/
theorem parts_joinNames {names : List RawPath} (hne : names ≠ [])
    (h : ∀ name ∈ names, slash ∉ name.bytes) : parts (joinNames names) = names := by
  have hone : ∀ name : RawPath, slash ∉ name.bytes → parts name = [name] := by
    intro name hname
    unfold parts
    rw [split_of_not_mem hname, List.map_singleton]
  induction names with
  | nil => exact absurd rfl hne
  | cons name rest ih =>
    cases rest with
    | nil => exact hone name (h name List.mem_cons_self)
    | cons next rest =>
      have hrest := ih (List.cons_ne_nil _ _) fun n hn => h n (List.mem_cons_of_mem _ hn)
      rw [joinNames, parts_append_slash, hone name (h name List.mem_cons_self), hrest]
      rfl

end Path

namespace FileTree

/-- A name that leads from a directory to one of its entries. -/
def IsName (name : RawPath) : Prop :=
  name ≠ "" ∧ name ≠ "." ∧ name ≠ ".." ∧ RawPath.slash ∉ name.bytes

/-- The entries of each directory have names, no two of them the same. -/
inductive WellFormed : FileTree → Prop
  | file (bytes : ByteArray) : WellFormed (.file bytes)
  | directory {entries : List (RawPath × FileTree)} (unique : (entries.map (·.1)).Nodup)
      (named : ∀ entry ∈ entries, IsName entry.1)
      (below : ∀ entry ∈ entries, WellFormed entry.2) : WellFormed (.directory entries)

variable {t sub : FileTree} {place path : List RawPath} {bytes : ByteArray}

theorem filesOfEntries_eq (entries : List (RawPath × FileTree)) :
    filesOfEntries entries = entries.flatMap fun entry =>
      entry.2.files.map fun file => (entry.1 :: file.1, file.2) := by
  induction entries with
  | nil => rfl
  | cons entry rest ih =>
    rw [filesOfEntries, List.flatMap_cons, ih]

theorem mem_files_directory {entries : List (RawPath × FileTree)} :
    (path, bytes) ∈ (FileTree.directory entries).files
      ↔ ∃ entry ∈ entries, ∃ rest, path = entry.1 :: rest ∧ (rest, bytes) ∈ entry.2.files := by
  rw [files, filesOfEntries_eq, List.mem_flatMap]
  refine exists_congr fun entry => and_congr_right fun _ => ?_
  rw [List.mem_map]
  constructor
  · intro h
    obtain ⟨⟨rest, bytes'⟩, hmem, heq⟩ := h
    cases heq
    exact ⟨rest, rfl, hmem⟩
  · intro h
    obtain ⟨rest, rfl, hmem⟩ := h
    exact ⟨(rest, bytes), hmem, rfl⟩

theorem lookup_of_mem {entries : List (RawPath × FileTree)} (h : (entries.map (·.1)).Nodup)
    {entry : RawPath × FileTree} (hmem : entry ∈ entries) :
    entries.lookup entry.1 = some entry.2 := by
  induction entries with
  | nil => cases hmem
  | cons first rest ih =>
    rw [List.map_cons, List.nodup_cons] at h
    rcases List.mem_cons.mp hmem with rfl | hrest
    · exact List.lookup_cons_self
    · have hne : entry.1 ≠ first.1 := fun heq => h.1 (heq ▸ List.mem_map_of_mem hrest)
      rw [List.lookup_cons, beq_eq_false_iff_ne.mpr hne]
      exact ih h.2 hrest

/-- A file that is listed is found where it is said to be. -/
theorem get?_of_mem_files (h : t.WellFormed) (hmem : (path, bytes) ∈ t.files) :
    t.get? path = some (.file bytes) ∧ ∀ name ∈ path, IsName name := by
  induction h generalizing path with
  | file bytes' =>
    rw [files, List.mem_singleton] at hmem
    cases hmem
    exact ⟨rfl, nofun⟩
  | @directory entries unique named _ ih =>
    obtain ⟨entry, hentry, rest, rfl, hrest⟩ := mem_files_directory.mp hmem
    obtain ⟨hget, hnames⟩ := ih entry hentry hrest
    refine ⟨?_, List.forall_mem_cons.mpr ⟨named entry hentry, hnames⟩⟩
    rw [get?, child?, lookup_of_mem unique hentry]
    exact hget

theorem map_fst_filesOfEntries (entries : List (RawPath × FileTree)) :
    (filesOfEntries entries).map (·.1) = entries.flatMap fun entry =>
      (entry.2.files.map (·.1)).map (entry.1 :: ·) := by
  rw [filesOfEntries_eq, List.map_flatMap]
  refine congrArg (fun f => List.flatMap f entries) (funext fun entry => ?_)
  rw [List.map_map, List.map_map]
  rfl

/-- Every file is listed once. -/
theorem nodup_files (h : t.WellFormed) : (t.files.map (·.1)).Nodup := by
  induction h with
  | file bytes => exact List.nodup_singleton _
  | @directory entries unique _ _ ih =>
    rw [files, map_fst_filesOfEntries, List.nodup_flatMap]
    constructor
    · intro entry hentry
      exact List.Nodup.map List.cons_injective (ih entry hentry)
    · -- paths below different entries differ in their first name
      refine (List.pairwise_map.mp unique).imp fun {a b} hab path ha hb => ?_
      obtain ⟨p, -, rfl⟩ := List.mem_map.mp ha
      obtain ⟨q, -, heq⟩ := List.mem_map.mp hb
      exact hab (List.cons.inj heq).1.symm

/-! ### Following paths -/

theorem get?_append (t : FileTree) (p q : List RawPath) :
    t.get? (p ++ q) = (t.get? p).bind fun sub => sub.get? q := by
  induction p generalizing t with
  | nil => rfl
  | cons name p ih =>
    rw [List.cons_append, get?, get?]
    cases t.child? name with
    | none => rfl
    | some below => exact ih below

theorem follow_append (t : FileTree) (place p q : List RawPath) :
    t.follow place (p ++ q) = (t.follow place p).bind fun place' => t.follow place' q := by
  induction p generalizing place with
  | nil => rfl
  | cons part p ih =>
    rw [List.cons_append, follow, follow]
    split
    · rfl
    · rfl
    · split
      · exact ih _
      · split
        · exact ih _
        · split
          · exact ih _
          · rfl

/-- Names lead down. -/
theorem follow_names (hplace : t.get? place.reverse = some sub)
    (hnames : ∀ name ∈ path, IsName name) {leaf : FileTree} (hleaf : sub.get? path = some leaf) :
    t.follow place path = .ok (path.reverse ++ place) := by
  induction path generalizing place sub with
  | nil => rfl
  | cons name path ih =>
    obtain ⟨⟨hempty, hdot, hdots, -⟩, hnames⟩ := List.forall_mem_cons.mp hnames
    cases sub with
    | file bytes => cases hleaf
    | directory entries =>
      rw [get?, child?] at hleaf
      obtain ⟨below, hbelow, hleaf⟩ := Option.bind_eq_some_iff.mp hleaf
      have hdown : t.get? (name :: place).reverse = some below := by
        rw [List.reverse_cons, get?_append, hplace]
        show (FileTree.directory entries).get? [name] = some below
        rw [get?, child?, hbelow]
        rfl
      have hstays : ¬(name == "" || name == ".") = true := by
        rw [Bool.or_eq_true, beq_iff_eq, beq_iff_eq, not_or]
        exact ⟨hempty, hdot⟩
      have hup : ¬(name == "..") = true := by
        rw [beq_iff_eq]
        exact hdots
      have hthere : (entries.lookup name).isSome = true := by
        rw [hbelow]
        rfl
      rw [follow, hplace]
      dsimp only
      rw [if_neg hstays, if_neg hup, if_pos hthere, ih hdown hnames hleaf, List.reverse_cons,
        List.append_assoc]
      rfl

theorem lookup_of_resolve {root : RawPath} {names : List RawPath} (h : t.resolve root = .ok names) :
    t.lookup root = (t.get? names).elim (.error .notFound) .ok := by
  unfold lookup
  rw [h]
  dsimp only [bind, Except.bind]
  cases t.get? names with
  | none => rfl
  | some found => rfl

theorem lookup_eq_ok_iff {root : RawPath} :
    t.lookup root = .ok sub
      ↔ ∃ place, t.follow [] (Path.parts root) = .ok place ∧ t.get? place.reverse = some sub := by
  cases hfollow : t.follow [] (Path.parts root) with
  | error fault =>
    unfold lookup resolve
    rw [hfollow]
    exact ⟨nofun, nofun⟩
  | ok place =>
    have hresolve : t.resolve root = .ok place.reverse := by
      unfold resolve
      rw [hfollow]
      rfl
    rw [lookup_of_resolve hresolve]
    constructor
    · intro h
      refine ⟨place, rfl, ?_⟩
      cases hget : t.get? place.reverse with
      | none =>
        rw [hget] at h
        cases h
      | some found =>
        rw [hget] at h
        exact congrArg some (Except.ok.inj h)
    · intro h
      obtain ⟨place', hplace, hget⟩ := h
      cases hplace
      rw [hget]
      rfl

/-- An empty part stays where it is, if that is a directory. -/
theorem follow_empty_part {place' : List RawPath} (h : t.follow place [""] = .ok place') :
    place' = place := by
  rw [follow] at h
  split at h
  · cases h
  · cases h
  · exact (Except.ok.inj h).symm

/-- Names joined to the path of a directory lead on from there. -/
theorem follow_join {root : RawPath} (hroot : t.follow [] (Path.parts root) = .ok place)
    (hne : path ≠ []) (hnames : ∀ name ∈ path, IsName name) :
    t.follow [] (Path.parts (Path.join root (Path.joinNames path))) = t.follow place path := by
  have hparts : Path.parts (Path.joinNames path) = path :=
    Path.parts_joinNames hne fun name hname => (hnames name hname).2.2.2
  unfold Path.join
  by_cases hempty : root = ""
  · subst hempty
    have hplace := follow_empty_part (show t.follow [] [""] = .ok place from hroot)
    have happend : ("" : RawPath) ++ Path.joinNames path = Path.joinNames path := rfl
    rw [if_pos (by rfl), happend, hparts, hplace]
  by_cases hslash : root.bytes.getLast? = some RawPath.slash
  · -- the last part of the root is empty, and the names take its place
    obtain ⟨front, hfront⟩ := List.getLast?_eq_some_iff.mp hslash
    have heq : root = ⟨front⟩ ++ ("/" : RawPath) := by
      show root = ⟨front ++ [RawPath.slash]⟩
      rw [← hfront]
    have hlast : Path.parts root = Path.parts ⟨front⟩ ++ [("" : RawPath)] := by
      have hsplit := Path.parts_append_slash ⟨front⟩ ⟨[]⟩
      have hend : (⟨front⟩ ++ "/" ++ ⟨[]⟩ : RawPath) = ⟨front⟩ ++ "/" := by
        show (⟨front ++ [RawPath.slash] ++ []⟩ : RawPath) = _
        rw [List.append_nil]
        rfl
      rw [hend, ← heq] at hsplit
      exact hsplit
    have hcond : (root == "" || root.bytes.getLast? == some RawPath.slash) = true := by
      rw [hslash, beq_self_eq_true, Bool.or_true]
    rw [hlast, follow_append] at hroot
    rw [if_pos hcond, heq, Path.parts_append_slash, hparts, follow_append]
    cases hfollow : t.follow [] (Path.parts ⟨front⟩) with
    | error fault =>
      rw [hfollow] at hroot
      cases hroot
    | ok place' =>
      rw [hfollow] at hroot
      rw [follow_empty_part hroot]
      rfl
  · have hcond : ¬(root == "" || root.bytes.getLast? == some RawPath.slash) = true := by
      rw [Bool.or_eq_true, beq_iff_eq, beq_iff_eq, not_or]
      exact ⟨hempty, hslash⟩
    rw [if_neg hcond, Path.parts_append_slash, hparts, follow_append, hroot]
    rfl

/-- A file that is listed below a path is read under that path. -/
theorem read_placeOf {root : RawPath} (hroot : t.lookup root = .ok sub) (h : sub.WellFormed)
    (hmem : (path, bytes) ∈ sub.files) : t.read (Sources.placeOf root path) = .ok bytes := by
  obtain ⟨hget, hnames⟩ := get?_of_mem_files h hmem
  obtain ⟨place, hplace, hsub⟩ := lookup_eq_ok_iff.mp hroot
  have hlookup : t.lookup (Sources.placeOf root path) = .ok (.file bytes) := by
    unfold Sources.placeOf
    by_cases hpath : path = []
    · subst hpath
      cases hget
      exact hroot
    · rw [if_neg (by rw [List.isEmpty_iff]; exact hpath), lookup_eq_ok_iff]
      refine ⟨path.reverse ++ place, ?_, ?_⟩
      · rw [follow_join hplace hpath hnames]
        exact follow_names hsub hnames hget
      · rw [List.reverse_append, List.reverse_reverse, get?_append, hsub]
        exact hget
  unfold read
  rw [hlookup]
  rfl

end FileTree

namespace Sources

/-- A file of a project: the names that lead to it from the analysed directory, and what
reading it gives. -/
structure SourceFile where
  path : List RawPath
  content : Except Fault ByteArray

/-- In the state `t`, the storage has these files below `root`: each is listed once, in any
order, and reading it gives its content. Looking changes nothing. -/
structure Holds {σ : Type} (s : Storage (StateM σ)) (t : σ) (root : RawPath)
    (files : List SourceFile) : Prop where
  walk : ∃ paths, (s.filesBelow root).run t = (paths, t)
    ∧ paths.Perm (files.map SourceFile.path)
  once : (files.map SourceFile.path).Nodup
  read : ∀ file ∈ files, (s.read (placeOf root file.path)).run t = (file.content, t)

theorem run_bind_of_run {σ α β : Type} {t : σ} {x : StateM σ α} {a : α} (h : x.run t = (a, t))
    (f : α → StateM σ β) : (x >>= f).run t = (f a).run t := by
  rw [StateT.run_bind, h]
  rfl

end Sources

namespace FileTree

open Sources

/-- The files of a tree, with what reading them gives. -/
def sourceFiles (t : FileTree) : List SourceFile :=
  t.files.map fun file => ⟨file.1, .ok file.2⟩

theorem map_path_sourceFiles (t : FileTree) :
    t.sourceFiles.map SourceFile.path = t.files.map (·.1) := by
  unfold sourceFiles
  rw [List.map_map]
  rfl

/-- **A tree of files holds what is in it.** -/
theorem holds {root : RawPath} (hroot : t.lookup root = .ok sub) (h : sub.WellFormed) :
    Holds storage t root sub.sourceFiles where
  walk := by
    refine ⟨sub.files.map (·.1), ?_, ?_⟩
    · have hget : (get : StateM FileTree FileTree).run t = (t, t) := rfl
      unfold storage
      dsimp only
      rw [run_bind_of_run hget, hroot]
      rfl
    · rw [map_path_sourceFiles]
  once := by
    rw [map_path_sourceFiles]
    exact nodup_files h
  read := by
    intro file hfile
    obtain ⟨⟨path, bytes⟩, hmem, rfl⟩ := List.mem_map.mp hfile
    show (t.read (placeOf root path), t) = _
    rw [read_placeOf hroot h hmem]

end FileTree

end ClassDiagram
