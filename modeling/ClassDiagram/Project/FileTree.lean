import ClassDiagram.Project.Path
import ClassDiagram.Project.Storage

/-!
# Trees of files

Files and directories held in memory. A path is followed from the top of the tree one part
at a time: an empty part or a dot stays, two dots go up, and a name goes down; each of them
asks for a directory to stand in. The entries of a directory keep the order in which they
were made.
-/

namespace ClassDiagram

/-- A file, or a directory with named entries. -/
inductive FileTree where
  | file (bytes : ByteArray)
  | directory (entries : List (RawPath × FileTree))
  deriving Inhabited

namespace FileTree

/-- The tree with nothing in it. -/
def empty : FileTree :=
  .directory []

/-- What a tree is. -/
def node : FileTree → Node
  | .file _ => .file
  | .directory _ => .directory

/-- The entry of that name. -/
def child? (name : RawPath) : FileTree → Option FileTree
  | .file _ => none
  | .directory entries => entries.lookup name

/-- The list with the value of a key replaced, or with the key added at its end. -/
def replaceEntry (name : RawPath) (t : FileTree) :
    List (RawPath × FileTree) → List (RawPath × FileTree)
  | [] => [(name, t)]
  | (n, old) :: rest =>
    if n == name then (name, t) :: rest else (n, old) :: replaceEntry name t rest

/-- The tree at the end of a list of names. -/
def get? : FileTree → List RawPath → Option FileTree
  | t, [] => some t
  | t, name :: path => (t.child? name).bind fun below => below.get? path

/-- The tree with `leaf` put at the end of a list of names, under directories that are made
where they are missing. A file takes the place of a file only, and a directory joins the one
already there. -/
def put? (leaf : FileTree) : List RawPath → FileTree → Option FileTree
  | [], .file _ => match leaf with
    | .file bytes => some (.file bytes)
    | .directory _ => none
  | [], .directory entries => match leaf with
    | .file _ => none
    | .directory _ => some (.directory entries)
  | _ :: _, .file _ => none
  | name :: path, .directory entries => do
    let below ← match entries.lookup name with
      | some t => put? leaf path t
      | none => match path with
        | [] => some leaf
        | _ :: _ => put? leaf path empty
    return .directory (replaceEntry name below entries)

/-- Follows the parts of a path; `place` is where they start, its last name first. -/
def follow (t : FileTree) (place : List RawPath) :
    List RawPath → Except Fault (List RawPath)
  | [] => .ok place
  | part :: rest =>
    match t.get? place.reverse with
    | none => .error .notFound
    | some (.file _) => .error .notADirectory
    | some (.directory entries) =>
      if part == "" || part == "." then t.follow place rest
      else if part == ".." then t.follow place.tail rest
      else if (entries.lookup part).isSome then t.follow (part :: place) rest
      else .error .notFound

/-- The names from the top to what a path leads to. -/
def resolve (t : FileTree) (path : RawPath) : Except Fault (List RawPath) :=
  (t.follow [] (Path.parts path)).map List.reverse

/-- What a path leads to. -/
def lookup (t : FileTree) (path : RawPath) : Except Fault FileTree := do
  match t.get? (← t.resolve path) with
  | some found => return found
  | none => throw .notFound

/-- The bytes of the file at a path. -/
def read (t : FileTree) (path : RawPath) : Except Fault ByteArray := do
  match ← t.lookup path with
  | .file bytes => return bytes
  | .directory _ => throw .isDirectory

/-- The tree with a file written at a path, in a directory that exists. -/
def write (t : FileTree) (path : RawPath) (bytes : ByteArray) : Except Fault FileTree :=
  match (Path.parts path).reverse with
  | [] => .error .notFound
  | name :: above => do
    match t.lookup path with
    | .ok (.directory _) => throw .isDirectory
    | _ => pure ()
    let place ← t.follow [] above.reverse
    match put? (.file bytes) (name :: place).reverse t with
    | some t => return t
    | none => throw .notADirectory

mutual

/-- The files of a tree with the names that lead to them. -/
def files : FileTree → List (List RawPath × ByteArray)
  | .file bytes => [([], bytes)]
  | .directory entries => filesOfEntries entries

/-- The files of the entries of a directory. -/
def filesOfEntries : List (RawPath × FileTree) → List (List RawPath × ByteArray)
  | [] => []
  | (name, t) :: rest =>
    (t.files.map fun (path, bytes) => (name :: path, bytes)) ++ filesOfEntries rest

end

/-- A tree of files as a storage. -/
def storage : Storage (StateM FileTree) where
  node? path := do
    return ((← get).lookup path).toOption.map node
  canonical? path := do
    return ((← get).resolve path).toOption.map (Path.render true)
  read path := do
    return (← get).read path
  write path bytes := do
    match (← get).write path bytes with
    | .ok t => set t; return .ok ()
    | .error fault => return .error fault
  filesBelow path := do
    match (← get).lookup path with
    | .ok t => return t.files.map (·.1)
    | .error _ => return []

end FileTree

end ClassDiagram
