import ClassDiagram.Glob.Parser
import ClassDiagram.Java.Grammar
import ClassDiagram.Project.Path
import ClassDiagram.Project.Storage
import ClassDiagram.Settings
import ClassDiagram.Validation

/-!
# The sources of a project

Which files of a project are analysed, and what they declare. A file is a source when its
name has the right extension and no exclude pattern describes its path below the analysed
directory. Sources are taken in ascending order of their paths, compared component by
component, whatever order the storage lists them in.

A file that is no text, or that declares anything malformed, is passed over as a whole and
does not touch the others. So whatever is collected is well formed.
-/

namespace ClassDiagram.Sources

/-- The patterns of a project; what is no pattern is passed over. -/
def patterns (settings : ProjectSettings) : List Glob :=
  settings.excludePatterns.filterMap Glob.parse?

/-- Whether a path, given by its components, names a Java file; `root` is the path of the
directory it starts from. -/
def isJava (root : RawPath) (path : List RawPath) : Bool :=
  let name := path.getLast?.getD ((Path.components root).getLast?.getD "")
  Path.extension? name == some "java"

/-- Whether one of the patterns describes a path. -/
def isExcluded (excluded : List Glob) (path : List RawPath) : Bool :=
  excluded.any fun g => g.matches? (Path.joinNames path).bytes

/-- The sources among the files below `root`, in ascending order. -/
def select (excluded : List Glob) (root : RawPath) (files : List (List RawPath)) :
    List (List RawPath) :=
  (files.filter fun path => isJava root path && !isExcluded excluded path).mergeSort Path.le

/-- What a file declares, if it is text and everything in it is well formed; `place` is the
path that locations name. -/
def declarations? (place : RawPath) (bytes : ByteArray) : Option (List ClassDecl) := do
  let text ← String.fromUTF8? bytes
  let decls := Java.declarations place text
  match Validation.checkAll decls with
  | .ok () => return decls
  | .error _ => none

/-- The declarations of the files that have any, in the order of the files. -/
def gather (files : List (RawPath × ByteArray)) : List ClassDecl :=
  files.flatMap fun (place, bytes) => (declarations? place bytes).getD []

/-- The path by which a source below `root` is read and located. -/
def placeOf (root : RawPath) (path : List RawPath) : RawPath :=
  if path.isEmpty then root else Path.join root (Path.joinNames path)

variable {m : Type → Type} [Monad m]

/-- The sources below `root`. -/
def list (s : Storage m) (settings : ProjectSettings) (root : RawPath) :
    m (List (List RawPath)) := do
  return select (patterns settings) root (← s.filesBelow root)

/-- The declarations of the sources below `root`. Sources that cannot be read are passed
over. -/
def collect (s : Storage m) (settings : ProjectSettings) (root : RawPath) :
    m (List ClassDecl) := do
  let paths ← list s settings root
  let files ← paths.filterMapM fun path => do
    let place := placeOf root path
    return (← s.read place).toOption.map fun bytes => (place, bytes)
  return gather files

end ClassDiagram.Sources
