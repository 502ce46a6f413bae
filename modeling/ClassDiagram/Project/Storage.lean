import ClassDiagram.RawPath

/-!
# Storage

What the program asks of the place where files are kept. The program is written against
this interface, so that it runs the same way on the files of a machine and on a tree of
files held in memory.
-/

namespace ClassDiagram

/-- Why a file could not be read or written. -/
inductive Fault where
  | notFound
  | isDirectory
  | notADirectory
  /-- The bytes are no text. -/
  | notText
  /-- Anything else, in the words of the storage. -/
  | other (reason : String)
  deriving DecidableEq, Inhabited, Repr

/-- The wording of a fault. -/
def Fault.message : Fault → String
  | .notFound => "No such file or directory (os error 2)"
  | .isDirectory => "Is a directory (os error 21)"
  | .notADirectory => "Not a directory (os error 20)"
  | .notText => "stream did not contain valid UTF-8"
  | .other reason => reason

/-- What a path may lead to. -/
inductive Node where
  | file
  | directory
  deriving DecidableEq, Inhabited, Repr

/-- A place where files are kept. -/
structure Storage (m : Type → Type) where
  /-- What a path leads to, if anything. -/
  node? : RawPath → m (Option Node)
  /-- The path, from the top and without detours, of what a path leads to. -/
  canonical? : RawPath → m (Option RawPath)
  /-- The bytes of a file. -/
  read : RawPath → m (Except Fault ByteArray)
  /-- Replaces the bytes of a file, or makes a new one. -/
  write : RawPath → ByteArray → m (Except Fault Unit)
  /-- Every file below a directory, each once and in any order, as the components of its
  path from there. A file is below itself, with no components. -/
  filesBelow : RawPath → m (List (List RawPath))

namespace Storage

variable {m : Type → Type} [Monad m]

/-- The text of a file. -/
def readText (s : Storage m) (path : RawPath) : m (Except Fault String) := do
  match ← s.read path with
  | .error fault => return .error fault
  | .ok bytes =>
    match String.fromUTF8? bytes with
    | some text => return .ok text
    | none => return .error .notText

end Storage

end ClassDiagram
