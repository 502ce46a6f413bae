/-!
# Path patterns

A pattern is a list of pieces and describes a set of paths, seen as bytes; the whole path
has to be described. A piece is read off the front of a path in every possible way, so its
meaning is the list of what can be left after it, and a path matches when nothing may be
left after the last piece.

Only the three `**` pieces know about the slash between components. The wild pieces for one
byte and for a run of bytes also stand for a slash.
-/

namespace ClassDiagram

/-- A piece of a path pattern. -/
inductive Glob.Piece where
  /-- A character that stands for itself. -/
  | literal (c : Char)
  /-- Any one byte. -/
  | anyByte
  /-- Any run of bytes. -/
  | anyRun
  /-- Any number of leading directories. -/
  | leadingDirectories
  /-- A slash, or two slashes with directories between them. -/
  | innerDirectories
  /-- A slash and everything after it. -/
  | everythingBelow
  /-- One byte from the ranges, or one from none of them. -/
  | oneOf (negated : Bool) (ranges : List (Char × Char))
  /-- One of several patterns. -/
  | alternatives (branches : List (List Glob.Piece))
  deriving Inhabited, Repr

/-- A path pattern. -/
structure Glob where
  pieces : List Glob.Piece
  deriving Inhabited, Repr

namespace Glob

/-- The bytes of a character in UTF-8. -/
def bytesOf (c : Char) : List UInt8 :=
  c.toString.toUTF8.toList

/-- The slash between components. -/
def slash : UInt8 :=
  47

/-- What is left when a run of bytes of any length is taken off the front. -/
def afterAnyRun : List UInt8 → List (List UInt8)
  | [] => [[]]
  | b :: rest => (b :: rest) :: afterAnyRun rest

/-- What is left when everything up to some slash, the slash included, is taken off. -/
def afterSlashes : List UInt8 → List (List UInt8)
  | [] => []
  | b :: rest => if b = slash then rest :: afterSlashes rest else afterSlashes rest

/-- What is left when the given bytes are taken off the front. -/
def afterBytes : List UInt8 → List UInt8 → Option (List UInt8)
  | [], path => some path
  | _ :: _, [] => none
  | e :: expected, b :: path => if e = b then afterBytes expected path else none

/-- The byte ranges that a range of characters stands for. Bytes are matched one at a time,
so of a character of several bytes each byte counts by itself, and a dash joins the last
byte before it to the first byte after it. -/
def byteRanges : Char × Char → List (UInt8 × UInt8)
  | (low, high) =>
    if low = high then (bytesOf low).map fun b => (b, b)
    else
      let before := bytesOf low
      let after := bytesOf high
      before.dropLast.map (fun b => (b, b))
        ++ [(before.getLastD 0, after.headD 0)]
        ++ after.tail.map fun b => (b, b)

/-- Whether a byte lies in one of the ranges. -/
def inRanges (ranges : List (Char × Char)) (b : UInt8) : Bool :=
  (ranges.flatMap byteRanges).any fun (low, high) => low ≤ b && b ≤ high

/-- The endings of one path, each kept once; endings of a path are told apart by their
lengths. -/
def distinct (endings : List (List UInt8)) : List (List UInt8) :=
  endings.foldr (fun e kept =>
    if kept.any (fun k => k.length == e.length) then kept else e :: kept) []

mutual

/-- Whether a piece is a choice between nothing at all. -/
def Piece.isVoid : Piece → Bool
  | .alternatives branches => allVoid branches
  | _ => false

/-- Whether every piece of a pattern is void. -/
def isVoidPattern : List Piece → Bool
  | [] => true
  | p :: rest => p.isVoid && isVoidPattern rest

/-- Whether every branch is void. -/
def allVoid : List (List Piece) → Bool
  | [] => true
  | branch :: rest => isVoidPattern branch && allVoid rest

end

mutual

/-- What can be left of a path after a piece. Void branches of a choice are left out, and a
choice between nothing takes nothing. -/
def Piece.after : Piece → List UInt8 → List (List UInt8)
  | .literal c, path => (afterBytes (bytesOf c) path).toList
  | .anyByte, path => path.tail?.toList
  | .anyRun, path => afterAnyRun path
  | .leadingDirectories, path =>
    distinct (path :: (afterBytes [slash] path).toList ++ afterSlashes path)
  | .innerDirectories, path =>
    match afterBytes [slash] path with
    | some rest => rest :: afterSlashes rest
    | none => []
  | .everythingBelow, path =>
    match afterBytes [slash] path with
    | some rest => afterAnyRun rest
    | none => []
  | .oneOf negated ranges, path =>
    match path with
    | b :: rest => if inRanges ranges b != negated then [rest] else []
    | [] => []
  | .alternatives branches, path =>
    if allVoid branches then [path] else distinct (afterBranches branches path)

/-- What can be left of a path after a pattern. -/
def afterPattern : List Piece → List (List UInt8) → List (List UInt8)
  | [], paths => paths
  | p :: rest, paths => afterPattern rest (distinct (paths.flatMap p.after))

/-- What can be left of a path after one of the branches that are not void. -/
def afterBranches : List (List Piece) → List UInt8 → List (List UInt8)
  | [], _ => []
  | branch :: rest, path =>
    let others := afterBranches rest path
    if isVoidPattern branch then others else afterPattern branch [path] ++ others

end

/-- Whether a pattern describes the bytes of a path. Leading directories alone describe every
path. -/
def matches? (g : Glob) (path : List UInt8) : Bool :=
  match g.pieces with
  | [.leadingDirectories] => true
  | pieces => (afterPattern pieces [path]).any List.isEmpty

end Glob

end ClassDiagram
