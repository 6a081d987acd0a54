import Toolpath.Storage.Obstacle

/-!
# Paths

The names of files and directories as text, parted by slashes. A path is cut into pieces; as a
route it leads through directories to an entry of the last of them. Two points lead to the
directory above, wherever that is: what stands before them is not cut away.
-/

namespace Toolpath.Storage

structure Path where
  text : String
deriving DecidableEq

/-- The way that a path leads. -/
structure Route where
  /-- The directories on the way, two points among them. -/
  through : List String
  /-- What is named in the last directory, if not that directory itself. -/
  entry : Option String
  /-- Whether a slash follows, so that a directory is meant. -/
  slash : Bool

namespace Path

/-- The pieces of a text between slashes. -/
def pieces : List Char → List (List Char)
  | [] => [[]]
  | c :: cs =>
    if c = '/' then [] :: pieces cs
    else
      match pieces cs with
      | [] => [[c]]
      | first :: rest => (c :: first) :: rest

/-- Doubled slashes and single points name nothing. -/
def isIdle (piece : List Char) : Bool := piece.isEmpty || piece == ['.']

/-- The names on the way, from the outermost on. -/
def names (p : Path) : List String :=
  ((pieces p.text.toList).filter (!isIdle ·)).map String.ofList

/-- The pieces with slashes between them. -/
def ofPieces (ps : List (List Char)) : Path := ⟨String.ofList (['/'].intercalate ps)⟩

/-- The path without its last name, if it has more than one. A piece at its start stays. -/
def parent? (p : Path) : Option Path :=
  match pieces p.text.toList with
  | [] => none
  | first :: rest =>
    match rest.reverse.dropWhile isIdle with
    | [] => none
    | _ :: above =>
      match (above.dropWhile isIdle).reverse with
      | [] => some (if first.isEmpty then ⟨"/"⟩ else ofPieces [first])
      | middle => some (ofPieces (first :: middle))

/-- What follows the last point of a name; a point at its start opens no extension. -/
def extensionOf (name : List Char) : Option (List Char) :=
  let back := name.reverse
  let extension := back.takeWhile (· != '.')
  match back.dropWhile (· != '.') with
  | '.' :: stem => if stem.isEmpty || name == ['.', '.'] then none else some extension.reverse
  | _ => none

def extension? (p : Path) : Option String :=
  (p.names.getLast?.bind fun n => extensionOf n.toList).map String.ofList

/-- A path below another; one that begins at the root stands for itself. -/
def join (p : Path) (name : String) : Path :=
  if name.toList.head? == some '/' then ⟨name⟩
  else
    match p.text.toList.getLast? with
    | none | some '/' => ⟨p.text ++ name⟩
    | some _ => ⟨p.text ++ "/" ++ name⟩

/-- How many bytes a path may have. -/
def mostBytes : Nat := 4095

/-- The directories on the way and the last name, which is missing if the path ends in points. -/
def cut (ps : List (List Char)) : List (List Char) × Option (List Char) :=
  match ps.reverse with
  | [] => ([], none)
  | last :: above =>
    if last == ['.'] || last == ['.', '.'] then (ps, none) else (above.reverse, some last)

/-- The way that a path leads, if it is a path that the system takes. -/
def route (p : Path) : Except Obstacle Route :=
  if p.text.toList.contains '\x00' then .error .notName
  else if p.text.isEmpty then .error .notFound
  else if mostBytes < p.text.utf8ByteSize then .error .nameTooLong
  else
    let all := pieces p.text.toList
    let (through, last) := cut (all.filter (!·.isEmpty))
    .ok {
      through := (through.filter (!isIdle ·)).map String.ofList
      entry := last.map String.ofList
      slash := all.getLast? == some [] }

end Path

end Toolpath.Storage
