import Toolpath.Storage.Path

/-!
# Trees of files

The part of a file system that settings are kept in. An operation follows the route of a path
directory by directory, and refuses with the system's reason what it cannot do.
-/

namespace Toolpath.Storage

inductive Tree where
  | file (bytes : ByteArray)
  | directory (entries : List (String × Tree))

namespace Tree

/-- The entries with the one of a name replaced, or with a new one at the end. -/
def put (entries : List (String × Tree)) (name : String) (t : Tree) : List (String × Tree) :=
  match entries with
  | [] => [(name, t)]
  | (n, u) :: rest => if n == name then (name, t) :: rest else (n, u) :: put rest name t

@[simp] theorem lookup_put_self (entries : List (String × Tree)) (name : String) (t : Tree) :
    (put entries name t).lookup name = some t := by
  induction entries with
  | nil => simp [put]
  | cons e rest ih =>
    obtain ⟨n, u⟩ := e
    by_cases h : n = name
    · simp [put, h]
    · simp [put, h, List.lookup_cons, beq_false_of_ne (Ne.symm h), ih]

theorem lookup_put_of_ne {entries : List (String × Tree)} {n name : String} (t : Tree)
    (h : n ≠ name) : (put entries name t).lookup n = entries.lookup n := by
  induction entries with
  | nil => simp [put, List.lookup_cons, beq_false_of_ne h]
  | cons e rest ih =>
    obtain ⟨m, u⟩ := e
    by_cases hm : m = name
    · subst hm
      simp [put, List.lookup_cons, beq_false_of_ne h]
    · simp [put, hm, List.lookup_cons, ih]

/-- What is found by going down through entries. -/
def find : Tree → List String → Except Obstacle Tree
  | t, [] => .ok t
  | .file _, _ :: _ => .error .notDirectory
  | .directory entries, name :: path =>
    match entries.lookup name with
    | some t => t.find path
    | none => .error .notFound

/-- The tree with the entries of one directory changed, where there is such a directory. -/
def alter (f : List (String × Tree) → List (String × Tree)) : Tree → List String → Tree
  | .file bytes, _ => .file bytes
  | .directory entries, [] => .directory (f entries)
  | .directory entries, name :: path =>
    match entries.lookup name with
    | some t => .directory (put entries name (alter f t path))
    | none => .directory entries

/-- How many bytes a name may have. -/
def mostBytes : Nat := 255

/-- What is named in the directory `here`. -/
def entry (t : Tree) (here : List String) (name : String) : Except Obstacle Tree :=
  if mostBytes < name.utf8ByteSize then .error .nameTooLong else t.find (here ++ [name])

/-- The directory that is reached from `here` on. The root lies above itself. -/
def reach (t : Tree) (here : List String) : List String → Except Obstacle (List String)
  | [] => .ok here
  | name :: path =>
    if name = ".." then t.reach here.dropLast path
    else
      match t.entry here name with
      | .ok (.directory _) => t.reach (here ++ [name]) path
      | .ok (.file _) => .error .notDirectory
      | .error o => .error o

/-- The bytes of a file. -/
def read (t : Tree) (p : Path) : Except Obstacle ByteArray := do
  let r ← p.route
  let here ← t.reach [] r.through
  match r.entry with
  | none => .error .isDirectory
  | some name =>
    match ← t.entry here name with
    | .directory _ => .error .isDirectory
    | .file bytes => if r.slash then .error .notDirectory else .ok bytes

/-- Writes a file in a directory that is there. -/
def write (t : Tree) (p : Path) (bytes : ByteArray) : Except Obstacle Tree := do
  let r ← p.route
  let here ← t.reach [] r.through
  match r.entry with
  | none => .error .isDirectory
  | some name =>
    if r.slash then .error .isDirectory
    else
      match t.entry here name with
      | .ok (.directory _) => .error .isDirectory
      | .ok (.file _) | .error .notFound => .ok (t.alter (put · name (.file bytes)) here)
      | .error o => .error o

/-- Removes a file. -/
def delete (t : Tree) (p : Path) : Except Obstacle Tree := do
  let r ← p.route
  let here ← t.reach [] r.through
  match r.entry with
  | none => .error .isDirectory
  | some name =>
    match ← t.entry here name with
    | .directory _ => .error .isDirectory
    | .file _ =>
      if r.slash then .error .notDirectory
      else .ok (t.alter (·.filter (·.1 != name)) here)

/-- Makes one directory at the end of a way. -/
def makeDirectory (t : Tree) (through : List String) (name : String) : Except Obstacle Tree := do
  let here ← t.reach [] through
  if name = ".." then .error .exists
  else
    match t.entry here name with
    | .ok _ => .error .exists
    | .error .notFound => .ok (t.alter (put · name (.directory [])) here)
    | .error o => .error o

/-- Makes a directory, or is content with one that is there. -/
def ensureDirectory (t : Tree) (through : List String) (name : String) : Except Obstacle Tree :=
  match t.makeDirectory through name with
  | .ok t => .ok t
  | .error o =>
    match t.reach [] (through ++ [name]) with
    | .ok _ => .ok t
    | .error _ => .error o

/-- Makes a directory, given with the innermost name first, and before it those above it if they
are missing. The tree is what is left, also if the last directory is not made. -/
def ensureAll (t : Tree) : List String → Tree × Except Obstacle Unit
  | [] => (t, .ok ())
  | name :: above =>
    match t.ensureDirectory above.reverse name with
    | .ok t => (t, .ok ())
    | .error .notFound =>
      match t.ensureAll above with
      | (t, .ok ()) =>
        match t.ensureDirectory above.reverse name with
        | .ok t => (t, .ok ())
        | .error o => (t, .error o)
      | failed => failed
    | .error o => (t, .error o)

/-- Makes the directories of a path that are missing. A file in the way is an obstacle: at the end
of the path because it exists, before it because it is no directory. -/
def makeDirectories (t : Tree) (p : Path) : Tree × Except Obstacle Unit :=
  match p.route with
  | .error o => (t, .error o)
  | .ok r => t.ensureAll (r.through ++ r.entry.toList).reverse

end Tree

/-- What reading a path gives. -/
abbrev Source := Path → Except Obstacle ByteArray

namespace Source

def ofTree (t : Tree) : Source := t.read

/-- Whether a path leads to anything. -/
def holds (s : Source) (p : Path) : Bool :=
  match s p with
  | .error .notFound | .error .notDirectory | .error .nameTooLong | .error .notName => false
  | _ => true

/-- The text of a file. -/
def text (s : Source) (p : Path) : Except Obstacle String :=
  match s p with
  | .error o => .error o
  | .ok bytes =>
    match String.fromUTF8? bytes with
    | some text => .ok text
    | none => .error .notText

end Source

end Toolpath.Storage
