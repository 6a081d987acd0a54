/-!
# TOML values

The tree that a TOML text stands for. While the text is read, tables remember how they came to be
and lists whether a header may extend them, because that decides which later lines may add to them:
a header adds to what only longer headers have named, a dotted key adds to what only dotted keys
have made, and what stands between braces or brackets is closed.
-/

namespace Toolpath.Toml

/-- How a table came to be. -/
inductive Standing where
  /-- Between braces. -/
  | closed
  /-- Named on the way to another header. -/
  | implied
  /-- Named on the way to the last part of a key. -/
  | dotted
  /-- By a header of its own. -/
  | declared
deriving DecidableEq

inductive Value where
  | integer (i : Int)
  | real (x : Float)
  | boolean (b : Bool)
  | text (t : String)
  /-- A date, a time of day or both, as written. -/
  | moment (t : String)
  | list (extensible : Bool) (items : List Value)
  | table (standing : Standing) (entries : List (String × Value))

namespace Value

/-- A whole number from zero on. -/
def natural? : Value → Option Nat
  | .integer (.ofNat n) => some n
  | _ => none

/-- A number; an integer counts as a real one. -/
def real? : Value → Option Float
  | .integer i => some (Float.ofInt i)
  | .real x => some x
  | _ => none

end Value

/-- The entries of a table in the order they were first named. -/
abbrev Entries := List (String × Value)

namespace Entries

/-- The entries with the value at a key replaced. -/
def replace (entries : Entries) (key : String) (value : Value) : Entries :=
  entries.map fun e => if e.1 == key then (key, value) else e

end Entries

/-- Changes a table and may refuse to. -/
abbrev Change := Standing → Entries → Option Entries

namespace Change

/-- Whether a path may lead through a table. A dotted key may not lead into one with a header. -/
def passes (dotted : Bool) : Standing → Bool
  | .closed => false
  | .declared => !dotted
  | .implied | .dotted => true

/-- The change made to the table at the end of a path. Missing tables are added on the way, and
from a list that headers extend the path goes on in its last table. -/
def within (dotted : Bool) : (path : List String) → Change → Change
  | [], change => change
  | key :: path, change => fun _ entries =>
    let inner := within dotted path change
    match entries.lookup key with
    | none =>
      let standing := if dotted then Standing.dotted else .implied
      (inner standing []).map fun es => entries ++ [(key, .table standing es)]
    | some (.table standing es) =>
      if passes dotted standing then
        (inner standing es).map fun es => entries.replace key (.table standing es)
      else none
    | some (.list true items) =>
      match items.getLast? with
      | some (.table standing es) =>
        (inner standing es).map fun es =>
          entries.replace key (.list true (items.dropLast ++ [.table standing es]))
      | _ => none
    | some _ => none

/-- Adds an entry under a new key. -/
def add (key : String) (value : Value) : Change := fun _ entries =>
  if (entries.lookup key).isNone then some (entries ++ [(key, value)]) else none

/-- Adds an entry under a new key at the end of a path; a table that the path ends in must have
come from dotted keys. -/
def addAt (path : List String) (key : String) (value : Value) : Change :=
  if path.isEmpty then add key value
  else within true path fun standing entries =>
    if standing = .dotted then add key value standing entries else none

/-- Gives the table under a key a header of its own. -/
def declare (key : String) : Change := fun _ entries =>
  match entries.lookup key with
  | none => some (entries ++ [(key, .table .declared [])])
  | some (.table .implied es) => some (entries.replace key (.table .declared es))
  | some _ => none

/-- Adds an empty table to the list under a key. -/
def extend (key : String) : Change := fun _ entries =>
  match entries.lookup key with
  | none => some (entries ++ [(key, .list true [.table .declared []])])
  | some (.list true items) =>
    some (entries.replace key (.list true (items ++ [.table .declared []])))
  | some _ => none

end Change

end Toolpath.Toml
