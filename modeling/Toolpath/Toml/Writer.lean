import Toolpath.Toml.Scalar

/-!
# Writing TOML

A text made of sections of numbers: every section has a header, and a list stands on several lines.
-/

namespace Toolpath.Toml

/-- What is written behind a key. -/
inductive Plain where
  | integer (i : Int)
  | real (x : Float)
  | reals (xs : List Float)

namespace Plain

/-- Positional at every size, and a zero after the point of an integral value. -/
def layout : Decimal.Layout := ⟨none, none, true⟩

def realText (x : Float) : String := if x.isNaN then "nan" else layout.text x

def text : Plain → String
  | integer i => toString i
  | real x => realText x
  | reals [] => "[]"
  | reals [x] => s!"[{realText x}]"
  | reals xs => "[\n" ++ String.join (xs.map fun x => s!"    {realText x},\n") ++ "]"

/-- The value that is read back. -/
def value : Plain → Value
  | integer i => .integer i
  | real x => .real x
  | reals xs => .list false (xs.map .real)

end Plain

/-- A header and the entries under it. -/
structure Section where
  name : String
  entries : List (String × Plain)

namespace Section

def text (s : Section) : String :=
  s!"[{s.name}]\n" ++ String.join (s.entries.map fun (key, value) => s!"{key} = {value.text}\n")

/-- The text of some sections, with an empty line between them. -/
def document (sections : List Section) : String := "\n".intercalate (sections.map text)

end Section

end Toolpath.Toml
