/-!
# Programs

A program is a list of lines. Text is cut at line feeds; a carriage return before one belongs to
it, and nothing follows the last.
-/

namespace Toolpath

structure Program where
  lines : Array String

namespace Program

def ofLines (lines : List String) : Program := ⟨lines.toArray⟩

/-- A line without the carriage return that ends it. -/
def dropReturn : List Char → List Char
  | [] => []
  | ['\r'] => []
  | c :: cs => c :: dropReturn cs

/-- The line that a text begins with, and the lines after it if it ends. -/
def cut : List Char → List Char × Option (List (List Char))
  | [] => ([], none)
  | '\n' :: cs =>
    let (line, rest?) := cut cs
    ([], some (match rest? with
      | none => if line.isEmpty then [] else [line]
      | some rest => dropReturn line :: rest))
  | c :: cs =>
    let (line, rest?) := cut cs
    (c :: line, rest?)

/-- The lines of a text. -/
def cutLines (cs : List Char) : List (List Char) :=
  match cut cs with
  | (line, none) => if line.isEmpty then [] else [line]
  | (line, some rest) => dropReturn line :: rest

def ofText (text : String) : Program := ofLines ((cutLines text.toList).map String.ofList)

def size (p : Program) : Nat := p.lines.size

def line? (p : Program) (i : Nat) : Option String := p.lines[i]?

@[simp] theorem size_ofLines (lines : List String) : (ofLines lines).size = lines.length :=
  List.size_toArray

@[simp] theorem line?_ofLines (lines : List String) (i : Nat) :
    (ofLines lines).line? i = lines[i]? :=
  List.getElem?_toArray

end Program

end Toolpath
