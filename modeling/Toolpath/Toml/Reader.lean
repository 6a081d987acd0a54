import Toolpath.Toml.Scalar

/-!
# Reading TOML

`Entries.read?` accepts the texts that are TOML and gives the tree they stand for. Values nest at
most `depth` deep, and no key has more parts.
-/

namespace Toolpath.Toml

open Text (isAsciiDigit isAsciiLetter)

/-- How deep values nest, and how many parts a key has, at most. -/
def depth : Nat := 79

/-- A character of a key without quotes. -/
def isBare (c : Char) : Bool := isAsciiLetter c || isAsciiDigit c || c == '-' || c == '_'

/-- One part of a key. -/
def part? (cs : List Char) : Option (String × List Char) :=
  match cs with
  | '"' :: rest => (basic? rest).map fun (key, rest) => (String.ofList key, rest)
  | '\'' :: rest => (literal? rest).map fun (key, rest) => (String.ofList key, rest)
  | cs =>
    let key := cs.takeWhile isBare
    if key.isEmpty then none else some (String.ofList key, cs.dropWhile isBare)

/-- The parts of a key but the last, and the last; blanks may stand around each. -/
def key? : (parts : Nat) → List Char → Option ((List String × String) × List Char)
  | 0, _ => none
  | n + 1, cs => do
    let (key, rest) ← part? (skip cs)
    match skip rest with
    | '.' :: rest =>
      let ((path, last), rest) ← key? n rest
      return ((key :: path, last), rest)
    | rest => return (([], key), rest)

mutual

/-- The value that a text begins with; `n` bounds its length. -/
def value? : (n : Nat) → (depth : Nat) → List Char → Option (Value × List Char)
  | 0, _, _ => none
  | n + 1, depth, cs =>
    match cs, depth with
    | '"' :: _, _ | '\'' :: _, _ =>
      (string? cs).map fun (text, rest) => (.text (String.ofList text), rest)
    | '[' :: _, 0 | '{' :: _, 0 => none
    | '[' :: rest, depth + 1 =>
      (items? n depth rest).map fun (items, rest) => (.list false items, rest)
    | '{' :: rest, depth + 1 =>
      match skip rest with
      | '}' :: rest => some (.table .closed [], rest)
      | rest => (pairs? n depth [] rest).map fun (entries, rest) => (.table .closed entries, rest)
    | cs, _ => scalarValue? cs

/-- The items up to the closing bracket; a comma may stand behind the last. -/
def items? : (n : Nat) → (depth : Nat) → List Char → Option (List Value × List Char)
  | 0, _, _ => none
  | n + 1, depth, cs =>
    match skipLines false cs with
    | ']' :: rest => some ([], rest)
    | cs =>
      match value? n depth cs with
      | none => none
      | some (item, rest) =>
        match skipLines false rest with
        | ',' :: rest => (items? n depth rest).map fun (items, rest) => (item :: items, rest)
        | ']' :: rest => some ([item], rest)
        | _ => none

/-- The entries up to the closing brace, added to those before. -/
def pairs? : (n : Nat) → (depth : Nat) → Entries → List Char → Option (Entries × List Char)
  | 0, _, _, _ => none
  | n + 1, depth, entries, cs =>
    match key? Toml.depth cs with
    | some ((path, key), '=' :: rest) =>
      match value? n depth (skip rest) with
      | none => none
      | some (value, rest) =>
        match Change.addAt path key value .closed entries with
        | none => none
        | some entries =>
          match skip rest with
          | ',' :: rest => pairs? n depth entries rest
          | '}' :: rest => some (entries, rest)
          | _ => none
    | _ => none

end

/-- A key, an equals sign and a value on a line of their own. -/
def assignment? (cs : List Char) : Option ((List String × String) × Value × List Char) :=
  match key? depth cs with
  | some (key, '=' :: rest) => do
    let (value, rest) ← value? (rest.length + 1) depth (skip rest)
    let rest ← lineEnd? rest
    return (key, value, rest)
  | _ => none

/-- A header after its opening bracket, with one closing bracket or two. -/
def header? (double : Bool) (cs : List Char) : Option ((List String × String) × List Char) :=
  match double, key? depth cs with
  | false, some (key, ']' :: rest) | true, some (key, ']' :: ']' :: rest) =>
    (lineEnd? rest).map fun rest => (key, rest)
  | _, _ => none

namespace Entries

/-- The lines of a text in turn, each of which changes the entries so far; `current` is the path of
the last header. -/
def lines? : (n : Nat) → (current : List String) → Entries → List Char → Option Entries
  | 0, _, _, _ => none
  | n + 1, current, entries, cs =>
    match skip cs with
    | [] => some entries
    | '#' :: _ | '\n' :: _ | '\r' :: _ => do lines? n current entries (← lineEnd? (skip cs))
    | '[' :: '[' :: rest => do
      let ((path, key), rest) ← header? true rest
      let entries ← Change.within false path (Change.extend key) .declared entries
      lines? n (path ++ [key]) entries rest
    | '[' :: rest => do
      let ((path, key), rest) ← header? false rest
      let entries ← Change.within false path (Change.declare key) .declared entries
      lines? n (path ++ [key]) entries rest
    | cs => do
      let ((path, key), value, rest) ← assignment? cs
      let entries ← Change.within false current (Change.addAt path key value) .declared entries
      lines? n current entries rest

/-- The tree of a text, which may begin with a byte order mark. -/
def read? (text : List Char) : Option Entries :=
  let text := match text with
    | '\uFEFF' :: rest => rest
    | text => text
  lines? (text.length + 1) [] [] text

end Entries

end Toolpath.Toml
