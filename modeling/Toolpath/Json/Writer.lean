import Toolpath.Json.Document

/-!
# Writing JSON

`Document.pretty` writes a document with each item and entry on a line of its own, two blanks
deeper than the value it belongs to. Numbers are written as they stand in the document;
`Numeral.ofFloat?` chooses how a binary64 value stands in one.
-/

namespace Toolpath.Json

namespace Numeral

def ofNat (n : Nat) : Numeral := { whole := Decimal.digits n }

/-- The value `0.ds * 10 ^ k`: without an exponent from 10⁻⁵ on to below 10¹⁶, and always with a
digit after the point if it has none. -/
def ofDigits (negative : Bool) (ds : List Char) (k : Int) : Numeral :=
  if 16 < k ∨ k < -4 then
    { negative
      whole := ds.take 1
      frac := if ds.length ≤ 1 then none else some (ds.drop 1)
      exponent := some (decide (k - 1 < 0), Decimal.digits (k - 1).natAbs) }
  else if k ≤ 0 then
    { negative, whole := ['0'], frac := some (List.replicate (-k).toNat '0' ++ ds) }
  else if k < ds.length then
    { negative, whole := ds.take k.toNat, frac := some (ds.drop k.toNat) }
  else
    { negative, whole := ds ++ List.replicate (k - ds.length).toNat '0', frac := some ['0'] }

/-- A finite value by its fewest digits; a tie between digits goes to the even one. -/
def ofFloat? (x : Float) : Option Numeral :=
  match Binary.decode x with
  | .finite negative m q =>
    if m = 0 then some { negative, whole := ['0'], frac := some ['0'] }
    else
      let (d, e) := Decimal.shortest .even m q
      let ds := Decimal.digits d
      some (ofDigits negative ds (ds.length + e))
  | _ => none

/-- The characters of a numeral; its exponent always has a sign. -/
def text (n : Numeral) : List Char :=
  let frac := match n.frac with
    | some ds => '.' :: ds
    | none => []
  let exponent := match n.exponent with
    | some (negative, ds) => 'e' :: (if negative then '-' else '+') :: ds
    | none => []
  (if n.negative then ['-'] else []) ++ n.whole ++ frac ++ exponent

end Numeral

/-- Four hexadecimal digits. -/
def hex4 (n : Nat) : List Char :=
  let ds := Nat.toDigits 16 n
  List.replicate (4 - ds.length) '0' ++ ds

/-- A character as it stands between quotes. -/
def escape (c : Char) : List Char :=
  match c with
  | '"' => ['\\', '"'] | '\\' => ['\\', '\\']
  | '\x08' => ['\\', 'b'] | '\x0c' => ['\\', 'f']
  | '\n' => ['\\', 'n'] | '\r' => ['\\', 'r'] | '\t' => ['\\', 't']
  | c => if c.toNat < 0x20 then '\\' :: 'u' :: hex4 c.toNat else [c]

/-- A text between quotes; a missing one is half of a pair of units. -/
def quoted : Option String → List Char
  | some t => '"' :: (t.toList.flatMap escape ++ ['"'])
  | none => ['"', '\\', 'u', 'd', '8', '0', '0', '"']

/-- A line break and the blanks of a level. -/
def lineAt (level : Nat) : List Char := '\n' :: List.replicate (2 * level) ' '

namespace Document

def ofNat (n : Nat) : Document := .numeral (.ofNat n)

/-- A number, or `null` for a value that is not finite. -/
def ofFloat (x : Float) : Document :=
  match Numeral.ofFloat? x with
  | some n => .numeral n
  | none => .null

def ofString (s : String) : Document := .text (some s)

/-- A table of entries whose keys are given. -/
def ofEntries (entries : List (String × Document)) : Document :=
  .table (entries.map fun (key, value) => (some key, value))

mutual

/-- The characters of a value that begins on a line of the given level. -/
def prettyAt (level : Nat) : Document → List Char
  | .null => ['n', 'u', 'l', 'l']
  | .boolean true => ['t', 'r', 'u', 'e']
  | .boolean false => ['f', 'a', 'l', 's', 'e']
  | .numeral n => n.text
  | .text t => quoted t
  | .list [] => ['[', ']']
  | .list (item :: items) =>
    '[' :: (lineAt (level + 1) ++ prettyAt (level + 1) item ++ prettyItems (level + 1) items
      ++ lineAt level ++ [']'])
  | .table [] => ['{', '}']
  | .table ((key, value) :: entries) =>
    '{' :: (lineAt (level + 1) ++ quoted key ++ ':' :: ' ' :: prettyAt (level + 1) value
      ++ prettyEntries (level + 1) entries ++ lineAt level ++ ['}'])

/-- The items after the first, each behind a comma and a line break. -/
def prettyItems (level : Nat) : List Document → List Char
  | [] => []
  | item :: items => ',' :: (lineAt level ++ prettyAt level item ++ prettyItems level items)

/-- The entries after the first, each behind a comma and a line break. -/
def prettyEntries (level : Nat) : List (Option String × Document) → List Char
  | [] => []
  | (key, value) :: entries =>
    ',' :: (lineAt level ++ quoted key ++ ':' :: ' ' :: prettyAt level value
      ++ prettyEntries level entries)

end

/-- The text of a document, without a line break at its end. -/
def pretty (d : Document) : String := String.ofList (d.prettyAt 0)

end Document

end Toolpath.Json
