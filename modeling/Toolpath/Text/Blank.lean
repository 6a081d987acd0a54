/-!
# Blanks

The white space of every script, and the cutting of text at it: `trim` takes it from both ends and
`tokens` keeps the maximal runs between it.
-/

namespace Toolpath.Text

/-- White space of any script. -/
def isBlank (c : Char) : Bool :=
  let n := c.toNat
  decide (9 ≤ n ∧ n ≤ 13) || n == 0x20 || n == 0x85 || n == 0xA0 || n == 0x1680
    || decide (0x2000 ≤ n ∧ n ≤ 0x200A) || n == 0x2028 || n == 0x2029 || n == 0x202F
    || n == 0x205F || n == 0x3000

/-- The text without the blanks at its end. -/
def trimEnd : List Char → List Char
  | [] => []
  | c :: cs =>
    match trimEnd cs with
    | [] => if isBlank c then [] else [c]
    | rest => c :: rest

/-- The text without the blanks at either end. -/
def trim (cs : List Char) : List Char := trimEnd (cs.dropWhile isBlank)

/-- The run of other characters that the text begins with, and the runs after it. -/
def runs : List Char → List Char × List (List Char)
  | [] => ([], [])
  | c :: cs =>
    let (first, rest) := runs cs
    if isBlank c then ([], if first.isEmpty then rest else first :: rest)
    else (c :: first, rest)

/-- The maximal runs of characters that are not blank. -/
def tokens (cs : List Char) : List (List Char) :=
  let (first, rest) := runs cs
  if first.isEmpty then rest else first :: rest

/-- Equality of text up to the case of ASCII letters. -/
def sameLetters (cs ds : List Char) : Bool := cs.map Char.toUpper == ds.map Char.toUpper

end Toolpath.Text
