import Toolpath.Number.Decimal
import Toolpath.Text.Digit

/-!
# Numbers from text

`Decimal.read?` reads a text that is one number: digits with or without a point and an exponent, or
a word for a value that is not finite.
-/

namespace Toolpath.Decimal

open Text (isAsciiDigit)

/-- An exponent up to the end of the text; zero if nothing is left. -/
def exponent? (cs : List Char) : Option Int :=
  let read := fun (negative : Bool) (ds : List Char) =>
    if ds.isEmpty || !ds.all isAsciiDigit then none
    else if negative then some (-(value ds : Int)) else some (value ds : Int)
  match cs with
  | [] => some 0
  | 'e' :: '-' :: ds | 'E' :: '-' :: ds => read true ds
  | 'e' :: '+' :: ds | 'E' :: '+' :: ds | 'e' :: ds | 'E' :: ds => read false ds
  | _ => none

/-- A number without a sign. There has to be a digit on one side of the point. -/
def magnitude? (cs : List Char) : Option Float :=
  match String.ofList (cs.map Char.toLower) with
  | "inf" | "infinity" => some (Float.ofBits 0x7FF0000000000000)
  | "nan" => some (Float.ofBits 0x7FF8000000000000)
  | _ =>
    let whole := cs.takeWhile isAsciiDigit
    let rest := cs.dropWhile isAsciiDigit
    let (frac, rest) := match rest with
      | '.' :: rest => (rest.takeWhile isAsciiDigit, rest.dropWhile isAsciiDigit)
      | rest => ([], rest)
    if whole.isEmpty && frac.isEmpty then none
    else (exponent? rest).map (ofScientific whole frac)

/-- The nearest value to the number that a text is. -/
def read? (text : String) : Option Float :=
  match text.toList with
  | '-' :: cs => (magnitude? cs).map (-·)
  | '+' :: cs => magnitude? cs
  | cs => magnitude? cs

end Toolpath.Decimal
