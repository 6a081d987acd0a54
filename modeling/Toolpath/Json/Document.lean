import Toolpath.Number.Decimal

/-!
# JSON documents

Values as they stand in the text: numbers keep their digits, so that whoever asks for a number
decides its range, and a text with an escape that names no character is kept as such.
-/

namespace Toolpath.Json

/-- A number as written. -/
structure Numeral where
  negative : Bool := false
  whole : List Char
  /-- The digits after the point, if there is a point. -/
  frac : Option (List Char) := none
  /-- The sign and the digits of the exponent, if there is one. -/
  exponent : Option (Bool × List Char) := none

inductive Document where
  | null
  | boolean (b : Bool)
  | numeral (n : Numeral)
  | text (t : Option String)
  | list (items : List Document)
  | table (entries : List (Option String × Document))

/-- A number in the range of machine words, or a binary64 value. -/
inductive Number where
  | natural (n : Nat)
  /-- The negation of a positive number. -/
  | negated (n : Nat)
  | real (x : Float)

namespace Numeral

/-- The greatest significand that is kept exactly. -/
def greatest : Nat := 2 ^ 64 - 1

/-- The significand with as many of the digits as fit, and the digits that are left over. -/
def absorb (significand : Nat) : List Char → Nat × List Char
  | [] => (significand, [])
  | d :: ds =>
    let next := Decimal.valueFrom significand [d]
    if greatest < next then (significand, d :: ds) else absorb next ds

/-- The power of ten nearest to `10 ^ e`. -/
def powerOfTen (e : Nat) : Float := Float.ofBits (Decimal.nearest 1 e).toUInt64

/-- `x * 10 ^ e` by one multiplication or division; far below the range, by several. There is no
answer above the range. -/
def scaled : (steps : Nat) → Float → Int → Option Float
  | 0, x, _ => some x
  | steps + 1, x, e =>
    if e.natAbs ≤ 308 then
      if 0 ≤ e then
        let y := x * powerOfTen e.natAbs
        if y.isInf then none else some y
      else some (x / powerOfTen e.natAbs)
    else if x == 0 then some x
    else if 0 ≤ e then none
    else scaled steps (x / powerOfTen 308) (e + 308)

/-- The number that a numeral stands for, unless it is out of range. Digits past the range of the
significand only count by their place. -/
def number? (n : Numeral) : Option Number :=
  let sign := fun (x : Float) => Number.real (if n.negative then -x else x)
  let (significand, rest) := absorb 0 n.whole
  match n.frac, n.exponent with
  | none, none =>
    if !rest.isEmpty then (scaled 4 (Float.ofNat significand) rest.length).map sign
    else if !n.negative then some (.natural significand)
    else if significand = 0 ∨ 2 ^ 63 < significand then
      some (sign (Float.ofNat significand))
    else some (.negated significand)
  | frac?, exponent? =>
    let frac := frac?.getD []
    let (significand, unread) := absorb significand frac
    let e : Int := rest.length - (frac.length - unread.length : Nat)
    match exponent? with
    | none => (scaled 4 (Float.ofNat significand) e).map sign
    | some (negative, digits) =>
      let shift := Decimal.value digits
      if 2 ^ 31 - 1 < shift then
        if significand ≠ 0 ∧ !negative then none else some (sign 0)
      else
        let e := if negative then e - shift else e + shift
        (scaled 4 (Float.ofNat significand) e).map sign

end Numeral

namespace Document

/-- A whole number from zero on. -/
def natural? : Document → Option Nat
  | .numeral n =>
    match n.number? with
    | some (.natural n) => some n
    | _ => none
  | _ => none

/-- A number that is in range. -/
def real? : Document → Option Float
  | .numeral n =>
    match n.number? with
    | some (.natural n) => some (Float.ofNat n)
    | some (.negated n) => some (-Float.ofNat n)
    | some (.real x) => some x
    | none => none
  | _ => none

end Document

end Toolpath.Json
