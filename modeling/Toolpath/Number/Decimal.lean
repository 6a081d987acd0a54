import Toolpath.Number.Binary

/-!
# Decimal text of binary values

`shortest` picks the fewest decimal digits that read back to a value, by trying the two neighbours
of the value on ever finer decimal grids. A value midway between two that will do goes as `Tie`
says. `Layout` says how picked digits are written down, and `fixed` writes a set number of places.
-/

namespace Toolpath.Decimal

open Binary (Format Decoded binary64)

/-- Decimal digits of a natural number. -/
def digits (n : Nat) : List Char := Nat.toDigits 10 n

/-- The value of a run of decimal digits, continued from `start`. -/
def valueFrom (start : Nat) (ds : List Char) : Nat :=
  ds.foldl (fun n d => 10 * n + (d.toNat - '0'.toNat)) start

/-- The value of a run of decimal digits. -/
def value (ds : List Char) : Nat := valueFrom 0 ds

/-- A positive quotient compared with a power of ten: `num / den < 10 ^ k`. -/
def belowPower (num den : Nat) (k : Int) : Bool :=
  if 0 ≤ k then num < den * 10 ^ k.toNat else num * 10 ^ (-k).toNat < den

/-- The least `k` with `num / den < 10 ^ k`, found from the binary order of the quotient. -/
def scale (num den : Nat) : Int :=
  let k := (Format.order num den * 30103) / 100000
  if belowPower num den k then k
  else if belowPower num den (k + 1) then k + 1
  else k + 2

/-- The quotient `d * 10 ^ e` as numerator and denominator. -/
def power (d : Nat) (e : Int) : Nat × Nat :=
  if 0 ≤ e then (d * 10 ^ e.toNat, 1) else (d, 10 ^ (-e).toNat)

/-- Magnitude bits of the binary64 value nearest to `d * 10 ^ e`. -/
def nearest (d : Nat) (e : Int) : Nat :=
  let p := power d e
  binary64.nearest p.1 p.2

/-- Where a quotient goes that lies midway between two integers. -/
inductive Tie where
  | up
  | even
deriving DecidableEq

/-- The integer closest to `n / d`. -/
def Tie.closest (tie : Tie) (n d : Nat) : Nat :=
  let low := n / d
  let rest := 2 * (n % d)
  if rest < d then low
  else if rest = d then
    match tie with
    | .up => low + 1
    | .even => low + low % 2
  else low + 1

/-- The point of the grid `10 ^ e` that reads back to `bits` and is closest to `num / den`, if one
of the two neighbours of the quotient does. -/
def onGrid (tie : Tie) (bits num den : Nat) (e : Int) : Option Nat :=
  let (n, d) := if 0 ≤ e then (num, den * 10 ^ e.toNat) else (num * 10 ^ (-e).toNat, den)
  let low := n / d
  let lowHits := nearest low e == bits
  let highHits := nearest (low + 1) e == bits
  if lowHits && highHits then some (tie.closest n d)
  else if lowHits then some low
  else if highHits then some (low + 1)
  else none

/-- Trailing zeros of `d` moved into the exponent, at most `n` of them. -/
def strip : Nat → Nat → Int → Nat × Int
  | 0, d, e => (d, e)
  | n + 1, d, e => if d % 10 = 0 then strip n (d / 10) (e + 1) else (d, e)

/-- Tries grids of `n`, `n + 1`, … digits, `tries` of them. -/
def search (tie : Tie) (bits num den : Nat) (k : Int) : (tries n : Nat) → Option (Nat × Int)
  | 0, _ => none
  | tries + 1, n =>
    match onGrid tie bits num den (k - n) with
    | some d => some (strip n d (k - n))
    | none => search tie bits num den k tries (n + 1)

/-- The fewest digits `d` and their exponent `e` for which `d * 10 ^ e` reads back to the positive
value `m * 2 ^ q`; its exact digits if seventeen do not suffice. -/
def shortest (tie : Tie) (m : Nat) (q : Int) : Nat × Int :=
  let num := if 0 ≤ q then m * 2 ^ q.toNat else m
  let den := if 0 ≤ q then 1 else 2 ^ (-q).toNat
  match search tie (binary64.nearest num den) num den (scale num den) 17 1 with
  | some found => found
  | none => if 0 ≤ q then (num, 0) else (m * 5 ^ (-q).toNat, q)

/-- How chosen digits are written: positionally within a range, and with an exponent outside. -/
structure Layout where
  /-- The range ends below `10 ^ high`, if at all. -/
  high : Option Nat
  /-- The range begins at `10 ^ -(low + 1)`, if not at zero. -/
  low : Option Nat
  /-- Whether an integral value keeps a zero after the point. -/
  pointZero : Bool

/-- A sign before the text of a magnitude. -/
def signed (negative : Bool) (text : String) : String := if negative then "-" ++ text else text

namespace Layout

/-- The digits `ds` with the point after the first `k` of them. -/
def positional (l : Layout) (ds : List Char) (k : Int) : String :=
  let n : Int := ds.length
  if k ≤ 0 then String.ofList ('0' :: '.' :: (List.replicate (-k).toNat '0' ++ ds))
  else if k < n then String.ofList (ds.take k.toNat ++ '.' :: ds.drop k.toNat)
  else
    String.ofList (ds ++ List.replicate (k - n).toNat '0' ++ if l.pointZero then ['.', '0'] else [])

/-- The digits `ds` with the point after the first of them and an exponent. -/
def scientific (ds : List Char) (k : Int) : String :=
  let e := k - 1
  let body := match ds with
    | [] => ['0']
    | [d] => [d]
    | d :: rest => d :: '.' :: rest
  String.ofList (body ++ 'e' :: ((if e < 0 then ['-'] else []) ++ digits e.natAbs))

/-- The text of a finite value. A tie between digits goes up. -/
def finite (l : Layout) (m : Nat) (q : Int) : String :=
  if m = 0 then (if l.pointZero then "0.0" else "0")
  else
    let (d, e) := shortest .up m q
    let ds := digits d
    let k : Int := ds.length + e
    let tooLong := match l.high with
      | some high => decide ((high : Int) < k)
      | none => false
    let tooSmall := match l.low with
      | some low => decide (k < -(low : Int))
      | none => false
    if tooLong || tooSmall then scientific ds k else l.positional ds k

/-- The text of a value. -/
def text (l : Layout) (x : Float) : String :=
  match Binary.decode x with
  | .undefined => "NaN"
  | .infinite negative => signed negative "inf"
  | .finite negative m q => signed negative (l.finite m q)

end Layout

/-- Positional at every size, with no needless point. -/
def plain : Layout := ⟨none, none, false⟩

/-- The number in its plain layout. -/
def plainText (x : Float) : String := plain.text x

/-- The whole and the `places` fractional digits of `n / 10 ^ places`. -/
def withPlaces (places n : Nat) : String :=
  let whole := digits (n / 10 ^ places)
  let ds := digits (n % 10 ^ places)
  if places = 0 then String.ofList whole
  else String.ofList (whole ++ '.' :: (List.replicate (places - ds.length) '0' ++ ds))

/-- The nearest integer to `m * 2 ^ q * 10 ^ places`. -/
def roundPlaces (places m : Nat) (q : Int) : Nat :=
  if 0 ≤ q then m * 2 ^ q.toNat * 10 ^ places
  else Binary.roundHalfEven (m * 10 ^ places) (2 ^ (-q).toNat)

/-- The value rounded once to `places` decimal places. -/
def fixed (places : Nat) (x : Float) : String :=
  match Binary.decode x with
  | .undefined => "NaN"
  | .infinite negative => signed negative "inf"
  | .finite negative m q => signed negative (withPlaces places (roundPlaces places m q))

/-- The binary64 value nearest to a finite value rounded to `places` decimal places. A zero has no
sign. -/
def rounded (places : Nat) (x : Float) : Float :=
  match Binary.decode x with
  | .finite negative m q =>
    let y := Binary.ofQuotient (roundPlaces places m q) (10 ^ places)
    if y == 0 then 0 else if negative then -y else y
  | _ => x

/-- The binary64 value nearest to the decimal with the given digits before and after the point. -/
def ofDigits (whole frac : List Char) : Float :=
  Binary.ofQuotient (valueFrom (value whole) frac) (10 ^ frac.length)

/-- The binary64 value nearest to the decimal with the given digits before and after the point,
times `10 ^ e`. What is far out of range is not computed. -/
def ofScientific (whole frac : List Char) (e : Int) : Float :=
  let d := valueFrom (value whole) frac
  let low := e - frac.length
  let high := low + (digits d).length
  if d = 0 ∨ high < -330 then 0
  else if 310 < high then Float.ofBits binary64.top.toUInt64
  else Float.ofBits (nearest d low).toUInt64

end Toolpath.Decimal
