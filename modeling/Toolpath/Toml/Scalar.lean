import Toolpath.Number.Decimal
import Toolpath.Text.Digit
import Toolpath.Toml.Text
import Toolpath.Toml.Value

/-!
# Scalars of TOML

Numbers, truth values, dates and times. An integer has to fit a signed word of 64 bits; a real
number is the nearest binary64 value, and one above the range is refused.
-/

namespace Toolpath.Toml

open Text (isAsciiDigit)

/-- The digits that a text begins with; single underscores may stand between them. -/
def run (isDigit : Char → Bool) : List Char → List Char × List Char
  | [] => ([], [])
  | '_' :: c :: rest =>
    if isDigit c then
      let (ds, rest) := run isDigit rest
      (c :: ds, rest)
    else ([], '_' :: c :: rest)
  | c :: rest =>
    if isDigit c then
      let (ds, rest) := run isDigit rest
      (c :: ds, rest)
    else ([], c :: rest)

/-- At least one digit, the first without an underscore. -/
def run? (isDigit : Char → Bool) (cs : List Char) : Option (List Char × List Char) :=
  match cs with
  | c :: _ => if isDigit c then some (run isDigit cs) else none
  | [] => none

/-- The digits of a decimal integer; a zero stands alone. -/
def whole? (cs : List Char) : Option (List Char × List Char) :=
  match cs with
  | '0' :: rest => some (['0'], rest)
  | cs => run? isAsciiDigit cs

/-- An integer in range, or none. -/
def bounded? (i : Int) (rest : List Char) : Option (Value × List Char) :=
  if -((2 ^ 63 : Nat) : Int) ≤ i ∧ i < ((2 ^ 63 : Nat) : Int) then some (.integer i, rest) else none

/-- An integer in a base that is a power of two, behind its mark. -/
def inBase? (base : Nat) (isDigit : Char → Bool) (cs : List Char) : Option (Value × List Char) := do
  let (ds, rest) ← run? isDigit cs
  bounded? (ds.foldl (fun n d => base * n + ((Json.hexDigit? d).getD 0 : Nat)) 0) rest

def isHexDigit (c : Char) : Bool := (Json.hexDigit? c).isSome

def isOctalDigit (c : Char) : Bool := decide ('0' ≤ c ∧ c ≤ '7')

def isBinaryDigit (c : Char) : Bool := c == '0' || c == '1'

/-- The exponent that may follow; zero if there is none. -/
def exponent? (cs : List Char) : Option (Option Int × List Char) :=
  match cs with
  | 'e' :: rest | 'E' :: rest => do
    let (negative, rest) := match rest with
      | '-' :: rest => (true, rest)
      | '+' :: rest => (false, rest)
      | rest => (false, rest)
    let (ds, rest) ← run? isAsciiDigit rest
    let e : Int := Decimal.value ds
    return (some (if negative then -e else e), rest)
  | _ => some (none, cs)

/-- A real number that is not above the range. -/
def real? (negative : Bool) (x : Float) (rest : List Char) : Option (Value × List Char) :=
  if negative then some (.real (-x), rest)
  else if x.isInf then none
  else some (.real x, rest)

/-- A decimal number after its sign. -/
def decimal? (negative : Bool) (cs : List Char) : Option (Value × List Char) := do
  let (whole, rest) ← whole? cs
  match rest with
  | '.' :: rest =>
    let (frac, rest) ← run? isAsciiDigit rest
    let (e, rest) ← exponent? rest
    real? negative (Decimal.ofScientific whole frac (e.getD 0)) rest
  | _ =>
    match ← exponent? rest with
    | (some e, rest) => real? negative (Decimal.ofScientific whole [] e) rest
    | (none, rest) =>
      let i : Int := Decimal.value whole
      bounded? (if negative then -i else i) rest

def infinity : Float := Float.ofBits 0x7FF0000000000000

def undefined : Float := Float.ofBits 0x7FF8000000000000

/-- A number after its sign, in words or in digits. -/
def signed? (negative : Bool) : List Char → Option (Value × List Char)
  | 'i' :: 'n' :: 'f' :: rest => some (.real (if negative then -infinity else infinity), rest)
  | 'n' :: 'a' :: 'n' :: rest => some (.real undefined, rest)
  | cs => decimal? negative cs

def number? : List Char → Option (Value × List Char)
  | '0' :: 'x' :: rest => inBase? 16 isHexDigit rest
  | '0' :: 'o' :: rest => inBase? 8 isOctalDigit rest
  | '0' :: 'b' :: rest => inBase? 2 isBinaryDigit rest
  | '-' :: rest => signed? true rest
  | '+' :: rest => signed? false rest
  | cs => signed? false cs

/-! ## Dates and times -/

/-- A number of `n` decimal digits. -/
def figures? (n : Nat) (cs : List Char) : Option (Nat × List Char) :=
  let ds := cs.take n
  if ds.length = n ∧ ds.all isAsciiDigit then some (Decimal.value ds, cs.drop n) else none

/-- Two digits of a number in a range. -/
def pair? (low high : Nat) (cs : List Char) : Option (Nat × List Char) := do
  let (n, rest) ← figures? 2 cs
  if low ≤ n ∧ n ≤ high then some (n, rest) else none

def separator? (c : Char) : List Char → Option (List Char)
  | d :: rest => if d = c then some rest else none
  | [] => none

def daysOf (year month : Nat) : Nat :=
  if month = 2 then if year % 4 = 0 ∧ (year % 100 ≠ 0 ∨ year % 400 = 0) then 29 else 28
  else if month = 4 ∨ month = 6 ∨ month = 9 ∨ month = 11 then 30
  else 31

/-- What follows a date. -/
def date? (cs : List Char) : Option (List Char) := do
  let (year, rest) ← figures? 4 cs
  let (month, rest) ← pair? 1 12 (← separator? '-' rest)
  let (_, rest) ← pair? 1 (daysOf year month) (← separator? '-' rest)
  return rest

/-- What follows a time of day. -/
def time? (cs : List Char) : Option (List Char) := do
  let (_, rest) ← pair? 0 23 cs
  let (_, rest) ← pair? 0 59 (← separator? ':' rest)
  let (_, rest) ← pair? 0 60 (← separator? ':' rest)
  match rest with
  | '.' :: c :: more => return if isAsciiDigit c then more.dropWhile isAsciiDigit else rest
  | _ => return rest

/-- What follows the offset that a time may have. -/
def offset (cs : List Char) : List Char :=
  match cs with
  | 'Z' :: rest | 'z' :: rest => rest
  | '+' :: rest | '-' :: rest =>
    let read := do
      let (_, rest) ← pair? 0 23 rest
      let (_, rest) ← pair? 0 59 (← separator? ':' rest)
      return rest
    read.getD cs
  | _ => cs

/-- What follows a date, a time of day, or a date with one and perhaps an offset. -/
def moment? (cs : List Char) : Option (List Char) :=
  match date? cs with
  | none => time? cs
  | some rest =>
    match rest with
    | c :: more =>
      if c = 'T' ∨ c = 't' ∨ c = ' ' then
        match time? more with
        | some after => some (offset after)
        | none => some rest
      else some rest
    | [] => some []

/-- A value that is neither quoted nor made of other values. -/
def scalarValue? (cs : List Char) : Option (Value × List Char) :=
  match cs with
  | 't' :: 'r' :: 'u' :: 'e' :: rest => some (.boolean true, rest)
  | 'f' :: 'a' :: 'l' :: 's' :: 'e' :: rest => some (.boolean false, rest)
  | cs =>
    match moment? cs with
    | some rest => some (.moment (String.ofList (cs.take (cs.length - rest.length))), rest)
    | none => number? cs

end Toolpath.Toml
