import Toolpath.Scalar

/-!
# Binary values as exact integers

A finite value of a binary format is `m * 2 ^ q` for integers. `Format.nearest` rounds a quotient
of naturals to the bits of the nearest value, and `Format.decode` takes bits apart again; every
conversion between widths and every exact text goes through these two.
-/

namespace Toolpath.Binary

/-- The nearest integer to a quotient; a half goes to the even neighbour. -/
def roundHalfEven (num den : Nat) : Nat :=
  let low := num / den
  let rest := num % den
  if 2 * rest < den then low
  else if den < 2 * rest then low + 1
  else low + low % 2

/-- A binary interchange format. -/
structure Format where
  /-- Stored bits of the significand. -/
  fraction : Nat
  /-- The least positive value is `2 ^ -bottom`. -/
  bottom : Nat
  /-- Magnitude bits of infinity. -/
  top : Nat

def binary64 : Format := ⟨52, 1074, 0x7FF0000000000000⟩

def binary32 : Format := ⟨23, 149, 0x7F800000⟩

namespace Format

/-- Weight of the sign bit. -/
def signBit (f : Format) : Nat := f.top + 2 ^ f.fraction

/-- The binary order of a positive quotient: the `e` with `2 ^ e ≤ num / den < 2 ^ (e + 1)`. -/
def order (num den : Nat) : Int :=
  let e : Int := (num.log2 : Int) - (den.log2 : Int)
  let below := if 0 ≤ e then num < den * 2 ^ e.toNat else num * 2 ^ (-e).toNat < den
  if below then e - 1 else e

/-- Magnitude bits of the value nearest to a quotient. A significand that rounds up to a power of
two carries into the exponent by the same addition. -/
def nearest (f : Format) (num den : Nat) : Nat :=
  if num = 0 then 0
  else
    let q : Int := max (order num den - f.fraction) (-(f.bottom : Int))
    let m := if 0 ≤ q then roundHalfEven num (den * 2 ^ q.toNat)
      else roundHalfEven (num * 2 ^ (-q).toNat) den
    min ((q + f.bottom).toNat * 2 ^ f.fraction + m) f.top

end Format

/-- What the bits of a value say. -/
inductive Decoded where
  | undefined
  | infinite (negative : Bool)
  /-- The value `m * 2 ^ q`, with the sign kept for zero too. -/
  | finite (negative : Bool) (m : Nat) (q : Int)
deriving DecidableEq

/-- The natural number that a value is, if it is one. -/
def Decoded.natural? : Decoded → Option Nat
  | .undefined | .infinite _ => none
  | .finite negative m q =>
    if negative && m != 0 then none
    else if 0 ≤ q then some (m * 2 ^ q.toNat)
    else if m % 2 ^ (-q).toNat = 0 then some (m / 2 ^ (-q).toNat)
    else none

namespace Format

def decode (f : Format) (bits : Nat) : Decoded :=
  let negative := decide (f.signBit ≤ bits)
  let magnitude := bits % f.signBit
  if f.top < magnitude then .undefined
  else if magnitude = f.top then .infinite negative
  else
    let e := magnitude / 2 ^ f.fraction
    let s := magnitude % 2 ^ f.fraction
    if e = 0 then .finite negative s (-(f.bottom : Int))
    else .finite negative (2 ^ f.fraction + s) (e - 1 - f.bottom)

/-- Bits of the value of the format nearest to a decoded one. -/
def encode (f : Format) : Decoded → Nat
  | .undefined => f.top + 2 ^ (f.fraction - 1)
  | .infinite negative => f.top + if negative then f.signBit else 0
  | .finite negative m q =>
    let magnitude := if 0 ≤ q then f.nearest (m * 2 ^ q.toNat) 1
      else f.nearest m (2 ^ (-q).toNat)
    magnitude + if negative then f.signBit else 0

end Format

/-- The binary64 value nearest to a quotient of naturals. -/
def ofQuotient (num den : Nat) : Float := Float.ofBits (binary64.nearest num den).toUInt64

def decode (x : Float) : Decoded := binary64.decode x.toBits.toNat

/-- The nearest binary32 value. -/
def narrow (x : Float) : Float32 := Float32.ofBits (binary32.encode (decode x)).toUInt32

/-- The same value in binary64. -/
def widen (x : Float32) : Float :=
  Float.ofBits (binary64.encode (binary32.decode x.toBits.toNat)).toUInt64

/-- Integer square root of `n < 4 ^ k`, two bits at a time. -/
def floorRoot : (k n : Nat) → Nat
  | 0, _ => 0
  | k + 1, n =>
    let r := 2 * floorRoot k (n / 4)
    if (r + 1) * (r + 1) ≤ n then r + 1 else r

/-- Twice the integer square root of `n * 4 ^ 64`, plus one if that root is not exact; rounding
the result once rounds the root. -/
def stickyRoot (n : Nat) : Nat :=
  let scaled := n * 4 ^ 64
  let root := floorRoot (scaled.log2 / 2 + 1) scaled
  2 * root + if root * root = scaled then 0 else 1

/-- Length of the vector with legs `x` and `y`, rounded once. An infinite leg wins over an
undefined one. -/
def hypot (x y : Float) : Float :=
  match decode x, decode y with
  | .infinite _, _ | _, .infinite _ => Float.ofBits binary64.top.toUInt64
  | .undefined, _ | _, .undefined => x + y
  | .finite _ m q, .finite _ n r =>
    let low := min q r
    let a := m * 2 ^ (q - low).toNat
    let b := n * 2 ^ (r - low).toNat
    let root := stickyRoot (a * a + b * b)
    if 0 ≤ low then ofQuotient (root * 2 ^ low.toNat) (2 ^ 65)
    else ofQuotient root (2 ^ ((-low).toNat + 65))

end Toolpath.Binary
