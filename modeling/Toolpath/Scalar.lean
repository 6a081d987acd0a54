/-!
# Scalars

The arithmetic that geometry, playback and cutting are written over. The machine numbers of two
widths are instances, and so is any ordered field with a floor, where nothing is ever rounded.
-/

namespace Toolpath

/-- A power of natural numbers is the built-in one, also where a general power is in scope. -/
@[default_instance high] instance (priority := high) natPow : Pow Nat Nat := instPowNat

/-- Numbers with the operations that straight-line geometry needs. -/
class Scalar (α : Type) extends
    Zero α, One α, NatCast α, Add α, Sub α, Mul α, Div α, Neg α, LE α, LT α, BEq α where
  decidableLE : DecidableLE α
  decidableLT : DecidableLT α
  /-- Neither infinite nor undefined. -/
  isFinite : α → Bool
  /-- The greatest natural number not above the value; zero if there is none. -/
  floor : α → Nat
  /-- The least natural number not below the value. -/
  ceil : α → Nat

instance Scalar.instDecidableLE {α : Type} [Scalar α] : DecidableLE α := Scalar.decidableLE

instance Scalar.instDecidableLT {α : Type} [Scalar α] : DecidableLT α := Scalar.decidableLT

/-- Scalars with the functions that circular arcs need. -/
class Analytic (α : Type) extends Scalar α where
  sqrt : α → α
  /-- Length of the vector with the given legs. -/
  hypot : α → α → α
  /-- Angle of the vector with the given second and first coordinate. -/
  atan2 : α → α → α
  sin : α → α
  cos : α → α
  /-- Half a turn. -/
  pi : α

namespace Scalar

variable {α : Type} [Scalar α]

def abs (x : α) : α := if x < 0 then -x else x

/-- The lesser of two values; an undefined one loses. -/
def least (x y : α) : α := if x ≤ y then x else if y ≤ y then y else x

/-- The greater of two values; an undefined one loses. -/
def greatest (x y : α) : α := if y ≤ x then x else if y ≤ y then y else x

/-- The nearest value between zero and one. -/
def clampUnit (x : α) : α := if x < 0 then 0 else if 1 < x then 1 else x

/-- One part in `10 ^ n`. -/
def tenth (n : Nat) : α := 1 / ((10 ^ n : Nat) : α)

/-- Finite and above zero. -/
def isPositive (x : α) : Bool := isFinite x && decide (0 < x)

end Scalar

end Toolpath
