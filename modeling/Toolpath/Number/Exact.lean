import Mathlib.Algebra.Order.Floor.Semiring
import Mathlib.Algebra.Order.Field.Basic
import Mathlib.Analysis.SpecialFunctions.Complex.Arg
import Mathlib.Analysis.SpecialFunctions.Pow.Real
import Toolpath.Scalar

/-!
# Exact arithmetic

An ordered field with a floor does what machine numbers do without ever rounding; the functions of
circular arcs have to be given with it.
-/

namespace Toolpath

/-- The functions that geometry asks of a field and that a field does not come with. -/
class Elementary (K : Type) where
  sqrt : K → K
  hypot : K → K → K
  atan2 : K → K → K
  sin : K → K
  cos : K → K
  pi : K

section Field

variable {K : Type} [Field K] [LinearOrder K] [FloorSemiring K]

instance (priority := low) exactScalar : Scalar K where
  decidableLE := inferInstance
  decidableLT := inferInstance
  isFinite _ := true
  floor := Nat.floor
  ceil := Nat.ceil

instance (priority := low) exactAnalytic [Elementary K] : Analytic K where
  sqrt := Elementary.sqrt
  hypot := Elementary.hypot
  atan2 := Elementary.atan2
  sin := Elementary.sin
  cos := Elementary.cos
  pi := Elementary.pi

end Field

noncomputable instance realElementary : Elementary ℝ where
  sqrt := Real.sqrt
  hypot x y := Real.sqrt (x * x + y * y)
  atan2 y x := Complex.arg ⟨x, y⟩
  sin := Real.sin
  cos := Real.cos
  pi := Real.pi

namespace Scalar

variable {K : Type} [Field K] [LinearOrder K] [FloorSemiring K]

theorem isPositive_iff {a : K} : isPositive a = true ↔ 0 < a := by
  simp [isPositive, isFinite]

theorem abs_eq [IsStrictOrderedRing K] (a : K) : abs a = |a| := by
  rw [abs]
  split
  case isTrue h => exact (abs_of_neg h).symm
  case isFalse h => exact (abs_of_nonneg (not_lt.1 h)).symm

theorem greatest_eq (a b : K) : greatest a b = max a b := by
  rw [greatest, if_pos le_rfl]
  split
  case isTrue h => exact (max_eq_left h).symm
  case isFalse h => exact (max_eq_right (not_le.1 h).le).symm

theorem clampUnit_eq {a : K} (h0 : 0 ≤ a) (h1 : a ≤ 1) : clampUnit a = a := by
  rw [clampUnit, if_neg (not_lt.2 h0), if_neg (not_lt.2 h1)]

end Scalar

end Toolpath
