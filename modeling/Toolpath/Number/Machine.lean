import Toolpath.Number.Binary
import Toolpath.Scalar

/-!
# Machine numbers as scalars

Binary64 numbers, and the binary32 numbers in which stock is cut. Conversions to naturals stay in
the range of a 64-bit word.
-/

namespace Toolpath

namespace Binary

def floor (x : Float) : Nat := x.toUInt64.toNat

def ceil (x : Float) : Nat :=
  let low := floor x
  if Float.ofNat low < x ∧ low < 2 ^ 64 - 1 then low + 1 else low

def floor32 (x : Float32) : Nat := x.toUInt64.toNat

def ceil32 (x : Float32) : Nat :=
  let low := floor32 x
  if Float32.ofNat low < x ∧ low < 2 ^ 64 - 1 then low + 1 else low

end Binary

instance : Scalar Float where
  natCast := Float.ofNat
  one := 1
  decidableLE := inferInstance
  decidableLT := inferInstance
  isFinite := Float.isFinite
  floor := Binary.floor
  ceil := Binary.ceil

instance : Scalar Float32 where
  natCast := Float32.ofNat
  one := 1
  decidableLE := inferInstance
  decidableLT := inferInstance
  isFinite := Float32.isFinite
  floor := Binary.floor32
  ceil := Binary.ceil32

instance : Analytic Float where
  sqrt := Float.sqrt
  hypot := Binary.hypot
  atan2 := Float.atan2
  sin := Float.sin
  cos := Float.cos
  pi := Float.ofBits 0x400921FB54442D18

end Toolpath
