import Toolpath.Geometry.Point
import Toolpath.Number.Decimal

/-!
# Captions of points

Coordinates are shown to a thousandth of a millimetre.
-/

namespace Toolpath.Point

def caption (p : Point Float) : String :=
  let x := Decimal.fixed 3 p.x
  let y := Decimal.fixed 3 p.y
  let z := Decimal.fixed 3 p.z
  s!"X:{x} Y:{y} Z:{z}"

end Toolpath.Point
