import Toolpath.Scalar

/-!
# Points and boxes

Positions in machine space and the axis-aligned boxes around them.
-/

namespace Toolpath

/-- A position, in millimetres. -/
structure Point (α : Type) where
  x : α
  y : α
  z : α
deriving DecidableEq

namespace Point

variable {α : Type}

@[ext] theorem ext {p q : Point α} (hx : p.x = q.x) (hy : p.y = q.y) (hz : p.z = q.z) : p = q := by
  cases p; cases q; simp_all

def origin [Zero α] : Point α := ⟨0, 0, 0⟩

/-- The same place at another height. -/
def withZ (p : Point α) (z : α) : Point α := { p with z := z }

variable [Scalar α]

/-- Distances up to this are taken for zero when coordinates are compared. -/
def tolerance : α := Scalar.tenth 9

/-- The point `t` of the way from `p` to `q`. -/
def lerp (p q : Point α) (t : α) : Point α where
  x := p.x + (q.x - p.x) * t
  y := p.y + (q.y - p.y) * t
  z := p.z + (q.z - p.z) * t

/-- Whether two points lie on one vertical line, within the tolerance. -/
def sameXY (p q : Point α) : Bool :=
  decide (Scalar.abs (p.x - q.x) ≤ tolerance) && decide (Scalar.abs (p.y - q.y) ≤ tolerance)

/-- Whether two points agree on every axis, within `bound`. -/
def near (p q : Point α) (bound : α) : Bool :=
  decide (Scalar.abs (p.x - q.x) ≤ bound) && decide (Scalar.abs (p.y - q.y) ≤ bound)
    && decide (Scalar.abs (p.z - q.z) ≤ bound)

def isFinite (p : Point α) : Bool :=
  Scalar.isFinite p.x && Scalar.isFinite p.y && Scalar.isFinite p.z

instance : BEq (Point α) where
  beq p q := p.x == q.x && p.y == q.y && p.z == q.z

end Point

namespace Point

variable {α : Type} [Analytic α]

def distance (p q : Point α) : α :=
  let dx := q.x - p.x
  let dy := q.y - p.y
  let dz := q.z - p.z
  Analytic.sqrt (dx * dx + dy * dy + dz * dz)

/-- Distance of the projections on the horizontal plane. -/
def distanceXY (p q : Point α) : α := Analytic.hypot (q.x - p.x) (q.y - p.y)

end Point

/-- The box between two corners. -/
structure Bounds (α : Type) where
  lower : Point α
  upper : Point α

namespace Bounds

variable {α : Type} [Scalar α]

def ofPoint (p : Point α) : Bounds α := ⟨p, p⟩

/-- The least box around `b` and `p`; an undefined coordinate moves no face. -/
def enclose (b : Bounds α) (p : Point α) : Bounds α where
  lower := ⟨Scalar.least b.lower.x p.x, Scalar.least b.lower.y p.y, Scalar.least b.lower.z p.z⟩
  upper :=
    ⟨Scalar.greatest b.upper.x p.x, Scalar.greatest b.upper.y p.y, Scalar.greatest b.upper.z p.z⟩

/-- Extent along each axis. -/
def size (b : Bounds α) : Point α :=
  ⟨b.upper.x - b.lower.x, b.upper.y - b.lower.y, b.upper.z - b.lower.z⟩

end Bounds

end Toolpath
