import Toolpath.Geometry.Point

/-!
# Voxel grids

A block of stock cut into cubic cells, each of which still holds material or not. Cutting a sphere
clears every cell whose centre lies in it; only the cells of a box around the sphere are looked at.

What is kept of a cell stands at a place that is counted in 64-bit words, and so is the number of the
cells that are kept. Words wrap around, and nothing keeps a block from having more cells than they
count. There cells share a place, or have one beyond all that is kept, and a look at such a place ends
the program.
-/

namespace Toolpath.Stock

structure Sphere (α : Type) where
  centre : Point α
  radius : α

/-- A cell by its number along each axis. -/
structure Cell where
  x : Nat
  y : Nat
  z : Nat
deriving DecidableEq

structure Grid (α : Type) where
  /-- The least corner of the block. -/
  origin : Point α
  width : Nat
  height : Nat
  depth : Nat
  /-- Edge of a cell. -/
  resolution : α
  /-- Which cells are cleared, counted first along x, then y, then z. -/
  cleared : Array Bool

namespace Grid

variable {α : Type}

/-- A block that is all material. The number of its cells is counted in a 64-bit word. -/
def full (origin : Point α) (width height depth : Nat) (resolution : α) : Grid α where
  origin := origin
  width := width
  height := height
  depth := depth
  resolution := resolution
  cleared := Array.replicate (width * height * depth % 2 ^ 64) false

def cellCount (g : Grid α) : Nat := g.cleared.size

def clearedCount (g : Grid α) : Nat := g.cleared.count true

/-- The maximal runs of cleared cells among cells from number `i` on, each as its first cell and its
length; `n` cells before them are cleared. -/
def runs (i n : Nat) : List Bool → List (Nat × Nat)
  | [] => if n = 0 then [] else [(i - n, n)]
  | true :: rest => runs (i + 1) (n + 1) rest
  | false :: rest => if n = 0 then runs (i + 1) 0 rest else (i - n, n) :: runs (i + 1) 0 rest

def clearedRuns (g : Grid α) : List (Nat × Nat) := runs 0 0 g.cleared.toList

/-- The place at which the state of a cell is kept. -/
def slot? (g : Grid α) (x y z : Nat) : Option Nat :=
  if x < g.width ∧ y < g.height ∧ z < g.depth then
    let width := g.width.toUInt64
    let height := g.height.toUInt64
    some (z.toUInt64 * width * height + y.toUInt64 * width + x.toUInt64).toNat
  else none

/-- Takes the material out of a cell; outside the block nothing happens. If the program ends there,
the block is left as it is. -/
def remove (g : Grid α) (x y z : Nat) : Except (Grid α) (Grid α) :=
  match g.slot? x y z with
  | some i =>
    if h : i < g.cleared.size then .ok { g with cleared := g.cleared.set i true h } else .error g
  | none => .ok g

/-- The fraction of the cells that still hold material. -/
def remaining (g : Grid α) : Float :=
  if g.cellCount = 0 then 0
  else 1 - Float.ofNat g.clearedCount / Float.ofNat g.cellCount

variable [Scalar α]

/-- A coordinate in cells from the least corner. -/
def measure (g : Grid α) (p : Point α) : Point α :=
  ⟨(p.x - g.origin.x) / g.resolution, (p.y - g.origin.y) / g.resolution,
    (p.z - g.origin.z) / g.resolution⟩

/-- The lesser of two values, the second if they do not compare. -/
def lesser (a b : α) : α := if a < b then a else b

/-- Whether the cell around a point still holds material, unless the program ends there. -/
def holds? (g : Grid α) (p : Point α) : Option Bool :=
  let l := g.measure p
  if lesser l.x (lesser l.y l.z) < 0 then some false
  else
    match g.slot? (Scalar.floor l.x) (Scalar.floor l.y) (Scalar.floor l.z) with
    | some i => g.cleared[i]?.map (! ·)
    | none => some false

def half : α := 1 / ((2 : Nat) : α)

/-- A sphere measured in cells, with every cell standing at its centre. -/
def measureSphere (g : Grid α) (s : Sphere α) : Sphere α :=
  let c := g.measure s.centre
  ⟨⟨c.x - half, c.y - half, c.z - half⟩, s.radius / g.resolution⟩

/-- Whether a cell lies in a sphere measured in cells. -/
def inside (s : Sphere α) (x y z : Nat) : Bool :=
  let dx := (x : α) - s.centre.x
  let dy := (y : α) - s.centre.y
  let dz := (z : α) - s.centre.z
  decide (dx * dx + dy * dy + dz * dz ≤ s.radius * s.radius)

/-- The cells from the one below `c - r` to the one above `c + r`, kept within `size` cells. -/
def span (size : Nat) (c r : α) : List Nat :=
  let first := Scalar.floor (c - r)
  let last := min (Scalar.ceil (c + r)) (size - 1)
  List.range' first (last + 1 - first)

/-- Whether a sphere ends a whole cell or more before the block begins, on one axis. -/
def endsBefore (c r : α) : Bool := decide (c + r ≤ -1)

/-- The cells that a cut of the sphere comes to and whose centres lie in it, layer by layer. -/
def reached (g : Grid α) (sphere : Sphere α) : List Cell :=
  let s := g.measureSphere sphere
  if endsBefore s.centre.x s.radius || endsBefore s.centre.y s.radius
      || endsBefore s.centre.z s.radius then []
  else
    let xs := span g.width s.centre.x s.radius
    let ys := span g.height s.centre.y s.radius
    let zs := span g.depth s.centre.z s.radius
    zs.flatMap fun z => ys.flatMap fun y => (xs.filter (inside s · y z)).map (Cell.mk · y z)

/-- Clears every cell whose centre lies in the sphere. If the program ends on the way, the block is
left as the cells before have left it. -/
def carve (g : Grid α) (sphere : Sphere α) : Except (Grid α) (Grid α) :=
  (g.reached sphere).foldlM (fun g c => g.remove c.x c.y c.z) g

end Grid

end Toolpath.Stock
