import Toolpath.Number.Machine
import Toolpath.Playback.Player
import Toolpath.Stock.Grid

/-!
# Cutting stock with a ball

A ball-end tool and a block of stock, both in binary32, made from binary64 settings; together they
remove material for a player.
-/

namespace Toolpath

open Playback (Failure)

namespace Stock

/-- How the extents of a refused block are shown: with a point or an exponent, the exponent from
10¹⁶ on and below 10⁻⁴. -/
def extentLayout : Decimal.Layout := ⟨some 16, some 3, true⟩

def narrow (p : Point Float) : Point Float32 :=
  ⟨Binary.narrow p.x, Binary.narrow p.y, Binary.narrow p.z⟩

/-- A block of the given extents with its least corner at `origin`, all material. -/
def block (size origin : Point Float) (resolution : Float) : Except (Failure Float) (Grid Float32) :=
  if !Scalar.isPositive resolution then
    .error (.removal s!"voxel resolution must be > 0, got {Decimal.plainText resolution}")
  else if !(Scalar.isPositive size.x && Scalar.isPositive size.y && Scalar.isPositive size.z) then
    let x := extentLayout.text size.x
    let y := extentLayout.text size.y
    let z := extentLayout.text size.z
    .error (.removal s!"stock size must be positive, got ({x}, {y}, {z})")
  else
    .ok (Grid.full (narrow origin) (Scalar.ceil (size.x / resolution))
      (Scalar.ceil (size.y / resolution)) (Scalar.ceil (size.z / resolution))
      (Binary.narrow resolution))

/-- How a call that cuts ends. -/
inductive Ending where
  | done
  | refused (failure : Failure Float)
  /-- The program ended on the way. -/
  | broken

namespace Grid

/-- Whether the cell around a point still holds material, unless the program ends there. -/
def holdsAt? (g : Grid Float32) (p : Point Float) : Option Bool := g.holds? (narrow p)

/-- Cuts a sphere, finite or not. -/
def removeSphere (g : Grid Float32) (s : Sphere Float32) : Grid Float32 × Ending :=
  match g.carve s with
  | .ok g => (g, .done)
  | .error g => (g, .broken)

/-- Cuts a sphere, unless it is not finite. -/
def subtract (g : Grid Float32) (s : Sphere Float32) : Grid Float32 × Ending :=
  if s.centre.isFinite && s.radius.isFinite then g.removeSphere s
  else (g, .refused (.removal "non-finite sphere"))

end Grid

/-- A tool that ends in half a ball. -/
structure Ball where
  radius : Float32

namespace Ball

def ofRadius (radius : Float) : Except (Failure Float) Ball :=
  if Scalar.isPositive radius then .ok ⟨Binary.narrow radius⟩
  else .error (.removal s!"tool radius must be > 0, got {Decimal.plainText radius}")

/-- The ball of the tool with its tip at a point: its centre is a radius above. -/
def sphereAt (b : Ball) (p : Point Float) : Except (Failure Float) (Sphere Float32) :=
  if p.isFinite then
    let tip := narrow p
    .ok ⟨⟨tip.x, tip.y, tip.z + b.radius⟩, b.radius⟩
  else .error (.removal s!"non-finite tool position {p.caption}")

end Ball

/-- A ball and the block it cuts. -/
structure Removal where
  tool : Ball
  stock : Grid Float32
  /-- A cut has ended the program. -/
  broken : Bool := false

namespace Removal

/-- Cuts the ball at a point out of the block. -/
def cutAt (r : Removal) (p : Point Float) : Removal × Ending :=
  match r.tool.sphereAt p with
  | .error failure => (r, .refused failure)
  | .ok sphere =>
    let (stock, ending) := r.stock.subtract sphere
    ({ r with stock }, ending)

/-- No cut follows one that has ended the program. -/
instance : Playback.Remover Removal Float where
  removeAt r p :=
    if r.broken then (r, .ok ())
    else
      match r.cutAt p with
      | (r, .done) => (r, .ok ())
      | (r, .refused failure) => (r, .error failure)
      | (r, .broken) => ({ r with broken := true }, .ok ())

end Removal

end Stock

end Toolpath
