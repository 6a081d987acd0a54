import Toolpath.Motion.Cycle
import Toolpath.Program.Statement

/-!
# Modal state

The settings that stay in force from line to line until they are changed.
-/

namespace Toolpath

/-- How coordinates are meant. -/
inductive Positioning where
  | absolute
  | incremental
deriving DecidableEq

/-- The side of the path the cutter is kept on; it is recorded and moves nothing. -/
inductive Compensation where
  | off
  | left
  | right
deriving DecidableEq

structure Modal where
  positioning : Positioning := .absolute
  compensation : Compensation := .off
  cycle : Cycle Float := .idle
  position : Point Float := Point.origin
  feed : Option Float := none
  spindle : Option Float := none

namespace Modal

/-- The state after a code that changes a setting, if the code is one. -/
def withCode? (m : Modal) : (code : Nat) → Option Modal
  | 90 => some { m with positioning := .absolute }
  | 91 => some { m with positioning := .incremental }
  | 40 => some { m with compensation := .off }
  | 41 => some { m with compensation := .left }
  | 42 => some { m with compensation := .right }
  | 80 => some { m with cycle := .idle }
  | _ => none

/-- The coordinate that a word means on an axis that stands at `current`. -/
def axis (m : Modal) (current : Float) : Option Float → Float
  | none => current
  | some x =>
    match m.positioning with
    | .absolute => x
    | .incremental => current + x

/-- The point that words for the three axes mean. -/
def target (m : Modal) (x y z : Option Float) : Point Float :=
  ⟨m.axis m.position.x x, m.axis m.position.y y, m.axis m.position.z z⟩

end Modal

end Toolpath
