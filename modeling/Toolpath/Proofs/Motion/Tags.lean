import Toolpath.Motion.Arc
import Toolpath.Motion.Cycle

/-!
# Tags of moves

The tag of a move says where the move comes from and has no say in where it leads. What makes moves
makes the same ones under every tag: the chords of an arc (`Arc.Path.segments_retag`) and the pecks
of a drilling cycle (`Cycle.expand_retag`).
-/

namespace Toolpath

variable {α : Type} {tag : Tag} {f : Tag → Tag}

/-- The move with another tag. -/
def Segment.retag (f : Tag → Tag) (s : Segment α) : Segment α := { s with tag := f s.tag }

namespace Arc

theorem chain_retag (start : Point α) (points : List (Point α)) :
    chain (f tag) start points = (chain tag start points).map (Segment.retag f) := by
  induction points generalizing start with
  | nil => rfl
  | cons p rest ih => exact congrArg _ (ih p)

theorem Path.segments_retag (path : Path α) (start stop : Point α) :
    path.segments start stop (f tag) = (path.segments start stop tag).map (Segment.retag f) := by
  cases path with
  | chords centre radius sweep points => exact chain_retag start points
  | vertical | stationary | straight why => rfl

end Arc

namespace Cycle

theorem finish_retag (start : Point α) (moves : List (Segment α)) :
    finish start (moves.map (Segment.retag f)) = finish start moves := by
  rw [finish, finish, List.getLast?_map, Option.map_map]
  rfl

variable [Scalar α]

theorem pecks_retag (top x y z r q : α) (left k : Nat) (start : Point α) (last : α) :
    pecks (f tag) top x y z r q left k start last =
      (pecks tag top x y z r q left k start last).map (List.map (Segment.retag f)) := by
  induction left generalizing k start last with
  | zero => rfl
  | succ left ih =>
    rw [pecks, pecks]
    generalize (if left = 0 then z else Scalar.greatest (top - q * (k : α)) z) = depth
    by_cases hstuck : last ≤ depth ∧ z < last
    · rw [if_pos hstuck, if_pos hstuck]
      rfl
    · rw [if_neg hstuck, if_neg hstuck]
      by_cases hlast : depth ≤ z
      · rw [if_pos hlast, if_pos hlast]
        rfl
      · rw [if_neg hlast, if_neg hlast, ih, Option.map_map, Option.map_map]
        rfl

theorem expand_retag (cycle : Cycle α) (f : Tag → Tag) (tag : Tag) (start : Point α) (x y : α) :
    cycle.expand start x y (f tag) =
      (cycle.expand start x y tag).map (List.map (Segment.retag f)) := by
  cases cycle with
  | idle | drill z r => rfl
  | peck z r q =>
    rw [expand, expand]
    split
    · cases peckCount start.z z q with
      | none => rfl
      | some count =>
        rw [Option.bind_some, Option.bind_some, pecks_retag]
        cases pecks tag start.z x y z r q count 1 start start.z with
        | none => rfl
        | some moves => rfl
    · rfl

end Cycle

end Toolpath
