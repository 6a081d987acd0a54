import Toolpath.Motion.Segment
import Toolpath.Number.Decimal

/-!
# Drilling cycles

A cycle turns a place in the plane into plunges and retracts. Its depth and retract height are
absolute; a pecking cycle goes down in steps and retracts after each.
-/

namespace Toolpath

/-- The drilling cycle in force. -/
inductive Cycle (α : Type) where
  | idle
  /-- Plunge to `z`, retract to `r`. -/
  | drill (z r : α)
  /-- Plunge to `z` in steps of `q`, retracting to `r` after each. -/
  | peck (z r q : α)

namespace Cycle

variable {α : Type}

def isActive : Cycle α → Bool
  | idle => false
  | drill .. | peck .. => true

def depth? : Cycle α → Option α
  | idle => none
  | drill z _ | peck z _ _ => some z

def retract? : Cycle α → Option α
  | idle => none
  | drill _ r | peck _ r _ => some r

def step? : Cycle α → Option α
  | idle | drill .. => none
  | peck _ _ q => some q

/-- A plunge to `depth` at a place and the retract from it. -/
def plunge (tag : Tag) (start : Point α) (x y depth r : α) : List (Segment α) :=
  [⟨.feed, start, ⟨x, y, depth⟩, tag⟩, ⟨.rapid, ⟨x, y, depth⟩, ⟨x, y, r⟩, tag⟩]

/-- The most pecks one hole may take. -/
def mostPecks : Nat := 10000

variable [Scalar α]

/-- How many pecks of `q` lead from `top` down to `z`, unless they are too many. -/
def peckCount (top z q : α) : Option Nat :=
  let n := max 1 (Scalar.ceil ((top - z) / q))
  if mostPecks < n then none else some n

/-- The pecks from number `k` on, `left` of them, of which the last goes to `z`. The tool stands at
`start` and has been down to `last`. There is no answer if a peck would not go deeper. -/
def pecks (tag : Tag) (top x y z r q : α) :
    (left k : Nat) → (start : Point α) → (last : α) → Option (List (Segment α))
  | 0, _, _, _ => some []
  | left + 1, k, start, last =>
    let depth := if left = 0 then z else Scalar.greatest (top - q * (k : α)) z
    if last ≤ depth ∧ z < last then none
    else if depth ≤ z then some (plunge tag start x y depth r)
    else
      (pecks tag top x y z r q left (k + 1) ⟨x, y, r⟩ depth).map
        (plunge tag start x y depth r ++ ·)

/-- The moves of a cycle at a place, or the step that was refused. An idle cycle makes none. -/
def expand (cycle : Cycle α) (start : Point α) (x y : α) (tag : Tag) :
    Except α (List (Segment α)) :=
  match cycle with
  | idle => .ok []
  | drill z r => .ok (plunge tag start x y z r)
  | peck z r q =>
    if Scalar.isPositive q then
      match (peckCount start.z z q).bind fun n => pecks tag start.z x y z r q n 1 start start.z with
      | some moves => .ok moves
      | none => .error q
    else .error q

/-- The point where a list of moves ends. -/
def finish (start : Point α) (moves : List (Segment α)) : Point α :=
  (moves.getLast?.map Segment.stop).getD start

/-- The moves of a cycle at each of some places in turn. -/
def drillAll (cycle : Cycle α) (start : Point α) : List (α × α) → Except α (List (Segment α))
  | [] => .ok []
  | (x, y) :: rest => do
    let moves ← cycle.expand start x y {}
    let more ← cycle.drillAll (finish start moves) rest
    return moves ++ more

/-- The codes and words that set a cycle up. -/
def text : Cycle Float → String
  | idle => "G80"
  | drill z r => s!"G81 Z{Decimal.plainText z} R{Decimal.plainText r}"
  | peck z r q => s!"G83 Z{Decimal.plainText z} R{Decimal.plainText r} Q{Decimal.plainText q}"

end Cycle

end Toolpath
