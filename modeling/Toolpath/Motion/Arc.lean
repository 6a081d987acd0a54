import Toolpath.Motion.Segment

/-!
# Circular arcs

An arc command names an end, a centre and a turning direction; it comes down to chords of at most
a set angle, with the height interpolated along the sweep. `Arc.resolve` decides what the command
means and `Arc.Path.segments` gives the moves.
-/

namespace Toolpath.Arc

/-- Sense of rotation seen from above. -/
inductive Direction where
  | clockwise
  | counterclockwise
deriving DecidableEq

/-- How the centre was programmed. -/
inductive Centre (α : Type) where
  /-- Offsets from the start. -/
  | offset (i j : α)
  | radius (r : α)
  | missing

/-- Why an arc is replaced by one straight move. -/
inductive Fallback where
  | degenerateRadius
  | unresolvedCentre
  | missingCentre
deriving DecidableEq

namespace Fallback

def name : Fallback → String
  | degenerateRadius => "DegenerateRadius"
  | unresolvedCentre => "UnresolvedCenter"
  | missingCentre => "MissingCenter"

end Fallback

/-- The course that an arc command stands for. -/
inductive Path (α : Type) where
  /-- Chords through `points`, the last of which is the programmed end. -/
  | chords (centre : α × α) (radius sweep : α) (points : List (Point α))
  /-- The ends share their place and differ in height. -/
  | vertical
  /-- The ends are the same. -/
  | stationary
  | straight (why : Fallback)

variable {α : Type}

/-- Feed moves from `start` through each of the points in turn. -/
def chain (tag : Tag) : (start : Point α) → List (Point α) → List (Segment α)
  | _, [] => []
  | start, p :: rest => ⟨.feed, start, p, tag⟩ :: chain tag p rest

def Path.segments (path : Path α) (start stop : Point α) (tag : Tag) : List (Segment α) :=
  match path with
  | .chords _ _ _ points => chain tag start points
  | .vertical | .straight _ => [⟨.feed, start, stop, tag⟩]
  | .stationary => []

section Scalar

variable [Scalar α]

/-- The step taken when none is given or the given one is unusable, in degrees. -/
def defaultStep : α := ((5 : Nat) : α)

/-- The greatest usable step, in degrees. -/
def greatestStep : α := ((90 : Nat) : α)

/-- A usable step: at most `greatestStep`, and `defaultStep` in place of a step that is not finite
or not positive. -/
def usableStep (step : α) : α :=
  if Scalar.isPositive step then Scalar.least step greatestStep else defaultStep

/-- Adds `turn` while the angle is not above zero, at most `n` times. -/
def raise (turn : α) : (n : Nat) → α → α
  | 0, angle => angle
  | n + 1, angle => if angle ≤ 0 then raise turn n (angle + turn) else angle

/-- Takes `turn` away while the angle is above it, at most `n` times. -/
def lower (turn : α) : (n : Nat) → α → α
  | 0, angle => angle
  | n + 1, angle => if turn < angle then lower turn n (angle - turn) else angle

/-- Takes `turn` away while the angle is not below zero, at most `n` times. -/
def sink (turn : α) : (n : Nat) → α → α
  | 0, angle => angle
  | n + 1, angle => if 0 ≤ angle then sink turn n (angle - turn) else angle

/-- Adds `turn` while the angle is below its negation, at most `n` times. -/
def lift (turn : α) : (n : Nat) → α → α
  | 0, angle => angle
  | n + 1, angle => if angle < -turn then lift turn n (angle + turn) else angle

/-- Enough turns to bring an angle within one turn of zero, also when each of them is rounded. -/
def turns (turn angle : α) : Nat := 2 * Scalar.ceil (Scalar.abs angle / turn) + 2

/-- The difference of two angles as a sweep: in `(0, turn]` counterclockwise and in `[-turn, 0)`
clockwise. -/
def normalizeSweep (turn first last : α) (direction : Direction) : α :=
  let sweep := last - first
  let n := turns turn sweep
  match direction with
  | .counterclockwise => lower turn n (raise turn n sweep)
  | .clockwise => lift turn n (sink turn n sweep)

end Scalar

section Analytic

variable [Analytic α]

/-- A full turn. -/
def turn : α := Analytic.pi + Analytic.pi

/-- The signed angle swept from `start` to `stop` about `centre`. -/
def sweep (start stop : Point α) (centre : α × α) (direction : Direction) : α :=
  normalizeSweep turn
    (Analytic.atan2 (start.y - centre.2) (start.x - centre.1))
    (Analytic.atan2 (stop.y - centre.2) (stop.x - centre.1)) direction

/-- The two centres at distance `radius` from both ends. -/
def centres (start stop : Point α) (radius : α) : Option ((α × α) × (α × α)) :=
  let dx := stop.x - start.x
  let dy := stop.y - start.y
  let chord := Analytic.hypot dx dy
  let two : α := ((2 : Nat) : α)
  if chord ≤ Point.tolerance || !Scalar.isFinite radius then none
  else
    let half := chord / two
    if radius < half - Point.tolerance then none
    else
      let h := Analytic.sqrt (Scalar.greatest (radius * radius - half * half) 0)
      let mx := (start.x + stop.x) / two
      let my := (start.y + stop.y) / two
      let ux := -dy / chord
      let uy := dx / chord
      some ((mx + ux * h, my + uy * h), (mx - ux * h, my - uy * h))

/-- The centre at distance `radius` about which the sweep is the lesser. -/
def centre (start stop : Point α) (radius : α) (direction : Direction) : Option (α × α) :=
  (centres start stop (Scalar.abs radius)).map fun (a, b) =>
    if Scalar.abs (sweep start stop a direction) ≤ Scalar.abs (sweep start stop b direction) then a
    else b

/-- Radii up to this are no arcs. -/
def leastRadius : α := Scalar.tenth 12

/-- The centre that a command means, or why it means none. -/
def Centre.resolve (c : Centre α) (start stop : Point α) (direction : Direction) :
    Except Fallback (α × α) :=
  match c with
  | .offset i j => .ok (start.x + i, start.y + j)
  | .radius r =>
    match centre start stop r direction with
    | some c => .ok c
    | none => .error .unresolvedCentre
  | .missing => .error .missingCentre

/-- How many chords of at most `step` degrees a sweep takes; one part in 10⁹ is forgiven. -/
def chordCount (sweep step : α) : Nat :=
  let radians := step * (Analytic.pi / ((180 : Nat) : α))
  max 1 (Scalar.ceil (Scalar.abs sweep / radians - Scalar.tenth 9))

/-- The end of chord `i` of `n`; the last is `stop` itself. -/
def chordEnd (start stop : Point α) (centre : α × α) (radius angle sweep : α) (n i : Nat) :
    Point α :=
  if i = n then stop
  else
    let t := (i : α) / (n : α)
    let bearing := angle + sweep * t
    { x := centre.1 + radius * Analytic.cos bearing
      y := centre.2 + radius * Analytic.sin bearing
      z := start.z + (stop.z - start.z) * t }

/-- What an arc command stands for. -/
def resolve (start stop : Point α) (c : Centre α) (direction : Direction) (step : α) : Path α :=
  if start.sameXY stop then
    if Scalar.abs (start.z - stop.z) ≤ Point.tolerance then .stationary else .vertical
  else
    match c.resolve start stop direction with
    | .error why => .straight why
    | .ok centre =>
      let radius := Analytic.hypot (start.x - centre.1) (start.y - centre.2)
      if radius ≤ leastRadius then .straight .degenerateRadius
      else
        let angle := Analytic.atan2 (start.y - centre.2) (start.x - centre.1)
        let swept := sweep start stop centre direction
        let n := chordCount swept (usableStep step)
        .chords centre radius swept
          ((List.range n).map fun i => chordEnd start stop centre radius angle swept n (i + 1))

end Analytic

end Toolpath.Arc
