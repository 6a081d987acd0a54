import Toolpath.Motion.Arc
import Toolpath.Number.Machine
import Toolpath.Program.Notice
import Toolpath.Run.Modal

/-!
# Effects of a line

What the words of one line do to the modal state, the moves they make, and the cause if they must
be refused. Refused words make no move.
-/

namespace Toolpath

/-- The line that is executed and what the run knows of it. -/
structure Site where
  /-- Counted from one. -/
  line : Nat
  text : String
  operation : Nat
  /-- Greatest step of an arc, in degrees. -/
  step : Float

namespace Site

def tag (site : Site) : Tag := ⟨site.operation, site.line⟩

end Site

structure Effect where
  modal : Modal
  moves : List (Segment Float) := []
  notices : List Notice := []
  cause : Option Cause := none

/-- What a code sets in motion. -/
inductive Motion where
  | straight (kind : Kind)
  | arc (direction : Arc.Direction)
  | drill
  | peck

namespace Motion

def ofCode? : (code : Nat) → Option Motion
  | 0 => some (straight .rapid)
  | 1 => some (straight .feed)
  | 2 => some (arc .clockwise)
  | 3 => some (arc .counterclockwise)
  | 81 => some drill
  | 83 => some peck
  | _ => none

end Motion

namespace Effect

/-- The point that the words mean. -/
def target (m : Modal) (w : Words Float) : Point Float := m.target w.x w.y w.z

/-- A straight move, if any axis is given. -/
def straight (site : Site) (kind : Kind) (m : Modal) (w : Words Float) : Effect :=
  if w.hasAxis then
    let stop := target m w
    { modal := { m with position := stop }, moves := [⟨kind, m.position, stop, site.tag⟩] }
  else { modal := m }

/-- The centre that the words give; offsets go before a radius. -/
def centre (w : Words Float) : Arc.Centre Float :=
  match w.i, w.j, w.r with
  | none, none, some r => .radius r
  | none, none, none => .missing
  | i, j, _ => .offset (i.getD 0) (j.getD 0)

/-- An arc, subdivided. -/
def arc (site : Site) (direction : Arc.Direction) (m : Modal) (w : Words Float) : Effect :=
  let stop := target m w
  let path := Arc.resolve m.position stop (centre w) direction site.step
  { modal := { m with position := stop }
    moves := path.segments m.position stop site.tag
    notices := match path with
      | .straight why => [.straightArc site.line why site.text]
      | _ => [] }

/-- One hole of the cycle in force at the place the words mean. -/
def hole (site : Site) (m : Modal) (w : Words Float) : Effect :=
  let x := m.axis m.position.x w.x
  let y := m.axis m.position.y w.y
  match m.cycle.expand m.position x y site.tag with
  | .ok moves => { modal := { m with position := Cycle.finish m.position moves }, moves }
  | .error q => { modal := m, cause := some (.invalidPeckDepth q) }

/-- One hole, if a place is given. -/
def holeIfPlaced (site : Site) (m : Modal) (w : Words Float) : Effect :=
  if w.hasPlace then hole site m w else { modal := m }

/-- A cycle is set up from the words, then from the cycle in force, then from the height the tool
is at; a place in the words is drilled at once. A refused step leaves the old cycle. -/
def activate (site : Site) (pecking : Bool) (m : Modal) (w : Words Float) : Effect :=
  let height := m.position.z
  let z? := w.z <|> m.cycle.depth?
  let r? := w.r <|> m.cycle.retract?
  let z := z?.getD height
  let r := r?.getD height
  let notices :=
    (if z?.isNone then [.cycleWithoutDepth site.line height] else [])
      ++ if r?.isNone then [.cycleWithoutRetract site.line height] else []
  let drilled : Effect :=
    if pecking then
      let q := (w.q <|> m.cycle.step?).getD 0
      if Scalar.isPositive q then holeIfPlaced site { m with cycle := .peck z r q } w
      else { modal := m, cause := some (.invalidPeckDepth q) }
    else holeIfPlaced site { m with cycle := .drill z r } w
  { drilled with notices := notices ++ drilled.notices }

/-- A cycle with the values of some words put in. -/
def adjust (w : Words Float) : Cycle Float → Cycle Float
  | .idle => .idle
  | .drill z r => .drill (w.z.getD z) (w.r.getD r)
  | .peck z r q => .peck (w.z.getD z) (w.r.getD r) (w.q.getD q)

/-- Words without a motion code. With a cycle in force they adjust it and drill a hole; otherwise
the position changes without a move. -/
def bare (site : Site) (m : Modal) (w : Words Float) : Effect :=
  match adjust w m.cycle with
  | .idle => { modal := if w.hasAxis then { m with position := target m w } else m }
  | cycle =>
    let m := { m with cycle }
    match cycle.step? with
    | some q =>
      if Scalar.isPositive q then holeIfPlaced site m w
      else { modal := m, cause := some (.invalidPeckDepth q) }
    | none => holeIfPlaced site m w

/-- The effect of a motion, or of words without one. -/
def ofMotion (site : Site) (motion : Option Motion) (m : Modal) (w : Words Float) : Effect :=
  match motion with
  | some (.straight kind) => straight site kind m w
  | some (.arc direction) => arc site direction m w
  | some .drill => activate site false m w
  | some .peck => activate site true m w
  | none => bare site m w

/-- What the preparatory codes of a line come to: the last motion among them and the settings. -/
structure Setup where
  modal : Modal
  motion : Option Motion := none
  notices : List Notice := []

namespace Setup

/-- One more code. -/
def add (line : Nat) (s : Setup) (code : Nat) : Setup :=
  match Motion.ofCode? code with
  | some motion =>
    { s with
      motion := some motion
      notices := s.notices ++ if s.motion.isSome then [.severalMotions line code] else [] }
  | none =>
    match s.modal.withCode? code with
    | some modal => { s with modal }
    | none => { s with notices := s.notices ++ [.unsupportedCode line code] }

/-- All codes in the order written. -/
def ofCodes (line : Nat) (m : Modal) (codes : List Nat) : Setup :=
  codes.foldl (add line) { modal := m }

end Setup

/-- The effect of the codes and words of a line. -/
def ofBlock (site : Site) (m : Modal) (codes : List Nat) (w : Words Float) : Effect :=
  let m := { m with feed := w.f <|> m.feed, spindle := w.s <|> m.spindle }
  let setup := Setup.ofCodes site.line m codes
  let effect := ofMotion site setup.motion setup.modal w
  { effect with notices := setup.notices ++ effect.notices }

end Effect

end Toolpath
