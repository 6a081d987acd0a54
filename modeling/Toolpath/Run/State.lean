import Toolpath.Program.Reader
import Toolpath.Program.Text
import Toolpath.Run.Effect
import Toolpath.Table

/-!
# States of a run

What a run carries from line to line, and what executing one statement does to it. A command to
repeat only says what is to be repeated; how that comes about is up to the run.
-/

namespace Toolpath

/-- Choices for a run. -/
structure Options where
  /-- Greatest step of an arc, in degrees. -/
  step : Float := Arc.defaultStep
  /-- The most repeated blocks that may be open at once. -/
  depth : Nat := 64
  /-- The operation that moves are stamped with. -/
  operation : Nat := 0
  /-- Where the tool stands before the first line. -/
  start : Point Float := Point.origin

/-- Registers and their values. -/
abbrev Registers := Table Nat Float

namespace Registers

/-- The number that a value denotes, or the register it needs. -/
def resolve (r : Registers) : Value → Except Nat Float
  | .literal x => .ok x
  | .register n =>
    match r.get? n with
    | some x => .ok x
    | none => .error n

end Registers

/-- Labels and the lines they are on, counted from zero. -/
abbrev Labels := Table String Nat

structure State where
  modal : Modal
  registers : Registers := {}
  labels : Labels := {}
  /-- How coordinates were meant when a label line was last reached from outside. -/
  modes : Table Nat Positioning := {}
  log : Log Float := {}
  notices : Array Notice := #[]

/-- A block to be executed again: the lines from `start` up to `stop`. -/
structure Loop where
  start : Nat
  stop : Nat
  /-- How many more times. -/
  passes : Nat
  positioning : Positioning

/-- Where a run goes after a line. -/
inductive Flow where
  | next
  | halt
  | fail (cause : Cause)
  /-- To the start of a block, and after its passes to the next line. -/
  | again (loop : Loop)

namespace State

def start (o : Options) : State := { modal := { position := o.start } }

def setPositioning (s : State) (positioning : Positioning) : State :=
  { s with modal := { s.modal with positioning } }

def note (s : State) (notice : Notice) : State := { s with notices := s.notices.push notice }

/-- The state after the effect of a line. -/
def absorb (s : State) (e : Effect) : State :=
  { s with
    modal := e.modal
    log := s.log.append e.moves
    notices := s.notices ++ e.notices }

/-- The state with labels on line `index`. How coordinates are meant is recorded unless a block
that starts here is open. -/
def declare (active : List Nat) (index : Nat) (s : State) (label : String) : State :=
  { s with
    labels := s.labels.set label index
    modes := if active.contains index then s.modes
      else s.modes.set index s.modal.positioning }

/-- Assignments in order, up to the first that needs a register without a value. -/
def assign (s : State) : List (Nat × Value) → State × Flow
  | [] => (s, .next)
  | (register, value) :: rest =>
    match s.registers.resolve value with
    | .ok x => assign { s with registers := s.registers.set register x } rest
    | .error n => (s, .fail (.undefinedRegister n))

/-- How many more passes a count asks for. Without a count there is one; a count is taken as a
whole number, and the pass that has been made is one of them. -/
def morePasses : Option Float → Nat
  | none => 1
  | some count => if count.isFinite && decide (1 ≤ count) then Scalar.floor count - 1 else 0

/-- The line of a label. -/
def line (s : State) (label : String) : Except Cause Nat :=
  match s.labels.get? label with
  | some n => .ok n
  | none => .error (.unknownLabel label)

/-- The line that ends the block of a command on line `index`. -/
def stopLine (s : State) (index : Nat) : Option String → Except Cause Nat
  | none => .ok index
  | some label => s.line label

/-- The number that a count denotes. -/
def count (s : State) : Option Value → Except Cause (Option Float)
  | none => .ok none
  | some value =>
    match s.registers.resolve value with
    | .ok x => .ok (some x)
    | .error n => .error (.undefinedRegister n)

/-- The block that a command on line `index` repeats. -/
def loop (s : State) (index : Nat) (command : Repeat) : Except Cause Loop := do
  let start ← s.line command.start
  let stop ← s.stopLine index command.stop
  let count ← s.count command.count
  return ⟨start, stop, morePasses count, (s.modes.get? start).getD s.modal.positioning⟩

/-- A command to repeat. No passes or no lines leave only the positioning of the block. -/
def again (s : State) (site : Site) (command : Repeat) : State × Flow :=
  match s.loop (site.line - 1) command with
  | .error cause => (s, .fail cause)
  | .ok loop =>
    if loop.passes = 0 then (s.setPositioning loop.positioning, .next)
    else if loop.stop ≤ loop.start then
      ((s.setPositioning loop.positioning).note (.emptyRepeat site.line site.text), .next)
    else (s, .again loop)

/-- The code with which a line ends the program. -/
def haltCode? (codes : List Nat) : Option Nat :=
  codes.foldl (fun halt code => if code = 2 ∨ code = 30 then some code else halt) none

/-- The words of a line. -/
def block (s : State) (site : Site) (b : Block) : State × Flow :=
  match b.words.traverse s.registers.resolve with
  | .error n => (s, .fail (.undefinedRegister n))
  | .ok words =>
    let effect := Effect.ofBlock site s.modal b.g words
    let s := s.absorb effect
    match effect.cause, haltCode? b.m with
    | some cause, _ => (s, .fail cause)
    | none, some code => (s.note (.halted site.line code), .halt)
    | none, none => (s, .next)

/-- An action on a line. -/
def act (s : State) (site : Site) : Action → State × Flow
  | .blank | .comment => (s, .next)
  | .assign pairs => s.assign pairs
  | .again command => s.again site command
  | .block b => s.block site b
  | .unrecognized => (s.note (.unrecognizedLine site.line site.text), .next)

/-- One statement, with the blocks open that start at the lines `active`. -/
def execute (s : State) (site : Site) (active : List Nat) (statement : Statement) : State × Flow :=
  (statement.labels.foldl (declare active (site.line - 1)) s).act site statement.action

end State

end Toolpath
