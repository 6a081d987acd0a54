import Toolpath.Motion.Arc
import Toolpath.Program.Fault

/-!
# Notices

What a run of a program tells the operator beside its result.
-/

namespace Toolpath

/-- How much a notice matters. -/
inductive Level where
  | info
  | warning
  | error
deriving DecidableEq

inductive Notice where
  | stepOutOfRange (given used : Float)
  | unsupportedWord (line : Nat) (word : String)
  | malformedRepeat (line : Nat) (text : String)
  | unrecognizedLine (line : Nat) (text : String)
  | emptyRepeat (line : Nat) (text : String)
  | unsupportedCode (line code : Nat)
  | severalMotions (line code : Nat)
  | cycleWithoutDepth (line : Nat) (used : Float)
  | cycleWithoutRetract (line : Nat) (used : Float)
  | straightArc (line : Nat) (why : Arc.Fallback) (text : String)
  | halted (line code : Nat)
  | failed (fault : Fault)

namespace Notice

def level : Notice → Level
  | halted .. => .info
  | failed _ => .error
  | _ => .warning

def message : Notice → String
  | stepOutOfRange given used =>
    s!"Arc step {Decimal.plainText given} degrees is out of range, using {Decimal.plainText used}"
  | unsupportedWord line word => s!"Ignoring unsupported code {word} at line {line}"
  | malformedRepeat line text => s!"Malformed REPEAT at line {line}: {text}"
  | unrecognizedLine line text => s!"Ignoring unrecognized line {line}: {text}"
  | emptyRepeat line text => s!"REPEAT at line {line} has an empty block, skipping: {text}"
  | unsupportedCode line code => s!"Ignoring unsupported G{code} at line {line}"
  | severalMotions line code => s!"Several motion codes at line {line}, G{code} wins"
  | cycleWithoutDepth line used =>
    s!"Canned cycle at line {line} has no Z, using {Decimal.plainText used}"
  | cycleWithoutRetract line used =>
    s!"Canned cycle at line {line} has no R, using {Decimal.plainText used}"
  | straightArc line why text =>
    s!"Arc at line {line} falls back to a linear move ({why.name}): {text}"
  | halted line code => s!"Program halted by M{code} at line {line}"
  | failed fault => s!"G-code interpretation failed: {fault.message}"

end Notice

end Toolpath
