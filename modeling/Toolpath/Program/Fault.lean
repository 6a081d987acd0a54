import Toolpath.Number.Decimal

/-!
# Faults

What ends the run of a program. A fault names its cause, the line it is found on and the text of
that line.
-/

namespace Toolpath

/-- Why a line cannot be executed. -/
inductive Cause where
  | malformedNumber (literal : String)
  | invalidAddress (address : Char)
  | duplicateAddress (address : Char)
  | unknownLabel (label : String)
  | undefinedRegister (register : Nat)
  | invalidPeckDepth (depth : Float)
  | nestingTooDeep (limit : Nat)

/-- A cause on a line, with the lines counted from one. -/
structure Fault where
  line : Nat
  text : String
  cause : Cause

namespace Cause

/-- The cause in words. -/
def text : Cause → String
  | malformedNumber literal => s!"Malformed number '{literal}'"
  | invalidAddress address => s!"Invalid address '{address}'"
  | duplicateAddress address => s!"Duplicate address '{address}'"
  | unknownLabel label => s!"Unknown label '{label}'"
  | undefinedRegister register => s!"Undefined variable R{register}"
  | invalidPeckDepth depth => s!"Invalid peck depth Q{Decimal.plainText depth}"
  | nestingTooDeep limit => s!"REPEAT nesting deeper than {limit}"

end Cause

namespace Fault

def message (f : Fault) : String := s!"{f.cause.text} at line {f.line}: {f.text}"

end Fault

end Toolpath
