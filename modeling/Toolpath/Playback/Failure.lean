import Toolpath.Geometry.Caption
import Toolpath.Program.Notice

/-!
# Failures and notices of playback

Playback goes on after a failure; a call that meets one is refused, and the operator is told.
-/

namespace Toolpath.Playback

/-- Why a call is refused. -/
inductive Failure (α : Type) where
  | notLoaded
  | closed
  | invalidSpeed (speed : α)
  /-- Material could not be removed. -/
  | removal (reason : String)
  /-- Nobody is there to handle the call. -/
  | driverStopped

namespace Failure

def message : Failure Float → String
  | notLoaded => "No segments loaded"
  | closed => "Simulator is closed"
  | invalidSpeed speed => s!"Invalid playback speed: {Decimal.plainText speed}"
  | removal reason => s!"Material removal failed: {reason}"
  | driverStopped => "Playback driver stopped"

end Failure

inductive Notice (α : Type) where
  | started (speed : α) (segments : Nat)
  | finished
  | nothingToPlay
  | removalFailed (position : Point α) (failure : Failure α)
  | commandFailed (failure : Failure α)

namespace Notice

variable {α : Type}

def level : Notice α → Level
  | started .. | finished => .info
  | _ => .warning

def message : Notice Float → String
  | started speed segments =>
    s!"Playback started at {Decimal.plainText speed} mm/s over {segments} segments"
  | finished => "Playback finished"
  | nothingToPlay => "Nothing to play: no segments loaded"
  | removalFailed position failure =>
    s!"Material removal failed at {position.caption}: {failure.message}"
  | commandFailed failure => s!"Playback command failed: {failure.message}"

end Notice

end Toolpath.Playback
