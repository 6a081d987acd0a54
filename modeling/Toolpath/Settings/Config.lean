import Toolpath.Geometry.Point
import Toolpath.Number.Decimal
import Toolpath.Number.Machine
import Toolpath.Settings.Problem

/-!
# Settings

What can be set, in three sections. A configuration that passes `Config.check` can be used
everywhere; `Config.merge` lays one configuration over another.
-/

namespace Toolpath.Settings

structure Interpreter where
  /-- Greatest step of an arc, in degrees. -/
  arcStep : Float := 5
  /-- The most repeated blocks that may be open at once. -/
  repeatDepth : UInt64 := 64
deriving BEq

structure Playback where
  /-- The time between ticks, in milliseconds. -/
  tick : UInt64 := 30
  /-- In millimetres a second. -/
  speed : Float := 10
  /-- Material is taken away at every such update of the marker; never if it is zero. -/
  removalInterval : UInt32 := 0
deriving BEq

structure Stock where
  width : Float := 100
  height : Float := 100
  depth : Float := 20
  /-- The least corner of the block. -/
  origin : Point Float := ⟨0, 0, -20⟩
  /-- Edge of a cell. -/
  resolution : Float := 0.5
  /-- Radius of the ball that cuts. -/
  toolRadius : Float := 1.5
deriving BEq

structure Config where
  interpreter : Interpreter := {}
  playback : Playback := {}
  stock : Stock := {}
deriving BEq

/-- Passes if a setting is good. -/
def require (good : Bool) (key reason : String) : Except Problem Unit :=
  if good then .ok () else .error (.invalid key reason)

/-- Passes if a setting is finite and above zero. -/
def requirePositive (x : Float) (key : String) : Except Problem Unit :=
  require (Scalar.isPositive x) key "must be > 0"

namespace Interpreter

/-- Whether a step is above zero and at most a quarter turn. -/
def goodStep (step : Float) : Bool := decide (0 < step) && decide (step ≤ 90)

def check (s : Interpreter) : Except Problem Unit := do
  let given := Decimal.plainText s.arcStep
  require (goodStep s.arcStep) "interpreter.arc_step_degrees" s!"must be in (0, 90], got {given}"
  require (s.repeatDepth != 0) "interpreter.max_repeat_depth" "must be > 0"

end Interpreter

namespace Playback

def check (s : Playback) : Except Problem Unit := do
  require (s.tick != 0) "playback.tick_interval_ms" "must be > 0"
  requirePositive s.speed "playback.default_speed"

end Playback

namespace Stock

def check (s : Stock) : Except Problem Unit := do
  requirePositive s.width "stock.width"
  requirePositive s.height "stock.height"
  requirePositive s.depth "stock.depth"
  requirePositive s.resolution "stock.resolution"
  requirePositive s.toolRadius "stock.tool_radius"
  require s.origin.isFinite "stock.origin" "must be finite"

end Stock

/-- The section `new` in place of `old`, unless it holds nothing but defaults. -/
def overlay {β : Type} [BEq β] (default old new : β) : β := if new == default then old else new

theorem overlay_of_beq {β : Type} [BEq β] {default new : β} (old : β) (h : (new == default) = true) :
    overlay default old new = old := if_pos h

theorem overlay_of_not_beq {β : Type} [BEq β] {default new : β} (old : β)
    (h : (new == default) = false) : overlay default old new = new := by
  simp [overlay, h]

namespace Config

/-- The first setting that is not good, section by section. -/
def check (c : Config) : Except Problem Unit := do
  c.interpreter.check
  c.playback.check
  c.stock.check

/-- The sections of `new`, with those of `old` where `new` holds nothing but defaults. -/
def merge (old new : Config) : Config where
  interpreter := overlay {} old.interpreter new.interpreter
  playback := overlay {} old.playback new.playback
  stock := overlay {} old.stock new.stock

end Config

end Toolpath.Settings
