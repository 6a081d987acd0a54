import Toolpath.Run.State
import Toolpath.Settings.Config
import Toolpath.Stock.Removal

/-!
# What settings are for

The options of a run, the configuration of a player, and the tool and the block that settings
describe.
-/

namespace Toolpath.Settings.Config

def options (c : Config) : Options where
  step := c.interpreter.arcStep
  depth := c.interpreter.repeatDepth.toNat

def player (c : Config) : Toolpath.Playback.Config Float where
  tick := c.playback.tick.toNat * 10 ^ 6
  speed := c.playback.speed
  removalInterval := c.playback.removalInterval.toNat

/-- The ball and the block, unless one of them cannot be. -/
def removal (c : Config) : Except (Toolpath.Playback.Failure Float) Toolpath.Stock.Removal := do
  let s := c.stock
  let stock ← Toolpath.Stock.block ⟨s.width, s.height, s.depth⟩ s.origin s.resolution
  let tool ← Toolpath.Stock.Ball.ofRadius s.toolRadius
  return { tool, stock }

end Toolpath.Settings.Config
