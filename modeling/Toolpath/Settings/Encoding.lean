import Toolpath.Json.Writer
import Toolpath.Settings.Config
import Toolpath.Toml.Writer

/-!
# Settings as text

Every setting is written, in a set order. TOML has no integers from 2⁶³ on.
-/

namespace Toolpath.Settings

open Toolpath.Json (Document)
open Toolpath.Toml (Section Plain)

namespace Config

def document (c : Config) : Document :=
  let real := Document.ofFloat
  .ofEntries [
    ("interpreter", .ofEntries [
      ("arc_step_degrees", real c.interpreter.arcStep),
      ("max_repeat_depth", .ofNat c.interpreter.repeatDepth.toNat)]),
    ("playback", .ofEntries [
      ("tick_interval_ms", .ofNat c.playback.tick.toNat),
      ("default_speed", real c.playback.speed),
      ("removal_interval", .ofNat c.playback.removalInterval.toNat)]),
    ("stock", .ofEntries [
      ("width", real c.stock.width),
      ("height", real c.stock.height),
      ("depth", real c.stock.depth),
      ("origin", .list [real c.stock.origin.x, real c.stock.origin.y, real c.stock.origin.z]),
      ("resolution", real c.stock.resolution),
      ("tool_radius", real c.stock.toolRadius)])]

def toJson (c : Config) : String := c.document.pretty

/-- Whether a number is an integer of TOML. -/
def fits (n : Nat) : Bool := decide (n < 2 ^ 63)

def sections (c : Config) : List Section := [
  ⟨"interpreter", [
    ("arc_step_degrees", .real c.interpreter.arcStep),
    ("max_repeat_depth", .integer c.interpreter.repeatDepth.toNat)]⟩,
  ⟨"playback", [
    ("tick_interval_ms", .integer c.playback.tick.toNat),
    ("default_speed", .real c.playback.speed),
    ("removal_interval", .integer c.playback.removalInterval.toNat)]⟩,
  ⟨"stock", [
    ("width", .real c.stock.width),
    ("height", .real c.stock.height),
    ("depth", .real c.stock.depth),
    ("origin", .reals [c.stock.origin.x, c.stock.origin.y, c.stock.origin.z]),
    ("resolution", .real c.stock.resolution),
    ("tool_radius", .real c.stock.toolRadius)]⟩]

/-- The TOML text of a configuration, unless a number does not fit. -/
def toToml? (c : Config) : Option String :=
  if fits c.interpreter.repeatDepth.toNat && fits c.playback.tick.toNat then
    some (Section.document c.sections)
  else none

end Config

end Toolpath.Settings
