import Toolpath.Settings.Config

/-!
# Settings that pass the check

Checks in a row pass if each of them does, so a configuration passes if each of its sections does
(`Config.check_eq_ok_iff`). No check looks beyond its section.
-/

namespace Toolpath.Settings

theorem require_eq_ok_iff {good : Bool} {key reason : String} :
    require good key reason = .ok () ↔ good = true := by
  cases good <;> simp [require]

theorem requirePositive_eq_ok_iff {x : Float} {key : String} :
    requirePositive x key = .ok () ↔ Scalar.isPositive x = true := require_eq_ok_iff

/-- One check after the other passes if both do. -/
theorem checks_eq_ok_iff {first : Except Problem Unit} {second : Unit → Except Problem Unit} :
    first >>= second = .ok () ↔ first = .ok () ∧ second () = .ok () := by
  cases first <;> simp [bind, Except.bind]

theorem Interpreter.check_eq_ok_iff {s : Interpreter} :
    s.check = .ok () ↔ Interpreter.goodStep s.arcStep = true ∧ s.repeatDepth ≠ 0 := by
  rw [check]
  simp only [checks_eq_ok_iff, require_eq_ok_iff, bne_iff_ne]

theorem Playback.check_eq_ok_iff {s : Playback} :
    s.check = .ok () ↔ s.tick ≠ 0 ∧ Scalar.isPositive s.speed = true := by
  rw [check]
  simp only [checks_eq_ok_iff, requirePositive_eq_ok_iff, require_eq_ok_iff, bne_iff_ne]

theorem Stock.check_eq_ok_iff {s : Stock} :
    s.check = .ok () ↔
      Scalar.isPositive s.width = true ∧ Scalar.isPositive s.height = true ∧
      Scalar.isPositive s.depth = true ∧ Scalar.isPositive s.resolution = true ∧
      Scalar.isPositive s.toolRadius = true ∧ s.origin.isFinite = true := by
  rw [check]
  simp only [checks_eq_ok_iff, requirePositive_eq_ok_iff, require_eq_ok_iff]

namespace Config

theorem check_eq_ok_iff {c : Config} :
    c.check = .ok () ↔ c.interpreter.check = .ok () ∧ c.playback.check = .ok () ∧
      c.stock.check = .ok () := by
  rw [check]
  simp only [checks_eq_ok_iff]

/-- The real numbers of a configuration. -/
def reals (c : Config) : List Float := [
  c.interpreter.arcStep, c.playback.speed, c.stock.width, c.stock.height, c.stock.depth,
  c.stock.origin.x, c.stock.origin.y, c.stock.origin.z, c.stock.resolution, c.stock.toolRadius]

end Config

end Toolpath.Settings
