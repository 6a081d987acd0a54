import Toolpath.Proofs.Number.Narrowing
import Toolpath.Proofs.Settings.Check
import Toolpath.Proofs.Stock.Memory
import Toolpath.Settings.Use

/-!
# What blocks and balls are made of

The settings of a block and of a ball are tested as they are given, and what is kept of them is
narrower: the resolution and the radius in binary32, the number of cells in a word. So a setting that
passes may be kept as zero or as infinity, and cells may be more than are counted. Here is when that
does not happen (`admitted_iff`).
-/

namespace Toolpath.Stock

/-- The number lies between the bounds of what stays positive and finite when it is narrowed. -/
def Kept (x : Float) : Prop := Binary.least32 < x ∧ x < Binary.greatest32

instance (x : Float) : Decidable (Kept x) := inferInstanceAs (Decidable (_ ∧ _))

/-- The number of cells that a block is asked for. -/
def cellsOf (size : Point Float) (resolution : Float) : Nat :=
  Scalar.ceil (size.x / resolution) * Scalar.ceil (size.y / resolution) *
    Scalar.ceil (size.z / resolution)

/-- The cells of a block have an edge, and words can count them. -/
structure Grid.Sized (g : Grid Float32) : Prop where
  edge : Scalar.isPositive g.resolution = true
  whole : g.Whole

theorem Ball.ofRadius_eq_ok_iff {radius : Float} {ball : Ball} :
    Ball.ofRadius radius = .ok ball ↔
      Scalar.isPositive radius = true ∧ ball = ⟨Binary.narrow radius⟩ := by
  rw [Ball.ofRadius]
  cases Scalar.isPositive radius with
  | false => simp
  | true => simp [eq_comm]

/-- A ball that is made has a radius above zero if the given one is in the bounds. -/
theorem Ball.isPositive_radius_iff {radius : Float} {ball : Ball}
    (h : Ball.ofRadius radius = .ok ball) : Scalar.isPositive ball.radius = true ↔ Kept radius := by
  obtain ⟨hradius, rfl⟩ := Ball.ofRadius_eq_ok_iff.1 h
  exact Binary.isPositive_narrow_iff hradius

/-- The bytes of a block are counted in a word. -/
theorem cellCount_of_block {size origin : Point Float} {resolution : Float} {g : Grid Float32}
    (h : block size origin resolution = .ok g) :
    g.cellCount = cellsOf size resolution % 2 ^ 64 ∧ g.frame.cells = cellsOf size resolution := by
  obtain ⟨-, -, rfl⟩ := block_eq_ok_iff.1 h
  exact ⟨Array.size_replicate, rfl⟩

theorem Grid.isPositive_resolution_iff {size origin : Point Float} {resolution : Float}
    {g : Grid Float32} (h : block size origin resolution = .ok g) :
    Scalar.isPositive g.resolution = true ↔ Kept resolution := by
  obtain ⟨hres, -, rfl⟩ := block_eq_ok_iff.1 h
  exact Binary.isPositive_narrow_iff hres

/-- A block that is made has cells with an edge, and a byte for each, if its resolution is in the
bounds and words can count its cells. -/
theorem Grid.sized_iff {size origin : Point Float} {resolution : Float} {g : Grid Float32}
    (h : block size origin resolution = .ok g) :
    g.Sized ↔ Kept resolution ∧ cellsOf size resolution < 2 ^ 64 := by
  have hcells := (cellCount_of_block h).2
  have hedge := isPositive_resolution_iff h
  constructor
  · intro hg
    exact ⟨hedge.1 hg.edge, hcells ▸ hg.whole.fits⟩
  · rintro ⟨hkept, hfit⟩
    exact ⟨hedge.2 hkept, whole_of_block h (hcells ▸ hfit : g.frame.cells < 2 ^ 64)⟩

end Toolpath.Stock

namespace Toolpath.Settings

namespace Config

/-- Settings that pass the check make a ball and a block. -/
theorem removal_of_check {c : Config} (h : c.check = .ok ()) :
    ∃ removal, c.removal = .ok removal ∧
      Toolpath.Stock.block ⟨c.stock.width, c.stock.height, c.stock.depth⟩ c.stock.origin
        c.stock.resolution = .ok removal.stock ∧
      Toolpath.Stock.Ball.ofRadius c.stock.toolRadius = .ok removal.tool := by
  obtain ⟨-, -, h⟩ := check_eq_ok_iff.1 h
  obtain ⟨hwidth, hheight, hdepth, hres, hradius, -⟩ := Stock.check_eq_ok_iff.1 h
  have hblock : Toolpath.Stock.block ⟨c.stock.width, c.stock.height, c.stock.depth⟩ c.stock.origin
      c.stock.resolution = .ok _ :=
    Toolpath.Stock.block_eq_ok_iff.2 ⟨hres, by simp [hwidth, hheight, hdepth], rfl⟩
  have hball := Toolpath.Stock.Ball.ofRadius_eq_ok_iff.2 ⟨hradius, rfl⟩
  refine ⟨{ tool := _, stock := _ }, ?_, hblock, hball⟩
  rw [removal]
  dsimp only
  rw [hblock, hball]
  rfl

/-- What is kept of the resolution and of the radius. -/
theorem narrow_of_check {c : Config} (h : c.check = .ok ()) :
    ∃ removal, c.removal = .ok removal ∧
      removal.stock.resolution = Binary.narrow c.stock.resolution ∧
      removal.tool.radius = Binary.narrow c.stock.toolRadius := by
  obtain ⟨removal, hremoval, hblock, hball⟩ := removal_of_check h
  obtain ⟨-, -, hstock⟩ := Toolpath.Stock.block_eq_ok_iff.1 hblock
  obtain ⟨-, htool⟩ := Toolpath.Stock.Ball.ofRadius_eq_ok_iff.1 hball
  exact ⟨removal, hremoval, congrArg Toolpath.Stock.Grid.resolution hstock,
    congrArg Toolpath.Stock.Ball.radius htool⟩

end Config

end Toolpath.Settings

namespace Toolpath.Stock

open Settings (Config)

/-- Blocks and balls that are made have cells with an edge, a byte for each cell and a radius above
zero exactly where the settings lie in the bounds and words can count the cells; settings that pass
the check always make them. -/
theorem admitted_iff (size origin : Point Float) (resolution radius : Float) (c : Config) :
    (∀ g, block size origin resolution = .ok g →
      (Scalar.isPositive g.resolution = true ↔ Kept resolution) ∧
      g.cellCount = cellsOf size resolution % 2 ^ 64 ∧
      (g.Sized ↔ Kept resolution ∧ cellsOf size resolution < 2 ^ 64)) ∧
    (∀ ball, Ball.ofRadius radius = .ok ball →
      (Scalar.isPositive ball.radius = true ↔ Kept radius)) ∧
    (c.check = .ok () → ∃ removal, c.removal = .ok removal ∧
      (removal.stock.Sized ↔ Kept c.stock.resolution ∧
        cellsOf ⟨c.stock.width, c.stock.height, c.stock.depth⟩ c.stock.resolution < 2 ^ 64) ∧
      (Scalar.isPositive removal.tool.radius = true ↔ Kept c.stock.toolRadius)) := by
  refine ⟨fun g h => ?_, fun ball h => Ball.isPositive_radius_iff h, fun h => ?_⟩
  · exact ⟨Grid.isPositive_resolution_iff h, (cellCount_of_block h).1, Grid.sized_iff h⟩
  · obtain ⟨removal, hremoval, hblock, hball⟩ := Config.removal_of_check h
    exact ⟨removal, hremoval, Grid.sized_iff hblock, Ball.isPositive_radius_iff hball⟩

/-- A block of two cells, a ball and the settings that come with nothing given. -/
theorem admitted_iff_default :
    Grid.pair.Sized ∧
    (∃ ball, Ball.ofRadius 1 = .ok ball ∧ Scalar.isPositive ball.radius = true) ∧
    ∃ removal, ({} : Config).removal = .ok removal ∧ removal.stock.Sized ∧
      Scalar.isPositive removal.tool.radius = true := by
  obtain ⟨hblock, hball, hconfig⟩ := admitted_iff ⟨2, 1, 1⟩ ⟨0, 0, 0⟩ 1 1 {}
  refine ⟨?_, ?_, ?_⟩
  · exact (hblock _ Grid.block_pair).2.2.2 (by decide +kernel)
  · have hone : Ball.ofRadius 1 = .ok ⟨Binary.narrow 1⟩ :=
      Ball.ofRadius_eq_ok_iff.2 ⟨by decide +kernel, rfl⟩
    exact ⟨_, hone, (hball _ hone).2 (by decide +kernel)⟩
  · obtain ⟨removal, hremoval, hstock, htool⟩ := hconfig (by decide +kernel)
    exact ⟨removal, hremoval, hstock.2 (by decide +kernel), htool.2 (by decide +kernel)⟩

/-- Extents, a resolution and a radius that are narrowed to zero. -/
def tiny : Config := { stock := ⟨1e-50, 1e-50, 1e-50, ⟨0, 0, 0⟩, 1e-50, 1e-50⟩ }

/-- Extents, a resolution and a radius that are narrowed to infinity. -/
def huge : Config := { stock := ⟨1e39, 1e39, 1e39, ⟨0, 0, 0⟩, 1e39, 1e39⟩ }

/-- More cells than words can count. -/
def wide : Config := { stock := ⟨4194304, 4194304, 4194304, ⟨0, 0, 0⟩, 1, 1⟩ }

/-- Settings that pass the check, and what is made of them: cells without an edge and a ball without a
radius; infinite ones; a block without bytes. -/
theorem not_sized_tiny_huge_wide :
    (tiny.check = .ok () ∧ ∃ removal, tiny.removal = .ok removal ∧
      removal.stock.resolution = 0 ∧ removal.tool.radius = 0) ∧
    (huge.check = .ok () ∧ ∃ removal, huge.removal = .ok removal ∧
      removal.stock.resolution.isFinite = false ∧ removal.tool.radius.isFinite = false) ∧
    wide.check = .ok () ∧ ∃ removal, wide.removal = .ok removal ∧
      2 ^ 64 ≤ removal.stock.width * removal.stock.height * removal.stock.depth ∧
      removal.stock.cellCount = 0 := by
  have htiny : tiny.check = .ok () := by decide +kernel
  have hhuge : huge.check = .ok () := by decide +kernel
  have hwide : wide.check = .ok () := by decide +kernel
  refine ⟨⟨htiny, ?_⟩, ⟨hhuge, ?_⟩, hwide, ?_⟩
  · obtain ⟨removal, hremoval, hres, hradius⟩ := Config.narrow_of_check htiny
    exact ⟨removal, hremoval, hres.trans (by decide +kernel), hradius.trans (by decide +kernel)⟩
  · obtain ⟨removal, hremoval, hres, hradius⟩ := Config.narrow_of_check hhuge
    exact ⟨removal, hremoval, hres ▸ by decide +kernel, hradius ▸ by decide +kernel⟩
  · obtain ⟨removal, hremoval, hblock, -⟩ := Config.removal_of_check hwide
    have hcells : cellsOf ⟨wide.stock.width, wide.stock.height, wide.stock.depth⟩
        wide.stock.resolution = 2 ^ 66 := by decide +kernel
    obtain ⟨hcount, hframe⟩ := cellCount_of_block hblock
    rw [hcells] at hcount hframe
    refine ⟨removal, hremoval, ?_, hcount.trans (by decide)⟩
    exact Nat.le_trans (by decide) hframe.ge

end Toolpath.Stock
