import Mathlib.Algebra.Order.Floor.Semiring
import Mathlib.Tactic.FieldSimp
import Mathlib.Tactic.Linarith
import Mathlib.Tactic.Ring
import Toolpath.Number.Exact
import Toolpath.Proofs.Stock.Memory

/-!
# Cuts in exact arithmetic

A cut looks at the cells of a box around its sphere and at no others. In exact arithmetic nothing is
missed by that: a cell whose centre lies in the sphere is at most a radius away from the middle of the
sphere along each axis (`abs_le_of_inside`), and so it stands between the faces of the box
(`mem_span`). The cut is therefore the one that looks at all cells of the block (`cutEvery`), and a
point sees of it what the centre of its cell sees.
-/

namespace Toolpath.Stock

variable {K : Type} [Field K] [LinearOrder K] [FloorSemiring K]

/-- The point is at most a radius away from the middle of the sphere. -/
def Sphere.Contains (s : Sphere K) (p : Point K) : Prop :=
  (p.x - s.centre.x) ^ 2 + (p.y - s.centre.y) ^ 2 + (p.z - s.centre.z) ^ 2 ≤ s.radius ^ 2

instance (s : Sphere K) (p : Point K) : Decidable (s.Contains p) :=
  inferInstanceAs (Decidable (_ ≤ _))

namespace Frame

/-- The centre of a cell. -/
def centre (f : Frame K) (x y z : ℕ) : Point K :=
  ⟨f.origin.x + (x + 1 / 2) * f.resolution, f.origin.y + (y + 1 / 2) * f.resolution,
    f.origin.z + (z + 1 / 2) * f.resolution⟩

/-- The point lies in the cell; of its faces, the lower ones belong to it. -/
structure InCell (f : Frame K) (x y z : ℕ) (p : Point K) : Prop where
  x : f.origin.x + x * f.resolution ≤ p.x ∧ p.x < f.origin.x + (x + 1) * f.resolution
  y : f.origin.y + y * f.resolution ≤ p.y ∧ p.y < f.origin.y + (y + 1) * f.resolution
  z : f.origin.z + z * f.resolution ≤ p.z ∧ p.z < f.origin.z + (z + 1) * f.resolution

/-- The point lies in the block. -/
structure Encloses (f : Frame K) (p : Point K) : Prop where
  x : f.origin.x ≤ p.x ∧ p.x < f.origin.x + f.width * f.resolution
  y : f.origin.y ≤ p.y ∧ p.y < f.origin.y + f.height * f.resolution
  z : f.origin.z ≤ p.z ∧ p.z < f.origin.z + f.depth * f.resolution

end Frame

namespace Grid

/-- Clears a cell if its centre lies in the sphere. -/
def clearWithin (f : Frame K) (s : Sphere K) (y z : ℕ) (g : Grid K) (x : ℕ) : Grid K :=
  if s.Contains (f.centre x y z) then g.clear x y z else g

/-- Clears every cell whose centre lies in the sphere, looking at all of them. -/
def cutEvery (g : Grid K) (s : Sphere K) : Grid K :=
  (List.range g.depth).foldl (fun g' z ↦ (List.range g.height).foldl (fun g' y ↦
    (List.range g.width).foldl (clearWithin g.frame s y z) g') g') g

end Grid

/-! ## Along one axis -/

section Axis

variable {o r c t : K} {n size : ℕ}

/-- A cell less a middle, both counted in cells: the distance of the cell's centre, in cells. -/
theorem natCast_sub_measured (hr : r ≠ 0) (o c : K) (n : ℕ) :
    (n : K) - ((c - o) / r - 1 / ((2 : ℕ) : K)) = (o + (n + 1 / 2) * r - c) / r := by
  rw [Nat.cast_ofNat]
  field_simp
  ring

variable [IsStrictOrderedRing K]

/-- A cell no further from the middle than the radius stands between the faces of the box. -/
theorem mem_span (hn : n < size) (h : |(n : K) - c| ≤ r) : n ∈ Grid.span size c r := by
  obtain ⟨hlow, hhigh⟩ := abs_le.1 h
  have hfirst : ⌊c - r⌋₊ ≤ n := Nat.floor_le_of_le (by linarith)
  have hlast : n ≤ min ⌈c + r⌉₊ (size - 1) := by
    refine le_min ?_ (Nat.le_sub_one_of_lt hn)
    rw [← Nat.cast_le (α := K)]
    exact (sub_le_iff_le_add'.1 hhigh).trans (Nat.le_ceil _)
  refine List.mem_range'_1.2 ⟨hfirst, ?_⟩
  change n < ⌊c - r⌋₊ + (min ⌈c + r⌉₊ (size - 1) + 1 - ⌊c - r⌋₊)
  omega

theorem endsBefore_eq_false (h : |(n : K) - c| ≤ r) : Grid.endsBefore c r = false := by
  have hn : (0 : K) ≤ n := n.cast_nonneg
  have hhigh := (abs_le.1 h).2
  refine decide_eq_false (not_le.2 ?_)
  linarith

/-- A coordinate of a point of the cell, counted in cells. -/
theorem floor_measured (hr : 0 < r) (h : o + n * r ≤ t ∧ t < o + (n + 1) * r) :
    0 ≤ (t - o) / r ∧ ⌊(t - o) / r⌋₊ = n := by
  have hlow : (n : K) ≤ (t - o) / r := (le_div_iff₀ hr).2 (by linarith [h.1])
  have hhigh : (t - o) / r < n + 1 := (div_lt_iff₀ hr).2 (by linarith [h.2])
  have hpos : 0 ≤ (t - o) / r := n.cast_nonneg.trans hlow
  exact ⟨hpos, (Nat.floor_eq_iff hpos).2 ⟨hlow, hhigh⟩⟩

/-- A coordinate between the ends of the block belongs to one of its cells. -/
theorem exists_cell_along (hr : 0 < r) (h : o ≤ t ∧ t < o + size * r) :
    ∃ n < size, o + n * r ≤ t ∧ t < o + (n + 1) * r := by
  have hpos : 0 ≤ (t - o) / r := div_nonneg (sub_nonneg.2 h.1) hr.le
  have hlow : (⌊(t - o) / r⌋₊ : K) * r ≤ t - o := (le_div_iff₀ hr).1 (Nat.floor_le hpos)
  have hhigh : t - o < (⌊(t - o) / r⌋₊ + 1 : K) * r :=
    (div_lt_iff₀ hr).1 (Nat.lt_floor_add_one _)
  refine ⟨⌊(t - o) / r⌋₊, (Nat.floor_lt hpos).2 ?_, by linarith, by linarith⟩
  exact (div_lt_iff₀ hr).2 (by linarith [h.2])

omit [IsStrictOrderedRing K] in
theorem lesser_nonneg {a b : K} (ha : 0 ≤ a) (hb : 0 ≤ b) : 0 ≤ Grid.lesser a b := by
  rw [Grid.lesser]
  split
  · exact ha
  · exact hb

theorem abs_le_of_inside {a b c : K} (hr : 0 ≤ r) (h : a ^ 2 + b ^ 2 + c ^ 2 ≤ r ^ 2) :
    |a| ≤ r ∧ |b| ≤ r ∧ |c| ≤ r := by
  have ha := sq_nonneg a
  have hb := sq_nonneg b
  have hc := sq_nonneg c
  exact ⟨abs_le_of_sq_le_sq (by linarith) hr, abs_le_of_sq_le_sq (by linarith) hr,
    abs_le_of_sq_le_sq (by linarith) hr⟩

end Axis

/-! ## Cells and points of a block -/

section Block

variable [IsStrictOrderedRing K] {g : Grid K} {f : Frame K} {s : Sphere K} {x y z i : ℕ} {p : Point K}

namespace Frame

omit [IsStrictOrderedRing K] in
theorem inside_iff (m : Sphere K) (x y z : ℕ) :
    Grid.inside m x y z = true ↔
      ((x : K) - m.centre.x) ^ 2 + ((y : K) - m.centre.y) ^ 2 + ((z : K) - m.centre.z) ^ 2 ≤
        m.radius ^ 2 := by
  simp only [Grid.inside, decide_eq_true_eq, sq]

/-- A cell stands as far from the measured middle as its centre does from the middle, in cells. -/
theorem inside_measured (hres : 0 < f.resolution) (s : Sphere K) (x y z : ℕ) :
    Grid.inside (f.measureSphere s) x y z = true ↔ s.Contains (f.centre x y z) := by
  rw [inside_iff]
  dsimp only [measureSphere, Grid.measureSphere, Grid.measure, Grid.half]
  rw [natCast_sub_measured hres.ne', natCast_sub_measured hres.ne', natCast_sub_measured hres.ne',
    div_pow, div_pow, div_pow, div_pow, ← add_div, ← add_div,
    div_le_div_iff_of_pos_right (pow_pos hres 2)]
  rfl

/-- In exact arithmetic a cut comes to every cell of the block whose centre lies in the sphere. -/
theorem covers_iff (hres : 0 < f.resolution) (hr : 0 ≤ s.radius) (h : f.Has x y z) :
    f.Covers s x y z ↔ s.Contains (f.centre x y z) := by
  rw [← inside_measured hres]
  constructor
  · intro hc
    exact hc.inside
  · intro hc
    -- The sphere is measured in cells before the box is taken around it, and so is the distance.
    have hradius : 0 ≤ (f.measureSphere s).radius := div_nonneg hr hres.le
    obtain ⟨hx, hy, hz⟩ := abs_le_of_inside hradius ((inside_iff _ x y z).1 hc)
    refine ⟨?_, mem_span h.1 hx, mem_span h.2.1 hy, mem_span h.2.2 hz, hc⟩
    rw [endsBefore_eq_false hx, endsBefore_eq_false hy, endsBefore_eq_false hz]
    rfl

theorem exists_inCell (hres : 0 < f.resolution) (h : f.Encloses p) :
    ∃ x y z, f.Has x y z ∧ f.InCell x y z p := by
  obtain ⟨x, hx, hpx⟩ := exists_cell_along hres h.x
  obtain ⟨y, hy, hpy⟩ := exists_cell_along hres h.y
  obtain ⟨z, hz, hpz⟩ := exists_cell_along hres h.z
  exact ⟨x, y, z, ⟨hx, hy, hz⟩, hpx, hpy, hpz⟩

end Frame

namespace Grid

/-- A point sees the state of its cell. -/
theorem holds_iff (hres : 0 < g.frame.resolution) (hc : g.IsCell x y z i)
    (hp : g.frame.InCell x y z p) : g.holds p = true ↔ ¬ g.Cleared x y z := by
  obtain ⟨hx, hfx⟩ := floor_measured hres hp.x
  obtain ⟨hy, hfy⟩ := floor_measured hres hp.y
  obtain ⟨hz, hfz⟩ := floor_measured hres hp.z
  have hpos : ¬ lesser (g.measure p).x (lesser (g.measure p).y (g.measure p).z) < 0 :=
    not_lt.2 (lesser_nonneg hx (lesser_nonneg hy hz))
  have hindex : g.index? (Scalar.floor (g.measure p).x) (Scalar.floor (g.measure p).y)
      (Scalar.floor (g.measure p).z) = some i := by
    refine Eq.trans ?_ hc.1
    exact congr (congr (congrArg g.index? hfx) hfy) hfz
  rw [holds, if_neg hpos, hindex, cleared_iff_of_isCell hc]
  obtain ⟨b, hb⟩ : ∃ b, g.cleared[i]? = some b := ⟨_, Array.getElem?_eq_getElem hc.2⟩
  rw [hb]
  cases b <;> simp [hb]

theorem carves_cut_exact (hres : 0 < g.resolution) (hr : 0 ≤ s.radius) :
    g.Carves (g.cut s) fun x y z ↦ s.Contains (g.frame.centre x y z) :=
  (carves_cut g s).congr_of_has fun _ _ _ h ↦ Frame.covers_iff hres hr h

omit [IsStrictOrderedRing K] in
theorem carves_clearWithin (f : Frame K) (s : Sphere K) (b c : ℕ) (g : Grid K) (a : ℕ) :
    g.Carves (clearWithin f s b c g a) fun x y z ↦
      s.Contains (f.centre a b c) ∧ x = a ∧ y = b ∧ z = c := by
  rw [clearWithin]
  split
  case isTrue h => exact (carves_clear g a b c).congr (by simp [h])
  case isFalse h => exact (Carves.refl g).congr (by simp [h])

omit [IsStrictOrderedRing K] in
theorem carves_cutEvery (g : Grid K) (s : Sphere K) :
    g.Carves (g.cutEvery s) fun x y z ↦ s.Contains (g.frame.centre x y z) := by
  have hrow (g' : Grid K) (z y : ℕ) :
      g'.Carves ((List.range g.width).foldl (clearWithin g.frame s y z) g') _ :=
    Carves.foldl fun g'' x _ ↦ carves_clearWithin g.frame s y z g'' x
  have hlayer (g' : Grid K) (z : ℕ) :
      g'.Carves ((List.range g.height).foldl (fun g'' y ↦
        (List.range g.width).foldl (clearWithin g.frame s y z) g'') g') _ :=
    Carves.foldl fun g'' y _ ↦ hrow g'' z y
  refine (Carves.foldl fun g' z _ ↦ hlayer g' z).congr_of_has fun x y z h ↦ ?_
  simp only [List.mem_range]
  constructor
  · rintro ⟨c, -, b, -, a, -, hin, rfl, rfl, rfl⟩
    exact hin
  · intro hin
    exact ⟨z, h.2.2, y, h.2.1, x, h.1, hin, rfl, rfl, rfl⟩

/-- In exact arithmetic a cut clears the cells whose centres lie in the sphere, as if it had looked at
every cell, and a point in the block still finds material where it did before and the centre of its
cell is not in the sphere. Of a block whose cells words can count, a program cuts and sees the same. -/
theorem cut_eq_cutEvery (hcount : g.cellCount = g.width * g.height * g.depth)
    (hres : 0 < g.resolution) (hr : 0 ≤ s.radius) :
    g.cut s = g.cutEvery s ∧
    (∀ x y z, g.frame.Has x y z →
      ((g.cut s).Cleared x y z ↔ g.Cleared x y z ∨ s.Contains (g.frame.centre x y z))) ∧
    (∀ p, g.frame.Encloses p → ∃ x y z, g.frame.Has x y z ∧ g.frame.InCell x y z p) ∧
    (∀ x y z p, g.frame.Has x y z → g.frame.InCell x y z p →
      ((g.cut s).holds p = true ↔
        g.holds p = true ∧ ¬ s.Contains (g.frame.centre x y z))) ∧
    (g.width * g.height * g.depth < 2 ^ 64 → g.carve s = .ok (g.cut s) ∧
      ∀ p, (g.cut s).holds? p = some ((g.cut s).holds p)) := by
  have hcut := carves_cut_exact (g := g) hres hr
  have hcleared (x y z : ℕ) (h : g.frame.Has x y z) :
      (g.cut s).Cleared x y z ↔ g.Cleared x y z ∨ s.Contains (g.frame.centre x y z) := by
    rw [hcut.cleared_iff, and_iff_right ⟨_, isCell_of_has hcount h⟩]
  refine ⟨hcut.unique (carves_cutEvery g s), hcleared, fun p ↦ Frame.exists_inCell hres,
    fun x y z p h hin ↦ ?_, fun hfit ↦ ?_⟩
  case refine_2 =>
    have hg : g.Whole := ⟨hcount, hfit⟩
    exact ⟨hg.carve_eq s, (hg.cut s).holds?_eq⟩
  have hcell := isCell_of_has hcount h
  have hafter : (g.cut s).holds p = true ↔ ¬ (g.cut s).Cleared x y z :=
    holds_iff (hcut.frame ▸ hres) (hcut.isCell.2 hcell) (hcut.frame ▸ hin)
  rw [hafter, holds_iff hres hcell hin, hcleared x y z h, not_or]

/-- Two cells of which the sphere takes the second. -/
theorem cut_eq_cutEvery_pair :
    let g : Grid ℚ := full ⟨0, 0, 0⟩ 2 1 1 1
    let s : Sphere ℚ := ⟨⟨3 / 2, 1 / 2, 1 / 2⟩, 1 / 2⟩
    g.cellCount = g.width * g.height * g.depth ∧ 0 < g.resolution ∧ 0 ≤ s.radius ∧
    g.cut s = g.cutEvery s ∧
    (∀ x y z, g.frame.Has x y z →
      ((g.cut s).Cleared x y z ↔ g.Cleared x y z ∨ s.Contains (g.frame.centre x y z))) ∧
    (∀ p, g.frame.Encloses p → ∃ x y z, g.frame.Has x y z ∧ g.frame.InCell x y z p) ∧
    (∀ x y z p, g.frame.Has x y z → g.frame.InCell x y z p →
      ((g.cut s).holds p = true ↔
        g.holds p = true ∧ ¬ s.Contains (g.frame.centre x y z))) ∧
    (g.width * g.height * g.depth < 2 ^ 64 → g.carve s = .ok (g.cut s) ∧
      ∀ p, (g.cut s).holds? p = some ((g.cut s).holds p)) :=
  ⟨rfl, one_pos, by norm_num, cut_eq_cutEvery rfl one_pos (by norm_num)⟩

end Grid

end Block

end Toolpath.Stock
