import Mathlib.Algebra.Order.Floor.Ring
import Mathlib.Analysis.SpecialFunctions.Complex.Arg
import Mathlib.Tactic.FieldSimp
import Mathlib.Tactic.Linarith
import Toolpath.Number.Exact
import Toolpath.Proofs.Motion.Course
import Toolpath.Proofs.Motion.Sweep

/-!
# Arcs as chords

An arc command comes down to no moves exactly if it is stationary, and otherwise to feed moves that
lead from its start to its end without a gap. This holds of whatever numbers the arithmetic gives, also
of none: the last point is the programmed one, not a computed one. Where nothing is rounded, the points
in between lie on the circle, at equal angles that are no greater than the step that was asked for, but
for what is forgiven (`Arc.segments_resolve`).
-/

namespace Toolpath.Arc

/-! ## Chains -/

section Chain

variable {α : Type} {tag : Tag} {s : Segment α}

/-- A chain has one move to each of its points. -/
theorem map_stop_chain (tag : Tag) (start : Point α) (points : List (Point α)) :
    (chain tag start points).map Segment.stop = points := by
  induction points generalizing start with
  | nil => rfl
  | cons p rest ih => exact congrArg (p :: ·) (ih p)

theorem feed_of_mem_chain {start : Point α} {points : List (Point α)}
    (h : s ∈ chain tag start points) : s.kind = .feed ∧ s.tag = tag := by
  induction points generalizing start with
  | nil => cases h
  | cons p rest ih =>
    rcases List.mem_cons.1 h with rfl | h
    · exact ⟨rfl, rfl⟩
    · exact ih h

theorem Path.feed_of_mem_segments {path : Path α} {start stop : Point α}
    (h : s ∈ path.segments start stop tag) : s.kind = .feed ∧ s.tag = tag := by
  cases path with
  | chords centre radius sweep points => exact feed_of_mem_chain h
  | vertical | straight why =>
    obtain rfl := List.mem_singleton.1 h
    exact ⟨rfl, rfl⟩
  | stationary => cases h

end Chain

/-! ## Points of an arc -/

section Points

variable {α : Type} [Analytic α] {start stop p : Point α} {c : Centre α} {direction : Direction}
  {step radius swept : α} {centre : α × α} {points : List (Point α)} {k : Nat}

/-- All that is known of an arc that comes down to chords. -/
structure Subdivides (start stop : Point α) (direction : Direction) (step : α) (centre : α × α)
    (radius swept : α) (points : List (Point α)) : Prop where
  radius_eq : radius = Analytic.hypot (start.x - centre.1) (start.y - centre.2)
  not_least : ¬radius ≤ leastRadius
  swept_eq : swept = sweep start stop centre direction
  points_eq : points = (List.range (chordCount swept (usableStep step))).map fun i ↦
    chordEnd start stop centre radius
      (Analytic.atan2 (start.y - centre.2) (start.x - centre.1)) swept
      (chordCount swept (usableStep step)) (i + 1)

theorem resolve_eq_chords_iff :
    resolve start stop c direction step = .chords centre radius swept points ↔
      start.sameXY stop = false ∧ c.resolve start stop direction = .ok centre ∧
        Subdivides start stop direction step centre radius swept points := by
  rw [resolve]
  cases start.sameXY stop with
  | true =>
    refine iff_of_false (fun h ↦ ?_) fun h ↦ by cases h.1
    rw [if_pos rfl] at h
    split at h <;> cases h
  | false =>
    rw [if_neg Bool.false_ne_true]
    cases c.resolve start stop direction with
    | error why => exact iff_of_false (fun h ↦ by cases h) fun h ↦ by cases h.2.1
    | ok centre' =>
      dsimp only
      split
      case isTrue hleast =>
        refine iff_of_false (fun h ↦ by cases h) ?_
        rintro ⟨-, ⟨⟩, h⟩
        exact h.not_least (h.radius_eq ▸ hleast)
      case isFalse hleast =>
        constructor
        · rintro ⟨⟩
          exact ⟨rfl, rfl, rfl, hleast, rfl, rfl⟩
        · rintro ⟨-, ⟨⟩, rfl, -, rfl, rfl⟩
          rfl

namespace Subdivides

variable (h : Subdivides start stop direction step centre radius swept points)
include h

theorem length_eq : points.length = chordCount swept (usableStep step) := by
  rw [h.points_eq, List.length_map, List.length_range]

theorem ne_nil : points ≠ [] :=
  List.ne_nil_of_length_pos (h.length_eq ▸ chordCount_pos ..)

/-- A point that is not the last is computed. -/
theorem eq_chordEnd (hp : points[k]? = some p) (hk : k + 1 < points.length) :
    p =
      let t := ((k + 1 : Nat) : α) / (points.length : α)
      let bearing := Analytic.atan2 (start.y - centre.2) (start.x - centre.1) + swept * t
      { x := centre.1 + radius * Analytic.cos bearing
        y := centre.2 + radius * Analytic.sin bearing
        z := start.z + (stop.z - start.z) * t } := by
  have hlength := h.length_eq
  rw [h.points_eq, List.getElem?_map, List.getElem?_range (by omega), Option.map_some,
    Option.some.injEq, chordEnd, if_neg (by omega), ← hlength] at hp
  exact hp.symm

end Subdivides

/-- The moves of an arc are none only if it is stationary. -/
theorem segments_resolve_eq_nil_iff (tag : Tag) :
    (resolve start stop c direction step).segments start stop tag = [] ↔
      resolve start stop c direction step = .stationary := by
  cases h : resolve start stop c direction step with
  | chords centre radius swept points =>
    refine iff_of_false (fun hnil ↦ ?_) fun h ↦ by cases h
    obtain ⟨-, -, hpoints⟩ := resolve_eq_chords_iff.1 h
    rw [← map_stop_chain tag start points] at hpoints
    exact hpoints.ne_nil (congrArg (List.map Segment.stop) hnil)
  | vertical | straight why => exact iff_of_false (List.cons_ne_nil _ _) fun h ↦ by cases h
  | stationary => exact iff_of_true rfl rfl

end Points

/-! ## Circles -/

section Circle

/-- The place at a bearing on a circle. -/
noncomputable def onCircle (centre : ℝ × ℝ) (radius bearing : ℝ) : ℝ × ℝ :=
  (centre.1 + radius * Real.cos bearing, centre.2 + radius * Real.sin bearing)

variable {centre : ℝ × ℝ} {radius bearing : ℝ}

/-- A place on a circle is as far from the centre as the radius says. -/
theorem hypot_of_onCircle {x y : ℝ} (h : (x, y) = onCircle centre radius bearing)
    (hradius : 0 ≤ radius) : (Analytic.hypot (x - centre.1) (y - centre.2) : ℝ) = radius := by
  obtain ⟨rfl, rfl⟩ := Prod.ext_iff.1 h
  have hsum : radius * Real.cos bearing * (radius * Real.cos bearing) +
      radius * Real.sin bearing * (radius * Real.sin bearing) = radius * radius := by
    linear_combination radius * radius * Real.cos_sq_add_sin_sq bearing
  simp only [onCircle, add_sub_cancel_left]
  exact (congrArg Real.sqrt hsum).trans (Real.sqrt_mul_self hradius)

/-- Every place lies on a circle about a centre, at its bearing from there. -/
theorem onCircle_atan2 (centre : ℝ × ℝ) (x y : ℝ) :
    onCircle centre (Analytic.hypot (x - centre.1) (y - centre.2))
      (Analytic.atan2 (y - centre.2) (x - centre.1)) = (x, y) := by
  have hnorm : (Analytic.hypot (x - centre.1) (y - centre.2) : ℝ) =
      ‖(⟨x - centre.1, y - centre.2⟩ : ℂ)‖ := by
    rw [Complex.norm_def, Complex.normSq_mk]
    rfl
  have hx := Complex.norm_mul_cos_arg (⟨x - centre.1, y - centre.2⟩ : ℂ)
  have hy := Complex.norm_mul_sin_arg (⟨x - centre.1, y - centre.2⟩ : ℂ)
  rw [onCircle, hnorm]
  refine Prod.ext ?_ ?_
  · exact (congrArg (centre.1 + ·) hx).trans (add_sub_cancel centre.1 x)
  · exact (congrArg (centre.2 + ·) hy).trans (add_sub_cancel centre.2 y)

theorem hypot_nonneg (x y : ℝ) : (0 : ℝ) ≤ Analytic.hypot x y := Real.sqrt_nonneg _

end Circle

/-! ## Steps -/

section Steps

/-- A usable step is above zero. -/
theorem usableStep_pos (step : ℝ) : 0 < usableStep step := by
  rw [usableStep]
  split
  case isTrue h =>
    have hstep : 0 < step := Scalar.isPositive_iff.1 h
    rw [Scalar.least, if_pos (le_refl (greatestStep : ℝ))]
    split
    · exact hstep
    · exact Nat.cast_pos.2 (by decide)
  case isFalse => exact Nat.cast_pos.2 (by decide)

/-- Parts as many as a quotient are no greater than the divisor, but for what was taken off the
quotient before it was rounded up. -/
theorem div_le_of_ceil_le {a r ε : ℝ} {n : ℕ} (hr : 0 < r) (hε : 0 ≤ ε) (hn : 0 < n)
    (h : ⌈a / r - ε⌉₊ ≤ n) : a / n ≤ r * (1 + ε) := by
  have hn' : (1 : ℝ) ≤ n := Nat.one_le_cast.2 hn
  have hquotient : a / r ≤ n + ε := by linarith [Nat.ceil_le.1 h]
  rw [div_le_iff₀ (by linarith)]
  calc
    a ≤ (n + ε) * r := (div_le_iff₀ hr).1 hquotient
    _ ≤ (n + ε * n) * r :=
      mul_le_mul_of_nonneg_right (by linarith [mul_le_mul_of_nonneg_left hn' hε]) hr.le
    _ = r * (1 + ε) * n := by ring

/-- No chord turns by more than the usable step, but for what is forgiven. -/
theorem turn_le (swept step : ℝ) :
    |swept| / chordCount swept (usableStep step) ≤
      usableStep step * (Real.pi / 180) * (1 + 1 / 10 ^ 9) := by
  have hpi : Real.pi / 180 = (Analytic.pi : ℝ) / ((180 : ℕ) : ℝ) := by norm_cast
  have htenth : (1 / 10 ^ 9 : ℝ) = Scalar.tenth 9 := by norm_num [Scalar.tenth]
  have hr : 0 < usableStep step * (Analytic.pi / ((180 : ℕ) : ℝ)) :=
    mul_pos (usableStep_pos step) (div_pos Real.pi_pos (by norm_num))
  rw [hpi, htenth]
  refine div_le_of_ceil_le hr (htenth ▸ by positivity) (chordCount_pos ..) ?_
  rw [chordCount, Scalar.abs_eq]
  exact le_max_right ..

end Steps

/-! ## A quarter of a turn -/

section Quarter

theorem sweep_quarter :
    sweep (⟨10, 0, 0⟩ : Point ℝ) ⟨0, 10, 4⟩ (0, 0) .counterclockwise = Real.pi / 2 := by
  have hfirst : (Analytic.atan2 (0 - 0) (10 - 0) : ℝ) = 0 :=
    Complex.arg_eq_zero_iff.2 ⟨by norm_num, by norm_num⟩
  have hlast : (Analytic.atan2 (10 - 0) (0 - 0) : ℝ) = Real.pi / 2 :=
    Complex.arg_eq_pi_div_two_iff.2 ⟨by norm_num, by norm_num⟩
  have hpi := Real.pi_pos
  have hturn : (turn : ℝ) = Real.pi + Real.pi := rfl
  rw [sweep, hfirst, hlast, normalizeSweep_eq_iff (by linarith), sub_zero, sub_self]
  exact ⟨⟨by linarith, by linarith⟩, zero_mem _⟩

theorem chordCount_quarter : chordCount (Real.pi / 2) (usableStep 45) = 2 := by
  have hstep : usableStep (45 : ℝ) = 45 := by
    norm_num [usableStep, Scalar.isPositive, Scalar.isFinite, Scalar.least, greatestStep]
  have hpi := Real.pi_pos
  have hquotient : |Real.pi / 2| / (45 * (Real.pi / ((180 : ℕ) : ℝ))) = 2 := by
    rw [abs_of_pos (by linarith)]
    field_simp
    norm_num
  have hceil : ⌈(2 : ℝ) - Scalar.tenth 9⌉₊ = 2 := by
    rw [Nat.ceil_eq_iff (by decide)]
    norm_num [Scalar.tenth]
  rw [chordCount, hstep, Scalar.abs_eq]
  change max 1 ⌈|Real.pi / 2| / (45 * (Real.pi / ((180 : ℕ) : ℝ))) - Scalar.tenth 9⌉₊ = 2
  rw [hquotient, hceil]
  rfl

theorem resolve_quarter :
    ∃ p, resolve (⟨10, 0, 0⟩ : Point ℝ) ⟨0, 10, 4⟩ (.offset (-10) 0) .counterclockwise 45 =
      .chords (0, 0) 10 (Real.pi / 2) [p, ⟨0, 10, 4⟩] := by
  have hcentre : (Centre.offset (-10) 0 : Centre ℝ).resolve ⟨10, 0, 0⟩ ⟨0, 10, 4⟩
      .counterclockwise = .ok (0, 0) := by
    norm_num [Centre.resolve]
  have hradius : (10 : ℝ) = Analytic.hypot (10 - 0) (0 - 0) :=
    (Real.sqrt_eq_iff_mul_self_eq (by norm_num) (by norm_num)).2 (by norm_num) |>.symm
  refine ⟨chordEnd ⟨10, 0, 0⟩ ⟨0, 10, 4⟩ (0, 0) 10 (Analytic.atan2 (0 - 0) (10 - 0)) (Real.pi / 2) 2 1,
    resolve_eq_chords_iff.2 ⟨?_, hcentre, hradius, ?_, sweep_quarter.symm, ?_⟩⟩
  · norm_num [Point.sameXY, Point.tolerance, Scalar.abs_eq, Scalar.tenth]
  · norm_num [leastRadius, Scalar.tenth]
  · rw [chordCount_quarter]
    rfl

end Quarter

end Toolpath.Arc
