import Mathlib.Analysis.SpecialFunctions.Pow.Real
import Mathlib.Tactic.FieldSimp
import Mathlib.Tactic.Linarith
import Mathlib.Tactic.LinearCombination
import Mathlib.Tactic.MkIffOfInductiveProp
import Toolpath.Motion.Arc
import Toolpath.Number.Exact

/-!
# Centres of a given radius

The centres of the circles through two points lie on the line that halves the chord between them at a
right angle. `aside` gives the places of that line by their distance from the chord, and a place is as
far from the one end as from the other (`hypot_start_aside`, `hypot_stop_aside`). In exact arithmetic
the two centres of a radius are the places on either side at the distance that the radius leaves over
half the chord (`Arc.centres_of_radius`).
-/

namespace Toolpath.Arc

variable {start stop : Point ℝ} {radius h : ℝ} {a b c : ℝ × ℝ}

/-! ## The line of the centres -/

/-- The place at a distance from the middle of a chord, at a right angle to it: to the left on the way
from `start` to `stop`, and to the right if the distance is negative. -/
noncomputable def aside (start stop : Point ℝ) (h : ℝ) : ℝ × ℝ :=
  let chord : ℝ := start.distanceXY stop
  ((start.x + stop.x) / (2 : ℕ) + -(stop.y - start.y) / chord * h,
    (start.y + stop.y) / (2 : ℕ) + (stop.x - start.x) / chord * h)

/-- How far the centres of a radius are from a chord of which half is given. -/
noncomputable def height (half radius : ℝ) : ℝ := √(max (radius * radius - half * half) 0)

/-- Two places are mirror images in a chord: the middle between them is that of the chord, and the way
from the one to the other is at a right angle to it. -/
structure Mirrored (start stop : Point ℝ) (a b : ℝ × ℝ) : Prop where
  middle_x : (a.1 + b.1) / 2 = (start.x + stop.x) / 2
  middle_y : (a.2 + b.2) / 2 = (start.y + stop.y) / 2
  perpendicular : (b.1 - a.1) * (stop.x - start.x) + (b.2 - a.2) * (stop.y - start.y) = 0

theorem distanceXY_mul_self (start stop : Point ℝ) :
    start.distanceXY stop * start.distanceXY stop =
      (stop.x - start.x) * (stop.x - start.x) + (stop.y - start.y) * (stop.y - start.y) :=
  Real.mul_self_sqrt (add_nonneg (mul_self_nonneg _) (mul_self_nonneg _))

theorem distanceXY_comm (start stop : Point ℝ) : start.distanceXY stop = stop.distanceXY start := by
  refine congrArg Real.sqrt ?_
  ring

theorem aside_comm (start stop : Point ℝ) (h : ℝ) : aside start stop h = aside stop start (-h) := by
  rw [aside, aside, distanceXY_comm]
  refine Prod.ext ?_ ?_
  · dsimp only
    ring
  · dsimp only
    ring

/-- The distance of an end of the chord is the hypotenuse over half the chord. -/
theorem hypot_start_aside (hchord : 0 < start.distanceXY stop) (h : ℝ) :
    (Analytic.hypot (start.x - (aside start stop h).1) (start.y - (aside start stop h).2) : ℝ) =
      √(start.distanceXY stop / 2 * (start.distanceXY stop / 2) + h * h) := by
  have hsq := distanceXY_mul_self start stop
  refine congrArg Real.sqrt ?_
  simp only [aside, Nat.cast_ofNat]
  generalize start.distanceXY stop = chord at *
  have hh : h * h = h * h / (chord * chord) * (chord * chord) := by field_simp
  linear_combination (-1 / 4 - h * h / (chord * chord)) * hsq - hh

theorem hypot_stop_aside (hchord : 0 < start.distanceXY stop) (h : ℝ) :
    (Analytic.hypot (stop.x - (aside start stop h).1) (stop.y - (aside start stop h).2) : ℝ) =
      √(start.distanceXY stop / 2 * (start.distanceXY stop / 2) + h * h) := by
  rw [distanceXY_comm] at hchord
  rw [aside_comm, hypot_start_aside hchord, distanceXY_comm, neg_mul_neg]

theorem mirrored_aside (start stop : Point ℝ) (h : ℝ) :
    Mirrored start stop (aside start stop h) (aside start stop (-h)) where
  middle_x := by
    simp only [aside, Nat.cast_ofNat]
    ring
  middle_y := by
    simp only [aside, Nat.cast_ofNat]
    ring
  perpendicular := by
    dsimp only [aside]
    ring

/-! ## The two centres -/

theorem tolerance_eq : (Point.tolerance : ℝ) = 1 / 10 ^ 9 := by
  norm_num [Point.tolerance, Scalar.tenth]

/-- The chord is long enough to tell its direction, and the radius comes up to half of it. -/
@[mk_iff]
structure Spans (start stop : Point ℝ) (radius : ℝ) : Prop where
  lt_chord : 1 / 10 ^ 9 < start.distanceXY stop
  le_radius : start.distanceXY stop / 2 - 1 / 10 ^ 9 ≤ radius

theorem not_spans_iff :
    ¬Spans start stop radius ↔
      start.distanceXY stop ≤ 1 / 10 ^ 9 ∨ radius < start.distanceXY stop / 2 - 1 / 10 ^ 9 := by
  rw [spans_iff, not_and_or, not_lt, not_le]

theorem Spans.chord_pos (hs : Spans start stop radius) : 0 < start.distanceXY stop :=
  (by positivity : (0 : ℝ) < 1 / 10 ^ 9).trans hs.lt_chord

open Classical in
/-- The centres lie on either side of the chord, at the height that the radius leaves. -/
theorem centres_eq (start stop : Point ℝ) (radius : ℝ) :
    centres start stop radius =
      if Spans start stop radius then
        some (aside start stop (height (start.distanceXY stop / 2) radius),
          aside start stop (-height (start.distanceXY stop / 2) radius))
      else none := by
  have hchord : (Analytic.hypot (stop.x - start.x) (stop.y - start.y) : ℝ) =
      start.distanceXY stop := rfl
  rw [centres]
  simp only [hchord, Nat.cast_ofNat, Scalar.greatest_eq, tolerance_eq, Scalar.isFinite, Bool.not_true,
    Bool.or_false, decide_eq_true_eq]
  by_cases hs : Spans start stop radius
  · rw [if_neg (not_le.2 hs.lt_chord), if_neg (not_lt.2 hs.le_radius), if_pos hs]
    simp only [aside, Nat.cast_ofNat, mul_neg, ← sub_eq_add_neg]
    rfl
  · rw [if_neg hs]
    rcases not_spans_iff.1 hs with h | h
    · rw [if_pos h]
    · rw [if_pos h, ite_self]

theorem centres_eq_none_iff : centres start stop radius = none ↔ ¬Spans start stop radius := by
  rw [centres_eq]
  split
  case isTrue h => exact iff_of_false nofun (not_not_intro h)
  case isFalse h => exact iff_of_true rfl h

theorem eq_aside_of_centres (h : centres start stop radius = some (a, b)) :
    Spans start stop radius ∧ a = aside start stop (height (start.distanceXY stop / 2) radius) ∧
      b = aside start stop (-height (start.distanceXY stop / 2) radius) := by
  rw [centres_eq] at h
  split at h
  case isTrue hs =>
    cases h
    exact ⟨hs, rfl, rfl⟩
  case isFalse => cases h

/-! ## Circles -/

/-- A radius that is no less than half the chord is the hypotenuse over that and the height. -/
theorem sqrt_height {half : ℝ} (hhalf : 0 ≤ half) (hradius : half ≤ radius) :
    √(half * half + height half radius * height half radius) = radius := by
  have hle : 0 ≤ radius * radius - half * half := sub_nonneg.2 (mul_self_le_mul_self hhalf hradius)
  have hheight : height half radius * height half radius = radius * radius - half * half := by
    rw [height, max_eq_left hle]
    exact Real.mul_self_sqrt hle
  rw [hheight, add_sub_cancel]
  exact Real.sqrt_mul_self (hhalf.trans hradius)

theorem height_self (half : ℝ) : height half half = 0 := by
  rw [height, sub_self, max_self, Real.sqrt_zero]

/-- Mirror images in a chord that are one place are its middle. -/
theorem Mirrored.eq_aside_zero (h : Mirrored start stop a a) : a = aside start stop 0 := by
  obtain ⟨hx, hy, -⟩ := h
  refine Prod.ext ?_ ?_
  · simp only [aside, Nat.cast_ofNat]
    linarith
  · simp only [aside, Nat.cast_ofNat]
    linarith

/-- Both centres are centres of circles through both ends of the chord. -/
theorem hypot_of_centres {p : Point ℝ} (h : centres start stop radius = some (a, b))
    (hradius : start.distanceXY stop / 2 ≤ radius) (hc : c = a ∨ c = b) (hp : p = start ∨ p = stop) :
    (Analytic.hypot (p.x - c.1) (p.y - c.2) : ℝ) = radius := by
  obtain ⟨hs, rfl, rfl⟩ := eq_aside_of_centres h
  have hend {d : ℝ} (hd : d * d =
      height (start.distanceXY stop / 2) radius * height (start.distanceXY stop / 2) radius) :
      Analytic.hypot (p.x - (aside start stop d).1) (p.y - (aside start stop d).2) = radius := by
    rcases hp with rfl | rfl
    · rw [hypot_start_aside hs.chord_pos, hd, sqrt_height (half_pos hs.chord_pos).le hradius]
    · rw [hypot_stop_aside hs.chord_pos, hd, sqrt_height (half_pos hs.chord_pos).le hradius]
  rcases hc with rfl | rfl
  · exact hend rfl
  · exact hend (neg_mul_neg _ _)

theorem mirrored_of_centres (h : centres start stop radius = some (a, b)) :
    Mirrored start stop a b := by
  obtain ⟨-, rfl, rfl⟩ := eq_aside_of_centres h
  exact mirrored_aside ..

/-- The two centres are one exactly if the chord is a diameter. -/
theorem eq_iff_of_centres (h : centres start stop radius = some (a, b))
    (hradius : start.distanceXY stop / 2 ≤ radius) :
    a = b ↔ radius = start.distanceXY stop / 2 := by
  obtain ⟨hs, ha, hb⟩ := eq_aside_of_centres h
  constructor
  · rintro rfl
    have hmiddle : a = aside start stop 0 := (mirrored_of_centres h).eq_aside_zero
    calc
      radius = Analytic.hypot (start.x - a.1) (start.y - a.2) :=
        (hypot_of_centres h hradius (.inl rfl) (.inl rfl)).symm
      _ = √(start.distanceXY stop / 2 * (start.distanceXY stop / 2) + 0 * 0) := by
        rw [hmiddle, hypot_start_aside hs.chord_pos]
      _ = start.distanceXY stop / 2 := by
        rw [mul_zero, add_zero, Real.sqrt_mul_self (half_pos hs.chord_pos).le]
  · rintro rfl
    rw [ha, hb, height_self, neg_zero]

/-! ## The centre of the lesser sweep -/

theorem centre_eq_none_iff {direction : Direction} :
    centre start stop radius direction = none ↔ centres start stop |radius| = none := by
  rw [centre, Scalar.abs_eq, Option.map_eq_none_iff]

/-- Of the two centres one is taken from which no more is swept than from the other. -/
theorem centre_of_centres (direction : Direction) (h : centres start stop |radius| = some (a, b)) :
    ∃ c other, centre start stop radius direction = some c ∧
      (c = a ∧ other = b ∨ c = b ∧ other = a) ∧
      |sweep start stop c direction| ≤ |sweep start stop other direction| := by
  rw [centre, Scalar.abs_eq, h, Option.map_some]
  dsimp only
  rw [Scalar.abs_eq, Scalar.abs_eq]
  split
  case isTrue hle => exact ⟨a, b, rfl, .inl ⟨rfl, rfl⟩, hle⟩
  case isFalse hle => exact ⟨b, a, rfl, .inr ⟨rfl, rfl⟩, (not_le.1 hle).le⟩

/-- In exact arithmetic there are no centres of a radius exactly if the chord is no longer than the
tolerance or the radius falls short of half the chord by more than that. If it does not fall short at
all, both centres are as far from either end as the radius says, they are mirror images in the chord,
and they are one exactly if the chord is a diameter. The centre that is taken is one of the two, and
from the other no less is swept. -/
theorem centres_of_radius (start stop : Point ℝ) (radius : ℝ) :
    let chord : ℝ := start.distanceXY stop
    (centres start stop radius = none ↔ chord ≤ 1 / 10 ^ 9 ∨ radius < chord / 2 - 1 / 10 ^ 9) ∧
    (∀ a b, centres start stop radius = some (a, b) → chord / 2 ≤ radius →
      (∀ c p, c = a ∨ c = b → p = start ∨ p = stop →
        Analytic.hypot (p.x - c.1) (p.y - c.2) = radius) ∧
      Mirrored start stop a b ∧ (a = b ↔ radius = chord / 2)) ∧
    ∀ direction,
      (centre start stop radius direction = none ↔ centres start stop |radius| = none) ∧
      ∀ a b, centres start stop |radius| = some (a, b) →
        ∃ c other, centre start stop radius direction = some c ∧
          (c = a ∧ other = b ∨ c = b ∧ other = a) ∧
          |sweep start stop c direction| ≤ |sweep start stop other direction| := by
  intro chord
  refine ⟨centres_eq_none_iff.trans not_spans_iff, fun a b h hradius ↦ ⟨fun c p hc hp ↦ ?_, ?_, ?_⟩,
    fun direction ↦ ⟨centre_eq_none_iff, fun a b h ↦ centre_of_centres direction h⟩⟩
  · exact hypot_of_centres h hradius hc hp
  · exact mirrored_of_centres h
  · exact eq_iff_of_centres h hradius

/-- A chord of 10 and a radius of 13 leave a height of 12; the sign of a radius does not matter to the
centre that is taken. -/
theorem centres_of_radius_thirteen :
    let start : Point ℝ := ⟨0, 0, 0⟩
    let stop : Point ℝ := ⟨6, 8, 0⟩
    ∃ a b c, centres start stop 13 = some (a, b) ∧ start.distanceXY stop / 2 ≤ (13 : ℝ) ∧
      Analytic.hypot (6 - a.1) (8 - a.2) = (13 : ℝ) ∧ Analytic.hypot (0 - b.1) (0 - b.2) = (13 : ℝ) ∧
      a ≠ b ∧ centre start stop (-13) .clockwise = some c ∧ (c = a ∨ c = b) := by
  intro start stop
  have hchord : start.distanceXY stop = 10 := by
    change √((6 - 0) * (6 - 0) + (8 - 0) * (8 - 0)) = 10
    rw [Real.sqrt_eq_iff_mul_self_eq (by norm_num) (by norm_num)]
    norm_num
  obtain ⟨hnone, hsome, -⟩ := centres_of_radius start stop 13
  obtain ⟨-, -, htaken⟩ := centres_of_radius start stop (-13)
  rw [hchord] at hnone hsome
  have hne : centres start stop 13 ≠ none := by
    rw [Ne, hnone]
    norm_num
  obtain ⟨⟨a, b⟩, hab⟩ := Option.ne_none_iff_exists'.1 hne
  obtain ⟨hcircle, -, hone⟩ := hsome a b hab (by norm_num)
  obtain ⟨c, other, hc, hcab, -⟩ := (htaken .clockwise).2 a b (by rwa [abs_neg, abs_of_pos (by norm_num)])
  refine ⟨a, b, c, hab, ?_, hcircle a stop (.inl rfl) (.inr rfl), hcircle b start (.inr rfl) (.inl rfl),
    ?_, hc, hcab.imp And.left And.left⟩
  · rw [hchord]
    norm_num
  · rw [Ne, hone]
    norm_num

end Toolpath.Arc
