import Mathlib.Algebra.Group.Subgroup.ZPowers.Basic
import Mathlib.Tactic.Abel
import Mathlib.Tactic.Linarith
import Mathlib.Tactic.NormNum
import Toolpath.Motion.Arc
import Toolpath.Number.Exact

/-!
# Sweeps

The difference of two angles becomes a sweep by two loops, one that brings it to its side of zero and
one that brings it within a turn of zero. `Loops` says what such a loop leads to, however often it goes
round. In exact arithmetic both loops come to an end, within the rounds that `Arc.normalizeSweep` gives
them, and what they come to can be told without them: of all numbers that are whole turns away from the
difference it is the one in range (`Arc.normalizeSweep_unique`).

Between the same angles the other way round a sweep is negated, loop by loop and round by round. So
each fact is proved of counterclockwise sweeps and carried over to clockwise ones.
-/

namespace Toolpath.Arc

/-! ## Loops -/

section Loops

variable {α β : Type} {asks : α → Prop} {change : α → α} {a b : α}

/-- A value is changed for as long as it asks for it, and becomes another. -/
inductive Loops (asks : α → Prop) (change : α → α) : α → α → Prop where
  | done {a : α} (h : ¬asks a) : Loops asks change a a
  | again {a b : α} (h : asks a) (rest : Loops asks change (change a) b) : Loops asks change a b

namespace Loops

theorem not_asks (h : Loops asks change a b) : ¬asks b := by
  induction h with
  | done h => exact h
  | again _ _ ih => exact ih

/-- What every round keeps, the loop keeps. -/
theorem keeps {P : α → Prop} (h : Loops asks change a b) (keep : ∀ x, asks x → P x → P (change x))
    (ha : P a) : P b := by
  induction h with
  | done => exact ha
  | again h _ ih => exact ih (keep _ h ha)

/-- A loop is followed round by round by one that asks for the same changes. -/
theorem map {asks' : β → Prop} {change' : β → β} {f : α → β} (h : Loops asks change a b)
    (hasks : ∀ x, asks' (f x) ↔ asks x) (hchange : ∀ x, change' (f x) = f (change x)) :
    Loops asks' change' (f a) (f b) := by
  induction h with
  | @done a h => exact .done (mt (hasks a).1 h)
  | @again a b h _ ih =>
    refine .again ((hasks a).2 h) ?_
    rw [hchange]
    exact ih

/-- A loop that goes by whole turns comes to a number whole turns away. -/
theorem sub_mem_zmultiples {G : Type} [AddCommGroup G] {turn a b : G} {asks : G → Prop}
    {change : G → G} (h : Loops asks change a b)
    (hchange : ∀ x, x - change x ∈ AddSubgroup.zmultiples turn) :
    a - b ∈ AddSubgroup.zmultiples turn := by
  induction h with
  | done =>
    rw [sub_self]
    exact zero_mem _
  | again _ _ ih =>
    rw [← sub_add_sub_cancel]
    exact add_mem (hchange _) ih

end Loops

end Loops

/-! ## Directions -/

/-- The other direction. -/
def Direction.reverse : Direction → Direction
  | .clockwise => .counterclockwise
  | .counterclockwise => .clockwise

section Field

variable {K : Type} [Field K] [LinearOrder K] {turn a b s t : K} {direction : Direction}

/-- The sweeps of a direction: some of a turn or all of it, but not none. -/
def Direction.sweeps (turn : K) : Direction → Set K
  | .counterclockwise => Set.Ioc 0 turn
  | .clockwise => Set.Ico (-turn) 0

/-- The two loops of a direction, one after the other, lead from one number to another. -/
def Settles (turn : K) : Direction → K → K → Prop
  | .counterclockwise, a, b =>
    ∃ m, Loops (· ≤ 0) (· + turn) a m ∧ Loops (turn < ·) (· - turn) m b
  | .clockwise, a, b =>
    ∃ m, Loops (0 ≤ ·) (· - turn) a m ∧ Loops (· < -turn) (· + turn) m b

variable [IsStrictOrderedRing K]

theorem Direction.neg_mem_sweeps_reverse :
    -s ∈ direction.reverse.sweeps turn ↔ s ∈ direction.sweeps turn := by
  cases direction with
  | counterclockwise =>
    rw [reverse, sweeps, sweeps, Set.mem_Ico, Set.mem_Ioc, neg_le_neg_iff, neg_lt_zero, and_comm]
  | clockwise =>
    rw [reverse, sweeps, sweeps, Set.mem_Ico, Set.mem_Ioc, neg_le, neg_pos, and_comm]

theorem Settles.reverse (h : Settles turn direction a b) :
    Settles turn direction.reverse (-a) (-b) := by
  cases direction with
  | counterclockwise =>
    obtain ⟨m, hraise, hlower⟩ := h
    exact ⟨-m, hraise.map (fun x ↦ neg_nonneg) fun x ↦ by abel,
      hlower.map (fun x ↦ neg_lt_neg_iff) fun x ↦ by abel⟩
  | clockwise =>
    obtain ⟨m, hsink, hlift⟩ := h
    exact ⟨-m, hsink.map (fun x ↦ neg_nonpos) fun x ↦ by abel,
      hlift.map (fun x ↦ lt_neg) fun x ↦ by abel⟩

theorem Settles.mem_counterclockwise (h : Settles turn .counterclockwise a b) :
    b ∈ Direction.sweeps turn .counterclockwise ∧ a - b ∈ AddSubgroup.zmultiples turn := by
  obtain ⟨m, hraise, hlower⟩ := h
  -- The first loop ends above zero, and the second does not leave that side.
  have hpos : 0 < b := hlower.keeps (fun x hx _ ↦ sub_pos.2 hx) (not_le.1 hraise.not_asks)
  refine ⟨⟨hpos, not_lt.1 hlower.not_asks⟩, ?_⟩
  rw [← sub_add_sub_cancel]
  exact add_mem (hraise.sub_mem_zmultiples fun x ↦ by simp)
    (hlower.sub_mem_zmultiples fun x ↦ by simp)

/-- What the loops of a direction lead to is a sweep of it, whole turns away. -/
theorem Settles.mem (h : Settles turn direction a b) :
    b ∈ direction.sweeps turn ∧ a - b ∈ AddSubgroup.zmultiples turn := by
  cases direction with
  | counterclockwise => exact h.mem_counterclockwise
  | clockwise =>
    obtain ⟨hmem, hturns⟩ := h.reverse.mem_counterclockwise
    refine ⟨Direction.neg_mem_sweeps_reverse.1 hmem, ?_⟩
    rw [← neg_mem_iff]
    rwa [neg_sub_neg, ← neg_sub] at hturns

/-- Two sweeps of one direction that are whole turns apart are the same. -/
theorem Direction.eq_of_mem_sweeps (hs : s ∈ direction.sweeps turn) (ht : t ∈ direction.sweeps turn)
    (h : s - t ∈ AddSubgroup.zmultiples turn) : s = t := by
  have hlt : |s - t| < |turn| := by
    refine (abs_lt.2 ?_).trans_le (le_abs_self turn)
    cases direction with
    | counterclockwise => exact ⟨by linarith [hs.1, ht.2], by linarith [hs.2, ht.1]⟩
    | clockwise => exact ⟨by linarith [hs.1, ht.2], by linarith [hs.2, ht.1]⟩
  obtain ⟨k, hk⟩ := AddSubgroup.mem_zmultiples_iff.1 h
  rw [← hk, zsmul_eq_mul, abs_mul, ← Int.cast_abs] at hlt
  have hk₀ : |k| < 1 := by
    refine Int.cast_lt.1 (lt_of_mul_lt_mul_right ?_ (abs_nonneg turn) : ((|k| : ℤ) : K) < (1 : ℤ))
    rwa [Int.cast_one, one_mul]
  rw [Int.abs_lt_one_iff.1 hk₀, zero_smul] at hk
  exact sub_eq_zero.1 hk.symm

end Field

/-! ## Enough rounds -/

section Rounds

variable {K : Type} [Field K] [LinearOrder K] [IsStrictOrderedRing K] [FloorSemiring K]
  {turn a b first last : K} {direction : Direction} {n : ℕ}

theorem sink_neg (turn a : K) (n : ℕ) : sink turn n (-a) = -raise turn n a := by
  induction n generalizing a with
  | zero => rfl
  | succ n ih =>
    rw [sink, raise]
    by_cases h : a ≤ 0
    · rw [if_pos (neg_nonneg.2 h), if_pos h, ← ih, neg_add, sub_eq_add_neg]
    · rw [if_neg (mt neg_nonneg.1 h), if_neg h]

theorem lift_neg (turn a : K) (n : ℕ) : lift turn n (-a) = -lower turn n a := by
  induction n generalizing a with
  | zero => rfl
  | succ n ih =>
    rw [lift, lower]
    by_cases h : turn < a
    · rw [if_pos (neg_lt_neg h), if_pos h, ← ih, neg_sub, neg_add_eq_sub]
    · rw [if_neg (mt neg_lt_neg_iff.1 h), if_neg h]

theorem loops_raise (h : -a < n * turn) : Loops (· ≤ 0) (· + turn) a (raise turn n a) := by
  induction n generalizing a with
  | zero =>
    refine .done (not_le.2 (neg_lt_zero.1 ?_))
    simpa using h
  | succ n ih =>
    rw [raise]
    split
    case isTrue ha =>
      refine .again ha (ih ?_)
      push_cast at h
      linarith
    case isFalse ha => exact .done ha

theorem loops_lower (h : a ≤ (n + 1) * turn) :
    Loops (turn < ·) (· - turn) a (lower turn n a) := by
  induction n generalizing a with
  | zero =>
    refine .done (not_lt.2 ?_)
    simpa using h
  | succ n ih =>
    rw [lower]
    split
    case isTrue ha =>
      refine .again ha (ih ?_)
      push_cast at h
      linarith
    case isFalse ha => exact .done ha

theorem abs_lt_turns_mul (hturn : 0 < turn) (a : K) : |a| < turns turn a * turn := by
  have hceil : |a| ≤ ⌈|a| / turn⌉₊ * turn := (div_le_iff₀ hturn).1 (Nat.le_ceil _)
  refine hceil.trans_lt (mul_lt_mul_of_pos_right (Nat.cast_lt.2 ?_) hturn)
  rw [turns, Scalar.abs_eq]
  change ⌈|a| / turn⌉₊ < 2 * ⌈|a| / turn⌉₊ + 2
  omega

theorem turns_neg (turn a : K) : turns turn (-a) = turns turn a := by
  rw [turns, turns, Scalar.abs_eq, Scalar.abs_eq, abs_neg]

theorem normalizeSweep_clockwise (turn first last : K) :
    normalizeSweep turn first last .clockwise =
      -normalizeSweep turn last first .counterclockwise := by
  rw [normalizeSweep, normalizeSweep, ← neg_sub first last, turns_neg, sink_neg, lift_neg]

/-- Between the same angles the other way round a sweep is negated. -/
theorem normalizeSweep_reverse (turn first last : K) (direction : Direction) :
    normalizeSweep turn last first direction.reverse =
      -normalizeSweep turn first last direction := by
  cases direction with
  | counterclockwise => exact normalizeSweep_clockwise turn last first
  | clockwise =>
    rw [normalizeSweep_clockwise, neg_neg]
    rfl

theorem settles_counterclockwise (hturn : 0 < turn) (first last : K) :
    Settles turn .counterclockwise (last - first)
      (normalizeSweep turn first last .counterclockwise) := by
  have hn : |last - first| < turns turn (last - first) * turn := abs_lt_turns_mul hturn _
  have hraise := loops_raise ((neg_le_abs (last - first)).trans_lt hn)
  refine ⟨_, hraise, loops_lower ?_⟩
  -- The first loop stops within a turn of zero, or it leaves the number as it is.
  refine hraise.keeps (P := (· ≤ (turns turn (last - first) + 1) * turn)) (fun x hx _ ↦ ?_) ?_
  · linarith [abs_nonneg (last - first)]
  · linarith [le_abs_self (last - first)]

/-- The loops of a direction come to an end, and there is the sweep. -/
theorem settles_normalizeSweep (hturn : 0 < turn) (first last : K) (direction : Direction) :
    Settles turn direction (last - first) (normalizeSweep turn first last direction) := by
  cases direction with
  | counterclockwise => exact settles_counterclockwise hturn first last
  | clockwise =>
    have h := (settles_counterclockwise hturn last first).reverse
    rwa [neg_sub, ← normalizeSweep_clockwise] at h

/-- The sweep is the one number in range that is whole turns away from the difference of the angles. -/
theorem normalizeSweep_eq_iff (hturn : 0 < turn) :
    normalizeSweep turn first last direction = s ↔
      s ∈ direction.sweeps turn ∧ last - first - s ∈ AddSubgroup.zmultiples turn := by
  obtain ⟨hmem, hturns⟩ := (settles_normalizeSweep hturn first last direction).mem
  constructor
  · rintro rfl
    exact ⟨hmem, hturns⟩
  · rintro ⟨hs, h⟩
    refine Direction.eq_of_mem_sweeps hmem hs ?_
    rw [← sub_sub_sub_cancel_left]
    exact sub_mem h hturns

/-- Angles that are whole turns apart are swept between by one turn, not by none. -/
theorem normalizeSweep_of_mem (hturn : 0 < turn)
    (h : last - first ∈ AddSubgroup.zmultiples turn) :
    normalizeSweep turn first last .counterclockwise = turn ∧
      normalizeSweep turn first last .clockwise = -turn := by
  have hself := AddSubgroup.mem_zmultiples turn
  constructor
  · exact (normalizeSweep_eq_iff hturn).2 ⟨⟨hturn, le_rfl⟩, sub_mem h hself⟩
  · exact (normalizeSweep_eq_iff hturn).2 ⟨⟨le_rfl, neg_lt_zero.2 hturn⟩, sub_mem h (neg_mem hself)⟩

/-- Between other angles the one direction sweeps what the other leaves of a turn. -/
theorem normalizeSweep_of_notMem (hturn : 0 < turn)
    (h : last - first ∉ AddSubgroup.zmultiples turn) :
    normalizeSweep turn first last .clockwise =
      normalizeSweep turn first last .counterclockwise - turn := by
  have hself := AddSubgroup.mem_zmultiples turn
  obtain ⟨⟨h₀, h₁⟩, hmem⟩ := (settles_normalizeSweep hturn first last .counterclockwise).mem
  have hne : normalizeSweep turn first last .counterclockwise ≠ turn := by
    intro hwhole
    rw [hwhole] at hmem
    exact h (by simpa using add_mem hmem hself)
  refine (normalizeSweep_eq_iff hturn).2 ⟨⟨by linarith, sub_neg.2 (h₁.lt_of_ne hne)⟩, ?_⟩
  rw [sub_sub_eq_add_sub, add_sub_right_comm]
  exact add_mem hmem hself

/-- The loops of either direction come to an end, whatever the angles, and at one number only: in
`(0, turn]` counterclockwise and in `[-turn, 0)` clockwise it is the one that is whole turns away from
the difference of the angles. So the sweeps of the two directions are a turn apart, unless the angles
are: then each is a whole turn. Between the angles the other way round a sweep of the other direction
is as great. -/
theorem normalizeSweep_unique (hturn : 0 < turn) (first last : K) :
    (∀ direction s,
      (Settles turn direction (last - first) s ↔ s = normalizeSweep turn first last direction) ∧
      (s ∈ direction.sweeps turn ∧ last - first - s ∈ AddSubgroup.zmultiples turn ↔
        s = normalizeSweep turn first last direction)) ∧
    (last - first ∉ AddSubgroup.zmultiples turn →
      normalizeSweep turn first last .counterclockwise -
        normalizeSweep turn first last .clockwise = turn) ∧
    (last - first ∈ AddSubgroup.zmultiples turn →
      normalizeSweep turn first last .counterclockwise = turn ∧
        normalizeSweep turn first last .clockwise = -turn) ∧
    ∀ direction, normalizeSweep turn last first direction.reverse =
      -normalizeSweep turn first last direction := by
  refine ⟨fun direction s ↦ ⟨⟨fun h ↦ ?_, ?_⟩, ?_⟩, fun h ↦ ?_, normalizeSweep_of_mem hturn,
    normalizeSweep_reverse turn first last⟩
  · exact ((normalizeSweep_eq_iff hturn).2 h.mem).symm
  · rintro rfl
    exact settles_normalizeSweep hturn first last direction
  · rw [eq_comm, normalizeSweep_eq_iff hturn]
  · rw [normalizeSweep_of_notMem hturn h, sub_sub_cancel]

end Rounds

/-- In degrees: from 350 to 730 it is 20 counterclockwise and 340 clockwise, and from 90 to 90 a whole
turn either way. -/
theorem normalizeSweep_unique_degrees :
    0 < (360 : ℚ) ∧ (730 - 350 : ℚ) ∉ AddSubgroup.zmultiples (360 : ℚ) ∧
      normalizeSweep (360 : ℚ) 350 730 .counterclockwise = 20 ∧
      normalizeSweep (360 : ℚ) 350 730 .clockwise = -340 ∧
      (90 - 90 : ℚ) ∈ AddSubgroup.zmultiples (360 : ℚ) ∧
      normalizeSweep (360 : ℚ) 90 90 .counterclockwise = 360 ∧
      normalizeSweep (360 : ℚ) 90 90 .clockwise = -360 := by
  have hturn : 0 < (360 : ℚ) := by norm_num
  obtain ⟨hsweep, hapart, -, -⟩ := normalizeSweep_unique hturn 350 730
  obtain ⟨-, -, hwhole, -⟩ := normalizeSweep_unique hturn 90 90
  have hnot : (730 - 350 : ℚ) ∉ AddSubgroup.zmultiples (360 : ℚ) := by
    intro h
    obtain ⟨k, hk⟩ := AddSubgroup.mem_zmultiples_iff.1 h
    have hk' : k * 360 = 380 := by
      rw [zsmul_eq_mul] at hk
      exact_mod_cast hk.trans (by norm_num : (730 - 350 : ℚ) = 380)
    omega
  have hmem : (90 - 90 : ℚ) ∈ AddSubgroup.zmultiples (360 : ℚ) := by
    rw [sub_self]
    exact zero_mem _
  have hcounterclockwise : normalizeSweep (360 : ℚ) 350 730 .counterclockwise = 20 := by
    refine ((hsweep .counterclockwise 20).2.1 ⟨by norm_num [Direction.sweeps], ?_⟩).symm
    exact AddSubgroup.mem_zmultiples_iff.2 ⟨1, by norm_num⟩
  refine ⟨hturn, hnot, hcounterclockwise, ?_, hmem, hwhole hmem⟩
  have h := hapart hnot
  rw [hcounterclockwise] at h
  linarith

end Toolpath.Arc
