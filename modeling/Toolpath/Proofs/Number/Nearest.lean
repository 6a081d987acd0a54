import Mathlib.Algebra.Order.Field.Power
import Mathlib.Algebra.Order.Field.Rat
import Mathlib.Data.Int.Log
import Mathlib.Data.Rat.Floor
import Mathlib.Tactic.FieldSimp
import Mathlib.Tactic.Linarith
import Mathlib.Tactic.Positivity
import Toolpath.Number.Binary

/-!
# The nearest binary value

What `Format.nearest` gives depends on the quotient alone, not on how it is written
(`nearest_eq_of_div_eq`): the binary order is a logarithm. It keeps the order of the quotients
(`near_mono`), and a value of the format is nearest to itself (`nearest_of_decode`). Far below the
least value the nearest one is zero, and from some power of two on it is infinity.
-/

namespace Toolpath.Binary

theorem fraction_binary64 : binary64.fraction = 52 := by decide

theorem bottom_binary64 : binary64.bottom = 1074 := by decide

theorem top_binary64 : binary64.top = 2047 * 2 ^ 52 := by decide

theorem signBit_binary64 : binary64.signBit = 2 ^ 63 := by decide

/-- A quotient above zero has a numerator above zero. -/
theorem num_pos_of_div_pos {num den : ℕ} (h : (0 : ℚ) < num / den) : 0 < num := by
  refine Nat.pos_of_ne_zero fun hzero ↦ ?_
  rw [hzero, Nat.cast_zero, zero_div] at h
  exact lt_irrefl 0 h

/-- Rounding depends on the quotient alone. -/
theorem roundHalfEven_mul_mul (num den : ℕ) {k : ℕ} (hk : 0 < k) :
    roundHalfEven (num * k) (den * k) = roundHalfEven num den := by
  have hlt : ∀ a b, 2 * (a * k) < b * k ↔ 2 * a < b := fun a b ↦ by
    rw [← mul_assoc]
    exact Nat.mul_lt_mul_right hk
  have hgt : ∀ a b, b * k < 2 * (a * k) ↔ b < 2 * a := fun a b ↦ by
    rw [← mul_assoc]
    exact Nat.mul_lt_mul_right hk
  simp only [roundHalfEven, Nat.mul_div_mul_right _ _ hk, Nat.mul_mod_mul_right, hlt, hgt]

/-- Quotients that are equal are rounded alike. -/
theorem roundHalfEven_eq_of_mul_eq {a b c d : ℕ} (hb : 0 < b) (hd : 0 < d) (h : a * d = c * b) :
    roundHalfEven a b = roundHalfEven c d := by
  rw [← roundHalfEven_mul_mul a b hd, h, Nat.mul_comm b, roundHalfEven_mul_mul c d hb]

/-- An integral quotient is its own rounding. -/
theorem roundHalfEven_mul_self (n : ℕ) {den : ℕ} (hden : 0 < den) :
    roundHalfEven (n * den) den = n := by
  simp [roundHalfEven, Nat.mul_div_cancel _ hden, hden]

/-- Less than a half goes to zero. -/
theorem roundHalfEven_eq_zero {num den : ℕ} (h : 2 * num < den) : roundHalfEven num den = 0 := by
  have hlt : num < den := by omega
  rw [roundHalfEven, Nat.div_eq_of_lt hlt, Nat.mod_eq_of_lt hlt]
  exact if_pos h

/-- Rounding does not go below an integer. -/
theorem le_roundHalfEven {n num den : ℕ} (hden : 0 < den) (h : n * den ≤ num) :
    n ≤ roundHalfEven num den := by
  have hlow : n ≤ num / den := (Nat.le_div_iff_mul_le hden).2 h
  simp only [roundHalfEven]
  split
  · exact hlow
  · split
    · exact Nat.le_succ_of_le hlow
    · exact Nat.le_add_right_of_le hlow

/-- Rounding does not go above an integer. -/
theorem roundHalfEven_le {n num den : ℕ} (hden : 0 < den) (h : num ≤ n * den) :
    roundHalfEven num den ≤ n := by
  rcases Nat.lt_or_eq_of_le h with hlt | rfl
  · have hlow : num / den < n := (Nat.div_lt_iff_lt_mul hden).2 hlt
    simp only [roundHalfEven]
    split
    · exact hlow.le
    · split
      · exact hlow
      · have := Nat.mod_lt (num / den) two_pos
        omega
  · rw [roundHalfEven_mul_self n hden]

/-- More than a half does not go to zero. -/
theorem roundHalfEven_pos {num den : ℕ} (hden : 0 < den) (h : den < 2 * num) :
    0 < roundHalfEven num den := by
  rcases Nat.lt_or_ge num den with hlt | hge
  · rw [roundHalfEven, Nat.div_eq_of_lt hlt, Nat.mod_eq_of_lt hlt, if_neg (by omega), if_pos h]
    exact Nat.one_pos
  · exact le_roundHalfEven hden (by omega)

/-- What is less than a half above a number does not go above the number. -/
theorem roundHalfEven_le_of_lt {n num den : ℕ} (h : 2 * num < (2 * n + 1) * den) :
    roundHalfEven num den ≤ n := by
  rcases Nat.lt_or_ge (n * den) num with hlt | hge
  · have hden : 0 < den := Nat.pos_of_ne_zero fun hzero ↦ by simp [hzero] at h
    have hlow : num / den = n := Nat.div_eq_of_lt_le hlt.le (by linarith)
    have hsplit := Nat.div_add_mod num den
    rw [hlow] at hsplit
    rw [roundHalfEven, hlow, if_pos (by nlinarith)]
  · exact roundHalfEven_le (Nat.pos_of_ne_zero fun hzero ↦ by simp [hzero] at h) hge

/-- Rounding keeps the order of numerators. -/
theorem roundHalfEven_mono {num num' den : ℕ} (hden : 0 < den) (h : num ≤ num') :
    roundHalfEven num den ≤ roundHalfEven num' den := by
  rcases Nat.lt_or_eq_of_le (Nat.div_le_div_right (c := den) h) with hlt | heq
  · calc roundHalfEven num den ≤ num / den + 1 :=
          roundHalfEven_le hden (Nat.lt_mul_of_div_lt (Nat.lt_succ_self _) hden).le
      _ ≤ roundHalfEven num' den := le_roundHalfEven hden ((Nat.le_div_iff_mul_le hden).1 hlt)
  · have hsplit := Nat.div_add_mod num den
    have hsplit' := Nat.div_add_mod num' den
    simp only [roundHalfEven]
    rw [heq] at hsplit ⊢
    have := Nat.mod_lt (num' / den) two_pos
    split_ifs <;> omega

/-- Scaling by a power of two moves the binary order. -/
theorem log_mul_zpow {r : ℚ} (hr : 0 < r) (e : ℤ) : Int.log 2 (r * 2 ^ e) = Int.log 2 r + e := by
  have hle : ∀ i : ℤ, i ≤ Int.log 2 (r * 2 ^ e) ↔ i - e ≤ Int.log 2 r := fun i ↦ by
    rw [← Int.zpow_le_iff_le_log one_lt_two (by positivity),
      ← Int.zpow_le_iff_le_log one_lt_two hr, Nat.cast_two, zpow_sub₀ two_ne_zero,
      div_le_iff₀ (by positivity)]
  have hlow := (hle _).1 le_rfl
  have hhigh := (hle (Int.log 2 r + e)).2 (by omega)
  omega

/-- The binary order of a multiple of a power of two. -/
theorem log_natCast_mul_zpow {m : ℕ} (hm : 0 < m) (q : ℤ) :
    Int.log 2 ((m : ℚ) * 2 ^ q) = Nat.log2 m + q := by
  rw [log_mul_zpow (Nat.cast_pos.2 hm), Int.log_natCast, Nat.log2_eq_log_two]

/-- The binary order of a quotient is the difference of the binary orders, or one less. -/
theorem log_div {a b : ℚ} (ha : 0 < a) (hb : 0 < b) :
    Int.log 2 a - Int.log 2 b - 1 ≤ Int.log 2 (a / b) ∧
      Int.log 2 (a / b) ≤ Int.log 2 a - Int.log 2 b := by
  have hlow : ∀ {r : ℚ}, 0 < r → (2 : ℚ) ^ Int.log 2 r ≤ r := fun hr ↦ by
    exact_mod_cast Int.zpow_log_le_self one_lt_two hr
  have hhigh : ∀ r : ℚ, r < 2 ^ (Int.log 2 r + 1) := fun r ↦ by
    exact_mod_cast Int.lt_zpow_succ_log_self one_lt_two r
  have hquotient : 0 < a / b := div_pos ha hb
  constructor
  · rw [← Int.zpow_le_iff_le_log one_lt_two hquotient, Nat.cast_two, le_div_iff₀ hb]
    calc (2 : ℚ) ^ (Int.log 2 a - Int.log 2 b - 1) * b
        ≤ 2 ^ (Int.log 2 a - Int.log 2 b - 1) * 2 ^ (Int.log 2 b + 1) := by
          gcongr
          exact (hhigh b).le
      _ = 2 ^ Int.log 2 a := by
          rw [← zpow_add₀ two_ne_zero]
          congr 1
          ring
      _ ≤ a := hlow ha
  · rw [← Int.lt_add_one_iff, ← Int.lt_zpow_iff_log_lt one_lt_two hquotient, Nat.cast_two,
      div_lt_iff₀ hb]
    calc a < 2 ^ (Int.log 2 a + 1) := hhigh a
      _ = 2 ^ (Int.log 2 a - Int.log 2 b + 1) * 2 ^ Int.log 2 b := by
          rw [← zpow_add₀ two_ne_zero]
          congr 1
          ring
      _ ≤ 2 ^ (Int.log 2 a - Int.log 2 b + 1) * b := by
          gcongr
          exact hlow hb

namespace Format

/-- The exponent of the last place to which a positive number is rounded. -/
def place (f : Format) (r : ℚ) : ℤ := max (Int.log 2 r - f.fraction) (-(f.bottom : ℤ))

/-- A number has no more places than a significand. -/
theorem lt_place (f : Format) (r : ℚ) : r < 2 ^ (f.fraction + 1) * 2 ^ f.place r := by
  calc r < 2 ^ (Int.log 2 r + 1) := by exact_mod_cast Int.lt_zpow_succ_log_self one_lt_two r
    _ ≤ 2 ^ (((f.fraction + 1 : ℕ) : ℤ) + f.place r) :=
      zpow_le_zpow_right₀ one_le_two (by rw [place]; omega)
    _ = 2 ^ (f.fraction + 1) * 2 ^ f.place r := by rw [zpow_add₀ two_ne_zero, zpow_natCast]

/-- A number has all places of a significand, unless it is too small for that. -/
theorem place_le {f : Format} {r : ℚ} (hr : 0 < r)
    (h : -(f.bottom : ℤ) ≤ Int.log 2 r - f.fraction) :
    2 ^ f.fraction * 2 ^ f.place r ≤ r := by
  calc (2 ^ f.fraction * 2 ^ f.place r : ℚ)
      = 2 ^ ((f.fraction : ℤ) + f.place r) := by rw [zpow_add₀ two_ne_zero, zpow_natCast]
    _ = 2 ^ Int.log 2 r := by
      rw [place, max_eq_left h]
      congr 1
      omega
    _ ≤ r := by exact_mod_cast Int.zpow_log_le_self one_lt_two hr

/-- A quotient is compared with a power of two in naturals. -/
theorem below_iff (num : ℕ) {den : ℕ} (hden : 0 < den) (e : ℤ) :
    (if 0 ≤ e then num < den * 2 ^ e.toNat else num * 2 ^ (-e).toNat < den) ↔
      (num : ℚ) / den < 2 ^ e := by
  have hpos : (0 : ℚ) < den := Nat.cast_pos.2 hden
  rw [div_lt_iff₀ hpos]
  split
  case isTrue he =>
    obtain ⟨k, rfl⟩ := Int.eq_ofNat_of_zero_le he
    rw [Int.toNat_natCast, zpow_natCast, mul_comm den]
    exact_mod_cast Iff.rfl
  case isFalse he =>
    obtain ⟨k, hk⟩ := Int.eq_ofNat_of_zero_le (show 0 ≤ -e by omega)
    obtain rfl : e = -(k : ℤ) := by omega
    rw [neg_neg, Int.toNat_natCast, zpow_neg, zpow_natCast, inv_mul_eq_div,
      lt_div_iff₀ (by positivity)]
    exact_mod_cast Iff.rfl

/-- The binary order of a quotient is its logarithm. -/
theorem order_eq_log {num den : ℕ} (hnum : 0 < num) (hden : 0 < den) :
    order num den = Int.log 2 ((num : ℚ) / den) := by
  have hpos : (0 : ℚ) < num / den := by positivity
  have hlt : ∀ e : ℤ, (num : ℚ) / den < 2 ^ e ↔ Int.log 2 ((num : ℚ) / den) < e := fun e ↦
    Int.lt_zpow_iff_log_lt one_lt_two hpos
  -- The orders of numerator and denominator leave two candidates, told apart by one comparison.
  obtain ⟨hlow, hhigh⟩ := log_div (Nat.cast_pos.2 hnum) (Nat.cast_pos.2 hden)
  rw [Int.log_natCast, Int.log_natCast, ← Nat.log2_eq_log_two, ← Nat.log2_eq_log_two] at hlow hhigh
  have hbelow := (below_iff num hden ((num.log2 : ℤ) - den.log2)).trans (hlt _)
  change (if (if _ then _ else _) then _ else _) = _
  by_cases h : Int.log 2 ((num : ℚ) / den) < (num.log2 : ℤ) - den.log2
  · rw [if_pos (hbelow.2 h)]
    omega
  · rw [if_neg (mt hbelow.1 h)]
    omega

variable {f : Format}

/-- Numerator and denominator may be multiplied by the same number. -/
theorem nearest_mul_mul (num : ℕ) {den k : ℕ} (hden : 0 < den) (hk : 0 < k) :
    f.nearest (num * k) (den * k) = f.nearest num den := by
  by_cases hnum : num = 0
  · simp [nearest, hnum]
  · have hpos : 0 < num := Nat.pos_of_ne_zero hnum
    have horder : order (num * k) (den * k) = order num den := by
      rw [order_eq_log (Nat.mul_pos hpos hk) (Nat.mul_pos hden hk), order_eq_log hpos hden]
      push_cast
      rw [mul_div_mul_right _ _ (Nat.cast_ne_zero.2 hk.ne')]
    simp only [nearest, horder, hnum, Nat.mul_eq_zero, hk.ne', or_self, if_false,
      Nat.mul_right_comm _ k, roundHalfEven_mul_mul _ _ hk]

/-- The nearest value depends on the quotient alone. -/
theorem nearest_eq_of_div_eq {num den num' den' : ℕ} (hden : 0 < den) (hden' : 0 < den')
    (h : (num : ℚ) / den = num' / den') : f.nearest num den = f.nearest num' den' := by
  have hcross : num * den' = num' * den := by
    rw [div_eq_div_iff (Nat.cast_ne_zero.2 hden.ne') (Nat.cast_ne_zero.2 hden'.ne')] at h
    exact_mod_cast h
  rw [← nearest_mul_mul num hden hden', hcross, Nat.mul_comm den, nearest_mul_mul num' hden' hden]

/-- The significand of the nearest value is the quotient by the last place, rounded. -/
theorem nearest_eq {num den a b : ℕ} {q : ℤ} (hnum : 0 < num) (hden : 0 < den) (hb : 0 < b)
    (h : (num : ℚ) / den = a / b * 2 ^ q) (hq : f.place ((num : ℚ) / den) = q) :
    f.nearest num den =
      min ((q + f.bottom).toNat * 2 ^ f.fraction + roundHalfEven a b) f.top := by
  have hround : (if 0 ≤ q then roundHalfEven num (den * 2 ^ q.toNat)
      else roundHalfEven (num * 2 ^ (-q).toNat) den) = roundHalfEven a b := by
    rw [div_mul_eq_mul_div, div_eq_div_iff (by positivity) (by positivity)] at h
    split
    case isTrue hq =>
      obtain ⟨k, rfl⟩ := Int.eq_ofNat_of_zero_le hq
      rw [zpow_natCast] at h
      refine roundHalfEven_eq_of_mul_eq (by positivity) hb ?_
      rw [Int.toNat_natCast, Nat.mul_comm den, ← Nat.mul_assoc]
      exact_mod_cast h
    case isFalse hq =>
      obtain ⟨k, hk⟩ := Int.eq_ofNat_of_zero_le (show 0 ≤ -q by omega)
      obtain rfl : q = -(k : ℤ) := by omega
      rw [zpow_neg, zpow_natCast, mul_right_comm, ← div_eq_mul_inv,
        eq_div_iff (by positivity)] at h
      refine roundHalfEven_eq_of_mul_eq hden hb ?_
      rw [neg_neg, Int.toNat_natCast, Nat.mul_right_comm]
      exact_mod_cast h
  rw [place] at hq
  rw [nearest, if_neg hnum.ne', order_eq_log hnum hden]
  simp only [hq, hround]

/-- Rounding at the last place may give one bit too many, and no more. -/
theorem roundHalfEven_place_le {a b : ℕ} {q : ℤ} (hb : 0 < b)
    (hq : f.place ((a : ℚ) / b * 2 ^ q) = q) : roundHalfEven a b ≤ 2 ^ (f.fraction + 1) := by
  have hlt := f.lt_place ((a : ℚ) / b * 2 ^ q)
  rw [hq, mul_lt_mul_iff_left₀ (by positivity), div_lt_iff₀ (by positivity)] at hlt
  exact roundHalfEven_le hb (by exact_mod_cast hlt.le)

/-- What is rounded at the last place has all its bits, unless it is too small for that. -/
theorem le_roundHalfEven_place {a b : ℕ} {q : ℤ} (ha : 0 < a) (hb : 0 < b)
    (hq : f.place ((a : ℚ) / b * 2 ^ q) = q)
    (h : -(f.bottom : ℤ) ≤ Int.log 2 ((a : ℚ) / b * 2 ^ q) - f.fraction) :
    2 ^ f.fraction ≤ roundHalfEven a b := by
  have hle := place_le (by positivity) h
  rw [hq, mul_le_mul_iff_left₀ (by positivity), le_div_iff₀ (by positivity)] at hle
  exact le_roundHalfEven hb (by exact_mod_cast hle)

/-- A quotient in units of a power of two. -/
theorem div_eq_mul_zpow (num den : ℕ) (q : ℤ) :
    (num : ℚ) / den = (num * 2 ^ (-q).toNat : ℕ) / (den * 2 ^ q.toNat : ℕ) * 2 ^ q := by
  have hsplit : (2 : ℚ) ^ q.toNat = 2 ^ (-q).toNat * 2 ^ q := by
    rw [← zpow_natCast, ← zpow_natCast, ← zpow_add₀ two_ne_zero]
    congr 1
    omega
  push_cast
  rw [hsplit]
  field_simp

theorem nearest_eq_place {num den : ℕ} {q : ℤ} (hnum : 0 < num) (hden : 0 < den)
    (hq : f.place ((num : ℚ) / den) = q) :
    f.nearest num den = min ((q + f.bottom).toNat * 2 ^ f.fraction +
      roundHalfEven (num * 2 ^ (-q).toNat) (den * 2 ^ q.toNat)) f.top :=
  nearest_eq hnum hden (by positivity) (div_eq_mul_zpow num den q) hq

theorem nearest_le_top (num den : ℕ) : f.nearest num den ≤ f.top := by
  rw [nearest]
  split
  · exact Nat.zero_le _
  · exact min_le_right _ _

/-- The nearest value is bounded by the power of two behind it. -/
theorem nearest_le {num den : ℕ} (hnum : 0 < num) (hden : 0 < den) :
    f.nearest num den ≤
      (f.place ((num : ℚ) / den) + f.bottom).toNat * 2 ^ f.fraction + 2 ^ (f.fraction + 1) := by
  generalize hq : f.place ((num : ℚ) / den) = q
  rw [nearest_eq_place hnum hden hq]
  rw [div_eq_mul_zpow num den q] at hq
  exact (min_le_left _ _).trans
    (Nat.add_le_add_left (roundHalfEven_place_le (by positivity) hq) _)

/-- The nearest value has all its bits, unless it is too small for that. -/
theorem le_nearest {num den : ℕ} {q : ℤ} (hnum : 0 < num) (hden : 0 < den)
    (hq : f.place ((num : ℚ) / den) = q) (hbottom : -(f.bottom : ℤ) < q) :
    min ((q + f.bottom).toNat * 2 ^ f.fraction + 2 ^ f.fraction) f.top ≤ f.nearest num den := by
  rw [nearest_eq_place hnum hden hq]
  refine min_le_min_right _ (Nat.add_le_add_left ?_ _)
  rw [div_eq_mul_zpow num den q] at hq
  refine le_roundHalfEven_place (by positivity) (by positivity) hq ?_
  rw [place] at hq
  omega

/-- A multiple of the unit in the last place is nearest to itself. -/
theorem nearest_of_multiple {num den m : ℕ} {q : ℤ} (hnum : 0 < num) (hden : 0 < den)
    (h : (num : ℚ) / den = m * 2 ^ q) (hq : f.place ((num : ℚ) / den) = q) :
    f.nearest num den = min ((q + f.bottom).toNat * 2 ^ f.fraction + m) f.top := by
  have hround : roundHalfEven m 1 = m := by simpa using roundHalfEven_mul_self m Nat.one_pos
  have hone : (num : ℚ) / den = m / (1 : ℕ) * 2 ^ q := by rw [h, Nat.cast_one, div_one]
  rw [nearest_eq hnum hden Nat.one_pos hone hq, hround]

/-- A value of the format is nearest to itself. -/
theorem nearest_of_decode {bits num den m : ℕ} {q : ℤ} {negative : Bool}
    (hd : f.decode bits = .finite negative m q) (hden : 0 < den)
    (h : (num : ℚ) / den = m * 2 ^ q) : f.nearest num den = bits % f.signBit := by
  have hnum (hm : 0 < m) : 0 < num := by
    have hvalue : (0 : ℚ) < num / den := by
      rw [h]
      positivity
    exact num_pos_of_div_pos hvalue
  simp only [decode] at hd
  split at hd
  · cases hd
  split at hd
  · cases hd
  have htop : bits % f.signBit < f.top := by omega
  have hsplit := Nat.div_add_mod (bits % f.signBit) (2 ^ f.fraction)
  have hs : bits % f.signBit % 2 ^ f.fraction < 2 ^ f.fraction := Nat.mod_lt _ (by positivity)
  split at hd
  case isTrue he =>
    -- Below the least normal value the bits are the significand.
    cases hd
    rw [he, Nat.mul_zero, Nat.zero_add] at hsplit
    by_cases hm : bits % f.signBit % 2 ^ f.fraction = 0
    · have hzero : num = 0 := by
        rw [hm, Nat.cast_zero, zero_mul, div_eq_zero_iff] at h
        exact_mod_cast h.resolve_right (Nat.cast_ne_zero.2 hden.ne')
      rw [← hsplit, hm, hzero]
      rfl
    · have hm' := Nat.pos_of_ne_zero hm
      have hlog := (Nat.log2_lt hm).2 hs
      have hplace : f.place ((num : ℚ) / den) = -(f.bottom : ℤ) := by
        rw [place, h, log_natCast_mul_zpow hm']
        omega
      rw [nearest_of_multiple (hnum hm') hden h hplace, hsplit, neg_add_cancel, Int.toNat_zero,
        Nat.zero_mul, Nat.zero_add]
      exact min_eq_left htop.le
  case isFalse he =>
    obtain ⟨e, he⟩ := Nat.exists_eq_succ_of_ne_zero he
    rw [he] at hd hsplit
    cases hd
    have hm : 0 < 2 ^ f.fraction + bits % f.signBit % 2 ^ f.fraction := by positivity
    have hlog : (2 ^ f.fraction + bits % f.signBit % 2 ^ f.fraction).log2 = f.fraction := by
      rw [Nat.log2_eq_iff hm.ne', pow_succ]
      omega
    have hplace : f.place ((num : ℚ) / den) = (e.succ : ℤ) - 1 - f.bottom := by
      rw [place, h, log_natCast_mul_zpow hm, hlog]
      omega
    rw [nearest_of_multiple (hnum hm) hden h hplace]
    have hexp : ((e.succ : ℤ) - 1 - f.bottom + f.bottom).toNat = e := by omega
    rw [hexp, ← Nat.add_assoc, ← Nat.succ_mul, Nat.mul_comm, hsplit]
    exact min_eq_left htop.le

/-- The nearest value keeps the order of numerators. -/
theorem nearest_le_nearest {num num' den : ℕ} (hden : 0 < den) (h : num ≤ num') :
    f.nearest num den ≤ f.nearest num' den := by
  rcases Nat.eq_zero_or_pos num with rfl | hnum
  · rw [nearest, if_pos rfl]
    exact Nat.zero_le _
  have hnum' := hnum.trans_le h
  have hle : (num : ℚ) / den ≤ num' / den := by gcongr
  have hplace : f.place (num / den) ≤ f.place (num' / den) :=
    max_le_max_right _ (sub_le_sub_right (Int.log_mono_right (by positivity) hle) _)
  have hbottom : -(f.bottom : ℤ) ≤ f.place (num / den) := le_max_right _ _
  have hhigh := nearest_le (f := f) hnum hden
  have htop := nearest_le_top (f := f) num den
  generalize hq : f.place (num / den) = q at *
  generalize hq' : f.place (num' / den) = q' at *
  rcases hplace.lt_or_eq with hlt | rfl
  · refine (le_min (hhigh.trans ?_) htop).trans (le_nearest hnum' hden hq' (by omega))
    have hle : (q + f.bottom).toNat + 1 ≤ (q' + f.bottom).toNat := by omega
    calc (q + f.bottom).toNat * 2 ^ f.fraction + 2 ^ (f.fraction + 1)
        = ((q + f.bottom).toNat + 1) * 2 ^ f.fraction + 2 ^ f.fraction := by ring
      _ ≤ (q' + f.bottom).toNat * 2 ^ f.fraction + 2 ^ f.fraction := by gcongr
  · rw [nearest_eq_place hnum hden hq, nearest_eq_place hnum' hden hq']
    refine min_le_min_right _ (Nat.add_le_add_left (roundHalfEven_mono (by positivity) ?_) _)
    exact Nat.mul_le_mul_right _ h

/-- Nothing but zero is near what is less than half of the least value. -/
theorem nearest_eq_zero {num den : ℕ} (h : num * 2 ^ (f.bottom + 1) < den) :
    f.nearest num den = 0 := by
  by_cases hnum : num = 0
  · rw [nearest, if_pos hnum]
  have hpos : 0 < num := Nat.pos_of_ne_zero hnum
  have hden : 0 < den := Nat.zero_lt_of_lt h
  have horder : Int.log 2 ((num : ℚ) / den) < -((f.bottom + 1 : ℕ) : ℤ) := by
    rw [← Int.lt_zpow_iff_log_lt one_lt_two (by positivity), Nat.cast_two,
      div_lt_iff₀ (by positivity), zpow_neg, zpow_natCast, inv_mul_eq_div,
      lt_div_iff₀ (by positivity)]
    exact_mod_cast h
  have hplace : f.place ((num : ℚ) / den) = -(f.bottom : ℤ) := by
    rw [place]
    omega
  have hvalue : (num : ℚ) / den = (num * 2 ^ f.bottom : ℕ) / den * 2 ^ (-(f.bottom : ℤ)) := by
    rw [zpow_neg, zpow_natCast]
    push_cast
    field_simp
  have hround : roundHalfEven (num * 2 ^ f.bottom) den = 0 := by
    rw [pow_succ] at h
    exact roundHalfEven_eq_zero (by linarith)
  rw [nearest_eq hpos hden hden hvalue hplace, hround, neg_add_cancel, Int.toNat_zero, zero_mul,
    add_zero, Nat.zero_min]

/-- Infinity is nearest from some power of two on. -/
theorem nearest_eq_top {num den k : ℕ} (hden : 0 < den) (h : 2 ^ (f.fraction + k) * den ≤ num)
    (htop : f.top ≤ (k + f.bottom + 1) * 2 ^ f.fraction) : f.nearest num den = f.top := by
  have hpos : 0 < num := lt_of_lt_of_le (by positivity) h
  have hquotient : (0 : ℚ) < num / den := by positivity
  have horder : (f.fraction + k : ℤ) ≤ Int.log 2 ((num : ℚ) / den) := by
    rw [← Int.zpow_le_iff_le_log one_lt_two hquotient, Nat.cast_two, le_div_iff₀ (by positivity),
      ← Nat.cast_add, zpow_natCast]
    exact_mod_cast h
  have hk : (k : ℤ) ≤ f.place ((num : ℚ) / den) := by
    rw [place]
    omega
  obtain ⟨q, hq⟩ := Int.eq_ofNat_of_zero_le (show 0 ≤ f.place ((num : ℚ) / den) by omega)
  have hvalue : (num : ℚ) / den = num / (den * 2 ^ q : ℕ) * 2 ^ (q : ℤ) := by
    rw [zpow_natCast]
    push_cast
    field_simp
  have hround := le_roundHalfEven_place hpos (by positivity) (hvalue ▸ hq) (hvalue ▸ by omega)
  rw [nearest_eq hpos hden (by positivity) hvalue hq]
  refine min_eq_right (htop.trans ?_)
  rw [Nat.succ_mul]
  have hle : k + f.bottom ≤ ((q : ℤ) + f.bottom).toNat := by omega
  exact Nat.add_le_add (Nat.mul_le_mul_right _ hle) hround

/-! ## Numbers -/

/-- The bits of the value nearest to a number that is not below zero. -/
def near (f : Format) (r : ℚ) : ℕ := f.nearest r.num.toNat r.den

theorem toNat_num_div_den {r : ℚ} (hr : 0 ≤ r) : (r.num.toNat : ℚ) / r.den = r := by
  conv_rhs => rw [← Rat.num_div_den r]
  congr 1
  exact_mod_cast Int.toNat_of_nonneg (Rat.num_nonneg.2 hr)

theorem near_div (num : ℕ) {den : ℕ} (hden : 0 < den) :
    f.near (num / den) = f.nearest num den :=
  nearest_eq_of_div_eq (Rat.den_pos _) hden (toNat_num_div_den (by positivity))

/-- A multiple of the unit in the last place is nearest to itself. -/
theorem near_multiple {m : ℕ} {q : ℤ} (hm : 0 < m) (hq : f.place (m * 2 ^ q) = q) :
    f.near (m * 2 ^ q) = min ((q + f.bottom).toNat * 2 ^ f.fraction + m) f.top := by
  have hpos : (0 : ℚ) < m * 2 ^ q := by positivity
  have hvalue := toNat_num_div_den hpos.le
  refine nearest_of_multiple ?_ (Rat.den_pos _) hvalue (hvalue.symm ▸ hq)
  exact Int.lt_toNat.2 (Rat.num_pos.2 hpos)

@[gcongr] theorem near_mono {r s : ℚ} (h : r ≤ s) : f.near r ≤ f.near s := by
  have hcross : r.num * s.den ≤ s.num * r.den := (Rat.le_iff r s).1 h
  calc f.near r = f.nearest (r.num.toNat * s.den) (r.den * s.den) :=
        (nearest_mul_mul _ r.den_pos s.den_pos).symm
    _ ≤ f.nearest (s.num.toNat * r.den) (r.den * s.den) := by
        refine nearest_le_nearest (Nat.mul_pos r.den_pos s.den_pos) ?_
        zify
        rcases le_total r.num 0 with hr | hr
        · rw [Int.toNat_of_nonpos hr, Nat.cast_zero, zero_mul]
          positivity
        · have hs : 0 ≤ s.num := Rat.num_nonneg.2 ((Rat.num_nonneg.1 hr).trans h)
          rwa [Int.toNat_of_nonneg hr, Int.toNat_of_nonneg hs]
    _ = f.near s := by
        rw [Nat.mul_comm r.den]
        exact nearest_mul_mul _ s.den_pos r.den_pos

end Format

end Toolpath.Binary
