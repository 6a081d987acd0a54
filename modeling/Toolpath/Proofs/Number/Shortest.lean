import Toolpath.Proofs.Number.Digits
import Toolpath.Proofs.Number.Nearest

/-!
# Shortest digits read back

`shortest` chooses digits by trying them, so the value it was given is the nearest to the digits it
chooses: `nearest_shortest`. Where `ofScientific` does not compute the nearest value, far out of
range, it gives it all the same: `ofScientific_eq`.
-/

namespace Toolpath.Decimal

open Binary (Format binary64)

/-! ## Decimals as quotients -/

theorem power_div (d : ℕ) (e : ℤ) : ((power d e).1 : ℚ) / (power d e).2 = d * 10 ^ e := by
  rw [power]
  split
  case isTrue he =>
    obtain ⟨k, rfl⟩ := Int.eq_ofNat_of_zero_le he
    simp
  case isFalse he =>
    obtain ⟨k, hk⟩ := Int.eq_ofNat_of_zero_le (show 0 ≤ -e by omega)
    obtain rfl : e = -(k : ℤ) := by omega
    simp [div_eq_mul_inv]

theorem power_snd_pos (d : ℕ) (e : ℤ) : 0 < (power d e).2 := by
  rw [power]
  split <;> positivity

/-- The nearest value depends on the decimal alone. -/
theorem nearest_eq_of_div_eq {num den d : ℕ} {e : ℤ} (hden : 0 < den)
    (h : (num : ℚ) / den = d * 10 ^ e) : nearest d e = binary64.nearest num den :=
  Format.nearest_eq_of_div_eq (power_snd_pos d e) hden ((power_div d e).trans h.symm)

theorem nearest_eq_of_eq {d d' : ℕ} {e e' : ℤ} (h : (d : ℚ) * 10 ^ e = d' * 10 ^ e') :
    nearest d e = nearest d' e' :=
  nearest_eq_of_div_eq (power_snd_pos d' e') ((power_div d' e').trans h.symm)

/-! ## The search for digits -/

theorem Tie.closest_eq_or (tie : Tie) (n d : ℕ) :
    tie.closest n d = n / d ∨ tie.closest n d = n / d + 1 := by
  simp only [closest]
  split
  · exact .inl rfl
  · split
    · cases tie with
      | up => exact .inr rfl
      | even =>
        dsimp only
        omega
    · exact .inr rfl

/-- What is chosen on a grid reads back. -/
theorem nearest_of_onGrid {tie : Tie} {bits num den d : ℕ} {e : ℤ}
    (h : onGrid tie bits num den e = some d) : nearest d e = bits := by
  rw [onGrid] at h
  generalize (if 0 ≤ e then (num, den * 10 ^ e.toNat) else (num * 10 ^ (-e).toNat, den)) = p at h
  obtain ⟨num, den⟩ := p
  dsimp only at h
  split at h
  · rename_i hits
    obtain ⟨hlow, hhigh⟩ := Bool.and_eq_true_iff.1 hits
    rw [beq_iff_eq] at hlow hhigh
    cases h
    rcases tie.closest_eq_or num den with hc | hc
    · rw [hc, hlow]
    · rw [hc, hhigh]
  · split at h
    · rename_i hlow
      cases h
      exact beq_iff_eq.1 hlow
    · split at h
      · rename_i hhigh
        cases h
        exact beq_iff_eq.1 hhigh
      · cases h

/-- Moving zeros into the exponent keeps the decimal. -/
theorem strip_value (n d : ℕ) (e : ℤ) :
    ((strip n d e).1 : ℚ) * 10 ^ (strip n d e).2 = d * 10 ^ e := by
  induction n generalizing d e with
  | zero => rfl
  | succ n ih =>
    rw [strip]
    split
    · rename_i hzero
      have hd : (d : ℚ) = 10 * (d / 10 : ℕ) := by
        exact_mod_cast (Nat.mul_div_cancel' (Nat.dvd_of_mod_eq_zero hzero)).symm
      rw [ih, zpow_add_one₀ (by norm_num), hd]
      ring
    · rfl

theorem nearest_of_search {tie : Tie} {bits num den d tries n : ℕ} {k e : ℤ}
    (h : search tie bits num den k tries n = some (d, e)) : nearest d e = bits := by
  induction tries generalizing n with
  | zero => cases h
  | succ tries ih =>
    rw [search] at h
    split at h
    · rename_i d' hgrid
      have hs : strip n d' (k - n) = (d, e) := Option.some.inj h
      have hvalue := strip_value n d' (k - n)
      rw [hs] at hvalue
      rw [nearest_eq_of_eq hvalue, nearest_of_onGrid hgrid]
    · exact ih h

/-- The quotient that digits are searched for. -/
theorem quotient_eq (m : ℕ) (q : ℤ) :
    ((if 0 ≤ q then m * 2 ^ q.toNat else m : ℕ) : ℚ) / (if 0 ≤ q then 1 else 2 ^ (-q).toNat : ℕ) =
      m * 2 ^ q := by
  split
  case isTrue hq =>
    obtain ⟨k, rfl⟩ := Int.eq_ofNat_of_zero_le hq
    simp
  case isFalse hq =>
    obtain ⟨k, hk⟩ := Int.eq_ofNat_of_zero_le (show 0 ≤ -q by omega)
    obtain rfl : q = -(k : ℤ) := by omega
    simp [div_eq_mul_inv]

/-- The digits chosen for a value read back to it. -/
theorem nearest_shortest {tie : Tie} {m d num den : ℕ} {q e : ℤ} (hden : 0 < den)
    (hvalue : (num : ℚ) / den = m * 2 ^ q) (h : shortest tie m q = (d, e)) :
    nearest d e = binary64.nearest num den := by
  unfold shortest at h
  extract_lets num' den' at h
  rcases hs : search tie (binary64.nearest num' den') num' den' (scale num' den') 17 1
    with _ | found
  · -- The exact digits denote the value itself.
    rw [hs] at h
    refine nearest_eq_of_div_eq hden (hvalue.trans ?_)
    by_cases hq : 0 ≤ q
    · rw [show num' = m * 2 ^ q.toNat from if_pos hq] at h
      obtain ⟨rfl, rfl⟩ := Prod.mk.inj ((if_pos hq).symm.trans h)
      obtain ⟨k, rfl⟩ := Int.eq_ofNat_of_zero_le hq
      simp
    · obtain ⟨rfl, rfl⟩ := Prod.mk.inj ((if_neg hq).symm.trans h)
      obtain ⟨k, hk⟩ := Int.eq_ofNat_of_zero_le (show 0 ≤ -q by omega)
      obtain rfl : q = -(k : ℤ) := by omega
      rw [neg_neg, Int.toNat_natCast, zpow_neg, zpow_neg, zpow_natCast, zpow_natCast,
        show (10 : ℚ) = 5 * 2 by norm_num, mul_pow]
      field_simp
      push_cast
      ring
  · rw [hs] at h
    obtain rfl : found = (d, e) := h
    have hpos : 0 < den' := by
      simp only [den']
      split <;> positivity
    rw [nearest_of_search hs]
    exact Format.nearest_eq_of_div_eq hpos hden ((quotient_eq m q).trans hvalue.symm)

/-! ## Far out of range -/

@[simp] theorem nearest_zero (e : ℤ) : nearest 0 e = 0 := by
  simp only [nearest, power]
  split <;> simp [Format.nearest]

/-- A decimal with its first digit 330 places behind the point is nearest to zero. -/
theorem nearest_eq_zero {d : ℕ} {e : ℤ} (h : e + (digits d).length < -330) : nearest d e = 0 := by
  obtain ⟨k, hk⟩ := Int.eq_ofNat_of_zero_le (show 0 ≤ -e by omega)
  obtain rfl : e = -(k : ℤ) := by omega
  have hlength := Nat.pos_of_ne_zero (mt List.length_eq_zero_iff.1 (digits_ne_nil d))
  have hpower : power d (-(k : ℤ)) = (d, 10 ^ k) := by
    rw [power, if_neg (by omega), neg_neg, Int.toNat_natCast]
  simp only [nearest, hpower]
  refine Format.nearest_eq_zero ?_
  calc d * 2 ^ (binary64.bottom + 1)
      < 10 ^ (digits d).length * 2 ^ (binary64.bottom + 1) :=
        Nat.mul_lt_mul_of_pos_right (lt_pow_length_digits d) (by positivity)
    _ ≤ 10 ^ (digits d).length * 10 ^ 330 := Nat.mul_le_mul_left _ (by decide +kernel)
    _ = 10 ^ ((digits d).length + 330) := (pow_add ..).symm
    _ ≤ 10 ^ k := Nat.pow_le_pow_right (by decide) (by omega)

/-- A decimal with more than 310 places before the point is nearest to infinity. -/
theorem nearest_eq_top {d : ℕ} {e : ℤ} (hd : 0 < d) (h : 310 < e + (digits d).length) :
    nearest d e = binary64.top := by
  refine Format.nearest_eq_top (k := 972) (power_snd_pos d e) ?_ (by decide)
  have hpow := pow_length_digits_le hd
  rw [power]
  split
  case isTrue he =>
    obtain ⟨k, rfl⟩ := Int.eq_ofNat_of_zero_le he
    calc 2 ^ (binary64.fraction + 972) * 1
        ≤ 10 ^ 310 := by decide +kernel
      _ ≤ 10 ^ ((digits d).length - 1 + k) := Nat.pow_le_pow_right (by decide) (by omega)
      _ = 10 ^ ((digits d).length - 1) * 10 ^ k := pow_add ..
      _ ≤ d * 10 ^ k := Nat.mul_le_mul_right _ hpow
  case isFalse he =>
    obtain ⟨k, hk⟩ := Int.eq_ofNat_of_zero_le (show 0 ≤ -e by omega)
    obtain rfl : e = -(k : ℤ) := by omega
    rw [neg_neg, Int.toNat_natCast]
    calc 2 ^ (binary64.fraction + 972) * 10 ^ k
        ≤ 10 ^ 310 * 10 ^ k := Nat.mul_le_mul_right _ (by decide +kernel)
      _ = 10 ^ (310 + k) := (pow_add ..).symm
      _ ≤ 10 ^ ((digits d).length - 1) := Nat.pow_le_pow_right (by decide) (by omega)
      _ ≤ d := hpow

/-- Where nothing is computed the answer is the nearest value all the same. -/
theorem ofScientific_eq (whole frac : List Char) (e : ℤ) :
    ofScientific whole frac e =
      Float.ofBits (nearest (valueFrom (value whole) frac) (e - frac.length)).toUInt64 := by
  simp only [ofScientific]
  generalize valueFrom (value whole) frac = d
  split
  case isTrue h =>
    have hzero : nearest d (e - frac.length) = 0 := by
      rcases h with rfl | h
      · exact nearest_zero _
      · exact nearest_eq_zero h
    rw [hzero]
    rfl
  case isFalse h =>
    obtain ⟨hd, -⟩ := not_or.1 h
    split
    case isTrue h =>
      rw [nearest_eq_top (Nat.pos_of_ne_zero hd) h]
    case isFalse h =>
      rfl

end Toolpath.Decimal
