import Toolpath.Proofs.Number.Magnitude

/-!
# Digits with a point

Digits are written with a point among them and with zeros where the point lies outside them:
`point` says how, and both text formats of settings write numbers so. The point keeps the number
(`value_point`), so a finite value is read back from the text of its digits: `ofScientific_point`.
-/

namespace Toolpath.Decimal

open Text (isAsciiDigit)

/-- Digits before and behind a point as numbers have them: some on either side, and a zero that
begins those before the point stands alone. -/
structure Pointed (whole frac : List Char) : Prop where
  digits_whole : Digits whole
  digits_frac : Digits frac
  frac_ne_nil : frac ≠ []
  leading : whole = ['0'] ∨ ∃ d ds, whole = d :: ds ∧ d ≠ '0'

/-- The digits `ds` before and behind a point that stands after the first `k` of them. -/
def point (ds : List Char) (k : ℤ) : List Char × List Char :=
  if k ≤ 0 then (['0'], List.replicate (-k).toNat '0' ++ ds)
  else if k < ds.length then (ds.take k.toNat, ds.drop k.toNat)
  else (ds ++ List.replicate (k - ds.length).toNat '0', ['0'])

theorem Digits.take {ds : List Char} (h : Digits ds) (n : ℕ) : Digits (ds.take n) :=
  fun d hd ↦ h d (List.mem_of_mem_take hd)

theorem Digits.drop {ds : List Char} (h : Digits ds) (n : ℕ) : Digits (ds.drop n) :=
  fun d hd ↦ h d (List.mem_of_mem_drop hd)

theorem Pointed.whole_ne_nil {whole frac : List Char} (h : Pointed whole frac) : whole ≠ [] := by
  rcases h.leading with rfl | ⟨d, ds, rfl, -⟩ <;> exact List.cons_ne_nil _ _

theorem pointed_zero : Pointed ['0'] ['0'] :=
  ⟨digits_zeros 1, digits_zeros 1, List.cons_ne_nil _ _, .inl rfl⟩

theorem pointed_point {n : ℕ} (hn : 0 < n) (k : ℤ) :
    Pointed (point (digits n) k).1 (point (digits n) k).2 := by
  obtain ⟨d, ds, hds, hd⟩ := exists_digits_cons hn
  have hdigits := digits_digits n
  unfold point
  split
  case isTrue hk =>
    exact ⟨digits_zeros 1, (digits_zeros _).append hdigits,
      List.append_ne_nil_of_right_ne_nil _ (digits_ne_nil n), .inl rfl⟩
  case isFalse hk =>
    split
    case isTrue hlt =>
      obtain ⟨i, hi⟩ : ∃ i, k.toNat = i + 1 := ⟨k.toNat - 1, by omega⟩
      refine ⟨hdigits.take _, hdigits.drop _, ?_, .inr ⟨d, ds.take i, ?_, hd⟩⟩
      · rw [Ne, List.drop_eq_nil_iff]
        omega
      · rw [hds, hi, List.take_succ_cons]
    case isFalse hge =>
      exact ⟨hdigits.append (digits_zeros _), digits_zeros 1, List.cons_ne_nil _ _,
        .inr ⟨d, ds ++ _, by rw [hds, List.cons_append], hd⟩⟩

/-- The point does not change what the digits denote. -/
theorem value_point (ds : List Char) (k : ℤ) :
    (value ((point ds k).1 ++ (point ds k).2) : ℚ) * 10 ^ (-((point ds k).2.length : ℤ)) =
      value ds * 10 ^ (k - ds.length) := by
  unfold point
  split
  case isTrue hk =>
    obtain ⟨j, hj⟩ := Int.eq_ofNat_of_zero_le (show 0 ≤ -k by omega)
    obtain rfl : k = -(j : ℤ) := by omega
    have hvalue : value (['0'] ++ (List.replicate j '0' ++ ds)) = value ds := by
      rw [value_append, value_append, value_zeros, show value ['0'] = 0 from rfl]
      simp
    simp only [neg_neg, Int.toNat_natCast, hvalue, List.length_append, List.length_replicate]
    congr 2
    push_cast
    ring
  case isFalse hk =>
    split
    case isTrue hlt =>
      have hlength : ((ds.drop k.toNat).length : ℤ) = ds.length - k := by
        rw [List.length_drop]
        omega
      simp only [List.take_append_drop, hlength]
      congr 2
      ring
    case isFalse hge =>
      obtain ⟨j, hj⟩ := Int.eq_ofNat_of_zero_le (show 0 ≤ k - ds.length by omega)
      have hvalue : value (ds ++ List.replicate j '0' ++ ['0']) = value ds * 10 ^ (j + 1) := by
        rw [value_append, value_append, value_zeros, List.length_replicate, pow_succ]
        simp [show value ['0'] = 0 from rfl, mul_assoc]
      simp only [hj, Int.toNat_natCast, hvalue, List.length_singleton]
      push_cast
      rw [zpow_neg, zpow_natCast, pow_succ]
      field_simp

/-- A point is read by its place. -/
theorem ofScientific_point (n : ℕ) (k : ℤ) :
    ofScientific (point (digits n) k).1 (point (digits n) k).2 0 =
      Float.ofBits (nearest n (k - (digits n).length)).toUInt64 := by
  have hvalue := value_point (digits n) k
  rw [value_digits] at hvalue
  rw [ofScientific_eq, valueFrom_value, zero_sub, nearest_eq_of_eq hvalue]

/-! ## The text of a value -/

namespace Layout

variable {l : Layout}

theorem positional_eq (h : l.pointZero = true) (ds : List Char) (k : ℤ) :
    l.positional ds k = String.ofList ((point ds k).1 ++ '.' :: (point ds k).2) := by
  unfold positional point
  dsimp only
  split
  · rfl
  · split
    · rfl
    · rw [List.append_assoc]

/-- A finite value without its sign is written as digits with a point that read back to it. -/
theorem exists_pointed {x : Float} {negative : Bool} {m : ℕ} {q : ℤ}
    (hx : Binary.decode x = .finite negative m q) (hzero : l.pointZero = true)
    (hlow : l.low = none) (hhigh : l.high = none) :
    ∃ whole frac, l.finite m q = String.ofList (whole ++ '.' :: frac) ∧ Pointed whole frac ∧
      ofScientific whole frac 0 = Binary.magnitude x := by
  by_cases hm : m = 0
  · subst hm
    refine ⟨['0'], ['0'], by rw [finite, if_pos rfl, if_pos hzero]; rfl, pointed_zero, ?_⟩
    rw [Binary.magnitude_zero hx]
    rfl
  · obtain ⟨d, e, hs⟩ : ∃ d e, shortest .up m q = (d, e) := ⟨_, _, rfl⟩
    have htext : l.finite m q = l.positional (digits d) ((digits d).length + e) := by
      simp only [finite, hm, hs, hlow, hhigh]
      rfl
    rw [htext, positional_eq hzero]
    refine ⟨_, _, rfl, pointed_point (Binary.shortest_pos hx hm hs) _, ?_⟩
    rw [ofScientific_point, add_sub_cancel_left, Binary.ofBits_nearest_shortest hx hs]

end Layout

end Toolpath.Decimal
