import Mathlib
import Toolpath.Proofs.Number.Sum

/-!
# Narrowing

A binary64 value above zero is narrowed to the binary32 value nearest to its number (`narrow_eq`). It
goes to zero where it is not more than half of the least binary32 value, and to infinity from halfway
between the greatest one and the power of two behind that: `Format.near_pos_iff`,
`Format.near_lt_top_iff`. Between the two it stays positive and finite (`isPositive_narrow_iff`).
-/

namespace Toolpath.Binary

open Float.Model (UnpackedFloat)
open Float.Model.UnpackedFloat

/-! ## Bits of a narrow value -/

/-- A finite value without a sign bit is above zero unless all its bits are zero. -/
theorem isPos_unpack {spec : Float.Model.Format} {b : BitVec spec.numBits}
    (hsign : unpackSign b = 0#1) (hfinite : unpackExponent b ≠ -1#_) :
    isPos (unpack spec b) = true ↔ ¬(unpackExponent b = 0#_ ∧ unpackMantissa b = 0#_) := by
  simp only [unpack, hsign]
  rw [if_neg hfinite]
  split
  case isTrue he =>
    split
    case isTrue hm => exact iff_of_false Bool.noConfusion (not_not_intro ⟨he, hm⟩)
    case isFalse hm => exact iff_of_true rfl fun h ↦ hm h.2
  case isFalse he => exact iff_of_true rfl fun h ↦ he h.1

theorem top_binary32 : binary32.top = 255 * 2 ^ 23 := by decide

theorem pos_iff32 {x : Float32} : 0 < x ↔ isPos x.toModel.unpack = true :=
  decide_eq_true_iff.trans unpacked_pos_iff

/-- The value with the given bits is positive and finite if they are neither those of zero nor those
of infinity. -/
theorem isPositive_ofBits {n : ℕ} (h : n ≤ binary32.top) :
    Scalar.isPositive (Float32.ofBits n.toUInt32) = true ↔ 0 < n ∧ n < binary32.top := by
  rw [top_binary32] at h ⊢
  generalize hb : n.toUInt32.toBitVec = b
  have hn : b.toNat = n := by
    rw [← hb, UInt32.toNat_toBitVec, Nat.toUInt32_eq, UInt32.toNat_ofNat']
    omega
  have hexponent : (@unpackExponent .binary32 b).toNat = n / 2 ^ 23 % 2 ^ 8 := by
    simp [unpackExponent, Nat.shiftRight_eq_div_pow, hn]
  have hmantissa : (@unpackMantissa .binary32 b).toNat = n % 2 ^ 23 := by
    simp [unpackMantissa, hn]
  have hsign : @unpackSign .binary32 b = 0#1 := by
    apply BitVec.eq_of_toNat_eq
    simp [unpackSign, Nat.shiftRight_eq_div_pow, hn]
    omega
  have hall : (-1#8).toNat = 255 := rfl
  have htop : @unpackExponent .binary32 b = -1#8 ↔ n = 255 * 2 ^ 23 := by
    rw [← BitVec.toNat_inj, hexponent, hall]
    omega
  have hzero : @unpackExponent .binary32 b = 0#8 ∧ @unpackMantissa .binary32 b = 0#23 ↔ n = 0 := by
    rw [← BitVec.toNat_inj, ← BitVec.toNat_inj, hexponent, hmantissa, BitVec.toNat_zero,
      BitVec.toNat_zero]
    omega
  have valid : Float.Model.Format.binary32.Valid b := by
    refine ⟨fun he hm ↦ absurd (BitVec.eq_of_toNat_eq ?_) hm⟩
    rw [hmantissa, htop.1 he]
    rfl
  have hunpack : (Float32.ofBits n.toUInt32).toModel.unpack = unpack .binary32 b := by
    have hbits : pack .binary32 (unpack .binary32 b) = b := pack_unpack_of_valid valid
    rw [← hb] at hbits ⊢
    exact congrArg (unpack .binary32) hbits
  rw [Scalar.isPositive, Bool.and_eq_true, decide_eq_true_eq, pos_iff32]
  change (Float32.ofBits n.toUInt32).toModel.unpack.isFinite = true ∧ _ ↔ _
  rw [hunpack, isFinite_unpack]
  constructor
  · rintro ⟨hfinite, hpos⟩
    have hne := mt hzero.2 ((isPos_unpack hsign hfinite).1 hpos)
    have hne' := mt htop.2 hfinite
    omega
  · rintro ⟨hpos, hlt⟩
    have hfinite : ¬@unpackExponent .binary32 b = -1#8 := fun he ↦ hlt.ne (htop.1 he)
    exact ⟨hfinite, (isPos_unpack hsign hfinite).2 fun hall ↦ hpos.ne' (hzero.1 hall)⟩

/-! ## The range of a format -/

namespace Format

variable {f : Format} {r : ℚ}

/-- Half of the least value as a quotient. -/
theorem half_least_eq (f : Format) :
    (2 : ℚ) ^ (-(f.bottom : ℤ) - 1) = (1 : ℕ) / (2 ^ (f.bottom + 1) : ℕ) := by
  rw [← neg_add', ← Nat.cast_succ, zpow_neg, zpow_natCast]
  push_cast
  exact (one_div _).symm

/-- Half of the least value is as near to zero as to the least value, and goes to the even one. -/
theorem near_half_least (f : Format) : f.near (2 ^ (-(f.bottom : ℤ) - 1)) = 0 := by
  have hplace : f.place ((1 : ℕ) / (2 ^ (f.bottom + 1) : ℕ)) = -(f.bottom : ℤ) := by
    have hlog := log_natCast_mul_zpow Nat.one_pos (-(f.bottom : ℤ) - 1)
    have hone : Nat.log2 1 = 0 := by decide
    rw [Nat.cast_one, one_mul, half_least_eq, hone] at hlog
    rw [place, hlog]
    omega
  have hvalue : ((1 : ℕ) : ℚ) / (2 ^ (f.bottom + 1) : ℕ) =
      (1 : ℕ) / (2 : ℕ) * 2 ^ (-(f.bottom : ℤ)) := by
    rw [← half_least_eq, zpow_sub₀ two_ne_zero]
    push_cast
    ring
  have hround : roundHalfEven 1 2 = 0 := by decide
  rw [half_least_eq, near_div 1 (by positivity),
    nearest_eq Nat.one_pos (by positivity) two_pos hvalue hplace, hround, neg_add_cancel,
    Int.toNat_zero, Nat.zero_mul, Nat.zero_min]

/-- What is more than half of the least value does not go to zero. -/
theorem near_pos_iff (htop : 0 < f.top) : 0 < f.near r ↔ 2 ^ (-(f.bottom : ℤ) - 1) < r := by
  constructor
  · intro h
    by_contra hle
    exact h.not_ge (f.near_half_least ▸ near_mono (not_lt.1 hle))
  · intro h
    have hr : 0 < r := lt_trans (by positivity) h
    have hvalue := toNat_num_div_den hr.le
    have hnum : 0 < r.num.toNat := Int.lt_toNat.2 (Rat.num_pos.2 hr)
    have hbottom : -(f.bottom : ℤ) ≤ f.place r := le_max_right _ _
    -- Where the last place is not the least one, the exponent alone is above zero.
    rcases hbottom.lt_or_eq with hlt | heq
    · refine lt_of_lt_of_le (lt_min ?_ htop) (le_nearest hnum r.den_pos (by rw [hvalue]) hlt)
      positivity
    · rw [near, nearest_eq_place hnum r.den_pos ((congrArg f.place hvalue).trans heq.symm)]
      refine lt_min (Nat.add_pos_right _ (roundHalfEven_pos (by positivity) ?_)) htop
      rw [← hvalue, half_least_eq, div_lt_div_iff₀ (by positivity) (by positivity)] at h
      rw [Int.toNat_neg_natCast, neg_neg, Int.toNat_natCast, pow_zero, Nat.mul_one]
      have hlt : 1 * r.den < r.num.toNat * 2 ^ (f.bottom + 1) := by exact_mod_cast h
      rw [pow_succ] at hlt
      linarith

/-- What is halfway between the greatest value and the power of two behind it goes to infinity, as the
greatest significand is odd. -/
theorem near_halfway : binary32.near ((2 ^ 25 - 1) * 2 ^ 103 : ℕ) = binary32.top := by
  have hcast : (((2 ^ 25 - 1) * 2 ^ 103 : ℕ) : ℚ) = (2 ^ 25 - 1 : ℕ) * 2 ^ (103 : ℤ) := by norm_num
  have hplace : binary32.place (((2 ^ 25 - 1) * 2 ^ 103 : ℕ) / (1 : ℕ)) = 104 := by
    have hlog := log_natCast_mul_zpow (show 0 < 2 ^ 25 - 1 by decide) 103
    have hfew : Nat.log2 (2 ^ 25 - 1) = 24 := by rw [Nat.log2_eq_iff] <;> decide
    rw [Nat.cast_one, div_one, place, hcast, hlog, hfew]
    rfl
  have hvalue : (((2 ^ 25 - 1) * 2 ^ 103 : ℕ) : ℚ) / (1 : ℕ) =
      (2 ^ 25 - 1 : ℕ) / (2 : ℕ) * 2 ^ (104 : ℤ) := by
    norm_num
  have hround : roundHalfEven (2 ^ 25 - 1) 2 = 2 ^ 24 := by decide
  have hnear := near_div (f := binary32) ((2 ^ 25 - 1) * 2 ^ 103) Nat.one_pos
  rw [nearest_eq (by decide) Nat.one_pos two_pos hvalue hplace, hround, Nat.cast_one, div_one] at hnear
  exact hnear.trans (by decide)

/-- What is nearer to the greatest value than to the power of two behind it does not go to
infinity. -/
theorem near_lt_top_iff : binary32.near r < binary32.top ↔ r < ((2 ^ 25 - 1) * 2 ^ 103 : ℕ) := by
  constructor
  · intro h
    by_contra hle
    exact h.not_ge (near_halfway ▸ near_mono (not_lt.1 hle))
  · intro h
    rcases le_or_gt r 0 with hr | hr
    · have hzero : binary32.near r = 0 := by
        rw [near, Int.toNat_of_nonpos (Rat.num_nonpos.2 hr), nearest, if_pos rfl]
      rw [hzero]
      decide
    have hvalue := toNat_num_div_den hr.le
    have hnum : 0 < r.num.toNat := Int.lt_toNat.2 (Rat.num_pos.2 hr)
    have hlog : Int.log 2 r < 128 := by
      rw [← Int.lt_zpow_iff_log_lt one_lt_two hr]
      exact h.trans (by norm_num)
    have hplace : binary32.place r ≤ 104 := by
      rw [place]
      exact max_le (by change _ - (23 : ℤ) ≤ _; omega) (by decide)
    rw [top_binary32]
    -- Only at the greatest last place may a significand that rounds up reach infinity.
    rcases hplace.lt_or_eq with hlt | heq
    · have hle : binary32.near r ≤ _ := nearest_le hnum r.den_pos
      rw [hvalue] at hle
      change _ ≤ (_ + (149 : ℤ)).toNat * 2 ^ 23 + 2 ^ 24 at hle
      omega
    · have hnear : binary32.near r = _ :=
        nearest_eq_place hnum r.den_pos ((congrArg binary32.place hvalue).trans heq)
      have hround : roundHalfEven (r.num.toNat * 1) (r.den * 2 ^ 104) ≤ 2 ^ 24 - 1 := by
        refine roundHalfEven_le_of_lt ?_
        rw [← hvalue, div_lt_iff₀ (Nat.cast_pos.2 r.den_pos)] at h
        have hlt : r.num.toNat < (2 ^ 25 - 1) * 2 ^ 103 * r.den := by exact_mod_cast h
        omega
      rw [hnear]
      refine (min_le_left _ _).trans_lt ?_
      change (253 * 2 ^ 23 + roundHalfEven (r.num.toNat * 1) (r.den * 2 ^ 104) : ℕ) < _
      omega

end Format

/-! ## Narrowing -/

/-- A value above zero has no sign bit. -/
theorem toNat_toBits_lt_of_pos {x : Float} (h : 0 < x) : x.toBits.toNat < 2 ^ 63 := by
  by_contra hge
  have hsign : @unpackSign .binary64 x.toBits.toBitVec = 1#1 := by
    apply BitVec.eq_of_toNat_eq
    have := x.toBits.toNat_lt
    rw [toNat_unpackSign, UInt64.toNat_toBitVec, BitVec.toNat_ofNat]
    omega
  have hpos : isPos (unpack .binary64 x.toBits.toBitVec) = true := pos_iff.1 h
  simp only [unpack, hsign] at hpos
  split at hpos
  · split at hpos <;> cases hpos
  · split at hpos
    · split at hpos <;> cases hpos
    · cases hpos

/-- The number that a value above zero is. -/
theorem decode_of_isPositive {x : Float} (h : Scalar.isPositive x = true) :
    ∃ m q, decode x = .finite false m q ∧ 0 < m := by
  obtain ⟨hfinite, hpos⟩ := Bool.and_eq_true_iff.1 h
  replace hpos : 0 < x := of_decide_eq_true hpos
  obtain ⟨m, q, hd⟩ := decode_of_isFinite hfinite
  have hbits := toNat_toBits_lt_of_pos hpos
  rw [decide_eq_false (Nat.not_le.2 hbits)] at hd
  refine ⟨m, q, hd, Nat.pos_of_ne_zero ?_⟩
  rintro rfl
  have hx := eq_signed_magnitude x
  rw [if_neg (Nat.not_le.2 hbits), magnitude_zero hd] at hx
  rw [hx] at hpos
  obtain ⟨hle, hnot⟩ := Scalar.Ordered.lt_iff_le_not_ge.1 hpos
  exact hnot hle

theorem narrow_eq {x : Float} {m : ℕ} {q : ℤ} (h : decode x = .finite false m q) :
    narrow x = Float32.ofBits (binary32.near (m * 2 ^ q)).toUInt32 := by
  rw [narrow, h, Format.encode, if_neg Bool.false_ne_true, Nat.add_zero]
  congr 2
  split
  case isTrue hq =>
    obtain ⟨k, rfl⟩ := Int.eq_ofNat_of_zero_le hq
    rw [← Format.near_div _ Nat.one_pos, Int.toNat_natCast, zpow_natCast]
    push_cast
    rw [div_one]
  case isFalse hq =>
    obtain ⟨k, hk⟩ := Int.eq_ofNat_of_zero_le (show 0 ≤ -q by omega)
    obtain rfl : q = -(k : ℤ) := by omega
    rw [← Format.near_div _ (by positivity), neg_neg, Int.toNat_natCast, zpow_neg, zpow_natCast]
    push_cast
    rw [div_eq_mul_inv]

/-- Values above zero are in the order of their numbers. -/
theorem lt_iff_of_decode {x y : Float} {m n : ℕ} {q r : ℤ} (hx : decode x = .finite false m q)
    (hy : decode y = .finite false n r) (hm : 0 < m) (hn : 0 < n) :
    x < y ↔ (m : ℚ) * 2 ^ q < n * 2 ^ r := by
  have hu := unpack_of_decode hx hm
  have hv := unpack_of_decode hy hn
  have hr : Unsigned x.toModel.unpack (m * 2 ^ q) := hu ▸ .finite hm (canonical_of_unpack hu)
  have hs : Unsigned y.toModel.unpack (n * 2 ^ r) := hv ▸ .finite hn (canonical_of_unpack hv)
  have hle {a b : Float} {t w : ℚ} (ha : Unsigned a.toModel.unpack t)
      (hb : Unsigned b.toModel.unpack w) (hfinite : b.isFinite = true) : a ≤ b ↔ t ≤ w := by
    constructor
    · intro h
      exact ha.le hb (le_iff.1 h)
    · intro h
      refine le_iff.2 (ha.le_of_packed hb ?_ (packed_lt_iff.2 hfinite))
      rw [ha.pack, hb.pack]
      gcongr
  have hfinite {a : Float} {k : ℕ} {e : ℤ} {hk : 0 < k}
      (h : a.toModel.unpack = .finite .positive k e hk) : a.isFinite = true :=
    congrArg UnpackedFloat.isFinite h
  rw [Scalar.Ordered.lt_iff_le_not_ge, hle hr hs (hfinite hv), hle hs hr (hfinite hu),
    lt_iff_le_not_ge]

/-- Half of the least narrow value. -/
def least32 : Float := Float.ofBits 0x3690000000000000

/-- Halfway between the greatest narrow value and the power of two behind it. -/
def greatest32 : Float := Float.ofBits 0x47EFFFFFF0000000

theorem decode_least32 : decode least32 = .finite false (2 ^ 52) (-202) := by
  have hbits : least32.toBits.toNat = 872 * 2 ^ 52 + 2 ^ 52 := toNat_toBits_ofBits (by decide)
  rw [decode, hbits, decode_bits (by decide) (by decide) (by decide)]
  rfl

theorem decode_greatest32 : decode greatest32 = .finite false (2 ^ 53 - 2 ^ 28) 75 := by
  have hbits : greatest32.toBits.toNat = 1149 * 2 ^ 52 + (2 ^ 53 - 2 ^ 28) :=
    toNat_toBits_ofBits (by decide)
  rw [decode, hbits, decode_bits (by decide) (by decide) (by decide)]
  rfl

/-- A value that is positive and finite stays so when it is narrowed if it lies between the bounds,
and only then. -/
theorem isPositive_narrow_iff {x : Float} (h : Scalar.isPositive x = true) :
    Scalar.isPositive (narrow x) = true ↔ least32 < x ∧ x < greatest32 := by
  obtain ⟨m, q, hd, hm⟩ := decode_of_isPositive h
  have htop : binary32.near (m * 2 ^ q) ≤ binary32.top := Format.nearest_le_top _ _
  rw [narrow_eq hd, isPositive_ofBits htop, Format.near_pos_iff (by decide),
    Format.near_lt_top_iff, lt_iff_of_decode decode_least32 hd (by decide) hm,
    lt_iff_of_decode hd decode_greatest32 hm (by decide)]
  have hlow : ((2 ^ 52 : ℕ) : ℚ) * 2 ^ (-202 : ℤ) = 2 ^ (-(binary32.bottom : ℤ) - 1) := by
    change _ = (2 : ℚ) ^ (-150 : ℤ)
    norm_num
  have hhigh : ((2 ^ 53 - 2 ^ 28 : ℕ) : ℚ) * 2 ^ (75 : ℤ) = ((2 ^ 25 - 1) * 2 ^ 103 : ℕ) := by
    norm_num
  rw [hlow, hhigh]

end Toolpath.Binary
