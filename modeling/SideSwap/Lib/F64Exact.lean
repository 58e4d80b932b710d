import SideSwap.Lib.F64
import Mathlib.Data.Rat.Lemmas
import Mathlib.Algebra.Order.Field.Rat
import Mathlib.Tactic.FieldSimp
import Mathlib.Tactic.Positivity

/-!
# The values of doubles

`F64.value` is the exact value of a finite double and `F64.ofRat` the double nearest to a rational
number.  Rounding keeps the numbers that are doubles (`roundUnits_units`) and no others
(`value_ofRat_iff`).
-/

namespace F64

/-- A quotient of units is rounded to the magnitude that it is. -/
theorem roundUnits_units (k : ℕ) {d : ℕ} (hd : 0 < d) : roundUnits (units k * d) d = k := by
  obtain ⟨m, hk, hm0, hm⟩ := exists_significand k
  have hunits : units k = m * 2 ^ scale k := by
    rw [hk]
    conv_rhs => rw [← hk]
    exact units_encode hm0 (by omega)
  have hquot : units k * d / d = units k := Nat.mul_div_cancel _ hd
  -- the exponent of the last place is found again
  have hlog : Nat.log2 (units k) - 52 = scale k := by
    rcases hm0 with h | h
    · rw [hunits, h, pow_zero, mul_one]
      rcases Nat.eq_zero_or_pos m with rfl | hpos
      · decide
      · have hlt : Nat.log2 m < 53 := (Nat.log2_lt hpos.ne').mpr hm
        omega
    · have hne : units k ≠ 0 := by
        rw [hunits]
        positivity
      have hlow : 52 + scale k ≤ Nat.log2 (units k) := by
        rw [Nat.le_log2 hne, hunits, Nat.pow_add]
        exact Nat.mul_le_mul_right _ h
      have hhigh : Nat.log2 (units k) < 53 + scale k := by
        rw [Nat.log2_lt hne, hunits, Nat.pow_add]
        exact Nat.mul_lt_mul_of_pos_right hm (Nat.two_pow_pos _)
      omega
  have hexact : units k * d = m * (d * 2 ^ scale k) := by
    rw [hunits]
    ring
  have hpos : 0 < d * 2 ^ scale k := Nat.mul_pos hd (Nat.two_pow_pos _)
  have hround : roundHalfEven (units k * d) (d * 2 ^ scale k) = m := by
    rw [roundHalfEven, hexact, Nat.mul_mod_left, Nat.mul_div_cancel _ hpos]
    exact if_pos (.inl hpos)
  show (Nat.log2 (units k * d / d) - 52) * 2 ^ 52 +
    roundHalfEven (units k * d) (d * 2 ^ (Nat.log2 (units k * d / d) - 52)) = k
  rw [hquot, hlog, hround]
  exact hk.symm

/-- The exact value of a finite number. -/
def value : F64 → Option ℚ
  | .nan => none
  | .inf _ => none
  | .fin s k => some (if s then -(units k / one : ℚ) else units k / one)

/-- The number nearest to `± q`. -/
def ofRat (neg : Bool) (q : ℚ) : F64 := ofRatio neg (q.num.natAbs * one) q.den

/-- The magnitude of a finite number. -/
def IsMagnitude (q : ℚ) : Prop := ∃ k : Fin magLimit, q = units k / one

theorem one_pos : (0 : ℚ) < one := by
  unfold one
  positivity

/-- Both zeros are worth nothing. -/
@[simp] theorem value_zero (s : Bool) : value (zero s) = some 0 := by
  have hzero : (units 0 : ℚ) / one = 0 := by
    rw [units_of_lt (by norm_num), Nat.cast_zero, zero_div]
  cases s with
  | false => exact congrArg some hzero
  | true => exact congrArg some (neg_eq_zero.mpr hzero)

theorem value_abs_nonneg {x : F64} {q : ℚ} (h : value (abs x) = some q) : 0 ≤ q := by
  cases x with
  | nan => cases h
  | inf s => cases h
  | fin s k =>
    cases h
    exact div_nonneg (Nat.cast_nonneg _) one_pos.le

/-- The absolute value of a rounded number is its rounding without the sign. -/
theorem abs_ofRat (neg : Bool) (q : ℚ) : abs (ofRat neg q) = ofRat false q := by
  unfold ofRat ofRatio
  split <;> rfl

theorem abs_neg (x : F64) : abs (neg x) = abs x := by
  cases x <;> rfl

/-- Rounding keeps exactly the values of doubles. -/
theorem value_ofRat_iff (neg : Bool) {q : ℚ} (hq : 0 ≤ q) :
    value (ofRat neg q) = some (if neg then -q else q) ↔ IsMagnitude q := by
  have hnum : (q.num.natAbs : ℚ) = q.num := by
    rw [Nat.cast_natAbs, abs_of_nonneg (Rat.num_nonneg.mpr hq)]
  constructor
  · -- a rounded number that is exact is one of the magnitudes
    intro h
    rw [ofRat, ofRatio] at h
    split at h
    · rename_i hlt
      refine ⟨⟨_, hlt⟩, ?_⟩
      cases neg with
      | false => exact (Option.some.inj h).symm
      | true => exact (neg_injective (Option.some.inj h)).symm
    · cases h
  · -- and a magnitude rounds to itself
    rintro ⟨k, hk⟩
    have hden : (q.den : ℚ) ≠ 0 := Nat.cast_ne_zero.mpr q.den_nz
    -- in units of the least number the fraction is a whole number
    have hunits : q.num.natAbs * one = units k * q.den := by
      have hcast : (q.num.natAbs : ℚ) * one = units k * q.den := by
        rw [hnum]
        have hratio : (q.num : ℚ) / q.den = units k / one := by rw [Rat.num_div_den, hk]
        rw [div_eq_div_iff hden one_pos.ne'] at hratio
        exact hratio
      exact_mod_cast hcast
    rw [ofRat, hunits, ofRatio, dif_pos (by rw [roundUnits_units _ q.pos]; exact k.isLt)]
    simp only [value, roundUnits_units _ q.pos]
    rw [← hk]

end F64
