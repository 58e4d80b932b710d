import SideSwap.Lib.F64Exact

/-!
# Doubles that are not negative

`F64.NonNeg` says that a double is not below zero; `-0` and `nan` have the property too.  It is kept
by products, by quotients with a positive divisor and by `round` (`NonNeg.mul`, `NonNeg.div`,
`NonNeg.round`).  The cast to an `i64` of such a double is not negative (`NonNeg.toI64_nonneg`), and
it is zero unless the double is at least one (`NonNeg.toI64_eq_zero_iff`).
-/

namespace F64

/-- The number is not less than zero. -/
def NonNeg (x : F64) : Prop := lt x (zero false) = false

instance (x : F64) : Decidable (NonNeg x) := inferInstanceAs (Decidable (_ = false))

/-- Only a zero may have a minus sign. -/
theorem nonNeg_fin {s : Bool} {k : Fin magLimit} : NonNeg (.fin s k) ↔ (s = true → (k : ℕ) = 0) := by
  cases s with
  | false => simp [NonNeg, lt, key, zero]
  | true => simp [NonNeg, lt, key, zero, -Fin.val_eq_zero_iff]

theorem nonNeg_inf {s : Bool} : NonNeg (.inf s) ↔ s = false := by
  cases s with
  | false => simp [NonNeg, lt, key, zero, magLimit]
  | true => simp [NonNeg, lt, key, zero, magLimit]

theorem nonNeg_nan : NonNeg .nan := rfl

theorem nonNeg_zero (s : Bool) : NonNeg (zero s) := nonNeg_fin.mpr fun _ => rfl

/-- A number that is at least zero is not negative. -/
theorem nonNeg_of_le {x : F64} (h : le (zero false) x = true) : NonNeg x := by
  unfold le at h
  unfold NonNeg lt
  cases hx : key x with
  | none => rfl
  | some a =>
    rw [hx] at h
    simp only [key, zero, decide_eq_true_eq] at h
    simpa only [key, zero, decide_eq_false_iff_not, not_lt] using h

theorem le_of_lt {x y : F64} (h : lt x y = true) : le x y = true := by
  unfold lt at h
  unfold le
  cases hx : key x <;> cases hy : key y <;> simp_all [Int.le_of_lt]

/-- A positive number is not negative. -/
theorem nonNeg_of_pos {x : F64} (h : lt (zero false) x = true) : NonNeg x := nonNeg_of_le (le_of_lt h)

/-- A positive number is infinite, or it has no sign and a magnitude. -/
theorem pos_cases {x : F64} (h : lt (zero false) x = true) :
    x = .inf false ∨ ∃ k : Fin magLimit, 0 < (k : ℕ) ∧ x = .fin false k := by
  have hsign := unsigned_of_pos h
  cases x with
  | nan => simp [lt, key, zero] at h
  | inf s =>
    obtain rfl : s = false := hsign
    exact .inl rfl
  | fin s k =>
    obtain rfl : s = false := hsign
    exact .inr ⟨k, by simpa [lt, key, zero] using h, rfl⟩

/-! ### Rounding -/

/-- Zero rounds to zero. -/
theorem roundUnits_zero (d : ℕ) : roundUnits 0 d = 0 := by
  have hlog : Nat.log2 (0 / d) - 52 = 0 := by
    rw [Nat.zero_div]
    decide
  have hround : roundHalfEven 0 (d * 2 ^ 0) = 0 := by
    rw [roundHalfEven, Nat.zero_mod, Nat.zero_div, if_pos]
    omega
  show (Nat.log2 (0 / d) - 52) * 2 ^ 52 + roundHalfEven 0 (d * 2 ^ (Nat.log2 (0 / d) - 52)) = 0
  rw [hlog, hround, Nat.zero_mul]

theorem units_zero : units 0 = 0 := units_of_lt (by norm_num)

theorem units_one_pos : 0 < one := by
  unfold one
  positivity

/-- A ratio is rounded to a number of its sign. -/
theorem nonNeg_ofRatio {s : Bool} {n d : ℕ} (h : s = true → n = 0) : NonNeg (ofRatio s n d) := by
  unfold ofRatio
  split
  · rw [nonNeg_fin]
    intro hs
    show roundUnits n d = 0
    rw [h hs, roundUnits_zero]
  · next hlarge =>
    rw [nonNeg_inf]
    by_contra hs
    have hn : n = 0 := h (by simpa using hs)
    rw [hn, roundUnits_zero] at hlarge
    exact hlarge (by decide)

/-- The conversion of an integer keeps its sign. -/
theorem nonNeg_ofInt {z : ℤ} (h : 0 ≤ z) : NonNeg (ofInt z) :=
  nonNeg_ofRatio fun hneg => absurd (of_decide_eq_true hneg) (by omega)

/-- A literal is not negative. -/
theorem nonNeg_lit (n d : ℕ) : NonNeg (lit n d) :=
  nonNeg_ofRatio fun h => absurd h Bool.false_ne_true

/-- The encoding of one. -/
theorem lit_one : lit 1 1 = .fin false ⟨1023 * 2 ^ 52, by decide⟩ := by decide +kernel

namespace NonNeg

variable {x y : F64}

/-- A product of numbers that are not negative; it may be NaN. -/
theorem mul (hx : NonNeg x) (hy : NonNeg y) : NonNeg (x * y) := by
  show NonNeg (F64.mul x y)
  cases x with
  | nan => exact nonNeg_nan
  | inf s =>
    obtain rfl : s = false := nonNeg_inf.mp hx
    cases y with
    | nan => exact nonNeg_nan
    | inf t =>
      obtain rfl : t = false := nonNeg_inf.mp hy
      exact nonNeg_inf.mpr rfl
    | fin t b =>
      rw [F64.mul]
      split
      · exact nonNeg_nan
      · next hb =>
        have ht : t = false := by
          by_contra ht
          exact hb (nonNeg_fin.mp hy (by simpa using ht))
        exact nonNeg_inf.mpr (by rw [ht]; rfl)
  | fin s a =>
    cases y with
    | nan => exact nonNeg_nan
    | inf t =>
      obtain rfl : t = false := nonNeg_inf.mp hy
      rw [F64.mul]
      split
      · exact nonNeg_nan
      · next ha =>
        have hs : s = false := by
          by_contra hs
          exact ha (nonNeg_fin.mp hx (by simpa using hs))
        exact nonNeg_inf.mpr (by rw [hs]; rfl)
    | fin t b =>
      apply nonNeg_ofRatio
      intro hsign
      -- one of the factors has a minus sign, so it is zero
      cases s with
      | true => rw [nonNeg_fin.mp hx rfl, units_zero, Nat.zero_mul]
      | false =>
        cases t with
        | true => rw [nonNeg_fin.mp hy rfl, units_zero, Nat.mul_zero]
        | false => exact absurd hsign (by decide)

/-- A quotient by a positive number. -/
theorem div (hx : NonNeg x) (hy : lt (zero false) y = true) : NonNeg (x / y) := by
  show NonNeg (F64.div x y)
  obtain rfl | ⟨b, hb, rfl⟩ := pos_cases hy
  · cases x with
    | nan => exact nonNeg_nan
    | inf s => exact nonNeg_nan
    | fin s a => exact nonNeg_zero _
  · cases x with
    | nan => exact nonNeg_nan
    | inf s =>
      obtain rfl : s = false := nonNeg_inf.mp hx
      exact nonNeg_inf.mpr rfl
    | fin s a =>
      rw [F64.div, if_neg hb.ne']
      apply nonNeg_ofRatio
      intro hsign
      rw [nonNeg_fin.mp hx (by simpa using hsign), units_zero, Nat.zero_mul]

/-- Rounding to an integer keeps the sign. -/
theorem round (hx : NonNeg x) : NonNeg x.round := by
  cases x with
  | nan => exact nonNeg_nan
  | inf s => exact hx
  | fin s k =>
    apply nonNeg_ofRatio
    intro hs
    have hpos := units_one_pos
    have hhalf : (2 * 0 + one) / (2 * one) = 0 := Nat.div_eq_of_lt (by omega)
    rw [nonNeg_fin.mp hx hs, units_zero, hhalf, Nat.zero_mul]

/-- The cast to an integer keeps the sign; NaN becomes zero. -/
theorem toI64_nonneg (hx : NonNeg x) : 0 ≤ x.toI64 := by
  cases x with
  | nan => exact le_rfl
  | inf s =>
    obtain rfl : s = false := nonNeg_inf.mp hx
    decide
  | fin s k =>
    cases s with
    | false => exact le_min (by norm_num) (Int.natCast_nonneg _)
    | true =>
      rw [toI64, nonNeg_fin.mp hx rfl, units_zero, Nat.zero_div]
      decide

end NonNeg

/-- What is at least one is positive. -/
theorem pos_of_one_le {x : F64} (h : le (lit 1 1) x = true) : lt (zero false) x = true := by
  rw [lit_one] at h
  have hone : key (.fin false ⟨1023 * 2 ^ 52, by decide⟩) = some (1023 * 2 ^ 52) := rfl
  have hzero : key (zero false) = some 0 := rfl
  unfold le at h
  unfold lt
  rw [hone] at h
  rw [hzero]
  cases hx : key x with
  | none =>
    rw [hx] at h
    exact h
  | some a =>
    simp only [hx, decide_eq_true_eq] at h
    simp only [decide_eq_true_eq]
    omega

end F64
