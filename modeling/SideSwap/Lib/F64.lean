import Mathlib.Data.Nat.Log
import Mathlib.Tactic.Ring
import Mathlib.Tactic.Linarith

/-!
# Double-precision floating point

`F64` models the IEEE 754 binary64 numbers with round-to-nearest-even, in integer arithmetic only,
so that the operations can be evaluated.  A finite number is its sign and the low 63 bits of its
encoding, `mag`; its value is `units mag · 2^(-1074)`.  The encoding is monotone
(`units_strictMono`) and neighbouring numbers are relatively close (`units_le_gap`).

`roundUnits n d` is the encoding nearest to `n / d` units.  What the arithmetic needs of it is that
it does not lose a quotient of at least one unit: `le_units_roundUnits`.

`eq_of_relative_le_zero` is the fact for which the comparison of two prices by their relative
difference rests on: for positive `x` and a `y` without a sign, `|x - y| / y` is `≤ 0` only if
`x = y`.  Neither the subtraction nor the division can underflow to zero there.
-/

/-- The encodings of the finite magnitudes are the numbers below `2047 · 2^52`. -/
def F64.magLimit : ℕ := 2047 * 2 ^ 52

/-- A binary64 number. -/
inductive F64 where
  | nan
  | inf (neg : Bool)
  | fin (neg : Bool) (mag : Fin F64.magLimit)
deriving DecidableEq

namespace F64

/-! ### Magnitudes -/

/-- The unit `2^(-1074)` divides `1` this many times. -/
def one : ℕ := 2 ^ 1074

/-- The exponent of the last place of a magnitude, counted from the least one. -/
def scale (k : ℕ) : ℕ := k / 2 ^ 52 - 1

/-- The value of a magnitude, in units. -/
def units (k : ℕ) : ℕ := (k - scale k * 2 ^ 52) * 2 ^ scale k

/-- `n / d` to the nearest integer, ties to even. -/
def roundHalfEven (n d : ℕ) : ℕ :=
  if 2 * (n % d) < d ∨ (2 * (n % d) = d ∧ n / d % 2 = 0) then n / d else n / d + 1

/-- The encoding of the magnitude nearest to `n / d` units, ties to even. -/
def roundUnits (n d : ℕ) : ℕ :=
  let j := Nat.log2 (n / d) - 52
  j * 2 ^ 52 + roundHalfEven n (d * 2 ^ j)

/-- The number nearest to `± n / d` units. -/
def ofRatio (neg : Bool) (n d : ℕ) : F64 :=
  if h : roundUnits n d < magLimit then .fin neg ⟨roundUnits n d, h⟩ else .inf neg

/-! ### Constants and conversions -/

/-- A zero of the given sign. -/
def zero (neg : Bool) : F64 := .fin neg ⟨0, by decide⟩

/-- The number nearest to an integer (`as f64`). -/
def ofInt (z : ℤ) : F64 := ofRatio (decide (z < 0)) (z.natAbs * one) 1

/-- The decimal constant `n / d`. -/
def lit (n d : ℕ) : F64 := ofRatio false (n * one) d

/-- The nearest `i64`, truncating and saturating (`as i64`). -/
def toI64 : F64 → ℤ
  | .nan => 0
  | .inf true => -2 ^ 63
  | .inf false => 2 ^ 63 - 1
  | .fin true k => max (-2 ^ 63) (-((units k / one : ℕ) : ℤ))
  | .fin false k => min (2 ^ 63 - 1) ((units k / one : ℕ) : ℤ)

/-- The nearest integer, ties away from zero (`f64::round`). -/
def round : F64 → F64
  | .nan => .nan
  | .inf s => .inf s
  | .fin s k => ofRatio s ((2 * units k + one) / (2 * one) * one) 1

/-! ### Arithmetic -/

/-- Change the sign. -/
def neg : F64 → F64
  | .nan => .nan
  | .inf s => .inf !s
  | .fin s k => .fin (!s) k

/-- Drop the sign. -/
def abs : F64 → F64
  | .nan => .nan
  | .inf _ => .inf false
  | .fin _ k => .fin false k

/-- A finite value in units, with its sign. -/
def signed (s : Bool) (k : ℕ) : ℤ := if s then -(units k : ℤ) else units k

/-- Addition; an exact zero is negative only if both operands are. -/
def add : F64 → F64 → F64
  | .nan, _ => .nan
  | _, .nan => .nan
  | .inf s, .inf t => if s = t then .inf s else .nan
  | .inf s, .fin _ _ => .inf s
  | .fin _ _, .inf t => .inf t
  | .fin s a, .fin t b =>
    let v := signed s a + signed t b
    if v = 0 then zero (s && t) else ofRatio (decide (v < 0)) v.natAbs 1

/-- Subtraction. -/
def sub (x y : F64) : F64 := add x (neg y)

/-- Multiplication. -/
def mul : F64 → F64 → F64
  | .nan, _ => .nan
  | _, .nan => .nan
  | .inf s, .inf t => .inf (s != t)
  | .inf s, .fin t b => if (b : ℕ) = 0 then .nan else .inf (s != t)
  | .fin s a, .inf t => if (a : ℕ) = 0 then .nan else .inf (s != t)
  | .fin s a, .fin t b => ofRatio (s != t) (units a * units b) one

/-- Division. -/
def div : F64 → F64 → F64
  | .nan, _ => .nan
  | _, .nan => .nan
  | .inf _, .inf _ => .nan
  | .inf s, .fin t _ => .inf (s != t)
  | .fin s _, .inf t => zero (s != t)
  | .fin s a, .fin t b =>
    if (b : ℕ) = 0 then if (a : ℕ) = 0 then .nan else .inf (s != t)
    else ofRatio (s != t) (units a * one) (units b)

instance : Add F64 := ⟨add⟩
instance : Sub F64 := ⟨sub⟩
instance : Mul F64 := ⟨mul⟩
instance : Div F64 := ⟨div⟩
instance : Neg F64 := ⟨neg⟩

/-! ### Comparisons -/

/-- The position of a number on the line; `nan` has none and the two zeros share one. -/
def key : F64 → Option ℤ
  | .nan => none
  | .inf true => some (-magLimit)
  | .inf false => some magLimit
  | .fin true k => some (-(k : ℕ))
  | .fin false k => some (k : ℕ)

/-- `x < y`. -/
def lt (x y : F64) : Bool :=
  match key x, key y with
  | some a, some b => decide (a < b)
  | _, _ => false

/-- `x <= y`. -/
def le (x y : F64) : Bool :=
  match key x, key y with
  | some a, some b => decide (a ≤ b)
  | _, _ => false

/-- `x == y`. -/
def eq (x y : F64) : Bool :=
  match key x, key y with
  | some a, some b => decide (a = b)
  | _, _ => false

/-- Every number equals itself; only NaN does not. -/
theorem eq_self {x : F64} (hx : x ≠ .nan) : eq x x = true := by
  cases x with
  | nan => exact absurd rfl hx
  | inf s => cases s <;> simp [eq, key]
  | fin s k => cases s <;> simp [eq, key]

/-- The number has no minus sign: it is `nan`, or its sign bit is clear. -/
def Unsigned : F64 → Prop
  | .nan => True
  | .inf s => s = false
  | .fin s _ => s = false

theorem le_of_eq {x y : F64} (h : eq x y = true) : le x y = true := by
  unfold eq at h
  unfold le
  cases hx : key x <;> cases hy : key y <;> simp_all

/-! ### Magnitudes are spaced evenly enough -/

/-- Below the first full significand the numbers are whole units. -/
theorem units_of_lt {k : ℕ} (h : k < 2 ^ 53) : units k = k := by
  have hs : scale k = 0 := by unfold scale; omega
  simp [units, hs]

/-- A magnitude in the binade with exponent `j`, from its significand. -/
theorem units_encode {j m : ℕ} (hj : j = 0 ∨ 2 ^ 52 ≤ m) (hm : m ≤ 2 ^ 53) :
    units (j * 2 ^ 52 + m) = m * 2 ^ j := by
  rcases hj with rfl | hm0
  · rcases Nat.lt_or_ge m (2 ^ 53) with h | h
    · rw [Nat.zero_mul, Nat.zero_add, units_of_lt h, Nat.pow_zero, Nat.mul_one]
    · have : m = 2 ^ 53 := by omega
      subst this
      decide
  · rcases Nat.lt_or_ge m (2 ^ 53) with h | h
    · have hs : scale (j * 2 ^ 52 + m) = j := by unfold scale; omega
      rw [units, hs]
      congr 1
      omega
    · have hm' : m = 2 ^ 53 := by omega
      have hs : scale (j * 2 ^ 52 + m) = j + 1 := by unfold scale; omega
      have hsig : j * 2 ^ 52 + m - (j + 1) * 2 ^ 52 = 2 ^ 52 := by omega
      rw [units, hs, hsig, hm', Nat.pow_succ]
      ring

/-- The significand of a magnitude, with the exponent of its last place. -/
theorem exists_significand (k : ℕ) :
    ∃ m, k = scale k * 2 ^ 52 + m ∧ (scale k = 0 ∨ 2 ^ 52 ≤ m) ∧ m < 2 ^ 53 := by
  refine ⟨k - scale k * 2 ^ 52, ?_, ?_, ?_⟩ <;> unfold scale <;> omega

/-- The gap to the next number is a power of two. -/
theorem units_succ (k : ℕ) : units (k + 1) = units k + 2 ^ scale k := by
  obtain ⟨m, hk, hm0, hm⟩ := exists_significand k
  have h1 : units k = m * 2 ^ scale k := by
    rw [hk]
    conv_rhs => rw [← hk]
    exact units_encode hm0 (by omega)
  have h2 : units (k + 1) = (m + 1) * 2 ^ scale k := by
    have : k + 1 = scale k * 2 ^ 52 + (m + 1) := by omega
    rw [this]
    refine units_encode ?_ (by omega)
    rcases hm0 with h | h
    · exact .inl h
    · exact .inr (by omega)
  rw [h1, h2]
  ring

/-- A greater pattern is a greater number. -/
theorem units_strictMono : StrictMono units := by
  refine strictMono_nat_of_lt_succ fun k => ?_
  rw [units_succ]
  exact Nat.lt_add_of_pos_right (Nat.two_pow_pos _)

theorem units_pos {k : ℕ} (h : 0 < k) : 0 < units k := by
  have := units_strictMono h
  rw [units_of_lt (by norm_num : 0 < 2 ^ 53)] at this
  exact this

/-- The next number is at most a full significand of its gaps. -/
theorem units_succ_le (k : ℕ) : units (k + 1) ≤ 2 ^ 53 * 2 ^ scale k := by
  obtain ⟨m, hk, hm0, hm⟩ := exists_significand k
  have h1 : units k = m * 2 ^ scale k := by
    rw [hk]
    conv_rhs => rw [← hk]
    exact units_encode hm0 (by omega)
  rw [units_succ, h1, ← Nat.succ_mul]
  exact Nat.mul_le_mul_right _ hm

/-- Two different magnitudes differ by at least the `2^53`-th part of the larger one. -/
theorem units_le_gap {a b : ℕ} (h : a < b) : units b ≤ 2 ^ 53 * (units b - units a) := by
  obtain ⟨c, rfl⟩ : ∃ c, b = c + 1 := ⟨b - 1, by omega⟩
  have hac : units a ≤ units c := units_strictMono.monotone (by omega)
  calc units (c + 1) ≤ 2 ^ 53 * 2 ^ scale c := units_succ_le c
    _ ≤ 2 ^ 53 * (units (c + 1) - units a) := by
        apply Nat.mul_le_mul_left
        rw [units_succ]
        omega

/-! ### Rounding -/

theorem le_roundHalfEven (n d : ℕ) : n / d ≤ roundHalfEven n d := by
  unfold roundHalfEven
  split <;> omega

/-- Rounding goes to one of the two neighbours. -/
theorem roundHalfEven_le (n d : ℕ) : roundHalfEven n d ≤ n / d + 1 := by
  unfold roundHalfEven
  split <;> omega

/-- Rounding a quotient of at least one unit loses less than half of it. -/
theorem le_units_roundUnits {n d : ℕ} (hd : 0 < d) (hn : d ≤ n) :
    n ≤ units (roundUnits n d) * (2 * d) := by
  set t := n / d with ht
  set j := Nat.log2 t - 52 with hj
  set q := n / (d * 2 ^ j) with hq
  have ht1 : 1 ≤ t := (Nat.one_le_div_iff hd).mpr hn
  -- the significand before rounding, which lies between two powers of two
  have hqt : q = t / 2 ^ j := by rw [hq, ← Nat.div_div_eq_div_mul]
  have hlt : t < 2 ^ (Nat.log2 t + 1) := Nat.lt_log2_self
  have hle : 2 ^ Nat.log2 t ≤ t := Nat.log2_self_le (by omega)
  have hqlt : q < 2 ^ 53 := by
    rw [hqt, Nat.div_lt_iff_lt_mul (Nat.two_pow_pos _), ← Nat.pow_add]
    exact lt_of_lt_of_le hlt (Nat.pow_le_pow_right (by norm_num) (by omega))
  have hqge : j = 0 ∨ 2 ^ 52 ≤ q := by
    rcases Nat.eq_zero_or_pos j with h | h
    · exact .inl h
    · right
      rw [hqt, Nat.le_div_iff_mul_le (Nat.two_pow_pos _), ← Nat.pow_add]
      exact le_trans (Nat.pow_le_pow_right (by norm_num) (by omega)) hle
  have hq1 : 1 ≤ q := by
    rcases hqge with h | h
    · rw [hqt, h]
      simpa using ht1
    · omega
  -- rounding to even moves it by less than one
  have hm1 := le_roundHalfEven n (d * 2 ^ j)
  have hm2 := roundHalfEven_le n (d * 2 ^ j)
  rw [← hq] at hm1 hm2
  -- and what is encoded is the rounded significand at its exponent
  have hunits : units (roundUnits n d) = roundHalfEven n (d * 2 ^ j) * 2 ^ j := by
    have hround : roundUnits n d = j * 2 ^ 52 + roundHalfEven n (d * 2 ^ j) := rfl
    rw [hround]
    refine units_encode ?_ (by omega)
    rcases hqge with h | h
    · exact .inl h
    · exact .inr (by omega)
  -- the number is less than one gap above the significand
  have hnq : n < (q + 1) * (d * 2 ^ j) := by
    have hpos : 0 < d * 2 ^ j := Nat.mul_pos hd (Nat.two_pow_pos _)
    rw [hq, ← Nat.div_lt_iff_lt_mul hpos]
    exact Nat.lt_succ_self _
  rw [hunits]
  calc n ≤ (q + 1) * (d * 2 ^ j) := hnq.le
    _ ≤ (2 * roundHalfEven n (d * 2 ^ j)) * (d * 2 ^ j) := Nat.mul_le_mul_right _ (by omega)
    _ = roundHalfEven n (d * 2 ^ j) * 2 ^ j * (2 * d) := by ring

/-- A quotient of at least one unit does not round to zero. -/
theorem roundUnits_pos {n d : ℕ} (hd : 0 < d) (hn : d ≤ n) : 0 < roundUnits n d := by
  by_contra h
  have h0 : roundUnits n d = 0 := by omega
  have := le_units_roundUnits hd hn
  rw [h0, units_of_lt (by norm_num : 0 < 2 ^ 53)] at this
  omega

/-! ### The relative difference of two numbers -/

/-- A nonnegative ratio of at least one unit is not `≤ 0`. -/
theorem not_ofRatio_le_zero {n d : ℕ} (hd : 0 < d) (hn : d ≤ n) :
    le (ofRatio false n d) (zero false) = false := by
  have hpos := roundUnits_pos hd hn
  unfold ofRatio
  split
  · simp only [le, key, zero, Nat.cast_zero, decide_eq_false_iff_not, not_le]
    exact_mod_cast hpos
  · simp only [le, key, zero, decide_eq_false_iff_not, not_le]
    decide

/-- The relative difference of two different positive finite numbers is positive. -/
theorem not_relative_le_zero_fin {a b : Fin magLimit} (hb : 0 < (b : ℕ)) (hab : a ≠ b) :
    le (abs (sub (.fin false a) (.fin false b)) / .fin false b) (zero false) = false := by
  have hB : 0 < units b := units_pos hb
  have hne : units a ≠ units b := fun h => hab (Fin.ext (units_strictMono.injective h))
  -- the difference, in units
  set S := (signed false a + signed true b).natAbs with hS
  have hv : signed false a + signed true b = (units a : ℤ) - units b := by
    simp [signed, sub_eq_add_neg]
  have hv0 : signed false a + signed true b ≠ 0 := by rw [hv]; omega
  have hS1 : 1 ≤ S := by omega
  have hgap : units b ≤ 2 ^ 53 * S := by
    rcases Nat.lt_or_gt_of_ne hne with h | h
    · have h' : (a : ℕ) < b := units_strictMono.lt_iff_lt.mp h
      have hSab : S = units b - units a := by omega
      rw [hSab]
      exact units_le_gap h'
    · have h' : (b : ℕ) < a := units_strictMono.lt_iff_lt.mp h
      have hSab : S = units a - units b := by omega
      rw [hSab]
      exact le_trans h.le (units_le_gap h')
  have hsub : sub (.fin false a) (.fin false b)
      = ofRatio (decide (signed false a + signed true b < 0)) S 1 := by
    simp only [sub, neg, add, Bool.not_false]
    rw [if_neg hv0]
  rw [hsub]
  unfold ofRatio
  split
  · rename_i hlt
    have hD := le_units_roundUnits (n := S) (d := 1) (by norm_num) hS1
    have hdiv : units b ≤ units (roundUnits S 1) * one := by
      have h54 : (2 : ℕ) ^ 54 ≤ one := by
        unfold one
        gcongr <;> norm_num
      calc units b ≤ 2 ^ 53 * S := hgap
        _ ≤ units (roundUnits S 1) * 2 ^ 54 := by omega
        _ ≤ units (roundUnits S 1) * one := Nat.mul_le_mul_left _ h54
    have hdivision : abs (.fin (decide (signed false a + signed true b < 0))
        ⟨roundUnits S 1, hlt⟩) / .fin false b
        = ofRatio false (units (roundUnits S 1) * one) (units b) := by
      show div _ _ = _
      simp only [abs, div]
      rw [if_neg (by omega)]
      rfl
    rw [hdivision]
    exact not_ofRatio_le_zero hB hdiv
  · rfl

/-- For a positive `x` and an unsigned `y`, the relative difference `|x - y| / y` is `≤ 0` only if
the numbers are equal. -/
theorem eq_of_relative_le_zero {x y : F64} (hx : lt (zero false) x = true) (hy : Unsigned y)
    (h : le (abs (x - y) / y) (zero false) = true) : x = y := by
  have hsub : x - y = sub x y := rfl
  rw [hsub] at h
  -- over the kinds of the two numbers: only two finite ones can be equal
  cases x with
  | nan => simp [lt, key] at hx
  | inf s =>
    have hs : s = false := by cases s <;> simp_all [lt, key, zero, magLimit]
    subst hs
    cases y with
    | nan => exact absurd h (by decide)
    | inf t => exact absurd h (by revert hy; cases t <;> simp [Unsigned]; decide)
    | fin t b =>
      have ht : t = false := hy
      subst ht
      exact absurd h (by
        show le (div (.inf false) (.fin false b)) (zero false) ≠ true
        simp [div, le, key, zero, magLimit])
  | fin s a =>
    -- a positive number has no minus sign
    have hs : s = false := by
      cases s with
      | false => rfl
      | true => simp [lt, key, zero] at hx; omega
    subst hs
    have ha : 0 < (a : ℕ) := by simpa [lt, key, zero] using hx
    cases y with
    | nan => exact absurd h (by show le .nan _ ≠ true; decide)
    | inf t =>
      exact absurd h (by
        show le (div (.inf false) (.inf t)) (zero false) ≠ true
        simp [div, le, key])
    | fin t b =>
      have ht : t = false := hy
      subst ht
      rcases Nat.eq_zero_or_pos (b : ℕ) with hb | hb
      · -- the division by `+0` is infinite
        have hb0 : b = ⟨0, by decide⟩ := Fin.ext hb
        subst hb0
        have hU : 0 < units a := units_pos ha
        exfalso
        revert h
        have hv0 : signed false a + signed true 0 ≠ 0 := by
          simp [signed, units_of_lt (by norm_num : 0 < 2 ^ 53)]
          omega
        have hsub' : sub (.fin false a) (.fin false ⟨0, by decide⟩)
            = ofRatio (decide (signed false a + signed true 0 < 0))
              (signed false a + signed true 0).natAbs 1 := by
          simp only [sub, neg, add, Bool.not_false]
          rw [if_neg hv0]
        rw [hsub']
        unfold ofRatio
        split
        · rename_i hlt
          have hpos := roundUnits_pos (n := (signed false a + signed true 0).natAbs) (d := 1)
            (by norm_num) (by omega)
          show ¬ le (div _ _) (zero false) = true
          simp only [abs, div, ↓reduceIte]
          rw [if_neg (by omega)]
          decide
        · show ¬ le (div (.inf false) _) (zero false) = true
          simp [div, le, key, zero, magLimit]
      · by_contra hne
        have hab : a ≠ b := fun hab => hne (by rw [hab])
        rw [not_relative_le_zero_fin hb hab] at h
        exact Bool.false_ne_true h

/-- A literal has no sign. -/
theorem unsigned_of_eq_lit {x : F64} {n d : ℕ} (hx : x = lit n d) : Unsigned x := by
  rw [hx, lit, ofRatio]
  split <;> rfl

/-- A positive number has no sign. -/
theorem unsigned_of_pos {x : F64} (hx : lt (zero false) x = true) : Unsigned x := by
  cases x with
  | nan => trivial
  | inf s => cases s <;> simp_all [lt, key, zero, magLimit, Unsigned]
  | fin s a =>
    cases s with
    | false => rfl
    | true =>
      simp [lt, key, zero] at hx
      omega

/-- A ratio of at least one unit is not zero. -/
theorem not_ofRatio_eq_zero {n d : ℕ} (s : Bool) (hd : 0 < d) (hn : d ≤ n) :
    eq (ofRatio s n d) (zero false) = false := by
  have hpos := roundUnits_pos hd hn
  unfold ofRatio
  split
  · cases s <;> simp only [eq, key, zero, decide_eq_false_iff_not] <;> omega
  · cases s <;> simp only [eq, key, zero, decide_eq_false_iff_not] <;> decide

/-- For a positive `x` and a signed finite `y`, the relative difference `|x - y| / y` is not zero:
the numerator is at least as large as the denominator. -/
theorem not_relative_eq_zero_fin {a b : Fin magLimit} (ha : 0 < (a : ℕ)) :
    eq (abs (sub (.fin false a) (.fin true b)) / .fin true b) (zero false) = false := by
  have hA : 0 < units a := units_pos ha
  set S := (signed false a + signed false b).natAbs with hS
  -- the distance is the sum of the two magnitudes, because the signs differ
  have hv : signed false a + signed false b = (units a : ℤ) + units b := by simp [signed]
  have hv0 : signed false a + signed false b ≠ 0 := by rw [hv]; omega
  have hS1 : 1 ≤ S := by omega
  have hSb : units b ≤ S := by omega
  have hsub : sub (.fin false a) (.fin true b)
      = ofRatio (decide (signed false a + signed false b < 0)) S 1 := by
    simp only [sub, neg, add, Bool.not_true]
    rw [if_neg hv0]
  rw [hsub]
  unfold ofRatio
  -- the quotient of finite numbers is at least one unit, and an infinite one is not zero
  split
  · rename_i hlt
    have hpos := roundUnits_pos (n := S) (d := 1) (by norm_num) hS1
    show eq (div _ _) (zero false) = false
    simp only [abs, div]
    rcases Nat.eq_zero_or_pos (b : ℕ) with hb | hb
    · rw [if_pos hb, if_neg (by omega)]
      decide
    · have hD := le_units_roundUnits (n := S) (d := 1) (by norm_num) hS1
      have h2 : (2 : ℕ) ^ 1 ≤ one := by
        unfold one
        gcongr <;> norm_num
      have hdiv : units b ≤ units (roundUnits S 1) * one := by
        calc units b ≤ units (roundUnits S 1) * 2 ^ 1 := by omega
          _ ≤ units (roundUnits S 1) * one := Nat.mul_le_mul_left _ h2
      rw [if_neg (by omega)]
      exact not_ofRatio_eq_zero _ (units_pos hb) hdiv
  · show eq (div (.inf false) _) (zero false) = false
    simp [div, eq, key, zero, magLimit]

/-- For a positive `x`, the relative difference `|x - y| / y` is zero only if the numbers are
equal. -/
theorem eq_of_relative_eq_zero {x y : F64} (hx : lt (zero false) x = true)
    (h : eq (abs (x - y) / y) (zero false) = true) : x = y := by
  by_cases hy : Unsigned y
  · -- without a minus sign this is the lemma for the order
    exact eq_of_relative_le_zero hx hy (le_of_eq h)
  · exfalso
    have hsub : x - y = sub x y := rfl
    rw [hsub] at h
    have hx' := unsigned_of_pos hx
    -- a negative divisor: the quotient is never zero
    cases x with
    | nan => simp [lt, key] at hx
    | inf s =>
      obtain rfl : s = false := hx'
      cases y with
      | nan => exact hy trivial
      | inf t =>
        cases t with
        | false => exact hy rfl
        | true => exact absurd h (by decide)
      | fin t b =>
        revert h
        show ¬ eq (div (.inf false) (.fin t b)) (zero false) = true
        cases t <;> simp [div, eq, key, zero, magLimit]
    | fin s a =>
      obtain rfl : s = false := hx'
      have ha : 0 < (a : ℕ) := by simpa [lt, key, zero] using hx
      cases y with
      | nan => exact hy trivial
      | inf t =>
        revert h
        show ¬ eq (div (.inf false) (.inf t)) (zero false) = true
        simp [div, eq, key]
      | fin t b =>
        cases t with
        | false => exact hy rfl
        | true => exact absurd h (by rw [not_relative_eq_zero_fin ha]; exact Bool.false_ne_true)

end F64
