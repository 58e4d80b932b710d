import SideSwap.Common.Types
import SideSwap.Lib.F64Exact
import SideSwap.Lib.Numeral
import SideSwap.Ui.Text
import Mathlib.Data.Rat.Floor

/-!
# Printing and parsing amounts

`amountStr` prints an amount in satoshis with the precision of its asset; `parseAssetAmount` reads a
text that the user has entered.  Both compute with the `Decimal` package, a parameter here; `Exact`
is what they rely on.

* `amountStr_eq`: what is printed is the numeral with all digits.
* `parseAssetAmount_eq_some`: what is read is the value of the text, if it is a whole number of
  units in the range of an `i64`.
* `parseAssetAmount_amountStr`: the two are inverse.
-/

namespace SideSwap.Ui

/-! ### The `Decimal` package -/

/-- The operations on decimals, beside the arithmetic.  `none` is a text that cannot be parsed. -/
structure Decimal where
  tryParse : List Char → Option ℚ
  toInt : ℚ → ℤ
  toStringAsFixed : ℚ → ℕ → List Char

/-- The sign with which an integer is printed. -/
def signOf (z : ℤ) : Numeral.Sign := if z < 0 then .minus else .none

/-- The package is exact: numerals are parsed as their values, integers in range are converted as
they are and others somewhere into the range, and numbers that have `p` digits after the point are
printed with these. -/
structure Decimal.Exact (d : Decimal) : Prop where
  parses : ∀ n : Numeral, n.exponent = none → d.tryParse n.text = some n.value
  toInt_range : ∀ q, IsI64 (d.toInt q)
  toInt_exact : ∀ z : ℤ, IsI64 z → d.toInt z = z
  prints : ∀ (z : ℤ) (p : ℕ), 0 < p →
    d.toStringAsFixed (z / 10 ^ p) p = (Numeral.fixed (signOf z) z.natAbs p).text

/-! ### Printing -/

/-- Satoshis in one bitcoin. -/
def kCoin : ℤ := 100000000

/-- `toString` of an `int`. -/
def intText (z : ℤ) : List Char := (signOf z).text ++ Nat.toDigits 10 z.natAbs

/-- `pow(10, precision).toStringAsFixed(precision)`; the power is an `int`. -/
def powerText (precision : ℕ) : List Char :=
  intText (wrap (10 ^ precision)) ++
    if precision = 0 then [] else '.' :: List.replicate precision '0'

/-- An amount as text, with as many decimals as the asset has. -/
def amountStr (d : Decimal) (amount : ℤ) (forceSign : Bool) (precision : ℕ) : List Char :=
  let sign := if amount < 0 then ['-'] else if forceSign ∧ amount > 0 then ['+'] else []
  let amount := if amount < 0 then wrap (-amount) else amount
  let bitAmount := Int.tdiv amount kCoin
  let satAmount := amount % kCoin
  let satAmountStr := (intText satAmount).leftpad 8 '0'
  let newAmount := (d.tryParse (sign ++ intText bitAmount ++ satAmountStr)).getD 0
  let power := (d.tryParse (powerText precision)).getD 0
  let amountWithPrecision := newAmount / power
  if precision = 0 then intText (d.toInt amountWithPrecision)
  else d.toStringAsFixed amountWithPrecision precision

/-! ### Parsing -/

/-- Read an amount; a text that is not a multiple of the least unit has none. -/
def parseAssetAmount (d : Decimal) (value : List Char) (precision : ℤ) : Option ℤ :=
  if precision < 0 ∨ precision > 8 then none
  else match d.tryParse (removeSpaces value) with
    | none => none
    | some amount =>
      let amountDec := amount * (10 ^ precision.toNat : ℤ)
      let amountInt := d.toInt amountDec
      if (amountInt : ℚ) ≠ amountDec then none else some amountInt

/-- The texts of doubles that are not numerals. -/
def specials : List (List Char × F64) :=
  [("NaN".toList, .nan), ("+NaN".toList, .nan), ("-NaN".toList, .nan),
    ("Infinity".toList, .inf false), ("+Infinity".toList, .inf false), ("-Infinity".toList, .inf true)]

/-- The double nearest to a numeral; the sign of a zero is kept. -/
def toDouble (n : Numeral) : F64 := .ofRat (n.sign = .minus) n.abs

/-- Read a floating point number. -/
def doubleTryParse (text : List Char) : Option F64 :=
  match Numeral.read (trim text) with
  | some n => some (toDouble n)
  | none => specials.lookup (trim text)

variable {d : Decimal}

/-! ### What is printed -/

theorem intText_eq (z : ℤ) : intText z = (Numeral.fixed (signOf z) z.natAbs 0).text := by
  simp [intText, Numeral.text, Numeral.fixed, Numeral.fracText, Numeral.exponentText]

theorem signOf_natCast (n : ℕ) : signOf n = .none := if_neg (by omega)

theorem intText_natCast (n : ℕ) : intText n = Nat.toDigits 10 n := by
  rw [intText, signOf_natCast]
  rfl

theorem powerText_eq {precision : ℕ} (h : precision ≤ 18) :
    powerText precision = (Numeral.fixed .none (10 ^ precision * 10 ^ precision) precision).text := by
  have hrange : IsI64 (10 ^ precision) := by
    have hle : (10 : ℤ) ^ precision ≤ 10 ^ 18 := pow_le_pow_right₀ (by norm_num) h
    have hpos : (0 : ℤ) < 10 ^ precision := by positivity
    unfold IsI64
    omega
  have hpower : intText (wrap (10 ^ precision)) = Nat.toDigits 10 (10 ^ precision) := by
    rw [wrap_of_isI64 hrange, ← intText_natCast]
    push_cast
    rfl
  rw [powerText, hpower]
  by_cases hzero : precision = 0
  · simp [Numeral.text, Numeral.fixed, Numeral.fracText, Numeral.exponentText,
      Numeral.Sign.text, hzero]
  · obtain ⟨k, rfl⟩ := Nat.exists_eq_succ_of_ne_zero hzero
    have hzeros : Numeral.padded (k + 1) 0 = List.replicate (k + 1) '0' := by
      rw [Numeral.padded, List.leftpad, Nat.toDigits_of_lt_base (by decide)]
      show List.replicate k '0' ++ ['0'] = _
      rw [List.replicate_succ']
    simp [Numeral.text, Numeral.fixed, Numeral.fracText, Numeral.exponentText,
      Numeral.Sign.text, hzeros]

theorem power_parsed (hd : d.Exact) {precision : ℕ} (h : precision ≤ 18) :
    d.tryParse (powerText precision) = some ((10 : ℚ) ^ precision) := by
  rw [powerText_eq h, hd.parses _ rfl, Numeral.value_fixed]
  have hne : (10 : ℚ) ^ precision ≠ 0 := by positivity
  simp [Numeral.Sign.apply, hne]

theorem signOf_apply (z : ℤ) : (signOf z).apply (z.natAbs : ℚ) = z := by
  unfold signOf Numeral.Sign.apply
  by_cases h : z < 0
  · rw [if_pos h, if_pos rfl, Nat.cast_natAbs, abs_of_neg h]
    push_cast
    ring
  · rw [if_neg h, if_neg (by decide), Nat.cast_natAbs, abs_of_nonneg (not_lt.mp h)]

/-- All digits of a number, as they are joined from those before and after the last eight. -/
def joined (sign : Numeral.Sign) (n : ℕ) : Numeral where
  sign := sign
  int := Nat.toDigits 10 (n / 10 ^ 8) ++ Numeral.padded 8 (n % 10 ^ 8)
  frac := none
  exponent := none
  intDigits := Numeral.digits_append.mpr ⟨Numeral.digits_toDigits _, Numeral.digits_padded _ _⟩
  fracDigits := by
    intro c hc
    cases hc
  nonempty := by simp [Nat.toDigits_ne_nil]

theorem value_joined (sign : Numeral.Sign) (n : ℕ) : (joined sign n).value = sign.apply (n : ℚ) := by
  have habs : (joined sign n).abs = n := by
    rw [Numeral.abs, joined, Option.getD_none, List.append_nil, Numeral.natOf_split (by decide)]
    simp
  rw [Numeral.value, habs]
  rfl

/-- The sign that `amountStr` puts in front. -/
def printedSign (amount : ℤ) (forceSign : Bool) : Numeral.Sign :=
  if amount < 0 then .minus else if forceSign ∧ amount > 0 then .plus else .none

theorem printedSign_apply (amount : ℤ) (forceSign : Bool) :
    (printedSign amount forceSign).apply (amount.natAbs : ℚ) = amount := by
  have hsign : (printedSign amount forceSign).apply (amount.natAbs : ℚ) =
      (signOf amount).apply (amount.natAbs : ℚ) := by
    unfold printedSign signOf Numeral.Sign.apply
    split
    · rfl
    · split <;> rfl
  rw [hsign, signOf_apply]

/-- The text that `amountStr` parses is that of the amount. -/
theorem joined_text {amount : ℤ} (h : amount.natAbs < 2 ^ 63) (forceSign : Bool) :
    (if amount < 0 then ['-'] else if forceSign ∧ amount > 0 then ['+'] else []) ++
        intText (Int.tdiv (if amount < 0 then wrap (-amount) else amount) kCoin) ++
        (intText ((if amount < 0 then wrap (-amount) else amount) % kCoin)).leftpad 8 '0' =
      (joined (printedSign amount forceSign) amount.natAbs).text := by
  have habs : (if amount < 0 then wrap (-amount) else amount) = (amount.natAbs : ℤ) := by
    split
    · have hrange : IsI64 (-amount) := by
        unfold IsI64
        omega
      rw [wrap_of_isI64 hrange]
      omega
    · omega
  have hdiv : Int.tdiv (amount.natAbs : ℤ) kCoin = ((amount.natAbs / 10 ^ 8 : ℕ) : ℤ) := rfl
  have hmod : (amount.natAbs : ℤ) % kCoin = ((amount.natAbs % 10 ^ 8 : ℕ) : ℤ) := rfl
  have hsign : (if amount < 0 then ['-'] else if forceSign ∧ amount > 0 then ['+'] else []) =
      (printedSign amount forceSign).text := by
    unfold printedSign
    split
    · rfl
    · split <;> rfl
  rw [habs, hdiv, hmod, intText_natCast, intText_natCast, hsign, List.append_assoc]
  simp [Numeral.text, joined, Numeral.fracText, Numeral.exponentText, Numeral.padded]

/-- What is printed is the numeral with all digits, also if the sign is forced. -/
theorem amountStr_eq (hd : d.Exact) {amount : ℤ} (h : amount.natAbs < 2 ^ 63) (forceSign : Bool)
    {precision : ℕ} (hprecision : precision ≤ 18) : amountStr d amount forceSign precision =
      (Numeral.fixed (signOf amount) amount.natAbs precision).text := by
  have hparsed : d.tryParse (joined (printedSign amount forceSign) amount.natAbs).text =
      some (amount : ℚ) := by
    rw [hd.parses _ rfl, value_joined, printedSign_apply]
  unfold amountStr
  simp only [joined_text h, hparsed, power_parsed hd hprecision, Option.getD_some]
  by_cases hzero : precision = 0
  · have hrange : IsI64 amount := by
      unfold IsI64
      omega
    rw [if_pos hzero, hzero, pow_zero, div_one, hd.toInt_exact amount hrange, intText_eq]
  · rw [if_neg hzero, hd.prints amount precision (Nat.pos_of_ne_zero hzero)]

/-! ### What is read -/

/-- A text is read as `n` exactly if, without its spaces, it is parsed as `n` units and these fit
into an `i64`. -/
theorem parseAssetAmount_eq_some (hd : d.Exact) (value : List Char) {precision : ℤ}
    (h : 0 ≤ precision ∧ precision ≤ 8) (n : ℤ) :
    parseAssetAmount d value precision = some n ↔
      ∃ q, d.tryParse (removeSpaces value) = some q ∧ q = n / 10 ^ precision.toNat ∧ IsI64 n := by
  have hpower : (10 : ℚ) ^ precision.toNat ≠ 0 := by positivity
  rw [parseAssetAmount, if_neg (by omega)]
  cases d.tryParse (removeSpaces value) with
  | none => simp
  | some q =>
    simp only [Option.some.injEq, exists_eq_left', ne_eq, ite_not]
    rw [eq_div_iff hpower]
    push_cast
    constructor
    · intro hread
      split at hread
      · rename_i hint
        cases hread
        exact ⟨hint.symm, hd.toInt_range _⟩
      · cases hread
    · rintro ⟨hvalue, hrange⟩
      rw [hvalue, hd.toInt_exact n hrange, if_pos rfl]

theorem removeSpaces_numeral (n : Numeral) : removeSpaces n.text = n.text :=
  removeSpaces_of_not_mem fun hc => absurd (Numeral.mem_text hc) (by decide)

/-! ### Both ways -/

/-- For every exact `Decimal` package: an amount whose magnitude is below 2⁶³ is read back from what
is printed with the same precision, wherever there are spaces; and any text is read as `n` exactly
if it is, without its spaces, a decimal with the value `n / 10 ^ precision`, for `n` in the range of
an `i64`. -/
theorem parseAssetAmount_amountStr (hd : d.Exact) :
    (∀ (amount : ℤ) (forceSign : Bool) (precision : ℕ), amount.natAbs < 2 ^ 63 → precision ≤ 8 →
      ∀ value, removeSpaces value = removeSpaces (amountStr d amount forceSign precision) →
        parseAssetAmount d value precision = some amount) ∧
    (∀ (value : List Char) (precision : ℤ), 0 ≤ precision ∧ precision ≤ 8 → ∀ n : ℤ,
      parseAssetAmount d value precision = some n ↔
        ∃ q, d.tryParse (removeSpaces value) = some q ∧ q = n / 10 ^ precision.toNat ∧ IsI64 n) := by
  refine ⟨fun amount forceSign precision hamount hprecision value hvalue => ?_,
    fun value precision h n => parseAssetAmount_eq_some hd value h n⟩
  rw [parseAssetAmount_eq_some hd value (by omega)]
  have hprinted := hd.parses (Numeral.fixed (signOf amount) amount.natAbs precision) rfl
  refine ⟨_, by rw [hvalue, amountStr_eq hd hamount forceSign (by omega), removeSpaces_numeral]; exact hprinted, ?_, ?_⟩
  · have happly : ∀ (s : Numeral.Sign) (x y : ℚ), s.apply (x / y) = s.apply x / y := by
      intro s x y
      unfold Numeral.Sign.apply
      split
      · rw [neg_div]
      · rfl
    rw [Numeral.value_fixed, happly, signOf_apply, Int.toNat_natCast]
  · unfold IsI64
    omega

namespace Sample

/-- A package that reads every numeral and rounds half away from zero. -/
def decimal : Decimal where
  tryParse text := (Numeral.read text).map Numeral.value
  toInt q := max (-2 ^ 63) (min (2 ^ 63 - 1) (Int.tdiv q.num q.den))
  toStringAsFixed q p :=
    let n := ⌊|q| * 10 ^ p + 1 / 2⌋.toNat
    (Numeral.fixed (if q < 0 then .minus else .none) n p).text

theorem decimal_exact : decimal.Exact where
  parses n _ := by
    show (Numeral.read n.text).map Numeral.value = _
    rw [Numeral.read_text]
    rfl
  toInt_range q := by
    unfold IsI64
    simp only [decimal]
    omega
  toInt_exact z hz := by
    unfold IsI64 at hz
    simp only [decimal, Rat.num_intCast, Rat.den_intCast, Nat.cast_one, Int.tdiv_one]
    omega
  prints z p _ := by
    have hpower : (0 : ℚ) < 10 ^ p := by positivity
    have hsign : ((z : ℚ) / 10 ^ p < 0) ↔ z < 0 := by
      rw [div_lt_iff₀ hpower, zero_mul]
      exact Int.cast_lt_zero
    have habs : |(z : ℚ) / 10 ^ p| * 10 ^ p = (z.natAbs : ℤ) := by
      rw [abs_div, abs_of_pos hpower, div_mul_cancel₀ _ hpower.ne', ← Int.cast_abs,
        Int.abs_eq_natAbs]
    have hround : ⌊((z.natAbs : ℤ) : ℚ) + 1 / 2⌋ = z.natAbs := by
      rw [Int.floor_intCast_add]
      norm_num
    simp only [decimal, habs, hround, Int.toNat_natCast, hsign]
    rfl

end Sample

example : amountStr Sample.decimal (-123450000000) false 8 = "-1234.50000000".toList := by
  decide +kernel

example : parseAssetAmount Sample.decimal "1 234.5".toList 0 = none := by decide +kernel

/-- The sample package is one with which both directions hold. -/
theorem parseAssetAmount_amountStr_sample :
    (∀ (amount : ℤ) (forceSign : Bool) (precision : ℕ), amount.natAbs < 2 ^ 63 → precision ≤ 8 →
      ∀ value, removeSpaces value = removeSpaces (amountStr Sample.decimal amount forceSign precision) →
        parseAssetAmount Sample.decimal value precision = some amount) ∧
    (∀ (value : List Char) (precision : ℤ), 0 ≤ precision ∧ precision ≤ 8 → ∀ n : ℤ,
      parseAssetAmount Sample.decimal value precision = some n ↔
        ∃ q, Sample.decimal.tryParse (removeSpaces value) = some q ∧
          q = n / 10 ^ precision.toNat ∧ IsI64 n) :=
  parseAssetAmount_amountStr Sample.decimal_exact

end SideSwap.Ui
