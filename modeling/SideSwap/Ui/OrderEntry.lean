import SideSwap.Client.Proto
import SideSwap.Lib.F64Exact
import SideSwap.Ui.Amounts
import SideSwap.Ui.Grouping

/-!
# The order form

The form for a new order checks the text of the amount with `parseAssetAmount`, which drops all
spaces and computes with decimals, and submits what `double.tryParse` makes of it, which only trims.
The button for the whole balance writes the balance with its digits grouped.

* `submitted_amount`, `submitted_inner_space`: without a space inside the text, the double nearest
  to the number is submitted; with one, a zero is.
* `onContinue_submits_iff`: of a valid form, the amount is submitted as it was checked exactly if
  the text has no space inside and is a positive number that its double is read as.  What a double
  is read as may be its exact value (`submitsAsRead_value_iff`) or a shorter decimal.
* `onMaxPressed_submits_nothing`: the button for the whole balance puts spaces inside.
-/

namespace SideSwap.Ui

open Client

/-! ### The form -/

/-- What the form reads from the providers: `deliverPrecision` and `receivePrecision` are those of
the chosen assets, `balance` is that of the asset delivered. -/
structure Market where
  deliverPrecision : Option ℕ
  receivePrecision : Option ℕ
  balance : Option ℤ
  deliverLiquid : Bool
  deliverPricedInLiquid : Bool
  tokenAssetId : AssetId
  tokenPricedInLiquid : Bool
  indexPrice : List Char

/-- The texts of the three controllers, and the flags. -/
structure Form where
  deliver : List Char
  price : List Char
  receive : List Char
  isValid : Bool
  showInsufficientFunds : Bool
  isContinued : Bool
  tracking : Bool
  sliderValue : F64

variable (d : Decimal) (market : Market)

/-- The amount to receive, from the amount to deliver and the price. -/
def calculateReceiveAmount (deliverAmount priceAmount : List Char) : List Char :=
  let deliverAmountParsed := (d.tryParse (removeSpaces deliverAmount)).getD 0
  let priceAmountParsed := (d.tryParse (removeSpaces priceAmount)).getD 0
  let amountParsed :=
    if market.deliverPricedInLiquid then deliverAmountParsed * priceAmountParsed
    else if priceAmountParsed ≠ 0 then deliverAmountParsed / priceAmountParsed else 0
  if amountParsed = 0 then [] else d.toStringAsFixed amountParsed (market.receivePrecision.getD 0)

/-- The amount that is compared with the balance. -/
def deliverAmount (form : Form) : Option ℤ :=
  parseAssetAmount d form.deliver (market.deliverPrecision.getD 0 : ℕ)

/-- Check the form again after a change. -/
def validate (form : Form) : Form :=
  match deliverAmount d market form with
  | none => { form with showInsufficientFunds := false, isValid := false }
  | some amount =>
    match market.balance with
    | none => { form with isValid := false }
    | some balance =>
      if amount > balance then { form with showInsufficientFunds := true, isValid := false }
      else
        { form with
          showInsufficientFunds := false
          isValid := calculateReceiveAmount d market form.deliver form.price ≠ [] }

/-- The listeners of the two controllers. -/
def onTextChanged (form : Form) : Form :=
  validate d market
    { form with receive := calculateReceiveAmount d market form.deliver form.price }

/-- The text of the balance. -/
def deliverBalance : List Char :=
  amountStr d (market.balance.getD 0) false (market.deliverPrecision.getD 0)

/-- Deliver the whole balance. -/
def onMaxPressed (form : Form) : Form :=
  let newValue := replaceCharacterOnPosition (deliverBalance d market) 3 [] .begin false false
  validate d market (onTextChanged d market { form with deliver := newValue })

/-- The arguments of `submitOrder`. -/
structure OrderArgs where
  assetId : AssetId
  amount : F64
  price : F64
  isAssetAmount : Bool
  indexPrice : Option F64

/-- What is submitted, and the form after it. -/
def onContinue (form : Form) : OrderArgs × Form :=
  -- we always sell
  let amount := -(doubleTryParse form.deliver).getD (.zero false)
  let priceAmount := (doubleTryParse form.price).getD (.zero false)
  let trackingPercent := F64.ofInt 1 + form.sliderValue / F64.ofInt 100
  let price :=
    if form.tracking then (doubleTryParse market.indexPrice).getD (.zero false) else priceAmount
  let price := if market.tokenPricedInLiquid then F64.ofInt 1 / price else price
  ({ assetId := market.tokenAssetId, amount := amount, price := price
     isAssetAmount := !market.deliverLiquid
     indexPrice := if form.tracking then some trackingPercent else none },
    { form with isValid := false, isContinued := true })

variable {d : Decimal} {market : Market} {form : Form}

/-! ### What is valid -/

/-- Whatever else the package parses, it parses only numerals, as their values. -/
def Decimal.ReadsNumerals (d : Decimal) : Prop :=
  ∀ text q, d.tryParse text = some q → ∃ n : Numeral, n.text = text ∧ n.value = q

theorem validate_deliver : (validate d market form).deliver = form.deliver := by
  unfold validate
  split
  · rfl
  · split
    · rfl
    · split <;> rfl

/-- In a valid form, the amount is the value of the text, within the balance and not zero. -/
theorem validate_valid (hd : d.Exact) (h : (validate d market form).isValid = true) :
    ∃ q amount, d.tryParse (removeSpaces form.deliver) = some q ∧ q ≠ 0 ∧
      deliverAmount d market form = some amount ∧
      q * 10 ^ market.deliverPrecision.getD 0 = amount := by
  unfold validate at h
  split at h
  · cases h
  · rename_i amount hamount
    split at h
    · cases h
    · split at h
      · cases h
      · have hprecision : (market.deliverPrecision.getD 0 : ℤ) ≤ 8 := by
          by_contra hlarge
          rw [deliverAmount, parseAssetAmount, if_pos (.inr (by omega))] at hamount
          cases hamount
        have hread := hamount
        rw [deliverAmount, parseAssetAmount_eq_some hd _ ⟨by omega, hprecision⟩] at hread
        obtain ⟨q, hq, hvalue, -⟩ := hread
        refine ⟨q, amount, hq, ?_, hamount, ?_⟩
        · rintro rfl
          simp [calculateReceiveAmount, hq] at h
        · rw [hvalue, Int.toNat_natCast]
          exact div_mul_cancel₀ _ (by positivity)

/-! ### The two readings -/

theorem isSpace_of_mem_text {n : Numeral} {c : Char} (hc : c ∈ n.text) : isSpace c = false := by
  rcases Numeral.mem_text hc with h | h
  · have hrange := Char.isDigit_iff_toNat.mp h
    have hlow : 48 ≤ c.toNat := hrange.1
    have hhigh : c.toNat ≤ 57 := hrange.2
    simp [isSpace]
    omega
  · simp only [List.mem_cons, List.not_mem_nil, or_false] at h
    rcases h with rfl | rfl | rfl | rfl | rfl <;> rfl

/-- Around a numeral that is broken by spaces, there is nothing else to trim. -/
theorem removeSpaces_trim {text : List Char} {n : Numeral} (h : n.text = removeSpaces text) :
    removeSpaces (trim text) = removeSpaces text := by
  -- a numeral has no white space, so the only white space in the text are spaces
  have hspace : ∀ c ∈ text, isSpace c = true → c = ' ' := by
    intro c hc hspace
    by_contra hne
    have hmem : c ∈ n.text := by
      rw [h]
      exact mem_removeSpaces.mpr ⟨hc, hne⟩
    rw [isSpace_of_mem_text hmem] at hspace
    cases hspace
  have hdropped : ∀ l : List Char, (∀ c ∈ l, c = ' ') → removeSpaces l = [] := by
    intro l hl
    refine List.filter_eq_nil_iff.mpr fun c hc => ?_
    simp [hl c hc]
  have hleft : removeSpaces (text.takeWhile isSpace) = [] := by
    refine hdropped _ fun c hc => ?_
    exact hspace c (List.takeWhile_subset _ hc) (List.mem_takeWhile_imp hc)
  have hright : removeSpaces ((text.dropWhile isSpace).rtakeWhile isSpace) = [] := by
    refine hdropped _ fun c hc => ?_
    have hmem : c ∈ text := List.dropWhile_subset _ ((List.rtakeWhile_suffix _ _).subset hc)
    exact hspace c hmem (List.mem_rtakeWhile_imp hc)
  calc removeSpaces (trim text)
      = removeSpaces (trim text ++ (text.dropWhile isSpace).rtakeWhile isSpace) := by
        rw [removeSpaces_append, hright, List.append_nil]
    _ = removeSpaces (text.dropWhile isSpace) := by
        rw [trim, List.rdropWhile_append_rtakeWhile]
    _ = removeSpaces (text.takeWhile isSpace ++ text.dropWhile isSpace) := by
        rw [removeSpaces_append, hleft, List.nil_append]
    _ = removeSpaces text := by rw [List.takeWhile_append_dropWhile]

/-- Without a space inside, both read the same numeral. -/
theorem doubleTryParse_numeral {text : List Char} {n : Numeral} (h : n.text = removeSpaces text)
    (hspace : ' ' ∉ trim text) : doubleTryParse text = some (toDouble n) := by
  have htrim : trim text = n.text := by
    rw [h, ← removeSpaces_trim h, removeSpaces_of_not_mem hspace]
  rw [doubleTryParse, htrim, Numeral.read_text]

/-- With a space inside, `double.tryParse` reads nothing. -/
theorem doubleTryParse_space {text : List Char} (hspace : ' ' ∈ trim text) :
    doubleTryParse text = none := by
  have hread : Numeral.read (trim text) = none := by
    cases hread : Numeral.read (trim text) with
    | none => rfl
    | some n =>
      rw [← Numeral.text_of_read hread] at hspace
      exact absurd (isSpace_of_mem_text hspace) (by decide)
  have hspecial : ∀ special ∈ specials, ' ' ∉ special.1 := by decide
  rw [doubleTryParse, hread]
  refine List.lookup_eq_none_iff.mpr fun special hmem => ?_
  have hne : trim text ≠ special.1 := by
    intro heq
    rw [heq] at hspace
    exact hspecial special hmem hspace
  simpa using hne

/-! ### What is submitted -/

/-- A way to read doubles as numbers, exactly or as a decimal that stands for them: a zero is read
as zero, and what has no sign as a number that is not negative. -/
structure IsReading (reading : F64 → Option ℚ) : Prop where
  zero : reading (.zero false) = some 0
  nonneg : ∀ x q, reading (F64.abs x) = some q → 0 ≤ q

/-- The magnitude that is submitted, in units of the asset delivered, is the amount that was
compared with the balance. -/
def SubmitsChecked (reading : F64 → Option ℚ) (d : Decimal) (market : Market) (form : Form) : Prop :=
  ∀ amount, deliverAmount d market form = some amount →
    ∃ q, reading (onContinue market form).1.amount.abs = some q ∧
      q * 10 ^ market.deliverPrecision.getD 0 = amount

/-- The text has no space inside, and it is a positive number that the nearest double is read as. -/
def SubmitsAsRead (reading : F64 → Option ℚ) (d : Decimal) (text : List Char) : Prop :=
  ' ' ∉ trim text ∧
    ∃ q, d.tryParse (removeSpaces text) = some q ∧ 0 < q ∧ reading (F64.ofRat false q) = some q

/-- With a space inside the text, a zero is submitted. -/
theorem submitted_inner_space (hspace : ' ' ∈ trim form.deliver) :
    (onContinue market form).1.amount.abs = .zero false := by
  show ((doubleTryParse form.deliver).getD (.zero false)).neg.abs = _
  rw [doubleTryParse_space hspace]
  rfl

/-- Without one, the double nearest to the number. -/
theorem submitted_amount {n : Numeral} (h : n.text = removeSpaces form.deliver)
    (hspace : ' ' ∉ trim form.deliver) :
    (onContinue market form).1.amount.abs = F64.ofRat false n.abs := by
  show ((doubleTryParse form.deliver).getD (.zero false)).neg.abs = _
  rw [doubleTryParse_numeral h hspace, Option.getD_some, toDouble, F64.abs_neg, F64.abs_ofRat]

theorem abs_of_value_pos {n : Numeral} (h : 0 < n.value) : n.abs = n.value := by
  have hsign : n.sign ≠ .minus := by
    intro hminus
    have hnonneg := n.abs_nonneg
    rw [Numeral.value, Numeral.Sign.apply, if_pos hminus] at h
    linarith
  rw [Numeral.value, Numeral.Sign.apply, if_neg hsign]

/-! ### Exactly when -/

/-- For every way to read doubles, every exact `Decimal` package, whatever the form reads from the
providers, and all texts: of a valid form, the amount is submitted as it was checked if and only if
the text has no space inside and is a positive number that its double is read as. -/
theorem onContinue_submits_iff {reading : F64 → Option ℚ} (hreading : IsReading reading)
    (hd : d.Exact) (hreads : d.ReadsNumerals)
    (hvalid : (validate d market form).isValid = true) :
    SubmitsChecked reading d market (validate d market form) ↔
      SubmitsAsRead reading d form.deliver := by
  obtain ⟨q, amount, hq, hne, hamount, hchecked⟩ := validate_valid hd hvalid
  obtain ⟨n, htext, rfl⟩ := hreads _ _ hq
  have hpower : (10 : ℚ) ^ market.deliverPrecision.getD 0 ≠ 0 := by positivity
  have hsame : (validate d market form).deliver = form.deliver := validate_deliver
  have hdeliver : deliverAmount d market (validate d market form) = some amount := by
    rw [deliverAmount, hsame]
    exact hamount
  -- the amount is submitted as checked exactly if the submitted double is read as the number
  have hsubmits : SubmitsChecked reading d market (validate d market form) ↔
      reading (onContinue market (validate d market form)).1.amount.abs = some n.value := by
    simp only [SubmitsChecked, hdeliver, Option.some.injEq, forall_eq']
    constructor
    · rintro ⟨q, hsubmitted, hvalue⟩
      rw [← hchecked] at hvalue
      rw [hsubmitted, mul_right_cancel₀ hpower hvalue]
    · exact fun hsubmitted => ⟨_, hsubmitted, hchecked⟩
  rw [hsubmits, SubmitsAsRead, hq]
  simp only [Option.some.injEq, exists_eq_left']
  by_cases hspace : ' ' ∈ trim form.deliver
  · rw [submitted_inner_space (by rw [hsame]; exact hspace), hreading.zero, Option.some.injEq]
    exact iff_of_false (fun h => hne h.symm) fun h => h.1 hspace
  · rw [submitted_amount (by rw [hsame]; exact htext) (by rw [hsame]; exact hspace)]
    constructor
    · intro h
      have hpos : 0 < n.value := by
        refine lt_of_le_of_ne (hreading.nonneg (F64.ofRat false n.abs) _ ?_) hne.symm
        rw [F64.abs_ofRat]
        exact h
      rw [abs_of_value_pos hpos] at h
      exact ⟨hspace, hpos, h⟩
    · rintro ⟨-, hpos, h⟩
      rw [abs_of_value_pos hpos]
      exact h

/-- The exact values are a way to read doubles. -/
theorem isReading_value : IsReading F64.value where
  zero := F64.value_zero false
  nonneg _ _ h := F64.value_abs_nonneg h

/-- With the exact values, the number must be a double itself. -/
theorem submitsAsRead_value_iff (text : List Char) : SubmitsAsRead F64.value d text ↔
    ' ' ∉ trim text ∧ ∃ q, d.tryParse (removeSpaces text) = some q ∧ 0 < q ∧ F64.IsMagnitude q := by
  have hiff : ∀ q : ℚ, 0 < q → (F64.value (F64.ofRat false q) = some q ↔ F64.IsMagnitude q) :=
    fun q hq => F64.value_ofRat_iff false hq.le
  refine and_congr_right fun _ => exists_congr fun q => and_congr_right fun _ => ?_
  exact and_congr_right (hiff q)

namespace Sample

theorem decimal_readsNumerals : decimal.ReadsNumerals := by
  intro text q h
  obtain ⟨n, hread, hvalue⟩ := Option.map_eq_some_iff.mp h
  exact ⟨n, Numeral.text_of_read hread, hvalue⟩

/-- 1234.5 bitcoin can be delivered. -/
def wallet : Market where
  deliverPrecision := some 8
  receivePrecision := some 2
  balance := some 123450000000
  deliverLiquid := true
  deliverPricedInLiquid := true
  tokenAssetId := ⟨"usdt"⟩
  tokenPricedInLiquid := false
  indexPrice := []

/-- A form with an amount. -/
def entry (deliver : String) : Form where
  deliver := deliver.toList
  price := "2".toList
  receive := []
  isValid := false
  showInsufficientFunds := false
  isContinued := false
  tracking := false
  sliderValue := .zero false

end Sample

open Ui.Sample in
/-- One and a half, read exactly. -/
theorem onContinue_submits_half :
    SubmitsChecked F64.value decimal wallet (validate decimal wallet (entry "1.5")) ↔
      SubmitsAsRead F64.value decimal (entry "1.5").deliver :=
  onContinue_submits_iff isReading_value decimal_exact decimal_readsNumerals (by decide +kernel)

open Ui.Sample in
/-- The whole balance, with its digits grouped by the button, is valid and not submitted, however
doubles are read. -/
theorem onMaxPressed_submits_nothing :
    ¬ ∃ reading, IsReading reading ∧ ∀ (d : Decimal) (market : Market) (form : Form), d.Exact →
      d.ReadsNumerals → (validate d market form).isValid = true →
        SubmitsChecked reading d market (validate d market form) := by
  rintro ⟨reading, hreading, hall⟩
  have hchecked := hall decimal wallet (onMaxPressed decimal wallet (entry "")) decimal_exact
    decimal_readsNumerals (by decide +kernel)
  have hdeliver : (onMaxPressed decimal wallet (entry "")).deliver = "1 234.50000000".toList := by
    decide +kernel
  obtain ⟨q, hq, hvalue⟩ := hchecked 123450000000 (by decide +kernel)
  rw [submitted_inner_space (by rw [validate_deliver, hdeliver]; decide), hreading.zero] at hq
  cases hq
  norm_num at hvalue

end SideSwap.Ui
