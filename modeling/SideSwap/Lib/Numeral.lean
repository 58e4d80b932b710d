import Mathlib.Data.Rat.Defs
import Mathlib.Algebra.Order.Field.Rat
import Mathlib.Data.List.TakeWhile
import Mathlib.Tactic.Positivity
import Mathlib.Tactic.Ring
import Mathlib.Tactic.FieldSimp
import Mathlib.Tactic.Linarith

/-!
# Decimal numerals

A `Numeral` is a number as it is written: a sign, digits with or without a point, and an exponent.
Its text is `Numeral.text`, its exact value `Numeral.value`.  `Numeral.read` reads a text back
(`read_text`), and reads nothing else (`text_of_read`).

`Numeral.fixed` is the numeral of `n / 10 ^ p` with `p` digits after the point (`value_fixed`).
-/

namespace Numeral

/-! ### Digits -/

/-- A text of digits. -/
def Digits (l : List Char) : Prop := ∀ c ∈ l, c.isDigit = true

instance (l : List Char) : Decidable (Digits l) := List.decidableBAll _ _

/-- The number that digits stand for. -/
def natOf (l : List Char) : ℕ := Nat.ofDigitChars 10 l 0

/-- The value of joined digits. -/
theorem natOf_append (l l' : List Char) : natOf (l ++ l') = 10 ^ l'.length * natOf l + natOf l' := by
  rw [natOf, Nat.ofDigitChars_append, Nat.ofDigitChars_eq_ofDigitChars_zero]
  rfl

@[simp] theorem natOf_toDigits (n : ℕ) : natOf (Nat.toDigits 10 n) = n := Nat.ofDigitChars_ten_toDigits

@[simp] theorem natOf_zeros (n : ℕ) : natOf (List.replicate n '0') = 0 := by
  rw [natOf, Nat.ofDigitChars_replicate_zero, Nat.mul_zero]

theorem digits_append {l l' : List Char} : Digits (l ++ l') ↔ Digits l ∧ Digits l' :=
  List.forall_mem_append

theorem digits_toDigits (n : ℕ) : Digits (Nat.toDigits 10 n) :=
  fun _ hc => Nat.isDigit_of_mem_toDigits (by decide) (by decide) hc

theorem digits_zeros (n : ℕ) : Digits (List.replicate n '0') := by
  intro c hc
  rw [List.eq_of_mem_replicate hc]
  decide

/-- `n` with zeros in front. -/
def padded (p n : ℕ) : List Char := (Nat.toDigits 10 n).leftpad p '0'

theorem digits_padded (p n : ℕ) : Digits (padded p n) :=
  digits_append.mpr ⟨digits_zeros _, digits_toDigits n⟩

/-- Zeros in front do not change the value. -/
@[simp] theorem natOf_padded (p n : ℕ) : natOf (padded p n) = n := by
  rw [padded, List.leftpad, natOf_append, natOf_zeros, natOf_toDigits, Nat.mul_zero, Nat.zero_add]

/-- A padded number has the width that was asked for. -/
theorem length_padded {p n : ℕ} (hp : 0 < p) (hn : n < 10 ^ p) : (padded p n).length = p := by
  have hlen : (Nat.toDigits 10 n).length ≤ p := (Nat.length_toDigits_le_iff (by decide) hp).mpr hn
  rw [padded, List.length_leftpad]
  omega

/-- A number is put together from what stands before and after the last `p` digits. -/
theorem natOf_split {p : ℕ} (hp : 0 < p) (n : ℕ) :
    natOf (Nat.toDigits 10 (n / 10 ^ p) ++ padded p (n % 10 ^ p)) = n := by
  have hlt : n % 10 ^ p < 10 ^ p := Nat.mod_lt _ (by positivity)
  rw [natOf_append, natOf_toDigits, natOf_padded, length_padded hp hlt]
  exact Nat.div_add_mod n (10 ^ p)

/-! ### Signs and exponents -/

/-- The sign of a numeral, as it is written. -/
inductive Sign where
  | none
  | plus
  | minus
deriving DecidableEq

/-- The sign as text. -/
def Sign.text : Sign → List Char
  | .none => []
  | .plus => ['+']
  | .minus => ['-']

/-- A number with the sign. -/
def Sign.apply {α : Type} [Neg α] (s : Sign) (x : α) : α := if s = .minus then -x else x

/-- The exponent of a numeral, as it is written. -/
structure Exponent where
  mark : Char
  sign : Sign
  digits : List Char
  isMark : mark = 'e' ∨ mark = 'E'
  isDigits : Digits digits
  nonempty : digits ≠ []
deriving DecidableEq

/-- The exponent as text. -/
def Exponent.text (e : Exponent) : List Char := e.mark :: (e.sign.text ++ e.digits)

/-- The exponent as a number. -/
def Exponent.value (e : Exponent) : ℤ := e.sign.apply (natOf e.digits : ℤ)

end Numeral

open Numeral in
/-- There is a digit before or after the point. -/
structure Numeral where
  sign : Sign
  int : List Char
  frac : Option (List Char)
  exponent : Option Exponent
  intDigits : Digits int
  fracDigits : Digits (frac.getD [])
  nonempty : int ++ frac.getD [] ≠ []
deriving DecidableEq

namespace Numeral

/-- The fraction as text, with its point. -/
def fracText : Option (List Char) → List Char
  | none => []
  | some f => '.' :: f

/-- The exponent as text, if there is one. -/
def exponentText : Option Exponent → List Char
  | none => []
  | some e => e.text

/-- The numeral as text. -/
def text (n : Numeral) : List Char :=
  n.sign.text ++ (n.int ++ (fracText n.frac ++ exponentText n.exponent))

/-- The value without the sign. -/
def abs (n : Numeral) : ℚ :=
  natOf (n.int ++ n.frac.getD []) / 10 ^ (n.frac.getD []).length * 10 ^ (n.exponent.elim 0 Exponent.value)

/-- The number that is written. -/
def value (n : Numeral) : ℚ := n.sign.apply n.abs

theorem abs_nonneg (n : Numeral) : 0 ≤ n.abs := by
  unfold abs
  exact mul_nonneg (div_nonneg (Nat.cast_nonneg _) (by positivity)) (zpow_nonneg (by norm_num) _)

/-! ### Reading -/

/-- A sign, if the text begins with one. -/
def readSign : List Char → Sign × List Char
  | '+' :: l => (.plus, l)
  | '-' :: l => (.minus, l)
  | l => (.none, l)

/-- The digits after a point, and what follows. -/
def readFrac : List Char → Option (List Char) × List Char
  | '.' :: l => (some (l.takeWhile Char.isDigit), l.dropWhile Char.isDigit)
  | l => (none, l)

/-- An exponent up to the end. -/
def readExponent : List Char → Option (Option Exponent)
  | [] => some none
  | c :: l =>
    if h : (c = 'e' ∨ c = 'E') ∧ Digits (readSign l).2 ∧ (readSign l).2 ≠ [] then
      some (some ⟨c, (readSign l).1, (readSign l).2, h.1, h.2.1, h.2.2⟩)
    else none

/-- What is taken while there are digits are digits. -/
theorem digits_takeWhile (l : List Char) : Digits (l.takeWhile Char.isDigit) :=
  fun _ hc => List.mem_takeWhile_imp hc

theorem digits_readFrac (l : List Char) : Digits ((readFrac l).1.getD []) := by
  unfold readFrac
  split
  · exact digits_takeWhile _
  · intro c hc
    cases hc

/-- Read a numeral, to the end of the text. -/
def read (l : List Char) : Option Numeral :=
  let (sign, l) := readSign l
  let rest := readFrac (l.dropWhile Char.isDigit)
  match readExponent rest.2 with
  | none => none
  | some exponent =>
    if h : l.takeWhile Char.isDigit ++ rest.1.getD [] ≠ [] then
      some ⟨sign, l.takeWhile Char.isDigit, rest.1, exponent, digits_takeWhile l, digits_readFrac _, h⟩
    else none

/-- The text does not begin with a digit. -/
def NoDigit (l : List Char) : Prop := ∀ c ∈ l.head?, c.isDigit = false

/-- A sign that was written is read, if no other follows it. -/
theorem readSign_text (s : Sign) {l : List Char} (h : ∀ c ∈ l.head?, c ≠ '+' ∧ c ≠ '-') :
    readSign (s.text ++ l) = (s, l) := by
  cases s with
  | none =>
    rw [Sign.text, List.nil_append]
    unfold readSign
    split
    · exact absurd rfl (h '+' rfl).1
    · exact absurd rfl (h '-' rfl).2
    · rfl
  | plus => rfl
  | minus => rfl

/-- What is read as a sign and what is left are the text. -/
theorem text_readSign (l : List Char) : (readSign l).1.text ++ (readSign l).2 = l := by
  unfold readSign
  split <;> rfl

/-- Digits are read up to what is no digit. -/
theorem takeWhile_digits {d rest : List Char} (hd : Digits d) (hrest : NoDigit rest) :
    (d ++ rest).takeWhile Char.isDigit = d ∧ (d ++ rest).dropWhile Char.isDigit = rest := by
  have htake : rest.takeWhile Char.isDigit = [] := by
    cases rest with
    | nil => rfl
    | cons c rest => exact List.takeWhile_cons_of_neg (by simp [hrest c rfl])
  have hdrop : rest.dropWhile Char.isDigit = rest := by
    cases rest with
    | nil => rfl
    | cons c rest => exact List.dropWhile_cons_of_neg (by simp [hrest c rfl])
  constructor
  · rw [List.takeWhile_append_of_pos hd, htake, List.append_nil]
  · rw [List.dropWhile_append_of_pos hd, hdrop]

/-- A fraction that was written is read. -/
theorem readFrac_text {frac : Option (List Char)} (hfrac : Digits (frac.getD [])) {l : List Char}
    (hl : NoDigit l) (hdot : ∀ c ∈ l.head?, c ≠ '.') : readFrac (fracText frac ++ l) = (frac, l) := by
  cases frac with
  | none =>
    rw [fracText, List.nil_append]
    unfold readFrac
    split
    · exact absurd rfl (hdot '.' rfl)
    · rfl
  | some f =>
    obtain ⟨htake, hdrop⟩ := takeWhile_digits (d := f) hfrac hl
    rw [fracText, List.cons_append, readFrac, htake, hdrop]

/-- What is read as a fraction and what is left are the text. -/
theorem text_readFrac (l : List Char) : fracText (readFrac l).1 ++ (readFrac l).2 = l := by
  unfold readFrac
  split
  · rw [fracText, List.cons_append, List.takeWhile_append_dropWhile]
  · rfl

/-- A digit is not a sign. -/
theorem ne_sign_of_isDigit {c : Char} (h : c.isDigit = true) : c ≠ '+' ∧ c ≠ '-' := by
  constructor <;> rintro rfl <;> exact absurd h (by decide)

theorem head_digits {d : List Char} (hd : Digits d) : ∀ c ∈ d.head?, c ≠ '+' ∧ c ≠ '-' :=
  fun _ hc => ne_sign_of_isDigit (hd _ (List.mem_of_mem_head? hc))

/-- An exponent that was written is read. -/
theorem readExponent_text (exponent : Option Exponent) :
    readExponent (exponentText exponent) = some exponent := by
  cases exponent with
  | none => rfl
  | some e =>
    have hread : readSign (e.sign.text ++ e.digits) = (e.sign, e.digits) :=
      readSign_text e.sign (head_digits e.isDigits)
    rw [exponentText, Exponent.text, readExponent]
    simp only [hread]
    rw [dif_pos ⟨e.isMark, e.isDigits, e.nonempty⟩]

/-- What is read as an exponent is the whole text. -/
theorem text_readExponent {l : List Char} {exponent : Option Exponent}
    (h : readExponent l = some exponent) : exponentText exponent = l := by
  cases l with
  | nil =>
    cases h
    rfl
  | cons c l =>
    rw [readExponent] at h
    split at h
    · cases h
      rw [exponentText, Exponent.text, text_readSign]
    · cases h

/-- An exponent begins with its letter. -/
theorem head_exponentText (exponent : Option Exponent) :
    ∀ c ∈ (exponentText exponent).head?, c = 'e' ∨ c = 'E' := by
  cases exponent with
  | none =>
    intro c hc
    cases hc
  | some e =>
    intro c hc
    cases hc
    exact e.isMark

/-- What follows the digits before the point. -/
theorem head_rest (n : Numeral) : ∀ c ∈ (fracText n.frac ++ exponentText n.exponent).head?,
    c = '.' ∨ c = 'e' ∨ c = 'E' := by
  cases n.frac with
  | none => exact fun c hc => .inr (head_exponentText n.exponent c hc)
  | some f =>
    intro c hc
    cases hc
    exact .inl rfl

theorem noDigit_exponentText (exponent : Option Exponent) : NoDigit (exponentText exponent) := by
  intro c hc
  rcases head_exponentText exponent c hc with rfl | rfl <;> decide

/-- A numeral is read from its text. -/
theorem read_text (n : Numeral) : read n.text = some n := by
  -- the integer part ends where the fraction or the exponent begins
  have hrest : NoDigit (fracText n.frac ++ exponentText n.exponent) := by
    intro c hc
    rcases head_rest n c hc with rfl | rfl | rfl <;> decide
  -- what follows the sign is not a sign
  have hsign : readSign n.text =
      (n.sign, n.int ++ (fracText n.frac ++ exponentText n.exponent)) := by
    apply readSign_text
    intro c hc
    rw [List.head?_append] at hc
    cases hint : n.int.head? with
    | none =>
      rw [hint, Option.none_or] at hc
      rcases head_rest n c hc with rfl | rfl | rfl <;> decide
    | some d =>
      rw [hint, Option.some_or] at hc
      cases hc
      exact head_digits n.intDigits c hint
  -- and the fraction ends where the exponent begins
  have hfrac : readFrac (fracText n.frac ++ exponentText n.exponent) =
      (n.frac, exponentText n.exponent) := by
    apply readFrac_text n.fracDigits (noDigit_exponentText n.exponent)
    intro c hc
    rcases head_exponentText n.exponent c hc with rfl | rfl <;> decide
  obtain ⟨htake, hdrop⟩ := takeWhile_digits n.intDigits hrest
  simp only [read, hsign, htake, hdrop, hfrac, readExponent_text]
  rw [dif_pos n.nonempty]

/-- What is read has the text that it is read from. -/
theorem text_of_read {l : List Char} {n : Numeral} (h : read l = some n) : n.text = l := by
  simp only [read] at h
  split at h
  · cases h
  · rename_i exponent hexponent
    split at h
    · cases h
      show _ ++ (_ ++ (_ ++ _)) = l
      rw [text_readExponent hexponent, text_readFrac, List.takeWhile_append_dropWhile, text_readSign]
    · cases h

/-- The characters of a numeral. -/
theorem mem_text {n : Numeral} {c : Char} (hc : c ∈ n.text) :
    c.isDigit = true ∨ c ∈ ['+', '-', '.', 'e', 'E'] := by
  have hsign : ∀ s : Sign, c ∈ s.text → c ∈ ['+', '-', '.', 'e', 'E'] := by
    intro s hs
    cases s <;> simp_all [Sign.text]
  rw [text, List.mem_append, List.mem_append, List.mem_append] at hc
  -- the character is in one of the four parts
  rcases hc with hc | hc | hc | hc
  · exact .inr (hsign n.sign hc)
  · exact .inl (n.intDigits c hc)
  · cases hfrac : n.frac with
    | none => simp [hfrac, fracText] at hc
    | some f =>
      rw [hfrac, fracText, List.mem_cons] at hc
      rcases hc with rfl | hc
      · exact .inr (by simp)
      · exact .inl (n.fracDigits c (by rw [hfrac]; exact hc))
  · cases hexponent : n.exponent with
    | none => simp [hexponent, exponentText] at hc
    | some e =>
      rw [hexponent, exponentText, Exponent.text, List.mem_cons, List.mem_append] at hc
      rcases hc with rfl | hc | hc
      · refine .inr ?_
        rcases e.isMark with h | h <;> rw [h] <;> simp
      · exact .inr (hsign e.sign hc)
      · exact .inl (e.isDigits c hc)

/-! ### Fixed numbers of digits -/

/-- `n / 10 ^ p` with all digits before the point and `p` after it. -/
def fixed (sign : Sign) (n p : ℕ) : Numeral where
  sign := sign
  int := Nat.toDigits 10 (n / 10 ^ p)
  frac := if p = 0 then none else some (padded p (n % 10 ^ p))
  exponent := none
  intDigits := digits_toDigits _
  fracDigits := by
    split
    · intro c hc
      cases hc
    · exact digits_padded _ _
  nonempty := by simp [Nat.toDigits_ne_nil]

/-- The value of a number with a fixed number of decimals. -/
theorem value_fixed (sign : Sign) (n p : ℕ) :
    (fixed sign n p).value = sign.apply ((n : ℚ) / 10 ^ p) := by
  have habs : (fixed sign n p).abs = (n : ℚ) / 10 ^ p := by
    rcases Nat.eq_zero_or_pos p with rfl | hp
    · simp [abs, fixed]
    · have hlen : (padded p (n % 10 ^ p)).length = p :=
        length_padded hp (Nat.mod_lt _ (by positivity))
      simp [abs, fixed, hp.ne', natOf_split hp, hlen]
  rw [value, habs]
  rfl

end Numeral
