import Mathlib.Data.List.GetD

/-!
# Base64

Bytes as text, three bytes in four characters.  The decoder reads both alphabets (`Base64.sextet`),
wants the padding, which may be percent-encoded, and rejects bits that stand for nothing.

* `decode_encode`: what is encoded is decoded.
* `mem_encode`: the characters of an encoding.
-/

namespace Base64

/-- The digits. -/
def alphabet : List Char :=
  ['A', 'B', 'C', 'D', 'E', 'F', 'G', 'H', 'I', 'J', 'K', 'L', 'M', 'N', 'O', 'P',
    'Q', 'R', 'S', 'T', 'U', 'V', 'W', 'X', 'Y', 'Z', 'a', 'b', 'c', 'd', 'e', 'f',
    'g', 'h', 'i', 'j', 'k', 'l', 'm', 'n', 'o', 'p', 'q', 'r', 's', 't', 'u', 'v',
    'w', 'x', 'y', 'z', '0', '1', '2', '3', '4', '5', '6', '7', '8', '9', '+', '/']

/-- The character of six bits. -/
def char (n : ℕ) : Char := alphabet.getD n '='

/-- The six bits of a character; `-` and `_` are those of the alphabet for URLs. -/
def sextet (c : Char) : Option ℕ :=
  if c = '-' then some 62 else if c = '_' then some 63 else
    if c ∈ alphabet then some (alphabet.idxOf c) else none

/-- Three bytes become four digits; the last group is padded. -/
def encode : List UInt8 → List Char
  | [] => []
  | [a] => [char (a.toNat / 4), char (a.toNat % 4 * 16), '=', '=']
  | [a, b] =>
    [char (a.toNat / 4), char (a.toNat % 4 * 16 + b.toNat / 16), char (b.toNat % 16 * 4), '=']
  | a :: b :: c :: bytes =>
    char (a.toNat / 4) :: char (a.toNat % 4 * 16 + b.toNat / 16) ::
      char (b.toNat % 16 * 4 + c.toNat / 64) :: char (c.toNat % 64) :: encode bytes

/-- The last four characters, which may end with padding. -/
def decodeLast (w x y z : Char) : Option (List UInt8) := do
  let w ← sextet w
  let x ← sextet x
  if z = '=' then
    if y = '=' then if x % 16 = 0 then some [UInt8.ofNat (w * 4 + x / 16)] else none
    else
      let y ← sextet y
      if y % 4 = 0 then some [UInt8.ofNat (w * 4 + x / 16), UInt8.ofNat (x % 16 * 16 + y / 4)] else none
  else
    let y ← sextet y
    let z ← sextet z
    some [UInt8.ofNat (w * 4 + x / 16), UInt8.ofNat (x % 16 * 16 + y / 4), UInt8.ofNat (y % 4 * 64 + z)]

/-- Four digits become three bytes. -/
def decodeGroups : List Char → Option (List UInt8)
  | [] => some []
  | w :: x :: y :: z :: text =>
    if text = [] then decodeLast w x y z
    else if z = '=' then none
    else do
      let bytes ← decodeLast w x y z
      let rest ← decodeGroups text
      pure (bytes ++ rest)
  | _ => none

/-- A percent-encoded `=` is padding, too. -/
def plainPadding : List Char → List Char
  | '%' :: '3' :: d :: text =>
    if d = 'D' ∨ d = 'd' then '=' :: plainPadding text else '%' :: plainPadding ('3' :: d :: text)
  | c :: text => c :: plainPadding text
  | [] => []

/-- Read a text whose padding may be written as an escape. -/
def decode (text : List Char) : Option (List UInt8) := decodeGroups (plainPadding text)

/-! ### The alphabet -/

theorem length_alphabet : alphabet.length = 64 := by decide +kernel

theorem nodup_alphabet : alphabet.Nodup := by decide +kernel

/-- The padding, the escape and the digits of the other alphabet are no digits. -/
theorem not_mem_alphabet : '=' ∉ alphabet ∧ '%' ∉ alphabet ∧ '-' ∉ alphabet ∧ '_' ∉ alphabet := by
  decide +kernel

theorem char_eq {n : ℕ} (h : n < alphabet.length) : char n = alphabet[n] :=
  List.getD_eq_getElem alphabet '=' h

theorem char_mem {n : ℕ} (h : n < 64) : char n ∈ alphabet := by
  rw [← length_alphabet] at h
  rw [char_eq h]
  exact List.getElem_mem h

theorem char_ne_padding {n : ℕ} (h : n < 64) : char n ≠ '=' := fun heq =>
  not_mem_alphabet.1 (heq ▸ char_mem h)

/-- A digit is read as the number that it was written for. -/
theorem sextet_char {n : ℕ} (h : n < 64) : sextet (char n) = some n := by
  have hmem := char_mem h
  have hminus : char n ≠ '-' := fun heq => not_mem_alphabet.2.2.1 (heq ▸ hmem)
  have hline : char n ≠ '_' := fun heq => not_mem_alphabet.2.2.2 (heq ▸ hmem)
  rw [sextet, if_neg hminus, if_neg hline, if_pos hmem]
  rw [← length_alphabet] at h
  rw [char_eq h, nodup_alphabet.idxOf_getElem n h]

theorem byte_lt (a : UInt8) : a.toNat < 256 := a.toNat_lt

theorem ofNat_eq {n : ℕ} {a : UInt8} (h : n = a.toNat) : UInt8.ofNat n = a := by
  rw [h]
  exact UInt8.ofNat_toNat

/-! ### Groups -/

/-- A last group of one byte. -/
theorem decodeLast_one (a : UInt8) :
    decodeLast (char (a.toNat / 4)) (char (a.toNat % 4 * 16)) '=' '=' = some [a] := by
  have ha := byte_lt a
  have hbits : a.toNat % 4 * 16 % 16 = 0 := by omega
  simp only [decodeLast, sextet_char (show a.toNat / 4 < 64 by omega),
    sextet_char (show a.toNat % 4 * 16 < 64 by omega), Option.bind_eq_bind, Option.bind_some, if_true, hbits]
  rw [ofNat_eq (a := a) (by omega)]

/-- A last group of two bytes. -/
theorem decodeLast_two (a b : UInt8) :
    decodeLast (char (a.toNat / 4)) (char (a.toNat % 4 * 16 + b.toNat / 16)) (char (b.toNat % 16 * 4)) '=' =
      some [a, b] := by
  have ha := byte_lt a
  have hb := byte_lt b
  have hy : b.toNat % 16 * 4 < 64 := by omega
  have hbits : b.toNat % 16 * 4 % 4 = 0 := by omega
  simp only [decodeLast, sextet_char (show a.toNat / 4 < 64 by omega),
    sextet_char (show a.toNat % 4 * 16 + b.toNat / 16 < 64 by omega), sextet_char hy, char_ne_padding hy,
    Option.bind_eq_bind, Option.bind_some, if_true, if_false, hbits]
  rw [ofNat_eq (a := a) (by omega), ofNat_eq (a := b) (by omega)]

/-- A full group. -/
theorem decodeLast_three (a b c : UInt8) :
    decodeLast (char (a.toNat / 4)) (char (a.toNat % 4 * 16 + b.toNat / 16))
      (char (b.toNat % 16 * 4 + c.toNat / 64)) (char (c.toNat % 64)) = some [a, b, c] := by
  have ha := byte_lt a
  have hb := byte_lt b
  have hc := byte_lt c
  have hz : c.toNat % 64 < 64 := by omega
  simp only [decodeLast, sextet_char (show a.toNat / 4 < 64 by omega),
    sextet_char (show a.toNat % 4 * 16 + b.toNat / 16 < 64 by omega),
    sextet_char (show b.toNat % 16 * 4 + c.toNat / 64 < 64 by omega), sextet_char hz, char_ne_padding hz,
    Option.bind_eq_bind, Option.bind_some, if_false]
  rw [ofNat_eq (a := a) (by omega), ofNat_eq (a := b) (by omega), ofNat_eq (a := c) (by omega)]

/-- What is encoded is decoded, group by group. -/
theorem decodeGroups_encode (bytes : List UInt8) : decodeGroups (encode bytes) = some bytes := by
  fun_induction encode bytes with
  | case1 => rfl
  | case2 a => exact decodeLast_one a
  | case3 a b => exact decodeLast_two a b
  | case4 a b c bytes ih =>
    rw [decodeGroups, decodeLast_three, ih, if_neg (char_ne_padding (by omega))]
    -- a group before the last one is no padding, so it is read as it is
    split
    · rename_i hempty
      rw [hempty, decodeGroups] at ih
      rw [← Option.some.inj ih]
    · rfl

/-! ### Texts -/

/-- The characters of an encoding. -/
theorem mem_encode {bytes : List UInt8} {d : Char} (h : d ∈ encode bytes) : d ∈ alphabet ∨ d = '=' := by
  have hchar : ∀ n, n < 64 → d = char n → d ∈ alphabet ∨ d = '=' :=
    fun n hn hd => Or.inl (hd ▸ char_mem hn)
  -- the groups of the encoding: none, one byte, two bytes, three bytes and the rest
  fun_induction encode bytes with
  | case1 => cases h
  | case2 a =>
    have ha := byte_lt a
    simp only [List.mem_cons, List.not_mem_nil, or_false] at h
    rcases h with h | h | h | h
    · exact hchar _ (by omega) h
    · exact hchar _ (by omega) h
    · exact Or.inr h
    · exact Or.inr h
  | case3 a b =>
    have ha := byte_lt a
    have hb := byte_lt b
    simp only [List.mem_cons, List.not_mem_nil, or_false] at h
    rcases h with h | h | h | h
    · exact hchar _ (by omega) h
    · exact hchar _ (by omega) h
    · exact hchar _ (by omega) h
    · exact Or.inr h
  | case4 a b c bytes ih =>
    have ha := byte_lt a
    have hb := byte_lt b
    have hc := byte_lt c
    simp only [List.mem_cons] at h
    rcases h with h | h | h | h | h
    · exact hchar _ (by omega) h
    · exact hchar _ (by omega) h
    · exact hchar _ (by omega) h
    · exact hchar _ (by omega) h
    · exact ih h

theorem plainPadding_of_not_mem {text : List Char} (h : '%' ∉ text) : plainPadding text = text := by
  fun_induction plainPadding text with
  | case1 d text hd ih => exact absurd (List.mem_cons_self ..) h
  | case2 d text hd ih => exact absurd (List.mem_cons_self ..) h
  | case3 c text hc ih => rw [ih (fun hin => h (List.mem_cons_of_mem _ hin))]
  | case4 => rfl

/-- What is encoded is decoded. -/
theorem decode_encode (bytes : List UInt8) : decode (encode bytes) = some bytes := by
  have hplain : '%' ∉ encode bytes := by
    intro hin
    rcases mem_encode hin with hin | heq
    · exact not_mem_alphabet.2.1 hin
    · cases heq
  rw [decode, plainPadding_of_not_mem hplain, decodeGroups_encode]

end Base64
