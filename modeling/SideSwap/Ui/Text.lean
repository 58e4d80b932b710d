import Mathlib.Data.List.DropRight

/-!
# Texts

The operations on strings that the app uses.  A text is a list of characters.  In the forms all of
them are within the basic plane, so that a character is one code unit; strings are compared by
`codeUnits`.
-/

namespace SideSwap.Ui

/-- `replaceAll(' ', '')`. -/
def removeSpaces (text : List Char) : List Char := text.filter (· ≠ ' ')

/-- The rest of `replaceAll(pattern, '')` after the first `skip` characters, which are removed. -/
def removeAllFrom (pattern : List Char) : ℕ → List Char → List Char
  | _, [] => []
  | skip + 1, _ :: text => removeAllFrom pattern skip text
  | 0, c :: text =>
    if pattern ≠ [] ∧ pattern <+: c :: text then removeAllFrom pattern (pattern.length - 1) text
    else c :: removeAllFrom pattern 0 text

/-- `replaceAll(pattern, '')`; an empty pattern removes nothing. -/
def removeAll (pattern text : List Char) : List Char := removeAllFrom pattern 0 text

/-- The characters that `trim` removes: Unicode white space and the byte order mark. -/
def isSpace (c : Char) : Bool :=
  (0x9 ≤ c.toNat ∧ c.toNat ≤ 0xd) ∨ (0x2000 ≤ c.toNat ∧ c.toNat ≤ 0x200a) ∨
    c.toNat ∈ [0x20, 0x85, 0xa0, 0x1680, 0x2028, 0x2029, 0x202f, 0x205f, 0x3000, 0xfeff]

/-- The text without the blanks at its ends. -/
def trim (text : List Char) : List Char := (text.dropWhile isSpace).rdropWhile isSpace

/-- The code units of a character: two halves outside of the basic plane. -/
def utf16 (c : Char) : List ℕ :=
  if c.toNat < 0x10000 then [c.toNat]
  else [0xd800 + (c.toNat - 0x10000) / 0x400, 0xdc00 + (c.toNat - 0x10000) % 0x400]

/-- The code units of a text, by which `compareTo` compares. -/
def codeUnits (text : List Char) : List ℕ := text.flatMap utf16

/-! ### Removing -/

theorem mem_removeSpaces {c : Char} {text : List Char} :
    c ∈ removeSpaces text ↔ c ∈ text ∧ c ≠ ' ' := by
  simp [removeSpaces]

@[simp] theorem removeSpaces_append (a b : List Char) :
    removeSpaces (a ++ b) = removeSpaces a ++ removeSpaces b :=
  List.filter_append ..

@[simp] theorem removeSpaces_space (text : List Char) :
    removeSpaces (' ' :: text) = removeSpaces text := rfl

theorem removeSpaces_cons {c : Char} (hc : c ≠ ' ') (text : List Char) :
    removeSpaces (c :: text) = c :: removeSpaces text :=
  List.filter_cons_of_pos (decide_eq_true hc)

theorem removeSpaces_of_not_mem {text : List Char} (h : ' ' ∉ text) : removeSpaces text = text := by
  refine List.filter_eq_self.mpr fun c hc => decide_eq_true ?_
  rintro rfl
  exact h hc

@[simp] theorem removeAll_nil (text : List Char) : removeAll [] text = text := by
  induction text with
  | nil => rfl
  | cons c text ih =>
    rw [removeAll, removeAllFrom, if_neg (fun h => h.1 rfl)]
    exact congrArg (c :: ·) ih

theorem removeAllFrom_length (pattern a b : List Char) :
    removeAllFrom pattern a.length (a ++ b) = removeAll pattern b := by
  induction a with
  | nil => rfl
  | cons c a ih => exact ih

/-- The pattern is removed where it is found first. -/
theorem removeAll_pattern {pattern : List Char} (h : pattern ≠ []) (text : List Char) :
    removeAll pattern (pattern ++ text) = removeAll pattern text := by
  cases pattern with
  | nil => exact absurd rfl h
  | cons p ps =>
    rw [List.cons_append, removeAll, removeAllFrom, if_pos ⟨h, List.prefix_append (p :: ps) text⟩]
    exact removeAllFrom_length (p :: ps) ps text

/-- Characters that are not in the pattern stay. -/
theorem removeAll_append {pattern a : List Char} (h : ∀ c ∈ a, c ∉ pattern) (b : List Char) :
    removeAll pattern (a ++ b) = a ++ removeAll pattern b := by
  induction a with
  | nil => rfl
  | cons c a ih =>
    rw [List.forall_mem_cons] at h
    have hno : ¬ (pattern ≠ [] ∧ pattern <+: c :: (a ++ b)) := by
      rintro ⟨hne, hstarts⟩
      cases pattern with
      | nil => exact hne rfl
      | cons p ps =>
        rw [List.cons_prefix_cons] at hstarts
        rw [hstarts.1] at h
        exact h.1 (List.mem_cons_self ..)
    rw [List.cons_append, removeAll, removeAllFrom, if_neg hno]
    exact congrArg (c :: ·) (ih h.2)

theorem removeAll_of_not_mem {pattern text : List Char} (h : ∀ c ∈ text, c ∉ pattern) :
    removeAll pattern text = text := by
  have happend := removeAll_append h []
  rw [List.append_nil] at happend
  rw [happend]
  exact List.append_nil text

/-! ### Trimming -/

theorem trim_of_forall {text : List Char} (h : ∀ c ∈ text, isSpace c = false) : trim text = text := by
  have hfront : text.dropWhile isSpace = text := by
    refine List.dropWhile_eq_self_iff.mpr fun hlength => ?_
    rw [h _ (List.getElem_mem _)]
    exact Bool.false_ne_true
  rw [trim, hfront]
  refine List.rdropWhile_eq_self_iff.mpr fun hne => ?_
  rw [h _ (List.getLast_mem hne)]
  exact Bool.false_ne_true

theorem not_isSpace_of_isDigit {c : Char} (h : c.isDigit = true) : isSpace c = false := by
  have hrange : 48 ≤ c.toNat ∧ c.toNat ≤ 57 := by
    simp only [Char.isDigit, Bool.and_eq_true, decide_eq_true_eq, ge_iff_le, UInt32.le_iff_toNat_le] at h
    exact h
  simp only [isSpace, decide_eq_false_iff_not, List.mem_cons, List.not_mem_nil, or_false]
  omega

/-! ### Joining -/

theorem mem_intercalate {sep c : Char} {parts : List (List Char)} (h : c ∈ [sep].intercalate parts) :
    c = sep ∨ ∃ part ∈ parts, c ∈ part := by
  induction parts with
  | nil => simp at h
  | cons part parts ih =>
    cases parts with
    | nil =>
      rw [List.intercalate_singleton] at h
      exact Or.inr ⟨part, List.mem_cons_self .., h⟩
    | cons next parts =>
      rw [List.intercalate_cons_cons, List.append_assoc, List.singleton_append, List.mem_append,
        List.mem_cons] at h
      rcases h with h | h | h
      · exact Or.inr ⟨part, List.mem_cons_self .., h⟩
      · exact Or.inl h
      · refine (ih h).imp_right ?_
        rintro ⟨other, hother, hc⟩
        exact ⟨other, List.mem_cons_of_mem _ hother, hc⟩

/-! ### Code units -/

theorem utf16_cons {c d : Char} {a b : List ℕ} (h : utf16 c ++ a = utf16 d ++ b) : c = d ∧ a = b := by
  -- a code unit that is a character by itself is no half of a pair
  have hc : c.toNat < 0xd800 ∨ 0xdfff < c.toNat ∧ c.toNat < 0x110000 := c.valid
  have hd : d.toNat < 0xd800 ∨ 0xdfff < d.toNat ∧ d.toNat < 0x110000 := d.valid
  unfold utf16 at h
  split at h <;> split at h
  · obtain ⟨hunit, hrest⟩ := List.cons.inj h
    exact ⟨Char.toNat_inj.mp hunit, hrest⟩
  · obtain ⟨hunit, -⟩ := List.cons.inj h
    omega
  · obtain ⟨hunit, -⟩ := List.cons.inj h
    omega
  · obtain ⟨hfirst, h⟩ := List.cons.inj h
    obtain ⟨hsecond, hrest⟩ := List.cons.inj h
    exact ⟨Char.toNat_inj.mp (by omega), hrest⟩

theorem codeUnits_injective {a b : List Char} (h : codeUnits a = codeUnits b) : a = b := by
  have hne : ∀ c : Char, utf16 c ≠ [] := by
    intro c
    unfold utf16
    split <;> simp
  induction a generalizing b with
  | nil =>
    cases b with
    | nil => rfl
    | cons d b =>
      have h : [] = utf16 d ++ codeUnits b := h
      exact absurd (List.append_eq_nil_iff.mp h.symm).1 (hne d)
  | cons c a ih =>
    cases b with
    | nil =>
      have h : utf16 c ++ codeUnits a = [] := h
      exact absurd (List.append_eq_nil_iff.mp h).1 (hne c)
    | cons d b =>
      have h : utf16 c ++ codeUnits a = utf16 d ++ codeUnits b := h
      obtain ⟨hc, hrest⟩ := utf16_cons h
      rw [hc, ih hrest]

end SideSwap.Ui
