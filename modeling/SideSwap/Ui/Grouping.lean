import SideSwap.Ui.Text

/-!
# Digit groups

`replaceCharacterOnPosition` of the app's helpers puts spaces between the digits of an amount, and a
currency at one end.  A text field feeds what it returns back into it at every keystroke.

`replaceCharacterOnPosition_groups_iff`: it keeps the number, groups its digits from the right and
changes nothing the second time, exactly if the number does not begin with its point.  A leading
point is taken for a digit, and a second one appended.
-/

namespace SideSwap.Ui

/-- Where the sign of the currency stands. -/
inductive CurrencyCharAlignment where
  | begin
  | end
deriving DecidableEq

/-- `strip` for a single character. -/
def strip (c : Char) (text : List Char) : List Char :=
  trim ((text.dropWhile (· = c)).rdropWhile (· = c))

/-- The loop that puts a space in front of every `position` characters: `i` counts those in front of
which the rest of `text` will stand. -/
def groupFrom (position : ℕ) : ℕ → List Char → List Char → List Char
  | _, buffer, [] => buffer
  | i, buffer, c :: text =>
    groupFrom position (i + 1) (c :: if i ≠ 0 ∧ i % position = 0 then ' ' :: buffer else buffer) text

/-- The parts before and after the point.  A point at the very beginning is not taken for one. -/
def splitAtDot (stripLeadingZeros : Bool) (newValue : List Char) : List Char × List Char :=
  match newValue.idxOf? '.' with
  | some (k + 1) => (newValue.take (k + 1), newValue.drop (k + 2))
  | _ => (if stripLeadingZeros then strip '0' newValue else newValue, [])

/-- Put the sign of the currency to the text. -/
def addCurrency (currencyChar : List Char) (alignment : CurrencyCharAlignment) (newValue : List Char) :
    List Char :=
  if newValue = [] ∨ currencyChar = [] then newValue
  else match alignment with
    | .begin => currencyChar ++ ' ' :: newValue
    | .end => newValue ++ ' ' :: currencyChar

/-- What is put together before the currency is added. -/
def groupParts (position : ℕ) (useDecimal stripLeadingZeros : Bool) (newValue : List Char) : List Char :=
  let parts := splitAtDot stripLeadingZeros newValue
  let secondPart := parts.2.filter (· ≠ '.')
  let firstPart := groupFrom position 0 [] parts.1.reverse
  let secondPart :=
    if useDecimal ∧ secondPart ≠ [] then (groupFrom position 0 [] secondPart).reverse else secondPart
  if secondPart = [] ∧ '.' ∉ newValue then firstPart else firstPart ++ '.' :: secondPart

/-- The text with its digits in groups. -/
def replaceCharacterOnPosition (input : List Char) (position : ℕ) (currencyChar : List Char)
    (alignment : CurrencyCharAlignment) (useDecimal stripLeadingZeros : Bool) : List Char :=
  addCurrency currencyChar alignment
    (groupParts position useDecimal stripLeadingZeros (removeAll currencyChar (removeSpaces input)))

/-! ### Groups -/

/-- Groups of `position` characters each, counted from the right, with a space between them. -/
def Grouped (position : ℕ) (text : List Char) : Prop :=
  ∃ (first : List Char) (groups : List (List Char)),
    text = first ++ groups.flatMap (' ' :: ·) ∧ (∀ g ∈ first :: groups, ' ' ∉ g) ∧
      (∀ g ∈ groups, g.length = position) ∧ first.length ≤ position ∧ (first = [] → groups = [])

/-- What the loop has after `i` characters. -/
structure GroupedSoFar (position i : ℕ) (buffer first : List Char) (groups : List (List Char)) : Prop where
  joined : buffer = first ++ groups.flatMap (' ' :: ·)
  noSpace : ∀ g ∈ first :: groups, ' ' ∉ g
  full : ∀ g ∈ groups, g.length = position
  count : position * groups.length + first.length = i
  fits : first.length ≤ position
  started : 0 < i → first ≠ []

theorem groupedSoFar_zero (position : ℕ) : GroupedSoFar position 0 [] [] [] :=
  ⟨rfl, by simp, by simp, by simp, Nat.zero_le _, by simp⟩

/-- A round of the loop. -/
theorem GroupedSoFar.step {position i : ℕ} (hposition : 1 ≤ position) {buffer first : List Char}
    {groups : List (List Char)} (h : GroupedSoFar position i buffer first groups) {c : Char}
    (hc : c ≠ ' ') : ∃ first' groups', GroupedSoFar position (i + 1)
      (c :: if i ≠ 0 ∧ i % position = 0 then ' ' :: buffer else buffer) first' groups' := by
  have hcount := h.count
  have hfits := h.fits
  by_cases hnew : i ≠ 0 ∧ i % position = 0
  · -- the first group is full
    have hne : first.length ≠ 0 := fun h0 =>
      h.started (Nat.pos_of_ne_zero hnew.1) (List.length_eq_zero_iff.mp h0)
    have hfull : first.length = position := by
      rw [← hcount, Nat.mul_add_mod] at hnew
      have hdvd := Nat.dvd_of_mod_eq_zero hnew.2
      exact le_antisymm hfits (Nat.le_of_dvd (Nat.pos_of_ne_zero hne) hdvd)
    refine ⟨[c], first :: groups, ?_, ?_, ?_, ?_, ?_, by simp⟩
    · rw [if_pos hnew, h.joined]
      simp
    · rw [List.forall_mem_cons]
      exact ⟨by simpa using hc.symm, h.noSpace⟩
    · rw [List.forall_mem_cons]
      exact ⟨hfull, h.full⟩
    · rw [List.length_cons, List.length_singleton, Nat.mul_succ]
      omega
    · exact hposition
  · -- the first group has room for one more
    have hroom : first.length + 1 ≤ position := by
      by_contra hfull
      have hfull : first.length = position := by omega
      refine hnew ⟨by omega, ?_⟩
      rw [← hcount, Nat.mul_add_mod, hfull, Nat.mod_self]
    refine ⟨c :: first, groups, ?_, ?_, h.full, ?_, hroom, by simp⟩
    · rw [if_neg hnew, h.joined, List.cons_append]
    · have hspace := h.noSpace
      rw [List.forall_mem_cons] at hspace ⊢
      refine ⟨?_, hspace.2⟩
      rw [List.mem_cons, not_or]
      exact ⟨hc.symm, hspace.1⟩
    · rw [List.length_cons]
      omega

/-- The loop makes groups. -/
theorem groupFrom_grouped {position : ℕ} (hposition : 1 ≤ position) {text : List Char}
    (htext : ' ' ∉ text) : Grouped position (groupFrom position 0 [] text) := by
  -- the loop keeps what has been grouped so far
  have hrun : ∀ (text : List Char) (i : ℕ) (buffer first : List Char) (groups : List (List Char)),
      ' ' ∉ text → GroupedSoFar position i buffer first groups →
        ∃ first' groups', GroupedSoFar position (i + text.length) (groupFrom position i buffer text)
          first' groups' := by
    intro text
    induction text with
    | nil => exact fun i buffer first groups _ h => ⟨first, groups, h⟩
    | cons c text ih =>
      intro i buffer first groups hspace h
      rw [List.mem_cons, not_or] at hspace
      obtain ⟨first', groups', hstep⟩ := h.step hposition (Ne.symm hspace.1)
      have hlen : i + (c :: text).length = i + 1 + text.length := by
        rw [List.length_cons]
        omega
      rw [groupFrom, hlen]
      exact ih (i + 1) _ first' groups' hspace.2 hstep
  -- the first group may be shorter than the others, but not empty
  obtain ⟨first, groups, h⟩ := hrun text 0 [] [] [] htext (groupedSoFar_zero position)
  refine ⟨first, groups, h.joined, h.noSpace, h.full, h.fits, fun hnil => ?_⟩
  have hcount := h.count
  cases groups with
  | nil => rfl
  | cons g groups =>
    refine absurd hnil (h.started ?_)
    rw [← hcount, List.length_cons, Nat.mul_succ]
    omega

/-- The loop keeps the characters, in reverse. -/
theorem removeSpaces_groupFrom (position i : ℕ) (buffer text : List Char) :
    removeSpaces (groupFrom position i buffer text) =
      (removeSpaces text).reverse ++ removeSpaces buffer := by
  induction text generalizing i buffer with
  | nil => rfl
  | cons c text ih =>
    have hbuffer : removeSpaces (if i ≠ 0 ∧ i % position = 0 then ' ' :: buffer else buffer) =
        removeSpaces buffer := by
      split
      · exact removeSpaces_space buffer
      · rfl
    rw [groupFrom, ih]
    by_cases hc : c = ' '
    · rw [hc, removeSpaces_space, removeSpaces_space, hbuffer]
    · rw [removeSpaces_cons hc, removeSpaces_cons hc, hbuffer, List.reverse_cons, List.append_assoc]
      rfl

theorem mem_groupFrom {position i : ℕ} {buffer text : List Char} {c : Char} (hc : c ≠ ' ')
    (hbuffer : c ∉ buffer) (htext : c ∉ text) : c ∉ groupFrom position i buffer text := by
  intro hmem
  have hmem : c ∈ removeSpaces (groupFrom position i buffer text) := mem_removeSpaces.mpr ⟨hmem, hc⟩
  rw [removeSpaces_groupFrom, List.mem_append, List.mem_reverse, mem_removeSpaces,
    mem_removeSpaces] at hmem
  rcases hmem with h | h
  · exact htext h.1
  · exact hbuffer h.1

/-! ### The parts -/

theorem splitAtDot_cons (b : Bool) (text : List Char) :
    splitAtDot b ('.' :: text) = (if b then strip '0' ('.' :: text) else '.' :: text, []) := by
  rw [splitAtDot, List.idxOf?_cons]
  rfl

theorem splitAtDot_of_not_mem {text : List Char} (h : '.' ∉ text) (b : Bool) :
    splitAtDot b text = (if b then strip '0' text else text, []) := by
  rw [splitAtDot, List.idxOf?_eq_none_iff.mpr h]

theorem splitAtDot_append {a : List Char} (ha : a ≠ []) (hdot : '.' ∉ a) (b : Bool)
    (rest : List Char) : splitAtDot b (a ++ '.' :: rest) = (a, rest) := by
  have hidx : ∀ a : List Char, '.' ∉ a → (a ++ '.' :: rest).idxOf? '.' = some a.length := by
    intro a
    induction a with
    | nil => exact fun _ => rfl
    | cons c a ih =>
      intro hdot
      rw [List.mem_cons, not_or] at hdot
      have hc : (c == '.') = false := beq_eq_false_iff_ne.mpr (Ne.symm hdot.1)
      rw [List.cons_append, List.idxOf?_cons, hc, ih hdot.2]
      rfl
  rw [splitAtDot, hidx a hdot]
  cases a with
  | nil => exact absurd rfl ha
  | cons c a =>
    have htake : (c :: a ++ '.' :: rest).take (a.length + 1) = c :: a := List.take_left' rfl
    have hdrop : (c :: a ++ '.' :: rest).drop (a.length + 2) = rest := by
      rw [List.append_cons]
      exact List.drop_left' (by simp)
    simp only [List.length_cons, htake, hdrop]

theorem removeSpaces_second (position : ℕ) (useDecimal : Bool) (second : List Char) :
    removeSpaces (if useDecimal ∧ second ≠ [] then (groupFrom position 0 [] second).reverse
      else second) = removeSpaces second := by
  split
  · have hgroups := removeSpaces_groupFrom position 0 [] second
    unfold removeSpaces at hgroups ⊢
    rw [List.filter_reverse, hgroups, List.filter_nil, List.append_nil, List.reverse_reverse]
  · rfl

variable {position : ℕ} {useDecimal : Bool} {newValue : List Char}

/-- Without a point there is only the integer part. -/
theorem groupParts_of_not_mem (h : '.' ∉ newValue) :
    groupParts position useDecimal false newValue = groupFrom position 0 [] newValue.reverse := by
  simp [groupParts, splitAtDot_of_not_mem h, h]

/-- The parts before and after a point that is not at the beginning. -/
theorem groupParts_append {a : List Char} (ha : a ≠ []) (hdot : '.' ∉ a) {rest : List Char}
    (hrest : '.' ∉ rest) : groupParts position useDecimal false (a ++ '.' :: rest) =
      groupFrom position 0 [] a.reverse ++ '.' ::
        if useDecimal ∧ rest ≠ [] then (groupFrom position 0 [] rest).reverse else rest := by
  have hfilter : rest.filter (· ≠ '.') = rest :=
    List.filter_eq_self.mpr fun c hc => decide_eq_true fun h => hrest (h ▸ hc)
  rw [groupParts, splitAtDot_append ha hdot]
  simp only [hfilter]
  exact if_neg fun h => h.2 (by simp)

/-- A point at the beginning is grouped like a digit, and another one follows. -/
theorem groupParts_cons (text : List Char) : groupParts position useDecimal false ('.' :: text) =
    groupFrom position 0 [] ('.' :: text).reverse ++ ['.'] := by
  simp [groupParts, splitAtDot_cons]

/-- The ways to write a number with at most one point. -/
theorem parts_cases (h : newValue.count '.' ≤ 1) : '.' ∉ newValue ∨ newValue.head? = some '.' ∨
    ∃ a rest, newValue = a ++ '.' :: rest ∧ a ≠ [] ∧ '.' ∉ a ∧ '.' ∉ rest := by
  by_cases hmem : '.' ∈ newValue
  · obtain ⟨a, rest, rfl, ha⟩ := List.eq_append_cons_of_mem hmem
    rw [List.count_append, List.count_cons_self] at h
    have hrest : '.' ∉ rest := List.count_eq_zero.mp (by omega)
    by_cases hnil : a = []
    · exact .inr (.inl (by rw [hnil]; rfl))
    · exact .inr (.inr ⟨a, rest, rfl, hnil, ha, hrest⟩)
  · exact .inl hmem

/-- Without spaces, what is put together is the number, with a second point after a leading one. -/
theorem removeSpaces_groupParts (hspace : ' ' ∉ newValue) (hdot : newValue.count '.' ≤ 1) :
    removeSpaces (groupParts position useDecimal false newValue) =
      if newValue.head? = some '.' then newValue ++ ['.'] else newValue := by
  have hgroups : ∀ text : List Char, ' ' ∉ text →
      removeSpaces (groupFrom position 0 [] text.reverse) = text := by
    intro text htext
    rw [removeSpaces_groupFrom, removeSpaces_of_not_mem (by simpa using htext), List.reverse_reverse]
    exact List.append_nil text
  -- without a point, with one in front, or with one in the middle
  rcases parts_cases hdot with hmem | hhead | ⟨a, rest, rfl, ha, hnot, hrest⟩
  · have hhead : newValue.head? ≠ some '.' := fun h => hmem (List.mem_of_mem_head? h)
    rw [groupParts_of_not_mem hmem, hgroups newValue hspace, if_neg hhead]
  · cases newValue with
    | nil => cases hhead
    | cons c text =>
      cases hhead
      rw [groupParts_cons, removeSpaces_append, hgroups _ hspace, List.head?_cons, if_pos rfl]
      rfl
  · rw [List.mem_append, List.mem_cons, not_or, not_or] at hspace
    have hhead : (a ++ '.' :: rest).head? ≠ some '.' := by
      cases a with
      | nil => exact absurd rfl ha
      | cons c a =>
        rintro h
        cases h
        exact hnot (List.mem_cons_self ..)
    rw [groupParts_append ha hnot hrest, removeSpaces_append, hgroups a hspace.1,
      removeSpaces_cons (by decide), removeSpaces_second, removeSpaces_of_not_mem hspace.2.2,
      if_neg hhead]

/-- The integer part is grouped, and the point follows. -/
theorem groupParts_grouped (hposition : 1 ≤ position) (hspace : ' ' ∉ newValue)
    (hdot : newValue.count '.' ≤ 1) (hhead : newValue.head? ≠ some '.') :
    ∃ int frac, groupParts position useDecimal false newValue = int ++ frac ∧ '.' ∉ int ∧
      (∀ c ∈ frac.head?, c = '.') ∧ Grouped position int := by
  have hgroups : ∀ text : List Char, ' ' ∉ text →
      Grouped position (groupFrom position 0 [] text.reverse) :=
    fun text htext => groupFrom_grouped hposition (by simpa using htext)
  have hint : ∀ text : List Char, '.' ∉ text → '.' ∉ groupFrom position 0 [] text.reverse :=
    fun text htext => mem_groupFrom (by decide) (by simp) (by simpa using htext)
  rcases parts_cases hdot with hmem | h | ⟨a, rest, rfl, ha, hnot, hrest⟩
  · refine ⟨_, [], ?_, hint newValue hmem, by simp, hgroups newValue hspace⟩
    rw [groupParts_of_not_mem hmem, List.append_nil]
  · exact absurd h hhead
  · rw [List.mem_append, not_or] at hspace
    refine ⟨_, _, groupParts_append ha hnot hrest, hint a hnot, ?_, hgroups a hspace.1⟩
    intro c hc
    cases hc
    rfl

/-! ### The currency -/

variable {currencyChar : List Char}

/-- A currency has no characters of a number. -/
def IsCurrency (currencyChar : List Char) : Prop :=
  ∀ c ∈ currencyChar, c.isDigit = false ∧ c ≠ '.' ∧ c ≠ ' '

/-- Digits, spaces and at most one point. -/
def IsNumber (input : List Char) : Prop :=
  (∀ c ∈ input, c.isDigit = true ∨ c = ' ' ∨ c = '.') ∧ input.count '.' ≤ 1

instance : Decidable (IsCurrency currencyChar) := List.decidableBAll _ _

instance (input : List Char) : Decidable (IsNumber input) :=
  have := List.decidableBAll (fun c : Char => c.isDigit = true ∨ c = ' ' ∨ c = '.') input
  inferInstanceAs (Decidable (_ ∧ _))

/-- Without the spaces and the currency, the number is left. -/
theorem remove_addCurrency (hcurrency : IsCurrency currencyChar) (alignment : CurrencyCharAlignment)
    {text : List Char} (htext : ∀ c ∈ text, c.isDigit = true ∨ c = ' ' ∨ c = '.') :
    removeAll currencyChar (removeSpaces (addCurrency currencyChar alignment text)) =
      removeSpaces text := by
  -- no character of a number occurs in the currency, so it is only found where it was put
  have hdisjoint : ∀ c ∈ removeSpaces text, c ∉ currencyChar := by
    intro c hc hmem
    have hnot := hcurrency c hmem
    rcases htext c (mem_removeSpaces.mp hc).1 with h | h | h
    · rw [hnot.1] at h
      cases h
    · exact hnot.2.2 h
    · exact hnot.2.1 h
  have hspace : removeSpaces currencyChar = currencyChar :=
    removeSpaces_of_not_mem fun h => (hcurrency ' ' h).2.2 rfl
  have hkeeps := removeAll_of_not_mem hdisjoint
  unfold addCurrency
  split
  · exact hkeeps
  · rename_i hboth
    rw [not_or] at hboth
    cases alignment with
    | begin =>
      simp only [removeSpaces_append, removeSpaces_space, hspace]
      rw [removeAll_pattern hboth.2, hkeeps]
    | «end» =>
      simp only [removeSpaces_append, removeSpaces_space, hspace]
      rw [removeAll_append hdisjoint]
      have hpattern := removeAll_pattern hboth.2 []
      rw [List.append_nil] at hpattern
      rw [hpattern]
      exact List.append_nil _

/-! ### Exactly when -/

/-- What the function is for: it keeps the number, groups the digits of the integer part from the
right, and changes nothing the second time. -/
structure GroupsDigits (input : List Char) (position : ℕ) (currencyChar : List Char)
    (alignment : CurrencyCharAlignment) (useDecimal : Bool) : Prop where
  keeps : removeAll currencyChar (removeSpaces
    (replaceCharacterOnPosition input position currencyChar alignment useDecimal false)) =
      removeSpaces input
  groups : ∃ int frac,
    replaceCharacterOnPosition input position currencyChar alignment useDecimal false =
      addCurrency currencyChar alignment (int ++ frac) ∧ '.' ∉ int ∧ (∀ c ∈ frac.head?, c = '.') ∧
        Grouped position int
  again : replaceCharacterOnPosition
    (replaceCharacterOnPosition input position currencyChar alignment useDecimal false) position
      currencyChar alignment useDecimal false =
    replaceCharacterOnPosition input position currencyChar alignment useDecimal false

theorem IsNumber.mem {input : List Char} (h : IsNumber input) {c : Char}
    (hc : c ∈ removeSpaces input) : c.isDigit = true ∨ c = '.' := by
  rw [mem_removeSpaces] at hc
  rcases h.1 c hc.1 with hdigit | hspace | hdot
  · exact .inl hdigit
  · exact absurd hspace hc.2
  · exact .inr hdot

theorem IsNumber.count_le {input : List Char} (h : IsNumber input) :
    (removeSpaces input).count '.' ≤ 1 :=
  (List.filter_sublist.count_le '.').trans h.2

theorem IsNumber.space_notMem (input : List Char) : ' ' ∉ removeSpaces input :=
  fun h => (mem_removeSpaces.mp h).2 rfl

/-- There is no currency in the input. -/
theorem IsNumber.removed {input : List Char} (h : IsNumber input) (hcurrency : IsCurrency currencyChar) :
    removeAll currencyChar (removeSpaces input) = removeSpaces input := by
  apply removeAll_of_not_mem
  intro c hc hmem
  have hnot := hcurrency c hmem
  rcases h.mem hc with hdigit | hdot
  · rw [hnot.1] at hdigit
    cases hdigit
  · exact hnot.2.1 hdot

/-- Without spaces and the currency, the function returns the number, with a second point after a
leading one. -/
theorem removed_output {input : List Char} (hinput : IsNumber input)
    (hcurrency : IsCurrency currencyChar) (position : ℕ) (alignment : CurrencyCharAlignment)
    (useDecimal : Bool) : removeAll currencyChar (removeSpaces
      (replaceCharacterOnPosition input position currencyChar alignment useDecimal false)) =
        if (removeSpaces input).head? = some '.' then removeSpaces input ++ ['.']
        else removeSpaces input := by
  have hparts : removeSpaces (groupParts position useDecimal false (removeSpaces input)) = _ :=
    removeSpaces_groupParts (IsNumber.space_notMem input) hinput.count_le
  rw [replaceCharacterOnPosition, hinput.removed hcurrency, remove_addCurrency hcurrency, hparts]
  -- what is put together has the characters of a number
  intro c hc
  by_cases hspace : c = ' '
  · exact .inr (.inl hspace)
  · have hmem := mem_removeSpaces.mpr ⟨hc, hspace⟩
    rw [hparts] at hmem
    have hmem : c ∈ removeSpaces input ∨ c = '.' := by
      split at hmem
      · simpa using hmem
      · exact .inl hmem
    rcases hmem with hmem | hmem
    · exact (hinput.mem hmem).imp id .inr
    · exact .inr (.inr hmem)

/-- For every number, group size, currency and alignment: the function does what it is for if and
only if the number does not begin with its point. -/
theorem replaceCharacterOnPosition_groups_iff {input : List Char} (hinput : IsNumber input)
    {position : ℕ} (hposition : 1 ≤ position) (hcurrency : IsCurrency currencyChar)
    (alignment : CurrencyCharAlignment) (useDecimal : Bool) :
    GroupsDigits input position currencyChar alignment useDecimal ↔
      (removeSpaces input).head? ≠ some '.' := by
  have hremoved := removed_output hinput hcurrency position alignment useDecimal
  constructor
  · -- with a point in front the text has grown
    intro h hhead
    have hkeeps := h.keeps
    rw [hremoved, if_pos hhead] at hkeeps
    have hlength := congrArg List.length hkeeps
    rw [List.length_append, List.length_singleton] at hlength
    omega
  · -- otherwise the number is kept and its integer part is grouped
    intro hhead
    rw [if_neg hhead] at hremoved
    refine ⟨hremoved, ?_, ?_⟩
    · obtain ⟨int, frac, hparts, hrest⟩ : ∃ int frac,
          groupParts position useDecimal false (removeSpaces input) = int ++ frac ∧ _ :=
        groupParts_grouped hposition (IsNumber.space_notMem input) hinput.count_le hhead
      refine ⟨int, frac, ?_, hrest⟩
      rw [replaceCharacterOnPosition, hinput.removed hcurrency, hparts]
    · -- the second time, the same number is left without spaces and currency
      rw [replaceCharacterOnPosition, hremoved, ← hinput.removed hcurrency]
      rfl

/-- Seven digits, with the currency behind them. -/
theorem replaceCharacterOnPosition_groups_seven :
    GroupsDigits "1234567.50".toList 3 "USD".toList .end true ↔
      (removeSpaces "1234567.50".toList).head? ≠ some '.' :=
  replaceCharacterOnPosition_groups_iff (by decide) (by decide) (by decide) .end true

example : replaceCharacterOnPosition "1234567.50".toList 3 "USD".toList .end true false =
    "1 234 567.50 USD".toList := by decide

/-- A leading point gets a second one. -/
theorem replaceCharacterOnPosition_leading_point :
    ¬ ∀ (input : List Char) (position : ℕ) (currencyChar : List Char)
      (alignment : CurrencyCharAlignment) (useDecimal : Bool), IsNumber input → 1 ≤ position →
        IsCurrency currencyChar → GroupsDigits input position currencyChar alignment useDecimal := by
  intro hall
  have hgroups := hall ".5".toList 3 [] .begin false (by decide) (by decide)
    (by decide)
  exact absurd hgroups.keeps (by decide)

end SideSwap.Ui
