import SideSwap.Lib.Forall2
import Mathlib.Data.List.Infix

/-!
# URIs

A URI without an authority is taken apart by `Uri.parse`.  Its query is split at `&`, every piece at
its first `=`, and the names and values are decoded one by one (`Uri.queryEntries`); a map of
parameters keeps the last value of each name (`Uri.queryParameters`).

* `decodeComponent_eq_self_iff`: exactly the plain texts are decoded to themselves.
* `eq_of_decodeComponent_sublist`: decoding makes no text longer, so that a text that is decoded
  from a part of itself is that part.
* `queryEntries_append`: a query that is put together is read piece by piece.
* `lookup_queryParameters`: what a name is mapped to.
-/

/-! ### UTF-8 -/

namespace Utf8

/-- The bytes of a text in UTF-8. -/
def encode (text : List Char) : List UInt8 := text.flatMap String.utf8EncodeChar

/-- The byte order mark. -/
def bom : Char := '\ufeff'

/-- A mark at the begin is not part of a text. -/
def dropBom : List Char → List Char
  | [] => []
  | c :: text => if c = bom then text else c :: text

/-- Decoding is strict; a byte order mark in front is dropped. -/
def decode (bytes : List UInt8) : Option (List Char) :=
  bytes.toByteArray.utf8Decode?.map fun text => dropBom text.toList

@[simp] theorem encode_nil : encode [] = [] := rfl

@[simp] theorem encode_cons (c : Char) (text : List Char) :
    encode (c :: text) = String.utf8EncodeChar c ++ encode text := rfl

theorem decode_encode (text : List Char) : decode (encode text) = some (dropBom text) := by
  have hcore : (encode text).toByteArray.utf8Decode? = some text.toArray := List.utf8Decode?_utf8Encode
  rw [decode, hcore]
  rfl

/-- What is decoded was encoded, perhaps with a mark in front. -/
theorem decode_eq_some {bytes : List UInt8} {text : List Char} (h : decode bytes = some text) :
    ∃ marked, encode marked = bytes ∧ dropBom marked = text := by
  unfold decode at h
  cases hcore : bytes.toByteArray.utf8Decode? with
  | none => simp [hcore] at h
  | some chars =>
    rw [hcore] at h
    refine ⟨chars.toList, ?_, Option.some.inj h⟩
    -- core encodes what it has decoded
    have hsome : bytes.toByteArray.utf8Decode?.isSome := by rw [hcore]; rfl
    have hback := ByteArray.utf8Encode_get_utf8Decode? (h := hsome)
    simp only [hcore, Option.get_some] at hback
    exact List.toByteArray_inj.mp hback

theorem length_encode_dropBom_le (text : List Char) :
    (encode (dropBom text)).length ≤ (encode text).length := by
  cases text with
  | nil => exact Nat.le_refl _
  | cons c text =>
    by_cases hc : c = bom
    · rw [dropBom, if_pos hc, encode_cons, List.length_append]
      exact Nat.le_add_left ..
    · rw [dropBom, if_neg hc]

theorem length_encode_le {a b : List Char} (h : a.Sublist b) :
    (encode a).length ≤ (encode b).length := by
  induction h with
  | slnil => exact Nat.le_refl _
  | cons c _ ih => simp only [encode_cons, List.length_append]; omega
  | cons_cons c _ ih => simp only [encode_cons, List.length_append]; omega

/-- A part that is as long as the whole is the whole. -/
theorem eq_of_length_encode_le {a b : List Char} (h : a.Sublist b)
    (hle : (encode b).length ≤ (encode a).length) : a = b := by
  induction h with
  | slnil => rfl
  | @cons a b c hsub ih =>
    -- a character that is left out has at least one byte
    have hpos : 0 < (String.utf8EncodeChar c).length :=
      List.length_pos_iff.mpr String.utf8EncodeChar_ne_nil
    have hsmall := length_encode_le hsub
    simp only [encode_cons, List.length_append] at hle
    omega
  | @cons_cons a b c hsub ih =>
    simp only [encode_cons, List.length_append] at hle
    rw [ih (by omega)]

end Utf8

/-! ### Components -/

/-- The parts of a URI. -/
structure Uri where
  scheme : List Char
  path : List Char
  query : List Char
deriving DecidableEq

namespace Uri

/-- The value of a hexadecimal digit. -/
def hexValue (c : Char) : Option ℕ :=
  if '0' ≤ c ∧ c ≤ '9' then some (c.toNat - '0'.toNat)
  else if 'a' ≤ c ∧ c ≤ 'f' then some (c.toNat - 'a'.toNat + 10)
  else if 'A' ≤ c ∧ c ≤ 'F' then some (c.toNat - 'A'.toNat + 10)
  else none

/-- The byte that is escaped as `%xy`. -/
def hexByte (x y : Char) : Option UInt8 := do
  let high ← hexValue x
  let low ← hexValue y
  pure (UInt8.ofNat (16 * high + low))

/-- The bytes of a character that is not part of an escape. -/
def charBytes (c : Char) : List UInt8 := if c = '+' then [0x20] else String.utf8EncodeChar c

/-- The bytes of a component.  A `%` without two hexadecimal digits stands for itself, as it is
escaped when the URI is parsed. -/
def componentBytes : List Char → List UInt8
  | [] => []
  | [c] => charBytes c
  | [c, x] => charBytes c ++ charBytes x
  | c :: x :: y :: text =>
    match if c = '%' then hexByte x y else none with
    | some byte => byte :: componentBytes text
    | none => charBytes c ++ componentBytes (x :: y :: text)

/-- The text of a component, unless its bytes are no UTF-8. -/
def decodeComponent (text : List Char) : Option (List Char) := Utf8.decode (componentBytes text)

/-- There is an escape in the text. -/
def Escaped (text : List Char) : Prop := ∃ x y, (hexByte x y).isSome ∧ ['%', x, y] <:+: text

/-- Nothing in the text has a meaning of its own in a component, and no byte order mark is in
front. -/
structure Plain (text : List Char) : Prop where
  noPlus : '+' ∉ text
  noEscape : ¬ Escaped text
  noBom : text.head? ≠ some Utf8.bom

theorem length_charBytes_le (c : Char) : (charBytes c).length ≤ (String.utf8EncodeChar c).length := by
  unfold charBytes
  split
  · exact List.length_pos_iff.mpr String.utf8EncodeChar_ne_nil
  · exact Nat.le_refl _

theorem charBytes_eq_iff {c : Char} : charBytes c = String.utf8EncodeChar c ↔ c ≠ '+' := by
  unfold charBytes
  split
  · rename_i hc
    subst hc
    exact iff_of_false (by decide) (fun h => h rfl)
  · rename_i hc
    exact iff_of_true rfl hc

theorem length_componentBytes_le (text : List Char) :
    (componentBytes text).length ≤ (Utf8.encode text).length := by
  fun_induction componentBytes text with
  | case1 => exact Nat.le_refl _
  | case2 c =>
    have hc := length_charBytes_le c
    simp only [Utf8.encode_cons, Utf8.encode_nil, List.length_append]
    omega
  | case3 c x =>
    have hc := length_charBytes_le c
    have hx := length_charBytes_le x
    simp only [Utf8.encode_cons, Utf8.encode_nil, List.length_append]
    omega
  | case4 c x y text byte hbyte ih =>
    have hpos : 0 < (String.utf8EncodeChar c).length :=
      List.length_pos_iff.mpr String.utf8EncodeChar_ne_nil
    simp only [Utf8.encode_cons, List.length_append, List.length_cons]
    omega
  | case5 c x y text hno ih =>
    have hc := length_charBytes_le c
    rw [Utf8.encode_cons, List.length_append, List.length_append]
    omega

theorem escaped_cons {c : Char} {text : List Char} : Escaped (c :: text) ↔
    (∃ x y rest, c = '%' ∧ text = x :: y :: rest ∧ (hexByte x y).isSome) ∨ Escaped text := by
  unfold Escaped
  simp only [List.infix_cons_iff]
  constructor
  · rintro ⟨x, y, hxy, hpre | hin⟩
    · obtain ⟨rest, hrest⟩ := hpre
      obtain ⟨hc, htext⟩ := List.cons.inj hrest
      exact Or.inl ⟨x, y, rest, hc.symm, htext.symm, hxy⟩
    · exact Or.inr ⟨x, y, hxy, hin⟩
  · rintro (⟨x, y, rest, rfl, rfl, hxy⟩ | ⟨x, y, hxy, hin⟩)
    · exact ⟨x, y, hxy, Or.inl ⟨rest, rfl⟩⟩
    · exact ⟨x, y, hxy, Or.inr hin⟩

@[simp] theorem not_escaped_nil : ¬ Escaped [] := by
  rintro ⟨x, y, -, hin⟩
  have hlength := hin.length_le
  simp at hlength

@[simp] theorem not_escaped_singleton (c : Char) : ¬ Escaped [c] := by
  simp [escaped_cons]

theorem append_eq_append_iff_of_le {a a' b b' : List UInt8} (ha : a.length ≤ a'.length)
    (hb : b.length ≤ b'.length) : a ++ b = a' ++ b' ↔ a = a' ∧ b = b' := by
  refine ⟨fun h => List.append_inj h ?_, fun h => by rw [h.1, h.2]⟩
  have hlength := congrArg List.length h
  rw [List.length_append, List.length_append] at hlength
  omega

/-- The bytes are those of the text itself if nothing is decoded. -/
theorem componentBytes_eq_encode_iff (text : List Char) :
    componentBytes text = Utf8.encode text ↔ '+' ∉ text ∧ ¬ Escaped text := by
  fun_induction componentBytes text with
  | case1 => simp
  | case2 c => simp [charBytes_eq_iff, eq_comm (a := '+')]
  | case3 c x =>
    rw [Utf8.encode_cons, Utf8.encode_cons, Utf8.encode_nil, List.append_nil,
      append_eq_append_iff_of_le (length_charBytes_le c) (length_charBytes_le x), charBytes_eq_iff,
      charBytes_eq_iff]
    simp [escaped_cons, eq_comm (a := '+')]
  | case4 c x y text byte hbyte ih =>
    -- an escape of three characters is one byte
    refine iff_of_false (fun h => ?_) (fun h => h.2 ?_)
    · have hlength := congrArg List.length h
      have hle := length_componentBytes_le text
      have hpos : ∀ c : Char, 0 < (String.utf8EncodeChar c).length :=
        fun c => List.length_pos_iff.mpr String.utf8EncodeChar_ne_nil
      have hc := hpos c
      have hx := hpos x
      simp only [Utf8.encode_cons, List.length_append, List.length_cons] at hlength
      omega
    · split at hbyte
      · rename_i hc
        exact escaped_cons.mpr (Or.inl ⟨x, y, text, hc, rfl, by rw [hbyte]; rfl⟩)
      · cases hbyte
  | case5 c x y text hno ih =>
    -- no escape starts here, so one in the text is further on
    have hhead : ¬ ∃ x' y' rest, c = '%' ∧ x :: y :: text = x' :: y' :: rest ∧
        (hexByte x' y').isSome := by
      rintro ⟨x', y', rest, hc, htext, hxy⟩
      obtain ⟨hx, htext⟩ := List.cons.inj htext
      obtain ⟨hy, -⟩ := List.cons.inj htext
      rw [if_pos hc] at hno
      rw [← hx, ← hy, hno] at hxy
      cases hxy
    have hcons : Escaped (c :: x :: y :: text) ↔ Escaped (x :: y :: text) :=
      escaped_cons.trans (or_iff_right hhead)
    rw [Utf8.encode_cons, append_eq_append_iff_of_le (length_charBytes_le c)
      (length_componentBytes_le (x :: y :: text)), charBytes_eq_iff, ih, hcons]
    simp only [List.mem_cons, not_or, and_assoc, ne_eq, eq_comm (a := '+')]

/-- Decoding makes no text longer: a text decoded from a part of itself is that part. -/
theorem eq_of_decodeComponent_sublist {a b : List Char} (h : a.Sublist b)
    (hdecode : decodeComponent a = some b) : a = b := by
  obtain ⟨marked, hmarked, hdrop⟩ := Utf8.decode_eq_some hdecode
  refine Utf8.eq_of_length_encode_le h ?_
  calc (Utf8.encode b).length
    _ = (Utf8.encode (Utf8.dropBom marked)).length := by rw [hdrop]
    _ ≤ (Utf8.encode marked).length := Utf8.length_encode_dropBom_le marked
    _ = (componentBytes a).length := by rw [hmarked]
    _ ≤ (Utf8.encode a).length := length_componentBytes_le a

theorem dropBom_eq_self_iff {text : List Char} :
    Utf8.dropBom text = text ↔ text.head? ≠ some Utf8.bom := by
  cases text with
  | nil => simp [Utf8.dropBom]
  -- a text is not its own tail
  | cons c text => by_cases hc : c = Utf8.bom <;> simp [Utf8.dropBom, hc]

/-- Exactly the plain texts are decoded to themselves. -/
theorem decodeComponent_eq_self_iff {text : List Char} :
    decodeComponent text = some text ↔ Plain text := by
  constructor
  · intro h
    obtain ⟨marked, hmarked, hdrop⟩ := Utf8.decode_eq_some h
    -- with a mark dropped, the bytes would be more than those of the text
    have hsame : marked = text := by
      refine (Utf8.eq_of_length_encode_le ?_ ?_).symm
      · rw [← hdrop]
        cases marked with
        | nil => exact List.Sublist.refl _
        | cons c rest =>
          by_cases hc : c = Utf8.bom
          · rw [Utf8.dropBom, if_pos hc]
            exact List.sublist_cons_self ..
          · rw [Utf8.dropBom, if_neg hc]
      · rw [hmarked]
        exact length_componentBytes_le text
    subst hsame
    obtain ⟨hplus, hescape⟩ := (componentBytes_eq_encode_iff marked).mp hmarked.symm
    exact ⟨hplus, hescape, dropBom_eq_self_iff.mp hdrop⟩
  · rintro ⟨hplus, hescape, hbom⟩
    rw [decodeComponent, (componentBytes_eq_encode_iff text).mpr ⟨hplus, hescape⟩, Utf8.decode_encode,
      dropBom_eq_self_iff.mpr hbom]

/-! ### Parts of a text -/

theorem forall_mem_of_all {p : Char → Prop} [DecidablePred p] {text : List Char}
    (h : (text.all fun c => decide (p c)) = true) : ∀ c ∈ text, p c :=
  fun c hc => of_decide_eq_true (List.all_eq_true.mp h c hc)

/-- What comes before the first `c`. -/
def before (c : Char) (text : List Char) : List Char := text.takeWhile (· ≠ c)

/-- What comes after the first `c`. -/
def after (c : Char) (text : List Char) : List Char := (text.dropWhile (· ≠ c)).tail

variable {c : Char} {a b text : List Char}

@[simp] theorem before_cons_self (c : Char) (text : List Char) : before c (c :: text) = [] := by
  simp [before]

@[simp] theorem after_cons_self (c : Char) (text : List Char) : after c (c :: text) = text := by
  simp [after]

theorem before_append (h : c ∉ a) (b : List Char) : before c (a ++ b) = a ++ before c b :=
  List.takeWhile_append_of_pos fun _ hd => decide_eq_true (ne_of_mem_of_not_mem hd h)

theorem before_append_of_mem (h : c ∈ a) (b : List Char) : before c (a ++ b) = before c a := by
  obtain ⟨front, back, rfl, hfront⟩ := List.eq_append_cons_of_mem h
  rw [List.append_assoc, before_append hfront, before_append hfront, List.cons_append, before_cons_self,
    before_cons_self]

theorem after_append (h : c ∉ a) (b : List Char) : after c (a ++ b) = after c b :=
  congrArg List.tail
    (List.dropWhile_append_of_pos fun _ hd => decide_eq_true (ne_of_mem_of_not_mem hd h))

theorem before_of_not_mem (h : c ∉ a) : before c a = a := by
  have happend := before_append h []
  rw [List.append_nil] at happend
  rw [happend]
  exact List.append_nil a

theorem not_mem_before (c : Char) (text : List Char) : c ∉ before c text := by
  intro h
  have hall := List.all_takeWhile (p := (· ≠ c)) (l := text)
  exact of_decide_eq_true (List.all_eq_true.mp hall c h) rfl

theorem before_sublist (c : Char) (text : List Char) : (before c text).Sublist text :=
  (List.takeWhile_prefix _).sublist

theorem after_sublist (c : Char) (text : List Char) : (after c text).Sublist text :=
  (List.tail_sublist _).trans (List.dropWhile_suffix _).sublist

/-- A piece is a part of the text, without the separator. -/
theorem sublist_of_mem_splitOn {piece : List Char} (h : piece ∈ text.splitOn c) :
    piece.Sublist text ∧ c ∉ piece := by
  induction text generalizing piece with
  | nil =>
    rw [List.splitOn_nil, List.mem_singleton] at h
    subst h
    exact ⟨List.Sublist.refl _, List.not_mem_nil⟩
  | cons d text ih =>
    rw [List.splitOn_cons_eq_if_modifyHead] at h
    by_cases hd : d = c
    · rw [if_pos (beq_iff_eq.mpr hd), List.mem_cons] at h
      rcases h with rfl | h
      · exact ⟨List.nil_sublist _, List.not_mem_nil⟩
      · exact ⟨(ih h).1.trans (List.sublist_cons_self ..), (ih h).2⟩
    · rw [if_neg (by simpa using hd)] at h
      obtain ⟨first, rest, hsplit⟩ := List.exists_cons_of_ne_nil (List.splitOn_ne_nil c text)
      rw [hsplit] at h ih
      rcases List.mem_cons.mp h with rfl | h
      · obtain ⟨hsub, hmem⟩ := ih (List.mem_cons_self ..)
        exact ⟨hsub.cons_cons d, by simpa [hmem] using fun heq => hd heq.symm⟩
      · obtain ⟨hsub, hmem⟩ := ih (List.mem_cons_of_mem _ h)
        exact ⟨hsub.trans (List.sublist_cons_self ..), hmem⟩

/-! ### Queries -/

/-- A parameter: its name and its value. -/
abbrev Param := List Char × List Char

/-- The parameter of a piece; without a name there is none. -/
def rawEntry (piece : List Char) : Option Param :=
  if before '=' piece = [] then none else some (before '=' piece, after '=' piece)

/-- Decode the two halves of an entry. -/
def decodeEntry (entry : Param) : Option Param := do
  let name ← decodeComponent entry.1
  let value ← decodeComponent entry.2
  pure (name, value)

theorem decodeEntry_eq_some {entry param : Param} : decodeEntry entry = some param ↔
    decodeComponent entry.1 = some param.1 ∧ decodeComponent entry.2 = some param.2 := by
  simp only [decodeEntry, Option.bind_eq_bind, Option.bind_eq_some_iff, Option.pure_def,
    Option.some.injEq, Prod.ext_iff]
  constructor
  · rintro ⟨name, hname, value, hvalue, hfst, hsnd⟩
    exact ⟨hfst ▸ hname, hsnd ▸ hvalue⟩
  · rintro ⟨hname, hvalue⟩
    exact ⟨param.1, hname, param.2, hvalue, rfl, rfl⟩

/-- The entries of a query, not yet decoded. -/
def rawEntries (query : List Char) : List Param := (query.splitOn '&').filterMap rawEntry

/-- The parameters in the order of the query, unless one cannot be decoded. -/
def queryEntries (query : List Char) : Option (List Param) := (rawEntries query).mapM decodeEntry

/-- A name keeps its place when it gets a new value. -/
def put : List Param → Param → List Param
  | [], entry => [entry]
  | param :: params, entry =>
    if param.1 = entry.1 then entry :: params else param :: put params entry

/-- The parameters as a map. -/
def queryParameters (query : List Char) : Option (List Param) :=
  (queryEntries query).map fun entries => entries.foldl put []

/-- The parts of a URI with a scheme and without an authority, whose path needs no escapes.  A
fragment is dropped; what a query cannot hold is escaped, which `componentBytes` takes into
account. -/
def parse (text : List Char) : Uri :=
  let text := before '#' text
  { scheme := before ':' (before '?' text)
    path := after ':' (before '?' text)
    query := after '?' text }

/-! ### Queries that are put together -/

@[simp] theorem rawEntries_nil : rawEntries [] = [] := rfl

theorem rawEntries_append (a b : List Char) :
    rawEntries (a ++ '&' :: b) = rawEntries a ++ rawEntries b := by
  rw [rawEntries, List.splitOn_append_cons_self, List.filterMap_append]
  rfl

theorem queryEntries_append (a b : List Char) : queryEntries (a ++ '&' :: b) =
    (queryEntries a).bind fun first => (queryEntries b).map (first ++ ·) := by
  rw [queryEntries, rawEntries_append, List.mapM_append]
  simp only [queryEntries, Option.bind_eq_bind, Option.pure_def, Option.map_eq_bind, Function.comp_def]

theorem splitOn_append_of_not_mem (h : c ∉ a) (b : List Char) :
    (a ++ b).splitOn c = (b.splitOn c).modifyHead (a ++ ·) := by
  induction a with
  | nil => cases hsplit : b.splitOn c <;> simp [hsplit]
  | cons d a ih =>
    rw [List.mem_cons, not_or] at h
    rw [List.cons_append, List.splitOn_cons_eq_if_modifyHead, if_neg (by simpa using Ne.symm h.1), ih h.2]
    cases b.splitOn c <;> rfl

theorem rawEntry_pair {name value : List Char} (hne : name ≠ []) (hname : '=' ∉ name) :
    rawEntry (name ++ '=' :: value) = some (name, value) := by
  have hbefore : before '=' (name ++ '=' :: value) = name := by
    rw [before_append hname, before_cons_self, List.append_nil]
  have hafter : after '=' (name ++ '=' :: value) = value := by
    rw [after_append hname, after_cons_self]
  rw [rawEntry, hbefore, hafter, if_neg hne]

theorem rawEntries_pair {name value : List Char} (hne : name ≠ []) (hname : '=' ∉ name)
    (hname' : '&' ∉ name) (hvalue : '&' ∉ value) :
    rawEntries (name ++ '=' :: value) = [(name, value)] := by
  have hsplit : (name ++ '=' :: value).splitOn '&' = [name ++ '=' :: value] := by
    refine List.splitOn_eq_singleton fun h => ?_
    rcases List.mem_append.mp h with h | h
    · exact hname' h
    · rcases List.mem_cons.mp h with h | h
      · cases h
      · exact hvalue h
  rw [rawEntries, hsplit, List.filterMap_cons_some (rawEntry_pair hne hname)]
  rfl

/-- The values that are read from the text of a parameter are parts of its value. -/
theorem value_sublist_of_mem_rawEntries {name value : List Char} (hne : name ≠ []) (hname : '=' ∉ name)
    (hname' : '&' ∉ name) {entry : Param} (h : entry ∈ rawEntries (name ++ '=' :: value)) :
    entry.2.Sublist value ∧ '&' ∉ entry.2 := by
  have hmid : ∀ piece : List Char, piece.Sublist value → '&' ∉ piece → ∀ e, rawEntry piece = some e →
      e.2.Sublist value ∧ '&' ∉ e.2 := by
    intro piece hpiece hmem e he
    unfold rawEntry at he
    split at he
    · cases he
    · cases he
      exact ⟨(after_sublist '=' piece).trans hpiece, fun hin => hmem ((after_sublist '=' piece).subset hin)⟩
  have hsub : ∀ piece ∈ value.splitOn '&', piece.Sublist value ∧ '&' ∉ piece :=
    fun _ => sublist_of_mem_splitOn
  -- only the first piece has the name in front
  have hsplit : (name ++ '=' :: value).splitOn '&'
      = (value.splitOn '&').modifyHead ((name ++ ['=']) ++ ·) := by
    rw [List.append_cons, splitOn_append_of_not_mem (by simpa using hname')]
  obtain ⟨first, rest, hparts⟩ := List.exists_cons_of_ne_nil (List.splitOn_ne_nil '&' value)
  rw [hparts] at hsplit hsub
  obtain ⟨piece, hpiece, hentry⟩ := List.mem_filterMap.mp h
  rw [hsplit, List.modifyHead_cons] at hpiece
  rcases List.mem_cons.mp hpiece with rfl | hpiece
  · have hfirst := hsub first (List.mem_cons_self ..)
    rw [List.append_assoc, List.singleton_append, rawEntry_pair hne hname] at hentry
    cases hentry
    exact hfirst
  · have hrest := hsub piece (List.mem_cons_of_mem _ hpiece)
    exact hmid piece hrest.1 hrest.2 entry hentry

/-! ### Parameters -/

theorem lookup_cons (param : Param) (params : List Param) (name : List Char) :
    (param :: params).lookup name = if name = param.1 then some param.2 else params.lookup name := by
  obtain ⟨key, value⟩ := param
  by_cases h : name = key
  · rw [if_pos h, List.lookup_cons, beq_iff_eq.mpr h]
  · rw [if_neg h, List.lookup_cons, beq_eq_false_iff_ne.mpr h]

theorem lookup_put (params : List Param) (entry : Param) (name : List Char) :
    (put params entry).lookup name = if name = entry.1 then some entry.2 else params.lookup name := by
  induction params with
  | nil => exact lookup_cons entry [] name
  | cons param params ih =>
    by_cases hparam : param.1 = entry.1
    · rw [put, if_pos hparam, lookup_cons, lookup_cons, hparam]
      split
      · rfl
      · rfl
    · rw [put, if_neg hparam, lookup_cons, ih, lookup_cons]
      by_cases h : name = entry.1
      · rw [if_pos h, if_pos h, if_neg (h.trans_ne (Ne.symm hparam))]
      · rw [if_neg h, if_neg h]

theorem mem_names_put {params : List Param} {entry : Param} {name : List Char} :
    name ∈ (put params entry).map Prod.fst ↔ name = entry.1 ∨ name ∈ params.map Prod.fst := by
  induction params with
  | nil => simp [put]
  | cons param params ih =>
    unfold put
    split
    · rename_i hparam
      simp [hparam]
    · rw [List.map_cons, List.mem_cons, ih, List.map_cons, List.mem_cons, or_left_comm]

theorem nodup_put {params : List Param} (h : (params.map Prod.fst).Nodup) (entry : Param) :
    ((put params entry).map Prod.fst).Nodup := by
  induction params with
  | nil => exact List.nodup_cons.mpr ⟨List.not_mem_nil, List.nodup_nil⟩
  | cons param params ih =>
    unfold put
    split
    · rename_i hparam
      rwa [List.map_cons, hparam] at h
    · rename_i hparam
      rw [List.map_cons, List.nodup_cons] at h ⊢
      refine ⟨fun hmem => ?_, ih h.2⟩
      rcases mem_names_put.mp hmem with heq | hmem
      · exact hparam heq
      · exact h.1 hmem

/-- The last value of a name counts. -/
theorem lookup_foldl_put (entries params : List Param) (name : List Char) :
    (entries.foldl put params).lookup name = (entries.reverse.lookup name).or (params.lookup name) := by
  induction entries generalizing params with
  | nil => rfl
  | cons entry entries ih =>
    -- the entry counts unless a later one has its name
    rw [List.foldl_cons, ih, List.reverse_cons, List.lookup_append, lookup_put, lookup_cons]
    cases entries.reverse.lookup name with
    | some value => rfl
    | none => by_cases h : name = entry.1 <;> simp [h]

theorem lookup_queryParameters {query : List Char} {entries params : List Param}
    (hentries : queryEntries query = some entries) (hparams : queryParameters query = some params)
    (name : List Char) : params.lookup name = entries.reverse.lookup name := by
  rw [queryParameters, hentries, Option.map_some] at hparams
  rw [← Option.some.inj hparams, lookup_foldl_put]
  exact Option.or_none

theorem nodup_foldl_put (entries : List Param) {params : List Param}
    (h : (params.map Prod.fst).Nodup) : ((entries.foldl put params).map Prod.fst).Nodup := by
  induction entries generalizing params with
  | nil => exact h
  | cons entry entries ih => exact ih (nodup_put h entry)

theorem nodup_queryParameters {query : List Char} {params : List Param}
    (h : queryParameters query = some params) : (params.map Prod.fst).Nodup := by
  obtain ⟨entries, -, rfl⟩ := Option.map_eq_some_iff.mp h
  exact nodup_foldl_put entries List.nodup_nil

/-! ### Blocks of parameters -/

theorem lookup_eq_none {params : List Param} {name : List Char} (h : ∀ param ∈ params, param.1 ≠ name) :
    params.lookup name = none :=
  List.lookup_eq_none_iff.mpr fun param hparam => bne_iff_ne.mpr (h param hparam).symm

theorem mem_of_lookup {params : List Param} {name value : List Char}
    (h : params.lookup name = some value) : (name, value) ∈ params := by
  obtain ⟨front, back, hsplit, -⟩ := List.lookup_eq_some_iff.mp h
  rw [hsplit]
  exact List.mem_append_right _ (List.mem_cons_self ..)

/-- If every parameter is read to a block in which it alone is named, then the value of a name is
that of its own block. -/
theorem lookup_flatten {read : Param → Option (List Param)} {params : List Param}
    {blocks : List (List Param)}
    (h : List.Forall₂ (fun param block => read param = some block) params blocks)
    (hapart : ∀ param ∈ params, ∀ block, read param = some block → ∀ entry ∈ block, entry.1 = param.1)
    (hnodup : (params.map Prod.fst).Nodup) {param : Param} {block : List Param} (hmem : param ∈ params)
    (hblock : read param = some block) :
    blocks.flatten.reverse.lookup param.1 = block.reverse.lookup param.1 := by
  induction h with
  | nil => cases hmem
  | @cons first own params blocks hfirst hrest ih =>
    rw [List.map_cons, List.nodup_cons] at hnodup
    have hown := hapart first (List.mem_cons_self ..) own hfirst
    have hothers : ∀ entry ∈ blocks.flatten, entry.1 ∈ params.map Prod.fst := by
      intro entry hentry
      obtain ⟨other, hother, hin⟩ := List.mem_flatten.mp hentry
      obtain ⟨param', hparam', hread⟩ := Forall₂.exists_of_mem hrest hother
      rw [hapart param' (List.mem_cons_of_mem _ hparam') other hread entry hin]
      exact List.mem_map_of_mem hparam'
    rw [List.flatten_cons, List.reverse_append, List.lookup_append]
    rcases List.mem_cons.mp hmem with rfl | hmem
    · -- behind its own block the name does not occur
      have hnone : blocks.flatten.reverse.lookup param.1 = none := by
        refine lookup_eq_none fun entry hentry heq => hnodup.1 ?_
        rw [← heq]
        exact hothers entry (List.mem_reverse.mp hentry)
      rw [hnone, Option.none_or, Option.some.inj (hfirst.symm.trans hblock)]
    · -- in the first block only the first parameter is named
      have hnone : own.reverse.lookup param.1 = none := by
        refine lookup_eq_none fun entry hentry heq => hnodup.1 ?_
        rw [← hown entry (List.mem_reverse.mp hentry), heq]
        exact List.mem_map_of_mem hmem
      rw [hnone, Option.or_none]
      exact ih (fun param' hparam' => hapart param' (List.mem_cons_of_mem _ hparam')) hnodup.2 hmem

/-! ### Parsing -/

theorem not_delimiter_of_isAlphanum {d : Char} (h : d.isAlphanum = true) : d ∉ ['#', '?'] := by
  intro hin
  rcases List.mem_cons.mp hin with rfl | hin
  · exact absurd h (by decide)
  · rw [List.mem_singleton] at hin
    subst hin
    exact absurd h (by decide)

theorem parse_join {scheme path : List Char} (hscheme : ∀ d ∈ scheme, d ∉ ['#', '?', ':'])
    (hpath : ∀ d ∈ path, d ∉ ['#', '?']) (rest : List Char) :
    parse (scheme ++ ':' :: (path ++ '?' :: rest)) = ⟨scheme, path, before '#' rest⟩ := by
  have hmem : ∀ d ∈ ['#', '?'], d ∉ scheme ++ ':' :: path := by
    intro d hd hin
    rcases List.mem_append.mp hin with hin | hin
    · exact hscheme d hin (by simp at hd ⊢; tauto)
    · rcases List.mem_cons.mp hin with rfl | hin
      · simp at hd
      · exact hpath d hin hd
  have hcolon : ':' ∉ scheme := fun hin => hscheme ':' hin (by simp)
  have htext : before '#' (scheme ++ ':' :: (path ++ '?' :: rest))
      = (scheme ++ ':' :: path) ++ '?' :: before '#' rest := by
    have hassoc : scheme ++ ':' :: (path ++ '?' :: rest) = (scheme ++ ':' :: path) ++ '?' :: rest := by
      simp
    rw [hassoc, before_append (hmem '#' (by simp))]
    rfl
  have hhead : before '?' ((scheme ++ ':' :: path) ++ '?' :: before '#' rest) = scheme ++ ':' :: path := by
    rw [before_append (hmem '?' (by simp)), before_cons_self, List.append_nil]
  rw [parse, htext, hhead, before_append hcolon, before_cons_self, List.append_nil, after_append hcolon,
    after_cons_self, after_append (hmem '?' (by simp)), after_cons_self]

end Uri
