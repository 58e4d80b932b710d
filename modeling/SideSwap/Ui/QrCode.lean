import SideSwap.Client.Proto
import SideSwap.Lib.Base64
import SideSwap.Lib.Uri
import SideSwap.Ui.Amounts

/-!
# QR codes

What the provider of QR codes reads from a payment URI (`parseBIP21`) and from the codes of the app
(`parseSideSwapAddress`), and how it makes the latter (`createDynamicQrCodeUrl`).  It writes into
the result that it holds, so that fields which are not given keep their values.

* `parseBIP21_eq_some`: what is read, field by field.
* `parseSideSwapAddress_stores`: what is held after a code of the app was read.
* `parseSideSwapAddress_not_roundTrips`: none of it is returned.
-/

namespace SideSwap.Ui

open Client

/-- What a code is for. -/
inductive QrCodeResultType
  | merchant | client
deriving DecidableEq

/-- The kinds of addresses. -/
inductive QrCodeAddressType
  | elements | bitcoin | liquidnetwork | other
deriving DecidableEq

/-- All kinds. -/
def QrCodeAddressType.values : List QrCodeAddressType := [.elements, .bitcoin, .liquidnetwork, .other]

/-- The kind as it is written in a link. -/
def QrCodeAddressType.asString : QrCodeAddressType → List Char
  | .elements => "elements".toList
  | .bitcoin => "bitcoin".toList
  | .liquidnetwork => "liquidnetwork".toList
  | .other => "other".toList

/-- What a code was read as. -/
structure QrCodeResult where
  address : Option (List Char) := none
  addressType : Option QrCodeAddressType := none
  type : Option QrCodeResultType := none
  amount : Option F64 := none
  ticker : Option (List Char) := none
  message : Option (List Char) := none
  label : Option (List Char) := none
  bitMask : Option ℤ := none
  error : Option Bool := none
  errorMessage : Option String := none
  orderId : Option (List Char) := none
  assetId : Option (List Char) := none
deriving DecidableEq

/-- The ticker of an asset that is not known. -/
def kUnknownTicker : List Char := "???".toList

/-- The names of the parameters that are read. -/
def amountName : List Char := "amount".toList

/-- The key of the label. -/
def labelName : List Char := "label".toList

/-- The key of the message. -/
def messageName : List Char := "message".toList

/-- The key of the asset. -/
def assetIdName : List Char := "assetid".toList

/-- The amount of a text: zero if it is none, or negative. -/
def amountOf (text : List Char) : F64 :=
  let amount := (doubleTryParse text).getD (.zero false)
  if amount.lt (.zero false) then .zero false else amount

/-- The name of an asset that a URI gives by its id. -/
def tickerOf (assets : Map AssetId AssetCopy) (assetId : List Char) : List Char :=
  match assets[(⟨String.ofList assetId⟩ : AssetId)]? with
  | some asset => asset.ticker.val.toList
  | none => kUnknownTicker

/-- The result after the URI is read into it; none if the query cannot be decoded. -/
def parseBIP21 (assets : Map AssetId AssetCopy) (result : QrCodeResult) (qrCode : List Char)
    (addressType : QrCodeAddressType) : Option QrCodeResult := do
  let url := Uri.parse qrCode
  let params ← Uri.queryParameters url.query
  let result := match params.lookup amountName with
    | some text => { result with amount := some (amountOf text) }
    | none => result
  let result := match params.lookup labelName with
    | some text => { result with label := some text }
    | none => result
  let result := match params.lookup messageName with
    | some text => { result with message := some text }
    | none => result
  let result := match params.lookup assetIdName with
    | some text => { result with assetId := some text, ticker := some (tickerOf assets text) }
    | none => result
  pure { result with address := some url.path, addressType := some addressType }

/-- The result that is held and returned after an error; `tr` is the translation. -/
def emitError (tr : String → String) (errorMessage : String) : QrCodeResult × QrCodeResult :=
  let result : QrCodeResult := { error := some true, errorMessage := some (tr errorMessage) }
  (result, result)

/-- The decimal digits of an integer. -/
def decimalInt (sign : Numeral.Sign) (digits : List Char) : Option ℤ :=
  let value : ℤ := sign.apply (Numeral.natOf digits : ℤ)
  if digits ≠ [] ∧ Numeral.Digits digits ∧ IsI64 value then some value else none

/-- The hexadecimal digits of an integer; without a minus they may be those of its 64 bits. -/
def hexInt (sign : Numeral.Sign) (digits : List Char) : Option ℤ := do
  let values ← digits.mapM Uri.hexValue
  let value : ℤ := (values.foldl (16 * · + ·) 0 : ℕ)
  if values = [] then none
  else if sign = .minus then if IsI64 (-value) then some (-value) else none
  else if value < 2 ^ 64 then some (wrap value) else none

/-- `int.tryParse`. -/
def intTryParse (text : List Char) : Option ℤ :=
  let (sign, digits) := Numeral.readSign (trim text)
  match digits with
  | '0' :: mark :: hex =>
    if mark = 'x' ∨ mark = 'X' then hexInt sign hex else decimalInt sign digits
  | _ => decimalInt sign digits

/-- The type is set by `M` and by `C`. -/
def setType (result : QrCodeResult) (kind : List Char) : QrCodeResult :=
  if kind = ['M'] then { result with type := some .merchant }
  else if kind = ['C'] then { result with type := some .client }
  else result

/-- What `parseSideSwapAddress` makes of the value of `T`. -/
def readData (tr : String → String) (result : QrCodeResult) (data : List Char) :
    QrCodeResult × QrCodeResult :=
  match data.splitOn ';' with
  | kind :: amount :: ticker :: message :: bitMask :: _ =>
    let result := setType result kind
    if result.type = none then emitError tr "Invalid QR code"
    else match (Base64.decode message).bind Utf8.decode with
      | none => emitError tr "Invalid QR code"
      | some decodedMessage =>
        ({ result with
            amount := doubleTryParse amount
            ticker := if ticker ≠ [] then some ticker else none
            message := if decodedMessage ≠ [] then some decodedMessage else none
            bitMask := intTryParse bitMask },
          {})
  | _ => emitError tr "Invalid QR code"

/-- The result that is held after a code is read, and the one that is returned; none if the query
cannot be decoded. -/
def parseSideSwapAddress (tr : String → String) (result : QrCodeResult) (qrCode : List Char) :
    Option (QrCodeResult × QrCodeResult) := do
  let url := Uri.parse qrCode
  let queryParams ← Uri.queryParameters url.query
  let result := { result with address := some url.path, addressType := some .other }
  if queryParams = [] then pure (emitError tr "Invalid QR code")
  else if url.path = [] then pure (emitError tr "Invalid QR code")
  else match queryParams.lookup ['T'] with
    | none => pure (emitError tr "")
    | some data => pure (readData tr result data)

/-- What a code is made of. -/
structure QrValues where
  address : List Char
  type : QrCodeResultType
  amount : Option F64
  asset : Option (List Char)
  message : Option (List Char)
  bitMask : ℤ
  alphanumeric : ∀ c ∈ address, c.isAlphanum = true
  ticker : ∀ text ∈ asset, text ≠ [] ∧ ∀ c ∈ text, c.isAlphanum = true ∨ c = '-'
  nonempty : ∀ text ∈ message, text ≠ []
  range : IsI64 bitMask

/-- The parts of a code; `toText` is the `toString` of doubles. -/
def dataList (toText : F64 → List Char) (values : QrValues) : List (List Char) :=
  [if values.type = .merchant then ['M'] else ['C'], (values.amount.map toText).getD [],
    values.asset.getD [], (values.message.map fun text => Base64.encode (Utf8.encode text)).getD [],
    intText values.bitMask]

/-- The value of `T`. -/
def dataText (toText : F64 → List Char) (values : QrValues) : List Char :=
  [';'].intercalate (dataList toText values)

/-- The link that a code is made of. -/
def createDynamicQrCodeUrl (toText : F64 → List Char) (values : QrValues) : List Char :=
  "sideswap".toList ++ ':' :: (values.address ++ '?' :: ('T' :: '=' :: dataText toText values))

variable {assets : Map AssetId AssetCopy} {result result' : QrCodeResult} {qrCode : List Char}
  {addressType : QrCodeAddressType}

/-- What is read, field by field. -/
theorem parseBIP21_eq_some : parseBIP21 assets result qrCode addressType = some result' ↔
    ∃ params, Uri.queryParameters (Uri.parse qrCode).query = some params ∧
      result' = { result with
        address := some (Uri.parse qrCode).path
        addressType := some addressType
        amount := ((params.lookup amountName).map amountOf).or result.amount
        label := (params.lookup labelName).or result.label
        message := (params.lookup messageName).or result.message
        assetId := (params.lookup assetIdName).or result.assetId
        ticker := ((params.lookup assetIdName).map (tickerOf assets)).or result.ticker } := by
  simp only [parseBIP21, Option.bind_eq_bind, Option.bind_eq_some_iff, Option.pure_def,
    Option.some.injEq]
  refine exists_congr fun params => and_congr_right fun _ => ?_
  rw [eq_comm (b := result')]
  -- every parameter is there or not
  cases params.lookup amountName <;> cases params.lookup labelName <;>
    cases params.lookup messageName <;> cases params.lookup assetIdName <;> rfl

/-! ### Integers -/

theorem decimalInt_toDigits {z : ℤ} (h : IsI64 z) :
    decimalInt (signOf z) (Nat.toDigits 10 z.natAbs) = some z := by
  have hvalue : (signOf z).apply (z.natAbs : ℤ) = z := by
    unfold signOf Numeral.Sign.apply
    by_cases hz : z < 0
    · rw [if_pos hz, if_pos rfl]
      omega
    · rw [if_neg hz, if_neg (by decide)]
      omega
  rw [decimalInt, Numeral.natOf_toDigits, hvalue, if_pos ⟨Nat.toDigits_ne_nil, Numeral.digits_toDigits _, h⟩]

/-- An integer in range is read as it is printed. -/
theorem intTryParse_intText {z : ℤ} (h : IsI64 z) : intTryParse (intText z) = some z := by
  have hdigits := Numeral.digits_toDigits z.natAbs
  have htrim : trim (intText z) = intText z := by
    refine trim_of_forall fun c hc => ?_
    rcases List.mem_append.mp hc with hc | hc
    · unfold signOf at hc
      split at hc
      · rw [List.mem_singleton.mp hc]
        decide
      · cases hc
    · exact not_isSpace_of_isDigit (hdigits c hc)
  have hread : Numeral.readSign (intText z) = (signOf z, Nat.toDigits 10 z.natAbs) := by
    refine Numeral.readSign_text _ fun c hc => ?_
    have hdigit := hdigits c (List.mem_of_mem_head? hc)
    constructor
    · rintro rfl
      exact absurd hdigit (by decide)
    · rintro rfl
      exact absurd hdigit (by decide)
  rw [intTryParse, htrim, hread]
  dsimp only
  split
  · -- what follows a zero is a digit, no mark of hexadecimal digits
    rename_i mark hex heq
    have hmark : mark.isDigit = true := hdigits mark (by rw [heq]; simp)
    rw [if_neg, decimalInt_toDigits h]
    rintro (rfl | rfl)
    · exact absurd hmark (by decide)
    · exact absurd hmark (by decide)
  · exact decimalInt_toDigits h

/-! ### The codes of the app -/

variable {tr : String → String} {held held' : QrCodeResult}

theorem readData_address (tr : String → String) (result : QrCodeResult) (data : List Char) :
    (readData tr result data).2.address = none := by
  unfold readData
  split
  · dsimp only
    split
    · rfl
    split
    · rfl
    · rfl
  · rfl

/-- What is returned has no address. -/
theorem parseSideSwapAddress_address (h : parseSideSwapAddress tr held qrCode = some (held', result)) :
    result.address = none := by
  obtain ⟨params, -, h⟩ := Option.bind_eq_some_iff.mp h
  dsimp only at h
  split at h
  · cases h
    rfl
  split at h
  · cases h
    rfl
  split at h
  · cases h
    rfl
  · rename_i data _
    have hdata := congrArg (Option.map fun results => results.2.address) h
    exact (Option.some.inj hdata).symm.trans (readData_address tr _ data)

/-- `toString` of a double is a numeral or a special text that is read as that double. -/
structure Prints (toText : F64 → List Char) : Prop where
  parses : ∀ x, doubleTryParse (toText x) = some x
  chars : ∀ x, ∀ c ∈ toText x, c.isAlphanum = true ∨ c ∈ ['+', '-', '.']

/-- The characters of the parts of a code. -/
def PartChar (c : Char) : Prop := c.isAlphanum = true ∨ c ∈ ['+', '-', '.', '/', '=']

instance (c : Char) : Decidable (PartChar c) := inferInstanceAs (Decidable (_ ∨ _))

variable {toText : F64 → List Char} {values : QrValues}

theorem partChar_dataList (hprints : Prints toText) {part : List Char} (hpart : part ∈ dataList toText values)
    {c : Char} (hc : c ∈ part) : PartChar c := by
  simp only [dataList, List.mem_cons, List.not_mem_nil, or_false] at hpart
  rcases hpart with rfl | rfl | rfl | rfl | rfl
  · split at hc
    · rw [List.mem_singleton.mp hc]
      decide
    · rw [List.mem_singleton.mp hc]
      decide
  · cases hamount : values.amount with
    | none => simp [hamount] at hc
    | some x =>
      rw [hamount] at hc
      rcases hprints.chars x c hc with halpha | hin
      · exact Or.inl halpha
      · exact Or.inr (List.mem_append_left ['/', '='] hin)
  · cases hasset : values.asset with
    | none => simp [hasset] at hc
    | some ticker =>
      rw [hasset] at hc
      rcases (values.ticker ticker hasset).2 c hc with halpha | rfl
      · exact Or.inl halpha
      · decide
  · cases hmessage : values.message with
    | none => simp [hmessage] at hc
    | some text =>
      rw [hmessage] at hc
      rcases Base64.mem_encode hc with hin | rfl
      · exact Uri.forall_mem_of_all (by decide) c hin
      · decide
  · rcases List.mem_append.mp hc with hc | hc
    · unfold signOf at hc
      split at hc
      · rw [List.mem_singleton.mp hc]
        decide
      · cases hc
    · have hdigit := Numeral.digits_toDigits _ c hc
      exact Or.inl (by simp [Char.isAlphanum, hdigit])

theorem splitOn_dataText (hprints : Prints toText) :
    (dataText toText values).splitOn ';' = dataList toText values := by
  refine List.splitOn_intercalate ';' (fun part hpart hin => ?_) (by simp [dataList])
  exact absurd (partChar_dataList hprints hpart hin) (by decide)

theorem not_mem_dataText (hprints : Prints toText) {c : Char} (hc : ¬ PartChar c ∧ c ≠ ';') :
    c ∉ dataText toText values := by
  intro hin
  rcases mem_intercalate hin with hsep | ⟨part, hpart, hin⟩
  · exact hc.2 hsep
  · exact hc.1 (partChar_dataList hprints hpart hin)

/-- Without a plus the parameter is decoded to itself. -/
theorem plain_dataText (hprints : Prints toText)
    (hplus : ∀ part ∈ dataList toText values, '+' ∉ part) : Uri.Plain (dataText toText values) := by
  refine ⟨fun hin => ?_, ?_, fun hbom => ?_⟩
  · rcases mem_intercalate hin with hsep | ⟨part, hpart, hin⟩
    · cases hsep
    · exact hplus part hpart hin
  · -- no part of a code has a percent sign
    rintro ⟨x, y, -, hin⟩
    exact not_mem_dataText hprints (by decide) (hin.subset (List.mem_cons_self ..))
  · exact not_mem_dataText hprints (by decide) (List.mem_of_mem_head? hbom)

/-- The parameters of a code. -/
theorem queryParameters_createDynamicQrCodeUrl (hprints : Prints toText)
    (hplus : ∀ part ∈ dataList toText values, '+' ∉ part) :
    Uri.parse (createDynamicQrCodeUrl toText values) =
        ⟨"sideswap".toList, values.address, 'T' :: '=' :: dataText toText values⟩ ∧
      Uri.queryParameters ('T' :: '=' :: dataText toText values) =
        some [(['T'], dataText toText values)] := by
  have hhash : '#' ∉ 'T' :: '=' :: dataText toText values := by
    simpa using not_mem_dataText hprints (by decide)
  constructor
  · have hpath : ∀ d ∈ values.address, d ∉ ['#', '?'] :=
      fun d hd => Uri.not_delimiter_of_isAlphanum (values.alphanumeric d hd)
    refine (Uri.parse_join (Uri.forall_mem_of_all (by decide)) hpath _).trans ?_
    rw [Uri.before_of_not_mem hhash]
  · have hraw : Uri.rawEntries (['T'] ++ '=' :: dataText toText values) =
        [(['T'], dataText toText values)] :=
      Uri.rawEntries_pair (by decide) (by decide) (by decide) (not_mem_dataText hprints (by decide))
    have hname : Uri.decodeComponent ['T'] = some ['T'] := by decide +kernel
    have hvalue := Uri.decodeComponent_eq_self_iff.mpr (plain_dataText hprints hplus)
    rw [Uri.queryParameters, Uri.queryEntries]
    rw [List.singleton_append] at hraw
    rw [hraw, List.mapM_cons, Uri.decodeEntry, hname, hvalue]
    rfl

/-- What five parts are read as. -/
theorem readData_of_split {data kind amount ticker message bitMask decoded : List Char}
    (hsplit : data.splitOn ';' = [kind, amount, ticker, message, bitMask])
    (htype : (setType held kind).type ≠ none)
    (hdecoded : (Base64.decode message).bind Utf8.decode = some decoded) :
    readData tr held data = ({ setType held kind with
      amount := doubleTryParse amount
      ticker := if ticker ≠ [] then some ticker else none
      message := if decoded ≠ [] then some decoded else none
      bitMask := intTryParse bitMask }, {}) := by
  rw [readData, hsplit]
  dsimp only
  rw [if_neg htype, hdecoded]

/-- A code without a plus is read, and all of it is held: the result that is returned is another
one. -/
theorem parseSideSwapAddress_stores (hprints : Prints toText) (haddress : values.address ≠ [])
    (hplus : ∀ part ∈ dataList toText values, '+' ∉ part)
    (hbom : ∀ text ∈ values.message, text.head? ≠ some Utf8.bom) :
    parseSideSwapAddress tr held (createDynamicQrCodeUrl toText values) =
      some ({ held with
        address := some values.address
        addressType := some .other
        type := some values.type
        amount := values.amount
        ticker := values.asset
        message := values.message
        bitMask := some values.bitMask }, {}) := by
  obtain ⟨hparse, hparams⟩ := queryParameters_createDynamicQrCodeUrl hprints hplus
  -- what the five parts are read as, one after the other
  have htype : setType { held with address := some values.address, addressType := some .other }
      (if values.type = .merchant then ['M'] else ['C']) =
        { held with
          address := some values.address
          addressType := some .other
          type := some values.type } := by
    cases values.type <;> rfl
  have hamount : doubleTryParse ((values.amount.map toText).getD []) = values.amount := by
    cases values.amount with
    | none =>
      show doubleTryParse [] = none
      decide +kernel
    | some x => exact hprints.parses x
  have hticker : (if values.asset.getD [] ≠ [] then some (values.asset.getD []) else none) =
      values.asset := by
    cases hasset : values.asset with
    | none => rfl
    | some ticker => exact if_pos (values.ticker ticker hasset).1
  have hmessage : ∃ decoded, (Base64.decode ((values.message.map fun text =>
        Base64.encode (Utf8.encode text)).getD [])).bind Utf8.decode = some decoded ∧
      (if decoded ≠ [] then some decoded else none) = values.message := by
    cases hmessage : values.message with
    | none => exact ⟨[], by decide +kernel, rfl⟩
    | some text =>
      refine ⟨text, ?_, if_pos (values.nonempty text hmessage)⟩
      rw [Option.map_some, Option.getD_some, Base64.decode_encode, Option.bind_some, Utf8.decode_encode,
        Uri.dropBom_eq_self_iff.mpr (hbom text hmessage)]
  obtain ⟨decoded, hdecoded, hshown⟩ := hmessage
  rw [parseSideSwapAddress]
  simp only [hparse, hparams, Option.bind_eq_bind, Option.bind_some]
  rw [if_neg (List.cons_ne_nil _ _), if_neg haddress, Uri.lookup_cons, if_pos rfl]
  dsimp only
  rw [readData_of_split (splitOn_dataText hprints) (by rw [htype]; exact Option.some_ne_none _) hdecoded,
    htype, hamount, hticker, hshown, intTryParse_intText values.range]
  rfl

/-- What is parsed again has what the code was made of. -/
def RoundTrips (tr : String → String) (toText : F64 → List Char) (held : QrCodeResult)
    (values : QrValues) : Prop :=
  ∃ held' result, parseSideSwapAddress tr held (createDynamicQrCodeUrl toText values) =
      some (held', result) ∧
    result.error ≠ some true ∧ result.address = some values.address ∧
    result.type = some values.type ∧ result.amount = values.amount ∧ result.ticker = values.asset ∧
    result.message = values.message ∧ result.bitMask = some values.bitMask

/-- No code comes back, whatever it was made of. -/
theorem parseSideSwapAddress_not_roundTrips (tr : String → String) (toText : F64 → List Char)
    (held : QrCodeResult) (values : QrValues) : ¬ RoundTrips tr toText held values := by
  rintro ⟨held', result, hparse, -, haddress, -⟩
  rw [parseSideSwapAddress_address hparse] at haddress
  cases haddress

namespace Sample

/-- A code of a client for half a bitcoin. -/
def qrValues : QrValues where
  address := "abc".toList
  type := .client
  amount := some (F64.lit 1 2)
  asset := some "L-BTC".toList
  message := some "hi".toList
  bitMask := 0
  alphanumeric := Uri.forall_mem_of_all (by decide)
  ticker := by
    rintro _ ⟨⟩
    exact ⟨by decide, Uri.forall_mem_of_all (by decide)⟩
  nonempty := by
    rintro _ ⟨⟩
    decide
  range := by decide

end Sample

open Ui.Sample in
/-- The code is read without an error, but the result is empty. -/
theorem parseSideSwapAddress_empty : ¬ ∀ (tr : String → String) (toText : F64 → List Char)
    (held : QrCodeResult) (values : QrValues), RoundTrips tr toText held values := by
  intro hall
  obtain ⟨held', result, hparse, -, haddress, -⟩ := hall id (fun _ => "0.5".toList) {} qrValues
  have hempty : (parseSideSwapAddress id {} (createDynamicQrCodeUrl (fun _ => "0.5".toList) qrValues)).map
      (fun results => results.2.address) = some none := by decide +kernel
  rw [hparse, Option.map_some, haddress] at hempty
  cases hempty

end SideSwap.Ui
