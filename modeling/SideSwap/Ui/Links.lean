import SideSwap.Ui.QrCode

/-!
# App links

A link that another app opens gives an address and further parameters.  `handleApp2App` decodes its
query, pastes the parameters unescaped into a payment URI, and has the provider of QR codes parse
that one, which decodes them a second time.

* `queryEntries_join`: what the second parse reads, parameter by parameter.
* `handleApp2App_keeps_iff`: exactly when the page gets what the link says.
-/

namespace SideSwap.Ui

open Client Uri

/-- The key of the address. -/
def addressName : List Char := "address".toList

/-- The key of the kind of address. -/
def addressTypeName : List Char := "addressType".toList

/-- The value that is written so, if there is one. -/
def enumValueFromString {α : Type} (asString : α → List Char) (key : List Char) (values : List α) :
    Option α :=
  values.find? fun value => key = asString value

/-- A parameter as it is pasted. -/
def pasted (param : Param) : List Char := param.1 ++ '=' :: param.2

/-- The parameters as they are pasted behind a link. -/
def join (params : List Param) : List Char := params.flatMap fun param => '&' :: pasted param

/-- The parameters that are pasted. -/
def furtherParams (query : List Param) : List Param :=
  query.filter fun param => param.1 ≠ addressName ∧ param.1 ≠ addressTypeName

/-- The link that is read again as if it had been scanned. -/
def fakeAddress (addressType : QrCodeAddressType) (address : List Char) (query : List Param) :
    List Char :=
  addressType.asString ++ ':' :: (address ++ '?' :: join (furtherParams query))

/-- The result that the page for the payment is opened with, if it is opened; none if a query cannot
be decoded.  It is the one that the provider of QR codes holds. -/
def handleApp2App (assets : Map AssetId AssetCopy) (result : QrCodeResult) (uri : Uri) :
    Option (Option QrCodeResult) := do
  let query ← queryParameters uri.query
  match query.lookup addressTypeName with
  | none => pure none
  | some text =>
    match enumValueFromString QrCodeAddressType.asString text QrCodeAddressType.values with
    | none => pure none
    | some addressType =>
      match query.lookup addressName with
      | none => pure none
      | some address => do
        let result ← parseBIP21 assets result (fakeAddress addressType address query) addressType
        pure (some result)

/-! ### What is read of the pasted parameters -/

/-- The parameters up to the first with a `#`, which ends the query. -/
def readParams : List Param → List Param
  | [] => []
  | param :: params => if '#' ∈ pasted param then [param] else param :: readParams params

/-- What is read from the text of a parameter. -/
def ownEntries (param : Param) : Option (List Param) := queryEntries (before '#' (pasted param))

variable {param : Param} {params : List Param}

theorem readParams_sublist (params : List Param) : (readParams params).Sublist params := by
  induction params with
  | nil => exact List.Sublist.refl _
  | cons param params ih =>
    unfold readParams
    split
    · exact (List.nil_sublist params).cons_cons param
    · exact ih.cons_cons param

theorem queryEntries_separator (text : List Char) : queryEntries ('&' :: text) = queryEntries text := by
  have happend := queryEntries_append [] text
  rw [List.nil_append] at happend
  rw [happend]
  cases hentries : queryEntries text with
  | none => rfl
  | some entries => rfl

theorem before_join_cons (param : Param) (params : List Param) :
    before '#' (join (param :: params)) = '&' :: if '#' ∈ pasted param then before '#' (pasted param)
      else pasted param ++ before '#' (join params) := by
  have hcons : join (param :: params) = ['&'] ++ (pasted param ++ join params) := rfl
  rw [hcons, before_append (by decide), List.singleton_append]
  split
  · rename_i hin
    rw [before_append_of_mem hin]
  · rename_i hno
    rw [before_append hno]

/-- The text of a parameter is read by itself. -/
theorem queryEntries_pasted (param : Param) (params : List Param) :
    queryEntries (pasted param ++ before '#' (join params)) =
      (queryEntries (pasted param)).bind fun own =>
        (queryEntries (before '#' (join params))).map (own ++ ·) := by
  cases params with
  | nil =>
    show queryEntries (pasted param ++ []) = (queryEntries (pasted param)).bind fun own => some (own ++ [])
    simp only [List.append_nil]
    exact (Option.bind_fun_some _).symm
  | cons next params => rw [before_join_cons, queryEntries_append, queryEntries_separator]

/-- What the second parse reads, parameter by parameter. -/
theorem queryEntries_join (params : List Param) : queryEntries (before '#' (join params)) =
    ((readParams params).mapM ownEntries).map List.flatten := by
  induction params with
  | nil => rfl
  | cons param params ih =>
    rw [before_join_cons, queryEntries_separator]
    unfold readParams
    split
    · -- the query ends in this parameter
      rw [List.mapM_cons, List.mapM_nil]
      show ownEntries param = _
      cases hown : ownEntries param with
      | none => rfl
      | some own => exact congrArg some (List.append_nil own).symm
    · rename_i hno
      have hown : ownEntries param = queryEntries (pasted param) := by
        rw [ownEntries, before_of_not_mem hno]
      rw [queryEntries_pasted, ih, List.mapM_cons, hown]
      cases queryEntries (pasted param) with
      | none => rfl
      | some own => cases (readParams params).mapM ownEntries <;> rfl

/-! ### Names -/

/-- The names of the parameters that are shown as they are. -/
def textNames : List (List Char) := [labelName, messageName, assetIdName]

/-- The names of the parameters that are shown. -/
def shownNames : List (List Char) := amountName :: textNames

/-- A name that can be pasted. -/
structure PlainName (name : List Char) : Prop where
  nonempty : name ≠ []
  noSeparator : ∀ c ∈ ['=', '&', '#'], c ∉ name
  decoded : decodeComponent name = some name

theorem plainName {name : List Char} (h : name ∈ shownNames) : PlainName name := by
  have hall : ∀ name ∈ shownNames, name ≠ [] ∧ (name.all fun c => c ∉ ['=', '&', '#']) ∧
      decodeComponent name = some name := by decide +kernel
  obtain ⟨hne, hseparator, hdecoded⟩ := hall name h
  exact ⟨hne, fun c hc hin => forall_mem_of_all hseparator c hin hc, hdecoded⟩

/-! ### Links -/

/-- A link whose query is decoded to an address type, an address, and the parameters that the page
shows, in any order and among others. -/
structure AppLink (uri : Uri) where
  query : List Param
  addressType : QrCodeAddressType
  address : List Char
  amount : List Char
  label : List Char
  message : List Char
  assetId : List Char
  decoded : queryParameters uri.query = some query
  hasType : query.lookup addressTypeName = some addressType.asString
  hasAddress : query.lookup addressName = some address
  hasAmount : query.lookup amountName = some amount
  hasLabel : query.lookup labelName = some label
  hasMessage : query.lookup messageName = some message
  hasAssetId : query.lookup assetIdName = some assetId
  alphanumeric : ∀ c ∈ address, c.isAlphanum = true

variable {uri : Uri}

namespace AppLink

/-- The parameters that are read from a link. -/
def read (link : AppLink uri) : List Param := readParams (furtherParams link.query)

/-- The parameters that the page shows. -/
def shown (link : AppLink uri) : List Param :=
  [(amountName, link.amount), (labelName, link.label), (messageName, link.message),
    (assetIdName, link.assetId)]

/-- The page shows what the link says. -/
structure Shows (link : AppLink uri) (shown : QrCodeResult) : Prop where
  address : shown.address = some link.address
  amount : shown.amount = some (amountOf link.amount)
  label : shown.label = some link.label
  message : shown.message = some link.message
  assetId : shown.assetId = some link.assetId

/-- The page is opened with what the link says, whatever was read before, and no text inside of one
parameter is read as another one. -/
structure Kept (link : AppLink uri) : Prop where
  shows : ∀ (assets : Map AssetId AssetCopy) (result : QrCodeResult),
    ∃ shown, handleApp2App assets result uri = some (some shown) ∧ link.Shows shown
  apart : ∀ param ∈ link.read, ∀ entries, ownEntries param = some entries →
    ∀ entry ∈ entries, entry.1 = param.1

/-- The label, the message and the asset id are plain and have no separators.  The other parameters,
as far as they are read, can be decoded once more and name nothing but themselves, and the amount
means the same.  No `#` is in front of these four. -/
structure Clean (link : AppLink uri) : Prop where
  texts : ∀ text ∈ [link.label, link.message, link.assetId], '&' ∉ text ∧ '#' ∉ text ∧ Plain text
  reached : ∀ name ∈ shownNames, name ∈ link.read.map Prod.fst
  others : ∀ param ∈ link.read, param.1 ∉ textNames →
    ∃ entries, ownEntries param = some entries ∧ ∀ entry ∈ entries, entry.1 = param.1
  amount : ∀ entries, ownEntries (amountName, link.amount) = some entries →
    ∃ text, entries.reverse.lookup amountName = some text ∧ amountOf text = amountOf link.amount

end AppLink

/-! ### The text of a parameter -/

theorem before_pasted {name value : List Char} (hname : PlainName name) :
    before '#' (pasted (name, value)) = name ++ '=' :: before '#' value := by
  have hno : '#' ∉ name ++ ['='] := by
    intro hin
    rcases List.mem_append.mp hin with hin | hin
    · exact hname.noSeparator '#' (by simp) hin
    · exact absurd hin (by decide)
  calc before '#' (pasted (name, value))
    _ = before '#' ((name ++ ['=']) ++ value) := congrArg (before '#') (List.append_cons ..)
    _ = (name ++ ['=']) ++ before '#' value := before_append hno value
    _ = name ++ '=' :: before '#' value := (List.append_cons ..).symm

/-- A parameter of plain texts is read as it is. -/
theorem ownEntries_plain {name value : List Char} (hname : PlainName name) (hand : '&' ∉ value)
    (hhash : '#' ∉ value) (hvalue : Plain value) : ownEntries (name, value) = some [(name, value)] := by
  have hraw : rawEntries (name ++ '=' :: value) = [(name, value)] :=
    rawEntries_pair hname.nonempty (hname.noSeparator '=' (by simp)) (hname.noSeparator '&' (by simp)) hand
  have hdecode : decodeEntry (name, value) = some (name, value) :=
    decodeEntry_eq_some.mpr ⟨hname.decoded, decodeComponent_eq_self_iff.mpr hvalue⟩
  rw [ownEntries, before_pasted hname, before_of_not_mem hhash, queryEntries, hraw]
  exact Forall₂.mapM_eq_some_iff.mpr (.cons hdecode .nil)

/-- A value that is read back has no separators and is plain: it is read from a part of itself. -/
theorem plain_of_lookup {name value : List Char} {entries : List Param} (hname : PlainName name)
    (h : ownEntries (name, value) = some entries) (hlast : entries.reverse.lookup name = some value) :
    '&' ∉ value ∧ '#' ∉ value ∧ Plain value := by
  have hmem : (name, value) ∈ entries := List.mem_reverse.mp (mem_of_lookup hlast)
  obtain ⟨raw, hraw, hdecode⟩ := Forall₂.exists_of_mem (Forall₂.mapM_eq_some_iff.mp h) hmem
  rw [before_pasted hname] at hraw
  obtain ⟨hsub, hand⟩ := value_sublist_of_mem_rawEntries hname.nonempty
    (hname.noSeparator '=' (by simp)) (hname.noSeparator '&' (by simp)) hraw
  have hvalue : decodeComponent raw.2 = some value := (decodeEntry_eq_some.mp hdecode).2
  -- decoding makes no text longer
  have hsame : raw.2 = value :=
    eq_of_decodeComponent_sublist (hsub.trans (before_sublist '#' value)) hvalue
  rw [hsame] at hsub hand hvalue
  exact ⟨hand, fun hin => not_mem_before '#' value (hsub.subset hin),
    decodeComponent_eq_self_iff.mp hvalue⟩

/-! ### What the page gets -/

theorem asString_known (addressType : QrCodeAddressType) :
    enumValueFromString QrCodeAddressType.asString addressType.asString QrCodeAddressType.values =
      some addressType := by
  cases addressType <;> decide

theorem nodup_furtherParams {query : List Param} (h : (query.map Prod.fst).Nodup) :
    ((furtherParams query).map Prod.fst).Nodup :=
  (List.filter_sublist.map Prod.fst).nodup h

namespace AppLink

variable (link : AppLink uri)

theorem nodup_read : (link.read.map Prod.fst).Nodup :=
  ((readParams_sublist _).map Prod.fst).nodup (nodup_furtherParams (nodup_queryParameters link.decoded))

theorem shown_mem {param : Param} (h : param ∈ link.shown) : param ∈ furtherParams link.query := by
  have hname : param.1 ∈ shownNames := List.mem_map_of_mem (f := Prod.fst) h
  -- only the address and its type are not pasted
  have hother : ∀ name ∈ shownNames, name ≠ addressName ∧ name ≠ addressTypeName := by decide
  refine List.mem_filter.mpr ⟨?_, decide_eq_true (hother param.1 hname)⟩
  simp only [shown, List.mem_cons, List.not_mem_nil, or_false] at h
  rcases h with rfl | rfl | rfl | rfl
  · exact mem_of_lookup link.hasAmount
  · exact mem_of_lookup link.hasLabel
  · exact mem_of_lookup link.hasMessage
  · exact mem_of_lookup link.hasAssetId

/-- What is read under the name of a parameter that is shown is that parameter. -/
theorem eq_shown {param read : Param} (hread : read ∈ link.read) (hshown : param ∈ link.shown)
    (hname : read.1 = param.1) : read = param :=
  List.inj_on_of_nodup_map (nodup_furtherParams (nodup_queryParameters link.decoded))
    ((readParams_sublist _).subset hread) (link.shown_mem hshown) hname

theorem parse_fakeAddress : parse (fakeAddress link.addressType link.address link.query) =
    ⟨link.addressType.asString, link.address, before '#' (join (furtherParams link.query))⟩ := by
  refine parse_join ?_ (fun d hd => not_delimiter_of_isAlphanum (link.alphanumeric d hd)) _
  cases link.addressType <;> exact forall_mem_of_all (by decide)

theorem handleApp2App_eq (assets : Map AssetId AssetCopy) (result : QrCodeResult) :
    handleApp2App assets result uri =
      (parseBIP21 assets result (fakeAddress link.addressType link.address link.query)
        link.addressType).map some := by
  rw [handleApp2App, link.decoded]
  simp only [Option.bind_eq_bind, Option.bind_some, link.hasType, asString_known, link.hasAddress]
  exact Option.map_eq_bind.symm

/-- The result, from what the second parse reads. -/
theorem handleApp2App_eq_some {assets : Map AssetId AssetCopy} {result shown : QrCodeResult} :
    handleApp2App assets result uri = some (some shown) ↔
      ∃ entries, link.read.mapM ownEntries = some entries ∧ shown = { result with
        address := some link.address
        addressType := some link.addressType
        amount := ((entries.flatten.reverse.lookup amountName).map amountOf).or result.amount
        label := (entries.flatten.reverse.lookup labelName).or result.label
        message := (entries.flatten.reverse.lookup messageName).or result.message
        assetId := (entries.flatten.reverse.lookup assetIdName).or result.assetId
        ticker := ((entries.flatten.reverse.lookup assetIdName).map (tickerOf assets)).or
          result.ticker } := by
  rw [link.handleApp2App_eq, Option.map_eq_some_iff]
  simp only [Option.some.injEq, exists_eq_right, parseBIP21_eq_some, link.parse_fakeAddress]
  -- both parses are of the same query, once as a map and once parameter by parameter
  have hquery := queryEntries_join (furtherParams link.query)
  constructor
  · rintro ⟨params, hparams, rfl⟩
    obtain ⟨all, hall, -⟩ := Option.map_eq_some_iff.mp hparams
    obtain ⟨entries, hentries, rfl⟩ := Option.map_eq_some_iff.mp (hquery.symm.trans hall)
    refine ⟨entries, hentries, ?_⟩
    simp only [lookup_queryParameters hall hparams]
  · rintro ⟨entries, hentries, rfl⟩
    have hall : queryEntries (before '#' (join (furtherParams link.query))) = some entries.flatten := by
      rw [hquery]
      exact congrArg (Option.map List.flatten) hentries
    have hparams : queryParameters (before '#' (join (furtherParams link.query))) =
        some (entries.flatten.foldl put []) := by
      rw [queryParameters, hall, Option.map_some]
    refine ⟨_, hparams, ?_⟩
    simp only [lookup_queryParameters hall hparams]

/-! ### When the link is kept -/

variable {link}

/-- A parameter that is shown and read. -/
theorem mem_read {param : Param} (hshown : param ∈ link.shown) (h : param.1 ∈ link.read.map Prod.fst) :
    param ∈ link.read := by
  obtain ⟨read, hread, hname⟩ := List.mem_map.mp h
  rwa [← link.eq_shown hread hshown hname]

namespace Clean

/-- The label, the message and the asset id are read as they are. -/
theorem ownEntries_text (h : link.Clean) {param : Param} (hread : param ∈ link.read)
    (hname : param.1 ∈ textNames) : ownEntries param = some [param] := by
  obtain ⟨text, htext, hshown⟩ : ∃ text ∈ [link.label, link.message, link.assetId],
      (param.1, text) ∈ link.shown := by
    simp only [textNames, List.mem_cons, List.not_mem_nil, or_false] at hname
    rcases hname with hname | hname | hname
    · exact ⟨link.label, by simp, by simp [shown, hname]⟩
    · exact ⟨link.message, by simp, by simp [shown, hname]⟩
    · exact ⟨link.assetId, by simp, by simp [shown, hname]⟩
  obtain ⟨hand, hhash, hvalue⟩ := h.texts text htext
  rw [link.eq_shown hread hshown rfl]
  exact ownEntries_plain (plainName (List.mem_cons_of_mem _ hname)) hand hhash hvalue

/-- Every parameter is read, and under its own name. -/
theorem own (h : link.Clean) {param : Param} (hread : param ∈ link.read) :
    ∃ entries, ownEntries param = some entries ∧ ∀ entry ∈ entries, entry.1 = param.1 := by
  by_cases hname : param.1 ∈ textNames
  · refine ⟨[param], h.ownEntries_text hread hname, fun entry hentry => ?_⟩
    rw [List.mem_singleton.mp hentry]
  · exact h.others param hread hname

theorem apart (h : link.Clean) {param : Param} (hread : param ∈ link.read) {entries : List Param}
    (hentries : ownEntries param = some entries) : ∀ entry ∈ entries, entry.1 = param.1 := by
  obtain ⟨own, hown, hnames⟩ := h.own hread
  rwa [← Option.some.inj (hown.symm.trans hentries)]

end Clean

/-- The value of a parameter that is shown, in all that is read. -/
theorem lookup_shown {entries : List (List Param)} (hentries : link.read.mapM ownEntries = some entries)
    (hapart : ∀ param ∈ link.read, ∀ own, ownEntries param = some own → ∀ entry ∈ own, entry.1 = param.1)
    {param : Param} (hread : param ∈ link.read) {own : List Param} (hown : ownEntries param = some own) :
    entries.flatten.reverse.lookup param.1 = own.reverse.lookup param.1 :=
  lookup_flatten (Forall₂.mapM_eq_some_iff.mp hentries) hapart link.nodup_read hread hown

theorem kept_of_clean (h : link.Clean) : link.Kept := by
  refine ⟨fun assets result => ?_, fun param hread entries => h.apart hread⟩
  obtain ⟨entries, hblocks⟩ := Forall₂.exists_iff.mpr fun param (hread : param ∈ link.read) =>
    (h.own hread).imp fun own hown => hown.1
  have hentries : link.read.mapM ownEntries = some entries := Forall₂.mapM_eq_some_iff.mpr hblocks
  have hread : ∀ param ∈ link.shown, param ∈ link.read := fun param hparam =>
    mem_read hparam (h.reached param.1 (List.mem_map_of_mem (f := Prod.fst) hparam))
  have hlookup : ∀ param ∈ link.read, ∀ own, ownEntries param = some own →
      entries.flatten.reverse.lookup param.1 = own.reverse.lookup param.1 :=
    fun param hparam own hown => lookup_shown hentries (fun _ hread _ => h.apart hread) hparam hown
  have htext : ∀ param ∈ link.shown, param.1 ∈ textNames →
      entries.flatten.reverse.lookup param.1 = some param.2 := by
    intro param hshown hname
    have hown := h.ownEntries_text (hread param hshown) hname
    rw [hlookup param (hread param hshown) [param] hown, List.reverse_singleton, lookup_cons, if_pos rfl]
  have hlabel := htext (labelName, link.label) (by simp [shown]) (by simp [textNames])
  have hmessage := htext (messageName, link.message) (by simp [shown]) (by simp [textNames])
  have hassetId := htext (assetIdName, link.assetId) (by simp [shown]) (by simp [textNames])
  have hamount := hread (amountName, link.amount) (by simp [shown])
  obtain ⟨own, hown, -⟩ := h.own hamount
  obtain ⟨text, htext, hvalue⟩ := h.amount own hown
  -- the amount may be read from another text that means the same
  have hlast := (hlookup _ hamount own hown).trans htext
  refine ⟨_, link.handleApp2App_eq_some.mpr ⟨entries, hentries, rfl⟩, ?_⟩
  dsimp only at hlast hlabel hmessage hassetId
  rw [hlast, hlabel, hmessage, hassetId]
  exact ⟨rfl, congrArg some hvalue, rfl, rfl, rfl⟩

/-- The page shows only what has been read, and every part of that has one source. -/
theorem clean_of_kept (h : link.Kept) : link.Clean := by
  -- into an empty result, so that what it shows has been read
  obtain ⟨shown, hshown, hkept⟩ := h.shows ∅ {}
  obtain ⟨entries, hentries, rfl⟩ := link.handleApp2App_eq_some.mp hshown
  have hlookup : ∀ param ∈ link.read, ∀ own, ownEntries param = some own →
      entries.flatten.reverse.lookup param.1 = own.reverse.lookup param.1 :=
    fun param hparam own hown => lookup_shown hentries h.apart hparam hown
  have hlabel : entries.flatten.reverse.lookup labelName = some link.label := by
    simpa using hkept.label
  have hmessage : entries.flatten.reverse.lookup messageName = some link.message := by
    simpa using hkept.message
  have hassetId : entries.flatten.reverse.lookup assetIdName = some link.assetId := by
    simpa using hkept.assetId
  obtain ⟨text, hamount, hvalue⟩ : ∃ text, entries.flatten.reverse.lookup amountName = some text ∧
      amountOf text = amountOf link.amount := by
    simpa using hkept.amount
  -- what has been read under a name is from the text of that parameter
  have hreached : ∀ name value, entries.flatten.reverse.lookup name = some value →
      name ∈ link.read.map Prod.fst := by
    intro name value hvalue
    obtain ⟨own, hown, hin⟩ := List.mem_flatten.mp (List.mem_reverse.mp (mem_of_lookup hvalue))
    obtain ⟨param, hread, hparam⟩ := Forall₂.exists_of_mem (Forall₂.mapM_eq_some_iff.mp hentries) hown
    have hname : name = param.1 := h.apart param hread own hparam (name, value) hin
    rw [hname]
    exact List.mem_map_of_mem hread
  have hown : ∀ param ∈ link.read, ∃ own, ownEntries param = some own := by
    intro param hread
    obtain ⟨own, -, hown⟩ := Forall₂.exists_of_mem (Forall₂.mapM_eq_some_iff.mp hentries).flip hread
    exact ⟨own, hown⟩
  have htext : ∀ param ∈ link.shown, param.1 ∈ textNames →
      entries.flatten.reverse.lookup param.1 = some param.2 →
      '&' ∉ param.2 ∧ '#' ∉ param.2 ∧ Plain param.2 := by
    intro param hparam hname hvalue
    have hread := mem_read hparam (hreached param.1 param.2 hvalue)
    obtain ⟨own, hown⟩ := hown param hread
    refine plain_of_lookup (plainName (List.mem_cons_of_mem _ hname)) hown ?_
    rw [← hlookup param hread own hown, hvalue]
  constructor
  · intro text htext'
    simp only [List.mem_cons, List.not_mem_nil, or_false] at htext'
    rcases htext' with rfl | rfl | rfl
    · exact htext (labelName, link.label) (by simp [AppLink.shown]) (by simp [textNames]) hlabel
    · exact htext (messageName, link.message) (by simp [AppLink.shown]) (by simp [textNames]) hmessage
    · exact htext (assetIdName, link.assetId) (by simp [AppLink.shown]) (by simp [textNames]) hassetId
  · intro name hname
    simp only [shownNames, textNames, List.mem_cons, List.not_mem_nil, or_false] at hname
    rcases hname with rfl | rfl | rfl | rfl
    · exact hreached amountName text hamount
    · exact hreached labelName link.label hlabel
    · exact hreached messageName link.message hmessage
    · exact hreached assetIdName link.assetId hassetId
  · intro param hread _
    obtain ⟨own, hown⟩ := hown param hread
    exact ⟨own, hown, h.apart param hread own hown⟩
  · intro own hown
    have hshown : (amountName, link.amount) ∈ link.shown := by simp [AppLink.shown]
    have hread := mem_read hshown (hreached amountName text hamount)
    refine ⟨text, ?_, hvalue⟩
    exact (hlookup (amountName, link.amount) hread own hown).symm.trans hamount

/-- The page gets what the link says exactly if the link is clean. -/
theorem handleApp2App_keeps_iff (link : AppLink uri) : link.Kept ↔ link.Clean :=
  ⟨clean_of_kept, kept_of_clean⟩

end AppLink

namespace Sample

def payUri : Uri where
  scheme := "https".toList
  path := "/app2app/".toList
  query := "addressType=bitcoin&address=abc&amount=1&message=hi&assetid=gold&label=my+shop".toList

/-- The label ends with another asset id. -/
def smugglingUri : Uri where
  scheme := "https".toList
  path := "/app2app/".toList
  query :=
    "addressType=bitcoin&address=abc&amount=1&message=hi&assetid=gold&label=a%26assetid%3Devil".toList

/-- The parameters of both links, apart from the label. -/
def query (label : List Char) : List Param :=
  [("addressType".toList, "bitcoin".toList), ("address".toList, "abc".toList),
    ("amount".toList, "1".toList), ("message".toList, "hi".toList), ("assetid".toList, "gold".toList),
    ("label".toList, label)]

theorem payUri_decoded : queryParameters payUri.query = some (query "my shop".toList) := by
  decide +kernel

theorem smugglingUri_decoded :
    queryParameters smugglingUri.query = some (query "a&assetid=evil".toList) := by
  decide +kernel

theorem alphanumeric_abc : ∀ c ∈ "abc".toList, c.isAlphanum = true := forall_mem_of_all (by decide)

def linkOf (uri : Uri) (label : List Char) (h : queryParameters uri.query = some (query label)) :
    AppLink uri where
  query := query label
  addressType := .bitcoin
  address := "abc".toList
  amount := "1".toList
  label := label
  message := "hi".toList
  assetId := "gold".toList
  decoded := h
  hasType := rfl
  hasAddress := rfl
  hasAmount := rfl
  hasLabel := rfl
  hasMessage := rfl
  hasAssetId := rfl
  alphanumeric := alphanumeric_abc

def payLink : AppLink payUri := linkOf payUri "my shop".toList payUri_decoded

def smugglingLink : AppLink smugglingUri :=
  linkOf smugglingUri "a&assetid=evil".toList smugglingUri_decoded

end Sample

open Ui.Sample in
theorem handleApp2App_keeps_pay : payLink.Kept := by
  have hown : ownEntries (amountName, "1".toList) = some [(amountName, "1".toList)] := by
    decide +kernel
  refine (AppLink.handleApp2App_keeps_iff payLink).mpr ⟨fun text htext => ?_, ?_, ?_, ?_⟩
  · have hall : ∀ text ∈ [payLink.label, payLink.message, payLink.assetId],
        '&' ∉ text ∧ '#' ∉ text ∧ decodeComponent text = some text := by decide +kernel
    obtain ⟨hand, hhash, hdecode⟩ := hall text htext
    exact ⟨hand, hhash, decodeComponent_eq_self_iff.mp hdecode⟩
  · decide +kernel
  · intro param hread hname
    have hamount : ∀ param ∈ payLink.read, param.1 ∉ textNames →
        param = (amountName, "1".toList) := by decide +kernel
    rw [hamount param hread hname]
    exact ⟨_, hown, fun entry hentry => by rw [List.mem_singleton.mp hentry]⟩
  · intro entries hentries
    cases hown.symm.trans hentries
    exact ⟨"1".toList, by decide +kernel, rfl⟩

open Ui.Sample in
/-- The asset id in the label replaces that of the link. -/
theorem handleApp2App_smuggled : ¬ ∀ (uri : Uri) (link : AppLink uri), link.Kept := by
  intro hall
  obtain ⟨shown, hshown, hkept⟩ := (hall smugglingUri smugglingLink).shows ∅ {}
  have hevil : (handleApp2App ∅ {} smugglingUri).map (Option.map QrCodeResult.assetId) =
      some (some (some "evil".toList)) := by decide +kernel
  rw [hshown] at hevil
  have hgold : shown.assetId = some "gold".toList := hkept.assetId
  rw [Option.map_some, Option.map_some, hgold] at hevil
  exact absurd hevil (by decide)

end SideSwap.Ui
