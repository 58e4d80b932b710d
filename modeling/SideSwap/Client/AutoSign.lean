import SideSwap.Client.Reviews

/-!
# Signing without a prompt

A taker's order, and a maker's order with auto-sign, is signed as soon as the server asks for it, if
the terms of the request pass the checks of `try_process_sign`.  `auto_signed_as_agreed`: the order
is then signed for the terms that the user has accepted and edited, or, if it tracks an index, for
terms with the same fixed amount and a price that has changed by at most a tenth.

The stored terms determine their amounts (`Consistent`), and a request with the same price
determines the same ones, so the argument is about prices.  It needs that the stored price has no
minus sign: the check compares `|new - old| / old` with zero.  The worker does not check the price
of an edit.
-/

namespace SideSwap.Client

open History

variable {h : Host}

/-! ### The terms of the user -/

/-- The terms that the user has accepted for an order since the process started, with the edits of
the price that the server has accepted. -/
def terms (X : OrderId) : List Event → Option SubmitData
  | [] => none
  | .started :: _ => none
  | .stored s :: older => if s.orderId = X then some s else terms X older
  | .request (.edit Y (some price) _) (.ok _) :: older =>
    if Y = X then (terms X older).map fun s => (s.edit price).getD s else terms X older
  | _ :: older => terms X older

/-- The stored terms, without the id of the transaction that is added when the order is complete. -/
def SubmitData.open_ (s : SubmitData) : SubmitData := { s with txid := none }

/-- A request for a signature does not touch what the order type fixes, and changes the price by at
most a tenth. -/
def sameDeal (s : SubmitData) (details : Details) : Bool :=
  decide (s.asset = details.asset ∧ s.sellBitcoin = details.sendBitcoins
    ∧ s.orderType = details.orderType)
  && (match s.orderType with
    | .bitcoin => decide (s.bitcoinAmount = details.bitcoinAmount ∧ s.serverFee = details.serverFee)
    | .asset => decide (s.assetAmount = details.assetAmount))
  && (priceChange details s).le (F64.lit 1 10)

/-- What `before` and the request allow to sign. -/
def keepsDeal (liquid : AssetId) (before : SubmitData) (precision : ℕ) (details : Details) : Bool :=
  if before.side = .responder ∨ before.indexPrice = false then
    decide (precision = before.assetPrecision →
      (before.update details).psbtInfo liquid = before.psbtInfo liquid)
  else sameDeal before details

/-- An order that is signed without a prompt is signed as the user has agreed to. -/
def asAgreed (liquid : AssetId) : Event → List Event → Bool
  | .trySign (.auto before precision) m, older =>
    decide (terms m.orderId older = some before.open_) && keepsDeal liquid before precision m.details
  | .signPsbt (.order (.auto before precision) X) info _ _ _,
      .utxosTaken _ _ :: .trySign _ m :: older =>
    decide (terms X older = some before.open_) && keepsDeal liquid before precision m.details
      && decide (info = (before.update m.details).psbtInfo liquid)
  | .signPsbt (.order (.auto ..) _) _ _ _ _, _ => false
  | _, _ => true

/-- An order that is signed without a prompt is signed as agreed. -/
def AsAgreed (liquid : AssetId) (e : Event) (older : List Event) : Prop :=
  asAgreed liquid e older = true

instance (liquid : AssetId) (e : Event) (older : List Event) : Decidable (AsAgreed liquid e older) :=
  inferInstanceAs (Decidable (asAgreed liquid e older = true))

/-- The price of an order with auto-sign is not edited to a negative one. -/
def EditsUnsigned (h : Host) (w : World) (msg : Message) : Prop :=
  ∀ X price s, msg = .ui (.editOrder ⟨X, some (.price price)⟩) →
    h.server w.calls (.edit X (some price) none) = .ok () → w.core.submitData[X]? = some s →
      s.autoSign = true → price.Unsigned

/-! ### Prices determine amounts -/

/-- The amounts of the stored terms follow from the price and the precision. -/
structure Determined (s : SubmitData) : Prop where
  fee : s.serverFee = getServerFee s.bitcoinAmount
  bitcoin : s.orderType = .bitcoin →
    assetAmount s.bitcoinAmount s.price s.assetPrecision = some s.assetAmount
  asset : s.orderType = .asset →
    bitcoinAmount s.assetAmount s.price s.assetPrecision = some s.bitcoinAmount

/-- The amounts follow from the price, which has no minus sign if the order has auto-sign. -/
structure Consistent (s : SubmitData) : Prop extends Determined s where
  price : s.autoSign = true → s.price.Unsigned

/-- Terms from a verified link are determined by their price. -/
theorem Verified.determined_submitData {precision : ℕ} {resp : LinkResponse}
    (hv : Verified precision resp.details) (X : OrderId) (txouts : Finset TxOut) (autoSign : Bool) :
    Determined (LinkResponse.submitData resp X precision txouts autoSign) :=
  ⟨hv.fee, hv.bitcoin, hv.asset⟩

/-- Terms from a verified sign request are, too. -/
theorem Verified.determined_restored {precision : ℕ} {details : Details}
    (hv : Verified precision details) (X : OrderId) : Determined (restoredData X details precision) :=
  ⟨hv.fee, hv.bitcoin, hv.asset⟩

/-- So are terms after an edit. -/
theorem Determined.edit {s s' : SubmitData} {price : F64} (hs : Determined s)
    (hedit : s.edit price = some s') : Determined s' := by
  unfold SubmitData.edit at hedit
  split at hedit
  · rename_i htype
    obtain ⟨amount, hamount, hs'⟩ := Option.bind_eq_some_iff.mp hedit
    obtain rfl := Option.some.inj hs'
    refine ⟨hs.fee, fun _ => hamount, fun h => ?_⟩
    cases htype.symm.trans h
  · rename_i htype
    obtain ⟨amount, hamount, hs'⟩ := Option.bind_eq_some_iff.mp hedit
    obtain rfl := Option.some.inj hs'
    refine ⟨rfl, fun h => ?_, fun _ => hamount⟩
    cases htype.symm.trans h

/-- An edit changes the price and amounts only. -/
theorem SubmitData.edit_kept {s s' : SubmitData} {price : F64} (hedit : s.edit price = some s') :
    s'.price = price ∧ s'.autoSign = s.autoSign ∧ s'.side = s.side := by
  unfold SubmitData.edit at hedit
  split at hedit
  · obtain ⟨amount, -, hs'⟩ := Option.bind_eq_some_iff.mp hedit
    obtain rfl := Option.some.inj hs'
    exact ⟨rfl, rfl, rfl⟩
  · obtain ⟨amount, -, hs'⟩ := Option.bind_eq_some_iff.mp hedit
    obtain rfl := Option.some.inj hs'
    exact ⟨rfl, rfl, rfl⟩

/-- An edit keeps the terms consistent, if its price is not negative. -/
theorem Consistent.edit {s s' : SubmitData} {price : F64} (hs : Consistent s)
    (hprice : s.autoSign = true → price.Unsigned) (hedit : s.edit price = some s') :
    Consistent s' := by
  obtain ⟨hprice', hauto, -⟩ := SubmitData.edit_kept hedit
  refine ⟨hs.toDetermined.edit hedit, ?_⟩
  rw [hprice', hauto]
  exact hprice

/-- A request with the stored price leaves the stored terms as they are. -/
theorem Determined.update_eq {s : SubmitData} {details : Details} {precision : ℕ}
    (hs : Determined s) (hv : Verified precision details) (ha : Agrees s details)
    (hprecision : precision = s.assetPrecision) (hprice : details.price = s.price) :
    s.update details = s := by
  have hamounts : details.bitcoinAmount = s.bitcoinAmount ∧ details.assetAmount = s.assetAmount := by
    cases htype : s.orderType with
    | bitcoin =>
      have hbitcoin := (ha.bitcoin htype).2
      have hdetails := hv.bitcoin (ha.orderType ▸ htype)
      rw [← hbitcoin, hprice, hprecision, hs.bitcoin htype] at hdetails
      exact ⟨hbitcoin.symm, (Option.some.inj hdetails).symm⟩
    | asset =>
      have hasset := ha.amount htype
      have hdetails := hv.asset (ha.orderType ▸ htype)
      rw [← hasset, hprice, hprecision, hs.asset htype] at hdetails
      exact ⟨(Option.some.inj hdetails).symm, hasset.symm⟩
  have hfee : details.serverFee = s.serverFee := by rw [hv.fee, hs.fee, hamounts.1]
  rw [SubmitData.update, hprice, hamounts.1, hamounts.2, hfee]

/-- Auto-sign is for takers, whose price has not changed, and for makers who allow it. -/
theorem autoSign_of_allowed {s : SubmitData} {details : Details}
    (hallowed : autoSignAllowed details s = true) :
    s.side = .responder ∨ s.side = .requestor ∧ s.autoSign = true ∧
      (priceChange details s).le (if s.indexPrice then F64.lit 1 10 else F64.zero false) = true := by
  simpa [autoSignAllowed, and_assoc] using hallowed

/-- What is signed without a prompt keeps the deal. -/
theorem keepsDeal_of_signable {liquid : AssetId} {s : SubmitData} {m : SignNotification}
    {precision : ℕ} (hs : Consistent s) (hsignable : Signable precision s m)
    (hallowed : autoSignAllowed m.details s = true) :
    keepsDeal liquid s precision m.details = true := by
  have hagrees := hsignable.agrees
  have hpos := hsignable.verified.price
  unfold keepsDeal
  -- for a taker or a fixed price the terms have not changed at all
  by_cases hfixed : s.side = .responder ∨ s.indexPrice = false
  · rw [if_pos hfixed, decide_eq_true_eq]
    intro hprecision
    have hprice : m.details.price = s.price := by
      rcases autoSign_of_allowed hallowed with hside | ⟨hside, hauto, hle⟩
      · have hzero := hagrees.price.resolve_right fun hne => hne hside
        exact F64.eq_of_relative_eq_zero hpos hzero
      · have hindex : s.indexPrice = false := by
          rcases hfixed with hresponder | hindex
          · rw [hside] at hresponder
            cases hresponder
          · exact hindex
        rw [hindex, if_neg Bool.false_ne_true] at hle
        exact F64.eq_of_relative_le_zero hpos (hs.price hauto) hle
    rw [hs.toDetermined.update_eq hsignable.verified hagrees hprecision hprice]
  · -- an order of the maker that follows an index may have moved by a tenth
    rw [if_neg hfixed]
    rw [not_or, Bool.not_eq_false] at hfixed
    obtain ⟨hside, hindex⟩ := hfixed
    obtain ⟨-, -, hle⟩ := (autoSign_of_allowed hallowed).resolve_left hside
    rw [hindex, if_pos rfl] at hle
    have hdeal : s.asset = m.details.asset ∧ s.sellBitcoin = m.details.sendBitcoins
        ∧ s.orderType = m.details.orderType := ⟨hagrees.asset, hagrees.direction, hagrees.orderType⟩
    rw [sameDeal, hle, Bool.and_true, decide_eq_true hdeal, Bool.true_and]
    -- the fixed amount is the same in either case
    cases htype : s.orderType with
    | bitcoin => exact decide_eq_true (hagrees.bitcoin htype).symm
    | asset => exact decide_eq_true (hagrees.amount htype)

/-! ### The stored terms are those of the user -/

/-- The order may be signed without a prompt. -/
def SubmitData.Auto (s : SubmitData) : Prop := s.side = .responder ∨ s.autoSign = true

/-- Only the open terms matter. -/
theorem Determined.of_open {s s₀ : SubmitData} (hopen : s₀.open_ = s.open_) (hs : Determined s₀) :
    Determined s := by
  have h₀ : Determined s₀.open_ := ⟨hs.fee, hs.bitcoin, hs.asset⟩
  have h : Determined s.open_ := hopen ▸ h₀
  exact ⟨h.fee, h.bitcoin, h.asset⟩

/-- Only the open terms matter. -/
theorem Consistent.of_open {s s₀ : SubmitData} (hopen : s₀.open_ = s.open_) (hs : Consistent s₀) :
    Consistent s := by
  have hprice : s₀.open_.autoSign = true → s₀.open_.price.Unsigned := hs.price
  rw [hopen] at hprice
  exact ⟨hs.toDetermined.of_open hopen, hprice⟩

/-- An edit does not change how an order is signed. -/
theorem SubmitData.auto_edit {s s' : SubmitData} {price : F64} (hedit : s.edit price = some s') :
    s'.Auto ↔ s.Auto := by
  obtain ⟨-, hauto, hside⟩ := SubmitData.edit_kept hedit
  rw [SubmitData.Auto, hauto, hside, SubmitData.Auto]

/-- An edit does not depend on the transaction. -/
theorem SubmitData.edit_open (s : SubmitData) (price : F64) :
    s.open_.edit price = (s.edit price).map SubmitData.open_ := by
  unfold SubmitData.edit
  cases htype : s.orderType with
  | bitcoin =>
    simp only [SubmitData.open_, htype]
    cases SideSwap.assetAmount s.bitcoinAmount price s.assetPrecision <;> rfl
  | asset =>
    simp only [SubmitData.open_, htype]
    cases SideSwap.bitcoinAmount s.assetAmount price s.assetPrecision <;> rfl

theorem terms_cons_of_orderFree {e : Event} (he : e.orderFree = true) (X : OrderId)
    (older : List Event) : terms X (e :: older) = terms X older := by
  rw [terms.eq_def]
  split <;> simp_all [Event.orderFree]

/-- Events that do not concern orders keep the terms. -/
theorem terms_append {events older : List Event} (hfree : ∀ e ∈ events, e.orderFree = true)
    (X : OrderId) : terms X (events ++ older) = terms X older := by
  induction events with
  | nil => rfl
  | cons e events ih =>
    rw [List.cons_append, terms_cons_of_orderFree (hfree e List.mem_cons_self)]
    exact ih fun e' he' => hfree e' (List.mem_cons_of_mem _ he')

/-- The events of a signature without a prompt. -/
def Event.autoSigns : Event → Bool
  | .trySign (.auto ..) _ | .signPsbt (.order (.auto ..) _) .. => true
  | _ => false

theorem Event.autoSigns_of_orderFree {e : Event} (he : e.orderFree = true) : e.autoSigns = false := by
  unfold Event.autoSigns
  split <;> simp_all [Event.orderFree]

/-- What has to be shown of a property `K` of the stored terms and a property `H` of the history,
such that both hold in every run. -/
structure DealRules (liquid : AssetId) (K : SubmitData → Prop) (H : Event → List Event → Prop) :
    Prop where
  of_open : ∀ {s s₀ : SubmitData}, s₀.open_ = s.open_ → K s₀ → K s
  submitted : ∀ {precision : ℕ} {resp : LinkResponse} (X : OrderId) (txouts : Finset TxOut)
    (autoSign : Bool), Verified precision resp.details →
      K (LinkResponse.submitData resp X precision txouts autoSign)
  restored : ∀ {precision : ℕ} {details : Details} (X : OrderId), Verified precision details →
    K (restoredData X details precision)
  other : ∀ {e : Event} (older : List Event), e.autoSigns = false → H e older
  begun : ∀ {s : SubmitData} {m : SignNotification} {precision : ℕ} {older : List Event}, K s →
    terms m.orderId older = some s.open_ → Signable precision s m →
      autoSignAllowed m.details s = true → H (.trySign (.auto s precision) m) older
  signed : ∀ {s : SubmitData} {m : SignNotification} {precision : ℕ} {older : List Event}
    (side : OrderSide) (utxos : List Utxo) (signed : Option String),
      H (.trySign (.auto s precision) m) older →
      H (.signPsbt (.order (.auto s precision) m.orderId) ((s.update m.details).psbtInfo liquid) utxos
          m.pset signed)
        (.utxosTaken side m.orderId :: .trySign (.auto s precision) m :: older)

/-- Until its sign request, `K` holds of the stored terms of an order, and they are those of the
user if the order may be signed without a prompt. -/
structure DealInv (K : SubmitData → Prop) (H : Event → List Event → Prop) (c : Core) : Prop where
  known : ∀ (X : OrderId) s, X ∉ c.processedSigns → c.submitData[X]? = some s → K s
  agreed : ∀ (X : OrderId) s, X ∉ c.processedSigns → c.submitData[X]? = some s → s.Auto →
    terms X c.log = some s.open_
  history : Always H c.log

section Deals

variable {liquid : AssetId} {K : SubmitData → Prop} {H : Event → List Event → Prop}

/-- What leaves the terms of the orders that are not processed alone, up to their transactions. -/
theorem DealInv.keep {c c' : Core} (hrules : DealRules liquid K H) (hI : DealInv K H c)
    (hprocessed : c.processedSigns ⊆ c'.processedSigns)
    (hterms : ∀ (X : OrderId) s, X ∉ c'.processedSigns → c'.submitData[X]? = some s →
      ∃ s₀, c.submitData[X]? = some s₀ ∧ s₀.open_ = s.open_)
    (hlog : ∀ X, terms X c'.log = terms X c.log) (hhistory : Always H c'.log) : DealInv K H c' := by
  refine ⟨?_, ?_, hhistory⟩
  · intro X s hX hs
    obtain ⟨s₀, hs₀, hopen⟩ := hterms X s hX hs
    exact hrules.of_open hopen (hI.known X s₀ (fun h => hX (hprocessed h)) hs₀)
  · intro X s hX hs hauto
    obtain ⟨s₀, hs₀, hopen⟩ := hterms X s hX hs
    have hauto₀ : s₀.open_.Auto := by
      rw [hopen]
      exact hauto
    rw [hlog, ← hopen]
    exact hI.agreed X s₀ (fun h => hX (hprocessed h)) hs₀ hauto₀

/-- Where neither the terms nor what is told of them changes. -/
theorem DealInv.same {c c' : Core} (hI : DealInv K H c)
    (hprocessed : c.processedSigns ⊆ c'.processedSigns) (hterms : c'.submitData = c.submitData)
    (hlog : ∀ X, terms X c'.log = terms X c.log) (hhistory : Always H c'.log) : DealInv K H c' := by
  refine ⟨?_, ?_, hhistory⟩
  · intro X s hX hs
    exact hI.known X s (fun h => hX (hprocessed h)) (hterms ▸ hs)
  · intro X s hX hs
    rw [hlog]
    exact hI.agreed X s (fun h => hX (hprocessed h)) (hterms ▸ hs)

/-- What stores new terms of an order that is processed with them. -/
theorem DealInv.process {c c' : Core} {X : OrderId} {s : SubmitData} (hrules : DealRules liquid K H)
    (hI : DealInv K H c) (hprocessed : c'.processedSigns = insert X c.processedSigns)
    (hterms : c'.submitData = c.submitData.insert X s) (hlog : ∀ Y, terms Y c'.log = terms Y c.log)
    (hhistory : Always H c'.log) : DealInv K H c' := by
  refine hI.keep hrules (hprocessed ▸ Finset.subset_insert _ _) ?_ hlog hhistory
  intro Y s' hY hs'
  have hne : Y ≠ X := by
    rintro rfl
    exact hY (hprocessed ▸ Finset.mem_insert_self _ _)
  rw [hterms] at hs'
  exact ⟨s', lookup_store_of_ne hne hs', rfl⟩

/-- What stores terms of which `K` holds, and which are those of the user if this matters. -/
theorem DealInv.store {c c' : Core} {X : OrderId} {s : SubmitData} (hI : DealInv K H c) (hs : K s)
    (hauto : s.Auto → terms X c'.log = some s.open_)
    (hprocessed : c'.processedSigns = c.processedSigns)
    (hterms : c'.submitData = c.submitData.insert X s)
    (hlog : ∀ Y, Y ≠ X → terms Y c'.log = terms Y c.log) (hhistory : Always H c'.log) :
    DealInv K H c' := by
  -- one lookup decides both fields
  have hlookup : ∀ (Y : OrderId) s', c'.submitData[Y]? = some s' →
      Y = X ∧ s' = s ∨ Y ≠ X ∧ c.submitData[Y]? = some s' := by
    intro Y s' hs'
    rw [hterms, Map.lookup_insert] at hs'
    by_cases hY : X = Y
    · rw [if_pos hY] at hs'
      exact .inl ⟨hY.symm, (Option.some.inj hs').symm⟩
    · rw [if_neg hY] at hs'
      exact .inr ⟨Ne.symm hY, hs'⟩
  refine ⟨?_, ?_, hhistory⟩
  · intro Y s' hY hs'
    rcases hlookup Y s' hs' with ⟨rfl, rfl⟩ | ⟨hne, hs'⟩
    · exact hs
    · exact hI.known Y s' (hprocessed ▸ hY) hs'
  · intro Y s' hY hs' hauto'
    rcases hlookup Y s' hs' with ⟨rfl, rfl⟩ | ⟨hne, hs'⟩
    · exact hauto hauto'
    · rw [hlog Y hne]
      exact hI.agreed Y s' (hprocessed ▸ hY) hs' hauto'

/-- A new process has no terms. -/
theorem DealInv.of_empty {c : Core} (hempty : c.submitData = ∅) (hhistory : Always H c.log) :
    DealInv K H c := by
  have hnone : ∀ (X : OrderId) s, c.submitData[X]? ≠ some s := by
    intro X s hs
    rw [hempty, Map.lookup_empty] at hs
    cases hs
  exact ⟨fun X s _ hs => absurd hs (hnone X s), fun X s _ hs => absurd hs (hnone X s), hhistory⟩

/-- A calm step keeps the invariant. -/
theorem DealInv.calm {c c' : Core} (hrules : DealRules liquid K H) (hc : OrderCalm c c')
    (hI : DealInv K H c) : DealInv K H c' := by
  obtain ⟨events, hlog, hfree⟩ := hc.log
  refine hI.same (Finset.subset_of_eq hc.processedSigns.symm) hc.submitData ?_ ?_
  · intro X
    rw [hlog, terms_append hfree]
  · rw [hlog]
    exact hI.history.append fun e he older =>
      hrules.other older (Event.autoSigns_of_orderFree (hfree e he))

/-- The terms of the user after an edit of the price. -/
theorem terms_edit_self (X : OrderId) (price : F64) (older : List Event) :
    terms X (.request (.edit X (some price) none) (.ok ()) :: older) =
      (terms X older).map fun s => (s.edit price).getD s :=
  if_pos rfl

/-- An edit concerns its own order. -/
theorem terms_edit_of_ne {X Y : OrderId} (price : F64) (older : List Event) (hne : Y ≠ X) :
    terms Y (.request (.edit X (some price) none) (.ok ()) :: older) = terms Y older :=
  if_neg hne.symm

/-- An edit keeps the invariant, if the edited terms have the property. -/
theorem DealInv.edited {c : Core} {X : OrderId} {price : F64} (hrules : DealRules liquid K H)
    (hI : DealInv K H c)
    (hedits : ∀ s s', c.submitData[X]? = some s → K s → s.edit price = some s' → K s') :
    DealInv K H ((c.edit X price).record (.request (.edit X (some price) none) (.ok ()))) := by
  refine ⟨?_, ?_, .cons (hrules.other _ rfl) hI.history⟩
  · intro Y s' hY hs'
    rcases Core.lookup_edit hs' with hs | ⟨s, rfl, hs, hedit⟩
    · exact hI.known Y s' hY hs
    · exact hedits s s' hs (hI.known X s hY hs) hedit
  · intro Y s' hY hs' hauto
    show terms Y (.request (.edit X (some price) none) (.ok ()) :: c.log) = some s'.open_
    -- the edit changes the stored terms and the terms of the log alike
    by_cases hX : X = Y
    · subst hX
      rw [terms_edit_self]
      unfold Core.edit Core.record at hs'
      cases hs : c.submitData[X]? with
      | none =>
        simp only [hs, Option.bind_none] at hs'
        cases hs'
      | some s =>
        simp only [hs, Option.bind_some] at hs'
        cases hedit : s.edit price with
        | none =>
          simp only [hedit] at hs'
          obtain rfl : s = s' := Option.some.inj (hs.symm.trans hs')
          rw [hI.agreed X s hY hs hauto, Option.map_some, s.edit_open, hedit]
          rfl
        | some s₁ =>
          simp only [hedit, Map.lookup_insert, if_pos] at hs'
          obtain rfl : s₁ = s' := Option.some.inj hs'
          rw [hI.agreed X s hY hs ((SubmitData.auto_edit hedit).mp hauto), Option.map_some, s.edit_open, hedit]
          rfl
    · rw [terms_edit_of_ne price c.log (Ne.symm hX)]
      rcases Core.lookup_edit hs' with hs | ⟨s, rfl, -⟩
      · exact hI.agreed Y s' hY hs hauto
      · exact absurd rfl hX

theorem terms_stored_self (s : SubmitData) (older : List Event) :
    terms s.orderId (.stored s :: older) = some s :=
  if_pos rfl

theorem DealInv.autoSigned {c : Core} {s : SubmitData} {precision : ℕ} {m : SignNotification}
    (hrules : DealRules liquid K H) (hI : DealInv K H c) (hnew : m.orderId ∉ c.processedSigns)
    (hterms : c.submitData[m.orderId]? = some s) (hsignable : Signable precision s m)
    (hallowed : autoSignAllowed m.details s = true) : H (.trySign (.auto s precision) m) c.log := by
  have hauto : s.Auto := by
    rcases autoSign_of_allowed hallowed with hside | ⟨-, hauto, -⟩
    · exact .inl hside
    · exact .inr hauto
  have hagreed := hI.agreed m.orderId s hnew hterms hauto
  exact hrules.begun (hI.known m.orderId s hnew hterms) hagreed hsignable hallowed

theorem DealInv.orderSigned {w₀ : World} {msg : Message} {c : Core} {cause : SignCause}
    {m : SignNotification} {s : SubmitData} {older : List Event} {side : OrderSide}
    (hrules : DealRules liquid K H) (hI : DealInv K H c)
    (hlog : c.log = .utxosTaken side m.orderId :: .trySign cause m :: older)
    (hreason : SignReason w₀ msg cause m older s) (utxos : List Utxo) (signed : Option String) :
    H (.signPsbt (.order cause m.orderId) (s.psbtInfo liquid) utxos m.pset signed) c.log := by
  cases hreason with
  | decision => exact hrules.other _ rfl
  | auto hsignable hallowed =>
    -- the terms were checked when the signature began
    have hhistory := hI.history
    rw [hlog] at hhistory ⊢
    have hbegin := (always_cons.mp (always_cons.mp hhistory).2).1
    exact hrules.signed side utxos signed hbegin

/-- The moves keep the invariant, if the edits of the price do. -/
theorem DealInv.move {w : World} {msg : Message} {c c' : Core} (hrules : DealRules h.liquidAssetId K H)
    (hedits : ∀ X price s s', msg = .ui (.editOrder ⟨X, some (.price price)⟩) →
      h.server w.calls (.edit X (some price) none) = .ok () → w.core.submitData[X]? = some s →
      K s → s.edit price = some s' → K s')
    (hm : OrderMove h (w.record (.received msg)) msg c c') (hI : DealInv K H c) : DealInv K H c' := by
  have hother : ∀ {e : Event}, e.autoSigns = false → Always H (e :: c.log) :=
    fun he => .cons (hrules.other _ he) hI.history
  cases hm
  case submitted resp r older precision txouts autoSign hsubmits hverified hauto hlog hsince hnoSign =>
    refine hI.store (hrules.submitted r.orderId txouts autoSign hverified) ?_ rfl rfl ?_ (hother rfl)
    · exact fun _ => terms_stored_self _ c.log
    · exact fun Y hne => if_neg hne.symm
  case restored details precision X hnew habsent hverified hfetched =>
    refine hI.store (hrules.restored X hverified) ?_ rfl rfl (fun _ _ => rfl) hI.history
    -- restored terms are those of a maker's order without auto-sign
    rintro (hside | hauto)
    · cases hside
    · cases hauto
  case edited X price hmsg hanswer hstart =>
    subst hstart
    exact hI.edited hrules fun s s' hs => hedits X price s s' hmsg hanswer hs
  case signQueued => exact hI.process hrules rfl rfl (fun _ => rfl) (hother rfl)
  case autoSigned s precision m hnew hterms hsignable hallowed =>
    have hbegun := hI.autoSigned hrules hnew hterms hsignable hallowed
    exact hI.process hrules rfl rfl (fun _ => rfl) (.cons hbegun hI.history)
  case orderSigned cause m s older side utxos signed hlog hreason =>
    have hsigned := hI.orderSigned hrules hlog hreason utxos signed
    exact hI.same (Finset.Subset.refl _) rfl (fun _ => rfl) (.cons hsigned hI.history)
  case completed s X txid hterms =>
    refine hI.keep hrules (Finset.Subset.refl _) ?_ (fun _ => rfl) hI.history
    intro Y s' _ hs'
    have hs' : (c.submitData.insert X { s with txid := some txid })[Y]? = some s' := hs'
    rw [Map.lookup_insert] at hs'
    by_cases hX : X = Y
    · rw [if_pos hX] at hs'
      obtain rfl := Option.some.inj hs'
      exact ⟨s, hX ▸ hterms, rfl⟩
    · rw [if_neg hX] at hs'
      exact ⟨s', hs', rfl⟩
  case cancelled X =>
    refine hI.keep hrules (Finset.Subset.refl _) ?_ (fun _ => rfl) hI.history
    intro Y s' _ hs'
    have hs' : (c.submitData.erase X)[Y]? = some s' := hs'
    rw [Map.lookup_erase] at hs'
    split at hs'
    · cases hs'
    · exact ⟨s', hs', rfl⟩
  case linkReviewed | addrSent | reqTaken | respTaken | promptShown | signTaken =>
    exact hI.same (Finset.Subset.refl _) rfl (fun _ => rfl) (hother rfl)
  case signRefused =>
    exact hI.same (Finset.subset_insert _ _) rfl (fun _ => rfl) hI.history
  case submitTaken | reqStored | respStored | reqErased | respErased | promptDropped =>
    exact hI.same (Finset.Subset.refl _) rfl (fun _ => rfl) hI.history

end Deals

/-- The invariant over the runs whose edits keep `K`. -/
theorem DealRules.invariant {K : SubmitData → Prop} {H : Event → List Event → Prop}
    {C : World → Message → Prop} (hrules : DealRules h.liquidAssetId K H)
    (hedits : ∀ w msg, C w msg → ∀ X price s s', msg = .ui (.editOrder ⟨X, some (.price price)⟩) →
      h.server w.calls (.edit X (some price) none) = .ok () → w.core.submitData[X]? = some s →
      K s → s.edit price = some s' → K s') :
    CoreInvariant h C (DealInv K H) :=
  .of_order (fun _ _ hc => DealInv.calm hrules hc)
    (fun w msg _ _ hC _ hm => DealInv.move hrules (hedits w msg hC) hm)
    fun _ _ _ hI => .of_empty rfl (.cons (hrules.other _ rfl) hI.history)

/-- Consistent terms, and signatures as the user has agreed to. -/
theorem agreedRules (liquid : AssetId) : DealRules liquid Consistent (AsAgreed liquid) where
  of_open := fun hopen hs => hs.of_open hopen
  submitted := fun X txouts autoSign hv =>
    ⟨hv.determined_submitData X txouts autoSign, fun _ => F64.unsigned_of_pos hv.price⟩
  restored := fun X hv => ⟨hv.determined_restored X, fun _ => F64.unsigned_of_pos hv.price⟩
  other := by
    intro e older he
    unfold AsAgreed asAgreed
    split <;> simp_all [Event.autoSigns]
  begun := by
    intro s m precision older hs hagreed hsignable hallowed
    have hdeal : keepsDeal liquid s precision m.details = true :=
      keepsDeal_of_signable hs hsignable hallowed
    show (decide (terms m.orderId older = some s.open_) && keepsDeal liquid s precision m.details) = true
    rw [decide_eq_true hagreed, hdeal, Bool.and_true]
  signed := by
    intro s m precision older side utxos signed hbegin
    show (_ && decide _) = true
    rw [decide_eq_true rfl, Bool.and_true]
    exact hbegin

/-- In every run in which no order with auto-sign gets a negative price by an edit, an order that is
signed without a prompt is signed as the user has agreed to. -/
theorem auto_signed_as_agreed (h : Host) (xs : List (Feed Message))
    (hC : (machine h).Along (EditsUnsigned h) (start h) xs) :
    Always (AsAgreed h.liquidAssetId) ((machine h).run (start h) xs).state.log := by
  have hI : CoreInvariant h (EditsUnsigned h) (DealInv Consistent (AsAgreed h.liquidAssetId)) :=
    (agreedRules h.liquidAssetId).invariant fun w msg hC X price s s' hmsg hanswer hs hconsistent =>
      hconsistent.edit fun hauto => hC X price s hmsg hanswer hs hauto
  exact (run_core_invariant hI (.of_empty rfl .nil) hC).history

namespace Sample

/-- The user edits the price of an order with auto-sign, and then its signature is asked for. -/
def editedOrder (price : F64) (details : Details) : List (Feed Message) :=
  synced ++ [.deliver (linkOrder order), .deliver (decision order true true),
    .deliver (editPrice order price), .deliver (.serverNotification (.sign ⟨order, "pset", details⟩))]

/-- The terms at half of the price. -/
def halfPrice : Details := { details .requestor with price := F64.lit 1 2, assetAmount := 500000 }

end Sample

open Sample in
theorem auto_signed_as_agreed_gold :
    (machine orderHost).Along (EditsUnsigned orderHost) (start orderHost)
        (editedOrder (F64.lit 1 2) halfPrice) ∧
      Always (AsAgreed orderHost.liquidAssetId) ((machine orderHost).run (start orderHost)
        (editedOrder (F64.lit 1 2) halfPrice)).state.log := by
  have hC : (machine orderHost).Along (EditsUnsigned orderHost) (start orderHost)
      (editedOrder (F64.lit 1 2) halfPrice) := by
    refine Machine.along_of_mem _ ?_
    rintro i hi w X price s rfl _ _ _
    have hprice : price = F64.lit 1 2 := by
      simp [editedOrder, synced, online, linkOrder, decision, editPrice] at hi
      exact hi.2
    exact F64.unsigned_of_eq_lit hprice
  have hsafe := auto_signed_as_agreed orderHost (editedOrder (F64.lit 1 2) halfPrice) hC
  exact And.intro hC hsafe

open Sample in
/-- The price of an order with auto-sign is edited to a negative one: the wallet then signs the
order without a prompt for any price that the server names. -/
theorem auto_signed_after_negative_edit :
    ¬ ∀ (h : Host) (xs : List (Feed Message)),
      Always (AsAgreed h.liquidAssetId) ((machine h).run (start h) xs).state.log := by
  intro hall
  have hrun := hall orderHost (editedOrder (-F64.lit 1 1) halfPrice)
  revert hrun
  decide +kernel

end SideSwap.Client
