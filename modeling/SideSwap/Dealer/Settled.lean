import SideSwap.Dealer.SignsOffers

/-!
# The own order settles

While the prices, the balances and the limits stay as they are and the server accepts every request,
the calls of `updatePrice` for one ticker and side come to rest: an order that does not fit is
cancelled, one order is submitted, and nothing is asked after that (`ticks_settle`).

The order is submitted with the normal amount and kept as long as it is at most the largest amount.
It is therefore kept because the first is at most the second (`getBitcoinAmount_mono`), which leaves
no reserve of the asset.
-/

namespace SideSwap.Dealer

/-! ### The two amounts -/

/-- Only a positive amount rounds to a positive one. -/
theorem pos_of_fromBitcoin_pos {q : ℚ} (h : 0 < fromBitcoin q) : 0 < q := by
  by_contra hq
  have hle : fromBitcoin q ≤ fromBitcoin 0 := fromBitcoin_mono (not_lt.mp hq)
  have hzero : fromBitcoin 0 = 0 := by norm_num [fromBitcoin, roundAway]
  omega

/-- A positive share of the asset is less than all of it. -/
theorem downscale_le {amount price : ℚ} (h : 0 < amount * (1 / (1 + extraAssetUtxoFraction)) / price) :
    amount * (1 / (1 + extraAssetUtxoFraction)) / price ≤ amount * 1 / price := by
  set d : ℚ := 1 / (1 + extraAssetUtxoFraction) with hd
  have hpos : 0 < d := by norm_num [hd, extraAssetUtxoFraction]
  have hone : d ≤ 1 := by norm_num [hd, extraAssetUtxoFraction]
  have hsplit : amount * d / price = amount / price * d := by ring
  rw [hsplit] at h ⊢
  have hwhole : 0 < amount / price := pos_of_mul_pos_left h hpos.le
  rw [mul_one]
  exact mul_le_of_le_one_right hwhole.le hone

/-- A positive amount with a reserve is at most the amount without. -/
theorem getBitcoinAmount_mono {all : AllBalances} {ticker : DealerTicker} {price : ℚ}
    {sendBitcoins : Bool} (h : 0 < getBitcoinAmount all ticker price sendBitcoins false) :
    getBitcoinAmount all ticker price sendBitcoins false
      ≤ getBitcoinAmount all ticker price sendBitcoins true := by
  unfold getBitcoinAmount at h ⊢
  dsimp only at h ⊢
  cases sendBitcoins with
  | true =>
    simp only [if_true, Bool.false_eq_true, if_false] at h ⊢
    have hpos := pos_of_fromBitcoin_pos h
    rw [lt_min_iff, lt_min_iff] at hpos
    apply fromBitcoin_mono
    exact min_le_min_right _ (min_le_min_left _ (downscale_le hpos.1.2))
  | false =>
    simp only [if_true, Bool.false_eq_true, if_false] at h ⊢
    have hpos := pos_of_fromBitcoin_pos h
    rw [lt_min_iff, lt_min_iff] at hpos
    apply fromBitcoin_mono
    exact min_le_min (min_le_min_right _ (downscale_le hpos.1.1)) (downscale_le hpos.2)

/-! ### Ticks that change nothing else -/

/-- The server accepts every request, and the coins for a new order are there. -/
structure Replies.Accepting (params : Params) (utxos : Utxos) (r : Replies) : Prop where
  submit : ∃ orderId details txouts, r.submit = some (orderId, details)
    ∧ getPset params details utxos true = .ok txouts
  addr : r.addr = true
  edit : r.edit = true
  cancel : r.cancel = true

/-- The slot at the next tick: an order that was cancelled has completed. -/
def afterCompletion (own : Option OwnOrder) (trace : List Exchange) : Option OwnOrder :=
  own.filter fun o => .cancel o.orderId true ∉ trace

/-- What is asked tick after tick. -/
def ticks (params : Params) (assets : List Asset) (indexPrices : IndexPrices) (all : AllBalances)
    (utxos : Utxos) (key : OwnOrderKey) : Option OwnOrder → List Replies →
    Option (List (List Exchange))
  | _, [] => some []
  | own, r :: rest => do
    let (own, trace) ← updatePrice params assets indexPrices all utxos key own r
    let more ← ticks params assets indexPrices all utxos key (afterCompletion own trace) rest
    return trace :: more

/-- The exchange submits an order. -/
def Exchange.isSubmit : Exchange → Bool
  | .submit .. => true
  | _ => false

/-- The order is where it should be: it was submitted, or has got the current price. -/
def Exchange.settles : Exchange → Bool
  | .submit _ _ (some _) => true
  | .edit _ _ true => true
  | _ => false

/-! ### One tick -/

section

variable {params : Params} {assets : List Asset} {indexPrices : IndexPrices} {all : AllBalances}
  {utxos : Utxos} {key : OwnOrderKey}

/-- An order at this price is kept as it is. -/
structure Kept (params : Params) (all : AllBalances) (key : OwnOrderKey) (price : ℚ) (o : OwnOrder) :
    Prop where
  max : getBitcoinAmount all key.ticker price key.sendBitcoins true ≠ 0
  fits : o.bitcoinAmount ≤ getBitcoinAmount all key.ticker price key.sendBitcoins true
  change : amountChange (newBitcoinAmountNormal params all key.ticker price key.sendBitcoins)
    o.bitcoinAmount < recreateOrderAmountFraction
  price : o.price = price

/-- Nothing is asked in this state. -/
def AtRest (params : Params) (indexPrices : IndexPrices) (all : AllBalances) (key : OwnOrderKey) :
    Option OwnOrder → Prop
  | none => ∀ index, indexPrices key.ticker = some index →
      newBitcoinAmountNormal params all key.ticker
        (offerPrice params index.price key.sendBitcoins) key.sendBitcoins < params.bitcoinAmountMin
  | some o => ∃ index, indexPrices key.ticker = some index
      ∧ Kept params all key (offerPrice params index.price key.sendBitcoins) o

/-- A new order is kept. -/
theorem kept_of_submitted (accepted : params.Accepted) {price : ℚ} {orderId : OrderId}
    (hmin : params.bitcoinAmountMin
      ≤ newBitcoinAmountNormal params all key.ticker price key.sendBitcoins) :
    Kept params all key price
      ⟨orderId, newBitcoinAmountNormal params all key.ticker price key.sendBitcoins, price⟩ := by
  set normal := newBitcoinAmountNormal params all key.ticker price key.sendBitcoins with hnormal
  have hleast := accepted.min_sat
  have hle : normal ≤ getBitcoinAmount all key.ticker price key.sendBitcoins false :=
    min_le_left _ _
  have hmax : getBitcoinAmount all key.ticker price key.sendBitcoins false
      ≤ getBitcoinAmount all key.ticker price key.sendBitcoins true :=
    getBitcoinAmount_mono (by omega)
  have hsame : amountChange normal normal < recreateOrderAmountFraction := by
    norm_num [amountChange, recreateOrderAmountFraction]
  exact ⟨by omega, hle.trans hmax, hsame, rfl⟩

/-- A known asset is found by its ticker. -/
theorem find_asset (known : ∃ asset ∈ assets, asset.ticker = key.ticker.name) :
    ∃ asset, assets.find? (fun asset => asset.ticker = key.ticker.name) = some asset := by
  rw [← Option.isSome_iff_exists, List.find?_isSome]
  simpa using known

/-- A state at rest is left alone. -/
theorem updatePrice_atRest (known : ∃ asset ∈ assets, asset.ticker = key.ticker.name)
    {own : Option OwnOrder} (hrest : AtRest params indexPrices all key own) (r : Replies) :
    updatePrice params assets indexPrices all utxos key own r = some (own, []) := by
  obtain ⟨asset, hasset⟩ := find_asset known
  unfold updatePrice
  rw [hasset]
  -- an empty slot stays empty, because the amount is too small
  cases own with
  | none =>
    cases hindex : indexPrices key.ticker with
    | none => rfl
    | some index =>
      have hlow := hrest index hindex
      simp only [Option.map_some, Option.bind_eq_bind, Option.bind_some]
      rw [if_neg (by omega)]
      rfl
  -- an order that fits stays as it is
  | some o =>
    obtain ⟨index, hindex, hkept⟩ := hrest
    simp only [hindex, Option.map_some, Option.bind_eq_bind, Option.bind_some]
    rw [if_neg, if_neg]
    · rfl
    · exact not_not.mpr hkept.price
    · rintro (h | h | h)
      · exact hkept.max h
      · exact absurd hkept.fits (not_le.mpr h)
      · exact absurd hkept.change (not_lt.mpr h)

/-- An empty slot gets an order, which is kept, or stays empty for good. -/
theorem updatePrice_empty (indexPrices : IndexPrices) (all : AllBalances) (accepted : params.Accepted)
    (known : ∃ asset ∈ assets, asset.ticker = key.ticker.name) {r : Replies}
    (hr : r.Accepting params utxos) :
    ∃ own trace, updatePrice params assets indexPrices all utxos key none r = some (own, trace)
      ∧ AtRest params indexPrices all key (afterCompletion own trace)
      ∧ trace.countP Exchange.isSubmit ≤ 1 := by
  by_cases hrest : AtRest params indexPrices all key none
  · exact ⟨none, [], updatePrice_atRest known hrest r, hrest, by simp⟩
  · simp only [AtRest, not_forall, not_lt] at hrest
    obtain ⟨index, hindex, hmin⟩ := hrest
    obtain ⟨orderId, details, txouts, hsubmit, hpset⟩ := hr.submit
    set price := offerPrice params index.price key.sendBitcoins with hprice
    set normal := newBitcoinAmountNormal params all key.ticker price key.sendBitcoins with hnormal
    refine ⟨some ⟨orderId, normal, price⟩, [.submit (signedAmount key.sendBitcoins normal) price
      (some orderId), .addr orderId true], ?_, ⟨index, hindex, kept_of_submitted accepted hmin⟩,
      le_of_eq rfl⟩
    obtain ⟨asset, hasset⟩ := find_asset known
    unfold updatePrice
    simp only [hasset, hindex, Option.map_some, Option.bind_eq_bind, Option.bind_some]
    rw [← hprice, ← hnormal, if_pos hmin]
    simp only [submitOrder, hsubmit, hpset, hr.addr, if_true]

/-- An order is kept, gets the current price and is kept then, or is cancelled. -/
theorem updatePrice_filled (indexPrices : IndexPrices) (all : AllBalances)
    (known : ∃ asset ∈ assets, asset.ticker = key.ticker.name) {r : Replies} (hr : r.Accepting params utxos) (o : OwnOrder) :
    ∃ own trace, updatePrice params assets indexPrices all utxos key (some o) r = some (own, trace)
      ∧ trace.countP Exchange.isSubmit = 0
      ∧ (AtRest params indexPrices all key (afterCompletion own trace)
        ∨ (afterCompletion own trace = none ∧ trace.any Exchange.settles = false)) := by
  obtain ⟨asset, hasset⟩ := find_asset known
  have hcancelled : afterCompletion (some o) [.cancel o.orderId true] = none := by
    simp [afterCompletion]
  -- a server that accepts lets the dealer cancel
  have hcancel : cancelOrder o r = (some o, [.cancel o.orderId true]) := by
    rw [cancelOrder, hr.cancel]
  -- without a price the order is cancelled
  cases hindex : indexPrices key.ticker with
  | none =>
    refine ⟨some o, [.cancel o.orderId true], ?_, rfl, .inr ⟨hcancelled, rfl⟩⟩
    simp only [updatePrice, hasset, hindex, Option.map_none, Option.bind_eq_bind, Option.bind_some,
      hcancel, Option.pure_def]
  | some index =>
    set price := offerPrice params index.price key.sendBitcoins with hprice
    by_cases hmisfit : getBitcoinAmount all key.ticker price key.sendBitcoins true = 0
        ∨ o.bitcoinAmount > getBitcoinAmount all key.ticker price key.sendBitcoins true
        ∨ amountChange (newBitcoinAmountNormal params all key.ticker price key.sendBitcoins)
          o.bitcoinAmount ≥ recreateOrderAmountFraction
    · -- an order that does not fit is cancelled, too
      refine ⟨some o, [.cancel o.orderId true], ?_, rfl, .inr ⟨hcancelled, rfl⟩⟩
      simp only [updatePrice, hasset, hindex, Option.map_some, Option.bind_eq_bind, Option.bind_some,
        ← hprice, if_pos hmisfit, hcancel, Option.pure_def]
    · -- the order fits: it is kept, or gets the current price
      have hfits := hmisfit
      simp only [not_or, not_lt, not_le] at hfits
      by_cases hsame : o.price = price
      · refine ⟨some o, [], ?_, rfl, .inl ⟨index, hindex, hfits.1, hfits.2.1, hfits.2.2, hsame⟩⟩
        simp only [updatePrice, hasset, hindex, Option.map_some, Option.bind_eq_bind,
          Option.bind_some, ← hprice, if_neg hmisfit, if_neg (not_not.mpr hsame), Option.pure_def]
      · refine ⟨some { o with price := price }, [.edit o.orderId price true], ?_, rfl,
          .inl ⟨index, hindex, hfits.1, hfits.2.1, hfits.2.2, rfl⟩⟩
        simp only [updatePrice, hasset, hindex, Option.map_some, Option.bind_eq_bind,
          Option.bind_some, ← hprice, if_neg hmisfit, if_pos hsame, editOrder, hr.edit, if_true,
          Option.pure_def]

/-! ### Every tick -/

/-- At rest, nothing is asked any more. -/
theorem ticks_atRest (known : ∃ asset ∈ assets, asset.ticker = key.ticker.name)
    {own : Option OwnOrder} (hrest : AtRest params indexPrices all key own) (replies : List Replies) :
    ticks params assets indexPrices all utxos key own replies
      = some (replies.map fun _ => []) := by
  induction replies with
  | nil => rfl
  | cons r rest ih =>
    have hsame : afterCompletion own [] = own := by cases own <;> simp [afterCompletion]
    simp only [ticks, updatePrice_atRest known hrest, Option.bind_eq_bind, Option.bind_some, hsame, ih,
      Option.pure_def, List.map_cons]

/-- At most one order is submitted, and nothing is asked after an order is settled. -/
def Settling (traces : List (List Exchange)) : Prop :=
  traces.flatten.countP Exchange.isSubmit ≤ 1
    ∧ traces.Pairwise fun earlier later => earlier.any Exchange.settles → later = []

/-- One tick and rest after it. -/
theorem settling_of_rest {trace : List Exchange} (hone : trace.countP Exchange.isSubmit ≤ 1)
    (replies : List Replies) : Settling (trace :: replies.map fun _ => []) := by
  have hquiet : ∀ later ∈ replies.map (fun _ => ([] : List Exchange)), later = [] := by
    intro later hlater
    obtain ⟨_, -, rfl⟩ := List.mem_map.mp hlater
    rfl
  refine ⟨?_, List.pairwise_cons.mpr ⟨fun later hlater _ => hquiet later hlater, ?_⟩⟩
  · rw [List.flatten_cons, List.countP_append, List.flatten_eq_nil_iff.mpr hquiet]
    simpa using hone
  · exact List.Pairwise.imp_of_mem (fun _ hb _ _ => hquiet _ hb)
      (List.pairwise_of_forall fun _ _ => trivial)

/-- From an empty slot, one order is submitted at most. -/
theorem ticks_empty (indexPrices : IndexPrices) (all : AllBalances) (accepted : params.Accepted)
    (known : ∃ asset ∈ assets, asset.ticker = key.ticker.name) {replies : List Replies}
    (hr : ∀ r ∈ replies, r.Accepting params utxos) :
    ∃ traces, ticks params assets indexPrices all utxos key none replies = some traces
      ∧ Settling traces := by
  cases replies with
  | nil => exact ⟨[], rfl, by simp [Settling]⟩
  | cons r rest =>
    obtain ⟨own, trace, hrun, hrest, hone⟩ := updatePrice_empty indexPrices all accepted known
      (hr r List.mem_cons_self)
    refine ⟨trace :: rest.map fun _ => [], ?_, settling_of_rest hone rest⟩
    simp only [ticks, hrun, Option.bind_eq_bind, Option.bind_some, ticks_atRest known hrest,
      Option.pure_def]

/-- A tick that neither submits nor settles, before the others. -/
theorem Settling.cons {trace : List Exchange} {traces : List (List Exchange)}
    (hnone : trace.countP Exchange.isSubmit = 0) (hopen : trace.any Exchange.settles = false)
    (h : Settling traces) : Settling (trace :: traces) := by
  refine ⟨?_, List.pairwise_cons.mpr ⟨fun later _ hsettles => ?_, h.2⟩⟩
  · rw [List.flatten_cons, List.countP_append, hnone, zero_add]
    exact h.1
  · rw [hopen] at hsettles
    cases hsettles

end

/-- Whatever the order in the slot, with the same prices, balances and limits at every tick: the
calls return, at most one order is submitted, and once an order is submitted or has got the current
price nothing is asked at any later tick. -/
theorem ticks_settle (params : Params) (assets : List Asset) (indexPrices : IndexPrices)
    (all : AllBalances) (utxos : Utxos) (key : OwnOrderKey) (own : Option OwnOrder)
    (replies : List Replies) (accepted : params.Accepted)
    (known : ∃ asset ∈ assets, asset.ticker = key.ticker.name)
    (accepting : ∀ r ∈ replies, r.Accepting params utxos) :
    ∃ traces, ticks params assets indexPrices all utxos key own replies = some traces
      ∧ traces.flatten.countP Exchange.isSubmit ≤ 1
      ∧ traces.Pairwise fun earlier later => earlier.any Exchange.settles → later = [] := by
  cases own with
  -- an empty slot settles at once
  | none => exact ticks_empty indexPrices all accepted known accepting
  | some o =>
    cases replies with
    | nil => exact ⟨[], rfl, by simp⟩
    | cons r rest =>
      -- a slot with an order settles with the first tick, or its order is cancelled
      obtain ⟨own, trace, hrun, hnone, hrest | ⟨hempty, hopen⟩⟩ := updatePrice_filled indexPrices all
        known (accepting r List.mem_cons_self) o
      · refine ⟨trace :: rest.map fun _ => [], ?_, settling_of_rest (by omega) rest⟩
        simp only [ticks, hrun, Option.bind_eq_bind, Option.bind_some, ticks_atRest known hrest,
          Option.pure_def]
      · -- the cancelled order has completed: the rest starts from an empty slot
        obtain ⟨traces, hticks, hsettling⟩ := ticks_empty indexPrices all accepted known
          fun r hr => accepting r (List.mem_cons_of_mem _ hr)
        refine ⟨trace :: traces, ?_, hsettling.cons hnone hopen⟩
        simp only [ticks, hrun, Option.bind_eq_bind, Option.bind_some, hempty, hticks,
          Option.pure_def]

namespace Sample

/-- The coins of the samples. -/
def utxos : Utxos :=
  (∅ : Utxos).insert ⟨"coin", 0⟩
    { txid := "coin", vout := 0, asset := ⟨"bitcoin"⟩, amount := 200000000, reserve := none }

/-- The terms that the server answers with. -/
def details : Details :=
  { asset := ⟨"tether"⟩, bitcoinAmount := 100000000, assetAmount := 2017015000000, price := 20170.15
    serverFee := 100000, sendBitcoins := true }

/-- The server takes what it is asked for. -/
def accepts : Replies :=
  { submit := some (⟨"order"⟩, details), addr := true, edit := true, cancel := true }

theorem accepts_accepting : accepts.Accepting params utxos where
  submit := ⟨⟨"order"⟩, details, [⟨"coin", 0⟩], rfl, by rfl⟩
  addr := rfl
  edit := rfl
  cancel := rfl

end Sample

/-- A small order at an old price is cancelled, a new one takes its place and stays. -/
theorem ticks_settle_small_order :
    ∃ traces, ticks Sample.params Sample.assets Sample.indexPrices (Sample.balances 2)
        Sample.utxos Sample.sellTether (some ⟨⟨"old"⟩, 10000, 20000⟩)
        [Sample.accepts, Sample.accepts, Sample.accepts]
        = some traces
      ∧ traces.flatten.countP Exchange.isSubmit ≤ 1
      ∧ traces.Pairwise fun earlier later => earlier.any Exchange.settles → later = [] :=
  ticks_settle _ _ _ _ _ _ _ _ Sample.params_accepted ⟨Sample.tether, by decide, rfl⟩
    (by simpa using Sample.accepts_accepting)

end SideSwap.Dealer
