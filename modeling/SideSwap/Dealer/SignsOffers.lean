import Mathlib.Tactic.FieldSimp
import SideSwap.Dealer.Orders

/-!
# Whether the dealer signs what it offers

An offer adds the fee ratio of the configured amount to the price; the check before signing deducts
the fee of the amount that was really offered, which may be much smaller and then pays the minimal
fee.  With the index price and the balances unchanged, the check passes if and only if the margin
between the two interests covers the difference, and the limits of the asset still cover the amount
at the price after the fee (`takeOrder_offer_iff`).
-/

namespace SideSwap.Dealer

open Call

/-! ### The check -/

/-- A ticker is found by its name. -/
theorem ofName_name (t : DealerTicker) : DealerTicker.ofName t.name = some t := by
  cases t <;> decide

/-- What `takeOrder` checks, for an asset and an index price that are known. -/
theorem takeOrder_eq_ok_iff {params : Params} {assets : List Asset} {details : Details}
    {all : AllBalances} {indexPrices : IndexPrices} {interest : ℚ} {asset : Asset}
    {ticker : DealerTicker} {index : PriceTimestamp}
    (hasset : assets.find? (fun a => a.assetId = details.asset) = some asset)
    (hticker : asset.ticker = ticker.name) (hindex : indexPrices ticker = some index)
    (hinterest : 1 ≤ interest ∧ interest ≤ 11 / 10) {actual : ℚ}
    (hactual : assetFloatAmount details.assetAmount asset.precision
      / toBitcoin details.actualBitcoinAmount = actual) :
    takeOrder params assets details all indexPrices interest = .ok ()
      ↔ params.bitcoinAmountMin ≤ details.bitcoinAmount
        ∧ details.bitcoinAmount ≤ params.bitcoinAmountMax ∧ 0 < actual
        ∧ (if details.sendBitcoins then index.price.ask * interest ≤ actual
          else actual ≤ index.price.bid / interest)
        ∧ details.bitcoinAmount
          ≤ getBitcoinAmount all ticker actual details.sendBitcoins true := by
  -- the interest is within its bounds
  have happly : applyInterest index.price interest
      = some { bid := index.price.bid / interest, ask := index.price.ask * interest } := by
    rw [applyInterest, if_pos hinterest]
  have hname : DealerTicker.ofName asset.ticker = some ticker := hticker ▸ ofName_name ticker
  unfold takeOrder
  -- the two sides differ in the price that the offer is compared with
  cases hside : details.sendBitcoins with
  | true =>
    simp [hasset, hname, hindex, happly, hactual]
  | false =>
    simp [hasset, hname, hindex, happly, hactual]

/-! ### Amounts -/

/-- The least amount in satoshis. -/
theorem Params.Accepted.min_sat {params : Params} (h : params.Accepted) :
    10000 ≤ params.bitcoinAmountMin := by
  have hmin := h.min
  unfold toBitcoin dealerMinBitcoinAmount coin at hmin
  have : (10000 : ℚ) ≤ params.bitcoinAmountMin := by
    push_cast at hmin
    linarith
  exact_mod_cast this

/-- The server's fee is never zero. -/
theorem getServerFee_pos (amount : ℤ) : 0 < getServerFee amount := by
  have : minServerFee ≤ getServerFee amount := le_max_right _ _
  unfold minServerFee at this
  omega

/-- The fee of an amount from the smallest one on is less than the amount. -/
theorem getServerFee_lt {amount : ℤ} (h : 10000 ≤ amount) : getServerFee amount < amount := by
  rw [getServerFee_eq (by omega)]
  omega

/-- The interest of an offer is at least the configured one. -/
theorem interestTakeAdjusted_pos {params : Params} (h : params.Accepted) :
    0 < interestTakeAdjusted params := by
  have hint : 0 < params.interestSubmit := by linarith [h.sign, h.submit]
  have hsat : 0 < params.bitcoinAmountSubmit := by linarith [h.min_sat, h.submitMin]
  have hsubmit : 0 < toBitcoin params.bitcoinAmountSubmit :=
    div_pos (by exact_mod_cast hsat) coin_pos
  have hfee : 0 ≤ toBitcoin (fromBitcoin (max (serverFeeRate
      * toBitcoin params.bitcoinAmountSubmit) (toBitcoin minServerFee))) := by
    apply div_nonneg _ coin_pos.le
    have : (0 : ℚ) ≤ toBitcoin minServerFee := by norm_num [toBitcoin, minServerFee, coin]
    exact_mod_cast fromBitcoin_nonneg (this.trans (le_max_right _ _))
  unfold interestTakeAdjusted
  positivity

/-- The least of two limits bounds an amount if both do. -/
theorem le_fromBitcoin_min {amount : ℤ} {x y : ℚ} :
    amount ≤ fromBitcoin (min x y) ↔ amount ≤ fromBitcoin x ∧ amount ≤ fromBitcoin y := by
  have hmono : Monotone fromBitcoin := fun _ _ => fromBitcoin_mono
  rw [hmono.map_min, le_min_iff]

/-! ### Offers -/

/-- What the server asks to sign for an offer that was taken as it stands, at precision 8. -/
def offerDetails (asset : AssetId) (b : ℤ) (p : ℚ) (sendBitcoins : Bool) : Details :=
  { asset := asset, bitcoinAmount := b, assetAmount := assetAmount b p 8, price := p
    serverFee := getServerFee b, sendBitcoins := sendBitcoins }

/-- The margin between the two interests covers the fee of the offered amount and the rounding of
the asset amount, and the limits of the asset cover the offer at the price after the fee. -/
@[mk_iff] structure OfferCovered (params : Params) (all : AllBalances) (key : OwnOrderKey) (b : ℤ) (p : ℚ) :
    Prop where
  positive : 0 < assetAmount b p 8
  margin :
    if key.sendBitcoins then
      params.interestSign * (b + getServerFee b) * p
        ≤ interestTakeAdjusted params * assetAmount b p 8
    else
      params.interestSign * assetAmount b p 8
        ≤ interestTakeAdjusted params * p * (b - getServerFee b)
  limit :
    if key.sendBitcoins then
      b ≤ fromBitcoin ((all.maxRecv key.ticker).getD f64Max
        * ((b + getServerFee b) / assetAmount b p 8))
    else
      b ≤ fromBitcoin ((all.wallet key.ticker).getD 0
          * ((b - getServerFee b) / assetAmount b p 8))
        ∧ b ≤ fromBitcoin ((all.maxSend key.ticker).getD f64Max
          * ((b - getServerFee b) / assetAmount b p 8))

/-- The price after the fee of an order at precision 8. -/
theorem actualPrice_eq (d : Details) :
    assetFloatAmount d.assetAmount 8 / toBitcoin d.actualBitcoinAmount
      = d.assetAmount / d.actualBitcoinAmount := by
  unfold assetFloatAmount toBitcoin coin
  norm_num
  rw [div_div_div_cancel_right₀]
  norm_num

section

variable {params : Params} {all : AllBalances} {key : OwnOrderKey} {b : ℤ} {p : ℚ}
  {price : PricePair}

/-- The amount of an offer is within the limits that do not depend on the price. -/
theorem le_limits_of_offer
    (h : b ≤ getBitcoinAmount all key.ticker p key.sendBitcoins false) :
    if key.sendBitcoins then
      b ≤ fromBitcoin ((all.wallet .lbtc).getD 0 / (1 + serverFeeRate))
        ∧ b ≤ fromBitcoin ((all.maxSend .lbtc).getD f64Max)
    else b ≤ fromBitcoin ((all.maxRecv .lbtc).getD f64Max) := by
  unfold getBitcoinAmount at h
  cases hside : key.sendBitcoins with
  | true =>
    simp only [hside, if_true, le_fromBitcoin_min] at h
    exact ⟨h.1.1, h.2⟩
  | false =>
    simp only [hside, Bool.false_eq_true, if_false, le_fromBitcoin_min] at h
    exact h.1.2

/-- At the price after the fee, what is left to check of the limits is the asset's side. -/
theorem le_getBitcoinAmount_iff {actual : ℚ}
    (h : b ≤ getBitcoinAmount all key.ticker p key.sendBitcoins false) :
    b ≤ getBitcoinAmount all key.ticker actual key.sendBitcoins true
      ↔ if key.sendBitcoins then b ≤ fromBitcoin ((all.maxRecv key.ticker).getD f64Max / actual)
        else b ≤ fromBitcoin ((all.wallet key.ticker).getD 0 / actual)
          ∧ b ≤ fromBitcoin ((all.maxSend key.ticker).getD f64Max / actual) := by
  have hlimits := le_limits_of_offer h
  unfold getBitcoinAmount
  cases hside : key.sendBitcoins with
  | true =>
    simp only [hside, if_true] at hlimits
    simp only [if_true, mul_one, le_fromBitcoin_min, hlimits, true_and, and_true]
  | false =>
    simp only [hside, Bool.false_eq_true, if_false] at hlimits
    simp only [Bool.false_eq_true, if_false, if_true, mul_one, le_fromBitcoin_min, hlimits, and_true]

/-- The check of the price after the fee, in terms of the margin. -/
theorem price_check_iff (haccepted : params.Accepted) (given : ℤ) {amount fee : ℤ}
    (hfee : 0 < fee) (hless : fee < amount)
    (hp : p = offerPrice params price key.sendBitcoins) :
    (if key.sendBitcoins then price.ask * params.interestSign ≤ (given : ℚ) / ((amount + fee : ℤ) : ℚ)
      else (given : ℚ) / ((amount - fee : ℤ) : ℚ) ≤ price.bid / params.interestSign)
      ↔ if key.sendBitcoins then
          params.interestSign * (amount + fee) * p ≤ interestTakeAdjusted params * given
        else params.interestSign * given ≤ interestTakeAdjusted params * p * (amount - fee) := by
  have hadj := interestTakeAdjusted_pos haccepted
  have hsign : 0 < params.interestSign := by linarith [haccepted.sign]
  cases hside : key.sendBitcoins with
  | true =>
    have hD : (0 : ℚ) < (amount + fee : ℤ) := by exact_mod_cast (by omega)
    simp only [if_true]
    rw [le_div_iff₀ hD, hp, hside, offerPrice, getPrice, if_pos rfl, ← mul_le_mul_iff_right₀ hadj]
    push_cast
    ring_nf
  | false =>
    have hD : (0 : ℚ) < (amount - fee : ℤ) := by exact_mod_cast (by omega)
    simp only [Bool.false_eq_true, if_false]
    have hprice : interestTakeAdjusted params * p = price.bid := by
      rw [hp, hside, offerPrice, getPrice]
      simp only [Bool.false_eq_true, if_false]
      exact mul_div_cancel₀ _ hadj.ne'
    rw [div_le_div_iff₀ hD hsign, hprice]
    push_cast
    rw [mul_comm (given : ℚ)]

end

/-- The order that a call of `updatePrice` submits. -/
theorem updatePrice_submits {params : Params} {assets : List Asset} {indexPrices : IndexPrices}
    {all : AllBalances} {utxos : Utxos} {key : OwnOrderKey} {own own' : Option OwnOrder}
    {r : Replies} {trace : List Exchange} {amount p : ℚ} {reply : Option OrderId}
    (hrun : updatePrice params assets indexPrices all utxos key own r = some (own', trace))
    (hsubmit : Exchange.submit amount p reply ∈ trace) :
    ∃ index, indexPrices key.ticker = some index
      ∧ p = offerPrice params index.price key.sendBitcoins
      ∧ params.bitcoinAmountMin
        ≤ newBitcoinAmountNormal params all key.ticker p key.sendBitcoins
      ∧ amount = signedAmount key.sendBitcoins
        (newBitcoinAmountNormal params all key.ticker p key.sendBitcoins) := by
  obtain ⟨-, rfl⟩ | ⟨o, -, -, rfl⟩ | ⟨o, _, -, -, rfl⟩ | ⟨o, _, -, -, rfl⟩
    | ⟨index, price, b, -, hindex, rfl, rfl, hmin, hsub⟩ := updatePrice_cases hrun
  · cases hsubmit
  · simp at hsubmit
  · simp at hsubmit
  · simp at hsubmit
  · obtain ⟨_, rest, rfl, hrest⟩ := submitOrder_cases hsub
    have hhead : Exchange.submit amount p reply ∉ rest := by
      obtain ⟨-, rfl | ⟨_, rfl⟩⟩ | ⟨_, -, -, rfl⟩ := hrest <;> simp
    obtain ⟨rfl, rfl, rfl⟩ := Exchange.submit.inj ((List.mem_cons.mp hsubmit).resolve_right hhead)
    exact ⟨index, hindex, rfl, hmin, rfl⟩

/-- The signed amount of a submission determines its amount. -/
theorem signedAmount_injective (sendBitcoins : Bool) :
    Function.Injective (signedAmount sendBitcoins) := by
  intro a b h
  have hbtc : toBitcoin a = toBitcoin b := by
    cases sendBitcoins with
    | true => exact neg_inj.mp h
    | false => exact h
  exact_mod_cast (div_left_inj' coin_pos.ne').mp hbtc

/-- Under unchanged prices and balances, the dealer signs an order that it submitted if and only if
the offer is covered. -/
theorem takeOrder_offer_iff (params : Params) (accepted : params.Accepted) (assets : List Asset)
    (asset : Asset) (indexPrices : IndexPrices) (index : PriceTimestamp) (all : AllBalances)
    (utxos : Utxos) (key : OwnOrderKey) (own own' : Option OwnOrder) (r : Replies)
    (trace : List Exchange) (b : ℤ) (p : ℚ) (reply : Option OrderId)
    (known : assets.find? (fun a => a.assetId = asset.assetId) = some asset)
    (ticker : asset.ticker = key.ticker.name) (precision : asset.precision = 8)
    (indexed : indexPrices key.ticker = some index)
    (run : updatePrice params assets indexPrices all utxos key own r = some (own', trace))
    (submitted : Exchange.submit (signedAmount key.sendBitcoins b) p reply ∈ trace) :
    takeOrder params assets (offerDetails asset.assetId b p key.sendBitcoins) all indexPrices
        params.interestSign = .ok ()
      ↔ OfferCovered params all key b p := by
  obtain ⟨index', hindex, hp, hmin, hb⟩ := updatePrice_submits run submitted
  obtain rfl : index' = index := Option.some.inj (hindex.symm.trans indexed)
  have hb := signedAmount_injective _ hb
  rw [← hb] at hmin
  have hsat : 10000 ≤ b := accepted.min_sat.trans hmin
  have hmax : b ≤ params.bitcoinAmountMax := by
    rw [hb]
    exact (min_le_right _ _).trans accepted.submitMax
  have hwithin : b ≤ getBitcoinAmount all key.ticker p key.sendBitcoins false := by
    nth_rewrite 1 [hb]
    exact min_le_left _ _
  have hfee := getServerFee_pos b
  have hless := getServerFee_lt hsat
  have hinterest : 1 ≤ params.interestSign ∧ params.interestSign ≤ 11 / 10 :=
    ⟨accepted.sign.le, by linarith [accepted.submit, accepted.limit]⟩
  have hactual := actualPrice_eq (offerDetails asset.assetId b p key.sendBitcoins)
  rw [← precision] at hactual
  have hprice := price_check_iff accepted (assetAmount b p 8) hfee hless hp
  rw [takeOrder_eq_ok_iff known ticker indexed hinterest hactual, offerCovered_iff, ← hprice]
  show params.bitcoinAmountMin ≤ b ∧ b ≤ params.bitcoinAmountMax ∧ _ ∧ _
    ∧ b ≤ getBitcoinAmount all key.ticker _ key.sendBitcoins true ↔ _
  rw [le_getBitcoinAmount_iff hwithin]
  -- the server fee is added to the amount that is sent, and taken from the amount that is received
  cases hside : key.sendBitcoins with
  | true =>
    have hD : (0 : ℚ) < b + getServerFee b := by exact_mod_cast (by omega)
    simp only [offerDetails, Details.actualBitcoinAmount, if_true, div_pos_iff_of_pos_right hD,
      Int.cast_pos, div_div_eq_mul_div, mul_div_assoc, hmin, hmax, true_and, Int.cast_add]
  | false =>
    have hD : (0 : ℚ) < b - getServerFee b := by exact_mod_cast (by omega)
    simp only [offerDetails, Details.actualBitcoinAmount, Bool.false_eq_true, if_false,
      div_pos_iff_of_pos_right hD, Int.cast_pos, div_div_eq_mul_div, mul_div_assoc, hmin, hmax,
      true_and, Int.cast_sub]

/-! ### A small offer and a full one -/

namespace Sample

/-- A wallet with these bitcoins and no limits. -/
def balances (bitcoins : ℚ) : AllBalances :=
  { wallet := fun t => if t = .lbtc then some bitcoins else none
    maxSend := fun _ => none, maxRecv := fun _ => none }

/-- The server does not answer the submitted order. -/
def noReply : Replies := ⟨none, false, false, false⟩

end Sample

/-- A wallet with enough bitcoins offers the configured amount, and signs it. -/
theorem takeOrder_offer_full :
    takeOrder Sample.params Sample.assets
        (offerDetails Sample.tether.assetId 100000000 (offerPrice Sample.params ⟨20000, 20000⟩ true)
          true) (Sample.balances 2) Sample.indexPrices (1005 / 1000) = .ok ()
      ↔ OfferCovered Sample.params (Sample.balances 2) Sample.sellTether 100000000
        (offerPrice Sample.params ⟨20000, 20000⟩ true) :=
  takeOrder_offer_iff Sample.params Sample.params_accepted Sample.assets Sample.tether
    Sample.indexPrices Sample.index (Sample.balances 2) ∅ Sample.sellTether none none Sample.noReply
    [.submit (-1) (offerPrice Sample.params ⟨20000, 20000⟩ true) none] 100000000
    (offerPrice Sample.params ⟨20000, 20000⟩ true) none rfl rfl rfl rfl (by decide +kernel)
    (by decide +kernel)

/-- A wallet with 0.0001001 bitcoins offers 10000 satoshis and refuses to sign: the fee of 500
satoshis is five percent of the amount, where the offer added a tenth of a percent. -/
theorem small_offer_refused :
    ¬ ∀ (params : Params) (assets : List Asset) (asset : Asset) (indexPrices : IndexPrices)
        (index : PriceTimestamp) (all : AllBalances) (utxos : Utxos) (key : OwnOrderKey)
        (own own' : Option OwnOrder) (r : Replies) (trace : List Exchange) (b : ℤ) (p : ℚ)
        (reply : Option OrderId), params.Accepted →
      assets.find? (fun a => a.assetId = asset.assetId) = some asset →
      asset.ticker = key.ticker.name → asset.precision = 8 →
      indexPrices key.ticker = some index → 0 < index.price.bid →
      index.price.bid ≤ index.price.ask →
      updatePrice params assets indexPrices all utxos key own r = some (own', trace) →
      Exchange.submit (signedAmount key.sendBitcoins b) p reply ∈ trace →
      takeOrder params assets (offerDetails asset.assetId b p key.sendBitcoins) all indexPrices
        params.interestSign = .ok () := by
  intro hall
  have hsigned := hall Sample.params Sample.assets Sample.tether Sample.indexPrices Sample.index
    (Sample.balances (1001 / 10000000)) ∅ Sample.sellTether none none Sample.noReply
    [.submit (signedAmount true 10000) (offerPrice Sample.params ⟨20000, 20000⟩ true) none] 10000
    (offerPrice Sample.params ⟨20000, 20000⟩ true) none Sample.params_accepted rfl rfl rfl rfl
    (by decide +kernel) (by decide +kernel) (by decide +kernel) (by decide +kernel)
  revert hsigned
  decide +kernel

end SideSwap.Dealer
