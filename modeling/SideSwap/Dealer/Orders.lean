import SideSwap.Dealer.Coins
import SideSwap.Lib.Call

/-!
# The order-book dealer

`sideswap_dealer::dealer`: for each ticker and side the dealer keeps one order of its own on the
server, submits, edits and cancels it as prices and balances move, takes orders of others, and
signs what it is asked to sign after a check of the price (`takeOrder`).

The answers of the server to one tick are part of the tick (`Replies`); what the dealer asked and
was answered is the trace that `updatePrice` returns (`Exchange`).  `none` is a panic: the thread
ends there.
-/

namespace SideSwap.Dealer

open Call

/-! ### Parameters and data -/

/-- `tickers` is a set, in its order. -/
structure Params where
  bitcoinAssetId : AssetId
  interestSubmit : ℚ
  interestSign : ℚ
  tickers : List DealerTicker
  tickersNodup : tickers.Nodup
  bitcoinAmountSubmit : ℤ
  bitcoinAmountMin : ℤ
  bitcoinAmountMax : ℤ

/-- `EXTRA_ASSET_UTXO_FRACTION`. -/
def extraAssetUtxoFraction : ℚ := 3 / 100

/-- `RECREATE_ORDER_AMOUNT_FRACTION`. -/
def recreateOrderAmountFraction : ℚ := 5 / 100

/-- `MIN_BITCOIN_AMOUNT` of the dealer. -/
def dealerMinBitcoinAmount : ℚ := 1 / 10000

/-- `PRICE_EXPIRATON_TIME`, in milliseconds. -/
def priceExpirationTime : ℕ := 60000

/-- The assertions at the start of `worker`. -/
structure Params.Accepted (p : Params) : Prop where
  min : toBitcoin p.bitcoinAmountMin ≥ dealerMinBitcoinAmount
  submitMin : p.bitcoinAmountSubmit ≥ p.bitcoinAmountMin
  submitMax : p.bitcoinAmountSubmit ≤ p.bitcoinAmountMax
  sign : p.interestSign > 1
  submit : p.interestSubmit > p.interestSign
  limit : p.interestSubmit < 11 / 10

/-- The terms of an order, as far as a dealer reads them. -/
structure Details where
  asset : AssetId
  bitcoinAmount : ℤ
  assetAmount : ℤ
  price : ℚ
  serverFee : ℤ
  sendBitcoins : Bool
deriving DecidableEq

/-- The balances of the wallet, and the most that may be sent and received. -/
structure AllBalances where
  wallet : WalletBalances
  maxSend : WalletBalances
  maxRecv : WalletBalances

/-- An index price, with the time at which it came. -/
structure PriceTimestamp where
  price : PricePair
  timestamp : ℕ

/-- The index prices, where they are known. -/
abbrev IndexPrices := DealerTicker → Option PriceTimestamp

/-- An order of the dealer that is on the market, as it was submitted. -/
structure OwnOrder where
  orderId : OrderId
  bitcoinAmount : ℤ
  price : ℚ
deriving DecidableEq

/-- Which of its orders: the asset, and whether bitcoin is sent. -/
structure OwnOrderKey where
  ticker : DealerTicker
  sendBitcoins : Bool
deriving DecidableEq

/-! ### Prices and amounts -/

/-- `f64::MAX`, the limit where none is known. -/
def f64Max : ℚ := (2 ^ 53 - 1) * 2 ^ 971

/-- The assertion on the interest is a panic. -/
def applyInterest (price : PricePair) (interest : ℚ) : Option PricePair :=
  if interest ≥ 1 ∧ interest ≤ 11 / 10 then
    some { bid := price.bid / interest, ask := price.ask * interest }
  else none

/-- The index price with the interest, on the side of the order. -/
def getPrice (price : PricePair) (sendBitcoins : Bool) (interest : ℚ) : ℚ :=
  if sendBitcoins then price.ask * interest else price.bid / interest

/-- The change of an amount, relative to the old one. -/
def amountChange (new old : ℤ) : ℚ := (toBitcoin new - toBitcoin old) / toBitcoin old

/-- The most that the balances and limits allow at a price; an order that may still be edited
leaves a reserve of the asset. -/
def getBitcoinAmount (all : AllBalances) (ticker : DealerTicker) (price : ℚ)
    (sendBitcoins maxAmount : Bool) : ℤ :=
  let walletAsset := (all.wallet ticker).getD 0
  let walletBitcoin := (all.wallet .lbtc).getD 0 / (1 + serverFeeRate)
  let bitcoinMaxSend := (all.maxSend .lbtc).getD f64Max
  let bitcoinMaxRecv := (all.maxRecv .lbtc).getD f64Max
  let assetMaxSend := (all.maxSend ticker).getD f64Max
  let assetMaxRecv := (all.maxRecv ticker).getD f64Max
  let extraAssetDownscale := if maxAmount then 1 else 1 / (1 + extraAssetUtxoFraction)
  if sendBitcoins then
    fromBitcoin (min (min walletBitcoin (assetMaxRecv * extraAssetDownscale / price))
      bitcoinMaxSend)
  else
    fromBitcoin (min (min (walletAsset * extraAssetDownscale / price) bitcoinMaxRecv)
      (assetMaxSend * extraAssetDownscale / price))

/-! ### Taking and signing -/

/-- Why an order is not taken or signed. -/
inductive TakeError where
  | amountMin
  | amountMax
  | tickerNotFound (ticker : Ticker)
  | noIndexPrice
  | ask (actualPrice ask : ℚ)
  | bid (actualPrice bid : ℚ)
  | bitcoinAmount (amount max : ℤ)
deriving DecidableEq

/-- What the wallet gives or gets in bitcoin, with the fee. -/
def Details.actualBitcoinAmount (d : Details) : ℤ :=
  if d.sendBitcoins then d.bitcoinAmount + d.serverFee else d.bitcoinAmount - d.serverFee

/-- Whether the dealer takes an order, and why not. -/
def takeOrder (params : Params) (assets : List Asset) (details : Details) (all : AllBalances)
    (indexPrices : IndexPrices) (interest : ℚ) : Call TakeError Unit := do
  ensure (details.bitcoinAmount ≥ params.bitcoinAmountMin) .amountMin
  ensure (details.bitcoinAmount ≤ params.bitcoinAmountMax) .amountMax
  let asset ← unwrap (assets.find? fun asset => asset.assetId = details.asset)
  let ticker ← okOr (DealerTicker.ofName asset.ticker) (.tickerNotFound asset.ticker)
  let assetAmount := assetFloatAmount details.assetAmount asset.precision
  let actualPrice := assetAmount / toBitcoin details.actualBitcoinAmount
  assert (actualPrice > 0)
  let indexPrice ← okOr (indexPrices ticker) .noIndexPrice
  let dealerPrice ← unwrap (applyInterest indexPrice.price interest)
  let bitcoinAmountMax := getBitcoinAmount all ticker actualPrice details.sendBitcoins true
  if details.sendBitcoins then
    ensure (actualPrice ≥ dealerPrice.ask) (.ask actualPrice dealerPrice.ask)
  else ensure (actualPrice ≤ dealerPrice.bid) (.bid actualPrice dealerPrice.bid)
  ensure (details.bitcoinAmount ≤ bitcoinAmountMax)
    (.bitcoinAmount details.bitcoinAmount bitcoinAmountMax)

/-- The inputs of the PSET for an order; the error is a balance that is too low.  The calls of the
wallet's RPC that follow panic if they fail. -/
def getPset (params : Params) (details : Details) (utxos : Utxos) (extraAssetUtxo : Bool) :
    Call Unit (List TxOut) := do
  let sendAsset := if details.sendBitcoins then params.bitcoinAssetId else details.asset
  let sendAmount :=
    if details.sendBitcoins then details.bitcoinAmount + details.serverFee else details.assetAmount
  let assetUtxos := utxos.values.filter fun u => u.asset = sendAsset
  let amounts := assetUtxos.map Utxo.amount
  ensure (sendAmount ≤ amounts.sum) ()
  let utxoAmount := if extraAssetUtxo && !details.sendBitcoins then
      min amounts.sum (roundAway (sendAmount * (1 + extraAssetUtxoFraction)))
    else sendAmount
  let selected ← unwrap (selectUtxo amounts utxoAmount)
  unwrap (takeCoins assetUtxos selected)

/-! ### Own orders -/

/-- The server's answers to the requests that one call of `updatePrice` may make. -/
structure Replies where
  submit : Option (OrderId × Details)
  addr : Bool
  edit : Bool
  cancel : Bool

/-- A request with its answer. -/
inductive Exchange where
  | submit (bitcoinAmount price : ℚ) (orderId : Option OrderId)
  | addr (orderId : OrderId) (ok : Bool)
  | edit (orderId : OrderId) (price : ℚ) (ok : Bool)
  | cancel (orderId : OrderId) (ok : Bool)
deriving DecidableEq

/-- The interest of an offer: the fee of the configured amount is added to it. -/
def interestTakeAdjusted (params : Params) : ℚ :=
  let expectedServerFee := fromBitcoin (max (serverFeeRate * toBitcoin params.bitcoinAmountSubmit)
    (toBitcoin minServerFee))
  params.interestSubmit
    * (1 + toBitcoin expectedServerFee / toBitcoin params.bitcoinAmountSubmit)

/-- The price of an offer. -/
def offerPrice (params : Params) (price : PricePair) (sendBitcoins : Bool) : ℚ :=
  getPrice price sendBitcoins (interestTakeAdjusted params)

/-- The amount of a new order: what the balances allow, at most the configured one. -/
def newBitcoinAmountNormal (params : Params) (all : AllBalances) (ticker : DealerTicker)
    (price : ℚ) (sendBitcoins : Bool) : ℤ :=
  min (getBitcoinAmount all ticker price sendBitcoins false) params.bitcoinAmountSubmit

/-- The bitcoin amount of a submitted order: negative where the dealer sends. -/
def signedAmount (sendBitcoins : Bool) (amount : ℤ) : ℚ :=
  if sendBitcoins then -toBitcoin amount else toBitcoin amount

/-- A new order: it counts as the dealer's own once its address was accepted. -/
def submitOrder (params : Params) (utxos : Utxos) (sendBitcoins : Bool) (amount : ℤ) (price : ℚ)
    (r : Replies) : Option (Option OwnOrder × List Exchange) :=
  let bitcoinAmount := signedAmount sendBitcoins amount
  match r.submit with
  | none => some (none, [.submit bitcoinAmount price none])
  | some (orderId, details) =>
    match getPset params details utxos true with
    | .error .panic => none
    | .error (.error _) => some (none, [.submit bitcoinAmount price (some orderId)])
    | .ok _ => some (if r.addr then some ⟨orderId, amount, price⟩ else none,
        [.submit bitcoinAmount price (some orderId), .addr orderId r.addr])

/-- An order is cancelled and stays in its slot until it is reported complete. -/
def cancelOrder (own : OwnOrder) (r : Replies) : Option OwnOrder × List Exchange :=
  (some own, [.cancel own.orderId r.cancel])

/-- A new price: if the edit fails the order is cancelled, and its slot is emptied at once, whether
the cancel succeeds or not. -/
def editOrder (own : OwnOrder) (price : ℚ) (r : Replies) : Option OwnOrder × List Exchange :=
  if r.edit then (some { own with price := price }, [.edit own.orderId price true])
  else (none, [.edit own.orderId price false, .cancel own.orderId r.cancel])

/-- One slot in a tick: its order is submitted, edited or cancelled; `none` is a panic. -/
def updatePrice (params : Params) (assets : List Asset) (indexPrices : IndexPrices)
    (all : AllBalances) (utxos : Utxos) (key : OwnOrderKey) (own : Option OwnOrder) (r : Replies) :
    Option (Option OwnOrder × List Exchange) := do
  let _ ← assets.find? fun asset => asset.ticker = key.ticker.name
  let price := (indexPrices key.ticker).map fun p => offerPrice params p.price key.sendBitcoins
  match own, price with
  | none, none => return (none, [])
  | some own, none => return cancelOrder own r
  | none, some price =>
    let normal := newBitcoinAmountNormal params all key.ticker price key.sendBitcoins
    if normal ≥ params.bitcoinAmountMin then
      submitOrder params utxos key.sendBitcoins normal price r
    else return (none, [])
  | some own, some price =>
    let normal := newBitcoinAmountNormal params all key.ticker price key.sendBitcoins
    let max := getBitcoinAmount all key.ticker price key.sendBitcoins true
    if max = 0 ∨ own.bitcoinAmount > max
        ∨ amountChange normal own.bitcoinAmount ≥ recreateOrderAmountFraction then
      return cancelOrder own r
    else if own.price ≠ price then return editOrder own price r
    else return (some own, [])

/-! ### What one call can do -/

section

variable {params : Params} {assets : List Asset} {indexPrices : IndexPrices} {all : AllBalances}
  {utxos : Utxos} {key : OwnOrderKey} {own own' : Option OwnOrder} {r : Replies}
  {trace : List Exchange}

/-- A submitted order is accepted with its address, or leaves the slot empty. -/
theorem submitOrder_cases {sendBitcoins : Bool} {amount : ℤ} {price : ℚ}
    (h : submitOrder params utxos sendBitcoins amount price r = some (own', trace)) :
    ∃ reply rest, trace = .submit (signedAmount sendBitcoins amount) price reply :: rest ∧
      ((own' = none ∧ (rest = [] ∨ ∃ orderId, rest = [.addr orderId false]))
        ∨ ∃ orderId, reply = some orderId ∧ own' = some ⟨orderId, amount, price⟩
          ∧ rest = [.addr orderId true]) := by
  unfold submitOrder at h
  split at h
  · cases h
    exact ⟨_, _, rfl, .inl ⟨rfl, .inl rfl⟩⟩
  · split at h
    · cases h
    · cases h
      exact ⟨_, _, rfl, .inl ⟨rfl, .inl rfl⟩⟩
    · cases h
      refine ⟨_, _, rfl, ?_⟩
      cases r.addr with
      | true => exact .inr ⟨_, rfl, rfl, rfl⟩
      | false => exact .inl ⟨rfl, .inr ⟨_, rfl⟩⟩

/-- Everything that a call of `updatePrice` can do: nothing, cancel and keep the order, edit it,
fail to edit it and give it up, or submit a new one. -/
theorem updatePrice_cases
    (h : updatePrice params assets indexPrices all utxos key own r = some (own', trace)) :
    (own' = own ∧ trace = [])
      ∨ (∃ o, own = some o ∧ own' = some o ∧ trace = [.cancel o.orderId r.cancel])
      ∨ (∃ o price, own = some o ∧ own' = some { o with price := price }
        ∧ trace = [.edit o.orderId price true])
      ∨ (∃ o price, own = some o ∧ own' = none
        ∧ trace = [.edit o.orderId price false, .cancel o.orderId r.cancel])
      ∨ (∃ index price amount, own = none ∧ indexPrices key.ticker = some index
        ∧ price = offerPrice params index.price key.sendBitcoins
        ∧ amount = newBitcoinAmountNormal params all key.ticker price key.sendBitcoins
        ∧ params.bitcoinAmountMin ≤ amount
        ∧ submitOrder params utxos key.sendBitcoins amount price r = some (own', trace)) := by
  unfold updatePrice at h
  -- without the asset the dealer panics
  cases hasset : assets.find? fun asset => asset.ticker = key.ticker.name with
  | none =>
    rw [hasset] at h
    cases h
  | some asset =>
    rw [hasset] at h
    -- without a price of the index an order is cancelled
    cases hindex : indexPrices key.ticker with
    | none =>
      cases own with
      | none =>
        simp only [hindex, Option.map_none, Option.bind_eq_bind, Option.bind_some] at h
        cases h
        exact .inl ⟨rfl, rfl⟩
      | some o =>
        simp only [hindex, Option.map_none, Option.bind_eq_bind, Option.bind_some] at h
        cases h
        exact .inr (.inl ⟨o, rfl, rfl, rfl⟩)
    | some index =>
      cases own with
      | none =>
        simp only [hindex, Option.map_some, Option.bind_eq_bind, Option.bind_some] at h
        split at h
        · -- only here a new order is submitted
          next hmin => exact .inr (.inr (.inr (.inr ⟨index, _, _, rfl, rfl, rfl, rfl, hmin, h⟩)))
        · cases h
          exact .inl ⟨rfl, rfl⟩
      -- the amount does not fit any more, or the price has changed, or all is as it was
      | some o =>
        simp only [hindex, Option.map_some, Option.bind_eq_bind, Option.bind_some] at h
        split at h
        · cases h
          exact .inr (.inl ⟨o, rfl, rfl, rfl⟩)
        · split at h
          · unfold editOrder at h
            split at h
            · cases h
              exact .inr (.inr (.inl ⟨o, _, rfl, rfl, rfl⟩))
            · cases h
              exact .inr (.inr (.inr (.inl ⟨o, _, rfl, rfl, rfl⟩)))
          · cases h
            exact .inl ⟨rfl, rfl⟩

end

/-! ### A dealer in one asset -/

namespace Sample

/-- The settings of the samples. -/
def params : Params :=
  { bitcoinAssetId := ⟨"bitcoin"⟩, interestSubmit := 10075 / 10000, interestSign := 1005 / 1000
    tickers := [.usdt], tickersNodup := by decide, bitcoinAmountSubmit := 100000000, bitcoinAmountMin := 10000
    bitcoinAmountMax := 100000000 }

theorem params_accepted : params.Accepted where
  min := by decide +kernel
  submitMin := by decide
  submitMax := by decide
  sign := by decide +kernel
  submit := by decide +kernel
  limit := by decide +kernel

/-- Dollars on the chain. -/
def tether : Asset := ⟨⟨"tether"⟩, "Tether", ⟨"USDt"⟩, none, 8, none⟩

/-- The assets of the samples. -/
def assets : List Asset := [⟨⟨"bitcoin"⟩, "Bitcoin", ⟨"L-BTC"⟩, none, 8, none⟩, tether]

/-- The order that sells bitcoin for dollars. -/
def sellTether : OwnOrderKey := ⟨.usdt, true⟩

/-- An index price. -/
def index : PriceTimestamp := ⟨⟨20000, 20000⟩, 0⟩

/-- Only dollars have a price. -/
def indexPrices : IndexPrices := fun t => if t = .usdt then some index else none

end Sample

end SideSwap.Dealer
