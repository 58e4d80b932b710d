import SideSwap.Dealer.Coins
import SideSwap.Lib.Call

/-!
# Quotes of the Bitfinex dealer

`get_new_quote` of `sideswap_dealer_bitfinex`: what the dealer offers on a request for a quote, and
the coins that it would spend.  A quote is an error with a reject reason, or a panic.
-/

namespace SideSwap.Bitfinex

open Dealer Call

/-! ### Data -/

/-- A price of the exchange, with the time at which it came. -/
structure Price extends Dealer.PricePair where
  timestamp : ℕ
deriving DecidableEq

/-- A quote: what the dealer pays, the coins for it and their change. -/
structure Quote where
  proposal : ℤ
  changeAmount : ℤ
  txouts : List TxOut
deriving DecidableEq

/-- A quote with the time at which it was made. -/
structure QuoteTimestamp where
  quote : Quote
  timestamp : ℕ
deriving DecidableEq

/-- A request for a quote and what came of it. -/
structure ActiveSwap where
  ticker : Option DealerTicker
  rfq : MatchRfq
  sendBitcoin : Bool
  quoteLast : Except RfqRejectReason Quote
  quotesOld : List QuoteTimestamp
  swap : Option Swap
  accepted : Bool
  lastUpdated : ℕ

/-- The settings that a quote depends on. -/
structure Args where
  mainnet : Bool
  currencyBtc : String
  currencyUsdt : String
  currencyEur : String

/-- The balances at the exchange, by currency. -/
abbrev ExchangeBalances := String → Option ℚ

/-- `DEALER_TICKERS`. -/
def dealerTickers : List DealerTicker := [.usdt, .eurx]

/-- `BF_RESERVE`. -/
def bfReserve : ℚ := 99 / 100

/-- A balance in satoshis; an unknown one is zero. -/
def getExchangeBalance (balances : ExchangeBalances) (name : String) : ℤ :=
  Dealer.fromBitcoin ((balances name).getD 0 * bfReserve)

/-! ### The quote -/

/-- The price at which an RFQ is quoted, as the code has it: the bid where the dealer sends
bitcoin. -/
def rfqPrice (price : Dealer.PricePair) (sendBitcoin : Bool) : ℚ :=
  if sendBitcoin then price.bid else price.ask

/-- What the dealer would send.  The cast binds tighter than the division and the product, and a
division by zero panics. -/
def getProposal (price : Dealer.PricePair) (interest : ℚ) (sendBitcoin : Bool) (sendAmount : ℤ) :
    Option ℤ :=
  let mdPrice := rfqPrice price sendBitcoin
  if sendBitcoin then
    let divisor := truncate (mdPrice * interest)
    if divisor = 0 then none else some (sendAmount.tdiv divisor)
  else some (sendAmount * truncate (mdPrice / interest))

/-- Whether the exchange cannot take the other side of the swap, with these balances in satoshis. -/
def exchangeLow (args : Args) (balance : String → ℤ) (sendBitcoin : Bool)
    (ticker : Ticker) (bitcoinAmount assetAmount : ℤ) : Bool :=
  let lowBtc := !sendBitcoin && balance args.currencyBtc < bitcoinAmount
  let lowUsdt := sendBitcoin && ticker = DealerTicker.usdt.name
    && balance args.currencyUsdt < assetAmount
  let lowEurx := sendBitcoin && ticker = DealerTicker.eurx.name
    && balance args.currencyEur < assetAmount && args.mainnet
  lowBtc || lowUsdt || lowEurx

/-- The coins of an asset that no order has reserved. -/
def freeCoins (utxos : Utxos) (asset : AssetId) : List Utxo :=
  utxos.values.filter fun u => u.asset = asset && u.reserve.isNone

/-- The last part of a quote: where the dealer receives bitcoin, the network fee is deducted from
the bitcoins before they are converted again. -/
def finishQuote (price : Dealer.PricePair) (interest : ℚ) (swap : ActiveSwap) (proposal selectedAmount
    expectedFee : ℤ) (txouts : List TxOut) : Call RfqRejectReason Quote := do
  if swap.sendBitcoin then
    return { proposal := proposal, changeAmount := selectedAmount - proposal, txouts := txouts }
  else
    let correctedProposal := (swap.rfq.sendAmount - expectedFee)
      * truncate (rfqPrice price swap.sendBitcoin / interest)
    ensure (correctedProposal > 0) .amountLow
    return { proposal := correctedProposal, changeAmount := selectedAmount - correctedProposal,
             txouts := txouts }

/-- The quote for a swap, over exact rationals. -/
def getNewQuote (assets : List Asset) (modulePrice : Option Price) (swap : ActiveSwap)
    (utxos : Utxos) (elementsFeeRate interest : ℚ) (args : Args) (balances : ExchangeBalances) :
    Call RfqRejectReason Quote := do
  let rfq := swap.rfq
  -- the dealer sends what the client receives
  let assetSend ← unwrap (assets.find? fun v => v.assetId = rfq.recvAsset)
  let assetRecv ← unwrap (assets.find? fun v => v.assetId = rfq.sendAsset)
  -- one of the two assets must be bitcoin, and the other one must be dealt in
  assert (assetSend.ticker = DealerTicker.lbtc.name || assetRecv.ticker = DealerTicker.lbtc.name)
  let otherAsset := if swap.sendBitcoin then assetRecv else assetSend
  ensure (dealerTickers.any fun t => t.name = otherAsset.ticker) .noDealer
  let price ← okOr modulePrice .serverError
  let proposal ← unwrap (getProposal price.toPricePair interest swap.sendBitcoin rfq.sendAmount)
  -- what is quoted is the other side of what the client has fixed
  let bitcoinAmount := if swap.sendBitcoin then proposal else rfq.sendAmount
  let assetAmount := if swap.sendBitcoin then rfq.sendAmount else proposal
  ensure (proposal > 0) .amountLow
  ensure (!exchangeLow args (getExchangeBalance balances) swap.sendBitcoin otherAsset.ticker
    bitcoinAmount assetAmount) .amountHigh
  -- coins that are reserved for other swaps do not count
  let assetUtxos := freeCoins utxos assetSend.assetId
  let amounts := assetUtxos.map Utxo.amount
  ensure (amounts.sum ≠ 0) .noDealer
  ensure (amounts.sum ≥ proposal) .amountHigh
  let selected ← unwrap (selectUtxo amounts proposal)
  assert (selected.sum - proposal ≥ 0)
  -- the inputs and outputs of both sides, and a change output for each side that needs one
  let vinCount := rfq.utxoCount + selected.length
  let voutCount := 2 + (if rfq.withChange then 1 else 0)
    + if selected.sum - proposal > 0 then 1 else 0
  let expectedFee := Dealer.expectedNetworkFee vinCount voutCount elementsFeeRate
  let txouts ← unwrap (takeCoins assetUtxos selected)
  finishQuote price.toPricePair interest swap proposal selected.sum expectedFee txouts

/-! ### What a quote is made of -/

/-- The network fee of a swap with this many inputs of the dealer, with or without its change. -/
def shapeFee (rfq : MatchRfq) (elementsFeeRate : ℚ) (inputs : ℕ) (changeAmount : ℤ) : ℤ :=
  Dealer.expectedNetworkFee (rfq.utxoCount + inputs)
    (2 + (if rfq.withChange then 1 else 0) + if changeAmount > 0 then 1 else 0) elementsFeeRate

section

variable {assets : List Asset} {modulePrice : Option Price} {swap : ActiveSwap} {utxos : Utxos}
  {elementsFeeRate interest : ℚ} {args : Args} {balances : ExchangeBalances} {quote : Quote}

/-- A successful quote, step by step: the price, the proposal that the free coins cover, the
selected amounts and their coins, and the fee of the shape that they give. -/
theorem getNewQuote_ok
    (h : getNewQuote assets modulePrice swap utxos elementsFeeRate interest args balances
      = .ok quote) :
    ∃ price proposal selected txouts, modulePrice = some price
      ∧ getProposal price.toPricePair interest swap.sendBitcoin swap.rfq.sendAmount = some proposal
      ∧ 0 < proposal
      ∧ proposal ≤ ((freeCoins utxos swap.rfq.recvAsset).map Utxo.amount).sum
      ∧ selectUtxo ((freeCoins utxos swap.rfq.recvAsset).map Utxo.amount) proposal = some selected
      ∧ proposal ≤ selected.sum
      ∧ takeCoins (freeCoins utxos swap.rfq.recvAsset) selected = some txouts
      ∧ finishQuote price.toPricePair interest swap proposal selected.sum
        (shapeFee swap.rfq elementsFeeRate selected.length (selected.sum - proposal)) txouts
        = .ok quote := by
  simp only [getNewQuote, bind_eq_ok, unwrap_eq_ok, okOr_eq_ok, ensure_eq_ok, assert_eq_ok,
    decide_eq_true_eq] at h
  obtain ⟨assetSend, hsend, _, _, _, _, _, _, price, hprice, proposal, hprop, _, hpos, _, _, _, _, _,
    henough, selected, hselect, _, hcover, txouts, htake, hfinish⟩ := h
  have hasset : assetSend.assetId = swap.rfq.recvAsset := by simpa using List.find?_some hsend
  rw [hasset] at henough hselect htake
  exact ⟨price, proposal, selected, txouts, hprice, hprop, hpos, henough, hselect, by omega, htake,
    hfinish⟩

/-- The last part of a quote, by the side of the swap. -/
theorem finishQuote_ok {price : Dealer.PricePair} {proposal selectedAmount expectedFee : ℤ}
    {txouts : List TxOut}
    (h : finishQuote price interest swap proposal selectedAmount expectedFee txouts = .ok quote) :
    quote.txouts = txouts ∧ quote.changeAmount = selectedAmount - quote.proposal
      ∧ (swap.sendBitcoin = true → quote.proposal = proposal)
      ∧ (swap.sendBitcoin = false → 0 < quote.proposal ∧ quote.proposal
        = (swap.rfq.sendAmount - expectedFee) * truncate (price.ask / interest)) := by
  cases hside : swap.sendBitcoin with
  | true =>
    simp only [finishQuote, hside, if_true, pure_eq_ok] at h
    rw [← h]
    simp
  | false =>
    simp only [finishQuote, hside, Bool.false_eq_true, if_false, bind_eq_ok, ensure_eq_ok,
      decide_eq_true_eq, pure_eq_ok, rfqPrice] at h
    obtain ⟨_, hpos, rfl⟩ := h
    simpa using hpos

end

end SideSwap.Bitfinex
