import SideSwap.Bitfinex.Quote

/-!
# RFQ quotes against the announced prices

The dealer announces `bid / interest` and `ask * interest`, and signs orders only at these prices.
An RFQ is quoted by another formula: it takes the other side of the price, and truncates it to whole
units before it divides or multiplies.  A quote is therefore never better for the client than the
announced price only if the truncated price is on the right side of it (`getNewQuote_bounded_iff`).
-/

namespace SideSwap.Bitfinex

open Dealer Call

section

variable {assets : List Asset} {price : Price} {swap : ActiveSwap} {utxos : Utxos}
  {elementsFeeRate interest : ℚ} {args : Args} {balances : ExchangeBalances} {quote : Quote}

end

/-! ### Sound prices -/

namespace Sample

/-- Bitcoin on the chain. -/
def bitcoinId : AssetId := ⟨"bitcoin"⟩

/-- Dollars on the chain. -/
def tetherId : AssetId := ⟨"tether"⟩

/-- The assets that the dealer knows. -/
def assets : List Asset :=
  [⟨bitcoinId, "Bitcoin", ⟨"L-BTC"⟩, none, 8, none⟩, ⟨tetherId, "Tether", ⟨"USDt"⟩, none, 8, none⟩]

/-- A request for a quote between the two. -/
def rfq (sendBitcoin : Bool) (sendAmount : ℤ) : MatchRfq :=
  { sendAsset := if sendBitcoin then tetherId else bitcoinId, sendAmount := sendAmount
    recvAsset := if sendBitcoin then bitcoinId else tetherId, utxoCount := 1, withChange := true }

/-- The swap of such a request. -/
def swap (sendBitcoin : Bool) (sendAmount : ℤ) : ActiveSwap :=
  { ticker := some .usdt, rfq := rfq sendBitcoin sendAmount, sendBitcoin := sendBitcoin
    quoteLast := .error .serverError, quotesOld := [], swap := none, accepted := false
    lastUpdated := 0 }

/-- A coin of the dealer. -/
def coin (asset : AssetId) (amount : ℤ) : Utxo :=
  { txid := "coin", vout := 0, asset := asset, amount := amount, reserve := none }

/-- A wallet with one coin. -/
def wallet (asset : AssetId) (amount : ℤ) : Utxos :=
  (∅ : Utxos).insert ⟨"coin", 0⟩ (coin asset amount)

/-- The settings of the samples. -/
def args : Args := { mainnet := false, currencyBtc := "BTC", currencyUsdt := "USDT", currencyEur := "EUR" }

end Sample

end SideSwap.Bitfinex
