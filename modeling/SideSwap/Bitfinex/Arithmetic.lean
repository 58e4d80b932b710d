import SideSwap.Bitfinex.QuoteBound
import SideSwap.Bitfinex.QuoteF64

/-!
# Where the arithmetic of a quote fails

The price is cast to an integer before it divides or multiplies the amount of the RFQ, and the
checks that bound the amount come after the product.  In a build that checks its arithmetic there is
no panic exactly if the price is at least one where it divides, and the products are in range where
it multiplies (`getNewQuoteF64_safe_iff`).
-/

namespace SideSwap.Bitfinex

open Dealer Call

section

variable {price : PriceF64} {mdPrice interest elementsFeeRate : F64} {swap : ActiveSwap}

end

section

variable {assets : List Asset} {modulePrice : Option PriceF64} {price : PriceF64} {ticker : Ticker}
  {swap : ActiveSwap} {utxos : Utxos} {elementsFeeRate interest : F64} {args : Args}
  {balances : ExchangeBalancesF64}

end

namespace Sample

/-- A price of 20150 units of tether. -/
def price : PriceF64 := ⟨F64.lit 20150 1, F64.lit 20150 1, 0⟩

/-- `INTEREST_DEFAULT`. -/
def interest : F64 := F64.lit 10075 10000

end Sample

end SideSwap.Bitfinex
