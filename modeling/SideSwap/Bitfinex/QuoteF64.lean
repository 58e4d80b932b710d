import SideSwap.Bitfinex.Quote
import SideSwap.Lib.F64Sign

/-!
# Quotes in machine arithmetic

`getNewQuote` computes in exact arithmetic.  Here the same function works as the dealer does: the
price, the interest, the fee rate and the balances are doubles, an amount is an `i64`, and a cast of
a double truncates and saturates.  A division by zero always panics; another result out of range
does so only in a build that checks its arithmetic, and wraps around in one that does not.

The quote is computed in two parts: `draftQuote` ends with the fee of the swap that the selected
coins give, and `finishQuoteF64` deducts it.  The two builds agree unless a check fails
(`getNewQuoteF64_eq_of_fits`), and the quote is that of `getNewQuote` where no cast and no product
is rounded to another integer (`getNewQuote_of_getNewQuoteF64`).
-/

namespace SideSwap.Bitfinex

open Dealer Call

/-! ### Checked operations -/

/-- What the build does with a result out of range. -/
inductive Overflow where
  | checks
  | wraps
deriving DecidableEq

/-- Why a quote ends early: it is rejected, or its arithmetic panics. -/
inductive Stop where
  | reject (reason : RfqRejectReason)
  | arithmetic
deriving DecidableEq

/-- The `i64` of an exact result. -/
def i64Result (overflow : Overflow) (z : ℤ) : Call Stop ℤ :=
  match overflow with
  | .checks => ensure (IsI64 z) .arithmetic >>= fun _ => pure z
  | .wraps => pure (wrap z)

/-- A division panics in every build: by zero, and where the quotient is out of range. -/
def divI64 (a b : ℤ) : Call Stop ℤ :=
  ensure (b ≠ 0 ∧ IsI64 (a.tdiv b)) .arithmetic >>= fun _ => pure (a.tdiv b)

/-- A product of two `i64`. -/
def mulI64 (overflow : Overflow) (a b : ℤ) : Call Stop ℤ := i64Result overflow (a * b)

/-- A difference of two `i64`. -/
def subI64 (overflow : Overflow) (a b : ℤ) : Call Stop ℤ := i64Result overflow (a - b)

section

variable {overflow : Overflow} {a b c z : ℤ} {f : Failure Stop}

/-- A checked result is in range; a wrapped one always comes. -/
theorem i64Result_eq_ok :
    i64Result overflow z = .ok c ↔ (overflow = .checks → IsI64 z) ∧ wrap z = c := by
  cases overflow with
  | checks =>
    simp only [i64Result, bind_eq_ok, ensure_eq_ok, decide_eq_true_eq, pure_eq_ok, exists_const,
      forall_const]
    exact and_congr_right fun h => by rw [wrap_of_isI64 h]
  | wraps => simp [i64Result]

/-- Only a checked result that is out of range fails. -/
theorem i64Result_eq_error :
    i64Result overflow z = .error f ↔ overflow = .checks ∧ ¬ IsI64 z ∧ f = .error .arithmetic := by
  cases overflow with
  | checks =>
    simp only [i64Result, bind_eq_error, ensure_eq_error, decide_eq_false_iff_not, pure_ne_error,
      and_false, exists_false, or_false, true_and]
  | wraps => simp [i64Result, pure_ne_error]

/-- A division succeeds with a divisor and a quotient in range. -/
theorem divI64_eq_ok : divI64 a b = .ok c ↔ (b ≠ 0 ∧ IsI64 (a.tdiv b)) ∧ a.tdiv b = c := by
  simp only [divI64, bind_eq_ok, ensure_eq_ok, decide_eq_true_eq, pure_eq_ok, exists_const]

/-- A division fails in both builds. -/
theorem divI64_eq_error :
    divI64 a b = .error f ↔ (b ≠ 0 → ¬ IsI64 (a.tdiv b)) ∧ f = .error .arithmetic := by
  simp only [divI64, bind_eq_error, ensure_eq_error, decide_eq_false_iff_not, not_and, pure_ne_error,
    and_false, exists_false, or_false]

end

/-! ### The quote -/

/-- A price of the exchange, with the time at which it came. -/
structure PriceF64 where
  bid : F64
  ask : F64
  timestamp : ℕ
deriving DecidableEq

/-- The balances at the exchange, by currency. -/
abbrev ExchangeBalancesF64 := String → Option F64

/-- `BF_RESERVE`. -/
def bfReserveF64 : F64 := F64.lit 99 100

/-- A balance in satoshis; an unknown one is zero. -/
def getExchangeBalanceF64 (balances : ExchangeBalancesF64) (name : String) : ℤ :=
  SideSwap.fromBitcoin ((balances name).getD (F64.zero false) * bfReserveF64)

/-- The side of the price that the request is quoted with. -/
def rfqPriceF64 (price : PriceF64) (sendBitcoin : Bool) : F64 :=
  if sendBitcoin then price.bid else price.ask

/-- What the dealer would send.  The cast binds tighter than the division and the product. -/
def getProposalF64 (overflow : Overflow) (mdPrice interest : F64) (sendBitcoin : Bool)
    (sendAmount : ℤ) : Call Stop ℤ :=
  if sendBitcoin then divI64 sendAmount (mdPrice * interest).toI64
  else mulI64 overflow sendAmount (mdPrice / interest).toI64

/-- The network fee of a swap with this many inputs of the dealer, with or without its change. -/
def shapeFeeF64 (rfq : MatchRfq) (elementsFeeRate : F64) (inputs : ℕ) (changeAmount : ℤ) : ℤ :=
  SideSwap.expectedNetworkFee (rfq.utxoCount + inputs)
    (2 + (if rfq.withChange then 1 else 0) + if changeAmount > 0 then 1 else 0) elementsFeeRate

/-- A quote before the network fee is deducted, with the fee. -/
structure Draft where
  mdPrice : F64
  proposal : ℤ
  selectedAmount : ℤ
  expectedFee : ℤ
  txouts : List TxOut
deriving DecidableEq

/-- The first part of `get_new_quote`.  The sums of the coins are exact: what a wallet holds of an
asset is in range. -/
def draftQuote (overflow : Overflow) (assets : List Asset) (modulePrice : Option PriceF64)
    (swap : ActiveSwap) (utxos : Utxos) (elementsFeeRate interest : F64) (args : Args)
    (balances : ExchangeBalancesF64) : Call Stop Draft := do
  let rfq := swap.rfq
  -- the dealer sends what the client receives
  let assetSend ← unwrap (assets.find? fun v => v.assetId = rfq.recvAsset)
  let assetRecv ← unwrap (assets.find? fun v => v.assetId = rfq.sendAsset)
  assert (assetSend.ticker = DealerTicker.lbtc.name || assetRecv.ticker = DealerTicker.lbtc.name)
  let otherAsset := if swap.sendBitcoin then assetRecv else assetSend
  ensure (dealerTickers.any fun t => t.name = otherAsset.ticker) (.reject .noDealer)
  let price ← okOr modulePrice (.reject .serverError)
  -- the bid or the ask, as the side of the swap has it
  let mdPrice := rfqPriceF64 price swap.sendBitcoin
  let proposal ← getProposalF64 overflow mdPrice interest swap.sendBitcoin rfq.sendAmount
  let bitcoinAmount := if swap.sendBitcoin then proposal else rfq.sendAmount
  let assetAmount := if swap.sendBitcoin then rfq.sendAmount else proposal
  ensure (proposal > 0) (.reject .amountLow)
  ensure (!exchangeLow args (getExchangeBalanceF64 balances) swap.sendBitcoin otherAsset.ticker
    bitcoinAmount assetAmount) (.reject .amountHigh)
  -- coins that are reserved for other swaps do not count
  let assetUtxos := freeCoins utxos assetSend.assetId
  let amounts := assetUtxos.map Utxo.amount
  ensure (amounts.sum ≠ 0) (.reject .noDealer)
  ensure (amounts.sum ≥ proposal) (.reject .amountHigh)
  let selected ← unwrap (selectUtxo amounts proposal)
  assert (selected.sum - proposal ≥ 0)
  -- the fee of the two sides together, for the shape that the selection gives the transaction
  let expectedFee := shapeFeeF64 rfq elementsFeeRate selected.length (selected.sum - proposal)
  let txouts ← unwrap (takeCoins assetUtxos selected)
  return { mdPrice := mdPrice, proposal := proposal, selectedAmount := selected.sum
           expectedFee := expectedFee, txouts := txouts }

/-- The last part: where the dealer receives bitcoin, the fee is deducted and the rest is converted
again. -/
def finishQuoteF64 (overflow : Overflow) (interest : F64) (swap : ActiveSwap) (draft : Draft) :
    Call Stop Quote := do
  if swap.sendBitcoin then
    return { proposal := draft.proposal, changeAmount := draft.selectedAmount - draft.proposal
             txouts := draft.txouts }
  else
    let received ← subI64 overflow swap.rfq.sendAmount draft.expectedFee
    let correctedProposal ← mulI64 overflow received (draft.mdPrice / interest).toI64
    -- the change of a quote that is not rejected is in range
    ensure (correctedProposal > 0) (.reject .amountLow)
    return { proposal := correctedProposal, changeAmount := draft.selectedAmount - correctedProposal
             txouts := draft.txouts }

/-- The quote for a swap, as the code computes it. -/
def getNewQuoteF64 (overflow : Overflow) (assets : List Asset) (modulePrice : Option PriceF64)
    (swap : ActiveSwap) (utxos : Utxos) (elementsFeeRate interest : F64) (args : Args)
    (balances : ExchangeBalancesF64) : Call Stop Quote := do
  let draft ← draftQuote overflow assets modulePrice swap utxos elementsFeeRate interest args balances
  finishQuoteF64 overflow interest swap draft

/-! ### The two parts, step by step -/

/-- The RFQ is of known assets, one of them bitcoin and the other one, with this ticker, one that is
dealt in; and there is a price for it. -/
def Priced (assets : List Asset) (modulePrice : Option PriceF64) (swap : ActiveSwap)
    (price : PriceF64) (ticker : Ticker) : Prop :=
  ∃ assetSend assetRecv, assets.find? (fun v => v.assetId = swap.rfq.recvAsset) = some assetSend
    ∧ assets.find? (fun v => v.assetId = swap.rfq.sendAsset) = some assetRecv
    ∧ (assetSend.ticker = DealerTicker.lbtc.name ∨ assetRecv.ticker = DealerTicker.lbtc.name)
    ∧ ticker = (if swap.sendBitcoin then assetRecv else assetSend).ticker
    ∧ (dealerTickers.any fun t => t.name = ticker) = true
    ∧ modulePrice = some price

section

variable {overflow : Overflow} {assets : List Asset} {modulePrice : Option PriceF64}
  {swap : ActiveSwap} {utxos : Utxos} {elementsFeeRate interest : F64} {args : Args}
  {balances : ExchangeBalancesF64} {draft : Draft} {quote : Quote}

/-- A draft: the proposal that the exchange and the free coins cover, the selected amounts with
their coins, and the fee of the shape that they give. -/
theorem draftQuote_eq_ok :
    draftQuote overflow assets modulePrice swap utxos elementsFeeRate interest args balances = .ok draft
      ↔ ∃ price ticker selected, Priced assets modulePrice swap price ticker
        ∧ draft.mdPrice = rfqPriceF64 price swap.sendBitcoin
        ∧ getProposalF64 overflow draft.mdPrice interest swap.sendBitcoin swap.rfq.sendAmount
          = .ok draft.proposal
        ∧ 0 < draft.proposal
        ∧ (!exchangeLow args (getExchangeBalanceF64 balances) swap.sendBitcoin ticker
          (if swap.sendBitcoin then draft.proposal else swap.rfq.sendAmount)
          (if swap.sendBitcoin then swap.rfq.sendAmount else draft.proposal)) = true
        ∧ draft.proposal ≤ ((freeCoins utxos swap.rfq.recvAsset).map Utxo.amount).sum
        ∧ selectUtxo ((freeCoins utxos swap.rfq.recvAsset).map Utxo.amount) draft.proposal
          = some selected
        ∧ draft.selectedAmount = selected.sum ∧ draft.proposal ≤ selected.sum
        ∧ draft.expectedFee = shapeFeeF64 swap.rfq elementsFeeRate selected.length
          (selected.sum - draft.proposal)
        ∧ takeCoins (freeCoins utxos swap.rfq.recvAsset) selected = some draft.txouts := by
  simp only [draftQuote, bind_eq_ok, unwrap_eq_ok, okOr_eq_ok, ensure_eq_ok, assert_eq_ok, pure_eq_ok,
    decide_eq_true_eq]
  constructor
  · -- the asset that is found is the one that was looked up, so that its coins are the free ones
    rintro ⟨assetSend, hsend, assetRecv, hrecv, _, hbitcoin, _, hdealer, price, hprice, proposal, hprop,
      _, hpos, _, hlow, _, -, _, henough, selected, hselect, _, hcover, txouts, htake, rfl⟩
    have hasset : assetSend.assetId = swap.rfq.recvAsset := by simpa using List.find?_some hsend
    rw [hasset] at henough hselect htake
    exact ⟨price, _, selected, ⟨assetSend, assetRecv, hsend, hrecv, by simpa using hbitcoin, rfl, hdealer,
      hprice⟩, rfl, hprop, hpos, hlow, henough, hselect, rfl,
      sub_nonneg.mp hcover, rfl, htake⟩
  · -- conversely, the conditions are met in the order of the code
    rintro ⟨price, ticker, selected, ⟨assetSend, assetRecv, hsend, hrecv, hbitcoin, rfl, hdealer,
      hprice⟩, hmd, hprop, hpos, hlow, henough, hselect, hamount, hcover, hfee, htake⟩
    have hasset : assetSend.assetId = swap.rfq.recvAsset := by simpa using List.find?_some hsend
    rw [hmd] at hprop
    refine ⟨assetSend, hsend, assetRecv, hrecv, (), by simpa using hbitcoin, (), hdealer, price, hprice,
      draft.proposal, hprop, (), hpos, (), hlow, ?_⟩
    rw [hasset]
    refine ⟨(), by omega, (), henough, selected, hselect, (), by omega, draft.txouts, htake, ?_⟩
    rw [← hmd, ← hfee, ← hamount]

/-- The last part of a quote, by the side of the swap. -/
theorem finishQuoteF64_ok (h : finishQuoteF64 overflow interest swap draft = .ok quote) :
    quote.txouts = draft.txouts ∧ quote.changeAmount = draft.selectedAmount - quote.proposal
      ∧ (swap.sendBitcoin = true → quote.proposal = draft.proposal)
      ∧ (swap.sendBitcoin = false → 0 < quote.proposal ∧ quote.proposal
        = wrap (wrap (swap.rfq.sendAmount - draft.expectedFee) * (draft.mdPrice / interest).toI64)) := by
  cases hside : swap.sendBitcoin with
  | true =>
    simp only [finishQuoteF64, hside, if_true, pure_eq_ok] at h
    rw [← h]
    simp
  | false =>
    simp only [finishQuoteF64, hside, Bool.false_eq_true, if_false, subI64, mulI64, bind_eq_ok,
      i64Result_eq_ok, ensure_eq_ok, decide_eq_true_eq, pure_eq_ok] at h
    obtain ⟨_, ⟨-, rfl⟩, _, ⟨-, rfl⟩, _, hpos, rfl⟩ := h
    simpa using hpos

end

/-! ### The two builds -/

/-- The same result in both builds, unless a check fails. -/
def Agrees {α : Type} (m m' : Call Stop α) : Prop := m = .error (.error .arithmetic) ∨ m' = m

namespace Agrees

variable {α β : Type}

/-- A computation without checked operations is the same in both builds. -/
theorem refl (m : Call Stop α) : Agrees m m := .inr rfl

/-- Both builds do the same up to the first check that fails. -/
theorem bind {m m' : Call Stop α} {k k' : α → Call Stop β} (hm : Agrees m m')
    (hk : ∀ a, Agrees (k a) (k' a)) : Agrees (m >>= k) (m' >>= k') := by
  obtain rfl | rfl := hm
  · exact .inl (bind_of_error rfl)
  · cases m' with
    | error f => exact .refl _
    | ok a => exact hk a

theorem i64Result (overflow : Overflow) (z : ℤ) :
    Agrees (i64Result .checks z) (i64Result overflow z) := by
  cases overflow with
  | checks => exact .refl _
  | wraps =>
    by_cases h : IsI64 z
    · exact .inr (by simp [Bitfinex.i64Result, ensure, h, wrap_of_isI64 h])
    · exact .inl (i64Result_eq_error.mpr ⟨rfl, h, rfl⟩)

theorem getProposalF64 (overflow : Overflow) (mdPrice interest : F64) (sendBitcoin : Bool)
    (sendAmount : ℤ) :
    Agrees (getProposalF64 .checks mdPrice interest sendBitcoin sendAmount)
      (getProposalF64 overflow mdPrice interest sendBitcoin sendAmount) := by
  cases sendBitcoin with
  | true => exact .refl _
  | false => exact i64Result overflow _

theorem finishQuoteF64 (overflow : Overflow) (interest : F64) (swap : ActiveSwap) (draft : Draft) :
    Agrees (finishQuoteF64 .checks interest swap draft)
      (finishQuoteF64 overflow interest swap draft) := by
  unfold Bitfinex.finishQuoteF64
  split
  · exact .refl _
  · exact (i64Result overflow _).bind fun _ => (i64Result overflow _).bind fun _ => .refl _

end Agrees

section

variable {assets : List Asset} {modulePrice : Option PriceF64} {swap : ActiveSwap} {utxos : Utxos}
  {elementsFeeRate interest : F64} {args : Args} {balances : ExchangeBalancesF64}

/-- A quote without a failing check does not depend on the build. -/
theorem getNewQuoteF64_eq_of_fits (overflow : Overflow)
    (h : getNewQuoteF64 .checks assets modulePrice swap utxos elementsFeeRate interest args balances
      ≠ .error (.error .arithmetic)) :
    getNewQuoteF64 overflow assets modulePrice swap utxos elementsFeeRate interest args balances
      = getNewQuoteF64 .checks assets modulePrice swap utxos elementsFeeRate interest args balances := by
  have hdraft : Agrees
      (draftQuote .checks assets modulePrice swap utxos elementsFeeRate interest args balances)
      (draftQuote overflow assets modulePrice swap utxos elementsFeeRate interest args balances) := by
    unfold draftQuote
    refine (Agrees.refl _).bind fun _ => (Agrees.refl _).bind fun _ => (Agrees.refl _).bind fun _ =>
      (Agrees.refl _).bind fun _ => (Agrees.refl _).bind fun _ => ?_
    exact (Agrees.getProposalF64 overflow _ _ _ _).bind fun _ => .refl _
  exact (hdraft.bind fun draft => Agrees.finishQuoteF64 overflow interest swap draft).resolve_left h

end

/-! ### Where it is exact -/

/-- The exact quantities that the doubles stand for: their casts and their fees are the same
integers. -/
structure Stands (price : PriceF64) (interest elementsFeeRate : F64) (balances : ExchangeBalancesF64)
    (rfq : MatchRfq) (price' : Price) (interest' elementsFeeRate' : ℚ) (balances' : ExchangeBalances) :
    Prop where
  divisor : (price.bid * interest).toI64 = truncate (price'.bid * interest')
  factor : (price.ask / interest).toI64 = truncate (price'.ask / interest')
  fee : ∀ inputs change, shapeFeeF64 rfq elementsFeeRate inputs change
    = shapeFee rfq elementsFeeRate' inputs change
  balance : getExchangeBalanceF64 balances = getExchangeBalance balances'

/-- A quote without a failing check is the exact one, of what the doubles stand for. -/
theorem getNewQuote_of_getNewQuoteF64 {assets : List Asset} {price : PriceF64} {swap : ActiveSwap}
    {utxos : Utxos} {elementsFeeRate interest : F64} {args : Args} {balances : ExchangeBalancesF64}
    {quote : Quote} {price' : Price} {interest' elementsFeeRate' : ℚ} {balances' : ExchangeBalances}
    (stands : Stands price interest elementsFeeRate balances swap.rfq price' interest' elementsFeeRate'
      balances')
    (h : getNewQuoteF64 .checks assets (some price) swap utxos elementsFeeRate interest args balances
      = .ok quote) :
    getNewQuote assets (some price') swap utxos elementsFeeRate' interest' args balances'
      = .ok quote := by
  -- the draft over the floating point numbers passes the same checks over the rationals
  obtain ⟨draft, hdraft, hfinish⟩ := bind_eq_ok.mp h
  obtain ⟨p, ticker, selected, ⟨assetSend, assetRecv, hsend, hrecv, hbitcoin, rfl, hdealer, hprice⟩, hmd,
    hprop, hpos, hlow, henough, hselect, hamount, hcover, hfee, htake⟩ := draftQuote_eq_ok.mp hdraft
  cases hprice
  have hasset : assetSend.assetId = swap.rfq.recvAsset := by simpa using List.find?_some hsend
  -- the balances and the fee are the only other numbers that the two read differently
  rw [stands.balance] at hlow
  rw [stands.fee] at hfee
  simp only [getNewQuote, bind_eq_ok, unwrap_eq_ok, okOr_eq_ok, ensure_eq_ok, assert_eq_ok,
    decide_eq_true_eq, Option.some.injEq]
  refine ⟨assetSend, hsend, assetRecv, hrecv, (), by simpa using hbitcoin, (), hdealer, price', rfl,
    draft.proposal, ?_, (), hpos, (), hlow, ?_⟩
  · -- the proposal is a quotient on one side and a product on the other, with the same factor
    cases hside : swap.sendBitcoin with
    | true =>
      simp only [hmd, hside, getProposalF64, rfqPriceF64, if_true, divI64_eq_ok, stands.divisor]
        at hprop
      simp only [getProposal, rfqPrice, if_true, if_neg hprop.1.1, hprop.2]
    | false =>
      simp only [hmd, hside, getProposalF64, rfqPriceF64, Bool.false_eq_true, if_false, mulI64,
        i64Result_eq_ok, forall_const, stands.factor] at hprop
      simp only [getProposal, rfqPrice, Bool.false_eq_true, if_false, ← hprop.2,
        wrap_of_isI64 hprop.1]
  · rw [hasset]
    refine ⟨(), by omega, (), henough, selected, hselect, (), by omega, draft.txouts, htake, ?_⟩
    -- the correction of the proposal for the fee
    cases hside : swap.sendBitcoin with
    | true =>
      simp only [finishQuoteF64, hside, if_true, pure_eq_ok, hamount] at hfinish
      simpa only [finishQuote, hside, if_true, pure_eq_ok] using hfinish
    | false =>
      simp only [finishQuoteF64, hside, Bool.false_eq_true, if_false, subI64, mulI64, bind_eq_ok,
        i64Result_eq_ok, forall_const, ensure_eq_ok, pure_eq_ok, hmd, rfqPriceF64, stands.factor, hfee,
        hamount] at hfinish
      obtain ⟨_, ⟨hreceived, rfl⟩, _, ⟨hcorrected, rfl⟩, hgood⟩ := hfinish
      rw [wrap_of_isI64 hreceived] at hcorrected hgood
      rw [wrap_of_isI64 hcorrected] at hgood
      simp only [finishQuote, hside, Bool.false_eq_true, if_false, rfqPrice, bind_eq_ok, ensure_eq_ok,
        pure_eq_ok]
      exact hgood

end SideSwap.Bitfinex
