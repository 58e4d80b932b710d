import SideSwap.Bitfinex.Quote
import SideSwap.Dealer.Worker
import SideSwap.Lib.Runs

/-!
# The loop of the Bitfinex dealer

The main loop of `sideswap_dealer_bitfinex`, as far as it is about RFQs, coins and hedges.  Every
round takes one message.  It first sends the quotes that have changed and then handles the message.

What the outside answers in a round is part of the round: the server's acknowledgements of the
quotes, the times and the clock.  A failed `expect` ends the process (`none`).  Times are in
milliseconds.

`log` is what the dealer has sent, newest first, with the completed swaps and the confirmations that
it has received.
-/

namespace SideSwap.Bitfinex

open Dealer

/-! ### Settings -/

/-- `ACCEPT_GRACE_PERIOD`. -/
def acceptGracePeriod : ℕ := 65000

/-- `PRICE_EXPIRED`. -/
def priceExpired : ℕ := 300000

/-- `INTEREST_DEFAULT`. -/
def interestDefault : ℚ := 10075 / 10000

/-- `MIN_HEDGE_AMOUNT`. -/
def minHedgeAmount : ℚ := 2 / 10000

/-- The settings of the dealer, with the books it trades in. -/
structure Settings extends Args where
  bookUsdt : String
  bookEurx : String

/-- `BITFINEX_FEE_PROD` and `BITFINEX_FEE_TEST`. -/
def Settings.fee (settings : Settings) : ℚ := if settings.mainnet then 17 / 10000 else 2 / 1000

/-- `book_names`. -/
def Settings.bookName (settings : Settings) : DealerTicker → Option String
  | .usdt => some settings.bookUsdt
  | .eurx => some settings.bookEurx
  | _ => none

/-- `book_tickers`, in which the last of two books with one name counts. -/
def Settings.bookTicker (settings : Settings) (bookName : String) : Option DealerTicker :=
  if bookName = settings.bookUsdt then some .usdt
  else if bookName = settings.bookEurx then some .eurx
  else none

/-! ### State and messages -/

/-- What leaves the loop. -/
inductive Event where
  /-- the server has acknowledged a quote -/
  | quoted (orderId : OrderId) (quote : Except RfqRejectReason Quote) (time : ℕ)
  /-- the PSBT of a swap, with its inputs, its outputs and the quote that it was made for -/
  | psbt (orderId : OrderId) (inputs : List TxOut) (outputs : List (AssetId × ℤ)) (quote : Quote)
  | signed (orderId : OrderId) (psbt : String)
  /-- a swap is complete, of an RFQ or of the order-book dealer -/
  | completed (orderId : Option OrderId) (swap : SwapSucceed)
  | orderSubmit (cid : ℤ) (amount : ℚ) (bookName : String) (time : ℕ)
  | orderConfirm (cid : ℤ)
  /-- the alert that an order was not confirmed -/
  | orderTimeout (cid : ℤ) (time : ℕ)
deriving DecidableEq

/-- The variables of the main loop. -/
structure State where
  assets : List Asset
  utxos : Utxos
  /-- the fee rate of the server's status -/
  serverStatus : Option ℚ
  swaps : Map OrderId ActiveSwap
  modulePrices : DealerTicker → Option Price
  exchangeBalances : ExchangeBalances
  pendingOrders : Map ℤ ℕ
  log : List Event

/-- The variables before the first message. -/
def State.init : State :=
  { assets := [], utxos := ∅, serverStatus := none, swaps := ∅, modulePrices := fun _ => none
    exchangeBalances := fun _ => none, pendingOrders := ∅, log := [] }

/-- The messages that the main loop reacts to. -/
inductive Msg where
  | timer
  /-- the connection to the server, with its answers -/
  | connected (assets : List Asset) (elementsFeeRate : ℚ)
  | disconnected
  | rfqCreated (orderId : OrderId) (rfq : MatchRfq)
  | rfqRemoved (orderId : OrderId) (accepted : Bool)
  | swap (orderId : OrderId) (state : SwapState)
  | serverStatus (elementsFeeRate : ℚ)
  | moduleDisconnected
  | bookUpdate (bookName : String) (price : Dealer.PricePair)
  | orderConfirm (cid : ℤ)
  | walletUpdate (currency : String) (balance : ℚ)
  /-- the wallet is read again, with the answer of `listunspent` -/
  | reloadUtxo (unspent : List UnspentItem)
  /-- the order-book dealer has completed a swap -/
  | dealer (swap : SwapSucceed)
  /-- messages about balancing, orders and connections, which change nothing here -/
  | other

/-- A turn of the loop: its message, and what the outside answers meanwhile. -/
structure Round where
  msg : Msg
  /-- the time at which the message is taken -/
  now : ℕ
  /-- the time at which the server has acknowledged the quote of an order, if it does -/
  quoted : OrderId → Option ℕ
  /-- the time at which the message is handled -/
  handled : ℕ
  /-- `timestamp_now` -/
  clock : ℤ

/-! ### Quotes -/

/-- The new quote of an RFQ, if it does not panic. -/
def newQuote (settings : Settings) (s : State) (swap : ActiveSwap) :
    Option (Except RfqRejectReason Quote) := do
  let elementsFeeRate ← s.serverStatus
  match getNewQuote s.assets (swap.ticker.bind s.modulePrices) swap s.utxos elementsFeeRate
      interestDefault settings.toArgs s.exchangeBalances with
  | .ok quote => some (.ok quote)
  | .error (.error reason) => some (.error reason)
  | .error .panic => none

/-- Quotes that cannot be accepted any more are removed, as long as there is a newer one. -/
def dropOutdated (now : ℕ) : List QuoteTimestamp → List QuoteTimestamp
  | first :: second :: rest =>
    if now - second.timestamp > acceptGracePeriod then dropOutdated now (second :: rest)
    else first :: second :: rest
  | quotes => quotes

/-- A new quote replaces the last one, unless that is the same or was sent just before. -/
def sendQuote (round : Round) (orderId : OrderId) (swap : ActiveSwap)
    (quote : Except RfqRejectReason Quote) : ActiveSwap × List Event :=
  if swap.quoteLast = quote then (swap, [])
  else if round.now - swap.lastUpdated < 1000 && swap.quoteLast.isOk && quote.isOk then (swap, [])
  else
    match round.quoted orderId with
    | none => (swap, [])
    | some time =>
      let quotes := swap.quotesOld ++ (quote.toOption.map fun q => ⟨q, time⟩).toList
      ({ swap with quotesOld := dropOutdated time quotes, quoteLast := quote, lastUpdated := time },
        [.quoted orderId quote time])

/-- Quote a swap again; one that is accepted keeps its quotes. -/
def updateQuote (settings : Settings) (s : State) (round : Round) (orderId : OrderId)
    (swap : ActiveSwap) : Option (ActiveSwap × List Event) :=
  if swap.accepted then some (swap, [])
  else (newQuote settings s swap).map (sendQuote round orderId swap)

/-- Take over a new quote. -/
def State.requote (s : State) (orderId : OrderId) (r : ActiveSwap × List Event) : State :=
  { s with swaps := s.swaps.insert orderId r.1, log := r.2 ++ s.log }

/-- The first part of a round: one RFQ after the other. -/
def updateQuotes (settings : Settings) (s : State) (round : Round) : Option State :=
  Runs.run (fun s' p => (updateQuote settings s round p.1 p.2).map (s'.requote p.1)) s s.swaps.toList

/-! ### Swaps -/

/-- Give back the coins that a swap has reserved. -/
def freeReservation (orderId : OrderId) (utxos : Utxos) : Utxos :=
  utxos.map fun _ u => if u.reserve = some orderId then { u with reserve := none } else u

/-- A request for a quote; the next round quotes it.  An asset that is not known is a panic. -/
def rfqCreated (s : State) (round : Round) (orderId : OrderId) (rfq : MatchRfq) : Option State := do
  let assetSend ← s.assets.find? fun v => v.assetId = rfq.recvAsset
  let assetRecv ← s.assets.find? fun v => v.assetId = rfq.sendAsset
  let sendBitcoin : Bool := assetSend.ticker = DealerTicker.lbtc.name
  let otherAsset := if sendBitcoin then assetRecv else assetSend
  let swap : ActiveSwap :=
    { ticker := dealerTickers.find? fun t => t.name = otherAsset.ticker
      rfq := rfq, sendBitcoin := sendBitcoin, quoteLast := .error .serverError, quotesOld := []
      swap := none, accepted := false, lastUpdated := round.handled }
  some { s with swaps := s.swaps.insert orderId swap }

/-- A request is gone.  One that was accepted keeps its swap. -/
def rfqRemoved (s : State) (orderId : OrderId) (accepted : Bool) : Option State :=
  if accepted then
    s.swaps[orderId]?.map fun swap =>
      { s with swaps := s.swaps.insert orderId { swap with accepted := true } }
  else some { s with swaps := s.swaps.erase orderId }

/-- The last quote of the amount. -/
def chooseQuote (swap : ActiveSwap) (sendAmount : ℤ) : Option Quote :=
  (swap.quotesOld.reverse.find? fun item => item.quote.proposal = sendAmount).map QuoteTimestamp.quote

/-- The coins of a quote are reserved for its order. -/
def reserveCoins (orderId : OrderId) : List TxOut → Utxos → Option Utxos
  | [], utxos => some utxos
  | txout :: rest, utxos => do
    let p ← utxos.toList.find? fun p => p.2.txid = txout.txid && p.2.vout = txout.vout
    reserveCoins orderId rest (utxos.insert p.1 { p.2 with reserve := some orderId })

/-- The coins that are reserved for the order. -/
def reservedInputs (utxos : Utxos) (orderId : OrderId) : List TxOut :=
  (utxos.values.filter fun u => u.reserve = some orderId).map Utxo.txOut

/-- What the dealer receives, and its change. -/
def psbtOutputs (swap : Swap) (quote : Quote) : List (AssetId × ℤ) :=
  (swap.recvAsset, swap.recvAmount) ::
    if quote.changeAmount > 0 then [(swap.sendAsset, quote.changeAmount)] else []

/-- Reserve and offer the coins of the quote.  An amount that was not quoted, or a coin that is
gone, is a panic. -/
def waitPsbt (s : State) (orderId : OrderId) (active : ActiveSwap) (swap : Swap) : Option State := do
  let quote ← chooseQuote active swap.sendAmount
  let utxos ← reserveCoins orderId quote.txouts s.utxos
  some
    { s with
      utxos := utxos
      swaps := s.swaps.insert orderId { active with swap := some swap }
      log := .psbt orderId (reservedInputs utxos orderId) (psbtOutputs swap quote) quote :: s.log }

/-! ### Hedges -/

/-- What is bought or sold on the exchange: the bitcoins that the wallet has sent, with the fee of
the exchange on top, or those that it has received. -/
def signedBitcoinAmount (settings : Settings) (swap : SwapSucceed) : ℚ :=
  if swap.sendBitcoins then
    Dealer.toBitcoin
      (Dealer.fromBitcoin (Dealer.toBitcoin swap.bitcoinAmount / (1 - settings.fee)))
  else -Dealer.toBitcoin swap.bitcoinAmount

/-- Buy back at the exchange what a finished swap has sold. -/
def hedgeOrder (settings : Settings) (s : State) (round : Round) (swap : SwapSucceed) :
    Option State :=
  if Dealer.toBitcoin swap.bitcoinAmount ≥ minHedgeAmount then
    (settings.bookName swap.ticker).map fun bookName =>
      { s with
        pendingOrders := s.pendingOrders.insert round.clock round.handled
        log := .orderSubmit round.clock (signedBitcoinAmount settings swap) bookName round.handled ::
          s.log }
  else some s

/-- The completed swap of an RFQ, if it and its ticker are known. -/
def swapDone (active : ActiveSwap) (txid : String) : Option SwapSucceed := do
  let swap ← active.swap
  let ticker ← active.ticker
  some ⟨txid, ticker, if active.sendBitcoin then swap.sendAmount else swap.recvAmount,
    active.sendBitcoin⟩

/-- A swap is reported as done. -/
def State.complete (s : State) (orderId : Option OrderId) (swap : SwapSucceed) : State :=
  { s with log := .completed orderId swap :: s.log }

/-- The server moves a swap on. -/
def handleSwap (settings : Settings) (s : State) (round : Round) (orderId : OrderId)
    (active : ActiveSwap) : SwapState → Option State
  | .waitPsbt swap => waitPsbt s orderId active swap
  | .waitSign psbt => some { s with log := .signed orderId psbt :: s.log }
  | .failed _ =>
    some { s with utxos := freeReservation orderId s.utxos, swaps := s.swaps.erase orderId }
  | .done txid => do
    let swap ← swapDone active txid
    hedgeOrder settings (s.complete (some orderId) swap) round swap

/-! ### The round -/

/-- The time after which a hedge that is not confirmed is reported. -/
def orderTimeout : ℕ := 30000

/-- The hedges that have not been confirmed in time. -/
def expiredOrders (s : State) (now : ℕ) : List ℤ :=
  (s.pendingOrders.toList.filter fun p => decide (now - p.2 > orderTimeout)).map Prod.fst

/-- A hedge is reported as not confirmed, once. -/
def State.expire (s : State) (now : ℕ) (cid : ℤ) : State :=
  { s with pendingOrders := s.pendingOrders.erase cid, log := .orderTimeout cid now :: s.log }

/-- A price that is too old is forgotten. -/
def freshPrices (prices : DealerTicker → Option Price) (now : ℕ) : DealerTicker → Option Price :=
  fun ticker =>
    if ticker ∈ dealerTickers then
      (prices ticker).filter fun price => ! decide (now - price.timestamp > priceExpired)
    else prices ticker

/-- One turn of the main loop. -/
def handle (settings : Settings) (s : State) (round : Round) : Option State :=
  match round.msg with
  | .timer =>
    some ((expiredOrders s round.now).foldl (fun s cid => s.expire round.now cid)
      { s with modulePrices := freshPrices s.modulePrices round.now })
  | .connected assets elementsFeeRate =>
    some { s with assets := assets, serverStatus := some elementsFeeRate }
  -- the server forgets its requests, and so the coins are free again
  | .disconnected =>
    some { s with swaps := ∅, utxos := s.utxos.map fun _ u => { u with reserve := none } }
  | .rfqCreated orderId rfq => rfqCreated s round orderId rfq
  | .rfqRemoved orderId accepted => rfqRemoved s orderId accepted
  -- a notification about an unknown swap is a panic
  | .swap orderId state =>
    s.swaps[orderId]?.bind fun active => handleSwap settings s round orderId active state
  | .serverStatus elementsFeeRate => some { s with serverStatus := some elementsFeeRate }
  | .moduleDisconnected => some { s with modulePrices := fun _ => none }
  | .bookUpdate bookName price =>
    (settings.bookTicker bookName).map fun ticker =>
      { s with modulePrices := Function.update s.modulePrices ticker (some ⟨price, round.now⟩) }
  -- the confirmation is kept in the history, too
  | .orderConfirm cid =>
    some { s with pendingOrders := s.pendingOrders.erase cid, log := .orderConfirm cid :: s.log }
  | .walletUpdate currency balance =>
    some { s with exchangeBalances := Function.update s.exchangeBalances currency (some balance) }
  | .reloadUtxo unspent => some { s with utxos := reloadUtxos s.utxos unspent }
  | .dealer swap => hedgeOrder settings (s.complete none swap) round swap
  | .other => some s

/-- One round of the loop. -/
def step (settings : Settings) (s : State) (round : Round) : Option State :=
  (updateQuotes settings s round).bind fun s' => handle settings s' round

end SideSwap.Bitfinex
