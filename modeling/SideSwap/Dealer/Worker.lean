import SideSwap.Dealer.Orders

/-!
# The loop of the order-book dealer

The state of `worker` and what it does with each message.  The requests of one tick are answered
within the tick (`Answers`); a request that is not answered in time, like any failed `expect`, ends
the thread (`none`).
-/

namespace SideSwap.Dealer

open Call

/-! ### State and messages -/

/-- The variables of the dealer's loop. -/
structure Worker where
  assets : List Asset
  serverConnected : Bool
  utxos : Utxos
  orders : Map OrderId Details
  takenOrders : List OrderId
  balances : AllBalances
  indexPrices : IndexPrices
  pendingSigns : Map OrderId Details
  ownOrders : OwnOrderKey → Option OwnOrder

/-- The variables before the first message. -/
def Worker.init : Worker :=
  { assets := [], serverConnected := false, utxos := ∅, orders := ∅, takenOrders := []
    balances := ⟨fun _ => none, fun _ => none, fun _ => none⟩, indexPrices := fun _ => none
    pendingSigns := ∅, ownOrders := fun _ => none }

/-- What is reported to the program that runs the dealer. -/
structure SwapSucceed where
  txid : String
  ticker : DealerTicker
  bitcoinAmount : ℤ
  sendBitcoins : Bool
deriving DecidableEq

/-- The server's answers to the requests of one tick, and its time. -/
structure Answers where
  update : OwnOrderKey → Replies
  take : OrderId → Bool
  now : ℕ

/-- The messages that the loop reacts to. -/
inductive Msg where
  | connected (assets : List Asset) (loginOrders : List OrderId)
      (subscribed : List (OrderId × Details))
  | disconnected
  | orderCreated (orderId : OrderId) (details : Details)
  | orderRemoved (orderId : OrderId)
  | sign (orderId : OrderId) (details : Details)
  | complete (orderId : OrderId) (txid : Option String)
  | reloadUtxo (unspent : List UnspentItem)
  | price (ticker : DealerTicker) (price : Option PricePair) (now : ℕ)
  | limitBalance (ticker : DealerTicker) (recvLimit : Bool) (balance : ℚ)
  | resetPrices
  | timer (answers : Answers)

/-- What handling a message leaves: the state, the exchanges about own orders, and the reports. -/
structure Handled where
  worker : Worker
  exchanges : List (OwnOrderKey × Exchange)
  reports : List SwapSucceed

/-! ### The tick -/

/-- The slots of `own_orders`. -/
def Params.keys (params : Params) : List OwnOrderKey :=
  params.tickers.flatMap fun ticker => [⟨ticker, false⟩, ⟨ticker, true⟩]

/-- A slot is updated once in a tick. -/
theorem Params.keys_nodup (params : Params) : params.keys.Nodup := by
  rw [Params.keys, List.nodup_flatMap]
  refine ⟨fun ticker _ => by simp, ?_⟩
  refine params.tickersNodup.imp fun {a b} hne => ?_
  simp [Function.onFun, List.Disjoint, hne]

/-- The first loop of the tick: `updatePrice` on every slot. -/
def updateOwnOrders (params : Params) (w : Worker) (answers : Answers) :
    List OwnOrderKey → (OwnOrderKey → Option OwnOrder) →
    Option ((OwnOrderKey → Option OwnOrder) × List (OwnOrderKey × Exchange))
  | [], own => some (own, [])
  | key :: rest, own => do
    let (slot, trace) ← updatePrice params w.assets w.indexPrices w.balances w.utxos key (own key)
      (answers.update key)
    let (own, more) ← updateOwnOrders params w answers rest (Function.update own key slot)
    return (own, trace.map (Prod.mk key) ++ more)

/-- The second loop of the tick: an order of someone else is taken once, if its price is right and
the coins are there. -/
def takeOrders (params : Params) (w : Worker) (answers : Answers) :
    List (OrderId × Details) → List OrderId → Option (List OrderId)
  | [], taken => some taken
  | (orderId, details) :: rest, taken =>
    if orderId ∈ taken then takeOrders params w answers rest taken
    else
      match takeOrder params w.assets details w.balances w.indexPrices params.interestSubmit with
      | .error .panic => none
      | .error (.error _) => takeOrders params w answers rest taken
      | .ok () =>
        match getPset params details w.utxos false with
        | .error .panic => none
        | .error (.error _) => takeOrders params w answers rest taken
        | .ok _ => takeOrders params w answers rest
            (if answers.take orderId then orderId :: taken else taken)

/-- The last part of the tick: prices that were not renewed in time are dropped. -/
def expirePrices (prices : IndexPrices) (now : ℕ) : IndexPrices := fun ticker =>
  (prices ticker).filter fun p => now - p.timestamp ≤ priceExpirationTime

/-- The slots are left alone while the dealer is not connected. -/
def updateSlots (params : Params) (w : Worker) (answers : Answers) :
    Option ((OwnOrderKey → Option OwnOrder) × List (OwnOrderKey × Exchange)) :=
  if w.serverConnected then updateOwnOrders params w answers params.keys w.ownOrders
  else some (w.ownOrders, [])

/-- A tick of the timer: the orders follow the price. -/
def tick (params : Params) (w : Worker) (answers : Answers) : Option Handled := do
  let (own, exchanges) ← updateSlots params w answers
  let taken ← takeOrders params w answers w.orders.toList w.takenOrders
  return {
    worker := { w with
      ownOrders := own, takenOrders := taken
      indexPrices := expirePrices w.indexPrices answers.now }
    exchanges := exchanges, reports := [] }

/-! ### The other messages -/

/-- A completed order leaves its slot. -/
def Worker.clearOrder (w : Worker) (orderId : OrderId) : OwnOrderKey → Option OwnOrder := fun key =>
  (w.ownOrders key).filter fun own => own.orderId ≠ orderId

/-- The report of a completed order: its details must be known from the signing. -/
def swapSucceed (w : Worker) (orderId : OrderId) (txid : String) : Option SwapSucceed := do
  let details ← w.pendingSigns[orderId]?
  let asset ← w.assets.find? fun asset => asset.assetId = details.asset
  let ticker ← DealerTicker.ofName asset.ticker
  return { txid := txid, ticker := ticker, bitcoinAmount := details.actualBitcoinAmount
           sendBitcoins := details.sendBitcoins }

/-- The state changes and nothing is sent or reported. -/
def quiet (w : Worker) : Option Handled := some { worker := w, exchanges := [], reports := [] }

/-- A new connection: the dealer may not have orders on it yet. -/
def connected (w : Worker) (assets : List Asset) (loginOrders : List OrderId)
    (subscribed : List (OrderId × Details)) : Option Handled :=
  if loginOrders.isEmpty then
    quiet { w with
      assets := assets, serverConnected := true
      orders := subscribed.foldl (fun m o => m.insert o.1 o.2) w.orders }
  else none

/-- A request to sign is ignored if the price is not right any more. -/
def signOrder (params : Params) (w : Worker) (orderId : OrderId) (details : Details) :
    Option Handled :=
  match takeOrder params w.assets details w.balances w.indexPrices params.interestSign with
  | .error .panic => none
  | .error (.error _) => quiet w
  | .ok () => quiet { w with pendingSigns := w.pendingSigns.insert orderId details }

/-- A successful order is reported. -/
def completionReports (w : Worker) (orderId : OrderId) : Option String → Option (List SwapSucceed)
  | some txid => (swapSucceed w orderId txid).map fun report => [report]
  | none => some []

/-- An order is complete: its slot is free, and a success is reported. -/
def completed (w : Worker) (orderId : OrderId) (txid : Option String) : Option Handled :=
  (completionReports w orderId txid).map fun reports =>
    { worker := { w with
        ownOrders := w.clearOrder orderId, pendingSigns := w.pendingSigns.erase orderId }
      exchanges := [], reports := reports }

/-- One turn of the loop. -/
def handle (params : Params) (w : Worker) : Msg → Option Handled
  | .connected assets loginOrders subscribed => connected w assets loginOrders subscribed
  | .disconnected =>
    quiet { w with
      serverConnected := false, orders := ∅, takenOrders := [], ownOrders := fun _ => none }
  | .orderCreated orderId details => quiet { w with orders := w.orders.insert orderId details }
  | .orderRemoved orderId => quiet { w with orders := w.orders.erase orderId }
  | .sign orderId details => signOrder params w orderId details
  | .complete orderId txid => completed w orderId txid
  | .reloadUtxo unspent =>
    quiet { w with
      balances := { w.balances with wallet := walletBalances w.assets unspent }
      utxos := reloadUtxos w.utxos unspent }
  | .price ticker price now =>
    quiet { w with
      indexPrices := Function.update w.indexPrices ticker (price.map fun p => ⟨p, now⟩) }
  | .limitBalance ticker recvLimit balance =>
    quiet { w with
      balances :=
        if recvLimit then
          { w.balances with maxRecv := Function.update w.balances.maxRecv ticker (some balance) }
        else { w.balances with maxSend := Function.update w.balances.maxSend ticker (some balance) } }
  | .resetPrices => quiet { w with indexPrices := fun _ => none }
  | .timer answers => tick params w answers

/-! ### What a message does to the own orders -/

/-- A tick updates all slots, or none without a connection. -/
theorem tick_own {params : Params} {w : Worker} {answers : Answers} {h : Handled}
    (hrun : tick params w answers = some h) :
    (h.worker.ownOrders = w.ownOrders ∧ h.exchanges = [])
      ∨ updateOwnOrders params w answers params.keys w.ownOrders
        = some (h.worker.ownOrders, h.exchanges) := by
  simp only [tick, Option.bind_eq_bind, Option.bind_eq_some_iff, Option.pure_def] at hrun
  obtain ⟨⟨own, exchanges⟩, hown, taken, -, hrun⟩ := hrun
  cases hrun
  unfold updateSlots at hown
  split at hown
  · exact .inr hown
  · cases hown
    exact .inl ⟨rfl, rfl⟩

/-- The own orders change in a tick, when an order completes and when the connection is lost. -/
theorem handle_own {params : Params} {w : Worker} {msg : Msg} {h : Handled}
    (hrun : handle params w msg = some h) :
    (h.worker.ownOrders = w.ownOrders ∧ h.exchanges = [])
      ∨ (msg = .disconnected ∧ h.worker.ownOrders = (fun _ => none) ∧ h.exchanges = [])
      ∨ (∃ orderId txid, msg = .complete orderId txid
        ∧ h.worker.ownOrders = w.clearOrder orderId ∧ h.exchanges = [])
      ∨ (∃ answers, msg = .timer answers
        ∧ updateOwnOrders params w answers params.keys w.ownOrders
          = some (h.worker.ownOrders, h.exchanges)) := by
  cases msg with
  | connected assets loginOrders subscribed =>
    simp only [handle, connected] at hrun
    split at hrun
    · cases hrun
      exact .inl ⟨rfl, rfl⟩
    · cases hrun
  | disconnected =>
    cases hrun
    exact .inr (.inl ⟨rfl, rfl, rfl⟩)
  | orderCreated orderId details =>
    cases hrun
    exact .inl ⟨rfl, rfl⟩
  | orderRemoved orderId =>
    cases hrun
    exact .inl ⟨rfl, rfl⟩
  | sign orderId details =>
    simp only [handle, signOrder] at hrun
    split at hrun
    · cases hrun
    · cases hrun
      exact .inl ⟨rfl, rfl⟩
    · cases hrun
      exact .inl ⟨rfl, rfl⟩
  | complete orderId txid =>
    simp only [handle, completed, Option.map_eq_some_iff] at hrun
    obtain ⟨reports, -, rfl⟩ := hrun
    exact .inr (.inr (.inl ⟨orderId, txid, rfl, rfl, rfl⟩))
  | reloadUtxo unspent =>
    cases hrun
    exact .inl ⟨rfl, rfl⟩
  | price ticker price now =>
    cases hrun
    exact .inl ⟨rfl, rfl⟩
  | limitBalance ticker recvLimit balance =>
    cases hrun
    exact .inl ⟨rfl, rfl⟩
  | resetPrices =>
    cases hrun
    exact .inl ⟨rfl, rfl⟩
  -- the only message after which the dealer talks to the server about its own orders
  | timer answers =>
    obtain hsame | hupdate := tick_own hrun
    · exact .inl hsame
    · exact .inr (.inr (.inr ⟨answers, rfl, hupdate⟩))

end SideSwap.Dealer
