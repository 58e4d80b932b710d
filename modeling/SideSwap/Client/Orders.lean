import SideSwap.Client.Swap

/-!
# Orders

An order is created by a maker (`Requestor`) or taken from a link (`Responder`).  The server sends
its terms, which the user reviews (`tryProcessLinkOrder`) and accepts (`tryProcessSubmitDecision`).
The accepted terms are kept in `submitData` and the coins offered for the order in the settings or,
for a taker, in memory.  When the server asks for a signature, the terms it sends are compared with
the accepted ones (`tryProcessSign`).  The order is then signed at once or after a second review.
-/

namespace SideSwap.Client

variable {ε : Type}

/-! ### Submitting and linking -/

/-- The amount of bitcoin to submit: the whole balance is reduced by the server's fee. -/
def submitBitcoinAmount (balance : ℤ) (v : F64) : Option (Except String F64) :=
  if (toBitcoin balance).eq (-v) then do
    let amount ← getMaxBitcoinAmount balance
    return (fun amount => -toBitcoin amount) <$> amount
  else return .ok v

/-- The balance of an asset; an unknown one is zero. -/
def Context.balance (c : Context) (asset : AssetId) : ℤ := c.lastBalances[asset]?.getD 0

/-- What the wallet sends for an order, and of which asset. -/
def detailsSend (liquid : AssetId) (d : Details) : AssetId × ℤ :=
  if d.sendBitcoins then (liquid, wrap (d.bitcoinAmount + d.serverFee)) else (d.asset, d.assetAmount)

/-- An order from a link, as it is shown for a decision. -/
def detailsReview (d : Details) (orderId : OrderId) (indexPrice internal autoSign : Bool) :
    SubmitReview :=
  { orderId := orderId, asset := d.asset, bitcoinAmount := d.bitcoinAmount
    assetAmount := d.assetAmount, price := d.price, sellBitcoin := d.sendBitcoins
    serverFee := d.serverFee, step := if d.side = .requestor then .submit else .quote
    indexPrice := indexPrice, internal := internal, autoSign := autoSign }

/-- The text that is shown where the balance is too small. -/
def insufficientFunds (h : Host) (available required : F64) : String :=
  "Insufficient funds\nAvailable: " ++ h.display available ++ "\nRequired: " ++ h.display required

/-- The wallet has enough of what the order asks for. -/
def checkFunds (h : Host) (details : Details) : Worker String Unit := do
  let ctx ← ctxOr "no context found"
  let (sendAsset, sendAmount) := detailsSend h.liquidAssetId details
  let d ← getData
  let asset ← Proc.okOr d.assets[sendAsset]? "send asset not found"
  let available ← Proc.expect (assetFloatAmount (ctx.balance sendAsset) asset.precision)
  let required ← Proc.expect (assetFloatAmount sendAmount asset.precision)
  Proc.ensure (ctx.balance sendAsset ≥ sendAmount) (insufficientFunds h available required)

/-- Show the terms of an order and remember them as the ones under review. -/
def showLink (orderId : OrderId) (resp : LinkResponse) : Worker String Unit := do
  let d ← getData
  let autoSign := (d.submitData[orderId]?.map SubmitData.autoSign).getD false
  let internal := decide (orderId ∈ d.internal)
  toUi (.submitReview (detailsReview resp.details orderId resp.indexPrice internal autoSign))
  modifyData fun d => { d with visibleSubmit := some orderId }
  let _ ← ctxOr "no context found"
  modifyCtx fun c => { c with activeSubmit := some resp }

/-- Ask for an order, check that the wallet can pay for it, and show it. -/
def tryProcessLinkOrder (h : Host) (orderId : OrderId) : Worker String Unit := do
  let resp ← request h (.link orderId)
  tryAddAsset h (LinkResponse.details resp).asset
  checkFunds h (LinkResponse.details resp)
  showLink orderId resp

/-- The amount of bitcoin of a submitted order, if it is the fixed one. -/
def submitAmount (h : Host) (req : SubmitOrder) : Worker String (Option F64) :=
  match req.bitcoinAmount with
  | some v => do
    let ctx ← expectCtx
    let result ← Proc.expect (submitBitcoinAmount (ctx.balance h.liquidAssetId) v)
    let amount ← Proc.ofExcept result
    pure (some amount)
  | none => pure none

/-- Submit an order and show it like one from a link. -/
def tryProcessSubmitOrder (h : Host) (req : SubmitOrder) : Worker String Unit := do
  let d ← getData
  let sessionId ← Proc.okOr (req.sessionId.or d.settings.sessionId) "empty session_id"
  let bitcoinAmount ← submitAmount h req
  let order : PriceOrder :=
    { asset := req.assetId, bitcoinAmount := bitcoinAmount, assetAmount := req.assetAmount
      price := some req.price, indexPrice := req.indexPrice }
  let resp ← request h (.submit order (some sessionId))
  let orderId := SubmitResponse.orderId resp
  modifyData fun d =>
    { d with internal := if req.sessionId.isNone then insert orderId d.internal else d.internal }
  tryProcessLinkOrder h orderId

/-! ### Checking terms -/

/-- `verify_amounts`: the terms are consistent with their price and the server's fee. -/
def verifyAmounts (h : Host) (d : Data) (details : Details) : Worker String Unit := do
  Proc.ensure (details.asset ≠ h.liquidAssetId)
    "Condition failed: `details.asset != self.liquid_asset_id`"
  Proc.ensure ((F64.zero false).lt details.price = true)
    "Condition failed: `details.price > 0.0`"
  Proc.ensure (details.bitcoinAmount ≥ minBitcoinAmount)
    "Condition failed: `details.bitcoin_amount >= types::MIN_BITCOIN_AMOUNT.to_sat()`"
  Proc.ensure (details.serverFee ≥ minServerFee)
    "Condition failed: `details.server_fee >= types::MIN_SERVER_FEE.to_sat()`"
  Proc.ensure (details.assetAmount > 0) "Condition failed: `details.asset_amount > 0`"
  Proc.ensure (details.serverFee < details.bitcoinAmount)
    "Condition failed: `details.server_fee < details.bitcoin_amount`"
  -- the precision is that of the registered asset
  let asset ← Proc.okOr d.assets[details.asset]? "unknown asset"
  Proc.ensure (asset.precision ≤ 8) "Condition failed: `asset.precision <= 8`"
  verifyPrice details asset.precision
  -- the fee is not negotiated
  Proc.ensure (details.serverFee = getServerFee details.bitcoinAmount)
    "Condition failed: `details.server_fee == server_fee.to_sat()`"
where
  /-- The amount that is not fixed follows from the other one and the price. -/
  verifyPrice (details : Details) (precision : ℕ) : Worker String Unit :=
    match details.orderType with
    | .bitcoin => do
      Proc.ensure (precision = 8) "Condition failed: `asset.precision == 8`"
      let expected ← Proc.expect (assetAmount details.bitcoinAmount details.price precision)
      Proc.ensure (expected = details.assetAmount)
        "Condition failed: `expected_asset_amount == details.asset_amount`"
    | .asset => do
      let expected ← Proc.expect (bitcoinAmount details.assetAmount details.price precision)
      Proc.ensure (expected = details.bitcoinAmount)
        "Condition failed: `expected_bitcoin_amount == details.bitcoin_amount`"

/-! ### Signing -/

/-- What is signed for an order. -/
def SubmitData.psbtInfo (liquid : AssetId) (s : SubmitData) : PsbtInfo :=
  if s.sellBitcoin then
    { sendAsset := liquid, recvAsset := s.asset
      sendAmount := wrap (s.bitcoinAmount + s.serverFee), recvAmount := s.assetAmount }
  else
    { sendAsset := s.asset, recvAsset := liquid
      sendAmount := s.assetAmount, recvAmount := wrap (s.bitcoinAmount - s.serverFee) }

/-- Take the coins of an order out of their store: the settings for a maker, memory for a taker. -/
def takeStoredUtxos (h : Host) (side : OrderSide) (orderId : OrderId) :
    Worker String StoredUtxo := do
  let d ← getData
  match side with
  | .requestor => do
    modifySettings fun s => { s with utxosReq := s.utxosReq.erase orderId }
    saveSettings h
    let utxos ← Proc.okOr d.settings.utxosReq[orderId]? "not utxos found"
    record (.utxosTaken .requestor orderId)
    pure utxos
  | .responder => do
    modifyData fun d => { d with utxosResp := d.utxosResp.erase orderId }
    let utxos ← Proc.okOr d.utxosResp[orderId]? "not utxos found"
    record (.utxosTaken .responder orderId)
    pure utxos

/-- The body of `try_sign`: sign an order with the stored terms and coins. -/
def signOrder (h : Host) (cause : SignCause) (msg : SignNotification) : Worker String Bool := do
  let _ ← ctxOr "no wallet"
  let d ← getData
  let submitData ← Proc.okOr d.submitData[msg.orderId]? "no keys found"
  Proc.ensure (submitData.orderId = msg.orderId) "unexpected order_id"
  let utxos ← takeStoredUtxos h msg.details.side msg.orderId
  let signedPset ← signPsbt h (.order cause msg.orderId) (submitData.psbtInfo h.liquidAssetId)
    utxos.utxos msg.pset
  let _ ← request h (.sign ⟨msg.orderId, signedPset, submitData.side⟩)
  -- the order is finished by a later notification
  pure false

/-- `signOrder`, with its begin in the history. -/
def trySign (h : Host) (cause : SignCause) (msg : SignNotification) : Worker String Bool := do
  record (.trySign cause msg)
  signOrder h cause msg

/-- An order as it is shown for a signature. -/
def SubmitData.signReview (s : SubmitData) (orderId : OrderId) (internal : Bool) : SubmitReview :=
  { orderId := orderId, asset := s.asset, bitcoinAmount := s.bitcoinAmount
    assetAmount := s.assetAmount, price := s.price, sellBitcoin := s.sellBitcoin
    serverFee := s.serverFee, step := .sign, indexPrice := s.indexPrice, internal := internal
    autoSign := s.autoSign }

/-- Show the first prompt whose order is still known, unless a review is shown already. -/
def showPrompts : List SignNotification → Worker ε Unit
  | [] => pure ()
  | msg :: rest => do
    let d ← getData
    if d.visibleSubmit.isSome then pure ()
    else do
      modifyData fun d => { d with pendingSignPrompts := rest }
      match d.submitData[msg.orderId]? with
      | none => showPrompts rest
      | some submitData => do
        toUi (.submitReview (submitData.signReview msg.orderId (decide (msg.orderId ∈ d.internal))))
        modifyData fun d => { d with visibleSubmit := some msg.orderId }
        modifyCtx fun c => { c with activeSign := some msg }
        showPrompts rest

/-- Show the next prompt, if a wallet is open. -/
def processPendingSignPrompts : Worker ε Unit := do
  let d ← getData
  match d.ctx with
  | none => pure ()
  | some _ => showPrompts d.pendingSignPrompts

/-- The relative change of the price since the terms were accepted. -/
def priceChange (details : Details) (s : SubmitData) : F64 :=
  (details.price - s.price).abs / s.price

/-- The amount that the order type fixes, and the fee on a fixed amount of bitcoin, are
unchanged. -/
def checkFixed (details : Details) (s : SubmitData) : Worker String Unit :=
  match s.orderType with
  | .bitcoin => do
    Proc.ensure (s.serverFee = details.serverFee)
      "Condition failed: `submit_data.server_fee.to_sat() == msg.details.server_fee`"
    Proc.ensure (s.bitcoinAmount = details.bitcoinAmount)
      "Condition failed: `submit_data.bitcoin_amount.to_sat() == msg.details.bitcoin_amount`"
  | .asset =>
    Proc.ensure (s.assetAmount = details.assetAmount)
      "Condition failed: `submit_data.asset_amount.to_sat() == msg.details.asset_amount`"

/-- The terms of a sign request are those of the order, up to its price. -/
def checkSign (msg : SignNotification) (s : SubmitData) : Worker String Unit := do
  Proc.ensure (msg.orderId = s.orderId) "Condition failed: `order_id == submit_data.order_id`"
  Proc.ensure (s.sellBitcoin = msg.details.sendBitcoins)
    "Condition failed: `submit_data.sell_bitcoin == msg.details.send_bitcoins`"
  Proc.ensure (s.orderType = msg.details.orderType)
    "Condition failed: `submit_data.order_type == msg.details.order_type`"
  Proc.ensure (s.asset = msg.details.asset)
    "Condition failed: `submit_data.asset == msg.details.asset`"
  checkFixed msg.details s
  Proc.ensure (s.side = msg.details.side)
    "Condition failed: `submit_data.side == msg.details.side`"
  Proc.ensure ((priceChange msg.details s).eq (F64.zero false) = true ∨ s.side ≠ .responder)
    "Condition failed: `price_change == 0.0 || submit_data.side != OrderSide::Responder`"

/-- A maker's order may be signed without a prompt if its price has not changed, or by at most a
tenth for an order that tracks an index.  A taker has reviewed the price already. -/
def autoSignAllowed (details : Details) (s : SubmitData) : Bool :=
  let allowed := if s.indexPrice then F64.lit 1 10 else F64.zero false
  decide (s.side = .responder)
    || (decide (s.side = .requestor) && s.autoSign && (priceChange details s).le allowed)

/-- The terms of the order, replaced by those of the sign request. -/
def SubmitData.update (s : SubmitData) (details : Details) : SubmitData :=
  { s with
    price := details.price, assetAmount := details.assetAmount
    bitcoinAmount := details.bitcoinAmount, serverFee := details.serverFee }

/-- Store the terms of an order. -/
def setSubmitData (orderId : OrderId) (s : SubmitData) : Worker ε Unit :=
  modifyData fun d => { d with submitData := d.submitData.insert orderId s }

/-- The precision that an asset is registered with. -/
def Data.precision (d : Data) (asset : AssetId) : ℕ := (d.assets[asset]?.map Asset.precision).getD 0

/-- Take over the terms of a sign request that has passed the checks; sign it or ask the user. -/
def acceptSign (h : Host) (precision : ℕ) (msg : SignNotification) (s : SubmitData) :
    Worker String Unit := do
  setSubmitData msg.orderId (s.update msg.details)
  -- the decision is made on the terms before the update
  if autoSignAllowed msg.details s then do
    let _ ← trySign h (.auto s precision) msg
    pure ()
  else do
    Proc.modify fun w => (w.modifyData fun d =>
      { d with pendingSignPrompts := d.pendingSignPrompts ++ [msg] }).record (.prompted msg)
    processPendingSignPrompts

/-- A sign request is marked as processed before it is checked, so that one that fails is not
repeated. -/
def tryProcessSign (h : Host) (msg : SignNotification) : Worker String Unit := do
  let d ← getData
  if msg.orderId ∈ d.processedSigns then pure ()
  else do
    modifyData fun d => { d with processedSigns := insert msg.orderId d.processedSigns }
    verifyAmounts h d msg.details
    let s ← Proc.okOr d.submitData[msg.orderId]? "no keys found"
    checkSign msg s
    acceptSign h (d.precision msg.details.asset) msg s

/-- Handle a sign request and show its failure. -/
def showSign (h : Host) (msg : SignNotification) : Worker ε Unit := do
  let result ← Proc.attempt (tryProcessSign h msg)
  match result with
  | .ok _ => pure ()
  | .error e => showMessage ("sign failed: " ++ e)

/-- The queued sign requests, each once. -/
def signRequests (h : Host) : List SignNotification → Worker ε Unit
  | [] => pure ()
  | msg :: rest => do
    modifyData fun d => { d with pendingSignRequests := rest }
    let d ← getData
    if msg.orderId ∈ d.processedSigns then signRequests h rest
    else do
      showSign h msg
      signRequests h rest

/-- Handle the queued sign requests. -/
def processPendingSignRequests (h : Host) : Worker ε Unit := do
  let d ← getData
  signRequests h d.pendingSignRequests

/-- A taker's sign request is handled at once; a maker's is queued behind the earlier ones. -/
def processSign (h : Host) (msg : SignNotification) : Worker ε Unit :=
  match msg.details.side with
  | .responder => showSign h msg
  | .requestor => do
    modifyData fun d => { d with pendingSignRequests := d.pendingSignRequests ++ [msg] }
    processPendingSignRequests h

/-! ### Decisions -/

/-- The accepted terms of a link. -/
def LinkResponse.submitData (resp : LinkResponse) (orderId : OrderId) (precision : ℕ)
    (txouts : Finset TxOut) (autoSign : Bool) : SubmitData :=
  { orderId := orderId, side := resp.details.side, asset := resp.details.asset
    assetPrecision := precision, orderType := resp.details.orderType
    bitcoinAmount := resp.details.bitcoinAmount, assetAmount := resp.details.assetAmount
    price := resp.details.price, serverFee := resp.details.serverFee
    sellBitcoin := resp.details.sendBitcoins, txouts := txouts, autoSign := autoSign, txid := none
    indexPrice := resp.indexPrice }

/-- The coins of the open orders. -/
def reservedTxouts (d : Data) : Finset TxOut :=
  d.submitData.values.foldl (fun acc s => acc ∪ s.txouts) ∅

/-- The coins to choose from: those of no other order, if they are enough. -/
def orderUtxos (d : Data) (all : List GdkUtxo) (sendAmount : ℤ) : List GdkUtxo :=
  let filtered := all.filter fun u => decide (u.txOut ∉ reservedTxouts d)
  if wrap (filtered.map fun u => (u.satoshi : ℤ)).sum ≥ sendAmount then filtered else all

/-- Store the coins of an order: a maker's in the settings, where they survive a restart, a taker's
in memory. -/
def storeUtxos (h : Host) (side : OrderSide) (orderId : OrderId) (utxos : List Utxo) :
    Worker ε Unit := do
  let now ← call h.now
  let stored : StoredUtxo := ⟨utxos, now⟩
  match side with
  | .requestor => do
    modifySettings fun s => { s with utxosReq := s.utxosReq.insert orderId stored }
    saveSettings h
  | .responder => modifyData fun d => { d with utxosResp := d.utxosResp.insert orderId stored }

/-- The inputs for an order and the PSET that offers them. -/
def prepareInputs (h : Host) (details : Details) : Worker String (List Utxo × String) := do
  let d ← getData
  let (sendAsset, sendAmount) := detailsSend h.liquidAssetId details
  let recvAsset := if details.sendBitcoins then details.asset else h.liquidAssetId
  let allUtxos ← callOr h.getUnspentOutputs fun _ => "getting unspent outputs failed"
  let all ← Proc.okOr allUtxos[sendAsset]? "Insufficient funds"
  let utxos := orderUtxos d all sendAmount
  Proc.ensure (totalAmount utxos ≥ sendAmount) "Insufficient funds"
  let (selected, selectedAmount) ← Proc.expect (selectCoins utxos sendAmount)
  let psbtInfo : PsbtInfo :=
    { sendAsset := sendAsset, recvAsset := recvAsset, recvAmount := 0
      sendAmount := selectedAmount }
  let pset ← generatePsbt h psbtInfo selected
  pure (selected, pset)

/-- An accepted review of a link: the order goes to the server with inputs and addresses. -/
def acceptSubmit (h : Host) (req : SubmitDecision) (resp : LinkResponse) : Worker String Bool := do
  let d ← getData
  let details := resp.details
  let asset ← Proc.okOr d.assets[details.asset]? "unknown asset"
  verifyAmounts h d details
  let (selected, pset) ← prepareInputs h details
  let recvAddr ← call h.getReceiveAddress
  let recvAddr ← Proc.expect recvAddr
  -- the change goes to an address of its own
  let changeAddr ← call h.getReceiveAddress
  let changeAddr ← Proc.expect changeAddr
  let _ ← request h (.addr
    { orderId := req.orderId, pset := pset, recvAddr := recvAddr, changeAddr := changeAddr
      price := details.price, private_ := req.private_, ttlSeconds := req.ttlSeconds })
  let autoSign := req.autoSign.getD false && decide (details.side = .requestor)
  let s := LinkResponse.submitData resp req.orderId asset.precision
    (selected.map Utxo.txOut).toFinset autoSign
  Proc.modify fun w => (w.modifyData fun d =>
    { d with submitData := d.submitData.insert req.orderId s }).record (.stored s)
  storeUtxos h details.side req.orderId selected
  pure (decide (details.side = .requestor))

/-- A decision is about the sign prompt if that prompt is for its order, else about the last
reviewed link. -/
def tryProcessSubmitDecision (h : Host) (req : SubmitDecision) : Worker String Bool :=
  if !req.accept then pure true
  else do
    let ctx ← ctxOr "no context found"
    match ctx.activeSign.filter fun sign => sign.orderId = req.orderId with
    | some sign => do
      modifyCtx fun c => { c with activeSign := none }
      trySign h .decision sign
    | none => do
      let resp ← Proc.okOr ctx.activeSubmit "data not found"
      modifyCtx fun c => { c with activeSubmit := none }
      acceptSubmit h req resp

/-- What follows every decision and every cancellation. -/
def afterReview : Worker ε Unit := do
  processPendingSignPrompts
  processPendingSucceed

/-- The review closes however the decision ends.  After a taker's decision (`false`) the order is
waited for. -/
def processSubmitDecision (h : Host) (req : SubmitDecision) : Worker ε Unit := do
  let result ← Proc.attempt (tryProcessSubmitDecision h req)
  match result with
  | .ok false => do
    modifyData fun d => { d with waitingSubmit := d.visibleSubmit, visibleSubmit := none }
    afterReview
  | .ok true => do
    toUi (.submitResult .submitSucceed)
    modifyData fun d => { d with visibleSubmit := none }
    afterReview
  | .error e => do
    toUi (.submitResult (.error e))
    modifyData fun d => { d with visibleSubmit := none }
    afterReview

/-! ### Editing and completion -/

/-- The terms of an order after a change of its price: the amount that is not fixed follows. -/
def SubmitData.edit (s : SubmitData) (price : F64) : Option SubmitData :=
  match s.orderType with
  | .bitcoin => do
    let amount ← SideSwap.assetAmount s.bitcoinAmount price s.assetPrecision
    return { s with price := price, assetAmount := amount }
  | .asset => do
    let amount ← SideSwap.bitcoinAmount s.assetAmount price s.assetPrecision
    return { s with price := price, bitcoinAmount := amount, serverFee := getServerFee amount }

/-- Apply a new price to the stored terms, to allow auto-sign to proceed. -/
def editSubmitData (orderId : OrderId) (price : F64) : Worker ε Unit := do
  let d ← getData
  match d.submitData[orderId]? with
  | none => pure ()
  | some s => do
    let s' ← Proc.expect (s.edit price)
    setSubmitData orderId s'

/-- The stored terms follow a new price, not a new distance from the index price. -/
def tryEditOrder (h : Host) (req : EditOrder) : Worker String Unit := do
  let data ← Proc.okOr req.data "data is not set"
  match data with
  | .price price => do
    let _ ← request h (.edit req.orderId (some price) none)
    editSubmitData req.orderId price
  | .indexPrice v => do
    let _ ← request h (.edit req.orderId none (some v))
    pure ()

/-- Change the price of an order and show how it ended. -/
def processEditOrder (h : Host) (req : EditOrder) : Worker ε Unit := do
  let result ← Proc.attempt (tryEditOrder h req)
  toUi (.editOrder result)

/-- Ask the server to cancel an order.  Its terms stay until the server reports the cancellation. -/
def processCancelOrder (h : Host) (orderId : OrderId) : Worker ε Unit := do
  let result ← Proc.attempt (request h (.cancel orderId))
  toUi (.cancelOrder (result.map fun _ => ()))

/-- The review or the waiting screen of a cancelled order is closed. -/
def closeReview (orderId : OrderId) : Worker ε Unit := do
  let d ← getData
  if d.visibleSubmit = some orderId
      ∨ (d.visibleSubmit = none ∧ d.waitingSubmit = some orderId) then do
    toUi (.submitResult (.error "Order has been cancelled"))
    modifyData fun d => { d with visibleSubmit := none }
    afterReview
  else pure ()

/-- The end of an order: its terms get the id of the transaction, or are forgotten. -/
def processComplete (msg : CompleteNotification) : Worker ε Unit :=
  match msg.txid with
  | some txid => do
    let d ← getData
    match d.submitData[msg.orderId]? with
    | none => pure ()
    | some s => do
      setSubmitData msg.orderId { s with txid := some txid }
      record (.completed (.order msg.orderId txid))
  | none => do
    closeReview msg.orderId
    modifyData fun d => { d with submitData := d.submitData.erase msg.orderId }

/-! ### Sign requests from push messages -/

/-- The terms of an order that this process does not know, from its sign request. -/
def restoredData (orderId : OrderId) (details : Details) (precision : ℕ) : SubmitData :=
  { orderId := orderId, side := .requestor, asset := details.asset, assetPrecision := precision
    orderType := details.orderType, bitcoinAmount := details.bitcoinAmount
    assetAmount := details.assetAmount, price := details.price, serverFee := details.serverFee
    sellBitcoin := details.sendBitcoins, txouts := ∅, autoSign := false, txid := none
    indexPrice := false }

/-- Restore the terms of an order that was accepted before the process started. -/
def restoreSubmitData (h : Host) (orderId : OrderId) (details : Details) :
    Worker String Unit := do
  let d ← getData
  if d.submitData.contains orderId then pure ()
  else do
    let asset ← Proc.okOr d.assets[details.asset]? "unknown asset"
    verifyAmounts h d details
    setSubmitData orderId (restoredData orderId details asset.precision)

/-- Fetch a sign request that a push message has announced, and handle it. -/
def downloadSignRequest (h : Host) (orderId : OrderId) : Worker String Unit := do
  let sign ← request h (.getSign orderId)
  tryAddAsset h (SignNotification.details sign).asset
  restoreSubmitData h orderId (SignNotification.details sign)
  processSign h sign

/-! ### Pending requests -/

/-- Handle an announced sign request; whoever waits for it goes on in any case. -/
def processPendingSign (h : Host) (p : OrderId × Bool) : Worker ε Unit := do
  let d ← getData
  if p.1 ∈ d.processedSigns then pure ()
  else do
    let result ← Proc.attempt (downloadSignRequest h p.1)
    showError result
    Proc.each (if p.2 then [p.1] else []) fun orderId => record (.signaled orderId)
where
  /-- a failure is shown -/
  showError (result : Except String Unit) : Worker ε Unit :=
    match result with
    | .ok _ => pure ()
    | .error e => showMessage ("sign failed: " ++ e)

/-- Handle a submission that has waited. -/
def processPendingSubmit (h : Host) (req : SubmitOrder) : Worker ε Unit := do
  let result ← Proc.attempt (tryProcessSubmitOrder h req)
  match result with
  | .ok _ => pure ()
  | .error e => toUi (.submitResult (.error e))

/-- Handle a link that has waited. -/
def processPendingLink (h : Host) (orderId : OrderId) : Worker ε Unit := do
  let result ← Proc.attempt (tryProcessLinkOrder h orderId)
  match result with
  | .ok _ => pure ()
  | .error e => showMessage e

/-- The requests that wait for the wallet to be synchronized. -/
def processPendingSynced (h : Host) : Worker ε Unit := do
  let d ← getData
  modifyData fun d => { d with pendingSubmits := [] }
  Proc.each d.pendingSubmits (processPendingSubmit h)
  let d ← getData
  modifyData fun d => { d with pendingLinks := [] }
  Proc.each d.pendingLinks (processPendingLink h)
  processPendingSignPrompts

/-- Work off what has waited for a wallet and a connection. -/
def processPendingRequests (h : Host) : Worker ε Unit := do
  let d ← getData
  if !d.connected then pure ()
  else
    match d.ctx with
    | none => pure ()
    | some ctx => do
      -- the queue is emptied first: what fails now is not tried again
      modifyData fun d => { d with pendingSigns := ∅ }
      Proc.each d.pendingSigns.toList (processPendingSign h)
      if ctx.syncComplete then processPendingSynced h else pure ()

/-- Queue a submission and work off the queues. -/
def processSubmitOrder (h : Host) (req : SubmitOrder) : Worker ε Unit := do
  modifyData fun d => { d with pendingSubmits := d.pendingSubmits ++ [req] }
  processPendingRequests h

/-- Queue a link and work off the queues. -/
def processLinkOrder (h : Host) (orderId : OrderId) : Worker ε Unit := do
  modifyData fun d => { d with pendingLinks := d.pendingLinks ++ [orderId] }
  processPendingRequests h

/-! ### The order list -/

/-- List an order as the server describes it. -/
def addOrder (h : Host) (msg : OrderCreatedNotification) (new : Bool) : Worker ε Unit := do
  ignoreError (tryAddAsset h msg.details.asset)
  modifyData fun d =>
    { d with
      ordersLast := d.ordersLast.insert msg.orderId
        { orderId := msg.orderId, assetId := msg.details.asset
          bitcoinAmount := msg.details.bitcoinAmount, sendBitcoins := msg.details.sendBitcoins
          serverFee := msg.details.serverFee, assetAmount := msg.details.assetAmount
          price := msg.details.price, createdAt := msg.createdAt, expiresAt := msg.expiresAt
          private_ := (msg.own.map Own.private_).getD false
          autoSign := (d.submitData[msg.orderId]?.map SubmitData.autoSign).getD false
          own := msg.own.isSome
          tokenMarket := decide (msg.details.asset ∈ d.tokenAssets)
          -- an order that is shown already is not new after an edit of its price
          new := new && !d.ordersLast.contains msg.orderId
          indexPrice := msg.own.bind Own.indexPrice } }

/-- Hide an order that is listed no more. -/
def syncRemovedOrder (orderId : OrderId) : Worker ε Unit := do
  modifyData fun d => { d with ordersSent := d.ordersSent.erase orderId }
  toUi (.orderRemoved orderId)

/-- Show an order that is new or has changed. -/
def syncOrder (p : OrderId × Order) : Worker ε Unit := do
  let d ← getData
  if d.ordersSent[p.1]?.any p.2.same then pure ()
  else do
    modifyData fun d => { d with ordersSent := d.ordersSent.insert p.1 p.2 }
    toUi (.orderCreated p.2)

/-- Bring what is shown in line with the list. -/
def syncOrderList : Worker ε Unit := do
  let d ← getData
  Proc.each (d.ordersSent.keys.filter fun id => !d.ordersLast.contains id) syncRemovedOrder
  Proc.each d.ordersLast.toList syncOrder

/-- A new or changed order. -/
def processOrderCreated (h : Host) (msg : OrderCreatedNotification) : Worker ε Unit := do
  addOrder h msg true
  syncOrderList

/-- An order that is gone. -/
def processOrderRemoved (orderId : OrderId) : Worker ε Unit := do
  modifyData fun d => { d with ordersLast := d.ordersLast.erase orderId }
  syncOrderList

/-- The orders of a market that has been subscribed. -/
def processSubscribeResponse (h : Host) (msg : SubscribeResponse) : Worker ε Unit := do
  Proc.each msg.orders fun order => addOrder h order false
  syncOrderList

/-- A market is left: only the user's own orders stay. -/
def processUnsubscribeResponse : Worker ε Unit := do
  modifyData fun d => { d with ordersLast := d.ordersLast.filter fun _ order => order.own }
  syncOrderList

/-- Subscribe the market on display. -/
def sendSubscribeRequest : Worker ε Unit := do
  let d ← getData
  match d.ctx.map Context.subscribe with
  | some .tokens => sendRequestMsg (.subscribe none)
  | some (.asset asset) => sendRequestMsg (.subscribe (some asset))
  | some .none | none => pure ()

/-- The asset of a market that is to be left. -/
def Subscribe.leave : Subscribe → List (Option AssetId)
  | .none => []
  | .tokens => [Option.none]
  | .asset assetId => [some assetId]

/-- Change the market on display.  The old one is unsubscribed only while connected. -/
def processSubscribe (market : Market) (assetId : Option AssetId) : Worker ε Unit := do
  let subscribe ← Proc.expect (match market, assetId with
    | .none, _ => some Subscribe.none
    | .tokens, _ => some Subscribe.tokens
    | .asset, some asset => some (Subscribe.asset asset)
    | .asset, none => none)
  let d ← getData
  let ctx ← expectCtx
  if ctx.subscribe = subscribe then pure ()
  else do
    Proc.each (if d.connected then ctx.subscribe.leave else []) fun asset =>
      sendRequestMsg (.unsubscribe asset)
    modifyCtx fun c => { c with subscribe := subscribe }
    sendSubscribeRequest

end SideSwap.Client
