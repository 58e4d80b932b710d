import SideSwap.Client.Wallet

/-!
# Instant swaps, pegs and plain transactions

An instant swap is requested (`processSwapRequestAtomic`), quoted by the server, accepted by the
user, and then driven by the server's notifications, which ask first for a PSET with the wallet's
inputs and then for its signature.  A peg-out goes through the same messages of the user interface
(`processPegoutRequestLocal`, the second half of `tryProcessSwapAccept`).
-/

namespace SideSwap.Client

variable {ε : Type}

/-! ### Swap notifications -/

/-- The text that is shown in place of a quote. -/
def RfqRejectReason.text : RfqRejectReason → String
  | .serverError => "server error"
  | .noDealer => "no dealer"
  | .amountLow => "amount low"
  | .amountHigh => "amount high"

/-- A new quote, or the reason why there is none, is shown for the active swap. -/
def rfqUpdate (msg : MatchRfqUpdate) : Worker String Unit := do
  let ctx ← ctxOr "no wallet"
  let activeSwap ← Proc.okOr ctx.activeSwap "no active swap"
  let recvAmount := msg.quote.toOption.map MatchRfqQuote.recvAmount
  let networkFee := msg.quote.toOption.map MatchRfqQuote.networkFee
  modifyCtx fun c =>
    { c with activeSwap := c.activeSwap.map fun a => { a with networkFee := networkFee } }
  toUi (.swapReview
    { sendAsset := activeSwap.sendAsset, recvAsset := activeSwap.recvAsset
      sendAmount := activeSwap.sendAmount, recvAmount := recvAmount, networkFee := networkFee
      error := match msg.quote with
        | .ok _ => none
        | .error reason => some (RfqRejectReason.text reason) })

/-- A quote without an active swap is dropped. -/
def processRfqUpdate (msg : MatchRfqUpdate) : Worker ε Unit := ignoreError (rfqUpdate msg)

/-- The slots that `cleanup_swaps` empties.  It leaves `psbtUtxos` alone. -/
def Context.withoutSwaps (c : Context) : Context :=
  { c with activeSwap := none, sendTx := none, internalPeg := none, activeExternPeg := none }

/-- End the instant swap or peg; what is shown next is not affected. -/
def cleanupSwaps : Worker ε Unit := do
  let _ ← expectCtx
  modifyCtx Context.withoutSwaps

/-- A PSET from the wallet library, which may panic. -/
def generatePsbt (h : Host) (info : PsbtInfo) (utxos : List Utxo) : Worker String String := do
  let result ← call fun n => h.generatePsbt n info utxos
  let psbt ← Proc.expect result
  record (.generatePsbt info utxos psbt.toOption)
  Proc.ofExcept psbt

/-- A signature from the wallet library, which may panic. -/
def signPsbt (h : Host) (purpose : Purpose) (info : PsbtInfo) (utxos : List Utxo) (psbt : String) :
    Worker String String := do
  let result ← call fun n => h.signPsbt n info utxos psbt
  let signed ← Proc.expect result
  record (.signPsbt purpose info utxos psbt signed.toOption)
  Proc.ofExcept signed

/-- Offer the inputs of the swap.  They are kept for the signature once the server has them. -/
def swapSendPsbt (h : Host) (txInfo : Swap) : Worker String Unit := do
  let ctx ← ctxOr "no wallet"
  let activeSwap ← Proc.okOr ctx.activeSwap "no active swap"
  let psbtInfo : PsbtInfo :=
    { sendAsset := txInfo.sendAsset, recvAsset := txInfo.recvAsset
      -- the amount to send is the one that was asked for, the amount to receive is the server's
      sendAmount := activeSwap.sendAmount, recvAmount := txInfo.recvAmount }
  let psbt ← generatePsbt h psbtInfo activeSwap.inputs
  let _ ← request h (.swap activeSwap.orderId (.psbt psbt))
  modifyCtx fun c => { c with psbtUtxos := some activeSwap.inputs }

/-- A failure is only logged; the server gives the swap up after a while. -/
def processSwapSendPsbt (h : Host) (swap : Swap) : Worker ε Unit := ignoreError (swapSendPsbt h swap)

/-- What is signed for an instant swap. -/
def ActiveSwap.psbtInfo (a : ActiveSwap) : PsbtInfo :=
  { sendAsset := a.sendAsset, recvAsset := a.recvAsset, sendAmount := a.sendAmount
    recvAmount := a.recvAmountAccepted.getD 0 }

/-- Sign the swap with the terms that the user has accepted and the inputs that were offered. -/
def swapSendSign (h : Host) (psbt : String) : Worker String Unit := do
  let ctx ← ctxOr "no wallet"
  let activeSwap ← Proc.okOr ctx.activeSwap "no active swap"
  let utxos ← Proc.okOr ctx.psbtUtxos "no keys found"
  let signedPsbt ← signPsbt h (.swap activeSwap.orderId) activeSwap.psbtInfo utxos psbt
  let _ ← request h (.swap activeSwap.orderId (.sign signedPsbt))
  pure ()

/-- A failure is only logged here too. -/
def processSwapSendSign (h : Host) (psbt : String) : Worker ε Unit := ignoreError (swapSendSign h psbt)

/-- The text of a failure; a cancellation was the user's own. -/
def SwapError.text : SwapError → Option String
  | .cancelled => none
  | .timeout => some "timeout"
  | .serverError => some "server error"
  | .dealerError => some "dealer error"
  | .clientError => some "client error"

/-- Show the failure of the swap and end it. -/
def swapFailed (error : SwapError) : Worker ε Unit :=
  match SwapError.text error with
  | none => pure ()
  | some text => do
    toUi (.swapFailed text)
    cleanupSwaps

/-- The swap is done: its coins are used, and its transaction is reported when it appears in the
list. -/
def swapSucceed (txid : String) : Worker ε Unit := do
  let ctx ← expectCtx
  let activeSwap ← Proc.expect ctx.activeSwap
  modifyCtx fun c =>
    { c with
      usedUtxos := c.usedUtxos ∪ (activeSwap.inputs.map Utxo.txOut).toFinset
      succeedSwap := some txid }
  record (.completed (.swap activeSwap.orderId txid))
  cleanupSwaps

/-- Notifications for other orders than the active swap are ignored. -/
def processSwapNotification (h : Host) (msg : SwapNotification) : Worker ε Unit := do
  let d ← getData
  match d.ctx.bind Context.activeSwap with
  | some a =>
    if a.orderId = msg.orderId then
      match msg.state with
      | .waitPsbt swap => processSwapSendPsbt h swap
      | .waitSign psbt => processSwapSendSign h psbt
      | .failed error => swapFailed error
      | .done txid => swapSucceed txid
    else pure ()
  | none => pure ()

/-! ### Coin selection -/

/-- The coins with the given amounts, as `position` and `swap_remove` pick them; `none` is a
panic. -/
def takeUtxos : List GdkUtxo → List ℤ → Option (List Utxo)
  | _, [] => some []
  | utxos, amount :: amounts =>
    match utxos.findIdx? fun u => wrap u.satoshi = amount with
    | none => none
    | some i => do
      let u ← utxos[i]?
      -- `swap_remove` puts the last element in the place of the removed one
      let rest := match utxos.getLast? with
        | some last => (utxos.set i last).dropLast
        | none => []
      let taken ← takeUtxos rest amounts
      return u.toUtxo :: taken

/-- The coins selected for an amount, and what they are worth. -/
def selectCoins (utxos : List GdkUtxo) (sendAmount : ℤ) : Option (List Utxo × ℤ) := do
  let selected ← selectUtxo (utxos.map fun u => wrap u.satoshi) sendAmount
  let selectedAmount := wrap selected.sum
  guard (selectedAmount ≥ sendAmount)
  let coins ← takeUtxos utxos selected
  return (coins, selectedAmount)

/-- The total of a list of coins, as an `i64`. -/
def totalAmount (utxos : List GdkUtxo) : ℤ := wrap (utxos.map fun u => wrap u.satoshi).sum

/-! ### Swap requests -/

/-- What the server sends for a peg-out, after its fee. -/
def pegOutAmount (status : ServerStatus) (sendAmount : ℤ) : ℤ :=
  let conversionRate := F64.lit 1 1 - status.serverFeePercentPegOut / F64.lit 100 1
  (F64.ofInt sendAmount * conversionRate).round.toI64

/-- The text that is shown for a peg-out below the minimum. -/
def minAmountText (h : Host) (status : ServerStatus) : String :=
  "min " ++ h.display (toBitcoin status.minPegOutAmount)

/-- Review a peg-out.  Its amounts are computed here, with the fee that the server has last told. -/
def processPegoutRequestLocal (h : Host) (req : SwapRequest) : Worker String SwapReview := do
  let d ← getData
  Proc.ensure (d.connected = true) "not connected"
  let blocks ← Proc.okOr req.blocks "blocks must be set"
  let _ ← Proc.okOr d.ctx "no context found"
  let serverStatus ← Proc.okOr d.serverStatus "server_status is not known"
  Proc.ensure (req.sendAmount ≥ serverStatus.minPegOutAmount) (minAmountText h serverStatus)
  let peg : InternalPeg := ⟨req.sendAmount, blocks⟩
  Proc.modify fun w => (w.modifyCtx fun c => { c with internalPeg := some peg }).record
    (.pegPrepared peg)
  pure
    { sendAsset := req.sendAsset, recvAsset := req.recvAsset, sendAmount := req.sendAmount
      recvAmount := some (pegOutAmount serverStatus req.sendAmount), networkFee := none
      error := none }

/-- The coins of the wallet that an instant swap may spend. -/
def swapUtxos (ctx : Context) (all : List GdkUtxo) : List GdkUtxo :=
  all.filter fun u => decide (u.txOut ∉ ctx.usedUtxos)

/-- Ask for quotes for an instant swap, with coins that no other swap has spent. -/
def processSwapRequestAtomic (h : Host) (req : SwapRequest) : Worker String SwapReview := do
  let d ← getData
  Proc.ensure (d.connected = true) "not connected"
  let ctx ← Proc.expect d.ctx
  let _ ← Proc.expect d.assets[req.sendAsset]?
  let _ ← Proc.expect d.assets[req.recvAsset]?
  let allUtxos ← callOr h.getUnspentOutputs fun _ => "getting unspent outputs failed"
  let assetUtxos ← Proc.okOr allUtxos[req.sendAsset]? "not enough UTXO"
  let utxos := swapUtxos ctx assetUtxos
  Proc.ensure (totalAmount utxos ≥ req.sendAmount) "not enough UTXO"
  let (inputs, selectedAmount) ← Proc.expect (selectCoins utxos req.sendAmount)
  let rfq : MatchRfq :=
    { sendAsset := req.sendAsset, sendAmount := req.sendAmount, recvAsset := req.recvAsset
      utxoCount := inputs.length, withChange := decide (selectedAmount - req.sendAmount ≠ 0) }
  let orderId ← requestOr h (.matchRfq rfq) ("request failed: " ++ ·)
  let swap : ActiveSwap :=
    { orderId := orderId, sendAsset := req.sendAsset, recvAsset := req.recvAsset
      sendAmount := req.sendAmount, recvAmountAccepted := none, inputs := inputs
      networkFee := none }
  Proc.modify fun w => (w.modifyCtx fun c => { c with activeSwap := some swap }).record
    (.swapPrepared swap)
  pure
    { sendAsset := req.sendAsset, recvAsset := req.recvAsset, sendAmount := req.sendAmount
      recvAmount := none, networkFee := none, error := none }

/-- A request to send the chain's own coin for bitcoin is a peg-out. -/
def SwapRequest.isPegOut (h : Host) (req : SwapRequest) : Bool :=
  decide (req.sendAsset = h.liquidAssetId ∧ req.recvAsset = bitcoinAssetId)

/-- A request in the other direction does not go through here. -/
def SwapRequest.isPegIn (h : Host) (req : SwapRequest) : Bool :=
  decide (req.sendAsset = bitcoinAssetId ∧ req.recvAsset = h.liquidAssetId)

/-- The two assets decide what is asked for. -/
def tryProcessSwapRequest (h : Host) (req : SwapRequest) : Worker String SwapReview :=
  if req.isPegOut h then processPegoutRequestLocal h req
  else if req.isPegIn h then Proc.abort
  else processSwapRequestAtomic h req

/-- Show the review of what was asked for, or the error. -/
def processSwapRequest (h : Host) (req : SwapRequest) : Worker ε Unit := do
  let result ← Proc.attempt (tryProcessSwapRequest h req)
  match result with
  | .ok review => toUi (.swapReview review)
  | .error e => toUi (.swapReview
      { sendAsset := req.sendAsset, recvAsset := req.recvAsset, sendAmount := req.sendAmount
        recvAmount := none, networkFee := none, error := some e })

/-- Tell the server that the swap is given up.  Its slot is empty even if the server does not
answer. -/
def cancelActiveSwap (h : Host) (activeSwap : Option ActiveSwap) : Worker ε Unit :=
  match activeSwap with
  | some a => do
    modifyCtx fun c => { c with activeSwap := none }
    ignoreError (request h (.matchRfqCancel a.orderId))
  | none => pure ()

/-- The user gives up the swap or peg-out under review. -/
def processSwapCancel (h : Host) : Worker ε Unit := do
  let ctx ← expectCtx
  cancelActiveSwap h ctx.activeSwap
  cleanupSwaps

/-- Accept the quote of the active swap. -/
def acceptSwap (h : Host) (a : ActiveSwap) (req : SwapAccept) : Worker String Unit := do
  let recvAmount ← Proc.okOr req.recvAmount "nothing to accept"
  let _ ← request h (.matchRfqAccept a.orderId recvAmount)
  modifyCtx fun c =>
    { c with
      activeSwap := c.activeSwap.map fun a => { a with recvAmountAccepted := some recvAmount } }

/-- Pay to the peg-out address of the server and report the peg. -/
def payPegOut (h : Host) (data : InternalPeg) (recvAddr : String) (resp : PegResponse) :
    Worker String Unit := do
  let d ← getData
  let lbtcAssetId ← Proc.expect d.tickers[tickerLbtc]?
  let ctx ← expectCtx
  let balance ← Proc.expect ctx.lastBalances[lbtcAssetId]?
  Proc.ensure (balance ≥ data.sendAmount) "not enough UTXO"
  let sendAll := decide (balance = data.sendAmount)
  let details : CreateTransaction := ⟨resp.pegAddr, data.sendAmount, lbtcAssetId, sendAll⟩
  let txDetailUnsigned ← callOr (fun n => h.createTransaction n details) id
  let voutSend ← Proc.ofExcept (h.findOutput txDetailUnsigned.hex resp.pegAddr)
  let sendAmount :=
    if sendAll then wrap (data.sendAmount - txDetailUnsigned.fee) else data.sendAmount
  let serverStatus ← Proc.okOr d.serverStatus "server_status is not known"
  Proc.ensure (sendAmount ≥ serverStatus.minPegOutAmount) (minAmountText h serverStatus)
  let signed ← call fun n => h.signTransaction n txDetailUnsigned
  let txDetailSigned ← Proc.expect signed.toOption
  let sendTxid ← callOr (fun n => h.sendTransaction n txDetailSigned) ("broadcast failed: " ++ ·)
  let createdAt ← call h.timestampNow
  toUi (.swapSucceed
    { id := pegTxitemId sendTxid voutSend, createdAt := createdAt, confs := some ⟨0, txConfCount⟩
      item := .peg
        { isPegIn := false, amountSend := sendAmount
          amountRecv := pegOutAmount serverStatus sendAmount, addrSend := resp.pegAddr
          addrRecv := recvAddr, txidSend := sendTxid, voutSend := voutSend, txidRecv := none } })
  cleanupSwaps
  addPegMonitoring h resp.orderId .out

/-- Start the peg-out that was reviewed. -/
def acceptPegOut (h : Host) (data : InternalPeg) (req : SwapAccept) : Worker String Unit := do
  Proc.modify fun w => (w.modifyCtx fun c => { c with internalPeg := none }).record (.pegTaken data)
  let d ← getData
  let deviceKey ← Proc.expect d.settings.deviceKey
  let recvAddr ← Proc.expect req.recvAddr
  let resp ← requestOr h
    (.peg
      { recvAddr := recvAddr, sendAmount := none, pegIn := false, deviceKey := some deviceKey
        blocks := some data.blocks }) ("server error: " ++ ·)
  payPegOut h data recvAddr resp

/-- An active swap goes before a reviewed peg-out. -/
def tryProcessSwapAccept (h : Host) (req : SwapAccept) : Worker String Unit := do
  let ctx ← expectCtx
  let d ← getData
  Proc.ensure (d.connected = true) "not connected"
  match ctx.activeSwap, ctx.internalPeg with
  | some a, _ => acceptSwap h a req
  | none, some data => acceptPegOut h data req
  | none, none => Proc.fail "nothing to accept"

/-- An acceptance that fails gives the swap up. -/
def processSwapAccept (h : Host) (req : SwapAccept) : Worker ε Unit := do
  let result ← Proc.attempt (tryProcessSwapAccept h req)
  match result with
  | .ok _ => pure ()
  | .error e => do
    toUi (.swapFailed e)
    processSwapCancel h

/-! ### Pegs -/

/-- Show the address of a peg-in, whose coins come from another wallet. -/
def tryProcessPegRequestExternal (h : Host) : Worker String Unit := do
  let d ← getData
  Proc.ensure (d.connected = true) "not connected"
  let _ ← expectCtx
  let deviceKey ← Proc.expect d.settings.deviceKey
  let addr ← call h.getReceiveAddress
  let recvAddr ← Proc.expect addr
  let resp ← requestOr h
    (.peg
      { recvAddr := recvAddr, sendAmount := none, pegIn := true, deviceKey := some deviceKey
        blocks := none }) ("server error: " ++ ·)
  addPegMonitoring h (PegResponse.orderId resp) .in
  toUi (.swapWaitTx bitcoinAssetId h.liquidAssetId (PegResponse.pegAddr resp) recvAddr)
  modifyCtx fun c => { c with activeExternPeg := some (PegResponse.orderId resp) }

/-- Begin a peg-in, or show the error. -/
def processPegRequestExternal (h : Host) : Worker ε Unit := do
  let result ← Proc.attempt (tryProcessPegRequestExternal h)
  match result with
  | .ok _ => pure ()
  | .error e => toUi (.swapFailed e)

/-- The first transaction of a peg-in that was started here is reported as its success. -/
def reportPeg (status : PegStatus) : Worker ε Unit := do
  let ctx ← expectCtx
  match ctx.activeExternPeg, status.list with
  | some orderId, tx :: _ =>
    if orderId = status.orderId then do
      toUi (.swapSucceed (getPegItem status tx))
      cleanupSwaps
    else pure ()
  | _, _ => pure ()

/-- A new status of a peg: its payments are listed, and the peg on display may be done. -/
def processPegStatus (h : Host) (status : PegStatus) : Worker ε Unit := do
  let d ← getData
  match d.ctx with
  | none => pure ()
  | some _ => do
    modifyCtx fun c => { c with pegs := c.pegs.insert status.orderId status }
    syncTxList h
    reportPeg status

/-! ### Plain transactions -/

/-- The address to send to, looked up with the server if it is a contact's. -/
def sendAddress (h : Host) (ctx : Context) (req : CreateTx) :
    Worker String (String × Option ContactKey) :=
  if req.isContact then do
    let phoneKey ← Proc.okOr ctx.phoneKey "phone is not verified"
    let contactKey : ContactKey := ⟨req.addr⟩
    let addr ← requestOr h (.contactAddr phoneKey contactKey) ("can't get contact address: " ++ ·)
    pure (addr, some contactKey)
  else pure (req.addr, none)

/-- Prepare a payment and keep it for `sendTx`.  The whole balance is sent with the fee taken out of
it. -/
def createTx (h : Host) (req : CreateTx) : Worker String ℤ := do
  let ctx ← expectCtx
  let (address, contactKey) ← sendAddress h ctx req
  let ctx ← expectCtx
  let sendAsset := req.balance.assetId
  let sendAmount := req.balance.amount
  let balance ← Proc.okOr ctx.lastBalances[sendAsset]? ("unknown asset: " ++ sendAsset.val)
  Proc.ensure (sendAmount > 0) "invalid send amount"
  Proc.ensure (balance ≥ sendAmount) "not enough UTXO"
  let sendAll := decide (balance = sendAmount)
  let details : CreateTransaction := ⟨address, sendAmount, sendAsset, sendAll⟩
  let tx ← callOr (fun n => h.createTransaction n details) id
  modifyCtx fun c =>
    { c with
      sendTx := some
        { tx := tx, sendAll := sendAll, assetId := sendAsset, amount := sendAmount
          contactKey := contactKey } }
  record (.createTransaction details (some tx))
  pure tx.fee

/-- Show the fee of a payment, or the error. -/
def processCreateTx (h : Host) (req : CreateTx) : Worker ε Unit := do
  let result ← Proc.attempt (createTx h req)
  toUi (.createTxResult result)

/-- Hand a signed transaction to the server, if it goes to a contact, or to the network. -/
def broadcastTx (h : Host) (ctx : Context) (contactKey : Option ContactKey)
    (tx : TransactionMeta) : Worker String Unit :=
  match contactKey with
  | some contactKey => do
    let phoneKey ← Proc.okOr ctx.phoneKey "phone is not verified"
    let _ ← requestOr h (.contactBroadcast tx.hex phoneKey contactKey) ("broadcast failed: " ++ ·)
    record (.broadcast tx)
  | none => do
    let _ ← callOr (fun n => h.sendTransaction n tx) ("send failed: " ++ ·)
    record (.broadcast tx)

/-- The change of the balances that a sent transaction is shown with. -/
def sentBalances (lbtcAsset : AssetId) (sendTx : SendTx) (networkFee : ℤ) (isRedeposit : Bool) :
    List Balance :=
  if isRedeposit then [⟨lbtcAsset, -networkFee⟩]
  else if sendTx.assetId ≠ lbtcAsset then
    [⟨sendTx.assetId, -sendTx.amount⟩, ⟨lbtcAsset, -networkFee⟩]
  else if sendTx.sendAll then [⟨lbtcAsset, -sendTx.amount⟩]
  else [⟨lbtcAsset, wrap (-sendTx.amount - networkFee)⟩]

/-- Sign and broadcast the payment that was prepared.  A second call finds none. -/
def sendTx (h : Host) (memo : String) : Worker String TransItem := do
  let ctx ← expectCtx
  let sendTx ← Proc.okOr ctx.sendTx "no transaction found"
  -- taken before it is signed, so that an error does not leave it to be sent later
  modifyCtx fun c => { c with sendTx := none }
  let signed ← callOr (fun n => h.signTransaction n sendTx.tx) ("transaction sign failed: " ++ ·)
  broadcastTx h ctx sendTx.contactKey signed
  let _ ← call fun n => h.setTransactionMemo n signed.txid memo
  let d ← getData
  let lbtc ← Proc.expect (d.assets.values.find? fun asset => asset.ticker = tickerLbtc)
  let isRedeposit ← call fun n => h.isRedeposit n signed.hex
  let createdAt ← call h.timestampNow
  let networkFee : ℤ := sendTx.tx.fee
  pure
    { id := signed.txid, createdAt := createdAt, confs := some ⟨0, txConfCount⟩
      item := .tx
        { balances := sentBalances lbtc.assetId sendTx networkFee isRedeposit, memo := memo
          networkFee := networkFee, txid := signed.txid } }

/-- Show the payment as it is in the list, or the error. -/
def processSendTx (h : Host) (memo : String) : Worker ε Unit := do
  let result ← Proc.attempt (sendTx h memo)
  toUi (.sendResult result)

end SideSwap.Client
