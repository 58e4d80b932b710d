import SideSwap.Client.Orders

/-!
# The worker

Connection, login and logout, the handlers of the remaining messages, and the main loop: `machine`
feeds the worker one message after the other.  A restart of the process loads the settings from
disk, drops expired coins and starts with an empty state.
-/

namespace SideSwap.Client

variable {ε : Type}

/-! ### Connection -/

/-- Ask the connection to close; the worker counts as disconnected at once. -/
def restartWebsocket : Worker ε Unit := do
  modifyData fun d => { d with connected := false }
  record (.toWs false)

/-- Keep and show the server's limits and fees. -/
def processServerStatus (status : ServerStatus) : Worker ε Unit := do
  toUi (.serverStatus status)
  modifyData fun d => { d with serverStatus := some status }

/-- Ask for the prices of an asset that has been registered. -/
def subscribePriceUpdate (h : Host) (ticker : Ticker) : Worker ε Unit := do
  let d ← getData
  match d.tickers[ticker]? with
  | none => pure ()
  | some assetId => ignoreError (request h (.priceUpdateSubscribe assetId))

/-- Save and register the asset list of the server if it has changed since the start. -/
def updateAssets (h : Host) (assets : List Asset) : Worker ε Unit := do
  let d ← getData
  if assets = d.assetsOld then pure ()
  else do
    saveAssets h assets
    registerAssets h assets

/-- A device key that the server does not know is forgotten. -/
def verifyDevice (h : Host) : Worker String Unit := do
  let d ← getData
  match d.settings.deviceKey with
  | none => pure ()
  | some deviceKey => do
    let state ← request h (.verifyDevice deviceKey)
    match (state : DeviceState) with
    | .unregistered => do
      modifySettings fun s => { s with deviceKey := none }
      saveSettings h
    | .registered => pure ()

/-- Get a device key, and forget which addresses were registered under the old one. -/
def registerDevice (h : Host) : Worker String Unit := do
  let d ← getData
  match d.settings.deviceKey with
  -- the key on disk is known to the server, or `verifyDevice` would have removed it
  | some _ => pure ()
  | none => do
    let deviceKey ← request h (.registerDevice h.osType)
    modifySettings fun s =>
      { s with deviceKey := some deviceKey, lastExternal := none, lastInternal := none }
    saveSettings h
    updateAddressRegistrations h

/-- Renew the session and show its orders, none of them marked as new. -/
def loginServer (h : Host) : Worker String Unit := do
  let d ← getData
  let resp ← request h (.login d.settings.sessionId)
  Proc.each (LoginResponse.orders resp) fun order => addOrder h order false
  syncOrderList
  let d ← getData
  if some (LoginResponse.sessionId resp) = d.settings.sessionId then pure ()
  else do
    modifySettings fun s => { s with sessionId := some (LoginResponse.sessionId resp) }
    -- the next login renews this session
    saveSettings h

/-- Everything that a new connection begins with; the first failure ends it. -/
def tryProcessWsConnected (h : Host) : Worker String Unit := do
  let cookie ← call h.readCookie
  let _ ← request h (.loginClient cookie h.version)
  let assets ← request h .assets
  -- the chain's own coin has no price
  Proc.each ((assets : List Asset).filter fun asset => asset.ticker ≠ tickerLbtc) fun asset =>
    subscribePriceUpdate h asset.ticker
  updateAssets h assets
  let serverStatus ← request h .serverStatus
  processServerStatus serverStatus
  -- the list needs the assets, which have just been registered
  updateTxList h
  verifyDevice h
  registerDevice h
  loginServer h

/-- A connection that cannot be set up is closed again.  Only after the set-up the worker counts as
connected and sends what has waited. -/
def processWsConnected (h : Host) : Worker ε Unit := do
  let result ← Proc.attempt (tryProcessWsConnected h)
  match result with
  | .error _ => restartWebsocket
  | .ok _ => do
    modifyData fun d => { d with connected := true }
    processPendingRequests h
    resumePegMonitoring
    updatePushToken h
    updateAddressRegistrations h
    downloadContacts h
    processUnregisterPhoneRequests h
    sendSubscribeRequest
    toUi .serverConnected

/-- Without a connection no orders are shown; it is opened again while a wallet is logged in. -/
def processWsDisconnected : Worker ε Unit := do
  -- the orders that are shown stay in `ordersSent`, so that the comparison withdraws them
  modifyData fun d => { d with connected := false, ordersLast := ∅ }
  syncOrderList
  toUi .serverDisconnected
  let d ← getData
  Proc.each (if d.ctx.isSome then [true] else []) fun connect => record (.toWs connect)

/-- Close a connection over which the server does not answer. -/
def checkConnection (h : Host) : Worker ε Unit := do
  let d ← getData
  if !d.connected then pure ()
  else do
    let result ← Proc.attempt (request h .ping)
    match result with
    | .ok _ => pure ()
    | .error _ => restartWebsocket

/-! ### Login and logout -/

/-- The wallet as it is after a login. -/
def freshContext (walletHashId : String) (phoneKey : Option PhoneKey) : Context :=
  { walletHashId := walletHashId, lastBalances := ∅, usedUtxos := ∅, syncComplete := false
    walletLoadedSent := false, pegs := ∅, txs := [], sentTxs := ∅, succeedSwap := none
    activeSwap := none, psbtUtxos := none, sendTx := none, internalPeg := none
    activeExternPeg := none, activeSubmit := none, activeSign := none, phoneKey := phoneKey
    subscribe := .none }

/-- Tell the user interface once that the wallet can be shown. -/
def sendWalletLoaded : Worker ε Unit := do
  let d ← getData
  match d.ctx with
  | none => pure ()
  | some ctx =>
    if ctx.walletLoadedSent then pure ()
    else do
      modifyCtx fun c => { c with walletLoadedSent := true }
      toUi .walletLoaded

/-- Nothing waits for the wallet to be synchronized. -/
def skipWalletSync (d : Data) : Bool := d.pendingSubmits.isEmpty && d.pendingLinks.isEmpty

/-- Open the wallet and connect.  The orders and links that have come before the login are handled
now. -/
def processLoginRequest (h : Host) (mnemonic : String) (phoneKey : Option PhoneKey) :
    Worker ε Unit := do
  -- the connection is made while the wallet is opened
  record (.toWs true)
  let session ← call fun n => h.login n mnemonic
  let walletHashId ← Proc.expect session
  modifyData fun d => { d with ctx := some (freshContext walletHashId phoneKey) }
  -- otherwise the user interface is told when the first synchronization is complete
  let d ← getData
  Proc.each (if skipWalletSync d then [()] else []) fun _ => sendWalletLoaded
  processPendingRequests h
  updateTxList h
  resumePegMonitoring
  updateAddressRegistrations h
  downloadContacts h
  let _ ← call fun n => h.refreshAssets n true
  pure ()

/-- Forget the wallet and its settings; the phones to unregister stay. -/
def processLogoutRequest (h : Host) : Worker ε Unit := do
  modifyData fun d =>
    { d with
      ctx := none
      settings := { Settings.default with
        unregisterPhoneRequests := d.settings.unregisterPhoneRequests } }
  -- the file must not bring the wallet back
  saveSettings h
  restartWebsocket

/-- The wallet has been synchronized for the first time. -/
def syncComplete (h : Host) : Worker ε Unit := do
  let d ← getData
  match d.ctx with
  | none => pure ()
  | some ctx =>
    if ctx.syncComplete then pure ()
    else do
      modifyCtx fun c => { c with syncComplete := true }
      sendWalletLoaded
      processPendingRequests h

/-- An event of the wallet library. -/
def processWalletNotif (h : Host) (event : Option String) : Worker ε Unit := do
  let event ← Proc.expect event
  if event = "transaction" ∨ event = "block" then updateTxList h
  else if event = "sync_complete" then syncComplete h
  else pure ()

/-! ### The remaining messages -/

/-- A push message; only one about a sign request matters to the worker. -/
def processPushMessage (h : Host) (text : String) (waiting : Bool) : Worker ε Unit :=
  match h.parseFcm text with
  | some (.sign orderId) => do
    -- somebody who waits for the sign request of this order already is kept
    modifyData fun d =>
      { d with
        pendingSigns := d.pendingSigns.insert orderId (d.pendingSigns[orderId]?.getD waiting) }
    checkConnection h
    processPendingRequests h
  | _ => pure ()

/-- Show a new address. -/
def processGetRecvAddress (h : Host) : Worker ε Unit := do
  let _ ← expectCtx
  let addr ← call h.getReceiveAddress
  let addr ← Proc.expect addr
  toUi (.recvAddress addr)

/-- Show the blinding values of a transaction. -/
def processBlindedValues (h : Host) (txid : String) : Worker ε Unit := do
  let _ ← expectCtx
  let values ← call fun n => h.blindedValues n txid
  toUi (.blindedValues txid values)

/-- Store the note of a transaction. -/
def processSetMemo (h : Host) (txid memo : String) : Worker ε Unit := do
  let _ ← expectCtx
  let result ← call fun n => h.setTransactionMemo n txid memo
  Proc.expect result.toOption

/-- Encrypt the words with a PIN. -/
def processEncryptPin (h : Host) (pin mnemonic : String) : Worker ε Unit := do
  let result ← call fun n => h.encryptPin n pin mnemonic
  toUi (.encryptPin result)

/-- Decrypt the words with a PIN. -/
def processDecryptPin (h : Host) (pin salt encryptedData pinIdentifier : String) :
    Worker ε Unit := do
  let result ← call fun n => h.decryptPin n pin salt encryptedData pinIdentifier
  toUi (.decryptPin result)

/-- Keep the token for push messages and send it to the server. -/
def processUpdatePushToken (h : Host) (token : String) : Worker ε Unit := do
  modifyData fun d => { d with pushToken := some token }
  updatePushToken h

/-- How many addresses are registered with a phone. -/
def contactAddressesUploadCount : ℕ := 20

/-- The next external addresses of the wallet, for payments from contacts. -/
def getContactAddresses (h : Host) : Worker ε (List String) := do
  let indexes ← call h.indexes
  pure ((List.range' indexes.1 contactAddressesUploadCount).map
    fun pointer => h.address false pointer true)

/-- Register a phone number for the wallet. -/
def processRegisterPhone (h : Host) (number : String) : Worker ε Unit := do
  let ctx ← expectCtx
  let addresses ← getContactAddresses h
  let result ← Proc.attempt (request h (.registerPhone number ctx.walletHashId addresses))
  toUi (.registerPhone result)

/-- Confirm a phone number with the code that was sent to it. -/
def processVerifyPhone (h : Host) (phoneKey : PhoneKey) (code : String) : Worker ε Unit := do
  let result ← Proc.attempt (request h (.verifyPhone phoneKey code))
  toUi (.verifyPhone (result.map fun _ => ()))
  match result with
  -- what follows is not part of the attempt: an error there does not close the connection
  | .ok _ => do
    let _ ← expectCtx
    modifyCtx fun c => { c with phoneKey := some phoneKey }
    downloadContacts h
  | .error _ => pure ()

/-- A phone is kept as unregistered until the server has answered. -/
def processUnregisterPhone (h : Host) (phoneKey : PhoneKey) : Worker ε Unit := do
  modifySettings fun s =>
    { s with unregisterPhoneRequests := s.unregisterPhoneRequests.insert phoneKey }
  saveSettings h
  processUnregisterPhoneRequests h

/-- Upload the picture of a phone's owner. -/
def processUploadAvatar (h : Host) (phoneKey : PhoneKey) (image : String) : Worker ε Unit := do
  let result ← Proc.attempt (request h (.uploadAvatar phoneKey image))
  toUi (.uploadAvatar (result.map fun _ => ()))

/-- Upload the address book. -/
def processUploadContacts (h : Host) (phoneKey : PhoneKey) (contacts : List UploadContact) :
    Worker ε Unit := do
  let result ← Proc.attempt (request h (.uploadContacts phoneKey contacts))
  toUi (.uploadContacts (result.map fun _ => ()))

/-- Show the prices of an asset that has been registered. -/
def processPriceUpdate (asset : AssetId) (price : PricePair) : Worker ε Unit := do
  let d ← getData
  match d.assets[asset]? with
  | none => pure ()
  | some a => toUi (.priceUpdate a.assetId price.bid price.ask)

/-- Show the statistics of an asset. -/
def processAssetDetailsResponse (msg : AssetDetailsResponse) : Worker ε Unit :=
  toUi (.assetDetails msg.assetId msg.chainStats)

/-! ### The main loop -/

/-- Handle a message of the user interface. -/
def processUi (h : Host) : ToMsg → Worker ε Unit
  | .login mnemonic phoneKey => processLoginRequest h mnemonic phoneKey
  | .logout => processLogoutRequest h
  | .encryptPin pin mnemonic => processEncryptPin h pin mnemonic
  | .decryptPin pin salt encryptedData pinIdentifier =>
    processDecryptPin h pin salt encryptedData pinIdentifier
  | .pushMessage text => processPushMessage h text false
  | .pegRequest => processPegRequestExternal h
  | .swapRequest req => processSwapRequest h req
  | .swapCancel => processSwapCancel h
  | .swapAccept req => processSwapAccept h req
  | .getRecvAddress => processGetRecvAddress h
  | .createTx req => processCreateTx h req
  | .sendTx memo => processSendTx h memo
  | .blindedValues txid => processBlindedValues h txid
  | .setMemo txid memo => processSetMemo h txid memo
  | .updatePushToken token => processUpdatePushToken h token
  | .registerPhone number => processRegisterPhone h number
  | .verifyPhone phoneKey code => processVerifyPhone h phoneKey code
  | .unregisterPhone phoneKey => processUnregisterPhone h phoneKey
  | .uploadAvatar phoneKey image => processUploadAvatar h phoneKey image
  | .uploadContacts phoneKey contacts => processUploadContacts h phoneKey contacts
  | .submitOrder req => processSubmitOrder h req
  | .linkOrder orderId => processLinkOrder h orderId
  | .submitDecision req => processSubmitDecision h req
  | .editOrder req => processEditOrder h req
  | .cancelOrder orderId => processCancelOrder h orderId
  | .subscribe market assetId => processSubscribe market assetId
  -- the answers to these requests are not waited for
  | .subscribePrice assetId => sendRequestMsg (.loadPrices assetId)
  | .unsubscribePrice assetId => sendRequestMsg (.cancelPrices assetId)
  | .assetDetails assetId => sendRequestMsg (.assetDetails assetId)

/-- Handle a notification of the server. -/
def processWsNotification (h : Host) : Notification → Worker ε Unit
  | .pegStatus status => processPegStatus h status
  | .serverStatus status => processServerStatus status
  | .matchRfq msg => processRfqUpdate msg
  | .swap msg => processSwapNotification h msg
  | .priceUpdate asset price => processPriceUpdate asset price
  | .sign msg => processSign h msg
  | .complete msg => processComplete msg
  | .orderCreated msg => processOrderCreated h msg
  | .orderRemoved orderId => processOrderRemoved orderId
  | .updatePrices msg => toUi (.indexPrice msg.asset msg.ind)
  | .contactCreated contact => processContactCreated contact
  | .contactRemoved contactKey => toUi (.contactRemoved contactKey)
  | .contactTransaction tx => processContactTx tx
  | .accountStatus registered => processAccountStatus registered
  | .other => pure ()

/-- Handle a message of the main loop. -/
def process (h : Host) : Message → Worker ε Unit
  | .notif event => processWalletNotif h event
  | .ui msg => processUi h msg
  | .serverConnected => processWsConnected h
  | .serverDisconnected => processWsDisconnected
  | .serverNotification notification => processWsNotification h notification
  | .pegStatus status => processPegStatus h status
  | .subscribe msg => processSubscribeResponse h msg
  | .unsubscribe => processUnsubscribeResponse
  | .assetDetails msg => processAssetDetailsResponse msg
  | .backgroundMessage text => processPushMessage h text true

/-- The state of a new process. -/
def Data.initial (settings : Settings) : Data :=
  { connected := false, serverStatus := none, assets := ∅, tokenAssets := ∅, assetsOld := []
    tickers := ∅, ctx := none, settings := settings, pushToken := none, submitData := ∅
    pendingSigns := ∅, visibleSubmit := none, waitingSubmit := none, processedSigns := ∅
    pendingSignRequests := [], pendingSignPrompts := [], pendingSubmits := [], pendingLinks := []
    shownSucceed := ∅, pendingSucceed := [], utxosResp := ∅, internal := ∅, ordersLast := ∅
    ordersSent := ∅ }

/-- What a new process finds: the settings on disk without the expired coins. -/
def freshStart (h : Host) (w : World) : World :=
  { w with
    data := Data.initial (w.disk.prune (h.now w.calls))
    calls := w.calls + 1
    log := .started :: w.log }

/-- Start the process: the saved settings, and the asset list if it can be loaded. -/
def boot (h : Host) : Worker ε Unit := do
  Proc.modify (freshStart h)
  ignoreError (loadAssets h)

/-- The worker as a process that handles messages and can be started again. -/
def machine (h : Host) : Machine World Message where
  handle msg := do
    record (.received msg)
    process h msg
  boot := boot h

/-- A device on which the client has never run. -/
def World.new : World :=
  { data := Data.initial Settings.default, disk := Settings.default, assetsFile := none
    assetsSaved := none, calls := 0, log := [] }

/-- The first start of the client. -/
def start (h : Host) : Life World := (boot h World.new).life

/-! ### A simple outside -/

/-- A server that grants what it is asked for: it names an instant swap after the asset that is
sent, and an order is what `link` and `getSign` say. -/
def plainServer (assets : List Asset) (link : OrderId → Except String LinkResponse)
    (getSign : OrderId → Except String SignNotification) : (r : Request) → Except String r.Answer
  | .serverStatus => .ok ⟨0, 0, F64.zero false, F64.zero false, []⟩
  | .assets => .ok assets
  | .peg _ => .ok ⟨⟨"peg"⟩, "peg address"⟩
  | .matchRfq rfq => .ok ⟨rfq.sendAsset.val⟩
  | .loginClient .. => .ok "cookie"
  | .verifyDevice _ => .ok .registered
  | .registerDevice _ => .ok "device"
  | .login _ => .ok ⟨"session", []⟩
  | .link orderId => link orderId
  | .getSign orderId => getSign orderId
  | .downloadContacts _ => .ok ⟨false, [], []⟩
  | .registerPhone .. => .error "no phones"
  | .contactAddr .. => .error "no contacts"
  | .submit .. => .error "no new orders"
  | .registerAddresses .. => .error "no addresses"
  | .ping | .pegStatus _ | .matchRfqCancel _ | .matchRfqAccept .. | .priceUpdateSubscribe _ => .ok ()
  | .swap .. | .updatePushToken .. | .verifyPhone .. | .unregisterPhone _ => .ok ()
  | .uploadAvatar .. | .uploadContacts .. | .contactBroadcast .. | .loadPrices _ => .ok ()
  | .cancelPrices _ | .edit .. | .cancel _ | .subscribe _ | .unsubscribe _ => .ok ()
  | .addr _ | .sign _ | .assetDetails _ => .ok ()

/-- A host whose calls succeed, for a wallet with fixed balances and coins. -/
def plainHost (server : (r : Request) → Except String r.Answer) (balances : Map AssetId ℤ)
    (coins : Map AssetId (List GdkUtxo)) : Host :=
  { env := .local, version := "1", osType := 0, defaultIcon := "", embeddedAssets := []
    server := fun _ r => server r
    login := fun _ _ => some "wallet"
    refreshAssets := fun _ _ => .error "no registry"
    getTransactions := fun _ => .ok [], parseTime := fun _ => some 0, blockStatus := fun _ => .ok 0
    getBalance := fun _ => .ok balances, getUnspentOutputs := fun _ => .ok coins
    getReceiveAddress := fun _ => some "address"
    createTransaction := fun _ _ => .ok ⟨"hex", "txid", 1⟩
    signTransaction := fun _ tx => .ok tx, sendTransaction := fun _ tx => .ok tx.txid
    setTransactionMemo := fun _ _ _ => .ok (), findOutput := fun _ _ => .ok 0
    isRedeposit := fun _ _ => false, blindedValues := fun _ _ => none
    generatePsbt := fun _ _ _ => some (.ok "pset"), signPsbt := fun _ _ _ _ => some (.ok "signed")
    indexes := fun _ => (0, 0), address := fun _ _ _ => "address"
    encryptPin := fun _ _ _ => .error "no pin", decryptPin := fun _ _ _ _ _ => .error "no pin"
    parseFcm := fun _ => none, readCookie := fun _ => none, saveSucceeds := fun _ => true
    now := fun _ => 0, timestampNow := fun _ => 0, display := fun _ => "" }

namespace Sample

def gold : AssetId := ⟨"gold"⟩

def silver : AssetId := ⟨"silver"⟩

def assets : List Asset :=
  [⟨gold, "Gold", ⟨"GLD"⟩, some "", 8, none⟩, ⟨silver, "Silver", ⟨"SLV"⟩, some "", 8, none⟩]

/-- The wallet is logged in and connected. -/
def online : List (Feed Message) :=
  [.deliver (.ui (.login "words" none)), .deliver .serverConnected]

end Sample

end SideSwap.Client
