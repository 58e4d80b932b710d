import SideSwap.Client.State

/-!
# Assets, transactions and addresses

The part of the worker that keeps the user interface informed about the wallet: the registry of
assets, the list of transactions, the balances, and the registration of the wallet's addresses and
contacts with the server.

A loop of the source is a recursion over the list that it consumes.
-/

namespace SideSwap.Client

variable {ε : Type}

/-! ### Assets -/

/-- The ticker of the chain's own coin. -/
def tickerLbtc : Ticker := ⟨"L-BTC"⟩
/-- The ticker of the dollar coin. -/
def tickerUsdt : Ticker := ⟨"USDt"⟩

/-- The asset that a well-known ticker must have on the main network. -/
def knownAssetId (ticker : Ticker) : Option AssetId :=
  if ticker = tickerLbtc then
    some ⟨"6f0279e9ed041c3d710a9f57d0c02928416460c4b722ae3457a11eec381c526d"⟩
  else if ticker = tickerUsdt then
    some ⟨"ce091c998b83c78bb71a632313ba3760f1763d9cfcffae02258ffa9865a37bd2"⟩
  else none

/-- Whether the assertions of `check_assets` hold. -/
def checkAssets (env : Env) (assets : List Asset) : Bool :=
  !env.isMainnet ||
    (match assets.find? fun a => a.ticker = tickerLbtc with
      | some a => decide (some a.assetId = knownAssetId tickerLbtc)
      | none => false)
    && (match assets.find? fun a => a.ticker = tickerUsdt with
      | some a => decide (some a.assetId = knownAssetId tickerUsdt)
      | none => true)

/-- Enter an asset into the tables and show it.  A ticker that occurs twice names the later asset.
-/
def registerAsset (asset : Asset) (swapMarket : Bool) (domain : Option String) :
    Worker ε Unit := do
  let icon ← Proc.expect asset.icon
  modifyData fun d =>
    { d with
      assets := d.assets.insert asset.assetId asset
      tickers := d.tickers.insert asset.ticker asset.assetId
      tokenAssets := if swapMarket then d.tokenAssets else insert asset.assetId d.tokenAssets }
  toUi (.newAsset
    { assetId := asset.assetId, name := asset.name, ticker := asset.ticker, icon := icon
      precision := asset.precision, swapMarket := swapMarket, domain := domain })

/-- Register the assets of a list; on the main network it must name the well-known ones. -/
def registerAssets (h : Host) (assets : List Asset) : Worker ε Unit := do
  let _ ← Proc.expect (if checkAssets h.env assets then some () else none)
  Proc.each assets fun asset =>
    registerAsset asset (decide (asset.assetId ≠ h.liquidAssetId)) none

/-- The first characters of an identifier. -/
def shortName (n : ℕ) (assetId : AssetId) : String :=
  String.ofList (assetId.val.toList.take n) ++ "..."

/-- The registry of the wallet library, reloaded if the cached one cannot be read. -/
def refreshAssets (h : Host) : Worker String GdkAssets := do
  let first ← call fun n => h.refreshAssets n false
  match first with
  | .ok assets => pure assets
  | .error _ => callOr (fun n => h.refreshAssets n true) ("loading asset list failed: " ++ ·)

/-- An asset as the wallet library's registry describes it. -/
def loadGdkAsset (h : Host) (assetId : AssetId) : Worker String (Asset × Option String) := do
  let _ ← ctxOr "ctx is not set"
  let gdkAssets ← refreshAssets h
  let v ← Proc.okOr gdkAssets.assets[assetId]? "asset not found"
  pure
    ({ assetId := assetId
       name := v.name.getD (shortName 8 assetId)
       ticker := v.ticker.getD ⟨shortName 4 assetId⟩
       icon := some (gdkAssets.icons[assetId]?.getD h.defaultIcon)
       precision := v.precision.getD 0
       iconUrl := none }, v.domain)

/-- Register an asset that is met for the first time. -/
def tryAddAsset (h : Host) (assetId : AssetId) : Worker String Unit := do
  let d ← getData
  if d.assets.contains assetId then pure ()
  else do
    let (asset, domain) ← loadGdkAsset h assetId
    registerAsset asset false domain

/-- An asset of the wallet that is not in the registry. -/
def unknownAsset (h : Host) (assetId : AssetId) : Asset :=
  { assetId := assetId, name := shortName 8 assetId, ticker := ⟨shortName 4 assetId⟩
    icon := some h.defaultIcon, precision := 8, iconUrl := none }

/-- Register an asset of the wallet, under a made-up name if the registry does not know it. -/
def addWalletAsset (h : Host) (assetId : AssetId) : Worker ε Unit := do
  let loaded ← Proc.attempt (loadGdkAsset h assetId)
  match loaded with
  | .ok (asset, domain) => registerAsset asset false domain
  | .error _ => registerAsset (unknownAsset h assetId) false none

/-- The asset list that the process starts with. -/
def loadAssets (h : Host) : Worker String Unit := do
  let w ← Proc.get
  let assets ← Proc.okOr (w.assetsFile.or (if h.env = .prod then some h.embeddedAssets else none))
    "can't load assets"
  modifyData fun d => { d with assetsOld := assets }
  registerAssets h assets

/-- The asset list is written, if the write succeeds. -/
def World.assetsWritten (w : World) (ok : Bool) (assets : List Asset) : World :=
  { w with assetsFile := if ok then some assets else w.assetsFile, assetsSaved := some ok }

/-- Write the asset list; a failure is only reported. -/
def saveAssets (h : Host) (assets : List Asset) : Worker ε Unit := do
  let ok ← call h.saveSucceeds
  Proc.modify fun w => w.assetsWritten ok assets

/-! ### Transactions -/

/-- The confirmations that settle a transaction. -/
def txConfCount : ℤ := 2

/-- The order in which the balances of a transaction are shown. -/
def balanceLe (a b : Balance) : Bool :=
  match compare a.assetId b.assetId with
  | .lt => true
  | .gt => false
  | .eq => decide (a.amount ≤ b.amount)

/-- The balances of a transaction in the order of display. -/
def sortBalances (l : List Balance) : List Balance :=
  l.insertionSort fun a b => balanceLe a b = true

/-- A transaction as it is shown; its time must be valid. -/
def getTxItem (h : Host) (tx : TxListItem) (topBlock : ℕ) : Option TransItem := do
  let createdAt ← h.parseTime tx.createdAt
  let balances := sortBalances (tx.satoshi.map fun p => ⟨p.1, p.2⟩)
  let count : ℤ :=
    -- a block above the height that was read counts as none
    if tx.blockHeight = 0 ∨ tx.blockHeight > topBlock then 0 else topBlock - tx.blockHeight + 1
  return {
    id := tx.txhash
    createdAt := createdAt
    confs := if count < txConfCount then some ⟨count, txConfCount⟩ else none
    item := .tx { balances := balances, memo := tx.memo, networkFee := tx.fee, txid := tx.txhash } }

/-- The id of a peg's payment in the transaction list. -/
def pegTxitemId (sendTxid : String) (sendVout : ℤ) : String := sendTxid ++ "/" ++ toString sendVout

/-- A payment of a peg as it is shown. -/
def getPegItem (peg : PegStatus) (tx : TxStatus) : TransItem :=
  { id := pegTxitemId tx.txHash tx.vout
    createdAt := tx.createdAt
    confs := match tx.detectedConfs, tx.totalConfs with
      | some count, some total => some ⟨count, total⟩
      | _, _ => none
    item := .peg
      { isPegIn := peg.pegIn, amountSend := tx.amount, amountRecv := tx.payout.getD 0
        addrSend := peg.addr, addrRecv := peg.addrRecv, txidSend := tx.txHash, voutSend := tx.vout
        txidRecv := tx.payoutTxid } }

/-- The transactions and pegs of the wallet, by their id. -/
def getTxList (h : Host) (ctx : Context) (topBlock : ℕ) : Option (Map String TransItem) := do
  let newTxs ← ctx.txs.mapM fun tx => getTxItem h tx topBlock
  let newPegs := ctx.pegs.values.flatMap fun peg => peg.list.map (getPegItem peg)
  return (newTxs ++ newPegs).foldl (fun m item => m.insert item.id item) ∅

/-- The results that wait until no review is shown. -/
def showSucceed : List TransItem → Worker ε Unit
  | [] => pure ()
  | item :: rest => do
    modifyData fun d => { d with pendingSucceed := rest }
    toUi (.submitResult (.swapSucceed item))
    showSucceed rest

/-- Show the waiting results if no review is on display. -/
def processPendingSucceed : Worker ε Unit := do
  let d ← getData
  if d.visibleSubmit.isSome then pure () else showSucceed d.pendingSucceed

/-! ### Registration of addresses -/

/-- How many addresses are registered ahead of the wallet's own counters. -/
def extraAddressCount : ℕ := 100
/-- How many addresses one request registers at most. -/
def maxRegisterAddressCount : ℕ := 100

/-- One batch of addresses: the new counters and the addresses to register. -/
def addressBatch (h : Host) (indexes : ℕ × ℕ) (s : Settings) : ℕ × ℕ × List String :=
  let lastExternal := s.lastExternal.getD 0
  let lastInternal := s.lastInternal.getD 0
  let newExternal := min (indexes.1 + extraAddressCount) (lastExternal + maxRegisterAddressCount)
  let externalCount := newExternal - lastExternal
  -- the internal addresses get what the external ones leave of the batch
  let newInternal := min (indexes.2 + extraAddressCount)
    (lastInternal + maxRegisterAddressCount - externalCount)
  let external := (List.range' lastExternal (newExternal - lastExternal)).map
    fun pointer => h.address false pointer false
  let internal := (List.range' lastInternal (newInternal - lastInternal)).map
    fun pointer => h.address true pointer false
  (newExternal, newInternal, external ++ internal)

/-- Register the addresses in batches; every batch makes at least one of the counters grow. -/
def registerBatches (h : Host) (deviceKey : String) (indexes : ℕ × ℕ) : ℕ → Worker ε Unit
  | 0 => pure ()
  | n + 1 => do
    let d ← getData
    let (newExternal, newInternal, addresses) := addressBatch h indexes d.settings
    if addresses.isEmpty then pure ()
    else do
      let resp ← Proc.attempt (request h (.registerAddresses deviceKey addresses))
      match resp with
      | .ok _ => do
        modifySettings fun s =>
          { s with lastExternal := some newExternal, lastInternal := some newInternal }
        saveSettings h
        registerBatches h deviceKey indexes n
      | .error _ => pure ()

/-- Register the addresses that the wallet may use next. -/
def updateAddressRegistrations (h : Host) : Worker ε Unit := do
  let d ← getData
  match d.connected, d.settings.deviceKey, d.ctx with
  | true, some deviceKey, some _ => do
    let indexes ← call h.indexes
    registerBatches h deviceKey indexes (indexes.1 + indexes.2 + 2 * extraAddressCount)
  | _, _, _ => pure ()

/-! ### The transaction list and the balances -/

/-- Report that a swap has succeeded when its transaction is first seen. -/
def reportSwapSucceed (item : TransItem) : Worker ε Unit := do
  let ctx ← expectCtx
  if ctx.succeedSwap = some item.id then do
    modifyCtx fun c => { c with succeedSwap := none }
    toUi (.swapSucceed item)
  else pure ()

/-- Queue the success of an order whose transaction is seen. -/
def queueSubmitSucceed (item : TransItem) : Worker ε Unit := do
  let d ← getData
  match d.submitData.values.find? fun submit => submit.txid = some item.id with
  | some submit =>
    if submit.orderId ∈ d.shownSucceed then pure ()
    else modifyData fun d =>
      { d with
        pendingSucceed := d.pendingSucceed ++ [item]
        shownSucceed := insert submit.orderId d.shownSucceed }
  | none => pure ()

/-- Show an item of the list if it is new or has changed. -/
def syncTxItem (item : TransItem) : Worker ε Unit := do
  let ctx ← expectCtx
  if ctx.sentTxs[item.id]? = some item then pure ()
  else do
    toUi (.updatedTx item)
    reportSwapSucceed item
    queueSubmitSucceed item

/-- Bring the list on display in line with the wallet, then do what may depend on it. -/
def trySyncTxList (h : Host) : Worker String Unit := do
  let ctx ← expectCtx
  let topBlock ← callOr h.blockStatus ("block_status failed: " ++ ·)
  let newList ← Proc.expect (getTxList h ctx topBlock)
  Proc.each (ctx.sentTxs.keys.filter fun id => !newList.contains id) fun id => toUi (.removedTx id)
  Proc.each newList.values syncTxItem
  modifyCtx fun c => { c with sentTxs := newList }
  record (.synced newList)
  updateAddressRegistrations h
  processPendingSucceed

/-- Without the height of the chain the list is left as it is. -/
def syncTxList (h : Host) : Worker ε Unit := ignoreError (trySyncTxList h)

/-- Show the balance of an asset if it has changed. -/
def syncBalance (p : AssetId × ℤ) : Worker ε Unit := do
  let ctx ← expectCtx
  if ctx.lastBalances[p.1]? = some p.2 then pure ()
  else do
    toUi (.balanceUpdate ⟨p.1, p.2⟩)
    modifyCtx fun c => { c with lastBalances := c.lastBalances.insert p.1 p.2 }

/-- Show the balances that have changed. -/
def updateBalances (h : Host) : Worker ε Unit := do
  let d ← getData
  match d.ctx with
  | none => pure ()
  | some ctx => do
    let result ← call h.getBalance
    match result with
    | .error _ => pure ()
    | .ok balances => do
      -- assets that are gone from the wallet are shown with a balance of zero
      let all := ctx.lastBalances.keys.foldl (fun m a => m.insertIfNew a 0) balances
      Proc.each all.toList syncBalance
      record (.balanced balances)

/-- The assets of the wallet's transactions that are not registered. -/
def newAssetIds (d : Data) (txs : List TxListItem) : List AssetId :=
  let all := (txs.flatMap fun tx => tx.satoshi.map Prod.fst).foldl
    (fun m a => m.insert a ()) (∅ : Map AssetId Unit)
  all.keys.filter fun a => !d.assets.contains a

/-- Read the wallet's transactions and show what follows from them. -/
def tryUpdateTxList (h : Host) : Worker String Unit := do
  let d ← getData
  if d.assets.isEmpty || d.ctx.isNone then pure ()
  else do
    let txs ← callOr h.getTransactions id
    modifyCtx fun c => { c with txs := txs }
    Proc.each (newAssetIds d txs) (addWalletAsset h)
    syncTxList h
    updateBalances h

/-- A wallet that cannot be read is shown as before. -/
def updateTxList (h : Host) : Worker ε Unit := ignoreError (tryUpdateTxList h)

/-! ### Pegs, contacts and the push token -/

/-- Ask for the status of a peg. -/
def startPegMonitoring (peg : SavedPeg) : Worker ε Unit := sendRequestMsg (.pegStatus peg.orderId)

/-- Watch a peg, also after a restart. -/
def addPegMonitoring (h : Host) (orderId : OrderId) (dir : PegDir) : Worker ε Unit := do
  let d ← getData
  let peg : SavedPeg := ⟨orderId, dir⟩
  Proc.each (if d.connected then [peg] else []) startPegMonitoring
  modifySettings fun s => { s with pegs := s.pegs ++ [peg] }
  saveSettings h

/-- Ask again for the pegs that are watched. -/
def resumePegMonitoring : Worker ε Unit := do
  let d ← getData
  if d.assets.isEmpty || d.ctx.isNone || !d.connected then pure ()
  else Proc.each d.settings.pegs startPegMonitoring

/-- Show a contact. -/
def processContactCreated (contact : Contact) : Worker ε Unit := toUi (.contactCreated contact)

/-- Show a transaction with a contact. -/
def processContactTx (tx : ContactTransaction) : Worker ε Unit := toUi (.contactTransaction tx)

/-- Show whether the phone is registered. -/
def processAccountStatus (registered : Bool) : Worker ε Unit := toUi (.accountStatus registered)

/-- Show the contacts of the registered phone. -/
def downloadContacts (h : Host) : Worker ε Unit := do
  let d ← getData
  match d.connected, d.ctx.bind Context.phoneKey with
  | true, some phoneKey => do
    let result ← Proc.attempt (request h (.downloadContacts phoneKey))
    match result with
    | .ok data => do
      processAccountStatus (DownloadContactsResponse.registered data)
      Proc.each (DownloadContactsResponse.contacts data) processContactCreated
      Proc.each (DownloadContactsResponse.transactions data) processContactTx
    | .error _ => pure ()
  | _, _ => pure ()

/-- Send the token for push messages, if it is known and the device is registered. -/
def updatePushToken (h : Host) : Worker ε Unit := do
  let d ← getData
  match d.pushToken, d.connected, d.settings.deviceKey with
  | some pushToken, true, some deviceKey =>
    ignoreError (request h (.updatePushToken deviceKey pushToken))
  | _, _, _ => pure ()

/-- A phone is struck off the list only when the server has answered. -/
def unregisterPhone (h : Host) (phoneKey : PhoneKey) : Worker ε Unit := do
  let result ← Proc.attempt (request h (.unregisterPhone phoneKey))
  match result with
  | .ok _ => do
    modifySettings fun s =>
      { s with unregisterPhoneRequests := s.unregisterPhoneRequests.erase phoneKey }
    saveSettings h
  | .error _ => pure ()

/-- Repeat the requests to unregister that have not been answered. -/
def processUnregisterPhoneRequests (h : Host) : Worker ε Unit := do
  let d ← getData
  if !d.connected then pure ()
  else Proc.each d.settings.unregisterPhoneRequests.toList (unregisterPhone h)

end SideSwap.Client
