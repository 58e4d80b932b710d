import SideSwap.Client.Proto
import SideSwap.Lib.Proc

/-!
# The state of the client worker

The worker (`worker.rs`) is one thread that handles one message after the other.  Its state `Data`
contains the state of the logged-in wallet, `Context`.  `World` adds what survives the process (the
settings and the asset list on disk), the number of calls made to the outside so far, and the
history of everything that went in or out, newest first.

`Host` is the outside: the server, the wallet library, the clock and the file system.  Each of its
functions takes the number of the call, so that it may answer the same question differently at
different times.  A result `none` stands for a panic inside the library.

A function of the worker is a `Worker` computation.  One that returns a `Result` fails with the text
of its error, one that does not is polymorphic in the type of errors.  A panic ends the process.
-/

namespace SideSwap.Client

/-! ### The wallet library -/

/-- A coin of the wallet. -/
structure Utxo where
  txhash : String
  satoshi : ℕ
  ptIdx : ℕ
  derivationPath : List ℕ
deriving DecidableEq

/-- An unspent output as the wallet library reports it. -/
structure GdkUtxo extends Utxo where
  blockHeight : ℕ
deriving DecidableEq

/-- The outpoint of a coin. -/
def Utxo.txOut (u : Utxo) : TxOut := ⟨u.txhash, u.ptIdx⟩

/-- The terms under which the wallet library makes or signs a partial transaction. -/
structure PsbtInfo where
  sendAsset : AssetId
  recvAsset : AssetId
  sendAmount : ℤ
  recvAmount : ℤ
deriving DecidableEq

/-- A transaction as the wallet library reports it. -/
structure TxListItem where
  txhash : String
  createdAt : String
  satoshi : List (AssetId × ℤ)
  memo : String
  fee : ℕ
  blockHeight : ℕ

/-- A transaction that the wallet library has made. -/
structure TransactionMeta where
  hex : String
  txid : String
  fee : ℕ
deriving DecidableEq

/-- A payment that the wallet library is to make. -/
structure CreateTransaction where
  address : String
  satoshi : ℤ
  assetId : AssetId
  sendAll : Bool
deriving DecidableEq

/-! ### Settings -/

/-- The direction of a peg. -/
inductive PegDir where
  | in
  | out
deriving DecidableEq

/-- A peg whose status is asked for again after a restart. -/
structure SavedPeg where
  orderId : OrderId
  dir : PegDir
deriving DecidableEq

/-- The coins offered for an order, with the time of the offer. -/
structure StoredUtxo where
  utxos : List Utxo
  createdAt : ℕ
deriving DecidableEq

/-- The settings on disk.  A missing list or map is the same as an empty one. -/
structure Settings where
  unregisterPhoneRequests : Std.ExtTreeSet PhoneKey
  pegs : List SavedPeg
  deviceKey : Option String
  /-- how many addresses of each kind have been registered -/
  lastExternal : Option ℕ
  lastInternal : Option ℕ
  /-- the coins offered by a maker, by order -/
  utxosReq : Map OrderId StoredUtxo
  sessionId : Option String

/-- The settings before the first login. -/
def Settings.default : Settings :=
  { unregisterPhoneRequests := ∅, pegs := [], deviceKey := none, lastExternal := none
    lastInternal := none, utxosReq := ∅, sessionId := none }

/-- One day, in seconds. -/
def expiredUtxos : ℕ := 24 * 60 * 60

/-- Forget the coins of orders that were submitted more than a day ago. -/
def Settings.prune (s : Settings) (now : ℕ) : Settings :=
  { s with utxosReq := s.utxosReq.filter fun _ utxo => decide (now - utxo.createdAt ≤ expiredUtxos) }

/-! ### The state -/

/-- The instant swap that has been requested.  The inputs are those of the transaction that the user
has accepted. -/
structure ActiveSwap where
  orderId : OrderId
  sendAsset : AssetId
  recvAsset : AssetId
  sendAmount : ℤ
  /-- the amount of the quote that the user has accepted -/
  recvAmountAccepted : Option ℤ
  inputs : List Utxo
  networkFee : Option ℤ
deriving DecidableEq

/-- The peg-out that has been reviewed. -/
structure InternalPeg where
  sendAmount : ℤ
  blocks : ℤ
deriving DecidableEq

/-- The payment that is shown to the user and not yet sent. -/
structure SendTx where
  tx : TransactionMeta
  sendAll : Bool
  assetId : AssetId
  amount : ℤ
  contactKey : Option ContactKey
deriving DecidableEq

/-- The market whose orders are subscribed. -/
inductive Subscribe where
  | none
  | tokens
  | asset (assetId : AssetId)
deriving DecidableEq

/-- The terms of an order that the user has accepted, with the coins offered for it. -/
structure SubmitData where
  orderId : OrderId
  side : OrderSide
  asset : AssetId
  assetPrecision : ℕ
  orderType : OrderType
  bitcoinAmount : ℤ
  assetAmount : ℤ
  price : F64
  serverFee : ℤ
  /-- whether the wallet sends bitcoin -/
  sellBitcoin : Bool
  /-- the coins offered, so that other orders leave them alone -/
  txouts : Finset TxOut
  /-- whether a sign request may be accepted without a prompt -/
  autoSign : Bool
  /-- the transaction, once the order is completed -/
  txid : Option String
  /-- whether the price follows an index -/
  indexPrice : Bool
deriving DecidableEq

/-- The state of the logged-in wallet. -/
structure Context where
  walletHashId : String
  /-- the balances as they were last shown -/
  lastBalances : Map AssetId ℤ
  /-- the coins that instant swaps have spent -/
  usedUtxos : Finset TxOut
  syncComplete : Bool
  /-- whether the user interface has been told that the wallet can be shown -/
  walletLoadedSent : Bool
  pegs : Map OrderId PegStatus
  txs : List TxListItem
  /-- the transaction list as it was last shown -/
  sentTxs : Map String TransItem
  /-- the transaction of an instant swap whose success is still to be reported -/
  succeedSwap : Option String
  activeSwap : Option ActiveSwap
  /-- the inputs that have been offered for the swap -/
  psbtUtxos : Option (List Utxo)
  sendTx : Option SendTx
  internalPeg : Option InternalPeg
  activeExternPeg : Option OrderId
  /-- the order under review, and the sign request under review -/
  activeSubmit : Option LinkResponse
  activeSign : Option SignNotification
  phoneKey : Option PhoneKey
  subscribe : Subscribe

/-- The state of the worker.  The queues `pending…` hold what waits for a login, a connection or a
free display. -/
structure Data where
  connected : Bool
  serverStatus : Option ServerStatus
  assets : Map AssetId Asset
  tokenAssets : Finset AssetId
  /-- the list that the process has started with -/
  assetsOld : List Asset
  tickers : Map Ticker AssetId
  ctx : Option Context
  settings : Settings
  pushToken : Option String
  submitData : Map OrderId SubmitData
  /-- the orders whose sign request is to be downloaded, and whether somebody waits for it -/
  pendingSigns : Map OrderId Bool
  /-- the order whose review is on display -/
  visibleSubmit : Option OrderId
  /-- the order whose review has been closed without a result -/
  waitingSubmit : Option OrderId
  /-- the orders whose sign request has been handled -/
  processedSigns : Finset OrderId
  pendingSignRequests : List SignNotification
  pendingSignPrompts : List SignNotification
  pendingSubmits : List SubmitOrder
  pendingLinks : List OrderId
  /-- the orders whose success has been queued or shown -/
  shownSucceed : Finset OrderId
  pendingSucceed : List TransItem
  /-- the coins offered by a taker, by order -/
  utxosResp : Map OrderId StoredUtxo
  /-- the orders that were submitted from this application -/
  internal : Finset OrderId
  /-- the orders to show, and those that are shown -/
  ordersLast : Map OrderId Order
  ordersSent : Map OrderId Order

/-! ### The outside -/

/-- The network that the client works on. -/
inductive Env where
  | prod
  | staging
  | regtest
  | local
deriving DecidableEq

/-- Whether the network carries real money. -/
def Env.isMainnet : Env → Bool
  | .prod | .staging => true
  | .regtest | .local => false

/-- The asset of the network's own coin. -/
def Env.bitcoinAssetId : Env → AssetId
  | .prod | .staging => ⟨"6f0279e9ed041c3d710a9f57d0c02928416460c4b722ae3457a11eec381c526d"⟩
  | .regtest => ⟨"2e16b12daf1244332a438e829ca7ce209195f8e1c54199770cd8b327710a8ab2"⟩
  | .local => ⟨"2684bbac0fa7ad544ec8eee43c35156346e5d641d24a4b9d5d8f183e3f2d8fb9"⟩

/-- The outside of the worker. -/
structure Host where
  env : Env
  version : String
  osType : ℤ
  defaultIcon : String
  embeddedAssets : List Asset
  server : ℕ → (r : Request) → Except String r.Answer
  /-- what only asks the wallet library, or the network behind it; `none` is a panic -/
  login : ℕ → String → Option String
  refreshAssets : ℕ → Bool → Except String GdkAssets
  getTransactions : ℕ → Except String (List TxListItem)
  /-- a malformed time has none -/
  parseTime : String → Option ℤ
  blockStatus : ℕ → Except String ℕ
  getBalance : ℕ → Except String (Map AssetId ℤ)
  getUnspentOutputs : ℕ → Except String (Map AssetId (List GdkUtxo))
  getReceiveAddress : ℕ → Option String
  createTransaction : ℕ → CreateTransaction → Except String TransactionMeta
  signTransaction : ℕ → TransactionMeta → Except String TransactionMeta
  sendTransaction : ℕ → TransactionMeta → Except String String
  setTransactionMemo : ℕ → String → String → Except String Unit
  findOutput : String → String → Except String ℕ
  isRedeposit : ℕ → String → Bool
  blindedValues : ℕ → String → Option String
  /-- partial transactions -/
  generatePsbt : ℕ → PsbtInfo → List Utxo → Option (Except String String)
  signPsbt : ℕ → PsbtInfo → List Utxo → String → Option (Except String String)
  /-- the next external and the next internal address of the wallet -/
  indexes : ℕ → ℕ × ℕ
  address : Bool → ℕ → Bool → String
  /-- what does not depend on the wallet -/
  encryptPin : ℕ → String → String → Except String (String × String × String)
  decryptPin : ℕ → String → String → String → String → Except String String
  parseFcm : String → Option FcmMessage
  readCookie : ℕ → Option String
  saveSucceeds : ℕ → Bool
  now : ℕ → ℕ
  timestampNow : ℕ → ℤ
  display : F64 → String

/-- The asset of the chain's own coin. -/
def Host.liquidAssetId (h : Host) : AssetId := h.env.bitcoinAssetId

/-- The name under which the user interface knows bitcoin on its own chain. -/
def bitcoinAssetId : AssetId :=
  ⟨"0000000000000000000000000000000000000000000000000000000000000000"⟩

/-! ### The history -/

/-- What the main loop handles: messages of the user interface, of the connection and of the wallet
library, and the answers that come later. -/
inductive Message where
  | ui (msg : ToMsg)
  | serverConnected
  | serverDisconnected
  | serverNotification (notification : Notification)
  /-- an event of the wallet library; `none` is a malformed one -/
  | notif (event : Option String)
  | pegStatus (status : PegStatus)
  | subscribe (msg : SubscribeResponse)
  | unsubscribe
  | assetDetails (msg : AssetDetailsResponse)
  /-- a push message whose sender waits until it has been handled -/
  | backgroundMessage (text : String)

/-- Why an order is signed: because of the terms stored before the sign request, which came while
the asset was registered with the given precision, or because the user has accepted a prompt. -/
inductive SignCause where
  | auto (before : SubmitData) (precision : ℕ)
  | decision
deriving DecidableEq

/-- What a signature is for. -/
inductive Purpose where
  | swap (orderId : OrderId)
  | order (cause : SignCause) (orderId : OrderId)
deriving DecidableEq

/-- A deal that the server reports as done, with the id of its transaction. -/
inductive Completion where
  | swap (orderId : OrderId) (txid : String)
  | order (orderId : OrderId) (txid : String)
deriving DecidableEq

/-- An entry of the history. -/
inductive Event where
  /-- the process starts -/
  | started
  /-- a message of the main loop -/
  | received (msg : Message)
  /-- a request with its answer -/
  | request (req : Request) (answer : Except String req.Answer)
  /-- a request whose answer will come as a message -/
  | posted (req : Request)
  | toUi (msg : FromMsg)
  /-- a command to the connection: connect or disconnect -/
  | toWs (connect : Bool)
  /-- the wallet library makes or signs a partial transaction -/
  | generatePsbt (info : PsbtInfo) (utxos : List Utxo) (psbt : Option String)
  | signPsbt (purpose : Purpose) (info : PsbtInfo) (utxos : List Utxo) (psbt : String)
      (signed : Option String)
  /-- `try_sign` begins -/
  | trySign (cause : SignCause) (msg : SignNotification)
  /-- a sign request is queued for the user -/
  | prompted (msg : SignNotification)
  /-- the terms of an order are stored after the user's decision -/
  | stored (data : SubmitData)
  /-- the coins of an order are taken out of their store -/
  | utxosTaken (side : OrderSide) (orderId : OrderId)
  /-- a deal is done: the active swap, or an order whose terms are stored -/
  | completed (deal : Completion)
  /-- an instant swap has been requested -/
  | swapPrepared (swap : ActiveSwap)
  /-- a peg-out has been reviewed -/
  | pegPrepared (peg : InternalPeg)
  /-- the reviewed peg-out begins -/
  | pegTaken (peg : InternalPeg)
  | createTransaction (details : CreateTransaction) (tx : Option TransactionMeta)
  | broadcast (tx : TransactionMeta)
  /-- whoever waited for the sign request of an order goes on -/
  | signaled (orderId : OrderId)
  /-- the transaction list has been compared with what was shown -/
  | synced (list : Map String TransItem)
  /-- the balances have been compared with what was shown -/
  | balanced (balances : Map AssetId ℤ)

/-- The worker with its files and its history. -/
structure World where
  data : Data
  disk : Settings
  assetsFile : Option (List Asset)
  /-- whether the last write of `assetsFile` succeeded -/
  assetsSaved : Option Bool
  calls : ℕ
  log : List Event

/-- A function of the worker. -/
abbrev Worker (ε : Type) (α : Type) : Type := Proc ε World α

/-! ### Primitive steps -/

variable {ε : Type}

/-- Add an event to the history. -/
def World.record (w : World) (e : Event) : World := { w with log := e :: w.log }

/-- Change the state. -/
def World.modifyData (w : World) (f : Data → Data) : World := { w with data := f w.data }

/-- Change the state of the wallet; nothing changes without a login. -/
def World.modifyCtx (w : World) (f : Context → Context) : World :=
  w.modifyData fun d => { d with ctx := d.ctx.map f }

/-- Add an event to the history. -/
def record (e : Event) : Worker ε Unit := Proc.modify fun w => w.record e

/-- Send a message to the user interface. -/
def toUi (msg : FromMsg) : Worker ε Unit := record (.toUi msg)

/-- The state now. -/
def getData : Worker ε Data := do
  let w ← Proc.get
  pure w.data

/-- Change the state. -/
def modifyData (f : Data → Data) : Worker ε Unit := Proc.modify fun w => w.modifyData f

/-- Change the state of the wallet, if there is one. -/
def modifyCtx (f : Context → Context) : Worker ε Unit := Proc.modify fun w => w.modifyCtx f

/-- The wallet that must be set. -/
def expectCtx : Worker ε Context := do
  let d ← getData
  Proc.expect d.ctx

/-- The wallet, or an error. -/
def ctxOr (text : String) : Worker String Context := do
  let d ← getData
  Proc.okOr d.ctx text

/-- The number of the next call. -/
def nextCall : Worker ε ℕ := do
  let w ← Proc.get
  Proc.modify fun w => { w with calls := w.calls + 1 }
  pure w.calls

/-- Call a function of the host. -/
def call {α : Type} (f : ℕ → α) : Worker ε α := do
  let n ← nextCall
  pure (f n)

/-- Call a function of the host that may fail. -/
def callOr {α : Type} (f : ℕ → Except String α) (wrap : String → String) : Worker String α := do
  let r ← call f
  Proc.ofExcept (r.mapError wrap)

/-- Send a request and wait for its answer, wrapping the text of an error. -/
def requestOr (h : Host) (r : Request) (wrapError : String → String) : Worker String r.Answer := do
  let answer ← call fun n => h.server n r
  record (.request r answer)
  Proc.ofExcept (answer.mapError wrapError)

/-- Send a request and wait for its answer. -/
def request (h : Host) (r : Request) : Worker String r.Answer := requestOr h r id

/-- Send a request without waiting. -/
def sendRequestMsg (r : Request) : Worker ε Unit := record (.posted r)

/-- Show a text to the user. -/
def showMessage (text : String) : Worker ε Unit := toUi (.showMessage text)

/-- Write the settings to disk; a failure is only reported. -/
def saveSettings (h : Host) : Worker ε Unit := do
  let ok ← call h.saveSucceeds
  Proc.modify fun w => if ok then { w with disk := w.data.settings } else w

/-- Change the settings in memory. -/
def modifySettings (f : Settings → Settings) : Worker ε Unit :=
  modifyData fun d => { d with settings := f d.settings }

/-- Drop the error of a fallible step that the caller only reports in its log file. -/
def ignoreError {α : Type} (m : Worker String α) : Worker ε Unit := do
  let _ ← Proc.attempt m
  pure ()

end SideSwap.Client
