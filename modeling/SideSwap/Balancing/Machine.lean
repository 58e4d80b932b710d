import SideSwap.Common.Types
import SideSwap.Lib.Proc

/-!
# The balancing machine of the Bitfinex dealer

The dealer keeps its wallet and its exchange account in balance by moving coins between them, one
`Transfer` record at a time.  The record lives in `Storage`, which is written to a file after every
change (`updateBalancingState`, `saveStorage`) and read back when the process starts.

The world also says where the process is going to crash while it handles the current message:
`reach p` ends the process if that is the point `p`.  The points cut a handler between an external
effect, the change of the record in memory and the two halves of `saveStorage`.  A failing write of
the file, which panics, is a crash at `updated` (the file cannot be created or written) or at
`written` (it cannot be renamed).

External effects are collected in `effects`, everything else that leaves the machine in `notices`,
newest first.
-/

namespace SideSwap.Balancing

/-! ### Storage -/

/-- How far a transfer has got. -/
inductive TransferState where
  | sendUsdtNew
  | sendUsdtWaitConfirm
  | recvUsdtNew
  | recvUsdtWaitWithdrawId
  | recvUsdtWaitConfirm
  | sendBtcNew
  | sendBtcWaitLbtcBalance
  | sendBtcWaitConfirm
  | recvBtcNew
  | recvBtcWaitLbtcBalance
  | recvBtcWaitWithdrawId
  | recvBtcWaitConfirm
  | complete
  | failed
deriving DecidableEq

/-- The record of one transfer.  Times are seconds since the epoch. -/
structure Transfer where
  withdrawId : Option ℤ
  state : TransferState
  amount : ℤ
  createdAt : ℕ
  updatedAt : ℕ
  txid : Option String
deriving DecidableEq

/-- What the dealer keeps on disk: the transfer under way, if there is one. -/
structure Storage where
  balancing : Option Transfer
deriving DecidableEq

/-! ### Messages -/

/-- The settings that balancing reads. -/
structure Args where
  mainnet : Bool
  balancingEnabled : Bool
  bitfinexKey : String
  bitfinexSecret : String
  bitfinexWithdrawAddress : String
  bitfinexFundAddress : String
  bitfinexCurrencyBtc : String
  bitfinexCurrencyLbtc : String
  bitfinexCurrencyUsdt : String

/-- An entry of the exchange's list of movements. -/
structure Movement where
  id : ℤ
  currency : String
  currencyName : String
  mtsStarted : ℤ
  mtsUpdated : ℤ
  status : String
  amount : F64
  fees : F64
  destinationAddress : String
  transactionId : String
  withdrawTransactionNote : String

/-- Equality of messages compares the floating point fields as numbers. -/
def Movement.same (a b : Movement) : Bool :=
  a.id = b.id && a.currency = b.currency && a.currencyName = b.currencyName
    && a.mtsStarted = b.mtsStarted && a.mtsUpdated = b.mtsUpdated && a.status = b.status
    && F64.eq a.amount b.amount && F64.eq a.fees b.fees
    && a.destinationAddress = b.destinationAddress && a.transactionId = b.transactionId
    && a.withdrawTransactionNote = b.withdrawTransactionNote

/-- The exchange's answer to the question for its movements. -/
structure Movements where
  success : Bool
  key : String
  movements : List Movement

/-- Equality of two answers, entry by entry. -/
def Movements.same (a b : Movements) : Bool :=
  a.success = b.success && a.key = b.key && a.movements.length = b.movements.length
    && (a.movements.zip b.movements).all fun p => p.1.same p.2

/-- The request to start a transfer, from the command line or from a tick. -/
inductive CliRequest where
  | testSendUsdt (amount : F64)
  | testRecvUsdt (amount : F64)
  | testSendBtc (amount : F64)
  | testRecvBtc (amount : F64)
deriving DecidableEq

/-- What a timer tick finds: the balances by ticker or currency, the connection to the exchange,
the known assets by ticker, whether a swap was hedged in the last minute, and the answer a
`sendtoaddress` call would get now. -/
structure Tick where
  walletBalances : String → Option F64
  walletBalancesConfirmed : String → Option F64
  exchangeBalances : String → Option F64
  moduleConnected : Bool
  assetId : String → Option String
  recentlyHedged : Bool
  rpcResult : Except String String

/-- What the main loop handles. -/
inductive Msg where
  | timer (tick : Tick)
  | cli (req : CliRequest)
  | withdraw (withdrawId : ℤ)
  | movements (msg : Movements)
  | transfer (success : Bool)
  | checkExchange (moduleConnected : Bool)

/-! ### Effects -/

/-- What the outside world can see of a transfer: its record begins and ends, coins are sent from
the wallet, and the exchange is told to withdraw or to convert. -/
inductive Effect where
  | created
  | removed
  | sendToAddress (address : String) (amount : F64) (asset : Option String) (txid : String)
  | withdraw (key secret wallet method : String) (amount : F64) (address : String)
  | transfer (key secret source target currency currencyTo : String) (amount : F64)
deriving DecidableEq

/-- What else leaves the machine: texts for people, and questions to the exchange. -/
inductive Notice where
  | notification (text : String)
  | started (name : String) (amount : F64)
  | cliRequest (req : CliRequest)
  | cliResponse (success : Bool) (text : String)
  | movements (key secret : String) (start : ℤ)
deriving DecidableEq

/-- The points of a handler between which it can be interrupted. -/
inductive Point where
  /-- nothing has been done -/
  | entry
  /-- the external effect has happened -/
  | issued
  /-- the record has changed in memory -/
  | updated
  /-- the new file is complete under its temporary name -/
  | written
  /-- the new file has its name -/
  | saved
deriving DecidableEq

/-- The dealer, its file and what has left it. -/
structure World where
  storage : Storage
  file : Storage
  movements : Option Movements
  now : ℕ
  crashAt : Option Point
  effects : List Effect
  notices : List Notice

/-- A dealer that has never run. -/
def World.init : World :=
  { storage := ⟨none⟩, file := ⟨none⟩, movements := none, now := 0, crashAt := none,
    effects := [], notices := [] }

/-- A handler.  It does not fail, it only panics. -/
abbrev Balance := Proc Empty World

/-- The process ends here if this is where it crashes. -/
def reach (p : Point) : Balance Unit := do
  let w ← Proc.get
  if w.crashAt = some p then Proc.abort else pure ()

/-- An external effect happens. -/
def emit (e : Effect) : Balance Unit := Proc.modify fun w => { w with effects := e :: w.effects }

/-- Something else leaves the machine. -/
def notify (n : Notice) : Balance Unit := Proc.modify fun w => { w with notices := n :: w.notices }

/-- Change the record in memory. -/
def setBalancing (b : Option Transfer) : Balance Unit :=
  Proc.modify fun w => { w with storage := ⟨b⟩ }

/-- Write a new file and rename it. -/
def saveStorage : Balance Unit := do
  reach .updated
  reach .written
  Proc.modify fun w => { w with file := w.storage }
  reach .saved

/-- The two ends of a transfer are reported. -/
def notifyState (newState : TransferState) : Balance Unit :=
  if newState = .failed then notify (.notification ":fire: balancing failed")
  else if newState = .complete then notify (.notification "balancing complete")
  else pure ()

/-- Move the record to a new state and save it; without a record it is a panic. -/
def updateBalancingState (newState : TransferState) : Balance Unit := do
  let w ← Proc.get
  let balancing ← Proc.expect w.storage.balancing
  setBalancing (some { balancing with updatedAt := w.now, state := newState })
  notifyState newState
  saveStorage

/-! ### When to balance -/

/-- The bounds for the part of the total that is in the wallet, with the assertions on them. -/
structure Ratio where
  min : F64
  norm : F64
  max : F64
  min_pos : F64.lt (F64.zero false) min = true
  min_lt : F64.lt min norm = true
  lt_max : F64.lt norm max = true
  max_lt : F64.lt max (F64.lit 1 1) = true

/-- The bounds for bitcoin. -/
def ratioBtc : Ratio :=
  { min := F64.lit 25 100, norm := F64.lit 4 10, max := F64.lit 75 100
    min_pos := by decide +kernel
    min_lt := by decide +kernel
    lt_max := by decide +kernel
    max_lt := by decide +kernel }

/-- The bounds for dollars. -/
def ratioUsdt : Ratio :=
  { min := F64.lit 25 100, norm := F64.lit 6 10, max := F64.lit 75 100
    min_pos := by decide +kernel
    min_lt := by decide +kernel
    lt_max := by decide +kernel
    max_lt := by decide +kernel }

/-- Which way coins have to move, and how many. -/
inductive Decision where
  | none
  | send (amount : F64)
  | recv (amount : F64)
deriving DecidableEq

/-- Compare the wallet's part of the total with the bounds.  The amount restores the normal part. -/
def getBalancing (walletBalance exchangeBalance : F64) (expected : Ratio) : Decision :=
  -- something is up with a balance of zero, probably
  if walletBalance.eq (F64.zero false) || exchangeBalance.eq (F64.zero false) then .none
  else
    let total := walletBalance + exchangeBalance
    let ratio := walletBalance / total
    let diff := toBitcoin (fromBitcoin ((expected.norm - ratio) * total).abs)
    if ratio.lt expected.min then .recv diff
    else if expected.max.lt ratio then .send diff
    else .none

/-- The wallet's name for bitcoin. -/
def tickerLbtc : String := "L-BTC"
/-- The wallet's name for dollars. -/
def tickerUsdt : String := "USDt"

/-- A missing balance is zero. -/
def balanceOf (balances : String → Option F64) (name : String) : F64 :=
  (balances name).getD (F64.zero false)

/-- The start request that a tick posts to the dealer's own queue. -/
def startRequest (args : Args) (t : Tick) : Option CliRequest :=
  let balanceBitcoin := getBalancing (balanceOf t.walletBalances tickerLbtc)
    (balanceOf t.exchangeBalances args.bitfinexCurrencyBtc) ratioBtc
  let balanceUsdt := getBalancing (balanceOf t.walletBalances tickerUsdt)
    (balanceOf t.exchangeBalances args.bitfinexCurrencyUsdt) ratioUsdt
  match balanceBitcoin with
  | .recv amount => some (.testRecvBtc amount)
  | .send amount => some (.testSendBtc amount)
  | .none =>
    match balanceUsdt with
    | .recv amount => some (.testRecvUsdt amount)
    | .send amount => some (.testSendUsdt amount)
    | .none => none

/-! ### Handlers -/

/-- `sendtoaddress` of the wallet; the record moves on only if the call succeeds. -/
def sendToAddress (args : Args) (t : Tick) (b : Transfer) (asset : Option String)
    (next : TransferState) : Balance Unit := do
  reach .entry
  match t.rpcResult with
  -- a crash from here to the save leaves a file that does not know of the payment
  | .ok txid =>
    emit (.sendToAddress args.bitfinexFundAddress (toBitcoin b.amount) asset txid)
    reach .issued
    setBalancing (some { b with txid := some txid })
    updateBalancingState next
  | .error _ => updateBalancingState .failed

/-- Tell the exchange to pay to the wallet. -/
def sendWithdraw (args : Args) (b : Transfer) (method : String) (next : TransferState) :
    Balance Unit := do
  reach .entry
  emit (.withdraw args.bitfinexKey args.bitfinexSecret "exchange" method (toBitcoin b.amount)
    args.bitfinexWithdrawAddress)
  reach .issued
  updateBalancingState next

/-- Tell the exchange to convert one currency into another. -/
def sendTransfer (args : Args) (b : Transfer) (currency currencyTo : String)
    (next : TransferState) : Balance Unit := do
  reach .entry
  emit (.transfer args.bitfinexKey args.bitfinexSecret "exchange" "exchange" currency currencyTo
    (toBitcoin b.amount))
  reach .issued
  updateBalancingState next

/-- Whether a tick acts on a record in one of the states that wait for a balance. -/
def ready (args : Args) (t : Tick) (b : Transfer) : Bool :=
  let amount := toBitcoin b.amount
  match b.state with
  | .sendUsdtNew =>
    amount.le (balanceOf t.walletBalancesConfirmed tickerUsdt)
      && (F64.zero false).lt (balanceOf t.walletBalancesConfirmed tickerLbtc)
      && t.moduleConnected
  | .recvUsdtNew =>
    (amount.le (balanceOf t.exchangeBalances args.bitfinexCurrencyUsdt) || !args.mainnet)
      && t.moduleConnected
  | .sendBtcNew =>
    amount.le (balanceOf t.walletBalancesConfirmed tickerLbtc) && t.moduleConnected
  | .sendBtcWaitLbtcBalance =>
    (balanceOf t.exchangeBalances args.bitfinexCurrencyLbtc).eq amount && t.moduleConnected
  | .sendBtcWaitConfirm =>
    match t.exchangeBalances args.bitfinexCurrencyLbtc with
    | some v => v.eq (F64.zero false)
    | none => false
  | .recvBtcNew =>
    (amount.le (balanceOf t.exchangeBalances args.bitfinexCurrencyBtc) || !args.mainnet)
      && t.moduleConnected
  | .recvBtcWaitLbtcBalance =>
    (balanceOf t.exchangeBalances args.bitfinexCurrencyLbtc).eq amount && t.moduleConnected
  | _ => true

/-- What a tick does with the record. -/
def processBalancing (args : Args) (t : Tick) : Balance Unit := do
  let w ← Proc.get
  match w.storage.balancing with
  | none => pure ()
  | some b =>
    if ready args t b then
      match b.state with
      -- USDT goes to the exchange
      | .sendUsdtNew => do
        let asset ← Proc.expect (t.assetId tickerUsdt)
        sendToAddress args t b (some asset) .sendUsdtWaitConfirm
      -- USDT comes back from it
      | .recvUsdtNew => sendWithdraw args b "tetherusl" .recvUsdtWaitWithdrawId
      -- bitcoin goes to the exchange: as L-BTC first, which is converted there
      | .sendBtcNew => sendToAddress args t b none .sendBtcWaitLbtcBalance
      | .sendBtcWaitLbtcBalance =>
        sendTransfer args b args.bitfinexCurrencyLbtc args.bitfinexCurrencyBtc .sendBtcWaitConfirm
      | .sendBtcWaitConfirm => updateBalancingState .complete
      -- bitcoin comes back: converted to L-BTC first, which is then withdrawn
      | .recvBtcNew =>
        sendTransfer args b args.bitfinexCurrencyBtc args.bitfinexCurrencyLbtc
          .recvBtcWaitLbtcBalance
      | .recvBtcWaitLbtcBalance => sendWithdraw args b "LBT" .recvBtcWaitWithdrawId
      | .complete => do
        setBalancing none
        emit .removed
        saveStorage
      -- the timer leaves no other state
      | _ => pure ()
    else pure ()

/-- The exchange has answered a withdrawal with its id.  An answer that nobody waits for fails the
transfer. -/
def processWithdraw (withdrawId : ℤ) : Balance Unit := do
  let w ← Proc.get
  match w.storage.balancing with
  | none => pure ()
  | some b =>
    if b.state = .recvUsdtWaitWithdrawId ∧ withdrawId > 0 ∧ b.withdrawId = none then do
      setBalancing (some { b with withdrawId := some withdrawId })
      updateBalancingState .recvUsdtWaitConfirm
    else if b.state = .recvBtcWaitWithdrawId ∧ withdrawId > 0 ∧ b.withdrawId = none then do
      setBalancing (some { b with withdrawId := some withdrawId })
      updateBalancingState .recvBtcWaitConfirm
    else updateBalancingState .failed

/-- The list is acted on only when the exchange has sent the same one twice. -/
def processMovements (msg : Movements) : Balance Unit := do
  let w ← Proc.get
  if !msg.success then pure ()
  else if !(w.movements.any msg.same) then
    Proc.modify fun w => { w with movements := some msg }
  else
    match w.storage.balancing with
    | none => pure ()
    | some b =>
      match b.state with
      | .sendUsdtWaitConfirm => do
        let txid ← Proc.expect b.txid
        if msg.movements.any fun item => item.transactionId = txid && item.status = "COMPLETED" then
          updateBalancingState .complete
        else pure ()
      | .recvUsdtWaitConfirm | .recvBtcWaitConfirm =>
        if msg.movements.any fun item =>
            some item.id = b.withdrawId && item.status = "COMPLETED" then
          updateBalancingState .complete
        else pure ()
      | _ => pure ()

/-- The exchange has answered a conversion; only a failure changes the record. -/
def processTransfer (success : Bool) : Balance Unit := do
  let w ← Proc.get
  if w.storage.balancing.isSome && !success then updateBalancingState .failed else pure ()

/-- The first state, the amount and the name of a requested transfer. -/
def CliRequest.plan : CliRequest → TransferState × F64 × String
  | .testSendUsdt amount => (.sendUsdtNew, amount, "send usdt")
  | .testRecvUsdt amount => (.recvUsdtNew, amount, "recv usdt")
  | .testSendBtc amount => (.sendBtcNew, amount, "send btc")
  | .testRecvBtc amount => (.recvBtcNew, amount, "recv btc")

/-- The record of a requested transfer. -/
def newTransfer (now : ℕ) (req : CliRequest) : Transfer :=
  { withdrawId := none, state := req.plan.1, amount := fromBitcoin req.plan.2.1
    createdAt := now, updatedAt := now, txid := none }

/-- Start a transfer unless one is under way. -/
def processCli (req : CliRequest) : Balance Unit := do
  let w ← Proc.get
  if w.storage.balancing.isSome then notify (.cliResponse false "already started")
  else do
    -- the movements of an earlier transfer do not confirm this one
    Proc.modify fun w => { w with movements := none }
    setBalancing (some (newTransfer w.now req))
    emit .created
    saveStorage
    notify (.started req.plan.2.2 req.plan.2.1)
    notify (.cliResponse true "success")

/-- The part of the tick before `process_balancing`: the age of a record, which the health status
reports and which must not be negative, or the request to start one. -/
def checkBalancing (args : Args) (t : Tick) : Balance Unit := do
  let w ← Proc.get
  match w.storage.balancing with
  | some b => if b.createdAt ≤ w.now then pure () else Proc.abort
  | none =>
    if args.mainnet && !t.recentlyHedged && args.balancingEnabled then
      match startRequest args t with
      | some req => notify (.cliRequest req)
      | none => pure ()
    else pure ()

/-- A tick of the timer. -/
def processTimer (args : Args) (t : Tick) : Balance Unit := do
  checkBalancing args t
  processBalancing args t

/-- Ask the exchange for its movements since the transfer began. -/
def processCheckExchange (args : Args) (moduleConnected : Bool) : Balance Unit := do
  let w ← Proc.get
  match w.storage.balancing with
  | none => pure ()
  | some b =>
    if moduleConnected then do
      -- ten seconds before the record was created, in milliseconds
      let start ← Proc.expect (if 10 ≤ b.createdAt then some (b.createdAt - 10) else none)
      notify (.movements args.bitfinexKey args.bitfinexSecret (1000 * start))
    else pure ()

/-- Handle a message of the main loop. -/
def dispatch (args : Args) : Msg → Balance Unit
  | .timer t => processTimer args t
  | .cli req => processCli req
  | .withdraw id => processWithdraw id
  | .movements msg => processMovements msg
  | .transfer success => processTransfer success
  | .checkExchange connected => processCheckExchange args connected

/-- A message, the time at which it is handled, and where its handling crashes, if it does. -/
structure Input where
  msg : Msg
  now : ℕ
  crashAt : Option Point

/-- The dealer's main loop for balancing; a restart loads the file. -/
def machine (args : Args) : Machine World Input where
  handle i := do
    Proc.modify fun w => { w with now := i.now, crashAt := i.crashAt }
    dispatch args i.msg
  boot := Proc.modify fun w => { w with storage := w.file, movements := none }

/-- The first start of the dealer, with no file. -/
def start : Life World := ⟨World.init, true⟩

end SideSwap.Balancing
