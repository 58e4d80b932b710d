import Mathlib.Data.List.Sort
import SideSwap.Gdk.Transaction

/-!
# Creating a transaction

The account of `gdk_electrum`: its unspent outputs and `create_tx`, which adds the requested
outputs, then inputs until the outputs and the fee are covered, then the change.

A hash map gives its entries in some order and the inputs and outputs of the result are shuffled.
Both are `Chance`, a parameter.
-/

namespace SideSwap.Gdk

open Libwally Call

/-! ### The account -/

/-- The network of a wallet. -/
structure Network where
  id : NetworkId
  policyAsset : Option String

/-- The network has assets. -/
def NetworkId.isLiquid : NetworkId → Bool
  | .elements _ => true
  | .bitcoin _ => false

/-- `policy_asset_id`. -/
def Network.policyAssetId (network : Network) : Call Error Bytes32 := do
  let asset ← okOr network.policyAsset (.generic "no policy asset")
  okOr (assetToBin asset) (.generic "invalid policy asset")

/-- What the wallet knows of a coin. -/
structure UTXOInfo where
  asset : String
  value : ℕ
  script : Script
  height : Option ℕ
  path : DerivationPath
deriving DecidableEq

/-- The coins that may be spent. -/
abbrev Utxos := List (OutPoint × UTXOInfo)

/-- An account: what `derive_address` gives for a chain and an index is a parameter. -/
structure Account where
  accountNum : ℕ
  scriptType : ScriptType
  network : Network
  deriveAddress : Bool → ℕ → Option String
  cache : AccountCache
  tip : ℕ

/-- The confirmations of a transaction, an `u32`. -/
def confirmations (tip : ℕ) : Option ℕ → ℕ
  | none => 0
  | some height => (tip + (2 ^ 32 - height) + 1) % 2 ^ 32

/-- `spent`: what any stored transaction spends. -/
def Account.spent (account : Account) : List OutPoint :=
  account.cache.allTxs.entries.flatMap fun e => e.2.previousOutputs

/-- The unspent output of the wallet that output `vout` of a Bitcoin transaction is, if it is
one. -/
def Account.bitcoinUtxo (lib : Lib) (account : Account) (tx : BitcoinTx) (height : Option ℕ)
    (vout : ℕ) (o : BitcoinTxOut) : Option (OutPoint × UTXOInfo) :=
  let outpoint : OutPoint := ⟨lib.txid (.bitcoin tx), vout⟩
  if o.value ≤ dustValue then none
  else do
    let path ← account.cache.paths.lookup o.scriptPubkey
    if outpoint ∈ account.spent then none
    else some (outpoint, ⟨btc, o.value, o.scriptPubkey, height, path⟩)

/-- The same on Elements, where the output must be unblinded. -/
def Account.elementsUtxo (lib : Lib) (account : Account) (policyAsset : Bytes32)
    (confidentialOnly : Bool) (tx : ElementsTx) (height : Option ℕ) (vout : ℕ) (o : ElementsTxOut) :
    Option (OutPoint × UTXOInfo) :=
  let outpoint : OutPoint := ⟨lib.txid (.elements tx), vout⟩
  do
    let path ← account.cache.paths.lookup o.scriptPubkey
    if outpoint ∈ account.spent then none
    else do
      let u ← account.cache.unblinded.lookup outpoint
      if u.value < dustValue ∧ u.asset = policyAsset then none
      else if confidentialOnly && !u.confidential then none
      else some (outpoint, ⟨u.assetHex, u.value, o.scriptPubkey, height, path⟩)

/-- The unspent outputs of one transaction. -/
def Account.txUtxos (lib : Lib) (account : Account) (confidentialOnly : Bool) (tx : BETransaction)
    (height : Option ℕ) : Call Error Utxos :=
  match tx with
  | .bitcoin t =>
    return (t.output.zipIdx.filterMap fun p => account.bitcoinUtxo lib t height p.2 p.1)
  | .elements t => do
    let policyAsset ← account.network.policyAssetId
    return (t.output.zipIdx.filterMap fun p =>
      account.elementsUtxo lib policyAsset confidentialOnly t height p.2 p.1)

/-- A coin whose transaction is not in the cache. -/
def utxoMissing (txid : Txid) : Error := .generic ("utxos no tx " ++ assetToHex txid)

/-- `utxos`: the unspent outputs with enough confirmations, the largest first. -/
def Account.utxos (lib : Lib) (account : Account) (numConfs : ℕ) (confidentialOnly : Bool) :
    Call Error Utxos := do
  let listed := account.cache.heights.entries.filter fun e =>
    decide (numConfs ≤ confirmations account.tip e.2)
  let utxos ← listed.mapM fun e => do
    let tx ← okOr (account.cache.allTxs.lookup e.1) (utxoMissing e.1)
    account.txUtxos lib confidentialOnly tx e.2
  return utxos.flatten.insertionSort fun a b => b.2.value ≤ a.2.value

/-- `get_wallet_chain_type`: the chain of an own script. -/
def Account.walletChainType (account : Account) (script : Script) : Option ℕ :=
  (account.cache.paths.lookup script).bind List.head?

/-! ### The request -/

/-- One payment that is asked for. -/
structure AddressAmount where
  address : String
  satoshi : ℕ
  assetId : Option String
deriving DecidableEq

/-- A transaction that is to be replaced. -/
structure PreviousTransaction where
  transaction : String
  memo : String

/-- A request for a transaction. -/
structure CreateTransaction where
  addressees : List AddressAmount
  feeRate : Option ℕ
  subaccount : ℕ
  sendAll : Bool
  previousTransaction : Option PreviousTransaction
  memo : Option String
  utxos : Option Utxos
  numConfs : ℕ
  confidentialUtxosOnly : Bool

/-- What `create_tx` returns, and the request as it was completed. -/
structure TransactionMeta where
  tx : BETransaction
  fee : ℕ
  satoshi : List (String × ℤ)
  changesUsed : ℕ
  addresseesReadOnly : Bool
  request : CreateTransaction

/-- What is left to chance: the order of the entries of a hash map in its use number `n`, and the
shuffles of inputs and outputs. -/
structure Chance where
  order : ℕ → List (String × ℕ) → List (String × ℕ)
  inputs : List TxIn → List TxIn
  bitcoinOutputs : List BitcoinTxOut → List BitcoinTxOut
  elementsOutputs : List ElementsTxOut → List ElementsTxOut
  order_perm (n : ℕ) (l : List (String × ℕ)) : (order n l).Perm l
  inputs_perm (l : List TxIn) : (inputs l).Perm l
  bitcoinOutputs_perm (l : List BitcoinTxOut) : (bitcoinOutputs l).Perm l
  elementsOutputs_perm (l : List ElementsTxOut) : (elementsOutputs l).Perm l

/-- `scramble`. -/
def BETransaction.scramble (chance : Chance) : BETransaction → BETransaction
  | .bitcoin tx => .bitcoin ⟨chance.inputs tx.input, chance.bitcoinOutputs tx.output⟩
  | .elements tx => .elements ⟨chance.inputs tx.input, chance.elementsOutputs tx.output⟩

/-! ### The checks -/

/-- The fee rate in satoshi per thousand bytes. -/
def CreateTransaction.feeRateSatKb (request : CreateTransaction) (network : Network) : ℕ :=
  request.feeRate.getD (if network.id.isLiquid then 100 else 1000)

/-- Whether an address is one of the network; an address of the test network is also one of the
regression test network. -/
def addressValid (lib : Lib) (network : NetworkId) (address : String) : Bool :=
  match lib.parseAddress network address with
  | none => false
  | some a =>
    decide (a.network = network)
      || decide (a.network = .bitcoin .testnet ∧ network = .bitcoin .regtest)

/-- The dust check of one recipient. -/
def amountValid (network : Network) (a : AddressAmount) : Bool :=
  decide (dustValue < a.satoshi)
    || (network.id.isLiquid && decide (a.assetId ≠ network.policyAsset))

/-- The checks of a request for a transaction that replaces no other one. -/
def checkRequest (network : Network) (request : CreateTransaction) : Call Error Unit := do
  ensure (!request.addressees.isEmpty) .emptyAddressees
  ensure (request.sendAll || request.addressees.all fun a => decide (a.satoshi ≠ 0)) .invalidAmount
  ensure (request.sendAll || request.addressees.all (amountValid network)) .invalidAmount
  ensure (!network.id.isLiquid || request.addressees.all fun a => a.assetId.isSome) .assetEmpty

/-- A transaction to be replaced without its change outputs, as the template of the new one, and the
address of the last change output. -/
def replacementTemplate (lib : Lib) (account : Account) (tx : BitcoinTx) :
    Call Error (BitcoinTx × Option String) := do
  let isChange (o : BitcoinTxOut) : Bool :=
    decide (account.walletChainType o.scriptPubkey = some 1)
  let addresses ← (tx.output.filter isChange).mapM fun o =>
    unwrap (lib.addressOf account.network.id o.scriptPubkey)
  return ({ tx with output := tx.output.filter fun o => !isChange o }, addresses.getLast?)

/-- The request for a replacement, with the recipients of the transaction that is replaced. -/
def replaceRequest (lib : Lib) (network : Network) (request : CreateTransaction) (memo : String)
    (template : BitcoinTx) : CreateTransaction :=
  { request with
    addressees := template.output.filterMap fun o =>
      (lib.addressOf network.id o.scriptPubkey).map fun address => ⟨address, o.value, none⟩
    memo := if request.memo.isNone && memo ≠ "" then some memo else request.memo }

/-- The start of the transaction: the template, if another one is replaced, and its change
address. -/
def prepareTemplate (lib : Lib) (parseTx : NetworkId → String → Option BETransaction)
    (account : Account) (request : CreateTransaction) :
    Call Error (Option BETransaction × Option String × CreateTransaction) :=
  match request.previousTransaction with
  | none => do
    checkRequest account.network request
    return (none, none, request)
  | some previous => do
    ensure (!request.sendAll && !account.network.id.isLiquid) .invalidReplacementRequest
    let tx ← okOr (parseTx account.network.id previous.transaction) (.generic "invalid transaction")
    match tx with
    | .elements _ => throw (.error .invalidReplacementRequest)
    | .bitcoin tx =>
      let (template, change) ← replacementTemplate lib account tx
      return (some (.bitcoin template), change,
        replaceRequest lib account.network request previous.memo template)

/-! ### Sending everything -/

/-- The amount that is sent with `send_all`: all there is, less an estimated fee and two satoshi. -/
def sendAllAmount (lib : Lib) (account : Account) (feeRate : F64) (out : AddressAmount)
    (utxos : Utxos) : Call Error ℕ := do
  let asset := out.assetId.getD btc
  let all := utxos.filter fun u => decide (u.2.asset = asset)
  let total := u64 (all.map fun u => u.2.value).sum
  if asset = btc ∨ some asset = account.network.policyAsset then do
    let dummy := all.foldl (fun tx u => tx.addInput u.1) (BETransaction.new account.network.id)
    let dummy ← dummy.addOutput lib account.network.id out.address out.satoshi out.assetId
    let fee := u64 (dummy.estimatedFee lib feeRate 0 account.scriptType + 2)
    ensure (decide (fee ≤ total)) .insufficientFunds
    return total - fee
  else return total

/-- With `send_all` the amount of the one recipient is set. -/
def applySendAll (lib : Lib) (account : Account) (feeRate : F64) (request : CreateTransaction)
    (utxos : Utxos) : Call Error CreateTransaction :=
  if request.sendAll then
    match request.addressees with
    | [out] => do
      let toSend ← sendAllAmount lib account feeRate out utxos
      return { request with addressees := [{ out with satoshi := toSend }] }
    | _ => throw (.error .sendAll)
  else return request

/-! ### Inputs -/

/-- The largest unspent output of an asset that is not used yet, the last one if there are
several. -/
def largestUnused (utxos : Utxos) (used : List OutPoint) (asset : String) :
    Option (OutPoint × UTXOInfo) :=
  ((utxos.filter fun u => decide (u.2.asset = asset) && decide (u.1 ∉ used)).insertionSort
    fun a b => a.2.value ≤ b.2.value).getLast?

/-- What is spent together with an output: on Bitcoin, all outputs with the same script. -/
def spentTogether (network : NetworkId) (utxos : Utxos) (u : OutPoint × UTXOInfo) : List OutPoint :=
  match network with
  | .bitcoin _ => (utxos.filter fun v => decide (v.2.script = u.2.script)).map Prod.fst
  | .elements _ => [u.1]

/-- The second step: inputs are added until nothing is needed.  Each round takes an output that was
not used, so `fuel` above the number of outputs is enough. -/
def addInputs (lib : Lib) (chance : Chance) (account : Account) (feeRate : F64) (sendAll : Bool)
    (utxos : Utxos) : (fuel round : ℕ) → (used : List OutPoint) → BETransaction →
    Call Error BETransaction
  | 0, _, _, _ => .error .panic
  | fuel + 1, round, used, tx => do
    let needs ← tx.needs lib (chance.order round) feeRate sendAll account.network.policyAsset
      account.cache account.scriptType
    match needs.getLast? with
    | none => return tx
    | some need => do
      let u ← okOr (largestUnused utxos used need.asset) .insufficientFunds
      let spent := spentTogether account.network.id utxos u
      addInputs lib chance account feeRate sendAll utxos fuel (round + 1) (used ++ spent)
        (spent.foldl BETransaction.addInput tx)

/-! ### Change -/

/-- The address of a change output: that of the replaced transaction, or the next one on the chain
for change. -/
def changeAddress (account : Account) (reused : Option String) (change : AssetValue) (i : ℕ) :
    Call Error String :=
  let derived := okOr (account.deriveAddress true ((account.cache.indexes.internal + i + 1) % 2 ^ 32))
    (.generic "derivation failed")
  match reused with
  | some address =>
    if change.asset = account.network.policyAsset.getD btc then return address else derived
  | none => derived

/-- The third step: an output for each change. -/
def addChanges (lib : Lib) (account : Account) (reused : Option String) :
    List (AssetValue × ℕ) → BETransaction → Call Error BETransaction
  | [], tx => return tx
  | (change, i) :: rest, tx => do
    let address ← changeAddress account reused change i
    let tx ← tx.addOutput lib account.network.id address change.satoshi (some change.asset)
    addChanges lib account reused rest tx

/-! ### The transaction -/

/-- The first step: the requested outputs. -/
def addRequested (lib : Lib) (network : NetworkId) :
    List AddressAmount → BETransaction → Call Error BETransaction
  | [], tx => return tx
  | out :: rest, tx => do
    let tx ← tx.addOutput lib network out.address out.satoshi out.assetId
    addRequested lib network rest tx

/-- The transaction to begin with: the one to replace, or a new one with the payments. -/
def startTx (lib : Lib) (network : NetworkId) (addressees : List AddressAmount) :
    Option BETransaction → Call Error BETransaction
  | none => addRequested lib network addressees (BETransaction.new network)
  | some template => return template

/-- The shuffled transaction with its fee. -/
def finish (lib : Lib) (chance : Chance) (account : Account) (tx : BETransaction) :
    Call Error (BETransaction × ℕ) := do
  let tx := tx.scramble chance
  let policyAsset := account.network.policyAsset.bind assetToBin
  let fee ← tx.fee lib account.cache policyAsset
  let tx ← tx.addFeeIfElements fee policyAsset
  return (tx, fee)

/-- The inputs and the change of a transaction that has its requested outputs. -/
def fund (lib : Lib) (chance : Chance) (account : Account) (feeRate : F64) (sendAll : Bool)
    (utxos : Utxos) (reused : Option String) (tx : BETransaction) :
    Call Error (BETransaction × ℕ) := do
  let tx ← addInputs lib chance account feeRate sendAll utxos (utxos.length + 1) 0 [] tx
  let more ← tx.estimatedChanges lib sendAll account.cache
  let fee := tx.estimatedFee lib feeRate more account.scriptType
  let changes ← tx.changes lib (chance.order (utxos.length + 1)) fee account.network.policyAsset
    account.cache
  let tx ← addChanges lib account reused changes.zipIdx tx
  return (tx, changes.length)

/-- `create_tx`. -/
def createTx (lib : Lib) (parseTx : NetworkId → String → Option BETransaction) (chance : Chance)
    (account : Account) (request : CreateTransaction) : Call Error TransactionMeta := do
  ensure (decide (request.subaccount = account.accountNum)) (.invalidSubaccount request.subaccount)
  let satKb := request.feeRateSatKb account.network
  let request := { request with feeRate := some satKb }
  let feeRate := F64.ofInt satKb / F64.ofInt 1000
  ensure (request.addressees.all fun a => addressValid lib account.network.id a.address)
    .invalidAddress
  ensure (request.sendAll || request.addressees.all fun a => decide (a.satoshi ≠ 0)) .invalidAmount
  let (template, reused, request) ← prepareTemplate lib parseTx account request
  let utxos ←
    match request.utxos with
    | none => account.utxos lib request.numConfs request.confidentialUtxosOnly
    | some utxos => pure utxos
  let request ← applySendAll lib account feeRate request utxos
  let tx ← startTx lib account.network.id request.addressees template
  let (tx, changesUsed) ← fund lib chance account feeRate request.sendAll utxos reused tx
  let (tx, fee) ← finish lib chance account tx
  let satoshi ← tx.myBalanceChanges lib account.cache
  return {
    tx := tx, fee := fee
    satoshi := satoshi.map fun e => (e.1, wrap |e.2|)
    changesUsed := changesUsed
    addresseesReadOnly := request.previousTransaction.isSome
    request := request }

end SideSwap.Gdk
