import Mathlib.Data.List.AList
import SideSwap.Lib.F64
import SideSwap.Lib.Tally
import SideSwap.Libwally.SignPsbt

/-!
# Transactions of the wallet library

`BETransaction` of `gdk_common`, a transaction on Bitcoin or on an Elements chain, with what the
wallet computes about it: fees, what it still needs, its change and what it changes in the balances.

What `rust-bitcoin`, `rust-elements` and libwally compute is `Lib`, a parameter.  The types
`BETxid`, `BEOutPoint` and `BEScript` are the same for both chains here, as an account is on one
network.  A sum of `u64` wraps, which is the same as reducing it once.
-/

namespace SideSwap.Gdk

open Libwally Call

/-! ### Machine integers -/

/-- The least `u64`s that a wrapped sum and a wrapped difference are. -/
def u64 (n : ℕ) : ℕ := n % 2 ^ 64

/-- A difference of two `u64` in a release build. -/
def subU64 (a b : ℕ) : ℕ := (a + (2 ^ 64 - b % 2 ^ 64)) % 2 ^ 64

theorem u64_of_lt {n : ℕ} (h : n < 2 ^ 64) : u64 n = n := Nat.mod_eq_of_lt h

theorem subU64_of_le {a b : ℕ} (h : b ≤ a) (ha : a < 2 ^ 64) : subU64 a b = a - b := by
  unfold subU64
  omega

/-- A number cast to `u64`, saturating. -/
def toU64 : F64 → ℕ
  | .nan => 0
  | .inf true => 0
  | .inf false => 2 ^ 64 - 1
  | .fin true _ => 0
  | .fin false k => min (2 ^ 64 - 1) (F64.units k / F64.one)

/-! ### Identifiers -/

/-- A hash map, as the list of its entries in some order. -/
abbrev Table (κ ν : Type) := AList fun _ : κ => ν

/-- An array of 32 bytes. -/
structure Bytes32 where
  bytes : Bytes
  length : bytes.length = 32
deriving DecidableEq

/-- The id of a transaction. -/
abbrev Txid := Bytes32

/-- An output of a transaction. -/
structure OutPoint where
  txid : Txid
  vout : ℕ
deriving DecidableEq

/-- A script. -/
abbrev Script := Bytes

/-- The child numbers below the key of the account: the chain and the index. -/
abbrev DerivationPath := List ℕ

/-- The networks of bitcoin. -/
inductive BitcoinNetwork where
  | bitcoin
  | testnet
  | signet
  | regtest
deriving DecidableEq

/-- The networks with assets. -/
inductive ElementsNetwork where
  | liquid
  | elementsRegtest
deriving DecidableEq

/-- The kinds of networks. -/
inductive NetworkId where
  | elements (network : ElementsNetwork)
  | bitcoin (network : BitcoinNetwork)
deriving DecidableEq

/-- So many zero bytes. -/
def zeros (n : ℕ) : Bytes := List.replicate n 0

/-- The zero hash. -/
def Bytes32.zero : Bytes32 := ⟨zeros 32, List.length_replicate⟩

/-- One byte, repeated. -/
def Bytes32.replicate (b : UInt8) : Bytes32 := ⟨List.replicate 32 b, List.length_replicate⟩

/-- An asset identifier in a transaction is the reverse of its hexadecimal form. -/
def assetToBin (asset : String) : Option Bytes32 := do
  let bytes ← hexDecode asset.toList
  if h : bytes.reverse.length = 32 then return ⟨bytes.reverse, h⟩ else none

/-- An asset as text: its bytes in reverse. -/
def assetToHex (asset : Bytes32) : String := hexEncode asset.bytes.reverse

/-- The errors of the wallet. -/
inductive Error where
  | invalidAddress
  | invalidAmount
  | invalidReplacementRequest
  | invalidSubaccount (accountNum : ℕ)
  | accountGapsDisallowed
  | emptyAddressees
  | assetEmpty
  | sendAll
  | insufficientFunds
  | invalidHeaders
  | bip32
  | io
  | electrum
  | generic (text : String)
deriving DecidableEq

/-! ### Transactions -/

/-- An input. -/
structure TxIn where
  previousOutput : OutPoint
  scriptSig : Bytes
  sequence : ℕ
  witness : List Bytes
deriving DecidableEq

/-- An output on a bitcoin network. -/
structure BitcoinTxOut where
  value : ℕ
  scriptPubkey : Script
deriving DecidableEq

/-- An asset, a value or a nonce on an Elements chain. -/
inductive Confidential (α : Type) where
  | null
  | explicit (a : α)
  | confidential (commitment : Bytes)
deriving DecidableEq

/-- An output on a network with assets. -/
structure ElementsTxOut where
  asset : Confidential Bytes32
  value : Confidential ℕ
  nonce : Confidential Bytes
  scriptPubkey : Script
  surjectionProof : Bytes
  rangeproof : Bytes
deriving DecidableEq

/-- An output with an explicit amount, and no witness yet. -/
def ElementsTxOut.plain (asset : Bytes32) (value : ℕ) (nonce : Confidential Bytes) (script : Script) :
    ElementsTxOut :=
  { asset := .explicit asset, value := .explicit value, nonce := nonce, scriptPubkey := script
    surjectionProof := [], rangeproof := [] }

/-- `is_fee`: an explicit output without a script. -/
def ElementsTxOut.isFee (o : ElementsTxOut) : Bool :=
  match o.asset, o.value with
  | .explicit _, .explicit _ => o.scriptPubkey.isEmpty
  | _, _ => false

/-- A transaction on a bitcoin network. -/
structure BitcoinTx where
  input : List TxIn
  output : List BitcoinTxOut
deriving DecidableEq

/-- A transaction on a network with assets. -/
structure ElementsTx where
  input : List TxIn
  output : List ElementsTxOut
deriving DecidableEq

/-- A transaction; the version is 2 and the lock time 0 wherever the wallet makes one. -/
inductive BETransaction where
  | bitcoin (tx : BitcoinTx)
  | elements (tx : ElementsTx)
deriving DecidableEq

/-- A transaction without inputs and outputs. -/
def BETransaction.new : NetworkId → BETransaction
  | .bitcoin _ => .bitcoin ⟨[], []⟩
  | .elements _ => .elements ⟨[], []⟩

/-- The inputs. -/
def BETransaction.input : BETransaction → List TxIn
  | .bitcoin tx => tx.input
  | .elements tx => tx.input

/-- The coins that the inputs spend. -/
def BETransaction.previousOutputs (tx : BETransaction) : List OutPoint :=
  tx.input.map TxIn.previousOutput

/-! ### Scripts -/

/-- The kinds of scripts of an account. -/
inductive ScriptType where
  | p2shP2wpkh
  | p2wpkh
  | p2pkh
deriving DecidableEq

namespace ScriptType

/-- A witness of the expected size: a signature and a compressed key. -/
def mockWitness : ScriptType → List Bytes
  | p2wpkh | p2shP2wpkh => [zeros 72, zeros 33]
  | p2pkh => []

/-- What an input's script will look like, to know its size. -/
def mockScriptSig : ScriptType → Bytes
  | p2wpkh => []
  | p2shP2wpkh => zeros 23
  | p2pkh => zeros 107

/-- What an output's script will look like, to know its size. -/
def mockScriptPubkey : ScriptType → Script
  | p2wpkh => zeros 22
  | p2shP2wpkh => zeros 23
  | p2pkh => zeros 25

end ScriptType

/-! ### The libraries -/

/-- An address. -/
structure Address where
  network : NetworkId
  scriptPubkey : Script
  blindingPubkey : Option Bytes
deriving DecidableEq

/-- What the libraries compute.  `parseAddress` is `from_str` of the addresses of the chain,
`addressOf` the address of a script, and `minimumValue` the least value of an output whose value is
not explicit. -/
structure Lib where
  txid : BETransaction → Txid
  weight : BETransaction → ℕ
  surjectionproofSize : ℕ → ℕ
  minimumValue : ElementsTxOut → ℕ
  parseAddress : NetworkId → String → Option Address
  addressOf : NetworkId → Script → Option String

/-- The value that a range proof must hide. -/
def ElementsTxOut.minimumValue (lib : Lib) (o : ElementsTxOut) : ℕ :=
  match o.value with
  | .explicit value => value
  | _ => lib.minimumValue o

/-! ### The cache of an account -/

/-- What is hidden in an output. -/
structure Unblinded where
  asset : Bytes32
  abf : Bytes32
  vbf : Bytes32
  value : ℕ
deriving DecidableEq

/-- The asset as text. -/
def Unblinded.assetHex (u : Unblinded) : String := assetToHex u.asset

/-- Whether the output hides anything. -/
def Unblinded.confidential (u : Unblinded) : Bool :=
  decide (u.abf ≠ .zero) || decide (u.vbf ≠ .zero)

/-- The last used index on each chain of an account. -/
structure Indexes where
  external : ℕ
  internal : ℕ
deriving DecidableEq

/-- `RawAccountCache`; of a transaction entry, the transaction. -/
structure AccountCache where
  allTxs : Table Txid BETransaction
  paths : Table Script DerivationPath
  scripts : Table DerivationPath Script
  heights : Table Txid (Option ℕ)
  unblinded : Table OutPoint Unblinded
  indexes : Indexes

namespace BETransaction

variable (lib : Lib)

/-- `output_value`; an index out of range and an output that is not unblinded are panics. -/
def outputValue (tx : BETransaction) (vout : ℕ) (unblinded : Table OutPoint Unblinded) :
    Call Error ℕ :=
  match tx with
  | .bitcoin t => BitcoinTxOut.value <$> unwrap t.output[vout]?
  | .elements t => Unblinded.value <$> unwrap (unblinded.lookup ⟨lib.txid (.elements t), vout⟩)

/-- The script of an output. -/
def outputScript (tx : BETransaction) (vout : ℕ) : Call Error Script :=
  match tx with
  | .bitcoin t => BitcoinTxOut.scriptPubkey <$> unwrap t.output[vout]?
  | .elements t => ElementsTxOut.scriptPubkey <$> unwrap t.output[vout]?

/-- The asset of an output, if it can be read. -/
def outputAssetHex (tx : BETransaction) (vout : ℕ) (unblinded : Table OutPoint Unblinded) :
    Call Error (Option String) :=
  match tx with
  | .bitcoin _ => return none
  | .elements t =>
    (fun u => some u.assetHex) <$> unwrap (unblinded.lookup ⟨lib.txid (.elements t), vout⟩)

end BETransaction

namespace AccountCache

variable (lib : Lib)

/-- The script of a coin in the cache. -/
def previousOutputScript (cache : AccountCache) (o : OutPoint) : Call Error (Option Script) :=
  match cache.allTxs.lookup o.txid with
  | none => return none
  | some tx => some <$> tx.outputScript o.vout

/-- The value of a coin in the cache. -/
def previousOutputValue (cache : AccountCache) (o : OutPoint) : Call Error (Option ℕ) :=
  match cache.allTxs.lookup o.txid with
  | none => return none
  | some tx => some <$> tx.outputValue lib o.vout cache.unblinded

/-- The asset of a coin in the cache. -/
def previousOutputAssetHex (cache : AccountCache) (o : OutPoint) : Call Error (Option String) :=
  match cache.allTxs.lookup o.txid with
  | none => return none
  | some tx => do
    let asset ← tx.outputAssetHex lib o.vout cache.unblinded
    return some (← unwrap asset)

/-- The value of a previous output that the wallet must know. -/
def knownValue (cache : AccountCache) (o : OutPoint) : Call Error ℕ := do
  unwrap (← cache.previousOutputValue lib o)

/-- The asset of a coin that must be known. -/
def knownAssetHex (cache : AccountCache) (o : OutPoint) : Call Error String := do
  unwrap (← cache.previousOutputAssetHex lib o)

end AccountCache

/-! ### Adding inputs and outputs -/

namespace BETransaction

variable (lib : Lib)

/-- Add a payment. -/
def addOutput (tx : BETransaction) (network : NetworkId) (address : String) (value : ℕ)
    (assetHex : Option String) : Call Error BETransaction :=
  match tx with
  | .bitcoin t => do
    let address ← okOr (lib.parseAddress network address) .invalidAddress
    return .bitcoin { t with output := t.output ++ [⟨value, address.scriptPubkey⟩] }
  | .elements t => do
    let address ← okOr (lib.parseAddress network address) .invalidAddress
    let blindingPubkey ← okOr address.blindingPubkey .invalidAddress
    let asset ← unwrap assetHex
    let asset ← unwrap (assetToBin asset)
    let out := ElementsTxOut.plain asset value (.confidential blindingPubkey) address.scriptPubkey
    return .elements { t with output := t.output ++ [out] }

/-- `add_input`; on Bitcoin the sequence number signals that the transaction may be replaced. -/
def addInput (tx : BETransaction) (o : OutPoint) : BETransaction :=
  match tx with
  | .bitcoin t => .bitcoin { t with input := t.input ++ [⟨o, [], 0xfffffffd, []⟩] }
  | .elements t => .elements { t with input := t.input ++ [⟨o, [], 0xfffffffe, []⟩] }

/-- Add the fee as an output; on a bitcoin network it is what is left over. -/
def addFeeIfElements (tx : BETransaction) (value : ℕ) (policyAsset : Option Bytes32) :
    Call Error BETransaction :=
  match tx with
  | .bitcoin t => return .bitcoin t
  | .elements t => do
    let policyAsset ← okOr policyAsset (.generic "Missing policy asset")
    return .elements { t with output := t.output ++ [.plain policyAsset value .null []] }

/-! ### Fees -/

/-- An input with a signature of the expected size. -/
def mockInput (scriptType : ScriptType) (i : TxIn) : TxIn :=
  { i with witness := scriptType.mockWitness, scriptSig := scriptType.mockScriptSig }

/-- An output as change will look like. -/
def mockOutput (scriptType : ScriptType) : ElementsTxOut :=
  let hidden := 0 :: zeros 32
  { asset := .confidential hidden, value := .confidential hidden, nonce := .confidential hidden
    scriptPubkey := scriptType.mockScriptPubkey, surjectionProof := [], rangeproof := [] }

/-- The transaction whose weight is taken for the fee. -/
def dummyTx (tx : BETransaction) (moreChanges : ℕ) (scriptType : ScriptType) : BETransaction :=
  match tx with
  | .bitcoin t =>
    .bitcoin
      { input := t.input.map (mockInput scriptType)
        output := t.output ++ List.replicate moreChanges ⟨0, scriptType.mockScriptPubkey⟩ }
  | .elements t =>
    let size := lib.surjectionproofSize (max 1 t.input.length)
    let outputs := t.output ++ List.replicate moreChanges (mockOutput scriptType)
    .elements
      { input := t.input.map (mockInput scriptType)
        output :=
          outputs.map (fun o =>
            { o with surjectionProof := zeros size, rangeproof := zeros 4174 })
          ++ [.plain .zero 0 .null []] }

/-- The fee is increased by 2% on Bitcoin and by 4% on Elements. -/
def feeMargin : BETransaction → F64
  | .bitcoin _ => F64.lit 102 100
  | .elements _ => F64.lit 104 100

/-- The fee of the transaction once it is signed and has its change. -/
def estimatedFee (tx : BETransaction) (feeRate : F64) (moreChanges : ℕ) (scriptType : ScriptType) :
    ℕ :=
  let vbytes := F64.ofInt (lib.weight (dummyTx lib tx moreChanges scriptType)) / F64.ofInt 4
  toU64 (vbytes * feeRate * feeMargin tx)

/-- The number of change outputs to expect, an `u8`. -/
def estimatedChanges (tx : BETransaction) (sendAll : Bool) (cache : AccountCache) : Call Error ℕ :=
  match tx with
  | .bitcoin _ => return 1 - sendAll.toNat
  | .elements t => do
    let assets ← t.input.mapM fun i => cache.knownAssetHex lib i.previousOutput
    let different := assets.dedup.length
    return if different = 0 then 0 else (different % 256 + (256 - sendAll.toNat)) % 256

/-- `sum_inputs`: an input whose transaction is not known counts nothing. -/
def sumInputs (cache : AccountCache) (input : List TxIn) : Call Error ℕ := do
  let values ← input.mapM fun i => cache.previousOutputValue lib i.previousOutput
  return u64 (values.filterMap id).sum

/-- The fee output of an Elements transaction, or what its inputs have more than its outputs. -/
def fee (tx : BETransaction) (cache : AccountCache) (policyAsset : Option Bytes32) : Call Error ℕ :=
  match tx with
  | .bitcoin t => do
    let inputs ← sumInputs lib cache t.input
    return subU64 inputs (t.output.map BitcoinTxOut.value).sum
  | .elements t =>
    if t.output.any ElementsTxOut.isFee then do
      let policyAsset ← okOr policyAsset (.generic "Missing policy asset")
      let fees := t.output.filter fun o => o.isFee && decide (o.asset = .explicit policyAsset)
      return u64 (fees.map fun o => o.minimumValue lib).sum
    else do
      let inputs ← sumInputs lib cache t.input
      return subU64 inputs (t.output.map fun o => o.minimumValue lib).sum

/-! ### Needs and change -/

end BETransaction

/-- An amount of an asset. -/
structure AssetValue where
  asset : String
  satoshi : ℕ
deriving DecidableEq

/-- The name of the asset on a bitcoin network. -/
def btc : String := "btc"

/-- The amount of an output, which must be explicit. -/
def explicitAmount (o : ElementsTxOut) : Call Error (String × ℕ) :=
  match o.asset, o.value with
  | .explicit asset, .explicit value => .ok (assetToHex asset, value)
  | _, _ => .error .panic

/-- The amount of a previous output, which must be known. -/
def inputAmount (lib : Lib) (cache : AccountCache) (i : TxIn) : Call Error (String × ℕ) := do
  let asset ← cache.knownAssetHex lib i.previousOutput
  let value ← cache.knownValue lib i.previousOutput
  return (asset, value)

/-- The policy asset is swapped with the last element. -/
def policyLast (policyAsset : String) (needs : List AssetValue) : List AssetValue :=
  let index := needs.findIdx fun e => decide (e.asset = policyAsset)
  match needs[index]?, needs.getLast? with
  | some e, some l => (needs.set index l).set (needs.length - 1) e
  | _, _ => needs

/-- What is missing under each key of the outputs, which are taken in the order of the map. -/
def missing (order : List (String × ℕ) → List (String × ℕ)) (outputs inputs : List (String × ℕ)) :
    List AssetValue :=
  (order (Tally.tally outputs)).filterMap fun e =>
    let value := u64 e.2
    let input := u64 (Tally.total e.1 inputs)
    if input < value then some ⟨e.1, value - input⟩ else none

/-- The change of one asset; the policy asset pays the fee and is subject to the dust rule. -/
def changeOf (dust estimatedFee : ℕ) (policyAsset : String) (outputs : List (String × ℕ))
    (e : String × ℕ) : Option AssetValue :=
  let sum := subU64 (u64 e.2) (u64 (Tally.total e.1 outputs))
  if e.1 = policyAsset then
    let rest := subU64 sum estimatedFee
    if dust < rest then some ⟨e.1, rest⟩ else none
  else if 0 < sum then some ⟨e.1, sum⟩ else none

/-- The least output on a bitcoin network. -/
def dustValue : ℕ := 546

namespace BETransaction

variable (lib : Lib)

/-- `needs`: what the transaction still needs, with the policy asset last.  `order` is the order in
which the hash map gives its entries. -/
def needs (order : List (String × ℕ) → List (String × ℕ)) (tx : BETransaction) (feeRate : F64)
    (noChange : Bool) (policyAsset : Option String) (cache : AccountCache)
    (scriptType : ScriptType) : Call Error (List AssetValue) :=
  match tx with
  | .bitcoin t => do
    let inputs ← sumInputs lib cache t.input
    let changes ← (BETransaction.bitcoin t).estimatedChanges lib noChange cache
    let fee := estimatedFee lib (.bitcoin t) feeRate changes scriptType
    let outputs := u64 ((t.output.map BitcoinTxOut.value).sum + fee)
    return if inputs < outputs then [⟨btc, outputs - inputs⟩] else []
  | .elements t => do
    let policyAsset ← unwrap policyAsset
    let outputs ← t.output.mapM explicitAmount
    let inputs ← t.input.mapM (inputAmount lib cache)
    let changes ← (BETransaction.elements t).estimatedChanges lib noChange cache
    let fee := estimatedFee lib (.elements t) feeRate changes scriptType
    return policyLast policyAsset (missing order (outputs ++ [(policyAsset, fee)]) inputs)

/-- `changes`: the change outputs of a transaction that needs nothing more. -/
def changes (order : List (String × ℕ) → List (String × ℕ)) (tx : BETransaction)
    (estimatedFee : ℕ) (policyAsset : Option String) (cache : AccountCache) :
    Call Error (List AssetValue) :=
  match tx with
  | .bitcoin t => do
    let inputs ← sumInputs lib cache t.input
    let change := subU64 (subU64 inputs (t.output.map BitcoinTxOut.value).sum) estimatedFee
    return if dustValue < change then [⟨btc, change⟩] else []
  | .elements t => do
    let outputs ← t.output.mapM explicitAmount
    let inputs ← t.input.mapM (inputAmount lib cache)
    let amounts := order (Tally.tally inputs)
    if amounts = [] then
      assert outputs.isEmpty
      return []
    else
      let policyAsset ← unwrap policyAsset
      assert (outputs.all fun o => decide (o.1 ∈ amounts.map Prod.fst))
      return amounts.filterMap (changeOf dustValue estimatedFee policyAsset outputs)

/-! ### Balances -/

/-- The changes of the wallet's balances, as `i64`s; an asset that does not change is left out on
Elements. -/
def myBalanceChanges (tx : BETransaction) (cache : AccountCache) :
    Call Error (List (String × ℤ)) :=
  match tx with
  | .bitcoin t => do
    let mine ← t.input.filterM fun i => do
      let script ← cache.previousOutputScript i.previousOutput
      return script.any fun s => decide (s ∈ cache.paths)
    let out ← mine.mapM fun i => cache.previousOutputValue lib i.previousOutput
    let received := (t.output.filter fun o => decide (o.scriptPubkey ∈ cache.paths)).map
      BitcoinTxOut.value
    return [(btc, wrap ((received.sum : ℤ) - ((out.filterMap id).sum : ℕ)))]
  | .elements t =>
    let spent := t.input.filterMap fun i =>
      (cache.unblinded.lookup i.previousOutput).map fun u => (u.assetHex, -(u.value : ℤ))
    let received := (List.range t.output.length).filterMap fun i =>
      (cache.unblinded.lookup ⟨lib.txid (.elements t), i⟩).map fun u =>
        (u.assetHex, (u.value : ℤ))
    return ((Tally.tally (spent ++ received)).map fun e => (e.1, wrap e.2)).filter fun e =>
      decide (e.2 ≠ 0)

end BETransaction

end SideSwap.Gdk
