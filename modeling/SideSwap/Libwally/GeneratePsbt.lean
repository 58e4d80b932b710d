import SideSwap.Libwally.SignPsbt
import SideSwap.Common.Types

/-!
# Building a PSET

`generate_psbt` of `sideswap_libwally`: one input for each utxo, an output for what is received, and
one for the change.  What the wallet knows is `WalletCtx` and what the libraries compute is
`Library`, both parameters.  The function has no errors: whatever fails is a panic.
-/

namespace SideSwap.Libwally

open Client Call

/-! ### The wallet and the libraries -/

/-- A transaction of the wallet. -/
structure TxMeta where
  txid : String
  hex : String

/-- What the wallet knows; `none` is a failed call or a missing entry.  `nextAddress n` is the
pointer that the call number `n` of `get_next_address` returns, and `unblinded` the blinding factors
in the cache, by transaction and output. -/
structure WalletCtx where
  listTx : Option (List TxMeta)
  nextAddress : ℕ → Option ℕ
  unblinded : Bytes → ℕ → Option (Bytes × Bytes)
  publicKey : List ℕ → Option Bytes
  masterBlinding : Option Bytes

/-- An input as `generate_psbt` adds it. -/
structure BuiltInput where
  txhash : Bytes
  index : ℕ
  sequence : ℕ
  abf : Bytes
  vbf : Bytes
  witnessUtxo : Bytes
  redeemScript : Bytes
  value : ℕ
  asset : Bytes
deriving DecidableEq

/-- An output as `generate_psbt` adds it. -/
structure BuiltOutput where
  script : Bytes
  asset : Bytes
  value : Bytes
  redeemScript : Bytes
  blindingPubkey : Bytes
deriving DecidableEq

/-- A PSET before it is encoded. -/
structure BuiltPset where
  magic : Bytes
  version : ℕ
  txVersion : ℕ
  inputs : List BuiltInput
  outputs : List BuiltOutput
deriving DecidableEq

/-- What the libraries compute; `none` and `false` are failed checks.  `txFromHex` returns the
outputs of a transaction. -/
structure Library where
  txFromHex : String → Option (List Bytes)
  txidFromStr : String → Option Bytes
  hash160 : Bytes → Bytes
  p2shwpkhScript : Bytes → Bytes
  blindingPubkey : Bytes → Bytes → Bytes
  valueFromSatoshi : ℕ → Option Bytes
  addsInput : BuiltInput → Bool
  addsOutput : BuiltOutput → Bool
  toBase64 : BuiltPset → Option String

/-- `redeem_script`: a push of zero and a push of the hash of the key. -/
def redeemScript (lib : Library) (publicKey : Bytes) : Bytes := 0 :: 20 :: lib.hash160 publicKey

/-! ### The plan -/

/-- An output to be built. -/
structure NewOutput where
  pointer : ℕ
  amount : ℤ
  asset : AssetId

/-- The sum of the utxos, as the function computes it: a sum of `u64` cast to `i64`. -/
def inputAmount (utxos : List Utxo) : ℤ := wrap ((utxos.map Utxo.satoshi).sum % 2 ^ 64 : ℕ)

/-- What the coins are worth above the amount to send. -/
def changeAmount (psbtInfo : PsbtInfo) (utxos : List Utxo) : ℤ :=
  wrap (inputAmount utxos - psbtInfo.sendAmount)

/-- An output with a new address, if its amount is positive. -/
def planOutput (wallet : WalletCtx) (calls : ℕ) (amount : ℤ) (asset : AssetId) :
    Call String (List NewOutput) :=
  if amount > 0 then do
    let pointer ← unwrap (wallet.nextAddress calls)
    return [⟨pointer, amount, asset⟩]
  else return []

/-- What is received, and the change. -/
def planOutputs (wallet : WalletCtx) (psbtInfo : PsbtInfo) (utxos : List Utxo) :
    Call String (List NewOutput) := do
  let recv ← planOutput wallet 0 psbtInfo.recvAmount psbtInfo.recvAsset
  let change ← planOutput wallet recv.length (changeAmount psbtInfo utxos) psbtInfo.sendAsset
  return recv ++ change

/-! ### Building -/

/-- One round of the loop over the utxos. -/
def buildInput (lib : Library) (wallet : WalletCtx) (psbtInfo : PsbtInfo) (txs : List TxMeta)
    (utxo : Utxo) : Call String BuiltInput := do
  let prevTxMeta ← unwrap (txs.find? fun t => t.txid = utxo.txhash)
  let txid ← unwrap (hexDecode prevTxMeta.txid.toList)
  let asset ← unwrap (assetBytes psbtInfo.sendAsset)
  let hex ← unwrap (if '\x00' ∈ prevTxMeta.hex.toList then none else some prevTxMeta.hex)
  let prevTx ← unwrap (lib.txFromHex hex)
  let outpoint ← unwrap (lib.txidFromStr utxo.txhash)
  let (abf, vbf) ← unwrap (wallet.unblinded outpoint utxo.ptIdx)
  let publicKey ← unwrap (wallet.publicKey utxo.derivationPath)
  -- the output is read through a pointer, without a check of the index
  let witnessUtxo ← unwrap prevTx[utxo.ptIdx]?
  let input : BuiltInput :=
    { txhash := txid.reverse, index := utxo.ptIdx, sequence := 2 ^ 32 - 1, abf := abf, vbf := vbf
      witnessUtxo := witnessUtxo, redeemScript := redeemScript lib publicKey, value := utxo.satoshi
      asset := asset }
  assert (lib.addsInput input)
  return input

/-- One round of the loop over the planned outputs. -/
def buildOutput (lib : Library) (wallet : WalletCtx) (output : NewOutput) :
    Call String BuiltOutput := do
  let publicKey ← unwrap (wallet.publicKey [0, output.pointer])
  let script := lib.p2shwpkhScript publicKey
  let masterBlinding ← unwrap wallet.masterBlinding
  -- the prefix of an explicit asset comes last, as the bytes are reversed
  let asset ← unwrap (hexDecode (output.asset.val ++ "01").toList)
  let value ← unwrap (lib.valueFromSatoshi (asU64 output.amount))
  let built : BuiltOutput :=
    { script := script, asset := asset.reverse, value := value
      redeemScript := redeemScript lib publicKey
      blindingPubkey := lib.blindingPubkey masterBlinding script }
  assert (lib.addsOutput built)
  return built

/-- The PSET that is encoded. -/
def generatePset (lib : Library) (wallet : WalletCtx) (psbtInfo : PsbtInfo) (utxos : List Utxo) :
    Call String BuiltPset := do
  let txs ← unwrap wallet.listTx
  let planned ← planOutputs wallet psbtInfo utxos
  let inputs ← utxos.mapM (buildInput lib wallet psbtInfo txs)
  let outputs ← planned.mapM (buildOutput lib wallet)
  return {
    magic := [0x70, 0x73, 0x65, 0x74, 0xff], version := 0, txVersion := 2
    inputs := inputs, outputs := outputs }

/-- A partial transaction that offers the coins, asks for the amount and returns the change. -/
def generatePsbt (lib : Library) (wallet : WalletCtx) (psbtInfo : PsbtInfo) (utxos : List Utxo) :
    Call String String := do
  let pset ← generatePset lib wallet psbtInfo utxos
  unwrap (lib.toBase64 pset)

/-! ### What is built -/

theorem planOutput_eq_ok {wallet : WalletCtx} {calls : ℕ} {amount : ℤ} {asset : AssetId}
    {planned : List NewOutput} (h : planOutput wallet calls amount asset = .ok planned) :
    (0 < amount ∧ ∃ pointer, planned = [⟨pointer, amount, asset⟩]) ∨ (amount ≤ 0 ∧ planned = []) := by
  unfold planOutput at h
  split at h
  · rename_i hpos
    simp only [bind_eq_ok, unwrap_eq_ok, pure_eq_ok] at h
    obtain ⟨pointer, -, rfl⟩ := h
    exact .inl ⟨hpos, pointer, rfl⟩
  · rename_i hpos
    simp only [pure_eq_ok] at h
    exact .inr ⟨not_lt.mp hpos, h.symm⟩

/-- An input is built for its utxo, with the asset sent. -/
theorem buildInput_eq_ok {lib : Library} {wallet : WalletCtx} {psbtInfo : PsbtInfo} {txs : List TxMeta}
    {utxo : Utxo} {input : BuiltInput} (h : buildInput lib wallet psbtInfo txs utxo = .ok input) :
    ∃ t ∈ txs, t.txid = utxo.txhash ∧ hexDecode t.txid.toList = some input.txhash.reverse ∧
      input.index = utxo.ptIdx ∧ assetBytes psbtInfo.sendAsset = some input.asset := by
  simp only [buildInput, bind_eq_ok, unwrap_eq_ok, assert_eq_ok, pure_eq_ok] at h
  obtain ⟨t, ht, txid, htxid, asset, hasset, _, -, _, -, _, -, _, -, _, -, _, -, _, -, rfl⟩ := h
  refine ⟨t, List.mem_of_find?_eq_some ht, by simpa using List.find?_some ht, ?_, rfl, hasset⟩
  rw [htxid, List.reverse_reverse]

theorem buildOutput_eq_ok {lib : Library} {wallet : WalletCtx} {output : NewOutput}
    {built : BuiltOutput} (h : buildOutput lib wallet output = .ok built) :
    hexDecode (output.asset.val ++ "01").toList = some built.asset.reverse ∧
      lib.valueFromSatoshi (asU64 output.amount) = some built.value := by
  simp only [buildOutput, bind_eq_ok, unwrap_eq_ok, assert_eq_ok, pure_eq_ok] at h
  obtain ⟨_, -, _, -, asset, hasset, value, hvalue, _, -, rfl⟩ := h
  refine ⟨?_, hvalue⟩
  rw [hasset, List.reverse_reverse]

end SideSwap.Libwally
