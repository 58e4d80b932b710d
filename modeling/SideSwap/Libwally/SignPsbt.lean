import SideSwap.Client.State
import SideSwap.Lib.Call

/-!
# Signing a PSET

`sign_psbt` of `sideswap_libwally`: before it signs, it walks over the outputs and the inputs of a
PSET that the server made and adds up what the wallet gives and gets.  The model keeps the byte
strings of the PSET as the C structures hold them; what libwally computes from them is `Wally`, a
parameter.  `u64` totals are natural numbers: `checkedAdd` panics where a sum does not fit, the sum
of the fees wraps.
-/

namespace SideSwap.Libwally

open Client Call

/-- A string of bytes. -/
abbrev Bytes := List UInt8

/-! ### Machine integers -/

/-- `checked_add(..).unwrap()` of two `u64`. -/
def checkedAdd (a b : ℕ) : Call String ℕ := if a + b < 2 ^ 64 then .ok (a + b) else .error .panic

/-- An `i64` cast to `u64`. -/
def asU64 (z : ℤ) : ℕ := (z % 2 ^ 64).toNat

@[simp] theorem checkedAdd_eq_ok {a b c : ℕ} :
    checkedAdd a b = .ok c ↔ a + b < 2 ^ 64 ∧ a + b = c := by
  unfold checkedAdd
  split <;> simp_all

/-- A non-negative `i64` keeps its value as a `u64`. -/
theorem asU64_of_nonneg {z : ℤ} (h : 0 ≤ z) (h' : z < 2 ^ 63) : (asU64 z : ℤ) = z := by
  unfold asU64
  omega

theorem asU64_lt (z : ℤ) : asU64 z < 2 ^ 64 := by
  unfold asU64
  omega

/-! ### Hexadecimal -/

/-- The value of a hexadecimal digit. -/
def hexDigit (c : Char) : Option UInt8 :=
  if '0' ≤ c ∧ c ≤ '9' then some (c.toNat - 48).toUInt8
  else if 'a' ≤ c ∧ c ≤ 'f' then some (c.toNat - 87).toUInt8
  else if 'A' ≤ c ∧ c ≤ 'F' then some (c.toNat - 55).toUInt8
  else none

/-- Read bytes from text. -/
def hexDecode : List Char → Option Bytes
  | [] => some []
  | [_] => none
  | a :: b :: rest => do
    let high ← hexDigit a
    let low ← hexDigit b
    let bytes ← hexDecode rest
    return (16 * high + low) :: bytes

/-- Write bytes as text. -/
def hexEncode (bytes : Bytes) : String :=
  String.ofList (bytes.flatMap fun b => [Nat.digitChar (b.toNat / 16), Nat.digitChar (b.toNat % 16)])

/-- An asset identifier as it stands in a transaction: its bytes in reverse. -/
def assetBytes (asset : AssetId) : Option Bytes := (hexDecode asset.val.toList).map List.reverse

/-! ### PSETs -/

/-- An output of the transaction: `asset` and `value` are the confidential encodings, with a tag in
front. -/
structure PsbtTxOutput where
  script : Bytes
  asset : Bytes
  value : Bytes
deriving DecidableEq

/-- What the PSET adds to an output. -/
structure PsbtOutput where
  nonce : Bytes
  rangeproof : Bytes
  valueCommitment : Bytes
  assetCommitment : Bytes
  abf : Bytes
  vbf : Bytes
deriving DecidableEq

/-- An input of the transaction. -/
structure PsbtTxInput where
  txhash : Bytes
  index : ℕ
deriving DecidableEq

/-- What the PSET adds to an input. -/
structure PsbtInput where
  asset : Bytes
  sighash : ℕ
deriving DecidableEq

/-- A partial transaction: the transaction, and what is known of its inputs and outputs. -/
structure Psbt where
  txInputs : List PsbtTxInput
  inputs : List PsbtInput
  txOutputs : List PsbtTxOutput
  outputs : List PsbtOutput

/-- An output with both of its parts. -/
abbrev Output := PsbtTxOutput × PsbtOutput

/-- An input with both of its parts. -/
abbrev Input := PsbtTxInput × PsbtInput

/-- The outputs, with what is known of them. -/
def Psbt.bothOutputs (p : Psbt) : List Output := p.txOutputs.zip p.outputs

/-- The inputs, with what is known of them. -/
def Psbt.bothInputs (p : Psbt) : List Input := p.txInputs.zip p.inputs

/-- The asset that an output states openly, without the tag. -/
def Output.asset (o : Output) : Bytes := o.1.asset.drop 1

/-- The utxo that an input spends, if it is one of the wallet's. -/
def Input.utxo (utxos : List Utxo) (i : Input) : Option Utxo :=
  utxos.find? fun u => u.txhash = hexEncode i.1.txhash.reverse ∧ u.ptIdx = i.1.index

/-! ### The library -/

/-- What libwally computes; `none` is a result other than `WALLY_OK`.  `witness` signs and
finalizes one input of a decoded PSET, `finish` does so for all inputs of the PSET decoded anew and
puts the earlier witnesses in place; there `none` is a failed `check`, a panic. -/
structure Wally where
  psbtFromBase64 : String → Option Psbt
  valueToSatoshi : Bytes → Option ℕ
  blindingKey : Bytes → Bytes → Option Bytes
  unblind : Bytes → Bytes → Bytes → Bytes → Bytes → Bytes → Option (Bytes × ℕ)
  generatorFromBytes : Bytes → Bytes → Option Bytes
  valueCommitment : ℕ → Bytes → Bytes → Option Bytes
  witness : Psbt → ℕ → Utxo → Option Bytes
  finish : String → List Utxo → List (ℕ × Bytes) → Option String

/-- `wally_asset_unblind` on an output, with the key for its script. -/
def Wally.unblindOutput (w : Wally) (key : Bytes) (o : Output) : Option (Bytes × ℕ) :=
  w.unblind o.2.nonce key o.2.rangeproof o.2.valueCommitment o.1.script o.2.assetCommitment

/-- `WALLY_TX_ASSET_CT_ASSET_LEN`. -/
def assetCtLen : ℕ := 33

/-- `WALLY_SIGHASH_ALL`. -/
def sighashAll : ℕ := 1

/-! ### The outputs -/

/-- The totals that the loop over the outputs keeps. -/
structure Totals where
  fee : ℕ
  recv : ℕ
  change : ℕ
deriving DecidableEq

/-- The value of an output of the wallet's is received or change. -/
def countOwned (send recv : Bytes) (o : Output) (amount : ℕ) (t : Totals) (found : Bytes × ℕ) :
    Call String Totals := do
  ensure (found.2 = amount) "Condition failed: `value_out == amount`"
  ensure (found.1 = o.asset) "Condition failed: `asset_out == asset.as_slice()`"
  if o.asset = recv then
    return { t with recv := ← checkedAdd t.recv amount }
  else if o.asset = send then
    return { t with change := ← checkedAdd t.change amount }
  else throw (.error ("unexpected output asset: " ++ hexEncode o.asset))

/-- An output that unblinds is the wallet's. -/
def countOutput (w : Wally) (key send recv : Bytes) (t : Totals) (o : Output) (amount : ℕ) :
    Call String Totals :=
  match w.unblindOutput key o with
  | some found => countOwned send recv o amount t found
  | none => .ok t

/-- The commitments of an output that is not a fee are recomputed from its blinding factors. -/
def checkCommitments (w : Wally) (o : Output) (amount : ℕ) : Call String Unit := do
  ensure (o.2.abf.length ≠ 0) "Condition failed: `output.abf_len != 0`"
  ensure (o.2.vbf.length ≠ 0) "Condition failed: `output.vbf_len != 0`"
  let assetCommitment ← okOr (w.generatorFromBytes o.asset o.2.abf)
    "wally_asset_generator_from_bytes failed"
  ensure (assetCommitment = o.2.assetCommitment)
    "Condition failed: `asset_commitment_expected == asset_commitment_actual`"
  let valueCommitment ← okOr (w.valueCommitment amount o.2.vbf assetCommitment)
    "wally_asset_value_commitment failed"
  ensure (valueCommitment = o.2.valueCommitment)
    "Condition failed: `value_commitment_expected == value_commitment_actual`"

/-- An output with a script: counted if it is the wallet's, checked in any case. -/
def checkScriptOutput (w : Wally) (masterKey send recv : Bytes) (t : Totals) (o : Output)
    (amount : ℕ) : Call String Totals := do
  let key ← okOr (w.blindingKey masterKey o.1.script)
    "wally_asset_blinding_key_to_ec_private_key failed"
  let t ← countOutput w key send recv t o amount
  checkCommitments w o amount
  return t

/-- One round of the loop over the outputs. -/
def checkOutput (w : Wally) (masterKey send recv : Bytes) (t : Totals) (o : Output) :
    Call String Totals := do
  ensure (o.1.asset.length = assetCtLen)
    "Condition failed: `tx_output.asset_len == ffi::WALLY_TX_ASSET_CT_ASSET_LEN as ffi::size_t`"
  let amount ← okOr (w.valueToSatoshi o.1.value) "wally_tx_confidential_value_to_satoshi failed"
  if o.1.script.length ≠ 0 then checkScriptOutput w masterKey send recv t o amount
  else return { t with fee := (t.fee + amount) % 2 ^ 64 }

/-- The totals over the outputs. -/
def checkOutputs (w : Wally) (masterKey send recv : Bytes) (outputs : List Output) : Call String Totals :=
  outputs.foldlM (checkOutput w masterKey send recv) ⟨0, 0, 0⟩

/-! ### The inputs -/

/-- What the loop over the inputs keeps: the wallet's total and the witnesses made so far. -/
structure Spent where
  amount : ℕ
  witnesses : List (ℕ × Bytes)

/-- One round of the loop over the inputs. -/
def checkInput (w : Wally) (psbt : Psbt) (utxos : List Utxo) (send : Bytes) (s : Spent)
    (i : Input × ℕ) : Call String Spent := do
  ensure (i.1.2.sighash = 0 ∨ i.1.2.sighash = sighashAll)
    "Condition failed: `input.sighash == 0 || input.sighash == ffi::WALLY_SIGHASH_ALL`"
  match i.1.utxo utxos with
  | none => return s
  | some utxo =>
    ensure (i.1.2.asset = send) "Condition failed: `utxo_asset == send_asset`"
    let amount ← checkedAdd s.amount utxo.satoshi
    let witness ← unwrap (w.witness psbt i.2 utxo)
    return { amount := amount, witnesses := s.witnesses ++ [(i.2, witness)] }

/-- The wallet's total over the inputs, and their witnesses. -/
def checkInputs (w : Wally) (psbt : Psbt) (utxos : List Utxo) (send : Bytes)
    (inputs : List Input) : Call String Spent :=
  inputs.zipIdx.foldlM (checkInput w psbt utxos send) ⟨0, []⟩

/-! ### The whole -/

/-- The signed PSET.  `masterBlinding` is the wallet's blinding key. -/
def signPsbt (w : Wally) (masterBlinding : Option Bytes) (psbtInfo : PsbtInfo) (utxos : List Utxo)
    (psbt : String) : Call String String := do
  let masterKey ← unwrap masterBlinding
  let send ← unwrap (assetBytes psbtInfo.sendAsset)
  let recv ← unwrap (assetBytes psbtInfo.recvAsset)
  -- a C string cannot hold a zero byte
  let text ← unwrap (if '\x00' ∈ psbt.toList then none else some psbt)
  let pset ← okOr (w.psbtFromBase64 text) "decoding PSET failed"
  ensure (pset.inputs.length = pset.txInputs.length)
    "Condition failed: `(*psbt).inputs_allocation_len == (*(*psbt).tx).inputs_allocation_len`"
  ensure (pset.outputs.length = pset.txOutputs.length)
    "Condition failed: `(*psbt).outputs_allocation_len == (*(*psbt).tx).outputs_allocation_len`"
  let totals ← checkOutputs w masterKey send recv pset.bothOutputs
  ensure (totals.fee ≠ 0) "Condition failed: `fee_amount != 0`"
  let spent ← checkInputs w pset utxos send pset.bothInputs
  ensure (spent.amount > totals.change) "Condition failed: `input_amount > change_amount`"
  let sendAmount := spent.amount - totals.change
  ensure (sendAmount = asU64 psbtInfo.sendAmount)
    "Condition failed: `send_amount == psbt_info.send_amount as u64`"
  ensure (totals.recv = asU64 psbtInfo.recvAmount)
    "Condition failed: `recv_amount == psbt_info.recv_amount as u64`"
  unwrap (w.finish text utxos spent.witnesses)

end SideSwap.Libwally
