import Mathlib.Data.List.Sort
import SideSwap.Lib.F64

/-!
# Amounts, coin selection and fees

The shared arithmetic of the client and the dealers (`sideswap_common::types`).  Amounts are `i64`
satoshis, here integers: `wrap` is the two's complement reduction of a sum that may overflow in a
release build.  Prices and bitcoin values are `F64`.

`selectUtxo` and `assetScale` return `none` where the code panics.
-/

namespace SideSwap

/-- An `i64` result of a release build: reduced to the 64-bit two's complement range. -/
def wrap (z : ℤ) : ℤ := Int.bmod z (2 ^ 64)

/-- The range of an `i64`. -/
def IsI64 (z : ℤ) : Prop := -2 ^ 63 ≤ z ∧ z < 2 ^ 63

instance (z : ℤ) : Decidable (IsI64 z) := inferInstanceAs (Decidable (_ ∧ _))

/-- An `i64` is its own reduction. -/
theorem wrap_of_isI64 {z : ℤ} (h : IsI64 z) : wrap z = z := by
  unfold IsI64 at h
  unfold wrap
  rw [Int.bmod_eq_of_le] <;> omega

/-! ### Amounts -/

/-- Satoshis in one bitcoin. -/
def coin : ℤ := 100000000

/-- `Amount::from_bitcoin`. -/
def fromBitcoin (value : F64) : ℤ := (value * F64.ofInt coin).round.toI64

/-- `Amount::to_bitcoin`. -/
def toBitcoin (sat : ℤ) : F64 := F64.ofInt sat / F64.ofInt coin

/-! ### Transaction outputs -/

/-- An outpoint. -/
structure TxOut where
  txid : String
  vout : ℤ
deriving DecidableEq

/-! ### Coin selection -/

/-- The sort key of an input: the closer to the remaining amount, the later. -/
def closeness (remain value : ℤ) : ℤ := -((wrap (value - remain)).natAbs : ℤ)

/-- The first loop of `select_utxo`: take the input closest to the remaining amount.  The inputs
shrink with every round, so their number bounds the rounds. -/
def pickInputs : ℕ → List ℤ → ℤ → List ℤ → Option (List ℤ)
  | 0, _, remain, result => if remain > 0 then none else some result
  | n + 1, inputs, remain, result =>
    if remain > 0 then
      let sorted := inputs.insertionSort fun a b => closeness remain a ≤ closeness remain b
      match sorted.getLast? with
      | none => none
      | some selected =>
        pickInputs n sorted.dropLast (wrap (remain - selected)) (result ++ [selected])
    else some result

/-- The second loop of `select_utxo`, on the result in ascending order: drop the least input while
the others still exceed the amount. -/
def dropInputs (amount : ℤ) : List ℤ → Option (List ℤ)
  | [] => none
  | least :: rest =>
    if wrap (wrap (least :: rest).sum - least) > amount then dropInputs amount rest
    else some (least :: rest)

/-- Inputs that cover an amount, largest first; `none` is a panic. -/
def selectUtxo (inputs : List ℤ) (amount : ℤ) : Option (List ℤ) := do
  guard (amount > 0)
  let picked ← pickInputs inputs.length inputs amount []
  let result ← dropInputs amount (picked.insertionSort (· ≤ ·))
  return result.reverse

example : selectUtxo [1000, 100, 10, 1] 102 = some [100, 10] := by decide +kernel

/-! ### Fees -/

/-- The virtual size of a transaction without inputs and outputs. -/
def vsizeFixed : ℤ := 23
/-- The virtual size of an input. -/
def vsizeVin : ℤ := 108
/-- The virtual size of a blinded output. -/
def vsizeVout : ℤ := 1192

/-- The network fee of a transaction with that many inputs and outputs, with a margin of 7.5 %; the
fee rate is per 1000 virtual bytes. -/
def expectedNetworkFee (vinCount voutCount : ℤ) (feeRate : F64) : ℤ :=
  let expectedVsize := vsizeFixed + vinCount * vsizeVin + voutCount * vsizeVout
  fromBitcoin (F64.ofInt expectedVsize * feeRate / F64.lit 1000 1 * F64.lit 1075 1000)

/-- The least bitcoin amount of an order. -/
def minBitcoinAmount : ℤ := 2000
/-- The least fee of the server. -/
def minServerFee : ℤ := 500
/-- The fee of the server, as a part of the bitcoin amount. -/
def serverFeeRate : F64 := F64.lit 1 1000

/-- The server's fee for a bitcoin amount. -/
def getServerFee (bitcoinAmount : ℤ) : ℤ :=
  max (fromBitcoin (toBitcoin bitcoinAmount * serverFeeRate)) minServerFee

/-- The largest amount that a balance can pay for together with its fee; a negative balance is a
panic. -/
def getMaxBitcoinAmount (bitcoinBalance : ℤ) : Option (Except String ℤ) := do
  guard (bitcoinBalance ≥ 0)
  if bitcoinBalance ≥ minBitcoinAmount + minServerFee then
    let networkFeeScaled := fromBitcoin (toBitcoin bitcoinBalance
      * (F64.lit 1 1 - F64.lit 1 1 / (F64.lit 1 1 + serverFeeRate)))
    let networkFee := max networkFeeScaled minServerFee
    let bitcoinAmount := wrap (bitcoinBalance - networkFee)
    let actualServerFee := getServerFee bitcoinAmount
    -- the fee of the rounded amount may be one satoshi more than what was put aside
    if bitcoinBalance < wrap (bitcoinAmount + actualServerFee) then return .ok (bitcoinAmount - 1)
    else return .ok bitcoinAmount
  else return .error "balance is too low"

/-! ### Asset amounts -/

/-- The number of units in one asset; the power must fit an `i64`. -/
def assetScale (assetPrecision : ℕ) : Option F64 :=
  if (10 : ℤ) ^ assetPrecision < 2 ^ 63 then some (F64.ofInt (10 ^ assetPrecision)) else none

/-- The amount of an asset that a bitcoin amount buys. -/
def assetAmount (bitcoinAmount : ℤ) (price : F64) (assetPrecision : ℕ) : Option ℤ := do
  let scale ← assetScale assetPrecision
  return (toBitcoin bitcoinAmount * price * scale).round.toI64

/-- An amount of an asset, in whole assets. -/
def assetFloatAmount (amount : ℤ) (assetPrecision : ℕ) : Option F64 := do
  let scale ← assetScale assetPrecision
  return F64.ofInt amount / scale

/-- The bitcoin amount that an amount of an asset is worth. -/
def bitcoinAmount (amount : ℤ) (price : F64) (assetPrecision : ℕ) : Option ℤ := do
  let value ← assetFloatAmount amount assetPrecision
  return fromBitcoin (value / price)

example : assetAmount 100000000 (F64.lit 1234567 100) 2 = some 1234567 := by decide +kernel

end SideSwap
