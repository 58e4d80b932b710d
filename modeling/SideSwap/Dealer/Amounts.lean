import Mathlib.Algebra.Order.Field.Rat
import Mathlib.Algebra.Order.Floor.Ring
import Mathlib.Data.Rat.Floor
import Mathlib.Tactic.FieldSimp
import Mathlib.Tactic.Linarith
import Mathlib.Tactic.Positivity
import SideSwap.Api.Messages

/-!
# The dealers' arithmetic

The two dealers (`sideswap_dealer` and `sideswap_dealer_bitfinex`) are read in exact arithmetic:
an `f64` is a rational number, `round` rounds half away from zero, `as i64` truncates and an `i64`
is an integer.  The functions of `sideswap_common::types` that they call are restated here in this
reading.
-/

namespace SideSwap.Dealer

/-- `f64::round`. -/
def roundAway (q : ℚ) : ℤ := if 0 ≤ q then ⌊q + 1 / 2⌋ else -⌊-q + 1 / 2⌋

/-- `as i64`. -/
def truncate (q : ℚ) : ℤ := if 0 ≤ q then ⌊q⌋ else ⌈q⌉

theorem roundAway_of_nonneg {q : ℚ} (h : 0 ≤ q) : roundAway q = ⌊q + 1 / 2⌋ := by
  rw [roundAway, if_pos h]

theorem roundAway_nonneg {q : ℚ} (h : 0 ≤ q) : 0 ≤ roundAway q := by
  rw [roundAway_of_nonneg h, Int.floor_nonneg]
  linarith

/-- Rounding away from zero is monotone. -/
theorem roundAway_mono {p q : ℚ} (h : p ≤ q) : roundAway p ≤ roundAway q := by
  unfold roundAway
  split <;> split
  · exact Int.floor_mono (by linarith)
  · linarith
  · next hp hq =>
    have hp' : 0 ≤ ⌊-p + 1 / 2⌋ := Int.floor_nonneg.mpr (by linarith)
    have hq' : 0 ≤ ⌊q + 1 / 2⌋ := Int.floor_nonneg.mpr (by linarith)
    omega
  · have : ⌊-q + 1 / 2⌋ ≤ ⌊-p + 1 / 2⌋ := Int.floor_mono (by linarith)
    omega

/-- Rounding a quotient of integers is an integer division: a half is rounded up. -/
theorem roundAway_div {n d : ℤ} (hn : 0 ≤ n) (hd : 0 < d) :
    roundAway ((n : ℚ) / d) = (2 * n + d) / (2 * d) := by
  have hd' : (0 : ℚ) < d := by exact_mod_cast hd
  have hnn : (0 : ℚ) ≤ (n : ℚ) / d := div_nonneg (by exact_mod_cast hn) hd'.le
  have hsum : (n : ℚ) / d + 1 / 2 = ((2 * n + d : ℤ) : ℚ) / ((2 * d : ℤ) : ℚ) := by
    push_cast
    field_simp
  rw [roundAway_of_nonneg hnn, hsum, Int.floor_div_cast_of_nonneg (by omega), Int.floor_intCast]

/-! ### Amounts -/

/-- `Amount::from_bitcoin`. -/
def fromBitcoin (value : ℚ) : ℤ := roundAway (value * coin)

/-- `Amount::to_bitcoin`. -/
def toBitcoin (sat : ℤ) : ℚ := sat / coin

theorem coin_pos : (0 : ℚ) < coin := by norm_num [coin]

/-- The conversion keeps the sign. -/
theorem fromBitcoin_nonneg {value : ℚ} (h : 0 ≤ value) : 0 ≤ fromBitcoin value :=
  roundAway_nonneg (mul_nonneg h coin_pos.le)

/-- The conversion keeps the order. -/
theorem fromBitcoin_mono {p q : ℚ} (h : p ≤ q) : fromBitcoin p ≤ fromBitcoin q :=
  roundAway_mono (mul_le_mul_of_nonneg_right h coin_pos.le)

/-- `SERVER_FEE_RATE`. -/
def serverFeeRate : ℚ := 1 / 1000

/-- The server's fee for a bitcoin amount. -/
def getServerFee (bitcoinAmount : ℤ) : ℤ :=
  max (fromBitcoin (toBitcoin bitcoinAmount * serverFeeRate)) minServerFee

/-- The fee is a thousandth, rounded, and at least the least fee. -/
theorem getServerFee_eq {amount : ℤ} (h : 0 ≤ amount) :
    getServerFee amount = max ((2 * amount + 1000) / 2000) 500 := by
  have hrate : toBitcoin amount * serverFeeRate * coin = (amount : ℚ) / (1000 : ℤ) := by
    unfold toBitcoin serverFeeRate
    have := coin_pos.ne'
    push_cast
    field_simp
  rw [getServerFee, fromBitcoin, hrate, roundAway_div h (by norm_num)]
  rfl

/-- An amount of an asset, in whole assets. -/
def assetFloatAmount (amount : ℤ) (precision : ℕ) : ℚ := amount / 10 ^ precision

/-- The amount of an asset that a bitcoin amount buys. -/
def assetAmount (bitcoinAmount : ℤ) (price : ℚ) (precision : ℕ) : ℤ :=
  roundAway (toBitcoin bitcoinAmount * price * 10 ^ precision)

/-- The network fee of a transaction with that many inputs and outputs. -/
def expectedNetworkFee (vinCount voutCount : ℤ) (feeRate : ℚ) : ℤ :=
  let expectedVsize := vsizeFixed + vinCount * vsizeVin + voutCount * vsizeVout
  fromBitcoin (expectedVsize * feeRate / 1000 * (1075 / 1000))

/-- The assets that a dealer knows. -/
inductive DealerTicker where
  | lbtc
  | usdt
  | eurx
  | lcad
  | audl
deriving DecidableEq

/-- The ticker as the server writes it. -/
def DealerTicker.name : DealerTicker → Ticker
  | .lbtc => ⟨"L-BTC"⟩
  | .usdt => ⟨"USDt"⟩
  | .eurx => ⟨"EURx"⟩
  | .lcad => ⟨"LCAD"⟩
  | .audl => ⟨"AUDL"⟩

/-- `ticker_from_string`, without its error text. -/
def DealerTicker.ofName (name : Ticker) : Option DealerTicker :=
  [.lbtc, .usdt, .eurx, .lcad, .audl].find? fun t => t.name = name

/-- A two-sided price. -/
structure PricePair where
  bid : ℚ
  ask : ℚ
deriving DecidableEq

end SideSwap.Dealer
