import SideSwap.Dealer.Amounts
import SideSwap.Lib.Call

/-!
# The largest amount that a balance can pay for

`get_max_bitcoin_amount` of `sideswap_common::types` inverts a fee that is rounded and has a least
value: it takes off the fee's share of the balance, and one unit more if that share was rounded the
wrong way.  In exact arithmetic both roundings are integer divisions (`roundAway_div`), by 1000 and
by 1001, and the one unit is all that they can differ by (`getMaxBitcoinAmount_maximal`).
-/

namespace SideSwap.Dealer

open Call

/-- The largest amount that a balance can pay for together with its fee. -/
def getMaxBitcoinAmount (bitcoinBalance : ℤ) : Call String ℤ := do
  assert (bitcoinBalance ≥ 0)
  ensure (bitcoinBalance ≥ minBitcoinAmount + minServerFee) "balance is too low"
  let networkFeeScaled := fromBitcoin (toBitcoin bitcoinBalance * (1 - 1 / (1 + serverFeeRate)))
  let networkFee := max networkFeeScaled minServerFee
  let bitcoinAmount := bitcoinBalance - networkFee
  let actualServerFee := getServerFee bitcoinAmount
  if bitcoinBalance < bitcoinAmount + actualServerFee then return bitcoinAmount - 1
  else return bitcoinAmount

/-- The share of the fee in a balance. -/
theorem feeShare_eq {balance : ℤ} (h : 0 ≤ balance) :
    fromBitcoin (toBitcoin balance * (1 - 1 / (1 + serverFeeRate)))
      = (2 * balance + 1001) / 2002 := by
  have hshare : toBitcoin balance * (1 - 1 / (1 + serverFeeRate)) * coin
      = (balance : ℚ) / (1001 : ℤ) := by
    unfold toBitcoin serverFeeRate
    have := coin_pos.ne'
    push_cast
    field_simp
    norm_num
  rw [fromBitcoin, hshare, roundAway_div h (by norm_num)]
  rfl

/-- With enough balance, the share of the fee comes off, and one unit if it does not suffice. -/
theorem getMaxBitcoinAmount_eq {balance : ℤ} (h : minBitcoinAmount + minServerFee ≤ balance) :
    getMaxBitcoinAmount balance =
      let amount := balance - max ((2 * balance + 1001) / 2002) 500
      .ok (if balance < amount + getServerFee amount then amount - 1 else amount) := by
  have hpos : 0 ≤ balance := by
    unfold minBitcoinAmount minServerFee at h
    omega
  simp only [getMaxBitcoinAmount, bind_eq_ok, assert_eq_ok, ensure_eq_ok, feeShare_eq hpos]
  refine ⟨(), decide_eq_true hpos, (), decide_eq_true h, ?_⟩
  unfold minServerFee
  split <;> rfl

/-- For every balance that can pay for the least amount, the result and its fee fit the balance, one
unit more would not, and the result is at least the least amount.  Any other balance gives an
error. -/
theorem getMaxBitcoinAmount_maximal (balance : ℤ) (nonneg : 0 ≤ balance) :
    (minBitcoinAmount + minServerFee ≤ balance →
      ∃ amount, getMaxBitcoinAmount balance = .ok amount
        ∧ amount + getServerFee amount ≤ balance
        ∧ (amount + 1) + getServerFee (amount + 1) > balance
        ∧ minBitcoinAmount ≤ amount)
    ∧ (balance < minBitcoinAmount + minServerFee →
      getMaxBitcoinAmount balance = .error (.error "balance is too low")) := by
  constructor
  · -- the amount is the balance less the fee, and the fee is known in closed form on both sides of
    -- it
    intro henough
    refine ⟨_, getMaxBitcoinAmount_eq henough, ?_⟩
    unfold minBitcoinAmount minServerFee at henough
    set amount := balance - max ((2 * balance + 1001) / 2002) 500 with hamount
    have hlarge : 2000 ≤ amount := by omega
    have hfee := getServerFee_eq (show 0 ≤ amount by omega)
    have hless := getServerFee_eq (show 0 ≤ amount - 1 by omega)
    have hmore := getServerFee_eq (show 0 ≤ amount + 1 by omega)
    unfold minBitcoinAmount
    -- rounding up the fee leaves the amount one too large or just right
    split
    · next hshort =>
      rw [sub_add_cancel]
      omega
    · next hfits => omega
  · -- a balance below the two minima is refused
    intro hlow
    have hassert : decide (balance ≥ 0) = true := decide_eq_true nonneg
    have hensure : decide (balance ≥ minBitcoinAmount + minServerFee) = false :=
      decide_eq_false (not_le.mpr hlow)
    unfold getMaxBitcoinAmount
    rw [hassert, hensure]
    rfl

/-- A balance whose remainder makes the correction necessary: the share of its fee is rounded down,
the fee of what is left is rounded up. -/
theorem getMaxBitcoinAmount_corrected :
    (0 : ℤ) ≤ 1001500 ∧ minBitcoinAmount + minServerFee ≤ 1001500
      ∧ ∃ amount, getMaxBitcoinAmount 1001500 = .ok amount
        ∧ amount + getServerFee amount ≤ 1001500
        ∧ (amount + 1) + getServerFee (amount + 1) > 1001500
        ∧ minBitcoinAmount ≤ amount :=
  ⟨by decide, by decide, (getMaxBitcoinAmount_maximal 1001500 (by decide)).1 (by decide)⟩

end SideSwap.Dealer
