import SideSwap.Dealer.Amounts

/-!
# One transfer is enough

`get_balancing` compares the wallet's share of the total with a band around a norm, and outside the
band it asks for the transfer that brings the share back to the norm, rounded to whole units.  Here
the function is read in exact arithmetic (`Dealer.roundAway` rounds half away from zero): the
transfer it asks for can be made, and after it the share is inside the band again
(`getBalancing_corrects_in_one_step`).

A share outside the band means a total of at least five units, since both balances are positive and
one of them is less than a quarter.  The rounded transfer misses the norm by at most half a unit,
and half a unit is then at most a tenth of the total, which is less than the distance from the norm
to either end of the band.
-/

namespace SideSwap.Balancing.Exact

open Dealer (roundAway_of_nonneg coin_pos)

/-- A band for the wallet's share of the total.  The fields are the assertions of
`get_balancing`. -/
structure Ratio where
  min : ℚ
  norm : ℚ
  max : ℚ
  min_pos : 0 < min
  min_lt : min < norm
  lt_max : norm < max
  max_lt : max < 1

/-- `RATIO_BTC`. -/
def ratioBtc : Ratio :=
  { min := 25 / 100, norm := 4 / 10, max := 75 / 100
    min_pos := by norm_num
    min_lt := by norm_num
    lt_max := by norm_num
    max_lt := by norm_num }

/-- `RATIO_USDT`. -/
def ratioUsdt : Ratio :=
  { min := 25 / 100, norm := 6 / 10, max := 75 / 100
    min_pos := by norm_num
    min_lt := by norm_num
    lt_max := by norm_num
    max_lt := by norm_num }

/-- The enumeration `Balancing`. -/
inductive Decision where
  | none
  | send (amount : ℚ)
  | recv (amount : ℚ)
deriving DecidableEq

/-- `getBalancing` over exact rationals. -/
def getBalancing (walletBalance exchangeBalance : ℚ) (expected : Ratio) : Decision :=
  -- something is up with a balance of zero, probably
  if walletBalance = 0 ∨ exchangeBalance = 0 then .none
  else
    let total := walletBalance + exchangeBalance
    let ratio := walletBalance / total
    let diff := Dealer.toBitcoin (Dealer.fromBitcoin |(expected.norm - ratio) * total|)
    if ratio < expected.min then .recv diff
    else if ratio > expected.max then .send diff
    else .none

/-! ### What it asks for -/

section

variable {wallet exchange amount : ℚ} {expected : Ratio}

/-- The distance of the wallet from its norm, in whole units. -/
def missing (wallet exchange : ℚ) (expected : Ratio) : ℚ :=
  Dealer.toBitcoin (Dealer.fromBitcoin |expected.norm * (wallet + exchange) - wallet|)

/-- The amount that the code computes is the one that is missing from the normal part. -/
theorem norm_sub_ratio (h : wallet + exchange ≠ 0) :
    (expected.norm - wallet / (wallet + exchange)) * (wallet + exchange)
      = expected.norm * (wallet + exchange) - wallet := by
  field_simp

/-- With positive balances the divisions can be multiplied out. -/
theorem getBalancing_of_pos (hw : 0 < wallet) (he : 0 < exchange) :
    getBalancing wallet exchange expected =
      if wallet < expected.min * (wallet + exchange) then
        .recv (missing wallet exchange expected)
      else if expected.max * (wallet + exchange) < wallet then
        .send (missing wallet exchange expected)
      else .none := by
  have htotal : 0 < wallet + exchange := by linarith
  have hzero : ¬ (wallet = 0 ∨ exchange = 0) := by
    rintro (h | h)
    · exact hw.ne' h
    · exact he.ne' h
  rw [getBalancing, if_neg hzero]
  simp only [norm_sub_ratio htotal.ne', gt_iff_lt, div_lt_iff₀ htotal, lt_div_iff₀ htotal]
  rfl

/-- Inside the band nothing is asked for, nor with an empty side. -/
theorem getBalancing_none (hw : 0 ≤ wallet) (he : 0 ≤ exchange)
    (hmin : expected.min * (wallet + exchange) ≤ wallet)
    (hmax : wallet ≤ expected.max * (wallet + exchange)) :
    getBalancing wallet exchange expected = .none := by
  rcases hw.eq_or_lt with hw | hw
  · rw [getBalancing, if_pos (.inl hw.symm)]
  · rcases he.eq_or_lt with he | he
    · rw [getBalancing, if_pos (.inr he.symm)]
    · rw [getBalancing_of_pos hw he, if_neg (not_lt.mpr hmin), if_neg (not_lt.mpr hmax)]

/-- Coins are received when the wallet is below the band. -/
theorem getBalancing_recv (hw : 0 < wallet) (he : 0 < exchange)
    (h : getBalancing wallet exchange expected = .recv amount) :
    wallet < expected.min * (wallet + exchange) ∧ amount = missing wallet exchange expected := by
  rw [getBalancing_of_pos hw he] at h
  split at h
  · next hlow =>
    cases h
    exact ⟨hlow, rfl⟩
  · split at h <;> cases h

/-- Coins are sent when the wallet is above the band. -/
theorem getBalancing_send (hw : 0 < wallet) (he : 0 < exchange)
    (h : getBalancing wallet exchange expected = .send amount) :
    expected.max * (wallet + exchange) < wallet ∧ amount = missing wallet exchange expected := by
  rw [getBalancing_of_pos hw he] at h
  split at h
  · cases h
  · split at h
    · next hhigh =>
      cases h
      exact ⟨hhigh, rfl⟩
    · cases h

end

/-! ### The rounded transfer -/

/-- Rounding to whole units moves an amount by at most half a unit. -/
theorem abs_toBitcoin_fromBitcoin_sub_le {value : ℚ} (h : 0 ≤ value) :
    |Dealer.toBitcoin (Dealer.fromBitcoin value) - value| ≤ 1 / 2 / coin := by
  have hc := coin_pos
  have hq : 0 ≤ value * coin := mul_nonneg h hc.le
  rw [Dealer.fromBitcoin, roundAway_of_nonneg hq, Dealer.toBitcoin, abs_le]
  have hle : (⌊value * coin + 1 / 2⌋ : ℚ) ≤ value * coin + 1 / 2 := Int.floor_le _
  have hlt : value * coin + 1 / 2 < (⌊value * coin + 1 / 2⌋ : ℚ) + 1 := Int.lt_floor_add_one _
  have hvalue : value = value * coin / coin := by field_simp
  constructor
  · rw [neg_le_sub_iff_le_add, hvalue, ← add_div, div_le_div_iff_of_pos_right hc, ← hvalue]
    linarith
  · rw [sub_le_iff_le_add]
    nth_rewrite 2 [hvalue]
    rw [← add_div, div_le_div_iff_of_pos_right hc]
    linarith

/-- A balance: a positive number of whole units. -/
def IsAmount (q : ℚ) : Prop := ∃ n : ℕ, 0 < n ∧ q = Dealer.toBitcoin n

/-- An amount is positive. -/
theorem IsAmount.pos {q : ℚ} (h : IsAmount q) : 0 < q := by
  obtain ⟨n, hn, rfl⟩ := h
  have hn' : (0 : ℚ) < (n : ℤ) := by exact_mod_cast hn
  exact div_pos hn' coin_pos

/-- A band that leaves room for the rounding: a share outside it belongs to a total of at least five
units, and then half a unit is at most a tenth of the total. -/
structure Ratio.Roomy (expected : Ratio) : Prop where
  low : expected.min ≤ 1 / 4
  high : 3 / 4 ≤ expected.max
  below : 1 / 10 < expected.norm - expected.min
  above : 1 / 10 < expected.max - expected.norm

/-- The bounds for bitcoin leave room around the normal part. -/
theorem ratioBtc_roomy : ratioBtc.Roomy := by
  constructor <;> norm_num [ratioBtc]

/-- The bounds for dollars do, too. -/
theorem ratioUsdt_roomy : ratioUsdt.Roomy := by
  constructor <;> norm_num [ratioUsdt]

section

variable {wallet exchange amount : ℚ} {expected : Ratio}

/-- If one side has less than a quarter, the total is at least five units. -/
theorem five_units_le {a b : ℚ} (ha : IsAmount a) (hb : IsAmount b) (h : a < 1 / 4 * (a + b)) :
    5 / (coin : ℚ) ≤ a + b := by
  obtain ⟨n, hn, rfl⟩ := ha
  obtain ⟨m, hm, rfl⟩ := hb
  have hc := coin_pos
  have hsum : Dealer.toBitcoin n + Dealer.toBitcoin m = ((n + m : ℕ) : ℚ) / coin := by
    rw [Dealer.toBitcoin, Dealer.toBitcoin]
    push_cast
    rw [← add_div]
  rw [hsum, Dealer.toBitcoin, ← mul_div_assoc, div_lt_div_iff_of_pos_right hc] at h
  rw [hsum]
  have hlt : 4 * n < n + m := by
    have : ((4 * n : ℕ) : ℚ) < ((n + m : ℕ) : ℚ) := by
      push_cast at h ⊢
      linarith
    exact_mod_cast this
  rw [div_le_div_iff_of_pos_right hc]
  have hfive : 5 ≤ n + m := by omega
  exact_mod_cast hfive

/-- Half a unit is at most a tenth of a total of five units. -/
theorem half_unit_le {total : ℚ} (hfive : 5 / (coin : ℚ) ≤ total) :
    1 / 2 / (coin : ℚ) ≤ 1 / 10 * total := by
  have hhalf : 1 / 2 / (coin : ℚ) = 1 / 10 * (5 / coin) := by ring
  rw [hhalf]
  linarith

/-- A transfer that misses the norm by at most half a unit puts the wallet inside the band. -/
theorem getBalancing_of_near (hroom : expected.Roomy) {total : ℚ}
    (htotal : wallet + exchange = total) (hfive : 5 / (coin : ℚ) ≤ total) (hw : 0 ≤ wallet)
    (he : 0 ≤ exchange) (hnear : |wallet - expected.norm * total| ≤ 1 / 2 / coin) :
    getBalancing wallet exchange expected = .none := by
  have htenth := half_unit_le hfive
  have hpos : 0 ≤ total := le_trans (div_nonneg (by norm_num) coin_pos.le) hfive
  have hbelow := mul_le_mul_of_nonneg_right hroom.below.le hpos
  have habove := mul_le_mul_of_nonneg_right hroom.above.le hpos
  rw [abs_le] at hnear
  apply getBalancing_none hw he
  · rw [htotal]
    linarith
  · rw [htotal]
    linarith

/-- A wallet that is more than a tenth of the total away from its norm misses a positive amount,
which is the distance up to half a unit. -/
theorem missing_near (expected : Ratio) (hfive : 5 / (coin : ℚ) ≤ wallet + exchange)
    (hgap : 1 / 10 * (wallet + exchange) < |expected.norm * (wallet + exchange) - wallet|) :
    0 < missing wallet exchange expected ∧
      |missing wallet exchange expected - (|expected.norm * (wallet + exchange) - wallet|)|
        ≤ 1 / 2 / coin := by
  have hhalf := half_unit_le hfive
  have hround := abs_toBitcoin_fromBitcoin_sub_le
    (abs_nonneg (expected.norm * (wallet + exchange) - wallet))
  refine ⟨?_, hround⟩
  rw [abs_le] at hround
  rw [missing]
  linarith

/-- The wallet is below the band: what it is to receive can be sent and ends the balancing. -/
theorem recv_corrects (hroom : expected.Roomy) (hw : IsAmount wallet) (he : IsAmount exchange)
    (h : getBalancing wallet exchange expected = .recv amount) :
    0 < amount ∧ amount ≤ exchange ∧
      getBalancing (wallet + amount) (exchange - amount) expected = .none := by
  obtain ⟨hlow, rfl⟩ := getBalancing_recv hw.pos he.pos h
  have htotal : 0 < wallet + exchange := add_pos hw.pos he.pos
  have hquarter := mul_le_mul_of_nonneg_right hroom.low htotal.le
  have hbelow := mul_lt_mul_of_pos_right hroom.below htotal
  have habove := mul_lt_mul_of_pos_right hroom.above htotal
  have hmax := mul_lt_mul_of_pos_right expected.max_lt htotal
  have hfive := five_units_le hw he (by linarith)
  have hgap : |expected.norm * (wallet + exchange) - wallet|
      = expected.norm * (wallet + exchange) - wallet := abs_of_nonneg (by linarith)
  obtain ⟨hpos, hnear⟩ := missing_near expected hfive (by linarith)
  have hhalf := half_unit_le hfive
  rw [hgap, abs_le] at hnear
  have hle : missing wallet exchange expected ≤ exchange := by linarith
  refine ⟨hpos, hle, ?_⟩
  apply getBalancing_of_near hroom (show _ = wallet + exchange by ring) hfive
  · linarith [hw.pos]
  · linarith
  · rw [abs_le]
    constructor <;> linarith

/-- The wallet is above the band: what it is to send is there and ends the balancing. -/
theorem send_corrects (hroom : expected.Roomy) (hw : IsAmount wallet) (he : IsAmount exchange)
    (h : getBalancing wallet exchange expected = .send amount) :
    0 < amount ∧ amount ≤ wallet ∧
      getBalancing (wallet - amount) (exchange + amount) expected = .none := by
  obtain ⟨hhigh, rfl⟩ := getBalancing_send hw.pos he.pos h
  have htotal : 0 < wallet + exchange := add_pos hw.pos he.pos
  -- the bounds of the room above and below the share, scaled to the two balances
  have hquarter := mul_le_mul_of_nonneg_right hroom.high htotal.le
  have hbelow := mul_lt_mul_of_pos_right hroom.below htotal
  have habove := mul_lt_mul_of_pos_right hroom.above htotal
  have hmin := mul_pos expected.min_pos htotal
  have hfive : 5 / (coin : ℚ) ≤ wallet + exchange := by
    rw [add_comm]
    exact five_units_le he hw (by linarith)
  have hgap : |expected.norm * (wallet + exchange) - wallet|
      = wallet - expected.norm * (wallet + exchange) := by
    rw [abs_of_nonpos (by linarith)]
    ring
  -- the amount that is sent differs from the missing one by less than a unit
  obtain ⟨hpos, hnear⟩ := missing_near expected hfive (by linarith)
  have hhalf := half_unit_le hfive
  rw [hgap, abs_le] at hnear
  have hle : missing wallet exchange expected ≤ wallet := by linarith
  refine ⟨hpos, hle, ?_⟩
  -- after the transfer the wallet is off by at most that unit, for which there is room
  apply getBalancing_of_near hroom (show _ = wallet + exchange by ring) hfive
  · linarith
  · linarith [he.pos]
  · rw [abs_le]
    constructor <;> linarith

end

/-- The transfer that was asked for can be made, and after it nothing more is asked for. -/
def Decision.Corrects (wallet exchange : ℚ) (expected : Ratio) : Decision → Prop
  | .none => True
  | .recv amount => 0 < amount ∧ amount ≤ exchange ∧
      getBalancing (wallet + amount) (exchange - amount) expected = .none
  | .send amount => 0 < amount ∧ amount ≤ wallet ∧
      getBalancing (wallet - amount) (exchange + amount) expected = .none

/-- Balancing corrects in one step, for the two bands of the dealer and for all balances. -/
theorem getBalancing_corrects_in_one_step (wallet exchange : ℚ) (hw : IsAmount wallet)
    (he : IsAmount exchange) (expected : Ratio) (hexpected : expected ∈ [ratioBtc, ratioUsdt]) :
    (getBalancing wallet exchange expected).Corrects wallet exchange expected := by
  have hroom : expected.Roomy := by
    rcases List.mem_pair.mp hexpected with rfl | rfl
    · exact ratioBtc_roomy
    · exact ratioUsdt_roomy
  cases h : getBalancing wallet exchange expected with
  | none => exact trivial
  | recv amount => exact recv_corrects hroom hw he h
  | send amount => exact send_corrects hroom hw he h

/-- One unit against four: the smallest balances with a transfer. -/
theorem getBalancing_corrects_single_units :
    getBalancing (Dealer.toBitcoin 1) (Dealer.toBitcoin 4) ratioBtc
        = .recv (Dealer.toBitcoin 1) ∧
      (getBalancing (Dealer.toBitcoin 1) (Dealer.toBitcoin 4) ratioBtc).Corrects
        (Dealer.toBitcoin 1) (Dealer.toBitcoin 4) ratioBtc := by
  refine ⟨by decide +kernel, ?_⟩
  exact getBalancing_corrects_in_one_step _ _ ⟨1, by decide, rfl⟩ ⟨4, by decide, rfl⟩ _ (by simp)

end SideSwap.Balancing.Exact
