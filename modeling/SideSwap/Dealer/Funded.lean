import SideSwap.Dealer.Settled

/-!
# Orders that the coins can pay for

The dealer offers and takes what its balances allow, and looks for the coins afterwards.  Where it
sends the asset, the coins are there.  Where it sends bitcoins, the balance is divided by the fee
rate and rounded, while the coins must cover the amount and a fee that is rounded by itself and has
a least value.  The two agree except for an order that leaves less than the least fee of a small
balance, and for the whole of a balance whose quotient is rounded up into the next fee
(`getPset_funded_iff`).
-/

namespace SideSwap.Dealer

open Call

/-! ### Terms and balances -/

/-- What the coins of an asset hold. -/
def coinTotal (utxos : Utxos) (asset : AssetId) : ℤ :=
  ((utxos.values.filter fun u => u.asset = asset).map Utxo.amount).sum

/-- The balances are what the coins hold.  The wallet reports every asset with eight decimals, and
no asset of the network has more. -/
structure Backed (params : Params) (assets : List Asset) (all : AllBalances) (utxos : Utxos) : Prop where
  nonneg : ∀ u ∈ utxos.values, 0 ≤ u.amount
  bitcoin : (all.wallet .lbtc).getD 0 = toBitcoin (coinTotal utxos params.bitcoinAssetId)
  asset : ∀ asset ∈ assets, ∀ ticker, DealerTicker.ofName asset.ticker = some ticker →
    (all.wallet ticker).getD 0 = toBitcoin (coinTotal utxos asset.assetId)
  precision : ∀ asset ∈ assets, asset.precision ≤ 8

/-- The terms of an order with this amount and price. -/
def orderDetails (asset : Asset) (sendBitcoins : Bool) (amount : ℤ) (price : ℚ) : Details :=
  { asset := asset.assetId, bitcoinAmount := amount
    assetAmount := assetAmount amount price asset.precision, price := price
    serverFee := getServerFee amount, sendBitcoins := sendBitcoins }

/-- A call of `updatePrice` sends a `Submit` with this amount and price. -/
def SendsSubmit (params : Params) (assets : List Asset) (indexPrices : IndexPrices)
    (all : AllBalances) (utxos : Utxos) (key : OwnOrderKey) (amount : ℤ) (price : ℚ) : Prop :=
  ∃ own own' trace r reply,
    updatePrice params assets indexPrices all utxos key own r = some (own', trace)
      ∧ .submit (signedAmount key.sendBitcoins amount) price reply ∈ trace

/-- The terms of an order that the dealer deals with: one that it submits, with the amount and price
that it asked for, or one that it takes or signs. -/
inductive Dealt (params : Params) (assets : List Asset) (indexPrices : IndexPrices)
    (all : AllBalances) (utxos : Utxos) : Details → Prop where
  | submitted (key : OwnOrderKey) (asset : Asset) (amount : ℤ) (price : ℚ)
      (known : assets.find? (fun asset => asset.ticker = key.ticker.name) = some asset)
      (sent : SendsSubmit params assets indexPrices all utxos key amount price) :
      Dealt params assets indexPrices all utxos (orderDetails asset key.sendBitcoins amount price)
  | taken (details : Details) (interest : ℚ)
      (accepted : takeOrder params assets details all indexPrices interest = .ok ())
      (fee : details.serverFee = getServerFee details.bitcoinAmount) :
      Dealt params assets indexPrices all utxos details

/-- The fee fits: a small order leaves the least fee, and an order for the whole balance does not
round the fee up by one unit. -/
def FeeFits (balance amount : ℤ) : Prop :=
  (amount < 500500 → amount + minServerFee ≤ balance)
    ∧ ¬ (balance % 1001 = 500 ∧ amount = balance - balance / 1001)

instance (balance amount : ℤ) : Decidable (FeeFits balance amount) :=
  inferInstanceAs (Decidable (_ ∧ _))

/-! ### The check of the coins -/

/-- Coins are worth something together. -/
theorem coinTotal_nonneg {utxos : Utxos} (h : ∀ u ∈ utxos.values, 0 ≤ u.amount) (asset : AssetId) :
    0 ≤ coinTotal utxos asset := by
  apply List.sum_nonneg
  intro amount hamount
  obtain ⟨u, hu, rfl⟩ := List.mem_map.mp hamount
  exact h u (List.mem_of_mem_filter hu)

/-- The only error of `getPset` is that the coins do not cover the amount. -/
theorem getPset_error_iff {params : Params} {details : Details} {utxos : Utxos} {extra : Bool} :
    getPset params details utxos extra = .error (.error ())
      ↔ coinTotal utxos (if details.sendBitcoins then params.bitcoinAssetId else details.asset)
        < if details.sendBitcoins then details.bitcoinAmount + details.serverFee
          else details.assetAmount := by
  simp only [getPset, bind_eq_error, ensure_eq_error, unwrap_eq_error, reduceCtorEq, and_false,
    exists_false, or_false, decide_eq_false_iff_not, and_true, not_le, coinTotal]

/-! ### Bitcoins -/

/-- The amount is at most the rounded quotient of the balance. -/
theorem getBitcoinAmount_send_le {all : AllBalances} {ticker : DealerTicker} {price : ℚ}
    {maxAmount : Bool} {balance : ℤ} (hwallet : (all.wallet .lbtc).getD 0 = toBitcoin balance)
    (hpos : 0 ≤ balance) :
    getBitcoinAmount all ticker price true maxAmount ≤ (2000 * balance + 1001) / 2002 := by
  have hquotient : toBitcoin balance / (1 + serverFeeRate) * coin
      = ((1000 * balance : ℤ) : ℚ) / (1001 : ℤ) := by
    unfold toBitcoin serverFeeRate
    have := coin_pos.ne'
    push_cast
    field_simp
    norm_num
  calc getBitcoinAmount all ticker price true maxAmount
      ≤ fromBitcoin (toBitcoin balance / (1 + serverFeeRate)) := by
        simp only [getBitcoinAmount, if_true, hwallet]
        exact fromBitcoin_mono ((min_le_left _ _).trans (min_le_left _ _))
    _ = (2 * (1000 * balance) + 1001) / (2 * 1001) := by
        rw [fromBitcoin, hquotient, roundAway_div (by omega) (by norm_num)]
    _ = (2000 * balance + 1001) / 2002 := by omega

/-- For an amount up to the rounded quotient, the balance covers it with its fee exactly if the fee
fits. -/
theorem covers_fee_iff {balance amount : ℤ} (hmin : 0 ≤ amount)
    (hmax : amount ≤ (2000 * balance + 1001) / 2002) :
    amount + getServerFee amount ≤ balance ↔ FeeFits balance amount := by
  -- the balance is a multiple of 1001 and a rest, which the fee of the quotient is rounded by
  obtain ⟨share, rest, hbalance, hlow, hhigh⟩ :
      ∃ share rest : ℤ, balance = 1001 * share + rest ∧ -500 ≤ rest ∧ rest ≤ 500 :=
    ⟨(2 * balance + 1001) / 2002, balance - 1001 * ((2 * balance + 1001) / 2002), by omega, by omega,
      by omega⟩
  have hquotient : (2000 * balance + 1001) / 2002 = 1000 * share + rest := by omega
  rw [hquotient] at hmax
  have hfloor : balance / 1001 = if rest < 0 then share - 1 else share := by split <;> omega
  rw [getServerFee_eq hmin]
  unfold FeeFits minServerFee
  rcases lt_or_ge rest 0 with hneg | hpos
  · rw [hfloor, if_pos hneg]
    omega
  · rw [hfloor, if_neg (not_lt.mpr hpos)]
    omega

/-! ### The asset -/

/-- Rounding adds at most a half. -/
theorem le_add_half_of_le_roundAway {q : ℚ} {n : ℤ} (hn : 0 < n) (h : n ≤ roundAway q) :
    (n : ℚ) - 1 / 2 ≤ q := by
  have hq : 0 ≤ q := by
    by_contra hneg
    have hle : roundAway q ≤ roundAway 0 := roundAway_mono (not_le.mp hneg).le
    have hzero : roundAway 0 = 0 := by norm_num [roundAway]
    omega
  rw [roundAway_of_nonneg hq, Int.le_floor] at h
  linarith

/-- The amount does not exceed what the asset's balance is worth at the price, up to rounding. -/
theorem getBitcoinAmount_recv_le {all : AllBalances} {ticker : DealerTicker} {price : ℚ}
    {maxAmount : Bool} {balance amount : ℤ}
    (hwallet : (all.wallet ticker).getD 0 = toBitcoin balance) (hpos : 0 < amount)
    (h : amount ≤ getBitcoinAmount all ticker price false maxAmount) :
    (amount : ℚ) - 1 / 2
      ≤ balance * (if maxAmount then 1 else 1 / (1 + extraAssetUtxoFraction)) / price := by
  simp only [getBitcoinAmount, Bool.false_eq_true, if_false, hwallet] at h
  set d : ℚ := if maxAmount = true then 1 else 1 / (1 + extraAssetUtxoFraction)
  have hle : amount ≤ roundAway (toBitcoin balance * d / price * coin) := by
    refine h.trans ?_
    show fromBitcoin _ ≤ fromBitcoin _
    exact fromBitcoin_mono ((min_le_left _ _).trans (min_le_left _ _))
  have hvalue : toBitcoin balance * d / price * coin = balance * d / price := by
    unfold toBitcoin
    have := coin_pos.ne'
    field_simp
  rw [hvalue] at hle
  exact le_add_half_of_le_roundAway hpos hle

/-- Eight decimals are at least as many as an asset has. -/
theorem pow_precision_le {precision : ℕ} (h : precision ≤ 8) : (10 : ℚ) ^ precision ≤ coin := by
  have hle : (10 : ℚ) ^ precision ≤ 10 ^ 8 := pow_le_pow_right₀ (by norm_num) h
  calc (10 : ℚ) ^ precision ≤ 10 ^ 8 := hle
    _ = coin := by norm_num [coin]

/-- A submitted order leaves a reserve of the asset, which is more than the rounding takes. -/
theorem submitted_asset_le {balance amount : ℤ} {price : ℚ} {precision : ℕ} (hbalance : 0 ≤ balance)
    (hmin : 10000 ≤ amount) (hprecision : precision ≤ 8)
    (h : (amount : ℚ) - 1 / 2 ≤ balance * (1 / (1 + extraAssetUtxoFraction)) / price) :
    assetAmount amount price precision ≤ balance := by
  have hamount : (10000 : ℚ) ≤ amount := by exact_mod_cast hmin
  have hbalance' : (0 : ℚ) ≤ balance := by exact_mod_cast hbalance
  -- the reserve is three percent of the balance
  have hd : (1 : ℚ) / (1 + extraAssetUtxoFraction) = 100 / 103 := by
    norm_num [extraAssetUtxoFraction]
  rw [hd] at h
  -- a price that is not positive would leave nothing to submit
  have hprice : 0 < price := by
    by_contra hneg
    have : balance * (100 / 103) / price ≤ 0 :=
      div_nonpos_of_nonneg_of_nonpos (by positivity) (not_lt.mp hneg)
    linarith
  rw [le_div_iff₀ hprice] at h
  -- the amount is worth at most the balance, and the rounding takes less than the reserve
  have hworth : (amount : ℚ) * price ≤ balance := by nlinarith
  -- the precision of the asset only makes the amount smaller
  have hscale : toBitcoin amount * price * 10 ^ precision ≤ balance := by
    have hshare : (10 : ℚ) ^ precision / coin ≤ 1 := by
      rw [div_le_one coin_pos]
      exact pow_precision_le hprecision
    calc toBitcoin amount * price * 10 ^ precision
        = amount * price * (10 ^ precision / coin) := by unfold toBitcoin; ring
      _ ≤ amount * price * 1 := by
          apply mul_le_mul_of_nonneg_left hshare
          positivity
      _ ≤ balance := by rwa [mul_one]
  calc assetAmount amount price precision ≤ roundAway balance := roundAway_mono hscale
    _ = balance := by
      rw [roundAway_of_nonneg hbalance', Int.floor_eq_iff]
      constructor <;> linarith

/-- The price of an order that is taken is what the dealer gets after the fee, so that the asset
suffices. -/
theorem taken_asset_le {balance amount fee asset : ℤ} {precision : ℕ} (hasset : 0 < asset)
    (hfee : 1 ≤ fee) (hnet : 0 < amount - fee) (hprecision : precision ≤ 8)
    (h : (amount : ℚ) - 1 / 2
      ≤ balance / (assetFloatAmount asset precision / toBitcoin (amount - fee))) :
    asset ≤ balance := by
  have hasset' : (0 : ℚ) < asset := by exact_mod_cast hasset
  have hnet' : (0 : ℚ) < ((amount - fee : ℤ) : ℚ) := by exact_mod_cast hnet
  have hfee' : (1 : ℚ) ≤ fee := by exact_mod_cast hfee
  have hscale := pow_precision_le hprecision
  have hten : (0 : ℚ) < 10 ^ precision := by positivity
  have hprice : balance / (assetFloatAmount asset precision / toBitcoin (amount - fee))
      = balance * ((amount - fee : ℤ) : ℚ) * (10 ^ precision / coin) / asset := by
    unfold assetFloatAmount toBitcoin
    have := coin_pos.ne'
    field_simp
  rw [hprice, le_div_iff₀ hasset'] at h
  -- the fee is at least one satoshi, which is more than what rounding may add
  have hhalf : ((amount - fee : ℤ) : ℚ) ≤ amount - 1 / 2 := by
    push_cast
    linarith
  have hshare : (10 : ℚ) ^ precision / coin ≤ 1 := by
    rw [div_le_one coin_pos]
    exact hscale
  have hbalance : (0 : ℚ) < balance := by
    by_contra hneg
    have hle : (balance : ℚ) * ((amount - fee : ℤ) : ℚ) * (10 ^ precision / coin) ≤ 0 := by
      apply mul_nonpos_of_nonpos_of_nonneg _ (div_nonneg hten.le coin_pos.le)
      exact mul_nonpos_of_nonpos_of_nonneg (not_lt.mp hneg) hnet'.le
    nlinarith
  have hle : (asset : ℚ) * ((amount - fee : ℤ) : ℚ) ≤ balance * ((amount - fee : ℤ) : ℚ) := by
    calc (asset : ℚ) * ((amount - fee : ℤ) : ℚ) ≤ asset * (amount - 1 / 2) := by gcongr
      _ = (amount - 1 / 2) * asset := by ring
      _ ≤ balance * ((amount - fee : ℤ) : ℚ) * (10 ^ precision / coin) := h
      _ ≤ balance * ((amount - fee : ℤ) : ℚ) * 1 := by gcongr
      _ = balance * ((amount - fee : ℤ) : ℚ) := mul_one _
  exact_mod_cast le_of_mul_le_mul_right hle hnet'

/-! ### Orders of the dealer -/

section

variable {params : Params} {assets : List Asset} {indexPrices : IndexPrices} {all : AllBalances}
  {utxos : Utxos}

/-- What is submitted: the normal amount at the price of the offer. -/
theorem SendsSubmit.spec {key : OwnOrderKey} {amount : ℤ} {price : ℚ}
    (h : SendsSubmit params assets indexPrices all utxos key amount price) :
    params.bitcoinAmountMin ≤ amount
      ∧ amount ≤ getBitcoinAmount all key.ticker price key.sendBitcoins false := by
  obtain ⟨own, own', trace, r, reply, hrun, hmem⟩ := h
  obtain ⟨index, -, -, hmin, hamount⟩ := updatePrice_submits hrun hmem
  rw [signedAmount_injective _ hamount]
  exact ⟨hmin, min_le_left _ _⟩

/-- An order that is taken is at most what the balances allow at its price after the fee. -/
theorem takeOrder_ok {details : Details} {interest : ℚ}
    (h : takeOrder params assets details all indexPrices interest = .ok ()) :
    ∃ asset ticker, asset ∈ assets ∧ asset.assetId = details.asset
      ∧ DealerTicker.ofName asset.ticker = some ticker
      ∧ params.bitcoinAmountMin ≤ details.bitcoinAmount
      ∧ 0 < assetFloatAmount details.assetAmount asset.precision
          / toBitcoin details.actualBitcoinAmount
      ∧ details.bitcoinAmount ≤ getBitcoinAmount all ticker
          (assetFloatAmount details.assetAmount asset.precision
            / toBitcoin details.actualBitcoinAmount) details.sendBitcoins true := by
  simp only [takeOrder, bind_eq_ok, ensure_eq_ok, unwrap_eq_ok, okOr_eq_ok, assert_eq_ok,
    decide_eq_true_eq] at h
  obtain ⟨_, hmin, _, _, asset, hasset, ticker, hticker, _, hprice, index, _, dealerPrice, _, h⟩ := h
  have hfits : details.bitcoinAmount ≤ getBitcoinAmount all ticker
      (assetFloatAmount details.assetAmount asset.precision
        / toBitcoin details.actualBitcoinAmount) details.sendBitcoins true := by
    split at h
    all_goals
      simp only [bind_eq_ok, ensure_eq_ok, decide_eq_true_eq] at h
      obtain ⟨_, -, hle⟩ := h
      exact hle
  refine ⟨asset, ticker, List.mem_of_find?_eq_some hasset, ?_, hticker, hmin, hprice, hfits⟩
  simpa using List.find?_some hasset

/-- Where the dealer sends bitcoins, the amount is bounded by the balance only. -/
theorem Dealt.bitcoins (accepted : params.Accepted) (backed : Backed params assets all utxos)
    {details : Details} (h : Dealt params assets indexPrices all utxos details)
    (hside : details.sendBitcoins = true) :
    0 ≤ details.bitcoinAmount
      ∧ details.bitcoinAmount
        ≤ (2000 * coinTotal utxos params.bitcoinAssetId + 1001) / 2002
      ∧ details.serverFee = getServerFee details.bitcoinAmount := by
  have hleast := accepted.min_sat
  have hpos := coinTotal_nonneg backed.nonneg params.bitcoinAssetId
  cases h with
  | submitted key asset amount price known sent =>
    obtain ⟨hmin, hmax⟩ := sent.spec
    have hside : key.sendBitcoins = true := hside
    rw [hside] at hmax
    exact ⟨by simp only [orderDetails]; omega,
      hmax.trans (getBitcoinAmount_send_le backed.bitcoin hpos), rfl⟩
  | taken details interest taken fee =>
    obtain ⟨asset, ticker, -, -, -, hmin, -, hmax⟩ := takeOrder_ok taken
    rw [hside] at hmax
    exact ⟨by omega, hmax.trans (getBitcoinAmount_send_le backed.bitcoin hpos), fee⟩

/-- Where the dealer sends the asset, the coins are there. -/
theorem Dealt.asset (accepted : params.Accepted) (backed : Backed params assets all utxos)
    {details : Details} (h : Dealt params assets indexPrices all utxos details)
    (hside : details.sendBitcoins = false) :
    details.assetAmount ≤ coinTotal utxos details.asset := by
  have hleast := accepted.min_sat
  cases h with
  | submitted key asset amount price known sent =>
    obtain ⟨hmin, hmax⟩ := sent.spec
    have hside : key.sendBitcoins = false := hside
    rw [hside] at hmax
    have hmem := List.mem_of_find?_eq_some known
    have hticker : asset.ticker = key.ticker.name := by simpa using List.find?_some known
    have hwallet := backed.asset asset hmem key.ticker (hticker ▸ ofName_name key.ticker)
    have hle := getBitcoinAmount_recv_le hwallet (by omega) hmax
    rw [if_neg Bool.false_ne_true] at hle
    exact submitted_asset_le (coinTotal_nonneg backed.nonneg _) (by omega)
      (backed.precision asset hmem) hle
  | taken details interest taken fee =>
    obtain ⟨asset, ticker, hmem, hid, hticker, hmin, hprice, hmax⟩ := takeOrder_ok taken
    have hnet := getServerFee_lt (hleast.trans hmin)
    have hfee := getServerFee_pos details.bitcoinAmount
    rw [← fee] at hnet hfee
    have hactual : details.actualBitcoinAmount = details.bitcoinAmount - details.serverFee := by
      rw [Details.actualBitcoinAmount, hside]
      rfl
    rw [hside] at hmax
    rw [hactual] at hmax hprice
    have hpaid : 0 < toBitcoin (details.bitcoinAmount - details.serverFee) :=
      div_pos (by exact_mod_cast sub_pos.mpr hnet) coin_pos
    -- a positive price means that the order has an amount of the asset
    have hgiven : 0 < details.assetAmount := by
      have hq := (div_pos_iff_of_pos_right hpaid).mp hprice
      have hq := (div_pos_iff_of_pos_right (by positivity)).mp hq
      exact_mod_cast hq
    have hwallet := backed.asset asset hmem ticker hticker
    have hle := getBitcoinAmount_recv_le hwallet (by omega) hmax
    rw [if_pos rfl, mul_one] at hle
    rw [← hid]
    exact taken_asset_le hgiven (by omega) (by omega) (backed.precision asset hmem) hle

end

/-- For every order that the dealer submits, takes or signs: the coins cover what it sends if and
only if it sends the asset, or the fee fits. -/
theorem getPset_funded_iff (params : Params) (assets : List Asset) (indexPrices : IndexPrices)
    (all : AllBalances) (utxos : Utxos) (details : Details) (extraAssetUtxo : Bool)
    (accepted : params.Accepted) (backed : Backed params assets all utxos)
    (dealt : Dealt params assets indexPrices all utxos details) :
    getPset params details utxos extraAssetUtxo ≠ .error (.error ())
      ↔ (details.sendBitcoins = true →
        FeeFits (coinTotal utxos params.bitcoinAssetId) details.bitcoinAmount) := by
  rw [Ne, getPset_error_iff, not_lt]
  cases hside : details.sendBitcoins with
  | true =>
    obtain ⟨hmin, hmax, hfee⟩ := dealt.bitcoins accepted backed hside
    rw [hfee]
    simpa using covers_fee_iff hmin hmax
  | false => simpa using dealt.asset accepted backed hside

namespace Sample

/-- A wallet of one bitcoin coin. -/
def bitcoinWallet (amount : ℤ) : Utxos :=
  (∅ : Utxos).insert ⟨"coin", 0⟩
    { txid := "coin", vout := 0, asset := ⟨"bitcoin"⟩, amount := amount, reserve := none }

/-- A balance that is the sum of the coins is backed. -/
theorem backed {amount : ℤ} (h : 0 ≤ amount) :
    Backed params assets (balances (toBitcoin amount)) (bitcoinWallet amount) where
  nonneg := by
    intro u hu
    have hvalues : (bitcoinWallet amount).values = [⟨"coin", 0, ⟨"bitcoin"⟩, amount, none⟩] := rfl
    rw [hvalues, List.mem_singleton] at hu
    -- the one coin is the bitcoin that the dealer has
    rw [hu]
    exact h
  bitcoin := by
    have htotal : coinTotal (bitcoinWallet amount) params.bitcoinAssetId = amount + 0 := rfl
    rw [htotal, add_zero]
    rfl
  asset := by
    -- of the other asset there is neither a coin nor a balance
    intro asset hasset ticker hticker
    have htotal : coinTotal (bitcoinWallet amount) ⟨"bitcoin"⟩ = amount + 0 := rfl
    have hnone : coinTotal (bitcoinWallet amount) ⟨"tether"⟩ = 0 := rfl
    simp only [assets, List.mem_cons, List.not_mem_nil, or_false] at hasset
    obtain rfl | rfl := hasset
    · obtain rfl : DealerTicker.lbtc = ticker := Option.some.inj hticker
      rw [htotal, add_zero]
      rfl
    · obtain rfl : DealerTicker.usdt = ticker := Option.some.inj hticker
      show (0 : ℚ) = toBitcoin (coinTotal (bitcoinWallet amount) ⟨"tether"⟩)
      rw [hnone]
      norm_num [toBitcoin]
  precision := by decide

/-- What the dealer submits with a small balance. -/
theorem dealt_small :
    Dealt params assets indexPrices (balances (toBitcoin 10510)) (bitcoinWallet 10510)
      (orderDetails tether true 10500 (offerPrice params ⟨20000, 20000⟩ true)) :=
  .submitted sellTether tether 10500 (offerPrice params ⟨20000, 20000⟩ true) rfl
    ⟨none, none, [.submit (signedAmount true 10500) (offerPrice params ⟨20000, 20000⟩ true) none],
      noReply, none, by decide +kernel, by decide +kernel⟩

/-- What the dealer submits with two bitcoins. -/
theorem dealt_large :
    Dealt params assets indexPrices (balances (toBitcoin 200000000)) (bitcoinWallet 200000000)
      (orderDetails tether true 100000000 (offerPrice params ⟨20000, 20000⟩ true)) :=
  .submitted sellTether tether 100000000 (offerPrice params ⟨20000, 20000⟩ true) rfl
    ⟨none, none, [.submit (signedAmount true 100000000) (offerPrice params ⟨20000, 20000⟩ true) none],
      noReply, none, by decide +kernel, by decide +kernel⟩

end Sample

/-- Two bitcoins pay for an order of one. -/
theorem getPset_funded_large :
    getPset Sample.params (orderDetails Sample.tether true 100000000
        (offerPrice Sample.params ⟨20000, 20000⟩ true)) (Sample.bitcoinWallet 200000000) true
        ≠ .error (.error ())
      ↔ (true = true → FeeFits (coinTotal (Sample.bitcoinWallet 200000000) ⟨"bitcoin"⟩) 100000000) :=
  getPset_funded_iff Sample.params Sample.assets Sample.indexPrices
    (Sample.balances (toBitcoin 200000000)) (Sample.bitcoinWallet 200000000) _ true
    Sample.params_accepted (Sample.backed (by decide)) Sample.dealt_large

/-- A wallet with 10510 satoshis submits an order of 10500, which costs 11000 with the least fee. -/
theorem submitted_order_unfunded :
    ¬ ∀ (params : Params) (assets : List Asset) (indexPrices : IndexPrices) (all : AllBalances)
        (utxos : Utxos) (details : Details) (extraAssetUtxo : Bool), params.Accepted →
      Backed params assets all utxos → Dealt params assets indexPrices all utxos details →
      getPset params details utxos extraAssetUtxo ≠ .error (.error ()) := by
  intro hall
  have hfunded := hall Sample.params Sample.assets Sample.indexPrices
    (Sample.balances (toBitcoin 10510)) (Sample.bitcoinWallet 10510) _ true Sample.params_accepted
    (Sample.backed (by decide)) Sample.dealt_small
  revert hfunded
  rw [Ne, getPset_error_iff]
  decide +kernel

end SideSwap.Dealer
