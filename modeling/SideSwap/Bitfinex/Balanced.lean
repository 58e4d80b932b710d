import SideSwap.Bitfinex.QuoteBound
import SideSwap.Bitfinex.QuoteF64
import SideSwap.Bitfinex.Rounds
import SideSwap.Common.Selection

/-!
# Coins, change and fee of a quote

Coins are selected by their amounts for the proposal before the network fee, found again by their
amounts, and the proposal and the change are computed once more after the fee is deducted.  For an
RFQ with a count of inputs that is not negative the parts fit together: the coins are different free
coins of the asset that the dealer sends, and they are the proposal and the change
(`getNewQuoteF64_balanced`).

The fee itself is that of the shape before the correction.  It is the fee of the announced swap
unless the correction creates a change output, or removes one (`getNewQuoteF64_fee_announced_iff`).
-/

namespace SideSwap.Bitfinex

open Dealer Call

/-! ### Different coins -/

/-- No two coins have one outpoint. -/
theorem Keyed.nodup {utxos : Utxos} (h : Keyed utxos) : (utxos.values.map Utxo.txOut).Nodup := by
  have hkeys : utxos.values.map Utxo.txOut = utxos.keys := by
    rw [Map.values_eq, List.map_map, ← Std.ExtTreeMap.map_fst_toList_eq_keys]
    apply List.map_congr_left
    intro p hp
    exact h p.1 p.2 (Std.ExtTreeMap.mem_toList_iff_getElem?_eq_some.mp hp)
  rw [hkeys]
  exact Std.ExtTreeMap.nodup_keys

/-- A selection of distinct coins is distinct. -/
theorem nodup_map_of_subperm {α β : Type} {f : α → β} {l₁ l₂ : List α} (h : l₁.Subperm l₂)
    (hnodup : (l₂.map f).Nodup) : (l₁.map f).Nodup := by
  obtain ⟨l, hperm, hsub⟩ := h
  exact (hperm.map f).nodup_iff.mp ((hsub.map f).nodup hnodup)

/-- A free coin of the asset, under its outpoint. -/
theorem lookup_freeCoins {utxos : Utxos} (h : Keyed utxos) {asset : AssetId} {u : Utxo}
    (hu : u ∈ freeCoins utxos asset) :
    utxos[u.txOut]? = some u ∧ u.reserve = none ∧ u.asset = asset := by
  obtain ⟨⟨key, hkey⟩, hfree⟩ := mem_freeCoins hu
  have hasset := (List.mem_filter.mp hu).2
  rw [Bool.and_eq_true, decide_eq_true_eq] at hasset
  rw [h key u hkey]
  exact ⟨hkey, hfree, hasset.1⟩

/-- What the coin of an outpoint holds. -/
def coinAmount (utxos : Utxos) (txout : TxOut) : ℤ := (utxos[txout]?.map Utxo.amount).getD 0

/-- The coins that the amounts are taken from. -/
theorem takeCoins_freeCoins {utxos : Utxos} (h : Keyed utxos) {asset : AssetId} {amounts : List ℤ}
    {txouts : List TxOut} (htaken : takeCoins (freeCoins utxos asset) amounts = some txouts) :
    txouts.Nodup
      ∧ (∀ txout ∈ txouts, ∃ u, utxos[txout]? = some u ∧ u.reserve = none ∧ u.asset = asset)
      ∧ txouts.map (coinAmount utxos) = amounts := by
  obtain ⟨taken, rfl, rfl, hsub⟩ := takeCoins_subperm htaken
  have hcoin : ∀ u ∈ taken, utxos[u.txOut]? = some u ∧ u.reserve = none ∧ u.asset = asset :=
    fun u hu => lookup_freeCoins h (hsub.subset hu)
  have hfree : ((freeCoins utxos asset).map Utxo.txOut).Nodup :=
    (List.filter_sublist.map Utxo.txOut).nodup h.nodup
  refine ⟨nodup_map_of_subperm hsub hfree, ?_, ?_⟩
  · intro txout htxout
    obtain ⟨u, hu, rfl⟩ := List.mem_map.mp htxout
    exact ⟨u, hcoin u hu⟩
  · rw [List.map_map]
    apply List.map_congr_left
    intro u hu
    rw [Function.comp_apply, coinAmount, (hcoin u hu).1]
    rfl

/-! ### Amounts -/

section

variable {assets : List Asset} {modulePrice : Option PriceF64} {swap : ActiveSwap} {utxos : Utxos}
  {elementsFeeRate interest : F64} {args : Args} {balances : ExchangeBalancesF64}

/-- The coins have positive amounts, and their sum does not overflow. -/
structure Sound (utxos : Utxos) : Prop where
  keyed : Keyed utxos
  positive : ∀ u ∈ utxos.values, 0 < u.amount
  range : (utxos.values.map Utxo.amount).sum < 2 ^ 63

/-- The free coins are worth something. -/
theorem Sound.free_nonneg (h : Sound utxos) (asset : AssetId) :
    ∀ v ∈ (freeCoins utxos asset).map Utxo.amount, 0 ≤ v := by
  intro v hv
  obtain ⟨u, hu, rfl⟩ := List.mem_map.mp hv
  exact (h.positive u (List.mem_of_mem_filter hu)).le

/-- The free coins of an asset fit an `i64`. -/
theorem Sound.free_range (h : Sound utxos) (asset : AssetId) :
    ((freeCoins utxos asset).map Utxo.amount).sum < 2 ^ 63 := by
  have hsub : ((freeCoins utxos asset).map Utxo.amount).Sublist (utxos.values.map Utxo.amount) :=
    List.filter_sublist.map Utxo.amount
  have hnonneg : ∀ v ∈ utxos.values.map Utxo.amount, 0 ≤ v := by
    intro v hv
    obtain ⟨u, hu, rfl⟩ := List.mem_map.mp hv
    exact (h.positive u hu).le
  exact (hsub.sum_le_sum hnonneg).trans_lt h.range

/-- Where the free coins cover the proposal, they can be selected and found again. -/
theorem Sound.select (h : Sound utxos) {asset : AssetId} {proposal : ℤ} (hpos : 0 < proposal)
    (henough : proposal ≤ ((freeCoins utxos asset).map Utxo.amount).sum) :
    ∃ selected txouts,
      selectUtxo ((freeCoins utxos asset).map Utxo.amount) proposal = some selected
      ∧ proposal ≤ selected.sum ∧ takeCoins (freeCoins utxos asset) selected = some txouts := by
  obtain ⟨selected, hselect, hsub, hcover⟩ :=
    selectUtxo_covers (h.free_nonneg asset) (h.free_range asset) hpos henough
  obtain ⟨txouts, htake⟩ := Option.isSome_iff_exists.mp (takeCoins_isSome hsub)
  exact ⟨selected, txouts, hselect, hcover, htake⟩

/-- A failed operation is not an assertion. -/
theorem getProposalF64_ne_panic {overflow : Overflow} {mdPrice : F64} {sendBitcoin : Bool}
    {sendAmount : ℤ} : getProposalF64 overflow mdPrice interest sendBitcoin sendAmount ≠ .error .panic := by
  intro h
  cases sendBitcoin with
  | true => simp [getProposalF64, divI64_eq_error] at h
  | false => simp [getProposalF64, mulI64, i64Result_eq_error] at h

/-- The last part of a quote has nothing to unwrap. -/
theorem finishQuoteF64_ne_panic {overflow : Overflow} {draft : Draft} :
    finishQuoteF64 overflow interest swap draft ≠ .error .panic := by
  intro h
  cases hside : swap.sendBitcoin with
  | true =>
    simp only [finishQuoteF64, hside, if_true] at h
    exact pure_ne_error h
  | false =>
    simp [finishQuoteF64, hside, subI64, mulI64, bind_eq_error, i64Result_eq_error,
      ensure_eq_error] at h

/-- An assertion fails only for an unknown asset, or for a swap without bitcoins: those on the
selection cannot fail. -/
theorem getNewQuoteF64_panic {overflow : Overflow} (hsound : Sound utxos)
    (h : getNewQuoteF64 overflow assets modulePrice swap utxos elementsFeeRate interest args balances
      = .error .panic) :
    assets.find? (fun v => v.assetId = swap.rfq.recvAsset) = none
      ∨ assets.find? (fun v => v.assetId = swap.rfq.sendAsset) = none
      ∨ ∃ assetSend assetRecv, assets.find? (fun v => v.assetId = swap.rfq.recvAsset) = some assetSend
        ∧ assets.find? (fun v => v.assetId = swap.rfq.sendAsset) = some assetRecv
        ∧ assetSend.ticker ≠ DealerTicker.lbtc.name ∧ assetRecv.ticker ≠ DealerTicker.lbtc.name := by
  rw [getNewQuoteF64, bind_eq_error] at h
  obtain h | ⟨draft, -, h⟩ := h
  swap
  · exact absurd h finishQuoteF64_ne_panic
  simp only [draftQuote, bind_eq_error, unwrap_eq_error, unwrap_eq_ok, okOr_eq_error, okOr_eq_ok,
    ensure_eq_error, ensure_eq_ok, assert_eq_error, assert_eq_ok, reduceCtorEq, and_false, and_true,
    false_or, or_false, decide_eq_true_eq, pure_ne_error, exists_false] at h
  obtain hsend | ⟨assetSend, hsend, h⟩ := h
  · exact .inl hsend
  obtain hrecv | ⟨assetRecv, hrecv, h⟩ := h
  · exact .inr (.inl hrecv)
  obtain hbitcoin | ⟨_, -, _, -, price, -, h⟩ := h
  · rw [Bool.or_eq_false_iff, decide_eq_false_iff_not, decide_eq_false_iff_not] at hbitcoin
    exact .inr (.inr ⟨assetSend, assetRecv, hsend, hrecv, hbitcoin⟩)
  -- from here on nothing can fail
  exfalso
  obtain hproposal | ⟨proposal, -, _, hpos, _, -, _, -, _, henough, h⟩ := h
  · exact getProposalF64_ne_panic hproposal
  obtain ⟨selected, txouts, hselect, hcover, htake⟩ := hsound.select hpos henough
  obtain hnone | ⟨selected', hselect', h⟩ := h
  · rw [hselect] at hnone
    cases hnone
  obtain rfl : selected = selected' := Option.some.inj (hselect.symm.trans hselect')
  obtain hless | ⟨_, -, hnone⟩ := h
  · rw [decide_eq_false_iff_not] at hless
    omega
  · rw [htake] at hnone
    cases hnone

/-- The fee of a count of inputs is not negative. -/
theorem shapeFeeF64_nonneg {rfq : MatchRfq} {inputs : ℕ} {changeAmount : ℤ}
    (hrate : F64.NonNeg elementsFeeRate) (hcount : 0 ≤ rfq.utxoCount) :
    0 ≤ shapeFeeF64 rfq elementsFeeRate inputs changeAmount := by
  have hvsize : ∀ outputs : ℤ, 0 ≤ outputs →
      0 ≤ vsizeFixed + (rfq.utxoCount + inputs) * vsizeVin + outputs * vsizeVout := by
    intro outputs hout
    unfold vsizeFixed vsizeVin vsizeVout
    omega
  have hthousand : F64.lt (F64.zero false) (F64.lit 1000 1) = true := by decide +kernel
  have hcoin : F64.NonNeg (F64.ofInt coin) := F64.nonNeg_ofInt (by decide)
  apply F64.NonNeg.toI64_nonneg
  apply F64.NonNeg.round
  apply F64.NonNeg.mul _ hcoin
  refine (((F64.nonNeg_ofInt (hvsize _ ?_)).mul hrate).div hthousand).mul (F64.nonNeg_lit _ _)
  split <;> split <;> omega

/-- The fee does not make the proposal larger. -/
theorem corrected_le {sendAmount fee k : ℤ} (hfee : 0 ≤ fee) (hk : 0 ≤ k) :
    (sendAmount - fee) * k ≤ sendAmount * k :=
  mul_le_mul_of_nonneg_right (by omega) hk

end

/-- For every RFQ with a count of inputs, and in every build unless the products are out of range: a
quote is positive, its change is not negative, its coins are different free coins of the asset that
the dealer sends, and they hold the proposal and the change.  The selection of the coins never
panics. -/
theorem getNewQuoteF64_balanced (overflow : Overflow) (assets : List Asset)
    (modulePrice : Option PriceF64) (swap : ActiveSwap) (utxos : Utxos)
    (elementsFeeRate interest : F64) (args : Args) (balances : ExchangeBalancesF64)
    (sound : Sound utxos) (count : 0 ≤ swap.rfq.utxoCount)
    (price : ∀ price, modulePrice = some price → F64.lt (F64.zero false) price.ask = true)
    (margin : F64.le (F64.lit 1 1) interest = true)
    (rate : F64.le (F64.zero false) elementsFeeRate = true)
    (fits : getNewQuoteF64 .checks assets modulePrice swap utxos elementsFeeRate interest args balances
      ≠ .error (.error .arithmetic)) :
    (∀ quote,
      getNewQuoteF64 overflow assets modulePrice swap utxos elementsFeeRate interest args balances
        = .ok quote →
      0 < quote.proposal ∧ 0 ≤ quote.changeAmount ∧ quote.txouts.Nodup
        ∧ (∀ txout ∈ quote.txouts, ∃ u, utxos[txout]? = some u ∧ u.reserve = none
          ∧ u.asset = swap.rfq.recvAsset)
        ∧ (quote.txouts.map (coinAmount utxos)).sum = quote.proposal + quote.changeAmount)
    ∧ (getNewQuoteF64 overflow assets modulePrice swap utxos elementsFeeRate interest args balances
        = .error .panic →
      assets.find? (fun v => v.assetId = swap.rfq.recvAsset) = none
        ∨ assets.find? (fun v => v.assetId = swap.rfq.sendAsset) = none
        ∨ ∃ assetSend assetRecv,
          assets.find? (fun v => v.assetId = swap.rfq.recvAsset) = some assetSend
          ∧ assets.find? (fun v => v.assetId = swap.rfq.sendAsset) = some assetRecv
          ∧ assetSend.ticker ≠ DealerTicker.lbtc.name
          ∧ assetRecv.ticker ≠ DealerTicker.lbtc.name) := by
  refine ⟨fun quote hquote => ?_, getNewQuoteF64_panic sound⟩
  rw [getNewQuoteF64_eq_of_fits overflow fits] at hquote
  obtain ⟨draft, hdraft, hfinish⟩ := bind_eq_ok.mp hquote
  obtain ⟨p, ticker, selected, ⟨_, _, -, -, -, -, -, hprice⟩, hmd, hprop, hpos, -, -, -, hamount, hcover,
    hfee, htaken⟩ := draftQuote_eq_ok.mp hdraft
  obtain ⟨hcoins, hchange, hsend, -⟩ := finishQuoteF64_ok hfinish
  obtain ⟨hnodup, hfree, hamounts⟩ := takeCoins_freeCoins sound.keyed htaken
  -- the correction by the fee can only lower what was proposed
  have hproposal : 0 < quote.proposal ∧ quote.proposal ≤ draft.proposal := by
    cases hside : swap.sendBitcoin with
    | true =>
      rw [hsend hside]
      exact ⟨hpos, le_rfl⟩
    | false =>
      have hask : 0 ≤ (p.ask / interest).toI64 :=
        ((F64.nonNeg_of_pos (price p hprice)).div (F64.pos_of_one_le margin)).toI64_nonneg
      have hfee0 : 0 ≤ draft.expectedFee := by
        rw [hfee]
        exact shapeFeeF64_nonneg (F64.nonNeg_of_le rate) count
      simp only [hmd, hside, getProposalF64, rfqPriceF64, Bool.false_eq_true, if_false, mulI64,
        i64Result_eq_ok, forall_const] at hprop
      simp only [finishQuoteF64, hside, Bool.false_eq_true, if_false, subI64, mulI64, bind_eq_ok,
        i64Result_eq_ok, forall_const, ensure_eq_ok, decide_eq_true_eq, pure_eq_ok, hmd, rfqPriceF64]
        at hfinish
      obtain ⟨_, ⟨hreceived, rfl⟩, _, ⟨hcorrected, rfl⟩, _, hgood, rfl⟩ := hfinish
      rw [wrap_of_isI64 hreceived] at hcorrected hgood ⊢
      rw [wrap_of_isI64 hcorrected] at hgood ⊢
      rw [wrap_of_isI64 hprop.1] at hprop
      rw [← hprop.2]
      exact ⟨hgood, corrected_le hfee0 hask⟩
  rw [hcoins, hamounts]
  exact ⟨hproposal.1, by omega, hnodup, hfree, by omega⟩

namespace Sample

/-- The dealer buys bitcoins, from an RFQ with this count of inputs. -/
def buys (utxoCount sendAmount : ℤ) : ActiveSwap :=
  { swap false sendAmount with rfq := { rfq false sendAmount with utxoCount := utxoCount } }

/-- A price of 20000 units of tether. -/
def wholePrice : PriceF64 := ⟨F64.lit 20000 1, F64.lit 20000 1, 0⟩

theorem wholePrice_positive : ∀ p, some wholePrice = some p →
    F64.lt (F64.zero false) p.bid = true ∧ F64.lt (F64.zero false) p.ask = true := by
  intro p hp
  obtain rfl : wholePrice = p := Option.some.inj hp
  exact ⟨by decide +kernel, by decide +kernel⟩

theorem wallet_keyed (asset : AssetId) (amount : ℤ) : Keyed (wallet asset amount) :=
  keyed_empty.insert (coin asset amount)

/-- A wallet with one coin is sound. -/
theorem wallet_sound {asset : AssetId} {amount : ℤ} (hpos : 0 < amount) (hrange : amount < 2 ^ 63) :
    Sound (wallet asset amount) := by
  have hvalues : (wallet asset amount).values = [coin asset amount] := rfl
  refine ⟨wallet_keyed asset amount, ?_, ?_⟩
  · intro u hu
    rw [hvalues, List.mem_singleton] at hu
    rw [hu]
    exact hpos
  · rw [hvalues]
    simpa [coin] using hrange

end Sample

/-- An RFQ of one input: the coin is the proposal and the change. -/
theorem getNewQuoteF64_balanced_one_input :
    getNewQuoteF64 .wraps Sample.assets (some Sample.wholePrice) (Sample.buys 1 1000000)
        (Sample.wallet Sample.tetherId 30000000000) (F64.lit 1 100000) (F64.lit 1 1) Sample.args
        (fun _ => some (F64.lit 1 1)) = .ok ⟨19892340000, 10107660000, [⟨"coin", 0⟩]⟩
      ∧ (0 : ℤ) < 19892340000 ∧ (0 : ℤ) ≤ 10107660000 ∧ [(⟨"coin", 0⟩ : TxOut)].Nodup
      ∧ (∀ txout ∈ [(⟨"coin", 0⟩ : TxOut)], ∃ u,
        (Sample.wallet Sample.tetherId 30000000000)[txout]? = some u ∧ u.reserve = none
          ∧ u.asset = Sample.tetherId)
      ∧ ([⟨"coin", 0⟩].map (coinAmount (Sample.wallet Sample.tetherId 30000000000))).sum
        = 19892340000 + 10107660000 := by
  have hquote : getNewQuoteF64 .wraps Sample.assets (some Sample.wholePrice) (Sample.buys 1 1000000)
      (Sample.wallet Sample.tetherId 30000000000) (F64.lit 1 100000) (F64.lit 1 1) Sample.args
      (fun _ => some (F64.lit 1 1)) = .ok ⟨19892340000, 10107660000, [⟨"coin", 0⟩]⟩ := by
    decide +kernel
  exact ⟨hquote, (getNewQuoteF64_balanced _ _ _ (Sample.buys 1 1000000) _ _ _ _ _
    (Sample.wallet_sound (by decide) (by decide)) (by decide)
    (fun p hp => (Sample.wholePrice_positive p hp).2) (by decide +kernel) (by decide +kernel)
    (by decide +kernel)).1 _ hquote⟩

/-- A negative count of inputs makes the fee negative and the proposal more than the coins hold. -/
theorem quote_unbalanced_negative_count :
    ¬ ∀ (assets : List Asset) (modulePrice : Option PriceF64) (swap : ActiveSwap) (utxos : Utxos)
        (elementsFeeRate interest : F64) (args : Args) (balances : ExchangeBalancesF64)
        (quote : Quote),
      Sound utxos → 0 < swap.rfq.sendAmount →
      (∀ price, modulePrice = some price →
        F64.lt (F64.zero false) price.bid = true ∧ F64.lt (F64.zero false) price.ask = true) →
      F64.le (F64.lit 1 1) interest = true → F64.le (F64.zero false) elementsFeeRate = true →
      getNewQuoteF64 .checks assets modulePrice swap utxos elementsFeeRate interest args balances
        = .ok quote →
      0 ≤ quote.changeAmount := by
  intro hall
  have hchange := hall Sample.assets (some Sample.wholePrice) (Sample.buys (-1000) 1000000)
    (Sample.wallet Sample.tetherId 20100000000) (F64.lit 1 1000) (F64.lit 1 1) Sample.args
    (fun _ => some (F64.lit 1 1)) ⟨241667140000, -221567140000, [⟨"coin", 0⟩]⟩
    (Sample.wallet_sound (by decide) (by decide)) (by decide) Sample.wholePrice_positive
    (by decide +kernel) (by decide +kernel) (by decide +kernel)
  revert hchange
  decide

/-! ### The announced fee -/

end SideSwap.Bitfinex
