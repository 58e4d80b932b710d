import SideSwap.Gdk.Created

/-!
# Payments

What holds of a transaction that `create_tx` makes on an Elements chain from the wallet's own coins:

* `createTx_balanced`: it spends distinct unspent coins of the wallet, and for each asset these are
  worth as much as its outputs;
* `createTx_pays`: it pays each recipient, its fee, and the rest to the wallet's own addresses, and
  the fee exceeds the estimated one by at most the dust limit;
* `createTx_fewest`: no smaller number of coins of an asset would do;
* `createTx_refuses`: it never panics, and it is refused for want of funds only if an asset is short
  with all its coins taken.

The amounts must be far from the limit of an `u64` (`Modest`).  The first two results come from one
fact: the coins are worth what is requested, the change and the fee together
(`Created.total_amounts`).
-/

namespace SideSwap.Gdk

open Libwally Call

variable {lib : Lib} {parseTx : NetworkId → String → Option BETransaction} {chance : Chance}
  {account : Account}

/-- The results of calls for the elements of a list in another order. -/
theorem mapM_perm {ε α β : Type} {f : α → Call ε β} {l l' : List α} {m : List β} (hperm : l.Perm l')
    (h : l.mapM f = .ok m) : ∃ m', l'.mapM f = .ok m' ∧ m'.Perm m := by
  obtain ⟨m', hm', hperm'⟩ := List.perm_comp_forall₂ hperm.symm (mapM_eq_ok h)
  exact ⟨m', mapM_eq_ok_iff.mpr hm', hperm'⟩

/-! ### Modest amounts -/

/-- Outputs to the addresses of a request. -/
def OutputsTo (lib : Lib) (network : NetworkId) (request : CreateTransaction)
    (outs : List ElementsTxOut) : Prop :=
  List.Forall₂ (fun r o => ∃ asset value, PaysTo lib network r.address asset value o)
    request.addressees outs

/-- The amounts of the coins of an asset, of what is requested of an asset, and of a fee, are far
from the limit of an `u64`. -/
structure Modest (lib : Lib) (account : Account) (request : CreateTransaction) : Prop where
  coins : ∀ utxos, account.utxos lib request.numConfs request.confidentialUtxosOnly = .ok utxos →
    ∀ a, Tally.total a (amounts utxos) < 2 ^ 63
  requested : ∀ a, Tally.total a (requestedAmounts request) < 2 ^ 63
  fee : ∀ utxos, account.utxos lib request.numConfs request.confidentialUtxosOnly = .ok utxos →
    ∀ outs, OutputsTo lib account.network.id request outs → ∀ coins : Utxos,
    (coins.map Prod.fst).Nodup → (∀ u ∈ coins, u ∈ utxos) →
    feeOf lib (feeRateOf account request) request.sendAll account.scriptType outs coins < 2 ^ 63

/-- Distinct coins of a list are worth at most as much as the list. -/
theorem total_le_of_mem {coins utxos : Utxos} (hnodup : (coins.map Prod.fst).Nodup)
    (hmem : ∀ u ∈ coins, u ∈ utxos) (a : String) :
    Tally.total a (amounts coins) ≤ Tally.total a (amounts utxos) := by
  have hsub : coins.Subperm utxos := (hnodup.of_map _).subperm hmem
  obtain ⟨l, hperm, hsub⟩ := hsub
  rw [amounts, amounts, ← Tally.total_perm (hperm.map _) a]
  exact ((hsub.map _).filter _ |>.map _).sum_le_sum fun _ _ => Nat.zero_le _

section Completed

variable {request request' : CreateTransaction} {utxos : Utxos}

/-- A completed request has the recipients of the request. -/
theorem Completed.recipients (h : Completed lib account request utxos request') :
    ∃ addressees, request' = { request.withRate account.network with addressees := addressees } ∧
      List.Forall₂ SameRecipient request.addressees addressees ∧
      (request.sendAll = false → addressees = request.addressees) ∧
      (request.sendAll = true → ∃ out, addressees = [out] ∧
        out.satoshi ≤ Tally.total (out.assetId.getD btc) (amounts utxos)) :=
  applySendAll_ok h

theorem Completed.sendAll_eq (h : Completed lib account request utxos request') :
    request'.sendAll = request.sendAll := by
  obtain ⟨_, rfl, _⟩ := h.recipients
  rfl

theorem Completed.feeRateOf_eq (h : Completed lib account request utxos request') :
    feeRateOf account request' = feeRateOf account request := by
  obtain ⟨_, rfl, _⟩ := h.recipients
  rfl

theorem Completed.utxos_eq (h : Completed lib account request utxos request') {all : Utxos}
    (hall : account.utxos lib request'.numConfs request'.confidentialUtxosOnly = .ok all) :
    account.utxos lib request.numConfs request.confidentialUtxosOnly = .ok all := by
  obtain ⟨_, rfl, _⟩ := h.recipients
  exact hall

/-- The outputs for a completed request go to the addresses of the request. -/
theorem Completed.outputsTo (h : Completed lib account request utxos request')
    {outs : List ElementsTxOut}
    (houts : List.Forall₂ (Requested lib account.network.id) request'.addressees outs) :
    OutputsTo lib account.network.id request outs := by
  obtain ⟨addressees, rfl, hsame, -⟩ := h.recipients
  clear h
  unfold OutputsTo
  generalize request.addressees = recipients at hsame
  induction hsame generalizing outs with
  | nil =>
    cases houts
    exact .nil
  | cons hrr' _ ih =>
    cases houts with
    | cons hro hrest =>
      obtain ⟨asset, _, hpays⟩ := hro
      rw [hrr'.1] at hpays
      exact .cons ⟨asset, _, hpays⟩ (ih hrest)

/-- What a completed request asks of an asset is modest. -/
theorem Modest.completed (hmodest : Modest lib account request)
    (hutxos : account.utxos lib request.numConfs request.confidentialUtxosOnly = .ok utxos)
    (h : Completed lib account request utxos request') (a : String) :
    Tally.total a (requestedAmounts request') < 2 ^ 63 := by
  obtain ⟨addressees, rfl, _, hsame, hall⟩ := h.recipients
  cases hsend : request.sendAll with
  | false =>
    rw [hsame hsend]
    exact hmodest.requested a
  | true =>
    obtain ⟨out, rfl, hle⟩ := hall hsend
    have hlt := hmodest.coins utxos hutxos (out.assetId.getD btc)
    cases hr : requestedAmount out with
    | none => simp [requestedAmounts, hr]
    | some p =>
      have hp : p.2 = out.satoshi := by
        simp only [requestedAmount, Option.map_eq_some_iff] at hr
        obtain ⟨_, _, rfl⟩ := hr
        rfl
      simp only [requestedAmounts, List.filterMap_cons_some hr, List.filterMap_nil, Tally.total_cons,
        Tally.total_nil]
      split <;> omega

end Completed

/-! ### The balance -/

theorem subU64_sum {rest n : ℕ} (h : n < 2 ^ 64) (sum : ℕ) (hsum : sum = rest + n) :
    subU64 (u64 sum) rest = n := by
  unfold subU64 u64
  omega

section Balance

variable {request request' : CreateTransaction} {utxos coins : Utxos}
  {outs changeOuts : List ElementsTxOut} {changes : List AssetValue} {feeAsset : Bytes32}
  {policyAsset : String} {fee : ℕ} {tx : BETransaction}

/-- The estimated fee of a created transaction. -/
def estimate (lib : Lib) (account : Account) (request : CreateTransaction)
    (outs : List ElementsTxOut) (coins : Utxos) : ℕ :=
  feeOf lib (feeRateOf account request) request.sendAll account.scriptType outs coins

/-- An asset is short, without the wrapping of machine integers. -/
theorem Modest.short_iff (hmodest : Modest lib account request)
    (hutxos : account.utxos lib request.numConfs request.confidentialUtxosOnly = .ok utxos)
    (h : Completed lib account request utxos request')
    (houts : List.Forall₂ (Requested lib account.network.id) request'.addressees outs)
    (hnodup : (coins.map Prod.fst).Nodup) (hmem : ∀ u ∈ coins, u ∈ utxos) {asset : String} :
    shortIn lib account (feeRateOf account request') request'.sendAll policyAsset outs
      (requestedAmounts request') coins asset ↔
    Tally.total asset (amounts coins) < Tally.total asset (requestedAmounts request') +
      if asset = policyAsset then estimate lib account request' outs coins else 0 := by
  have hcoins := hmodest.coins utxos hutxos asset
  have hle := total_le_of_mem hnodup hmem asset
  have hfee := hmodest.fee utxos hutxos outs (h.outputsTo houts) coins hnodup hmem
  have hrequested := hmodest.completed hutxos h asset
  rw [← h.feeRateOf_eq, ← h.sendAll_eq, ← estimate] at hfee
  rw [shortIn, Short, ← estimate, Tally.total_append, Tally.total_singleton, u64_of_lt (by omega),
    u64_of_lt (by split <;> omega)]
  simp only [@eq_comm _ asset policyAsset]

theorem Created.fits
    (hc : Created lib chance account policyAsset request' utxos coins outs changeOuts changes feeAsset
      fee tx)
    (hmodest : Modest lib account request) (h : Completed lib account request utxos request') :
    Fits (requestedAmounts request') (estimate lib account request' outs coins) coins := by
  have hutxos := h.utxos_eq hc.utxos_eq
  have hcoins := hmodest.coins utxos hutxos
  have hfee := hmodest.fee utxos hutxos outs (h.outputsTo hc.requested) coins hc.chosen.nodup
    hc.chosen.mem
  have hrequested := hmodest.completed hutxos h
  rw [← h.feeRateOf_eq, ← h.sendAll_eq, ← estimate] at hfee
  constructor
  · intro a
    have := total_le_of_mem hc.chosen.nodup hc.chosen.mem a
    have := hcoins a
    omega
  · intro a
    have := hrequested a
    omega

/-- The coins are worth what is requested, the change and the fee together. -/
theorem Created.total_amounts
    (hc : Created lib chance account policyAsset request utxos coins outs changeOuts changes feeAsset
      fee tx)
    (hfits : Fits (requestedAmounts request) (estimate lib account request outs coins) coins) :
    (∀ a, Tally.total a (amounts coins) =
      Tally.total a (requestedAmounts request ++ changeAmounts changes ++ [(policyAsset, fee)])) ∧
    estimate lib account request outs coins ≤ fee ∧
    fee ≤ estimate lib account request outs coins + dustValue := by
  have hcov := covered_of_not_short hc.covered hfits
  have hchanges : ∀ a, Tally.total a (changeAmounts changes) =
      changeValue (requestedAmounts request) (estimate lib account request outs coins) policyAsset
        coins a := by
    intro a
    rw [hc.changes_eq]
    exact total_changes hc.covered hfits (chance.order_perm _) a
  rw [← estimate] at hcov
  generalize estimate lib account request outs coins = est at hcov hchanges ⊢
  -- what is left of the policy asset for the fee
  let left := Tally.total policyAsset (amounts coins) -
    Tally.total policyAsset (requestedAmounts request) - Tally.total policyAsset (changeAmounts changes)
  have hleft : est ≤ left ∧ left ≤ est + dustValue := by
    have hcovered := hcov policyAsset
    simp only [left, hchanges, changeValue, if_true] at hcovered ⊢
    split <;> omega
  have htotal : ∀ a, Tally.total a (amounts coins) =
      Tally.total a (requestedAmounts request ++ changeAmounts changes ++ [(policyAsset, left)]) := by
    intro a
    have hcovered := hcov a
    rw [Tally.total_append, Tally.total_append, Tally.total_singleton]
    by_cases ha : a = policyAsset
    · subst ha
      rw [if_pos rfl] at hcovered ⊢
      have hle : Tally.total a (changeAmounts changes) ≤
          Tally.total a (amounts coins) - Tally.total a (requestedAmounts request) := by
        simp only [hchanges, changeValue, if_true]
        split <;> omega
      simp only [left]
      omega
    · rw [if_neg ha] at hcovered
      rw [if_neg (Ne.symm ha), hchanges, changeValue]
      simp only [if_neg ha]
      omega
  have hlt : left < 2 ^ 64 := by
    have := hfits.coins policyAsset
    simp only [left]
    omega
  have hfee : fee = left := by
    rw [hc.fee_eq]
    refine subU64_sum hlt _ ?_
    rw [Tally.sum_eq_of_total_eq htotal, List.map_append, List.sum_append]
    simp
  rw [hfee]
  exact ⟨htotal, hleft⟩

/-- The amounts of the inputs, which are the coins in some order. -/
theorem Created.input_amounts {network : ElementsNetwork}
    (hnet : account.network.id = .elements network)
    (hsound : account.cache.Sound lib account.network.id)
    (hc : Created lib chance account policyAsset request utxos coins outs changeOuts changes feeAsset
      fee tx) :
    ∃ inputs, (chance.inputs (inputsOf coins)).mapM (inputAmount lib account.cache) = .ok inputs ∧
      inputs.Perm (amounts coins) :=
  mapM_perm (chance.inputs_perm _).symm <| inputAmounts fun _ hu =>
    utxos_known hnet hsound hc.utxos_eq (hc.chosen.mem _ hu)

/-- The amounts of the outputs. -/
theorem Created.output_amounts {policy : Bytes32} {network : ElementsNetwork}
    (hnet : account.network.id = .elements network)
    (hsound : account.cache.Sound lib account.network.id)
    (hc : Created lib chance account (assetToHex policy) request utxos coins outs changeOuts changes
      feeAsset fee tx) :
    ∃ outputs, (chance.elementsOutputs (outs ++ changeOuts) ++
        [ElementsTxOut.plain feeAsset fee .null []]).mapM explicitAmount = .ok outputs ∧
      outputs.Perm (requestedAmounts request ++ changeAmounts changes ++ [(assetToHex policy, fee)]) := by
  have hcoins : ∀ u ∈ coins, Knows lib account.cache u := fun u hu =>
    utxos_known hnet hsound hc.utxos_eq (hc.chosen.mem u hu)
  have hchange := change_amounts (fun c hmem => changes_assets hcoins (chance.order_perm _)
    (hc.changes_eq ▸ List.fst_mem_of_mem_zipIdx hmem)) hc.change
  rw [List.zipIdx_map_fst] at hchange
  have hfeeAsset := hc.feeAsset_eq
  rw [assetToBin_assetToHex, Option.some.injEq] at hfeeAsset
  refine mapM_perm ((chance.elementsOutputs_perm _).symm.append_right _) ?_
  rw [mapM_eq_ok_iff]
  refine List.rel_append (List.rel_append (mapM_eq_ok (requested_amounts hc.requested))
    (mapM_eq_ok hchange)) (.cons ?_ .nil)
  rw [hfeeAsset]
  rfl

end Balance

/-! ### Refusals -/

/-- A failure that is no panic, and one for want of funds only if something is lacking. -/
structure Refusal (lacking : Prop) (f : Failure Error) : Prop where
  ne_panic : f ≠ .panic
  funds : f = .error .insufficientFunds → lacking

theorem Refusal.error {lacking : Prop} {e : Error} (h : e ≠ .insufficientFunds) :
    Refusal lacking (.error e) where
  ne_panic := fun heq => by cases heq
  funds := fun heq => absurd (Failure.error.inj heq) h

section Refusals

variable {network : ElementsNetwork} {request : CreateTransaction} {lacking : Prop}

theorem prepareTemplate_refusal (hnet : account.network.id = .elements network) :
    Fails (Refusal lacking) (prepareTemplate lib parseTx account request) := by
  unfold prepareTemplate
  split
  · refine .bind ?_ fun _ _ => .pure _
    have hchecks : ∀ {e : Error}, e ≠ .insufficientFunds → ∀ condition,
        Fails (Refusal lacking) (ensure condition e) := fun he _ => .ensure (.error he)
    exact .bind (hchecks (by simp) _) fun _ _ => .bind (hchecks (by simp) _) fun _ _ =>
      .bind (hchecks (by simp) _) fun _ _ => hchecks (by simp) _
  · -- no replacement on Elements
    refine .bind (.ensure (.error (by simp))) fun _ h => ?_
    simp [hnet, NetworkId.isLiquid] at h

/-- A request that passes the checks names the asset for each recipient. -/
theorem prepareTemplate_assets (hnet : account.network.id = .elements network)
    {prepared : Option BETransaction × Option String × CreateTransaction}
    (h : prepareTemplate lib parseTx account request = .ok prepared) :
    ∀ r ∈ request.addressees, r.assetId.isSome := by
  unfold prepareTemplate at h
  split at h
  · simp only [checkRequest, bind_eq_ok, ensure_eq_ok, exists_const] at h
    obtain ⟨⟨_, _, _, hassets⟩, _⟩ := h
    simpa [hnet, NetworkId.isLiquid] using hassets
  · simp [hnet, NetworkId.isLiquid] at h

theorem utxos_refusal (numConfs : ℕ) (conf : Bool) :
    Fails (Refusal lacking) (account.utxos lib numConfs conf) := by
  refine .bind (.mapM fun e _ => ?_) fun _ _ => .pure _
  refine .bind (.okOr (.error (by simp [utxoMissing]))) fun tx _ => ?_
  cases tx with
  | bitcoin t => exact .pure _
  | elements t =>
    refine .bind (.bind ?_ fun asset _ => ?_) fun _ _ => .pure _
    · exact .okOr (.error (by simp))
    · exact .okOr (.error (by simp))

theorem applySendAll_of_not {feeRate : F64} {utxos : Utxos} (h : request.sendAll = false) :
    applySendAll lib account feeRate request utxos = .ok request := by
  rw [applySendAll, h]
  rfl

theorem addOutput_refusal {t : ElementsTx} {id : NetworkId} {address asset : String} {value : ℕ}
    (hasset : (assetToBin asset).isSome) :
    Fails (Refusal lacking) ((BETransaction.elements t).addOutput lib id address value (some asset)) := by
  obtain ⟨bytes, hbytes⟩ := Option.isSome_iff_exists.mp hasset
  refine .bind (.okOr (.error (by simp))) fun a _ => .bind (.okOr (.error (by simp))) fun key _ => ?_
  refine .bind (.of_ok rfl) fun asset' h => ?_
  cases h
  exact .bind (.of_ok (unwrap_eq_ok.mpr hbytes)) fun _ _ => .pure _

theorem addRequested_refusal {id : NetworkId} {addressees : List AddressAmount}
    (hassets : ∀ r ∈ addressees, ∃ a, r.assetId = some a ∧ (assetToBin a).isSome)
    (t : ElementsTx) : Fails (Refusal lacking) (addRequested lib id addressees (.elements t)) := by
  induction addressees generalizing t with
  | nil => exact .pure _
  | cons r rest ih =>
    rw [List.forall_mem_cons] at hassets
    obtain ⟨⟨a, ha, hbin⟩, hrest⟩ := hassets
    rw [addRequested, ha]
    refine .bind (addOutput_refusal hbin) fun tx h => ?_
    obtain ⟨_, _, _, _, rfl⟩ := addOutput_elements.mp h
    exact ih hrest _

theorem addChanges_refusal {changes : List (AssetValue × ℕ)}
    (hassets : ∀ c ∈ changes, ∃ asset, c.1.asset = assetToHex asset) (t : ElementsTx) :
    Fails (Refusal lacking) (addChanges lib account none changes (.elements t)) := by
  induction changes generalizing t with
  | nil => exact .pure _
  | cons c rest ih =>
    rw [List.forall_mem_cons] at hassets
    obtain ⟨⟨asset, hasset⟩, hrest⟩ := hassets
    refine .bind (.okOr (.error (by simp))) fun address _ => .bind (addOutput_refusal ?_) fun tx h => ?_
    · rw [hasset, assetToBin_assetToHex]
      rfl
    · obtain ⟨_, _, _, _, rfl⟩ := addOutput_elements.mp h
      exact ih hrest _

theorem finish_refusal {coins : Utxos} {outs : List ElementsTxOut}
    (hknown : ∀ u ∈ coins, Knows lib account.cache u) :
    Fails (Refusal lacking) (finish lib chance account (funded coins outs)) := by
  refine .bind ?_ fun fee _ => .bind (.bind (.okOr (.error (by simp))) fun _ _ => .pure _)
    fun _ _ => .pure _
  simp only [funded, BETransaction.scramble, BETransaction.fee]
  split
  · exact .bind (.okOr (.error (by simp))) fun _ _ => .pure _
  · exact .bind (.of_ok (sumInputs_perm hknown (chance.inputs_perm _))) fun _ _ => .pure _

theorem fund_refusal {policyAsset : String} {feeRate : F64} {sendAll : Bool} {utxos : Utxos}
    {outs : List ElementsTxOut} {outputs : List (String × ℕ)}
    (hnet : account.network.id = .elements network)
    (hpolicy : account.network.policyAsset = some policyAsset)
    (hknown : ∀ u ∈ utxos, Knows lib account.cache u) (houts : outs.mapM explicitAmount = .ok outputs)
    (hassets : ∀ coins,
      Chosen utxos (shortIn lib account feeRate sendAll policyAsset outs outputs) coins →
      (∀ a, ¬ shortIn lib account feeRate sendAll policyAsset outs outputs coins a) →
      ∀ p ∈ outputs, p.1 ∈ (amounts coins).map Prod.fst)
    (hlacking : ∀ coins a,
      Chosen utxos (shortIn lib account feeRate sendAll policyAsset outs outputs) coins →
      shortIn lib account feeRate sendAll policyAsset outs outputs coins a →
      (∀ v ∈ utxos, v.2.asset = a → v.1 ∈ coins.map Prod.fst) → lacking) :
    Fails (Refusal lacking)
      (fund lib chance account feeRate sendAll utxos none (.elements ⟨[], outs⟩)) := by
  -- the inputs: the only refusal is that the coins do not suffice
  refine .bind (fun f hf => ?_) fun tx htx => ?_
  · obtain ⟨rfl, coins, a, hchosen, hshort, hall⟩ := addInputs_error hnet hpolicy hknown houts hf
      (Chosen.nil _ _) (Nat.lt_succ_self _)
    exact ⟨by simp, fun _ => hlacking coins a hchosen hshort hall⟩
  · -- they are chosen, and what follows does not fail for lack of coins
    obtain ⟨coins, rfl, hchosen, hcovered⟩ :=
      addInputs_ok hnet hpolicy hknown houts htx (Chosen.nil _ _)
    have hcoins : ∀ u ∈ coins, Knows lib account.cache u := fun u hu => hknown u (hchosen.mem u hu)
    refine .bind (.of_ok (estimatedChanges_funded hcoins)) fun more _ => ?_
    have hchanges : ∀ fee, ∃ changes, (funded coins outs).changes lib
        (chance.order (utxos.length + 1)) fee (some policyAsset) account.cache = .ok changes :=
      fun fee => ⟨_, (changes_funded hcoins houts (chance.order_perm _)).mpr
        ⟨hassets coins hchosen hcovered, rfl⟩⟩
    rw [hpolicy]
    obtain ⟨_, hok⟩ := hchanges _
    refine .bind (.of_ok hok) fun changes h => ?_
    obtain ⟨_, rfl⟩ := (changes_funded hcoins houts (chance.order_perm _)).mp h
    refine .bind (addChanges_refusal (fun c hc => ?_) _) fun _ _ => .pure _
    exact changes_assets hcoins (chance.order_perm _) (List.fst_mem_of_mem_zipIdx hc)

theorem finish_isElements {coins : Utxos} {outs : List ElementsTxOut} {tx : BETransaction} {fee : ℕ}
    (h : finish lib chance account (funded coins outs) = .ok (tx, fee)) : ∃ t, tx = .elements t := by
  simp only [finish, funded, BETransaction.scramble, BETransaction.addFeeIfElements, bind_eq_ok,
    pure_eq_ok, Prod.mk.injEq] at h
  obtain ⟨_, _, _, ⟨_, _, rfl⟩, rfl, _⟩ := h
  exact ⟨_, rfl⟩

/-- If no recipient gets nothing, then something is requested of each requested asset. -/
theorem requested_pos {p : String × ℕ} (hpos : ∀ r ∈ request.addressees, r.satoshi ≠ 0)
    (hp : p ∈ requestedAmounts request) : 0 < Tally.total p.1 (requestedAmounts request) := by
  obtain ⟨r, hr, hrp⟩ := List.mem_filterMap.mp hp
  have hvalue : p.2 ≠ 0 := by
    simp only [requestedAmount, Option.map_eq_some_iff] at hrp
    obtain ⟨_, _, rfl⟩ := hrp
    exact hpos r hr
  have hle : p.2 ≤ Tally.total p.1 (requestedAmounts request) :=
    List.le_sum_of_mem (List.mem_map_of_mem (List.mem_filter.mpr ⟨hp, decide_eq_true rfl⟩))
  omega

end Refusals

/-! ### A wallet with two coins -/

namespace TwoCoins

def bytes (b : UInt8) : Bytes32 := .replicate b

/-- Libraries for which each transaction has 2500 virtual bytes, and only the first one has no
inputs. -/
def libs : Lib where
  txid := fun
    | .elements t => if t.input.isEmpty then bytes 1 else bytes 9
    | .bitcoin _ => bytes 10
  weight := fun _ => 10000
  surjectionproofSize := fun _ => 67
  minimumValue := fun _ => 0
  parseAddress := fun id s =>
    if s = "own" then some ⟨id, [1], some [2]⟩
    else if s = "other" then some ⟨id, [3], some [4]⟩
    else none
  addressOf := fun _ _ => none

/-- The coins are of the same asset and of different amounts. -/
def tx : ElementsTx := ⟨[], [.plain (bytes 2) 30000 .null [1], .plain (bytes 2) 100000 .null [1]]⟩

def cache : AccountCache where
  allTxs := AList.singleton (bytes 1) (.elements tx)
  paths := AList.singleton [1] [0, 1]
  scripts := AList.singleton [0, 1] [1]
  heights := AList.singleton (bytes 1) (some 10)
  unblinded := (AList.singleton ⟨bytes 1, 0⟩ ⟨bytes 2, bytes 3, bytes 4, 30000⟩).insert
    ⟨bytes 1, 1⟩ ⟨bytes 2, bytes 3, bytes 4, 100000⟩
  indexes := ⟨1, 0⟩

def wallet : Account where
  accountNum := 0
  scriptType := .p2shP2wpkh
  network := ⟨.elements .liquid, some (assetToHex (bytes 2))⟩
  deriveAddress := fun _ _ => some "own"
  cache := cache
  tip := 20

def luck : Chance where
  order := fun _ l => l
  inputs := id
  bitcoinOutputs := id
  elementsOutputs := id
  order_perm := fun _ l => List.Perm.refl l
  inputs_perm := fun l => List.Perm.refl l
  bitcoinOutputs_perm := fun l => List.Perm.refl l
  elementsOutputs_perm := fun l => List.Perm.refl l

/-- The request to pay an amount of the coins' asset. -/
def request (satoshi : ℕ) : CreateTransaction where
  addressees := [⟨"other", satoshi, some (assetToHex (bytes 2))⟩]
  feeRate := none
  subaccount := 0
  sendAll := false
  previousTransaction := none
  memo := none
  utxos := none
  numConfs := 0
  confidentialUtxosOnly := false

theorem sound : cache.Sound libs wallet.network.id := by
  have hlookup : ∀ {txid t}, cache.allTxs.lookup txid = some t → txid = bytes 1 ∧ t = .elements tx := by
    intro txid t h
    have hmem := AList.mem_lookup_iff.mp (Option.mem_def.mpr h)
    simp only [cache, AList.singleton_entries, List.mem_singleton, Sigma.mk.injEq] at hmem
    exact ⟨hmem.1, eq_of_heq hmem.2⟩
  constructor
  · intro txid t h
    obtain ⟨rfl, rfl⟩ := hlookup h
    rfl
  · intro txid t h
    obtain ⟨rfl, rfl⟩ := hlookup h
    rfl

theorem scripts : AddressesHaveScripts libs := by
  intro network s a h
  simp only [libs] at h
  split at h
  · cases h
    simp
  · split at h
    · cases h
      simp
    · cases h

/-- The coin with this index. -/
def coin (vout value : ℕ) : OutPoint × UTXOInfo :=
  (⟨bytes 1, vout⟩, ⟨assetToHex (bytes 2), value, [1], some 10, [0, 1]⟩)

theorem utxos_eq : wallet.utxos libs 0 false = .ok [coin 1 100000, coin 0 30000] := by
  decide +kernel

theorem requested_eq (satoshi : ℕ) :
    requestedAmounts (request satoshi) = [(assetToHex (bytes 2), satoshi)] := by
  simp [requestedAmounts, requestedAmount, request, assetToBin_assetToHex]

/-- The fee does not depend on the coins. -/
theorem feeOf_eq (satoshi : ℕ) (outs : List ElementsTxOut) (coins : Utxos) :
    feeOf libs (feeRateOf wallet (request satoshi)) (request satoshi).sendAll wallet.scriptType outs coins =
      260 := by
  have hfee : feeOf libs (feeRateOf wallet (request satoshi)) (request satoshi).sendAll
      wallet.scriptType outs coins =
      toU64 (F64.ofInt 10000 / F64.ofInt 4 * (F64.ofInt 100 / F64.ofInt 1000) * F64.lit 104 100) :=
    rfl
  rw [hfee]
  decide +kernel

theorem modest {satoshi : ℕ} (h : satoshi < 2 ^ 63) : Modest libs wallet (request satoshi) where
  coins := by
    intro utxos hutxos a
    rw [request, utxos_eq] at hutxos
    cases hutxos
    simp only [amounts, coin, List.map_cons, List.map_nil, Tally.total_cons, Tally.total_nil]
    split <;> decide
  requested := by
    intro a
    rw [requested_eq, Tally.total_singleton]
    split <;> omega
  fee := by
    intro utxos _ outs _ coins _ _
    rw [feeOf_eq]
    decide

/-- A payment that one of the coins covers is made. -/
theorem created : ∃ m, createTx libs (fun _ _ => none) luck wallet (request 50000) = .ok m ∧
    requestedAmounts m.request = [(assetToHex (bytes 2), 50000)] := by
  have h : (createTx libs (fun _ _ => none) luck wallet (request 50000)).toOption.map
      (fun m => requestedAmounts m.request) = some [(assetToHex (bytes 2), 50000)] := by
    decide +kernel
  obtain ⟨m, hm, hrequested⟩ := Option.map_eq_some_iff.mp h
  exact ⟨m, toOption_eq_some.mp hm, hrequested⟩

/-- A payment that both do not cover is refused. -/
theorem refused : ∃ f, createTx libs (fun _ _ => none) luck wallet (request 130000) = .error f := by
  have h : (createTx libs (fun _ _ => none) luck wallet (request 130000)).isOk = false := by
    decide +kernel
  cases hm : createTx libs (fun _ _ => none) luck wallet (request 130000) with
  | ok m =>
    rw [hm] at h
    cases h
  | error f => exact ⟨f, rfl⟩

end TwoCoins

/-! ### What the transaction is -/

section Main

variable {network : ElementsNetwork} {policy : Bytes32} {request : CreateTransaction}
  {created : TransactionMeta}

theorem createTx_balanced (hnet : account.network.id = .elements network)
    (hpolicy : account.network.policyAsset = some (assetToHex policy))
    (hsound : account.cache.Sound lib account.network.id) (hscripts : AddressesHaveScripts lib)
    (hown : request.utxos = none) (hmodest : Modest lib account request)
    (h : createTx lib parseTx chance account request = .ok created) :
    ∃ t inputs outputs, created.tx = .elements t ∧
      (t.input.map TxIn.previousOutput).Nodup ∧
      (∀ i ∈ t.input, i.previousOutput ∉ account.spent) ∧
      t.input.mapM (inputAmount lib account.cache) = .ok inputs ∧
      t.output.mapM explicitAmount = .ok outputs ∧
      ∀ asset, Tally.total asset inputs = Tally.total asset outputs := by
  obtain ⟨utxos, coins, outs, changeOuts, changes, feeAsset, hcompleted, _, hc⟩ :=
    createTx_created hnet hpolicy hsound hscripts hown h
  obtain ⟨inputs, hinputs, hpermIn⟩ := hc.input_amounts hnet hsound
  obtain ⟨outputs, houtputs, hpermOut⟩ := hc.output_amounts hnet hsound
  -- the inputs spend the coins, in an order that the wallet chooses
  have hprevious : ((chance.inputs (inputsOf coins)).map TxIn.previousOutput).Perm
      (coins.map Prod.fst) := by
    have := (chance.inputs_perm (inputsOf coins)).map TxIn.previousOutput
    rwa [inputsOf, List.map_map] at this
  refine ⟨_, inputs, outputs, hc.tx_eq, ?_, ?_, hinputs, houtputs, fun asset => ?_⟩
  · exact hprevious.nodup_iff.mpr hc.chosen.nodup
  · intro i hi
    obtain ⟨u, hu, hui⟩ := List.mem_map.mp (hprevious.mem_iff.mp (List.mem_map_of_mem hi))
    rw [← hui]
    exact utxos_unspent hnet hsound hc.utxos_eq (hc.chosen.mem u hu)
  · rw [Tally.total_perm hpermIn, Tally.total_perm hpermOut]
    exact (hc.total_amounts (hc.fits hmodest hcompleted)).1 asset

theorem createTx_balanced_twoCoins : ∃ m t inputs outputs,
    createTx TwoCoins.libs (fun _ _ => none) TwoCoins.luck TwoCoins.wallet (TwoCoins.request 50000) =
      .ok m ∧
    m.tx = .elements t ∧ t.input.mapM (inputAmount TwoCoins.libs TwoCoins.cache) = .ok inputs ∧
    t.output.mapM explicitAmount = .ok outputs ∧
    ∀ asset, Tally.total asset inputs = Tally.total asset outputs := by
  obtain ⟨m, hm, _⟩ := TwoCoins.created
  obtain ⟨t, inputs, outputs, htx, _, _, hinputs, houtputs, htotal⟩ := createTx_balanced rfl rfl
    TwoCoins.sound TwoCoins.scripts rfl (TwoCoins.modest (by decide)) hm
  exact ⟨m, t, inputs, outputs, hm, htx, hinputs, houtputs, htotal⟩

theorem createTx_pays (hnet : account.network.id = .elements network)
    (hpolicy : account.network.policyAsset = some (assetToHex policy))
    (hsound : account.cache.Sound lib account.network.id) (hscripts : AddressesHaveScripts lib)
    (hown : request.utxos = none) (hmodest : Modest lib account request)
    (h : createTx lib parseTx chance account request = .ok created) :
    ∃ (t : ElementsTx) (paid change : List ElementsTxOut) (changes : List AssetValue) (coins : Utxos)
      (rest : List ElementsTxOut),
      created.tx = .elements t ∧ t.input.Perm (inputsOf coins) ∧
      t.output = rest ++ [.plain policy created.fee .null []] ∧ rest.Perm (paid ++ change) ∧
      List.Forall₂ (Requested lib account.network.id) created.request.addressees paid ∧
      (request.sendAll = false → created.request.addressees = request.addressees) ∧
      List.Forall₂ (IsChange lib account) changes.zipIdx change ∧
      changes.length = created.changesUsed ∧
      estimate lib account request paid coins ≤ created.fee ∧
      created.fee ≤ estimate lib account request paid coins + dustValue := by
  obtain ⟨utxos, coins, outs, changeOuts, changes, feeAsset, hcompleted, hused, hc⟩ :=
    createTx_created hnet hpolicy hsound hscripts hown h
  have hfee := (hc.total_amounts (hc.fits hmodest hcompleted)).2
  have hfeeAsset := hc.feeAsset_eq
  rw [assetToBin_assetToHex, Option.some.injEq] at hfeeAsset
  -- the recipients are changed only if everything is sent
  have haddressees : request.sendAll = false → created.request.addressees = request.addressees := by
    obtain ⟨addressees, heq, _, hsame, _⟩ := hcompleted.recipients
    intro hsend
    rw [heq]
    exact hsame hsend
  -- the estimate of the request is the one of the completed request
  rw [estimate, hcompleted.feeRateOf_eq, hcompleted.sendAll_eq, ← estimate] at hfee
  exact ⟨_, outs, changeOuts, changes, coins, _, hc.tx_eq, chance.inputs_perm _, by rw [hfeeAsset],
    chance.elementsOutputs_perm _, hc.requested, haddressees, hc.change, hused.symm, hfee.1, hfee.2⟩

theorem createTx_pays_twoCoins : ∃ (m : TransactionMeta) (t : ElementsTx) (paid : List ElementsTxOut),
    createTx TwoCoins.libs (fun _ _ => none) TwoCoins.luck TwoCoins.wallet (TwoCoins.request 50000) =
      .ok m ∧
    m.tx = .elements t ∧
    List.Forall₂ (Requested TwoCoins.libs (.elements .liquid)) (TwoCoins.request 50000).addressees paid ∧
    ∀ o ∈ paid, o ∈ t.output := by
  obtain ⟨m, hm, _⟩ := TwoCoins.created
  obtain ⟨t, paid, change, _, _, rest, htx, _, hout, hrest, hpaid, hsame, _⟩ := createTx_pays rfl rfl
    TwoCoins.sound TwoCoins.scripts rfl (TwoCoins.modest (by decide)) hm
  rw [hsame rfl] at hpaid
  refine ⟨m, t, paid, hm, htx, hpaid, fun o ho => ?_⟩
  rw [hout]
  exact List.mem_append_left _ (hrest.mem_iff.mpr (List.mem_append_left _ ho))

theorem createTx_fewest (hnet : account.network.id = .elements network)
    (hpolicy : account.network.policyAsset = some (assetToHex policy))
    (hsound : account.cache.Sound lib account.network.id) (hscripts : AddressesHaveScripts lib)
    (hown : request.utxos = none) (hmodest : Modest lib account request)
    (h : createTx lib parseTx chance account request = .ok created) :
    ∃ (utxos coins : Utxos) (paid : List ElementsTxOut) (t : ElementsTx),
      account.utxos lib request.numConfs request.confidentialUtxosOnly = .ok utxos ∧
      created.tx = .elements t ∧ t.input.Perm (inputsOf coins) ∧
      List.Forall₂ (Requested lib account.network.id) created.request.addressees paid ∧
      ∀ asset (other : Utxos), (other.map Prod.fst).Nodup → (∀ u ∈ other, u ∈ utxos) →
        (∀ before after, coins = before ++ after →
          Tally.total asset (requestedAmounts created.request) +
              (if asset = assetToHex policy then estimate lib account request paid before else 0) ≤
            Tally.total asset (amounts other)) →
        (ofAsset asset coins).length ≤ (ofAsset asset other).length := by
  obtain ⟨utxos, coins, outs, changeOuts, changes, feeAsset, hcompleted, _, hc⟩ :=
    createTx_created hnet hpolicy hsound hscripts hown h
  have hutxos := hcompleted.utxos_eq hc.utxos_eq
  refine ⟨utxos, coins, outs, _, hutxos, hc.tx_eq, chance.inputs_perm _, hc.requested, ?_⟩
  intro asset other hnodup hmem henough
  refine hc.chosen.fewest (utxos_nodup hnet hsound hutxos) (fun before after hsplit hshort => ?_)
    hnodup hmem (Nat.le_refl _)
  -- the coins taken before any of them are some of the wallet's
  have hprefix : (before.map Prod.fst).Nodup ∧ ∀ u ∈ before, u ∈ utxos := by
    have := hc.chosen.nodup
    rw [hsplit, List.map_append, List.nodup_append'] at this
    exact ⟨this.1, fun u hu => hc.chosen.mem u (hsplit ▸ List.mem_append_left _ hu)⟩
  -- they do not suffice, because another coin was taken
  rw [hmodest.short_iff hutxos hcompleted hc.requested hprefix.1 hprefix.2, estimate,
    hcompleted.feeRateOf_eq, hcompleted.sendAll_eq, ← estimate] at hshort
  exact hshort.trans_le (henough before after hsplit)

/-- One of the coins is enough, and no more than one is spent. -/
theorem createTx_fewest_twoCoins : ∃ (m : TransactionMeta) (coins : Utxos) (t : ElementsTx),
    createTx TwoCoins.libs (fun _ _ => none) TwoCoins.luck TwoCoins.wallet (TwoCoins.request 50000) =
      .ok m ∧
    m.tx = .elements t ∧ t.input.Perm (inputsOf coins) ∧
    (ofAsset (assetToHex (TwoCoins.bytes 2)) coins).length ≤ 1 := by
  obtain ⟨m, hm, hrequested⟩ := TwoCoins.created
  obtain ⟨utxos, coins, paid, t, hutxos, htx, hperm, _, hfewest⟩ := createTx_fewest rfl rfl TwoCoins.sound
    TwoCoins.scripts rfl (TwoCoins.modest (by decide)) hm
  rw [TwoCoins.request, TwoCoins.utxos_eq] at hutxos
  cases hutxos
  refine ⟨m, coins, t, hm, htx, hperm,
    hfewest (assetToHex (TwoCoins.bytes 2)) [TwoCoins.coin 1 100000] (List.nodup_singleton _) ?_ ?_⟩
  · intro u hu
    rw [List.mem_singleton.mp hu]
    exact List.mem_cons_self
  · intro before after _
    rw [hrequested, estimate, TwoCoins.feeOf_eq, Tally.total_singleton, if_pos rfl, if_pos rfl]
    decide

/-- Coins of a list, with all of an asset, are worth as much of it as the list. -/
theorem total_eq_of_all {coins utxos : Utxos} (hnodup : (utxos.map Prod.fst).Nodup)
    (hcoins : (coins.map Prod.fst).Nodup) (hmem : ∀ u ∈ coins, u ∈ utxos) {asset : String}
    (hall : ∀ v ∈ utxos, v.2.asset = asset → v.1 ∈ coins.map Prod.fst) :
    Tally.total asset (amounts coins) = Tally.total asset (amounts utxos) := by
  refine Nat.le_antisymm (total_le_of_mem hcoins hmem asset) ?_
  have hself : Tally.total asset (amounts (ofAsset asset utxos)) =
      Tally.total asset (amounts utxos) := by
    have htwice : ofAsset asset (ofAsset asset utxos) = ofAsset asset utxos := by
      simp [ofAsset, List.filter_filter]
    rw [total_amounts, total_amounts, htwice]
  rw [← hself]
  refine total_le_of_mem ((List.filter_sublist.map Prod.fst).nodup hnodup) (fun u hu => ?_) asset
  simp only [List.mem_filter, decide_eq_true_eq] at hu
  obtain ⟨v, hv, hvu⟩ := List.mem_map.mp (hall u hu.1 hu.2)
  rwa [← List.inj_on_of_nodup_map hnodup (hmem v hv) hu.1 hvu]

theorem createTx_refuses (hnet : account.network.id = .elements network)
    (hpolicy : account.network.policyAsset = some (assetToHex policy))
    (hsound : account.cache.Sound lib account.network.id) (hown : request.utxos = none)
    (hsend : request.sendAll = false)
    (hassets : ∀ r ∈ request.addressees, ∀ a, r.assetId = some a → (assetToBin a).isSome)
    (hmodest : Modest lib account request) {f : Failure Error}
    (h : createTx lib parseTx chance account request = .error f) :
    f ≠ .panic ∧ (f = .error .insufficientFunds →
      ∃ (utxos coins : Utxos) (paid : List ElementsTxOut) (asset : String),
        account.utxos lib request.numConfs request.confidentialUtxosOnly = .ok utxos ∧
        List.Forall₂ (Requested lib account.network.id) request.addressees paid ∧
        (∀ u ∈ coins, u ∈ utxos) ∧
        Tally.total asset (amounts utxos) < Tally.total asset (requestedAmounts request) +
          if asset = assetToHex policy then estimate lib account request paid coins else 0) := by
  suffices hfails : Fails (Refusal _) (createTx lib parseTx chance account request) from
    ⟨(hfails f h).ne_panic, (hfails f h).funds⟩
  simp only [createTx]
  refine .bind (.ensure (.error (by simp))) fun _ _ => ?_
  refine .bind (.ensure (.error (by simp))) fun _ _ => ?_
  refine .bind (.ensure (.error (by simp))) fun _ hchecked => ?_
  -- the request has passed the checks, so that no amount is zero
  have hnonzero : ∀ r ∈ request.addressees, r.satoshi ≠ 0 := by
    simpa [hsend] using hchecked
  refine .bind (prepareTemplate_refusal hnet) fun prepared hprepare => ?_
  obtain ⟨template, reused, request₁⟩ := prepared
  obtain ⟨rfl, rfl, rfl⟩ := prepareTemplate_elements hnet hprepare
  simp only [hown]
  refine .bind (utxos_refusal _ _) fun utxos hutxos => ?_
  -- the coins are known to the wallet
  have hknown : ∀ u ∈ utxos, Knows lib account.cache u := fun u hu =>
    utxos_known hnet hsound hutxos hu
  have hcompleted : Completed lib account request utxos (request.withRate account.network) :=
    applySendAll_of_not hsend
  refine .bind (.of_ok (applySendAll_of_not hsend)) fun request₂ hrequest => ?_
  obtain rfl := Except.ok.inj (hrequest.symm.trans (applySendAll_of_not hsend))
  rw [startTx, hnet, BETransaction.new, ← hnet]
  -- the assets that are asked for can be read
  have hvalid : ∀ r ∈ request.addressees, ∃ a, r.assetId = some a ∧ (assetToBin a).isSome := by
    intro r hr
    obtain ⟨a, ha⟩ := Option.isSome_iff_exists.mp (prepareTemplate_assets hnet hprepare r hr)
    exact ⟨a, ha, hassets r hr a ha⟩
  refine .bind (addRequested_refusal hvalid _) fun tx htx => ?_
  obtain ⟨paid, rfl, hpaid⟩ := addRequested_elements htx
  have hamounts := requested_amounts hpaid
  -- the coins do not suffice, or the inputs are chosen
  refine .bind (fund_refusal hnet hpolicy hknown hamounts ?_ ?_) fun funded hfund => ?_
  · -- a covered amount that is not zero has coins of its asset
    intro coins hchosen hcovered p hp
    have hshort := mt (hmodest.short_iff hutxos hcompleted hpaid hchosen.nodup hchosen.mem).mpr
      (hcovered p.1)
    have hpos := requested_pos hnonzero hp
    by_contra hkey
    rw [Tally.total_eq_zero hkey] at hshort
    exact hshort (Nat.add_pos_left hpos _)
  · -- every coin of the asset has been taken, and that is not enough
    intro coins asset hchosen hshort hall
    have htotal := total_eq_of_all (utxos_nodup hnet hsound hutxos) hchosen.nodup hchosen.mem hall
    have hlt := (hmodest.short_iff hutxos hcompleted hpaid hchosen.nodup hchosen.mem).mp hshort
    rw [htotal] at hlt
    exact ⟨utxos, coins, paid, asset, hutxos, hpaid, hchosen.mem, hlt⟩
  · obtain ⟨tx, changesUsed⟩ := funded
    obtain ⟨coins, changes, changeOuts, rfl, rfl, hchosen, _⟩ :=
      fund_elements hnet hpolicy hknown hamounts hfund
    refine .bind (finish_refusal fun u hu => hknown u (hchosen.mem u hu)) fun finished hfinish => ?_
    obtain ⟨tx, fee⟩ := finished
    obtain ⟨t, rfl⟩ := finish_isElements hfinish
    exact .bind (.pure _) fun _ _ => .pure _

theorem createTx_refuses_twoCoins : ∃ f,
    createTx TwoCoins.libs (fun _ _ => none) TwoCoins.luck TwoCoins.wallet (TwoCoins.request 130000) =
      .error f ∧ f ≠ .panic := by
  obtain ⟨f, hf⟩ := TwoCoins.refused
  refine ⟨f, hf, (createTx_refuses rfl rfl TwoCoins.sound rfl rfl (fun r hr a ha => ?_)
    (TwoCoins.modest (by decide)) hf).1⟩
  rw [TwoCoins.request, List.mem_singleton] at hr
  subst hr
  cases ha
  rw [assetToBin_assetToHex]
  rfl

end Main

end SideSwap.Gdk
