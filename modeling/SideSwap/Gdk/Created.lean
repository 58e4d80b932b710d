import SideSwap.Gdk.Funding

/-!
# What a created transaction is

What `create_tx` does on an Elements chain with the wallet's own coins, part by part: the outputs
that are requested, the change (`total_changes`), the fee (`finish_elements`), and all of them
together (`createTx_created`).  What holds of the result is derived from `Created` in `Gdk.Payment`.
-/

namespace SideSwap.Gdk

open Libwally Call

variable {lib : Lib} {parseTx : NetworkId → String → Option BETransaction} {chance : Chance}
  {account : Account} {cache : AccountCache}

/-! ### Outputs -/

/-- The output that `add_output` makes. -/
def PaysTo (lib : Lib) (network : NetworkId) (address asset : String) (value : ℕ)
    (o : ElementsTxOut) : Prop :=
  ∃ a key bytes, lib.parseAddress network address = some a ∧ a.blindingPubkey = some key ∧
    assetToBin asset = some bytes ∧ o = .plain bytes value (.confidential key) a.scriptPubkey

theorem addOutput_elements {t : ElementsTx} {network : NetworkId} {address : String} {value : ℕ}
    {assetHex : Option String} {tx : BETransaction} :
    (BETransaction.elements t).addOutput lib network address value assetHex = .ok tx ↔
      ∃ asset o, assetHex = some asset ∧ PaysTo lib network address asset value o ∧
        tx = .elements { t with output := t.output ++ [o] } := by
  simp only [BETransaction.addOutput, bind_eq_ok, okOr_eq_ok, unwrap_eq_ok, pure_eq_ok]
  constructor
  · rintro ⟨a, ha, key, hkey, asset, rfl, bytes, hbytes, rfl⟩
    exact ⟨asset, _, rfl, ⟨a, key, bytes, ha, hkey, hbytes, rfl⟩, rfl⟩
  · rintro ⟨asset, o, rfl, ⟨a, key, bytes, ha, hkey, hbytes, rfl⟩, rfl⟩
    exact ⟨a, ha, key, hkey, asset, rfl, bytes, hbytes, rfl⟩

/-- The output for a recipient. -/
def Requested (lib : Lib) (network : NetworkId) (r : AddressAmount) (o : ElementsTxOut) : Prop :=
  ∃ asset, r.assetId = some asset ∧ PaysTo lib network r.address asset r.satoshi o

theorem addRequested_elements {network : NetworkId} {addressees : List AddressAmount}
    {t : ElementsTx} {tx : BETransaction}
    (h : addRequested lib network addressees (.elements t) = .ok tx) :
    ∃ outs, tx = .elements { t with output := t.output ++ outs } ∧
      List.Forall₂ (Requested lib network) addressees outs := by
  induction addressees generalizing t with
  | nil =>
    rw [addRequested, pure_eq_ok] at h
    exact ⟨[], by simpa using h.symm, .nil⟩
  | cons r rest ih =>
    simp only [addRequested, bind_eq_ok] at h
    obtain ⟨_, hout, h⟩ := h
    obtain ⟨asset, o, hasset, hpays, rfl⟩ := addOutput_elements.mp hout
    obtain ⟨outs, rfl, houts⟩ := ih h
    exact ⟨o :: outs, by simp, .cons ⟨asset, hasset, hpays⟩ houts⟩

/-- The output for a change, with its position among the changes. -/
def IsChange (lib : Lib) (account : Account) (c : AssetValue × ℕ) (o : ElementsTxOut) : Prop :=
  ∃ address, account.deriveAddress true ((account.cache.indexes.internal + c.2 + 1) % 2 ^ 32) =
      some address ∧
    PaysTo lib account.network.id address c.1.asset c.1.satoshi o

theorem addChanges_elements {changes : List (AssetValue × ℕ)} {t : ElementsTx} {tx : BETransaction}
    (h : addChanges lib account none changes (.elements t) = .ok tx) :
    ∃ outs, tx = .elements { t with output := t.output ++ outs } ∧
      List.Forall₂ (IsChange lib account) changes outs := by
  induction changes generalizing t with
  | nil =>
    rw [addChanges, pure_eq_ok] at h
    exact ⟨[], by simpa using h.symm, .nil⟩
  | cons c rest ih =>
    simp only [addChanges, changeAddress, bind_eq_ok, okOr_eq_ok] at h
    obtain ⟨address, haddress, _, hout, h⟩ := h
    obtain ⟨asset, o, hasset, hpays, rfl⟩ := addOutput_elements.mp hout
    cases hasset
    obtain ⟨outs, rfl, houts⟩ := ih h
    exact ⟨o :: outs, by simp, .cons ⟨address, haddress, hpays⟩ houts⟩

/-! ### Explicit amounts -/

theorem PaysTo.amount {network : NetworkId} {address : String} {asset : Bytes32} {value : ℕ}
    {o : ElementsTxOut} (h : PaysTo lib network address (assetToHex asset) value o) :
    explicitAmount o = .ok (assetToHex asset, value) := by
  obtain ⟨_, _, bytes, _, _, hbytes, rfl⟩ := h
  rw [assetToBin_assetToHex, Option.some.injEq] at hbytes
  rw [← hbytes]
  rfl

/-- The amount that a recipient gets, with the asset as it stands in a transaction. -/
def requestedAmount (r : AddressAmount) : Option (String × ℕ) :=
  (r.assetId.bind assetToBin).map fun asset => (assetToHex asset, r.satoshi)

/-- The amounts of the request, by asset. -/
def requestedAmounts (request : CreateTransaction) : List (String × ℕ) :=
  request.addressees.filterMap requestedAmount

theorem requested_amounts {network : NetworkId} {addressees : List AddressAmount}
    {outs : List ElementsTxOut} (h : List.Forall₂ (Requested lib network) addressees outs) :
    outs.mapM explicitAmount = .ok (addressees.filterMap requestedAmount) := by
  induction h with
  | nil => rfl
  | @cons r o addressees outs hr _ ih =>
    obtain ⟨asset, hasset, a, key, bytes, _, _, hbytes, rfl⟩ := hr
    have hamount : requestedAmount r = some (assetToHex bytes, r.satoshi) := by
      simp [requestedAmount, hasset, hbytes]
    simp only [List.mapM_cons, bind_eq_ok, pure_eq_ok]
    exact ⟨_, rfl, _, ih, (List.filterMap_cons_some hamount).symm⟩

/-- The amounts of changes. -/
def changeAmounts (changes : List AssetValue) : List (String × ℕ) :=
  changes.map fun c => (c.asset, c.satoshi)

theorem change_amounts {changes : List (AssetValue × ℕ)} {outs : List ElementsTxOut}
    (hassets : ∀ c ∈ changes, ∃ asset, c.1.asset = assetToHex asset)
    (h : List.Forall₂ (IsChange lib account) changes outs) :
    outs.mapM explicitAmount = .ok (changeAmounts (changes.map Prod.fst)) := by
  induction h with
  | nil => rfl
  | @cons c o changes outs hc _ ih =>
    rw [List.forall_mem_cons] at hassets
    obtain ⟨asset, hasset⟩ := hassets.1
    obtain ⟨_, _, hpays⟩ := hc
    rw [hasset] at hpays
    simp only [List.mapM_cons, bind_eq_ok, pure_eq_ok]
    exact ⟨_, hpays.amount, _, ih hassets.2, by rw [← hasset]; rfl⟩

/-! ### Change -/

section Change

variable {coins : Utxos} {outs : List ElementsTxOut} {outputs : List (String × ℕ)}
  {order : List (String × ℕ) → List (String × ℕ)} {fee : ℕ} {policyAsset : String}

/-- `changes` gives the change of each asset of the coins, unless an output has another asset. -/
theorem changes_funded (hknown : ∀ u ∈ coins, Knows lib cache u)
    (houts : outs.mapM explicitAmount = .ok outputs) (horder : ∀ l, (order l).Perm l)
    {changes : List AssetValue} :
    (funded coins outs).changes lib order fee (some policyAsset) cache = .ok changes ↔
      (∀ p ∈ outputs, p.1 ∈ (amounts coins).map Prod.fst) ∧
        changes = (order (Tally.tally (amounts coins))).filterMap
          (changeOf dustValue fee policyAsset outputs) := by
  have hkeys : ∀ a, a ∈ (order (Tally.tally (amounts coins))).map Prod.fst ↔
      a ∈ (amounts coins).map Prod.fst := by
    intro a
    rw [((horder _).map Prod.fst).mem_iff, Tally.mem_keys_tally]
  simp only [funded, BETransaction.changes, bind_eq_ok, houts, inputAmounts hknown, Except.ok.injEq,
    exists_eq_left']
  split
  · rename_i hempty
    simp only [hempty, List.map_nil, List.not_mem_nil, false_iff] at hkeys
    simp only [bind_eq_ok, assert_eq_ok, pure_eq_ok, List.isEmpty_iff, exists_const, hempty,
      List.filterMap_nil, hkeys, imp_false, eq_comm (a := changes)]
    rw [← List.eq_nil_iff_forall_not_mem]
  · simp only [bind_eq_ok, assert_eq_ok, pure_eq_ok, unwrap_eq_ok, Option.some.injEq,
      exists_eq_left', exists_const, List.all_eq_true, decide_eq_true_eq, hkeys,
      eq_comm (a := changes)]

/-- The change of an asset of the coins, without the wrapping of machine integers. -/
def changeValue (outputs : List (String × ℕ)) (fee : ℕ) (policyAsset : String) (coins : Utxos)
    (a : String) : ℕ :=
  let rest := Tally.total a (amounts coins) - Tally.total a outputs
  if a = policyAsset then if dustValue < rest - fee then rest - fee else 0 else rest

/-- No amount is too large for a machine integer: neither the coins of an asset together, nor its
outputs and the fee. -/
structure Fits (outputs : List (String × ℕ)) (fee : ℕ) (coins : Utxos) : Prop where
  coins : ∀ a, Tally.total a (amounts coins) < 2 ^ 64
  outputs : ∀ a, Tally.total a outputs + fee < 2 ^ 64

/-- Coins that fall short of nothing cover the outputs and the fee. -/
theorem covered_of_not_short {feeFor : Utxos → ℕ}
    (hshort : ∀ a, ¬ Short outputs policyAsset feeFor coins a)
    (hfits : Fits outputs (feeFor coins) coins) (a : String) :
    Tally.total a outputs + (if a = policyAsset then feeFor coins else 0) ≤
      Tally.total a (amounts coins) := by
  have h := hshort a
  have hcoins := hfits.coins a
  have houts := hfits.outputs a
  rw [Short, Nat.not_lt, Tally.total_append, Tally.total_singleton, u64_of_lt hcoins,
    u64_of_lt (by split <;> omega)] at h
  simp only [@eq_comm _ a policyAsset]
  exact h

theorem total_changes {feeFor : Utxos → ℕ}
    (hshort : ∀ a, ¬ Short outputs policyAsset feeFor coins a)
    (hfits : Fits outputs (feeFor coins) coins) (horder : ∀ l, (order l).Perm l) (a : String) :
    Tally.total a (changeAmounts ((order (Tally.tally (amounts coins))).filterMap
      (changeOf dustValue (feeFor coins) policyAsset outputs))) =
      changeValue outputs (feeFor coins) policyAsset coins a := by
  have hcov := covered_of_not_short hshort hfits a
  have hcoins := hfits.coins a
  have hkeys : ((order (Tally.tally (amounts coins))).map Prod.fst).Nodup :=
    ((horder _).map Prod.fst).nodup_iff.mpr (Tally.nodup_tally _)
  -- the amount of a change as a function of the entry
  let change : String × ℕ → Option ℕ := fun e =>
    (changeOf dustValue (feeFor coins) policyAsset outputs e).map AssetValue.satoshi
  have hchange : changeAmounts ((order (Tally.tally (amounts coins))).filterMap
      (changeOf dustValue (feeFor coins) policyAsset outputs)) =
      (order (Tally.tally (amounts coins))).filterMap fun e => (change e).map fun n => (e.1, n) := by
    rw [changeAmounts, List.map_filterMap]
    refine List.filterMap_congr fun e _ => ?_
    simp only [change, changeOf]
    split <;> split <;> rfl
  rw [hchange]
  by_cases ha : a ∈ (amounts coins).map Prod.fst
  · have hmem : (a, Tally.total a (amounts coins)) ∈ order (Tally.tally (amounts coins)) :=
      (horder _).mem_iff.mpr (Tally.mem_tally.mpr ⟨ha, rfl⟩)
    rw [Tally.total_filterMap hkeys _ hmem]
    have houts := hfits.outputs a
    simp only [change, changeOf, changeValue, u64_of_lt hcoins,
      u64_of_lt (Nat.lt_of_le_of_lt (Nat.le_add_right _ _) houts),
      subU64_of_le (Nat.le_trans (Nat.le_add_right _ _) hcov) hcoins]
    by_cases hp : a = policyAsset
    · rw [if_pos hp] at hcov
      simp only [if_pos hp, subU64_of_le (Nat.le_sub_of_add_le' hcov)
        (Nat.lt_of_le_of_lt (Nat.sub_le _ _) hcoins)]
      split <;> rfl
    · simp only [if_neg hp]
      split
      · rfl
      · rename_i hzero
        exact (Nat.eq_zero_of_not_pos hzero).symm
  · rw [Tally.total_eq_zero, changeValue, Tally.total_eq_zero ha]
    · simp
    · intro hmem
      obtain ⟨p, hp, rfl⟩ := List.mem_map.mp hmem
      obtain ⟨e, he, hfe⟩ := List.mem_filterMap.mp hp
      obtain ⟨n, _, rfl⟩ := Option.map_eq_some_iff.mp hfe
      have he' := List.mem_map_of_mem (f := Prod.fst) ((horder _).mem_iff.mp he)
      exact ha (Tally.mem_keys_tally.mp he')

end Change

/-! ### The fee -/

/-- No address has an empty script. -/
def AddressesHaveScripts (lib : Lib) : Prop :=
  ∀ network s a, lib.parseAddress network s = some a → a.scriptPubkey ≠ []

theorem PaysTo.isFee_eq (hscripts : AddressesHaveScripts lib) {network : NetworkId}
    {address asset : String} {value : ℕ} {o : ElementsTxOut}
    (h : PaysTo lib network address asset value o) : o.isFee = false := by
  obtain ⟨a, _, bytes, ha, _, _, rfl⟩ := h
  simpa [ElementsTxOut.isFee, ElementsTxOut.plain] using hscripts _ _ _ ha

theorem minimumValue_eq {o : ElementsTxOut} {amount : String × ℕ}
    (h : explicitAmount o = .ok amount) : o.minimumValue lib = amount.2 := by
  unfold explicitAmount at h
  split at h
  · rename_i asset value _ hvalue
    cases h
    simp [ElementsTxOut.minimumValue, hvalue]
  · cases h

/-- The value of an input, if the wallet knows it. -/
def valueOf (lib : Lib) (cache : AccountCache) (i : TxIn) : Option ℕ :=
  match cache.previousOutputValue lib i.previousOutput with
  | .ok value => value
  | .error _ => none

theorem previousOutputValue_of_knows {u : OutPoint × UTXOInfo} (h : Knows lib cache u) :
    cache.previousOutputValue lib u.1 = .ok (some u.2.value) := by
  have hvalue := h.value
  simp only [AccountCache.knownValue, bind_eq_ok, unwrap_eq_ok] at hvalue
  obtain ⟨_, hvalue, rfl⟩ := hvalue
  exact hvalue

/-- The order of the inputs does not change their sum. -/
theorem sumInputs_perm {coins : Utxos} (hknown : ∀ u ∈ coins, Knows lib cache u) {input : List TxIn}
    (hinput : input.Perm (inputsOf coins)) :
    BETransaction.sumInputs lib cache input = .ok (u64 ((amounts coins).map Prod.snd).sum) := by
  have hvalue : ∀ i ∈ input, cache.previousOutputValue lib i.previousOutput =
      .ok (valueOf lib cache i) := by
    intro i hi
    obtain ⟨u, hu, rfl⟩ := List.mem_map.mp (hinput.mem_iff.mp hi)
    simp only [valueOf, previousOutputValue_of_knows (hknown u hu)]
  have hvalues : input.mapM (fun i => cache.previousOutputValue lib i.previousOutput) =
      .ok (input.map (valueOf lib cache)) := by
    rw [mapM_eq_ok_iff, List.forall₂_map_right_iff]
    exact List.forall₂_same.mpr hvalue
  have hcoins : (inputsOf coins).filterMap (valueOf lib cache) = (amounts coins).map Prod.snd := by
    rw [inputsOf, amounts, List.filterMap_map, List.map_map, ← List.filterMap_eq_map]
    refine List.filterMap_congr fun u hu => ?_
    simp [valueOf, previousOutputValue_of_knows (hknown u hu)]
  simp only [BETransaction.sumInputs, bind_eq_ok, pure_eq_ok, hvalues, Except.ok.injEq,
    exists_eq_left', List.filterMap_map, Function.id_comp]
  rw [(hinput.filterMap _).sum_eq, hcoins]

/-- The fee is what the coins are worth more than the outputs. -/
theorem finish_elements {coins : Utxos} {outs : List ElementsTxOut} {outputs : List (String × ℕ)}
    (hknown : ∀ u ∈ coins, Knows lib account.cache u) (houts : outs.mapM explicitAmount = .ok outputs)
    (hfee : ∀ o ∈ outs, o.isFee = false) {tx : BETransaction} {fee : ℕ}
    (h : finish lib chance account (funded coins outs) = .ok (tx, fee)) :
    ∃ asset, account.network.policyAsset.bind assetToBin = some asset ∧
      tx = .elements ⟨chance.inputs (inputsOf coins),
        chance.elementsOutputs outs ++ [.plain asset fee .null []]⟩ ∧
      fee = subU64 (u64 ((amounts coins).map Prod.snd).sum) (outputs.map Prod.snd).sum := by
  have hnofee : ¬ (chance.elementsOutputs outs).any ElementsTxOut.isFee = true := by
    rw [List.any_eq_true]
    rintro ⟨o, ho, hisfee⟩
    rw [hfee o ((chance.elementsOutputs_perm outs).mem_iff.mp ho)] at hisfee
    cases hisfee
  have hvalues : (outs.map fun o => o.minimumValue lib) = outputs.map Prod.snd := by
    rw [mapM_eq_ok_iff] at houts
    rw [← List.forall₂_eq_eq_eq, List.forall₂_map_left_iff, List.forall₂_map_right_iff]
    exact houts.imp fun _ _ => minimumValue_eq
  simp only [finish, funded, BETransaction.scramble, BETransaction.fee, if_neg hnofee, bind_eq_ok,
    pure_eq_ok, sumInputs_perm hknown (chance.inputs_perm _), BETransaction.addFeeIfElements,
    okOr_eq_ok, Prod.mk.injEq, Except.ok.injEq, exists_eq_left'] at h
  obtain ⟨_, ⟨asset, hasset, rfl⟩, rfl, rfl⟩ := h
  refine ⟨asset, hasset, rfl, ?_⟩
  rw [((chance.elementsOutputs_perm outs).map _).sum_eq, hvalues]

/-! ### The whole function -/

/-- The fee rate in satoshi per byte. -/
def feeRateOf (account : Account) (request : CreateTransaction) : F64 :=
  F64.ofInt (request.feeRateSatKb account.network) / F64.ofInt 1000

/-- The request with the fee rate that is used. -/
def CreateTransaction.withRate (request : CreateTransaction) (network : Network) :
    CreateTransaction :=
  { request with feeRate := some (request.feeRateSatKb network) }

/-- A request as it was completed with the given coins. -/
def Completed (lib : Lib) (account : Account) (request : CreateTransaction) (utxos : Utxos)
    (request' : CreateTransaction) : Prop :=
  applySendAll lib account (feeRateOf account request) (request.withRate account.network) utxos =
    .ok request'

/-- What `create_tx` does on an Elements chain for a completed request: the outputs `outs` for the
recipients, the coins `coins` among `utxos`, the change `changes` with its outputs, and the fee. -/
structure Created (lib : Lib) (chance : Chance) (account : Account) (policyAsset : String)
    (request : CreateTransaction) (utxos coins : Utxos) (outs changeOuts : List ElementsTxOut)
    (changes : List AssetValue) (feeAsset : Bytes32) (fee : ℕ) (tx : BETransaction) : Prop where
  utxos_eq : account.utxos lib request.numConfs request.confidentialUtxosOnly = .ok utxos
  requested : List.Forall₂ (Requested lib account.network.id) request.addressees outs
  chosen : Chosen utxos (shortIn lib account (feeRateOf account request) request.sendAll policyAsset
    outs (requestedAmounts request)) coins
  covered : ∀ a, ¬ shortIn lib account (feeRateOf account request) request.sendAll policyAsset outs
    (requestedAmounts request) coins a
  change : List.Forall₂ (IsChange lib account) changes.zipIdx changeOuts
  assets : ∀ p ∈ requestedAmounts request, p.1 ∈ (amounts coins).map Prod.fst
  changes_eq : changes = (chance.order (utxos.length + 1) (Tally.tally (amounts coins))).filterMap
    (changeOf dustValue (feeOf lib (feeRateOf account request) request.sendAll account.scriptType outs
      coins) policyAsset (requestedAmounts request))
  feeAsset_eq : assetToBin policyAsset = some feeAsset
  tx_eq : tx = .elements ⟨chance.inputs (inputsOf coins),
    chance.elementsOutputs (outs ++ changeOuts) ++ [.plain feeAsset fee .null []]⟩
  fee_eq : fee = subU64 (u64 ((amounts coins).map Prod.snd).sum)
    ((requestedAmounts request ++ changeAmounts changes).map Prod.snd).sum

theorem changes_assets {coins : Utxos} (hknown : ∀ u ∈ coins, Knows lib cache u)
    {order : List (String × ℕ) → List (String × ℕ)} (horder : ∀ l, (order l).Perm l) {fee : ℕ}
    {policyAsset : String} {outputs : List (String × ℕ)} {c : AssetValue}
    (h : c ∈ (order (Tally.tally (amounts coins))).filterMap
      (changeOf dustValue fee policyAsset outputs)) : ∃ asset, c.asset = assetToHex asset := by
  obtain ⟨e, he, hc⟩ := List.mem_filterMap.mp h
  have hkey : c.asset = e.1 := by
    simp only [changeOf] at hc
    split at hc <;> split at hc <;> cases hc <;> rfl
  have hmem := Tally.mem_keys_tally.mp (List.mem_map_of_mem (f := Prod.fst) ((horder _).mem_iff.mp he))
  rw [amounts, List.map_map] at hmem
  obtain ⟨u, hu, hue⟩ := List.mem_map.mp hmem
  obtain ⟨asset, hasset⟩ := (hknown u hu).asset_eq
  exact ⟨asset, by rw [hkey, ← hue, ← hasset]; rfl⟩

theorem prepareTemplate_elements {network : ElementsNetwork} {request : CreateTransaction}
    (hnet : account.network.id = .elements network) {template : Option BETransaction}
    {reused : Option String} {request' : CreateTransaction}
    (h : prepareTemplate lib parseTx account request = .ok (template, reused, request')) :
    template = none ∧ reused = none ∧ request' = request := by
  unfold prepareTemplate at h
  split at h
  · simp only [bind_eq_ok, pure_eq_ok, Prod.mk.injEq] at h
    obtain ⟨_, _, rfl, rfl, rfl⟩ := h
    exact ⟨rfl, rfl, rfl⟩
  · simp [hnet, NetworkId.isLiquid] at h

/-- Not more is sent than there is. -/
theorem sendAllAmount_le {feeRate : F64} {out : AddressAmount} {utxos : Utxos} {n : ℕ}
    (h : sendAllAmount lib account feeRate out utxos = .ok n) :
    n ≤ Tally.total (out.assetId.getD btc) (amounts utxos) := by
  rw [total_amounts]
  simp only [sendAllAmount] at h
  split at h
  · simp only [bind_eq_ok, pure_eq_ok] at h
    obtain ⟨_, _, _, _, rfl⟩ := h
    exact (Nat.sub_le _ _).trans (Nat.mod_le _ _)
  · rw [pure_eq_ok] at h
    rw [← h]
    exact Nat.mod_le _ _

/-- The same recipients, with amounts that may be different. -/
def SameRecipient (r r' : AddressAmount) : Prop := r'.address = r.address ∧ r'.assetId = r.assetId

/-- Sending everything changes only the amount of the one recipient. -/
theorem applySendAll_ok {feeRate : F64} {request request' : CreateTransaction} {utxos : Utxos}
    (h : applySendAll lib account feeRate request utxos = .ok request') :
    ∃ addressees, request' = { request with addressees := addressees } ∧
      List.Forall₂ SameRecipient request.addressees addressees ∧
      (request.sendAll = false → addressees = request.addressees) ∧
      (request.sendAll = true → ∃ out, addressees = [out] ∧
        out.satoshi ≤ Tally.total (out.assetId.getD btc) (amounts utxos)) := by
  unfold applySendAll at h
  -- one recipient gets all that is there
  split at h
  · rename_i hall
    split at h
    · rename_i out hone
      simp only [bind_eq_ok, pure_eq_ok] at h
      obtain ⟨n, hn, rfl⟩ := h
      have hle := sendAllAmount_le hn
      refine ⟨_, rfl, ?_, ?_, fun _ => ⟨_, rfl, hle⟩⟩
      · rw [hone]
        exact .cons ⟨rfl, rfl⟩ .nil
      · intro hnot
        rw [hall] at hnot
        cases hnot
    · cases h
  · -- otherwise the recipients are as they were asked for
    rename_i hall
    rw [pure_eq_ok] at h
    refine ⟨request.addressees, h.symm, List.forall₂_same.mpr fun _ _ => ⟨rfl, rfl⟩, fun _ => rfl,
      fun hsend => absurd hsend hall⟩

/-- The inputs and the change of a transaction with the requested outputs. -/
theorem fund_elements {network : ElementsNetwork} {policyAsset : String} {feeRate : F64}
    {sendAll : Bool} {utxos : Utxos} {outs : List ElementsTxOut} {outputs : List (String × ℕ)}
    (hnet : account.network.id = .elements network)
    (hpolicy : account.network.policyAsset = some policyAsset)
    (hknown : ∀ u ∈ utxos, Knows lib account.cache u) (houts : outs.mapM explicitAmount = .ok outputs)
    {tx : BETransaction} {changesUsed : ℕ}
    (h : fund lib chance account feeRate sendAll utxos none (.elements ⟨[], outs⟩) =
      .ok (tx, changesUsed)) :
    ∃ coins changes changeOuts, tx = funded coins (outs ++ changeOuts) ∧
      changesUsed = changes.length ∧
      Chosen utxos (shortIn lib account feeRate sendAll policyAsset outs outputs) coins ∧
      (∀ a, ¬ shortIn lib account feeRate sendAll policyAsset outs outputs coins a) ∧
      (∀ p ∈ outputs, p.1 ∈ (amounts coins).map Prod.fst) ∧
      changes = (chance.order (utxos.length + 1) (Tally.tally (amounts coins))).filterMap
        (changeOf dustValue (feeOf lib feeRate sendAll account.scriptType outs coins) policyAsset
          outputs) ∧
      List.Forall₂ (IsChange lib account) changes.zipIdx changeOuts := by
  simp only [fund, bind_eq_ok, pure_eq_ok, Prod.mk.injEq] at h
  obtain ⟨tx₁, hinputs, more, hmore, changes, hchanges, tx₂, hadd, rfl, rfl⟩ := h
  -- the inputs are chosen until they cover the payments
  obtain ⟨coins, rfl, hchosen, hcovered⟩ :=
    addInputs_ok hnet hpolicy hknown houts hinputs (Chosen.nil _ _)
  have hcoins : ∀ u ∈ coins, Knows lib account.cache u := fun u hu => hknown u (hchosen.mem u hu)
  -- the change is what the coins are worth above the payments and the fee
  rw [estimatedChanges_funded hcoins, Except.ok.injEq] at hmore
  rw [hpolicy, ← hmore, ← feeOf, changes_funded hcoins houts (chance.order_perm _)] at hchanges
  obtain ⟨changeOuts, rfl, hchangeOuts⟩ := addChanges_elements hadd
  exact ⟨coins, changes, changeOuts, rfl, rfl, hchosen, hcovered, hchanges.1, hchanges.2, hchangeOuts⟩

theorem createTx_created {network : ElementsNetwork} {policyAsset : String}
    {request : CreateTransaction} {created : TransactionMeta}
    (hnet : account.network.id = .elements network)
    (hpolicy : account.network.policyAsset = some policyAsset)
    (hsound : account.cache.Sound lib account.network.id) (hscripts : AddressesHaveScripts lib)
    (hown : request.utxos = none)
    (h : createTx lib parseTx chance account request = .ok created) :
    ∃ utxos coins outs changeOuts changes feeAsset,
      Completed lib account request utxos created.request ∧ created.changesUsed = changes.length ∧
      Created lib chance account policyAsset created.request utxos coins outs changeOuts changes
        feeAsset created.fee created.tx := by
  simp only [createTx, bind_eq_ok, ensure_eq_ok, exists_const] at h
  -- the template is empty, because no transaction is replaced
  obtain ⟨_, _, _, ⟨template, reused, request₁⟩, hprepare, h⟩ := h
  obtain ⟨rfl, rfl, rfl⟩ := prepareTemplate_elements hnet hprepare
  simp only [hown, bind_eq_ok] at h
  obtain ⟨utxos, hutxos, request₂, hall, tx₁, hstart, ⟨tx₂, changesUsed⟩, hfund, ⟨tx₃, fee⟩, hfinish,
    satoshi, _, hcreated⟩ := h
  rw [pure_eq_ok] at hcreated
  subst hcreated
  have hcompleted := hall
  rw [← hown] at hcompleted
  obtain ⟨addressees, rfl, _⟩ := applySendAll_ok hall
  rw [startTx, hnet, BETransaction.new] at hstart
  -- the outputs of the payments
  obtain ⟨outs, rfl, houts⟩ := addRequested_elements hstart
  have hamounts := requested_amounts houts
  have hknown : ∀ u ∈ utxos, Knows lib account.cache u := fun u hu =>
    utxos_known hnet hsound hutxos hu
  rw [List.nil_append] at hfund
  obtain ⟨coins, changes, changeOuts, rfl, rfl, hchosen, hcovered, hassets, hchanges, hchangeOuts⟩ :=
    -- the coins and the change
    fund_elements hnet hpolicy hknown hamounts hfund
  have hcoins : ∀ u ∈ coins, Knows lib account.cache u := fun u hu => hknown u (hchosen.mem u hu)
  -- the amounts of all outputs are explicit before they are blinded
  have hchangeAmounts : changeOuts.mapM explicitAmount = .ok (changeAmounts changes) := by
    have hall := change_amounts (fun c hc => changes_assets hcoins (chance.order_perm _)
      (hchanges ▸ List.fst_mem_of_mem_zipIdx hc)) hchangeOuts
    rwa [List.zipIdx_map_fst] at hall
  have hallAmounts : (outs ++ changeOuts).mapM explicitAmount =
      .ok (addressees.filterMap requestedAmount ++ changeAmounts changes) := by
    rw [mapM_eq_ok_iff] at hamounts hchangeAmounts ⊢
    exact List.rel_append hamounts hchangeAmounts
  -- the fee is the only output without a script
  have hnofee : ∀ o ∈ outs ++ changeOuts, o.isFee = false := by
    intro o ho
    rcases List.mem_append.mp ho with ho | ho
    · obtain ⟨r, _, asset, _, hpays⟩ := Forall₂.exists_of_mem houts ho
      exact hpays.isFee_eq hscripts
    · obtain ⟨c, _, address, _, hpays⟩ := Forall₂.exists_of_mem hchangeOuts ho
      exact hpays.isFee_eq hscripts
  obtain ⟨feeAsset, hfeeAsset, rfl, rfl⟩ := finish_elements hcoins hallAmounts hnofee hfinish
  rw [hpolicy] at hfeeAsset
  exact ⟨utxos, coins, outs, changeOuts, changes, feeAsset, hcompleted, rfl, hutxos, hnet ▸ houts,
    hchosen, hcovered, hchangeOuts, hassets, hchanges, hfeeAsset, rfl, rfl⟩

end SideSwap.Gdk
