import SideSwap.Gdk.CreateTx
import SideSwap.Lib.Forall2
import SideSwap.Lib.LargestFirst
import SideSwap.Libwally.Completed

/-!
# How a transaction is funded

What each step of `create_tx` does on an Elements chain, for a wallet that knows its own coins: the
unspent outputs are distinct and known (`utxos_known`, `utxos_nodup`), the loop over the inputs
takes a coin only where one is needed, the largest first (`Chosen`), and stops when nothing is
needed (`addInputs_ok`) or when a coin is needed and there is none (`addInputs_error`).
-/

namespace SideSwap.Gdk

open Libwally Call

variable {lib : Lib} {chance : Chance} {account : Account} {cache : AccountCache}

/-! ### Asset identifiers -/

theorem assetToBin_assetToHex (asset : Bytes32) : assetToBin (assetToHex asset) = some asset := by
  have hlen : asset.bytes.reverse.reverse.length = 32 := by
    rw [List.reverse_reverse, asset.length]
  rw [assetToBin, assetToHex, hexDecode_hexEncode]
  simp only [Option.bind_eq_bind, Option.bind_some, dif_pos hlen]
  simp

/-! ### What the wallet knows -/

/-- A transaction of the given chain. -/
def BETransaction.OnChain (network : NetworkId) : BETransaction → Prop
  | .bitcoin _ => network.isLiquid = false
  | .elements _ => network.isLiquid = true

/-- What holds of the transactions in the cache of an account: each is on the account's chain and is
stored under its own id. -/
structure AccountCache.Sound (lib : Lib) (network : NetworkId) (cache : AccountCache) : Prop where
  txid : ∀ {txid tx}, cache.allTxs.lookup txid = some tx → lib.txid tx = txid
  onChain : ∀ {txid tx}, cache.allTxs.lookup txid = some tx → tx.OnChain network

/-- The wallet knows a coin's asset and value. -/
structure Knows (lib : Lib) (cache : AccountCache) (u : OutPoint × UTXOInfo) : Prop where
  asset : cache.knownAssetHex lib u.1 = .ok u.2.asset
  value : cache.knownValue lib u.1 = .ok u.2.value

theorem knownAssetHex_of_lookup {t : ElementsTx} {o : OutPoint} {u : Unblinded}
    (htx : cache.allTxs.lookup o.txid = some (.elements t))
    (hid : lib.txid (.elements t) = o.txid) (hu : cache.unblinded.lookup o = some u) :
    cache.knownAssetHex lib o = .ok u.assetHex := by
  obtain ⟨txid, vout⟩ := o
  subst hid
  simp only [AccountCache.knownAssetHex, AccountCache.previousOutputAssetHex, htx,
    BETransaction.outputAssetHex, bind_eq_ok, map_eq_ok, unwrap_eq_ok, pure_eq_ok]
  exact ⟨some u.assetHex, ⟨_, ⟨u, hu, rfl⟩, _, rfl, rfl⟩, rfl⟩

theorem knownValue_of_lookup {t : ElementsTx} {o : OutPoint} {u : Unblinded}
    (htx : cache.allTxs.lookup o.txid = some (.elements t))
    (hid : lib.txid (.elements t) = o.txid) (hu : cache.unblinded.lookup o = some u) :
    cache.knownValue lib o = .ok u.value := by
  obtain ⟨txid, vout⟩ := o
  subst hid
  simp only [AccountCache.knownValue, AccountCache.previousOutputValue, htx,
    BETransaction.outputValue, bind_eq_ok, map_eq_ok, unwrap_eq_ok]
  exact ⟨some u.value, ⟨_, ⟨u, hu, rfl⟩, rfl⟩, rfl⟩

/-- A known coin has the hexadecimal form of an asset. -/
theorem Knows.asset_eq {u : OutPoint × UTXOInfo} (h : Knows lib cache u) :
    ∃ asset, u.2.asset = assetToHex asset := by
  have hasset := h.asset
  simp only [AccountCache.knownAssetHex, bind_eq_ok, unwrap_eq_ok] at hasset
  obtain ⟨hex, hprev, rfl⟩ := hasset
  unfold AccountCache.previousOutputAssetHex at hprev
  split at hprev
  · cases hprev
  · rename_i tx _
    simp only [bind_eq_ok, unwrap_eq_ok, pure_eq_ok, Option.some.injEq] at hprev
    obtain ⟨_, hout, hex, rfl, rfl⟩ := hprev
    cases tx with
    | bitcoin t =>
      simp [BETransaction.outputAssetHex] at hout
    | elements t =>
      simp only [BETransaction.outputAssetHex, map_eq_ok, Option.some.injEq] at hout
      obtain ⟨u, _, hu⟩ := hout
      exact ⟨u.asset, hu.symm⟩

/-! ### The unspent outputs -/

theorem elementsUtxo_spec {policyAsset : Bytes32} {conf : Bool} {t : ElementsTx}
    {height : Option ℕ} {vout : ℕ} {o : ElementsTxOut} {u : OutPoint × UTXOInfo}
    (h : account.elementsUtxo lib policyAsset conf t height vout o = some u) :
    ∃ b, account.cache.unblinded.lookup u.1 = some b ∧ u.2.asset = b.assetHex ∧ u.2.value = b.value ∧
      u.1 = ⟨lib.txid (.elements t), vout⟩ ∧ u.1 ∉ account.spent ∧
      account.cache.paths.lookup u.2.script = some u.2.path := by
  simp only [Account.elementsUtxo, Option.bind_eq_bind, Option.bind_eq_some_iff] at h
  obtain ⟨path, hpath, h⟩ := h
  split at h
  · cases h
  · rename_i hunspent
    rw [Option.bind_eq_some_iff] at h
    obtain ⟨b, hb, h⟩ := h
    split at h
    · cases h
    · split at h
      · cases h
      · cases h
        exact ⟨b, hb, rfl, rfl, rfl, hunspent, hpath⟩

/-- An unspent output is one of a transaction of the list. -/
theorem mem_utxos {numConfs : ℕ} {conf : Bool} {utxos : Utxos}
    (h : account.utxos lib numConfs conf = .ok utxos) {u : OutPoint × UTXOInfo} :
    u ∈ utxos ↔ ∃ e ∈ account.cache.heights.entries, numConfs ≤ confirmations account.tip e.2 ∧
      ∃ tx l, account.cache.allTxs.lookup e.1 = some tx ∧
        account.txUtxos lib conf tx e.2 = .ok l ∧ u ∈ l := by
  simp only [Account.utxos, bind_eq_ok, pure_eq_ok] at h
  obtain ⟨lists, hlists, rfl⟩ := h
  rw [mapM_eq_ok_iff] at hlists
  rw [List.mem_insertionSort, List.mem_flatten]
  -- a coin comes from one of the transactions with enough confirmations
  constructor
  · rintro ⟨l, hl, hu⟩
    obtain ⟨e, he, hel⟩ := Forall₂.exists_of_mem hlists hl
    simp only [bind_eq_ok, okOr_eq_ok] at hel
    obtain ⟨tx, htx, hel⟩ := hel
    rw [List.mem_filter, decide_eq_true_eq] at he
    exact ⟨e, he.1, he.2, tx, l, htx, hel, hu⟩
  · -- and each of these is asked for its coins
    rintro ⟨e, he, hconf, tx, l, htx, hl, hu⟩
    have hmem : e ∈ account.cache.heights.entries.filter fun e =>
        decide (numConfs ≤ confirmations account.tip e.2) :=
      List.mem_filter.mpr ⟨he, decide_eq_true hconf⟩
    obtain ⟨i, hi⟩ := List.mem_iff_getElem?.mp hmem
    obtain ⟨l', hl', hel⟩ := Forall₂.getElem? hlists hi
    simp only [bind_eq_ok, okOr_eq_ok] at hel
    obtain ⟨tx', htx', hel⟩ := hel
    rw [htx, Option.some.injEq] at htx'
    rw [← htx', hl, Except.ok.injEq] at hel
    exact ⟨l, hel ▸ List.mem_of_getElem? hl', hu⟩

theorem utxos_known {network : ElementsNetwork} (hnet : account.network.id = .elements network)
    (hsound : account.cache.Sound lib account.network.id) {numConfs : ℕ} {conf : Bool}
    {utxos : Utxos} (h : account.utxos lib numConfs conf = .ok utxos) {u : OutPoint × UTXOInfo}
    (hu : u ∈ utxos) : Knows lib account.cache u := by
  obtain ⟨e, _, _, tx, l, htx, hl, hul⟩ := (mem_utxos h).mp hu
  have hchain := hsound.onChain htx
  have hid := hsound.txid htx
  cases tx with
  | bitcoin t => simp [BETransaction.OnChain, hnet, NetworkId.isLiquid] at hchain
  | elements t =>
    simp only [Account.txUtxos, bind_eq_ok, pure_eq_ok] at hl
    obtain ⟨_, _, rfl⟩ := hl
    obtain ⟨_, _, hp⟩ := List.mem_filterMap.mp hul
    obtain ⟨b, hb, hasset, hvalue, ho, _, _⟩ := elementsUtxo_spec hp
    have htxid : lib.txid (.elements t) = u.1.txid := by rw [ho]
    rw [← hid, htxid] at htx
    constructor
    · rw [knownAssetHex_of_lookup htx htxid hb, hasset]
    · rw [knownValue_of_lookup htx htxid hb, hvalue]

theorem utxos_unspent {network : ElementsNetwork} (hnet : account.network.id = .elements network)
    (hsound : account.cache.Sound lib account.network.id) {numConfs : ℕ} {conf : Bool}
    {utxos : Utxos} (h : account.utxos lib numConfs conf = .ok utxos) {u : OutPoint × UTXOInfo}
    (hu : u ∈ utxos) : u.1 ∉ account.spent := by
  obtain ⟨e, _, _, tx, l, htx, hl, hul⟩ := (mem_utxos h).mp hu
  have hchain := hsound.onChain htx
  cases tx with
  | bitcoin t => simp [BETransaction.OnChain, hnet, NetworkId.isLiquid] at hchain
  | elements t =>
    simp only [Account.txUtxos, bind_eq_ok, pure_eq_ok] at hl
    obtain ⟨_, _, rfl⟩ := hl
    obtain ⟨_, _, hp⟩ := List.mem_filterMap.mp hul
    obtain ⟨_, _, _, _, _, hunspent, _⟩ := elementsUtxo_spec hp
    exact hunspent

/-- The results of a partial function keep the order of what they come from. -/
theorem map_filterMap_sublist {α β γ : Type} {f : α → Option β} {g : β → γ} {k : α → γ}
    (h : ∀ a b, f a = some b → g b = k a) (l : List α) : ((l.filterMap f).map g).Sublist (l.map k) := by
  induction l with
  | nil => exact .slnil
  | cons a l ih =>
    cases hf : f a with
    | none =>
      rw [List.filterMap_cons_none hf]
      exact ih.cons _
    | some b =>
      rw [List.filterMap_cons_some hf, List.map_cons, List.map_cons, h a b hf]
      exact ih.cons_cons _

/-- The unspent outputs of one transaction are distinct and of this transaction. -/
theorem txUtxos_outpoints {network : ElementsNetwork} (hnet : account.network.id = .elements network)
    (hsound : account.cache.Sound lib account.network.id) {conf : Bool} {txid : Txid}
    {height : Option ℕ} {tx : BETransaction} {l : Utxos}
    (htx : account.cache.allTxs.lookup txid = some tx)
    (h : account.txUtxos lib conf tx height = .ok l) :
    (l.map Prod.fst).Nodup ∧ ∀ o ∈ l.map Prod.fst, o.txid = txid := by
  have hchain := hsound.onChain htx
  have hid := hsound.txid htx
  cases tx with
  | bitcoin t => simp [BETransaction.OnChain, hnet, NetworkId.isLiquid] at hchain
  | elements t =>
    simp only [Account.txUtxos, bind_eq_ok, pure_eq_ok] at h
    obtain ⟨policyAsset, _, rfl⟩ := h
    constructor
    · -- the coins of a transaction have the places of its outputs, of which no two agree
      have hsub := map_filterMap_sublist
        (f := fun p => account.elementsUtxo lib policyAsset conf t height p.2 p.1)
        (g := fun u => u.1.vout) (k := Prod.snd)
        (fun p u hp => by
          obtain ⟨_, _, _, _, ho, _⟩ := elementsUtxo_spec hp
          rw [ho]) t.output.zipIdx
      have hnodup := hsub.nodup (List.nodup_zipIdx_map_snd _)
      rw [← Function.comp_def OutPoint.vout Prod.fst, ← List.map_map] at hnodup
      exact hnodup.of_map _
    · -- and the transaction's own identifier
      intro o ho
      obtain ⟨u, hu, rfl⟩ := List.mem_map.mp ho
      obtain ⟨_, _, hp⟩ := List.mem_filterMap.mp hu
      obtain ⟨_, _, _, _, ho, _⟩ := elementsUtxo_spec hp
      rw [ho, ← hid]

theorem utxos_nodup {network : ElementsNetwork} (hnet : account.network.id = .elements network)
    (hsound : account.cache.Sound lib account.network.id) {numConfs : ℕ} {conf : Bool}
    {utxos : Utxos} (h : account.utxos lib numConfs conf = .ok utxos) :
    (utxos.map Prod.fst).Nodup := by
  simp only [Account.utxos, bind_eq_ok, pure_eq_ok] at h
  obtain ⟨lists, hlists, rfl⟩ := h
  rw [mapM_eq_ok_iff] at hlists
  rw [((List.perm_insertionSort _ _).map Prod.fst).nodup_iff]
  have hkeys : ((account.cache.heights.entries.filter fun e =>
      decide (numConfs ≤ confirmations account.tip e.2)).map Sigma.fst).Nodup :=
    (List.filter_sublist.map Sigma.fst).nodup account.cache.heights.keys_nodup
  generalize account.cache.heights.entries.filter _ = entries at hlists hkeys
  induction hlists with
  | nil => exact List.nodup_nil
  | @cons e l entries lists hel hrest ih =>
    simp only [bind_eq_ok, okOr_eq_ok] at hel
    obtain ⟨tx, htx, hel⟩ := hel
    obtain ⟨hnodup, htxid⟩ := txUtxos_outpoints hnet hsound htx hel
    rw [List.map_cons, List.nodup_cons] at hkeys
    rw [List.flatten_cons, List.map_append, List.nodup_append']
    refine ⟨hnodup, ih hkeys.2, ?_⟩
    -- an outpoint of a later list has another transaction id
    intro o ho ho'
    rw [List.map_flatten, List.mem_flatten] at ho'
    obtain ⟨l', hl', ho'⟩ := ho'
    obtain ⟨l'', hl'', rfl⟩ := List.mem_map.mp hl'
    obtain ⟨e', he', hel'⟩ := Forall₂.exists_of_mem hrest hl''
    simp only [bind_eq_ok, okOr_eq_ok] at hel'
    obtain ⟨tx', htx', hel'⟩ := hel'
    have hsame := (txUtxos_outpoints hnet hsound htx' hel').2 o ho'
    rw [htxid o ho] at hsame
    exact hkeys.1 (hsame ▸ List.mem_map.mpr ⟨e', he', rfl⟩)

/-! ### What is needed -/

/-- The amounts of coins. -/
def amounts (coins : Utxos) : List (String × ℕ) := coins.map fun u => (u.2.asset, u.2.value)

/-- The coins of an asset. -/
def ofAsset (asset : String) (coins : Utxos) : Utxos :=
  coins.filter fun u => decide (u.2.asset = asset)

theorem total_amounts (asset : String) (coins : Utxos) :
    Tally.total asset (amounts coins) = ((ofAsset asset coins).map fun u => u.2.value).sum := by
  rw [Tally.total, amounts, List.filter_map, List.map_map]
  rfl

/-- The inputs that spend coins, as they are added on Elements. -/
def inputsOf (coins : Utxos) : List TxIn := coins.map fun u => ⟨u.1, [], 0xfffffffe, []⟩

/-- The transaction with the given outputs that spends the given coins. -/
def funded (coins : Utxos) (outs : List ElementsTxOut) : BETransaction :=
  .elements ⟨inputsOf coins, outs⟩

/-- The number of change outputs that `estimated_changes` expects for the given coins. -/
def changeCount (sendAll : Bool) (coins : Utxos) : ℕ :=
  let different := (coins.map fun u => u.2.asset).dedup.length
  if different = 0 then 0 else (different % 256 + (256 - sendAll.toNat)) % 256

/-- The fee that is estimated before the change is added. -/
def feeOf (lib : Lib) (feeRate : F64) (sendAll : Bool) (scriptType : ScriptType)
    (outs : List ElementsTxOut) (coins : Utxos) : ℕ :=
  (funded coins outs).estimatedFee lib feeRate (changeCount sendAll coins) scriptType

section Needs

variable {coins : Utxos} {outs : List ElementsTxOut} {outputs : List (String × ℕ)}
  {order : List (String × ℕ) → List (String × ℕ)} {feeRate : F64} {sendAll : Bool}
  {policyAsset : String} {scriptType : ScriptType}

theorem inputAmounts (hknown : ∀ u ∈ coins, Knows lib cache u) :
    (inputsOf coins).mapM (inputAmount lib cache) = .ok (amounts coins) := by
  rw [mapM_eq_ok_iff, inputsOf, amounts, List.forall₂_map_left_iff, List.forall₂_map_right_iff]
  refine List.forall₂_same.mpr fun u hu => ?_
  simp [inputAmount, (hknown u hu).asset, (hknown u hu).value]

theorem estimatedChanges_funded (hknown : ∀ u ∈ coins, Knows lib cache u) :
    (funded coins outs).estimatedChanges lib sendAll cache = .ok (changeCount sendAll coins) := by
  have hassets : (inputsOf coins).mapM (fun i => cache.knownAssetHex lib i.previousOutput) =
      .ok (coins.map fun u => u.2.asset) := by
    rw [mapM_eq_ok_iff, inputsOf, List.forall₂_map_left_iff, List.forall₂_map_right_iff]
    exact List.forall₂_same.mpr fun u hu => (hknown u hu).asset
  simp only [funded, BETransaction.estimatedChanges, hassets, bind_eq_ok, pure_eq_ok]
  exact ⟨_, rfl, rfl⟩

theorem needs_funded (order : List (String × ℕ) → List (String × ℕ)) (feeRate : F64) (sendAll : Bool)
    (policyAsset : String) (scriptType : ScriptType) (hknown : ∀ u ∈ coins, Knows lib cache u)
    (houts : outs.mapM explicitAmount = .ok outputs) :
    (funded coins outs).needs lib order feeRate sendAll (some policyAsset) cache scriptType =
      .ok (policyLast policyAsset (missing order
        (outputs ++ [(policyAsset, feeOf lib feeRate sendAll scriptType outs coins)])
        (amounts coins))) := by
  simp only [funded, BETransaction.needs, bind_eq_ok, pure_eq_ok, unwrap_eq_ok]
  exact ⟨_, rfl, outputs, houts, _, inputAmounts hknown, _, estimatedChanges_funded hknown, rfl⟩

theorem policyLast_perm (policyAsset : String) (needs : List AssetValue) :
    (policyLast policyAsset needs).Perm needs := by
  simp only [policyLast]
  split
  · rename_i e l he hl
    obtain ⟨hi, rfl⟩ := List.getElem?_eq_some_iff.mp he
    rw [List.getLast?_eq_getElem?] at hl
    obtain ⟨hj, rfl⟩ := List.getElem?_eq_some_iff.mp hl
    exact List.set_set_perm hi hj
  · exact List.Perm.refl _

/-- What is missing is what some outputs have more than the inputs. -/
theorem mem_missing (horder : ∀ l, (order l).Perm l) {inputs : List (String × ℕ)} {a : String}
    {n : ℕ} : ⟨a, n⟩ ∈ missing order outputs inputs ↔
      u64 (Tally.total a inputs) < u64 (Tally.total a outputs) ∧
        n = u64 (Tally.total a outputs) - u64 (Tally.total a inputs) := by
  simp only [missing, List.mem_filterMap, (horder _).mem_iff]
  constructor
  · rintro ⟨⟨a', v⟩, he, hs⟩
    split at hs
    · rename_i hlt
      cases hs
      obtain ⟨_, rfl⟩ := Tally.mem_tally.mp he
      exact ⟨hlt, rfl⟩
    · cases hs
  · rintro ⟨hlt, rfl⟩
    have hkey : a ∈ outputs.map Prod.fst := by
      by_contra hnot
      rw [Tally.total_eq_zero hnot] at hlt
      exact absurd hlt (Nat.not_lt_zero _)
    exact ⟨(a, Tally.total a outputs), Tally.mem_tally.mpr ⟨hkey, rfl⟩, if_pos hlt⟩

/-- Nothing is needed if the coins cover the outputs, and otherwise some amount that is missing. -/
theorem last_needs (policyAsset : String) (outputs inputs : List (String × ℕ))
    (horder : ∀ l, (order l).Perm l) :
    ((policyLast policyAsset (missing order outputs inputs)).getLast? = none ↔
      ∀ a, u64 (Tally.total a outputs) ≤ u64 (Tally.total a inputs)) ∧
    ∀ need, (policyLast policyAsset (missing order outputs inputs)).getLast? = some need →
      u64 (Tally.total need.asset inputs) < u64 (Tally.total need.asset outputs) := by
  constructor
  · rw [List.getLast?_eq_none_iff, ← List.length_eq_zero_iff, (policyLast_perm _ _).length_eq,
      List.length_eq_zero_iff, List.eq_nil_iff_forall_not_mem]
    constructor
    · intro h a
      by_contra hlt
      exact h ⟨a, _⟩ ((mem_missing horder).mpr ⟨Nat.not_le.mp hlt, rfl⟩)
    · rintro h ⟨a, n⟩ hmem
      have := ((mem_missing horder).mp hmem).1
      have := h a
      omega
  · intro need hneed
    have hmem := (policyLast_perm policyAsset _).mem_iff.mp
      (List.mem_of_getLast? hneed)
    exact ((mem_missing horder).mp hmem).1

end Needs

/-! ### The coins that are taken -/

/-- The last one of a sorted list is a largest one. -/
theorem le_getLast {α : Type} (value : α → ℕ) {l : List α} {x : α}
    (h : (l.insertionSort fun a b => value a ≤ value b).getLast? = some x) :
    x ∈ l ∧ ∀ y ∈ l, value y ≤ value x := by
  have : Std.Total fun a b : α => value a ≤ value b := ⟨fun a b => Nat.le_total _ _⟩
  have : IsTrans α fun a b => value a ≤ value b := ⟨fun a b c => Nat.le_trans⟩
  have hsorted := List.pairwise_insertionSort (fun a b => value a ≤ value b) l
  obtain ⟨init, hinit⟩ := List.getLast?_eq_some_iff.mp h
  refine ⟨(List.mem_insertionSort _).mp (List.mem_of_getLast? h), fun y hy => ?_⟩
  rw [← List.mem_insertionSort fun a b => value a ≤ value b, hinit, List.mem_append,
    List.mem_singleton] at hy
  rw [hinit, List.pairwise_append] at hsorted
  rcases hy with hy | rfl
  · exact hsorted.2.2 y hy x (List.mem_singleton_self x)
  · exact Nat.le_refl _

theorem largestUnused_some {utxos : Utxos} {used : List OutPoint} {asset : String}
    {u : OutPoint × UTXOInfo} (h : largestUnused utxos used asset = some u) :
    u ∈ utxos ∧ u.2.asset = asset ∧ u.1 ∉ used ∧
      ∀ v ∈ utxos, v.2.asset = asset → v.1 ∉ used → v.2.value ≤ u.2.value := by
  obtain ⟨hu, hmax⟩ := le_getLast (fun u : OutPoint × UTXOInfo => u.2.value) h
  simp only [List.mem_filter, Bool.and_eq_true, decide_eq_true_eq] at hu hmax
  exact ⟨hu.1, hu.2.1, hu.2.2, fun v hv hasset hfree => hmax v ⟨hv, hasset, hfree⟩⟩

theorem largestUnused_none {utxos : Utxos} {used : List OutPoint} {asset : String}
    (h : largestUnused utxos used asset = none) :
    ∀ v ∈ utxos, v.2.asset = asset → v.1 ∈ used := by
  intro v hv hasset
  rw [largestUnused, List.getLast?_eq_none_iff, ← List.length_eq_zero_iff,
    List.length_insertionSort, List.length_eq_zero_iff, List.filter_eq_nil_iff] at h
  by_contra hfree
  exact h v hv (by simp [hasset, hfree])

/-- An asset is short: the coins do not cover the outputs and, for the policy asset, the fee. -/
def Short (outputs : List (String × ℕ)) (policyAsset : String) (fee : Utxos → ℕ) (coins : Utxos)
    (asset : String) : Prop :=
  u64 (Tally.total asset (amounts coins)) <
    u64 (Tally.total asset (outputs ++ [(policyAsset, fee coins)]))

/-- Coins that are distinct, each taken while its asset was short, as a largest one of those of its
asset that were left. -/
structure Chosen (utxos : Utxos) (short : Utxos → String → Prop) (coins : Utxos) : Prop where
  nodup : (coins.map Prod.fst).Nodup
  mem : ∀ u ∈ coins, u ∈ utxos
  wanted : ∀ before u after, coins = before ++ u :: after → short before u.2.asset
  top : ∀ before u after, coins = before ++ u :: after → ∀ v ∈ utxos, v.2.asset = u.2.asset →
    v.1 ∉ before.map Prod.fst → v.2.value ≤ u.2.value

theorem Chosen.nil (utxos : Utxos) (short : Utxos → String → Prop) : Chosen utxos short [] where
  nodup := List.nodup_nil
  mem := fun u hu => by cases hu
  wanted := fun before u after h => by simp at h
  top := fun before u after h => by simp at h

/-- A coin of a list with one more coin is the last one, or one of the list. -/
theorem eq_append_cons_of_snoc {α : Type} {l before after : List α} {x y : α}
    (h : l ++ [x] = before ++ y :: after) :
    (before = l ∧ y = x) ∨ ∃ rest, l = before ++ y :: rest := by
  rcases List.eq_nil_or_concat after with rfl | ⟨rest, last, rfl⟩
  · obtain ⟨hl, hx⟩ := List.append_inj' h rfl
    rw [List.cons.injEq] at hx
    exact .inl ⟨hl.symm, hx.1.symm⟩
  · rw [List.concat_eq_append, ← List.cons_append, ← List.append_assoc] at h
    obtain ⟨hl, _⟩ := List.append_inj' h rfl
    exact .inr ⟨rest, hl⟩

/-- The largest unused coin of a short asset can be added. -/
theorem Chosen.snoc {utxos : Utxos} {short : Utxos → String → Prop} {coins : Utxos}
    (h : Chosen utxos short coins) {asset : String} {u : OutPoint × UTXOInfo}
    (hshort : short coins asset) (hu : largestUnused utxos (coins.map Prod.fst) asset = some u) :
    Chosen utxos short (coins ++ [u]) := by
  obtain ⟨hmem, hasset, hfree, hmax⟩ := largestUnused_some hu
  constructor
  · rw [List.map_append, List.nodup_append']
    exact ⟨h.nodup, List.nodup_singleton _, by simpa using hfree⟩
  · intro v hv
    rcases List.mem_append.mp hv with hv | hv
    · exact h.mem v hv
    · rw [List.mem_singleton.mp hv]
      exact hmem
  · intro before v after hsplit
    rcases eq_append_cons_of_snoc hsplit with ⟨rfl, rfl⟩ | ⟨rest, hrest⟩
    · rw [hasset]
      exact hshort
    · exact h.wanted before v rest hrest
  · intro before v after hsplit w hw hsame hleft
    rcases eq_append_cons_of_snoc hsplit with ⟨rfl, rfl⟩ | ⟨rest, hrest⟩
    · exact hmax w hw (hsame.trans hasset) hleft
    · exact h.top before v rest hrest w hw hsame hleft

/-- There are no more chosen coins than coins. -/
theorem Chosen.length_le {utxos : Utxos} {short : Utxos → String → Prop} {coins : Utxos}
    (h : Chosen utxos short coins) : coins.length ≤ utxos.length := by
  have hsub : coins.map Prod.fst ⊆ utxos.map Prod.fst := by
    intro o ho
    obtain ⟨u, hu, rfl⟩ := List.mem_map.mp ho
    exact List.mem_map_of_mem (h.mem u hu)
  simpa using (h.nodup.subperm hsub).length_le

/-- The last element of a kind. -/
theorem exists_last_of_filter {α : Type} {p : α → Bool} {l : List α} (h : l.filter p ≠ []) :
    ∃ before x after, l = before ++ x :: after ∧ p x = true ∧ l.filter p = before.filter p ++ [x] := by
  induction l using List.reverseRecOn with
  | nil => exact absurd rfl h
  | append_singleton l x ih =>
    rw [List.filter_append] at h ⊢
    by_cases hx : p x = true
    · exact ⟨l, x, [], rfl, hx, by rw [List.filter_cons_of_pos hx, List.filter_nil]⟩
    · rw [List.filter_cons_of_neg hx, List.filter_nil, List.append_nil] at h ⊢
      obtain ⟨before, y, after, rfl, hy, hlast⟩ := ih h
      exact ⟨before, y, after ++ [x], by simp, hy, hlast⟩

/-- If an asset is short only while its coins are worth less than `need`, then no other coins that
are worth as much are fewer. -/
theorem Chosen.fewest {utxos : Utxos} {short : Utxos → String → Prop} {coins : Utxos}
    (h : Chosen utxos short coins) (hutxos : (utxos.map Prod.fst).Nodup) {asset : String} {need : ℕ}
    (hneed : ∀ before after, coins = before ++ after → short before asset →
      Tally.total asset (amounts before) < need)
    {other : Utxos} (hnodup : (other.map Prod.fst).Nodup) (hmem : ∀ u ∈ other, u ∈ utxos)
    (henough : need ≤ Tally.total asset (amounts other)) :
    (ofAsset asset coins).length ≤ (ofAsset asset other).length := by
  by_cases hempty : ofAsset asset coins = []
  · rw [hempty]
    exact Nat.zero_le _
  obtain ⟨before, u, after, hsplit, hu, hlast⟩ := exists_last_of_filter hempty
  rw [decide_eq_true_eq] at hu
  let value : OutPoint × UTXOInfo → ℕ := fun v => v.2.value
  -- coins as a set
  have hsum : ∀ l : Utxos, (l.map Prod.fst).Nodup → Tally.total asset (amounts l) =
      ∑ v ∈ (ofAsset asset l).toFinset, value v := by
    intro l hl
    rw [total_amounts]
    exact (List.sum_toFinset value ((hl.of_map _).filter _)).symm
  have hcard : ∀ l : Utxos, (l.map Prod.fst).Nodup →
      (ofAsset asset l).toFinset.card = (ofAsset asset l).length := fun l hl =>
    List.toFinset_card_of_nodup ((hl.of_map _).filter _)
  have hbefore : (before.map Prod.fst).Nodup := by
    have := h.nodup
    rw [hsplit, List.map_append, List.nodup_append'] at this
    exact this.1
  have htop : FromTop value (ofAsset asset utxos).toFinset (ofAsset asset before).toFinset := by
    intro x hx y hy hleft
    simp only [ofAsset, List.mem_toFinset, List.mem_filter, decide_eq_true_eq] at hx hy hleft
    obtain ⟨b₁, b₂, hb⟩ := List.append_of_mem hx.1
    refine h.top b₁ x (b₂ ++ u :: after) ?_ y hy.1 (hy.2.trans hx.2.symm) ?_
    · rw [hsplit, hb, List.append_assoc, List.cons_append]
    · -- a coin that was taken has its own outpoint
      intro hmem'
      obtain ⟨z, hz, hzy⟩ := List.mem_map.mp hmem'
      have hzbefore : z ∈ before := hb ▸ List.mem_append_left _ hz
      have hzutxos : z ∈ utxos := h.mem z (hsplit ▸ List.mem_append_left _ hzbefore)
      rw [List.inj_on_of_nodup_map hutxos hzutxos hy.1 hzy] at hzbefore
      exact hleft ⟨hzbefore, hy.2⟩
  have hshort := hneed before (u :: after) hsplit (hu ▸ h.wanted before u after hsplit)
  rw [hsum before hbefore] at hshort
  rw [hsum other hnodup] at henough
  have hle := htop.card_le hshort (fun v hv => ?_) henough
  · rw [hcard before hbefore, hcard other hnodup] at hle
    have hlength := congrArg List.length hlast
    rw [List.length_append, List.length_singleton] at hlength
    exact hlength.le.trans hle
  · simp only [ofAsset, List.mem_toFinset, List.mem_filter] at hv ⊢
    exact ⟨hmem v hv.1, hv.2⟩

/-! ### The loop over the inputs -/

section Loop

variable {network : ElementsNetwork} {utxos coins : Utxos} {outs : List ElementsTxOut}
  {outputs : List (String × ℕ)} {feeRate : F64} {sendAll : Bool} {policyAsset : String}

/-- What is short with a transaction's outputs and its estimated fee. -/
abbrev shortIn (lib : Lib) (account : Account) (feeRate : F64) (sendAll : Bool)
    (policyAsset : String) (outs : List ElementsTxOut) (outputs : List (String × ℕ)) :
    Utxos → String → Prop :=
  Short outputs policyAsset (feeOf lib feeRate sendAll account.scriptType outs)

theorem addInputs_ok (hnet : account.network.id = .elements network)
    (hpolicy : account.network.policyAsset = some policyAsset)
    (hknown : ∀ u ∈ utxos, Knows lib account.cache u) (houts : outs.mapM explicitAmount = .ok outputs)
    {fuel round : ℕ} {tx : BETransaction}
    (h : addInputs lib chance account feeRate sendAll utxos fuel round (coins.map Prod.fst)
      (funded coins outs) = .ok tx)
    (hchosen : Chosen utxos (shortIn lib account feeRate sendAll policyAsset outs outputs) coins) :
    ∃ coins', tx = funded coins' outs ∧
      Chosen utxos (shortIn lib account feeRate sendAll policyAsset outs outputs) coins' ∧
      ∀ a, ¬ shortIn lib account feeRate sendAll policyAsset outs outputs coins' a := by
  induction fuel generalizing round coins with
  | zero => cases h
  | succ fuel ih =>
    -- what is needed, in terms of the coins so far
    have hneeds := needs_funded (chance.order round) feeRate sendAll policyAsset account.scriptType
      (fun u hu => hknown u (hchosen.mem u hu)) houts
    obtain ⟨hnone, hsome⟩ := last_needs policyAsset
      (outputs ++ [(policyAsset, feeOf lib feeRate sendAll account.scriptType outs coins)])
      (amounts coins) (chance.order_perm round)
    rw [addInputs, hpolicy, hneeds] at h
    simp only [bind_eq_ok, Except.ok.injEq, exists_eq_left'] at h
    split at h
    · -- nothing is needed
      rename_i hlast
      rw [pure_eq_ok] at h
      refine ⟨coins, h.symm, hchosen, fun a hshort => ?_⟩
      exact absurd (hnone.mp hlast a) (Nat.not_le.mpr hshort)
    · -- the largest coin of the asset that is needed is added
      rename_i need hlast
      simp only [bind_eq_ok, okOr_eq_ok, hnet, spentTogether, List.foldl_cons, List.foldl_nil] at h
      obtain ⟨u, hu, h⟩ := h
      have hnext : (funded coins outs).addInput u.1 = funded (coins ++ [u]) outs := by
        simp [funded, BETransaction.addInput, inputsOf]
      rw [hnext, ← List.map_singleton, ← List.map_append] at h
      exact ih h (hchosen.snoc (hsome need hlast) hu)

/-- The loop fails only for want of a coin: some asset is short although all its coins are taken. -/
theorem addInputs_error (hnet : account.network.id = .elements network)
    (hpolicy : account.network.policyAsset = some policyAsset)
    (hknown : ∀ u ∈ utxos, Knows lib account.cache u) (houts : outs.mapM explicitAmount = .ok outputs)
    {fuel round : ℕ} {f : Failure Error}
    (h : addInputs lib chance account feeRate sendAll utxos fuel round (coins.map Prod.fst)
      (funded coins outs) = .error f)
    (hchosen : Chosen utxos (shortIn lib account feeRate sendAll policyAsset outs outputs) coins)
    (hfuel : utxos.length < fuel + coins.length) :
    f = .error .insufficientFunds ∧ ∃ coins' a,
      Chosen utxos (shortIn lib account feeRate sendAll policyAsset outs outputs) coins' ∧
      shortIn lib account feeRate sendAll policyAsset outs outputs coins' a ∧
      ∀ v ∈ utxos, v.2.asset = a → v.1 ∈ coins'.map Prod.fst := by
  induction fuel generalizing round coins with
  | zero =>
    -- the fuel is more than the coins that are left
    have := hchosen.length_le
    omega
  | succ fuel ih =>
    have hneeds := needs_funded (chance.order round) feeRate sendAll policyAsset account.scriptType
      (fun u hu => hknown u (hchosen.mem u hu)) houts
    obtain ⟨_, hsome⟩ := last_needs policyAsset
      (outputs ++ [(policyAsset, feeOf lib feeRate sendAll account.scriptType outs coins)])
      (amounts coins) (chance.order_perm round)
    rw [addInputs, hpolicy, bind_of_ok hneeds] at h
    split at h
    · -- nothing is needed, and so there is no error
      cases h
    · rename_i need hlast
      rw [bind_eq_error] at h
      rcases h with hnone | ⟨u, hu, h⟩
      · -- no coin of the asset is left
        rw [okOr_eq_error] at hnone
        exact ⟨hnone.2, coins, need.asset, hchosen, hsome need hlast, largestUnused_none hnone.1⟩
      · -- another coin is added
        rw [okOr_eq_ok] at hu
        simp only [hnet, spentTogether, List.foldl_cons, List.foldl_nil] at h
        have hnext : (funded coins outs).addInput u.1 = funded (coins ++ [u]) outs := by
          simp [funded, BETransaction.addInput, inputsOf]
        rw [hnext, ← List.map_singleton, ← List.map_append] at h
        refine ih h (hchosen.snoc (hsome need hlast) hu) ?_
        rw [List.length_append, List.length_singleton]
        omega

end Loop

end SideSwap.Gdk
