import SideSwap.Client.SignOnce
import SideSwap.Common.Selection
import SideSwap.Lib.Pick

/-!
# The coins of an order

The inputs of an order are selected by their amounts and found again by their amounts in a list that
every find permutes (`selectCoins_covers`).  They are taken from the coins of no open order if these
are enough, else from all coins of the asset.  Whatever amounts repeat, the search never fails, the
inputs are different coins of the wallet whose sum is the amount of the PSET, and they are coins of
no open order whenever the others are enough (`order_inputs_selected`).
-/

namespace SideSwap.Client

/-! ### Taking coins -/

/-- The amount of a coin as an `i64`. -/
def GdkUtxo.amount (u : GdkUtxo) : ℤ := wrap u.satoshi

/-- Coins are taken by their amounts. -/
theorem takeUtxos_eq (utxos : List GdkUtxo) (amounts : List ℤ) :
    takeUtxos utxos amounts
      = (Pick.pick Pick.setLast GdkUtxo.amount utxos amounts).map (List.map GdkUtxo.toUtxo) := by
  induction amounts generalizing utxos with
  | nil => rfl
  | cons amount rest ih =>
    rw [takeUtxos, Pick.pick]
    have hsame : (fun u : GdkUtxo => decide (wrap u.satoshi = amount))
        = fun u => decide (u.amount = amount) := rfl
    rw [hsame]
    cases utxos.findIdx? fun u => decide (u.amount = amount) with
    | none => rfl
    | some index =>
      cases hcoin : utxos[index]? with
      | none => simp [hcoin]
      | some coin =>
        -- a list with an element has a last one
        obtain ⟨last, hlast⟩ : ∃ last, utxos.getLast? = some last := by
          rw [← Option.isSome_iff_exists, List.getLast?_isSome]
          rintro rfl
          simp at hcoin
        simp only [hcoin, hlast, ih, Option.bind_eq_bind, Option.bind_some, Pick.setLast]
        cases Pick.pick Pick.setLast GdkUtxo.amount (utxos.set index last).dropLast rest <;> rfl

/-- The coins that are taken are part of the list, and have the amounts. -/
theorem takeUtxos_spec {utxos : List GdkUtxo} {amounts : List ℤ} {coins : List Utxo}
    (htake : takeUtxos utxos amounts = some coins) :
    ∃ taken : List GdkUtxo, coins = taken.map GdkUtxo.toUtxo ∧ taken.Subperm utxos
      ∧ taken.map GdkUtxo.amount = amounts := by
  rw [takeUtxos_eq, Option.map_eq_some_iff] at htake
  obtain ⟨taken, hpick, rfl⟩ := htake
  obtain ⟨hkeys, hsub⟩ := Pick.pick_spec Pick.setLast_perm hpick
  exact ⟨taken, rfl, hsub, hkeys⟩

/-- Amounts of coins of the list are always found. -/
theorem takeUtxos_isSome {utxos : List GdkUtxo} {amounts : List ℤ}
    (hamounts : amounts.Subperm (utxos.map GdkUtxo.amount)) :
    (takeUtxos utxos amounts).isSome = true := by
  rw [takeUtxos_eq, Option.isSome_map]
  exact Pick.pick_isSome Pick.setLast_perm hamounts

/-! ### Selecting coins -/

/-- The sum of the coins, which is less than `2 ^ 63` as the balance of an asset is an `i64` in the
wallet library. -/
def balance (utxos : List GdkUtxo) : ℤ := (utxos.map fun u => (u.satoshi : ℤ)).sum

theorem balance_le_of_subperm {coins utxos : List GdkUtxo} (hsub : coins.Subperm utxos) :
    balance coins ≤ balance utxos := by
  obtain ⟨part, hperm, hsublist⟩ := hsub
  unfold balance
  rw [← (hperm.map _).sum_eq]
  refine (hsublist.map _).sum_le_sum fun v hv => ?_
  obtain ⟨u, -, rfl⟩ := List.mem_map.mp hv
  exact Int.natCast_nonneg _

/-- The sum in `i64` does not overflow. -/
theorem wrap_balance {utxos : List GdkUtxo} (hbalance : balance utxos < 2 ^ 63) :
    wrap (balance utxos) = balance utxos := by
  have hpos : 0 ≤ balance utxos := balance_le_of_subperm List.nil_subperm
  refine wrap_of_isI64 ?_
  unfold IsI64
  omega

/-- In a list with a balance the amounts are those of the wallet. -/
theorem map_amount {utxos : List GdkUtxo} (hbalance : balance utxos < 2 ^ 63) :
    utxos.map GdkUtxo.amount = utxos.map fun u => (u.satoshi : ℤ) := by
  refine List.map_congr_left fun u hu => ?_
  have hle : (u.satoshi : ℤ) ≤ balance utxos := by
    have := balance_le_of_subperm (List.singleton_subperm_iff.mpr hu)
    simpa [balance] using this
  refine wrap_of_isI64 ?_
  unfold IsI64
  omega

/-- The total that is compared with the amount is the balance. -/
theorem totalAmount_eq {utxos : List GdkUtxo} (hbalance : balance utxos < 2 ^ 63) :
    totalAmount utxos = balance utxos := by
  have hamounts : (utxos.map fun u => wrap u.satoshi) = utxos.map fun u => (u.satoshi : ℤ) :=
    map_amount hbalance
  rw [totalAmount, hamounts]
  exact wrap_balance hbalance

/-- The selection of coins for an amount that they cover never panics: it is a part of the coins,
and what it is worth is returned with it. -/
theorem selectCoins_covers {utxos : List GdkUtxo} {sendAmount : ℤ}
    (hbalance : balance utxos < 2 ^ 63) (positive : 0 < sendAmount)
    (enough : sendAmount ≤ balance utxos) :
    ∃ taken : List GdkUtxo, taken.Subperm utxos ∧ sendAmount ≤ balance taken
      ∧ selectCoins utxos sendAmount = some (taken.map GdkUtxo.toUtxo, balance taken) := by
  have hamounts := map_amount hbalance
  have hpos : ∀ v ∈ utxos.map GdkUtxo.amount, 0 ≤ v := by
    rw [hamounts]
    intro v hv
    obtain ⟨u, -, rfl⟩ := List.mem_map.mp hv
    exact Int.natCast_nonneg _
  have hsum : (utxos.map GdkUtxo.amount).sum = balance utxos := by rw [hamounts, balance]
  -- the amounts that are selected cover the payment, and each is the amount of a coin
  obtain ⟨selected, hselect, hsub, hcovers⟩ :=
    selectUtxo_covers hpos (hsum ▸ hbalance) positive (hsum ▸ enough)
  obtain ⟨coins, hcoins⟩ := Option.isSome_iff_exists.mp (takeUtxos_isSome hsub)
  obtain ⟨taken, rfl, htaken, hkeys⟩ := takeUtxos_spec hcoins
  -- the coins taken are worth no more than the wallet, and so nothing overflows
  have hle : balance taken ≤ balance utxos := balance_le_of_subperm htaken
  have hworth : selected.sum = balance taken := by
    rw [← hkeys, map_amount (by omega), balance]
  have hwrap : wrap selected.sum = balance taken := by
    rw [hworth]
    exact wrap_balance (by omega)
  refine ⟨taken, htaken, hworth ▸ hcovers, ?_⟩
  have hselect' : selectUtxo (utxos.map fun u => wrap u.satoshi) sendAmount = some selected :=
    hselect
  have hguard : balance taken ≥ sendAmount := hworth ▸ hcovers
  -- the guard of the code is passed
  simp only [selectCoins, hselect', hcoins, hwrap, hguard, guard, if_true, Option.bind_eq_bind,
    Option.bind_some, Option.pure_def]

/-! ### Reserved coins -/

/-- The reserved coins are those of the open orders. -/
theorem mem_reservedTxouts {d : Data} {o : TxOut} :
    o ∈ reservedTxouts d ↔ ∃ s ∈ d.submitData.values, o ∈ s.txouts := by
  have hfold : ∀ (orders : List SubmitData) (acc : Finset TxOut),
      o ∈ orders.foldl (fun acc s => acc ∪ s.txouts) acc
        ↔ o ∈ acc ∨ ∃ s ∈ orders, o ∈ s.txouts := by
    intro orders
    induction orders with
    | nil => simp
    | cons s orders ih =>
      intro acc
      rw [List.foldl_cons, ih, Finset.mem_union, List.exists_mem_cons_iff, or_assoc]
  rw [reservedTxouts, hfold]
  simp

/-- The coins of no open order. -/
def freeUtxos (d : Data) (all : List GdkUtxo) : List GdkUtxo :=
  all.filter fun u => decide (u.txOut ∉ reservedTxouts d)

variable {d : Data} {all : List GdkUtxo} {sendAmount : ℤ}

theorem balance_freeUtxos_le : balance (freeUtxos d all) ≤ balance all :=
  balance_le_of_subperm List.filter_sublist.subperm

/-- The free coins are chosen from if they are enough. -/
theorem orderUtxos_of_free (hbalance : balance all < 2 ^ 63)
    (hfree : sendAmount ≤ balance (freeUtxos d all)) :
    orderUtxos d all sendAmount = freeUtxos d all := by
  have hle : balance (freeUtxos d all) ≤ balance all := balance_freeUtxos_le
  have hcond : wrap (balance (freeUtxos d all)) ≥ sendAmount := by
    rw [wrap_balance (by omega)]
    exact hfree
  exact if_pos hcond

/-- The coins to choose from are coins of the wallet that cover what all its coins cover. -/
theorem orderUtxos_covers (hbalance : balance all < 2 ^ 63) (enough : sendAmount ≤ balance all) :
    (orderUtxos d all sendAmount).Sublist all
      ∧ sendAmount ≤ balance (orderUtxos d all sendAmount) := by
  by_cases hfree : sendAmount ≤ balance (freeUtxos d all)
  · rw [orderUtxos_of_free hbalance hfree]
    exact ⟨List.filter_sublist, hfree⟩
  · have hle : balance (freeUtxos d all) ≤ balance all := balance_freeUtxos_le
    have hall : orderUtxos d all sendAmount = all := by
      refine if_neg ?_
      show ¬ wrap (balance (freeUtxos d all)) ≥ sendAmount
      rw [wrap_balance (by omega)]
      exact hfree
    rw [hall]
    exact ⟨List.Sublist.refl _, enough⟩

/-! ### The inputs of an order -/

theorem callOr_ok {α : Type} {f : ℕ → Except String α} {wrapError : String → String} {w : World}
    {a : α} (hok : f w.calls = .ok a) :
    callOr f wrapError w = .ok a { w with calls := w.calls + 1 } := by
  rw [callOr_apply, hok]

/-- Whatever amounts repeat among the coins of an asset, the inputs of an order that the coins cover
are found: they are different coins of the wallet, the PSET is for their sum, and they are coins of
no open order if the others are enough. -/
theorem order_inputs_selected (h : Host) (w : World) (details : Details)
    (unspent : Map AssetId (List GdkUtxo)) (all : List GdkUtxo) (sendAsset : AssetId)
    (sendAmount : ℤ) (hsend : detailsSend h.liquidAssetId details = (sendAsset, sendAmount))
    (hunspent : h.getUnspentOutputs w.calls = .ok unspent)
    (hall : unspent[sendAsset]? = some all) (distinct : (all.map fun u => u.txOut).Nodup)
    (hbalance : balance all < 2 ^ 63) (positive : 0 < sendAmount)
    (enough : sendAmount ≤ balance all) :
    ∃ selected : List GdkUtxo,
      (selected.map fun u => u.txOut).Nodup ∧ (∀ u ∈ selected, u ∈ all)
      ∧ sendAmount ≤ balance selected
      ∧ prepareInputs h details w
        = (generatePsbt h
            { sendAsset := sendAsset
              recvAsset := if details.sendBitcoins then details.asset else h.liquidAssetId
              sendAmount := balance selected, recvAmount := 0 } (selected.map GdkUtxo.toUtxo)
            >>= fun pset => pure (selected.map GdkUtxo.toUtxo, pset))
          { w with calls := w.calls + 1 }
      ∧ (sendAmount ≤ balance (freeUtxos w.data all) →
        ∀ u ∈ selected, ∀ s ∈ w.data.submitData.values, u.txOut ∉ s.txouts) := by
  obtain ⟨hsublist, hcovers⟩ := orderUtxos_covers (d := w.data) hbalance enough
  have hle : balance (orderUtxos w.data all sendAmount) ≤ balance all :=
    balance_le_of_subperm hsublist.subperm
  obtain ⟨selected, hsub, hworth, hselect⟩ :=
    selectCoins_covers (by omega) positive hcovers
  have hpart : selected.Subperm all := hsub.trans hsublist.subperm
  refine ⟨selected, ?_, fun u hu => hpart.subset hu, hworth, ?_, ?_⟩
  · obtain ⟨part, hperm, hsublist⟩ := hpart
    exact ((hperm.map _).nodup_iff).mp ((hsublist.map _).nodup distinct)
  · have htotal : totalAmount (orderUtxos w.data all sendAmount) ≥ sendAmount := by
      rw [totalAmount_eq (by omega)]
      exact hcovers
    have hok : Proc.ensure (totalAmount (orderUtxos w.data all sendAmount) ≥ sendAmount)
        "Insufficient funds" = (pure () : Worker String Unit) := if_pos htotal
    unfold prepareInputs
    rw [getData_bind_apply, hsend]
    dsimp only
    rw [Proc.bind_ok (callOr_ok hunspent), hall]
    show (Proc.ensure _ _ >>= _) _ = _
    rw [hok, hselect]
    rfl
  · intro hfree u hu s hs hreserved
    -- the free coins are enough, so only they are selected from
    rw [orderUtxos_of_free hbalance hfree] at hsub
    have hmem : u ∈ freeUtxos w.data all := hsub.subset hu
    have hnot : u.txOut ∉ reservedTxouts w.data := of_decide_eq_true (List.mem_filter.mp hmem).2
    exact hnot (mem_reservedTxouts.mpr ⟨s, hs, hreserved⟩)

namespace Sample

/-- Two coins of the amount of an order, and a smaller one. -/
def goldCoins : List GdkUtxo :=
  [⟨⟨"a", 1000000, 0, []⟩, 1⟩, ⟨⟨"b", 1000000, 0, []⟩, 1⟩, ⟨⟨"c", 1000, 0, []⟩, 1⟩]

/-- An outside whose wallet has gold. -/
def goldHost : Host :=
  plainHost (plainServer assets (fun _ => .error "") fun _ => .error "") ∅
    ((∅ : Map AssetId (List GdkUtxo)).insert gold goldCoins)

/-- The first coin is an input of an open order. -/
def reserved : World :=
  let resp : LinkResponse := ⟨order, details .requestor, false⟩
  let s := LinkResponse.submitData resp order 8 {⟨"a", 0⟩} false
  World.new.modifyData fun d => { d with submitData := d.submitData.insert order s }

end Sample

open Sample in
/-- The second coin of the same amount is not reserved. -/
theorem order_inputs_selected_reserved :
    ∃ selected : List GdkUtxo,
      (selected.map fun u => u.txOut).Nodup ∧ (∀ u ∈ selected, u ∈ goldCoins)
      ∧ 1000000 ≤ balance selected
      ∧ prepareInputs goldHost (details .requestor) reserved
        = (generatePsbt goldHost
            { sendAsset := gold, recvAsset := goldHost.liquidAssetId
              sendAmount := balance selected, recvAmount := 0 } (selected.map GdkUtxo.toUtxo)
            >>= fun pset => pure (selected.map GdkUtxo.toUtxo, pset))
          { reserved with calls := reserved.calls + 1 }
      ∧ ∀ u ∈ selected, ∀ s ∈ reserved.data.submitData.values, u.txOut ∉ s.txouts := by
  obtain ⟨selected, hnodup, hmem, hcovers, hpset, hfree⟩ :=
    order_inputs_selected goldHost reserved (details .requestor)
      ((∅ : Map AssetId (List GdkUtxo)).insert gold goldCoins) goldCoins gold 1000000 rfl rfl
      (by decide +kernel) (by decide +kernel) (by decide +kernel) (by decide) (by decide +kernel)
  exact ⟨selected, hnodup, hmem, hcovers, hpset, hfree (by decide +kernel)⟩

end SideSwap.Client
