import SideSwap.Dealer.Amounts
import SideSwap.Lib.Pick

/-!
# Coins of a dealer's wallet

The wallet's unspent outputs by outpoint, and how the coins that make up selected amounts are
taken.  The order-book dealer and the Bitfinex dealer share this.
-/

namespace SideSwap

instance : Ord TxOut := ⟨compareLex (compareOn TxOut.txid) (compareOn TxOut.vout)⟩

theorem TxOut.compare_eq (a b : TxOut) :
    compare a b = compareLex (compareOn TxOut.txid) (compareOn TxOut.vout) a b := rfl

instance : Std.TransOrd TxOut :=
  inferInstanceAs (Std.TransCmp (compareLex (compareOn TxOut.txid) (compareOn TxOut.vout)))

instance : Std.LawfulEqOrd TxOut where
  eq_of_compare {a b} h := by
    rw [TxOut.compare_eq, compareLex_eq_eq] at h
    obtain ⟨a₁, a₂⟩ := a
    obtain ⟨b₁, b₂⟩ := b
    obtain ⟨h₁, h₂⟩ := h
    have h₁ : a₁ = b₁ := Std.LawfulEqCmp.eq_of_compare h₁
    have h₂ : a₂ = b₂ := Std.LawfulEqCmp.eq_of_compare h₂
    rw [h₁, h₂]

namespace Dealer

/-- A coin of the dealer's wallet, with the order that it is reserved for. -/
structure Utxo where
  txid : String
  vout : ℤ
  asset : AssetId
  amount : ℤ
  reserve : Option OrderId
deriving DecidableEq

/-- The outpoint of a coin. -/
def Utxo.txOut (u : Utxo) : TxOut := ⟨u.txid, u.vout⟩

/-- The coins of the dealer. -/
abbrev Utxos := Map TxOut Utxo

/-- An item of `listunspent`; the amount is in satoshis. -/
structure UnspentItem where
  txid : String
  vout : ℤ
  asset : AssetId
  amount : ℤ
  confirmations : ℕ
deriving DecidableEq

/-- The outpoint of a listed coin. -/
def UnspentItem.txOut (i : UnspentItem) : TxOut := ⟨i.txid, i.vout⟩

/-- A listed coin, reserved for nothing yet. -/
def UnspentItem.utxo (i : UnspentItem) : Utxo :=
  { txid := i.txid, vout := i.vout, asset := i.asset, amount := i.amount, reserve := none }

/-- A known coin keeps its entry, a new one gets a free one, and what is not listed any more is
removed. -/
def reloadUtxos (utxos : Utxos) (unspent : List UnspentItem) : Utxos :=
  let added := unspent.foldl (fun m item =>
    if m.contains item.txOut then m else m.insert item.txOut item.utxo) utxos
  added.filter fun key _ => unspent.any fun item => item.txOut = key

/-- What the listed coins hold of an asset, if any does. -/
def assetBalance (unspent : List UnspentItem) (asset : AssetId) : Option ℚ :=
  let items := unspent.filter fun item => item.asset = asset
  if items.isEmpty then none else some (items.map fun item => toBitcoin item.amount).sum

/-- The dealer's balances, where they are known. -/
abbrev WalletBalances := DealerTicker → Option ℚ

/-- The balances of the assets that a dealer knows, by ticker. -/
def walletBalances (assets : List Asset) (unspent : List UnspentItem) : WalletBalances :=
  assets.foldl (fun balances asset =>
    match assetBalance unspent asset.assetId, DealerTicker.ofName asset.ticker with
    | some balance, some ticker => Function.update balances ticker (some balance)
    | _, _ => balances) fun _ => none

/-! ### Taking coins -/

/-- `Vec::swap_remove`: the last element takes the place of the removed one. -/
def swapRemove {α : Type} (l : List α) (index : ℕ) : List α :=
  match l.getLast? with
  | some last => (l.set index last).dropLast
  | none => []

/-- The coins that make up the selected amounts, each the first left with its amount. -/
def takeCoins : List Utxo → List ℤ → Option (List TxOut)
  | _, [] => some []
  | coins, amount :: rest => do
    let index ← coins.findIdx? fun u => u.amount = amount
    let coin ← coins[index]?
    let more ← takeCoins (swapRemove coins index) rest
    return coin.txOut :: more

/-- `swap_remove` removes one element up to the order. -/
theorem swapRemove_perm {α : Type} : Pick.Removes (swapRemove : List α → ℕ → List α) :=
  Pick.setLast_perm

/-- Coins are taken by their amounts. -/
theorem takeCoins_eq (coins : List Utxo) (amounts : List ℤ) :
    takeCoins coins amounts
      = (Pick.pick swapRemove Utxo.amount coins amounts).map (List.map Utxo.txOut) := by
  induction amounts generalizing coins with
  | nil => rfl
  | cons amount rest ih =>
    simp only [takeCoins, Pick.pick, ih]
    cases coins.findIdx? fun u => u.amount = amount with
    | none => rfl
    | some index =>
      cases hcoin : coins[index]? with
      | none => simp [hcoin]
      | some coin =>
        simp only [hcoin, Option.bind_eq_bind, Option.bind_some]
        cases Pick.pick swapRemove Utxo.amount (swapRemove coins index) rest <;> rfl

/-- The coins that are taken are different coins of the list, with the selected amounts. -/
theorem takeCoins_subperm {coins : List Utxo} {amounts : List ℤ} {txouts : List TxOut}
    (htaken : takeCoins coins amounts = some txouts) :
    ∃ taken : List Utxo, taken.map Utxo.txOut = txouts ∧ taken.map Utxo.amount = amounts ∧
      taken.Subperm coins := by
  rw [takeCoins_eq, Option.map_eq_some_iff] at htaken
  obtain ⟨taken, hpick, rfl⟩ := htaken
  obtain ⟨hamounts, hsub⟩ := Pick.pick_spec swapRemove_perm hpick
  exact ⟨taken, rfl, hamounts, hsub⟩

/-- Amounts of the coins can be taken. -/
theorem takeCoins_isSome {coins : List Utxo} {amounts : List ℤ}
    (h : amounts.Subperm (coins.map Utxo.amount)) : (takeCoins coins amounts).isSome = true := by
  rw [takeCoins_eq, Option.isSome_map]
  exact Pick.pick_isSome swapRemove_perm h

end Dealer

end SideSwap
