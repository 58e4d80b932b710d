import SideSwap.Client.AutoSign

/-!
# Asset updates between acceptance and signature

The terms of an order keep the precision that its asset had when the user accepted them, but
`verify_amounts` checks a sign request with the precision that is registered when the request comes.
If the server has sent another asset list in between, a request with the stored price and the stored
fixed amount passes with another free amount, and the order is signed for that one.

`signed_not_repriced`: with the stored price and under the stored precision, an order that is signed
without a prompt is signed for the amounts that the user has accepted.  Nothing else about the
assets matters, and the price need not have been checked after an edit.
-/

namespace SideSwap.Client

open History

variable {h : Host}

/-- If the price is the stored one, and the asset is registered as `registered` demands, the amounts
of `before` are those that are signed. -/
def unrepriced (liquid : AssetId) (registered : SubmitData → ℕ → Bool) : Event → List Event → Bool
  | .trySign (.auto before precision) m, older =>
    decide (terms m.orderId older = some before.open_) &&
      decide (m.details.price = before.price → registered before precision = true →
        (before.update m.details).psbtInfo liquid = before.psbtInfo liquid)
  | .signPsbt (.order (.auto before precision) X) info _ _ _,
      .utxosTaken _ _ :: .trySign _ m :: older =>
    decide (terms X older = some before.open_) &&
      decide (m.details.price = before.price → registered before precision = true →
        info = before.psbtInfo liquid)
  | .signPsbt (.order (.auto ..) _) _ _ _ _, _ => false
  | _, _ => true

/-- An order that is signed without a prompt has the price that its terms had. -/
def Unrepriced (liquid : AssetId) (registered : SubmitData → ℕ → Bool) (e : Event)
    (older : List Event) : Prop :=
  unrepriced liquid registered e older = true

instance (liquid : AssetId) (registered : SubmitData → ℕ → Bool) (e : Event) (older : List Event) :
    Decidable (Unrepriced liquid registered e older) :=
  inferInstanceAs (Decidable (unrepriced liquid registered e older = true))

/-- The asset has the precision that it had when the terms were accepted. -/
def samePrecision (before : SubmitData) (precision : ℕ) : Bool :=
  decide (precision = before.assetPrecision)

theorem repricingRules (liquid : AssetId) :
    DealRules liquid Determined (Unrepriced liquid samePrecision) where
  of_open := fun hopen hs => hs.of_open hopen
  submitted := fun X txouts autoSign hv => hv.determined_submitData X txouts autoSign
  restored := fun X hv => hv.determined_restored X
  other := by
    intro e older he
    unfold Unrepriced unrepriced
    split <;> simp_all [Event.autoSigns]
  begun := by
    intro s m precision older hs hagreed hsignable _
    have hkept : m.details.price = s.price → samePrecision s precision = true →
        (s.update m.details).psbtInfo liquid = s.psbtInfo liquid := by
      intro hprice hprecision
      have hupdate : s.update m.details = s :=
        hs.update_eq hsignable.verified hsignable.agrees (of_decide_eq_true hprecision) hprice
      rw [hupdate]
    show (decide _ && decide _) = true
    rw [decide_eq_true hagreed, decide_eq_true hkept, Bool.and_true]
  signed := by
    intro s m precision older side utxos signed hbegin
    exact hbegin

/-- In every run, an order that is signed without a prompt, at the stored price and while its asset
has the stored precision, is signed for the amounts that the user has accepted. -/
theorem signed_not_repriced (h : Host) (xs : List (Feed Message)) :
    Always (Unrepriced h.liquidAssetId samePrecision) ((machine h).run (start h) xs).state.log := by
  have hI : CoreInvariant h (fun _ _ => True)
      (DealInv Determined (Unrepriced h.liquidAssetId samePrecision)) :=
    (repricingRules h.liquidAssetId).invariant fun w msg _ X price s s' _ _ _ hs hedit => hs.edit hedit
  exact (run_core_invariant hI (.of_empty rfl .nil) (Machine.along_true _ _)).history

namespace Sample

/-- An order that fixes the amount of gold. -/
def assetDetails : Details := { details .requestor with orderType := .asset }

/-- The terms at the same price, when gold has one decimal less. -/
def tenfold : Details := { assetDetails with bitcoinAmount := 10000000, serverFee := 10000 }

/-- A server that sends a list with another precision of gold from its 26th answer on. -/
def updatingHost (precision : ℕ) : Host :=
  let assets (precision : ℕ) : List Asset :=
    [⟨gold, "Gold", ⟨"GLD"⟩, some "", precision, none⟩, ⟨silver, "Silver", ⟨"SLV"⟩, some "", 8, none⟩]
  let server (precision : ℕ) :=
    plainServer (assets precision) (fun X => .ok ⟨X, assetDetails, false⟩) fun _ => .error ""
  { orderHost with server := fun n => server (if n < 25 then 8 else precision) }

/-- An order is accepted, the connection is lost and restored, and the signature is asked for. -/
def signedAfterUpdate (details : Details) : List (Feed Message) :=
  synced ++ [.deliver (linkOrder order), .deliver (decision order true true),
    .deliver .serverDisconnected, .deliver .serverConnected,
    .deliver (.serverNotification (.sign ⟨order, "pset", details⟩))]

end Sample

open Sample in
/-- The server asks for a signature at the same price after it has sent a list in which gold has one
decimal less: the wallet signs that it receives ten times the bitcoin. -/
theorem signed_repriced :
    ¬ ∀ (h : Host) (xs : List (Feed Message)),
      Always (Unrepriced h.liquidAssetId fun _ _ => true) ((machine h).run (start h) xs).state.log := by
  intro hall
  have hrun := hall (updatingHost 7) (signedAfterUpdate tenfold)
  revert hrun
  decide +kernel

end SideSwap.Client
