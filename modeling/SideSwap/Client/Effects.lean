import SideSwap.Client.Worker

/-!
# Effects

What a step of the worker can change, by kind.  An `Effect` names a part of the state together with
the events that belong to it, and `Change k` lists the changes of the kind `k`.  A step of one kind
leaves the parts of all other kinds alone.  Steps that only make sense together are one step: a
review and the slots that remember it, an asset and the message that shows it.

A relation `G` on states allows an effect if it contains its steps (`Allows`).  The module
`Handlers` has one lemma for each function of the worker: its behaviour is a chain of `G`-steps for
every `G` that allows the effects named in the lemma.  Which effects are missing there is what the
function leaves unchanged.
-/

namespace SideSwap.Client

open Proc

/-! ### Kinds of effects -/

inductive Effect where
  /-- calls of the outside, messages and settings that no other effect is about -/
  | talk
  /-- the asset list of the server, its file and the subscriptions to its prices -/
  | listing
  /-- the asset list that the process starts with -/
  | load
  /-- the asset list of the process -/
  | assets
  /-- the market that the user interface shows, and the requests to watch it -/
  | market
  /-- the order list, and what the user interface has been told of it -/
  | orders
  /-- the transactions and pegs of the wallet -/
  | wallet
  /-- the comparison of the transaction list with the one that was shown -/
  | sync
  /-- the comparison of the balances with those that were shown -/
  | balances
  /-- what the user interface is told of transactions and balances -/
  | mirror
  /-- a completed deal is seen in the transaction list -/
  | succeed
  /-- the results that wait until no review is shown -/
  | success
  /-- the success of a peg -/
  | report
  /-- what waits for a connection or a wallet -/
  | queues
  /-- the review of an order from a link -/
  | links
  /-- the prompts for signatures -/
  | prompts
  /-- a review is closed by the user -/
  | decisions
  /-- the slots of instant swaps and peg-outs -/
  | swap
  /-- the slots of instant swaps and peg-outs are emptied -/
  | cleanup
  /-- an instant swap is done -/
  | swapDone
  /-- a peg-in is started -/
  | externPeg
  /-- the wallet library makes a partial transaction -/
  | psets
  /-- a plain payment is prepared or taken -/
  | payment
  /-- a command to connect -/
  | connect
  /-- a command to disconnect -/
  | down
  /-- the connection is in use -/
  | up
  /-- the connection was lost -/
  | offline
  /-- a wallet is opened -/
  | login
  /-- the wallet is closed -/
  | logout
  /-- the terms and coins of orders -/
  | terms
  /-- an order is cancelled -/
  | cancel
deriving DecidableEq

/-- The items of pegs have ids of their own. -/
def TransItem.isPeg (item : TransItem) : Bool := item.id.toList.contains '/'

/-- The effect of adding an event alone to the history.  The other events are parts of a step. -/
def Event.effect : Event → Option Effect
  | .toUi (.newAsset _) | .toUi (.orderCreated _) | .toUi (.orderRemoved _) => none
  | .toUi (.updatedTx _) | .toUi (.removedTx _) | .toUi (.balanceUpdate _) => none
  | .toUi (.submitReview _) | .toUi (.submitResult (.swapSucceed _)) => none
  -- the success of a swap is reported in a comparison of the transactions, that of a peg alone
  | .toUi (.swapSucceed item) => if item.isPeg then some .report else none
  | .toUi .serverDisconnected => some .offline
  | .toUi _ => some .talk
  | .toWs true => some .connect
  | .toWs false => none
  | .generatePsbt .. => some .psets
  | .createTransaction .. | .broadcast _ => some .payment
  | .signPsbt (.swap _) .. | .swapPrepared _ | .pegPrepared _ | .pegTaken _ => some .swap
  | .request (.matchRfqAccept ..) _ | .request (.swap ..) _ => some .swap
  | .signPsbt (.order ..) .. | .trySign .. | .utxosTaken .. => some .terms
  | .request (.addr _) _ | .request (.edit _ (some _) _) _ => some .terms
  | .request .assets _ | .request (.priceUpdateSubscribe _) _ => some .listing
  | .posted (.subscribe _) | .posted (.unsubscribe _) => some .market
  | .request (.subscribe _) _ | .request (.unsubscribe _) _ => some .market
  | .request .. | .posted _ | .signaled _ => some .talk
  | .started | .received _ | .prompted _ | .stored _ | .completed _ | .synced _ | .balanced _ => none

/-- The effects that are told by single events. -/
theorem Event.effect_mem {e : Event} {k : Effect} (he : e.effect = some k) :
    k ∈ [Effect.talk, .listing, .market, .report, .offline, .connect, .psets, .payment, .swap, .terms] := by
  unfold Event.effect at he
  split at he <;> (try split at he) <;> simp at he <;> subst he <;> decide

/-! ### Compound changes -/

namespace World

/-- Register an asset and show it. -/
def registered (w : World) (asset : Asset) (icon : String) (swapMarket : Bool)
    (domain : Option String) : World :=
  (w.modifyData fun d =>
    { d with
      assets := d.assets.insert asset.assetId asset
      tickers := d.tickers.insert asset.ticker asset.assetId
      tokenAssets := if swapMarket then d.tokenAssets else insert asset.assetId d.tokenAssets }).record
    (.toUi (.newAsset
      { assetId := asset.assetId, name := asset.name, ticker := asset.ticker, icon := icon
        precision := asset.precision, swapMarket := swapMarket, domain := domain }))

/-- Take an order off the list of the user interface. -/
def orderHidden (w : World) (X : OrderId) : World :=
  (w.modifyData fun d => { d with ordersSent := d.ordersSent.erase X }).record
    (.toUi (.orderRemoved X))

/-- Put an order on the list of the user interface. -/
def orderShown (w : World) (X : OrderId) (order : Order) : World :=
  (w.modifyData fun d => { d with ordersSent := d.ordersSent.insert X order }).record
    (.toUi (.orderCreated order))

/-- Remember the list of transactions that was shown. -/
def txsSent (w : World) (list : Map String TransItem) : World :=
  (w.modifyCtx fun c => { c with sentTxs := list }).record (.synced list)

/-- Show the balance of an asset. -/
def balanceShown (w : World) (asset : AssetId) (amount : ℤ) : World :=
  (w.record (.toUi (.balanceUpdate ⟨asset, amount⟩))).modifyCtx fun c =>
    { c with lastBalances := c.lastBalances.insert asset amount }

/-- Report the success of the instant swap whose transaction is seen. -/
def swapReported (w : World) (item : TransItem) : World :=
  (w.modifyCtx fun c => { c with succeedSwap := none }).record (.toUi (.swapSucceed item))

/-- Show a result that has waited. -/
def succeedShown (w : World) (item : TransItem) (rest : List TransItem) : World :=
  (w.modifyData fun d => { d with pendingSucceed := rest }).record
    (.toUi (.submitResult (.swapSucceed item)))

/-- Show the terms of an order for review. -/
def linkShown (w : World) (X : OrderId) (resp : LinkResponse) : World :=
  let autoSign := (w.data.submitData[X]?.map SubmitData.autoSign).getD false
  let internal := decide (X ∈ w.data.internal)
  ((w.record (.toUi (.submitReview
    (detailsReview resp.details X resp.indexPrice internal autoSign)))).modifyData fun d =>
      { d with visibleSubmit := some X }).modifyCtx fun c => { c with activeSubmit := some resp }

/-- Store the terms of an order after the user's decision. -/
def termsStored (w : World) (s : SubmitData) : World :=
  (w.modifyData fun d => { d with submitData := d.submitData.insert s.orderId s }).record (.stored s)

/-- Remember the transaction of an order. -/
def orderCompleted (w : World) (X : OrderId) (s : SubmitData) (txid : String) : World :=
  (w.modifyData fun d =>
    { d with submitData := d.submitData.insert X { s with txid := some txid } }).record
      (.completed (.order X txid))

/-- Queue a sign request for review. -/
def promptQueued (w : World) (m : SignNotification) : World :=
  (w.modifyData fun d => { d with pendingSignPrompts := d.pendingSignPrompts ++ [m] }).record
    (.prompted m)

/-- Show a sign request for review. -/
def promptShown (w : World) (m : SignNotification) (rest : List SignNotification)
    (s : SubmitData) : World :=
  (((w.modifyData fun d => { d with pendingSignPrompts := rest }).record (.toUi (.submitReview
    (s.signReview m.orderId (decide (m.orderId ∈ w.data.internal)))))).modifyData fun d =>
      { d with visibleSubmit := some m.orderId }).modifyCtx fun c => { c with activeSign := some m }

end World

/-- The terms of a link have just come: since then assets were shown at most. -/
def Asked (X : OrderId) (resp : LinkResponse) (log : List Event) : Prop :=
  ∃ newer older, log = newer ++ .request (.link X) (.ok resp) :: older
    ∧ ∀ e ∈ newer, ∃ asset, e = .toUi (.newAsset asset)

/-- What identifies the deal of an order: its id and its transaction. -/
def SubmitData.deal (s : SubmitData) : OrderId × Option String := (s.orderId, s.txid)

/-- The orders keep their deals, and new ones have none yet. -/
structure KeepsDeals (old new : Map OrderId SubmitData) : Prop where
  kept : ∀ (X : OrderId) (s : SubmitData), old[X]? = some s →
    ∃ s' : SubmitData, new[X]? = some s' ∧ s'.deal = s.deal
  fresh : ∀ (X : OrderId) (s' : SubmitData), old[X]? = none → new[X]? = some s' →
    s'.deal = (X, none)

/-- Nothing changes. -/
theorem KeepsDeals.refl (m : Map OrderId SubmitData) : KeepsDeals m m := by
  refine ⟨fun X s hs => ⟨s, hs, rfl⟩, fun X s' hnone hs' => ?_⟩
  rw [hnone] at hs'
  cases hs'

/-- The terms of an order change. -/
theorem KeepsDeals.insert {m : Map OrderId SubmitData} {X : OrderId} {s s' : SubmitData}
    (hs : m[X]? = some s) (hdeal : s'.deal = s.deal) : KeepsDeals m (m.insert X s') := by
  constructor
  · intro Y t ht
    by_cases hY : X = Y
    · subst hY
      rw [hs] at ht
      cases ht
      exact ⟨s', by rw [Map.lookup_insert, if_pos rfl], hdeal⟩
    · exact ⟨t, by rw [Map.lookup_insert, if_neg hY, ht], rfl⟩
  · intro Y t hnone ht
    by_cases hY : X = Y
    · subst hY
      rw [hs] at hnone
      cases hnone
    · rw [Map.lookup_insert, if_neg hY, hnone] at ht
      cases ht

/-- The terms of a new order. -/
theorem KeepsDeals.insert_new {m : Map OrderId SubmitData} {X : OrderId} {s' : SubmitData}
    (hnone : m[X]? = none) (hdeal : s'.deal = (X, none)) : KeepsDeals m (m.insert X s') := by
  constructor
  · intro Y t ht
    have hY : X ≠ Y := by
      rintro rfl
      rw [hnone] at ht
      cases ht
    exact ⟨t, by rw [Map.lookup_insert, if_neg hY, ht], rfl⟩
  · intro Y t hnone' ht
    by_cases hY : X = Y
    · subst hY
      rw [Map.lookup_insert, if_pos rfl] at ht
      cases ht
      exact hdeal
    · rw [Map.lookup_insert, if_neg hY, hnone'] at ht
      cases ht

/-- An order that is known stays known. -/
theorem KeepsDeals.contains {old new : Map OrderId SubmitData} (h : KeepsDeals old new) {X : OrderId}
    (hX : old.contains X = true) : new.contains X = true := by
  rw [Std.ExtTreeMap.contains_eq_isSome_getElem?, Option.isSome_iff_exists] at hX ⊢
  obtain ⟨s, hs⟩ := hX
  obtain ⟨s', hs', -⟩ := h.kept X s hs
  exact ⟨s', hs'⟩

/-! ### Changes -/

/-- What one step of an effect does. -/
inductive Change : Effect → World → World → Prop where
  | said {w : World} {k : Effect} (e : Event) (he : e.effect = some k) : Change k w (w.record e)
  | called {w : World} : Change .talk w { w with calls := w.calls + 1 }
  | saved {w : World} (ok : Bool) :
      Change .talk w (if ok then { w with disk := w.data.settings } else w)
  | assetsSaved {w : World} (ok : Bool) (assets : List Asset) :
      Change .listing w (w.assetsWritten ok assets)
  | assetsLoaded {w : World} (assets : List Asset) :
      Change .load w (w.modifyData fun d => { d with assetsOld := assets })
  | info {w : World} (f : Data → Data)
      (hf : ∀ d, f d = { d with
        serverStatus := (f d).serverStatus, pushToken := (f d).pushToken
        settings := { (f d).settings with utxosReq := d.settings.utxosReq } }) :
      Change .talk w (w.modifyData f)
  | ctxInfo {w : World} (f : Context → Context)
      (hf : ∀ c, f c = { c with
        syncComplete := (f c).syncComplete, walletLoadedSent := (f c).walletLoadedSent
        phoneKey := (f c).phoneKey }) :
      Change .talk w (w.modifyCtx f)
  | marketSet {w : World} (subscribe : Subscribe) :
      Change .market w (w.modifyCtx fun c => { c with subscribe := subscribe })
  | registered {w : World} {icon : String} (asset : Asset) (swapMarket : Bool)
      (domain : Option String) (hicon : asset.icon = some icon) :
      Change .assets w (w.registered asset icon swapMarket domain)
  | listed {w : World} (f : Data → Map OrderId Order) :
      Change .orders w (w.modifyData fun d => { d with ordersLast := f d })
  | orderHidden {w : World} (X : OrderId) : Change .orders w (w.orderHidden X)
  | orderShown {w : World} (X : OrderId) (order : Order)
      (new : w.data.ordersSent[X]?.any order.same = false) : Change .orders w (w.orderShown X order)
  | txsRead {w : World} (txs : List TxListItem) :
      Change .wallet w (w.modifyCtx fun c => { c with txs := txs })
  | pegRead {w : World} (status : PegStatus) :
      Change .wallet w (w.modifyCtx fun c => { c with pegs := c.pegs.insert status.orderId status })
  | synced {w : World} (h : Host) : Change .sync w (trySyncTxList h w).state
  | balanced {w : World} (h : Host) : Change .balances w (updateBalances h w : Outcome String _ _).state
  | txShown {w : World} (item : TransItem) : Change .mirror w (w.record (.toUi (.updatedTx item)))
  | txHidden {w : World} (id : String) : Change .mirror w (w.record (.toUi (.removedTx id)))
  | txsSent {w : World} (list : Map String TransItem) : Change .mirror w (w.txsSent list)
  | balanceShown {w : World} (asset : AssetId) (amount : ℤ) :
      Change .mirror w (w.balanceShown asset amount)
  | balancesShown {w : World} (balances : Map AssetId ℤ) :
      Change .mirror w (w.record (.balanced balances))
  | swapReported {w : World} {c : Context} {item : TransItem} (wallet : w.data.ctx = some c)
      (waits : c.succeedSwap = some item.id) : Change .succeed w (w.swapReported item)
  | submitSucceeded {w : World} {item : TransItem} {submit : SubmitData}
      (found : w.data.submitData.values.find? (fun s => s.txid = some item.id) = some submit)
      (new : submit.orderId ∉ w.data.shownSucceed) :
      Change .succeed w (w.modifyData fun d =>
        { d with
          pendingSucceed := d.pendingSucceed ++ [item]
          shownSucceed := insert submit.orderId d.shownSucceed })
  | succeedShown {w : World} {item : TransItem} {rest : List TransItem}
      (pending : w.data.pendingSucceed = item :: rest) (free : w.data.visibleSubmit = none) :
      Change .success w (w.succeedShown item rest)
  | queued {w : World} (f : Data → Data)
      (hf : ∀ d, f d = { d with
        pendingSigns := (f d).pendingSigns, pendingSignRequests := (f d).pendingSignRequests
        pendingSubmits := (f d).pendingSubmits, pendingLinks := (f d).pendingLinks
        internal := (f d).internal }) :
      Change .queues w (w.modifyData f)
  | linkShown {w : World} (X : OrderId) (resp : LinkResponse) (asked : Asked X resp w.log) :
      Change .links w (w.linkShown X resp)
  | promptQueued {w : World} (m : SignNotification) (known : w.data.submitData.contains m.orderId) :
      Change .prompts w (w.promptQueued m)
  | promptDropped {w : World} {m : SignNotification} {rest : List SignNotification}
      (queue : w.data.pendingSignPrompts = m :: rest)
      (gone : w.data.submitData[m.orderId]? = none) :
      Change .prompts w (w.modifyData fun d => { d with pendingSignPrompts := rest })
  | promptShown {w : World} {m : SignNotification} {rest : List SignNotification} {s : SubmitData}
      (queue : w.data.pendingSignPrompts = m :: rest) (free : w.data.visibleSubmit = none)
      (wallet : w.data.ctx.isSome) (terms : w.data.submitData[m.orderId]? = some s) :
      Change .prompts w (w.promptShown m rest s)
  | reviewClosed {w : World} (waits : Bool) :
      Change .decisions w (w.modifyData fun d =>
        { d with
          waitingSubmit := if waits then d.visibleSubmit else d.waitingSubmit
          visibleSubmit := none })
  | signTaken {w : World} :
      Change .decisions w (w.modifyCtx fun c => { c with activeSign := none })
  | submitTaken {w : World} :
      Change .decisions w (w.modifyCtx fun c => { c with activeSubmit := none })
  | slots {w : World} (f : Context → Context)
      (hf : ∀ c, f c = { c with
        activeSwap := (f c).activeSwap, psbtUtxos := (f c).psbtUtxos
        internalPeg := (f c).internalPeg }) :
      Change .swap w (w.modifyCtx f)
  | cleaned {w : World} : Change .cleanup w (w.modifyCtx Context.withoutSwaps)
  | swapDone {w : World} {c : Context} {a : ActiveSwap} (txid : String)
      (wallet : w.data.ctx = some c) (active : c.activeSwap = some a) :
      Change .swapDone w ((w.modifyCtx fun c =>
        { c with
          usedUtxos := c.usedUtxos ∪ (a.inputs.map Utxo.txOut).toFinset
          succeedSwap := some txid }).record (.completed (.swap a.orderId txid)))
  | pegStarted {w : World} (X : OrderId) :
      Change .externPeg w (w.modifyCtx fun c => { c with activeExternPeg := some X })
  | paymentSet {w : World} (tx : Option SendTx) :
      Change .payment w (w.modifyCtx fun c => { c with sendTx := tx })
  | down {w : World} :
      Change .down w ((w.modifyData fun d => { d with connected := false }).record (.toWs false))
  | up {w : World} : Change .up w (w.modifyData fun d => { d with connected := true })
  | offline {w : World} :
      Change .offline w (w.modifyData fun d => { d with connected := false, ordersLast := ∅ })
  | login {w : World} (walletHashId : String) (phoneKey : Option PhoneKey) :
      Change .login w (w.modifyData fun d =>
        { d with ctx := some (freshContext walletHashId phoneKey) })
  | logout {w : World} :
      Change .logout w (w.modifyData fun d =>
        { d with
          ctx := none
          settings := { Settings.default with
            unregisterPhoneRequests := d.settings.unregisterPhoneRequests } })
  | terms {w : World} (f : Data → Data)
      (hf : ∀ d, f d = { d with
        submitData := (f d).submitData, processedSigns := (f d).processedSigns
        utxosResp := (f d).utxosResp
        settings := { d.settings with utxosReq := (f d).settings.utxosReq } })
      (keeps : KeepsDeals w.data.submitData (f w.data).submitData) :
      Change .terms w (w.modifyData f)
  | stored {w : World} (s : SubmitData) (new : s.txid = none) : Change .terms w (w.termsStored s)
  | completed {w : World} {s : SubmitData} (X : OrderId) (txid : String)
      (found : w.data.submitData[X]? = some s) : Change .terms w (w.orderCompleted X s txid)
  | cancelled {w : World} (X : OrderId) :
      Change .cancel w (w.modifyData fun d => { d with submitData := d.submitData.erase X })

/-- An effect whose steps are named functions of the worker. -/
def Effect.coarse : Effect → Bool
  | .sync | .balances => true
  | _ => false

/-- A step only adds to the history. -/
theorem Change.log_suffix {k : Effect} {w w' : World} (hs : Change k w w')
    (hcoarse : k.coarse = false) : w.log <:+ w'.log := by
  cases hs
  case said e _ => exact List.suffix_cons e w.log
  case saved ok => cases ok <;> exact List.suffix_rfl
  case synced | balanced => cases hcoarse
  case registered | orderHidden | orderShown | txShown | txHidden | txsSent | balanceShown
      | balancesShown | swapReported | succeedShown | linkShown | promptQueued | promptShown | swapDone
      | stored | completed | down =>
    exact List.suffix_cons _ w.log
  all_goals exact List.suffix_rfl

/-- The steps of the effect `k` are chains of `G`-steps. -/
class Allows (G : World → World → Prop) (k : Effect) : Prop where
  chain : ∀ {w w' : World}, Change k w w' → Relation.ReflTransGen G w w'

end SideSwap.Client
