import SideSwap.Client.Effects

/-!
# The effects of the handlers

One lemma for each function of the worker, in the order of the source.  The instance arguments of a
lemma are the effects of the function.
-/

namespace SideSwap.Client

open Proc

variable {ε : Type} {h : Host} {G : World → World → Prop}

/-! ### Primitives -/

/-- The success of a peg is told alone. -/
theorem pegReport_effect {item : TransItem} {txid : String} {vout : ℤ}
    (hid : item.id = pegTxitemId txid vout) :
    (Event.toUi (.swapSucceed item)).effect = some .report := by
  have hpeg : item.isPeg = true := by
    rw [TransItem.isPeg, hid, pegTxitemId, List.contains_iff_mem, String.toList_append,
      String.toList_append, List.append_assoc]
    exact List.mem_append_right _ (List.mem_append_left _ (by decide))
  rw [Event.effect, hpeg]
  rfl

/-- What follows `getData` runs on the state that was read. -/
theorem getData_bind_apply {α : Type} (k : Data → Worker ε α) (w : World) :
    (getData >>= k) w = k w.data w := rfl

/-- What follows a change of the state runs on the changed one. -/
theorem modifyData_bind_apply {α : Type} (f : Data → Data) (k : Unit → Worker ε α) (w : World) :
    (modifyData f >>= k) w = k () (w.modifyData f) := rfl

/-- What follows a change of the wallet runs on the changed one. -/
theorem modifyCtx_bind_apply {α : Type} (f : Context → Context) (k : Unit → Worker ε α) (w : World) :
    (modifyCtx f >>= k) w = k () (w.modifyCtx f) := rfl

/-- The state that is read is the state of the world. -/
theorem getData_spec {P : World → Prop} :
    Guar G P (getData : Worker ε Data) fun d w => d = w.data ∧ P w := by
  refine .bind .get fun w => .pure ?_
  rintro _ ⟨rfl, hw⟩
  exact ⟨rfl, hw⟩

/-- The wallet that is read is the one in the state. -/
theorem ctxOr_spec {P : World → Prop} (text : String) :
    Guar G P (ctxOr text) fun c w => w.data.ctx = some c ∧ P w := by
  refine .bind getData_spec fun d => Guar.okOr.post ?_
  rintro c w ⟨hc, rfl, hw⟩
  exact ⟨hc, hw⟩

/-- The wallet that is read is the one in the state. -/
theorem expectCtx_spec {P : World → Prop} :
    Guar G P (expectCtx : Worker ε Context) fun c w => w.data.ctx = some c ∧ P w := by
  refine .bind getData_spec fun d => Guar.expect.post ?_
  rintro c w ⟨hc, rfl, hw⟩
  exact ⟨hc, hw⟩

/-- A change of the world is a step of an effect that the relation allows. -/
theorem modify_effects {k : Effect} [Allows G k] {f : World → World}
    (hf : ∀ w, Change k w (f w)) : Refines G (Proc.modify f : Worker ε Unit) :=
  .of_chain fun w => Allows.chain (hf w)

/-- An event is a step of its effect. -/
theorem record_effects {e : Event} {k : Effect} (he : e.effect = some k) [Allows G k] :
    Refines G (record e : Worker ε Unit) :=
  modify_effects fun _ => .said e he

/-- A message to the user interface is a step of the effect of its event. -/
theorem toUi_effects {msg : FromMsg} {k : Effect} (he : (Event.toUi msg).effect = some k)
    [Allows G k] : Refines G (toUi msg : Worker ε Unit) :=
  record_effects he

/-- To read the state has no effect, whatever the relation. -/
theorem getData_effects : Refines G (getData : Worker ε Data) := .bind .get fun _ => .pure _

/-- To read the wallet has no effect. -/
theorem expectCtx_effects : Refines G (expectCtx : Worker ε Context) :=
  .bind getData_effects fun _ => .expect _

/-- To read the wallet has no effect, also where the answer is an error. -/
theorem ctxOr_effects (text : String) : Refines G (ctxOr text) :=
  .bind getData_effects fun _ => .okOr _ _

/-- To drop an error has no effect. -/
theorem ignoreError_effects {α : Type} {m : Worker String α} (hm : Refines G m) :
    Refines G (ignoreError m : Worker ε Unit) :=
  .bind (.attempt hm) fun _ => .pure _

theorem showMessage_effects (text : String) [Allows G .talk] :
    Refines G (showMessage text : Worker ε Unit) :=
  toUi_effects rfl

/-- A call of the host is counted and nothing else. -/
theorem call_effects {α : Type} (f : ℕ → α) [Allows G .talk] :
    Refines G (call f : Worker ε α) := by
  refine .bind (.bind .get fun _ => .bind ?_ fun _ => .pure _) fun _ => .pure _
  exact modify_effects fun _ => .called

/-- A call that fails is counted like one that succeeds. -/
theorem callOr_effects {α : Type} (f : ℕ → Except String α) (wrap : String → String)
    [Allows G .talk] : Refines G (callOr f wrap) :=
  .bind (call_effects f) fun _ => .ofExcept _

/-- A call returns or fails as the outside answers. -/
theorem callOr_apply {α : Type} (f : ℕ → Except String α) (wrap : String → String) (w : World) :
    callOr f wrap w =
      match f w.calls with
      | .ok a => .ok a { w with calls := w.calls + 1 }
      | .error e => .error (wrap e) { w with calls := w.calls + 1 } := by
  have happly : callOr f wrap w =
      Proc.ofExcept ((f w.calls).mapError wrap) { w with calls := w.calls + 1 } := rfl
  rw [happly]
  cases f w.calls <;> rfl

/-- What a call returns is the answer of the outside. -/
theorem callOr_eq_ok {α : Type} {f : ℕ → Except String α} {wrap : String → String} {w w' : World}
    {a : α} (hok : callOr f wrap w = .ok a w') : f w.calls = .ok a := by
  rw [callOr_apply] at hok
  cases hf : f w.calls with
  | ok b =>
    rw [hf] at hok
    cases hok
    rfl
  | error e =>
    rw [hf] at hok
    cases hok

/-- What a request leaves: one more call and the answer in the history. -/
def World.asked (w : World) (r : Request) (answer : Except String r.Answer) : World :=
  { w with calls := w.calls + 1 }.record (.request r answer)

/-- A request records the answer before it fails with it. -/
theorem requestOr_apply (r : Request) (wrapError : String → String) (w : World) :
    requestOr h r wrapError w =
      match h.server w.calls r with
      | .ok a => .ok a (w.asked r (.ok a))
      | .error e => .error (wrapError e) (w.asked r (.error e)) := by
  have happly : requestOr h r wrapError w =
      Proc.ofExcept ((h.server w.calls r).mapError wrapError)
        (w.asked r (h.server w.calls r)) := rfl
  rw [happly]
  cases h.server w.calls r <;> rfl

/-- A request returns what the server has answered. -/
theorem request_ok {r : Request} {w w' : World} {a : r.Answer} (hok : request h r w = .ok a w') :
    h.server w.calls r = .ok a ∧ w' = w.asked r (.ok a) := by
  rw [request, requestOr_apply] at hok
  cases hserver : h.server w.calls r with
  | ok a' =>
    rw [hserver] at hok
    cases hok
    exact ⟨rfl, rfl⟩
  | error e =>
    rw [hserver] at hok
    cases hok

/-- A request is a call and a step of the effect of its answers. -/
theorem requestOr_effects {r : Request} {k : Effect} [Allows G .talk] [Allows G k]
    (wrapError : String → String)
    (hr : ∀ answer, (Event.request r answer).effect = some k) : Refines G (requestOr h r wrapError) :=
  .bind (call_effects _) fun answer => .bind (record_effects (hr answer)) fun _ => .ofExcept _

theorem request_effects {r : Request} {k : Effect} [Allows G .talk] [Allows G k]
    (hr : ∀ answer, (Event.request r answer).effect = some k) : Refines G (request h r) :=
  requestOr_effects id hr

/-- A request that is not waited for is a step of its effect. -/
theorem sendRequestMsg_effects {r : Request} {k : Effect} [Allows G k]
    (hr : (Event.posted r).effect = some k) : Refines G (sendRequestMsg r : Worker ε Unit) :=
  record_effects hr

/-- Whether the file is written or not, the settings in memory stay. -/
theorem saveSettings_effects [Allows G .talk] : Refines G (saveSettings h : Worker ε Unit) :=
  .bind (call_effects _) fun ok => modify_effects fun _ => .saved ok

/-- What a server says about itself and the settings besides the coins are plain information. -/
theorem info_effects {f : Data → Data}
    (hf : ∀ d, f d = { d with
      serverStatus := (f d).serverStatus, pushToken := (f d).pushToken
      settings := { (f d).settings with utxosReq := d.settings.utxosReq } }) [Allows G .talk] :
    Refines G (modifyData f : Worker ε Unit) :=
  modify_effects fun _ => .info f hf

/-- The settings besides the coins of orders. -/
theorem modifySettings_effects {f : Settings → Settings}
    (hf : ∀ s, (f s).utxosReq = s.utxosReq) [Allows G .talk] :
    Refines G (modifySettings f : Worker ε Unit) := by
  refine info_effects fun d => ?_
  rw [← hf d.settings]

/-- The flags of a synchronization and the phone are plain information. -/
theorem ctxInfo_effects {f : Context → Context}
    (hf : ∀ c, f c = { c with
      syncComplete := (f c).syncComplete, walletLoadedSent := (f c).walletLoadedSent
      phoneKey := (f c).phoneKey }) [Allows G .talk] :
    Refines G (modifyCtx f : Worker ε Unit) :=
  modify_effects fun _ => .ctxInfo f hf

/-! ### Assets -/

/-- An asset without an icon is a panic that registers nothing. -/
theorem registerAsset_apply (asset : Asset) (swapMarket : Bool) (domain : Option String)
    (w : World) :
    (registerAsset asset swapMarket domain : Worker ε Unit) w =
      match asset.icon with
      | some icon => .ok () (w.registered asset icon swapMarket domain)
      | none => .abort w := by
  unfold registerAsset
  cases asset.icon <;> rfl

/-- An asset is registered in one step, or not at all. -/
theorem registerAsset_effects (asset : Asset) (swapMarket : Bool) (domain : Option String)
    [Allows G .assets] : Refines G (registerAsset asset swapMarket domain : Worker ε Unit) := by
  refine .of_chain fun w => ?_
  rw [registerAsset_apply]
  cases hicon : asset.icon with
  | none => exact .refl
  | some icon => exact Allows.chain (.registered asset swapMarket domain hicon)

theorem registerAssets_effects (assets : List Asset) [Allows G .assets] :
    Refines G (registerAssets h assets : Worker ε Unit) :=
  .bind (.expect _) fun _ => .each fun asset _ => registerAsset_effects asset _ _

/-- A second attempt is made with the assets that are stored already. -/
theorem refreshAssets_effects [Allows G .talk] : Refines G (refreshAssets h) := by
  refine .bind (call_effects _) fun first => ?_
  cases first with
  | ok assets => exact .pure assets
  | error e => exact callOr_effects _ _

/-- To look an asset up in the registry registers nothing. -/
theorem loadGdkAsset_effects (assetId : AssetId) [Allows G .talk] :
    Refines G (loadGdkAsset h assetId) := by
  refine .bind (ctxOr_effects _) fun _ => ?_
  refine .bind refreshAssets_effects fun gdkAssets => ?_
  exact .bind (.okOr _ _) fun v => .pure _

/-- Only an asset that is not known is looked up and registered. -/
theorem tryAddAsset_effects (assetId : AssetId) [Allows G .talk] [Allows G .assets] :
    Refines G (tryAddAsset h assetId) := by
  refine .bind getData_effects fun d => ?_
  split
  · exact .pure _
  · exact .bind (loadGdkAsset_effects assetId) fun p => registerAsset_effects p.1 false p.2

/-- An asset of the wallet is registered also where the registry does not know it. -/
theorem addWalletAsset_effects (assetId : AssetId) [Allows G .talk] [Allows G .assets] :
    Refines G (addWalletAsset h assetId : Worker ε Unit) := by
  refine .bind (.attempt (loadGdkAsset_effects assetId)) fun loaded => ?_
  cases loaded with
  | ok p => exact registerAsset_effects p.1 false p.2
  | error e => exact registerAsset_effects _ _ _

/-- The saved list is registered as a whole. -/
theorem loadAssets_effects [Allows G .load] [Allows G .assets] : Refines G (loadAssets h) := by
  refine .bind .get fun w => ?_
  refine .bind (.okOr _ _) fun assets => ?_
  exact .bind (modify_effects fun _ => .assetsLoaded assets) fun _ => registerAssets_effects assets

theorem saveAssets_effects (assets : List Asset) [Allows G .talk] [Allows G .listing] :
    Refines G (saveAssets h assets : Worker ε Unit) :=
  .bind (call_effects _) fun ok => modify_effects fun _ => .assetsSaved ok assets

/-! ### Transactions, addresses and contacts -/

/-- The results are shown one by one while no review is shown. -/
theorem showSucceed_effects (items : List TransItem) [Allows G .success] :
    Guar G (fun w => w.data.pendingSucceed = items ∧ w.data.visibleSubmit = none)
      (showSucceed items : Worker ε Unit) fun _ _ => True := by
  induction items with
  | nil => exact .pure fun _ _ => trivial
  | cons item rest ih =>
    rintro w ⟨hpending, hfree⟩
    have happly : (showSucceed (item :: rest) : Worker ε Unit) w =
        showSucceed rest (w.succeedShown item rest) := rfl
    rw [happly]
    obtain ⟨hchain, -⟩ := ih (w.succeedShown item rest) ⟨rfl, hfree⟩
    have hstep : Change .success w (w.succeedShown item rest) := .succeedShown hpending hfree
    exact ⟨(Allows.chain hstep).trans hchain, fun _ _ _ => trivial⟩

/-- Results wait while a review is shown. -/
theorem processPendingSucceed_effects [Allows G .success] :
    Refines G (processPendingSucceed : Worker ε Unit) := by
  refine .of_chain fun w => ?_
  have happly : (processPendingSucceed : Worker ε Unit) w =
      (if w.data.visibleSubmit.isSome then pure () else showSucceed w.data.pendingSucceed) w := rfl
  rw [happly]
  split
  · exact .refl
  · rename_i hfree
    have hnone : w.data.visibleSubmit = none := by simpa using hfree
    exact (showSucceed_effects w.data.pendingSucceed w ⟨rfl, hnone⟩).1

/-- Every batch is one request and one change of the settings. -/
theorem registerBatches_effects (deviceKey : String) (indexes : ℕ × ℕ) (n : ℕ) [Allows G .talk] :
    Refines G (registerBatches h deviceKey indexes n : Worker ε Unit) := by
  induction n with
  | zero => exact .pure _
  | succ n ih =>
    refine .bind getData_effects fun d => ?_
    dsimp only
    split
    · exact .pure _
    · refine .bind (.attempt (request_effects fun _ => rfl)) fun resp => ?_
      cases resp with
      | ok _ =>
        refine .bind (modifySettings_effects fun _ => rfl) fun _ => ?_
        exact .bind saveSettings_effects fun _ => ih
      | error e => exact .pure _

/-- Addresses are registered only once there is a device key. -/
theorem updateAddressRegistrations_effects [Allows G .talk] :
    Refines G (updateAddressRegistrations h : Worker ε Unit) := by
  refine .bind getData_effects fun d => ?_
  split
  · exact .bind (call_effects _) fun indexes => registerBatches_effects _ indexes _
  · exact .pure _

/-- A swap is reported when its transaction appears, and the slot is emptied in the same step. -/
theorem reportSwapSucceed_effects (item : TransItem) [Allows G .succeed] :
    Refines G (reportSwapSucceed item : Worker ε Unit) := by
  refine Guar.bind expectCtx_spec fun c => ?_
  split
  · rename_i hwaits
    rintro w ⟨hc, -⟩
    exact ⟨Allows.chain (.swapReported hc hwaits), fun _ _ _ => trivial⟩
  · exact .pure fun _ _ => trivial

/-- An order is reported when its transaction appears, once. -/
theorem queueSubmitSucceed_effects (item : TransItem) [Allows G .succeed] :
    Refines G (queueSubmitSucceed item : Worker ε Unit) := by
  refine Guar.bind getData_spec fun d => ?_
  split
  · rename_i submit hfound
    split
    · exact .pure fun _ _ => trivial
    · rename_i hnew
      rintro w ⟨rfl, -⟩
      exact ⟨Allows.chain (.submitSucceeded hfound hnew), fun _ _ _ => trivial⟩
  · exact .pure fun _ _ => trivial

/-- A changed transaction is shown, and it may be the one that a report waits for. -/
theorem syncTxItem_effects (item : TransItem) [Allows G .mirror] [Allows G .succeed] :
    Refines G (syncTxItem item : Worker ε Unit) := by
  refine .bind expectCtx_effects fun c => ?_
  split
  · exact .pure _
  · refine .bind (modify_effects fun _ => .txShown item) fun _ => ?_
    exact .bind (reportSwapSucceed_effects item) fun _ => queueSubmitSucceed_effects item

/-- The comparison of the lists: removals, then changes, then the list that was shown is replaced.
-/
theorem trySyncTxList_effects [Allows G .talk] [Allows G .mirror] [Allows G .succeed]
    [Allows G .success] : Refines G (trySyncTxList h) := by
  refine .bind expectCtx_effects fun ctx => .bind (callOr_effects _ _) fun topBlock => ?_
  refine .bind (.expect _) fun newList => ?_
  refine .bind (.each fun id _ => modify_effects fun _ => .txHidden id) fun _ => ?_
  refine .bind (.each fun item _ => syncTxItem_effects item) fun _ => ?_
  have htail : Refines G (do
      updateAddressRegistrations h
      processPendingSucceed : Worker String Unit) :=
    .bind updateAddressRegistrations_effects fun _ => processPendingSucceed_effects
  exact .of_chain fun w => (Allows.chain (.txsSent newList)).trans (htail.chain (w.txsSent newList))

/-- The steps of a comparison of the transaction lists. -/
theorem allows_sync [Allows G .talk] [Allows G .mirror] [Allows G .succeed]
    [Allows G .success] : Allows G .sync where
  chain := by
    intro w w' hs
    cases hs with
    | said e he => exact absurd (Event.effect_mem he) (by decide)
    | synced h => exact trySyncTxList_effects.chain w

/-- A balance is shown where it differs from the one before. -/
theorem updateBalances_effects [Allows G .talk] [Allows G .mirror] :
    Refines G (updateBalances h : Worker ε Unit) := by
  refine .bind getData_effects fun d => ?_
  split
  · exact .pure _
  · refine .bind (call_effects _) fun result => ?_
    cases result with
    | error e => exact .pure _
    | ok balances =>
      refine .bind (.each fun p _ => .bind expectCtx_effects fun ctx => ?_) fun _ => ?_
      · split
        · exact .pure _
        · exact .of_chain fun w => Allows.chain (.balanceShown p.1 p.2)
      · exact modify_effects fun _ => .balancesShown balances

/-- The steps of a comparison of the balances. -/
theorem allows_balances [Allows G .talk] [Allows G .mirror] : Allows G .balances where
  chain := by
    intro w w' hs
    cases hs with
    | said e he => exact absurd (Event.effect_mem he) (by decide)
    | balanced h => exact updateBalances_effects.chain w

/-- A comparison that fails is dropped. -/
theorem syncTxList_effects [Allows G .sync] : Refines G (syncTxList h : Worker ε Unit) :=
  ignoreError_effects (.of_chain fun _ => Allows.chain (.synced h))

/-- A read of the wallet: the list, the assets in it, the comparison and the balances. -/
theorem updateTxList_effects [Allows G .talk] [Allows G .assets] [Allows G .wallet] [Allows G .sync]
    [Allows G .balances] : Refines G (updateTxList h : Worker ε Unit) := by
  refine ignoreError_effects (.bind getData_effects fun d => ?_)
  split
  · exact .pure _
  · refine .bind (callOr_effects _ _) fun txs => ?_
    refine .bind (modify_effects fun _ => .txsRead txs) fun _ => ?_
    refine .bind (.each fun id _ => addWalletAsset_effects id) fun _ => ?_
    exact .bind syncTxList_effects fun _ => .of_chain fun _ => Allows.chain (.balanced h)

theorem addPegMonitoring_effects (orderId : OrderId) (dir : PegDir) [Allows G .talk] :
    Refines G (addPegMonitoring h orderId dir : Worker ε Unit) := by
  refine .bind getData_effects fun d => ?_
  refine .bind (.each fun peg _ => sendRequestMsg_effects rfl) fun _ => ?_
  exact .bind (modifySettings_effects fun _ => rfl) fun _ => saveSettings_effects

theorem resumePegMonitoring_effects [Allows G .talk] :
    Refines G (resumePegMonitoring : Worker ε Unit) := by
  refine .bind getData_effects fun d => ?_
  split
  · exact .pure _
  · exact .each fun peg _ => sendRequestMsg_effects rfl

theorem downloadContacts_effects [Allows G .talk] : Refines G (downloadContacts h : Worker ε Unit) := by
  refine .bind getData_effects fun d => ?_
  split
  · refine .bind (.attempt (request_effects fun _ => rfl)) fun result => ?_
    cases result with
    | ok data =>
      refine .bind (toUi_effects rfl) fun _ => ?_
      refine .bind (.each fun contact _ => toUi_effects rfl) fun _ => ?_
      exact .each fun tx _ => toUi_effects rfl
    | error e => exact .pure _
  · exact .pure _

theorem updatePushToken_effects [Allows G .talk] : Refines G (updatePushToken h : Worker ε Unit) := by
  refine .bind getData_effects fun d => ?_
  split
  · exact ignoreError_effects (request_effects fun _ => rfl)
  · exact .pure _

theorem processUnregisterPhoneRequests_effects [Allows G .talk] :
    Refines G (processUnregisterPhoneRequests h : Worker ε Unit) := by
  refine .bind getData_effects fun d => ?_
  split
  · exact .pure _
  · refine .each fun phoneKey _ => ?_
    refine .bind (.attempt (request_effects fun _ => rfl)) fun result => ?_
    cases result with
    | ok _ => exact .bind (modifySettings_effects fun _ => rfl) fun _ => saveSettings_effects
    | error e => exact .pure _

/-! ### Instant swaps -/

/-- The slots of the instant swap change together. -/
theorem slots_effects {f : Context → Context} [Allows G .swap]
    (hf : ∀ c, f c = { c with
      activeSwap := (f c).activeSwap, psbtUtxos := (f c).psbtUtxos
      internalPeg := (f c).internalPeg }) :
    Refines G (modifyCtx f : Worker ε Unit) :=
  modify_effects fun _ => .slots f hf

/-- A slot and the event that explains it. -/
theorem slots_record_effects {f : Context → Context} {e : Event} [Allows G .swap]
    (hf : ∀ c, f c = { c with
      activeSwap := (f c).activeSwap, psbtUtxos := (f c).psbtUtxos
      internalPeg := (f c).internalPeg })
    (he : e.effect = some .swap) :
    Refines G (Proc.modify fun w => (w.modifyCtx f).record e : Worker ε Unit) := by
  refine .of_chain fun w => ?_
  have hslots : Relation.ReflTransGen G w (w.modifyCtx f) := Allows.chain (.slots f hf)
  exact hslots.trans (Allows.chain (.said e he))

/-- A quote is put beside its swap and shown. -/
theorem rfqUpdate_effects (msg : MatchRfqUpdate) [Allows G .talk] [Allows G .swap] :
    Refines G (rfqUpdate msg) := by
  refine .bind (ctxOr_effects _) fun ctx => .bind (.okOr _ _) fun activeSwap => ?_
  exact .bind (slots_effects fun _ => rfl) fun _ => toUi_effects rfl

/-- All slots of the instant swap are emptied in one step. -/
theorem cleanupSwaps_effects [Allows G .cleanup] : Refines G (cleanupSwaps : Worker ε Unit) :=
  .bind expectCtx_effects fun _ => modify_effects fun _ => .cleaned

/-- A partial transaction is made outside; its result is recorded. -/
theorem generatePsbt_effects (info : PsbtInfo) (utxos : List Utxo) [Allows G .talk]
    [Allows G .psets] : Refines G (generatePsbt h info utxos) := by
  refine .bind (call_effects _) fun result => .bind (.expect _) fun psbt => ?_
  exact .bind (record_effects rfl) fun _ => .ofExcept _

/-- A signature is made outside; its purpose and its result are recorded. -/
theorem signPsbt_effects {k : Effect} (purpose : Purpose) (info : PsbtInfo) (utxos : List Utxo)
    (psbt : String) [Allows G .talk] [Allows G k]
    (hk : ∀ signed, (Event.signPsbt purpose info utxos psbt signed).effect = some k) :
    Refines G (signPsbt h purpose info utxos psbt) := by
  refine .bind (call_effects _) fun result => .bind (.expect _) fun signed => ?_
  exact .bind (record_effects (hk _)) fun _ => .ofExcept _

/-- The coins of a swap are kept once the server has its partial transaction. -/
theorem swapSendPsbt_effects (swap : Swap) [Allows G .talk] [Allows G .swap]
    [Allows G .psets] : Refines G (swapSendPsbt h swap) := by
  refine .bind (ctxOr_effects _) fun ctx => .bind (.okOr _ _) fun activeSwap => ?_
  refine .bind (generatePsbt_effects _ _) fun psbt => ?_
  exact .bind (request_effects fun _ => rfl) fun _ => slots_effects fun _ => rfl

/-- The swap's transaction is signed with the coins that were kept. -/
theorem swapSendSign_effects (psbt : String) [Allows G .talk] [Allows G .swap] :
    Refines G (swapSendSign h psbt) := by
  refine .bind (ctxOr_effects _) fun ctx => .bind (.okOr _ _) fun activeSwap => ?_
  refine .bind (.okOr _ _) fun utxos => .bind (signPsbt_effects _ _ _ _ fun _ => rfl) fun signed => ?_
  exact .bind (request_effects fun _ => rfl) fun _ => .pure _

/-- A failed swap is shown and its slots emptied, unless the client has cancelled it itself. -/
theorem swapFailed_effects (error : SwapError) [Allows G .talk] [Allows G .cleanup] :
    Refines G (swapFailed error : Worker ε Unit) := by
  unfold swapFailed
  split
  · exact .pure _
  · exact .bind (toUi_effects rfl) fun _ => cleanupSwaps_effects

/-- The coins of a finished swap become used before its slots are emptied. -/
theorem swapSucceed_effects (txid : String) [Allows G .swapDone] [Allows G .cleanup] :
    Refines G (swapSucceed txid : Worker ε Unit) := by
  refine Guar.bind expectCtx_spec fun c => Guar.bind Guar.expect fun a => ?_
  rintro w ⟨ha, hc, -⟩
  refine ⟨?_, fun _ _ _ => trivial⟩
  exact (Allows.chain (.swapDone txid hc ha)).trans (cleanupSwaps_effects.chain _)

/-- Only a notification about the active swap has an effect. -/
theorem processSwapNotification_effects (msg : SwapNotification) [Allows G .talk]
    [Allows G .swap] [Allows G .psets] [Allows G .swapDone] [Allows G .cleanup] :
    Refines G (processSwapNotification h msg : Worker ε Unit) := by
  refine .bind getData_effects fun d => ?_
  split
  · split
    · split
      · exact ignoreError_effects (swapSendPsbt_effects _)
      · exact ignoreError_effects (swapSendSign_effects _)
      · exact swapFailed_effects _
      · exact swapSucceed_effects _
    · exact .pure _
  · exact .pure _

/-- A peg-out is reviewed without the server. -/
theorem processPegoutRequestLocal_effects (req : SwapRequest) [Allows G .swap] :
    Refines G (processPegoutRequestLocal h req) := by
  refine .bind getData_effects fun d => .bind (.ensure _) fun _ => .bind (.okOr _ _) fun blocks => ?_
  refine .bind (.okOr _ _) fun _ => .bind (.okOr _ _) fun status => .bind (.ensure _) fun _ => ?_
  exact .bind (slots_record_effects (fun _ => rfl) rfl) fun _ => .pure _

/-- An instant swap takes its slot only after the server has named it. -/
theorem processSwapRequestAtomic_effects (req : SwapRequest) [Allows G .talk]
    [Allows G .swap] : Refines G (processSwapRequestAtomic h req) := by
  refine .bind getData_effects fun d => .bind (.ensure _) fun _ => .bind (.expect _) fun ctx => ?_
  refine .bind (.expect _) fun _ => .bind (.expect _) fun _ => .bind (callOr_effects _ _) fun all => ?_
  refine .bind (.okOr _ _) fun utxos => .bind (.ensure _) fun _ => .bind (.expect _) fun p => ?_
  refine .bind (requestOr_effects _ fun _ => rfl) fun orderId => ?_
  exact .bind (slots_record_effects (fun _ => rfl) rfl) fun _ => .pure _

/-- A request for a swap ends with a review, of terms or of an error. -/
theorem processSwapRequest_effects (req : SwapRequest) [Allows G .talk] [Allows G .swap] :
    Refines G (processSwapRequest h req : Worker ε Unit) := by
  have htry : Refines G (tryProcessSwapRequest h req) := by
    unfold tryProcessSwapRequest
    split
    · exact processPegoutRequestLocal_effects req
    · split
      · exact .abort
      · exact processSwapRequestAtomic_effects req
  refine .bind (.attempt htry) fun result => ?_
  cases result with
  | ok review => exact toUi_effects rfl
  | error e => exact toUi_effects rfl

/-- The slots are emptied whatever the server answers. -/
theorem processSwapCancel_effects [Allows G .talk] [Allows G .swap] [Allows G .cleanup] :
    Refines G (processSwapCancel h : Worker ε Unit) := by
  refine .bind expectCtx_effects fun ctx => .bind ?_ fun _ => cleanupSwaps_effects
  unfold cancelActiveSwap
  split
  · refine .bind (slots_effects fun _ => rfl) fun _ => ?_
    exact ignoreError_effects (request_effects fun _ => rfl)
  · exact .pure _

/-- The accepted amount is kept after the server has taken it. -/
theorem acceptSwap_effects (a : ActiveSwap) (req : SwapAccept) [Allows G .talk]
    [Allows G .swap] : Refines G (acceptSwap h a req) := by
  refine .bind (.okOr _ _) fun amount => .bind (request_effects fun _ => rfl) fun _ => ?_
  exact slots_effects fun _ => rfl

/-- A peg-out is reported after its payment is broadcast, and its slot is emptied then. -/
theorem payPegOut_effects (data : InternalPeg) (recvAddr : String) (resp : PegResponse)
    [Allows G .talk] [Allows G .report] [Allows G .cleanup] :
    Refines G (payPegOut h data recvAddr resp) := by
  refine .bind getData_effects fun d => .bind (.expect _) fun lbtc => ?_
  refine .bind expectCtx_effects fun ctx => .bind (.expect _) fun balance => ?_
  refine .bind (.ensure _) fun _ => .bind (callOr_effects _ _) fun tx => ?_
  refine .bind (.ofExcept _) fun vout => .bind (.okOr _ _) fun status => .bind (.ensure _) fun _ => ?_
  refine .bind (call_effects _) fun signed => .bind (.expect _) fun tx => ?_
  refine .bind (callOr_effects _ _) fun txid => .bind (call_effects _) fun createdAt => ?_
  refine .bind (toUi_effects (pegReport_effect rfl)) fun _ => .bind cleanupSwaps_effects fun _ => ?_
  exact addPegMonitoring_effects _ _

/-- The reviewed peg-out leaves its slot before anything is asked. -/
theorem acceptPegOut_effects (data : InternalPeg) (req : SwapAccept) [Allows G .talk]
    [Allows G .swap] [Allows G .report] [Allows G .cleanup] :
    Refines G (acceptPegOut h data req) := by
  refine .bind (slots_record_effects (fun _ => rfl) rfl) fun _ => ?_
  refine .bind getData_effects fun d => .bind (.expect _) fun deviceKey => ?_
  refine .bind (.expect _) fun recvAddr => .bind (requestOr_effects _ fun _ => rfl) fun resp => ?_
  exact payPegOut_effects data recvAddr resp

/-- An acceptance is about the swap or the peg-out, whichever has its slot taken. -/
theorem tryProcessSwapAccept_effects (req : SwapAccept) [Allows G .talk] [Allows G .swap]
    [Allows G .report] [Allows G .cleanup] : Refines G (tryProcessSwapAccept h req) := by
  refine .bind expectCtx_effects fun ctx => .bind getData_effects fun d => ?_
  refine .bind (.ensure _) fun _ => ?_
  split
  · exact acceptSwap_effects _ req
  · exact acceptPegOut_effects _ req
  · exact .fail _

/-- An acceptance that fails cancels the swap. -/
theorem processSwapAccept_effects (req : SwapAccept) [Allows G .talk] [Allows G .swap]
    [Allows G .report] [Allows G .cleanup] :
    Refines G (processSwapAccept h req : Worker ε Unit) := by
  refine .bind (.attempt (tryProcessSwapAccept_effects req)) fun result => ?_
  cases result with
  | ok _ => exact .pure _
  | error e => exact .bind (toUi_effects rfl) fun _ => processSwapCancel_effects

/-! ### Pegs and plain transactions -/

/-- A peg-in is watched from the moment its address is shown. -/
theorem processPegRequestExternal_effects [Allows G .talk] [Allows G .externPeg] :
    Refines G (processPegRequestExternal h : Worker ε Unit) := by
  have hpeg : Refines G (tryProcessPegRequestExternal h) := by
    refine .bind getData_effects fun d => .bind (.ensure _) fun _ => ?_
    refine .bind expectCtx_effects fun _ => .bind (.expect _) fun deviceKey => ?_
    refine .bind (call_effects _) fun addr => .bind (.expect _) fun recvAddr => ?_
    refine .bind (requestOr_effects _ fun _ => rfl) fun resp => ?_
    refine .bind (addPegMonitoring_effects _ _) fun _ => .bind (toUi_effects rfl) fun _ => ?_
    exact modify_effects fun _ => .pegStarted _
  refine .bind (.attempt hpeg) fun result => ?_
  cases result with
  | ok _ => exact .pure _
  | error e => exact toUi_effects rfl

/-- The first payment to the watched address is reported. -/
theorem reportPeg_effects (status : PegStatus) [Allows G .report] [Allows G .cleanup] :
    Refines G (reportPeg status : Worker ε Unit) := by
  refine .bind expectCtx_effects fun ctx => ?_
  split
  · split
    · exact .bind (toUi_effects (pegReport_effect rfl)) fun _ => cleanupSwaps_effects
    · exact .pure _
  · exact .pure _

/-- A status is shown with the transactions and may finish the peg. -/
theorem processPegStatus_effects (status : PegStatus) [Allows G .wallet] [Allows G .sync]
    [Allows G .report] [Allows G .cleanup] :
    Refines G (processPegStatus h status : Worker ε Unit) := by
  refine .bind getData_effects fun d => ?_
  split
  · exact .pure _
  · refine .bind (modify_effects fun _ => .pegRead status) fun _ => ?_
    exact .bind syncTxList_effects fun _ => reportPeg_effects status

/-- A contact's address comes from the server. -/
theorem sendAddress_effects (ctx : Context) (req : CreateTx) [Allows G .talk] :
    Refines G (sendAddress h ctx req) := by
  unfold sendAddress
  split
  · refine .bind (.okOr _ _) fun phoneKey => ?_
    exact .bind (requestOr_effects _ fun _ => rfl) fun addr => .pure _
  · exact .pure _

/-- A payment that is created replaces the one before. -/
theorem processCreateTx_effects (req : CreateTx) [Allows G .talk] [Allows G .payment] :
    Refines G (processCreateTx h req : Worker ε Unit) := by
  have hcreate : Refines G (createTx h req) := by
    refine .bind expectCtx_effects fun ctx => .bind (sendAddress_effects ctx req) fun p => ?_
    refine .bind expectCtx_effects fun ctx => .bind (.okOr _ _) fun balance => ?_
    refine .bind (.ensure _) fun _ => .bind (.ensure _) fun _ => ?_
    refine .bind (callOr_effects _ _) fun tx => ?_
    refine .bind (modify_effects fun _ => .paymentSet _) fun _ => ?_
    exact .bind (record_effects rfl) fun _ => .pure _
  exact .bind (.attempt hcreate) fun result => toUi_effects rfl

/-- A payment is broadcast by the server for a contact, by the wallet otherwise. -/
theorem broadcastTx_effects (ctx : Context) (contactKey : Option ContactKey)
    (tx : TransactionMeta) [Allows G .talk] [Allows G .payment] :
    Refines G (broadcastTx h ctx contactKey tx) := by
  cases contactKey with
  | some contactKey =>
    refine .bind (.okOr _ _) fun phoneKey => ?_
    exact .bind (requestOr_effects _ fun _ => rfl) fun _ => record_effects rfl
  | none => exact .bind (callOr_effects _ _) fun _ => record_effects rfl

/-- The payment leaves its slot before it is signed. -/
theorem processSendTx_effects (memo : String) [Allows G .talk] [Allows G .payment] :
    Refines G (processSendTx h memo : Worker ε Unit) := by
  have hsend : Refines G (sendTx h memo) := by
    refine .bind expectCtx_effects fun ctx => .bind (.okOr _ _) fun sendTx => ?_
    refine .bind (modify_effects fun _ => .paymentSet none) fun _ => ?_
    refine .bind (callOr_effects _ _) fun signed => ?_
    refine .bind (broadcastTx_effects ctx _ signed) fun _ => .bind (call_effects _) fun _ => ?_
    refine .bind getData_effects fun d => .bind (.expect _) fun lbtc => ?_
    exact .bind (call_effects _) fun _ => .bind (call_effects _) fun _ => .pure _
  exact .bind (.attempt hsend) fun result => toUi_effects rfl

/-! ### Orders -/

/-- To look at the balance has no effect. -/
theorem checkFunds_effects (details : Details) : Refines G (checkFunds h details) := by
  refine .bind (ctxOr_effects _) fun ctx => .bind getData_effects fun d => ?_
  refine .bind (.okOr _ _) fun asset => .bind (.expect _) fun available => ?_
  exact .bind (.expect _) fun required => .ensure _

/-- Without a wallet there is no slot to write. -/
theorem ctxOr_modifyCtx_state (text : String) (f : Context → Context) (w : World) :
    ((ctxOr text >>= fun _ => modifyCtx f) w).state = w.modifyCtx f := by
  obtain ⟨d, disk, file, saved, calls, log⟩ := w
  cases hctx : d.ctx with
  | none =>
    have herror : ctxOr text ⟨d, disk, file, saved, calls, log⟩ =
        .error text ⟨d, disk, file, saved, calls, log⟩ := by
      simp only [ctxOr, getData, bind_apply, get_apply, pure_apply, hctx, okOr, fail_apply]
    rw [bind_error herror, Outcome.state_error]
    simp only [World.modifyCtx, World.modifyData, hctx, Option.map_none]
    rw [← hctx]
  | some c =>
    have hok : ctxOr text ⟨d, disk, file, saved, calls, log⟩ =
        .ok c ⟨d, disk, file, saved, calls, log⟩ := by
      simp only [ctxOr, getData, bind_apply, get_apply, pure_apply, hctx, okOr]
      rfl
    rw [bind_ok hok]
    rfl

/-- A review is shown also where the wallet is missing and the call fails. -/
theorem showLink_state (X : OrderId) (resp : LinkResponse) (w : World) :
    (showLink X resp w).state = w.linkShown X resp :=
  ctxOr_modifyCtx_state "no context found" (fun c => { c with activeSubmit := some resp }) _

/-- The order under review is the one that the server has just answered with. -/
theorem showLink_effects (X : OrderId) (resp : LinkResponse) [Allows G .links] :
    Guar G (fun w => Asked X resp w.log) (showLink X resp) fun _ _ => True := by
  refine fun w hasked => ⟨?_, fun _ _ _ => trivial⟩
  rw [showLink_state]
  exact Allows.chain (.linkShown X resp hasked)

/-- A request that is answered leaves the answer in the history. -/
theorem request_spec {r : Request} {k : Effect} [Allows G .talk] [Allows G k]
    (hr : ∀ answer, (Event.request r answer).effect = some k) :
    Guar G (fun _ => True) (request h r) fun answer w =>
      ∃ older, w.log = .request r (.ok answer) :: older := by
  refine fun w _ => ⟨(request_effects hr).chain w, ?_⟩
  intro answer w' hok
  obtain ⟨-, rfl⟩ := request_ok hok
  exact ⟨w.log, rfl⟩

/-- To show an asset comes between the answer and the review. -/
theorem Asked.registered {X : OrderId} {resp : LinkResponse} {w : World} (asset : Asset)
    (icon : String) (swapMarket : Bool) (domain : Option String) (hw : Asked X resp w.log) :
    Asked X resp (w.registered asset icon swapMarket domain).log := by
  obtain ⟨newer, older, hlog, hnewer⟩ := hw
  refine ⟨_ :: newer, older, congrArg (List.cons _) hlog, ?_⟩
  intro e he
  rcases List.mem_cons.mp he with rfl | he
  · exact ⟨_, rfl⟩
  · exact hnewer e he

/-- To look an asset up leaves the history as it is. -/
theorem loadGdkAsset_log (assetId : AssetId) {I : List Event → Prop} :
    Refines (Preserves fun w : World => I w.log) (loadGdkAsset h assetId) := by
  have hcall : ∀ {α : Type} (f : ℕ → α),
      Refines (Preserves fun w : World => I w.log) (call f : Worker String α) := by
    intro α f
    refine .bind (.bind .get fun _ => .bind (.modify ?_) fun _ => .pure _) fun _ => .pure _
    exact fun _ hw => hw
  refine .bind (ctxOr_effects _) fun _ => .bind (.bind (hcall _) fun first => ?_) fun gdkAssets => ?_
  · cases first with
    | ok assets => exact .pure assets
    | error e => exact .bind (hcall _) fun _ => .ofExcept _
  · exact .bind (.okOr _ _) fun v => .pure _

/-- An asset that is shown on the way does not come between the answer and the review. -/
theorem tryAddAsset_asked {X : OrderId} {resp : LinkResponse} (assetId : AssetId) :
    Refines (Preserves fun w : World => Asked X resp w.log) (tryAddAsset h assetId) := by
  refine .bind getData_effects fun d => ?_
  split
  · exact .pure _
  · refine .bind (loadGdkAsset_log assetId) ?_
    rintro ⟨asset, domain⟩
    refine .of_chain fun w => ?_
    show Relation.ReflTransGen _ w (registerAsset asset false domain w : Outcome String _ _).state
    rw [registerAsset_apply]
    cases asset.icon with
    | none => exact .refl
    | some icon => exact .single fun hw => hw.registered asset icon false domain

/-- An order is shown only as the answer to the request for it. -/
theorem tryProcessLinkOrder_effects (X : OrderId) [Allows G .talk] [Allows G .assets]
    [Allows G .links] : Refines G (tryProcessLinkOrder h X) := by
  refine Guar.bind (Q := fun resp w => Asked X resp w.log) ?_ fun resp => ?_
  · refine (request_spec fun _ => rfl).post ?_
    rintro resp w ⟨older, hlog⟩
    exact ⟨[], older, hlog, fun e he => by cases he⟩
  refine .bind (Q := fun _ w => Asked X resp w.log) ?_ fun _ => ?_
  · exact fun w hw => ⟨(tryAddAsset_effects _).chain w,
      fun _ _ hok => (tryAddAsset_asked _).preserves_ok hw hok⟩
  refine .bind (Q := fun _ w => Asked X resp w.log) ?_ fun _ => showLink_effects X resp
  have hfunds : Refines (Preserves fun w : World => Asked X resp w.log)
      (checkFunds h resp.details) := checkFunds_effects _
  exact fun w hw => ⟨(checkFunds_effects _).chain w, fun _ _ hok => hfunds.preserves_ok hw hok⟩

/-- To settle the amount has no effect. -/
theorem submitAmount_effects (req : SubmitOrder) : Refines G (submitAmount h req) := by
  unfold submitAmount
  split
  · refine .bind expectCtx_effects fun ctx => ?_
    exact .bind (.expect _) fun result => .bind (.ofExcept _) fun amount => .pure _
  · exact .pure _

/-- The queues of what waits change freely. -/
theorem queued_effects {f : Data → Data} [Allows G .queues]
    (hf : ∀ d, f d = { d with
      pendingSigns := (f d).pendingSigns, pendingSignRequests := (f d).pendingSignRequests
      pendingSubmits := (f d).pendingSubmits, pendingLinks := (f d).pendingLinks
      internal := (f d).internal }) :
    Refines G (modifyData f : Worker ε Unit) :=
  modify_effects fun _ => .queued f hf

/-- A submitted order is shown like one from a link. -/
theorem tryProcessSubmitOrder_effects (req : SubmitOrder) [Allows G .talk] [Allows G .assets]
    [Allows G .links] [Allows G .queues] : Refines G (tryProcessSubmitOrder h req) := by
  refine .bind getData_effects fun d => .bind (.okOr _ _) fun sessionId => ?_
  refine .bind (submitAmount_effects req) fun amount => ?_
  refine .bind (request_effects fun _ => rfl) fun resp => .bind (queued_effects fun _ => rfl) fun _ => ?_
  exact tryProcessLinkOrder_effects _

/-- The checks of the terms have no effect. -/
theorem verifyAmounts_effects (d : Data) (details : Details) : Refines G (verifyAmounts h d details) := by
  refine .bind (.ensure _) fun _ => .bind (.ensure _) fun _ => .bind (.ensure _) fun _ => ?_
  refine .bind (.ensure _) fun _ => .bind (.ensure _) fun _ => .bind (.ensure _) fun _ => ?_
  refine .bind (.okOr _ _) fun asset => .bind (.ensure _) fun _ => .bind ?_ fun _ => .ensure _
  unfold verifyAmounts.verifyPrice
  split
  · exact .bind (.ensure _) fun _ => .bind (.expect _) fun expected => .ensure _
  · exact .bind (.expect _) fun expected => .ensure _

/-- The comparison with the stored terms has no effect. -/
theorem checkSign_effects (m : SignNotification) (s : SubmitData) : Refines G (checkSign m s) := by
  refine .bind (.ensure _) fun _ => .bind (.ensure _) fun _ => .bind (.ensure _) fun _ => ?_
  refine .bind (.ensure _) fun _ => .bind ?_ fun _ => .bind (.ensure _) fun _ => .ensure _
  unfold checkFixed
  split
  · exact .bind (.ensure _) fun _ => .ensure _
  · exact .ensure _

/-- The coins and the processed sign requests change, the terms do not. -/
theorem coins_effects {f : Data → Data} [Allows G .terms]
    (hf : ∀ d, f d = { d with
      processedSigns := (f d).processedSigns, utxosResp := (f d).utxosResp
      settings := { d.settings with utxosReq := (f d).settings.utxosReq } }) :
    Refines G (modifyData f : Worker ε Unit) := by
  refine modify_effects fun w => .terms f (fun d => ?_) ?_
  · rw [hf]
  · rw [hf]
    exact .refl _

/-- The stored terms of an order are replaced by terms of the same deal. -/
theorem setSubmitData_effects (X : OrderId) (s : SubmitData) [Allows G .terms] :
    Guar G (fun w => KeepsDeals w.data.submitData (w.data.submitData.insert X s))
      (setSubmitData X s : Worker ε Unit) fun _ _ => True := by
  intro w hw
  have hstep : Change .terms w
      (w.modifyData fun d => { d with submitData := d.submitData.insert X s }) :=
    .terms _ (fun _ => rfl) hw
  exact ⟨Allows.chain hstep, fun _ _ _ => trivial⟩

/-- The coins leave their store before they are signed for. -/
theorem takeStoredUtxos_effects (side : OrderSide) (X : OrderId) [Allows G .talk]
    [Allows G .terms] : Refines G (takeStoredUtxos h side X) := by
  refine .bind getData_effects fun d => ?_
  cases side with
  | requestor =>
    refine .bind (coins_effects fun _ => rfl) fun _ => ?_
    refine .bind saveSettings_effects fun _ => .bind (.okOr _ _) fun utxos => ?_
    exact .bind (record_effects rfl) fun _ => .pure _
  | responder =>
    refine .bind (coins_effects fun _ => rfl) fun _ => ?_
    exact .bind (.okOr _ _) fun utxos => .bind (record_effects rfl) fun _ => .pure _

/-- A signature begins with its cause, then the coins are taken. -/
theorem trySign_effects (cause : SignCause) (m : SignNotification) [Allows G .talk]
    [Allows G .terms] : Refines G (trySign h cause m) := by
  refine .bind (record_effects rfl) fun _ => .bind (ctxOr_effects _) fun _ => ?_
  refine .bind getData_effects fun d => .bind (.okOr _ _) fun s => .bind (.ensure _) fun _ => ?_
  refine .bind (takeStoredUtxos_effects _ _) fun utxos => ?_
  refine .bind (signPsbt_effects _ _ _ _ fun _ => rfl) fun signed => ?_
  exact .bind (request_effects fun _ => rfl) fun _ => .pure _

/-- The prompts are taken off the queue in order until one is shown. -/
theorem showPrompts_effects (msgs : List SignNotification) [Allows G .prompts] :
    Guar G (fun w => w.data.pendingSignPrompts = msgs ∧ w.data.ctx.isSome = true)
      (showPrompts msgs : Worker ε Unit) fun _ _ => True := by
  induction msgs with
  | nil => exact .pure fun _ _ => trivial
  | cons m rest ih =>
    rintro w ⟨hqueue, hctx⟩
    rw [showPrompts, getData_bind_apply]
    -- a review on display ends the loop
    split
    · exact ⟨.refl, fun _ _ _ => trivial⟩
    rename_i hvisible
    have hfree : w.data.visibleSubmit = none := by simpa using hvisible
    rw [modifyData_bind_apply]
    cases hterms : w.data.submitData[m.orderId]? with
    -- the prompt of an order that is gone is only taken from the queue
    | none =>
      have hstep : Change .prompts w (w.modifyData fun d => { d with pendingSignPrompts := rest }) :=
        .promptDropped hqueue hterms
      obtain ⟨hchain, -⟩ :=
        ih (w.modifyData fun d => { d with pendingSignPrompts := rest }) ⟨rfl, hctx⟩
      exact ⟨(Allows.chain hstep).trans hchain, fun _ _ _ => trivial⟩
    -- the prompt is shown; with its review on display the rest of the loop ends at once
    | some s =>
      have hstep : Change .prompts w (w.promptShown m rest s) := .promptShown hqueue hfree hctx hterms
      have hctx' : (w.promptShown m rest s).data.ctx.isSome = true := by
        rw [← hctx]
        exact Option.isSome_map
      obtain ⟨hchain, -⟩ := ih (w.promptShown m rest s) ⟨rfl, hctx'⟩
      exact ⟨(Allows.chain hstep).trans hchain, fun _ _ _ => trivial⟩

/-- Prompts wait for a wallet. -/
theorem processPendingSignPrompts_effects [Allows G .prompts] :
    Refines G (processPendingSignPrompts : Worker ε Unit) := by
  refine .of_chain fun w => ?_
  rw [processPendingSignPrompts, getData_bind_apply]
  cases hctx : w.data.ctx with
  | none => exact .refl
  | some c =>
    have hsome : w.data.ctx.isSome = true := by rw [hctx, Option.isSome_some]
    exact (showPrompts_effects w.data.pendingSignPrompts w ⟨rfl, hsome⟩).1

/-- The terms that a sign request is compared with are the stored ones. -/
theorem acceptSign_effects (precision : ℕ) (m : SignNotification) (s : SubmitData)
    [Allows G .talk] [Allows G .terms] [Allows G .prompts] :
    Guar G (fun w => w.data.submitData[m.orderId]? = some s) (acceptSign h precision m s)
      fun _ _ => True := by
  have hstored : Guar G (fun w => w.data.submitData[m.orderId]? = some s)
      (setSubmitData m.orderId (s.update m.details) : Worker String Unit)
      fun _ w => w.data.submitData.contains m.orderId = true := by
    intro w hw
    have hkeeps : KeepsDeals w.data.submitData
        (w.data.submitData.insert m.orderId (s.update m.details)) := .insert hw rfl
    refine ⟨(setSubmitData_effects (ε := String) _ _ w hkeeps).1, ?_⟩
    rintro a w' hw'
    cases hw'
    exact Std.ExtTreeMap.contains_insert_self
  refine Guar.bind hstored fun _ => ?_
  split
  · exact .bind (Refines.guar (trySign_effects _ m)) fun _ => .pure fun _ _ => trivial
  · refine .bind (Q := fun _ _ => True) ?_ fun _ => Refines.guar processPendingSignPrompts_effects
    intro w hknown
    exact ⟨Allows.chain (.promptQueued m hknown), fun _ _ _ => trivial⟩

/-- A sign request is handled once: it is marked before anything is checked. -/
theorem tryProcessSign_effects (m : SignNotification) [Allows G .talk] [Allows G .terms]
    [Allows G .prompts] : Refines G (tryProcessSign h m) := by
  refine Guar.bind getData_spec fun d => ?_
  split
  · exact .pure fun _ _ => trivial
  · refine .bind (Q := fun _ w => w.data.submitData = d.submitData) ?_ fun _ => ?_
    · rintro w ⟨rfl, -⟩
      refine ⟨(coins_effects (ε := String) fun _ => rfl).chain w, fun _ _ hok => ?_⟩
      cases hok
      rfl
    refine .bind (verifyAmounts_effects d m.details).still fun _ => .bind Guar.okOr fun s => ?_
    refine .bind (checkSign_effects m s).still fun _ => (acceptSign_effects _ m s).pre ?_
    rintro w ⟨hs, hsame⟩
    rw [hsame]
    exact hs

/-- A failed sign request is shown to the user. -/
theorem showSign_effects (m : SignNotification) [Allows G .talk] [Allows G .terms]
    [Allows G .prompts] : Refines G (showSign h m : Worker ε Unit) := by
  refine .bind (.attempt (tryProcessSign_effects m)) fun result => ?_
  cases result with
  | ok _ => exact .pure _
  | error e => exact showMessage_effects _

/-- The queue is worked off in order; what has been handled is skipped. -/
theorem signRequests_effects (msgs : List SignNotification) [Allows G .talk]
    [Allows G .terms] [Allows G .prompts] [Allows G .queues] :
    Refines G (signRequests h msgs : Worker ε Unit) := by
  induction msgs with
  | nil => exact .pure _
  | cons m rest ih =>
    refine .bind (queued_effects fun _ => rfl) fun _ => .bind getData_effects fun d => ?_
    split
    · exact ih
    · exact .bind (showSign_effects m) fun _ => ih

/-- A taker's sign request is handled at once, a maker's through the queue. -/
theorem processSign_effects (m : SignNotification) [Allows G .talk] [Allows G .terms]
    [Allows G .prompts] [Allows G .queues] : Refines G (processSign h m : Worker ε Unit) := by
  unfold processSign
  split
  · exact showSign_effects m
  · refine .bind (queued_effects fun _ => rfl) fun _ => ?_
    exact .bind getData_effects fun d => signRequests_effects _

/-- The coins of an order are stored with the time. -/
theorem storeUtxos_effects (side : OrderSide) (X : OrderId) (utxos : List Utxo)
    [Allows G .talk] [Allows G .terms] :
    Refines G (storeUtxos h side X utxos : Worker ε Unit) := by
  refine .bind (call_effects _) fun now => ?_
  cases side with
  | requestor =>
    exact .bind (coins_effects fun _ => rfl) fun _ => saveSettings_effects
  | responder => exact coins_effects fun _ => rfl

/-- The inputs are chosen and offered in a partial transaction. -/
theorem prepareInputs_effects (details : Details) [Allows G .talk] [Allows G .psets] :
    Refines G (prepareInputs h details) := by
  refine .bind getData_effects fun d => .bind (callOr_effects _ _) fun allUtxos => ?_
  refine .bind (.okOr _ _) fun all => .bind (.ensure _) fun _ => ?_
  refine .bind (.expect _) fun p => ?_
  exact .bind (generatePsbt_effects _ _) fun pset => .pure _

/-- The terms are stored after the server has taken the coins and addresses. -/
theorem acceptSubmit_effects (req : SubmitDecision) (resp : LinkResponse) [Allows G .talk]
    [Allows G .terms] [Allows G .psets] : Refines G (acceptSubmit h req resp) := by
  refine .bind getData_effects fun d => .bind (.okOr _ _) fun asset => ?_
  refine .bind (verifyAmounts_effects d _) fun _ => .bind (prepareInputs_effects _) fun p => ?_
  refine .bind (call_effects _) fun addr => .bind (.expect _) fun recvAddr => ?_
  refine .bind (call_effects _) fun addr => .bind (.expect _) fun changeAddr => ?_
  refine .bind (request_effects fun _ => rfl) fun _ => ?_
  refine .bind (modify_effects (k := .terms) fun w => ?_) fun _ => ?_
  · exact .stored (LinkResponse.submitData resp req.orderId asset.precision
      (p.1.map Utxo.txOut).toFinset
      (req.autoSign.getD false && decide (resp.details.side = .requestor))) rfl
  · exact .bind (storeUtxos_effects _ _ _) fun _ => .pure _

/-- The slot of the decision is emptied before the decision is carried out. -/
theorem tryProcessSubmitDecision_effects (req : SubmitDecision) [Allows G .talk]
    [Allows G .terms] [Allows G .psets] [Allows G .decisions] :
    Refines G (tryProcessSubmitDecision h req) := by
  unfold tryProcessSubmitDecision
  split
  · exact .pure _
  · refine .bind (ctxOr_effects _) fun ctx => ?_
    split
    · exact .bind (modify_effects fun _ => .signTaken) fun _ => trySign_effects _ _
    · refine .bind (.okOr _ _) fun resp => .bind (modify_effects fun _ => .submitTaken) fun _ => ?_
      exact acceptSubmit_effects req resp

/-- When a review closes, the next prompt and the waiting results are shown. -/
theorem afterReview_effects [Allows G .prompts] [Allows G .success] :
    Refines G (afterReview : Worker ε Unit) :=
  .bind processPendingSignPrompts_effects fun _ => processPendingSucceed_effects

/-- The review closes however the decision ends. -/
theorem processSubmitDecision_effects (req : SubmitDecision) [Allows G .talk]
    [Allows G .terms] [Allows G .psets] [Allows G .decisions] [Allows G .prompts]
    [Allows G .success] : Refines G (processSubmitDecision h req : Worker ε Unit) := by
  refine .bind (.attempt (tryProcessSubmitDecision_effects req)) fun result => ?_
  split
  · exact .bind (modify_effects fun _ => .reviewClosed true) fun _ => afterReview_effects
  · refine .bind (toUi_effects rfl) fun _ => ?_
    exact .bind (modify_effects fun _ => .reviewClosed false) fun _ => afterReview_effects
  · refine .bind (toUi_effects rfl) fun _ => ?_
    exact .bind (modify_effects fun _ => .reviewClosed false) fun _ => afterReview_effects

/-- A new price keeps the deal. -/
theorem SubmitData.edit_deal {s s' : SubmitData} {price : F64} (hs : s.edit price = some s') :
    s'.deal = s.deal := by
  unfold SubmitData.edit at hs
  split at hs
  all_goals
    simp only [Option.bind_eq_bind, Option.bind_eq_some_iff] at hs
    obtain ⟨amount, -, hs⟩ := hs
    cases hs
    rfl

/-- A new price keeps the deal of the stored terms. -/
theorem editSubmitData_effects (X : OrderId) (price : F64) [Allows G .terms] :
    Refines G (editSubmitData X price : Worker ε Unit) := by
  refine Guar.bind getData_spec fun d => ?_
  split
  · exact .pure fun _ _ => trivial
  · rename_i s hs
    refine .bind Guar.expect fun s' => (setSubmitData_effects X s').pre ?_
    rintro w ⟨hedit, rfl, -⟩
    exact .insert hs (SubmitData.edit_deal hedit)

/-- The terms change only after the server has taken the new price. -/
theorem processEditOrder_effects (req : EditOrder) [Allows G .talk] [Allows G .terms] :
    Refines G (processEditOrder h req : Worker ε Unit) := by
  have hedit : Refines G (tryEditOrder h req) := by
    refine .bind (.okOr _ _) fun data => ?_
    split
    · refine .bind (request_effects fun _ => rfl) fun _ => editSubmitData_effects _ _
    · exact .bind (request_effects fun _ => rfl) fun _ => .pure _
  exact .bind (.attempt hedit) fun result => toUi_effects rfl

theorem processCancelOrder_effects (X : OrderId) [Allows G .talk] :
    Refines G (processCancelOrder h X : Worker ε Unit) :=
  .bind (.attempt (request_effects fun _ => rfl)) fun _ => toUi_effects rfl

/-- A cancelled order closes its own review and no other. -/
theorem closeReview_effects (X : OrderId) [Allows G .talk] [Allows G .decisions]
    [Allows G .prompts] [Allows G .success] : Refines G (closeReview X : Worker ε Unit) := by
  refine .bind getData_effects fun d => ?_
  split
  · refine .bind (toUi_effects rfl) fun _ => ?_
    exact .bind (modify_effects fun _ => .reviewClosed false) fun _ => afterReview_effects
  · exact .pure _

/-- A finished order gets its transaction; a cancelled one is forgotten. -/
theorem processComplete_effects (msg : CompleteNotification) [Allows G .talk]
    [Allows G .terms] [Allows G .cancel] [Allows G .decisions] [Allows G .prompts]
    [Allows G .success] : Refines G (processComplete msg : Worker ε Unit) := by
  unfold processComplete
  split
  · rename_i txid _
    refine Guar.bind getData_spec fun d => ?_
    split
    · exact .pure fun _ _ => trivial
    · rename_i s hs
      rintro w ⟨rfl, -⟩
      exact ⟨Allows.chain (.completed msg.orderId txid hs), fun _ _ _ => trivial⟩
  · exact .bind (closeReview_effects _) fun _ => modify_effects fun _ => .cancelled _

/-- Terms are restored only for an order that has none. -/
theorem restoreSubmitData_effects (X : OrderId) (details : Details) [Allows G .terms] :
    Refines G (restoreSubmitData h X details) := by
  refine Guar.bind getData_spec fun d => ?_
  split
  · exact .pure fun _ _ => trivial
  · rename_i habsent
    refine .bind Guar.okOr fun asset => .bind (verifyAmounts_effects d details).still fun _ => ?_
    refine (setSubmitData_effects _ _).pre ?_
    rintro w ⟨-, rfl, -⟩
    exact .insert_new ((Map.lookup_eq_none_iff _ X).mpr (Bool.eq_false_iff.mpr habsent)) rfl

/-- A sign request announced by a push message is fetched and then handled like any other. -/
theorem downloadSignRequest_effects (X : OrderId) [Allows G .talk] [Allows G .assets]
    [Allows G .terms] [Allows G .prompts] [Allows G .queues] :
    Refines G (downloadSignRequest h X) := by
  refine .bind (request_effects fun _ => rfl) fun sign => .bind (tryAddAsset_effects _) fun _ => ?_
  exact .bind (restoreSubmitData_effects _ _) fun _ => processSign_effects sign

/-- Whoever waits for the sign request goes on also after a failure. -/
theorem processPendingSign_effects (p : OrderId × Bool) [Allows G .talk] [Allows G .assets]
    [Allows G .terms] [Allows G .prompts] [Allows G .queues] :
    Refines G (processPendingSign h p : Worker ε Unit) := by
  refine .bind getData_effects fun d => ?_
  split
  · exact .pure _
  · refine .bind (.attempt (downloadSignRequest_effects p.1)) fun result => ?_
    refine .bind ?_ fun _ => .each fun X _ => record_effects rfl
    cases result with
    | ok _ => exact .pure _
    | error e => exact showMessage_effects _

theorem processPendingSubmit_effects (req : SubmitOrder) [Allows G .talk] [Allows G .assets]
    [Allows G .links] [Allows G .queues] :
    Refines G (processPendingSubmit h req : Worker ε Unit) := by
  refine .bind (.attempt (tryProcessSubmitOrder_effects req)) fun result => ?_
  cases result with
  | ok _ => exact .pure _
  | error e => exact toUi_effects rfl

theorem processPendingLink_effects (X : OrderId) [Allows G .talk] [Allows G .assets]
    [Allows G .links] : Refines G (processPendingLink h X : Worker ε Unit) := by
  refine .bind (.attempt (tryProcessLinkOrder_effects X)) fun result => ?_
  cases result with
  | ok _ => exact .pure _
  | error e => exact showMessage_effects _

/-- What waits for the wallet to be synchronized. -/
theorem processPendingSynced_effects [Allows G .talk] [Allows G .assets] [Allows G .links]
    [Allows G .prompts] [Allows G .queues] :
    Refines G (processPendingSynced h : Worker ε Unit) := by
  refine .bind getData_effects fun d => .bind (queued_effects fun _ => rfl) fun _ => ?_
  refine .bind (.each fun req _ => processPendingSubmit_effects req) fun _ => ?_
  refine .bind getData_effects fun d => .bind (queued_effects fun _ => rfl) fun _ => ?_
  refine .bind (.each fun X _ => processPendingLink_effects X) fun _ => ?_
  exact processPendingSignPrompts_effects

/-- Nothing is worked off without a connection or a wallet. -/
theorem processPendingRequests_effects [Allows G .talk] [Allows G .assets] [Allows G .links]
    [Allows G .terms] [Allows G .prompts] [Allows G .queues] :
    Refines G (processPendingRequests h : Worker ε Unit) := by
  refine .bind getData_effects fun d => ?_
  split
  · exact .pure _
  · split
    · exact .pure _
    · refine .bind (queued_effects fun _ => rfl) fun _ => ?_
      refine .bind (.each fun p _ => processPendingSign_effects p) fun _ => ?_
      split
      · exact processPendingSynced_effects
      · exact .pure _

/-! ### The order list -/

/-- An order is listed even where its asset cannot be found. -/
theorem addOrder_effects (msg : OrderCreatedNotification) (new : Bool) [Allows G .talk]
    [Allows G .assets] [Allows G .orders] : Refines G (addOrder h msg new : Worker ε Unit) := by
  refine .bind (ignoreError_effects (tryAddAsset_effects _)) fun _ => ?_
  exact modify_effects fun _ => .listed _

/-- An order that is shown as it is now is not shown again. -/
theorem syncOrder_apply (p : OrderId × Order) (w : World) :
    (syncOrder p : Worker ε Unit) w =
      if w.data.ordersSent[p.1]?.any p.2.same then .ok () w else .ok () (w.orderShown p.1 p.2) := by
  have happly : (syncOrder p : Worker ε Unit) w =
      (if w.data.ordersSent[p.1]?.any p.2.same then pure () else do
        modifyData fun d => { d with ordersSent := d.ordersSent.insert p.1 p.2 }
        toUi (.orderCreated p.2) : Worker ε Unit) w := rfl
  rw [happly]
  split <;> rfl

/-- The comparison with what was shown: removals, then changes. -/
theorem syncOrderList_effects [Allows G .orders] : Refines G (syncOrderList : Worker ε Unit) := by
  refine .bind getData_effects fun d => .bind (.each fun X _ => ?_) fun _ => .each fun p _ => ?_
  · exact .of_chain fun w => Allows.chain (.orderHidden X)
  · refine .of_chain fun w => ?_
    rw [syncOrder_apply]
    split
    · exact .refl
    · rename_i hnew
      exact Allows.chain (.orderShown p.1 p.2 (by simpa using hnew))

theorem processOrderCreated_effects (msg : OrderCreatedNotification) [Allows G .talk]
    [Allows G .assets] [Allows G .orders] :
    Refines G (processOrderCreated h msg : Worker ε Unit) :=
  .bind (addOrder_effects msg true) fun _ => syncOrderList_effects

theorem processOrderRemoved_effects (X : OrderId) [Allows G .orders] :
    Refines G (processOrderRemoved X : Worker ε Unit) :=
  .bind (modify_effects fun _ => .listed _) fun _ => syncOrderList_effects

theorem processSubscribeResponse_effects (msg : SubscribeResponse) [Allows G .talk]
    [Allows G .assets] [Allows G .orders] :
    Refines G (processSubscribeResponse h msg : Worker ε Unit) :=
  .bind (.each fun order _ => addOrder_effects order false) fun _ => syncOrderList_effects

theorem processUnsubscribeResponse_effects [Allows G .orders] :
    Refines G (processUnsubscribeResponse : Worker ε Unit) :=
  .bind (modify_effects fun _ => .listed _) fun _ => syncOrderList_effects

theorem sendSubscribeRequest_effects [Allows G .market] :
    Refines G (sendSubscribeRequest : Worker ε Unit) := by
  refine .bind getData_effects fun d => ?_
  split
  · exact sendRequestMsg_effects rfl
  · exact sendRequestMsg_effects rfl
  · exact .pure _
  · exact .pure _

/-- The market on display is left before the new one is subscribed. -/
theorem processSubscribe_effects (market : Market) (assetId : Option AssetId)
    [Allows G .market] : Refines G (processSubscribe market assetId : Worker ε Unit) := by
  refine .bind (.expect _) fun subscribe => .bind getData_effects fun d => ?_
  refine .bind expectCtx_effects fun ctx => ?_
  split
  · exact .pure _
  · refine .bind (.each fun asset _ => sendRequestMsg_effects rfl) fun _ => ?_
    exact .bind (modify_effects fun _ => .marketSet subscribe) fun _ => sendSubscribeRequest_effects

/-! ### Connection -/

theorem restartWebsocket_effects [Allows G .down] : Refines G (restartWebsocket : Worker ε Unit) :=
  .of_chain fun _ => Allows.chain .down

theorem processServerStatus_effects (status : ServerStatus) [Allows G .talk] :
    Refines G (processServerStatus status : Worker ε Unit) :=
  .bind (toUi_effects rfl) fun _ => info_effects fun _ => rfl

theorem subscribePriceUpdate_effects (ticker : Ticker) [Allows G .talk] [Allows G .listing] :
    Refines G (subscribePriceUpdate h ticker : Worker ε Unit) := by
  refine .bind getData_effects fun d => ?_
  split
  · exact .pure _
  · exact ignoreError_effects (request_effects fun _ => rfl)

/-- The list is saved and registered only if it has changed. -/
theorem updateAssets_effects (assets : List Asset) [Allows G .talk] [Allows G .listing]
    [Allows G .assets] :
    Refines G (updateAssets h assets : Worker ε Unit) := by
  refine .bind getData_effects fun d => ?_
  split
  · exact .pure _
  · exact .bind (saveAssets_effects assets) fun _ => registerAssets_effects assets

theorem verifyDevice_effects [Allows G .talk] : Refines G (verifyDevice h) := by
  refine .bind getData_effects fun d => ?_
  split
  · exact .pure _
  · refine .bind (request_effects fun _ => rfl) fun state => ?_
    split
    · exact .bind (modifySettings_effects fun _ => rfl) fun _ => saveSettings_effects
    · exact .pure _

theorem registerDevice_effects [Allows G .talk] : Refines G (registerDevice h) := by
  refine .bind getData_effects fun d => ?_
  split
  · exact .pure _
  · refine .bind (request_effects fun _ => rfl) fun deviceKey => ?_
    refine .bind (modifySettings_effects fun _ => rfl) fun _ => ?_
    exact .bind saveSettings_effects fun _ => updateAddressRegistrations_effects

/-- A new session is saved. -/
theorem loginServer_effects [Allows G .talk] [Allows G .assets] [Allows G .orders] :
    Refines G (loginServer h) := by
  refine .bind getData_effects fun d => .bind (request_effects fun _ => rfl) fun resp => ?_
  refine .bind (.each fun order _ => addOrder_effects order false) fun _ => ?_
  refine .bind syncOrderList_effects fun _ => .bind getData_effects fun d => ?_
  split
  · exact .pure _
  · exact .bind (modifySettings_effects fun _ => rfl) fun _ => saveSettings_effects

theorem tryProcessWsConnected_effects [Allows G .talk] [Allows G .listing] [Allows G .assets]
    [Allows G .orders]
    [Allows G .wallet] [Allows G .sync] [Allows G .balances] :
    Refines G (tryProcessWsConnected h) := by
  refine .bind (call_effects _) fun cookie => .bind (request_effects fun _ => rfl) fun _ => ?_
  refine .bind (request_effects fun _ => rfl) fun assets => ?_
  refine .bind (.each fun asset _ => subscribePriceUpdate_effects _) fun _ => ?_
  refine .bind (updateAssets_effects _) fun _ => .bind (request_effects fun _ => rfl) fun status => ?_
  refine .bind (processServerStatus_effects _) fun _ => .bind updateTxList_effects fun _ => ?_
  exact .bind verifyDevice_effects fun _ => .bind registerDevice_effects fun _ => loginServer_effects

/-- A failed set-up closes the connection; a successful one begins to work off what waited. -/
theorem processWsConnected_effects [Allows G .talk] [Allows G .listing] [Allows G .market]
    [Allows G .assets] [Allows G .orders]
    [Allows G .wallet] [Allows G .sync] [Allows G .balances] [Allows G .links]
    [Allows G .terms] [Allows G .prompts] [Allows G .queues] [Allows G .up]
    [Allows G .down] : Refines G (processWsConnected h : Worker ε Unit) := by
  refine .bind (.attempt tryProcessWsConnected_effects) fun result => ?_
  cases result with
  | error e => exact restartWebsocket_effects
  | ok _ =>
    refine .bind (modify_effects fun _ => .up) fun _ => .bind processPendingRequests_effects fun _ => ?_
    refine .bind resumePegMonitoring_effects fun _ => .bind updatePushToken_effects fun _ => ?_
    refine .bind updateAddressRegistrations_effects fun _ => ?_
    refine .bind downloadContacts_effects fun _ => ?_
    refine .bind processUnregisterPhoneRequests_effects fun _ => ?_
    exact .bind sendSubscribeRequest_effects fun _ => toUi_effects rfl

/-- The worker asks for a new connection only with a wallet. -/
theorem processWsDisconnected_effects [Allows G .talk] [Allows G .orders] [Allows G .offline]
    [Allows G .connect] : Refines G (processWsDisconnected : Worker ε Unit) := by
  refine .bind (modify_effects fun _ => .offline) fun _ => .bind syncOrderList_effects fun _ => ?_
  refine .bind (toUi_effects (k := .offline) rfl) fun _ => .bind getData_effects fun d => ?_
  refine .each fun connect hconnect => ?_
  have htrue : connect = true := by
    split at hconnect
    · exact List.mem_singleton.mp hconnect
    · cases hconnect
  exact record_effects (by rw [htrue]; rfl)

theorem checkConnection_effects [Allows G .talk] [Allows G .down] :
    Refines G (checkConnection h : Worker ε Unit) := by
  refine .bind getData_effects fun d => ?_
  split
  · exact .pure _
  · refine .bind (.attempt (request_effects fun _ => rfl)) fun result => ?_
    cases result with
    | ok _ => exact .pure _
    | error e => exact restartWebsocket_effects

/-! ### Login and logout -/

/-- The wallet is announced once. -/
theorem sendWalletLoaded_effects [Allows G .talk] :
    Refines G (sendWalletLoaded : Worker ε Unit) := by
  refine .bind getData_effects fun d => ?_
  split
  · exact .pure _
  · split
    · exact .pure _
    · exact .bind (ctxInfo_effects fun _ => rfl) fun _ => toUi_effects rfl

/-- What a login does when the wallet is set. -/
def afterLogin (h : Host) : Worker ε Unit := do
  let d ← getData
  Proc.each (if skipWalletSync d then [()] else []) fun _ => sendWalletLoaded
  processPendingRequests h
  updateTxList h
  resumePegMonitoring
  updateAddressRegistrations h
  downloadContacts h
  let _ ← call fun n => h.refreshAssets n true
  pure ()

/-- A login works off what waited before it. -/
theorem afterLogin_effects [Allows G .talk] [Allows G .assets] [Allows G .wallet] [Allows G .sync]
    [Allows G .balances] [Allows G .links] [Allows G .terms] [Allows G .prompts]
    [Allows G .queues] : Refines G (afterLogin h : Worker ε Unit) := by
  refine .bind getData_effects fun d => .bind (.each fun _ _ => sendWalletLoaded_effects) fun _ => ?_
  refine .bind processPendingRequests_effects fun _ => .bind updateTxList_effects fun _ => ?_
  refine .bind resumePegMonitoring_effects fun _ => ?_
  refine .bind updateAddressRegistrations_effects fun _ => ?_
  exact .bind downloadContacts_effects fun _ => .bind (call_effects _) fun _ => .pure _

/-- A login either panics in the wallet library or goes on with a new wallet. -/
theorem processLoginRequest_apply (mnemonic : String) (phoneKey : Option PhoneKey) (w : World) :
    (processLoginRequest h mnemonic phoneKey : Worker ε Unit) w =
      let w₁ : World := { w.record (.toWs true) with calls := w.calls + 1 }
      match h.login w.calls mnemonic with
      | none => .abort w₁
      | some walletHashId => afterLogin h (w₁.modifyData fun d =>
          { d with ctx := some (freshContext walletHashId phoneKey) }) := by
  have happly : (processLoginRequest h mnemonic phoneKey : Worker ε Unit) w =
      (Proc.expect (h.login w.calls mnemonic) >>= fun walletHashId => do
        modifyData fun d => { d with ctx := some (freshContext walletHashId phoneKey) }
        afterLogin h : Worker ε Unit) { w.record (.toWs true) with calls := w.calls + 1 } := rfl
  rw [happly]
  cases h.login w.calls mnemonic <;> rfl

/-- A login begins with the command to connect. -/
theorem processLoginRequest_eq (mnemonic : String) (phoneKey : Option PhoneKey)
    [Allows G .talk] [Allows G .login] [Allows G .assets] [Allows G .wallet] [Allows G .sync]
    [Allows G .balances] [Allows G .links] [Allows G .terms] [Allows G .prompts]
    [Allows G .queues] :
    ∃ rest : Worker ε Unit, Refines G rest ∧
      processLoginRequest h mnemonic phoneKey = (record (.toWs true) >>= fun _ => rest) := by
  refine ⟨_, ?_, rfl⟩
  refine .bind (call_effects _) fun session => .bind (.expect _) fun walletHashId => ?_
  exact .bind (modify_effects fun _ => .login walletHashId phoneKey) fun _ => afterLogin_effects

theorem processLoginRequest_effects (mnemonic : String) (phoneKey : Option PhoneKey)
    [Allows G .talk] [Allows G .connect] [Allows G .login] [Allows G .assets]
    [Allows G .wallet] [Allows G .sync] [Allows G .balances] [Allows G .links]
    [Allows G .terms] [Allows G .prompts] [Allows G .queues] :
    Refines G (processLoginRequest h mnemonic phoneKey : Worker ε Unit) := by
  obtain ⟨rest, hrest, heq⟩ := processLoginRequest_eq (ε := ε) (h := h) (G := G) mnemonic phoneKey
  rw [heq]
  exact .bind (record_effects rfl) fun _ => hrest

/-- A logout forgets the wallet, saves and disconnects. -/
theorem processLogoutRequest_effects [Allows G .talk] [Allows G .logout] [Allows G .down] :
    Refines G (processLogoutRequest h : Worker ε Unit) := by
  refine .bind (modify_effects fun _ => .logout) fun _ => ?_
  exact .bind saveSettings_effects fun _ => restartWebsocket_effects

/-- The wallet and its settings are gone. -/
def World.loggedOut (w : World) : World :=
  w.modifyData fun d =>
    { d with
      ctx := none
      settings := { Settings.default with
        unregisterPhoneRequests := d.settings.unregisterPhoneRequests } }

/-- What follows the end of a session. -/
theorem processLogoutRequest_chain [Allows G .talk] [Allows G .down] {w w' : World}
    (hok : (processLogoutRequest h : Worker ε Unit) w = .ok () w') :
    Relation.ReflTransGen G w.loggedOut w' := by
  have hrest : Refines G (do
      saveSettings h
      restartWebsocket : Worker ε Unit) :=
    .bind saveSettings_effects fun _ => restartWebsocket_effects
  have hchain := hrest.chain w.loggedOut
  have hstate : (do
      saveSettings h
      restartWebsocket : Worker ε Unit) w.loggedOut = .ok () w' := hok
  rw [hstate] at hchain
  exact hchain

/-- An event of the wallet library: a new transaction or block, or the first synchronization. -/
theorem processWalletNotif_effects (event : Option String) [Allows G .talk] [Allows G .assets]
    [Allows G .wallet] [Allows G .sync] [Allows G .balances] [Allows G .links]
    [Allows G .terms] [Allows G .prompts] [Allows G .queues] :
    Refines G (processWalletNotif h event : Worker ε Unit) := by
  refine .bind (.expect _) fun event => ?_
  split
  · exact updateTxList_effects
  · split
    · refine .bind getData_effects fun d => ?_
      split
      · exact .pure _
      · split
        · exact .pure _
        · refine .bind (ctxInfo_effects fun _ => rfl) fun _ => ?_
          exact .bind sendWalletLoaded_effects fun _ => processPendingRequests_effects
    · exact .pure _

/-! ### The remaining messages -/

/-- A push message about a sign request is worked off at once if there is a connection. -/
theorem processPushMessage_effects (text : String) (waiting : Bool) [Allows G .talk]
    [Allows G .down] [Allows G .assets] [Allows G .links] [Allows G .terms]
    [Allows G .prompts] [Allows G .queues] :
    Refines G (processPushMessage h text waiting : Worker ε Unit) := by
  unfold processPushMessage
  split
  · refine .bind (queued_effects fun _ => rfl) fun _ => .bind checkConnection_effects fun _ => ?_
    exact processPendingRequests_effects
  · exact .pure _

theorem processGetRecvAddress_effects [Allows G .talk] :
    Refines G (processGetRecvAddress h : Worker ε Unit) := by
  refine .bind expectCtx_effects fun _ => .bind (call_effects _) fun addr => ?_
  exact .bind (.expect _) fun addr => toUi_effects rfl

theorem processBlindedValues_effects (txid : String) [Allows G .talk] :
    Refines G (processBlindedValues h txid : Worker ε Unit) :=
  .bind expectCtx_effects fun _ => .bind (call_effects _) fun _ => toUi_effects rfl

theorem processSetMemo_effects (txid memo : String) [Allows G .talk] :
    Refines G (processSetMemo h txid memo : Worker ε Unit) :=
  .bind expectCtx_effects fun _ => .bind (call_effects _) fun _ => .expect _

theorem processEncryptPin_effects (pin mnemonic : String) [Allows G .talk] :
    Refines G (processEncryptPin h pin mnemonic : Worker ε Unit) :=
  .bind (call_effects _) fun _ => toUi_effects rfl

theorem processDecryptPin_effects (pin salt encryptedData pinIdentifier : String)
    [Allows G .talk] :
    Refines G (processDecryptPin h pin salt encryptedData pinIdentifier : Worker ε Unit) :=
  .bind (call_effects _) fun _ => toUi_effects rfl

theorem processUpdatePushToken_effects (token : String) [Allows G .talk] :
    Refines G (processUpdatePushToken h token : Worker ε Unit) :=
  .bind (info_effects fun _ => rfl) fun _ => updatePushToken_effects

theorem processRegisterPhone_effects (number : String) [Allows G .talk] :
    Refines G (processRegisterPhone h number : Worker ε Unit) := by
  refine .bind expectCtx_effects fun ctx => ?_
  refine .bind (.bind (call_effects _) fun indexes => .pure _) fun addresses => ?_
  exact .bind (.attempt (request_effects fun _ => rfl)) fun result => toUi_effects rfl

theorem processVerifyPhone_effects (phoneKey : PhoneKey) (code : String) [Allows G .talk] :
    Refines G (processVerifyPhone h phoneKey code : Worker ε Unit) := by
  refine .bind (.attempt (request_effects fun _ => rfl)) fun result => ?_
  refine .bind (toUi_effects rfl) fun _ => ?_
  cases result with
  | ok _ =>
    refine .bind expectCtx_effects fun _ => ?_
    exact .bind (ctxInfo_effects fun _ => rfl) fun _ => downloadContacts_effects
  | error e => exact .pure _

theorem processUnregisterPhone_effects (phoneKey : PhoneKey) [Allows G .talk] :
    Refines G (processUnregisterPhone h phoneKey : Worker ε Unit) := by
  refine .bind (modifySettings_effects fun _ => rfl) fun _ => ?_
  exact .bind saveSettings_effects fun _ => processUnregisterPhoneRequests_effects

theorem processUploadAvatar_effects (phoneKey : PhoneKey) (image : String) [Allows G .talk] :
    Refines G (processUploadAvatar h phoneKey image : Worker ε Unit) :=
  .bind (.attempt (request_effects fun _ => rfl)) fun _ => toUi_effects rfl

theorem processUploadContacts_effects (phoneKey : PhoneKey) (contacts : List UploadContact)
    [Allows G .talk] : Refines G (processUploadContacts h phoneKey contacts : Worker ε Unit) :=
  .bind (.attempt (request_effects fun _ => rfl)) fun _ => toUi_effects rfl

theorem processPriceUpdate_effects (asset : AssetId) (price : PricePair) [Allows G .talk] :
    Refines G (processPriceUpdate asset price : Worker ε Unit) := by
  refine .bind getData_effects fun d => ?_
  split
  · exact .pure _
  · exact toUi_effects rfl

/-! ### Functions that do not fail -/

theorem noFail_getData : NoFail (getData : Worker ε Data) := .bind .get fun _ => .pure _

theorem noFail_call {α : Type} (f : ℕ → α) : NoFail (call f : Worker ε α) :=
  .bind (.bind .get fun _ => .bind (.modify _) fun _ => .pure _) fun _ => .pure _

theorem noFail_saveSettings : NoFail (saveSettings h : Worker ε Unit) :=
  .bind (noFail_call _) fun _ => .modify _

/-- The batches end without an error, since a failed request only ends them. -/
theorem noFail_registerBatches (deviceKey : String) (indexes : ℕ × ℕ) (n : ℕ) :
    NoFail (registerBatches h deviceKey indexes n : Worker ε Unit) := by
  induction n with
  | zero => exact .pure _
  | succ n ih =>
    refine .bind noFail_getData fun d => ?_
    dsimp only
    split
    · exact .pure _
    · refine .bind (.attempt _) fun resp => ?_
      cases resp with
      | ok _ => exact .bind (.modify _) fun _ => .bind noFail_saveSettings fun _ => ih
      | error e => exact .pure _

theorem noFail_updateAddressRegistrations : NoFail (updateAddressRegistrations h : Worker ε Unit) := by
  refine .bind noFail_getData fun d => ?_
  split
  · exact .bind (noFail_call _) fun indexes => noFail_registerBatches _ indexes _
  · exact .pure _

/-- Results are shown without an error. -/
theorem noFail_processPendingSucceed : NoFail (processPendingSucceed : Worker ε Unit) := by
  have hshow : ∀ items, NoFail (showSucceed items : Worker ε Unit) := by
    intro items
    induction items with
    | nil => exact .pure _
    | cons item items ih => exact .bind (.modify _) fun _ => .bind (.modify _) fun _ => ih
  refine .bind noFail_getData fun d => ?_
  split
  · exact .pure _
  · exact hshow _

/-! ### Relations that allow many effects -/

/-- A relation that contains the steps of the effects in `allowed` allows them. -/
theorem allows_of_changes (allowed : Effect → Bool)
    (hfine : [Effect.talk, .mirror, .succeed, .success].all allowed = true)
    (hstep : ∀ k w w', allowed k = true → k.coarse = false → Change k w w' → G w w') (k : Effect)
    (hk : allowed k = true) : Allows G k := by
  have hall : ∀ k, allowed k = true → k.coarse = false → Allows G k :=
    fun k hk hcoarse => ⟨fun hs => .single (hstep k _ _ hk hcoarse hs)⟩
  have hmem := List.all_eq_true.mp hfine
  have := hall .talk (hmem _ (by decide)) rfl
  have := hall .mirror (hmem _ (by decide)) rfl
  have := hall .succeed (hmem _ (by decide)) rfl
  have := hall .success (hmem _ (by decide)) rfl
  cases hcoarse : k.coarse with
  | false => exact hall k hk hcoarse
  | true =>
    cases k <;> first | exact allows_sync | exact allows_balances | cases hcoarse

/-! ### The effects of a message -/

/-- The effects of the requests that wait for the wallet or the server. -/
def pendingEffects : List Effect := [.talk, .assets, .links, .terms, .prompts, .queues]

/-- The effects of a message of the user interface. -/
def ToMsg.effects : ToMsg → List Effect
  | .login .. => .connect :: .login :: .wallet :: .sync :: .balances :: pendingEffects
  | .logout => [.talk, .logout, .down]
  | .pushMessage _ => .down :: pendingEffects
  | .pegRequest => [.talk, .externPeg]
  | .swapRequest _ => [.talk, .swap]
  | .swapCancel => [.talk, .swap, .cleanup]
  | .swapAccept _ => [.talk, .swap, .report, .cleanup]
  | .createTx _ | .sendTx _ => [.talk, .payment]
  | .submitOrder _ | .linkOrder _ => pendingEffects
  | .submitDecision _ => [.talk, .terms, .psets, .decisions, .prompts, .success]
  | .editOrder _ => [.talk, .terms]
  | .subscribe .. => [.market]
  | _ => [.talk]

/-- The effects of a notification of the server. -/
def Notification.effects : Notification → List Effect
  | .pegStatus _ => [.wallet, .sync, .report, .cleanup]
  | .matchRfq _ => [.talk, .swap]
  | .swap _ => [.talk, .swap, .psets, .swapDone, .cleanup]
  | .sign _ => [.talk, .terms, .prompts, .queues]
  | .complete _ => [.talk, .terms, .cancel, .decisions, .prompts, .success]
  | .orderCreated _ => [.talk, .assets, .orders]
  | .orderRemoved _ => [.orders]
  | _ => [.talk]

/-- The effects of a message. -/
def Message.effects : Message → List Effect
  | .ui msg => msg.effects
  | .serverConnected =>
    .listing :: .market :: .up :: .down :: .orders :: .wallet :: .sync :: .balances :: pendingEffects
  | .serverDisconnected => [.talk, .orders, .offline, .connect]
  | .serverNotification n => Notification.effects n
  | .notif _ => .wallet :: .sync :: .balances :: pendingEffects
  | .pegStatus _ => [.wallet, .sync, .report, .cleanup]
  | .subscribe _ => [.talk, .assets, .orders]
  | .unsubscribe => [.orders]
  | .assetDetails _ => [.talk]
  | .backgroundMessage _ => .down :: pendingEffects

/-- The handling of a message of the user interface has the effects of the message. -/
theorem processUi_effects (msg : ToMsg) (hG : ∀ k ∈ msg.effects, Allows G k) :
    Refines G (processUi h msg : Worker ε Unit) := by
  -- the effects of the message are those that its handler needs
  cases msg <;>
    simp only [ToMsg.effects, pendingEffects, List.forall_mem_cons, List.not_mem_nil,
      false_implies, implies_true, and_true] at hG
  case login mnemonic phoneKey =>
    obtain ⟨_, _, _, _, _, _, _, _, _, _, _⟩ := hG
    exact processLoginRequest_effects mnemonic phoneKey
  case logout =>
    obtain ⟨_, _, _⟩ := hG
    exact processLogoutRequest_effects
  case encryptPin pin mnemonic => exact processEncryptPin_effects pin mnemonic
  case decryptPin pin salt data identifier => exact processDecryptPin_effects pin salt data identifier
  case pushMessage text =>
    obtain ⟨_, _, _, _, _, _, _⟩ := hG
    exact processPushMessage_effects text false
  case pegRequest =>
    obtain ⟨_, _⟩ := hG
    exact processPegRequestExternal_effects
  case swapRequest req =>
    obtain ⟨_, _⟩ := hG
    exact processSwapRequest_effects req
  case swapCancel =>
    obtain ⟨_, _, _⟩ := hG
    exact processSwapCancel_effects
  case swapAccept req =>
    obtain ⟨_, _, _, _⟩ := hG
    exact processSwapAccept_effects req
  case getRecvAddress => exact processGetRecvAddress_effects
  case createTx req =>
    obtain ⟨_, _⟩ := hG
    exact processCreateTx_effects req
  case sendTx memo =>
    obtain ⟨_, _⟩ := hG
    exact processSendTx_effects memo
  case blindedValues txid => exact processBlindedValues_effects txid
  case setMemo txid memo => exact processSetMemo_effects txid memo
  case updatePushToken token => exact processUpdatePushToken_effects token
  case registerPhone number => exact processRegisterPhone_effects number
  case verifyPhone phoneKey code => exact processVerifyPhone_effects phoneKey code
  case unregisterPhone phoneKey => exact processUnregisterPhone_effects phoneKey
  case uploadAvatar phoneKey image => exact processUploadAvatar_effects phoneKey image
  case uploadContacts phoneKey contacts => exact processUploadContacts_effects phoneKey contacts
  case submitOrder req =>
    obtain ⟨_, _, _, _, _, _⟩ := hG
    exact .bind (queued_effects fun _ => rfl) fun _ => processPendingRequests_effects
  case linkOrder X =>
    obtain ⟨_, _, _, _, _, _⟩ := hG
    exact .bind (queued_effects fun _ => rfl) fun _ => processPendingRequests_effects
  case submitDecision req =>
    obtain ⟨_, _, _, _, _, _⟩ := hG
    exact processSubmitDecision_effects req
  case editOrder req =>
    obtain ⟨_, _⟩ := hG
    exact processEditOrder_effects req
  case cancelOrder X => exact processCancelOrder_effects X
  case subscribe market assetId =>
    have := hG
    exact processSubscribe_effects market assetId
  case subscribePrice assetId => exact sendRequestMsg_effects rfl
  case unsubscribePrice assetId => exact sendRequestMsg_effects rfl
  case assetDetails assetId => exact sendRequestMsg_effects rfl

/-- The handling of a notification has the effects of the notification. -/
theorem processWsNotification_effects (n : Notification)
    (hG : ∀ k ∈ Notification.effects n, Allows G k) :
    Refines G (processWsNotification h n : Worker ε Unit) := by
  -- each notification is handled by one function
  cases n <;>
    simp only [Notification.effects, List.forall_mem_cons, List.not_mem_nil, false_implies,
      implies_true, and_true] at hG
  case pegStatus status =>
    obtain ⟨_, _, _, _⟩ := hG
    exact processPegStatus_effects status
  case serverStatus status => exact processServerStatus_effects status
  case matchRfq m =>
    obtain ⟨_, _⟩ := hG
    exact ignoreError_effects (rfqUpdate_effects m)
  case swap m =>
    obtain ⟨_, _, _, _, _⟩ := hG
    exact processSwapNotification_effects m
  case priceUpdate asset price => exact processPriceUpdate_effects asset price
  case sign m =>
    obtain ⟨_, _, _, _⟩ := hG
    exact processSign_effects m
  case complete m =>
    obtain ⟨_, _, _, _, _, _⟩ := hG
    exact processComplete_effects m
  case orderCreated m =>
    obtain ⟨_, _, _⟩ := hG
    exact processOrderCreated_effects m
  case orderRemoved X => exact processOrderRemoved_effects X
  case updatePrices m => exact toUi_effects rfl
  case contactCreated contact => exact toUi_effects rfl
  case contactRemoved contactKey => exact toUi_effects rfl
  case contactTransaction tx => exact toUi_effects rfl
  case accountStatus registered => exact toUi_effects rfl
  case other => exact .pure _

/-- The handling of a message has the effects of the message. -/
theorem process_effects (msg : Message) (hG : ∀ k ∈ msg.effects, Allows G k) :
    Refines G (process h msg : Worker ε Unit) := by
  cases msg with
  | ui m => exact processUi_effects m hG
  | serverNotification n => exact processWsNotification_effects n hG
  -- an event of the wallet may complete its synchronization, which serves what waits for it
  | notif event =>
    simp only [Message.effects, pendingEffects, List.forall_mem_cons] at hG
    obtain ⟨_, _, _, _, _, _, _, _, _, -⟩ := hG
    exact processWalletNotif_effects event
  -- a new connection does almost everything
  | serverConnected =>
    simp only [Message.effects, pendingEffects, List.forall_mem_cons] at hG
    obtain ⟨_, _, _, _, _, _, _, _, _, _, _, _, _, _, -⟩ := hG
    exact processWsConnected_effects
  | serverDisconnected =>
    simp only [Message.effects, List.forall_mem_cons] at hG
    obtain ⟨_, _, _, _, -⟩ := hG
    exact processWsDisconnected_effects
  -- a status that the server sends without having been asked
  | pegStatus status =>
    simp only [Message.effects, List.forall_mem_cons] at hG
    obtain ⟨_, _, _, _, -⟩ := hG
    exact processPegStatus_effects status
  | subscribe m =>
    simp only [Message.effects, List.forall_mem_cons] at hG
    obtain ⟨_, _, _, -⟩ := hG
    exact processSubscribeResponse_effects m
  | unsubscribe =>
    have := hG .orders (by simp [Message.effects])
    exact processUnsubscribeResponse_effects
  | assetDetails m =>
    have := hG .talk (by simp [Message.effects])
    exact toUi_effects rfl
  -- somebody waits for the answer to this message
  | backgroundMessage text =>
    simp only [Message.effects, pendingEffects, List.forall_mem_cons] at hG
    obtain ⟨_, _, _, _, _, _, _, -⟩ := hG
    exact processPushMessage_effects text true

/-- What the steps of all effects of a message preserve, its handling preserves. -/
theorem process_preserves {I : World → Prop} (allowed : Effect → Bool)
    (hfine : [Effect.talk, .mirror, .succeed, .success].all allowed = true)
    (hstep : ∀ k w w', allowed k = true → k.coarse = false → Change k w w' → I w → I w')
    {msg : Message} (hmsg : msg.effects.all allowed = true) :
    Refines (Preserves I) (process h msg : Worker ε Unit) :=
  process_effects msg fun k hk =>
    allows_of_changes allowed hfine hstep k (List.all_eq_true.mp hmsg k hk)

/-- The test that allows every effect. -/
theorem Message.all_effects (msg : Message) : msg.effects.all (fun _ => true) = true :=
  List.all_eq_true.mpr fun _ _ => rfl

/-- A relation that contains the steps of all effects allows them. -/
theorem allows_of_all (hstep : ∀ k w w', k.coarse = false → Change k w w' → G w w') (k : Effect) :
    Allows G k :=
  allows_of_changes (fun _ => true) rfl (fun k w w' _ => hstep k w w') k rfl

end SideSwap.Client
