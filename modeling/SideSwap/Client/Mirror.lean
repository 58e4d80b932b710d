import SideSwap.Client.Handlers
import SideSwap.Lib.History
import SideSwap.Lib.Replica

/-!
# Transactions and balances

The worker tells the user interface of the differences between the transactions and balances of the
wallet and those that it has told before, `sentTxs` and `lastBalances`.

`wallet_mirrored` says that the messages since a login amount to the list of the last successful
comparison, and that the messages of a comparison are the difference to the one before
(`txDiff`).  The events `synced` and `balanced` mark the successful comparisons in the history.

Within a comparison the messages run ahead of `sentTxs`, so the invariant (`Current`) is one of
whole comparisons: `trySyncTxList_cases` says what one of them does.
-/

namespace SideSwap.Client

open Proc History Replica

variable {h : Host} {ε : Type}

/-! ### What the user interface shows -/

/-- The start of a process and a login clear what is shown. -/
def Event.resets : Event → Bool
  | .started | .received (.ui (.login ..)) => true
  | _ => false

/-- What an event changes on the transaction list of the user interface. -/
def Event.txUpdate : Event → Option (Update String TransItem)
  | .toUi (.updatedTx item) => some (.set item.id item)
  | .toUi (.removedTx id) => some (.remove id)
  | e => if e.resets then some .clear else none

/-- What an event changes among the balances of the user interface. -/
def Event.balanceUpdate : Event → Option (Update AssetId ℤ)
  | .toUi (.balanceUpdate b) => some (.set b.assetId b.amount)
  | e => if e.resets then some .clear else none

/-- The transaction list that the user interface has. -/
def shownTxs (log : List Event) : String → Option TransItem := replay Event.txUpdate log

/-- The balances that the user interface has. -/
def shownBalances (log : List Event) : AssetId → Option ℤ := replay Event.balanceUpdate log

/-- The list that was compared with what is shown. -/
def Event.txList : Event → List Event → Option (Map String TransItem)
  | .synced list, _ => some list
  | e, _ => if e.resets then some ∅ else none

/-- The list of the last successful comparison since the login. -/
def lastSynced (log : List Event) : Map String TransItem := (latest Event.txList log).getD ∅

/-- The messages about transactions since the last successful comparison, oldest first. -/
def txsSince : List Event → List (Update String TransItem)
  | [] => []
  | e :: older => if (e.txList older).isSome then [] else txsSince older ++ e.txUpdate.toList

/-- What has to be told to get from one list to another: the transactions that are gone, and the
items that are new or have changed. -/
def txDiff (old new : Map String TransItem) : List (Update String TransItem) :=
  (old.keys.filter fun id => !new.contains id).map .remove ++
    (new.values.filter fun item => old[item.id]? ≠ some item).map fun item => .set item.id item

/-- A successful comparison has told exactly the difference to the one before, and what is shown is
the list. -/
def SyncExact (e : Event) (older : List Event) : Prop :=
  ∀ list, e = .synced list →
    txsSince older = txDiff (lastSynced older) list ∧ ∀ id, shownTxs older id = list[id]?

/-- After a successful update the balances of the wallet are shown, and a balance of zero for every
other asset that has been shown before. -/
def BalanceExact (e : Event) (older : List Event) : Prop :=
  ∀ balances, e = .balanced balances → ∀ a : AssetId,
    (∀ amount, balances[a]? = some amount → shownBalances older a = some amount) ∧
      (balances[a]? = none → shownBalances older a = none ∨ shownBalances older a = some 0)

/-! ### Events aside -/

/-- An event that has nothing to do with transactions and balances. -/
def Event.aside : Event → Bool
  | .toUi (.updatedTx _) | .toUi (.removedTx _) | .toUi (.balanceUpdate _) => false
  | .synced _ | .balanced _ => false
  | e => !e.resets

/-- A message about transactions. -/
def Event.showsTx : Event → Bool
  | .toUi (.updatedTx _) | .toUi (.removedTx _) => true
  | _ => false

/-- What an event aside does not say. -/
theorem Event.aside_spec {e : Event} (he : e.aside = true) (older : List Event) :
    e.txUpdate = none ∧ e.balanceUpdate = none ∧ e.txList older = none := by
  cases e with
  | toUi msg => cases msg <;> first | exact ⟨rfl, rfl, rfl⟩ | cases he
  | received msg =>
    cases msg with
    | ui m => cases m <;> first | exact ⟨rfl, rfl, rfl⟩ | cases he
    | _ => exact ⟨rfl, rfl, rfl⟩
  | started | synced | balanced => cases he
  | _ => exact ⟨rfl, rfl, rfl⟩

/-- A message about a transaction is not about balances. -/
theorem Event.showsTx_spec {e : Event} (he : e.showsTx = true) (older : List Event) :
    e.balanceUpdate = none ∧ e.txList older = none := by
  cases e with
  | toUi msg => cases msg <;> first | exact ⟨rfl, rfl⟩ | cases he
  | _ => cases he

/-- An event aside claims nothing. -/
theorem Event.exact_of_aside {e : Event} (he : e.aside = true) (older : List Event) :
    SyncExact e older ∧ BalanceExact e older := by
  constructor
  · rintro list rfl
    cases he
  · rintro balances rfl
    cases he

/-- The messages since the last comparison. -/
theorem txsSince_append {events log : List Event} (hevents : ∀ e ∈ events, ∀ older, e.txList older = none) :
    txsSince (events ++ log) = txsSince log ++ (events.filterMap Event.txUpdate).reverse := by
  induction events with
  | nil => simp
  | cons e events ih =>
    have hnone := hevents e List.mem_cons_self (events ++ log)
    have ih := ih fun e' he' => hevents e' (List.mem_cons_of_mem _ he')
    rw [List.cons_append, txsSince, hnone, ih]
    cases hupdate : e.txUpdate with
    | none => simp [hupdate]
    | some u => simp [hupdate]

/-- Without a comparison the last one stays. -/
theorem lastSynced_append {events log : List Event}
    (hevents : ∀ e ∈ events, ∀ older, e.txList older = none) : lastSynced (events ++ log) = lastSynced log := by
  rw [lastSynced, latest_append hevents, lastSynced]

/-! ### The invariant -/

/-- What is shown, and that nothing has been told since the last comparison. -/
structure Shows (log : List Event) (list : Map String TransItem) (known : Map AssetId ℤ) : Prop where
  txs : ∀ id, shownTxs log id = list[id]?
  synced : lastSynced log = list
  since : txsSince log = []
  balances : ∀ a, shownBalances log a = known[a]?

/-- The memory of what was shown agrees with what is shown. -/
structure Exact (w : World) : Prop where
  txs : Always SyncExact w.log
  balances : Always BalanceExact w.log

/-- What is shown is what the wallet remembers, and nothing is shown without a comparison. -/
structure Current (w : World) : Prop where
  shows : ∀ c, w.data.ctx = some c → Shows w.log c.sentTxs c.lastBalances
  since : txsSince w.log = []

/-- Events aside change nothing that is shown. -/
theorem Shows.aside {events log : List Event} {list : Map String TransItem} {known : Map AssetId ℤ}
    (hshows : Shows log list known) (hevents : ∀ e ∈ events, e.aside = true) :
    Shows (events ++ log) list known := by
  have htx : ∀ e ∈ events, e.txUpdate = none := fun e he => (Event.aside_spec (hevents e he) []).1
  have hbalance : ∀ e ∈ events, e.balanceUpdate = none := fun e he =>
    (Event.aside_spec (hevents e he) []).2.1
  have hlist : ∀ e ∈ events, ∀ older, e.txList older = none := fun e he older =>
    (Event.aside_spec (hevents e he) older).2.2
  refine ⟨fun id => ?_, ?_, ?_, fun a => ?_⟩
  · rw [shownTxs, replay_append htx]
    exact hshows.txs id
  · rw [lastSynced_append hlist]
    exact hshows.synced
  · rw [txsSince_append hlist, hshows.since, List.filterMap_eq_nil_iff.mpr htx]
    rfl
  · rw [shownBalances, replay_append hbalance]
    exact hshows.balances a

/-- What the wallet remembers of what was shown. -/
def Context.remembered (c : Context) : Map String TransItem × Map AssetId ℤ :=
  (c.sentTxs, c.lastBalances)

/-- A step that has nothing to do with transactions and balances. -/
structure MirrorFrame (w w' : World) : Prop where
  wallet : w'.data.ctx = none ∨
    w'.data.ctx.map Context.remembered = w.data.ctx.map Context.remembered
  log : ∃ events, w'.log = events ++ w.log ∧ ∀ e ∈ events, e.aside = true

/-- Nothing changes. -/
theorem MirrorFrame.of_ctx {w w' : World} (hctx : w'.data.ctx = w.data.ctx) (hlog : w'.log = w.log) :
    MirrorFrame w w' :=
  ⟨.inr (by rw [hctx]), [], hlog, fun _ he => by cases he⟩

/-- An event aside is added. -/
theorem MirrorFrame.of_record {w w' : World} {e : Event} (hctx : w'.data.ctx = w.data.ctx)
    (hlog : w'.log = e :: w.log) (he : e.aside = true) : MirrorFrame w w' := by
  refine ⟨.inr (by rw [hctx]), [e], hlog, ?_⟩
  intro e' he'
  obtain rfl := List.mem_singleton.mp he'
  exact he

theorem remembered_map {f : Context → Context} (hf : ∀ c, (f c).remembered = c.remembered)
    (ctx : Option Context) : (ctx.map f).map Context.remembered = ctx.map Context.remembered := by
  rw [Option.map_map]
  exact congrArg (fun g => ctx.map g) (funext hf)

/-- A part of the wallet changes that is not shown. -/
theorem MirrorFrame.of_modifyCtx {w w' : World} {f : Context → Context} (hctx : w'.data.ctx = w.data.ctx.map f)
    (hf : ∀ c, (f c).remembered = c.remembered)
    (hlog : ∃ events, w'.log = events ++ w.log ∧ ∀ e ∈ events, e.aside = true) : MirrorFrame w w' :=
  ⟨.inr (by rw [hctx]; exact remembered_map hf _), hlog⟩

/-- An event that stands alone is aside. -/
theorem Event.aside_of_effect {e : Event} {k : Effect} (he : e.effect = some k) : e.aside = true := by
  cases e with
  | toUi msg => cases msg <;> first | rfl | cases he
  | started | received | synced | balanced => cases he
  | _ => rfl

/-- The effects other than `mirror` and `login` leave the wallet's memory alone. -/
theorem Change.mirrorFrame {k : Effect} {w w' : World} (hs : Change k w w')
    (hcoarse : k.coarse = false) (hmirror : k ≠ .mirror) (hlogin : k ≠ .login) : MirrorFrame w w' := by
  cases hs
  -- most steps do not touch the wallet
  case said e he => exact .of_record rfl rfl (Event.aside_of_effect he)
  case saved ok => cases ok <;> exact .of_ctx rfl rfl
  case info f hf => exact .of_ctx (by rw [World.modifyData, hf]) rfl
  case queued f hf => exact .of_ctx (by rw [World.modifyData, hf]) rfl
  case terms f hf _ => exact .of_ctx (by rw [World.modifyData, hf]) rfl
  case synced | balanced => cases hcoarse
  case txShown | txHidden | txsSent | balanceShown | balancesShown => exact absurd rfl hmirror
  case login => exact absurd rfl hlogin
  -- these add an event that is neither about transactions nor about balances
  case registered | orderHidden | orderShown | succeedShown | promptQueued | stored | completed
      | down =>
    exact .of_record rfl rfl rfl
  -- these change another field of the wallet, too
  case swapReported item _ _ =>
    refine .of_modifyCtx (f := fun c => { c with succeedSwap := none }) rfl (fun _ => rfl) ?_
    exact ⟨[_], rfl, by simp [Event.aside, Event.resets]⟩
  case linkShown X resp _ =>
    refine .of_modifyCtx (f := fun c => { c with activeSubmit := some resp }) rfl (fun _ => rfl) ?_
    exact ⟨[_], rfl, by simp [Event.aside, Event.resets]⟩
  case promptShown m rest s _ _ _ _ =>
    refine .of_modifyCtx (f := fun c => { c with activeSign := some m }) rfl (fun _ => rfl) ?_
    exact ⟨[_], rfl, by simp [Event.aside, Event.resets]⟩
  case ctxInfo f hf =>
    exact .of_modifyCtx (f := f) rfl (fun c => by rw [hf]; rfl) ⟨[], rfl, fun _ he => by cases he⟩
  case slots f hf =>
    exact .of_modifyCtx (f := f) rfl (fun c => by rw [hf]; rfl) ⟨[], rfl, fun _ he => by cases he⟩
  case swapDone a txid _ _ =>
    refine .of_modifyCtx (f := fun c =>
      { c with
        usedUtxos := c.usedUtxos ∪ (a.inputs.map Utxo.txOut).toFinset
        succeedSwap := some txid }) rfl (fun _ => rfl) ?_
    exact ⟨[_], rfl, by simp [Event.aside, Event.resets]⟩
  -- and these change it without an event
  case marketSet | txsRead | pegRead | signTaken | submitTaken | cleaned | pegStarted | paymentSet =>
    exact .of_modifyCtx rfl (fun _ => rfl) ⟨[], rfl, fun _ he => by cases he⟩
  -- after a logout there is nothing to mirror
  case logout => exact ⟨.inl rfl, [], rfl, fun _ he => by cases he⟩
  all_goals exact .of_ctx rfl rfl

/-- Such steps keep what is exact. -/
theorem Exact.frame {w w' : World} (hframe : MirrorFrame w w') (hw : Exact w) : Exact w' := by
  obtain ⟨events, hlog, hevents⟩ := hframe.log
  refine ⟨?_, ?_⟩
  · rw [hlog]
    exact hw.txs.append fun e he older => (Event.exact_of_aside (hevents e he) older).1
  · rw [hlog]
    exact hw.balances.append fun e he older => (Event.exact_of_aside (hevents e he) older).2

/-- Such steps keep what is current. -/
theorem Current.frame {w w' : World} (hframe : MirrorFrame w w') (hw : Current w) : Current w' := by
  obtain ⟨events, hlog, hevents⟩ := hframe.log
  constructor
  · intro c' hc'
    rcases hframe.wallet with hnone | hsame
    · rw [hnone] at hc'
      cases hc'
    · rw [hc', Option.map_some] at hsame
      obtain ⟨c, hc, hremembered⟩ := Option.map_eq_some_iff.mp hsame.symm
      obtain ⟨htxs, hbalances⟩ := Prod.mk.inj hremembered
      rw [hlog, ← htxs, ← hbalances]
      exact (hw.shows c hc).aside hevents
  · have hlist : ∀ e ∈ events, ∀ older, e.txList older = none := fun e he older =>
      (Event.aside_spec (hevents e he) older).2.2
    rw [hlog, txsSince_append hlist, hw.since, List.filterMap_eq_nil_iff.mpr]
    · rfl
    · exact fun e he => (Event.aside_spec (hevents e he) []).1

/-! ### Comparison of the transactions -/

/-- The updates `us` have been told, and nothing else that matters has happened. -/
structure Told (us : List (Update String TransItem)) (w w' : World) : Prop where
  wallet : w'.data.ctx.map Context.remembered = w.data.ctx.map Context.remembered
  log : ∃ events, w'.log = events ++ w.log ∧
    (∀ e ∈ events, e.aside = true ∨ e.showsTx = true) ∧ events.filterMap Event.txUpdate = us.reverse

theorem Told.refl (w : World) : Told [] w w := ⟨rfl, [], rfl, (fun _ he => by cases he), rfl⟩

/-- One after the other. -/
theorem Told.trans {us vs : List (Update String TransItem)} {w₁ w₂ w₃ : World} (h₁ : Told us w₁ w₂)
    (h₂ : Told vs w₂ w₃) : Told (us ++ vs) w₁ w₃ := by
  obtain ⟨events₁, hlog₁, hevents₁, hus⟩ := h₁.log
  obtain ⟨events₂, hlog₂, hevents₂, hvs⟩ := h₂.log
  refine ⟨h₂.wallet.trans h₁.wallet, events₂ ++ events₁, ?_, ?_, ?_⟩
  · rw [hlog₂, hlog₁, List.append_assoc]
  · exact List.forall_mem_append.mpr ⟨hevents₂, hevents₁⟩
  · rw [List.filterMap_append, hus, hvs, List.reverse_append]

/-- One message. -/
theorem Told.record {w : World} {e : Event} {u : Update String TransItem} (hshows : e.showsTx = true)
    (hupdate : e.txUpdate = some u) : Told [u] w (w.record e) := by
  refine ⟨rfl, [e], rfl, ?_, ?_⟩
  · intro e' he'
    obtain rfl := List.mem_singleton.mp he'
    exact .inr hshows
  · rw [List.filterMap_cons_some hupdate]
    rfl

/-- The steps that report a success tell nothing of the list. -/
theorem reportSwapSucceed_told (item : TransItem) {w : World} (hctx : w.data.ctx.isSome = true) :
    ∃ w', (reportSwapSucceed item : Worker ε Unit) w = .ok () w' ∧ Told [] w w' := by
  obtain ⟨c, hc⟩ := Option.isSome_iff_exists.mp hctx
  have happly : (reportSwapSucceed item : Worker ε Unit) w =
      (Proc.expect w.data.ctx >>= fun ctx =>
        if ctx.succeedSwap = some item.id then do
          modifyCtx fun c => { c with succeedSwap := none }
          toUi (.swapSucceed item)
        else pure () : Worker ε Unit) w := rfl
  rw [happly, hc, Proc.bind_apply]
  show ∃ w', (if c.succeedSwap = some item.id then do
      modifyCtx fun c => { c with succeedSwap := none }
      toUi (.swapSucceed item)
    else pure () : Worker ε Unit) w = .ok () w' ∧ Told [] w w'
  split
  · refine ⟨w.swapReported item, rfl, ?_, [.toUi (.swapSucceed item)], rfl, ?_, rfl⟩
    · exact remembered_map (f := fun c => { c with succeedSwap := none }) (fun _ => rfl) _
    · simp [Event.aside, Event.resets]
  · exact ⟨w, rfl, .refl w⟩

/-- A result that is queued is not told yet. -/
theorem queueSubmitSucceed_told (item : TransItem) (w : World) :
    ∃ w', (queueSubmitSucceed item : Worker ε Unit) w = .ok () w' ∧ Told [] w w' := by
  rw [queueSubmitSucceed, getData_bind_apply]
  cases w.data.submitData.values.find? fun submit => submit.txid = some item.id with
  | none => exact ⟨w, rfl, .refl w⟩
  | some submit =>
    by_cases hshown : submit.orderId ∈ w.data.shownSucceed
    · simp only [if_pos hshown]
      exact ⟨w, rfl, .refl w⟩
    · simp only [if_neg hshown]
      exact ⟨_, rfl, rfl, [], rfl, (fun _ he => by cases he), rfl⟩

/-- The updates for one item. -/
def itemDiff (old : Map String TransItem) (item : TransItem) : List (Update String TransItem) :=
  if old[item.id]? = some item then [] else [.set item.id item]

/-- An item is told if it differs. -/
theorem syncTxItem_told (item : TransItem) {w : World} {old : Map String TransItem}
    {known : Map AssetId ℤ} (hctx : w.data.ctx.map Context.remembered = some (old, known)) :
    ∃ w', (syncTxItem item : Worker ε Unit) w = .ok () w' ∧ Told (itemDiff old item) w w' := by
  obtain ⟨c, hc, hremembered⟩ := Option.map_eq_some_iff.mp hctx
  obtain ⟨rfl, rfl⟩ := Prod.mk.inj hremembered
  -- an item that was shown as it is now is not shown again
  have happly : (syncTxItem item : Worker ε Unit) w =
      (if c.sentTxs[item.id]? = some item then pure ()
      else do
        toUi (.updatedTx item)
        reportSwapSucceed item
        queueSubmitSucceed item : Worker ε Unit) w := by
    show (Proc.expect w.data.ctx >>= _ : Worker ε Unit) w = _
    rw [hc]
    rfl
  rw [happly, itemDiff]
  split
  · -- otherwise it is shown, and the two reports do not change the list
    exact ⟨w, rfl, .refl w⟩
  · let w₁ := w.record (.toUi (.updatedTx item))
    have hw₁ : Told [.set item.id item] w w₁ := .record rfl rfl
    have hsome : w₁.data.ctx.isSome = true := by
      show w.data.ctx.isSome = true
      rw [hc]
      rfl
    obtain ⟨w₂, hreport, hw₂⟩ := reportSwapSucceed_told (ε := ε) item hsome
    obtain ⟨w₃, hqueue, hw₃⟩ := queueSubmitSucceed_told (ε := ε) item w₂
    refine ⟨w₃, ?_, (hw₁.trans hw₂).trans hw₃⟩
    exact (Proc.bind_ok hreport).trans hqueue

/-- The items that differ are told in order. -/
theorem syncTxItems_told (items : List TransItem) {w : World} {old : Map String TransItem}
    {known : Map AssetId ℤ} (hctx : w.data.ctx.map Context.remembered = some (old, known)) :
    ∃ w', (Proc.each items syncTxItem : Worker ε Unit) w = .ok () w' ∧
      Told (items.flatMap (itemDiff old)) w w' := by
  induction items generalizing w with
  | nil => exact ⟨w, rfl, .refl w⟩
  | cons item items ih =>
    obtain ⟨w₁, hitem, hw₁⟩ := syncTxItem_told (ε := ε) item hctx
    obtain ⟨w₂, hitems, hw₂⟩ := ih (hw₁.wallet.trans hctx)
    exact ⟨w₂, (Proc.bind_ok hitem).trans hitems, hw₁.trans hw₂⟩

/-- The items that are gone are told in order. -/
theorem hideTxs_told (ids : List String) (w : World) :
    ∃ w', (Proc.each ids fun id => toUi (.removedTx id) : Worker ε Unit) w = .ok () w' ∧
      Told (ids.map .remove) w w' := by
  induction ids generalizing w with
  | nil => exact ⟨w, rfl, .refl w⟩
  | cons id ids ih =>
    have hw₁ : Told [.remove id] w (w.record (.toUi (.removedTx id))) := .record rfl rfl
    obtain ⟨w₂, hids, hw₂⟩ := ih (w.record (.toUi (.removedTx id)))
    exact ⟨w₂, hids, hw₁.trans hw₂⟩

/-- The items that differ, as updates. -/
theorem flatMap_itemDiff (old : Map String TransItem) (items : List TransItem) :
    items.flatMap (itemDiff old) =
      (items.filter fun item => old[item.id]? ≠ some item).map fun item => .set item.id item := by
  induction items with
  | nil => rfl
  | cons item items ih =>
    rw [List.flatMap_cons, ih, itemDiff, List.filter_cons]
    split <;> simp_all

/-- The items of a list are kept under their identifiers. -/
theorem getTxList_keyed {c : Context} {topBlock : ℕ} {list : Map String TransItem}
    (hlist : getTxList h c topBlock = some list) (id : String) (item : TransItem)
    (hitem : list[id]? = some item) : item.id = id := by
  have hfold : ∀ (items : List TransItem) (m : Map String TransItem),
      (∀ (id : String) (item : TransItem), m[id]? = some item → item.id = id) →
      ∀ (id : String) (item : TransItem),
        (items.foldl (fun m item => m.insert item.id item) m)[id]? = some item → item.id = id := by
    -- on the items: each is inserted under its own identifier
    intro items
    induction items with
    | nil => exact fun m hm => hm
    | cons item items ih =>
      intro m hm
      refine ih _ fun id' item' hitem' => ?_
      rw [Map.lookup_insert] at hitem'
      split at hitem'
      · rename_i heq
        cases hitem'
        exact heq
      · exact hm id' item' hitem'
  simp only [getTxList, Option.bind_eq_bind, Option.bind_eq_some_iff] at hlist
  obtain ⟨newTxs, -, hall⟩ := hlist
  cases hall
  -- the list begins empty
  refine hfold _ ∅ (fun id' item' hitem' => ?_) id item hitem
  rw [Map.lookup_empty] at hitem'
  cases hitem'

/-- The difference leads from the old list to the new one. -/
theorem applyAll_txDiff {table : String → Option TransItem} {old new : Map String TransItem}
    (htable : ∀ id, table id = old[id]?)
    (hkeyed : ∀ (id : String) (item : TransItem), new[id]? = some item → item.id = id) (id : String) :
    applyAll table (txDiff old new) id = new[id]? := by
  have hitems : ∀ item ∈ new.values.filter fun item => old[item.id]? ≠ some item,
      new[item.id]? = some item := by
    intro item hitem
    obtain ⟨id', hid'⟩ := Map.mem_values.mp (List.mem_of_mem_filter hitem)
    rw [hkeyed id' item hid']
    exact hid'
  rw [txDiff, applyAll_append, applyAll_set _ (fun id => new[id]?) _ TransItem.id hitems,
    applyAll_remove]
  split
  · rfl
  · rename_i hunchanged
    cases hnew : new[id]? with
    | some item =>
      -- the item is not among those that are set, so it is the old one
      have hold : old[id]? = some item := by
        by_contra hne
        refine hunchanged ⟨item, List.mem_filter.mpr ⟨Map.mem_values.mpr ⟨id, hnew⟩, ?_⟩, hkeyed id item hnew⟩
        rw [hkeyed id item hnew]
        exact decide_eq_true hne
      rw [if_neg, htable, hold]
      intro hmem
      have hgone := (List.mem_filter.mp hmem).2
      rw [Bool.not_eq_true', ← Map.lookup_eq_none_iff, hnew] at hgone
      cases hgone
    | none =>
      have hgone : new.contains id = false := (Map.lookup_eq_none_iff new id).mp hnew
      split
      · rfl
      · rename_i hkept
        rw [htable, Map.lookup_eq_none_iff]
        by_contra hold
        refine hkept (List.mem_filter.mpr ⟨?_, by rw [hgone]; rfl⟩)
        rw [Std.ExtTreeMap.mem_keys, ← Std.ExtTreeMap.contains_iff_mem]
        exact eq_true_of_ne_false hold

/-- A comparison fails or panics before it has told anything, or it tells the difference and then
remembers the list. -/
theorem trySyncTxList_cases (w : World) :
    (∃ e, trySyncTxList h w = .error e { w with calls := w.calls + 1 }) ∨
      trySyncTxList h w = .abort w ∨ trySyncTxList h w = .abort { w with calls := w.calls + 1 } ∨
      ∃ c topBlock list w₁, w.data.ctx = some c ∧ h.blockStatus w.calls = .ok topBlock ∧
        getTxList h c topBlock = some list ∧ Told (txDiff c.sentTxs list) w w₁ ∧
        (do
          Proc.each (c.sentTxs.keys.filter fun id => !list.contains id) fun id => toUi (.removedTx id)
          Proc.each list.values syncTxItem : Worker String Unit) { w with calls := w.calls + 1 }
            = .ok () w₁ ∧
        trySyncTxList h w = (do
          updateAddressRegistrations h
          processPendingSucceed : Worker String Unit) (w₁.txsSent list) := by
  -- the rest of the function once the list is known
  let finish (c : Context) (list : Map String TransItem) : Worker String Unit := do
    Proc.each (c.sentTxs.keys.filter fun id => !list.contains id) fun id => toUi (.removedTx id)
    Proc.each list.values syncTxItem
    modifyCtx fun c => { c with sentTxs := list }
    record (.synced list)
    updateAddressRegistrations h
    processPendingSucceed
  have happly : trySyncTxList h w = (Proc.expect w.data.ctx >>= fun ctx => do
      let topBlock ← callOr h.blockStatus ("block_status failed: " ++ ·)
      let newList ← Proc.expect (getTxList h ctx topBlock)
      finish ctx newList : Worker String Unit) w := rfl
  cases hctx : w.data.ctx with
  | none =>
    rw [happly, hctx]
    exact .inr (.inl rfl)
  | some c =>
    let w₀ : World := { w with calls := w.calls + 1 }
    have hbody : trySyncTxList h w = (do
        let topBlock ← callOr h.blockStatus ("block_status failed: " ++ ·)
        let newList ← Proc.expect (getTxList h c topBlock)
        finish c newList : Worker String Unit) w := by
      rw [happly, hctx]
      rfl
    cases hstatus : h.blockStatus w.calls with
    | error e =>
      have hcall : callOr h.blockStatus ("block_status failed: " ++ ·) w =
          .error ("block_status failed: " ++ e) w₀ := by
        rw [callOr_apply, hstatus]
      exact .inl ⟨_, hbody.trans (Proc.bind_error hcall)⟩
    | ok topBlock =>
      have hcall : callOr h.blockStatus ("block_status failed: " ++ ·) w = .ok topBlock w₀ := by
        rw [callOr_apply, hstatus]
      have htail : trySyncTxList h w =
          (Proc.expect (getTxList h c topBlock) >>= finish c : Worker String Unit) w₀ :=
        hbody.trans (Proc.bind_ok hcall)
      cases hlist : getTxList h c topBlock with
      | none =>
        rw [hlist] at htail
        exact .inr (.inr (.inl htail))
      | some list =>
        rw [hlist] at htail
        have hfinish : trySyncTxList h w = finish c list w₀ := htail
        have hremembered : w₀.data.ctx.map Context.remembered = some (c.sentTxs, c.lastBalances) := by
          show w.data.ctx.map Context.remembered = _
          rw [hctx]
          rfl
        obtain ⟨w₁, hhide, hw₁⟩ := hideTxs_told (ε := String)
          (c.sentTxs.keys.filter fun id => !list.contains id) w₀
        obtain ⟨w₂, hshow, hw₂⟩ := syncTxItems_told (ε := String) list.values
          (hw₁.wallet.trans hremembered)
        rw [flatMap_itemDiff] at hw₂
        obtain ⟨hwallet, hlog⟩ := hw₁.trans hw₂
        refine .inr (.inr (.inr ⟨c, topBlock, list, w₂, rfl, rfl, hlist, ⟨hwallet, hlog⟩, ?_, ?_⟩))
        · exact (Proc.bind_ok hhide).trans hshow
        · exact hfinish.trans ((Proc.bind_ok hhide).trans (Proc.bind_ok hshow))

/-- When the difference has been told, the list is shown. -/
theorem Told.synced {w w₁ : World} {c : Context} {list : Map String TransItem}
    (htold : Told (txDiff c.sentTxs list) w w₁) (hctx : w.data.ctx = some c)
    (hkeyed : ∀ (id : String) (item : TransItem), list[id]? = some item → item.id = id)
    (hexact : Exact w) (hcurrent : Current w) :
    Exact (w₁.txsSent list) ∧ Current (w₁.txsSent list) := by
  have hshows := hcurrent.shows c hctx
  obtain ⟨events, hlog, hevents, hus⟩ := htold.log
  have hlist : ∀ e ∈ events, ∀ older, e.txList older = none := by
    intro e he older
    rcases hevents e he with haside | hshow
    · exact (Event.aside_spec haside older).2.2
    · exact (Event.showsTx_spec hshow older).2
  have hbalance : ∀ e ∈ events, e.balanceUpdate = none := by
    intro e he
    rcases hevents e he with haside | hshow
    · exact (Event.aside_spec haside []).2.1
    · exact (Event.showsTx_spec hshow []).1
  have hother : ∀ e ∈ events, ∀ older, SyncExact e older ∧ BalanceExact e older := by
    intro e he older
    rcases hevents e he with haside | hshow
    · exact Event.exact_of_aside haside older
    · constructor <;> rintro _ rfl <;> cases hshow
  -- the items told since the last list are exactly the difference
  have hsince : txsSince w₁.log = txDiff c.sentTxs list := by
    rw [hlog, txsSince_append hlist, hshows.since, hus, List.reverse_reverse, List.nil_append]
  have hsynced : lastSynced w₁.log = c.sentTxs := by rw [hlog, lastSynced_append hlist, hshows.synced]
  have hshown : ∀ id, shownTxs w₁.log id = list[id]? := by
    intro id
    rw [hlog, shownTxs, replay_append_eq_applyAll, hus, List.reverse_reverse]
    exact applyAll_txDiff hshows.txs hkeyed id
  have hbalances : ∀ a, shownBalances w₁.log a = c.lastBalances[a]? := by
    intro a
    rw [hlog, shownBalances, replay_append hbalance]
    exact hshows.balances a
  have hbefore : Always SyncExact w₁.log ∧ Always BalanceExact w₁.log := by
    rw [hlog]
    exact ⟨hexact.txs.append fun e he older => (hother e he older).1,
      hexact.balances.append fun e he older => (hother e he older).2⟩
  refine ⟨⟨.cons ?_ hbefore.1, .cons ?_ hbefore.2⟩, ⟨?_, ?_⟩⟩
  · rintro list' heq
    cases heq
    refine ⟨?_, hshown⟩
    show txsSince w₁.log = txDiff (lastSynced w₁.log) list
    rw [hsynced]
    exact hsince
  · rintro balances heq
    cases heq
  · intro c' hc'
    have hctx' : w₁.data.ctx.map (fun c => { c with sentTxs := list }) = some c' := hc'
    obtain ⟨c₁, hc₁, rfl⟩ := Option.map_eq_some_iff.mp hctx'
    have hremembered := htold.wallet
    rw [hc₁, hctx] at hremembered
    have hknown : c₁.lastBalances = c.lastBalances := (Prod.mk.inj (Option.some.inj hremembered)).2
    refine ⟨hshown, rfl, rfl, fun a => ?_⟩
    show shownBalances w₁.log a = c₁.lastBalances[a]?
    rw [hknown]
    exact hbalances a
  · rfl

/-- The invariant of whole comparisons. -/
def Mirroring (w : World) : Prop := Exact w ∧ Current w

theorem Mirroring.frame {w w' : World} (hframe : MirrorFrame w w') (hw : Mirroring w) : Mirroring w' :=
  ⟨hw.1.frame hframe, hw.2.frame hframe⟩

/-- Relations that contain the frames allow the effects that are no part of a comparison. -/
theorem allows_mirrorFrame {G : World → World → Prop} (hG : ∀ w w', MirrorFrame w w' → G w w')
    {k : Effect} (hcoarse : k.coarse = false) (hmirror : k ≠ .mirror) (hlogin : k ≠ .login) :
    Allows G k :=
  ⟨fun hs => .single (hG _ _ (hs.mirrorFrame hcoarse hmirror hlogin))⟩

instance : Allows MirrorFrame .talk :=
  allows_mirrorFrame (fun _ _ hframe => hframe) rfl (by decide) (by decide)

instance : Allows MirrorFrame .success :=
  allows_mirrorFrame (fun _ _ hframe => hframe) rfl (by decide) (by decide)

/-- A comparison tells exactly the differences. -/
theorem trySyncTxList_mirroring (w : World) (hw : Mirroring w) : Mirroring (trySyncTxList h w).state := by
  have hcalled : MirrorFrame w { w with calls := w.calls + 1 } := .of_ctx rfl rfl
  rcases trySyncTxList_cases (h := h) w with ⟨e, heq⟩ | heq | heq |
    ⟨c, topBlock, list, w₁, hctx, -, hlist, htold, -, heq⟩
  · rw [heq]
    exact hw.frame hcalled
  · rw [heq]
    exact hw
  · rw [heq]
    exact hw.frame hcalled
  · have htail : Refines MirrorFrame (do
        updateAddressRegistrations h
        processPendingSucceed : Worker String Unit) :=
      .bind updateAddressRegistrations_effects fun _ => processPendingSucceed_effects
    rw [heq]
    refine (htail.chain _).invariant (fun _ _ hframe => Mirroring.frame hframe) ?_
    exact htold.synced hctx (getTxList_keyed hlist) hw.1 hw.2

/-! ### Comparison of the balances -/

/-- Assets that are gone count as zero. -/
theorem lookup_foldl_insertIfNew (keys : List AssetId) (m : Map AssetId ℤ) (b : AssetId) :
    (keys.foldl (fun m a => m.insertIfNew a 0) m)[b]? =
      if b ∈ keys then some (m[b]?.getD 0) else m[b]? := by
  induction keys generalizing m with
  | nil => rfl
  | cons a keys ih =>
    rw [List.foldl_cons, ih, Map.lookup_insertIfNew]
    by_cases hab : a = b
    · subst hab
      rw [if_pos rfl, if_pos List.mem_cons_self, Option.getD_some]
      split <;> rfl
    · have hmem : b ∈ a :: keys ↔ b ∈ keys := by
        rw [List.mem_cons]
        exact or_iff_right (Ne.symm hab)
      simp only [hmem, if_neg hab]

/-- A balance that is shown is remembered. -/
theorem Mirroring.balanceShown {w : World} (a : AssetId) (amount : ℤ) (hw : Mirroring w) :
    Mirroring (w.balanceShown a amount) := by
  obtain ⟨⟨htxs, hbalances⟩, hshows, hsince⟩ := hw
  have hlog : (w.balanceShown a amount).log = .toUi (.balanceUpdate ⟨a, amount⟩) :: w.log := rfl
  refine ⟨⟨?_, ?_⟩, fun c' hc' => ?_, ?_⟩
  · rw [hlog]
    exact .cons (fun _ heq => by cases heq) htxs
  · rw [hlog]
    exact .cons (fun _ heq => by cases heq) hbalances
  · have hctx : w.data.ctx.map
        (fun c => { c with lastBalances := c.lastBalances.insert a amount }) = some c' := hc'
    obtain ⟨c, hc, rfl⟩ := Option.map_eq_some_iff.mp hctx
    obtain ⟨h1, h2, h3, h4⟩ := hshows c hc
    refine ⟨h1, h2, ?_, fun b => ?_⟩
    · show txsSince w.log ++ [] = []
      rw [h3]
      rfl
    · have hreplay : shownBalances (w.balanceShown a amount).log b =
          Function.update (shownBalances w.log) a (some amount) b := rfl
      rw [hreplay, Function.update_apply, Map.lookup_insert, h4]
      simp only [eq_comm]
  · show txsSince w.log ++ [] = []
    rw [hsince]
    rfl

/-- The wallet remembers what `known` says for the assets that are not in `all`. -/
def Keeps (known all : Map AssetId ℤ) (w : World) : Prop :=
  Mirroring w ∧ ∃ c, w.data.ctx = some c ∧
    ∀ a : AssetId, all[a]? = none → c.lastBalances[a]? = known[a]?

/-- The wallet remembers a balance. -/
def Remembers (p : AssetId × ℤ) (w : World) : Prop :=
  ∃ c, w.data.ctx = some c ∧ c.lastBalances[p.1]? = some p.2

/-- A balance is shown if it differs. -/
theorem syncBalance_apply (p : AssetId × ℤ) {w : World} {c : Context} (hc : w.data.ctx = some c) :
    (syncBalance p : Worker ε Unit) w =
      if c.lastBalances[p.1]? = some p.2 then .ok () w else .ok () (w.balanceShown p.1 p.2) := by
  have happly : (syncBalance p : Worker ε Unit) w =
      (if c.lastBalances[p.1]? = some p.2 then pure ()
      else do
        toUi (.balanceUpdate ⟨p.1, p.2⟩)
        modifyCtx fun c => { c with lastBalances := c.lastBalances.insert p.1 p.2 } : Worker ε Unit) w := by
    show (Proc.expect w.data.ctx >>= _ : Worker ε Unit) w = _
    rw [hc]
    rfl
  rw [happly]
  split <;> rfl

theorem balanceShown_ctx (p : AssetId × ℤ) {w : World} {c : Context} (hc : w.data.ctx = some c) :
    (w.balanceShown p.1 p.2).data.ctx =
      some { c with lastBalances := c.lastBalances.insert p.1 p.2 } := by
  show w.data.ctx.map _ = _
  rw [hc]
  rfl

/-- Afterwards it is remembered. -/
theorem syncBalance_spec {known all : Map AssetId ℤ} {p : AssetId × ℤ} (hp : all[p.1]? = some p.2) :
    Guar (Preserves Mirroring) (Keeps known all) (syncBalance p : Worker ε Unit)
      fun _ w => Keeps known all w ∧ Remembers p w := by
  rintro w ⟨hw, c, hc, hkeeps⟩
  rw [syncBalance_apply p hc]
  split
  · rename_i hsame
    refine ⟨.refl, fun _ _ hok => ?_⟩
    cases hok
    exact ⟨⟨hw, c, hc, hkeeps⟩, c, hc, hsame⟩
  · refine ⟨.single fun hw => hw.balanceShown p.1 p.2, fun _ _ hok => ?_⟩
    cases hok
    refine ⟨⟨hw.balanceShown p.1 p.2, _, balanceShown_ctx p hc, fun a ha => ?_⟩, _,
      balanceShown_ctx p hc, ?_⟩
    · have hne : p.1 ≠ a := by
        rintro rfl
        rw [hp] at ha
        cases ha
      rw [Map.lookup_insert, if_neg hne]
      exact hkeeps a ha
    · rw [Map.lookup_insert, if_pos rfl]

/-- Other balances stay remembered. -/
theorem syncBalance_keep {known all : Map AssetId ℤ} {p q : AssetId × ℤ} (hp : all[p.1]? = some p.2)
    (hq : all[q.1]? = some q.2) :
    Guar (Preserves Mirroring) (fun w => Keeps known all w ∧ Remembers q w)
      (syncBalance p : Worker ε Unit) fun _ w => Keeps known all w ∧ Remembers q w := by
  rintro w ⟨hw, c, hc, hremembers⟩
  have hspec : Guar (Preserves Mirroring) (Keeps known all) (syncBalance p : Worker ε Unit) _ :=
    syncBalance_spec hp
  obtain ⟨hchain, hpost⟩ := hspec w hw
  refine ⟨hchain, fun u w' hok => ⟨(hpost u w' hok).1, ?_⟩⟩
  rw [syncBalance_apply p hc] at hok
  split at hok
  · cases hok
    exact ⟨c, hc, hremembers⟩
  · cases hok
    refine ⟨_, balanceShown_ctx p hc, ?_⟩
    rw [Map.lookup_insert]
    split
    · rename_i heq
      rw [heq, hq] at hp
      exact hp.symm
    · exact hremembers

/-- A comparison of the balances tells exactly the differences. -/
theorem updateBalances_spec :
    Guar (Preserves Mirroring) Mirroring (updateBalances h : Worker ε Unit) fun _ _ => True := by
  refine .bind getData_spec fun d => ?_
  cases hctx : d.ctx with
  | none => exact .pure fun _ _ => trivial
  | some ctx =>
    have hcall : Guar (Preserves Mirroring) (fun w => d = w.data ∧ Mirroring w)
        (call h.getBalance : Worker ε _) fun _ w => w.data.ctx = some ctx ∧ Mirroring w := by
      rintro w ⟨rfl, hw⟩
      have hcalled : MirrorFrame w { w with calls := w.calls + 1 } := .of_ctx rfl rfl
      refine ⟨.single fun hw => hw.frame hcalled, fun a w' hok => ?_⟩
      cases hok
      exact ⟨hctx, hw.frame hcalled⟩
    refine .bind hcall fun result => ?_
    cases result with
    | error e => exact .pure fun _ _ => trivial
    | ok balances =>
      -- the answer of the wallet, and zero for a balance that it had before and has no more
      let all := ctx.lastBalances.keys.foldl (fun m a => m.insertIfNew a 0) balances
      have hall : ∀ p ∈ all.toList, all[p.1]? = some p.2 := fun p hp =>
        Std.ExtTreeMap.mem_toList_iff_getElem?_eq_some.mp hp
      have hloop : Guar (Preserves Mirroring) (Keeps ctx.lastBalances all)
          (Proc.each all.toList syncBalance : Worker ε Unit)
          fun _ w => Keeps ctx.lastBalances all w ∧ ∀ p ∈ all.toList, Remembers p w :=
        .each_forall (fun p hp => syncBalance_spec (hall p hp))
          fun q hq p hp => syncBalance_keep (hall p hp) (hall q hq)
      refine .bind (hloop.pre fun w hw => ⟨hw.2, ctx, hw.1, fun _ _ => rfl⟩) fun _ => ?_
      refine .modify (fun w hw hmirroring => ?_) fun _ _ => trivial
      obtain ⟨⟨-, c, hc, hkeeps⟩, hremembers⟩ := hw
      obtain ⟨⟨htxs, hbalances⟩, hshows, hsince⟩ := hmirroring
      obtain ⟨h1, h2, h3, h4⟩ := hshows c hc
      have hlookup := lookup_foldl_insertIfNew ctx.lastBalances.keys balances
      -- after the loop the user interface shows every balance of `all`
      have hshown : ∀ (a : AssetId) (amount : ℤ), all[a]? = some amount →
          shownBalances w.log a = some amount := by
        intro a amount hamount
        obtain ⟨c', hc', hsame⟩ := hremembers (a, amount)
          (Std.ExtTreeMap.mem_toList_iff_getElem?_eq_some.mpr hamount)
        rw [hc] at hc'
        cases hc'
        rw [h4]
        exact hsame
      refine ⟨⟨.cons (fun _ heq => by cases heq) htxs, .cons ?_ hbalances⟩, ?_, ?_⟩
      · rintro balances' heq a
        cases heq
        constructor
        · intro amount hamount
          refine hshown a amount ?_
          rw [hlookup, hamount]
          split <;> rfl
        · intro hgone
          by_cases hknown : a ∈ ctx.lastBalances.keys
          · refine .inr (hshown a 0 ?_)
            rw [hlookup, if_pos hknown, hgone, Option.getD_none]
          · -- an asset without a balance, before and now, was never told
            refine .inl ?_
            have hnone : ctx.lastBalances[a]? = none := by
              rw [Map.lookup_eq_none_iff]
              by_contra hcontains
              rw [Std.ExtTreeMap.mem_keys, ← Std.ExtTreeMap.contains_iff_mem] at hknown
              exact hknown (eq_true_of_ne_false hcontains)
            show shownBalances w.log a = none
            rw [h4, hkeeps a (by rw [hlookup, if_neg hknown, hgone]), hnone]
      · intro c' hc'
        have heq : some c = some c' := hc.symm.trans hc'
        cases heq
        refine ⟨h1, h2, ?_, h4⟩
        show txsSince w.log ++ [] = []
        rw [h3]
        rfl
      · show txsSince w.log ++ [] = []
        rw [hsince]
        rfl

/-! ### Messages -/

/-- The invariant is kept by all effects other than a login. -/
theorem allows_mirroring {k : Effect} (hmirror : k ≠ .mirror) (hlogin : k ≠ .login) :
    Allows (Preserves Mirroring) k := by
  cases hcoarse : k.coarse with
  | false => exact allows_mirrorFrame (fun _ _ hframe => Mirroring.frame hframe) hcoarse hmirror hlogin
  | true =>
    constructor
    intro w w' hs
    cases hs with
    | said e he =>
      have hfine : ∀ k ∈ [Effect.talk, .listing, .market, .report, .offline, .connect, .psets, .payment,
          .swap, .terms], k.coarse = false := by decide
      rw [hfine k (Event.effect_mem he)] at hcoarse
      cases hcoarse
    | synced h => exact .single (trySyncTxList_mirroring w)
    | balanced h =>
      have hstep : Preserves Mirroring w (updateBalances h w : Outcome String _ _).state := fun hw =>
        (updateBalances_spec w hw).1.invariant (fun _ _ hstep => hstep) hw
      exact .single hstep
    | _ => cases hcoarse

instance : Allows (Preserves Mirroring) .talk := allows_mirroring (by decide) (by decide)
instance : Allows (Preserves Mirroring) .assets := allows_mirroring (by decide) (by decide)
instance : Allows (Preserves Mirroring) .links := allows_mirroring (by decide) (by decide)
instance : Allows (Preserves Mirroring) .terms := allows_mirroring (by decide) (by decide)
instance : Allows (Preserves Mirroring) .prompts := allows_mirroring (by decide) (by decide)
instance : Allows (Preserves Mirroring) .queues := allows_mirroring (by decide) (by decide)
instance : Allows (Preserves Mirroring) .wallet := allows_mirroring (by decide) (by decide)
instance : Allows (Preserves Mirroring) .sync := allows_mirroring (by decide) (by decide)
instance : Allows (Preserves Mirroring) .balances := allows_mirroring (by decide) (by decide)

/-- Nothing has been shown since the login began. -/
theorem shows_login {log : List Event} {mnemonic : String} {phoneKey : Option PhoneKey} :
    Shows (.received (.ui (.login mnemonic phoneKey)) :: log) ∅ ∅ := by
  refine ⟨fun id => ?_, rfl, rfl, fun a => ?_⟩
  · rw [Map.lookup_empty]
    rfl
  · rw [Map.lookup_empty]
    rfl

theorem Mirroring.record {w : World} {e : Event} (he : e.aside = true) (hw : Mirroring w) :
    Mirroring (w.record e) :=
  hw.frame (.of_record (w := w) rfl rfl he)

theorem Exact.login {w : World} {mnemonic : String} {phoneKey : Option PhoneKey} (hw : Exact w) :
    Exact (w.record (.received (.ui (.login mnemonic phoneKey)))) :=
  ⟨.cons (fun _ heq => by cases heq) hw.txs, .cons (fun _ heq => by cases heq) hw.balances⟩

/-- The world in which the calls of a login start. -/
def World.loggingIn (w : World) (mnemonic : String) (phoneKey : Option PhoneKey) : World :=
  { (w.record (.received (.ui (.login mnemonic phoneKey)))).record (.toWs true) with
    calls := w.calls + 1 }

/-- A login begins with nothing shown. -/
theorem Exact.loggingIn {w : World} (hw : Exact w) (mnemonic : String) (phoneKey : Option PhoneKey) :
    Exact (w.loggingIn mnemonic phoneKey) := by
  let w₀ := w.record (.received (.ui (.login mnemonic phoneKey)))
  have hframe : MirrorFrame w₀ (w.loggingIn mnemonic phoneKey) :=
    .of_record (e := .toWs true) rfl rfl rfl
  exact hw.login.frame hframe

/-- Nothing is shown of a wallet that was just opened. -/
theorem Mirroring.login {w : World} (hw : Mirroring w) (mnemonic : String)
    (phoneKey : Option PhoneKey) (walletHashId : String) :
    Mirroring ((w.loggingIn mnemonic phoneKey).modifyData fun d =>
      { d with ctx := some (freshContext walletHashId phoneKey) }) := by
  have haside : ∀ e ∈ [Event.toWs true], e.aside = true := by simp [Event.aside, Event.resets]
  have hshows : Shows (w.loggingIn mnemonic phoneKey).log ∅ ∅ := shows_login.aside haside
  have hexact := hw.1.loggingIn mnemonic phoneKey
  refine ⟨⟨hexact.txs, hexact.balances⟩, fun c hc => ?_, hshows.since⟩
  cases hc
  exact hshows

/-- The handling of a message keeps the invariant, and a message that ends the process leaves the
history exact. -/
theorem handle_mirroring (msg : Message) {w : World} (hw : Mirroring w) :
    Exact ((machine h).handle msg w).state ∧
      ∀ u w', (machine h).handle msg w = .ok u w' → Current w' := by
  -- a login begins with an empty mirror
  by_cases hlogin : ∃ mnemonic phoneKey, msg = .ui (.login mnemonic phoneKey)
  · obtain ⟨mnemonic, phoneKey, rfl⟩ := hlogin
    have hhandle : (machine h).handle (.ui (.login mnemonic phoneKey)) w =
        processLoginRequest h mnemonic phoneKey
          (w.record (.received (.ui (.login mnemonic phoneKey)))) := rfl
    rw [hhandle, processLoginRequest_apply]
    dsimp only
    split
    · exact ⟨hw.1.loggingIn mnemonic phoneKey, fun _ _ hok => by cases hok⟩
    · next walletHashId _ =>
      have hmirroring := hw.login mnemonic phoneKey walletHashId
      have hrest : Refines (Preserves Mirroring) (afterLogin h : Worker Empty Unit) := afterLogin_effects
      exact ⟨(hrest.preserves hmirroring).1, fun u w' hok => (hrest.preserves_ok hmirroring hok).2⟩
  · -- any other message keeps the mirror, whatever its handler does
    have hprocess : Refines (Preserves Mirroring) (process h msg : Worker Empty Unit) := by
      have heffects : msg.effects.all (fun k => k ≠ .mirror && k ≠ .login) = true := by
        cases msg with
        | ui m => cases m <;> first | rfl | exact absurd ⟨_, _, rfl⟩ hlogin
        | serverNotification n => cases n <;> rfl
        | _ => rfl
      refine process_effects msg fun k hk => ?_
      have hk := List.all_eq_true.mp heffects k hk
      simp only [ne_eq, Bool.and_eq_true, decide_eq_true_eq] at hk
      exact allows_mirroring hk.1 hk.2
    -- the message itself tells nothing about the wallet
    have haside : (Event.received msg).aside = true := by
      cases msg with
      | ui m => cases m <;> first | rfl | exact absurd ⟨_, _, rfl⟩ hlogin
      | _ => rfl
    have hrecord := hw.record haside
    exact ⟨(hprocess.preserves hrecord).1, fun u w' hok => (hprocess.preserves_ok hrecord hok).2⟩

/-- A start shows nothing. -/
theorem boot_mirroring {w : World} (hw : Exact w) :
    Mirroring (boot h w : Outcome Empty World Unit).state := by
  have := allows_mirroring (k := .load) (by decide) (by decide)
  have hload : Refines (Preserves Mirroring) (ignoreError (loadAssets h) : Worker Empty Unit) :=
    ignoreError_effects loadAssets_effects
  refine hload.preserves (s := freshStart h w) ⟨⟨?_, ?_⟩, fun c hc => ?_, rfl⟩
  · exact .cons (fun _ heq => by cases heq) hw.txs
  · exact .cons (fun _ heq => by cases heq) hw.balances
  · cases hc

/-! ### Runs -/

/-- A comparison that fails tells nothing and forgets nothing. -/
theorem trySyncTxList_error {w w' : World} {e : String} (herror : trySyncTxList h w = .error e w') :
    w' = { w with calls := w.calls + 1 } := by
  have htail : NoFail (do
      updateAddressRegistrations h
      processPendingSucceed : Worker String Unit) :=
    .bind noFail_updateAddressRegistrations fun _ => noFail_processPendingSucceed
  rcases trySyncTxList_cases (h := h) w with ⟨e', heq⟩ | heq | heq | ⟨c, topBlock, list, w₁, -, -, -, -, -, heq⟩
  · rw [heq] at herror
    cases herror
    rfl
  · rw [heq] at herror
    cases herror
  · rw [heq] at herror
    cases herror
  · rw [heq] at herror
    exact absurd herror (htail _ _ _)

/-- The history shows which list a successful comparison has read. -/
theorem trySyncTxList_recorded {w w' : World} (hok : trySyncTxList h w = .ok () w') :
    ∃ c topBlock list, w.data.ctx = some c ∧ h.blockStatus w.calls = .ok topBlock ∧
      getTxList h c topBlock = some list ∧
      ∃ newer events, w'.log = newer ++ .synced list :: (events ++ w.log) := by
  rcases trySyncTxList_cases (h := h) w with ⟨e', heq⟩ | heq | heq |
    ⟨c, topBlock, list, w₁, hctx, hstatus, hlist, htold, -, heq⟩
  · -- a call that fails returns nothing
    rw [heq] at hok
    cases hok
  · rw [heq] at hok
    cases hok
  · rw [heq] at hok
    cases hok
  · -- the list is recorded right after the differences have been told
    obtain ⟨events, hlog, -, -⟩ := htold.log
    -- what comes after the record only adds to the history
    have htail : Refines MirrorFrame (do
        updateAddressRegistrations h
        processPendingSucceed : Worker String Unit) :=
      .bind updateAddressRegistrations_effects fun _ => processPendingSucceed_effects
    have hchain := htail.chain (w₁.txsSent list)
    rw [← heq, hok] at hchain
    have hsuffix : (w₁.txsSent list).log <:+ w'.log := by
      refine hchain.invariant (I := fun v => (w₁.txsSent list).log <:+ v.log) ?_ List.suffix_rfl
      intro v v' hframe hv
      obtain ⟨newer, hnewer, -⟩ := hframe.log
      exact hv.trans ⟨newer, hnewer.symm⟩
    obtain ⟨newer, hnewer⟩ := hsuffix
    refine ⟨c, topBlock, list, hctx, hstatus, hlist, newer, events, ?_⟩
    rw [← hnewer, ← hlog]
    rfl

/-- The history shows which balances a successful update has read. -/
theorem updateBalances_recorded {w w' : World} {c : Context} {balances : Map AssetId ℤ}
    (hctx : w.data.ctx = some c) (hbalances : h.getBalance w.calls = .ok balances)
    (hok : (updateBalances h w : Outcome ε World Unit) = .ok () w') :
    ∃ events, w'.log = .balanced balances :: (events ++ w.log) := by
  let all := c.lastBalances.keys.foldl (fun m a => m.insertIfNew a 0) balances
  let w₀ : World := { w with calls := w.calls + 1 }
  -- the call is the loop over the balances, followed by the record
  have happly : (updateBalances h w : Outcome ε World Unit) =
      (Proc.each all.toList syncBalance >>= fun _ => record (.balanced balances) : Worker ε Unit) w₀ := by
    have hcall : (call h.getBalance : Worker ε _) w = .ok (.ok balances) w₀ := by
      rw [← hbalances]
      rfl
    unfold updateBalances
    rw [getData_bind_apply, hctx]
    exact Proc.bind_ok hcall
  -- showing a balance adds to the history
  have hloop : Refines (fun v v' : World => v.log <:+ v'.log)
      (Proc.each all.toList syncBalance : Worker ε Unit) := by
    refine .each fun p _ => .bind expectCtx_effects fun ctx => ?_
    split
    · exact .pure _
    · exact .of_chain fun v => .single (List.suffix_cons _ _)
  have hchain := hloop.chain w₀
  rw [happly, Proc.bind_apply] at hok
  -- the loop has returned, since the call has
  cases heach : (Proc.each all.toList syncBalance : Worker ε Unit) w₀ with
  | ok u w₁ =>
    rw [heach] at hok hchain
    cases hok
    have hsuffix : w.log <:+ w₁.log :=
      hchain.invariant (I := fun v : World => w.log <:+ v.log) (fun _ _ hstep hv => hv.trans hstep)
        List.suffix_rfl
    obtain ⟨events, hevents⟩ := hsuffix
    exact ⟨events, congrArg _ hevents.symm⟩
  | error e w₁ =>
    rw [heach] at hok
    cases hok
  | abort w₁ =>
    rw [heach] at hok
    cases hok

/-- In every run, each successful comparison has told exactly the difference to the one before, and
what is shown then is the list of transactions, or the balances, that the comparison has read.  No
transaction is told of otherwise, and a comparison that fails tells nothing. -/
theorem wallet_mirrored (h : Host) (xs : List (Feed Message)) :
    let l := (machine h).run (start h) xs
    (Always SyncExact l.state.log ∧ Always BalanceExact l.state.log ∧
      (l.alive = true → txsSince l.state.log = [])) ∧
    (∀ w w', trySyncTxList h w = .ok () w' →
      ∃ c topBlock list, w.data.ctx = some c ∧ h.blockStatus w.calls = .ok topBlock ∧
        getTxList h c topBlock = some list ∧
        ∃ newer events, w'.log = newer ++ .synced list :: (events ++ w.log)) ∧
    (∀ w w' e, trySyncTxList h w = .error e w' → w' = { w with calls := w.calls + 1 }) ∧
    ∀ w w' c balances, w.data.ctx = some c → h.getBalance w.calls = .ok balances →
      (updateBalances h w : Outcome Empty World Unit) = .ok () w' →
      ∃ events, w'.log = .balanced balances :: (events ++ w.log) := by
  -- after the start nothing has been shown
  have hstart : Exact (start h).state ∧ ((start h).alive = true → Current (start h).state) := by
    have hboot := boot_mirroring (h := h) (w := World.new) ⟨.nil, .nil⟩
    rw [start, Outcome.life_state]
    exact ⟨hboot.1, fun _ => hboot.2⟩
  -- the mirror is exact in every state, and current in every state of a process that lives
  obtain ⟨hexact, hcurrent⟩ := Machine.run_life_invariant (M := machine h) (C := fun _ _ => True)
    (I := Exact) (A := Current) hstart (Machine.along_true _ _)
    (fun w msg _ hexact hcurrent => handle_mirroring msg ⟨hexact, hcurrent⟩)
    (fun w hw => by
      have hboot := boot_mirroring (h := h) hw
      refine ⟨hboot.1, fun u w' hok => ?_⟩
      have hstate : (boot h w : Outcome Empty World Unit) = .ok u w' := hok
      rw [hstate] at hboot
      exact hboot.2)
  refine ⟨⟨hexact.txs, hexact.balances, fun halive => (hcurrent halive).since⟩, ?_, ?_, ?_⟩
  · exact fun w w' hok => trySyncTxList_recorded hok
  · exact fun w w' e herror => trySyncTxList_error herror
  · exact fun w w' c balances hctx hbalances hok => updateBalances_recorded hctx hbalances hok

end SideSwap.Client
