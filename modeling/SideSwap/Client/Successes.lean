import SideSwap.Client.Deals

/-!
# Reports of success

In a process in which all events leave the deals alone (`DealKept`), every deal whose transaction
was listed has been reported exactly once (`success_reported_once`).
-/

namespace SideSwap.Client

open Proc History

variable {ε : Type} {h : Host}

/-! ### Steps that do not concern deals -/

/-- An event that is not about deals.  The items of pegs are reported apart. -/
def Event.dealFree : Event → Bool
  | .started | .completed _ | .synced _ => false
  | .toUi (.swapSucceed item) => item.isPeg
  | _ => true

/-- An event within a comparison. -/
def Event.comparing : Event → Bool
  | .started | .completed _ | .synced _ => false
  | _ => true

theorem Event.comparing_of_dealFree {e : Event} (he : e.dealFree = true) : e.comparing = true := by
  unfold Event.comparing
  split <;> first | rfl | cases he

theorem thisLife_append {events log : List Event} (hevents : ∀ e ∈ events, e.comparing = true) :
    thisLife (events ++ log) = events ++ thisLife log := by
  induction events with
  | nil => rfl
  | cons e events ih =>
    have he := hevents e List.mem_cons_self
    rw [List.cons_append, List.cons_append, ← ih fun e' he' => hevents e' (List.mem_cons_of_mem _ he')]
    cases e <;> first | rfl | cases he

theorem deals_append {events life : List Event} (hevents : ∀ e ∈ events, e.comparing = true) :
    deals (events ++ life) = deals life := by
  induction events with
  | nil => rfl
  | cons e events ih =>
    have he := hevents e List.mem_cons_self
    rw [← ih fun e' he' => hevents e' (List.mem_cons_of_mem _ he')]
    cases e <;> first | rfl | cases he

theorem unlisted_append {events life : List Event} (hevents : ∀ e ∈ events, e.comparing = true) :
    unlisted (events ++ life) = unlisted life := by
  induction events with
  | nil => rfl
  | cons e events ih =>
    have he := hevents e List.mem_cons_self
    rw [← ih fun e' he' => hevents e' (List.mem_cons_of_mem _ he')]
    cases e <;> first | rfl | cases he

theorem reportsSwap_of_dealFree {e : Event} (he : e.dealFree = true) (txid : String) :
    e.reportsSwap txid = false := by
  unfold Event.reportsSwap
  split
  · have hpeg : TransItem.isPeg _ = true := he
    rw [hpeg]
    simp
  · rfl

/-- The reports of orders, those in the queue included. -/
def World.orderReports (w : World) (txid : String) : ℕ :=
  (thisLife w.log).countP (Event.reportsOrder txid)
    + w.data.pendingSucceed.countP fun item => decide (item.id = txid)

theorem KeepsDeals.trans {old mid new : Map OrderId SubmitData} (h₁ : KeepsDeals old mid)
    (h₂ : KeepsDeals mid new) : KeepsDeals old new := by
  constructor
  · intro X s hs
    obtain ⟨s', hs', hdeal⟩ := h₁.kept X s hs
    obtain ⟨s'', hs'', hdeal'⟩ := h₂.kept X s' hs'
    exact ⟨s'', hs'', hdeal'.trans hdeal⟩
  · intro X s'' hnone hs''
    cases hmid : mid[X]? with
    | none => exact h₂.fresh X s'' hmid hs''
    | some s' =>
      obtain ⟨t, ht, hdeal⟩ := h₂.kept X s' hmid
      obtain rfl : t = s'' := Option.some.inj (ht.symm.trans hs'')
      exact hdeal.trans (h₁.fresh X s' hnone hmid)

/-- Nothing that the results depend on changes. -/
structure DealFrame (w w' : World) : Prop where
  slot : w'.data.ctx.bind Context.succeedSwap = w.data.ctx.bind Context.succeedSwap
  terms : KeepsDeals w.data.submitData w'.data.submitData
  shown : w'.data.shownSucceed = w.data.shownSucceed
  log : ∃ events, w'.log = events ++ w.log ∧ ∀ e ∈ events, e.dealFree = true
  orders : w'.orderReports = w.orderReports

/-- An event that reports nothing either. -/
def Event.untold : Event → Bool
  | .toUi (.submitResult (.swapSucceed _)) => false
  | e => e.dealFree

theorem Event.dealFree_of_untold {e : Event} (he : e.untold = true) : e.dealFree = true := by
  unfold Event.untold at he
  split at he
  · cases he
  · exact he

theorem reportsOrder_of_untold {e : Event} (he : e.untold = true) (txid : String) :
    e.reportsOrder txid = false := by
  unfold Event.reportsOrder
  split
  · cases he
  · rfl

namespace DealFrame

variable {w w' : World}

/-- Nothing is reported, and the queue is unchanged. -/
theorem of_untold (hslot : w'.data.ctx.bind Context.succeedSwap = w.data.ctx.bind Context.succeedSwap)
    (hterms : KeepsDeals w.data.submitData w'.data.submitData)
    (hshown : w'.data.shownSucceed = w.data.shownSucceed)
    (hqueue : w'.data.pendingSucceed = w.data.pendingSucceed)
    (hlog : ∃ events, w'.log = events ++ w.log ∧ ∀ e ∈ events, e.untold = true) : DealFrame w w' := by
  obtain ⟨events, hlog, huntold⟩ := hlog
  have hfree : ∀ e ∈ events, e.dealFree = true := fun e he => Event.dealFree_of_untold (huntold e he)
  refine ⟨hslot, hterms, hshown, ⟨events, hlog, hfree⟩, funext fun txid => ?_⟩
  have hnone : events.countP (Event.reportsOrder txid) = 0 := by
    rw [List.countP_eq_zero]
    intro e he
    simp [reportsOrder_of_untold (huntold e he) txid]
  rw [World.orderReports, World.orderReports, hlog,
    thisLife_append fun e he => Event.comparing_of_dealFree (hfree e he), List.countP_append, hnone,
    hqueue, Nat.zero_add]

theorem of_record {e : Event} (hdata : w'.data = w.data) (hlog : w'.log = e :: w.log)
    (he : e.untold = true) : DealFrame w w' := by
  refine of_untold ?_ ?_ ?_ ?_ ⟨[e], hlog, by simpa using he⟩ <;> rw [hdata]
  exact .refl _

/-- Data that deals do not depend on are written. -/
theorem of_data (hctx : w'.data.ctx = w.data.ctx) (hterms : w'.data.submitData = w.data.submitData)
    (hshown : w'.data.shownSucceed = w.data.shownSucceed)
    (hqueue : w'.data.pendingSucceed = w.data.pendingSucceed)
    (hlog : ∃ events, w'.log = events ++ w.log ∧ ∀ e ∈ events, e.untold = true) : DealFrame w w' := by
  refine of_untold (by rw [hctx]) ?_ hshown hqueue hlog
  rw [hterms]
  exact .refl _

/-- Other slots of the wallet are written. -/
theorem of_modifyCtx {f : Context → Context} (hdata : w'.data = (w.modifyCtx f).data)
    (hf : ∀ c, (f c).succeedSwap = c.succeedSwap)
    (hlog : ∃ events, w'.log = events ++ w.log ∧ ∀ e ∈ events, e.untold = true) : DealFrame w w' := by
  refine of_untold ?_ (by rw [hdata]; exact .refl _) (by rw [hdata]; rfl) (by rw [hdata]; rfl) hlog
  rw [hdata]
  show (w.data.ctx.map f).bind Context.succeedSwap = w.data.ctx.bind Context.succeedSwap
  rw [Option.bind_map]
  exact congrArg w.data.ctx.bind (funext hf)

theorem refl (w : World) : DealFrame w w := of_data rfl rfl rfl rfl ⟨[], rfl, by simp⟩

theorem trans {w'' : World} (h₁ : DealFrame w w') (h₂ : DealFrame w' w'') : DealFrame w w'' := by
  exact ⟨h₂.slot.trans h₁.slot, h₁.terms.trans h₂.terms, h₂.shown.trans h₁.shown,
    grown_trans h₁.log h₂.log, h₂.orders.trans h₁.orders⟩

theorem of_chain (hchain : Relation.ReflTransGen DealFrame w w') : DealFrame w w' := by
  induction hchain with
  | refl => exact refl _
  | tail _ hlast ih => exact ih.trans hlast

/-- What a step that does not concern deals leaves of the view. -/
theorem dealView (hframe : DealFrame w w') : w'.dealView = { w.dealView with
    terms := fun X => w'.data.submitData[X]?.map SubmitData.deal } := by
  obtain ⟨events, hlog, hfree⟩ := hframe.log
  have hcomparing : ∀ e ∈ events, e.comparing = true := fun e he =>
    Event.comparing_of_dealFree (hfree e he)
  have hlife : thisLife w'.log = events ++ thisLife w.log := by rw [hlog, thisLife_append hcomparing]
  have hswaps : ∀ txid, (thisLife w'.log).countP (Event.reportsSwap txid)
      = (thisLife w.log).countP (Event.reportsSwap txid) := by
    intro txid
    have hnone : events.countP (Event.reportsSwap txid) = 0 := by
      rw [List.countP_eq_zero]
      intro e he
      simp [reportsSwap_of_dealFree (hfree e he) txid]
    rw [hlife, List.countP_append, hnone, Nat.zero_add]
  have horders : ∀ txid, w'.orderReports txid = w.orderReports txid := congrFun hframe.orders
  unfold World.orderReports at horders
  unfold World.dealView
  simp only [hswaps, horders, hframe.slot, hframe.shown]
  rw [hlife, deals_append hcomparing, unlisted_append hcomparing]

theorem dealsInv (hframe : DealFrame w w') (hw : DealsInv w.dealView) : DealsInv w'.dealView := by
  rw [hframe.dealView]
  refine hw.retermed fun X => ?_
  show w'.data.submitData[X]?.map SubmitData.deal = w.data.submitData[X]?.map SubmitData.deal ∨ _
  -- known terms keep their deal, and an order with new terms does not wait
  cases hold : w.data.submitData[X]? with
  | some s =>
    obtain ⟨s', hnew, hdeal⟩ := hframe.terms.kept X s hold
    rw [hnew, Option.map_some, Option.map_some, hdeal]
    exact .inl rfl
  | none =>
    refine .inr ⟨fun txid hX => ?_, ?_⟩
    · have hstored : w.data.submitData[X]?.map SubmitData.deal = some (X, some txid) :=
        hw.order.stored X txid hX
      rw [hold] at hstored
      cases hstored
    · cases hnew : w'.data.submitData[X]? with
      | none => exact .inl rfl
      | some s' => exact .inr (congrArg some (hframe.terms.fresh X s' hold hnew))

end DealFrame

/-- The effects that deals and their reports depend on. -/
def Effect.onDeals : Effect → Bool
  | .mirror | .succeed | .swapDone | .terms | .cancel | .login | .logout => true
  | _ => false

theorem Event.untold_of_effect {e : Event} {k : Effect} (he : e.effect = some k) : e.untold = true := by
  cases e with
  | toUi msg =>
    cases msg with
    | swapSucceed item =>
      show item.isPeg = true
      simp only [Event.effect] at he
      split at he
      · assumption
      · cases he
    | submitResult result => cases result <;> first | rfl | cases he
    | _ => rfl
  | started | completed | synced => cases he
  | _ => rfl

/-- A result that has waited is shown: it leaves the queue. -/
theorem succeedShown_frame {w : World} {item : TransItem} {rest : List TransItem}
    (hqueue : w.data.pendingSucceed = item :: rest) : DealFrame w (w.succeedShown item rest) := by
  refine ⟨rfl, .refl _, rfl, ⟨[_], rfl, by simp [Event.dealFree]⟩, funext fun txid => ?_⟩
  show (Event.toUi (.submitResult (.swapSucceed item)) :: thisLife w.log).countP
      (Event.reportsOrder txid) + rest.countP _ = _
  rw [World.orderReports, hqueue, List.countP_cons, List.countP_cons]
  by_cases hitem : item.id = txid <;> simp only [Event.reportsOrder, hitem, decide_true, decide_false]
  · simp only [if_true]
    omega
  · simp

theorem Change.dealFrame {k : Effect} {w w' : World} (hs : Change k w w') (hcoarse : k.coarse = false)
    (hk : k.onDeals = false) : DealFrame w w' := by
  have hquiet : ∀ {v : World}, v.log = w.log → ∃ events, v.log = events ++ w.log ∧
      ∀ e ∈ events, e.untold = true := fun hlog => ⟨[], hlog, by simp⟩
  have hone : ∀ {v : World} {e : Event}, v.log = e :: w.log → e.untold = true →
      ∃ events, v.log = events ++ w.log ∧ ∀ e ∈ events, e.untold = true :=
    fun {v e} hlog he => ⟨[e], hlog, by simpa using he⟩
  -- most changes write data that deals do not depend on; the others write one slot or one event
  cases hs
  case said e he => exact .of_record rfl rfl (Event.untold_of_effect he)
  case called => exact .of_data rfl rfl rfl rfl (hquiet rfl)
  case saved ok => cases ok <;> exact .of_data rfl rfl rfl rfl (hquiet rfl)
  case info f hf =>
    rw [World.modifyData, hf]
    exact .of_data rfl rfl rfl rfl (hquiet rfl)
  case queued f hf =>
    rw [World.modifyData, hf]
    exact .of_data rfl rfl rfl rfl (hquiet rfl)
  case ctxInfo f hf => exact .of_modifyCtx (f := f) rfl (fun c => by rw [hf]) (hquiet rfl)
  case slots f hf => exact .of_modifyCtx (f := f) rfl (fun c => by rw [hf]) (hquiet rfl)
  case synced | balanced => cases hcoarse
  case txShown | txHidden | txsSent | balanceShown | balancesShown | swapReported | submitSucceeded
      | swapDone | terms | stored | completed | cancelled | login | logout => cases hk
  case succeedShown hqueue _ => exact succeedShown_frame hqueue
  case linkShown X resp _ =>
    refine .of_untold ?_ (.refl _) rfl rfl (hone rfl rfl)
    show (w.data.ctx.map fun c => { c with activeSubmit := some resp }).bind Context.succeedSwap = _
    rw [Option.bind_map]
    rfl
  case promptShown m rest s _ _ _ _ =>
    refine .of_untold ?_ (.refl _) rfl rfl (hone rfl rfl)
    show (w.data.ctx.map fun c => { c with activeSign := some m }).bind Context.succeedSwap = _
    rw [Option.bind_map]
    rfl
  case marketSet | txsRead | pegRead | signTaken | submitTaken | cleaned | pegStarted | paymentSet =>
    exact .of_modifyCtx rfl (fun _ => rfl) (hquiet rfl)
  case registered | orderHidden | orderShown | promptQueued | down =>
    exact .of_data rfl rfl rfl rfl (hone rfl rfl)
  all_goals exact .of_data rfl rfl rfl rfl (hquiet rfl)

/-! ### Comparisons -/

/-- The instant swap that waits for a transaction is reported. -/
def World.swapSeen (w : World) (item : TransItem) : World :=
  if w.data.ctx.bind Context.succeedSwap = some item.id then w.swapReported item else w

/-- The order that waits for a transaction is put into the queue. -/
def World.orderSeen (w : World) (item : TransItem) : World :=
  match w.data.submitData.values.find? fun submit => submit.txid = some item.id with
  | some submit =>
    if submit.orderId ∈ w.data.shownSucceed then w
    else w.modifyData fun d =>
      { d with
        pendingSucceed := d.pendingSucceed ++ [item]
        shownSucceed := insert submit.orderId d.shownSucceed }
  | none => w

/-- A new or changed item is shown, and the deals that wait for it are reported. -/
def World.itemSeen (w : World) (item : TransItem) : World :=
  ((w.record (.toUi (.updatedTx item))).swapSeen item).orderSeen item

theorem syncTxItem_apply (item : TransItem) {w : World} {old : Map String TransItem}
    (hsent : w.data.ctx.map Context.sentTxs = some old) :
    (syncTxItem item : Worker ε Unit) w =
      .ok () (if old[item.id]? = some item then w else w.itemSeen item) := by
  obtain ⟨c, hc, rfl⟩ := Option.map_eq_some_iff.mp hsent
  -- with a wallet the step is a choice between nothing and three calls
  have happly : (syncTxItem item : Worker ε Unit) w =
      (if c.sentTxs[item.id]? = some item then pure ()
      else do
        toUi (.updatedTx item)
        reportSwapSucceed item
        queueSubmitSucceed item : Worker ε Unit) w := by
    show (Proc.expect w.data.ctx >>= _ : Worker ε Unit) w = _
    rw [hc]
    rfl
  rw [happly]
  -- an item that was shown as it is now
  split
  · rfl
  · -- a new one or one that has changed
    let w₁ := w.record (.toUi (.updatedTx item))
    -- an instant swap waits for this transaction, or none does
    have hreport : (reportSwapSucceed item : Worker ε Unit) w₁ = .ok () (w₁.swapSeen item) := by
      have hctx : w₁.data.ctx = some c := hc
      have hslot : w₁.data.ctx.bind Context.succeedSwap = c.succeedSwap := by rw [hctx]; rfl
      show (Proc.expect w₁.data.ctx >>= _ : Worker ε Unit) w₁ = _
      rw [World.swapSeen, hslot, hctx]
      show (if c.succeedSwap = some item.id then _ else _ : Worker ε Unit) w₁ = _
      split <;> rfl
    -- an order was completed with it, and the success is queued unless it was before
    have hqueue : ∀ w₂ : World, (queueSubmitSucceed item : Worker ε Unit) w₂
        = .ok () (w₂.orderSeen item) := by
      intro w₂
      rw [queueSubmitSucceed, getData_bind_apply, World.orderSeen]
      cases w₂.data.submitData.values.find? fun submit => submit.txid = some item.id with
      | none => rfl
      | some submit =>
        by_cases hshown : submit.orderId ∈ w₂.data.shownSucceed
        · simp only [if_pos hshown]
          rfl
        · simp only [if_neg hshown]
          rfl
    exact (Proc.bind_ok hreport).trans (hqueue _)

/-- What is queued when an item is seen: an order that waits for it, or nothing if all that have it
were reported. -/
theorem World.orderSeen_cases (w : World) (item : TransItem) :
    (w.orderSeen item).log = w.log ∧ (w.orderSeen item).data.ctx = w.data.ctx
      ∧ (w.orderSeen item).data.submitData = w.data.submitData
      ∧ ((∃ (X : OrderId) (s : SubmitData), w.data.submitData[X]? = some s ∧ s.txid = some item.id
          ∧ s.orderId ∉ w.data.shownSucceed
          ∧ (w.orderSeen item).data.shownSucceed = insert s.orderId w.data.shownSucceed
          ∧ (w.orderSeen item).data.pendingSucceed = w.data.pendingSucceed ++ [item])
        ∨ (∀ (X : OrderId) (s : SubmitData), w.data.submitData[X]? = some s → s.txid = some item.id →
            ∃ (Y : OrderId) (s' : SubmitData), w.data.submitData[Y]? = some s' ∧ s'.txid = some item.id
              ∧ s'.orderId ∈ w.data.shownSucceed)
          ∧ w.orderSeen item = w) := by
  unfold World.orderSeen
  cases hfound : w.data.submitData.values.find? fun submit => submit.txid = some item.id with
  -- no stored order has this transaction
  | none =>
    refine ⟨rfl, rfl, rfl, .inr ⟨fun X s hs htxid => ?_, rfl⟩⟩
    have hnot := List.find?_eq_none.mp hfound s (Map.mem_values.mpr ⟨X, hs⟩)
    simp [htxid] at hnot
  -- the order that the search finds need not be the only one
  | some submit =>
    have hmem := List.mem_of_find?_eq_some hfound
    have htxid : submit.txid = some item.id := by simpa using List.find?_some hfound
    obtain ⟨X, hX⟩ := Map.mem_values.mp hmem
    -- its success has been queued before
    by_cases hshown : submit.orderId ∈ w.data.shownSucceed
    · simp only [if_pos hshown]
      exact ⟨trivial, trivial, trivial, .inr ⟨fun _ _ _ _ => ⟨X, submit, hX, htxid, hshown⟩, trivial⟩⟩
    · -- it is queued now
      simp only [if_neg hshown]
      exact ⟨rfl, rfl, rfl, .inl ⟨X, submit, hX, htxid, hshown, rfl, rfl⟩⟩

/-- The report of an instant swap. -/
theorem World.swapSeen_cases (w : World) (item : TransItem) :
    (w.swapSeen item).data.submitData = w.data.submitData
      ∧ (w.swapSeen item).data.shownSucceed = w.data.shownSucceed
      ∧ (w.swapSeen item).data.pendingSucceed = w.data.pendingSucceed
      ∧ (w.swapSeen item).data.ctx.map Context.sentTxs = w.data.ctx.map Context.sentTxs
      ∧ (w.swapSeen item).data.ctx.bind Context.succeedSwap
        = (if w.data.ctx.bind Context.succeedSwap = some item.id then none
          else w.data.ctx.bind Context.succeedSwap)
      ∧ (w.swapSeen item).log = (if w.data.ctx.bind Context.succeedSwap = some item.id then
          [.toUi (.swapSucceed item)] else []) ++ w.log := by
  unfold World.swapSeen
  split
  · refine ⟨rfl, rfl, rfl, ?_, ?_, rfl⟩
    · show (w.data.ctx.map fun c => { c with succeedSwap := none }).map Context.sentTxs = _
      rw [Option.map_map]
      rfl
    · show (w.data.ctx.map fun c => { c with succeedSwap := none }).bind Context.succeedSwap = _
      rw [Option.bind_map]
      cases w.data.ctx <;> rfl
  · exact ⟨rfl, rfl, rfl, rfl, rfl, rfl⟩

/-- The events of an item. -/
theorem World.itemSeen_log (w : World) (item : TransItem) :
    ∃ events, (w.itemSeen item).log = events ++ w.log ∧ (∀ e ∈ events, e.comparing = true)
      ∧ (∀ txid, events.countP (Event.reportsOrder txid) = 0)
      ∧ ∀ txid, events.countP (Event.reportsSwap txid)
        = if w.data.ctx.bind Context.succeedSwap = some item.id ∧ item.isPeg = false
            ∧ txid = item.id then 1 else 0 := by
  obtain ⟨hlog, -⟩ := (((w.record (.toUi (.updatedTx item))).swapSeen item).orderSeen_cases item)
  obtain ⟨-, -, -, -, -, hlog'⟩ := (w.record (.toUi (.updatedTx item))).swapSeen_cases item
  refine ⟨(if w.data.ctx.bind Context.succeedSwap = some item.id then [.toUi (.swapSucceed item)]
    else []) ++ [.toUi (.updatedTx item)], ?_, ?_, ?_, ?_⟩
  · rw [World.itemSeen, hlog, hlog', List.append_assoc]
    rfl
  · split <;> simp [Event.comparing]
  · intro txid
    split <;> simp [Event.reportsOrder]
  · intro txid
    split
    · next hslot =>
      by_cases hpeg : item.isPeg = false <;> by_cases hid : txid = item.id <;>
        simp [Event.reportsSwap, hslot, hpeg, hid, eq_comm]
    · next hslot => simp [Event.reportsSwap, hslot]

/-- The view of a state in a comparison, in which the deals of some items are listed already. -/
def World.viewWith (w : World) (l : List Completion) : DealView := { w.dealView with unlisted := l }

section Item

variable {w : World} (item : TransItem) {l : List Completion}

theorem World.itemSeen_deals :
    deals (thisLife (w.itemSeen item).log) = deals (thisLife w.log) := by
  obtain ⟨events, hlog, hcomparing, -, -⟩ := w.itemSeen_log item
  rw [hlog, thisLife_append hcomparing, deals_append hcomparing]

/-- An instant swap that waits for the item is reported. -/
theorem World.itemSeen_swapInv (hw : DealsInv (w.viewWith l)) :
    SwapInv ((w.itemSeen item).viewWith (unlistedBut l item.id)) := by
  obtain ⟨events, hlog, hcomparing, -, hswaps⟩ := w.itemSeen_log item
  let w₂ := (w.record (.toUi (.updatedTx item))).swapSeen item
  obtain ⟨-, -, -, -, hslot, -⟩ := (w.record (.toUi (.updatedTx item))).swapSeen_cases item
  obtain ⟨-, hctx, -, -⟩ := w₂.orderSeen_cases item
  refine hw.swap.listed hw.known rfl (itemSeen_deals item) ?_ fun t => ?_
  · show (w₂.orderSeen item).data.ctx.bind Context.succeedSwap = _
    rw [hctx]
    exact hslot
  · -- the transaction of an instant swap is not the item of a peg
    have hpeg : (w.viewWith l).slot = some item.id → item.isPeg = false := by
      intro hwaits
      obtain ⟨X, hX⟩ := (hw.swap.slot item.id).mp hwaits
      exact hw.swap.plain X item.id (hw.known _ hX)
    have hiff : (w.data.ctx.bind Context.succeedSwap = some item.id ∧ item.isPeg = false
        ∧ t = item.id) ↔ ((w.viewWith l).slot = some item.id ∧ t = item.id) :=
      ⟨fun h => ⟨h.1, h.2.2⟩, fun h => ⟨h.1, hpeg h.1, h.2⟩⟩
    show (thisLife (w.itemSeen item).log).countP (Event.reportsSwap t) = _
    rw [hlog, thisLife_append hcomparing, List.countP_append, hswaps, Nat.add_comm,
      if_congr hiff rfl rfl]
    rfl

/-- An order that waits for the item is put into the queue. -/
theorem World.itemSeen_orderInv (hw : DealsInv (w.viewWith l)) :
    OrderInv ((w.itemSeen item).viewWith (unlistedBut l item.id)) := by
  let w₂ := (w.record (.toUi (.updatedTx item))).swapSeen item
  obtain ⟨hsubmit, hshown, hqueue, -, -, -⟩ :=
    (w.record (.toUi (.updatedTx item))).swapSeen_cases item
  have hsubmit : w₂.data.submitData = w.data.submitData := hsubmit
  have hshown : w₂.data.shownSucceed = w.data.shownSucceed := hshown
  have hqueue : w₂.data.pendingSucceed = w.data.pendingSucceed := hqueue
  obtain ⟨-, -, hsubmit', hfound⟩ := w₂.orderSeen_cases item
  rw [hsubmit, hshown, hqueue] at hfound
  have hterms : ((w.itemSeen item).viewWith (unlistedBut l item.id)).terms = (w.viewWith l).terms := by
    show (fun X => (w₂.orderSeen item).data.submitData[X]?.map SubmitData.deal) = _
    rw [hsubmit', hsubmit]
    rfl
  have hcount : ∀ t, (thisLife (w.itemSeen item).log).countP (Event.reportsOrder t)
      = (thisLife w.log).countP (Event.reportsOrder t) := by
    intro t
    obtain ⟨events, hlog, hcomparing, horders, -⟩ := w.itemSeen_log item
    rw [hlog, thisLife_append hcomparing, List.countP_append, horders, Nat.zero_add]
  have hdeal : ∀ {X : OrderId} {s : SubmitData}, w.data.submitData[X]? = some s →
      s.txid = some item.id → (w.viewWith l).terms X = some (s.orderId, some item.id) := by
    intro X s hs htxid
    show w.data.submitData[X]?.map SubmitData.deal = _
    rw [hs, Option.map_some, SubmitData.deal, htxid]
  -- either an order waits for this item, or all of its orders were reported
  rcases hfound with ⟨X, s, hs, htxid, hnew, hshown', hqueue'⟩ | ⟨hall, hnone⟩
  · have hX := hdeal hs htxid
    obtain rfl : s.orderId = X := hw.order.keyed X _ _ hX
    refine hw.order.listed (X := s.orderId) rfl (itemSeen_deals item) hterms hX hnew hshown' fun t => ?_
    show (thisLife (w.itemSeen item).log).countP (Event.reportsOrder t)
      + (w₂.orderSeen item).data.pendingSucceed.countP _ = _
    rw [hcount, hqueue', List.countP_append, ← Nat.add_assoc]
    show _ = _ + _ + _
    congr 1
    by_cases ht : t = item.id <;> simp [ht, eq_comm]
  · have hreported : ∀ X, (w.viewWith l).terms X = some (X, some item.id) →
        X ∈ (w.viewWith l).shown := by
      intro X hX
      obtain ⟨s, hs, heq⟩ := Option.map_eq_some_iff.mp hX
      obtain ⟨Y, s', hs', htxid', hmem⟩ := hall X s hs (Prod.mk.inj heq).2
      have hY := hdeal hs' htxid'
      -- two orders with one transaction are one order
      have hXY : X = Y :=
        (hw.order.fits X Y _ _ (hw.order.done X X _ hX) (hw.order.done Y _ _ hY)).mpr rfl
      rw [hXY, ← hw.order.keyed Y _ _ hY]
      exact hmem
    have hwaits : ∀ X t, .order X t ∈ unlistedBut l item.id ↔ .order X t ∈ l := by
      intro X t
      rw [mem_unlistedBut]
      refine ⟨fun h => h.1, fun h => ⟨h, ?_⟩⟩
      rintro rfl
      exact hw.order.listed_before hw.known hreported h
    refine hw.order.congr (fun X t => ?_) hwaits hterms ?_ (funext fun t => ?_)
    · show _ ∈ deals (thisLife (w.itemSeen item).log) ↔ _
      rw [itemSeen_deals item]
      rfl
    · show (w₂.orderSeen item).data.shownSucceed = _
      rw [hnone]
      exact hshown
    · show (thisLife (w.itemSeen item).log).countP (Event.reportsOrder t)
        + (w₂.orderSeen item).data.pendingSucceed.countP _ = _
      rw [hcount, hnone, hqueue]
      rfl

/-- The deals that wait for an item are reported when it is seen. -/
theorem World.itemSeen_dealsInv (hw : DealsInv (w.viewWith l)) :
    DealsInv ((w.itemSeen item).viewWith (unlistedBut l item.id)) := by
  refine ⟨fun d hd => ?_, itemSeen_swapInv item hw, itemSeen_orderInv item hw⟩
  show d ∈ deals (thisLife (w.itemSeen item).log)
  rw [itemSeen_deals item]
  exact hw.known d (mem_unlistedBut.mp hd).1

end Item

/-- The order of the deals that wait does not matter. -/
theorem DealsInv.viewWith {w : World} {l l' : List Completion} (hw : DealsInv (w.viewWith l))
    (hsame : ∀ d, d ∈ l' ↔ d ∈ l) : DealsInv (w.viewWith l') :=
  ⟨fun d hd => hw.known d ((hsame d).mp hd),
    hw.swap.congr (fun _ _ => Iff.rfl) (fun _ _ => hsame _) rfl rfl,
    hw.order.congr (fun _ _ => Iff.rfl) (fun _ _ => hsame _) rfl rfl rfl⟩

/-- The deals that wait for none of the items. -/
def unlistedAfter (l : List Completion) (items : List TransItem) : List Completion :=
  items.foldl (fun l item => unlistedBut l item.id) l

theorem mem_unlistedAfter {d : Completion} (items : List TransItem) (l : List Completion) :
    d ∈ unlistedAfter l items ↔ d ∈ l ∧ ∀ item ∈ items, d.txid ≠ item.id := by
  induction items generalizing l with
  | nil => simp [unlistedAfter]
  | cons item items ih =>
    show d ∈ unlistedAfter (unlistedBut l item.id) items ↔ _
    rw [ih, mem_unlistedBut, List.forall_mem_cons, and_assoc]

theorem World.itemSeen_sentTxs (w : World) (item : TransItem) :
    (w.itemSeen item).data.ctx.map Context.sentTxs = w.data.ctx.map Context.sentTxs := by
  let w₂ := (w.record (.toUi (.updatedTx item))).swapSeen item
  obtain ⟨-, -, -, hsent, -, -⟩ := (w.record (.toUi (.updatedTx item))).swapSeen_cases item
  obtain ⟨-, hctx, -, -⟩ := w₂.orderSeen_cases item
  rw [World.itemSeen, hctx]
  exact hsent

/-- The items of a comparison are seen one after the other. -/
theorem syncTxItems_deals (items : List TransItem) {w : World} {old : Map String TransItem}
    (hsent : w.data.ctx.map Context.sentTxs = some old) :
    ∃ w', (Proc.each items syncTxItem : Worker ε Unit) w = .ok () w'
      ∧ (∃ events, w'.log = events ++ w.log ∧ ∀ e ∈ events, e.comparing = true)
      ∧ ∀ l, DealsInv (w.viewWith l) →
        (∀ d ∈ l, ∀ item ∈ items, d.txid = item.id → old[item.id]? ≠ some item) →
        DealsInv (w'.viewWith (unlistedAfter l items)) := by
  induction items generalizing w with
  | nil => exact ⟨w, rfl, ⟨[], rfl, by simp⟩, fun l hl _ => hl⟩
  | cons item items ih =>
    have happly := syncTxItem_apply (ε := ε) item hsent
    by_cases hold : old[item.id]? = some item
    · rw [if_pos hold] at happly
      obtain ⟨w', hrun, hlog, hinv⟩ := ih hsent
      refine ⟨w', (Proc.bind_ok happly).trans hrun, hlog, fun l hl hchanged => ?_⟩
      -- no deal waits for an item that has not changed
      have hsame : ∀ d, d ∈ unlistedBut l item.id ↔ d ∈ l := by
        intro d
        rw [mem_unlistedBut]
        exact ⟨fun hd => hd.1, fun hd => ⟨hd, fun heq => hchanged d hd item List.mem_cons_self heq hold⟩⟩
      refine hinv (unlistedBut l item.id) (hl.viewWith hsame) fun d hd item' hitem' => ?_
      exact hchanged d ((hsame d).mp hd) item' (List.mem_cons_of_mem _ hitem')
    · rw [if_neg hold] at happly
      obtain ⟨w', hrun, hrest, hinv⟩ := ih ((w.itemSeen_sentTxs item).trans hsent)
      obtain ⟨events, hlog, hevents, -, -⟩ := w.itemSeen_log item
      refine ⟨w', (Proc.bind_ok happly).trans hrun, grown_trans ⟨events, hlog, hevents⟩ hrest,
        fun l hl hchanged => ?_⟩
      refine hinv _ (World.itemSeen_dealsInv item hl) fun d hd item' hitem' => ?_
      exact hchanged d (mem_unlistedBut.mp hd).1 item' (List.mem_cons_of_mem _ hitem')

theorem allows_dealFrame {k : Effect} (hcoarse : k.coarse = false) (hk : k.onDeals = false) :
    Allows DealFrame k :=
  ⟨fun hs => .single (hs.dealFrame hcoarse hk)⟩

instance : Allows DealFrame .talk := allows_dealFrame rfl rfl
instance : Allows DealFrame .success := allows_dealFrame rfl rfl
instance : Allows DealFrame .prompts := allows_dealFrame rfl rfl
instance : Allows DealFrame .decisions := allows_dealFrame rfl rfl

theorem World.txsSent_dealView (w : World) (list : Map String TransItem) :
    (w.txsSent list).dealView
      = w.viewWith ((unlisted (thisLife w.log)).filter fun d => !list.contains d.txid) := by
  have hslot : (w.txsSent list).data.ctx.bind Context.succeedSwap
      = w.data.ctx.bind Context.succeedSwap := by
    show (w.data.ctx.map fun c => { c with sentTxs := list }).bind Context.succeedSwap = _
    rw [Option.bind_map]
    rfl
  rw [World.dealView, hslot]
  rfl

/-- The invariant, as far as the conditions on the history are met. -/
def Dealing (w : World) : Prop := Always DealKept w.log → DealsInv w.dealView

theorem Dealing.frame {w w' : World} (hw : Dealing w) (hframe : DealFrame w w') : Dealing w' := by
  intro hkept
  obtain ⟨events, hlog, -⟩ := hframe.log
  rw [hlog] at hkept
  exact hframe.dealsInv (hw hkept.of_append)

/-- A comparison whose list has new items for the deals that wait for them. -/
theorem Dealing.compared {w w₁ : World} {c : Context} {list : Map String TransItem} (hw : Dealing w)
    (hmirror : Mirroring w) (hctx : w.data.ctx = some c)
    (hkeyed : ∀ (id : String) (item : TransItem), list[id]? = some item → item.id = id)
    (htold : Told (txDiff c.sentTxs list) w w₁)
    (hrun : (do
        Proc.each (c.sentTxs.keys.filter fun id => !list.contains id) fun id => toUi (.removedTx id)
        Proc.each list.values syncTxItem : Worker String Unit) { w with calls := w.calls + 1 }
          = .ok () w₁) : Dealing (w₁.txsSent list) := by
  -- first the items that are gone, then those of the list
  let w₀ : World := { w with calls := w.calls + 1 }
  obtain ⟨w', hhide, hhidden⟩ := hideTxs_told (ε := String)
    (c.sentTxs.keys.filter fun id => !list.contains id) w₀
  have hframe : DealFrame w w' := by
    have hrefines : Refines DealFrame (Proc.each (c.sentTxs.keys.filter fun id => !list.contains id)
        fun id => toUi (.removedTx id) : Worker String Unit) :=
      .each fun id _ => .of_chain fun v => .single (.of_record (w := v) rfl rfl rfl)
    have hchain := hrefines.chain w₀
    rw [hhide] at hchain
    have hcalled : DealFrame w w₀ := .of_data rfl rfl rfl rfl ⟨[], rfl, by simp⟩
    exact hcalled.trans (.of_chain hchain)
  have hsent : w'.data.ctx.map Context.sentTxs = some c.sentTxs := by
    have hwallet := hhidden.wallet
    rw [show w₀.data.ctx = some c from hctx] at hwallet
    obtain ⟨c', hc', heq⟩ := Option.map_eq_some_iff.mp hwallet
    rw [hc', Option.map_some, (Prod.mk.inj heq).1]
  obtain ⟨v, hitems, ⟨events, hlog, hevents⟩, hinv⟩ :=
    syncTxItems_deals (ε := String) list.values hsent
  obtain rfl : v = w₁ := by
    have heq := (Proc.bind_ok hhide).symm.trans hrun
    rw [hitems] at heq
    cases heq
    rfl
  obtain ⟨events', hlog', hfree'⟩ := hframe.log
  intro hkept
  obtain ⟨hsynced, hkept⟩ : DealKept (.synced list) v.log ∧ Always DealKept v.log := always_cons.mp hkept
  have hunlisted : unlisted (thisLife v.log) = unlisted (thisLife w'.log) := by
    rw [hlog, thisLife_append hevents, unlisted_append hevents]
  rw [World.txsSent_dealView, hunlisted]
  have hbefore : DealsInv (w'.viewWith (unlisted (thisLife w'.log))) := by
    rw [hlog, hlog'] at hkept
    exact hframe.dealsInv (hw hkept.of_append.of_append)
  -- the items that the worker compares with are those of the last comparison
  have hold : lastSynced v.log = c.sentTxs := by
    obtain ⟨told, hlog, hevents, -⟩ := htold.log
    rw [hlog, lastSynced_append, (hmirror.2.shows c hctx).synced]
    intro e he older
    rcases hevents e he with haside | hshow
    · exact (Event.aside_spec haside older).2.2
    · exact (Event.showsTx_spec hshow older).2
  have hitem : ∀ item ∈ list.values, list[item.id]? = some item := by
    intro item hitem
    obtain ⟨id, hid⟩ := Map.mem_values.mp hitem
    rw [hkeyed id item hid]
    exact hid
  refine (hinv _ hbefore fun d hd item hmem htxid => ?_).viewWith fun d => ?_
  · have hd' := List.all_eq_true.mp hsynced d (hunlisted ▸ hd)
    have hlisted : list.contains d.txid = true := by
      rw [htxid, Std.ExtTreeMap.contains_eq_isSome_getElem?, hitem item hmem]
      rfl
    rw [hlisted, hold, htxid, hitem item hmem, Bool.not_true, Bool.false_or,
      decide_eq_true_eq] at hd'
    exact hd'.symm
  · rw [mem_unlistedAfter, List.mem_filter, Bool.not_eq_true']
    refine and_congr_right fun _ => ⟨fun hnot item hmem heq => ?_, fun hnone => ?_⟩
    · rw [heq, ← Map.lookup_eq_none_iff, hitem item hmem] at hnot
      cases hnot
    · rw [← Map.lookup_eq_none_iff]
      cases hget : list[d.txid]? with
      | none => rfl
      | some item =>
        exact absurd (hkeyed _ item hget).symm (hnone item (Map.mem_values.mpr ⟨_, hget⟩))

theorem trySyncTxList_dealing (w : World) (hmirror : Mirroring w) (hw : Dealing w) :
    Dealing (trySyncTxList h w).state := by
  have hcalled : DealFrame w { w with calls := w.calls + 1 } :=
    .of_data rfl rfl rfl rfl ⟨[], rfl, by simp⟩
  rcases trySyncTxList_cases (h := h) w with ⟨e, heq⟩ | heq | heq |
    ⟨c, topBlock, list, w₁, hctx, -, hlist, htold, hrun, heq⟩
  · rw [heq]
    exact hw.frame hcalled
  · rw [heq]
    exact hw
  · rw [heq]
    exact hw.frame hcalled
  · have htail : Refines DealFrame (do
        updateAddressRegistrations h
        processPendingSucceed : Worker String Unit) :=
      .bind updateAddressRegistrations_effects fun _ => processPendingSucceed_effects
    rw [heq]
    refine Dealing.frame ?_ (.of_chain (htail.chain (w₁.txsSent list)))
    exact hw.compared hmirror hctx (getTxList_keyed hlist) htold hrun

/-- Balances are no deals. -/
theorem updateBalances_dealFrame : Refines DealFrame (updateBalances h : Worker ε Unit) := by
  refine .bind getData_effects fun d => ?_
  split
  · exact .pure _
  · refine .bind (call_effects _) fun result => ?_
    split
    · exact .pure _
    · refine .bind (.each fun p _ => .bind expectCtx_effects fun ctx => ?_) fun _ =>
        .of_chain fun v => .single (.of_record (w := v) rfl rfl rfl)
      split
      · exact .pure _
      · refine .bind (.of_chain fun v => .single (.of_record (w := v) rfl rfl rfl)) fun _ => ?_
        exact .of_chain fun v => .single
          (.of_modifyCtx (w := v) rfl (fun _ => rfl) ⟨[], rfl, by simp⟩)

/-! ### Completions -/

/-- The view after a deal. -/
theorem World.completed_dealView {w w' : World} {d : Completion}
    (hlog : w'.log = .completed d :: w.log)
    (hshown : w'.data.shownSucceed = w.data.shownSucceed)
    (hqueue : w'.data.pendingSucceed = w.data.pendingSucceed) :
    w'.dealView = { w.dealView with
      deals := d :: w.dealView.deals
      unlisted := if d ∈ w.dealView.deals then w.dealView.unlisted else d :: w.dealView.unlisted
      slot := w'.data.ctx.bind Context.succeedSwap
      terms := fun X => w'.data.submitData[X]?.map SubmitData.deal } := by
  have hlife : thisLife w'.log = .completed d :: thisLife w.log := by rw [hlog]; rfl
  have hswaps : ∀ txid, (Event.completed d :: thisLife w.log).countP (Event.reportsSwap txid)
      = (thisLife w.log).countP (Event.reportsSwap txid) :=
    fun txid => List.countP_cons_of_neg (by simp [Event.reportsSwap])
  have horders : ∀ txid, (Event.completed d :: thisLife w.log).countP (Event.reportsOrder txid)
      = (thisLife w.log).countP (Event.reportsOrder txid) :=
    fun txid => List.countP_cons_of_neg (by simp [Event.reportsOrder])
  unfold World.dealView
  simp only [hlife, hshown, hqueue, hswaps, horders]
  rfl

/-- The server has said that the active swap is done. -/
theorem Dealing.swapDone {w w' : World} {X : OrderId} {txid : String} (hw : Dealing w)
    (hlog : w'.log = .completed (.swap X txid) :: w.log)
    (hterms : w'.data.submitData = w.data.submitData)
    (hshown : w'.data.shownSucceed = w.data.shownSucceed)
    (hqueue : w'.data.pendingSucceed = w.data.pendingSucceed)
    (hslot : w'.data.ctx.bind Context.succeedSwap = some txid) : Dealing w' := by
  intro hkept
  rw [hlog] at hkept
  obtain ⟨hevent, hkept⟩ := always_cons.mp hkept
  simp only [DealKept, keepsDeals, Bool.and_eq_true, Bool.not_eq_true'] at hevent
  obtain ⟨⟨hfree, hplain⟩, hnew⟩ := hevent
  have hfresh : ∀ Y, .swap Y txid ∉ w.dealView.deals := by
    intro Y hY
    have hother := List.all_eq_true.mp hnew _ hY
    simp [Completion.isSwap, Completion.txid] at hother
  rw [World.completed_dealView hlog hshown hqueue, if_neg (hfresh X), hslot, hterms]
  exact (hw hkept).swapped hfree hplain hfresh

/-- The server has said that an order is done. -/
theorem Dealing.completed {w : World} {s : SubmitData} {X : OrderId} {txid : String} (hw : Dealing w)
    (hfound : w.data.submitData[X]? = some s) : Dealing (w.orderCompleted X s txid) := by
  intro hkept
  obtain ⟨hevent, hkept⟩ : DealKept (.completed (.order X txid)) w.log ∧ Always DealKept w.log :=
    always_cons.mp hkept
  have hinv := hw hkept
  have hfits : ∀ Y t, .order Y t ∈ w.dealView.deals → (Y = X ↔ t = txid) := by
    intro Y t hY
    have hdeal := List.all_eq_true.mp hevent _ hY
    simpa [Completion.fits] using hdeal
  have hkey : s.orderId = X := by
    refine hinv.order.keyed X s.orderId s.txid ?_
    show w.data.submitData[X]?.map SubmitData.deal = _
    rw [hfound]
    rfl
  have hterms : ∀ Y, (w.orderCompleted X s txid).data.submitData[Y]?.map SubmitData.deal
      = if X = Y then some (X, some txid) else w.dealView.terms Y := by
    intro Y
    show (w.data.submitData.insert X { s with txid := some txid })[Y]?.map SubmitData.deal = _
    rw [Map.lookup_insert]
    split
    · rw [← hkey]
      rfl
    · rfl
  have hview : (w.orderCompleted X s txid).dealView = _ :=
    World.completed_dealView (w := w) rfl rfl rfl
  rw [hview]
  -- the server may tell the same deal twice
  by_cases hold : .order X txid ∈ w.dealView.deals
  · rw [if_pos hold]
    exact hinv.repeated hold hterms
  · rw [if_neg hold]
    exact hinv.completed hold hfits hterms

/-- The terms of an order are stored after the user's decision. -/
theorem Dealing.stored {w : World} {s : SubmitData} (hw : Dealing w) (hnew : s.txid = none) :
    Dealing (w.termsStored s) := by
  intro hkept
  obtain ⟨hevent, hkept⟩ : DealKept (.stored s) w.log ∧ Always DealKept w.log := always_cons.mp hkept
  have hview : (w.termsStored s).dealView = { w.dealView with
      terms := fun X => (w.termsStored s).data.submitData[X]?.map SubmitData.deal } := rfl
  have hterms : ∀ X, (w.termsStored s).data.submitData[X]?.map SubmitData.deal
      = if s.orderId = X then some (s.orderId, none) else w.dealView.terms X := by
    intro X
    show (w.data.submitData.insert s.orderId s)[X]?.map SubmitData.deal = _
    rw [Map.lookup_insert]
    split
    · rw [Option.map_some, SubmitData.deal, hnew]
    · rfl
  rw [hview]
  refine (hw hkept).retermed fun X => ?_
  rw [hterms]
  split
  · next heq =>
    subst heq
    refine .inr ⟨fun txid hX => ?_, .inr rfl⟩
    have hother := List.all_eq_true.mp hevent _ hX
    simp [Completion.isOf] at hother
  · exact .inl rfl

/-! ### Messages -/

/-- The reports are exact, and so is the comparison that they depend on. -/
def DealsMirrored (w : World) : Prop := Mirroring w ∧ Dealing w

/-- The effects with a lemma of their own: they are part of a comparison or come after an event that
says what they do. -/
def Effect.apart : Effect → Bool
  | .mirror | .succeed | .cancel | .login | .logout => true
  | _ => false

theorem Change.dealing {k : Effect} {w w' : World} (hs : Change k w w') (hcoarse : k.coarse = false)
    (hk : k.apart = false) (hw : Dealing w) : Dealing w' := by
  by_cases hdeals : k.onDeals = false
  · exact hw.frame (hs.dealFrame hcoarse hdeals)
  · cases hs
    case said e he => exact hw.frame (.of_record (w := w) rfl rfl (Event.untold_of_effect he))
    case swapDone c a txid hactive hctx =>
      refine hw.swapDone (X := a.orderId) rfl rfl rfl rfl ?_
      show (w.data.ctx.map _).bind Context.succeedSwap = some txid
      rw [hctx]
      rfl
    case terms f hf hkeeps =>
      refine hw.frame (.of_untold ?_ hkeeps ?_ ?_ ⟨[], rfl, by simp⟩) <;> rw [World.modifyData, hf]
    case stored s hnew => exact hw.stored hnew
    case completed s X txid hfound => exact hw.completed hfound
    all_goals first | exact absurd rfl hdeals | cases hk

theorem allows_dealsMirrored {k : Effect} (hk : k.apart = false) :
    Allows (Preserves DealsMirrored) k := by
  have hmirror : k ≠ .mirror := by rintro rfl; cases hk
  have hlogin : k ≠ .login := by rintro rfl; cases hk
  cases hcoarse : k.coarse with
  | false =>
    refine ⟨fun {w w'} hs => .single fun hw => ⟨?_, hs.dealing hcoarse hk hw.2⟩⟩
    exact hw.1.frame (hs.mirrorFrame hcoarse hmirror hlogin)
  | true =>
    constructor
    intro w w' hs
    cases hs with
    | said e he =>
      have hfine : ∀ k ∈ [Effect.talk, .listing, .market, .report, .offline, .connect, .psets, .payment,
          .swap, .terms], k.coarse = false := by decide
      rw [hfine k (Event.effect_mem he)] at hcoarse
      cases hcoarse
    | synced h =>
      exact .single fun hw => ⟨trySyncTxList_mirroring w hw.1, trySyncTxList_dealing w hw.1 hw.2⟩
    | balanced h =>
      refine .single fun hw => ⟨?_, hw.2.frame (.of_chain (updateBalances_dealFrame.chain w))⟩
      exact (updateBalances_spec w hw.1).1.invariant (fun _ _ hstep => hstep) hw.1
    | _ => cases hcoarse

theorem Dealing.received {w : World} (msg : Message) (hw : Dealing w) :
    Dealing (w.record (.received msg)) :=
  hw.frame (.of_record rfl rfl rfl)

/-- The wallet is left while no instant swap waits. -/
theorem Dealing.cleared {w v : World} {msg : Message}
    (hmsg : msg = .ui .logout ∨ ∃ mnemonic phoneKey, msg = .ui (.login mnemonic phoneKey))
    (hw : Dealing w)
    (hlog : ∃ events, v.log = events ++ .received msg :: w.log ∧ ∀ e ∈ events, e.untold = true)
    (hslot : v.data.ctx.bind Context.succeedSwap = none)
    (hterms : v.data.submitData = w.data.submitData)
    (hshown : v.data.shownSucceed = w.data.shownSucceed)
    (hqueue : v.data.pendingSucceed = w.data.pendingSucceed) : Dealing v := by
  obtain ⟨events, hlog, huntold⟩ := hlog
  intro hkept
  rw [hlog] at hkept
  obtain ⟨hevent, hkept⟩ := always_cons.mp hkept.of_append
  have hfree : w.dealView.unlisted.all (fun d => !d.isSwap) = true := by
    rcases hmsg with rfl | ⟨mnemonic, phoneKey, rfl⟩ <;> exact hevent
  -- the same steps in a world whose slot is empty already
  let w₀ : World := w.modifyCtx fun c => { c with succeedSwap := none }
  have hempty : w₀.data.ctx.bind Context.succeedSwap = none := by
    show (w.data.ctx.map _).bind Context.succeedSwap = none
    cases w.data.ctx <;> rfl
  have hview : w₀.dealView = { w.dealView with slot := none } := by
    rw [World.dealView, hempty]
    rfl
  have hframe : DealFrame w₀ v := by
    refine .of_untold (hslot.trans hempty.symm) ?_ hshown hqueue
      ⟨events ++ [.received msg], by rw [hlog, List.append_assoc]; rfl, ?_⟩
    · rw [hterms]
      exact .refl _
    · exact List.forall_mem_append.mpr ⟨huntold, by simp [Event.untold, Event.dealFree]⟩
  refine hframe.dealsInv ?_
  rw [hview]
  exact (hw hkept).cleared hfree

theorem processLogoutRequest_dealing {w w' : World} (hw : Dealing w)
    (hok : (processLogoutRequest h : Worker ε Unit) (w.record (.received (.ui .logout))) = .ok () w') :
    Dealing w' := by
  have hout : Dealing (w.record (.received (.ui .logout))).loggedOut :=
    hw.cleared (.inl rfl) ⟨[], rfl, by simp⟩ rfl rfl rfl rfl
  have := allows_dealFrame (k := .down) rfl rfl
  exact hout.frame (.of_chain (processLogoutRequest_chain hok))

theorem processLoginRequest_dealing (mnemonic : String) (phoneKey : Option PhoneKey) {w w' : World}
    (hw : DealsMirrored w) (hok : (processLoginRequest h mnemonic phoneKey : Worker ε Unit)
      (w.record (.received (.ui (.login mnemonic phoneKey)))) = .ok () w') : Dealing w' := by
  rw [processLoginRequest_apply] at hok
  dsimp only at hok
  split at hok
  · cases hok
  · next walletHashId _ =>
    have := allows_dealsMirrored (k := .talk) rfl
    have := allows_dealsMirrored (k := .assets) rfl
    have := allows_dealsMirrored (k := .wallet) rfl
    have := allows_dealsMirrored (k := .sync) rfl
    have := allows_dealsMirrored (k := .balances) rfl
    have := allows_dealsMirrored (k := .links) rfl
    have := allows_dealsMirrored (k := .terms) rfl
    have := allows_dealsMirrored (k := .prompts) rfl
    have := allows_dealsMirrored (k := .queues) rfl
    have hrest : Refines (Preserves DealsMirrored) (afterLogin h : Worker ε Unit) :=
      afterLogin_effects
    refine (hrest.preserves_ok ⟨?_, ?_⟩ hok).2
    · exact hw.1.login mnemonic phoneKey walletHashId
    · exact hw.2.cleared (.inr ⟨_, _, rfl⟩) ⟨[.toWs true], rfl, by simp [Event.untold, Event.dealFree]⟩
        rfl rfl rfl rfl

/-- An order is cancelled while it does not wait for its transaction. -/
theorem processComplete_dealing (X : OrderId) {w w' : World} (hw : Dealing w)
    (hok : (processComplete ⟨X, none⟩ : Worker ε Unit)
      (w.record (.received (.serverNotification (.complete ⟨X, none⟩)))) = .ok () w') :
    Dealing w' := by
  let w₀ := w.record (.received (.serverNotification (.complete ⟨X, none⟩)))
  have hclose : Refines DealFrame (closeReview X : Worker ε Unit) := closeReview_effects X
  have hchain := hclose.chain w₀
  have hrun : (closeReview X >>= fun _ => modifyData fun d =>
      { d with submitData := d.submitData.erase X } : Worker ε Unit) w₀ = .ok () w' := hok
  rw [Proc.bind_apply] at hrun
  cases hdone : (closeReview X : Worker ε Unit) w₀ with
  | ok u v =>
    rw [hdone] at hrun hchain
    have hframe : DealFrame w₀ v := .of_chain hchain
    obtain ⟨events, hlog, hfree⟩ := hframe.log
    cases hrun
    intro hkept
    have hkept' : Always DealKept w₀.log := by
      have hboth : Always DealKept v.log := hkept
      rw [hlog] at hboth
      exact hboth.of_append
    have hevent := (always_cons.mp hkept').1
    have hcomparing : ∀ e ∈ events, e.comparing = true := fun e he =>
      Event.comparing_of_dealFree (hfree e he)
    -- the prompts and results after the review are no deals
    have hsame : unlisted (thisLife v.log) = unlisted (thisLife w.log) := by
      rw [hlog, thisLife_append hcomparing, unlisted_append hcomparing]
      rfl
    have hv : DealsInv v.dealView := hframe.dealsInv ((hw.received _) hkept')
    have hterms : ∀ Y, (v.data.submitData.erase X)[Y]?.map SubmitData.deal
        = if X = Y then none else v.dealView.terms Y := by
      intro Y
      rw [Map.lookup_erase]
      split <;> rfl
    refine DealsInv.retermed (v := v.dealView) hv fun Y => ?_
    simp only [World.modifyData, hterms]
    split
    · next heq =>
      subst heq
      refine .inr ⟨fun txid hX => ?_, .inl rfl⟩
      have hmem : .order X txid ∈ unlisted (thisLife w.log) := hsame ▸ hX
      have hother := List.all_eq_true.mp hevent _ hmem
      simp [Completion.isOf] at hother
    · exact .inl rfl
  | error e v =>
    rw [hdone] at hrun
    cases hrun
  | abort v =>
    rw [hdone] at hrun
    cases hrun

/-- The messages that are handled step by step. -/
def Message.keepsDeals : Message → Bool
  | .ui (.login ..) | .ui .logout | .serverNotification (.complete _) => false
  | _ => true

theorem Message.keepsDeals_effects {msg : Message} (hmsg : msg.keepsDeals = true) :
    msg.effects.all (fun k => !k.apart) = true := by
  cases msg with
  | ui m => cases m <;> first | rfl | cases hmsg
  | serverNotification n => cases n <;> first | rfl | cases hmsg
  | _ => rfl

theorem handle_dealing (msg : Message) {w w' : World} (hw : DealsMirrored w)
    (hok : (machine h).handle msg w = .ok () w') : Dealing w' := by
  have hhandle : process h msg (w.record (.received msg)) = .ok () w' := hok
  -- most messages leave the deals alone
  by_cases hmsg : msg.keepsDeals = true
  · have hprocess : Refines (Preserves DealsMirrored) (process h msg : Worker Empty Unit) := by
      refine process_effects msg fun k hk => allows_dealsMirrored ?_
      have hapart := List.all_eq_true.mp (Message.keepsDeals_effects hmsg) k hk
      rwa [Bool.not_eq_true'] at hapart
    -- the message itself is not about deals
    have haside : (Event.received msg).aside = true := by
      cases msg with
      | ui m => cases m <;> first | rfl | cases hmsg
      | _ => rfl
    exact (hprocess.preserves_ok ⟨hw.1.record haside, hw.2.received msg⟩ hhandle).2
  · -- a login, a logout and the end of an order are looked at one by one
    cases msg with
    | ui m =>
      cases m with
      | login mnemonic phoneKey => exact processLoginRequest_dealing mnemonic phoneKey hw hhandle
      | logout => exact processLogoutRequest_dealing hw.2 hhandle
      | _ => exact absurd rfl hmsg
    | serverNotification n =>
      cases n with
      | complete m =>
        obtain ⟨X, txid⟩ := m
        cases txid with
        | none => exact processComplete_dealing X hw.2 hhandle
        | some txid =>
          have hcomplete : Guar (Preserves Dealing) (fun _ => True)
              (processComplete ⟨X, some txid⟩ : Worker Empty Unit) fun _ _ => True := by
            -- an order that is not known is not completed
            refine .bind getData_spec fun d => ?_
            dsimp only
            split
            · exact .pure fun _ _ => trivial
            · rename_i s hs
              rintro v ⟨rfl, -⟩
              exact ⟨.single fun hv => hv.completed hs, fun _ _ _ => trivial⟩
          exact Refines.preserves_ok hcomplete (hw.2.received _) hhandle
      | _ => exact absurd rfl hmsg
    | _ => exact absurd rfl hmsg

theorem boot_dealing {w w' : World} (hok : (machine h).boot w = .ok () w') : Dealing w' := by
  have hboot : ignoreError (loadAssets h) (freshStart h w) = .ok () w' := hok
  have := allows_dealFrame (k := .load) rfl rfl
  have := allows_dealFrame (k := .assets) rfl rfl
  have hload : Refines DealFrame (ignoreError (loadAssets h) : Worker Empty Unit) :=
    ignoreError_effects loadAssets_effects
  have hchain := hload.chain (freshStart h w)
  rw [hboot] at hchain
  have hfresh : Dealing (freshStart h w) := by
    intro _
    have hview : (freshStart h w).dealView = _ := rfl
    rw [hview]
    exact DealsInv.empty
  exact hfresh.frame (.of_chain hchain)

/-- In a process in which all events leave the deals alone, every deal whose transaction was listed
by a comparison after it has been reported exactly once. -/
theorem success_reported_once (h : Host) (xs : List (Feed Message))
    (hkept : Always DealKept ((machine h).run (start h) xs).state.log)
    (halive : ((machine h).run (start h) xs).alive = true) :
    SuccessReported ((machine h).run (start h) xs).state := by
  -- `Exact` also holds after a crash, `Current` and `Dealing` only between messages
  let A : World → Prop := fun w => Current w ∧ Dealing w
  have hboot : ∀ w, Exact w → Exact ((machine h).boot w).state ∧
      ∀ u w', (machine h).boot w = .ok u w' → A w' := by
    intro w hw
    have hmirror := boot_mirroring (h := h) hw
    refine ⟨hmirror.1, fun u w' hok => ⟨?_, boot_dealing hok⟩⟩
    have hstate : (boot h w : Outcome Empty World Unit) = .ok u w' := hok
    rw [hstate] at hmirror
    exact hmirror.2
  have hnew : Exact World.new := ⟨.nil, .nil⟩
  have hstart : Exact (start h).state ∧ ((start h).alive = true → A (start h).state) :=
    Machine.life_invariant (hboot _ hnew).1 (hboot _ hnew).2
  have hrun := (Machine.run_life_invariant (I := Exact) (A := A) hstart (Machine.along_true _ _)
    (fun w msg _ hexact hw => by
      have hmirror := handle_mirroring (h := h) msg ⟨hexact, hw.1⟩
      exact ⟨hmirror.1, fun u w' hok =>
        ⟨hmirror.2 u w' hok, handle_dealing msg ⟨⟨hexact, hw.1⟩, hw.2⟩ hok⟩⟩)
    fun w hw => hboot w hw).2 halive
  exact (hrun.2 hkept).successReported

namespace Sample

/-- A wallet whose transaction is listed from the given call on. -/
def listingHost (since : ℕ) : Host :=
  { orderHost with
    getTransactions := fun n => .ok (if n < since then [] else [⟨"txid", "", [], "", 0, 0⟩]) }

/-- The server says that the signed order is done, and then the wallet lists its transactions. -/
def orderDone : List (Feed Message) :=
  orderSigned ++ [.deliver (.serverNotification (.complete ⟨order, some "txid"⟩)),
    .deliver (.notif (some "transaction"))]

end Sample

open Sample in
theorem success_reported_once_order :
    let w := ((machine (listingHost 20)).run (start (listingHost 20)) orderDone).state
    deals (thisLife w.log) = [.order order "txid"] ∧ unlisted (thisLife w.log) = [] ∧
      SuccessReported w := by
  have hkept : Always DealKept
      ((machine (listingHost 20)).run (start (listingHost 20)) orderDone).state.log := by
    decide +kernel
  have halive : ((machine (listingHost 20)).run (start (listingHost 20)) orderDone).alive = true := by
    decide +kernel
  exact ⟨by decide +kernel, by decide +kernel,
    success_reported_once (listingHost 20) orderDone hkept halive⟩

open Sample in
/-- The wallet lists the transaction before the server says that the order is done: its item does
not change, and the success is not reported. -/
theorem success_not_reported :
    ¬ ∀ (h : Host) (xs : List (Feed Message)),
      ((machine h).run (start h) xs).alive = true →
        SuccessReported ((machine h).run (start h) xs).state := by
  intro hall
  have hrun := hall (listingHost 0) orderDone
  revert hrun
  decide +kernel

end SideSwap.Client
