import SideSwap.Dealer.Worker
import SideSwap.Lib.Runs

/-!
# One live order per ticker and side

The dealer and the server side by side.  An order is live from the moment that its address is
accepted until it completes, is cancelled, or the connection is lost; the dealer hears of the first
two by a `Complete` notification, of the last by `Disconnected`, both at some later time.

Every live order is the one in its slot (`Held`) as long as no order is given up while it is live
and no order is created between the loss of a connection and the handling of its `Disconnected`
(`own_orders_held`).  The slot is emptied at once when an edit fails, whether the cancel that
follows succeeds or not: that is how a second live order comes about (`two_live_orders`).
-/

namespace SideSwap.Dealer

/-! ### The dealer and the server -/

/-- The dealer, the orders that are live on the server, and the number of lost connections that the
dealer has not handled yet. -/
structure System where
  worker : Worker
  live : List (OrderId × OwnOrderKey)
  lost : ℕ

/-- A dealer without orders. -/
def System.init : System := { worker := Worker.init, live := [], lost := 0 }

/-- What an answered request changes on the server. -/
def serve (live : List (OrderId × OwnOrderKey)) :
    OwnOrderKey × Exchange → List (OrderId × OwnOrderKey)
  | (key, .addr orderId true) => (orderId, key) :: live
  | (_, .cancel orderId true) => live.filter fun order => order.1 ≠ orderId
  | _ => live

/-- The dealer handles a message, an order completes at the server, or the connection is lost. -/
inductive Event where
  | handle (msg : Msg)
  | completes (orderId : OrderId)
  | lose

/-- A message that the dealer may receive: `Disconnected` for a lost connection, and `Complete` for
an order that is not live any more. -/
def System.mayReceive (s : System) : Msg → Bool
  | .disconnected => s.lost ≠ 0
  | .complete orderId _ => s.live.all fun order => order.1 ≠ orderId
  | _ => true

/-- The lost connections that the dealer has still to handle. -/
def System.lostAfter (s : System) : Msg → ℕ
  | .disconnected => s.lost - 1
  | _ => s.lost

theorem System.lost_of_lostAfter (s : System) {msg : Msg} (h : s.lostAfter msg ≠ 0) :
    s.lost ≠ 0 := by
  cases msg <;> simp only [System.lostAfter] at h <;> omega

/-- A step; `none` is a message that cannot come now, or a panic. -/
def System.step (params : Params) (s : System) : Event → Option System
  | .handle msg =>
    if s.mayReceive msg then
      (handle params s.worker msg).map fun h =>
        { worker := h.worker, live := h.exchanges.foldl serve s.live, lost := s.lostAfter msg }
    else none
  | .completes orderId => some { s with live := s.live.filter fun order => order.1 ≠ orderId }
  | .lose => some { s with live := [], lost := s.lost + 1 }

/-- Every live order is the one in its slot. -/
def HeldBy (own : OwnOrderKey → Option OwnOrder) (live : List (OrderId × OwnOrderKey)) : Prop :=
  ∀ orderId key, (orderId, key) ∈ live → (own key).map OwnOrder.orderId = some orderId

/-- There is at most one live order for each ticker and side, and it is the one in its slot. -/
structure System.OneLive (s : System) : Prop where
  one : ∀ key a b, (a, key) ∈ s.live → (b, key) ∈ s.live → a = b
  held : HeldBy s.worker.ownOrders s.live

/-! ### The condition -/

/-- No live order is given up by a failed edit with a failed cancel, and no order is created while
a `Disconnected` is on its way. -/
def System.Kept (s : System) (exchanges : List (OwnOrderKey × Exchange)) :
    OwnOrderKey × Exchange → Prop
  | (key, .edit orderId _ false) =>
    (key, Exchange.cancel orderId false) ∈ exchanges → (orderId, key) ∉ s.live
  | (_, .addr _ true) => s.lost = 0
  | _ => True

instance (s : System) (exchanges : List (OwnOrderKey × Exchange)) :
    (e : OwnOrderKey × Exchange) → Decidable (s.Kept exchanges e)
  | (_, .edit _ _ false) => inferInstanceAs (Decidable (_ → _))
  | (_, .edit _ _ true) => isTrue trivial
  | (_, .addr _ true) => inferInstanceAs (Decidable (_ = _))
  | (_, .addr _ false) => isTrue trivial
  | (_, .submit _ _ _) => isTrue trivial
  | (_, .cancel _ _) => isTrue trivial

/-- The condition on a step: what the server answers in it. -/
def System.SoundStep (params : Params) (s : System) : Event → Prop
  | .handle msg =>
    ∀ e ∈ ((handle params s.worker msg).map Handled.exchanges).getD [],
      s.Kept (((handle params s.worker msg).map Handled.exchanges).getD []) e
  | .completes _ => True
  | .lose => True

instance (params : Params) (s : System) : (e : Event) → Decidable (s.SoundStep params e)
  | .handle _ => inferInstanceAs (Decidable (∀ e ∈ _, _))
  | .completes _ => isTrue trivial
  | .lose => isTrue trivial

/-! ### One slot -/

section Slot

variable {params : Params} {assets : List Asset} {indexPrices : IndexPrices} {all : AllBalances}
  {utxos : Utxos} {key : OwnOrderKey} {r : Replies} {own : OwnOrderKey → Option OwnOrder}
  {slot : Option OwnOrder} {trace : List Exchange} {live live' : List (OrderId × OwnOrderKey)}

/-- What the exchanges of one slot change on the server. -/
def serveSlot (key : OwnOrderKey) (trace : List Exchange) (live : List (OrderId × OwnOrderKey)) :
    List (OrderId × OwnOrderKey) := (trace.map (Prod.mk key)).foldl serve live

/-- With fewer live orders there is less to hold. -/
theorem HeldBy.subset (h : HeldBy own live) (hsub : ∀ o ∈ live', o ∈ live) : HeldBy own live' :=
  fun orderId key hmem => h orderId key (hsub _ hmem)

/-- A slot that keeps the identifier of its order. -/
theorem HeldBy.update_same (h : HeldBy own live)
    (hsame : slot.map OwnOrder.orderId = (own key).map OwnOrder.orderId) :
    HeldBy (Function.update own key slot) live := by
  intro orderId k hmem
  by_cases hk : k = key
  · rw [hk] at hmem ⊢
    rw [Function.update_self, hsame]
    exact h orderId key hmem
  · rw [Function.update_of_ne hk]
    exact h orderId k hmem

/-- A slot whose live orders are all gone may hold anything. -/
theorem HeldBy.update_free (h : HeldBy own live) (hfree : ∀ orderId, (orderId, key) ∉ live) :
    HeldBy (Function.update own key slot) live := by
  intro orderId k hmem
  by_cases hk : k = key
  · rw [hk] at hmem
    exact absurd hmem (hfree orderId)
  · rw [Function.update_of_ne hk]
    exact h orderId k hmem

/-- A cancellation that succeeds ends the order. -/
theorem mem_serve_cancel {orderId : OrderId} {ok : Bool} {o : OrderId × OwnOrderKey}
    (h : o ∈ serve live (key, .cancel orderId ok)) : o ∈ live ∧ (ok = true → o.1 ≠ orderId) := by
  cases ok with
  | true => simpa [serve] using h
  | false => exact ⟨h, fun h => by cases h⟩

/-- One call of `updatePrice` keeps every live order in its slot, unless it gives up a live one. -/
theorem updatePrice_held (hheld : HeldBy own live)
    (hrun : updatePrice params assets indexPrices all utxos key (own key) r = some (slot, trace))
    (hkept : ∀ orderId price, Exchange.edit orderId price false ∈ trace →
      Exchange.cancel orderId false ∈ trace → (orderId, key) ∉ live) :
    HeldBy (Function.update own key slot) (serveSlot key trace live) := by
  obtain ⟨rfl, rfl⟩ | ⟨o, hown, rfl, rfl⟩ | ⟨o, price, hown, rfl, rfl⟩ | ⟨o, price, hown, rfl, rfl⟩
    | ⟨index, price, amount, hown, -, -, -, -, hsub⟩ := updatePrice_cases hrun
  · -- nothing happens
    exact hheld.update_same rfl
  · -- the order is cancelled and its slot is kept, so that it may be gone or not
    refine HeldBy.update_same (hheld.subset ?_) (by rw [hown])
    exact fun x hx => (mem_serve_cancel hx).1
  · -- the order is edited
    exact hheld.update_same (by rw [hown]; rfl)
  · -- the slot is emptied: its order must be gone from the server
    refine HeldBy.update_free (hheld.subset fun x hx => (mem_serve_cancel hx).1) ?_
    intro orderId hmem
    obtain ⟨hlive, hcancelled⟩ := mem_serve_cancel hmem
    have hid : o.orderId = orderId := by
      have := hheld orderId key hlive
      rwa [hown, Option.map_some, Option.some.injEq] at this
    rw [← hid] at hlive hcancelled
    cases hc : r.cancel with
    | true => exact hcancelled hc rfl
    | false => exact hkept o.orderId price (by simp) (by simp [hc]) hlive
  · -- a new order: the slot was empty, and so no order of the market was alive
    have hfree : ∀ orderId, (orderId, key) ∉ live := by
      intro orderId hmem
      have := hheld orderId key hmem
      rw [hown] at this
      cases this
    obtain ⟨reply, rest, rfl, hrest⟩ := submitOrder_cases hsub
    obtain ⟨rfl, rfl | ⟨orderId, rfl⟩⟩ | ⟨orderId, -, rfl, rfl⟩ := hrest
    · exact hheld.update_free hfree
    · exact hheld.update_free hfree
    · -- the new order is the one in the slot
      intro x k hmem
      rcases List.mem_cons.mp hmem with heq | hmem
      · obtain ⟨rfl, rfl⟩ := Prod.mk.inj heq
        rw [Function.update_self]
        rfl
      · exact hheld.update_free hfree x k hmem

/-- The exchanges of one slot add no order to another. -/
theorem serveSlot_other {orderId : OrderId} {k : OwnOrderKey} (hk : k ≠ key) :
    ∀ {trace : List Exchange} {live : List (OrderId × OwnOrderKey)},
      (orderId, k) ∈ serveSlot key trace live → (orderId, k) ∈ live := by
  intro trace
  induction trace with
  | nil => exact fun h => h
  | cons x trace ih =>
    intro live hmem
    have hmem : (orderId, k) ∈ serve live (key, x) := ih hmem
    cases x with
    | submit => exact hmem
    | edit => exact hmem
    | cancel cancelled ok => exact (mem_serve_cancel hmem).1
    | addr added ok =>
      cases ok with
      | false => exact hmem
      | true =>
        refine (List.mem_cons.mp hmem).resolve_left fun heq => hk ?_
        exact (Prod.mk.inj heq).2

end Slot

/-! ### The loop over the slots -/

section Slots

variable {params : Params}

/-- The exchanges of a tick are about the slots that it updates. -/
theorem updateOwnOrders_mem {w : Worker} {answers : Answers} :
    ∀ (keys : List OwnOrderKey) {own own' : OwnOrderKey → Option OwnOrder}
      {exchanges : List (OwnOrderKey × Exchange)},
      updateOwnOrders params w answers keys own = some (own', exchanges) →
      ∀ e ∈ exchanges, e.1 ∈ keys := by
  intro keys
  induction keys with
  | nil =>
    intro own own' exchanges hrun e he
    cases hrun
    exact absurd he (List.not_mem_nil)
  | cons key keys ih =>
    intro own own' exchanges hrun e he
    simp only [updateOwnOrders, Option.bind_eq_bind, Option.bind_eq_some_iff,
      Option.pure_def] at hrun
    obtain ⟨⟨slot, trace⟩, -, ⟨own'', more⟩, hmore, hrun⟩ := hrun
    cases hrun
    rcases List.mem_append.mp he with he | he
    · obtain ⟨x, -, rfl⟩ := List.mem_map.mp he
      exact List.mem_cons_self
    · exact List.mem_cons_of_mem key (ih hmore e he)

/-- The loop keeps every live order in its slot: what one slot does concerns no other. -/
theorem updateOwnOrders_held {w : Worker} {answers : Answers} :
    ∀ (keys : List OwnOrderKey) {own own' : OwnOrderKey → Option OwnOrder}
      {live : List (OrderId × OwnOrderKey)} {exchanges : List (OwnOrderKey × Exchange)},
      keys.Nodup → HeldBy own live →
      updateOwnOrders params w answers keys own = some (own', exchanges) →
      (∀ key orderId price, (key, Exchange.edit orderId price false) ∈ exchanges →
        (key, Exchange.cancel orderId false) ∈ exchanges → (orderId, key) ∉ live) →
      HeldBy own' (exchanges.foldl serve live) := by
  intro keys
  -- over the markets: each has its own slot
  induction keys with
  | nil =>
    intro own own' live exchanges _ hheld hrun _
    cases hrun
    exact hheld
  | cons key keys ih =>
    intro own own' live exchanges hnodup hheld hrun hkept
    simp only [updateOwnOrders, Option.bind_eq_bind, Option.bind_eq_some_iff,
      Option.pure_def] at hrun
    obtain ⟨⟨slot, trace⟩, hslot, ⟨own'', more⟩, hmore, hrun⟩ := hrun
    cases hrun
    rw [List.foldl_append]
    -- the first market, by the step above
    have hfirst : HeldBy (Function.update own key slot) (serveSlot key trace live) := by
      refine updatePrice_held hheld hslot fun orderId price hedit hcancel => ?_
      apply hkept key orderId price
      · exact List.mem_append_left _ (List.mem_map_of_mem hedit)
      · exact List.mem_append_left _ (List.mem_map_of_mem hcancel)
    -- the exchanges of the others do not touch its orders
    refine ih (List.nodup_cons.mp hnodup).2 hfirst hmore fun k orderId price hedit hcancel => ?_
    have hk : k ≠ key := by
      rintro rfl
      exact (List.nodup_cons.mp hnodup).1 (updateOwnOrders_mem keys hmore _ hedit)
    intro hmem
    exact hkept k orderId price (List.mem_append_right _ hedit) (List.mem_append_right _ hcancel)
      (serveSlot_other hk hmem)

/-- Without a new order, a server without live orders stays so. -/
theorem serve_nil : ∀ {exchanges : List (OwnOrderKey × Exchange)},
    (∀ e ∈ exchanges, ∀ orderId, e.2 ≠ .addr orderId true) → exchanges.foldl serve [] = [] := by
  intro exchanges
  induction exchanges with
  | nil => exact fun _ => rfl
  | cons e exchanges ih =>
    intro hnone
    have hhead : serve [] e = [] := by
      obtain ⟨key, x⟩ := e
      cases x with
      | submit => rfl
      | edit => rfl
      | cancel orderId ok => cases ok <;> rfl
      | addr orderId ok =>
        cases ok with
        | false => rfl
        | true => exact absurd rfl (hnone _ List.mem_cons_self orderId)
    rw [List.foldl_cons, hhead]
    exact ih fun e he => hnone e (List.mem_cons_of_mem _ he)

/-! ### Whole runs -/

/-- Live orders are held, and there are none while a `Disconnected` is on its way. -/
structure System.Invariant (s : System) : Prop where
  held : HeldBy s.worker.ownOrders s.live
  lost : s.lost ≠ 0 → s.live = []

/-- The invariant is what is claimed of a state. -/
theorem System.Invariant.oneLive {s : System} (h : s.Invariant) : s.OneLive where
  held := h.held
  one key a b ha hb := by
    have heq := (h.held a key ha).symm.trans (h.held b key hb)
    exact Option.some.inj heq

/-- Orders may end. -/
theorem HeldBy.filter {own : OwnOrderKey → Option OwnOrder} {live : List (OrderId × OwnOrderKey)}
    (h : HeldBy own live) (p : OrderId × OwnOrderKey → Bool) : HeldBy own (live.filter p) :=
  h.subset fun _ ho => List.mem_of_mem_filter ho

/-- A `Complete` for an order that is not live clears no live one. -/
theorem HeldBy.clearOrder {w : Worker} {live : List (OrderId × OwnOrderKey)} {orderId : OrderId}
    (h : HeldBy w.ownOrders live) (hdead : ∀ o ∈ live, o.1 ≠ orderId) :
    HeldBy (w.clearOrder orderId) live := by
  intro x key hmem
  have hx := h x key hmem
  obtain ⟨own, hown, rfl⟩ := Option.map_eq_some_iff.mp hx
  have hne : own.orderId ≠ orderId := hdead _ hmem
  simp [Worker.clearOrder, hown, hne]

/-- A step keeps the invariant under the condition. -/
theorem System.Invariant.step {s s' : System} {e : Event} (h : s.Invariant)
    (hsound : s.SoundStep params e) (hstep : s.step params e = some s') : s'.Invariant := by
  cases e with
  -- an order is completed on the server
  | completes orderId =>
    cases hstep
    exact ⟨h.held.filter _, fun hlost => by simp [h.lost hlost]⟩
  -- the connection is lost, and the server drops all orders
  | lose =>
    cases hstep
    exact ⟨fun _ _ hmem => absurd hmem List.not_mem_nil, fun _ => rfl⟩
  -- a message is handled; the four cases differ in what happens to the slots
  | handle msg =>
    simp only [System.step] at hstep
    split at hstep
    · next hmay =>
      obtain ⟨handled, hhandle, rfl⟩ := Option.map_eq_some_iff.mp hstep
      have hkeeps : ∀ e ∈ handled.exchanges, s.Kept handled.exchanges e := by
        simpa only [System.SoundStep, hhandle, Option.map_some, Option.getD_some] using hsound
      obtain ⟨hown, hex⟩ | ⟨rfl, hown, hex⟩ | ⟨orderId, txid, rfl, hown, hex⟩
        | ⟨answers, rfl, hupdate⟩ := handle_own hhandle
      · -- the slots stay as they are
        refine ⟨?_, fun hlost => ?_⟩
        · simp only [hown, hex]
          exact h.held
        · simp only [hex]
          exact h.lost (s.lost_of_lostAfter hlost)
      · -- the dealer learns of the end of the connection after the server dropped the orders
        have hnone : s.live = [] := h.lost (of_decide_eq_true hmay)
        refine ⟨?_, fun _ => ?_⟩
        · simp only [hex, hnone]
          exact fun _ _ hmem => absurd hmem List.not_mem_nil
        · simp only [hex, hnone]
          rfl
      · -- the completion of an order empties its slot
        refine ⟨?_, fun hlost => ?_⟩
        · simp only [hown, hex]
          apply h.held.clearOrder
          simpa [System.mayReceive] using hmay
        · simp only [hex]
          exact h.lost hlost
      · -- the timer brings each slot up to date
        refine ⟨?_, fun hlost => ?_⟩
        · apply updateOwnOrders_held params.keys params.keys_nodup h.held hupdate
          intro key orderId price hedit hcancel
          exact hkeeps _ hedit hcancel
        · simp only [h.lost hlost]
          apply serve_nil
          rintro ⟨key, x⟩ he orderId rfl
          exact hlost (hkeeps _ he)
    · cases hstep

end Slots

/-- In every run in which no live order is given up and none is created while a `Disconnected` is on
its way, there is at most one live order for each ticker and side, and it is the one in its slot. -/
theorem own_orders_held (params : Params) (events : List Event) (s : System)
    (sound : Runs.Meets (System.step params) (System.SoundStep params) System.init events)
    (run : Runs.run (System.step params) System.init events = some s) : s.OneLive := by
  have hinit : System.init.Invariant :=
    ⟨fun _ _ hmem => absurd hmem List.not_mem_nil, fun _ => rfl⟩
  have hinv := Runs.run_invariant (fun _ _ _ hs hC hstep => System.Invariant.step hs hC hstep)
    events hinit sound run
  exact hinv.oneLive

/-! ### An order and its successor -/

namespace Sample

/-- The server takes a submission under the given id. -/
def replies (orderId : String) : Replies :=
  { submit := some (⟨orderId⟩, ⟨tether.assetId, 100000000, 2000000000000, 20000, 100000, true⟩)
    addr := true, edit := false, cancel := false }

/-- A wallet with two bitcoins, and an order submitted at the first price. -/
def ordered : List Event :=
  [.handle (.connected assets [] []),
    .handle (.reloadUtxo [⟨"coin", 0, ⟨"bitcoin"⟩, 200000000, 1⟩]),
    .handle (.price .usdt (some ⟨20000, 20000⟩) 0),
    .handle (.timer ⟨fun _ => replies "first", fun _ => false, 0⟩)]

/-- The price moves, the edit and the cancel fail, and the next tick submits another order. -/
def reordered : List Event :=
  ordered ++ [.handle (.price .usdt (some ⟨20100, 20100⟩) 0),
    .handle (.timer ⟨fun _ => replies "first", fun _ => false, 0⟩),
    .handle (.timer ⟨fun _ => replies "second", fun _ => false, 0⟩)]

/-- The system after some events of the sample, where they can be taken. -/
def after (events : List Event) : System :=
  (Runs.run (System.step params) System.init events).getD System.init

end Sample

theorem sample_run {events : List Event}
    (h : (Runs.run (System.step Sample.params) System.init events).isSome) :
    Runs.run (System.step Sample.params) System.init events = some (Sample.after events) := by
  obtain ⟨s, hs⟩ := Option.isSome_iff_exists.mp h
  rw [Sample.after, hs, Option.getD_some]

/-- The order of the first tick is live and in its slot. -/
theorem own_order_held_after_submit :
    (Sample.after Sample.ordered).OneLive ∧ (Sample.after Sample.ordered).live
      = [(⟨"first"⟩, Sample.sellTether)] :=
  ⟨own_orders_held Sample.params Sample.ordered _ (by decide +kernel)
    (sample_run (by decide +kernel)), by decide +kernel⟩

/-- Two orders are live for the same ticker and side: the edit of the first and its cancel failed,
and its slot was given to the second. -/
theorem two_live_orders :
    ¬ ∀ (params : Params) (events : List Event) (s : System), params.Accepted →
      Runs.run (System.step params) System.init events = some s → s.OneLive := by
  intro hall
  have hone := hall Sample.params Sample.reordered _ Sample.params_accepted
    (sample_run (by decide +kernel))
  have hlive : (Sample.after Sample.reordered).live
      = [(⟨"second"⟩, Sample.sellTether), (⟨"first"⟩, Sample.sellTether)] := by decide +kernel
  have heq := hone.one Sample.sellTether ⟨"second"⟩ ⟨"first"⟩ (by simp [hlive]) (by simp [hlive])
  exact absurd heq (by decide)

end SideSwap.Dealer
