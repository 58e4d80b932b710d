import SideSwap.Client.Handlers
import SideSwap.Lib.History
import SideSwap.Lib.Replica

/-!
# The order list

The worker keeps the orders of the market in `ordersLast` and tells the user interface of the
differences to what it has told before, `ordersSent`.  The user interface (`markets_provider.dart`)
keeps a table of its own.

`order_list_mirrored` says that between two messages the three agree.  Prices are floating point
numbers, and orders are compared as the worker compares them (`Order.same`), so that the two zeros
are one price.  The prices come out of JSON documents, which have no `nan`.

The handlers are refined to `ListStep`, the steps of a list that is compared with what was sent.
-/

namespace SideSwap.Client

open Proc History Replica

variable {h : Host} {ε : Type}

/-! ### What the user interface shows -/

/-- What an event changes on the order list of the user interface. -/
def Event.orderUpdate : Event → Option (Update OrderId Order)
  | .started => some .clear
  | .toUi (.orderCreated order) => some (.set order.orderId order)
  | .toUi (.orderRemoved X) => some (.remove X)
  | _ => none

/-- The replay of the messages about orders. -/
def shownOrders (log : List Event) : OrderId → Option Order := replay Event.orderUpdate log

/-- An order of the user interface. -/
structure RequestOrder where
  orderId : OrderId
  assetId : AssetId
  bitcoinAmount : ℤ
  serverFee : ℤ
  assetAmount : ℤ
  price : F64
  createdAt : ℤ
  expiresAt : ℤ
  private_ : Bool
  sendBitcoins : Bool
  autoSign : Bool
  own : Bool
  tokenMarket : Bool
  isNew : Bool
  indexPrice : F64

/-- The user interface sees an order from the other side; a missing index price reads as zero. -/
def RequestOrder.ofOrder (order : Order) : RequestOrder :=
  { orderId := order.orderId, assetId := order.assetId, bitcoinAmount := order.bitcoinAmount
    serverFee := order.serverFee, assetAmount := order.assetAmount, price := order.price
    createdAt := order.createdAt, expiresAt := order.expiresAt, private_ := order.private_
    sendBitcoins := !order.sendBitcoins, autoSign := order.autoSign, own := order.own
    tokenMarket := order.tokenMarket, isNew := order.new
    indexPrice := order.indexPrice.getD (F64.zero false) }

/-- `insertOrder`, `removeOrder` and `clearOrders`. -/
def Event.marketUpdate : Event → Option (Update OrderId RequestOrder)
  | .started => some .clear
  | .toUi (.orderCreated order) => some (.set order.orderId (.ofOrder order))
  | .toUi (.orderRemoved X) => some (.remove X)
  | .toUi .serverDisconnected => some .clear
  | _ => none

/-- The table of the user interface. -/
def marketOrders (log : List Event) : OrderId → Option RequestOrder := replay Event.marketUpdate log

/-! ### Prices -/

/-- The prices of an order are numbers. -/
def Numeric (msg : OrderCreatedNotification) : Prop :=
  msg.details.price ≠ .nan ∧ msg.own.bind Own.indexPrice ≠ some .nan

/-- The orders that a message carries. -/
def Message.orders : Message → List OrderCreatedNotification
  | .serverNotification (.orderCreated msg) => [msg]
  | .subscribe msg => msg.orders
  | _ => []

/-- The orders that the server lists at a login have numeric prices. -/
def Host.Numeric (h : Host) : Prop :=
  ∀ n sessionId resp, h.server n (.login sessionId) = .ok resp →
    ∀ msg ∈ LoginResponse.orders resp, Client.Numeric msg

theorem Order.same_self {order : Order} (hprice : order.price ≠ .nan)
    (hindex : order.indexPrice ≠ some .nan) : order.same order = true := by
  unfold Order.same
  simp only [decide_true, Bool.true_and, F64.eq_self hprice]
  cases hi : order.indexPrice with
  | none => rfl
  | some x =>
    refine F64.eq_self ?_
    rintro rfl
    exact hindex hi

/-! ### Steps of the list -/

/-- A step that has nothing to do with orders. -/
structure OrderFrame (w w' : World) : Prop where
  last : w'.data.ordersLast = w.data.ordersLast
  sent : w'.data.ordersSent = w.data.ordersSent
  log : ∃ events, w'.log = events ++ w.log ∧
    ∀ e ∈ events, e.orderUpdate = none ∧ e.marketUpdate = none

/-- The steps of the list, where `old` are the orders that it had before the current message. -/
inductive ListStep (old : OrderId → Prop) : World → World → Prop where
  | frame {w w' : World} (frame : OrderFrame w w') : ListStep old w w'
  | added {w w' : World} {X : OrderId} {order : Order}
      (last : w'.data.ordersLast = w.data.ordersLast.insert X order) (key : order.orderId = X)
      (sent : w'.data.ordersSent = w.data.ordersSent) (log : w'.log = w.log)
      (numeric : order.same order = true) (new : order.new = true → ¬ old X) :
      ListStep old w w'
  | dropped {w w' : World} (last : ∀ (X : OrderId) (order : Order),
        w'.data.ordersLast[X]? = some order → w.data.ordersLast[X]? = some order)
      (sent : w'.data.ordersSent = w.data.ordersSent) (log : w'.log = w.log) : ListStep old w w'
  | hidden {w : World} {X : OrderId} (gone : w.data.ordersLast[X]? = none)
      (shown : w.data.ordersSent[X]? ≠ none) : ListStep old w (w.orderHidden X)
  | shown {w : World} {order : Order} (listed : w.data.ordersLast[order.orderId]? = some order)
      (changed : w.data.ordersSent[order.orderId]?.any order.same = false) :
      ListStep old w (w.orderShown order.orderId order)
  | offline {w : World} (sent : ∀ X : OrderId, w.data.ordersSent[X]? = none) :
      ListStep old w (w.record (.toUi .serverDisconnected))

/-- The messages about orders belong to the effects `orders` and `offline`. -/
theorem Event.order_effect {e : Event} {k : Effect} (he : e.effect = some k) (hk : k ≠ .offline) :
    e.orderUpdate = none ∧ e.marketUpdate = none := by
  cases e with
  | toUi msg => cases msg <;> simp_all [Event.effect, Event.orderUpdate, Event.marketUpdate]
  | started => cases he
  | _ => exact ⟨rfl, rfl⟩

theorem OrderFrame.of_data {w w' : World} (hlast : w'.data.ordersLast = w.data.ordersLast)
    (hsent : w'.data.ordersSent = w.data.ordersSent) (hlog : w'.log = w.log) : OrderFrame w w' :=
  ⟨hlast, hsent, [], hlog, fun _ he => by cases he⟩

theorem OrderFrame.record {w : World} {e : Event} (ho : e.orderUpdate = none)
    (hm : e.marketUpdate = none) : OrderFrame w (w.record e) := by
  refine ⟨rfl, rfl, [e], rfl, ?_⟩
  intro e' he'
  obtain rfl := List.mem_singleton.mp he'
  exact ⟨ho, hm⟩

theorem OrderFrame.trans {w₁ w₂ w₃ : World} (h₁ : OrderFrame w₁ w₂) (h₂ : OrderFrame w₂ w₃) :
    OrderFrame w₁ w₃ := by
  exact ⟨h₂.last.trans h₁.last, h₂.sent.trans h₁.sent, History.grown_trans h₁.log h₂.log⟩

/-- The other effects leave the list alone. -/
theorem Change.orderFrame {k : Effect} {w w' : World} (hs : Change k w w')
    (hcoarse : k.coarse = false) (horders : k ≠ .orders) (hoffline : k ≠ .offline) :
    OrderFrame w w' := by
  cases hs
  case said e he =>
    obtain ⟨ho, hm⟩ := Event.order_effect he hoffline
    exact .record ho hm
  case saved ok => cases ok <;> exact .of_data rfl rfl rfl
  case info f hf => exact .of_data (by rw [World.modifyData, hf]) (by rw [World.modifyData, hf]) rfl
  case queued f hf => exact .of_data (by rw [World.modifyData, hf]) (by rw [World.modifyData, hf]) rfl
  case terms f hf _ => exact .of_data (by rw [World.modifyData, hf]) (by rw [World.modifyData, hf]) rfl
  case synced | balanced => cases hcoarse
  case listed | orderHidden | orderShown => exact absurd rfl horders
  case offline => exact absurd rfl hoffline
  case registered | txShown | txHidden | txsSent | balanceShown | balancesShown | swapReported
      | succeedShown | linkShown | promptQueued | promptShown | swapDone | stored | completed | down =>
    refine OrderFrame.mk rfl rfl ⟨[_], rfl, ?_⟩
    simp [Event.orderUpdate, Event.marketUpdate]
  all_goals exact .of_data rfl rfl rfl

/-! ### The invariant of the list -/

/-- Orders are listed under their identifiers and have numeric prices. -/
def Keyed (w : World) : Prop :=
  ∀ (X : OrderId) (order : Order), w.data.ordersLast[X]? = some order →
    order.orderId = X ∧ order.same order = true

/-- What was sent is the list. -/
def Sent (w : World) : Prop :=
  ∀ X : OrderId, (w.data.ordersLast[X]? = none → w.data.ordersSent[X]? = none) ∧
    ∀ order : Order, w.data.ordersLast[X]? = some order →
      w.data.ordersSent[X]?.any order.same = true

/-- A message to the user interface is not redundant. -/
def Useful (e : Event) (older : List Event) : Prop :=
  ∀ msg, e = .toUi msg → Changes Event.orderUpdate e older

/-- The order list of the user interface is the one that the worker remembers. -/
structure Listing (w : World) : Prop where
  keyed : Keyed w
  shown : ∀ X, shownOrders w.log X = w.data.ordersSent[X]?
  market : ∀ X, marketOrders w.log X = w.data.ordersSent[X]?.map RequestOrder.ofOrder
  useful : Always Useful w.log

theorem Useful.of_none {e : Event} {older : List Event} (he : e.orderUpdate = none) :
    Useful e older :=
  fun _ _ => changes_of_none he

theorem Keyed.frame {w w' : World} (hframe : OrderFrame w w') (hw : Keyed w) : Keyed w' := by
  intro X order hlisted
  rw [hframe.last] at hlisted
  exact hw X order hlisted

theorem Sent.frame {w w' : World} (hframe : OrderFrame w w') (hw : Sent w) : Sent w' := by
  intro X
  rw [hframe.last, hframe.sent]
  exact hw X

/-- What holds between two messages. -/
def Settled (w : World) : Prop := Keyed w ∧ Sent w

theorem Settled.frame {w w' : World} (hframe : OrderFrame w w') (hw : Settled w) : Settled w' :=
  ⟨hw.1.frame hframe, hw.2.frame hframe⟩

theorem Listing.frame {w w' : World} (hframe : OrderFrame w w') (hw : Listing w) : Listing w' := by
  obtain ⟨events, hlog, hevents⟩ := hframe.log
  refine ⟨hw.keyed.frame hframe, fun X => ?_, fun X => ?_, ?_⟩
  · rw [shownOrders, hlog, replay_append fun e he => (hevents e he).1, hframe.sent]
    exact hw.shown X
  · rw [marketOrders, hlog, replay_append fun e he => (hevents e he).2, hframe.sent]
    exact hw.market X
  · rw [hlog]
    exact hw.useful.append fun e he _ => .of_none (hevents e he).1

theorem Listing.hidden {w : World} {X : OrderId} (gone : w.data.ordersSent[X]? ≠ none)
    (hw : Listing w) : Listing (w.orderHidden X) := by
  refine ⟨hw.keyed, fun Y => ?_, fun Y => ?_, ?_⟩
  · have hreplay : shownOrders (w.orderHidden X).log Y =
        Function.update (shownOrders w.log) X none Y := rfl
    rw [hreplay, World.orderHidden, World.record, World.modifyData, Map.lookup_erase,
      Function.update_apply, hw.shown Y]
    simp only [eq_comm]
  · have hreplay : marketOrders (w.orderHidden X).log Y =
        Function.update (marketOrders w.log) X none Y := rfl
    rw [hreplay, World.orderHidden, World.record, World.modifyData, Map.lookup_erase,
      Function.update_apply, hw.market Y]
    by_cases hY : Y = X
    · rw [if_pos hY, if_pos hY.symm, Option.map_none]
    · rw [if_neg hY, if_neg (Ne.symm hY)]
  · refine .cons (fun _ _ => changes_remove rfl ?_) hw.useful
    rw [← hw.shown X] at gone
    exact gone

theorem Listing.orderShown {w : World} {order : Order} (hnumeric : order.same order = true)
    (hchanged : w.data.ordersSent[order.orderId]?.any order.same = false) (hw : Listing w) :
    Listing (w.orderShown order.orderId order) := by
  refine ⟨hw.keyed, fun Y => ?_, fun Y => ?_, ?_⟩
  · have hreplay : shownOrders (w.orderShown order.orderId order).log Y =
        Function.update (shownOrders w.log) order.orderId (some order) Y := rfl
    rw [hreplay, World.orderShown, World.record, World.modifyData, Map.lookup_insert,
      Function.update_apply, hw.shown Y]
    simp only [eq_comm]
  · have hreplay : marketOrders (w.orderShown order.orderId order).log Y =
        Function.update (marketOrders w.log) order.orderId (some (.ofOrder order)) Y := rfl
    rw [hreplay, World.orderShown, World.record, World.modifyData, Map.lookup_insert,
      Function.update_apply, hw.market Y]
    by_cases hY : Y = order.orderId
    · rw [if_pos hY, if_pos hY.symm, Option.map_some]
    · rw [if_neg hY, if_neg (Ne.symm hY)]
  · refine .cons (fun _ _ => changes_set rfl ?_) hw.useful
    intro hsame
    have hsent : w.data.ordersSent[order.orderId]? = some order := by
      rw [← hw.shown]
      exact hsame
    rw [hsent, Option.any_some, hnumeric] at hchanged
    cases hchanged

/-- An empty table may be cleared. -/
theorem Listing.offline {w : World} (sent : ∀ X : OrderId, w.data.ordersSent[X]? = none)
    (hw : Listing w) : Listing (w.record (.toUi .serverDisconnected)) := by
  refine ⟨hw.keyed, hw.shown, fun X => ?_, .cons (.of_none rfl) hw.useful⟩
  have hclear : marketOrders (w.record (.toUi .serverDisconnected)).log X = none := rfl
  have hsent : (w.record (.toUi .serverDisconnected)).data.ordersSent[X]? = none := sent X
  rw [hclear, hsent, Option.map_none]

theorem ListStep.keyed {old : OrderId → Prop} {w w' : World} (hs : ListStep old w w')
    (hw : Keyed w) : Keyed w' := by
  cases hs with
  | frame hframe => exact hw.frame hframe
  | added last key sent log numeric new =>
    intro Y other hlisted
    rw [last, Map.lookup_insert] at hlisted
    split at hlisted
    · rename_i hY
      cases hlisted
      exact ⟨key.trans hY, numeric⟩
    · exact hw Y other hlisted
  | dropped last sent log => exact fun X order hlisted => hw X order (last X order hlisted)
  | hidden | shown | offline => exact hw

theorem ListStep.listing {old : OrderId → Prop} {w w' : World} (hs : ListStep old w w')
    (hw : Listing w) : Listing w' := by
  have hkeyed := hs.keyed hw.keyed
  cases hs with
  | frame hframe => exact hw.frame hframe
  | added last key sent log numeric new =>
    refine ⟨hkeyed, ?_, ?_, ?_⟩
    · rw [log, sent]
      exact hw.shown
    · rw [log, sent]
      exact hw.market
    · rw [log]
      exact hw.useful
  | dropped last sent log =>
    refine ⟨hkeyed, ?_, ?_, ?_⟩
    · rw [log, sent]
      exact hw.shown
    · rw [log, sent]
      exact hw.market
    · rw [log]
      exact hw.useful
  | hidden gone shown => exact hw.hidden shown
  | shown listed changed => exact hw.orderShown (hw.keyed _ _ listed).2 changed
  | offline sent => exact hw.offline sent

/-! ### New orders -/

/-- What is listed as new and has not been sent is not in the old list, and neither is what has been
sent as new since. -/
structure Fresh (old : OrderId → Prop) (log : List Event) (w : World) : Prop where
  pending : ∀ (X : OrderId) (order : Order), w.data.ordersLast[X]? = some order →
    order.new = true → ¬ old X ∨ w.data.ordersSent[X]?.any order.same = true
  told : ∃ events, w.log = events ++ log ∧
    ∀ order, .toUi (.orderCreated order) ∈ events → order.new = true → ¬ old order.orderId

theorem ListStep.fresh {old : OrderId → Prop} {log : List Event} {w w' : World}
    (hs : ListStep old w w') (hkeyed : Keyed w) (hw : Fresh old log w) : Fresh old log w' := by
  obtain ⟨events, hlog, hevents⟩ := hw.told
  cases hs with
  | frame hframe =>
    obtain ⟨newer, hnewer, hnone⟩ := hframe.log
    refine ⟨?_, newer ++ events, by rw [hnewer, hlog, List.append_assoc], ?_⟩
    · rw [hframe.last, hframe.sent]
      exact hw.pending
    · intro order horder
      rcases List.mem_append.mp horder with horder | horder
      · have hupdate := (hnone _ horder).1
        cases hupdate
      · exact hevents order horder
  | added last key sent log numeric new =>
    refine ⟨fun Y other hlisted hnew => ?_, events, log.trans hlog, hevents⟩
    rw [last, Map.lookup_insert] at hlisted
    split at hlisted
    · rename_i hY
      cases hlisted
      rw [← hY]
      exact .inl (new hnew)
    · rw [sent]
      exact hw.pending Y other hlisted hnew
  | dropped last sent log =>
    refine ⟨fun X order hlisted hnew => ?_, events, log.trans hlog, hevents⟩
    rw [sent]
    exact hw.pending X order (last X order hlisted) hnew
  | @hidden X gone shown =>
    refine ⟨fun Y order hlisted hnew => ?_, .toUi (.orderRemoved X) :: events, ?_, ?_⟩
    · rcases hw.pending Y order hlisted hnew with hold | hsent
      · exact .inl hold
      · refine .inr ?_
        -- the hidden order is listed no more, so it is not the one in question
        have hne : X ≠ Y := by
          rintro rfl
          have hlisted' : w.data.ordersLast[X]? = some order := hlisted
          rw [gone] at hlisted'
          cases hlisted'
        rw [World.orderHidden, World.record, World.modifyData, Map.lookup_erase, if_neg hne]
        exact hsent
    · exact congrArg _ hlog
    · intro order horder
      rcases List.mem_cons.mp horder with heq | horder
      · cases heq
      · exact hevents order horder
  | @shown order listed changed =>
    refine ⟨fun Y other hlisted hnew => ?_, .toUi (.orderCreated order) :: events, ?_, ?_⟩
    · rw [World.orderShown, World.record, World.modifyData, Map.lookup_insert]
      split
      · rename_i hY
        have hlisted' : w.data.ordersLast[Y]? = some other := hlisted
        rw [← hY, listed] at hlisted'
        cases hlisted'
        -- what was just shown is sent as it is listed
        exact .inr (hkeyed _ _ listed).2
      · exact hw.pending Y other hlisted hnew
    · exact congrArg _ hlog
    · intro other hother hnew
      rcases List.mem_cons.mp hother with heq | hother
      · cases heq
        -- an order is only shown when it differs from what was sent
        refine (hw.pending _ _ listed hnew).resolve_right ?_
        rw [changed]
        exact Bool.false_ne_true
      · exact hevents other hother hnew
  | offline sent =>
    refine ⟨hw.pending, .toUi .serverDisconnected :: events, congrArg _ hlog, ?_⟩
    intro order horder
    rcases List.mem_cons.mp horder with heq | horder
    · cases heq
    · exact hevents order horder

/-! ### The functions of the worker -/

theorem allows_orderFrame (k : Effect) (horders : k ≠ .orders) (hoffline : k ≠ .offline) :
    Allows OrderFrame k := by
  refine allows_of_changes (fun k => k ≠ .orders && k ≠ .offline) rfl ?_ k (by simp [horders, hoffline])
  intro k w w' hk hcoarse hs
  simp only [ne_eq, Bool.and_eq_true, decide_eq_true_eq] at hk
  exact hs.orderFrame hcoarse hk.1 hk.2

instance : Allows OrderFrame .talk := allows_orderFrame _ (by decide) (by decide)
instance : Allows OrderFrame .listing := allows_orderFrame _ (by decide) (by decide)
instance : Allows OrderFrame .load := allows_orderFrame _ (by decide) (by decide)
instance : Allows OrderFrame .market := allows_orderFrame _ (by decide) (by decide)
instance : Allows OrderFrame .assets := allows_orderFrame _ (by decide) (by decide)
instance : Allows OrderFrame .wallet := allows_orderFrame _ (by decide) (by decide)
instance : Allows OrderFrame .sync := allows_orderFrame _ (by decide) (by decide)
instance : Allows OrderFrame .balances := allows_orderFrame _ (by decide) (by decide)
instance : Allows OrderFrame .links := allows_orderFrame _ (by decide) (by decide)
instance : Allows OrderFrame .terms := allows_orderFrame _ (by decide) (by decide)
instance : Allows OrderFrame .prompts := allows_orderFrame _ (by decide) (by decide)
instance : Allows OrderFrame .queues := allows_orderFrame _ (by decide) (by decide)
instance : Allows OrderFrame .up := allows_orderFrame _ (by decide) (by decide)
instance : Allows OrderFrame .down := allows_orderFrame _ (by decide) (by decide)
instance : Allows OrderFrame .connect := allows_orderFrame _ (by decide) (by decide)

variable {old : OrderId → Prop} {α : Type}

/-- What a step that has nothing to do with orders keeps. -/
theorem frame_carry {I : World → Prop} {m : Worker ε α} (hm : Refines OrderFrame m)
    (hI : ∀ w w', OrderFrame w w' → I w → I w') : Guar (ListStep old) I m fun _ w => I w := by
  have hstep : Guar (ListStep old) (fun w => True ∧ I w) m fun _ w => True ∧ I w :=
    (Guar.frame hm hI).mono fun _ _ => ListStep.frame
  exact hstep.conseq (fun _ hw => ⟨trivial, hw⟩) fun _ _ hw => hw.2

/-- The steps of the list keep it keyed. -/
theorem keyed_of {P : World → Prop} {m : Worker ε α} (hP : ∀ w, P w → Keyed w)
    (hm : Guar (ListStep old) P m fun _ _ => True) : Guar (ListStep old) P m fun _ w => Keyed w :=
  (hm.frame (F := Keyed) fun _ _ => ListStep.keyed).conseq (fun w hw => ⟨hw, hP w hw⟩)
    fun _ _ hw => hw.2

/-- The list is `last`, and nothing else has been sent. -/
def Matched (last : Map OrderId Order) (w : World) : Prop :=
  w.data.ordersLast = last ∧ Keyed w ∧
    ∀ X : OrderId, w.data.ordersLast[X]? = none → w.data.ordersSent[X]? = none

/-- The first loop of the comparison. -/
theorem hideOrders_spec {last : Map OrderId Order} {l : List OrderId} (hnodup : l.Nodup)
    (hlast : ∀ X ∈ l, last[X]? = none) :
    Guar (ListStep old)
      (fun w => w.data.ordersLast = last ∧ Keyed w ∧
        ∀ X : OrderId, last[X]? = none → (w.data.ordersSent[X]? ≠ none ↔ X ∈ l))
      (Proc.each l syncRemovedOrder : Worker ε Unit) fun _ w => Matched last w := by
  induction l with
  -- no order is left that is shown and gone
  | nil =>
    refine .pure fun w hw => ⟨hw.1, hw.2.1, fun X hgone => ?_⟩
    rw [hw.1] at hgone
    by_contra hsent
    exact absurd ((hw.2.2 X hgone).mp hsent) List.not_mem_nil
  -- the first one is hidden; the others are still to be hidden
  | cons X l ih =>
    obtain ⟨hX, hnodup⟩ := List.nodup_cons.mp hnodup
    rintro w ⟨rfl, hkeyed, hall⟩
    have hgone := hlast X List.mem_cons_self
    have hshown := (hall X hgone).mpr List.mem_cons_self
    have hrest := ih hnodup (fun Y hY => hlast Y (List.mem_cons_of_mem _ hY))
    have hafter : ∀ Y : OrderId, w.data.ordersLast[Y]? = none →
        ((w.orderHidden X).data.ordersSent[Y]? ≠ none ↔ Y ∈ l) := by
      intro Y hY
      have hlookup : (w.orderHidden X).data.ordersSent[Y]? =
          if X = Y then none else w.data.ordersSent[Y]? := Map.lookup_erase _ X Y
      rw [hlookup]
      by_cases hne : X = Y
      · subst hne
        simpa using hX
      · rw [if_neg hne, hall Y hY, List.mem_cons]
        exact or_iff_right (Ne.symm hne)
    obtain ⟨hchain, hpost⟩ := hrest (w.orderHidden X) ⟨rfl, hkeyed, hafter⟩
    exact ⟨.head (.hidden hgone hshown) hchain, hpost⟩

/-- The second loop of the comparison shows every order and keeps what is shown. -/
theorem syncOrder_spec {last : Map OrderId Order} {p : OrderId × Order} (hp : last[p.1]? = some p.2) :
    Guar (ListStep old) (Matched last) (syncOrder p : Worker ε Unit)
      fun _ w => Matched last w ∧ w.data.ordersSent[p.1]?.any p.2.same = true := by
  intro w hw
  obtain ⟨hlast, hkeyed, hgone⟩ := hw
  have hlisted : w.data.ordersLast[p.1]? = some p.2 := by rw [hlast]; exact hp
  obtain ⟨hkey, hnumeric⟩ := hkeyed p.1 p.2 hlisted
  rw [syncOrder_apply]
  split
  · -- the order is shown as it is
    rename_i hsent
    refine ⟨.refl, fun _ _ hok => ?_⟩
    cases hok
    exact ⟨⟨hlast, hkeyed, hgone⟩, hsent⟩
  · -- it is shown again; the others are not touched
    rename_i hsent
    have hshown : ∀ Y : OrderId, (w.orderShown p.1 p.2).data.ordersSent[Y]? =
        if p.1 = Y then some p.2 else w.data.ordersSent[Y]? := fun Y => Map.lookup_insert _ _ Y _
    constructor
    · rw [← hkey] at hlisted hsent ⊢
      exact .single (.shown hlisted (Bool.eq_false_iff.mpr hsent))
    · intro _ _ hok
      cases hok
      refine ⟨⟨hlast, hkeyed, fun Y hY => ?_⟩, ?_⟩
      · rw [hshown, if_neg]
        · exact hgone Y hY
        · rintro rfl
          have hlisted' : w.data.ordersLast[p.1]? = none := hY
          rw [hlisted] at hlisted'
          cases hlisted'
      · rw [hshown, if_pos rfl, Option.any_some]
        exact hnumeric

theorem syncOrder_keep {last : Map OrderId Order} {p q : OrderId × Order}
    (hp : last[p.1]? = some p.2) (hq : last[q.1]? = some q.2) :
    Guar (ListStep old)
      (fun w => Matched last w ∧ w.data.ordersSent[q.1]?.any q.2.same = true)
      (syncOrder p : Worker ε Unit)
      fun _ w => Matched last w ∧ w.data.ordersSent[q.1]?.any q.2.same = true := by
  intro w hw
  have hspec : Guar (ListStep old) (Matched last) (syncOrder p : Worker ε Unit) _ := syncOrder_spec hp
  obtain ⟨hchain, hpost⟩ := hspec w hw.1
  refine ⟨hchain, fun a w' hok => ?_⟩
  obtain ⟨hmatched, hsent⟩ := hpost a w' hok
  refine ⟨hmatched, ?_⟩
  by_cases heq : p.1 = q.1
  · rw [heq, hq] at hp
    rw [← heq, Option.some.inj hp]
    exact hsent
  · rw [syncOrder_apply] at hok
    split at hok
    · cases hok
      exact hw.2
    · cases hok
      rw [World.orderShown, World.record, World.modifyData, Map.lookup_insert, if_neg heq]
      exact hw.2

theorem syncOrderList_matches (last : Map OrderId Order) :
    Guar (ListStep old) (fun w => w.data.ordersLast = last ∧ Keyed w)
      (syncOrderList : Worker ε Unit) fun _ w => w.data.ordersLast = last ∧ Settled w := by
  refine .bind getData_spec fun d => Guar.pre (P := fun w => d.ordersLast = last ∧ d = w.data ∧ Keyed w)
    (.of_fact ?_) ?_
  · -- the orders are those of the state that was read
    rintro rfl
    refine .bind (Q := fun _ w => Matched d.ordersLast w) ?_ fun _ => ?_
    · -- the orders to hide are those that are shown and not in the list any more
      have hnodup : (d.ordersSent.keys.filter fun X => !d.ordersLast.contains X).Nodup :=
        Std.ExtTreeMap.nodup_keys.filter _
      refine (hideOrders_spec hnodup ?_).pre ?_
      · intro X hX
        rw [Map.lookup_eq_none_iff]
        simpa using (List.mem_filter.mp hX).2
      · rintro w ⟨rfl, hkeyed⟩
        refine ⟨rfl, hkeyed, fun X hX => ?_⟩
        rw [Map.lookup_eq_none_iff] at hX
        rw [List.mem_filter, hX, Std.ExtTreeMap.mem_keys, ne_eq, Map.lookup_eq_none_iff,
          Bool.not_eq_false, Std.ExtTreeMap.contains_iff_mem]
        simp
    · -- the others are shown one by one, and none undoes what was shown before
      have hmem : ∀ p ∈ d.ordersLast.toList, d.ordersLast[p.1]? = some p.2 := fun p hp =>
        Std.ExtTreeMap.mem_toList_iff_getElem?_eq_some.mp hp
      refine (Guar.each_forall (fun p hp => syncOrder_spec (hmem p hp))
        fun q hq p hp => syncOrder_keep (hmem p hp) (hmem q hq)).post ?_
      rintro _ w ⟨⟨hlast, hkeyed, hgone⟩, hsent⟩
      refine ⟨hlast, hkeyed, fun X => ⟨hgone X, fun order hlisted => ?_⟩⟩
      rw [hlast] at hlisted
      exact hsent (X, order) (Std.ExtTreeMap.mem_toList_iff_getElem?_eq_some.mpr hlisted)
  · rintro w ⟨rfl, rfl, hkeyed⟩
    exact ⟨rfl, rfl, hkeyed⟩

theorem syncOrderList_spec :
    Guar (ListStep old) Keyed (syncOrderList : Worker ε Unit) fun _ w => Settled w := by
  intro w hw
  have hspec : Guar (ListStep old) _ (syncOrderList : Worker ε Unit) _ :=
    syncOrderList_matches w.data.ordersLast
  obtain ⟨hchain, hpost⟩ := hspec w ⟨rfl, hw⟩
  exact ⟨hchain, fun a w' hok => (hpost a w' hok).2⟩

/-- An order that is listed as new is not in the list before. -/
theorem addOrder_spec {msg : OrderCreatedNotification} (hmsg : Numeric msg) (new : Bool) :
    Guar (ListStep old)
      (fun w => Keyed w ∧ (new = true → ∀ X, old X → w.data.ordersLast.contains X = true))
      (addOrder h msg new : Worker ε Unit) fun _ w => Keyed w := by
  have hasset : Refines OrderFrame (ignoreError (tryAddAsset h msg.details.asset) : Worker ε Unit) :=
    ignoreError_effects (tryAddAsset_effects _)
  refine .bind (frame_carry hasset ?_) fun _ => ?_
  · rintro w w' hframe ⟨hkeyed, hold⟩
    refine ⟨hkeyed.frame hframe, ?_⟩
    rw [hframe.last]
    exact hold
  · refine keyed_of (fun w hw => hw.1) (.modify (fun w hw => ?_) fun _ _ => trivial)
    refine .added rfl rfl rfl rfl ?_ ?_
    · exact Order.same_self hmsg.1 hmsg.2
    · intro hnew hmem
      simp only [Bool.and_eq_true, Bool.not_eq_true'] at hnew
      have hcontains := hw.2 hnew.1 _ hmem
      rw [hnew.2] at hcontains
      cases hcontains

theorem addOrders_spec {msgs : List OrderCreatedNotification} (hmsgs : ∀ msg ∈ msgs, Numeric msg) :
    Guar (ListStep old) Keyed
      (Proc.each msgs fun order => addOrder h order false : Worker ε Unit) fun _ w => Keyed w :=
  .each fun msg hmsg => (addOrder_spec (hmsgs msg hmsg) false).pre fun _ hw => ⟨hw, fun hf => by cases hf⟩

theorem processOrderCreated_spec {msg : OrderCreatedNotification} (hmsg : Numeric msg) :
    Guar (ListStep old) (fun w => Keyed w ∧ ∀ X, old X → w.data.ordersLast.contains X = true)
      (processOrderCreated h msg : Worker ε Unit) fun _ w => Settled w := by
  refine .bind ((addOrder_spec hmsg true).pre fun w hw => ⟨hw.1, fun _ => hw.2⟩) fun _ => ?_
  exact syncOrderList_spec

/-- An order leaves the list. -/
theorem dropOrders_spec {f : Map OrderId Order → Map OrderId Order}
    (hf : ∀ (last : Map OrderId Order) (X : OrderId) (order : Order), (f last)[X]? = some order →
      last[X]? = some order) :
    Guar (ListStep old) Keyed
      (modifyData fun d => { d with ordersLast := f d.ordersLast } : Worker ε Unit)
      fun _ w => Keyed w :=
  keyed_of (fun _ hw => hw) (.modify (fun _ _ => .dropped (hf _) rfl rfl) fun _ _ => trivial)

theorem processOrderRemoved_spec (X : OrderId) :
    Guar (ListStep old) Keyed (processOrderRemoved X : Worker ε Unit) fun _ w => Settled w := by
  refine .bind (dropOrders_spec (f := fun last => last.erase X) fun last Y order hlisted => ?_) fun _ => ?_
  · rw [Map.lookup_erase] at hlisted
    split at hlisted
    · cases hlisted
    · exact hlisted
  · exact syncOrderList_spec

theorem processSubscribeResponse_spec {msg : SubscribeResponse}
    (hmsg : ∀ order ∈ msg.orders, Numeric order) :
    Guar (ListStep old) Keyed (processSubscribeResponse h msg : Worker ε Unit) fun _ w => Settled w :=
  .bind (addOrders_spec hmsg) fun _ => syncOrderList_spec

theorem processUnsubscribeResponse_spec :
    Guar (ListStep old) Keyed (processUnsubscribeResponse : Worker ε Unit) fun _ w => Settled w := by
  refine .bind (dropOrders_spec fun last Y order hlisted => ?_) fun _ => ?_
  · rw [Std.ExtTreeMap.getElem?_filter', Option.filter_eq_some_iff] at hlisted
    exact hlisted.1
  · exact syncOrderList_spec

/-! ### Connection -/

theorem settled_carry {m : Worker ε α} (hm : Refines OrderFrame m) :
    Guar (ListStep old) Settled m fun _ w => Settled w :=
  frame_carry hm fun _ _ => Settled.frame

/-- The same for a step that may fail. -/
theorem settled_attempt {m : Worker String α} (hm : Refines OrderFrame m) :
    Guar (ListStep old) Settled (Proc.attempt m : Worker ε (Except String α)) fun _ w => Settled w :=
  settled_carry hm.attempt

theorem noFail_addOrder (msg : OrderCreatedNotification) (new : Bool) :
    NoFail (addOrder h msg new : Worker ε Unit) :=
  .bind (.bind (.attempt _) fun _ => .pure _) fun _ => .modify _

theorem noFail_syncOrderList : NoFail (syncOrderList : Worker ε Unit) := by
  refine .bind noFail_getData fun d => .bind (.each fun X => ?_) fun _ => .each fun p => ?_
  · exact .bind (.modify _) fun _ => .modify _
  · refine .bind noFail_getData fun d => ?_
    split
    · exact .pure _
    · exact .bind (.modify _) fun _ => .modify _

/-- A login that fails has not touched the list. -/
theorem loginServer_spec (hh : h.Numeric) :
    Guar (ListStep old) Settled (Proc.attempt (loginServer h) : Worker ε (Except String Unit))
      fun _ w => Settled w := by
  refine .attempt_bind (settled_attempt getData_effects) (fun d => ?_) fun _ _ hw => hw
  -- only an answer of the server can bring orders
  let R : Except String LoginResponse → World → Prop := fun r w =>
    Settled w ∧ ∀ resp, r = .ok resp → ∀ msg ∈ LoginResponse.orders resp, Numeric msg
  refine .attempt_bind (R := R) ?_ (fun resp => ?_) fun _ _ hw => hw.1
  · intro w hw
    have hspec : Guar (ListStep old) Settled (Proc.attempt (request h (.login d.settings.sessionId)) :
        Worker ε (Except String LoginResponse)) fun _ w => Settled w :=
      settled_attempt (request_effects (k := .talk) fun _ => rfl)
    obtain ⟨hchain, hpost⟩ := hspec w hw
    refine ⟨hchain, fun r w' hr => ⟨hpost r w' hr, fun resp hresp => ?_⟩⟩
    subst hresp
    exact hh _ _ resp (request_ok (attempt_eq_ok hr)).1
  · -- its orders are numeric, and they are listed without being marked as new
    have htail : ∀ w, R (.ok resp) w → (∀ msg ∈ LoginResponse.orders resp, Numeric msg) ∧ Settled w :=
      fun w hw => ⟨hw.2 resp rfl, hw.1⟩
    refine Guar.pre ?_ htail
    refine Guar.of_fact fun hnumeric => ?_
    refine (NoFail.guar_attempt ?_ (Q := fun _ w => Settled w) ?_).post fun _ _ hw => hw.choose_spec.2
    · -- after the answer nothing fails
      refine .bind (.each fun msg => noFail_addOrder msg false) fun _ => .bind noFail_syncOrderList fun _ => ?_
      refine .bind noFail_getData fun d => ?_
      split
      · exact .pure _
      · exact .bind (.modify _) fun _ => noFail_saveSettings
    · refine .bind ((addOrders_spec hnumeric).pre fun _ hw => hw.1) fun _ => .bind syncOrderList_spec fun _ => ?_
      refine .bind (settled_carry getData_effects) fun d => ?_
      split
      · exact .pure fun _ hw => hw
      · refine .bind (settled_carry (modifySettings_effects fun _ => rfl)) fun _ => ?_
        exact settled_carry saveSettings_effects

theorem tryProcessWsConnected_spec (hh : h.Numeric) :
    Guar (ListStep old) Settled
      (Proc.attempt (tryProcessWsConnected h) : Worker ε (Except String Unit)) fun _ w => Settled w := by
  refine .attempt_bind (settled_attempt (call_effects _)) (fun _ => ?_) fun _ _ hw => hw
  refine .attempt_bind (settled_attempt (request_effects fun _ => rfl)) (fun _ => ?_) fun _ _ hw => hw
  refine .attempt_bind (settled_attempt (request_effects fun _ => rfl)) (fun assets => ?_) fun _ _ hw => hw
  refine .attempt_bind (settled_attempt (.each fun _ _ => subscribePriceUpdate_effects _)) (fun _ => ?_)
    fun _ _ hw => hw
  refine .attempt_bind (settled_attempt (updateAssets_effects _)) (fun _ => ?_) fun _ _ hw => hw
  refine .attempt_bind (settled_attempt (request_effects fun _ => rfl)) (fun status => ?_) fun _ _ hw => hw
  refine .attempt_bind (settled_attempt (processServerStatus_effects _)) (fun _ => ?_) fun _ _ hw => hw
  refine .attempt_bind (settled_attempt updateTxList_effects) (fun _ => ?_) fun _ _ hw => hw
  refine .attempt_bind (settled_attempt verifyDevice_effects) (fun _ => ?_) fun _ _ hw => hw
  refine .attempt_bind (settled_attempt registerDevice_effects) (fun _ => ?_) fun _ _ hw => hw
  exact loginServer_spec hh

theorem processWsConnected_spec (hh : h.Numeric) :
    Guar (ListStep old) Settled (processWsConnected h : Worker ε Unit) fun _ w => Settled w := by
  refine .bind (tryProcessWsConnected_spec hh) fun result => ?_
  cases result with
  | error e => exact settled_carry restartWebsocket_effects
  | ok _ =>
    refine settled_carry ?_
    refine .bind (modify_effects fun _ => .up) fun _ => .bind processPendingRequests_effects fun _ => ?_
    refine .bind resumePegMonitoring_effects fun _ => .bind updatePushToken_effects fun _ => ?_
    refine .bind updateAddressRegistrations_effects fun _ => ?_
    refine .bind downloadContacts_effects fun _ => ?_
    refine .bind processUnregisterPhoneRequests_effects fun _ => ?_
    exact .bind sendSubscribeRequest_effects fun _ => toUi_effects rfl

theorem processWsDisconnected_spec :
    Guar (ListStep old) Keyed (processWsDisconnected : Worker ε Unit) fun _ w => Settled w := by
  have hempty : ∀ X : OrderId, (∅ : Map OrderId Order)[X]? = none := Map.lookup_empty
  refine .bind (Q := fun _ w => w.data.ordersLast = ∅ ∧ Keyed w) ?_ fun _ => ?_
  · refine .modify (fun w _ => .dropped (fun X order hlisted => ?_) rfl rfl) fun w _ => ⟨rfl, ?_⟩
    · rw [World.modifyData, hempty] at hlisted
      cases hlisted
    · intro X order hlisted
      rw [World.modifyData, hempty] at hlisted
      cases hlisted
  refine .bind (syncOrderList_matches ∅) fun _ => .bind (Q := fun _ w => Settled w) ?_ fun _ => ?_
  · refine .modify (fun w hw => .offline fun X => ?_) fun w hw => hw.2
    exact (hw.2.2 X).1 (by rw [hw.1]; exact hempty X)
  · refine settled_carry (.bind getData_effects fun d => .each fun connect hconnect => ?_)
    have htrue : connect = true := by
      split at hconnect
      · exact List.mem_singleton.mp hconnect
      · cases hconnect
    exact record_effects (by rw [htrue]; rfl)

/-! ### Messages -/

/-- A message that has nothing to do with orders. -/
theorem settled_process {msg : Message}
    (hmsg : msg.effects.all (fun k => k ≠ .orders && k ≠ .offline) = true) :
    Guar (ListStep old) Settled (process h msg : Worker ε Unit) fun _ w => Settled w := by
  refine settled_carry (process_effects msg fun k hk => ?_)
  have hk := List.all_eq_true.mp hmsg k hk
  simp only [ne_eq, Bool.and_eq_true, decide_eq_true_eq] at hk
  exact allows_orderFrame k hk.1 hk.2

theorem process_spec (hh : h.Numeric) {msg : Message} (hmsg : ∀ order ∈ msg.orders, Numeric order) :
    Guar (ListStep old) (fun w => Settled w ∧ ∀ X, old X → w.data.ordersLast.contains X = true)
      (process h msg : Worker ε Unit) fun _ w => Settled w := by
  cases msg with
  | ui m => exact (settled_process (by cases m <;> rfl)).pre fun _ hw => hw.1
  | serverConnected => exact (processWsConnected_spec hh).pre fun _ hw => hw.1
  | serverDisconnected => exact processWsDisconnected_spec.pre fun _ hw => hw.1.1
  | serverNotification n =>
    cases n with
    | orderCreated m =>
      have hnumeric : Numeric m := hmsg m List.mem_cons_self
      exact (processOrderCreated_spec hnumeric).pre fun _ hw => ⟨hw.1.1, hw.2⟩
    | orderRemoved X => exact (processOrderRemoved_spec X).pre fun _ hw => hw.1.1
    | _ => exact (settled_process rfl).pre fun _ hw => hw.1
  | subscribe m => exact (processSubscribeResponse_spec hmsg).pre fun _ hw => hw.1.1
  | unsubscribe => exact processUnsubscribeResponse_spec.pre fun _ hw => hw.1.1
  | notif | pegStatus | assetDetails | backgroundMessage =>
    exact (settled_process rfl).pre fun _ hw => hw.1

/-- The handling of a message keeps the invariants and settles the list again. -/
theorem handle_listing (hh : h.Numeric) {msg : Message} (hmsg : ∀ order ∈ msg.orders, Numeric order)
    {w : World} (hw : Listing w) (hsent : Sent w) :
    Listing ((machine h).handle msg w).state ∧
      Fresh (fun X => w.data.ordersLast.contains X = true) w.log ((machine h).handle msg w).state ∧
      ∀ u w', (machine h).handle msg w = .ok u w' → Sent w' := by
  let old : OrderId → Prop := fun X => w.data.ordersLast.contains X = true
  let w₀ := w.record (.received msg)
  have hframe : OrderFrame w w₀ := .record rfl rfl
  have hlisting := hw.frame hframe
  have hsettled : Settled w₀ := ⟨hlisting.keyed, hsent.frame hframe⟩
  have hfresh : Fresh old w.log w₀ := by
    refine ⟨fun X order hlisted _ => .inr ((hsent X).2 order hlisted), [.received msg], rfl, ?_⟩
    intro order horder
    cases List.mem_singleton.mp horder
  have hspec : Guar (ListStep old) _ (process h msg : Worker Empty Unit) _ := process_spec hh hmsg
  obtain ⟨hchain, hpost⟩ := hspec w₀ ⟨hsettled, fun _ hX => hX⟩
  have hinv := hchain.invariant (I := fun v => Listing v ∧ Fresh old w.log v)
    (fun _ _ hstep hv => ⟨hstep.listing hv.1, hstep.fresh hv.1.keyed hv.2⟩) ⟨hlisting, hfresh⟩
  exact ⟨hinv.1, hinv.2, fun u w' hok => (hpost u w' hok).2⟩

theorem listing_freshStart (w : World) (hw : Always Useful w.log) :
    Listing (freshStart h w) ∧ Sent (freshStart h w) := by
  have hempty : ∀ X : OrderId, (∅ : Map OrderId Order)[X]? = none := Map.lookup_empty
  refine ⟨⟨?_, ?_, ?_, ?_⟩, ?_⟩
  · intro X order hlisted
    rw [freshStart, Data.initial, hempty] at hlisted
    cases hlisted
  · intro X
    rw [freshStart, Data.initial, hempty]
    rfl
  · intro X
    rw [freshStart, Data.initial, hempty]
    rfl
  · exact .cons (fun _ hmsg => by cases hmsg) hw
  · intro X
    refine ⟨fun _ => hempty X, fun order hlisted => ?_⟩
    rw [freshStart, Data.initial, hempty] at hlisted
    cases hlisted

theorem boot_listing (w : World) (hw : Always Useful w.log) :
    Listing (boot h w : Outcome Empty World Unit).state ∧
      Sent (boot h w : Outcome Empty World Unit).state := by
  have hload : Refines OrderFrame (ignoreError (loadAssets h) : Worker Empty Unit) :=
    ignoreError_effects loadAssets_effects
  obtain ⟨hlisting, hsent⟩ := listing_freshStart (h := h) w hw
  refine (hload.chain (freshStart h w)).invariant (I := fun v => Listing v ∧ Sent v) ?_ ⟨hlisting, hsent⟩
  exact fun _ _ hstep hv => ⟨hv.1.frame hstep, hv.2.frame hstep⟩

/-! ### Runs -/

/-- Two entries of the list are equal for the worker. -/
def sameOrder : Option Order → Option Order → Bool
  | some a, some b => a.same b
  | none, none => true
  | _, _ => false

/-- The worker's list, what it has sent, what its messages amount to and the table of the user
interface agree, and there is nothing more to send. -/
structure Mirrored (w : World) : Prop where
  sent : ∀ X : OrderId, sameOrder w.data.ordersLast[X]? w.data.ordersSent[X]? = true
  shown : ∀ X : OrderId, sameOrder w.data.ordersLast[X]? (shownOrders w.log X) = true
  market : ∀ X : OrderId, marketOrders w.log X = (shownOrders w.log X).map RequestOrder.ofOrder
  settled : (syncOrderList w : Outcome Empty World Unit) = .ok () w

theorem Sent.sameOrder {w : World} (hw : Sent w) (X : OrderId) :
    sameOrder w.data.ordersLast[X]? w.data.ordersSent[X]? = true := by
  cases hlast : w.data.ordersLast[X]? with
  | none =>
    rw [(hw X).1 hlast]
    rfl
  | some order =>
    have hsent := (hw X).2 order hlast
    cases hs : w.data.ordersSent[X]? with
    | none =>
      rw [hs] at hsent
      cases hsent
    | some other =>
      rw [hs, Option.any_some] at hsent
      exact hsent

/-- There is nothing to send. -/
theorem syncOrderList_of_sent {w : World} (hw : Sent w) :
    (syncOrderList w : Outcome ε World Unit) = .ok () w := by
  -- no order is shown that is not in the list
  have hnone : (w.data.ordersSent.keys.filter fun X => !w.data.ordersLast.contains X) = [] := by
    rw [List.filter_eq_nil_iff]
    intro X hX hnot
    have hgone : w.data.ordersLast[X]? = none := by
      rw [Map.lookup_eq_none_iff]
      simpa using hnot
    have hsent := (hw X).1 hgone
    rw [Map.lookup_eq_none_iff] at hsent
    rw [Std.ExtTreeMap.mem_keys, ← Std.ExtTreeMap.contains_iff_mem, hsent] at hX
    cases hX
  -- and those of the list are shown as they are
  have hall : ∀ l : List (OrderId × Order), (∀ p ∈ l, w.data.ordersLast[p.1]? = some p.2) →
      (Proc.each l syncOrder : Worker ε Unit) w = .ok () w := by
    intro l hl
    induction l with
    | nil => rfl
    | cons p l ih =>
      have hp : (syncOrder p : Worker ε Unit) w = .ok () w := by
        rw [syncOrder_apply, if_pos ((hw p.1).2 p.2 (hl p List.mem_cons_self))]
      exact (Proc.bind_ok hp).trans (ih fun q hq => hl q (List.mem_cons_of_mem _ hq))
  have happly : (syncOrderList w : Outcome ε World Unit) =
      (Proc.each (w.data.ordersSent.keys.filter fun X => !w.data.ordersLast.contains X)
        syncRemovedOrder >>= fun _ => Proc.each w.data.ordersLast.toList syncOrder : Worker ε Unit) w := rfl
  rw [happly, hnone]
  exact hall _ fun p hp => Std.ExtTreeMap.mem_toList_iff_getElem?_eq_some.mp hp

theorem Listing.mirrored {w : World} (hw : Listing w) (hsent : Sent w) : Mirrored w := by
  refine ⟨hsent.sameOrder, fun X => ?_, fun X => ?_, syncOrderList_of_sent hsent⟩
  · rw [hw.shown]
    exact hsent.sameOrder X
  · rw [hw.market, hw.shown]

/-- In every run, no message about orders is redundant; between two messages the order list is
mirrored; and an order is announced as new only if it was not in the list before. -/
theorem order_list_mirrored (hh : h.Numeric) {xs : List (Feed Message)}
    (hxs : ∀ msg, .deliver msg ∈ xs → ∀ order ∈ msg.orders, Numeric order) :
    let l := (machine h).run (start h) xs
    Always Useful l.state.log ∧
      (l.alive = true → Mirrored l.state ∧
        ∀ msg, (∀ order ∈ msg.orders, Numeric order) →
          ∃ events, ((machine h).handle msg l.state).state.log = events ++ l.state.log ∧
            ∀ order, .toUi (.orderCreated order) ∈ events → order.new = true →
              l.state.data.ordersLast.contains order.orderId = false) := by
  intro l
  have hstart : Always Useful (start h).state.log ∧
      ((start h).alive = true → Listing (start h).state ∧ Sent (start h).state) := by
    obtain ⟨hlisting, hsent⟩ := boot_listing (h := h) World.new .nil
    rw [start, Outcome.life_state]
    exact ⟨hlisting.useful, fun _ => ⟨hlisting, hsent⟩⟩
  -- what was told stays useful even if the worker dies; the rest holds while it lives
  have hrun := Machine.run_life_invariant (M := machine h)
    (C := fun _ msg => ∀ order ∈ msg.orders, Numeric order)
    (I := fun w => Always Useful w.log) (A := fun w => Listing w ∧ Sent w) hstart
    (Machine.along_of_mem _ fun msg hmsg _ => hxs msg hmsg)
    (fun w msg hmsg _ hw => by
      obtain ⟨hlisting, -, hsent⟩ := handle_listing hh hmsg hw.1 hw.2
      refine ⟨hlisting.useful, fun u w' hok => ⟨?_, hsent u w' hok⟩⟩
      rw [hok] at hlisting
      exact hlisting)
    (fun w hw => by
      obtain ⟨hlisting, hsent⟩ := boot_listing (h := h) w hw
      refine ⟨hlisting.useful, fun u w' hok => ?_⟩
      have hstate : (boot h w : Outcome Empty World Unit) = .ok u w' := hok
      rw [hstate] at hlisting hsent
      exact ⟨hlisting, hsent⟩)
  refine ⟨hrun.1, fun halive => ?_⟩
  obtain ⟨hlisting, hsent⟩ := hrun.2 halive
  refine ⟨hlisting.mirrored hsent, fun msg hmsg => ?_⟩
  obtain ⟨-, hfresh, -⟩ := handle_listing hh hmsg hlisting hsent
  obtain ⟨events, hlog, hevents⟩ := hfresh.told
  exact ⟨events, hlog, fun order horder hnew => Bool.eq_false_iff.mpr (hevents order horder hnew)⟩

namespace Sample

/-- An outside with a market. -/
def marketHost : Host := plainHost (plainServer assets (fun _ => .error "") fun _ => .error "") ∅ ∅

/-- An order for gold. -/
def goldOrder : OrderCreatedNotification :=
  { orderId := ⟨"order"⟩, createdAt := 0, expiresAt := 1, own := none
    details :=
      { asset := gold, bitcoinAmount := 100, assetAmount := 100, price := F64.ofInt 1
        sendBitcoins := true, serverFee := 1, side := .requestor, orderType := .bitcoin } }

/-- The market of gold is opened and its order arrives. -/
def market : List (Feed Message) :=
  online ++ [.deliver (.serverNotification (.orderCreated goldOrder))]

end Sample

theorem order_list_mirrored_gold :
    let l := (machine Sample.marketHost).run (start Sample.marketHost) Sample.market
    Numeric Sample.goldOrder ∧ (shownOrders l.state.log Sample.goldOrder.orderId).isSome = true ∧
      Mirrored l.state := by
  have hnumeric : Numeric Sample.goldOrder := ⟨by decide +kernel, by decide⟩
  have hserver : Sample.marketHost.Numeric := by
    intro n sessionId resp hresp msg hmsg
    cases hresp
    cases hmsg
  have hmessages : ∀ msg, .deliver msg ∈ Sample.market → ∀ order ∈ msg.orders, Numeric order := by
    intro msg hmsg order horder
    simp only [Sample.market, Sample.online, List.mem_append, List.mem_cons, Feed.deliver.injEq,
      List.not_mem_nil, or_false] at hmsg
    rcases hmsg with (rfl | rfl) | rfl
    · cases horder
    · cases horder
    · cases List.mem_singleton.mp horder
      exact hnumeric
  obtain ⟨-, hliving⟩ := order_list_mirrored hserver hmessages
  exact ⟨hnumeric, by decide +kernel, (hliving (by decide +kernel)).1⟩

end SideSwap.Client
