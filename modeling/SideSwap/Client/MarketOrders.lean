import SideSwap.Client.OneMarket

/-!
# The orders of the market

The list of the worker holds its own orders and, once every message of the server has been handled,
orders of the server's markets only.  The answer to `Unsubscribe` and the end of a connection take
the orders of others away, and the messages behind them bring orders of the markets that are left.

Together with the invariant of `OneMarket` this says what the worker relies on when it handles the
answer to `Unsubscribe`: the orders that remain are its own, because one market is open at a time.
-/

namespace SideSwap.Client

open Proc

variable {h : Host} {ε : Type} {P : AssetId → Prop}

/-! ### The list of the worker -/

/-- The orders of others are of assets with `P`. -/
def Foreign (P : AssetId → Prop) (w : World) : Prop :=
  ∀ (X : OrderId) (order : Order), w.data.ordersLast[X]? = some order →
    order.own = true ∨ P order.assetId

/-- The orders that a message carries are of assets with the property. -/
def Carried (P : AssetId → Prop) (msg : Message) : Prop :=
  ∀ order ∈ msg.orders, order.own.isSome = true ∨ P order.details.asset

/-- The messages that take the orders of others away. -/
def Message.clears : Message → Bool
  | .unsubscribe | .serverDisconnected => true
  | _ => false

/-- The orders that the server lists at a login are own orders. -/
def Host.ListsOwn (h : Host) : Prop :=
  ∀ n sessionId resp, h.server n (.login sessionId) = .ok resp →
    ∀ order ∈ LoginResponse.orders resp, order.own.isSome = true

/-- Only the order list matters. -/
theorem Foreign.of_last {w w' : World} (hlast : w'.data.ordersLast = w.data.ordersLast)
    (hw : Foreign P w) : Foreign P w' := by
  intro X order hlisted
  rw [hlast] at hlisted
  exact hw X order hlisted

/-- A weaker property of the assets. -/
theorem Foreign.mono {P' : AssetId → Prop} {w : World} (hP : ∀ asset, P asset → P' asset)
    (hw : Foreign P w) : Foreign P' w :=
  fun X order hlisted => (hw X order hlisted).imp_right (hP _)

/-- Only two effects touch the order list. -/
theorem allows_foreign (k : Effect) (horders : k ≠ .orders) (hoffline : k ≠ .offline) :
    Allows (Preserves (Foreign P)) k := by
  refine allows_of_changes (fun k => k ≠ .orders && k ≠ .offline) rfl ?_ k (by simp [horders, hoffline])
  intro k w w' hk hcoarse hs hw
  simp only [ne_eq, Bool.and_eq_true, decide_eq_true_eq] at hk
  exact hw.of_last (hs.orderFrame hcoarse hk.1 hk.2).last

instance : Allows (Preserves (Foreign P)) .talk := allows_foreign _ (by decide) (by decide)
instance : Allows (Preserves (Foreign P)) .listing := allows_foreign _ (by decide) (by decide)
instance : Allows (Preserves (Foreign P)) .market := allows_foreign _ (by decide) (by decide)
instance : Allows (Preserves (Foreign P)) .assets := allows_foreign _ (by decide) (by decide)
instance : Allows (Preserves (Foreign P)) .wallet := allows_foreign _ (by decide) (by decide)
instance : Allows (Preserves (Foreign P)) .sync := allows_foreign _ (by decide) (by decide)
instance : Allows (Preserves (Foreign P)) .balances := allows_foreign _ (by decide) (by decide)
instance : Allows (Preserves (Foreign P)) .links := allows_foreign _ (by decide) (by decide)
instance : Allows (Preserves (Foreign P)) .terms := allows_foreign _ (by decide) (by decide)
instance : Allows (Preserves (Foreign P)) .prompts := allows_foreign _ (by decide) (by decide)
instance : Allows (Preserves (Foreign P)) .queues := allows_foreign _ (by decide) (by decide)
instance : Allows (Preserves (Foreign P)) .up := allows_foreign _ (by decide) (by decide)
instance : Allows (Preserves (Foreign P)) .down := allows_foreign _ (by decide) (by decide)
instance : Allows (Preserves (Foreign P)) .connect := allows_foreign _ (by decide) (by decide)
instance : Allows (Preserves (Foreign P)) .load := allows_foreign _ (by decide) (by decide)

/-- The comparison with what was sent reads the list only. -/
theorem syncOrderList_foreign : Refines (Preserves (Foreign P)) (syncOrderList : Worker ε Unit) := by
  have hsame : ∀ {f : World → World}, (∀ w, (f w).data.ordersLast = w.data.ordersLast) →
      Refines (Preserves (Foreign P)) (Proc.modify f : Worker ε Unit) :=
    fun hf => .modify fun w hw => hw.of_last (hf w)
  refine .bind getData_effects fun d => .bind (.each fun X _ => ?_) fun _ => .each fun p _ => ?_
  · exact .bind (hsame fun _ => rfl) fun _ => hsame fun _ => rfl
  · refine .bind getData_effects fun d => ?_
    split
    · exact .pure _
    · exact .bind (hsame fun _ => rfl) fun _ => hsame fun _ => rfl

/-- An order that is added has the property or is the user's own. -/
theorem addOrder_foreign {msg : OrderCreatedNotification} (new : Bool)
    (hmsg : msg.own.isSome = true ∨ P msg.details.asset) :
    Refines (Preserves (Foreign P)) (addOrder h msg new : Worker ε Unit) := by
  refine .bind (ignoreError_effects (tryAddAsset_effects _)) fun _ => .modify fun w hw X order hlisted => ?_
  rw [World.modifyData, Map.lookup_insert] at hlisted
  split at hlisted
  · cases hlisted
    exact hmsg
  · exact hw X order hlisted

/-- So do several. -/
theorem addOrders_foreign {msgs : List OrderCreatedNotification}
    (hmsgs : ∀ msg ∈ msgs, msg.own.isSome = true ∨ P msg.details.asset) :
    Refines (Preserves (Foreign P))
      (Proc.each msgs fun order => addOrder h order false : Worker ε Unit) :=
  .each fun msg hmsg => addOrder_foreign false (hmsgs msg hmsg)

/-- An order that goes keeps the property of the others. -/
theorem processOrderRemoved_foreign (X : OrderId) :
    Refines (Preserves (Foreign P)) (processOrderRemoved X : Worker ε Unit) := by
  refine .bind (.modify fun w hw Y order hlisted => ?_) fun _ => syncOrderList_foreign
  rw [World.modifyData, Map.lookup_erase] at hlisted
  split at hlisted
  · cases hlisted
  · exact hw Y order hlisted

/-- A login brings only the user's own orders. -/
theorem loginServer_foreign (hh : h.ListsOwn) :
    Refines (Preserves (Foreign P)) (loginServer h) := by
  refine .bind getData_effects fun d => ?_
  -- the orders of the answer are own orders
  refine Guar.bind (Q := fun resp _ => ∀ order ∈ LoginResponse.orders resp, order.own.isSome = true)
    ?_ fun resp => ?_
  · intro w _
    refine ⟨(request_effects (k := .talk) fun _ => rfl : Refines (Preserves (Foreign P)) _).chain w, ?_⟩
    intro resp w' hresp
    exact hh _ _ resp (request_ok hresp).1
  · refine (Guar.of_fact (P := fun _ => True) fun hown => ?_).pre fun _ hw => ⟨hw, trivial⟩
    refine Refines.bind (addOrders_foreign fun msg hmsg => .inl (hown msg hmsg)) fun _ => ?_
    refine .bind syncOrderList_foreign fun _ => .bind getData_effects fun d => ?_
    split
    · exact .pure _
    · exact .bind (modifySettings_effects fun _ => rfl) fun _ => saveSettings_effects

/-- So does a new connection. -/
theorem processWsConnected_foreign (hh : h.ListsOwn) :
    Refines (Preserves (Foreign P)) (processWsConnected h : Worker ε Unit) := by
  refine .bind (.attempt ?_) fun result => ?_
  · refine .bind (call_effects _) fun _ => .bind (request_effects fun _ => rfl) fun _ => ?_
    refine .bind (request_effects fun _ => rfl) fun assets => ?_
    refine .bind (.each fun _ _ => subscribePriceUpdate_effects _) fun _ => ?_
    refine .bind (updateAssets_effects _) fun _ => .bind (request_effects fun _ => rfl) fun status => ?_
    refine .bind (processServerStatus_effects _) fun _ => .bind updateTxList_effects fun _ => ?_
    refine .bind verifyDevice_effects fun _ => .bind registerDevice_effects fun _ => ?_
    exact loginServer_foreign hh
  cases result with
  | error e => exact restartWebsocket_effects
  | ok _ =>
    refine .bind (modify_effects fun _ => .up) fun _ => .bind processPendingRequests_effects fun _ => ?_
    refine .bind resumePegMonitoring_effects fun _ => .bind updatePushToken_effects fun _ => ?_
    refine .bind updateAddressRegistrations_effects fun _ => ?_
    refine .bind downloadContacts_effects fun _ => ?_
    refine .bind processUnregisterPhoneRequests_effects fun _ => ?_
    exact .bind sendSubscribeRequest_effects fun _ => toUi_effects rfl

/-- A message that brings orders with `P` only. -/
theorem process_foreign (hh : h.ListsOwn) {msg : Message} (hclears : msg.clears = false)
    (hmsg : Carried P msg) : Refines (Preserves (Foreign P)) (process h msg : Worker ε Unit) := by
  have hother : ∀ {msg : Message}, msg.effects.all (fun k => k ≠ .orders && k ≠ .offline) = true →
      Refines (Preserves (Foreign P)) (process h msg : Worker ε Unit) := by
    intro msg heffects
    refine process_effects msg fun k hk => ?_
    have hk := List.all_eq_true.mp heffects k hk
    simp only [ne_eq, Bool.and_eq_true, decide_eq_true_eq] at hk
    exact allows_foreign k hk.1 hk.2
  cases msg with
  | ui m => exact hother (by cases m <;> rfl)
  | serverConnected => exact processWsConnected_foreign hh
  | serverDisconnected | unsubscribe => cases hclears
  | serverNotification n =>
    cases n with
    | orderCreated m =>
      exact .bind (addOrder_foreign true (hmsg m List.mem_cons_self)) fun _ => syncOrderList_foreign
    | orderRemoved X => exact processOrderRemoved_foreign X
    | _ => exact hother rfl
  | subscribe m => exact .bind (addOrders_foreign hmsg) fun _ => syncOrderList_foreign
  | notif | pegStatus | assetDetails | backgroundMessage => exact hother rfl

/-- A message that takes the orders of others away. -/
theorem process_clears {msg : Message} (hclears : msg.clears = true) {w w' : World} {u : Unit}
    (hok : (process h msg : Worker ε Unit) w = .ok u w') : Foreign P w' := by
  cases msg with
  -- only the orders that are left after the filter are sent again
  | unsubscribe =>
    have hprocess : (processUnsubscribeResponse : Worker ε Unit) w = .ok u w' := hok
    unfold processUnsubscribeResponse at hprocess
    rw [modifyData_bind_apply] at hprocess
    refine Refines.preserves_ok syncOrderList_foreign (fun X order hlisted => .inl ?_) hprocess
    rw [World.modifyData, Std.ExtTreeMap.getElem?_filter', Option.filter_eq_some_iff] at hlisted
    exact hlisted.2
  -- no order is left
  | serverDisconnected =>
    have hprocess : (processWsDisconnected : Worker ε Unit) w = .ok u w' := hok
    unfold processWsDisconnected at hprocess
    rw [modifyData_bind_apply] at hprocess
    have hrest : Refines (Preserves (Foreign P)) (do
        syncOrderList
        toUi .serverDisconnected
        -- the rest shows no orders
        let d ← getData
        Proc.each (if d.ctx.isSome then [true] else []) fun connect => record (.toWs connect) :
          Worker ε Unit) := by
      refine .bind syncOrderList_foreign fun _ => .bind (.modify fun _ hw => hw) fun _ => ?_
      exact .bind getData_effects fun d => .each fun _ _ => .modify fun _ hw => hw
    refine Refines.preserves_ok hrest (fun X order hlisted => ?_) hprocess
    rw [World.modifyData, Map.lookup_empty] at hlisted
    cases hlisted
  | _ => cases hclears

/-- A message clears the list, or brings orders with the property. -/
theorem handle_foreign (hh : h.ListsOwn) {msg : Message} {w w' : World} {u : Unit}
    (hw : msg.clears = true ∨ Foreign P w ∧ Carried P msg)
    (hok : (machine h).handle msg w = .ok u w') : Foreign P w' := by
  have hprocess : (process h msg : Worker Empty Unit) (w.record (.received msg)) = .ok u w' := hok
  cases hclears : msg.clears with
  | true => exact process_clears hclears hprocess
  | false =>
    obtain ⟨hforeign, hcarried⟩ := hw.resolve_left (by rw [hclears]; exact Bool.false_ne_true)
    exact (process_foreign hh hclears hcarried).preserves_ok (s := w.record (.received msg)) hforeign
      hprocess

/-! ### The messages on their way -/

/-- The messages leave a list with `P`, if the list is so before or they clear it. -/
def Tidied (P : AssetId → Prop) (before : Prop) (messages : List Message) : Prop :=
  messages.foldl (fun tidy msg => msg.clears = true ∨ tidy ∧ Carried P msg) before

theorem Tidied.cons (before : Prop) (msg : Message) (messages : List Message) :
    Tidied P before (msg :: messages) =
      Tidied P (msg.clears = true ∨ before ∧ Carried P msg) messages :=
  rfl

theorem Tidied.append (before : Prop) (messages messages' : List Message) :
    Tidied P before (messages ++ messages') = Tidied P (Tidied P before messages) messages' :=
  List.foldl_append

/-- The last message clears the list, or brings what fits to the rest. -/
theorem Tidied.snoc (before : Prop) (messages : List Message) (msg : Message) :
    Tidied P before (messages ++ [msg]) =
      (msg.clears = true ∨ Tidied P before messages ∧ Carried P msg) :=
  Tidied.append before messages [msg]

/-- A weaker property of the assets. -/
theorem Tidied.mono {P' : AssetId → Prop} {before before' : Prop} {messages : List Message}
    (hP : ∀ asset, P asset → P' asset) (hbefore : before → before')
    (htidy : Tidied P before messages) : Tidied P' before' messages := by
  induction messages generalizing before before' with
  | nil => exact hbefore htidy
  | cons msg messages ih =>
    refine ih (Or.imp_right ?_) htidy
    rintro ⟨hold, hcarried⟩
    exact ⟨hbefore hold, fun order horder => (hcarried order horder).imp_right (hP _)⟩

theorem Carried.of_nil {msg : Message} (hmsg : msg.orders = []) : Carried P msg := by
  intro order horder
  rw [hmsg] at horder
  cases horder

/-- A message without orders makes no difference, wherever it arrives. -/
theorem Tidied.insert {before : Prop} {messages messages' : List Message} {msg : Message}
    (hmsg : msg.orders = []) (htidy : Tidied P before (messages ++ messages')) :
    Tidied P before (messages ++ [msg] ++ messages') := by
  rw [Tidied.append] at htidy ⊢
  refine htidy.mono (fun _ hP => hP) fun hbefore => ?_
  rw [Tidied.snoc]
  exact .inr ⟨hbefore, .of_nil hmsg⟩

/-- The orders of the asset are in a market of the server. -/
def Net.lists (token : AssetId → Bool) (n : Net) (asset : AssetId) : Prop :=
  ∃ market ∈ n.markets, inMarket token asset market = true

/-- The messages of the server that have not been handled. -/
def MarketSystem.pending (s : MarketSystem) : List Message :=
  s.inbox ++ s.net.frames.filterMap (forward ∘ .response)

/-- The list will be in order once every message has been handled. -/
def MarketSystem.Tidy (token : AssetId → Bool) (s : MarketSystem) : Prop :=
  Tidied (s.net.lists token) (Foreign (s.net.lists token) s.worker.state) s.pending

/-- Without a connection the list is going to be cleared. -/
theorem MarketSystem.Tidy.closed {token : AssetId → Bool} {s : MarketSystem} {messages : List Message}
    {msg : Message} (hnet : s.net = .closed) (hinbox : s.inbox = messages ++ [msg])
    (hclears : msg.clears = true) : s.Tidy token := by
  have hpending : s.pending = messages ++ [msg] := by
    rw [MarketSystem.pending, hinbox, hnet]
    exact List.append_nil _
  rw [MarketSystem.Tidy, hpending, Tidied.snoc]
  exact .inl hclears

/-- The server offers the user's own orders and those of the subscribed markets. -/
theorem offered_iff {token : AssetId → Bool} {markets : Finset MarketId}
    {order : OrderCreatedNotification} :
    offered token markets order = true ↔ order.own.isSome = true ∨
      ∃ market ∈ markets, inMarket token order.details.asset market = true := by
  rw [offered, Bool.or_eq_true, decide_eq_true_eq]

/-- A message that the server may send on its own. -/
theorem carried_pushable {token : AssetId → Bool} {n : Net} {delivery : Delivery} {msg : Message}
    (hallowed : pushable token n.markets delivery = true)
    (hmsg : forward (.response delivery) = some msg) : Carried (n.lists token) msg := by
  cases delivery with
  | notification notification =>
    cases hmsg
    cases notification with
    | orderCreated order =>
      intro order' horder
      rw [List.mem_singleton.mp horder]
      exact offered_iff.mp hallowed
    | _ => exact .of_nil rfl
  | subscribe | unsubscribe => cases hallowed
  | answer => cases hmsg
  | pegStatus | loadPrices | assetDetails =>
    cases hmsg
    exact .of_nil rfl

/-- The server's side after a request. -/
theorem Net.request_tidied {token : AssetId → Bool} {n net : Net} {w : World} {inbox : List Message}
    {orders : List OrderCreatedNotification} {req : Request}
    (hserved : n.request token orders req = some net)
    (htidy : Tidied (n.lists token) (Foreign (n.lists token) w)
      (inbox ++ n.frames.filterMap (forward ∘ .response))) :
    Tidied (net.lists token) (Foreign (net.lists token) w)
      (inbox ++ net.frames.filterMap (forward ∘ .response)) := by
  cases req
  -- the server knows one more market, and it answers with the orders of that market
  case subscribe market =>
    simp only [Net.request] at hserved
    split at hserved
    · rename_i hoffered
      cases hserved
      rw [List.filterMap_append, ← List.append_assoc]
      refine (Tidied.snoc _ _ _).symm ▸ .inr ⟨?_, fun order horder => ?_⟩
      · -- the market is one more
        have hlists : ∀ asset, n.lists token asset →
            Net.lists token ⟨insert market n.markets, n.frames ++ [.subscribe ⟨market, orders⟩]⟩ asset := by
          rintro asset ⟨m, hm, hasset⟩
          exact ⟨m, Finset.mem_insert_of_mem hm, hasset⟩
        exact htidy.mono hlists (Foreign.mono hlists)
      · -- the orders of the answer are about the market just subscribed
        refine (offered_iff.mp (List.all_eq_true.mp hoffered order horder)).imp_right ?_
        rintro ⟨m, hm, hasset⟩
        rw [Finset.mem_singleton.mp hm] at hasset
        exact ⟨market, Finset.mem_insert_self _ _, hasset⟩
    · cases hserved
  -- the answer clears the list
  case unsubscribe market =>
    cases hserved
    rw [List.filterMap_append, ← List.append_assoc]
    exact (Tidied.snoc _ _ _).symm ▸ .inl rfl
  -- other requests do not change what is listed
  all_goals
    cases hserved
    exact htidy

/-- A step of the connection keeps the queue tidy. -/
theorem MarketSystem.Tidy.reacts {token : AssetId → Bool} {s s' : MarketSystem}
    {orders : List OrderCreatedNotification} {input : Ws.Input Request Delivery} (hs : s.Tidy token)
    (hclosed : s.phase ≠ .connected → s.net = .closed) (hsilent : inputMessage input = none)
    (hreacts : s.Reacts token s.net orders input s') : s'.Tidy token := by
  -- without a connection the server has no side
  have hsame : s.phase ≠ .connected →
      ({ s with net := .closed } : MarketSystem).Tidy token := by
    intro hphase
    rw [← hclosed hphase]
    exact hs
  cases hreacts with
  | closed phase read => exact .closed rfl rfl rfl
  | dropped phase read other => exact hsame (by rw [phase]; decide)
  | called phase read => exact hsame (by rw [phase]; decide)
  | failed phase => exact hsame (by rw [phase]; decide)
  | opened phase => exact Tidied.insert rfl (hsame (by rw [phase]; decide))
  | requested phase read served => exact Net.request_tidied served hs
  | ignored phase read => exact hs
  | stayed phase =>
    rw [hsilent]
    show Tidied _ _ (s.inbox ++ [] ++ _)
    rw [List.append_nil]
    exact hs

/-- Nothing is queued at first. -/
theorem tidy_fresh (token : AssetId → Bool) (w : World) :
    (MarketSystem.fresh ((boot h w).life)).Tidy token := by
  have hload : Refines OrderFrame (ignoreError (loadAssets h) : Worker Empty Unit) :=
    ignoreError_effects loadAssets_effects
  have hlast : (boot h w : Outcome Empty World Unit).state.data.ordersLast = ∅ :=
    (hload.chain (freshStart h w)).invariant (I := fun v => v.data.ordersLast = ∅)
      (fun _ _ hstep hv => hstep.last.trans hv) rfl
  intro X order hlisted
  rw [MarketSystem.fresh, System.fresh, Outcome.life_state, hlast, Map.lookup_empty] at hlisted
  cases hlisted

/-- The invariant of the list, as long as the process lives. -/
def Tidies (token : AssetId → Bool) (s : MarketSystem) : Prop :=
  s.worker.alive = true → s.Tidy token

/-- Every step keeps the queue tidy. -/
theorem Tidies.act (hh : h.ListsOwn) {s s' : MarketSystem} {token : AssetId → Bool} {a : Action}
    (hs : Tidies token s) (hwatches : Watches s) (hact : s.act h token a = some s') :
    Tidies token s' := by
  intro halive
  cases MarketSystem.act_cases hact with
  -- a message from outside carries no orders
  | arrive islocal =>
    refine Tidied.insert ?_ (hs halive)
    rename_i msg
    cases msg <;> first | rfl | cases islocal
  -- the worker handles the next message of the inbox
  | handle alive idle queue =>
    rename_i msg rest
    have htidy := hs alive
    rw [MarketSystem.Tidy, MarketSystem.pending, queue, List.cons_append, Tidied.cons] at htidy
    unfold MarketSystem.handled at halive ⊢
    cases hhandle : (machine h).handle msg s.worker.state with
    | error e w' => exact e.elim
    | abort w' =>
      rw [hhandle] at halive
      cases halive
    | ok u w' => exact htidy.mono (fun _ hP => hP) fun hbefore => handle_foreign hh hbefore hhandle
  | send alive pending => exact hs alive
  | react alive silent reads =>
    exact (hs alive).reacts (hwatches alive).2.closed silent (MarketSystem.input_cases reads halive)
  -- the frame that is read moves from the network to the inbox
  | receive alive frames reads =>
    rename_i message rest
    have htidy := hs alive
    rw [MarketSystem.Tidy, MarketSystem.pending, frames, ← List.singleton_append (x := message),
      List.filterMap_append, ← List.append_assoc] at htidy
    rw [MarketSystem.input_message reads]
    exact htidy
  -- the server sends only what the subscribed markets list
  | push up allowed =>
    rename_i delivery
    show Tidied _ _ (s.inbox ++ (s.net.frames ++ [delivery]).filterMap (forward ∘ .response))
    rw [List.filterMap_append, ← List.append_assoc]
    cases hforward : forward (.response delivery) with
    | none =>
      have hnil : [delivery].filterMap (forward ∘ .response) = [] := List.filterMap_cons_none hforward
      rw [hnil, List.append_nil]
      exact hs halive
    | some msg =>
      have hsome : [delivery].filterMap (forward ∘ .response) = [msg] :=
        List.filterMap_cons_some hforward
      rw [hsome]
      exact (Tidied.snoc _ _ _).symm ▸ .inr ⟨hs halive, carried_pushable allowed hforward⟩
  -- a new process shows no orders
  | restart => exact tidy_fresh token s.worker.state

/-! ### Runs -/

/-- Nothing is on its way between the worker and its connection. -/
def MarketSystem.Quiet (s : MarketSystem) : Prop := s.outbox = [] ∧ s.toWs = [] ∧ s.inbox = []

/-- The server has the market of the wallet, and once its messages have arrived the list holds own
orders and orders of that market only. -/
def MarketSystem.OneMarket (token : AssetId → Bool) (s : MarketSystem) : Prop :=
  s.net.markets = (watched s.worker.state).toFinset ∧
    (s.net.frames = [] → ∀ (X : OrderId) (order : Order),
      s.worker.state.data.ordersLast[X]? = some order →
        order.own = true ∨ ∃ market ∈ watched s.worker.state, inMarket token order.assetId market = true)

/-- When all has been read, the server has subscribed what the worker watches. -/
theorem Watching.markets_eq {s : MarketSystem} (hs : Watching s) (hquiet : s.Quiet)
    (hup : s.worker.state.data.connected = true) :
    s.net.markets = (watched s.worker.state).toFinset := by
  obtain ⟨houtbox, hqueue, hinbox⟩ := hquiet
  have houtlook : s.outlook.markets = s.net.markets := by
    rw [MarketSystem.outlook, hqueue, houtbox]
    rfl
  rw [← houtlook]
  refine Finset.Subset.antisymm hs.only (hs.all hup ?_ ?_)
  · rw [hinbox]
    exact List.not_mem_nil
  · rw [hqueue, houtbox]
    exact List.not_mem_nil

/-- In every run in which the market is changed while the worker is connected, or while the server
neither has a market nor will have one, the server has the market of the wallet whenever the worker
is connected and nothing is on its way. -/
theorem one_market_subscribed (hh : h.ListsOwn) {token : AssetId → Bool} {actions : List Action}
    {s : MarketSystem}
    (horderly : Runs.Meets (MarketSystem.act h token) (fun s a => s.orderly a = true) (.start h) actions)
    (hrun : Runs.run (MarketSystem.act h token) (.start h) actions = some s)
    (halive : s.worker.alive = true) (hquiet : s.Quiet)
    (hup : s.worker.state.data.connected = true) : s.OneMarket token := by
  have hinitial : Watches (MarketSystem.start h) ∧ Tidies token (MarketSystem.start h) :=
    ⟨fun _ => ⟨linked_boot _, watching_fresh _⟩, fun _ => tidy_fresh token _⟩
  obtain ⟨hwatches, htidies⟩ := Runs.run_invariant (I := fun s => Watches s ∧ Tidies token s)
    (fun _ _ _ hs horderly hact => ⟨hs.1.act horderly hact, hs.2.act hh hs.1 hact⟩) actions hinitial
    horderly hrun
  have hmarkets := (hwatches halive).2.markets_eq hquiet hup
  refine ⟨hmarkets, fun hframes X order hlisted => ?_⟩
  have hforeign : Foreign (s.net.lists token) s.worker.state := by
    have htidy := htidies halive
    rw [MarketSystem.Tidy, MarketSystem.pending, hquiet.2.2, hframes] at htidy
    exact htidy
  refine (hforeign X order hlisted).imp_right ?_
  rintro ⟨market, hmarket, hasset⟩
  rw [hmarkets, List.mem_toFinset] at hmarket
  exact ⟨market, hmarket, hasset⟩

namespace Sample

/-- The connection takes the requests of the current handler to the server. -/
def deliverAll (h : Host) (actions : List Action) : List Action :=
  match Runs.run (MarketSystem.act h fun _ => false) (.start h) actions with
  | some s => actions ++ s.outbox.flatMap fun req => [.send, .react (.request req) []]
  | none => actions

/-- The connection is being made. -/
def calling : List Action := [.arrive loginMessage, .handle, .send, .react (.request .connect) []]

/-- The user opens the market of an asset. -/
def subscribeMessage (asset : AssetId) : Message := .ui (.subscribe .asset (some asset))

/-- The wallet is connected and then changes to the market of gold, which has one order. -/
def goldMarket : List Action :=
  deliverAll marketHost (calling ++ [.react (.dialed true) [], .handle]) ++
    [.arrive (subscribeMessage gold), .handle, .send,
      .react (.request (.request (.subscribe (some gold)))) [goldOrder], .receive, .handle]

/-- The market is changed twice while the thread tries to connect. -/
def twoMarkets : List Action :=
  deliverAll marketHost
    (calling ++
      [.arrive (subscribeMessage gold), .handle, .send, .arrive (subscribeMessage silver), .handle, .send,
        .react (.dialed true) [], .react (.request (.request (.subscribe (some gold)))) [goldOrder],
        .react (.request (.request (.subscribe (some silver)))) [], .handle]) ++
    [.receive, .handle, .receive, .handle, .receive, .handle]

/-- The system after a run of the sample host. -/
def after (actions : List Action) : Option MarketSystem :=
  Runs.run (MarketSystem.act marketHost fun _ => false) (.start marketHost) actions

theorem goldMarket_runs : (after goldMarket).isSome = true := by decide +kernel

theorem twoMarkets_runs : (after twoMarkets).isSome = true := by decide +kernel

theorem marketHost_listsOwn : marketHost.ListsOwn := by
  intro n sessionId resp hresp order horder
  cases hresp
  cases horder

end Sample

theorem one_market_subscribed_gold :
    let s := (Sample.after Sample.goldMarket).get Sample.goldMarket_runs
    watched s.worker.state = [some Sample.gold] ∧
      s.worker.state.data.ordersLast.contains Sample.goldOrder.orderId = true ∧
      s.OneMarket fun _ => false := by
  intro s
  have hrun : Sample.after Sample.goldMarket = some s := (Option.some_get _).symm
  refine ⟨by decide +kernel, by decide +kernel, ?_⟩
  exact one_market_subscribed Sample.marketHost_listsOwn (by decide +kernel) hrun (by decide +kernel)
    ⟨by decide +kernel, by decide +kernel, by decide +kernel⟩ (by decide +kernel)

theorem one_market_subscribed_connecting :
    ¬ ∀ (h : Host) (token : AssetId → Bool) (actions : List Action) (s : MarketSystem), h.ListsOwn →
      Runs.run (MarketSystem.act h token) (.start h) actions = some s → s.worker.alive = true →
      s.Quiet → s.worker.state.data.connected = true → s.OneMarket token := by
  intro hall
  let s := (Sample.after Sample.twoMarkets).get Sample.twoMarkets_runs
  have hrun : Sample.after Sample.twoMarkets = some s := (Option.some_get _).symm
  have hmarkets : s.net.markets = (watched s.worker.state).toFinset :=
    (hall Sample.marketHost (fun _ => false) Sample.twoMarkets s Sample.marketHost_listsOwn hrun
      (by decide +kernel) ⟨by decide +kernel, by decide +kernel, by decide +kernel⟩ (by decide +kernel)).1
  revert hmarkets
  decide +kernel

end SideSwap.Client
