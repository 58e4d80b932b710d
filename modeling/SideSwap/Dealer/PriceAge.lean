import SideSwap.Dealer.SignsOffers
import SideSwap.Dealer.Worker
import SideSwap.Lib.Runs

/-!
# The age of the prices that the dealer uses

An index price is meant to be used for a minute (`priceExpirationTime`).  It is dropped in one place
only: at the end of the handler of a `Timer`, after the handler has used it, and whatever the
requests of the handler took.  The handler of a `Sign` does not look at the age at all.

`Timed` is a message with the moments at which its handler gets to its requests.  `Feed` follows the
messages about prices, and nothing else: the moment of the price in force for each ticker.  A dealer
whose requests all leave within a minute of the price in force (`Timely`) never uses an older one
(`decisions_fresh`).
-/

namespace SideSwap.Dealer

open Call

/-! ### Decisions -/

/-- The requests that commit the dealer to a price. -/
inductive Commitment where
  | submit (key : OwnOrderKey)
  | edit (key : OwnOrderKey)
  | take (orderId : OrderId)
  | sign (orderId : OrderId)
deriving DecidableEq

/-- A request, the index price in the table when it was decided on, and when it was sent. -/
structure PriceUse where
  request : Commitment
  index : Option PriceTimestamp
  time : ℕ

/-- The price was at most `priceExpirationTime` old. -/
def PriceUse.Fresh (d : PriceUse) : Prop :=
  ∃ p, d.index = some p ∧ d.time ≤ p.timestamp + priceExpirationTime

/-- A message with the moment it is taken from the queue and the moments at which its handler sends
the request about a slot, about an order of someone else, and for a signature. -/
structure Timed where
  msg : Msg
  received : ℕ
  update : OwnOrderKey → ℕ
  take : OrderId → ℕ
  sign : ℕ

/-- The answers of a server that refuses everything. -/
def Replies.refused : Replies := { submit := none, addr := false, edit := false, cancel := false }

/-- The first request of `updatePrice` does not depend on the answers. -/
def firstRequest (params : Params) (w : Worker) (key : OwnOrderKey) (own : Option OwnOrder) :
    Option Exchange :=
  (updatePrice params w.assets w.indexPrices w.balances w.utxos key own .refused).bind
    fun result => result.2.head?

/-- What a request commits the dealer to; an address and a cancellation are no commitment to a
price. -/
def Exchange.commitment (key : OwnOrderKey) : Exchange → Option Commitment
  | .submit _ _ _ => some (.submit key)
  | .edit _ _ _ => some (.edit key)
  | .addr _ _ => none
  | .cancel _ _ => none

/-- The price that the update of one slot relies on. -/
def slotUses (params : Params) (w : Worker) (m : Timed) (key : OwnOrderKey)
    (own : Option OwnOrder) : List PriceUse :=
  ((firstRequest params w key own).bind (Exchange.commitment key)).toList.map fun request =>
    { request := request, index := w.indexPrices key.ticker, time := m.update key }

/-- The uses in the first loop of the tick, until it panics. -/
def updateUses (params : Params) (w : Worker) (m : Timed) (answers : Answers) :
    List OwnOrderKey → (OwnOrderKey → Option OwnOrder) → List PriceUse
  | [], _ => []
  | key :: rest, own =>
    slotUses params w m key (own key) ++
      match updatePrice params w.assets w.indexPrices w.balances w.utxos key (own key)
        (answers.update key) with
      | none => []
      | some (slot, _) => updateUses params w m answers rest (Function.update own key slot)

/-- The ticker whose index price `takeOrder` looks up. -/
def tickerOf (assets : List Asset) (details : Details) : Option DealerTicker :=
  (assets.find? fun asset => asset.assetId = details.asset).bind fun asset =>
    DealerTicker.ofName asset.ticker

/-- The index price that `takeOrder` looks up. -/
def Worker.indexOf (w : Worker) (details : Details) : Option PriceTimestamp :=
  (tickerOf w.assets details).bind w.indexPrices

/-- The uses in the second loop of the tick, until it panics. -/
def takeUses (params : Params) (w : Worker) (m : Timed) (answers : Answers) :
    List (OrderId × Details) → List OrderId → List PriceUse
  | [], _ => []
  | (orderId, details) :: rest, taken =>
    if orderId ∈ taken then takeUses params w m answers rest taken
    else
      match takeOrder params w.assets details w.balances w.indexPrices params.interestSubmit with
      | .error .panic => []
      | .error (.error _) => takeUses params w m answers rest taken
      | .ok () =>
        match getPset params details w.utxos false with
        | .error .panic => []
        | .error (.error _) => takeUses params w m answers rest taken
        | .ok _ =>
          { request := .take orderId, index := w.indexOf details, time := m.take orderId } ::
            takeUses params w m answers rest
              (if answers.take orderId then orderId :: taken else taken)

/-- The uses of index prices while a message is handled. -/
def uses (params : Params) (w : Worker) (m : Timed) : List PriceUse :=
  match m.msg with
  | .timer answers =>
    (if w.serverConnected then updateUses params w m answers params.keys w.ownOrders else []) ++
      match updateSlots params w answers with
      | none => []
      | some _ => takeUses params w m answers w.orders.toList w.takenOrders
  | .sign orderId details =>
    match takeOrder params w.assets details w.balances w.indexPrices params.interestSign with
    | .ok () => [{ request := .sign orderId, index := w.indexOf details, time := m.sign }]
    | .error _ => []
  | _ => []

/-- The moments of a handler, in the order in which it gets to them. -/
def moments (params : Params) (w : Worker) (m : Timed) : List ℕ :=
  m.received ::
    match m.msg with
    | .timer answers =>
      (if w.serverConnected then params.keys.map m.update else [])
        ++ w.orders.toList.map (fun o => m.take o.1) ++ [answers.now]
    | .sign _ _ => [m.sign]
    | .price _ _ now => [now]
    | _ => []

/-! ### The price feed -/

/-- For each ticker the moment of the price in force. -/
abbrev Feed := DealerTicker → Option ℕ

/-- A price is in force until it is renewed or withdrawn, or a `Timer` ends after it has expired. -/
def Feed.next (feed : Feed) : Msg → Feed
  | .price ticker price now => Function.update feed ticker (price.map fun _ => now)
  | .resetPrices => fun _ => none
  | .timer answers => fun ticker =>
    (feed ticker).filter fun since => answers.now - since ≤ priceExpirationTime
  | _ => feed

/-- A request about this ticker at this moment comes in time for the price in force. -/
def Feed.InTime (feed : Feed) (ticker : DealerTicker) (time : ℕ) : Prop :=
  ∀ since ∈ feed ticker, time ≤ since + priceExpirationTime

instance (feed : Feed) (ticker : DealerTicker) (time : ℕ) : Decidable (feed.InTime ticker time) :=
  inferInstanceAs (Decidable (∀ _ ∈ _, _))

/-- The dealer with the feed that it has seen. -/
structure Fed where
  worker : Worker
  feed : Feed

/-- A dealer that has been told no price. -/
def Fed.init : Fed := { worker := .init, feed := fun _ => none }

/-- A message, with the prices in force after it. -/
def Fed.step (params : Params) (s : Fed) (m : Timed) : Option Fed :=
  (handle params s.worker m.msg).map fun h => { worker := h.worker, feed := s.feed.next m.msg }

/-- The tickers that the requests of a handler may be about, with the moments of the requests: about
the slots, about the orders that are not taken yet, for a signature. -/
def requestTimes (params : Params) (w : Worker) (m : Timed) : List (DealerTicker × ℕ) :=
  match m.msg with
  | .timer _ =>
    (if w.serverConnected then params.keys.map fun key => (key.ticker, m.update key) else []) ++
      (w.orders.toList.filter fun order => order.1 ∉ w.takenOrders).filterMap fun order =>
        (tickerOf w.assets order.2).map fun ticker => (ticker, m.take order.1)
  | .sign _ details => (tickerOf w.assets details).toList.map fun ticker => (ticker, m.sign)
  | _ => []

/-- The requests of this handler all leave in time. -/
def Timely (params : Params) (s : Fed) (m : Timed) : Prop :=
  ∀ request ∈ requestTimes params s.worker m, s.feed.InTime request.1 request.2

instance (params : Params) (s : Fed) (m : Timed) : Decidable (Timely params s m) :=
  inferInstanceAs (Decidable (∀ _ ∈ _, _))

/-! ### Every use has a price -/

section

variable {params : Params} {w : Worker} {m : Timed} {key : OwnOrderKey} {own own' : Option OwnOrder}
  {r : Replies} {trace : List Exchange} {answers : Answers}

/-- Without an index price the dealer submits and edits nothing. -/
theorem index_of_firstRequest {request : Commitment}
    (h : (firstRequest params w key own).bind (Exchange.commitment key) = some request) :
    ∃ p, w.indexPrices key.ticker = some p := by
  cases hindex : w.indexPrices key.ticker with
  | some p => exact ⟨p, rfl⟩
  | none =>
    unfold firstRequest updatePrice at h
    cases hasset : w.assets.find? fun asset => asset.ticker = key.ticker.name with
    | none =>
      rw [hasset] at h
      cases h
    | some asset =>
      cases own with
      | none =>
        simp only [hasset, hindex, Option.map_none, Option.bind_eq_bind, Option.bind_some] at h
        cases h
      | some o =>
        simp only [hasset, hindex, Option.map_none, Option.bind_eq_bind, Option.bind_some] at h
        cases h

/-- An order passes only with an index price. -/
theorem indexOf_of_takeOrder {details : Details} {all : AllBalances} {interest : ℚ}
    (h : takeOrder params w.assets details all w.indexPrices interest = .ok ()) :
    ∃ ticker p, tickerOf w.assets details = some ticker ∧ w.indexPrices ticker = some p := by
  unfold takeOrder at h
  simp only [bind_eq_ok, unwrap_eq_ok, okOr_eq_ok] at h
  obtain ⟨_, -, _, -, asset, hasset, ticker, hticker, _, -, p, hp, -⟩ := h
  refine ⟨ticker, p, ?_, hp⟩
  rw [tickerOf, hasset, Option.bind_some, hticker]

/-! ### The feed is the table -/

/-- The moments in a table of prices. -/
def stamps (prices : IndexPrices) : Feed := fun ticker => (prices ticker).map (·.timestamp)

/-- A new price brings its time. -/
theorem stamps_update (prices : IndexPrices) (ticker : DealerTicker)
    (price : Option PriceTimestamp) :
    stamps (Function.update prices ticker price)
      = Function.update (stamps prices) ticker (price.map (·.timestamp)) := by
  funext t
  by_cases ht : t = ticker
  · rw [ht, stamps, Function.update_self, Function.update_self]
  · rw [stamps, Function.update_of_ne ht, Function.update_of_ne ht, stamps]

/-- A price that expires takes its time with it. -/
theorem stamps_expirePrices (prices : IndexPrices) (now : ℕ) :
    stamps (expirePrices prices now) = fun ticker =>
      (stamps prices ticker).filter fun since => now - since ≤ priceExpirationTime := by
  funext t
  simp only [stamps, expirePrices]
  cases prices t with
  | none => rfl
  | some p =>
    simp only [Option.filter_some, Option.map_some]
    split <;> rfl

/-- The tick touches the prices only at its end. -/
theorem tick_indexPrices {h : Handled} (hrun : tick params w answers = some h) :
    h.worker.indexPrices = expirePrices w.indexPrices answers.now := by
  simp only [tick, Option.bind_eq_bind, Option.bind_eq_some_iff, Option.pure_def] at hrun
  obtain ⟨_, -, _, -, hrun⟩ := hrun
  cases hrun
  rfl

/-- The messages about prices are all that moves the table. -/
theorem handle_stamps {msg : Msg} {h : Handled} (hrun : handle params w msg = some h) :
    stamps h.worker.indexPrices = (stamps w.indexPrices).next msg := by
  -- only a price and the timer touch the prices
  cases msg with
  | connected assets loginOrders subscribed =>
    simp only [handle, connected] at hrun
    split at hrun
    · cases hrun
      rfl
    · cases hrun
  | sign orderId details =>
    simp only [handle, signOrder] at hrun
    split at hrun
    · cases hrun
    · cases hrun
      rfl
    · cases hrun
      rfl
  | complete orderId txid =>
    simp only [handle, completed, Option.map_eq_some_iff] at hrun
    obtain ⟨reports, -, rfl⟩ := hrun
    rfl
  -- the price is stamped with the time at which it is handled
  | price ticker price now =>
    cases hrun
    show stamps (Function.update _ _ _) = _
    rw [stamps_update, Option.map_map]
    rfl
  -- the timer forgets the prices that are too old
  | timer answers =>
    rw [tick_indexPrices hrun, stamps_expirePrices]
    rfl
  | _ =>
    cases hrun
    rfl

/-! ### Fresh prices -/

/-- A price in the table whose moment is in time is fresh. -/
theorem fresh_of_inTime {request : Commitment} {ticker : DealerTicker} {p : PriceTimestamp}
    {time : ℕ} (hp : w.indexPrices ticker = some p)
    (htime : (stamps w.indexPrices).InTime ticker time) :
    PriceUse.Fresh { request := request, index := some p, time := time } := by
  refine ⟨p, rfl, htime p.timestamp ?_⟩
  rw [stamps, hp]
  rfl

/-- A slot that is updated in time uses a fresh price. -/
theorem slotUses_fresh (htime : (stamps w.indexPrices).InTime key.ticker (m.update key)) :
    ∀ d ∈ slotUses params w m key own, d.Fresh := by
  intro d hd
  rw [slotUses, List.mem_map] at hd
  obtain ⟨request, hrequest, rfl⟩ := hd
  obtain ⟨p, hp⟩ := index_of_firstRequest (Option.mem_toList.mp hrequest)
  rw [hp]
  exact fresh_of_inTime hp htime

/-- So does the whole first loop of a tick. -/
theorem updateUses_fresh : ∀ (keys : List OwnOrderKey) {own : OwnOrderKey → Option OwnOrder},
    (∀ key ∈ keys, (stamps w.indexPrices).InTime key.ticker (m.update key)) →
    ∀ d ∈ updateUses params w m answers keys own, d.Fresh := by
  intro keys
  induction keys with
  | nil =>
    intro own _ d hd
    cases hd
  | cons key rest ih =>
    intro own htime d hd
    rw [updateUses, List.mem_append] at hd
    rcases hd with hd | hd
    · exact slotUses_fresh (htime key List.mem_cons_self) d hd
    · split at hd
      · cases hd
      · exact ih (fun key hkey => htime key (List.mem_cons_of_mem _ hkey)) d hd

/-- An order that is taken in time is taken at a fresh price. -/
theorem indexOf_fresh {details : Details} {all : AllBalances} {interest : ℚ} {request : Commitment}
    {time : ℕ} (h : takeOrder params w.assets details all w.indexPrices interest = .ok ())
    (htime : ∀ ticker ∈ tickerOf w.assets details, (stamps w.indexPrices).InTime ticker time) :
    PriceUse.Fresh { request := request, index := w.indexOf details, time := time } := by
  obtain ⟨ticker, p, hticker, hp⟩ := indexOf_of_takeOrder h
  rw [Worker.indexOf, hticker, Option.bind_some, hp]
  exact fresh_of_inTime hp (htime ticker hticker)

/-- So is every order of the second loop. -/
theorem takeUses_fresh : ∀ (orders : List (OrderId × Details)) {taken : List OrderId},
    (∀ order ∈ orders, order.1 ∉ taken → ∀ ticker ∈ tickerOf w.assets order.2,
      (stamps w.indexPrices).InTime ticker (m.take order.1)) →
    ∀ d ∈ takeUses params w m answers orders taken, d.Fresh := by
  intro orders
  induction orders with
  | nil =>
    intro taken _ d hd
    cases hd
  | cons order rest ih =>
    obtain ⟨orderId, details⟩ := order
    intro taken htime d hd
    have hrest : ∀ order ∈ rest, order.1 ∉ taken → ∀ ticker ∈ tickerOf w.assets order.2,
        (stamps w.indexPrices).InTime ticker (m.take order.1) :=
      fun order horder => htime order (List.mem_cons_of_mem _ horder)
    rw [takeUses] at hd
    -- an order taken before is passed over
    split at hd
    · exact ih hrest d hd
    · next hnew =>
      split at hd
      · -- a panic ends the handler
        cases hd
      · exact ih hrest d hd
      · next hok =>
        split at hd
        · cases hd
        · exact ih hrest d hd
        · rw [List.mem_cons] at hd
          rcases hd with rfl | hd
          · exact indexOf_fresh hok (htime (orderId, details) List.mem_cons_self hnew)
          · -- taking this order only makes the list of taken orders longer
            refine ih (fun order horder htaken => hrest order horder fun hmem => htaken ?_) d hd
            split
            · exact List.mem_cons_of_mem _ hmem
            · exact hmem

/-- A handler whose requests leave in time uses fresh prices only. -/
theorem uses_fresh {feed : Feed} (hfeed : feed = stamps w.indexPrices)
    (htime : Timely params ⟨w, feed⟩ m) : ∀ d ∈ uses params w m, d.Fresh := by
  subst hfeed
  unfold Timely requestTimes at htime
  unfold uses
  split
  · -- the timer: first the own orders, then the orders of others
    next answers hmsg =>
    rw [hmsg, List.forall_mem_append] at htime
    obtain ⟨hslots, horders⟩ := htime
    intro d hd
    rw [List.mem_append] at hd
    rcases hd with hd | hd
    · split at hd
      · next hconnected =>
        rw [if_pos hconnected, List.forall_mem_map] at hslots
        exact updateUses_fresh params.keys hslots d hd
      · cases hd
    · split at hd
      · cases hd
      · refine takeUses_fresh _ (fun order horder hnew ticker hticker => ?_) d hd
        apply horders (ticker, m.take order.1)
        rw [List.mem_filterMap]
        refine ⟨order, List.mem_filter.mpr ⟨horder, decide_eq_true hnew⟩, ?_⟩
        rw [Option.mem_def.mp hticker, Option.map_some]
  · -- a sign request uses one price, if any
    next orderId details hmsg =>
    rw [hmsg, List.forall_mem_map] at htime
    intro d hd
    split at hd
    · next hok =>
      rw [List.mem_singleton] at hd
      rw [hd]
      exact indexOf_fresh hok fun ticker hticker => htime ticker (Option.mem_toList.mpr hticker)
    · cases hd
  · -- other messages use none
    intro d hd
    cases hd

end

/-! ### Runs -/

/-- Everything that the dealer decides in a run. -/
def decisions (params : Params) (ms : List Timed) : List PriceUse :=
  Runs.outputs (Fed.step params) (fun s m => uses params s.worker m) .init ms

/-- The moments of a run, in the order in which the dealer gets to them. -/
def timeline (params : Params) (ms : List Timed) : List ℕ :=
  Runs.outputs (Fed.step params) (fun s m => moments params s.worker m) .init ms

/-- In every run whose requests all leave in time for the price in force, no decision uses a price
that is older than `priceExpirationTime`. -/
theorem decisions_fresh (params : Params) (ms : List Timed)
    (timely : Runs.Meets (Fed.step params) (Timely params) .init ms) :
    ∀ d ∈ decisions params ms, d.Fresh := by
  have hstart : Fed.init.feed = stamps Fed.init.worker.indexPrices := rfl
  refine Runs.outputs_invariant (I := fun s => s.feed = stamps s.worker.indexPrices) ?_ ?_ ms
    hstart timely
  · intro s m s' hs _ hstep
    simp only [Fed.step, Option.map_eq_some_iff] at hstep
    obtain ⟨h, hrun, rfl⟩ := hstep
    show s.feed.next m.msg = _
    rw [handle_stamps hrun, hs]
  · intro s m hs htime
    exact uses_fresh hs htime

/-! ### A signature after a minute -/

namespace Sample

/-- An order to sell one bitcoin well above the index price. -/
def sold : Details :=
  { asset := tether.assetId, bitcoinAmount := 100000000, assetAmount := 2100000000000
    price := 21000, serverFee := 100000, sendBitcoins := true }

/-- A message whose handler does everything at one moment. -/
def handledAt (time : ℕ) (msg : Msg) : Timed :=
  { msg := msg, received := time, update := fun _ => time, take := fun _ => time, sign := time }

/-- A wallet with two bitcoins, a price at the start, and a request to sign at some moment. -/
def signedAt (time : ℕ) : List Timed :=
  [handledAt 0 (.connected assets [] []),
    handledAt 0 (.reloadUtxo [⟨"coin", 0, ⟨"bitcoin"⟩, 200000000, 1⟩]),
    handledAt 0 (.price .usdt (some ⟨20000, 20000⟩) 0),
    handledAt time (.sign ⟨"order"⟩ sold)]

end Sample

/-- A request to sign after half a minute is in time. -/
theorem signs_with_fresh_price :
    (decisions Sample.params (Sample.signedAt 30000)).map (fun d => (d.request, d.time))
        = [(.sign ⟨"order"⟩, 30000)] ∧
      ∀ d ∈ decisions Sample.params (Sample.signedAt 30000), d.Fresh :=
  ⟨by decide +kernel, decisions_fresh Sample.params (Sample.signedAt 30000) (by decide +kernel)⟩

/-- The dealer signs with a price that is 61 seconds old. -/
theorem signs_with_stale_price :
    ¬ ∀ (params : Params) (ms : List Timed), params.Accepted →
      (timeline params ms).Pairwise (· ≤ ·) → ∀ d ∈ decisions params ms, d.Fresh := by
  intro hall
  have hfresh := hall Sample.params (Sample.signedAt 61000) Sample.params_accepted
    (by decide +kernel)
  have hages : (decisions Sample.params (Sample.signedAt 61000)).map
      (fun d => (d.index.map (·.timestamp), d.time)) = [(some 0, 61000)] := by decide +kernel
  obtain ⟨d, hd⟩ := List.length_eq_one_iff.mp (by simpa using congrArg List.length hages)
  obtain ⟨p, hp, htime⟩ := hfresh d (by simp [hd])
  simp only [hd, hp, List.map_cons, List.map_nil, Option.map_some, List.cons.injEq, Prod.mk.injEq,
    Option.some.injEq, and_true] at hages
  obtain ⟨hstamp, hmoment⟩ := hages
  rw [hstamp, hmoment] at htime
  exact absurd htime (by decide)

end SideSwap.Dealer
