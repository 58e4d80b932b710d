import SideSwap.Client.Connection
import SideSwap.Lib.Runs
import Mathlib.Data.Finset.SDiff
import Mathlib.Data.Finset.Lattice.Lemmas

/-!
# The server and its markets

The system of the worker and its connection together with a server that keeps a set of markets for
each connection.  A market is an asset, or `none` for the market of all tokens.  The server reads
the requests in the order in which the connection sends them, adds a market on `Subscribe`, removes
it on `Unsubscribe` and answers both.  It announces own orders and the orders of its markets at any
time.

`act` is one step of the system.  A run is a list of actions, so that every interleaving of the user
interface, the worker, the connection and the server is one.

`outlook` is what the server will have once the queue to the connection has been read.
-/

namespace SideSwap.Client

/-! ### The server -/

/-- A market: that of an asset, or that of all tokens. -/
abbrev MarketId : Type := Option AssetId

/-- The server's side of a connection: its markets, and what it has sent. -/
structure Net where
  markets : Finset MarketId
  frames : List Delivery

/-- No connection. -/
def Net.closed : Net := ⟨∅, []⟩

/-- What the server does with a request to its set of markets. -/
def serve (markets : Finset MarketId) : Request → Finset MarketId
  | .subscribe market => insert market markets
  | .unsubscribe market => markets.erase market
  | _ => markets

/-- The orders of an asset are in the market; `token` says which assets are tokens. -/
def inMarket (token : AssetId → Bool) (asset : AssetId) : MarketId → Bool
  | some market => asset = market
  | none => token asset

/-- An order that the server may announce with these markets. -/
def offered (token : AssetId → Bool) (markets : Finset MarketId) (order : OrderCreatedNotification) :
    Bool :=
  order.own.isSome || decide (∃ market ∈ markets, inMarket token order.details.asset market = true)

/-- What the server may send on its own. -/
def pushable (token : AssetId → Bool) (markets : Finset MarketId) : Delivery → Bool
  | .notification (.orderCreated order) => offered token markets order
  | .subscribe _ | .unsubscribe => false
  | _ => true

/-- The server's side after a request has reached it, with the orders of its answer to
`Subscribe`. -/
def Net.request (token : AssetId → Bool) (n : Net) (orders : List OrderCreatedNotification) :
    Request → Option Net
  | .subscribe market =>
    if orders.all (offered token {market}) then
      some ⟨serve n.markets (.subscribe market), n.frames ++ [.subscribe ⟨market, orders⟩]⟩
    else none
  | .unsubscribe market => some ⟨serve n.markets (.unsubscribe market), n.frames ++ [.unsubscribe]⟩
  | _ => some n

/-- The server's side when the connection reacts: it starts anew with each connection. -/
def Net.react (token : AssetId → Bool) (n : Net) (orders : List OrderCreatedNotification)
    (phase phase' : Ws.Phase) (input : Ws.Input Request Delivery) : Option Net :=
  if phase = .connected ∧ phase' = .connected then
    match input with
    | .request (.request req) => n.request token orders req
    | _ => some n
  else some .closed

/-! ### The system -/

/-- The application with the server at the other end. -/
structure MarketSystem extends System where
  net : Net

/-- A step of one of the parties. -/
inductive Action where
  /-- a message of the user interface or the wallet library -/
  | arrive (msg : Message)
  /-- the worker handles the next message -/
  | handle
  /-- the worker sends the next request of its handler -/
  | send
  /-- The connection reacts, with the orders of the server's answer if it is a `Subscribe`.  The
  messages of the server come with `receive`. -/
  | react (input : Ws.Input Request Delivery) (orders : List OrderCreatedNotification)
  /-- the connection receives the next message of the server -/
  | receive
  /-- the server sends a message on its own -/
  | push (delivery : Delivery)
  | restart

/-- The message of the server in an input. -/
def inputMessage : Ws.Input Request Delivery → Option Delivery
  | .frame (some (.ok message)) => message
  | _ => none

/-- The application before it connects. -/
def MarketSystem.fresh (worker : Life World) : MarketSystem :=
  { System.fresh worker with net := .closed }

/-- The first start of the application. -/
def MarketSystem.start (h : Host) : MarketSystem := .fresh (Client.start h)

/-- The connection thread reads an input; a panic ends the process. -/
def MarketSystem.input (s : MarketSystem) (token : AssetId → Bool) (n : Net)
    (orders : List OrderCreatedNotification) (input : Ws.Input Request Delivery) :
    Option MarketSystem :=
  match dequeue s.toWs input, Ws.react true s.phase input with
  | some toWs, .next phase responses =>
    (n.react token orders s.phase phase input).map fun net =>
      { s with
        phase := phase, toWs := toWs, inbox := s.inbox ++ responses.filterMap forward, net := net }
  | some _, .panic => some { s with worker := ⟨s.worker.state, false⟩ }
  | _, _ => none

/-- The worker handles a message. -/
def MarketSystem.handled (h : Host) (s : MarketSystem) (msg : Message) (rest : List Message) :
    MarketSystem :=
  { s with
    worker := ((machine h).handle msg s.worker.state).life
    outbox := sentSince s.worker.state.log ((machine h).handle msg s.worker.state).state.log
    inbox := rest }

/-- One step of the system, if it can be taken. -/
def MarketSystem.act (h : Host) (token : AssetId → Bool) (s : MarketSystem) :
    Action → Option MarketSystem
  -- a message from outside the worker comes in
  | .arrive msg => if msg.isLocal then some { s with inbox := s.inbox ++ [msg] } else none
  -- messages are handled one by one, when the requests of the last one have gone out
  | .handle =>
    match s.inbox with
    | msg :: rest => if s.worker.alive ∧ s.outbox = [] then some (s.handled h msg rest) else none
    | [] => none
  | .send =>
    match s.outbox with
    | req :: rest =>
      if s.worker.alive then some { s with outbox := rest, toWs := s.toWs ++ [req] } else none
    | [] => none
  -- the thread of the connection takes a step without a message of the server
  | .react input orders =>
    if s.worker.alive ∧ (inputMessage input).isNone then s.input token s.net orders input else none
  | .receive =>
    match s.net.frames with
    | message :: rest =>
      if s.worker.alive then
        s.input token ⟨s.net.markets, rest⟩ [] (.frame (some (.ok (some message))))
      else none
    | [] => none
  -- the server sends a notification that the subscriptions allow
  | .push delivery =>
    if s.phase = .connected ∧ pushable token s.net.markets delivery then
      some { s with net := { s.net with frames := s.net.frames ++ [delivery] } }
    else none
  | .restart => some (.fresh ((boot h s.worker.state).life))

/-- The steps of the system. -/
inductive MarketSystem.Acts (h : Host) (token : AssetId → Bool) (s : MarketSystem) :
    Action → MarketSystem → Prop where
  | arrive {msg : Message} (islocal : msg.isLocal = true) :
      s.Acts h token (.arrive msg) { s with inbox := s.inbox ++ [msg] }
  | handle {msg : Message} {rest : List Message} (alive : s.worker.alive = true) (idle : s.outbox = [])
      (queue : s.inbox = msg :: rest) : s.Acts h token .handle (s.handled h msg rest)
  | send {req : Ws.WrappedRequest Request} {rest : List (Ws.WrappedRequest Request)}
      (alive : s.worker.alive = true) (pending : s.outbox = req :: rest) :
      s.Acts h token .send { s with outbox := rest, toWs := s.toWs ++ [req] }
  | react {input : Ws.Input Request Delivery} {orders : List OrderCreatedNotification}
      {s' : MarketSystem} (alive : s.worker.alive = true) (silent : inputMessage input = none)
      (reads : s.input token s.net orders input = some s') : s.Acts h token (.react input orders) s'
  | receive {message : Delivery} {rest : List Delivery} {s' : MarketSystem}
      (alive : s.worker.alive = true) (frames : s.net.frames = message :: rest)
      (reads : s.input token ⟨s.net.markets, rest⟩ [] (.frame (some (.ok (some message)))) = some s') :
      s.Acts h token .receive s'
  | push {delivery : Delivery} (up : s.phase = .connected)
      (allowed : pushable token s.net.markets delivery = true) :
      s.Acts h token (.push delivery)
        { s with net := { s.net with frames := s.net.frames ++ [delivery] } }
  | restart : s.Acts h token .restart (.fresh ((boot h s.worker.state).life))

/-- What a step can be. -/
theorem MarketSystem.act_cases {h : Host} {token : AssetId → Bool} {s s' : MarketSystem} {a : Action}
    (hact : s.act h token a = some s') : s.Acts h token a s' := by
  -- each action of `act` is guarded; its guard becomes the arguments of the constructor
  cases a with
  | arrive msg =>
    simp only [MarketSystem.act] at hact
    split at hact
    · rename_i hlocal
      cases hact
      exact .arrive hlocal
    · cases hact
  | handle =>
    simp only [MarketSystem.act] at hact
    split at hact
    · rename_i msg rest hinbox
      split at hact
      · rename_i hguard
        cases hact
        exact .handle hguard.1 hguard.2 hinbox
      · cases hact
    · cases hact
  | send =>
    simp only [MarketSystem.act] at hact
    split at hact
    · rename_i req rest houtbox
      split at hact
      · rename_i halive
        cases hact
        exact .send halive houtbox
      · cases hact
    · cases hact
  | react input orders =>
    simp only [MarketSystem.act] at hact
    split at hact
    · rename_i hguard
      exact .react hguard.1 (Option.isNone_iff_eq_none.mp hguard.2) hact
    · cases hact
  | receive =>
    simp only [MarketSystem.act] at hact
    split at hact
    · rename_i message rest hframes
      split at hact
      · rename_i halive
        exact .receive halive hframes hact
      · cases hact
    · cases hact
  | push delivery =>
    simp only [MarketSystem.act] at hact
    split at hact
    · rename_i hguard
      cases hact
      exact .push hguard.1 hguard.2
    · cases hact
  | restart =>
    cases hact
    exact .restart

/-- What the connection thread can do with an input. -/
inductive MarketSystem.Reacts (s : MarketSystem) (token : AssetId → Bool) (n : Net)
    (orders : List OrderCreatedNotification) (input : Ws.Input Request Delivery) :
    MarketSystem → Prop where
  /-- the connection ends -/
  | closed {toWs : List (Ws.WrappedRequest Request)} (phase : s.phase = .connected)
      (read : s.toWs = toWs ∨ s.toWs = .disconnect :: toWs) :
      s.Reacts token n orders input
        { s with
          phase := .waiting, toWs := toWs, inbox := s.inbox ++ [.serverDisconnected], net := .closed }
  /-- a request is dropped -/
  | dropped {req : Ws.WrappedRequest Request} {toWs : List (Ws.WrappedRequest Request)}
      (phase : s.phase = .waiting) (read : s.toWs = req :: toWs) (other : req ≠ .connect) :
      s.Reacts token n orders input { s with toWs := toWs, net := .closed }
  /-- a connection is tried -/
  | called {toWs : List (Ws.WrappedRequest Request)} (phase : s.phase = .waiting)
      (read : s.toWs = .connect :: toWs) :
      s.Reacts token n orders input { s with phase := .connecting, toWs := toWs, net := .closed }
  /-- the attempt fails -/
  | failed (phase : s.phase = .connecting) : s.Reacts token n orders input { s with net := .closed }
  /-- the connection is made -/
  | opened (phase : s.phase = .connecting) :
      s.Reacts token n orders input
        { s with phase := .connected, inbox := s.inbox ++ [.serverConnected], net := .closed }
  /-- a request goes to the server -/
  | requested {req : Request} {toWs : List (Ws.WrappedRequest Request)} {net : Net}
      (phase : s.phase = .connected) (read : s.toWs = .request req :: toWs)
      (served : n.request token orders req = some net) :
      s.Reacts token n orders input { s with toWs := toWs, net := net }
  /-- a command to connect is ignored -/
  | ignored {toWs : List (Ws.WrappedRequest Request)} (phase : s.phase = .connected)
      (read : s.toWs = .connect :: toWs) :
      s.Reacts token n orders input { s with toWs := toWs, net := n }
  /-- a frame or the timer -/
  | stayed (phase : s.phase = .connected) :
      s.Reacts token n orders input
        { s with
          inbox := s.inbox ++ ((inputMessage input).map Ws.WrappedResponse.response).toList.filterMap forward
          net := n }

/-- The request that is taken was the first of the queue. -/
theorem dequeue_request {toWs toWs' : List (Ws.WrappedRequest Request)} {req : Ws.WrappedRequest Request}
    (htaken : dequeue toWs (.request req) = some toWs') : toWs = req :: toWs' := by
  simp only [dequeue] at htaken
  split at htaken
  · rename_i hhead
    cases toWs with
    | nil => cases hhead
    | cons first rest =>
      cases hhead
      cases htaken
      rfl
  · cases htaken

/-- Without a connection at both ends there is none. -/
theorem Net.react_closed {token : AssetId → Bool} {n net : Net} {orders : List OrderCreatedNotification}
    {phase phase' : Ws.Phase} {input : Ws.Input Request Delivery}
    (hphase : ¬ (phase = .connected ∧ phase' = .connected))
    (hnet : n.react token orders phase phase' input = some net) : net = .closed := by
  unfold Net.react at hnet
  rw [if_neg hphase] at hnet
  exact (Option.some.inj hnet).symm

/-- What the connection's thread can do with an input. -/
theorem MarketSystem.input_cases {s s' : MarketSystem} {token : AssetId → Bool} {n : Net}
    {orders : List OrderCreatedNotification} {input : Ws.Input Request Delivery}
    (hinput : s.input token n orders input = some s') (halive : s'.worker.alive = true) :
    s.Reacts token n orders input s' := by
  obtain ⟨⟨worker, outbox, queue, phase₀, inbox⟩, net₀⟩ := s
  unfold MarketSystem.input at hinput
  split at hinput
  · rename_i toWs phase responses htaken hreact
    obtain ⟨net, hnet, rfl⟩ := Option.map_eq_some_iff.mp hinput
    dsimp only at htaken hreact hnet ⊢
    clear hinput halive
    -- one case for each line of `react`
    cases phase₀ with
    | waiting =>
      cases input with
      | request req =>
        cases req with
        | connect =>
          cases hreact
          obtain rfl := Net.react_closed (by decide) hnet
          rw [List.filterMap_nil, List.append_nil]
          exact .called rfl (dequeue_request htaken)
        | disconnect | request =>
          cases hreact
          obtain rfl := Net.react_closed (by decide) hnet
          rw [List.filterMap_nil, List.append_nil]
          exact .dropped rfl (dequeue_request htaken) (by simp)
      | dialed | frame | tick => cases hreact
    | connecting =>
      cases input with
      | dialed success =>
        cases success with
        | true =>
          cases hreact
          cases htaken
          obtain rfl := Net.react_closed (by decide) hnet
          exact .opened rfl
        | false =>
          cases hreact
          cases htaken
          obtain rfl := Net.react_closed (by decide) hnet
          rw [List.filterMap_nil, List.append_nil]
          exact .failed rfl
      | request | frame | tick => cases hreact
    | connected =>
      cases input with
      | request req =>
        cases req with
        | connect =>
          cases hreact
          cases hnet
          rw [List.filterMap_nil, List.append_nil]
          exact .ignored rfl (dequeue_request htaken)
        | disconnect =>
          cases hreact
          obtain rfl := Net.react_closed (by decide) hnet
          exact .closed rfl (.inr (dequeue_request htaken))
        | request req =>
          cases hreact
          rw [List.filterMap_nil, List.append_nil]
          exact .requested rfl (dequeue_request htaken) hnet
      | dialed => cases hreact
      | frame item =>
        cases htaken
        cases item with
        | none => cases hreact
        | some item =>
          cases item with
          | error e =>
            cases hreact
            obtain rfl := Net.react_closed (by decide) hnet
            exact .closed rfl (.inl rfl)
          | ok message =>
            cases hreact
            cases hnet
            have hmap : message.toList.map Ws.WrappedResponse.response =
                (message.map Ws.WrappedResponse.response).toList := by
              cases message <;> rfl
            rw [hmap]
            exact .stayed rfl
      | tick timeout =>
        cases htaken
        cases timeout with
        | true =>
          cases hreact
          obtain rfl := Net.react_closed (by decide) hnet
          exact .closed rfl (.inl rfl)
        | false =>
          cases hreact
          cases hnet
          exact .stayed rfl
  · cases hinput
    cases halive
  · cases hinput

/-- A message of the server is forwarded to the worker. -/
theorem MarketSystem.input_message {s s' : MarketSystem} {token : AssetId → Bool} {n : Net}
    {message : Delivery}
    (hinput : s.input token n [] (.frame (some (.ok (some message)))) = some s') :
    s' = { s with inbox := s.inbox ++ [message].filterMap (forward ∘ .response), net := n } := by
  obtain ⟨⟨worker, outbox, toWs, phase, inbox⟩, net⟩ := s
  cases phase with
  | waiting | connecting => cases hinput
  | connected =>
    cases hinput
    cases message <;> rfl

/-! ### What the server will have -/

/-- A connection that is up or will come up, with the markets of the server. -/
structure Outlook where
  up : Bool
  markets : Finset MarketId

/-- The connection reads one more request of its queue. -/
def Outlook.read (o : Outlook) : Ws.WrappedRequest Request → Outlook
  | .connect => { o with up := true }
  | .disconnect => ⟨false, ∅⟩
  | .request req => if o.up then { o with markets := serve o.markets req } else o

/-- What the server will have subscribed once it has read the queue. -/
def Outlook.readAll (o : Outlook) (queue : List (Ws.WrappedRequest Request)) : Outlook :=
  queue.foldl Outlook.read o

/-- The outlook when nothing is in the queue.  A thread that tries to connect will succeed. -/
def MarketSystem.now (s : MarketSystem) : Outlook := ⟨decide (s.phase ≠ .waiting), s.net.markets⟩

/-- The outlook when the queue has been read and no connection is lost before. -/
def MarketSystem.outlook (s : MarketSystem) : Outlook := s.now.readAll (s.toWs ++ s.outbox)

/-- A request that changes the markets of the server. -/
def isMarketRequest : Ws.WrappedRequest Request → Bool
  | .request (.subscribe _) | .request (.unsubscribe _) => true
  | _ => false

namespace Outlook

/-- A longer queue is read in two parts. -/
theorem readAll_append (o : Outlook) (queue queue' : List (Ws.WrappedRequest Request)) :
    o.readAll (queue ++ queue') = (o.readAll queue).readAll queue' :=
  List.foldl_append

/-- A request that is sent reaches the server. -/
theorem read_of_up {o : Outlook} (hup : o.up = true) (req : Request) :
    o.read (.request req) = { o with markets := serve o.markets req } :=
  if_pos hup

/-- Without a connection it is lost. -/
theorem read_of_down {o : Outlook} (hdown : o.up = false) (req : Request) :
    o.read (.request req) = o :=
  if_neg (by rw [hdown]; exact Bool.false_ne_true)

/-- Without a connection the server has no markets. -/
def Valid (o : Outlook) : Prop := o.up = false → o.markets = ∅

/-- Without a connection nothing is subscribed. -/
theorem Valid.read {o : Outlook} (ho : o.Valid) (req : Ws.WrappedRequest Request) :
    (o.read req).Valid := by
  cases req with
  | connect => exact fun hup => by cases hup
  | disconnect => exact fun _ => rfl
  | request req =>
    cases hup : o.up with
    | true =>
      rw [read_of_up hup]
      exact fun hdown => by rw [hup] at hdown; cases hdown
    | false =>
      rw [read_of_down hup]
      exact ho

/-- Nor after the whole queue. -/
theorem Valid.readAll {o : Outlook} (ho : o.Valid) (queue : List (Ws.WrappedRequest Request)) :
    (o.readAll queue).Valid := by
  induction queue generalizing o with
  | nil => exact ho
  | cons req queue ih => exact ih (ho.read req)

/-- With more subscribed there is more afterwards. -/
theorem serve_mono {markets markets' : Finset MarketId} (hsub : markets ⊆ markets') (req : Request) :
    serve markets req ⊆ serve markets' req := by
  unfold serve
  split
  · exact Finset.insert_subset_insert _ hsub
  · exact Finset.erase_subset_erase _ hsub
  · exact hsub

/-- A connection that is lost leaves no more markets than one that goes on. -/
theorem readAll_mono {o o' : Outlook} (ho : o.Valid) (hup : o.up = true → o'.up = true)
    (hsub : o.markets ⊆ o'.markets) (queue : List (Ws.WrappedRequest Request)) :
    (o.readAll queue).markets ⊆ (o'.readAll queue).markets := by
  induction queue generalizing o o' with
  | nil => exact hsub
  | cons req queue ih =>
    cases req with
    | connect => exact ih (ho.read .connect) (fun _ => rfl) hsub
    | disconnect => exact Finset.Subset.refl _
    | request req =>
      cases hold : o.up with
      | true =>
        refine ih (ho.read (.request req)) ?_ ?_
        · rw [read_of_up (hup hold)]
          exact fun _ => hup hold
        · rw [read_of_up hold, read_of_up (hup hold)]
          exact serve_mono hsub req
      | false =>
        refine ih (ho.read (.request req)) ?_ ?_
        · rw [read_of_down hold, hold]
          exact fun hread => by cases hread
        · rw [read_of_down hold, ho hold]
          exact Finset.empty_subset _

/-- Other requests do not change what is subscribed. -/
theorem read_plain {o : Outlook} {req : Ws.WrappedRequest Request} (hplain : isMarketRequest req = false)
    (hdisconnect : req ≠ .disconnect) : (o.read req).markets = o.markets := by
  cases req with
  | connect => rfl
  | disconnect => exact absurd rfl hdisconnect
  | request req =>
    have hserve : serve o.markets req = o.markets := by
      cases req <;> first | rfl | cases hplain
    cases hup : o.up with
    | true =>
      rw [read_of_up hup]
      exact hserve
    | false => rw [read_of_down hup]

/-- Other requests leave the markets alone. -/
theorem readAll_plain {o : Outlook} {queue : List (Ws.WrappedRequest Request)}
    (hplain : ∀ req ∈ queue, isMarketRequest req = false) (hdisconnect : .disconnect ∉ queue) :
    (o.readAll queue).markets = o.markets := by
  induction queue generalizing o with
  | nil => rfl
  | cons req queue ih =>
    have hread : (o.read req).markets = o.markets := by
      refine read_plain (hplain req List.mem_cons_self) ?_
      rintro rfl
      exact hdisconnect List.mem_cons_self
    have hrest := ih (o := o.read req) (fun r hr => hplain r (List.mem_cons_of_mem _ hr))
      fun hmem => hdisconnect (List.mem_cons_of_mem _ hmem)
    exact hrest.trans hread

/-- The end of a connection takes the markets with it. -/
theorem readAll_disconnect {o : Outlook} {queue : List (Ws.WrappedRequest Request)}
    (hplain : ∀ req ∈ queue, isMarketRequest req = false) (hdisconnect : .disconnect ∈ queue) :
    (o.readAll queue).markets = ∅ := by
  induction queue generalizing o with
  | nil => cases hdisconnect
  | cons req queue ih =>
    have hrest : ∀ r ∈ queue, isMarketRequest r = false := fun r hr => hplain r (List.mem_cons_of_mem _ hr)
    by_cases hmem : .disconnect ∈ queue
    · exact ih hrest hmem
    · obtain rfl : .disconnect = req := (List.mem_cons.mp hdisconnect).resolve_right hmem
      exact readAll_plain (o := ⟨false, ∅⟩) hrest hmem

/-- Nor do several. -/
theorem readAll_plain_subset {o : Outlook} {queue : List (Ws.WrappedRequest Request)}
    (hplain : ∀ req ∈ queue, isMarketRequest req = false) :
    (o.readAll queue).markets ⊆ o.markets := by
  by_cases hdisconnect : .disconnect ∈ queue
  · rw [readAll_disconnect hplain hdisconnect]
    exact Finset.empty_subset _
  · rw [readAll_plain hplain hdisconnect]

/-- Without a command to disconnect the connection stays. -/
theorem readAll_up {o : Outlook} {queue : List (Ws.WrappedRequest Request)} (hup : o.up = true)
    (hdisconnect : .disconnect ∉ queue) : (o.readAll queue).up = true := by
  induction queue generalizing o with
  | nil => exact hup
  | cons req queue ih =>
    refine ih ?_ fun hmem => hdisconnect (List.mem_cons_of_mem _ hmem)
    cases req with
    | connect => rfl
    | disconnect => exact absurd List.mem_cons_self hdisconnect
    | request req =>
      rw [read_of_up hup]
      exact hup

/-- Requests are dropped while there is no connection. -/
theorem readAll_of_down {o : Outlook} (hdown : o.up = false) (req : MarketId → Request)
    (markets : List MarketId) : o.readAll (markets.map fun m => .request (req m)) = o := by
  induction markets with
  | nil => rfl
  | cons m markets ih =>
    show (o.read (.request (req m))).readAll _ = o
    rw [read_of_down hdown, ih]

/-- Subscriptions are added. -/
theorem readAll_subscribe {o : Outlook} (hup : o.up = true) (markets : List MarketId) :
    o.readAll (markets.map fun m => .request (.subscribe m)) =
      ⟨true, o.markets ∪ markets.toFinset⟩ := by
  induction markets generalizing o with
  | nil =>
    rw [List.toFinset_nil, Finset.union_empty, ← hup]
    rfl
  | cons m markets ih =>
    show (o.read (.request (.subscribe m))).readAll _ = _
    rw [read_of_up hup, ih (o := { o with markets := serve o.markets (.subscribe m) }) hup,
      List.toFinset_cons]
    show (⟨true, insert m o.markets ∪ markets.toFinset⟩ : Outlook) = _
    rw [Finset.insert_union, Finset.union_insert]

/-- Unsubscriptions are taken away. -/
theorem readAll_unsubscribe {o : Outlook} (hup : o.up = true) (markets : List MarketId) :
    o.readAll (markets.map fun m => .request (.unsubscribe m)) =
      ⟨true, o.markets \ markets.toFinset⟩ := by
  induction markets generalizing o with
  | nil =>
    rw [List.toFinset_nil, Finset.sdiff_empty, ← hup]
    rfl
  | cons m markets ih =>
    show (o.read (.request (.unsubscribe m))).readAll _ = _
    rw [read_of_up hup, ih (o := { o with markets := serve o.markets (.unsubscribe m) }) hup,
      List.toFinset_cons]
    show (⟨true, o.markets.erase m \ markets.toFinset⟩ : Outlook) = _
    rw [Finset.sdiff_insert, Finset.erase_sdiff_comm]

/-- The requests that leave one market and join another. -/
theorem readAll_switch {o : Outlook} (ho : o.Valid) {left : List MarketId}
    (hleft : o.markets ⊆ left.toFinset) (joined : List MarketId) :
    let o' := o.readAll ((left.map fun m => .request (.unsubscribe m)) ++
      joined.map fun m => .request (.subscribe m))
    o'.markets ⊆ joined.toFinset ∧ (o.up = true → joined.toFinset ⊆ o'.markets) := by
  intro o'
  have ho' : o' = (o.readAll (left.map fun m => .request (.unsubscribe m))).readAll
      (joined.map fun m => .request (.subscribe m)) := readAll_append _ _ _
  cases hup : o.up with
  | true =>
    rw [ho', readAll_unsubscribe hup, Finset.sdiff_eq_empty_iff_subset.mpr hleft,
      readAll_subscribe rfl]
    simp
  | false =>
    rw [ho', readAll_of_down hup, readAll_of_down hup, ho hup]
    simp

end Outlook

end SideSwap.Client
