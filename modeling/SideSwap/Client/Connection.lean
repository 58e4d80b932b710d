import SideSwap.Client.Handlers
import SideSwap.Common.Ws

/-!
# The worker and its connection

The worker and the connection thread (`ws.rs`) are two processes that are joined by two queues.  A
handler of the worker puts its commands and requests into the queue to the connection one by one,
while the connection goes on.  The outside adds messages of the user interface and of the wallet
library to the queue of the worker at any time.

`no_lost_wakeup` says that the worker is never offline for good: if a wallet is logged in and the
connection waits for a command to connect, then the command is on its way or the worker has yet to
hear that the connection is gone.

The invariant behind it (`Linked`) speaks of the queue to the connection together with what the
current handler has yet to send.  The part of the worker in it is `handle_link`.
-/

namespace SideSwap.Client

open Proc

variable {h : Host}

/-! ### What the worker sends -/

/-- What an event of the history sends to the connection. -/
def Event.sent : Event → Option (Ws.WrappedRequest Request)
  | .toWs true => some .connect
  | .toWs false => some .disconnect
  | .request req _ => some (.request req)
  | .posted req => some (.request req)
  | _ => none

/-- What has been sent to the connection since, in order. -/
def sentSince (old new : List Event) : List (Ws.WrappedRequest Request) :=
  ((new.take (new.length - old.length)).filterMap Event.sent).reverse

/-- What has been sent since, in the order of time. -/
theorem sentSince_append (old events : List Event) :
    sentSince old (events ++ old) = (events.filterMap Event.sent).reverse := by
  have hlength : (events ++ old).length - old.length = events.length := by
    rw [List.length_append, Nat.add_sub_cancel]
  rw [sentSince, hlength, List.take_left]

/-- The command to connect has been given since. -/
def Called (old : List Event) (w : World) : Prop :=
  ∃ events, w.log = events ++ old ∧ .toWs true ∈ events

theorem Called.mem_sentSince {old : List Event} {w : World} (hcalled : Called old w) :
    .connect ∈ sentSince old w.log := by
  obtain ⟨events, hlog, hmem⟩ := hcalled
  rw [hlog, sentSince_append, List.mem_reverse, List.mem_filterMap]
  exact ⟨.toWs true, hmem, rfl⟩

/-- A command that was given stays given. -/
theorem Called.mono {old : List Event} {w w' : World} (hcalled : Called old w)
    (hlog : w.log <:+ w'.log) : Called old w' := by
  obtain ⟨events, hw, hmem⟩ := hcalled
  obtain ⟨newer, hnewer⟩ := hlog
  refine ⟨newer ++ events, ?_, List.mem_append_right newer hmem⟩
  rw [← hnewer, hw, List.append_assoc]

/-! ### The flags of the worker -/

/-- Only a new connection sets the flag. -/
theorem Change.connected {k : Effect} {w w' : World} (hs : Change k w w')
    (hcoarse : k.coarse = false) (hup : k ≠ .up) (hw : w.data.connected = false) :
    w'.data.connected = false := by
  cases hs
  case saved ok => cases ok <;> exact hw
  case info f hf => rw [World.modifyData, hf]; exact hw
  case queued f hf => rw [World.modifyData, hf]; exact hw
  case terms f hf _ => rw [World.modifyData, hf]; exact hw
  case synced | balanced => cases hcoarse
  case up => exact absurd rfl hup
  case down | offline => rfl
  all_goals exact hw

/-- Only a login sets the wallet. -/
theorem Change.ctx_none {k : Effect} {w w' : World} (hs : Change k w w')
    (hcoarse : k.coarse = false) (hlogin : k ≠ .login) (hw : w.data.ctx = none) :
    w'.data.ctx = none := by
  have hmap : ∀ f : Context → Context, w.data.ctx.map f = none := by
    intro f
    rw [hw, Option.map_none]
  cases hs
  case saved ok => cases ok <;> exact hw
  case info f hf => rw [World.modifyData, hf]; exact hw
  case queued f hf => rw [World.modifyData, hf]; exact hw
  case terms f hf _ => rw [World.modifyData, hf]; exact hw
  case synced | balanced => cases hcoarse
  case login => exact absurd rfl hlogin
  case logout => rfl
  case ctxInfo | marketSet | txsRead | pegRead | txsSent | balanceShown | swapReported | linkShown
      | promptShown | signTaken | submitTaken | slots | cleaned | swapDone | pegStarted
      | paymentSet =>
    exact hmap _
  all_goals exact hw

/-- The messages that may set the flag. -/
theorem effects_up {msg : Message} (hmsg : msg ≠ .serverConnected) :
    msg.effects.all (fun k => k ≠ .up) = true := by
  cases msg with
  | serverConnected => exact absurd rfl hmsg
  | ui m => cases m <;> rfl
  | serverNotification n => cases n <;> rfl
  | _ => rfl

/-- Only a login sets the wallet. -/
theorem effects_login {msg : Message}
    (hmsg : ∀ mnemonic phoneKey, msg ≠ .ui (.login mnemonic phoneKey)) :
    msg.effects.all (fun k => k ≠ .login) = true := by
  cases msg with
  | ui m => cases m <;> first | rfl | exact absurd rfl (hmsg _ _)
  | serverNotification n => cases n <;> rfl
  | _ => rfl

/-- Only a new connection makes the worker connected. -/
theorem handle_connected {msg : Message} (hmsg : msg ≠ .serverConnected) {w : World}
    (hw : w.data.connected = false) :
    ((machine h).handle msg w).state.data.connected = false := by
  have hprocess : Refines (Preserves fun w : World => w.data.connected = false)
      (process h msg : Worker Empty Unit) := by
    refine process_preserves (fun k => k ≠ .up) rfl ?_ (effects_up hmsg)
    exact fun k w w' hk hcoarse hs hw => hs.connected hcoarse (of_decide_eq_true hk) hw
  exact hprocess.preserves (s := w.record (.received msg)) hw

/-- Only a login opens a wallet. -/
theorem handle_ctx_none {msg : Message}
    (hmsg : ∀ mnemonic phoneKey, msg ≠ .ui (.login mnemonic phoneKey)) {w : World}
    (hw : w.data.ctx = none) : ((machine h).handle msg w).state.data.ctx = none := by
  have hprocess : Refines (Preserves fun w : World => w.data.ctx = none)
      (process h msg : Worker Empty Unit) := by
    refine process_preserves (fun k => k ≠ .login) rfl ?_ (effects_login hmsg)
    exact fun k w w' hk hcoarse hs hw => hs.ctx_none hcoarse (of_decide_eq_true hk) hw
  exact hprocess.preserves (s := w.record (.received msg)) hw

/-- Every effect keeps a command that was given. -/
theorem Called.allows (L : List Event) (k : Effect) : Allows (Preserves (Called L)) k :=
  allows_of_all (fun _ _ _ hcoarse hs hw => hw.mono (hs.log_suffix hcoarse)) k

/-- A login begins with the command to connect. -/
theorem handle_login_called (mnemonic : String) (phoneKey : Option PhoneKey) (w : World) :
    Called w.log ((machine h).handle (.ui (.login mnemonic phoneKey)) w).state := by
  have hallows := Called.allows w.log
  obtain ⟨rest, hrest, heq⟩ := processLoginRequest_eq (ε := Empty) (h := h)
    (G := Preserves (Called w.log)) mnemonic phoneKey
  let msg : Message := .ui (.login mnemonic phoneKey)
  have hhandle : (machine h).handle msg w =
      processLoginRequest h mnemonic phoneKey (w.record (.received msg)) := rfl
  rw [hhandle, heq]
  refine hrest.preserves (s := (w.record (.received msg)).record (.toWs true)) ?_
  exact ⟨[.toWs true, .received msg], rfl, List.mem_cons_self⟩

/-- A lost connection is called for again if there is a wallet. -/
theorem handle_disconnected {w w' : World} (hw : (machine h).handle .serverDisconnected w = .ok () w') :
    w'.data.connected = false ∧ (w'.data.ctx.isSome = true → Called w.log w') := by
  -- no step but `up` sets the flag, and the history only grows
  let I : World → Prop := fun v => v.data.connected = false ∧ w.log <:+ v.log
  have hallows : ∀ k, k ≠ .up → Allows (Preserves I) k := fun k hk =>
    allows_of_changes (fun k => k ≠ .up) rfl (fun k v v' hk hcoarse hs hv =>
      ⟨hs.connected hcoarse (of_decide_eq_true hk) hv.1, hv.2.trans (hs.log_suffix hcoarse)⟩) k
        (decide_eq_true hk)
  have := hallows .talk (by decide)
  have := hallows .orders (by decide)
  have := hallows .offline (by decide)
  -- the handler ends with the command to connect, if there is a wallet
  have hspec : Guar (Preserves I) (fun v => w.log <:+ v.log) (processWsDisconnected : Worker Empty Unit)
      fun _ v => v.data.connected = false ∧ (v.data.ctx.isSome = true → Called w.log v) := by
    refine .bind (Q := fun _ v => I v) (.modify (fun v _ hv => ⟨rfl, hv.2⟩) fun v hv => ⟨rfl, hv⟩)
      fun _ => ?_
    refine .bind (Refines.carry syncOrderList_effects) fun _ => ?_
    refine .bind (Refines.carry (toUi_effects (k := .offline) rfl)) fun _ => .bind getData_spec fun d => ?_
    cases hctx : d.ctx with
    | none =>
      refine .pure ?_
      rintro v ⟨rfl, hdown, -⟩
      refine ⟨hdown, fun hsome => ?_⟩
      rw [hctx] at hsome
      cases hsome
    | some c =>
      refine .bind (Q := fun _ v => v.data.connected = false ∧ Called w.log v) (.modify ?_ ?_)
        fun _ => .pure fun v hv => ⟨hv.1, fun _ => hv.2⟩
      · exact fun v _ hv => ⟨hv.1, hv.2.trans (List.suffix_cons _ _)⟩
      · rintro v ⟨-, hdown, newer, hlog⟩
        refine ⟨hdown, .toWs true :: newer, ?_, List.mem_cons_self⟩
        rw [List.cons_append, hlog]
        rfl
  exact (hspec (w.record (.received .serverDisconnected)) (List.suffix_cons _ _)).2 () w' hw

/-- What the handling of a message does to the flags: a connection is only noticed by its message,
and a wallet that is there after the message was there before or the command to connect is given. -/
theorem handle_link {msg : Message} {w w' : World} (hw : (machine h).handle msg w = .ok () w') :
    (w'.data.connected = true →
      msg = .serverConnected ∨ w.data.connected = true ∧ msg ≠ .serverDisconnected) ∧
    (w'.data.ctx.isSome = true →
      Called w.log w' ∨ w.data.ctx.isSome = true ∧ msg ≠ .serverDisconnected) := by
  have hstate : ((machine h).handle msg w).state = w' := by rw [hw, Outcome.state_ok]
  by_cases hdisconnected : msg = .serverDisconnected
  · subst hdisconnected
    -- the notice of a lost connection resets the flag
    obtain ⟨hdown, hcalled⟩ := handle_disconnected hw
    refine ⟨fun hup => ?_, fun hsome => .inl (hcalled hsome)⟩
    rw [hdown] at hup
    cases hup
  constructor
  · -- only the message of the connection sets the flag
    intro hup
    by_cases hconnected : msg = .serverConnected
    · exact .inl hconnected
    · refine .inr ⟨?_, hdisconnected⟩
      by_contra hw0
      have hdown := handle_connected (h := h) hconnected (Bool.eq_false_iff.mpr hw0)
      rw [hstate, hup] at hdown
      cases hdown
  · -- only a login makes a wallet, and it gives the command to connect
    intro hsome
    by_cases hlogin : ∃ mnemonic phoneKey, msg = .ui (.login mnemonic phoneKey)
    · obtain ⟨mnemonic, phoneKey, rfl⟩ := hlogin
      have hcalled := handle_login_called (h := h) mnemonic phoneKey w
      rw [hstate] at hcalled
      exact .inl hcalled
    · refine .inr ⟨?_, hdisconnected⟩
      by_contra hw0
      have hnone : w.data.ctx = none := by simpa using hw0
      have hnone' := handle_ctx_none (h := h) (fun m p hm => hlogin ⟨m, p, hm⟩) hnone
      rw [hstate] at hnone'
      rw [hnone'] at hsome
      cases hsome

/-! ### The two processes -/

/-- What the connection delivers from the server: a notification, the answer to a request that
nobody waits for, or the answer that a handler waits for. -/
inductive Delivery where
  | notification (notification : Notification)
  | pegStatus (status : PegStatus)
  | subscribe (msg : SubscribeResponse)
  | unsubscribe
  | loadPrices (msg : LoadPricesResponse)
  | assetDetails (msg : AssetDetailsResponse)
  | answer

/-- The message that the worker gets.  An answer that a handler waits for does not go through its
queue. -/
def forward : Ws.WrappedResponse Delivery → Option Message
  | .connected => some .serverConnected
  | .disconnected => some .serverDisconnected
  | .response (.notification n) => some (.serverNotification n)
  | .response (.pegStatus status) => some (.pegStatus status)
  | .response (.subscribe msg) => some (.subscribe msg)
  | .response .unsubscribe => some .unsubscribe
  | .response (.loadPrices msg) => some (.serverNotification (.updatePrices msg))
  | .response (.assetDetails msg) => some (.assetDetails msg)
  | .response .answer => none

/-- The messages that come from the user interface and the wallet library. -/
def Message.isLocal : Message → Bool
  | .ui _ | .notif _ | .backgroundMessage _ => true
  | _ => false

/-- The worker, the connection's thread and the two queues between them. -/
structure System where
  worker : Life World
  /-- what the current handler has yet to send -/
  outbox : List (Ws.WrappedRequest Request)
  toWs : List (Ws.WrappedRequest Request)
  phase : Ws.Phase
  inbox : List Message

/-- A new process. -/
def System.fresh (worker : Life World) : System :=
  { worker := worker, outbox := [], toWs := [], phase := .initial true, inbox := [] }

/-- The first start of the application. -/
def System.start (h : Host) : System := .fresh (Client.start h)

/-- The queue to the connection after an input. -/
def dequeue (toWs : List (Ws.WrappedRequest Request)) :
    Ws.Input Request Delivery → Option (List (Ws.WrappedRequest Request))
  | .request req => if toWs.head? = some req then some toWs.tail else none
  | _ => some toWs

/-- A step of one of the two threads, or of the network. -/
inductive System.Step (h : Host) : System → System → Prop where
  | arrive {s : System} (msg : Message) (islocal : msg.isLocal = true) :
      System.Step h s { s with inbox := s.inbox ++ [msg] }
  | handle {s : System} {msg : Message} {rest : List Message} (alive : s.worker.alive = true)
      (idle : s.outbox = []) (queue : s.inbox = msg :: rest) :
      System.Step h s
        { s with
          worker := ((machine h).handle msg s.worker.state).life
          outbox := sentSince s.worker.state.log ((machine h).handle msg s.worker.state).state.log
          inbox := rest }
  | send {s : System} {req : Ws.WrappedRequest Request} {rest : List (Ws.WrappedRequest Request)}
      (alive : s.worker.alive = true) (pending : s.outbox = req :: rest) :
      System.Step h s { s with outbox := rest, toWs := s.toWs ++ [req] }
  | react {s : System} {input : Ws.Input Request Delivery} {phase : Ws.Phase}
      {responses : List (Ws.WrappedResponse Delivery)} {toWs : List (Ws.WrappedRequest Request)}
      (alive : s.worker.alive = true) (taken : dequeue s.toWs input = some toWs)
      (reacts : Ws.react true s.phase input = .next phase responses) :
      System.Step h s
        { s with phase := phase, toWs := toWs, inbox := s.inbox ++ responses.filterMap forward }
  -- a panic of the connection thread ends the process
  | crash {s : System} {input : Ws.Input Request Delivery} (alive : s.worker.alive = true)
      (panics : Ws.react true s.phase input = .panic) :
      System.Step h s { s with worker := ⟨s.worker.state, false⟩ }
  | restart {s : System} : System.Step h s (.fresh ((boot h s.worker.state).life))

/-! ### The invariant -/

/-- Every connection that is announced in the queue is reported lost behind it. -/
def Closed : List Message → Prop
  | [] => True
  | msg :: rest => (msg = .serverConnected → .serverDisconnected ∈ rest) ∧ Closed rest

/-- Messages about other things do not open a connection. -/
theorem Closed.append {inbox new : List Message} (hclosed : Closed inbox)
    (hnew : ∀ msg ∈ new, msg ≠ .serverConnected) : Closed (inbox ++ new) := by
  induction inbox with
  | nil =>
    induction new with
    | nil => trivial
    | cons msg new ih =>
      refine ⟨fun hmsg => absurd hmsg (hnew msg List.mem_cons_self), ih ?_⟩
      exact fun m hm => hnew m (List.mem_cons_of_mem _ hm)
  | cons msg rest ih =>
    exact ⟨fun hmsg => List.mem_append_left _ (hclosed.1 hmsg), ih hclosed.2⟩

/-- After the message that the connection is lost it is. -/
theorem closed_append_disconnected (inbox : List Message) :
    Closed (inbox ++ [.serverDisconnected]) := by
  induction inbox with
  | nil => exact ⟨fun hmsg => (by cases hmsg), trivial⟩
  | cons msg rest ih => exact ⟨fun _ => by simp, ih⟩

/-- What the two threads know of each other. -/
structure Linked (s : System) : Prop where
  wakeup : s.worker.state.data.ctx.isSome = true → s.phase = .waiting →
    .connect ∈ s.toWs ++ s.outbox ∨ .serverDisconnected ∈ s.inbox
  flag : s.worker.state.data.connected = true → s.phase = .connected ∨ .serverDisconnected ∈ s.inbox
  notices : s.phase ≠ .connected → Closed s.inbox

/-- A new process has no wallet and no connection. -/
theorem linked_boot (w : World) : Linked (.fresh (boot h w).life) := by
  let I : World → Prop := fun v => v.data.connected = false ∧ v.data.ctx = none
  have hallows : ∀ k, k ≠ .up → k ≠ .login → Allows (Preserves I) k := fun k hup hlogin =>
    allows_of_changes (fun k => k ≠ .up && k ≠ .login) rfl (fun k v v' hk hcoarse hs hv => by
      simp only [ne_eq, Bool.and_eq_true, decide_eq_true_eq] at hk
      exact ⟨hs.connected hcoarse hk.1 hv.1, hs.ctx_none hcoarse hk.2 hv.2⟩) k (by simp [hup, hlogin])
  have := hallows .load (by decide) (by decide)
  have := hallows .assets (by decide) (by decide)
  have hload : Refines (Preserves I) (ignoreError (loadAssets h) : Worker Empty Unit) :=
    ignoreError_effects loadAssets_effects
  have hI : I (System.fresh (boot h w).life).worker.state := by
    rw [System.fresh, Outcome.life_state]
    exact hload.preserves (s := freshStart h w) ⟨rfl, rfl⟩
  obtain ⟨hdown, hnone⟩ := hI
  refine ⟨fun hsome => ?_, fun hup => ?_, fun _ => trivial⟩
  · rw [hnone] at hsome
    cases hsome
  · rw [hdown] at hup
    cases hup

/-- The worker handles a message. -/
theorem Linked.handle {s : System} {msg : Message} {rest : List Message} {w' : World}
    (hs : Linked s) (idle : s.outbox = []) (queue : s.inbox = msg :: rest)
    (hw' : (machine h).handle msg s.worker.state = .ok () w') :
    Linked { s with
      worker := ⟨w', true⟩, outbox := sentSince s.worker.state.log w'.log, inbox := rest } := by
  obtain ⟨hflag, hctx⟩ := handle_link hw'
  refine ⟨?_, ?_, ?_⟩
  · intro hsome hphase
    -- the command to connect is sent by this message, or it was under way before
    rcases hctx hsome with hcalled | ⟨hsome', hmsg⟩
    · exact .inl (List.mem_append_right _ hcalled.mem_sentSince)
    · rcases hs.wakeup hsome' hphase with hconnect | hdisconnected
      · rw [idle, List.append_nil] at hconnect
        exact .inl (List.mem_append_left _ hconnect)
      · rw [queue] at hdisconnected
        rcases List.mem_cons.mp hdisconnected with heq | hmem
        · exact absurd heq.symm hmsg
        · exact .inr hmem
  · intro hup
    rcases hflag hup with rfl | ⟨hup', hmsg⟩
    · -- the connection has just been announced: it is open, or its end is behind it in the queue
      by_cases hphase : s.phase = .connected
      · exact .inl hphase
      · have hclosed := hs.notices hphase
        rw [queue] at hclosed
        exact .inr (hclosed.1 rfl)
    · rcases hs.flag hup' with hphase | hdisconnected
      · exact .inl hphase
      · rw [queue] at hdisconnected
        rcases List.mem_cons.mp hdisconnected with heq | hmem
        · exact absurd heq.symm hmsg
        · exact .inr hmem
  · intro hphase
    have hclosed := hs.notices hphase
    rw [queue] at hclosed
    exact hclosed.2

/-- Only the command to connect takes the thread out of its wait. -/
theorem connect_mem_dequeue {toWs toWs' : List (Ws.WrappedRequest Request)}
    {input : Ws.Input Request Delivery} (htaken : dequeue toWs input = some toWs')
    (hinput : input ≠ .request .connect) (hmem : .connect ∈ toWs) : .connect ∈ toWs' := by
  cases input with
  | request req =>
    simp only [dequeue] at htaken
    split at htaken
    · rename_i hhead
      cases htaken
      cases toWs with
      | nil => cases hmem
      | cons first rest =>
        obtain rfl : first = req := by simpa using hhead
        rcases List.mem_cons.mp hmem with rfl | hrest
        · exact absurd rfl hinput
        · exact hrest
    · cases htaken
  | dialed | frame | tick =>
    cases htaken
    exact hmem

/-- The connection's thread reacts. -/
theorem Linked.react {s : System} {input : Ws.Input Request Delivery} {phase : Ws.Phase}
    {responses : List (Ws.WrappedResponse Delivery)} {toWs : List (Ws.WrappedRequest Request)}
    (hs : Linked s) (taken : dequeue s.toWs input = some toWs)
    (reacts : Ws.react true s.phase input = .next phase responses) :
    Linked { s with
      phase := phase, toWs := toWs, inbox := s.inbox ++ responses.filterMap forward } := by
  rcases Ws.react_cases reacts with ⟨hphase, rfl, hinput, rfl⟩ | ⟨rfl, hphase, rfl⟩ |
    ⟨rfl, hphase, rfl⟩ | ⟨rfl, hphase, rfl⟩ | ⟨rfl, hphase, hresponses⟩
  · -- the thread waits on
    rw [List.filterMap_nil, List.append_nil]
    refine ⟨fun hsome _ => ?_, fun hup => ?_, fun _ => hs.notices (by rw [hphase]; decide)⟩
    · rcases hs.wakeup hsome hphase with hconnect | hdisconnected
      · rcases List.mem_append.mp hconnect with hqueue | hout
        · exact .inl (List.mem_append_left _ (connect_mem_dequeue taken hinput hqueue))
        · exact .inl (List.mem_append_right _ hout)
      · exact .inr hdisconnected
    · rcases hs.flag hup with hopen | hdisconnected
      · rw [hphase] at hopen
        cases hopen
      · exact .inr hdisconnected
  · -- it tries to connect
    rw [List.filterMap_nil, List.append_nil]
    refine ⟨fun _ hwait => (by cases hwait), fun hup => ?_, fun _ => hs.notices hphase⟩
    exact .inr ((hs.flag hup).resolve_left hphase)
  · -- it is connected
    exact ⟨fun _ hwait => (by cases hwait), fun _ => .inl rfl, fun hne => absurd rfl hne⟩
  · -- it has lost the connection
    have hinbox : [Ws.WrappedResponse.disconnected].filterMap forward = [.serverDisconnected] := rfl
    rw [hinbox]
    have hmem : Message.serverDisconnected ∈ s.inbox ++ [.serverDisconnected] := by simp
    exact ⟨fun _ _ => .inr hmem, fun _ => .inr hmem, fun _ => closed_append_disconnected s.inbox⟩
  · exact ⟨fun _ hwait => (by cases hwait), fun _ => .inl rfl, fun hne => absurd rfl hne⟩

/-- A step of either thread keeps the link. -/
theorem Linked.step {s s' : System} (hs : s.worker.alive = true → Linked s)
    (hstep : System.Step h s s') (halive : s'.worker.alive = true) : Linked s' := by
  cases hstep with
  | arrive msg islocal =>
    -- a message from outside only makes the inbox longer
    have hlinked := hs halive
    have hmsg : msg ≠ .serverConnected := by
      rintro rfl
      cases islocal
    refine ⟨?_, ?_, ?_⟩
    · intro hsome hphase
      exact (hlinked.wakeup hsome hphase).imp_right (List.mem_append_left _)
    · exact fun hup => (hlinked.flag hup).imp_right (List.mem_append_left _)
    · exact fun hphase => (hlinked.notices hphase).append (by simpa using hmsg)
  -- the handler is the only step that changes the worker
  | handle alive idle queue =>
    rename_i msg rest
    cases hhandle : (machine h).handle msg s.worker.state with
    | ok u w' => exact (hs alive).handle idle queue hhandle
    | error e w' => exact e.elim
    | abort w' =>
      rw [hhandle] at halive
      cases halive
  -- a command that is sent moves from the worker to the queue
  | send alive pending =>
    have hlinked := hs alive
    refine ⟨?_, hlinked.flag, hlinked.notices⟩
    intro hsome hphase
    have hwakeup := hlinked.wakeup hsome hphase
    rw [pending] at hwakeup
    simpa using hwakeup
  -- the thread of the connection takes a step
  | react alive taken reacts => exact (hs alive).react taken reacts
  | crash => cases halive
  -- a new process begins without a wallet and without a connection
  | restart => exact linked_boot s.worker.state

/-- In every reachable state between two handlers: if a wallet is logged in and the connection waits
for a command, then the command is in the queue or the worker is about to hear of the lost
connection; and if the worker takes itself for connected, it is or is about to hear otherwise. -/
theorem no_lost_wakeup {s : System}
    (hreach : Relation.ReflTransGen (System.Step h) (System.start h) s)
    (alive : s.worker.alive = true) (idle : s.outbox = []) :
    (s.worker.state.data.ctx.isSome = true → s.phase = .waiting →
      .connect ∈ s.toWs ∨ .serverDisconnected ∈ s.inbox) ∧
    (s.worker.state.data.connected = true →
      s.phase = .connected ∨ .serverDisconnected ∈ s.inbox) := by
  have hlinked : s.worker.alive = true → Linked s := by
    refine hreach.invariant (I := fun s => s.worker.alive = true → Linked s) ?_ ?_
    · exact fun _ _ hstep hs => Linked.step hs hstep
    · exact fun _ => linked_boot World.new
  obtain ⟨hwakeup, hflag, -⟩ := hlinked alive
  refine ⟨fun hsome hphase => ?_, hflag⟩
  have hconnect := hwakeup hsome hphase
  rw [idle, List.append_nil] at hconnect
  exact hconnect

namespace Sample

/-- An outside whose wallet can be opened. -/
def walletHost : Host := plainHost (plainServer assets (fun _ => .error "") fun _ => .error "") ∅ ∅

/-- The user opens the wallet. -/
def loginMessage : Message := .ui (.login "words" none)

/-- The wallet has been logged in and the command to connect is in the queue. -/
def loggedIn : System :=
  { System.start walletHost with
    worker := ((machine walletHost).handle loginMessage (Client.start walletHost).state).life
    toWs := [.connect] }

theorem reachable_loggedIn :
    Relation.ReflTransGen (System.Step walletHost) (System.start walletHost) loggedIn := by
  have harrive := System.Step.arrive (h := walletHost) (s := System.start walletHost) loginMessage rfl
  have hhandle := System.Step.handle (h := walletHost)
    (s := { System.start walletHost with inbox := [loginMessage] }) rfl rfl rfl
  have hpending : ({ loggedIn with outbox := [.connect], toWs := [] } : System).outbox = .connect :: [] :=
    rfl
  have hsend := System.Step.send (h := walletHost) rfl hpending
  exact ((Relation.ReflTransGen.single harrive).tail hhandle).tail hsend

end Sample

theorem no_lost_wakeup_login :
    Sample.loggedIn.worker.state.data.ctx.isSome = true ∧ Sample.loggedIn.phase = .waiting ∧
      (.connect ∈ Sample.loggedIn.toWs ∨ .serverDisconnected ∈ Sample.loggedIn.inbox) := by
  obtain ⟨hwakeup, -⟩ := no_lost_wakeup Sample.reachable_loggedIn rfl rfl
  exact ⟨rfl, rfl, hwakeup rfl rfl⟩

end SideSwap.Client
