import SideSwap.Client.MarketServer
import SideSwap.Client.OrderList

/-!
# One market at a time

The worker watches the market of its wallet (`watched`).  A change of the market is told to the
server as `Unsubscribe` and `Subscribe`, but the first of them only while the worker takes itself
for connected, and `Subscribe` is repeated with each new connection.  Requests that are sent while
the thread tries to connect wait in its queue.
-/

namespace SideSwap.Client

open Proc

variable {h : Host}

/-! ### What the worker sends -/

/-- The markets of the wallet: at most one. -/
def watched (w : World) : List MarketId := (w.data.ctx.map fun c => c.subscribe.leave).getD []

/-- Events that tell the server nothing about markets. -/
def Plain (events : List Event) : Prop :=
  ∀ e ∈ events, ∀ req, e.sent = some req → isMarketRequest req = false

theorem Plain.nil : Plain [] := fun _ he => by cases he

theorem Plain.singleton {e : Event} (he : ∀ req, e.sent = some req → isMarketRequest req = false) :
    Plain [e] := by
  intro e' he'
  rw [List.mem_singleton.mp he']
  exact he

theorem Plain.append {new old : List Event} (hnew : Plain new) (hold : Plain old) :
    Plain (new ++ old) :=
  List.forall_mem_append.mpr ⟨hnew, hold⟩

theorem Plain.sentSince {old events : List Event} (hplain : Plain events) :
    ∀ req ∈ sentSince old (events ++ old), isMarketRequest req = false := by
  intro req hreq
  rw [sentSince_append, List.mem_reverse, List.mem_filterMap] at hreq
  obtain ⟨e, he, hsent⟩ := hreq
  exact hplain e he req hsent

theorem disconnect_mem_sentSince {old events : List Event} :
    .disconnect ∈ sentSince old (events ++ old) ↔ .toWs false ∈ events := by
  rw [sentSince_append, List.mem_reverse, List.mem_filterMap]
  constructor
  · rintro ⟨e, he, hsent⟩
    cases e with
    | toWs connect =>
      cases connect with
      | false => exact he
      | true => cases hsent
    | _ => cases hsent
  · intro hmem
    exact ⟨.toWs false, hmem, rfl⟩

theorem Event.notMarket_of_effect {e : Event} {k : Effect} (he : e.effect = some k) (hk : k ≠ .market)
    (req : Ws.WrappedRequest Request) (hsent : e.sent = some req) : isMarketRequest req = false := by
  cases e with
  | request r answer =>
    cases hsent
    cases r
    case subscribe | unsubscribe =>
      cases he
      exact absurd rfl hk
    all_goals rfl
  | posted r =>
    cases hsent
    cases r
    case subscribe | unsubscribe =>
      cases he
      exact absurd rfl hk
    all_goals rfl
  | toWs connect => cases connect <;> cases hsent <;> rfl
  | _ => cases hsent

/-- The events of a step: the command to disconnect comes with the flag. -/
theorem Change.plain {k : Effect} {w w' : World} (hs : Change k w w') (hcoarse : k.coarse = false)
    (hk : k ≠ .market) :
    ∃ events, w'.log = events ++ w.log ∧ Plain events ∧
      (.toWs false ∈ events → k = .down ∧ w'.data.connected = false) := by
  -- a step without an event, or with one that sends nothing
  have hnone : ∀ {v : World}, v.log = w.log → ∃ events, v.log = events ++ w.log ∧ Plain events ∧
      (.toWs false ∈ events → k = .down ∧ v.data.connected = false) := fun hlog =>
    ⟨[], hlog, .nil, fun hmem => by cases hmem⟩
  have hone : ∀ {v : World} {e : Event}, v.log = e :: w.log → e.sent = none →
      ∃ events, v.log = events ++ w.log ∧ Plain events ∧
        (.toWs false ∈ events → k = .down ∧ v.data.connected = false) := by
    intro v e hlog hsent
    refine ⟨[e], hlog, .singleton fun req hreq => ?_, fun hmem => ?_⟩
    · rw [hsent] at hreq
      cases hreq
    · rw [← List.mem_singleton.mp hmem] at hsent
      cases hsent
  -- only the effect `market` sends requests about markets, and only `down` closes the connection
  cases hs
  case said e he =>
    refine ⟨[e], rfl, .singleton fun req hreq => Event.notMarket_of_effect he hk req hreq, ?_⟩
    intro hmem
    rw [← List.mem_singleton.mp hmem] at he
    cases he
  case saved ok => cases ok <;> exact hnone rfl
  case synced | balanced => cases hcoarse
  case down =>
    refine ⟨[.toWs false], rfl, .singleton fun req hreq => ?_, fun _ => ⟨rfl, rfl⟩⟩
    cases hreq
    rfl
  case registered | orderHidden | orderShown | txShown | txHidden | txsSent | balanceShown
      | balancesShown | swapReported | succeedShown | linkShown | promptQueued | promptShown | swapDone
      | stored | completed =>
    exact hone rfl rfl
  all_goals exact hnone rfl

theorem watched_of_map {w w' : World} {f : Context → Context} (hctx : w'.data.ctx = w.data.ctx.map f)
    (hf : ∀ c, (f c).subscribe = c.subscribe) : watched w' = watched w := by
  rw [watched, watched, hctx]
  cases w.data.ctx with
  | none => rfl
  | some c =>
    show (f c).subscribe.leave = c.subscribe.leave
    rw [hf]

theorem watched_of_ctx {w w' : World} (hctx : w'.data.ctx = w.data.ctx) : watched w' = watched w := by
  rw [watched, watched, hctx]

/-- Only a change of the market, a login or a logout change what is watched. -/
theorem Change.watched_eq {k : Effect} {w w' : World} (hs : Change k w w') (hcoarse : k.coarse = false)
    (hmarket : k ≠ .market) : watched w' = watched w ∨
      (k = .login ∨ k = .logout) ∧ watched w' = [] := by
  cases hs
  case saved ok => cases ok <;> exact .inl (watched_of_ctx rfl)
  case info f hf => exact .inl (watched_of_ctx (by rw [World.modifyData, hf]))
  case queued f hf => exact .inl (watched_of_ctx (by rw [World.modifyData, hf]))
  case terms f hf _ => exact .inl (watched_of_ctx (by rw [World.modifyData, hf]))
  case synced | balanced => cases hcoarse
  case marketSet => exact absurd rfl hmarket
  case login => exact .inr ⟨.inl rfl, rfl⟩
  case logout => exact .inr ⟨.inr rfl, rfl⟩
  case ctxInfo f hf => exact .inl (watched_of_map (f := f) rfl fun c => by rw [hf])
  case slots f hf => exact .inl (watched_of_map (f := f) rfl fun c => by rw [hf])
  case txsRead | pegRead | txsSent | balanceShown | swapReported | linkShown | promptShown | signTaken
      | submitTaken | cleaned | swapDone | pegStarted | paymentSet =>
    exact .inl (watched_of_map rfl fun _ => rfl)
  all_goals exact .inl (watched_of_ctx rfl)

/-! ### The handlers -/

/-- What has been told since an earlier state: nothing about markets, and a command to disconnect
came with the flag. -/
def SilentSince (old : List Event) (w : World) : Prop :=
  ∃ events, w.log = events ++ old ∧ Plain events ∧ (.toWs false ∈ events → w.data.connected = false)

theorem SilentSince.change {old : List Event} {k : Effect} {w w' : World} (hw : SilentSince old w)
    (hs : Change k w w') (hcoarse : k.coarse = false) (hmarket : k ≠ .market) (hup : k ≠ .up) :
    SilentSince old w' := by
  obtain ⟨events, hlog, hplain, hdown⟩ := hw
  obtain ⟨new, hnew, hplain', hdown'⟩ := hs.plain hcoarse hmarket
  refine ⟨new ++ events, by rw [hnew, hlog, List.append_assoc], hplain'.append hplain, fun hmem => ?_⟩
  rcases List.mem_append.mp hmem with hmem | hmem
  · exact (hdown' hmem).2
  · exact hs.connected hcoarse hup (hdown hmem)

theorem SilentSince.received (w : World) (msg : Message) :
    SilentSince w.log (w.record (.received msg)) := by
  refine ⟨[.received msg], rfl, .singleton fun req hreq => ?_, fun hmem => ?_⟩
  · cases hreq
  · cases List.mem_singleton.mp hmem

/-- The messages that neither change the market nor announce a connection. -/
theorem effects_market {msg : Message} (hsubscribe : ∀ market assetId, msg ≠ .ui (.subscribe market assetId))
    (hconnected : msg ≠ .serverConnected) :
    msg.effects.all (fun k => k ≠ .market && k ≠ .up) = true := by
  cases msg with
  | ui m => cases m <;> first | rfl | exact absurd rfl (hsubscribe _ _)
  | serverNotification n => cases n <;> rfl
  | serverConnected => exact absurd rfl hconnected
  | _ => rfl

theorem effects_wallet {msg : Message}
    (hlogin : ∀ mnemonic phoneKey, msg ≠ .ui (.login mnemonic phoneKey)) (hlogout : msg ≠ .ui .logout)
    (hsubscribe : ∀ market assetId, msg ≠ .ui (.subscribe market assetId))
    (hconnected : msg ≠ .serverConnected) :
    msg.effects.all (fun k => k ≠ .market && k ≠ .login && k ≠ .logout) = true := by
  cases msg with
  | ui m =>
    cases m
    case login => exact absurd rfl (hlogin _ _)
    case logout => exact absurd rfl hlogout
    case subscribe => exact absurd rfl (hsubscribe _ _)
    all_goals rfl
  | serverNotification n => cases n <;> rfl
  | serverConnected => exact absurd rfl hconnected
  | _ => rfl

theorem handle_silentSince {msg : Message}
    (hsubscribe : ∀ market assetId, msg ≠ .ui (.subscribe market assetId))
    (hconnected : msg ≠ .serverConnected) (w : World) :
    SilentSince w.log ((machine h).handle msg w).state := by
  have hprocess : Refines (Preserves (SilentSince w.log)) (process h msg : Worker Empty Unit) := by
    refine process_preserves (fun k => k ≠ .market && k ≠ .up) rfl ?_ (effects_market hsubscribe hconnected)
    intro k v v' hk hcoarse hs hv
    simp only [ne_eq, Bool.and_eq_true, decide_eq_true_eq] at hk
    exact hv.change hs hcoarse hk.1 hk.2
  exact hprocess.preserves (.received w msg)

/-- The market stays or is gone. -/
theorem handle_watched {msg : Message}
    (hsubscribe : ∀ market assetId, msg ≠ .ui (.subscribe market assetId))
    (hconnected : msg ≠ .serverConnected) (w : World) :
    watched ((machine h).handle msg w).state = watched w ∨
      watched ((machine h).handle msg w).state = [] := by
  have hprocess : Refines (Preserves fun v => watched v = watched w ∨ watched v = [])
      (process h msg : Worker Empty Unit) := by
    refine process_preserves (fun k => k ≠ .market && k ≠ .up) rfl ?_ (effects_market hsubscribe hconnected)
    intro k v v' hk hcoarse hs hv
    simp only [ne_eq, Bool.and_eq_true, decide_eq_true_eq] at hk
    rcases hs.watched_eq hcoarse hk.1 with heq | ⟨-, hnil⟩
    · rw [heq]
      exact hv
    · exact .inr hnil
  exact hprocess.preserves (s := w.record (.received msg)) (.inl rfl)

theorem handle_watched_eq {msg : Message}
    (hlogin : ∀ mnemonic phoneKey, msg ≠ .ui (.login mnemonic phoneKey)) (hlogout : msg ≠ .ui .logout)
    (hsubscribe : ∀ market assetId, msg ≠ .ui (.subscribe market assetId))
    (hconnected : msg ≠ .serverConnected) (w : World) :
    watched ((machine h).handle msg w).state = watched w := by
  have hprocess : Refines (Preserves fun v => watched v = watched w)
      (process h msg : Worker Empty Unit) := by
    refine process_preserves (fun k => k ≠ .market && k ≠ .login && k ≠ .logout) rfl ?_
      (effects_wallet hlogin hlogout hsubscribe hconnected)
    intro k v v' hk hcoarse hs hv
    simp only [ne_eq, Bool.and_eq_true, decide_eq_true_eq] at hk
    rcases hs.watched_eq hcoarse hk.1.1 with heq | ⟨hlogin | hlogout, -⟩
    · exact heq.trans hv
    · exact absurd hlogin hk.1.2
    · exact absurd hlogout hk.2
  exact hprocess.preserves (s := w.record (.received msg)) rfl

theorem saveSettings_log {ε : Type} (w : World) :
    ∃ w', (saveSettings h : Worker ε Unit) w = .ok () w' ∧ w'.log = w.log := by
  let w₁ : World := { w with calls := w.calls + 1 }
  refine ⟨if h.saveSucceeds w.calls then { w₁ with disk := w₁.data.settings } else w₁, rfl, ?_⟩
  split <;> rfl

/-- A logout ends with the command to disconnect. -/
theorem handle_logout (w : World) :
    ((machine h).handle (.ui .logout) w).state.log = .toWs false :: .received (.ui .logout) :: w.log := by
  show (processLogoutRequest h (w.record (.received (.ui .logout))) : Outcome Empty _ _).state.log = _
  unfold processLogoutRequest
  rw [modifyData_bind_apply]
  obtain ⟨w', hsaved, hlog⟩ := saveSettings_log (ε := Empty) (h := h)
    (w.record (.received (.ui .logout))).loggedOut
  rw [World.loggedOut] at hsaved
  rw [bind_ok hsaved]
  show .toWs false :: w'.log = _
  rw [hlog]
  rfl

/-! ### A change of the market -/

/-- The market that a message of the user interface asks for. -/
def requestedMarket (market : Market) (assetId : Option AssetId) : Option Subscribe :=
  match market, assetId with
  | .none, _ => some .none
  | .tokens, _ => some .tokens
  | .asset, some asset => some (.asset asset)
  | .asset, none => none

theorem eachPosted {ε : Type} (req : MarketId → Request) (markets : List MarketId) (w : World) :
    (Proc.each markets fun m => sendRequestMsg (req m) : Worker ε Unit) w =
      .ok () { w with log := (markets.map fun m => Event.posted (req m)).reverse ++ w.log } := by
  induction markets generalizing w with
  | nil => rfl
  | cons m markets ih =>
    show (Proc.each markets fun m => sendRequestMsg (req m) : Worker ε Unit) (w.record (.posted (req m))) = _
    rw [ih, List.map_cons, List.reverse_cons, List.append_assoc]
    rfl

theorem sendSubscribeRequest_apply {ε : Type} (w : World) :
    (sendSubscribeRequest : Worker ε Unit) w =
      .ok () { w with log := ((watched w).map fun m => Event.posted (.subscribe m)).reverse ++ w.log } := by
  unfold sendSubscribeRequest
  rw [getData_bind_apply]
  unfold watched
  cases w.data.ctx with
  | none => rfl
  | some c =>
    rw [Option.map_some, Option.map_some, Option.getD_some]
    cases c.subscribe <;> rfl

/-- What is posted is sent in order. -/
theorem filterMap_posted (req : MarketId → Request) (markets : List MarketId) :
    (markets.map fun m => Event.posted (req m)).filterMap Event.sent =
      markets.map fun m => .request (req m) := by
  induction markets with
  | nil => rfl
  | cons m markets ih =>
    have hsent : (Event.posted (req m)).sent = some (.request (req m)) := rfl
    rw [List.map_cons, List.filterMap_cons_some hsent, ih, List.map_cons]

theorem sentSince_posted {old new : List Event} {e : Event} {left joined : List MarketId}
    (hnew : new = (joined.map fun m => Event.posted (.subscribe m)).reverse ++
      ((left.map fun m => Event.posted (.unsubscribe m)).reverse ++ e :: old)) (he : e.sent = none) :
    sentSince old new = (left.map fun m => .request (.unsubscribe m)) ++
      joined.map fun m => .request (.subscribe m) := by
  have hevents : new = ((joined.map fun m => Event.posted (.subscribe m)).reverse ++
      ((left.map fun m => Event.posted (.unsubscribe m)).reverse ++ [e])) ++ old := by
    rw [hnew]
    simp
  rw [hevents, sentSince_append, List.filterMap_append, List.filterMap_append, List.filterMap_reverse,
    List.filterMap_reverse, filterMap_posted, filterMap_posted, List.filterMap_cons_none he]
  simp

/-- The user interface shows a market: the old one is left only over a connection. -/
theorem handle_subscribe {market : Market} {assetId : Option AssetId} {w w' : World}
    (hok : (machine h).handle (.ui (.subscribe market assetId)) w = .ok () w') :
    w'.data.connected = w.data.connected ∧
      (requestedMarket market assetId = w.data.ctx.map Context.subscribe ∧ watched w' = watched w ∧
          sentSince w.log w'.log = [] ∨
        requestedMarket market assetId ≠ w.data.ctx.map Context.subscribe ∧ sentSince w.log w'.log =
          ((if w.data.connected then watched w else []).map fun m => .request (.unsubscribe m)) ++
            (watched w').map fun m => .request (.subscribe m)) := by
  let e : Event := .received (.ui (.subscribe market assetId))
  have hprocess : (processSubscribe market assetId : Worker Empty Unit) (w.record e) = .ok () w' := hok
  obtain ⟨subscribe, w₁, hexpect, hprocess⟩ := bind_eq_ok hprocess
  obtain ⟨hrequested, rfl⟩ := expect_eq_ok hexpect
  rw [getData_bind_apply] at hprocess
  obtain ⟨c, w₁, hwallet, hprocess⟩ := bind_eq_ok hprocess
  rw [expectCtx, getData_bind_apply] at hwallet
  obtain ⟨hsome, rfl⟩ := expect_eq_ok hwallet
  have hctx : w.data.ctx = some c := hsome
  -- the market is the one that is watched already
  split at hprocess
  · rename_i hsame
    cases hprocess
    refine ⟨rfl, .inl ⟨?_, rfl, ?_⟩⟩
    · rw [hctx, Option.map_some, hsame]
      exact hrequested
    · rw [show (w.record e).log = [e] ++ w.log from rfl, sentSince_append]
      rfl
  · -- the old market is left and the new one is subscribed
    rename_i hother
    obtain ⟨_, w₁, hleave, hprocess⟩ := bind_eq_ok hprocess
    have hleave := (eachPosted _ _ _).symm.trans hleave
    cases hleave
    rw [modifyCtx_bind_apply, sendSubscribeRequest_apply] at hprocess
    have hold : watched w = c.subscribe.leave := by
      rw [watched, hctx]
      rfl
    have hw' := (Outcome.ok.inj hprocess).2
    have hchanged : requestedMarket market assetId ≠ w.data.ctx.map Context.subscribe := by
      rw [hctx, Option.map_some, show requestedMarket market assetId = some subscribe from hrequested]
      exact fun heq => hother (Option.some.inj heq).symm
    refine ⟨by rw [← hw']; rfl, .inr ⟨hchanged, ?_⟩⟩
    have hlog := congrArg World.log hw'
    have hwatched := congrArg watched hw'
    -- the history of the handler is these requests
    clear hw' hprocess hleave hok
    rw [hold, ← hwatched]
    exact sentSince_posted hlog.symm rfl

/-! ### A new connection -/

/-- The part of a connect before the market is told again. -/
def Joining (w v : World) : Prop :=
  ∃ events, v.log = events ++ w.log ∧ Plain events ∧ .toWs false ∉ events ∧ watched v = watched w

theorem Joining.change {w v v' : World} {k : Effect} (hv : Joining w v) (hs : Change k v v')
    (hcoarse : k.coarse = false) (hmarket : k ≠ .market) (hlogin : k ≠ .login) (hlogout : k ≠ .logout)
    (hdown : k ≠ .down) : Joining w v' := by
  obtain ⟨events, hlog, hplain, hmem, hwatched⟩ := hv
  obtain ⟨new, hnew, hplain', hdown'⟩ := hs.plain hcoarse hmarket
  have hquiet : .toWs false ∉ new := fun hnew => hdown (hdown' hnew).1
  refine ⟨new ++ events, by rw [hnew, hlog, List.append_assoc], hplain'.append hplain, ?_, ?_⟩
  · rw [List.mem_append]
    exact fun h => h.elim hquiet hmem
  · rcases hs.watched_eq hcoarse hmarket with heq | ⟨hk | hk, -⟩
    · exact heq.trans hwatched
    · exact absurd hk hlogin
    · exact absurd hk hlogout

theorem Joining.received (w : World) (msg : Message) : Joining w (w.record (.received msg)) := by
  refine ⟨[.received msg], rfl, .singleton fun req hreq => ?_, fun hmem => ?_, rfl⟩
  · cases hreq
  · cases List.mem_singleton.mp hmem

/-- Only the end of a connection takes the flag away. -/
theorem Change.stays_connected {k : Effect} {w w' : World} (hs : Change k w w')
    (hcoarse : k.coarse = false) (hdown : k ≠ .down) (hoffline : k ≠ .offline)
    (hw : w.data.connected = true) : w'.data.connected = true := by
  cases hs
  case saved ok => cases ok <;> exact hw
  case info f hf => rw [World.modifyData, hf]; exact hw
  case queued f hf => rw [World.modifyData, hf]; exact hw
  case terms f hf _ => rw [World.modifyData, hf]; exact hw
  case synced | balanced => cases hcoarse
  case down => exact absurd rfl hdown
  case offline => exact absurd rfl hoffline
  case up => rfl
  all_goals exact hw

theorem allows_joining (w : World) (k : Effect)
    (hk : k ∉ [Effect.market, .login, .logout, .down]) : Allows (Preserves (Joining w)) k := by
  refine allows_of_changes (fun k => k ∉ [Effect.market, .login, .logout, .down]) rfl ?_ k
    (decide_eq_true hk)
  intro k v v' hk hcoarse hs hv
  simp only [List.mem_cons, List.not_mem_nil, or_false, not_or, decide_eq_true_eq] at hk
  exact hv.change hs hcoarse hk.1 hk.2.1 hk.2.2.1 hk.2.2.2

/-- The same, once the worker takes itself for connected. -/
def Joined (w v : World) : Prop := Joining w v ∧ v.data.connected = true

theorem allows_joined (w : World) (k : Effect)
    (hk : k ∉ [Effect.market, .login, .logout, .down, .offline]) :
    Allows (Preserves (Joined w)) k := by
  refine allows_of_changes (fun k => k ∉ [Effect.market, .login, .logout, .down, .offline]) rfl ?_ k
    (decide_eq_true hk)
  intro k v v' hk hcoarse hs hv
  simp only [List.mem_cons, List.not_mem_nil, or_false, not_or, decide_eq_true_eq] at hk
  exact ⟨hv.1.change hs hcoarse hk.1 hk.2.1 hk.2.2.1 hk.2.2.2.1,
    hs.stays_connected hcoarse hk.2.2.2.1 hk.2.2.2.2 hv.2⟩

theorem tryProcessWsConnected_joining (w : World) :
    Refines (Preserves (Joining w)) (tryProcessWsConnected h) := by
  have := allows_joining w .talk (by decide)
  have := allows_joining w .listing (by decide)
  have := allows_joining w .assets (by decide)
  have := allows_joining w .orders (by decide)
  have := allows_joining w .wallet (by decide)
  have := allows_joining w .sync (by decide)
  have := allows_joining w .balances (by decide)
  exact tryProcessWsConnected_effects

/-- The rest of a connect ends with the market. -/
theorem afterConnect_joined {w v w' : World} (hv : Joining w v)
    (hok : (do
      modifyData fun d => { d with connected := true }
      processPendingRequests h
      resumePegMonitoring
      updatePushToken h
      updateAddressRegistrations h
      downloadContacts h
      processUnregisterPhoneRequests h
      sendSubscribeRequest
      toUi .serverConnected : Worker Empty Unit) v = .ok () w') :
    ∃ u, Joining w u ∧ u.data.connected = true ∧
      w' = World.record { u with
        log := ((watched u).map fun m => Event.posted (.subscribe m)).reverse ++ u.log }
        (.toUi .serverConnected) := by
  have := allows_joined w .talk (by decide)
  have := allows_joined w .assets (by decide)
  have := allows_joined w .links (by decide)
  have := allows_joined w .terms (by decide)
  have := allows_joined w .prompts (by decide)
  have := allows_joined w .queues (by decide)
  -- no step before the subscription changes the market or asks to disconnect
  rw [modifyData_bind_apply] at hok
  have hup : Joined w (v.modifyData fun d => { d with connected := true }) := ⟨hv, rfl⟩
  obtain ⟨_, _, hstep, hok⟩ := bind_eq_ok hok
  have hup := Refines.preserves_ok (I := Joined w) processPendingRequests_effects hup hstep
  obtain ⟨_, _, hstep, hok⟩ := bind_eq_ok hok
  have hup := Refines.preserves_ok (I := Joined w) resumePegMonitoring_effects hup hstep
  obtain ⟨_, _, hstep, hok⟩ := bind_eq_ok hok
  have hup := Refines.preserves_ok (I := Joined w) updatePushToken_effects hup hstep
  obtain ⟨_, _, hstep, hok⟩ := bind_eq_ok hok
  have hup := Refines.preserves_ok (I := Joined w) updateAddressRegistrations_effects hup hstep
  obtain ⟨_, _, hstep, hok⟩ := bind_eq_ok hok
  have hup := Refines.preserves_ok (I := Joined w) downloadContacts_effects hup hstep
  obtain ⟨_, u, hstep, hok⟩ := bind_eq_ok hok
  have hup := Refines.preserves_ok (I := Joined w) processUnregisterPhoneRequests_effects hup hstep
  rw [bind_ok (sendSubscribeRequest_apply u)] at hok
  exact ⟨u, hup.1, hup.2, (Outcome.ok.inj hok).2.symm⟩

/-- What a connect tells the server: its market at last, or the command to disconnect. -/
theorem handle_joined {w w' : World} (hok : (machine h).handle .serverConnected w = .ok () w') :
    watched w' = watched w ∧
      (w'.data.connected = true ∧
          (∃ before, sentSince w.log w'.log = before ++ (watched w).map (fun m => .request (.subscribe m)) ∧
            (∀ req ∈ before, isMarketRequest req = false) ∧ .disconnect ∉ before) ∨
        w'.data.connected = false ∧ (∀ req ∈ sentSince w.log w'.log, isMarketRequest req = false) ∧
          .disconnect ∈ sentSince w.log w'.log) := by
  have hprocess : (processWsConnected h : Worker Empty Unit) (w.record (.received .serverConnected)) =
      .ok () w' := hok
  obtain ⟨result, v, hattempt, hrest⟩ := bind_eq_ok hprocess
  have hjoining : Joining w v :=
    (Refines.attempt (tryProcessWsConnected_joining w)).preserves_ok (.received w _) hattempt
  -- a failure closes the connection
  cases result with
  | error e =>
    obtain ⟨events, hlog, hplain, -, hwatched⟩ := hjoining
    cases hrest
    have hplain' : Plain (.toWs false :: events) := by
      refine Plain.append (.singleton fun req hreq => ?_) hplain
      cases hreq
      rfl
    have hsince : .toWs false :: v.log = (.toWs false :: events) ++ w.log := by
      rw [hlog]
      rfl
    refine ⟨hwatched, .inr ⟨rfl, ?_, ?_⟩⟩
    · show ∀ req ∈ sentSince w.log (.toWs false :: v.log), isMarketRequest req = false
      rw [hsince]
      exact hplain'.sentSince
    · show .disconnect ∈ sentSince w.log (.toWs false :: v.log)
      rw [hsince]
      exact disconnect_mem_sentSince.mpr List.mem_cons_self
  -- otherwise the market is subscribed at the end of the set-up
  | ok _ =>
    obtain ⟨u, ⟨events, hlog, hplain, hquiet, hwatched⟩, hup, rfl⟩ := afterConnect_joined hjoining hrest
    refine ⟨hwatched, .inl ⟨hup, (events.filterMap Event.sent).reverse, ?_, fun req hreq => ?_, ?_⟩⟩
    · have hsince : (World.record { u with
          log := ((watched u).map fun m => Event.posted (.subscribe m)).reverse ++ u.log }
          (.toUi .serverConnected)).log =
          (.toUi .serverConnected :: (((watched w).map fun m => Event.posted (.subscribe m)).reverse ++
            events)) ++ w.log := by
        show .toUi .serverConnected ::
          (((watched u).map fun m => Event.posted (.subscribe m)).reverse ++ u.log) = _
        rw [hlog, hwatched, List.cons_append, List.append_assoc]
      rw [hsince, sentSince_append, List.filterMap_cons_none rfl, List.filterMap_append,
        List.filterMap_reverse, filterMap_posted, List.reverse_append, List.reverse_reverse]
    · rw [List.mem_reverse, List.mem_filterMap] at hreq
      obtain ⟨e, he, hsent⟩ := hreq
      exact hplain e he req hsent
    · rw [← sentSince_append w.log, disconnect_mem_sentSince]
      exact hquiet

/-! ### The connection -/

theorem MarketSystem.input_step {s s' : MarketSystem} {token : AssetId → Bool} {n : Net}
    {orders : List OrderCreatedNotification} {input : Ws.Input Request Delivery}
    (hinput : s.input token n orders input = some s') (halive : s.worker.alive = true) :
    System.Step h s.toSystem s'.toSystem := by
  unfold MarketSystem.input at hinput
  split at hinput
  · rename_i toWs phase responses htaken hreact
    obtain ⟨net, -, rfl⟩ := Option.map_eq_some_iff.mp hinput
    exact System.Step.react halive htaken hreact
  · rename_i toWs htaken hpanic
    cases hinput
    exact System.Step.crash halive hpanic
  · cases hinput

/-- The server takes part in no step of the worker and its connection. -/
theorem MarketSystem.Acts.step {s s' : MarketSystem} {token : AssetId → Bool} {a : Action}
    (hact : s.Acts h token a s') : System.Step h s.toSystem s'.toSystem ∨ s'.toSystem = s.toSystem := by
  cases hact with
  | arrive islocal => exact .inl (.arrive _ islocal)
  | handle alive idle queue => exact .inl (.handle alive idle queue)
  | send alive pending => exact .inl (.send alive pending)
  | react alive _ reads => exact .inl (MarketSystem.input_step reads alive)
  | receive alive _ reads => exact .inl (MarketSystem.input_step reads alive)
  | push => exact .inr rfl
  | restart => exact .inl .restart

/-! ### The invariant -/

/-- The server will have the market of the wallet at most, and it will have it if the worker rightly
takes itself for connected. -/
structure Watching (s : MarketSystem) : Prop where
  closed : s.phase ≠ .connected → s.net = .closed
  only : s.outlook.markets ⊆ (watched s.worker.state).toFinset
  all : s.worker.state.data.connected = true → .serverDisconnected ∉ s.inbox →
    .disconnect ∉ s.toWs ++ s.outbox → (watched s.worker.state).toFinset ⊆ s.outlook.markets

/-- The market is changed while the worker is connected, or while the server neither has one nor
will have one; a wallet is logged in in the latter case only. -/
def MarketSystem.orderly (s : MarketSystem) : Action → Bool
  | .handle =>
    match s.inbox.head? with
    | some (.ui (.subscribe market assetId)) =>
      s.worker.state.data.connected || decide (s.outlook.markets = ∅) ||
        decide (requestedMarket market assetId = s.worker.state.data.ctx.map Context.subscribe)
    | some (.ui (.login _ _)) => decide (s.outlook.markets = ∅)
    | _ => true
  | _ => true

theorem Watching.now_valid {s : MarketSystem} (hs : Watching s) : s.now.Valid := by
  intro hdown
  have hphase : s.phase = .waiting := by simpa [MarketSystem.now] using hdown
  show s.net.markets = ∅
  rw [hs.closed (by rw [hphase]; decide)]
  rfl

theorem Watching.outlook_valid {s : MarketSystem} (hs : Watching s) : s.outlook.Valid :=
  hs.now_valid.readAll _

/-- The connection is open and stays so. -/
theorem MarketSystem.outlook_up {s : MarketSystem} (hphase : s.phase = .connected)
    (hdisconnect : .disconnect ∉ s.toWs ++ s.outbox) : s.outlook.up = true := by
  refine Outlook.readAll_up ?_ hdisconnect
  show decide (s.phase ≠ .waiting) = true
  rw [hphase]
  rfl

/-- The outlook after a handler: its requests are read last. -/
theorem MarketSystem.outlook_handled {s : MarketSystem} (idle : s.outbox = []) (worker : Life World)
    (sent : List (Ws.WrappedRequest Request)) (rest : List Message) :
    ({ s with worker := worker, outbox := sent, inbox := rest } : MarketSystem).outlook =
      s.outlook.readAll sent := by
  unfold MarketSystem.outlook
  rw [idle, List.append_nil]
  exact Outlook.readAll_append _ _ _

/-- What is known of the flag before a handler that leaves it set. -/
theorem Watching.before {s : MarketSystem} {msg : Message} {rest : List Message} {w' : World}
    (hs : Watching s) (idle : s.outbox = []) (sent : List (Ws.WrappedRequest Request))
    (queue : s.inbox = msg :: rest) (hok : (machine h).handle msg s.worker.state = .ok () w')
    (hmsg : msg ≠ .serverConnected) (hup : w'.data.connected = true) (hrest : .serverDisconnected ∉ rest)
    (hsent : .disconnect ∉ s.toWs ++ sent) :
    s.worker.state.data.connected = true ∧ (watched s.worker.state).toFinset ⊆ s.outlook.markets := by
  obtain ⟨hup', hother⟩ := ((handle_link hok).1 hup).resolve_left hmsg
  refine ⟨hup', hs.all hup' ?_ ?_⟩
  · rw [queue, List.mem_cons]
    rintro (heq | hmem)
    · exact hother heq.symm
    · exact hrest hmem
  · rw [idle, List.append_nil]
    exact fun hmem => hsent (List.mem_append_left _ hmem)

theorem Watching.handle_subscribe {s : MarketSystem} {market : Market} {assetId : Option AssetId}
    {rest : List Message} {w' : World} (hs : Watching s) (hlinked : Linked s.toSystem)
    (idle : s.outbox = []) (queue : s.inbox = .ui (.subscribe market assetId) :: rest)
    (horderly : s.orderly .handle = true)
    (hok : (machine h).handle (.ui (.subscribe market assetId)) s.worker.state = .ok () w') :
    Watching { s with
      worker := ⟨w', true⟩, outbox := sentSince s.worker.state.log w'.log, inbox := rest } := by
  obtain ⟨hflag, hcases⟩ := Client.handle_subscribe hok
  have hbefore := hs.before idle (sentSince s.worker.state.log w'.log) queue hok (by simp)
  have houtlook := MarketSystem.outlook_handled idle ⟨w', true⟩
    (sentSince s.worker.state.log w'.log) rest
  rcases hcases with ⟨-, hwatched, hsent⟩ | ⟨hchanged, hsent⟩
  · -- the market is shown already
    have hsame : s.outlook.readAll (sentSince s.worker.state.log w'.log) = s.outlook := by
      rw [hsent]
      rfl
    refine ⟨hs.closed, ?_, fun hup hrest hdisconnect => ?_⟩
    · rw [houtlook, hsame]
      show s.outlook.markets ⊆ (watched w').toFinset
      rw [hwatched]
      exact hs.only
    · rw [houtlook, hsame]
      show (watched w').toFinset ⊆ s.outlook.markets
      rw [hwatched]
      exact (hbefore hup hrest hdisconnect).2
  · -- the old market is left, or the server has none
    have hleft : s.outlook.markets ⊆
        (if s.worker.state.data.connected then watched s.worker.state else []).toFinset := by
      split
      · exact hs.only
      · rename_i hdown
        simp only [MarketSystem.orderly, queue, List.head?_cons, hdown, hchanged] at horderly
        -- while disconnected, the server still has no market
        simp at horderly
        rw [horderly]
        exact Finset.empty_subset _
    obtain ⟨honly, hall⟩ := Outlook.readAll_switch hs.outlook_valid hleft (watched w')
    rw [← hsent] at honly hall
    refine ⟨hs.closed, ?_, fun hup hrest hdisconnect => ?_⟩
    · rw [houtlook]
      exact honly
    · rw [houtlook]
      refine hall (MarketSystem.outlook_up ?_ ?_)
      · -- the connection is open, because no end of it is announced
        have hup' := (hbefore hup hrest hdisconnect).1
        refine (hlinked.flag hup').resolve_right ?_
        rw [queue, List.mem_cons]
        rintro (heq | hmem)
        · cases heq
        · exact hrest hmem
      · rw [idle, List.append_nil]
        exact fun hmem => hdisconnect (List.mem_append_left _ hmem)

theorem Watching.handle_connected {s : MarketSystem} {rest : List Message} {w' : World}
    (hs : Watching s) (hlinked : Linked s.toSystem) (idle : s.outbox = [])
    (queue : s.inbox = .serverConnected :: rest)
    (hok : (machine h).handle .serverConnected s.worker.state = .ok () w') :
    Watching { s with
      worker := ⟨w', true⟩, outbox := sentSince s.worker.state.log w'.log, inbox := rest } := by
  obtain ⟨hwatched, hcases⟩ := handle_joined hok
  have houtlook := MarketSystem.outlook_handled idle ⟨w', true⟩
    (sentSince s.worker.state.log w'.log) rest
  rcases hcases with ⟨-, before, hsent, hplain, hquiet⟩ | ⟨hdown, hplain, hdisconnect⟩
  · -- the market is told to the new connection
    let o := s.outlook.readAll before
    have ho : o.markets = s.outlook.markets := Outlook.readAll_plain hplain hquiet
    have hread : s.outlook.readAll (sentSince s.worker.state.log w'.log) =
        o.readAll ((watched s.worker.state).map fun m => .request (.subscribe m)) := by
      rw [hsent, Outlook.readAll_append]
    refine ⟨hs.closed, ?_, fun _ hrest hdisconnect => ?_⟩
    · rw [houtlook, hread]
      show _ ⊆ (watched w').toFinset
      rw [hwatched]
      cases hup : o.up with
      | true =>
        rw [Outlook.readAll_subscribe hup, ho]
        exact Finset.union_subset hs.only (Finset.Subset.refl _)
      | false =>
        rw [Outlook.readAll_of_down hup, ho]
        exact hs.only
    · -- the connection is open, because no end of it is announced behind its beginning
      have hphase : s.phase = .connected := by
        by_contra hne
        have hclosed := hlinked.notices hne
        rw [queue] at hclosed
        exact hrest (hclosed.1 rfl)
      have hqueue : .disconnect ∉ s.toWs ++ s.outbox := by
        rw [idle, List.append_nil]
        exact fun hmem => hdisconnect (List.mem_append_left _ hmem)
      have hup : o.up = true := Outlook.readAll_up (MarketSystem.outlook_up hphase hqueue) hquiet
      rw [houtlook, hread, Outlook.readAll_subscribe hup]
      show (watched w').toFinset ⊆ _
      rw [hwatched]
      exact Finset.subset_union_right
  · -- the connect has failed
    refine ⟨hs.closed, ?_, fun hup => ?_⟩
    · rw [houtlook, Outlook.readAll_disconnect hplain hdisconnect]
      exact Finset.empty_subset _
    · have hup : w'.data.connected = true := hup
      rw [hdown] at hup
      cases hup

theorem Watching.handle_other {s : MarketSystem} {msg : Message} {rest : List Message} {w' : World}
    (hs : Watching s) (idle : s.outbox = []) (queue : s.inbox = msg :: rest)
    (hsubscribe : ∀ market assetId, msg ≠ .ui (.subscribe market assetId))
    (hconnected : msg ≠ .serverConnected) (horderly : s.orderly .handle = true)
    (hok : (machine h).handle msg s.worker.state = .ok () w') :
    Watching { s with
      worker := ⟨w', true⟩, outbox := sentSince s.worker.state.log w'.log, inbox := rest } := by
  have hstate : ((machine h).handle msg s.worker.state).state = w' := by rw [hok, Outcome.state_ok]
  obtain ⟨events, hlog, hplain, hdown⟩ := handle_silentSince (h := h) hsubscribe hconnected s.worker.state
  have hwatched := handle_watched (h := h) hsubscribe hconnected s.worker.state
  rw [hstate] at hlog hdown hwatched
  have hsent : ∀ req ∈ sentSince s.worker.state.log w'.log, isMarketRequest req = false := by
    rw [hlog]
    exact hplain.sentSince
  have houtlook := MarketSystem.outlook_handled idle ⟨w', true⟩
    (sentSince s.worker.state.log w'.log) rest
  refine ⟨hs.closed, ?_, fun hup hrest hdisconnect => ?_⟩
  · -- the server knows no market that is not watched
    rw [houtlook]
    show _ ⊆ (watched w').toFinset
    have hsubset := Outlook.readAll_plain_subset (o := s.outlook) hsent
    -- a login begins without a connection, so that the server knows none
    by_cases hlogin : ∃ mnemonic phoneKey, msg = .ui (.login mnemonic phoneKey)
    · obtain ⟨mnemonic, phoneKey, rfl⟩ := hlogin
      simp only [MarketSystem.orderly, queue, List.head?_cons, decide_eq_true_eq] at horderly
      rw [horderly] at hsubset
      exact hsubset.trans (Finset.empty_subset _)
    -- a logout closes the connection, and the server forgets them all
    by_cases hlogout : msg = .ui .logout
    · subst hlogout
      have hlast := handle_logout (h := h) s.worker.state
      rw [hstate, hlog] at hlast
      have hmem : .toWs false ∈ events := by
        have hevents : events = [.toWs false, .received (.ui .logout)] :=
          List.append_cancel_right (hlast.trans (by rfl))
        rw [hevents]
        exact List.mem_cons_self
      rw [hlog, Outlook.readAll_disconnect hplain.sentSince (disconnect_mem_sentSince.mpr hmem)]
      exact Finset.empty_subset _
    · -- any other message leaves the market as it is
      have heq := handle_watched_eq (h := h) (fun m p hm => hlogin ⟨m, p, hm⟩) hlogout hsubscribe
        hconnected s.worker.state
      rw [hstate] at heq
      rw [heq]
      exact hsubset.trans hs.only
  · -- and it knows the one that is watched
    obtain ⟨-, hall⟩ := hs.before idle (sentSince s.worker.state.log w'.log) queue hok hconnected hup hrest
      hdisconnect
    rw [houtlook, Outlook.readAll_plain hsent fun hmem => hdisconnect (List.mem_append_right _ hmem)]
    show (watched w').toFinset ⊆ _
    -- the market is still watched, or there is none left
    rcases hwatched with heq | hnil
    · rw [heq]
      exact hall
    · rw [hnil]
      exact Finset.empty_subset _

theorem Net.request_markets {token : AssetId → Bool} {n net : Net} {orders : List OrderCreatedNotification}
    {req : Request} (hserved : n.request token orders req = some net) :
    net.markets = serve n.markets req := by
  cases req
  case subscribe market =>
    simp only [Net.request] at hserved
    split at hserved
    · cases hserved
      rfl
    · cases hserved
  all_goals
    cases hserved
    rfl

/-- A step of the connection that reads the queue as the outlook does. -/
theorem Watching.of_outlook {s s' : MarketSystem} (hs : Watching s) (hlinked : Linked s'.toSystem)
    (hclosed : s'.phase ≠ .connected → s'.net = .closed) (hworker : s'.worker = s.worker)
    (houtlook : s'.outlook.markets = s.outlook.markets)
    (hinbox : ∀ msg ∈ s.inbox, msg ∈ s'.inbox)
    (hqueue : s'.phase = .connected → .disconnect ∈ s.toWs ++ s.outbox →
      .disconnect ∈ s'.toWs ++ s'.outbox) : Watching s' := by
  refine ⟨hclosed, ?_, fun hup hdisconnected hdisconnect => ?_⟩
  · rw [houtlook, hworker]
    exact hs.only
  · have hphase : s'.phase = .connected := (hlinked.flag hup).resolve_right hdisconnected
    rw [houtlook]
    rw [hworker] at hup ⊢
    exact hs.all hup (fun hmem => hdisconnected (hinbox _ hmem)) fun hmem =>
      hdisconnect (hqueue hphase hmem)

/-- A request that is read is read in the outlook. -/
theorem MarketSystem.outlook_read {s s' : MarketSystem} {req : Ws.WrappedRequest Request}
    (hread : s.toWs = req :: s'.toWs) (houtbox : s'.outbox = s.outbox)
    (hnow : s'.now = s.now.read req) : s'.outlook = s.outlook := by
  unfold MarketSystem.outlook
  rw [hnow, hread, houtbox]
  rfl

theorem MarketSystem.outlook_unread {s s' : MarketSystem} (hqueue : s'.toWs = s.toWs)
    (houtbox : s'.outbox = s.outbox) (hnow : s'.now = s.now) : s'.outlook = s.outlook := by
  unfold MarketSystem.outlook
  rw [hnow, hqueue, houtbox]

theorem MarketSystem.now_eq {s : MarketSystem} {phase : Ws.Phase} {markets : Finset MarketId}
    (hphase : s.phase = phase) (hmarkets : s.net.markets = markets) :
    s.now = ⟨decide (phase ≠ .waiting), markets⟩ := by
  rw [MarketSystem.now, hphase, hmarkets]

theorem Watching.reacts {s s' : MarketSystem} {token : AssetId → Bool} {n : Net}
    {orders : List OrderCreatedNotification} {input : Ws.Input Request Delivery} (hs : Watching s)
    (hn : n.markets = s.net.markets) (hreacts : s.Reacts token n orders input s')
    (hlinked : Linked s'.toSystem) : Watching s' := by
  have hnone : s.phase ≠ .connected → s.net.markets = ∅ := fun hphase => by
    rw [hs.closed hphase]
    rfl
  cases hreacts with
  | closed phase read =>
    rename_i toWs
    refine ⟨fun _ => rfl, ?_, fun _ hdisconnected => absurd (by simp) hdisconnected⟩
    refine Finset.Subset.trans ?_ hs.only
    -- a lost connection takes its markets with it
    show (Outlook.readAll ⟨false, ∅⟩ (toWs ++ s.outbox)).markets ⊆ s.outlook.markets
    unfold MarketSystem.outlook
    rcases read with hqueue | hqueue
    · rw [hqueue]
      exact Outlook.readAll_mono (fun _ => rfl) (fun hup => by cases hup) (Finset.empty_subset _) _
    · rw [hqueue]
      exact Finset.Subset.refl _
  | dropped phase read other =>
    rename_i req toWs
    have hnow := MarketSystem.now_eq phase (hnone (by rw [phase]; decide))
    refine hs.of_outlook hlinked (fun _ => rfl) rfl ?_ (fun _ hmem => hmem) fun hphase => ?_
    · have hread : (⟨false, ∅⟩ : Outlook).read req = ⟨false, ∅⟩ := by
        cases req with
        | connect => exact absurd rfl other
        | disconnect => rfl
        | request r => exact Outlook.read_of_down rfl r
      refine congrArg Outlook.markets (MarketSystem.outlook_read read rfl ?_)
      show (⟨decide (s.phase ≠ .waiting), ∅⟩ : Outlook) = s.now.read req
      rw [hnow, phase]
      exact hread.symm
    · have hphase : s.phase = .connected := hphase
      rw [phase] at hphase
      cases hphase
  | called phase read =>
    have hnow := MarketSystem.now_eq phase (hnone (by rw [phase]; decide))
    refine hs.of_outlook hlinked (fun _ => rfl) rfl ?_ (fun _ hmem => hmem) fun hphase => (by cases hphase)
    refine congrArg Outlook.markets (MarketSystem.outlook_read read rfl ?_)
    rw [hnow]
    rfl
  | failed phase =>
    have hclosed := hs.closed (by rw [phase]; decide)
    refine hs.of_outlook hlinked (fun _ => rfl) rfl ?_ (fun _ hmem => hmem) fun _ hmem => hmem
    refine congrArg Outlook.markets (MarketSystem.outlook_unread rfl rfl ?_)
    rw [MarketSystem.now, MarketSystem.now, hclosed]
  | opened phase =>
    have hnow := MarketSystem.now_eq phase (hnone (by rw [phase]; decide))
    refine hs.of_outlook hlinked (fun hne => absurd rfl hne) rfl ?_
      (fun _ hmem => List.mem_append_left _ hmem) fun _ hmem => hmem
    refine congrArg Outlook.markets (MarketSystem.outlook_unread rfl rfl ?_)
    rw [hnow]
    rfl
  | requested phase read served =>
    rename_i net
    have hnow := MarketSystem.now_eq phase rfl
    have hmarkets := Net.request_markets served
    refine hs.of_outlook hlinked (fun hne => absurd phase hne) rfl ?_ (fun _ hmem => hmem) ?_
    · refine congrArg Outlook.markets (MarketSystem.outlook_read read rfl ?_)
      show (⟨decide (s.phase ≠ .waiting), net.markets⟩ : Outlook) = s.now.read _
      rw [hnow, phase, hmarkets, hn]
      rfl
    · intro _ hmem
      rw [read] at hmem
      simpa using hmem
  | ignored phase read =>
    have hnow := MarketSystem.now_eq phase rfl
    refine hs.of_outlook hlinked (fun hne => absurd phase hne) rfl ?_ (fun _ hmem => hmem) ?_
    · refine congrArg Outlook.markets (MarketSystem.outlook_read read rfl ?_)
      show (⟨decide (s.phase ≠ .waiting), n.markets⟩ : Outlook) = s.now.read _
      rw [hnow, phase, hn]
      rfl
    · intro _ hmem
      rw [read] at hmem
      simpa using hmem
  | stayed phase =>
    refine hs.of_outlook hlinked (fun hne => absurd phase hne) rfl ?_
      (fun _ hmem => List.mem_append_left _ hmem) fun _ hmem => hmem
    refine congrArg Outlook.markets (MarketSystem.outlook_unread rfl rfl ?_)
    rw [MarketSystem.now, MarketSystem.now, hn]

theorem watching_fresh (w : World) : Watching (.fresh ((boot h w).life)) := by
  have hlinked := linked_boot (h := h) w
  refine ⟨fun _ => rfl, Finset.empty_subset _, fun hup => ?_⟩
  -- a new process is not connected
  rcases hlinked.flag hup with hphase | hmem
  · cases hphase
  · cases hmem

/-- The invariant of the whole system, as long as the process lives. -/
def Watches (s : MarketSystem) : Prop := s.worker.alive = true → Linked s.toSystem ∧ Watching s

theorem Watches.act {s s' : MarketSystem} {token : AssetId → Bool} {a : Action} (hs : Watches s)
    (horderly : s.orderly a = true) (hact : s.act h token a = some s') : Watches s' := by
  intro halive
  have hacts := MarketSystem.act_cases hact
  have hlinked : Linked s'.toSystem := by
    rcases hacts.step with hstep | heq
    · exact Linked.step (fun halive => (hs halive).1) hstep halive
    · rw [heq] at halive ⊢
      exact (hs halive).1
  refine ⟨hlinked, ?_⟩
  cases hacts with
  | arrive islocal =>
    exact (hs halive).2.of_outlook hlinked (hs halive).2.closed rfl rfl
      (fun _ hmem => List.mem_append_left _ hmem) fun _ hmem => hmem
  | handle alive idle queue =>
    rename_i msg rest
    obtain ⟨hold, hwatching⟩ := hs alive
    unfold MarketSystem.handled at halive ⊢
    cases hhandle : (machine h).handle msg s.worker.state with
    | error e w' => exact e.elim
    | abort w' =>
      rw [hhandle] at halive
      cases halive
    | ok u w' =>
      show Watching { s with
        worker := ⟨w', true⟩, outbox := sentSince s.worker.state.log w'.log, inbox := rest }
      by_cases hconnected : msg = .serverConnected
      · subst hconnected
        exact hwatching.handle_connected hold idle queue hhandle
      by_cases hsubscribe : ∃ market assetId, msg = .ui (.subscribe market assetId)
      · obtain ⟨market, assetId, rfl⟩ := hsubscribe
        exact hwatching.handle_subscribe hold idle queue horderly hhandle
      · exact hwatching.handle_other idle queue (fun m a hm => hsubscribe ⟨m, a, hm⟩) hconnected horderly
          hhandle
  | send alive pending =>
    obtain ⟨hold, hwatching⟩ := hs alive
    rename_i req rest
    -- the request only moves from one queue to the next
    have hqueue : (s.toWs ++ [req]) ++ rest = s.toWs ++ s.outbox := by
      rw [pending, List.append_assoc]
      rfl
    refine hwatching.of_outlook hlinked hwatching.closed rfl ?_ (fun _ hmem => hmem) fun _ hmem => ?_
    · show (s.now.readAll ((s.toWs ++ [req]) ++ rest)).markets = _
      rw [hqueue]
      rfl
    · show .disconnect ∈ (s.toWs ++ [req]) ++ rest
      rw [hqueue]
      exact hmem
  | react alive _ reads =>
    exact (hs alive).2.reacts rfl (MarketSystem.input_cases reads halive) hlinked
  | receive alive _ reads =>
    refine (hs alive).2.reacts ?_ (MarketSystem.input_cases reads halive) hlinked
    rfl
  | push up =>
    exact (hs halive).2.of_outlook hlinked (fun hne => absurd up hne) rfl rfl
      (fun _ hmem => hmem) fun _ hmem => hmem
  | restart => exact watching_fresh s.worker.state

end SideSwap.Client
