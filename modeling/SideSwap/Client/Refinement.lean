import SideSwap.Client.OrderMoves

/-!
# The worker refines its view

`process_makes`: the handling of a message is a chain of moves.  A restart resets the view
(`boot_chain`).  `run_core_invariant` turns this into the induction over the runs of the worker: an
invariant of the view needs one proof for each move, and one for a restart.
-/

namespace SideSwap.Client

open Proc

variable {ε : Type} {h : Host} {w₀ : World} {msg : Message}

/-! ### Connection, login and logout -/

theorem processWsConnected_makes :
    Refines (Makes h w₀ msg) (processWsConnected h : Worker ε Unit) := by
  refine .bind (.attempt (Refines.makes tryProcessWsConnected_effects)) fun result => ?_
  cases result with
  | error e => exact Refines.makes restartWebsocket_effects
  | ok _ =>
    refine .bind (Refines.makes (modifyData_quiet fun _ => rfl)) fun _ => ?_
    refine .bind processPendingRequests_makes fun _ => Refines.makes ?_
    refine .bind resumePegMonitoring_effects fun _ => .bind updatePushToken_effects fun _ => ?_
    refine .bind updateAddressRegistrations_effects fun _ => ?_
    refine .bind downloadContacts_effects fun _ => ?_
    refine .bind processUnregisterPhoneRequests_effects fun _ => ?_
    exact .bind sendSubscribeRequest_effects fun _ => toUi_effects rfl

theorem processLoginRequest_makes (mnemonic : String) (phoneKey : Option PhoneKey) :
    Refines (Makes h w₀ msg) (processLoginRequest h mnemonic phoneKey : Worker ε Unit) := by
  refine .bind (Refines.makes (record_effects rfl)) fun _ => ?_
  refine .bind (Refines.makes (call_effects _)) fun session => .bind (.expect _) fun walletHashId => ?_
  refine .bind (.modify fun w => .login) fun _ => .bind (Refines.makes getData_effects) fun d => ?_
  refine .bind (.each fun _ _ => Refines.makes sendWalletLoaded_effects) fun _ => ?_
  refine .bind processPendingRequests_makes fun _ => Refines.makes ?_
  refine .bind updateTxList_effects fun _ => .bind resumePegMonitoring_effects fun _ => ?_
  refine .bind updateAddressRegistrations_effects fun _ => ?_
  exact .bind downloadContacts_effects fun _ => .bind (call_effects _) fun _ => .pure _

theorem processLogoutRequest_makes :
    Refines (Makes h w₀ msg) (processLogoutRequest h : Worker ε Unit) := by
  refine .bind (.modify fun w => .logout) fun _ => ?_
  exact .bind (Refines.makes saveSettings_effects) fun _ => Refines.makes restartWebsocket_effects

theorem processWalletNotif_makes (event : Option String) :
    Refines (Makes h w₀ msg) (processWalletNotif h event : Worker ε Unit) := by
  refine .bind (.expect _) fun event => ?_
  split
  · exact Refines.makes updateTxList_effects
  · split
    · refine .bind (Refines.makes getData_effects) fun d => ?_
      split
      · exact .pure _
      · split
        · exact .pure _
        · refine .bind (Refines.makes (modifyCtx_quiet fun _ => rfl)) fun _ => ?_
          exact .bind (Refines.makes sendWalletLoaded_effects) fun _ => processPendingRequests_makes
    · exact .pure _

theorem processPushMessage_makes (text : String) (waiting : Bool) :
    Refines (Makes h w₀ msg) (processPushMessage h text waiting : Worker ε Unit) := by
  unfold processPushMessage
  split
  · refine .bind (Refines.makes (modifyData_quiet fun _ => rfl)) fun _ => ?_
    exact .bind (Refines.makes checkConnection_effects) fun _ => processPendingRequests_makes
  · exact .pure _

/-! ### Messages -/

theorem processUi_makes (m : ToMsg) (hmsg : msg = .ui m) :
    Guar (Makes h w₀ msg) (fun w => w = w₀) (processUi h m : Worker ε Unit) fun _ _ => True := by
  cases m with
  | swapRequest req => exact processSwapRequest_makes hmsg
  | swapAccept req => exact processSwapAccept_makes hmsg
  | submitDecision req => exact processSubmitDecision_makes hmsg
  | editOrder req => exact processEditOrder_makes hmsg
  | login mnemonic phoneKey => exact Refines.guar (processLoginRequest_makes mnemonic phoneKey)
  | logout => exact Refines.guar processLogoutRequest_makes
  | pushMessage text => exact Refines.guar (processPushMessage_makes text false)
  | swapCancel => exact Refines.guar processSwapCancel_makes
  | submitOrder req =>
    refine Refines.guar (.bind (Refines.makes (modifyData_quiet fun _ => rfl)) fun _ => ?_)
    exact processPendingRequests_makes
  | linkOrder X =>
    refine Refines.guar (.bind (Refines.makes (modifyData_quiet fun _ => rfl)) fun _ => ?_)
    exact processPendingRequests_makes
  | _ => exact Refines.guar (Refines.makes (processUi_effects _ (Effect.allows_of_silent rfl)))

theorem processWsNotification_makes (n : Notification) (hmsg : msg = .serverNotification n) :
    Guar (Makes h w₀ msg) (fun w => w = w₀) (processWsNotification h n : Worker ε Unit)
      fun _ _ => True := by
  cases n with
  | swap m => exact processSwapNotification_makes hmsg
  | pegStatus status => exact Refines.guar (processPegStatus_makes status)
  | matchRfq m => exact Refines.guar (processRfqUpdate_makes m)
  | sign m => exact Refines.guar (processSign_makes m)
  | complete m => exact Refines.guar (processComplete_makes m)
  | _ => exact Refines.guar (Refines.makes
      (processWsNotification_effects _ (Effect.allows_of_silent rfl)))

/-- The handling of a message is a chain of moves. -/
theorem process_makes (msg : Message) :
    Guar (Makes h w₀ msg) (fun w => w = w₀) (process h msg : Worker ε Unit) fun _ _ => True := by
  cases msg with
  | ui m => exact processUi_makes m rfl
  | serverNotification n => exact processWsNotification_makes n rfl
  | notif event => exact Refines.guar (processWalletNotif_makes event)
  | serverConnected => exact Refines.guar processWsConnected_makes
  | pegStatus status => exact Refines.guar (processPegStatus_makes status)
  | backgroundMessage text => exact Refines.guar (processPushMessage_makes text true)
  | _ => exact Refines.guar (Refines.makes (process_effects _ (Effect.allows_of_silent rfl)))

theorem handle_chain (w : World) (msg : Message) :
    Relation.ReflTransGen (Move h (w.record (.received msg)) msg) (w.core.record (.received msg))
      ((machine h).handle msg w).state.core := by
  have hhandle : (machine h).handle msg w = process h msg (w.record (.received msg)) := rfl
  rw [hhandle]
  have hchain := (process_makes (h := h) (ε := Empty) msg (w.record (.received msg)) rfl).1
  exact hchain.lift World.core fun _ _ hm => hm

/-! ### Restarts -/

/-- The view of a new process: only the saved coins that have not expired are left. -/
def Core.restart (c : Core) (utxosReq : Map OrderId StoredUtxo) : Core :=
  { wallet := none, submitData := ∅, processedSigns := ∅, prompts := [], utxosReq := utxosReq
    savedReq := c.savedReq, utxosResp := ∅, log := .started :: c.log }

theorem boot_chain (w : World) :
    Relation.ReflTransGen Idle (w.core.restart (w.disk.prune (h.now w.calls)).utxosReq)
      (boot h w : Outcome ε _ _).state.core := by
  have hboot : (boot h w : Outcome ε _ _) = ignoreError (loadAssets h) (freshStart h w) := rfl
  rw [hboot]
  have hassets : Refines Quiet (ignoreError (loadAssets h) : Worker ε Unit) :=
    ignoreError_effects loadAssets_effects
  have hchain := hassets.chain (freshStart h w)
  exact hchain.lift World.core fun _ _ q => q

/-! ### Invariants of the view -/

/-- The parts of an invariant of the view: what starts, receives, restarts and moves preserve. -/
structure CoreInvariant (h : Host) (C : World → Message → Prop) (I : Core → Prop) : Prop where
  received : ∀ c msg, I c → I (c.record (.received msg))
  move : ∀ w msg c c', C w msg → I (w.record (.received msg)).core →
    Move h (w.record (.received msg)) msg c c' → I c → I c'
  restart : ∀ (c : Core) (utxosReq : Map OrderId StoredUtxo),
    (∀ X : OrderId, utxosReq[X]? ≠ none → c.savedReq[X]? ≠ none) → I c → I (c.restart utxosReq)
  idle : ∀ c c', Idle c c' → I c → I c'

theorem prune_sub (s : Settings) (now : ℕ) (X : OrderId) (hX : (s.prune now).utxosReq[X]? ≠ none) :
    s.utxosReq[X]? ≠ none := by
  intro hnone
  apply hX
  rw [Settings.prune, Std.ExtTreeMap.getElem?_filter, hnone]
  rfl

theorem CoreInvariant.boot {C : World → Message → Prop} {I : Core → Prop}
    (hI : CoreInvariant h C I) (w : World) (hw : I w.core) :
    I (Client.boot h w : Outcome ε _ _).state.core := by
  have hrestart := hI.restart w.core _ (prune_sub w.disk (h.now w.calls)) hw
  exact (boot_chain w).invariant hI.idle hrestart

/-- The induction over the runs of the worker whose messages meet a condition. -/
theorem run_core_invariant_from {C : World → Message → Prop} {I : Core → Prop}
    (hI : CoreInvariant h C I) {l : Life World} (hl : I l.state.core) {xs : List (Feed Message)}
    (hC : (machine h).Along C l xs) : I ((machine h).run l xs).state.core := by
  refine Machine.run_invariant_of_along (I := fun w => I w.core) hl hC ?_ fun w hw => hI.boot w hw
  intro w msg hw hc
  have hreceived := hI.received w.core msg hc
  exact (handle_chain w msg).invariant (fun c c' => hI.move w msg c c' hw hreceived) hreceived

theorem run_core_invariant {C : World → Message → Prop} {I : Core → Prop}
    (hI : CoreInvariant h C I) (hnew : I World.new.core) {xs : List (Feed Message)}
    (hC : (machine h).Along C (start h) xs) : I ((machine h).run (start h) xs).state.core := by
  refine run_core_invariant_from hI ?_ hC
  rw [start, Outcome.life_state]
  exact hI.boot World.new hnew

end SideSwap.Client
