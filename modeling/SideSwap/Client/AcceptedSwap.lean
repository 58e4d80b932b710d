import SideSwap.Client.SwapSafety

/-!
# The life of an accepted swap

An instant swap that the user has accepted should end by its own outcome, a cancellation, a failed
acceptance, a new swap or a logout (`endsSwap`).  `cleanupSwaps` empties the slots of all flows at
once, so there are two ways in which one flow disturbs another: the first transaction of an external
peg clears the active swap, and the outcome of a swap discards a transaction under review.

`accepted_swap_kept` shows that these are the only ones (`KeepsSwap`, `KeepsPayment`): in between,
the deal of the swap changes only by a further acceptance.  The network fee is not part of the deal,
since every quote of the server sets it.
-/

namespace SideSwap.Client

open Proc

variable {h : Host} {ε : Type}

/-! ### The deal of a swap -/

/-- A swap without the network fee of its last quote. -/
def ActiveSwap.deal (a : ActiveSwap) : ActiveSwap := { a with networkFee := none }

/-- The deal of the active swap. -/
def dealOf (w : World) : Option ActiveSwap :=
  (w.data.ctx.bind Context.activeSwap).map ActiveSwap.deal

/-- The peg that was started last. -/
def externPegOf (w : World) : Option OrderId := w.data.ctx.bind Context.activeExternPeg

/-- The transaction under review. -/
def sendTxOf (w : World) : Option SendTx := w.data.ctx.bind Context.sendTx

/-- The deal after an acceptance. -/
def ActiveSwap.afterMessage (a : ActiveSwap) : Message → ActiveSwap
  | .ui (.swapAccept req) => { a with recvAmountAccepted := req.recvAmount }
  | _ => a

/-! ### What ends a swap -/

/-- The two ways that a swap ends. -/
def SwapState.isOutcome : SwapState → Bool
  | .failed _ | .done _ => true
  | .waitPsbt _ | .waitSign _ => false

/-- The outcome of the active swap, a cancellation, an acceptance that fails, a new swap, or a
logout. -/
def endsSwap (h : Host) (w : World) (msg : Message) : Bool :=
  match msg with
  | .serverNotification (.swap m) =>
    SwapState.isOutcome m.state && decide ((dealOf w).map ActiveSwap.orderId = some m.orderId)
  | .ui .swapCancel | .ui .logout => true
  | .ui (.swapAccept req) => !(tryProcessSwapAccept h req (w.record (.received msg))).isOk
  | .ui (.swapRequest req) =>
    !req.isPegOut h && (tryProcessSwapRequest h req (w.record (.received msg))).isOk
  | _ => false

/-- Neither a login nor the first transaction of the external peg that was started last. -/
def keepsSwap (w : World) : Message → Bool
  | .ui (.login ..) => false
  | .pegStatus status | .serverNotification (.pegStatus status) =>
    status.list.isEmpty || decide (externPegOf w ≠ some status.orderId)
  | _ => true

/-- No message ends the swap, and none disturbs it. -/
def KeepsSwap (h : Host) (w : World) (msg : Message) : Prop :=
  endsSwap h w msg = false ∧ keepsSwap w msg = true

instance (w : World) (msg : Message) : Decidable (KeepsSwap h w msg) :=
  inferInstanceAs (Decidable (_ ∧ _))

/-- The notification does not end the active swap while a transaction is under review. -/
def KeepsPayment (w : World) (m : SwapNotification) : Prop :=
  (dealOf w).map ActiveSwap.orderId = some m.orderId → SwapState.isOutcome m.state = true →
    m.state ≠ .failed .cancelled → sendTxOf w = none

/-! ### Slots -/

/-- The effects write to the slots as their names say. -/
theorem Change.slots_kept {k : Effect} {w w' : World} (hs : Change k w w') (hcoarse : k.coarse = false)
    (hlogin : k ≠ .login) (hlogout : k ≠ .logout) (hcleanup : k ≠ .cleanup) :
    ∃ f, w'.data.ctx = w.data.ctx.map f ∧ ∀ c : Context,
      (k ≠ .swap → (f c).activeSwap = c.activeSwap) ∧
      (k ≠ .externPeg → (f c).activeExternPeg = c.activeExternPeg) ∧
      (k ≠ .payment → (f c).sendTx = c.sendTx) := by
  -- most steps do not touch the wallet at all
  have hsame : ∀ {v : World}, v.data.ctx = w.data.ctx → ∃ f, v.data.ctx = w.data.ctx.map f ∧
      ∀ c : Context, (k ≠ .swap → (f c).activeSwap = c.activeSwap) ∧
        (k ≠ .externPeg → (f c).activeExternPeg = c.activeExternPeg) ∧
        (k ≠ .payment → (f c).sendTx = c.sendTx) := by
    intro v hctx
    refine ⟨id, ?_, fun c => ⟨fun _ => rfl, fun _ => rfl, fun _ => rfl⟩⟩
    rw [hctx, Option.map_id_fun, id]
  cases hs
  case saved ok => cases ok <;> exact hsame rfl
  case assetsSaved => exact hsame rfl
  case info f hf => exact hsame (by rw [World.modifyData, hf])
  case queued f hf => exact hsame (by rw [World.modifyData, hf])
  case terms f hf _ => exact hsame (by rw [World.modifyData, hf])
  case synced | balanced => cases hcoarse
  case login => exact absurd rfl hlogin
  case logout => exact absurd rfl hlogout
  case cleaned => exact absurd rfl hcleanup
  case ctxInfo f hf =>
    exact ⟨f, rfl, fun c => ⟨fun _ => by rw [hf], fun _ => by rw [hf], fun _ => by rw [hf]⟩⟩
  case slots f hf =>
    exact ⟨f, rfl, fun c => ⟨fun hk => absurd rfl hk, fun _ => by rw [hf], fun _ => by rw [hf]⟩⟩
  case pegStarted => exact ⟨_, rfl, fun c => ⟨fun _ => rfl, fun hk => absurd rfl hk, fun _ => rfl⟩⟩
  case paymentSet => exact ⟨_, rfl, fun c => ⟨fun _ => rfl, fun _ => rfl, fun hk => absurd rfl hk⟩⟩
  -- these change other fields of it
  case marketSet | txsSent | balanceShown | swapReported | linkShown | promptShown | txsRead | pegRead
      | signTaken | submitTaken | swapDone =>
    exact ⟨_, rfl, fun c => ⟨fun _ => rfl, fun _ => rfl, fun _ => rfl⟩⟩
  all_goals exact hsame rfl

/-- A change of the wallet that keeps the terms of the swap. -/
theorem dealOf_of_map {w w' : World} {f : Context → Context} (hctx : w'.data.ctx = w.data.ctx.map f)
    (hf : ∀ c, (f c).activeSwap.map ActiveSwap.deal = c.activeSwap.map ActiveSwap.deal) :
    dealOf w' = dealOf w := by
  rw [dealOf, dealOf, hctx]
  cases w.data.ctx with
  | none => rfl
  | some c => exact hf c

/-- A change of the wallet that keeps the payment. -/
theorem sendTxOf_of_map {w w' : World} {f : Context → Context} (hctx : w'.data.ctx = w.data.ctx.map f)
    (hf : ∀ c, (f c).sendTx = c.sendTx) : sendTxOf w' = sendTxOf w := by
  rw [sendTxOf, sendTxOf, hctx, Option.bind_map]
  exact congrArg w.data.ctx.bind (funext hf)

/-- A change of the wallet that keeps the peg on display. -/
theorem externPegOf_of_map {w w' : World} {f : Context → Context}
    (hctx : w'.data.ctx = w.data.ctx.map f) (hf : ∀ c, (f c).activeExternPeg = c.activeExternPeg) :
    externPegOf w' = externPegOf w := by
  rw [externPegOf, externPegOf, hctx, Option.bind_map]
  exact congrArg w.data.ctx.bind (funext hf)

/-- The effects that may change the deal. -/
def Effect.deals : Effect → Bool
  | .swap | .cleanup | .login | .logout => true
  | _ => false

/-- The deal is `d`. -/
def Deal (d : Option ActiveSwap) (w : World) : Prop := dealOf w = d

variable {d : Option ActiveSwap}

/-- The effects that are not about swaps keep the accepted terms. -/
theorem Change.deal {k : Effect} {w w' : World} (hs : Change k w w') (hcoarse : k.coarse = false)
    (hk : k.deals = false) : dealOf w' = dealOf w := by
  obtain ⟨f, hctx, hf⟩ := hs.slots_kept hcoarse (by rintro rfl; cases hk) (by rintro rfl; cases hk)
    (by rintro rfl; cases hk)
  refine dealOf_of_map hctx fun c => ?_
  rw [(hf c).1 (by rintro rfl; cases hk)]

/-- A handler with such effects keeps the accepted terms. -/
theorem allows_deal (k : Effect) (hk : k.deals = false) : Allows (Preserves (Deal d)) k :=
  allows_of_changes (fun k => !k.deals) rfl
    (fun k w w' hk hcoarse hs hw => (hs.deal hcoarse (by simpa using hk)).trans hw) k (by simp [hk])

instance : Allows (Preserves (Deal d)) .talk := allows_deal _ rfl
instance : Allows (Preserves (Deal d)) .psets := allows_deal _ rfl

theorem record_deal (e : Event) : Refines (Preserves (Deal d)) (record e : Worker ε Unit) :=
  .modify fun _ hw => hw

theorem modifyCtx_deal {f : Context → Context}
    (hf : ∀ c, (f c).activeSwap.map ActiveSwap.deal = c.activeSwap.map ActiveSwap.deal) :
    Refines (Preserves (Deal d)) (modifyCtx f : Worker ε Unit) :=
  .modify fun w hw => (dealOf_of_map (w := w) rfl hf).trans hw

/-- A request keeps the accepted terms, whatever the answer. -/
theorem requestOr_deal (r : Request) (wrapError : String → String) :
    Refines (Preserves (Deal d)) (requestOr h r wrapError) :=
  .bind (call_effects _) fun _ => .bind (record_deal _) fun _ => .ofExcept _

/-! ### Quotes, notifications and requests -/

/-- A new quote changes the fee of the swap, not its terms. -/
theorem rfqUpdate_deal (m : MatchRfqUpdate) : Refines (Preserves (Deal d)) (rfqUpdate m) := by
  refine .bind (ctxOr_effects _) fun ctx => .bind (.okOr _ _) fun a => ?_
  refine .bind (modifyCtx_deal fun c => ?_) fun _ => toUi_effects rfl
  rw [Option.map_map]
  rfl

/-- To offer the inputs keeps the terms. -/
theorem swapSendPsbt_deal (txInfo : Swap) : Refines (Preserves (Deal d)) (swapSendPsbt h txInfo) := by
  refine .bind (ctxOr_effects _) fun ctx => .bind (.okOr _ _) fun a => ?_
  refine .bind (generatePsbt_effects _ _) fun psbt => .bind (requestOr_deal _ _) fun _ => ?_
  exact modifyCtx_deal fun _ => rfl

/-- To sign keeps the terms. -/
theorem swapSendSign_deal (psbt : String) : Refines (Preserves (Deal d)) (swapSendSign h psbt) := by
  refine .bind (ctxOr_effects _) fun ctx => .bind (.okOr _ _) fun a => .bind (.okOr _ _) fun utxos => ?_
  refine .bind ?_ fun signed => .bind (requestOr_deal _ _) fun _ => .pure _
  refine .bind (call_effects _) fun result => .bind (.expect _) fun signed => ?_
  exact .bind (record_deal _) fun _ => .ofExcept _

/-- A notification that is not the outcome of the active swap. -/
theorem processSwapNotification_deal {w₀ : World} {m : SwapNotification}
    (hends : endsSwap h w₀ (.serverNotification (.swap m)) = false) :
    Guar (Preserves (Deal d)) (fun w => w.data = w₀.data)
      (processSwapNotification h m : Worker ε Unit) fun _ _ => True := by
  refine .bind getData_spec fun data => ?_
  refine Guar.pre (P := fun w => data = w₀.data ∧ w.data = w₀.data) (.of_fact ?_) ?_
  · rintro rfl
    refine Refines.guar ?_
    split
    · -- the message is about the active swap
      rename_i a ha
      split
      · rename_i horder
        have hdeal : (dealOf w₀).map ActiveSwap.orderId = some m.orderId := by
          rw [dealOf, ha]
          exact congrArg some horder
        have houtcome : SwapState.isOutcome m.state = false := by
          simpa [endsSwap, hdeal] using hends
        -- an offer or a signature changes no deal; a failure or a success is an outcome, which is
        -- excluded
        split
        · exact ignoreError_effects (swapSendPsbt_deal _)
        · exact ignoreError_effects (swapSendSign_deal _)
        · rename_i error hstate
          rw [hstate] at houtcome
          cases houtcome
        · rename_i txid hstate
          rw [hstate] at houtcome
          cases houtcome
      · -- a message about another swap, or without one, does nothing
        exact .pure _
    · exact .pure _
  · rintro w ⟨rfl, hw⟩
    exact ⟨hw, hw⟩

/-- A request that does not prepare a new swap. -/
theorem tryProcessSwapRequest_deal {w₀ : World} {req : SwapRequest}
    (hends : (!req.isPegOut h && (tryProcessSwapRequest h req w₀).isOk) = false) :
    Guar (Preserves (Deal d)) (fun w => w = w₀) (tryProcessSwapRequest h req) fun _ _ => True := by
  by_cases hout : req.isPegOut h = true
  · rw [tryProcessSwapRequest, if_pos hout]
    refine Refines.guar (.bind getData_effects fun d => .bind (.ensure _) fun _ => ?_)
    refine .bind (.okOr _ _) fun blocks => .bind (.okOr _ _) fun _ => .bind (.okOr _ _) fun status => ?_
    refine .bind (.ensure _) fun _ => .bind (.modify fun w hw => ?_) fun _ => .pure _
    exact (dealOf_of_map (w := w) (f := fun c =>
      { c with internalPeg := some ⟨req.sendAmount, blocks⟩ }) rfl fun _ => rfl).trans hw
  · have hfails : (tryProcessSwapRequest h req w₀).isOk = false := by simpa [hout] using hends
    by_cases hin : req.isPegIn h = true
    · rw [tryProcessSwapRequest, if_neg hout, if_pos hin]
      exact .abort
    · rw [tryProcessSwapRequest, if_neg hout, if_neg hin] at hfails ⊢
      rintro w rfl
      refine ⟨?_, fun _ _ _ => trivial⟩
      -- the slot is written by the last step, which a failure does not reach
      rcases processSwapRequestAtomic_commits (h := h) req w with ⟨review, w₁, w₂, -, -, hok⟩ | ⟨hchain, -⟩
      · rw [hok] at hfails
        cases hfails
      · refine Relation.ReflTransGen.mono (fun v v' q hv => ?_) _ _ hchain
        have hactive := q.activeSwap
        rw [World.core_activeSwap, World.core_activeSwap] at hactive
        have hsame : dealOf v' = dealOf v := by rw [dealOf, dealOf, hactive]
        exact hsame.trans hv

/-- A request that does not begin a new swap keeps the old one's terms. -/
theorem processSwapRequest_deal {w₀ : World} {req : SwapRequest}
    (hends : (!req.isPegOut h && (tryProcessSwapRequest h req w₀).isOk) = false) :
    Guar (Preserves (Deal d)) (fun w => w = w₀) (processSwapRequest h req : Worker ε Unit)
      fun _ _ => True := by
  refine .bind (.attempt (tryProcessSwapRequest_deal hends)) fun result => ?_
  cases result with
  | ok review => exact Refines.guar (toUi_effects rfl)
  | error e => exact Refines.guar (toUi_effects rfl)

/-! ### Acceptance -/

/-- An acceptance that succeeds sets the accepted amount and leaves the rest of the deal. -/
theorem tryProcessSwapAccept_deal {a : ActiveSwap} (req : SwapAccept) :
    Guar (fun _ _ => True) (Deal (some a)) (tryProcessSwapAccept h req) fun _ w =>
      Deal (some { a with recvAmountAccepted := req.recvAmount }) w := by
  refine .bind expectCtx_spec fun ctx => .bind getData_spec fun data => .bind .ensure fun _ => ?_
  -- the wallet has not changed since it was read
  have hactive : ∀ w, (data.connected = true) ∧ data = w.data ∧ w.data.ctx = some ctx ∧
      Deal (some a) w → ctx.activeSwap.map ActiveSwap.deal = some a := by
    rintro w ⟨-, -, hctx, hw⟩
    rw [Deal, dealOf, hctx, Option.bind_some] at hw
    exact hw
  -- one case each for a swap, for a peg-out and for nothing to accept
  split
  · rename_i b _
    refine .bind .okOr fun amount => ?_
    have hrequest : Guar (Preserves (Deal (some a))) (Deal (some a))
        (request h (.matchRfqAccept b.orderId amount)) fun _ w => Deal (some a) w :=
      (requestOr_deal _ _).carry
    refine Guar.pre (P := fun w => req.recvAmount = some amount ∧ Deal (some a) w) (.of_fact ?_) ?_
    · -- the server has been asked, and the amount is stored in the active swap
      intro hamount
      refine .bind (hrequest.mono fun _ _ _ => trivial) fun _ => ?_
      refine .modify (fun _ _ => trivial) fun w hw => ?_
      obtain ⟨b, hb, rfl⟩ := Option.map_eq_some_iff.mp hw
      obtain ⟨c, hc, hb⟩ := Option.bind_eq_some_iff.mp hb
      simp only [Deal, dealOf, World.modifyCtx, World.modifyData, hc, hb, hamount, Option.map_some,
        Option.bind_some, ActiveSwap.deal]
    · rintro w ⟨hamount, -, -, -, hw⟩
      exact ⟨hamount, hw⟩
  · rename_i hnone _
    intro w hw
    have hsome := hactive w hw
    rw [hnone] at hsome
    cases hsome
  · exact .fail

/-! ### Pegs -/

/-- What a peg status leaves if it does not report the peg. -/
def PegKept (d : Option ActiveSwap) (status : PegStatus) (w : World) : Prop :=
  Deal d w ∧ (status.list.isEmpty || decide (externPegOf w ≠ some status.orderId)) = true

/-- Until the peg is reported, its slot stays. -/
theorem Change.pegKept {status : PegStatus} {k : Effect} {w w' : World} (hs : Change k w w')
    (hcoarse : k.coarse = false) (hk : k.deals = false) (hpeg : k ≠ .externPeg)
    (hw : PegKept d status w) : PegKept d status w' := by
  obtain ⟨f, hctx, hf⟩ := hs.slots_kept hcoarse (by rintro rfl; cases hk) (by rintro rfl; cases hk)
    (by rintro rfl; cases hk)
  have hpegOf : externPegOf w' = externPegOf w := externPegOf_of_map hctx fun c => (hf c).2.1 hpeg
  refine ⟨(hs.deal hcoarse hk).trans hw.1, ?_⟩
  rw [hpegOf]
  exact hw.2

/-- A peg status that does not report the peg which was started last. -/
theorem processPegStatus_pegKept (status : PegStatus) :
    Guar (Preserves (PegKept d status)) (PegKept d status) (processPegStatus h status : Worker ε Unit)
      fun _ _ => True := by
  -- what follows changes neither the deals nor the peg on display
  have hallows : ∀ k, (!k.deals && k != .externPeg) = true → Allows (Preserves (PegKept d status)) k := by
    refine allows_of_changes _ rfl fun k w w' hk hcoarse hs hw => ?_
    have hk : k.deals = false ∧ k ≠ .externPeg := by simpa using hk
    exact hs.pegKept hcoarse hk.1 hk.2 hw
  have := hallows .wallet rfl
  have := hallows .sync rfl
  refine .bind (Refines.carry getData_effects) fun data => ?_
  split
  · exact Refines.guar (.pure _)
  · refine .bind (Refines.carry (modify_effects fun _ => .pegRead status)) fun _ => ?_
    refine .bind (Refines.carry syncTxList_effects) fun _ => .bind expectCtx_spec fun ctx => ?_
    split
    · -- the peg is only reported when its first payment has come, which is excluded
      rename_i X tx rest hX hlist
      split
      · rename_i horder
        rintro w ⟨hctx, hw⟩
        have hpegOf : externPegOf w = some status.orderId := by
          rw [externPegOf, hctx, Option.bind_some, hX, horder]
        have hkept := hw.2
        rw [hpegOf, hlist] at hkept
        simp at hkept
      · exact Refines.guar (.pure _)
    · exact Refines.guar (.pure _)

/-! ### The handling of a message -/

/-- A message that neither ends nor disturbs the active swap leaves its deal, but for the amount of
a further acceptance. -/
theorem handle_deal {a : ActiveSwap} {msg : Message} {w w' : World} (hkeeps : KeepsSwap h w msg)
    (hw : dealOf w = some a) (hok : (machine h).handle msg w = .ok () w') :
    dealOf w' = some (a.afterMessage msg) := by
  let w₀ := w.record (.received msg)
  have hw₀ : Deal (some a) w₀ := hw
  have hhandle : (machine h).handle msg w = process h msg w₀ := rfl
  rw [hhandle] at hok
  obtain ⟨hends, hkeeps⟩ := hkeeps
  have hguar : ∀ {P : World → Prop} {m : Worker Empty Unit},
      Guar (Preserves (Deal (some a))) P m (fun _ _ => True) → P w₀ → m w₀ = .ok () w' →
      dealOf w' = some a := by
    intro P m hm hP hok
    have hinv := (hm w₀ hP).1.invariant (fun _ _ hstep => hstep) hw₀
    rw [hok] at hinv
    exact hinv
  -- most messages have no effect that could touch the deal
  have hquiet : ∀ msg : Message, msg.effects.all (fun k => !k.deals) = true →
      (process h msg w₀ : Outcome Empty World Unit) = .ok () w' → dealOf w' = some a := by
    intro msg hmsg
    refine hguar (P := fun _ => True) ?_ trivial
    exact process_effects msg fun k hk =>
      allows_deal k (by simpa using List.all_eq_true.mp hmsg k hk)
  -- a status touches the deal only when it lists a transaction of the external peg
  have hpeg : ∀ status, (status.list.isEmpty || decide (externPegOf w ≠ some status.orderId)) = true →
      (processPegStatus h status w₀ : Outcome Empty World Unit) = .ok () w' → dealOf w' = some a := by
    intro status hstatus hok
    have hinv := (processPegStatus_pegKept (h := h) (ε := Empty) status w₀ ⟨hw₀, hstatus⟩).1.invariant
      (fun _ _ hstep => hstep) ⟨hw₀, hstatus⟩
    rw [hok] at hinv
    exact hinv.1
  cases msg with
  | ui m =>
    cases m with
    | login mnemonic phoneKey => cases hkeeps
    | logout | swapCancel => cases hends
    | swapRequest req => exact hguar (processSwapRequest_deal hends) rfl hok
    | swapAccept req =>
      -- an acceptance that fails cleans up, which `endsSwap` excludes
      have hsucceeds : (tryProcessSwapAccept h req w₀).isOk = true := by
        simpa [endsSwap] using hends
      have hspec := tryProcessSwapAccept_deal (h := h) req w₀ hw₀
      cases haccept : tryProcessSwapAccept h req w₀ with
      | ok u w₁ =>
        have hprocess : (process h (.ui (.swapAccept req)) w₀ : Outcome Empty World Unit) = .ok () w₁ := by
          show (Proc.attempt (tryProcessSwapAccept h req) >>= _ : Worker Empty Unit) w₀ = _
          rw [bind_apply, Proc.attempt, haccept]
          rfl
        rw [hprocess] at hok
        cases hok
        exact hspec.2 u _ haccept
      | error e w₁ =>
        rw [haccept] at hsucceeds
        cases hsucceeds
      | abort w₁ =>
        rw [haccept] at hsucceeds
        cases hsucceeds
    | _ => exact hquiet _ rfl hok
  | serverNotification n =>
    cases n with
    | pegStatus status => exact hpeg status hkeeps hok
    | matchRfq m => exact hguar (P := fun _ => True) (ignoreError_effects (rfqUpdate_deal m)) trivial hok
    | swap m =>
      have hspec : Guar (Preserves (Deal (some a))) (fun w => w.data = w₀.data)
          (processSwapNotification h m : Worker Empty Unit) fun _ _ => True :=
        processSwapNotification_deal hends
      exact hguar hspec rfl hok
    | _ => exact hquiet _ rfl hok
  | pegStatus status => exact hpeg status hkeeps hok
  | _ => exact hquiet _ rfl hok

/-! ### The transaction under review -/

/-- The transaction under review is `tx`. -/
def Payment (tx : Option SendTx) (w : World) : Prop := sendTxOf w = tx

/-- The effects of swaps keep the payment. -/
theorem allows_payment (tx : Option SendTx) (k : Effect)
    (hk : k ∈ [Effect.talk, .swap, .psets]) : Allows (Preserves (Payment tx)) k := by
  refine ⟨fun {w w'} hs => .single fun hw => ?_⟩
  simp only [List.mem_cons, List.not_mem_nil, or_false] at hk
  obtain ⟨f, hctx, hf⟩ := hs.slots_kept (by rcases hk with rfl | rfl | rfl <;> rfl)
    (by rintro rfl; simp at hk) (by rintro rfl; simp at hk) (by rintro rfl; simp at hk)
  exact (sendTxOf_of_map hctx fun c => (hf c).2.2 (by rintro rfl; simp at hk)).trans hw

/-- A clean-up when no transaction is under review. -/
theorem cleanupSwaps_payment : Refines (Preserves (Payment none)) (cleanupSwaps : Worker ε Unit) := by
  refine .bind expectCtx_effects fun _ => .modify fun w _ => ?_
  show sendTxOf (w.modifyCtx Context.withoutSwaps) = none
  simp only [sendTxOf, World.modifyCtx, World.modifyData]
  cases w.data.ctx <;> rfl

/-- A notification about a swap leaves the transaction under review, unless it ends the active swap
in between. -/
theorem handle_payment {m : SwapNotification} {w : World} (hkeeps : KeepsPayment w m) :
    sendTxOf ((machine h).handle (.serverNotification (.swap m)) w).state = sendTxOf w := by
  let w₀ := w.record (.received (.serverNotification (.swap m)))
  have := allows_payment (sendTxOf w) .talk (by decide)
  have := allows_payment (sendTxOf w) .swap (by decide)
  have := allows_payment (sendTxOf w) .psets (by decide)
  have hprocess : Guar (Preserves (Payment (sendTxOf w))) (fun v => v = w₀)
      (processSwapNotification h m : Worker Empty Unit) fun _ _ => True := by
    refine .bind getData_spec fun data => ?_
    refine Guar.pre (P := fun v => data = w₀.data ∧ v = w₀) (.of_fact ?_) ?_
    · rintro rfl
      refine Refines.guar ?_
      split
      · rename_i a ha
        split
        · rename_i horder
          have hdeal : (dealOf w).map ActiveSwap.orderId = some m.orderId := by
            have ha : w.data.ctx.bind Context.activeSwap = some a := ha
            rw [dealOf, ha]
            exact congrArg some horder
          split
          · exact ignoreError_effects (swapSendPsbt_effects _)
          · exact ignoreError_effects (swapSendSign_effects _)
          · rename_i error hstate
            unfold swapFailed
            split
            · exact .pure _
            · rename_i text htext
              -- a failed swap that was not cancelled cleans up, so nothing may be under review
              have hnone : sendTxOf w = none := by
                refine hkeeps hdeal (by rw [hstate]; rfl) fun hcancelled => ?_
                rw [hstate] at hcancelled
                cases hcancelled
                cases htext
              refine .bind (toUi_effects rfl) fun _ => ?_
              rw [hnone]
              exact cleanupSwaps_payment
          · rename_i txid hstate
            have hnone : sendTxOf w = none :=
              hkeeps hdeal (by rw [hstate]; rfl) fun hcancelled => by rw [hstate] at hcancelled; cases hcancelled
            refine .bind expectCtx_effects fun c => .bind (.expect _) fun a => .bind ?_ fun _ => ?_
            · refine .modify fun v hv => ?_
              exact (sendTxOf_of_map (w := v) (f := fun c =>
                { c with
                  usedUtxos := c.usedUtxos ∪ (a.inputs.map Utxo.txOut).toFinset
                  succeedSwap := some txid }) rfl fun _ => rfl).trans hv
            · rw [hnone]
              exact .bind (.modify fun _ hv => hv) fun _ => cleanupSwaps_payment
        · exact .pure _
      · exact .pure _
    · rintro v ⟨rfl, rfl⟩
      exact ⟨rfl, rfl⟩
  exact (hprocess w₀ rfl).1.invariant (I := Payment (sendTxOf w)) (fun _ _ hstep => hstep) rfl

/-! ### Runs -/

/-- While no message ends the active swap and none disturbs it, its deal changes only by further
acceptances; and the outcome of a swap discards no transaction under review if there is none. -/
theorem accepted_swap_kept {xs : List (Feed Message)} {ys : List Message} {a : ActiveSwap}
    (hactive : dealOf ((machine h).run (start h) xs).state = some a)
    (hkeeps : (machine h).Along (KeepsSwap h) ((machine h).run (start h) xs) (ys.map .deliver)) :
    let l := (machine h).run (start h) (xs ++ ys.map .deliver)
    (l.alive = true → dealOf l.state = some (ys.foldl ActiveSwap.afterMessage a)) ∧
      ∀ m, KeepsPayment l.state m →
        sendTxOf ((machine h).handle (.serverNotification (.swap m)) l.state).state = sendTxOf l.state := by
  intro l
  refine ⟨fun halive => ?_, fun m hm => handle_payment hm⟩
  have hl : l = (machine h).run ((machine h).run (start h) xs) (ys.map .deliver) :=
    Machine.run_append _ _ _
  rw [hl] at halive ⊢
  exact Machine.run_deliver_invariant (A := fun a w => dealOf w = some a) hactive hkeeps
    (fun a w msg w' hmsg hw hok => handle_deal hmsg hw hok) halive

namespace Sample

/-- A peg-in is started, then a swap is requested and accepted. -/
def pegAndSwap : List (Feed Message) :=
  online ++ [.deliver (.ui .pegRequest), .deliver (swapRequest gold silver), .deliver swapAccept]

/-- The status of the peg-in with the given transactions. -/
def pegStatus (list : List TxStatus) : Message :=
  .serverNotification (.pegStatus ⟨⟨"peg"⟩, true, "peg address", "address", list⟩)

/-- Messages that leave the swap alone: a peg status without transactions, a quote, the request for
the PSET, and a second acceptance. -/
def meanwhile : List Message :=
  [pegStatus [], .serverNotification (.matchRfq ⟨⟨"gold"⟩, .ok ⟨60, 2⟩⟩), waitPsbt gold silver,
    .ui (.swapAccept ⟨some "address", some 60⟩)]

/-- The swap of the samples, after its acceptance. -/
def goldDeal : ActiveSwap :=
  { orderId := ⟨"gold"⟩, sendAsset := gold, recvAsset := silver, sendAmount := 100
    recvAmountAccepted := some 50, inputs := [⟨"a", 100, 0, []⟩], networkFee := none }

end Sample

open Sample in
theorem accepted_swap_kept_gold :
    let l := (machine host).run (start host) (pegAndSwap ++ meanwhile.map .deliver)
    l.alive = true ∧ dealOf l.state = some { goldDeal with recvAmountAccepted := some 60 } := by
  have hactive : dealOf ((machine host).run (start host) pegAndSwap).state = some goldDeal := by
    decide +kernel
  have hkeeps : (machine host).Along (KeepsSwap host) ((machine host).run (start host) pegAndSwap)
      (meanwhile.map .deliver) := by
    decide +kernel
  have halive : ((machine host).run (start host) (pegAndSwap ++ meanwhile.map .deliver)).alive = true := by
    decide +kernel
  have hkept := (accepted_swap_kept hactive hkeeps).1 halive
  exact ⟨halive, hkept⟩

open Sample in
/-- The first transaction of a peg that was started earlier clears an accepted swap. -/
theorem accepted_swap_cleared :
    ¬ ∀ (h : Host) (xs : List (Feed Message)) (ys : List Message) (a : ActiveSwap),
      dealOf ((machine h).run (start h) xs).state = some a → a.recvAmountAccepted.isSome = true →
      (machine h).Along (fun w msg => endsSwap h w msg = false) ((machine h).run (start h) xs)
        (ys.map .deliver) →
      let l := (machine h).run (start h) (xs ++ ys.map .deliver)
      l.alive = true → dealOf l.state = some (ys.foldl ActiveSwap.afterMessage a) := by
  intro hall
  have hrun := hall host pegAndSwap [pegStatus [⟨"tx", 0, 1, none, none, none, 0, none⟩]] goldDeal
    (by decide +kernel) rfl (by decide +kernel)
  revert hrun
  decide +kernel

end SideSwap.Client
