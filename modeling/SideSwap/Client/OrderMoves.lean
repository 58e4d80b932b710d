import SideSwap.Client.SwapMoves

/-!
# The moves of orders

The handlers of orders as chains of moves.  The checks of terms take no step at all
(`verifyAmounts_spec`, `checkSign_spec`), so that a sign request is taken over in one move together
with the prompt or the signature that it leads to.
-/

namespace SideSwap.Client

open Proc

variable {ε : Type} {h : Host} {w₀ : World} {msg : Message}

/-! ### Checks -/

theorem verifyPrice_spec {P : World → Prop} (details : Details) (precision : ℕ) :
    Guar (fun _ _ => False) P (verifyAmounts.verifyPrice details precision) fun _ w =>
      ((details.orderType = .bitcoin →
          assetAmount details.bitcoinAmount details.price precision = some details.assetAmount) ∧
        (details.orderType = .asset →
          bitcoinAmount details.assetAmount details.price precision =
            some details.bitcoinAmount)) ∧ P w := by
  unfold verifyAmounts.verifyPrice
  split
  · rename_i htype
    refine .bind Guar.ensure fun _ => .bind Guar.expect fun expected => Guar.ensure.post ?_
    rintro _ w ⟨rfl, hexpected, -, hw⟩
    exact ⟨⟨fun _ => hexpected, fun h => by simp [htype] at h⟩, hw⟩
  · rename_i htype
    refine .bind Guar.expect fun expected => Guar.ensure.post ?_
    rintro _ w ⟨rfl, hexpected, hw⟩
    exact ⟨⟨fun h => by simp [htype] at h, fun _ => hexpected⟩, hw⟩

theorem verifyAmounts_spec {P : World → Prop} (d : Data) (details : Details) :
    Guar (fun _ _ => False) P (verifyAmounts h d details) fun _ w =>
      Verified (d.precision details.asset) details ∧ P w := by
  refine .bind Guar.ensure fun _ => .bind Guar.ensure fun _ => .bind Guar.ensure fun _ => ?_
  refine .bind Guar.ensure fun _ => .bind Guar.ensure fun _ => .bind Guar.ensure fun _ => ?_
  refine .bind Guar.okOr fun asset => .bind Guar.ensure fun _ => ?_
  refine .bind (verifyPrice_spec details asset.precision) fun _ => Guar.ensure.post ?_
  rintro _ w ⟨hfee, ⟨hbitcoin, hasset⟩, -, hfound, -, -, -, -, hprice, -, hw⟩
  have hprecision : d.precision details.asset = asset.precision := by
    rw [Data.precision, hfound, Option.map_some, Option.getD_some]
  rw [hprecision]
  exact ⟨⟨hprice, hfee, hbitcoin, hasset⟩, hw⟩

theorem checkFixed_spec {P : World → Prop} (details : Details) (s : SubmitData) :
    Guar (fun _ _ => False) P (checkFixed details s) fun _ w =>
      ((s.orderType = .bitcoin →
          s.serverFee = details.serverFee ∧ s.bitcoinAmount = details.bitcoinAmount) ∧
        (s.orderType = .asset → s.assetAmount = details.assetAmount)) ∧ P w := by
  unfold checkFixed
  split
  · rename_i htype
    refine .bind Guar.ensure fun _ => Guar.ensure.post ?_
    rintro _ w ⟨hamount, hfee, hw⟩
    exact ⟨⟨fun _ => ⟨hfee, hamount⟩, fun h => by simp [htype] at h⟩, hw⟩
  · rename_i htype
    refine Guar.ensure.post ?_
    rintro _ w ⟨hamount, hw⟩
    exact ⟨⟨fun h => by simp [htype] at h, fun _ => hamount⟩, hw⟩

theorem checkSign_spec {P : World → Prop} (m : SignNotification) (s : SubmitData) :
    Guar (fun _ _ => False) P (checkSign m s) fun _ w =>
      (m.orderId = s.orderId ∧ Agrees s m.details) ∧ P w := by
  refine .bind Guar.ensure fun _ => .bind Guar.ensure fun _ => .bind Guar.ensure fun _ => ?_
  refine .bind Guar.ensure fun _ => .bind (checkFixed_spec m.details s) fun _ => ?_
  refine .bind Guar.ensure fun _ => Guar.ensure.post ?_
  rintro _ w ⟨hprice, hside, ⟨hbitcoin, hamount⟩, hasset, htype, hdirection, horder, hw⟩
  exact ⟨⟨horder, hdirection, htype, hasset, hside, hbitcoin, hamount, hprice⟩, hw⟩

/-! ### Reviews -/

/-- The review of a link and the slot that remembers it are one move. -/
theorem showLink_makes (X : OrderId) (resp : LinkResponse) :
    Guar (Makes h w₀ msg) (fun w => .request (.link X) (.ok resp) ∈ w.log) (showLink X resp)
      fun _ _ => True := by
  intro w hlinked
  refine ⟨.single ?_, fun _ _ _ => trivial⟩
  let autoSign := (w.data.submitData[X]?.map SubmitData.autoSign).getD false
  let internal := decide (X ∈ w.data.internal)
  let review := detailsReview resp.details X resp.indexPrice internal autoSign
  have hcore : (showLink X resp w).state.core =
      (w.core.modifyWallet fun v => { v with activeSubmit := some resp }).record
        (.toUi (.submitReview review)) := by
    have happly : showLink X resp w =
        (ctxOr "no context found" >>= fun _ => modifyCtx fun c => { c with activeSubmit := some resp })
          ((w.record (.toUi (.submitReview review))).modifyData fun d =>
            { d with visibleSubmit := some X }) := rfl
    rw [happly, ctxOr_modifyCtx_state,
      World.core_modifyCtx _ (g := fun v => { v with activeSubmit := some resp }) fun c => rfl]
    rfl
  rw [Makes, hcore]
  exact .order (.linkReviewed X resp internal autoSign hlinked)

theorem mem_log_of_quiet {e : Event} (w w' : World) (q : Quiet w w') (he : e ∈ w.log) :
    e ∈ w'.log := by
  obtain ⟨events, hlog, -⟩ := q.log
  rw [hlog]
  exact List.mem_append_right _ he

theorem tryProcessLinkOrder_makes (X : OrderId) :
    Refines (Makes h w₀ msg) (tryProcessLinkOrder h X) := by
  refine .of_guar (Q := fun _ _ => True) ?_
  refine .bind (Q := fun resp w => .request (.link X) (.ok resp) ∈ w.log) ?_ fun resp => ?_
  · refine (requestOr_makes fun w answer _ => .quiet ⟨false, [_], by simp [Event.plain], rfl⟩).post ?_
    rintro resp w ⟨w', -, rfl⟩
    exact List.mem_cons_self
  · refine .bind (Refines.keeps (tryAddAsset_effects _) mem_log_of_quiet) fun _ => ?_
    refine .bind (Refines.keeps (checkFunds_effects _) mem_log_of_quiet) fun _ => ?_
    exact showLink_makes X resp

theorem tryProcessSubmitOrder_makes (req : SubmitOrder) :
    Refines (Makes h w₀ msg) (tryProcessSubmitOrder h req) := by
  refine .bind (Refines.makes getData_effects) fun d => .bind (.okOr _ _) fun sessionId => ?_
  refine .bind (Refines.makes (submitAmount_effects req)) fun amount => ?_
  refine .bind (Refines.makes (request_effects fun _ => rfl)) fun resp => ?_
  refine .bind (Refines.makes (modifyData_quiet fun _ => rfl)) fun _ => ?_
  exact tryProcessLinkOrder_makes _

/-- The prompts are shown from the front of the queue, each with its slot in one move. -/
theorem showPrompts_makes (l : List SignNotification) :
    Guar (Makes h w₀ msg) (fun w => w.data.pendingSignPrompts = l) (showPrompts l : Worker ε Unit)
      fun _ _ => True := by
  induction l with
  | nil => exact .pure fun _ _ => trivial
  | cons m rest ih =>
    refine .bind getData_spec fun d => ?_
    split
    · exact .pure fun _ _ => trivial
    · -- the prompt of an order that is gone is dropped, or it is shown with its review
      split
      · refine .bind (Q := fun _ w => w.data.pendingSignPrompts = rest) (.modify ?_ fun _ _ => rfl)
          fun _ => ih
        rintro w ⟨-, hw⟩
        exact .order (.promptDropped hw)
      · rename_i s hs
        rintro w ⟨rfl, hw⟩
        let internal := decide (m.orderId ∈ w.data.internal)
        let w₁ := ((w.modifyData fun d => { d with pendingSignPrompts := rest }).record
          (.toUi (.submitReview (s.signReview m.orderId internal)))).modifyData fun d =>
            { d with visibleSubmit := some m.orderId }
        let w₂ := w₁.modifyCtx fun c => { c with activeSign := some m }
        have hmove : Makes h w₀ msg w w₂ := by
          rw [Makes, World.core_modifyCtx w₁ (g := fun v => { v with activeSign := some m }) fun c => rfl]
          exact .order (.promptShown internal hw hs)
        obtain ⟨hchain, -⟩ := ih w₂ rfl
        exact ⟨.head hmove hchain, fun _ _ _ => trivial⟩

theorem processPendingSignPrompts_makes :
    Refines (Makes h w₀ msg) (processPendingSignPrompts : Worker ε Unit) := by
  refine .of_guar (Q := fun _ _ => True) (.bind getData_spec fun d => ?_)
  split
  · exact .pure fun _ _ => trivial
  · refine (showPrompts_makes _).pre ?_
    rintro w ⟨rfl, -⟩
    rfl

theorem afterReview_makes : Refines (Makes h w₀ msg) (afterReview : Worker ε Unit) :=
  .bind processPendingSignPrompts_makes fun _ => Refines.makes processPendingSucceed_effects

/-! ### Signing -/

/-- Taking the coins of a maker order and saving what is left are one move. -/
theorem takeStoredUtxos_spec {L : List Event} (side : OrderSide) (X : OrderId) :
    Guar (Makes h w₀ msg) (fun w => w.log = L) (takeStoredUtxos h side X) fun _ w =>
      w.log = .utxosTaken side X :: L := by
  rintro w rfl
  cases side with
  | requestor =>
    -- the coins of a requestor are kept in the settings, which are saved
    let saves := h.saveSucceeds w.calls
    let w₁ : World :=
      { w.modifyData fun d =>
          { d with settings := { d.settings with utxosReq := d.settings.utxosReq.erase X } } with
        calls := w.calls + 1 }
    let w₂ : World := if saves then { w₁ with disk := w₁.data.settings } else w₁
    have happly : takeStoredUtxos h .requestor X w =
        (okOr w.data.settings.utxosReq[X]? "not utxos found" >>= fun utxos =>
          record (.utxosTaken .requestor X) >>= fun _ => pure utxos) w₂ := rfl
    have hcore : w₂.core = w.core.takeReq X saves := by
      cases hsaves : saves <;> simp only [w₂, hsaves] <;> rfl
    have hlog : w₂.log = w.log := congrArg Core.log hcore
    rw [happly]
    cases hfound : w.data.settings.utxosReq[X]? with
    | none =>
      refine ⟨?_, fun _ _ hs => by cases hs⟩
      have herased : Makes h w₀ msg w w₁ := .order (.reqErased X hfound)
      have hsaved : Makes h w₀ msg w₁ w₂ := by
        rw [Makes, hcore]
        exact .quiet ⟨saves, [], by simp, rfl⟩
      exact .head herased (.single hsaved)
    | some utxo =>
      refine ⟨.single ?_, ?_⟩
      · show Move h w₀ msg w.core (w₂.core.record (.utxosTaken .requestor X))
        rw [hcore]
        exact .order (.reqTaken X saves (fun hsave => hsave w.calls) hfound)
      · intro _ _ hs
        cases hs
        exact congrArg (Event.utxosTaken .requestor X :: ·) hlog
  | responder =>
    -- the coins of a responder are only in memory
    let w₁ := w.modifyData fun d => { d with utxosResp := d.utxosResp.erase X }
    have happly : takeStoredUtxos h .responder X w =
        (okOr w.data.utxosResp[X]? "not utxos found" >>= fun utxos =>
          record (.utxosTaken .responder X) >>= fun _ => pure utxos) w₁ := rfl
    rw [happly]
    cases hfound : w.data.utxosResp[X]? with
    | none => exact ⟨.single (.order (.respErased X hfound)), fun _ _ hs => by cases hs⟩
    | some utxo =>
      refine ⟨.single (.order (.respTaken X hfound)), ?_⟩
      intro _ _ hs
      cases hs
      rfl

/-- The body of `try_sign`, in a state whose terms are a reason to sign. -/
theorem signOrder_makes (cause : SignCause) (m : SignNotification) (older : List Event) :
    Guar (Makes h w₀ msg)
      (fun w => w.log = .trySign cause m :: older ∧
        ∀ s, w.data.submitData[m.orderId]? = some s → SignReason w₀ msg cause m older s)
      (signOrder h cause m) fun _ _ => True := by
  refine .bind (ctxOr_spec _) fun _ => .bind getData_spec fun d => .bind Guar.okOr fun s => ?_
  refine .bind Guar.ensure fun _ => ?_
  refine Guar.pre (P := fun w => SignReason w₀ msg cause m older s ∧
    w.log = .trySign cause m :: older) (.of_fact fun hreason => ?_) ?_
  · refine .bind (takeStoredUtxos_spec m.details.side m.orderId) fun utxos => ?_
    refine .bind (Q := fun _ _ => True) ?_ fun signed => Refines.guar ?_
    · intro w hlog
      refine (Guar.post (signPsbt_spec fun signed => ?_) fun _ _ _ => trivial) w rfl
      exact .order (.orderSigned _ _ _ hlog hreason)
    · exact .bind (Refines.makes (request_effects fun _ => rfl)) fun _ => .pure _
  · rintro w ⟨-, hs, rfl, -, hlog, hreason⟩
    exact ⟨hreason s hs, hlog⟩

/-! ### Sign requests -/

/-- What follows the checks of a sign request changes the stored terms in one move with the prompt
or the start of the signature, and with the mark that the request has been handled. -/
theorem acceptSign_chain {w : World} {precision : ℕ} {m : SignNotification} {s : SubmitData}
    (hnew : m.orderId ∉ w.data.processedSigns) (hterms : w.data.submitData[m.orderId]? = some s)
    (hsignable : Signable precision s m) :
    Relation.ReflTransGen (Makes h w₀ msg) w (acceptSign h precision m s (w.modifyData fun d =>
      { d with processedSigns := insert m.orderId d.processedSigns })).state := by
  let w₁ := (w.modifyData fun d =>
    { d with processedSigns := insert m.orderId d.processedSigns }).modifyData fun d =>
      { d with submitData := d.submitData.insert m.orderId (s.update m.details) }
  rw [acceptSign, setSubmitData, modifyData_bind_apply]
  -- signed at once: the terms and the decision are one move
  by_cases hallowed : autoSignAllowed m.details s = true
  · rw [if_pos hallowed]
    let w₂ := w₁.record (.trySign (.auto s precision) m)
    have hmove : Makes h w₀ msg w w₂ :=
      .order (.autoSigned m hnew hterms hsignable hallowed)
    have hsign : Guar (Makes h w₀ msg) (fun w => w = w₂)
        (signOrder h (.auto s precision) m >>= fun _ => pure ()) fun _ _ => True := by
      refine .bind (Guar.pre (signOrder_makes _ m w.log) ?_) fun _ => .pure fun _ _ => trivial
      rintro _ rfl
      refine ⟨rfl, fun s' hs' => ?_⟩
      -- the stored terms are those of the sign request
      have hstored : w₂.data.submitData[m.orderId]? = some (s.update m.details) :=
        Std.ExtTreeMap.getElem?_insert_self
      rw [hstored] at hs'
      obtain rfl := Option.some.inj hs'
      exact .auto hsignable hallowed
    exact .head hmove (hsign w₂ rfl).1
  · -- queued for a prompt, which may be shown at once
    rw [if_neg hallowed]
    let w₂ := w₁.promptQueued m
    have hmove : Makes h w₀ msg w w₂ := .order (.signQueued m hnew hterms hsignable)
    exact .head hmove (processPendingSignPrompts_makes.chain w₂)

theorem tryProcessSign_makes (m : SignNotification) :
    Refines (Makes h w₀ msg) (tryProcessSign h m) := by
  rintro w -
  refine ⟨?_, fun _ _ _ => trivial⟩
  rw [tryProcessSign, getData_bind_apply]
  by_cases hnew : m.orderId ∈ w.data.processedSigns
  · rw [if_pos hnew]
    exact .refl
  rw [if_neg hnew]
  let w₁ := w.modifyData fun d => { d with processedSigns := insert m.orderId d.processedSigns }
  have hrefused : Makes h w₀ msg w w₁ := .order (.signRefused m.orderId)
  rw [modifyData_bind_apply]
  -- the checks leave the state alone, so that a failure is the move `signRefused`
  have hverify := verifyAmounts_spec (h := h) (P := fun _ => True) w.data m.details
  rcases hverify.cases_of_no_step (s := w₁) trivial with
    ⟨_, hok, hverified, -⟩ | ⟨e, herror⟩ | habort
  rotate_left
  · rw [bind_error herror]
    exact .single hrefused
  · rw [bind_abort habort]
    exact .single hrefused
  rw [bind_ok hok]
  cases hterms : w.data.submitData[m.orderId]? with
  | none => exact .single hrefused
  | some s =>
    have hfound : (okOr (some s) "no keys found" : Worker String SubmitData) w₁ = .ok s w₁ := rfl
    rw [bind_ok hfound]
    have hcheck := checkSign_spec (P := fun _ => True) m s
    rcases hcheck.cases_of_no_step (s := w₁) trivial with
      ⟨_, hok, ⟨horder, hagrees⟩, -⟩ | ⟨e, herror⟩ | habort
    · rw [bind_ok hok]
      exact acceptSign_chain hnew hterms ⟨horder.symm, hverified, hagrees⟩
    · rw [bind_error herror]
      exact .single hrefused
    · rw [bind_abort habort]
      exact .single hrefused

theorem showSign_makes (m : SignNotification) :
    Refines (Makes h w₀ msg) (showSign h m : Worker ε Unit) := by
  refine .bind (.attempt (tryProcessSign_makes m)) fun result => ?_
  cases result with
  | ok _ => exact .pure _
  | error e => exact Refines.makes (showMessage_effects _)

theorem signRequests_makes (l : List SignNotification) :
    Refines (Makes h w₀ msg) (signRequests h l : Worker ε Unit) := by
  induction l with
  | nil => exact .pure _
  | cons m rest ih =>
    refine .bind (Refines.makes (modifyData_quiet fun _ => rfl)) fun _ => ?_
    refine .bind (Refines.makes getData_effects) fun d => ?_
    split
    · exact ih
    · exact .bind (showSign_makes m) fun _ => ih

theorem processSign_makes (m : SignNotification) :
    Refines (Makes h w₀ msg) (processSign h m : Worker ε Unit) := by
  unfold processSign
  split
  · exact showSign_makes m
  · refine .bind (Refines.makes (modifyData_quiet fun _ => rfl)) fun _ => ?_
    exact .bind (Refines.makes getData_effects) fun d => signRequests_makes _

/-! ### Decisions -/

theorem storeUtxos_makes {s : SubmitData} (side : OrderSide) (utxos : List Utxo) :
    Guar (Makes h w₀ msg) (fun w => ∃ older, w.log = .stored s :: older)
      (storeUtxos h side s.orderId utxos : Worker ε Unit) fun _ _ => True := by
  refine .bind (call_keeps (F := fun c => ∃ older, c.log = .stored s :: older) _) fun now => ?_
  cases side with
  | requestor =>
    refine .bind (Q := fun _ _ => True) (.modify ?_ fun _ _ => trivial) fun _ => ?_
    · rintro w ⟨older, hlog⟩
      exact .order (.reqStored _ hlog)
    · exact Refines.makes saveSettings_effects
  | responder =>
    refine .modify ?_ fun _ _ => trivial
    rintro w ⟨older, hlog⟩
    exact .order (.respStored _ hlog)

theorem plainSince_of_quiet {L : List Event} (w w' : World) (q : Quiet w w')
    (hw : PlainSince L w.log) : PlainSince L w'.log := by
  exact History.grown_trans hw q.log

/-- While an accepted link of the order `X` is handled, nothing else happens to orders, and no sign
prompt is shown for `X`. -/
def Accepting (w₀ : World) (X : OrderId) (w : World) : Prop :=
  PlainSince w₀.log w.log ∧ ∀ m, w.core.activeSign = some m → m.orderId ≠ X

theorem accepting_of_quiet {X : OrderId} (w w' : World) (q : Quiet w w') (hw : Accepting w₀ X w) :
    Accepting w₀ X w' := by
  refine ⟨plainSince_of_quiet w w' q hw.1, ?_⟩
  obtain ⟨saves, events, -, hcore⟩ := q
  rw [hcore]
  exact hw.2

theorem acceptSubmit_makes {req : SubmitDecision} {resp : LinkResponse}
    (hsubmits : Submits w₀ msg req.orderId resp) :
    Guar (Makes h w₀ msg) (Accepting w₀ req.orderId) (acceptSubmit h req resp)
      fun _ _ => True := by
  refine .bind getData_spec fun d => .bind Guar.okOr fun asset => ?_
  refine .bind ((verifyAmounts_spec d resp.details).mono fun _ _ hf => hf.elim) fun _ => ?_
  -- the terms have been checked with the precision of the asset that was looked up
  refine Guar.pre (P := fun w => Verified asset.precision resp.details ∧ Accepting w₀ req.orderId w)
    (.of_fact fun hverified => ?_) ?_
  · refine .bind (Refines.keeps (prepareInputs_effects _) accepting_of_quiet) fun p => ?_
    refine .bind (Refines.keeps (call_effects _) accepting_of_quiet) fun _ => ?_
    refine .bind (Guar.expect.post fun _ _ hw => hw.2) fun recvAddr => ?_
    refine .bind (Refines.keeps (call_effects _) accepting_of_quiet) fun _ => ?_
    refine .bind (Guar.expect.post fun _ _ hw => hw.2) fun changeAddr => ?_
    let r : AddrRequest :=
      { orderId := req.orderId, pset := p.2, recvAddr := recvAddr, changeAddr := changeAddr
        price := resp.details.price, private_ := req.private_, ttlSeconds := req.ttlSeconds }
    -- the request and the new terms are two moves, with the inputs that were prepared
    refine .bind (requestOr_makes (r := .addr r) fun w answer hw => ?_) fun _ => ?_
    · exact .order (.addrSent r answer hsubmits rfl hw.1)
    · let s := LinkResponse.submitData resp req.orderId asset.precision
        (p.1.map Utxo.txOut).toFinset
        (req.autoSign.getD false && decide (resp.details.side = .requestor))
      refine .bind (Q := fun _ w => ∃ older, w.log = .stored s :: older) (.modify ?_ ?_) fun _ => ?_
      · rintro w ⟨w', hw, rfl⟩
        refine .order (.submitted (r := r) _ _ hsubmits hverified (fun hauto => ?_) rfl hw.1 hw.2)
        simp only [Bool.and_eq_true, decide_eq_true_eq] at hauto
        exact hauto.2
      · rintro w -
        exact ⟨w.log, rfl⟩
      · exact .bind (storeUtxos_makes (s := s) _ _) fun _ => .pure fun _ _ => trivial
  · -- the precision is the one in the tables
    rintro w ⟨hverified, hfound, rfl, hw⟩
    have hprecision : w.data.precision resp.details.asset = asset.precision := by
      rw [Data.precision, hfound, Option.map_some, Option.getD_some]
    rw [hprecision] at hverified
    exact ⟨hverified, hw⟩

theorem tryProcessSubmitDecision_makes {req : SubmitDecision}
    (hmsg : msg = .ui (.submitDecision req)) :
    Guar (Makes h w₀ msg) (fun w => w = w₀) (tryProcessSubmitDecision h req) fun _ _ => True := by
  unfold tryProcessSubmitDecision
  split
  · exact Refines.guar (.pure _)
  rename_i haccept
  have haccept : req.accept = true := by simpa using haccept
  refine .bind (ctxOr_spec _) fun ctx => ?_
  split
  · rename_i sign hsign
    obtain ⟨hactive, horder⟩ := Option.filter_eq_some_iff.mp hsign
    have horder : sign.orderId = req.orderId := of_decide_eq_true horder
    rintro w ⟨hctx, rfl⟩
    refine ⟨?_, fun _ _ _ => trivial⟩
    -- the slot is emptied in one move with the start of the signature
    let w₁ := (w.modifyCtx fun c => { c with activeSign := none }).record (.trySign .decision sign)
    have hwsign : w.core.activeSign = some sign := by
      rw [Core.activeSign, World.core_wallet_of_ctx hctx]
      exact hactive
    have hmove : Makes h w msg w w₁ := by
      rw [Makes, World.core_modifyCtx_record w (g := fun v => { v with activeSign := none })
        fun c => rfl]
      exact .order (.signTaken hmsg haccept horder hwsign rfl)
    have hreason : ∀ s, w₁.data.submitData[sign.orderId]? = some s →
        SignReason w msg .decision sign w.log s :=
      fun s hs => .decision hmsg haccept horder hwsign hs
    exact .head hmove (signOrder_makes .decision sign w.log w₁ ⟨rfl, hreason⟩).1
  · rename_i hsign
    refine .bind Guar.okOr fun resp => ?_
    refine Guar.pre (P := fun w => Submits w₀ msg req.orderId resp ∧ w = w₀)
      (.of_fact fun hsubmits => ?_) ?_
    · refine .bind (Q := fun _ => Accepting w₀ req.orderId) ?_ fun _ => acceptSubmit_makes hsubmits
      refine .modify ?_ ?_
      · rintro w rfl
        rw [Makes, World.core_modifyCtx w (g := fun v => { v with activeSubmit := none }) fun c => rfl]
        exact .order (.submitTaken)
      · rintro w rfl
        refine ⟨⟨[], rfl, by simp⟩, ?_⟩
        intro m hm
        rw [World.core_modifyCtx w (g := fun v => { v with activeSubmit := none }) fun c => rfl] at hm
        obtain ⟨v, hv, hm⟩ := Core.exists_slot (c := w.core) rfl hm
        exact hsubmits.noSign m ((Core.slot_of_wallet _ hv).trans hm)
    · rintro w ⟨hresp, hctx, rfl⟩
      have hwallet := World.core_wallet_of_ctx hctx
      refine ⟨⟨⟨req, hmsg, haccept, rfl⟩, ?_, ?_⟩, rfl⟩
      · rw [Core.activeSubmit, hwallet]
        exact hresp
      · intro m hm horder
        rw [Core.activeSign, hwallet] at hm
        have hm : ctx.activeSign = some m := hm
        rw [hm] at hsign
        simp [Option.filter, horder] at hsign

theorem processSubmitDecision_makes {req : SubmitDecision}
    (hmsg : msg = .ui (.submitDecision req)) :
    Guar (Makes h w₀ msg) (fun w => w = w₀) (processSubmitDecision h req : Worker ε Unit)
      fun _ _ => True := by
  refine .bind (.attempt (tryProcessSubmitDecision_makes hmsg)) fun result => Refines.guar ?_
  split
  · exact .bind (Refines.makes (modifyData_quiet fun _ => rfl)) fun _ => afterReview_makes
  · refine .bind (Refines.makes (toUi_effects rfl)) fun _ => ?_
    exact .bind (Refines.makes (modifyData_quiet fun _ => rfl)) fun _ => afterReview_makes
  · refine .bind (Refines.makes (toUi_effects rfl)) fun _ => ?_
    exact .bind (Refines.makes (modifyData_quiet fun _ => rfl)) fun _ => afterReview_makes

/-! ### Editing and completion -/

/-- A price that the server accepts and the new terms are one move.  The terms stay as they are if
the new amount is out of range, which ends the process. -/
theorem editPrice_makes {X : OrderId} {price : F64}
    (hmsg : msg = .ui (.editOrder ⟨X, some (.price price)⟩)) :
    Guar (Makes h w₀ msg) (fun w => w = w₀)
      (request h (.edit X (some price) none) >>= fun _ => editSubmitData X price)
      fun _ _ => True := by
  rintro w rfl
  refine ⟨?_, fun _ _ _ => trivial⟩
  rw [request, bind_apply, requestOr_apply]
  -- a refused edit changes nothing
  cases hanswer : h.server w.calls (.edit X (some price) none) with
  | error e => exact .single (.quiet ⟨false, [_], by simp [Event.plain], rfl⟩)
  -- an accepted one changes the terms, if there are any
  | ok a =>
    obtain ⟨⟩ := a
    have hmove : Move h w msg w.core _ := .order (.edited X price hmsg hanswer rfl)
    let w₁ := w.asked (.edit X (some price) none) (.ok ())
    show Relation.ReflTransGen (Makes h w msg) w (editSubmitData X price w₁).state
    have hstate : (editSubmitData X price w₁ : Outcome String World Unit).state.core =
        (w.core.edit X price).record (.request (.edit X (some price) none) (.ok ())) := by
      have hdata : w₁.data.submitData[X]? = w.core.submitData[X]? := rfl
      rw [editSubmitData, getData_bind_apply, Core.edit, hdata]
      cases hs : w.core.submitData[X]? with
      | none => rfl
      | some s =>
        cases hedit : s.edit price with
        | none =>
          -- terms that cannot be converted end the process after the request
          simp only [Option.bind_some, hedit]
          have habort : (expect none : Worker String SubmitData) w₁ = .abort w₁ := rfl
          rw [bind_abort habort]
          rfl
        | some s' =>
          simp only [Option.bind_some, hedit]
          have hok : (expect (some s') : Worker String SubmitData) w₁ = .ok s' w₁ := rfl
          rw [bind_ok hok]
          rfl
    refine .single ?_
    rw [Makes, hstate]
    exact hmove

theorem processEditOrder_makes {req : EditOrder} (hmsg : msg = .ui (.editOrder req)) :
    Guar (Makes h w₀ msg) (fun w => w = w₀) (processEditOrder h req : Worker ε Unit)
      fun _ _ => True := by
  refine .bind (.attempt (Q := fun _ _ => True) ?_) fun _ => Refines.guar (Refines.makes (toUi_effects rfl))
  refine .bind Guar.okOr fun data => .of_fact fun hdata => ?_
  obtain ⟨X, edit⟩ := req
  obtain rfl : edit = some data := hdata
  split
  · exact editPrice_makes hmsg
  · exact Refines.guar (.bind (Refines.makes (request_effects fun _ => rfl)) fun _ => .pure _)

theorem setSubmitData_makes {P : World → Prop} {X : OrderId} {s : SubmitData}
    (hm : ∀ w, P w → Move h w₀ msg w.core (w.core.store X s)) :
    Guar (Makes h w₀ msg) P (setSubmitData X s : Worker ε Unit) fun _ _ => True :=
  .modify hm fun _ _ => trivial

theorem processComplete_makes (m : CompleteNotification) :
    Refines (Makes h w₀ msg) (processComplete m : Worker ε Unit) := by
  unfold processComplete
  split
  · rename_i txid htxid
    refine .of_guar (Q := fun _ _ => True) (.bind getData_spec fun d => ?_)
    split
    · exact .pure fun _ _ => trivial
    · rename_i s hs
      refine .bind (setSubmitData_makes ?_) fun _ => Refines.guar ?_
      · rintro w ⟨rfl, -⟩
        exact .order (.completed m.orderId txid hs)
      · exact Refines.makes (.modify fun w => (Quiet.refl w).record rfl)
  · refine .bind (.bind (Refines.makes getData_effects) fun d => ?_) fun _ => ?_
    · split
      · refine .bind (Refines.makes (toUi_effects rfl)) fun _ => ?_
        exact .bind (Refines.makes (modifyData_quiet fun _ => rfl)) fun _ => afterReview_makes
      · exact .pure _
    · exact .modify fun w => .order (.cancelled m.orderId)

/-! ### Pending requests -/

theorem restoreSubmitData_makes (X : OrderId) (details : Details) :
    Guar (Makes h w₀ msg) (fun w => X ∉ w.data.processedSigns ∧ Fetched X w.log)
      (restoreSubmitData h X details) fun _ _ => True := by
  refine .bind getData_spec fun d => ?_
  split
  · exact .pure fun _ _ => trivial
  · rename_i habsent
    refine .bind Guar.okOr fun asset => ?_
    refine .bind ((verifyAmounts_spec d details).mono fun _ _ hf => hf.elim) fun _ => ?_
    refine setSubmitData_makes ?_
    rintro w ⟨hverified, hfound, rfl, hnew, hfetched⟩
    have hprecision : w.data.precision details.asset = asset.precision := by
      rw [Data.precision, hfound, Option.map_some, Option.getD_some]
    rw [hprecision] at hverified
    have habsent : w.data.submitData[X]? = none := by simpa using habsent
    exact .order (.restored X hnew habsent hverified hfetched)

theorem downloadSignRequest_makes (X : OrderId) :
    Guar (Makes h w₀ msg) (fun w => X ∉ w.data.processedSigns) (downloadSignRequest h X)
      fun _ _ => True := by
  refine .bind (Q := fun _ w => X ∉ w.data.processedSigns ∧ Fetched X w.log) ?_ fun sign => ?_
  · refine (requestOr_makes fun w answer _ => .quiet ⟨false, [_], by simp [Event.plain], rfl⟩).post ?_
    rintro sign w ⟨w', hnew, rfl⟩
    exact ⟨hnew, sign, w'.log, [], rfl, by simp⟩
  have hkept : ∀ w w', Quiet w w' → X ∉ w.data.processedSigns ∧ Fetched X w.log →
      X ∉ w'.data.processedSigns ∧ Fetched X w'.log := by
    rintro w w' q ⟨hnew, sign, older, hsince⟩
    exact ⟨by rwa [q.processedSigns], sign, older, plainSince_of_quiet w w' q hsince⟩
  refine .bind (Refines.keeps (tryAddAsset_effects _) hkept) fun _ => ?_
  exact .bind (restoreSubmitData_makes X _) fun _ => processSign_makes sign

theorem processPendingSign_makes (p : OrderId × Bool) :
    Refines (Makes h w₀ msg) (processPendingSign h p : Worker ε Unit) := by
  refine .of_guar (Q := fun _ _ => True) (.bind getData_spec fun d => ?_)
  split
  · exact .pure fun _ _ => trivial
  · rename_i hnew
    refine .bind (.attempt (Guar.pre (downloadSignRequest_makes p.1) ?_)) fun result => Refines.guar ?_
    · rintro w ⟨rfl, -⟩
      exact hnew
    · refine .bind ?_ fun _ => .each fun orderId _ => Refines.makes (record_effects rfl)
      unfold processPendingSign.showError
      split
      · exact .pure _
      · exact Refines.makes (showMessage_effects _)

theorem processPendingSynced_makes :
    Refines (Makes h w₀ msg) (processPendingSynced h : Worker ε Unit) := by
  refine .bind (Refines.makes getData_effects) fun d => ?_
  refine .bind (Refines.makes (modifyData_quiet fun _ => rfl)) fun _ => ?_
  refine .bind (.each fun req _ => ?_) fun _ => .bind (Refines.makes getData_effects) fun d => ?_
  · refine .bind (.attempt (tryProcessSubmitOrder_makes req)) fun result => ?_
    cases result with
    | ok _ => exact .pure _
    | error e => exact Refines.makes (toUi_effects rfl)
  · refine .bind (Refines.makes (modifyData_quiet fun _ => rfl)) fun _ => ?_
    refine .bind (.each fun X _ => ?_) fun _ => processPendingSignPrompts_makes
    refine .bind (.attempt (tryProcessLinkOrder_makes X)) fun result => ?_
    cases result with
    | ok _ => exact .pure _
    | error e => exact Refines.makes (showMessage_effects _)

theorem processPendingRequests_makes :
    Refines (Makes h w₀ msg) (processPendingRequests h : Worker ε Unit) := by
  refine .bind (Refines.makes getData_effects) fun d => ?_
  split
  · exact .pure _
  · split
    · exact .pure _
    · refine .bind (Refines.makes (modifyData_quiet fun _ => rfl)) fun _ => ?_
      refine .bind (.each fun p _ => processPendingSign_makes p) fun _ => ?_
      split
      · exact processPendingSynced_makes
      · exact .pure _

end SideSwap.Client
