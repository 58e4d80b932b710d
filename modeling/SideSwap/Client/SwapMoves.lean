import SideSwap.Client.Quiet

/-!
# The moves of instant swaps and pegs

Every handler of instant swaps and pegs makes a chain of moves.  Where a handler writes a slot right
after the answer of the server, the answer and the write are one move.
-/

namespace SideSwap.Client

open Proc

variable {ε : Type} {h : Host} {w₀ : World} {msg : Message}

/-- A step of the worker that is a move in its view. -/
def Makes (h : Host) (w₀ : World) (msg : Message) (w w' : World) : Prop :=
  Move h w₀ msg w.core w'.core

/-! ### Rules -/

theorem Refines.makes {α : Type} {m : Worker ε α} (hm : Refines Quiet m) :
    Refines (Makes h w₀ msg) m :=
  Guar.mono hm fun _ _ q => q.move h w₀ msg

/-- Quiet work preserves what quiet steps preserve. -/
theorem Refines.keeps {α : Type} {m : Worker ε α} (hm : Refines Quiet m) {F : World → Prop}
    (hF : ∀ w w', Quiet w w' → F w → F w') :
    Guar (Makes h w₀ msg) F m fun _ w => F w := by
  have hframe := Guar.frame hm hF
  refine Guar.mono (hframe.conseq (fun w hw => ⟨trivial, hw⟩) fun _ w hw => hw.2) ?_
  exact fun _ _ q => q.move h w₀ msg

/-- A request whose answer is recorded by a move. -/
theorem requestOr_makes {P : World → Prop} {r : Request} {wrapError : String → String}
    (hm : ∀ w answer, P w → Move h w₀ msg w.core (w.core.record (.request r answer))) :
    Guar (Makes h w₀ msg) P (requestOr h r wrapError) fun a w =>
      ∃ w', P w' ∧ w = w'.asked r (.ok a) := by
  intro w hw
  rw [requestOr_apply]
  cases h.server w.calls r with
  | ok a =>
    refine ⟨.single (hm w (.ok a) hw), ?_⟩
    intro a' s' hs'
    cases hs'
    exact ⟨w, hw, rfl⟩
  | error e => exact ⟨.single (hm w (.error e) hw), fun _ _ hs' => by cases hs'⟩

/-- A request and the write that follows a good answer are one move. -/
theorem requestOr_modify_makes {P : World → Prop} {r : Request} {wrapError : String → String}
    {f : r.Answer → World → World}
    (hok : ∀ w a, P w → Move h w₀ msg w.core (f a (w.asked r (.ok a))).core)
    (herror : ∀ w e, P w → Move h w₀ msg w.core (w.core.record (.request r (.error e)))) :
    Guar (Makes h w₀ msg) P (requestOr h r wrapError >>= fun a => Proc.modify (f a))
      fun _ _ => True := by
  intro w hw
  rw [bind_apply, requestOr_apply]
  cases h.server w.calls r with
  | ok a => exact ⟨.single (hok w a hw), fun _ _ _ => trivial⟩
  | error e => exact ⟨.single (herror w e hw), fun _ _ hs' => by cases hs'⟩

theorem modifyCtx_makes {f : Context → Context} {g : Wallet → Wallet}
    (hf : ∀ c, (f c).wallet = g c.wallet) (hg : ∀ c : Core, Move h w₀ msg c (c.modifyWallet g)) :
    Refines (Makes h w₀ msg) (modifyCtx f : Worker ε Unit) := by
  refine .modify fun w => ?_
  show Move h w₀ msg w.core (w.modifyCtx f).core
  rw [World.core_modifyCtx w hf]
  exact hg w.core

theorem World.core_wallet_of_ctx {w : World} {c : Context} (hc : w.data.ctx = some c) :
    w.core.wallet = some c.wallet := by
  simp only [World.core, hc, Option.map_some]

theorem World.core_modifyCtx_record (w : World) {f : Context → Context} {g : Wallet → Wallet}
    (hf : ∀ c, (f c).wallet = g c.wallet) (e : Event) :
    ((w.modifyCtx f).record e).core = (w.core.modifyWallet g).record e := by
  rw [← World.core_modifyCtx w hf]
  rfl

theorem World.core_activeSwap (w : World) :
    w.core.activeSwap = w.data.ctx.bind Context.activeSwap := by
  simp only [World.core, Core.activeSwap, Option.bind_map]
  rfl

theorem Quiet.activeSwap {w w' : World} (q : Quiet w w') : w'.core.activeSwap = w.core.activeSwap := by
  rw [Core.activeSwap, q.wallet, Core.activeSwap]

/-- Calls of the host do not show in the view. -/
theorem call_keeps {α : Type} {F : Core → Prop} (f : ℕ → α) :
    Guar (Makes h w₀ msg) (fun w => F w.core) (call f : Worker ε α) fun _ w => F w.core := by
  refine .bind (Q := fun _ w => F w.core) ?_ fun _ => .pure fun _ hw => hw
  refine .bind (Q := fun _ w => F w.core) (Guar.get.post fun _ _ hw => hw.2) fun _ => ?_
  refine .bind (Q := fun _ w => F w.core) (.modify ?_ fun _ hw => hw) fun _ => .pure fun _ hw => hw
  intro w hw
  exact (Quiet.of_core_eq rfl).move h w₀ msg

theorem ignoreError_makes {α : Type} {P : World → Prop} {m : Worker String α}
    (hm : Guar (Makes h w₀ msg) P m fun _ _ => True) :
    Guar (Makes h w₀ msg) P (ignoreError m : Worker ε Unit) fun _ _ => True :=
  .bind (.attempt hm) fun _ => .pure fun _ _ => trivial

/-! ### Quotes and clean-up -/

theorem processRfqUpdate_makes (m : MatchRfqUpdate) :
    Refines (Makes h w₀ msg) (processRfqUpdate m : Worker ε Unit) := by
  refine ignoreError_makes (Refines.guar ?_)
  refine .bind (Refines.makes (ctxOr_effects _)) fun ctx => .bind (.okOr _ _) fun activeSwap => ?_
  refine .bind (modifyCtx_makes (fun c => rfl) fun c => .swap (.quoted _)) fun _ => ?_
  exact Refines.makes (toUi_effects rfl)

theorem cleanupSwaps_makes : Refines (Makes h w₀ msg) (cleanupSwaps : Worker ε Unit) := by
  refine .bind (Refines.makes expectCtx_effects) fun _ => ?_
  exact modifyCtx_makes (fun c => rfl) fun c => .swap .swapsCleared

theorem swapFailed_makes (error : SwapError) :
    Refines (Makes h w₀ msg) (swapFailed error : Worker ε Unit) := by
  unfold swapFailed
  split
  · exact .pure _
  · exact .bind (Refines.makes (toUi_effects rfl)) fun _ => cleanupSwaps_makes

theorem swapSucceed_makes (txid : String) :
    Refines (Makes h w₀ msg) (swapSucceed txid : Worker ε Unit) := by
  refine .bind (Refines.makes expectCtx_effects) fun ctx => .bind (.expect _) fun activeSwap => ?_
  refine .bind (Refines.makes (modifyCtx_quiet fun _ => rfl)) fun _ => ?_
  refine .bind (Refines.makes (.modify fun w => ?_)) fun _ => cleanupSwaps_makes
  exact (Quiet.refl w).record rfl

/-! ### Swap notifications -/

/-- A new PSET is the last event of the history. -/
theorem generatePsbt_spec {F : World → Prop} (hF : ∀ w w', Quiet w w' → F w → F w')
    (info : PsbtInfo) (utxos : List Utxo) :
    Guar (Makes h w₀ msg) F (generatePsbt h info utxos) fun psbt w =>
      F w ∧ ∃ older, w.log = .generatePsbt info utxos (some psbt) :: older := by
  refine .bind (Refines.keeps (call_effects _) hF) fun result => .bind Guar.expect fun psbt => ?_
  refine .bind (Q := fun _ w =>
    F w ∧ ∃ older, w.log = .generatePsbt info utxos psbt.toOption :: older) ?_ fun _ => ?_
  · have hstep : ∀ w : World, Quiet w (w.record (.generatePsbt info utxos psbt.toOption)) :=
      fun w => ⟨false, [_], by simp [Event.plain], rfl⟩
    refine .modify (fun w _ => (hstep w).move h w₀ msg) ?_
    rintro w ⟨-, hw⟩
    exact ⟨hF _ _ (hstep w) hw, w.log, rfl⟩
  · refine Guar.ofExcept.post ?_
    rintro p w ⟨rfl, hw⟩
    exact hw

theorem swapSendPsbt_makes (txInfo : Swap) : Refines (Makes h w₀ msg) (swapSendPsbt h txInfo) := by
  refine .of_guar (Q := fun _ _ => True) (.bind (ctxOr_spec _) fun ctx => ?_)
  refine .bind Guar.okOr fun a => ?_
  have hactive : ∀ w w', Quiet w w' → w.core.activeSwap = some a → w'.core.activeSwap = some a := by
    intro w w' q ha
    rw [q.activeSwap, ha]
  refine .bind ((generatePsbt_spec hactive _ _).pre ?_) fun psbt => ?_
  · rintro w ⟨ha, hctx, -⟩
    rw [World.core_activeSwap, hctx]
    exact ha
  · refine requestOr_modify_makes ?_ ?_
    · rintro w ⟨⟩ ⟨ha, older, hlog⟩
      rw [World.core_modifyCtx _ (g := fun v => { v with psbtUtxos := some a.inputs }) fun c => rfl]
      exact .swap (.psbtSent ha hlog)
    · rintro w e -
      exact .quiet ⟨false, [_], by simp [Event.plain], rfl⟩

/-- A signature is a move that only adds to the history. -/
theorem signPsbt_spec {c : Core} {purpose : Purpose} {info : PsbtInfo} {utxos : List Utxo}
    {psbt : String} (hm : ∀ signed,
      Move h w₀ msg c (c.record (.signPsbt purpose info utxos psbt signed))) :
    Guar (Makes h w₀ msg) (fun w => w.core = c) (signPsbt h purpose info utxos psbt)
      fun signed w => w.core = c.record (.signPsbt purpose info utxos psbt (some signed)) := by
  refine .bind (call_keeps (F := (· = c)) _) fun result => .bind Guar.expect fun signed => ?_
  refine .bind (Q := fun _ w =>
    w.core = c.record (.signPsbt purpose info utxos psbt signed.toOption)) ?_ fun _ => ?_
  · refine .modify ?_ ?_
    · rintro w ⟨-, rfl⟩
      exact hm _
    · rintro w ⟨-, rfl⟩
      rfl
  · refine Guar.ofExcept.post ?_
    rintro p w ⟨rfl, hw⟩
    exact hw

theorem swapSendSign_makes {psbt : String} (hmsg : ∀ a, w₀.core.activeSwap = some a →
      msg = .serverNotification (.swap ⟨a.orderId, .waitSign psbt⟩)) :
    Guar (Makes h w₀ msg) (fun w => w.core = w₀.core) (swapSendSign h psbt) fun _ _ => True := by
  refine .bind (ctxOr_spec _) fun ctx => .bind Guar.okOr fun a => .bind Guar.okOr fun utxos => ?_
  refine Guar.pre (P := fun w => (w₀.core.activeSwap = some a ∧ w₀.core.psbtUtxos = some utxos) ∧
    w.core = w₀.core) (.of_fact fun hslots => ?_) ?_
  · refine .bind (signPsbt_spec fun signed => ?_) fun signed => ?_
    · exact .swap (.swapSigned psbt signed (hmsg a hslots.1) hslots.1 hslots.2 rfl rfl)
    · refine .bind (requestOr_makes ?_) fun _ => .pure fun _ _ => trivial
      intro w answer hw
      exact .swap (.swapSignSent answer (congrArg Core.log hw))
  · rintro w ⟨hu, ha, hctx, hw⟩
    have hwallet := World.core_wallet_of_ctx hctx
    rw [← hw, Core.activeSwap, Core.psbtUtxos, hwallet]
    exact ⟨⟨ha, hu⟩, rfl⟩

theorem processSwapNotification_makes {m : SwapNotification}
    (hmsg : msg = .serverNotification (.swap m)) :
    Guar (Makes h w₀ msg) (fun w => w = w₀) (processSwapNotification h m : Worker ε Unit)
      fun _ _ => True := by
  refine .bind (Q := fun d w => d = w₀.data ∧ w = w₀) (getData_spec.post ?_) fun d => ?_
  · rintro d w ⟨rfl, rfl⟩
    exact ⟨rfl, rfl⟩
  · refine .of_fact fun hd => ?_
    split
    · rename_i a ha
      split
      · rename_i horder
        split
        · exact Refines.guar (ignoreError_makes (swapSendPsbt_makes _))
        · rename_i psbt hstate
          refine (ignoreError_makes (swapSendSign_makes fun a' ha' => ?_)).pre fun w hw => ?_
          · rw [World.core_activeSwap, ← hd, ha] at ha'
            obtain rfl := Option.some.inj ha'
            rw [hmsg, horder, ← hstate]
          · rw [hw]
        · exact Refines.guar (swapFailed_makes _)
        · exact Refines.guar (swapSucceed_makes _)
      · exact Refines.guar (.pure _)
    · exact Refines.guar (.pure _)

/-! ### Swap requests -/

theorem processPegoutRequestLocal_commits (req : SwapRequest) :
    Commits Quiet (fun w w' => ∃ p, w'.core =
        (w.core.modifyWallet fun v => { v with internalPeg := some p }).record (.pegPrepared p))
      (processPegoutRequestLocal h req) := by
  refine .bind getData_effects fun d => .bind (.ensure _) fun _ => .bind (.okOr _ _) fun blocks => ?_
  refine .bind (.okOr _ _) fun _ => .bind (.okOr _ _) fun status => .bind (.ensure _) fun _ => ?_
  exact .modify _ fun w => ⟨⟨req.sendAmount, blocks⟩, w.core_modifyCtx_record (fun c => rfl) _⟩

theorem processSwapRequestAtomic_commits (req : SwapRequest) :
    Commits Quiet (fun w w' => ∃ a : ActiveSwap, a.recvAmountAccepted = none ∧ w'.core =
        (w.core.modifyWallet fun v => { v with activeSwap := some a }).record (.swapPrepared a))
      (processSwapRequestAtomic h req) := by
  refine .bind getData_effects fun d => .bind (.ensure _) fun _ => .bind (.expect _) fun ctx => ?_
  refine .bind (.expect _) fun _ => .bind (.expect _) fun _ => .bind (callOr_effects _ _) fun all => ?_
  refine .bind (.okOr _ _) fun utxos => .bind (.ensure _) fun _ => .bind (.expect _) fun p => ?_
  refine .bind (requestOr_effects _ fun _ => rfl) fun orderId => ?_
  let swap : ActiveSwap :=
    { orderId := orderId, sendAsset := req.sendAsset, recvAsset := req.recvAsset
      sendAmount := req.sendAmount, recvAmountAccepted := none, inputs := p.1, networkFee := none }
  exact .modify _ fun w => ⟨swap, rfl, w.core_modifyCtx_record (fun c => rfl) _⟩

/-- A slot is written only by a request that succeeds. -/
theorem tryProcessSwapRequest_makes {req : SwapRequest} (hmsg : msg = .ui (.swapRequest req)) :
    Guar (Makes h w₀ msg) (fun w => w = w₀) (tryProcessSwapRequest h req) fun _ _ => True := by
  rintro w rfl
  refine ⟨?_, fun _ _ _ => trivial⟩
  -- what comes before the new slot is quiet
  have hquiet : ∀ {w₁}, Relation.ReflTransGen Quiet w w₁ →
      Relation.ReflTransGen (Makes h w msg) w w₁ ∧ w₁.core.wallet = w.core.wallet := by
    intro w₁ hchain
    refine ⟨Relation.ReflTransGen.mono (fun _ _ q => q.move h w msg) _ _ hchain, ?_⟩
    exact hchain.invariant (I := fun w' => w'.core.wallet = w.core.wallet)
      (fun _ _ q hw => q.wallet.trans hw) rfl
  -- a peg-out is prepared at the end of the request, or the request has failed
  by_cases hout : req.isPegOut h = true
  · have heq : tryProcessSwapRequest h req = processPegoutRequestLocal h req := if_pos hout
    rw [heq]
    rcases processPegoutRequestLocal_commits (h := h) req w with
      ⟨review, w₁, w₂, hchain, ⟨p, hp⟩, hok⟩ | ⟨hchain, -⟩
    · rw [hok]
      refine (hquiet hchain).1.tail ?_
      rw [Makes, Outcome.state_ok, hp]
      exact .swap (.pegPrepared p hmsg hout (heq ▸ hok) (hquiet hchain).2)
    · exact (hquiet hchain).1
  · have hout' : req.isPegOut h = false := by simpa using hout
    -- a peg-in is not requested here
    by_cases hin : req.isPegIn h = true
    · have heq : tryProcessSwapRequest h req = Proc.abort := by
        rw [tryProcessSwapRequest, if_neg hout, if_pos hin]
      rw [heq]
      exact .refl
    · -- an instant swap, with terms that nothing has accepted yet
      have heq : tryProcessSwapRequest h req = processSwapRequestAtomic h req := by
        rw [tryProcessSwapRequest, if_neg hout, if_neg hin]
      rw [heq]
      rcases processSwapRequestAtomic_commits (h := h) req w with
        ⟨review, w₁, w₂, hchain, ⟨a, hfresh, ha⟩, hok⟩ | ⟨hchain, -⟩
      · rw [hok]
        refine (hquiet hchain).1.tail ?_
        rw [Makes, Outcome.state_ok, ha]
        exact .swap (.swapPrepared a hmsg hout' (heq ▸ hok) (hquiet hchain).2 hfresh)
      · exact (hquiet hchain).1

theorem processSwapRequest_makes {req : SwapRequest} (hmsg : msg = .ui (.swapRequest req)) :
    Guar (Makes h w₀ msg) (fun w => w = w₀) (processSwapRequest h req : Worker ε Unit)
      fun _ _ => True := by
  refine .bind (.attempt (tryProcessSwapRequest_makes hmsg)) fun result => ?_
  cases result with
  | ok review => exact Refines.guar (Refines.makes (toUi_effects rfl))
  | error e => exact Refines.guar (Refines.makes (toUi_effects rfl))

theorem processSwapCancel_makes : Refines (Makes h w₀ msg) (processSwapCancel h : Worker ε Unit) := by
  refine .bind (Refines.makes expectCtx_effects) fun ctx => .bind ?_ fun _ => cleanupSwaps_makes
  unfold cancelActiveSwap
  split
  · refine .bind (modifyCtx_makes (fun c => rfl) fun c => .swap .swapDropped) fun _ => ?_
    exact Refines.makes (ignoreError_effects (request_effects fun _ => rfl))
  · exact .pure _

/-! ### Accepting -/

theorem acceptSwap_makes {a : ActiveSwap} {req : SwapAccept} (hmsg : msg = .ui (.swapAccept req)) :
    Guar (Makes h w₀ msg) (fun w => w.core.activeSwap = some a ∧ w.log = w₀.log) (acceptSwap h a req)
      fun _ _ => True := by
  refine .bind Guar.okOr fun amount => requestOr_modify_makes ?_ ?_
  · rintro w ⟨⟩ ⟨hamount, ha, hlog⟩
    rw [World.core_modifyCtx _ (g := fun v => { v with activeSwap := v.activeSwap.map fun a =>
      { a with recvAmountAccepted := some amount } }) fun c => rfl]
    exact .swap (.swapAccepted hmsg hamount ha hlog)
  · rintro w e ⟨-, ha, -⟩
    exact .swap (.acceptRefused amount e ha)

theorem payPegOut_makes (data : InternalPeg) (recvAddr : String) (resp : PegResponse) :
    Refines (Makes h w₀ msg) (payPegOut h data recvAddr resp) := by
  refine .bind (Refines.makes getData_effects) fun d => .bind (.expect _) fun lbtc => ?_
  refine .bind (Refines.makes expectCtx_effects) fun ctx => .bind (.expect _) fun balance => ?_
  refine .bind (.ensure _) fun _ => .bind (Refines.makes (callOr_effects _ _)) fun tx => ?_
  refine .bind (.ofExcept _) fun vout => .bind (.okOr _ _) fun status => .bind (.ensure _) fun _ => ?_
  refine .bind (Refines.makes (call_effects _)) fun signed => .bind (.expect _) fun tx => ?_
  refine .bind (Refines.makes (callOr_effects _ _)) fun txid => ?_
  refine .bind (Refines.makes (call_effects _)) fun createdAt => ?_
  refine .bind (Refines.makes (toUi_effects (pegReport_effect rfl))) fun _ => .bind cleanupSwaps_makes fun _ => ?_
  exact Refines.makes (addPegMonitoring_effects _ _)

theorem acceptPegOut_makes (data : InternalPeg) (req : SwapAccept) :
    Guar (Makes h w₀ msg) (fun w => w.core.activeSwap = none ∧ w.core.internalPeg = some data)
      (acceptPegOut h data req) fun _ _ => True := by
  refine .bind (Q := fun _ _ => True) (.modify ?_ fun _ _ => trivial) fun _ => Refines.guar ?_
  · rintro w ⟨hidle, hpeg⟩
    rw [Makes, w.core_modifyCtx_record (g := fun v => { v with internalPeg := none }) fun c => rfl]
    exact .swap (.pegTaken hidle hpeg)
  · refine .bind (Refines.makes getData_effects) fun d => .bind (.expect _) fun deviceKey => ?_
    refine .bind (.expect _) fun recvAddr => ?_
    refine .bind (Refines.makes (requestOr_effects _ fun _ => rfl)) fun resp => ?_
    exact payPegOut_makes data recvAddr resp

theorem tryProcessSwapAccept_makes {req : SwapAccept} (hmsg : msg = .ui (.swapAccept req)) :
    Guar (Makes h w₀ msg) (fun w => w = w₀) (tryProcessSwapAccept h req) fun _ _ => True := by
  refine .bind expectCtx_spec fun ctx => .bind getData_spec fun d => .bind Guar.ensure fun _ => ?_
  split
  · rename_i a _ ha
    refine (acceptSwap_makes hmsg).pre ?_
    rintro w ⟨-, -, hctx, rfl⟩
    rw [World.core_activeSwap, hctx]
    exact ⟨ha, rfl⟩
  · rename_i data ha hpeg
    refine (acceptPegOut_makes data req).pre ?_
    rintro w ⟨-, -, hctx, -⟩
    rw [Core.activeSwap, Core.internalPeg, World.core_wallet_of_ctx hctx]
    exact ⟨ha, hpeg⟩
  · exact .fail

theorem processSwapAccept_makes {req : SwapAccept} (hmsg : msg = .ui (.swapAccept req)) :
    Guar (Makes h w₀ msg) (fun w => w = w₀) (processSwapAccept h req : Worker ε Unit)
      fun _ _ => True := by
  refine .bind (.attempt (tryProcessSwapAccept_makes hmsg)) fun result => Refines.guar ?_
  cases result with
  | ok _ => exact .pure _
  | error e => exact .bind (Refines.makes (toUi_effects rfl)) fun _ => processSwapCancel_makes

theorem processPegStatus_makes (status : PegStatus) :
    Refines (Makes h w₀ msg) (processPegStatus h status : Worker ε Unit) := by
  refine .bind (Refines.makes getData_effects) fun d => ?_
  split
  · exact .pure _
  · refine .bind (Refines.makes (modifyCtx_quiet fun _ => rfl)) fun _ => ?_
    refine .bind (Refines.makes syncTxList_effects) fun _ => ?_
    refine .bind (Refines.makes expectCtx_effects) fun ctx => ?_
    split
    · split
      · exact .bind (Refines.makes (toUi_effects (pegReport_effect rfl))) fun _ => cleanupSwaps_makes
      · exact .pure _
    · exact .pure _

end SideSwap.Client
