import SideSwap.Client.SwapSafety
import SideSwap.Client.OrderCoins

/-!
# Coins of finished swaps

When an instant swap is done, its inputs are put into `usedUtxos`, because the wallet library may
still report them as unspent until it has seen the transaction.  A PSET is offered for an instant
swap (`swapSendPsbt`) and for an order (`prepareInputs`).  An instant swap chooses among the coins
that are not used; an order does not look at them.

`used_coins_not_offered` says when the coins are not offered again within a login: whenever an order
is submitted, no used coin is among those that the order may choose from (`orderCandidates`).

The invariant is that the inputs of the active swap are not used (`SwapCoins`).
-/

namespace SideSwap.Client

open Proc

variable {h : Host} {ε : Type}

/-! ### Coins that are offered -/

/-- The coins of a new PSET. -/
def Event.offered : Event → List TxOut
  | .generatePsbt _ utxos _ => utxos.map Utxo.txOut
  | _ => []

/-- The coins that have been offered since. -/
def offeredSince (old new : List Event) : List TxOut :=
  (new.take (new.length - old.length)).flatMap Event.offered

/-- The coins that finished swaps have spent. -/
def usedCoins (w : World) : Finset TxOut := (w.data.ctx.map Context.usedUtxos).getD ∅

/-- The inputs of a restart or a login begin a new login. -/
def sameLogin (xs : List (Feed Message)) : Bool :=
  xs.all fun x => match x with
    | .deliver (.ui (.login ..)) | .restart => false
    | .deliver _ => true

/-- The terms of the order that a decision submits. -/
def submittedDetails (w : World) : Message → Option Details
  | .ui (.submitDecision req) =>
    match w.data.ctx with
    | some c =>
      if req.accept && (c.activeSign.filter fun sign => sign.orderId = req.orderId).isNone then
        c.activeSubmit.map LinkResponse.details
      else none
    | none => none
  | _ => none

/-- The coins that an order may choose from: the coins of the asset that the wallet library reports,
without those of the open orders if these are not needed. -/
def orderCandidates (h : Host) (w : World) (details : Details) : List GdkUtxo :=
  let send := detailsSend h.liquidAssetId details
  match h.getUnspentOutputs w.calls with
  | .error _ => []
  | .ok all =>
    match all[send.1]? with
    | none => []
    | some utxos => orderUtxos w.data utxos send.2

/-- An order that is submitted may not choose a used coin. -/
def FreshCoins (h : Host) (w : World) (msg : Message) : Prop :=
  ∀ details, submittedDetails w msg = some details →
    ∀ u ∈ orderCandidates h w details, u.txOut ∉ usedCoins w

/-! ### Selection -/

theorem mem_of_selectCoins {utxos : List GdkUtxo} {sendAmount : ℤ} {p : List Utxo × ℤ}
    (hselect : selectCoins utxos sendAmount = some p) (u : Utxo) (hu : u ∈ p.1) :
    ∃ g ∈ utxos, g.toUtxo = u := by
  simp only [selectCoins, Option.bind_eq_bind, Option.bind_eq_some_iff] at hselect
  obtain ⟨selected, -, -, -, coins, hcoins, hp⟩ := hselect
  cases hp
  obtain ⟨taken, rfl, hsub, -⟩ := takeUtxos_spec hcoins
  obtain ⟨g, hg, rfl⟩ := List.mem_map.mp hu
  exact ⟨g, hsub.subset hg, rfl⟩

/-! ### The invariant -/

/-- The inputs of the active swap are not used. -/
def SwapCoins (w : World) : Prop :=
  ∀ c a, w.data.ctx = some c → c.activeSwap = some a → ∀ u ∈ a.inputs, u.txOut ∉ c.usedUtxos

/-- Since the history was `log`, no coin of `used` has been offered. -/
structure Unoffered (used : Finset TxOut) (log : List Event) (w : World) : Prop where
  offers : ∃ events, w.log = events ++ log ∧ ∀ e ∈ events, ∀ t ∈ e.offered, t ∉ used
  grows : ∀ c, w.data.ctx = some c → used ⊆ c.usedUtxos
  swap : SwapCoins w

/-- A step that offers nothing and keeps the used coins and the inputs of the active swap. -/
structure CoinFrame (w w' : World) : Prop where
  wallet : ∀ c', w'.data.ctx = some c' → ∃ c, w.data.ctx = some c ∧ c'.usedUtxos = c.usedUtxos ∧
    ∀ a', c'.activeSwap = some a' → ∃ a, c.activeSwap = some a ∧ a'.inputs = a.inputs
  log : ∃ events, w'.log = events ++ w.log ∧ ∀ e ∈ events, e.offered = []

variable {used : Finset TxOut} {log : List Event}

theorem Unoffered.frame {w w' : World} (hframe : CoinFrame w w') (hw : Unoffered used log w) :
    Unoffered used log w' := by
  obtain ⟨newer, hnewer, hnone⟩ := hframe.log
  obtain ⟨events, hlog, hevents⟩ := hw.offers
  refine ⟨⟨newer ++ events, by rw [hnewer, hlog, List.append_assoc], ?_⟩, ?_, ?_⟩
  · intro e he t ht
    rcases List.mem_append.mp he with he | he
    · rw [hnone e he] at ht
      cases ht
    · exact hevents e he t ht
  · intro c' hc'
    obtain ⟨c, hc, hused, -⟩ := hframe.wallet c' hc'
    rw [hused]
    exact hw.grows c hc
  · intro c' a' hc' ha' u hu
    obtain ⟨c, hc, hused, hswap⟩ := hframe.wallet c' hc'
    obtain ⟨a, ha, hinputs⟩ := hswap a' ha'
    rw [hinputs] at hu
    rw [hused]
    exact hw.swap c a hc ha u hu

theorem CoinFrame.of_ctx {w w' : World} (hctx : w'.data.ctx = w.data.ctx) (hlog : w'.log = w.log) :
    CoinFrame w w' := by
  refine ⟨fun c' hc' => ⟨c', hctx ▸ hc', rfl, fun a ha => ⟨a, ha, rfl⟩⟩, [], hlog, ?_⟩
  exact fun _ he => by cases he

theorem CoinFrame.of_record {w w' : World} {e : Event} (hctx : w'.data.ctx = w.data.ctx)
    (hlog : w'.log = e :: w.log) (he : e.offered = []) : CoinFrame w w' := by
  refine ⟨fun c' hc' => ⟨c', hctx ▸ hc', rfl, fun a ha => ⟨a, ha, rfl⟩⟩, [e], hlog, ?_⟩
  intro e' he'
  obtain rfl := List.mem_singleton.mp he'
  exact he

/-- A write to the wallet that keeps the used coins and does not change the inputs of a swap. -/
theorem CoinFrame.of_modifyCtx {w w' : World} {f : Context → Context}
    (hctx : w'.data.ctx = w.data.ctx.map f) (hused : ∀ c, (f c).usedUtxos = c.usedUtxos)
    (hswap : ∀ c a', (f c).activeSwap = some a' → ∃ a, c.activeSwap = some a ∧ a'.inputs = a.inputs)
    (hlog : ∃ events, w'.log = events ++ w.log ∧ ∀ e ∈ events, e.offered = []) : CoinFrame w w' := by
  refine ⟨fun c' hc' => ?_, hlog⟩
  rw [hctx] at hc'
  obtain ⟨c, hc, rfl⟩ := Option.map_eq_some_iff.mp hc'
  exact ⟨c, hc, hused c, hswap c⟩

/-- The effects that may offer coins, choose the inputs of a swap or use them. -/
def Effect.coins : Effect → Bool
  | .swap | .psets | .swapDone | .login => true
  | _ => false

theorem Event.offered_of_effect {e : Event} {k : Effect} (he : e.effect = some k) (hk : k ≠ .psets) :
    e.offered = [] := by
  cases e with
  | generatePsbt info utxos psbt =>
    cases he
    exact absurd rfl hk
  | _ => rfl

theorem Change.coinFrame {k : Effect} {w w' : World} (hs : Change k w w')
    (hcoarse : k.coarse = false) (hk : k.coins = false) : CoinFrame w w' := by
  cases hs
  -- events of other effects offer no coins
  case said e he =>
    refine .of_record rfl rfl (Event.offered_of_effect he ?_)
    rintro rfl
    cases hk
  -- these do not touch the wallet
  case saved ok => cases ok <;> exact .of_ctx rfl rfl
  case info f hf => exact .of_ctx (by rw [World.modifyData, hf]) rfl
  case queued f hf => exact .of_ctx (by rw [World.modifyData, hf]) rfl
  case terms f hf _ => exact .of_ctx (by rw [World.modifyData, hf]) rfl
  case synced | balanced => cases hcoarse
  case slots | swapDone | login => cases hk
  -- these add an event that offers nothing
  case registered | promptQueued | orderHidden | orderShown | txShown | txHidden | balancesShown
      | succeedShown | stored | completed | down =>
    exact .of_record rfl rfl rfl
  -- these change other fields of the wallet than the used coins and the swap
  case ctxInfo f hf =>
    refine .of_modifyCtx (f := f) rfl (fun c => by rw [hf]) (fun c a' ha' => ?_)
      ⟨[], rfl, fun _ he => by cases he⟩
    rw [hf] at ha'
    exact ⟨a', ha', rfl⟩
  case txsSent list =>
    refine .of_modifyCtx (f := fun c => { c with sentTxs := list }) rfl (fun _ => rfl)
      (fun c a' ha' => ⟨a', ha', rfl⟩) ⟨[_], rfl, by simp [Event.offered]⟩
  case balanceShown a amount =>
    refine .of_modifyCtx (f := fun c => { c with lastBalances := c.lastBalances.insert a amount }) rfl
      (fun _ => rfl) (fun c a' ha' => ⟨a', ha', rfl⟩) ⟨[_], rfl, by simp [Event.offered]⟩
  case swapReported item _ _ =>
    refine .of_modifyCtx (f := fun c => { c with succeedSwap := none }) rfl (fun _ => rfl)
      (fun c a' ha' => ⟨a', ha', rfl⟩) ⟨[_], rfl, by simp [Event.offered]⟩
  case linkShown X resp _ =>
    refine .of_modifyCtx (f := fun c => { c with activeSubmit := some resp }) rfl (fun _ => rfl)
      (fun c a' ha' => ⟨a', ha', rfl⟩) ⟨[_], rfl, by simp [Event.offered]⟩
  case promptShown m rest s _ _ _ _ =>
    refine .of_modifyCtx (f := fun c => { c with activeSign := some m }) rfl (fun _ => rfl)
      (fun c a' ha' => ⟨a', ha', rfl⟩) ⟨[_], rfl, by simp [Event.offered]⟩
  -- no swap is left
  case cleaned =>
    refine .of_modifyCtx rfl (fun _ => rfl) (fun c a' ha' => by cases ha')
      ⟨[], rfl, fun _ he => by cases he⟩
  -- fields that are not about coins
  case marketSet | txsRead | pegRead | signTaken | submitTaken | pegStarted | paymentSet =>
    exact .of_modifyCtx rfl (fun _ => rfl) (fun c a' ha' => ⟨a', ha', rfl⟩)
      ⟨[], rfl, fun _ he => by cases he⟩
  case logout => exact ⟨(fun c' hc' => by cases hc'), [], rfl, fun _ he => by cases he⟩
  all_goals exact .of_ctx rfl rfl

theorem allows_unoffered (k : Effect) (hk : k.coins = false) :
    Allows (Preserves (Unoffered used log)) k :=
  allows_of_changes (fun k => !k.coins) rfl
    (fun k w w' hk hcoarse hs hw => hw.frame (hs.coinFrame hcoarse (by simpa using hk))) k (by simp [hk])

instance : Allows (Preserves (Unoffered used log)) .talk := allows_unoffered _ rfl
instance : Allows (Preserves (Unoffered used log)) .cleanup := allows_unoffered _ rfl
instance : Allows (Preserves (Unoffered used log)) .prompts := allows_unoffered _ rfl
instance : Allows (Preserves (Unoffered used log)) .success := allows_unoffered _ rfl
instance : Allows (Preserves (Unoffered used log)) .decisions := allows_unoffered _ rfl
instance : Allows (Preserves (Unoffered used log)) .terms := allows_unoffered _ rfl
instance : Allows (Preserves (Unoffered used log)) .report := allows_unoffered _ rfl

instance : Allows CoinFrame .talk := ⟨fun hs => .single (hs.coinFrame rfl rfl)⟩

/-- What a step that keeps the coins keeps. -/
theorem coin_carry {α : Type} {I : World → Prop} {m : Worker ε α} (hm : Refines CoinFrame m)
    (hI : ∀ w w', CoinFrame w w' → I w → I w') :
    Guar (Preserves (Unoffered used log)) I m fun _ w => I w := by
  have hstep : Guar (Preserves (Unoffered used log)) (fun w => True ∧ I w) m fun _ w => True ∧ I w :=
    (Guar.frame hm hI).mono fun _ _ hframe hw => hw.frame hframe
  exact hstep.conseq (fun _ hw => ⟨trivial, hw⟩) fun _ _ hw => hw.2

/-- The used coins are those of `c`. -/
def UsedAs (used : Finset TxOut) (log : List Event) (c : Context) (w : World) : Prop :=
  Unoffered used log w ∧ ∀ c', w.data.ctx = some c' → c'.usedUtxos = c.usedUtxos

theorem UsedAs.frame {c : Context} {w w' : World} (hframe : CoinFrame w w')
    (hw : UsedAs used log c w) : UsedAs used log c w' := by
  refine ⟨hw.1.frame hframe, fun c₂ hc₂ => ?_⟩
  obtain ⟨c₁, hc₁, hused, -⟩ := hframe.wallet c₂ hc₂
  exact hused.trans (hw.2 c₁ hc₁)

/-! ### Instant swaps -/

theorem record_unoffered {e : Event} (he : e.offered = []) :
    Refines (Preserves (Unoffered used log)) (record e : Worker ε Unit) :=
  .modify fun w hw => hw.frame (.of_record (w := w) rfl rfl he)

theorem modifyCtx_unoffered {f : Context → Context} (hused : ∀ c, (f c).usedUtxos = c.usedUtxos)
    (hswap : ∀ c a', (f c).activeSwap = some a' → ∃ a, c.activeSwap = some a ∧ a'.inputs = a.inputs) :
    Refines (Preserves (Unoffered used log)) (modifyCtx f : Worker ε Unit) := by
  refine .modify fun w hw => hw.frame ?_
  exact .of_modifyCtx (w := w) rfl hused hswap ⟨[], rfl, fun _ he => by cases he⟩

theorem requestOr_unoffered (r : Request) (wrapError : String → String) :
    Refines (Preserves (Unoffered used log)) (requestOr h r wrapError) :=
  .bind (call_effects _) fun _ => .bind (record_unoffered rfl) fun _ => .ofExcept _

theorem rfqUpdate_unoffered (m : MatchRfqUpdate) :
    Refines (Preserves (Unoffered used log)) (rfqUpdate m) := by
  refine .bind (ctxOr_effects _) fun ctx => .bind (.okOr _ _) fun a => ?_
  refine .bind (modifyCtx_unoffered (fun _ => rfl) fun c a' ha' => ?_) fun _ => toUi_effects rfl
  obtain ⟨a, ha, rfl⟩ := Option.map_eq_some_iff.mp ha'
  exact ⟨a, ha, rfl⟩

/-- A PSET of coins that are not used. -/
theorem generatePsbt_unoffered {info : PsbtInfo} {utxos : List Utxo}
    (hutxos : ∀ u ∈ utxos, u.txOut ∉ used) :
    Refines (Preserves (Unoffered used log)) (generatePsbt h info utxos) := by
  refine .bind (call_effects _) fun result => .bind (.expect _) fun psbt => ?_
  refine .bind (.modify fun w hw => ?_) fun _ => .ofExcept _
  obtain ⟨events, hlog, hevents⟩ := hw.offers
  refine ⟨⟨.generatePsbt info utxos psbt.toOption :: events, congrArg _ hlog, ?_⟩, hw.grows, hw.swap⟩
  intro e he t ht
  rcases List.mem_cons.mp he with rfl | he
  · obtain ⟨u, hu, rfl⟩ := List.mem_map.mp ht
    exact hutxos u hu
  · exact hevents e he t ht

/-- The inputs of the active swap are offered. -/
theorem swapSendPsbt_unoffered (txInfo : Swap) :
    Guar (Preserves (Unoffered used log)) (Unoffered used log) (swapSendPsbt h txInfo)
      fun _ _ => True := by
  refine .bind (ctxOr_spec _) fun ctx => .bind .okOr fun a => ?_
  refine Guar.pre (P := fun w => (∀ u ∈ a.inputs, u.txOut ∉ used) ∧ True) (.of_fact fun hinputs => ?_) ?_
  · refine Refines.guar (.bind (generatePsbt_unoffered hinputs) fun psbt => ?_)
    refine .bind (requestOr_unoffered _ _) fun _ => ?_
    exact modifyCtx_unoffered (fun _ => rfl) fun c a' ha' => ⟨a', ha', rfl⟩
  · rintro w ⟨ha, hctx, hw⟩
    refine ⟨fun u hu hmem => ?_, trivial⟩
    exact hw.swap ctx a hctx ha u hu (hw.grows ctx hctx hmem)

theorem swapSendSign_unoffered (psbt : String) :
    Refines (Preserves (Unoffered used log)) (swapSendSign h psbt) := by
  refine .bind (ctxOr_effects _) fun ctx => .bind (.okOr _ _) fun a => .bind (.okOr _ _) fun utxos => ?_
  refine .bind ?_ fun signed => .bind (requestOr_unoffered _ _) fun _ => .pure _
  refine .bind (call_effects _) fun result => .bind (.expect _) fun signed => ?_
  exact .bind (record_unoffered rfl) fun _ => .ofExcept _

/-- The wallet after a swap is done: its inputs are used and there is no active swap. -/
def Context.swapDone (c : Context) (a : ActiveSwap) (txid : String) : Context :=
  { c.withoutSwaps with
    usedUtxos := c.usedUtxos ∪ (a.inputs.map Utxo.txOut).toFinset, succeedSwap := some txid }

theorem swapSucceed_cases (txid : String) (w : World) :
    (swapSucceed txid : Worker ε Unit) w = .abort w ∨
      ∃ c a, w.data.ctx = some c ∧ c.activeSwap = some a ∧
        (swapSucceed txid : Worker ε Unit) w = .ok () ((w.modifyCtx fun c =>
          c.swapDone a txid).record (.completed (.swap a.orderId txid))) := by
  -- what happens once there is a swap
  let finish (a : ActiveSwap) : Worker ε Unit := do
    modifyCtx fun c =>
      { c with
        usedUtxos := c.usedUtxos ∪ (a.inputs.map Utxo.txOut).toFinset, succeedSwap := some txid }
    record (.completed (.swap a.orderId txid))
    cleanupSwaps
  have happly : (swapSucceed txid : Worker ε Unit) w =
      (Proc.expect w.data.ctx >>= fun c => Proc.expect c.activeSwap >>= finish : Worker ε Unit) w := rfl
  -- without a wallet the process ends
  cases hctx : w.data.ctx with
  | none =>
    rw [happly, hctx]
    exact .inl rfl
  | some c =>
    -- and so it does without a swap
    cases ha : c.activeSwap with
    | none =>
      have hactive : (swapSucceed txid : Worker ε Unit) w =
          (Proc.expect c.activeSwap >>= finish : Worker ε Unit) w := by
        rw [happly, hctx]
        rfl
      rw [hactive, ha]
      exact .inl rfl
    | some a =>
      have hactive : (swapSucceed txid : Worker ε Unit) w = finish a w := by
        rw [happly, hctx]
        show (Proc.expect c.activeSwap >>= finish : Worker ε Unit) w = _
        rw [ha]
        rfl
      -- otherwise the coins are used, the success is waited for, and the slots are emptied
      refine .inr ⟨c, a, rfl, ha, hactive.trans ?_⟩
      have hfinish : finish a w = (Proc.expect (w.data.ctx.map fun c =>
          { c with
            usedUtxos := c.usedUtxos ∪ (a.inputs.map Utxo.txOut).toFinset
            succeedSwap := some txid }) >>= fun _ => modifyCtx Context.withoutSwaps : Worker ε Unit)
          ((w.modifyCtx fun c =>
            { c with
              usedUtxos := c.usedUtxos ∪ (a.inputs.map Utxo.txOut).toFinset
              succeedSwap := some txid }).record (.completed (.swap a.orderId txid))) := rfl
      rw [hfinish, hctx]
      show Outcome.ok () _ = _
      refine congrArg (Outcome.ok ()) ?_
      simp only [World.modifyCtx, World.modifyData, World.record, hctx, Option.map_some]
      rfl

/-- The inputs of a swap that is done are used, and there is no active swap any more. -/
theorem swapSucceed_unoffered (txid : String) :
    Refines (Preserves (Unoffered used log)) (swapSucceed txid : Worker ε Unit) := by
  refine .of_chain fun w => ?_
  rcases swapSucceed_cases (ε := ε) txid w with habort | ⟨c, a, hctx, -, hok⟩
  · rw [habort]
    exact .refl
  · rw [hok]
    refine .single fun hw => ?_
    have hctx' : ((w.modifyCtx fun c => c.swapDone a txid).record
        (.completed (.swap a.orderId txid))).data.ctx = some (c.swapDone a txid) := by
      simp only [World.modifyCtx, World.modifyData, World.record, hctx, Option.map_some]
    obtain ⟨events, hlog, hoffers⟩ := hw.offers
    refine ⟨⟨_ :: events, congrArg (List.cons _) hlog, ?_⟩, fun c' hc' => ?_, fun c' a' hc' ha' => ?_⟩
    · refine List.forall_mem_cons.mpr ⟨?_, hoffers⟩
      simp [Event.offered]
    · rw [Outcome.state_ok, hctx'] at hc'
      cases hc'
      exact (hw.grows c hctx).trans Finset.subset_union_left
    · rw [Outcome.state_ok, hctx'] at hc'
      cases hc'
      cases ha'

theorem processSwapNotification_unoffered (m : SwapNotification) :
    Guar (Preserves (Unoffered used log)) (Unoffered used log)
      (processSwapNotification h m : Worker ε Unit) fun _ _ => True := by
  refine .bind getData_spec fun d => ?_
  split
  · split
    · split
      · refine .bind (.attempt ((swapSendPsbt_unoffered _).pre fun _ hw => hw.2)) fun _ => ?_
        exact .pure fun _ _ => trivial
      · exact Refines.guar (ignoreError_effects (swapSendSign_unoffered _))
      · exact Refines.guar (swapFailed_effects _)
      · exact Refines.guar (swapSucceed_unoffered _)
    · exact Refines.guar (.pure _)
  · exact Refines.guar (.pure _)

/-- An instant swap chooses among the coins that are not used. -/
theorem processSwapRequestAtomic_unoffered (req : SwapRequest) :
    Guar (Preserves (Unoffered used log)) (Unoffered used log) (processSwapRequestAtomic h req)
      fun _ _ => True := by
  refine .bind getData_spec fun d => .bind .ensure fun _ => .bind .expect fun ctx => ?_
  -- the wallet that was read is still the one whose coins are used
  have hctx : ∀ w, d.ctx = some ctx ∧ d.connected = true ∧ d = w.data ∧ Unoffered used log w →
      UsedAs used log ctx w := by
    rintro w ⟨hc, -, rfl, hw⟩
    refine ⟨hw, fun c' hc' => ?_⟩
    rw [hc] at hc'
    cases hc'
    rfl
  refine Guar.pre ?_ hctx
  -- the lookups and the calls in between leave the wallet as it is
  refine .bind (coin_carry (.expect _) fun _ _ => UsedAs.frame) fun _ => ?_
  refine .bind (coin_carry (.expect _) fun _ _ => UsedAs.frame) fun _ => ?_
  refine .bind (coin_carry (callOr_effects _ _) fun _ _ => UsedAs.frame) fun all => ?_
  refine .bind (coin_carry (.okOr _ _) fun _ _ => UsedAs.frame) fun assetUtxos => ?_
  refine .bind (coin_carry (.ensure _) fun _ _ => UsedAs.frame) fun _ => .bind .expect fun p => ?_
  refine .of_fact fun hselect => ?_
  -- the coins are selected among those that are not used
  have hfresh : ∀ u ∈ p.1, u.txOut ∉ ctx.usedUtxos := by
    intro u hu
    obtain ⟨g, hg, rfl⟩ := mem_of_selectCoins hselect u hu
    exact of_decide_eq_true (List.mem_filter.mp hg).2
  refine .bind (coin_carry (requestOr_effects _ fun _ => rfl) fun _ _ => UsedAs.frame) fun orderId => ?_
  refine .bind (Q := fun _ _ => True) (.modify ?_ fun _ _ => trivial) fun _ => .pure fun _ _ => trivial
  -- the new swap is the only offer
  rintro w ⟨-, hused⟩ hw
  obtain ⟨events, hlog, hevents⟩ := hw.offers
  refine ⟨⟨.swapPrepared _ :: events, congrArg _ hlog, ?_⟩, fun c' hc' => ?_, fun c' a' hc' ha' => ?_⟩
  · intro e he t ht
    rcases List.mem_cons.mp he with rfl | he
    · cases ht
    · exact hevents e he t ht
  · obtain ⟨c, hc, rfl⟩ := Option.map_eq_some_iff.mp hc'
    exact hw.grows c hc
  · obtain ⟨c, hc, rfl⟩ := Option.map_eq_some_iff.mp hc'
    cases ha'
    intro u hu
    show u.txOut ∉ c.usedUtxos
    rw [hused c hc]
    exact hfresh u hu

theorem processSwapRequest_unoffered (req : SwapRequest) :
    Guar (Preserves (Unoffered used log)) (Unoffered used log)
      (processSwapRequest h req : Worker ε Unit) fun _ _ => True := by
  refine .bind (Q := fun _ _ => True) ((Guar.attempt (Q := fun _ _ => True) ?_).post fun _ _ _ => trivial)
    fun result => ?_
  · unfold tryProcessSwapRequest
    split
    · refine Refines.guar (.bind getData_effects fun d => .bind (.ensure _) fun _ => ?_)
      refine .bind (.okOr _ _) fun blocks => .bind (.okOr _ _) fun _ => .bind (.okOr _ _) fun status => ?_
      refine .bind (.ensure _) fun _ => .bind (.modify fun w hw => hw.frame ?_) fun _ => .pure _
      exact .of_modifyCtx (w := w) (f := fun c => { c with internalPeg := some ⟨req.sendAmount, blocks⟩ })
        rfl (fun _ => rfl) (fun c a' ha' => ⟨a', ha', rfl⟩) ⟨[_], rfl, by simp [Event.offered]⟩
    · split
      · exact Refines.guar .abort
      · exact processSwapRequestAtomic_unoffered req
  · cases result with
    | ok review => exact Refines.guar (toUi_effects rfl)
    | error e => exact Refines.guar (toUi_effects rfl)

theorem processSwapCancel_unoffered :
    Refines (Preserves (Unoffered used log)) (processSwapCancel h : Worker ε Unit) := by
  refine .bind expectCtx_effects fun ctx => .bind ?_ fun _ => cleanupSwaps_effects
  unfold cancelActiveSwap
  split
  · refine .bind (modifyCtx_unoffered (fun _ => rfl) fun c a' ha' => by cases ha') fun _ => ?_
    exact ignoreError_effects (requestOr_unoffered _ _)
  · exact .pure _

theorem processSwapAccept_unoffered (req : SwapAccept) :
    Refines (Preserves (Unoffered used log)) (processSwapAccept h req : Worker ε Unit) := by
  have htry : Refines (Preserves (Unoffered used log)) (tryProcessSwapAccept h req) := by
    refine .bind expectCtx_effects fun ctx => .bind getData_effects fun d => ?_
    refine .bind (.ensure _) fun _ => ?_
    split
    · refine .bind (.okOr _ _) fun recvAmount => .bind (requestOr_unoffered _ _) fun _ => ?_
      refine modifyCtx_unoffered (fun _ => rfl) fun c a' ha' => ?_
      obtain ⟨a, ha, rfl⟩ := Option.map_eq_some_iff.mp ha'
      exact ⟨a, ha, rfl⟩
    · refine .bind (.modify fun w hw => hw.frame ?_) fun _ => ?_
      · exact .of_modifyCtx (w := w) (f := fun c => { c with internalPeg := none }) rfl (fun _ => rfl)
          (fun c a' ha' => ⟨a', ha', rfl⟩) ⟨[_], rfl, by simp [Event.offered]⟩
      · refine .bind getData_effects fun d => .bind (.expect _) fun deviceKey => ?_
        refine .bind (.expect _) fun recvAddr => .bind (requestOr_unoffered _ _) fun resp => ?_
        exact payPegOut_effects _ recvAddr resp
    · exact .fail _
  refine .bind (.attempt htry) fun result => ?_
  cases result with
  | ok _ => exact .pure _
  | error e => exact .bind (toUi_effects rfl) fun _ => processSwapCancel_unoffered

/-! ### Orders -/

/-- The coins that an order may choose from do not depend on the rest of the state. -/
theorem orderCandidates_congr {w w' : World} (hcalls : w'.calls = w.calls)
    (hterms : w'.data.submitData = w.data.submitData) (details : Details) :
    orderCandidates h w' details = orderCandidates h w details := by
  unfold orderCandidates orderUtxos reservedTxouts
  rw [hcalls, hterms]

theorem callOr_spec {α : Type} {G : World → World → Prop} [Allows G .talk] {P : World → Prop}
    (f : ℕ → Except String α) (wrapError : String → String) :
    Guar G P (callOr f wrapError) fun a _ => ∃ w, P w ∧ f w.calls = .ok a := by
  intro w hw
  exact ⟨(callOr_effects f wrapError).chain w, fun a w' hok => ⟨w, hw, callOr_eq_ok hok⟩⟩

/-- The inputs of an order are among its candidates. -/
theorem prepareInputs_unoffered (details : Details) :
    Guar (Preserves (Unoffered used log))
      (fun w => ∀ u ∈ orderCandidates h w details, u.txOut ∉ used) (prepareInputs h details)
      fun _ _ => True := by
  unfold prepareInputs orderCandidates
  generalize detailsSend h.liquidAssetId details = send
  refine .bind getData_spec fun d => .bind (callOr_spec _ _) fun allUtxos => ?_
  refine .bind .okOr fun all => .bind .ensure fun _ => .bind .expect fun p => ?_
  intro w hw
  obtain ⟨hselect, -, hall, w₀, ⟨rfl, hcandidates⟩, hcall⟩ := hw
  simp only [hcall, hall] at hcandidates
  have hfresh : ∀ u ∈ p.1, u.txOut ∉ used := by
    intro u hu
    obtain ⟨g, hg, rfl⟩ := mem_of_selectCoins hselect u hu
    exact hcandidates g hg
  have hpset : Refines (Preserves (Unoffered used log)) (do
      let pset ← generatePsbt h
        { sendAsset := send.1, sendAmount := p.2, recvAmount := 0
          recvAsset := if details.sendBitcoins then details.asset else h.liquidAssetId } p.1
      pure (p.1, pset)) :=
    .bind (generatePsbt_unoffered hfresh) fun _ => .pure _
  exact hpset w trivial

theorem acceptSubmit_unoffered (req : SubmitDecision) (resp : LinkResponse) :
    Guar (Preserves (Unoffered used log))
      (fun w => ∀ u ∈ orderCandidates h w resp.details, u.txOut ∉ used) (acceptSubmit h req resp)
      fun _ _ => True := by
  -- the checks change nothing
  have hcheck : ∀ d, Guar (Preserves (Unoffered used log))
      (fun w => ∀ u ∈ orderCandidates h w resp.details, u.txOut ∉ used)
      (verifyAmounts h d resp.details) fun _ w => ∀ u ∈ orderCandidates h w resp.details,
        u.txOut ∉ used := by
    intro d w hw
    have hnone : Guar (fun _ _ => False) (fun _ => True) (verifyAmounts h d resp.details) fun _ _ => True :=
      verifyAmounts_effects d resp.details
    refine ⟨(verifyAmounts_effects d resp.details).chain w, fun u w' hok => ?_⟩
    rcases hnone.cases_of_no_step (s := w) trivial with ⟨u', hok', -⟩ | ⟨e, herror⟩ | habort
    · rw [hok'] at hok
      cases hok
      exact hw
    · rw [herror] at hok
      cases hok
    · rw [habort] at hok
      cases hok
  refine .bind getData_spec fun d => .bind .okOr fun asset => ?_
  -- the inputs are selected before anything else is asked for
  refine .bind ((hcheck d).pre fun _ hw => hw.2.2) fun _ => ?_
  refine .bind (prepareInputs_unoffered resp.details) fun p => Refines.guar ?_
  refine .bind (call_effects _) fun addr => .bind (.expect _) fun recvAddr => ?_
  refine .bind (call_effects _) fun addr => .bind (.expect _) fun changeAddr => ?_
  -- what follows stores and sends them
  refine .bind (requestOr_unoffered _ _) fun _ => .bind (.modify fun w hw => hw.frame ?_) fun _ => ?_
  · exact .of_record (w := w) rfl rfl rfl
  · exact .bind (storeUtxos_effects _ _ _) fun _ => .pure _

/-- A decision offers no used coin if the order may not choose one. -/
theorem tryProcessSubmitDecision_unoffered (req : SubmitDecision) :
    Guar (Preserves (Unoffered used log))
      (fun w => ∀ details, submittedDetails w (.ui (.submitDecision req)) = some details →
        ∀ u ∈ orderCandidates h w details, u.txOut ∉ used)
      (tryProcessSubmitDecision h req) fun _ _ => True := by
  unfold tryProcessSubmitDecision
  split
  · -- a rejection offers nothing
    exact Refines.guar (.pure _)
  · rename_i haccept
    refine .bind (ctxOr_spec _) fun ctx => ?_
    -- an accepted signature takes the coins that were offered before
    split
    · refine Refines.guar (.bind ?_ fun _ => trySign_effects _ _)
      exact modifyCtx_unoffered (fun _ => rfl) fun c a' ha' => ⟨a', ha', rfl⟩
    · -- otherwise the order under review is submitted
      rename_i hsign
      refine .bind .okOr fun resp => ?_
      refine .bind (Q := fun _ w => ∀ u ∈ orderCandidates h w resp.details, u.txOut ∉ used)
        (.modify ?_ ?_) fun _ => acceptSubmit_unoffered req resp
      · intro w _ hw
        refine hw.frame (.of_modifyCtx (w := w) rfl (fun _ => rfl) (fun c a' ha' => ⟨a', ha', rfl⟩)
          ⟨[], rfl, fun _ he => by cases he⟩)
      · -- the slot that is emptied does not change which coins there are to choose from
        rintro w ⟨hresp, hctx, hw⟩
        have hcandidates : orderCandidates h (w.modifyCtx fun c => { c with activeSubmit := none })
            resp.details = orderCandidates h w resp.details :=
          orderCandidates_congr rfl rfl resp.details
        rw [hcandidates]
        refine hw resp.details ?_
        have hprompt : (ctx.activeSign.filter fun sign => decide (sign.orderId = req.orderId)) = none := by
          assumption
        have haccept' : req.accept = true := by simpa using haccept
        simp [submittedDetails, hctx, hprompt, hresp, haccept']

theorem processSubmitDecision_unoffered (req : SubmitDecision) :
    Guar (Preserves (Unoffered used log))
      (fun w => ∀ details, submittedDetails w (.ui (.submitDecision req)) = some details →
        ∀ u ∈ orderCandidates h w details, u.txOut ∉ used)
      (processSubmitDecision h req : Worker ε Unit) fun _ _ => True := by
  refine .bind (.attempt (tryProcessSubmitDecision_unoffered req)) fun result => Refines.guar ?_
  split
  · exact .bind (modify_effects fun _ => .reviewClosed true) fun _ => afterReview_effects
  · refine .bind (toUi_effects rfl) fun _ => ?_
    exact .bind (modify_effects fun _ => .reviewClosed false) fun _ => afterReview_effects
  · refine .bind (toUi_effects rfl) fun _ => ?_
    exact .bind (modify_effects fun _ => .reviewClosed false) fun _ => afterReview_effects

/-! ### Runs -/

/-- The messages that may offer coins have their own lemma, all others keep the coins. -/
theorem process_unoffered {msg : Message} (hlogin : ∀ mnemonic phoneKey, msg ≠ .ui (.login mnemonic phoneKey))
    {w : World} (hw : Unoffered used log w)
    (hfresh : ∀ details, submittedDetails w msg = some details →
      ∀ u ∈ orderCandidates h w details, u.txOut ∉ used) :
    Unoffered used log (process h msg w : Outcome ε World Unit).state := by
  -- messages that do not deal with coins
  have hquiet : ∀ msg : Message, msg.effects.all (fun k => !k.coins) = true →
      Unoffered used log (process h msg w : Outcome ε World Unit).state := by
    intro msg hmsg
    have hprocess : Refines (Preserves (Unoffered used log)) (process h msg : Worker ε Unit) :=
      process_effects msg fun k hk =>
        allows_unoffered k (by simpa using List.all_eq_true.mp hmsg k hk)
    exact hprocess.preserves hw
  -- handlers that may offer some, from a state in which these are fresh
  have hguar : ∀ {P : World → Prop} {m : Worker ε Unit}, Guar (Preserves (Unoffered used log)) P m
      (fun _ _ => True) → P w → Unoffered used log (m w).state := by
    intro P m hm hP
    exact (hm w hP).1.invariant (fun _ _ hstep => hstep) hw
  -- the messages whose handlers do
  cases msg with
  | ui m =>
    cases m with
    | login mnemonic phoneKey => exact absurd rfl (hlogin mnemonic phoneKey)
    | swapRequest req => exact hguar (processSwapRequest_unoffered req) hw
    | swapCancel => exact hguar processSwapCancel_unoffered trivial
    | swapAccept req => exact hguar (processSwapAccept_unoffered req) trivial
    | submitDecision req => exact hguar (processSubmitDecision_unoffered req) hfresh
    | _ => exact hquiet _ rfl
  | serverNotification n =>
    cases n with
    | matchRfq m => exact hguar (ignoreError_effects (rfqUpdate_unoffered m)) trivial
    | swap m => exact hguar (processSwapNotification_unoffered m) hw
    | _ => exact hquiet _ rfl
  | _ => exact hquiet _ rfl

theorem handle_unoffered {msg : Message} (hlogin : ∀ mnemonic phoneKey, msg ≠ .ui (.login mnemonic phoneKey))
    {w : World} (hw : Unoffered used log w)
    (hfresh : ∀ details, submittedDetails w msg = some details →
      ∀ u ∈ orderCandidates h w details, u.txOut ∉ used) :
    Unoffered used log ((machine h).handle msg w).state := by
  have hreceived : Unoffered used log (w.record (.received msg)) :=
    hw.frame (.of_record (w := w) rfl rfl rfl)
  refine process_unoffered (ε := Empty) hlogin hreceived fun details hdetails u hu => ?_
  refine hfresh details hdetails u ?_
  have hcandidates : orderCandidates h (w.record (.received msg)) details = orderCandidates h w details :=
    orderCandidates_congr rfl rfl details
  rw [← hcandidates]
  exact hu

/-- In every run, the inputs of the active swap are not used. -/
theorem swapCoins_run (xs : List (Feed Message)) : SwapCoins ((machine h).run (start h) xs).state := by
  -- nothing is ever offered from an empty set of used coins
  have hempty : ∀ {w : World}, SwapCoins w → Unoffered ∅ [] w := fun hw =>
    ⟨⟨_, (List.append_nil _).symm, fun _ _ _ _ => Finset.notMem_empty _⟩,
      fun _ _ => Finset.empty_subset _, hw⟩
  have hboot : ∀ w, SwapCoins (boot h w : Outcome Empty World Unit).state := by
    intro w
    have hload : Refines (Preserves (Unoffered ∅ [])) (ignoreError (loadAssets h) : Worker Empty Unit) := by
      have : Allows (Preserves (Unoffered ∅ [])) .load := allows_unoffered .load rfl
      have : Allows (Preserves (Unoffered ∅ [])) .assets := allows_unoffered .assets rfl
      exact ignoreError_effects loadAssets_effects
    have hfresh : SwapCoins (freshStart h w) := fun c a hc => by cases hc
    exact (hload.preserves (hempty hfresh)).swap
  refine Machine.run_invariant (M := machine h) (I := SwapCoins) ?_ (fun w msg hw => ?_) fun w _ => hboot w
  · rw [start, Outcome.life_state]
    exact hboot _
  · by_cases hlogin : ∃ mnemonic phoneKey, msg = .ui (.login mnemonic phoneKey)
    · obtain ⟨mnemonic, phoneKey, rfl⟩ := hlogin
      have hprocess : Refines (Preserves (Unoffered ∅ []))
          (process h (.ui (.login mnemonic phoneKey)) : Worker Empty Unit) := by
        refine process_preserves (fun k => !k.coins || k == .login) rfl ?_ rfl
        intro k w w' hk hcoarse hs hw
        by_cases hcoins : k.coins = false
        · exact hw.frame (hs.coinFrame hcoarse hcoins)
        · have hk : k = .login := by simpa [hcoins] using hk
          subst hk
          cases hs with
          | said e he => exact absurd (Event.effect_mem he) (by decide)
          | login walletHashId phoneKey =>
            refine hempty fun c a hc ha => ?_
            cases hc
            cases ha
      have hreceived : SwapCoins (w.record (.received (.ui (.login mnemonic phoneKey)))) := hw
      exact (hprocess.preserves (hempty hreceived)).swap
    · refine (handle_unoffered (fun mnemonic phoneKey heq => hlogin ⟨mnemonic, phoneKey, heq⟩) (hempty hw) ?_).swap
      exact fun _ _ _ _ => Finset.notMem_empty _

/-- Within a login, a coin that is used is not offered again if every order that is submitted
meanwhile may choose only other coins. -/
theorem used_coins_not_offered {xs ys : List (Feed Message)} (hlogin : sameLogin ys = true)
    (hfresh : (machine h).Along (FreshCoins h) ((machine h).run (start h) xs) ys) :
    let l := (machine h).run (start h) xs
    let l' := (machine h).run (start h) (xs ++ ys)
    ∀ t ∈ offeredSince l.state.log l'.state.log, t ∉ usedCoins l.state := by
  intro l l'
  -- by induction on the deliveries after the first state
  have hrun : ∀ (ys : List (Feed Message)) (l₁ : Life World), sameLogin ys = true →
      (machine h).Along (FreshCoins h) l₁ ys → Unoffered (usedCoins l.state) l.state.log l₁.state →
      Unoffered (usedCoins l.state) l.state.log ((machine h).run l₁ ys).state := by
    intro ys
    induction ys with
    | nil => exact fun _ _ _ hl => hl
    | cons y ys ih =>
      intro l₁ hlogin hfresh hl
      obtain ⟨hy, hys⟩ : _ ∧ sameLogin ys = true := by
        simpa only [sameLogin, List.all_cons, Bool.and_eq_true] using hlogin
      refine ih _ hys hfresh.2 ?_
      cases y with
      | restart => cases hy
      | deliver msg =>
        by_cases halive : l₁.alive = true
        · rw [Machine.feed_state_deliver _ _ halive]
          refine handle_unoffered ?_ hl fun details hdetails u hu hmem => ?_
          · rintro mnemonic phoneKey rfl
            cases hy
          · refine hfresh.1 msg rfl halive details hdetails u hu ?_
            -- without a wallet nothing is submitted; with one, used coins stay used
            cases hctx : l₁.state.data.ctx with
            | none =>
              cases msg with
              | ui m =>
                cases m <;> simp [submittedDetails, hctx] at hdetails
              | _ => cases hdetails
            | some c =>
              rw [usedCoins, hctx]
              exact hl.grows c hctx hmem
        · rw [Machine.feed_dead _ halive]
          exact hl
  have hstart : Unoffered (usedCoins l.state) l.state.log l.state := by
    refine ⟨⟨[], rfl, fun _ he => by cases he⟩, fun c hc => ?_, swapCoins_run xs⟩
    rw [usedCoins, hc]
    exact subset_rfl
  have hend := hrun ys l hlogin hfresh hstart
  rw [← Machine.run_append] at hend
  obtain ⟨events, hlog, hevents⟩ := hend.offers
  intro t ht
  rw [offeredSince, hlog, List.length_append, Nat.add_sub_cancel, List.take_left] at ht
  obtain ⟨e, he, ht⟩ := List.mem_flatMap.mp ht
  exact hevents e he t ht

/-! ### Runs of the samples -/

/-- Whether no candidate for an order is a used coin. -/
def decidableFreshCoins (h : Host) (w : World) :
    (o : Option Details) → Decidable (∀ details, o = some details →
      ∀ u ∈ orderCandidates h w details, u.txOut ∉ usedCoins w)
  | none => isTrue fun _ hnone => by cases hnone
  | some details =>
    decidable_of_iff (∀ u ∈ orderCandidates h w details, u.txOut ∉ usedCoins w)
      ⟨fun hall _ hsome => by cases hsome; exact hall, fun hall => hall details rfl⟩

instance (h : Host) (w : World) (msg : Message) : Decidable (FreshCoins h w msg) :=
  decidableFreshCoins h w (submittedDetails w msg)

namespace Sample

/-- A swap of gold is done. -/
def goldDone : List (Feed Message) :=
  synced ++ [.deliver (swapRequest gold silver), .deliver swapAccept, .deliver (waitPsbt gold silver),
    .deliver (waitSign gold), .deliver (swapState gold (.done "txid"))]

/-- An order is accepted. -/
def orderAccepted : List (Feed Message) :=
  [.deliver (linkOrder order), .deliver (decision order true false)]

/-- The wallet has a coin of gold and a coin of silver, and the orders sell silver. -/
def silverHost : Host :=
  plainHost (plainServer assets
      (fun X => .ok ⟨X, { details .requestor with asset := silver }, false⟩) fun _ => .error "")
    ((∅ : Map AssetId ℤ).insert silver 1000000)
    (((∅ : Map AssetId (List GdkUtxo)).insert gold [⟨⟨"a", 100, 0, []⟩, 1⟩]).insert silver
      [⟨⟨"b", 1000000, 0, []⟩, 1⟩])

end Sample

open Sample in
/-- The coin of the swap is used and that of the order is offered. -/
theorem used_coins_not_offered_silver :
    let l := (machine silverHost).run (start silverHost) goldDone
    let l' := (machine silverHost).run (start silverHost) (goldDone ++ orderAccepted)
    usedCoins l.state = {⟨"a", 0⟩} ∧ offeredSince l.state.log l'.state.log = [⟨"b", 0⟩] ∧
      ∀ t ∈ offeredSince l.state.log l'.state.log, t ∉ usedCoins l.state := by
  have hlogin : sameLogin orderAccepted = true := rfl
  have hfresh : (machine silverHost).Along (FreshCoins silverHost)
      ((machine silverHost).run (start silverHost) goldDone) orderAccepted := by
    decide +kernel
  have hunused := used_coins_not_offered hlogin hfresh
  exact ⟨by decide +kernel, by decide +kernel, hunused⟩

open Sample in
/-- The wallet library still reports the coin of a finished swap, and an order offers it once
more. -/
theorem used_coin_offered_again :
    ¬ ∀ (h : Host) (xs ys : List (Feed Message)), sameLogin ys = true →
      let l := (machine h).run (start h) xs
      let l' := (machine h).run (start h) (xs ++ ys)
      ∀ t ∈ offeredSince l.state.log l'.state.log, t ∉ usedCoins l.state := by
  intro hall
  have hrun := hall orderHost goldDone orderAccepted rfl
  revert hrun
  decide +kernel

end SideSwap.Client
