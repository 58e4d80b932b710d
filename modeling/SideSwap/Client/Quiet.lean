import SideSwap.Client.Moves
import SideSwap.Client.Handlers

/-!
# Handlers that leave the view alone

Most of the worker only talks to the server and the user interface.  Such a handler is a chain of
`Quiet` steps: they add plain events to the history, and they may save the settings.  The effects
whose steps are quiet are those that the relation `Quiet` allows.
-/

namespace SideSwap.Client

open Proc

variable {ε : Type}

/-! ### Quiet steps -/

/-- Nothing of the view changes but the settings on disk, and only plain events are added. -/
def Quiet (w w' : World) : Prop := Idle w.core w'.core

/-- What leaves the view as it is, is quiet. -/
theorem Quiet.of_core_eq {w w' : World} (h : w'.core = w.core) : Quiet w w' :=
  ⟨false, [], by simp, by rw [h]; rfl⟩

/-- A quiet step is a step of the abstract machine in every round. -/
theorem Quiet.move {w w' : World} (q : Quiet w w') (h : Host) (w₀ : World) (msg : Message) :
    Move h w₀ msg w.core w'.core := .quiet q

/-- The wallet in the view stays. -/
theorem Quiet.wallet {w w' : World} (q : Quiet w w') : w'.core.wallet = w.core.wallet := by
  obtain ⟨saves, events, -, hcore⟩ := q
  rw [hcore]
  rfl

theorem Quiet.processedSigns {w w' : World} (q : Quiet w w') :
    w'.data.processedSigns = w.data.processedSigns := by
  obtain ⟨saves, events, -, hcore⟩ := q
  exact congrArg Core.processedSigns hcore

theorem Quiet.submitData {w w' : World} (q : Quiet w w') :
    w'.data.submitData = w.data.submitData := by
  obtain ⟨saves, events, -, hcore⟩ := q
  exact congrArg Core.submitData hcore

/-- The history grows by plain events. -/
theorem Quiet.log {w w' : World} (q : Quiet w w') : PlainSince w.log w'.log := by
  obtain ⟨saves, events, hplain, hcore⟩ := q
  exact ⟨events, congrArg Core.log hcore, hplain⟩

/-! ### Primitives -/

/-- A change of data that the view does not contain. -/
theorem modifyData_quiet {f : Data → Data} (hf : ∀ w : World, (w.modifyData f).core = w.core) :
    Refines Quiet (modifyData f : Worker ε Unit) :=
  .modify fun w => .of_core_eq (hf w)

/-- A change of the wallet's state, as the view sees it. -/
theorem World.core_modifyCtx (w : World) {f : Context → Context} {g : Wallet → Wallet}
    (hf : ∀ c, (f c).wallet = g c.wallet) : (w.modifyCtx f).core = w.core.modifyWallet g := by
  have hmap : (w.data.ctx.map f).map Context.wallet = (w.data.ctx.map Context.wallet).map g := by
    rw [Option.map_map, Option.map_map]
    exact congrArg (fun k => w.data.ctx.map k) (funext hf)
  simp only [World.core, World.modifyCtx, World.modifyData, Core.modifyWallet, hmap]

/-- A change of the wallet's state that the view does not contain. -/
theorem modifyCtx_quiet {f : Context → Context} (hf : ∀ c, (f c).wallet = c.wallet) :
    Refines Quiet (modifyCtx f : Worker ε Unit) := by
  refine .modify fun w => .of_core_eq ?_
  rw [World.core_modifyCtx w (g := id) hf, Core.modifyWallet, Option.map_id]
  rfl

/-! ### Effects -/

/-- The effects that do not show in the view. -/
def Effect.quiet : Effect → Bool
  | .links | .prompts | .decisions | .swap | .cleanup | .login | .logout | .terms | .cancel => false
  | .sync | .balances => false
  | _ => true

/-- The events of a quiet effect are plain. -/
theorem Event.plain_of_effect {e : Event} {k : Effect} (he : e.effect = some k)
    (hk : k.quiet = true) : e.plain = true := by
  -- every kind of event is looked at once: those of an effect that is not quiet contradict `hk`
  cases e with
  | toUi msg => cases msg <;> first | rfl | cases he
  | request req answer =>
    cases req <;> first | rfl | (cases he; cases hk) | skip
    case edit X price indexPrice =>
      cases price with
      | none => rfl
      | some price => cases he; cases hk
  | signPsbt purpose info utxos psbt signed => cases purpose <;> (cases he; cases hk)
  | toWs connect => rfl
  | started => cases he
  | received msg => cases he
  | posted req => rfl
  | generatePsbt info utxos psbt => rfl
  | createTransaction details tx => rfl
  | broadcast tx => rfl
  | signaled X => rfl
  | synced list => rfl
  | balanced balances => rfl
  | trySign cause m => cases he; cases hk
  | prompted m => cases he
  | stored s => cases he
  | completed deal => rfl
  | utxosTaken side X => cases he; cases hk
  | swapPrepared a => cases he; cases hk
  | pegPrepared p => cases he; cases hk
  | pegTaken p => cases he; cases hk

/-- A plain event may be added. -/
theorem Quiet.record {w w' : World} {e : Event} (q : Quiet w w') (he : e.plain = true) :
    Quiet w (w'.record e) := by
  obtain ⟨saves, events, hplain, hcore⟩ := q
  refine ⟨saves, e :: events, ?_, ?_⟩
  · intro e' he'
    rcases List.mem_cons.mp he' with rfl | hmem
    · exact he
    · exact hplain e' hmem
  · show w'.core.record e = _
    rw [hcore]
    rfl

/-- A part of the wallet's state that the view does not contain may be changed. -/
theorem Quiet.modifyCtx {w w' : World} {f : Context → Context} (q : Quiet w w')
    (hf : ∀ c, (f c).wallet = c.wallet) : Quiet w (w'.modifyCtx f) := by
  have hcore : (w'.modifyCtx f).core = w'.core := by
    rw [World.core_modifyCtx w' (g := id) hf, Core.modifyWallet, Option.map_id]
    rfl
  obtain ⟨saves, events, hplain, hq⟩ := q
  exact ⟨saves, events, hplain, hcore.trans hq⟩

theorem Quiet.refl (w : World) : Quiet w w := .of_core_eq rfl

/-- Every step of a quiet effect is quiet. -/
theorem Change.quiet {k : Effect} {w w' : World} (hs : Change k w w') (hk : k.quiet = true) :
    Quiet w w' := by
  cases hs
  -- an event alone is plain by its effect; every other step leaves the view or changes a part
  -- outside it
  case said e he => exact (Quiet.refl w).record (Event.plain_of_effect he hk)
  case saved ok => exact ⟨ok, [], by simp, by cases ok <;> rfl⟩
  case info f hf =>
    refine .of_core_eq ?_
    simp only [World.core, World.modifyData]
    rw [hf]
  case ctxInfo f hf => exact (Quiet.refl w).modifyCtx fun c => by rw [hf]; rfl
  case queued f hf =>
    refine .of_core_eq ?_
    simp only [World.core, World.modifyData]
    rw [hf]
  case registered | orderHidden | orderShown | succeedShown | down =>
    exact (Quiet.of_core_eq rfl).record rfl
  case swapReported item _ _ =>
    have hslot : Quiet w (w.modifyCtx fun c => { c with succeedSwap := none }) :=
      (Quiet.refl w).modifyCtx fun _ => rfl
    exact hslot.record rfl
  case txShown | txHidden | balancesShown => exact (Quiet.refl w).record rfl
  case txsSent list =>
    have hsent : Quiet w (w.modifyCtx fun c => { c with sentTxs := list }) :=
      (Quiet.refl w).modifyCtx fun _ => rfl
    exact hsent.record rfl
  case balanceShown => exact ((Quiet.refl w).record rfl).modifyCtx fun _ => rfl
  case swapDone a txid _ _ =>
    have hdone : Quiet w (w.modifyCtx fun c =>
        { c with
          usedUtxos := c.usedUtxos ∪ (a.inputs.map Utxo.txOut).toFinset, succeedSwap := some txid }) :=
      (Quiet.refl w).modifyCtx fun _ => rfl
    exact hdone.record rfl
  case marketSet | txsRead | pegRead | pegStarted | paymentSet =>
    exact (Quiet.refl w).modifyCtx fun _ => rfl
  case called | assetsSaved | assetsLoaded | listed | submitSucceeded | up | offline => exact .of_core_eq rfl
  -- the steps that are left belong to effects that are not quiet
  all_goals cases hk

/-- The relation `Quiet` allows each quiet effect. -/
theorem Allows.of_quiet {k : Effect} (hk : k.quiet = true) : Allows Quiet k :=
  ⟨fun hs => .single (hs.quiet hk)⟩

instance : Allows Quiet .talk := .of_quiet rfl
instance : Allows Quiet .listing := .of_quiet rfl
instance : Allows Quiet .load := .of_quiet rfl
instance : Allows Quiet .market := .of_quiet rfl
instance : Allows Quiet .assets := .of_quiet rfl
instance : Allows Quiet .orders := .of_quiet rfl
instance : Allows Quiet .wallet := .of_quiet rfl
instance : Allows Quiet .mirror := .of_quiet rfl
instance : Allows Quiet .succeed := .of_quiet rfl
instance : Allows Quiet .success := .of_quiet rfl
instance : Allows Quiet .report := .of_quiet rfl
instance : Allows Quiet .queues := .of_quiet rfl
instance : Allows Quiet .externPeg := .of_quiet rfl
instance : Allows Quiet .psets := .of_quiet rfl
instance : Allows Quiet .payment := .of_quiet rfl
instance : Allows Quiet .connect := .of_quiet rfl
instance : Allows Quiet .down := .of_quiet rfl
instance : Allows Quiet .up := .of_quiet rfl
instance : Allows Quiet .offline := .of_quiet rfl
instance : Allows Quiet .swapDone := .of_quiet rfl
instance : Allows Quiet .sync := allows_sync
instance : Allows Quiet .balances := allows_balances

/-- The effects whose steps are chains of quiet ones. -/
def Effect.silent (k : Effect) : Bool := k.quiet || k = .sync || k = .balances

/-- A handler whose effects are all silent is a chain of quiet steps. -/
theorem Effect.allows_of_silent {effects : List Effect} (hs : effects.all Effect.silent = true) :
    ∀ k ∈ effects, Allows Quiet k := by
  intro k hk
  have hk' : k.silent = true := List.all_eq_true.mp hs k hk
  simp only [Effect.silent, Bool.or_eq_true, decide_eq_true_eq] at hk'
  rcases hk' with (hquiet | rfl) | rfl
  · exact .of_quiet hquiet
  · infer_instance
  · infer_instance

end SideSwap.Client
