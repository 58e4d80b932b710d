import SideSwap.Client.Refinement

/-!
# Instant swaps: consent, inputs and priority

Three properties of the runs of the worker, for every server and every order of messages.  Each
holds as long as one condition is met by the messages that the worker handles, and each fails
without it.

* `signed_as_accepted`: an instant swap is signed only after the user has accepted it, with the
  amount that was accepted, as long as no signature is asked for before.
* `signed_own_inputs`: the inputs that are signed are those of the active swap, as long as no
  signature is asked for before the swap has sent its PSET.
* `accepts_last_request`: what the user accepts is the last successful request, as long as a request
  does not succeed while the slot of the other kind is taken.
-/

namespace SideSwap.Client

open History

variable {h : Host}

/-! ### A wallet with two coins -/

namespace Sample

/-- The coins of the samples. -/
def coins : Map AssetId (List GdkUtxo) :=
  ((∅ : Map AssetId (List GdkUtxo)).insert gold [⟨⟨"a", 100, 0, []⟩, 1⟩]).insert silver
    [⟨⟨"b", 100, 0, []⟩, 1⟩]

/-- An outside with these coins. -/
def host : Host := plainHost (plainServer assets (fun _ => .error "") fun _ => .error "") ∅ coins

/-- The user asks for a swap. -/
def swapRequest (sendAsset recvAsset : AssetId) : Message :=
  .ui (.swapRequest ⟨sendAsset, recvAsset, 100, some 6⟩)

/-- The user accepts the quote. -/
def swapAccept : Message := .ui (.swapAccept ⟨some "address", some 50⟩)

/-- The notifications for the swap of an asset, which has the name of the asset. -/
def swapState (sendAsset : AssetId) (state : SwapState) : Message :=
  .serverNotification (.swap ⟨⟨sendAsset.val⟩, state⟩)

/-- The server asks for the inputs of a swap. -/
def waitPsbt (sendAsset recvAsset : AssetId) : Message :=
  swapState sendAsset (.waitPsbt ⟨sendAsset, 100, recvAsset, 50, 1⟩)

/-- The server asks for the signature of a swap. -/
def waitSign (sendAsset : AssetId) : Message := swapState sendAsset (.waitSign "pset")

/-- An instant swap up to the request for its signature. -/
def goldSwap : List (Feed Message) :=
  online ++ [.deliver (swapRequest gold silver), .deliver swapAccept, .deliver (waitPsbt gold silver)]

/-- A swap of gold that is signed. -/
def goldSigned : List (Feed Message) := goldSwap ++ [.deliver (waitSign gold)]

end Sample

/-! ### Questions to the history -/

/-- The amount that the user accepts with the message that is being handled. -/
def acceptedAmount (log : List Event) : Option ℤ :=
  match lastReceived log with
  | some (.ui (.swapAccept req)) => req.recvAmount
  | _ => none

/-- A confirmed acceptance: the order and the amount.  A new swap is not accepted. -/
def acceptance (e : Event) (older : List Event) : Option (Option (OrderId × ℤ)) :=
  match e with
  | .swapPrepared _ => some none
  | .request (.matchRfqAccept orderId amount) (.ok _) =>
    if acceptedAmount older = some amount then some (some (orderId, amount)) else some none
  | _ => none

/-- The last acceptance of the current instant swap that the server has confirmed. -/
def accepted (log : List Event) : Option (OrderId × ℤ) := (latest acceptance log).join

/-- The swap that an event prepares. -/
def preparation (e : Event) (_ : List Event) : Option ActiveSwap :=
  match e with
  | .swapPrepared a => some a
  | _ => none

/-- The instant swap that was requested last. -/
def currentSwap (log : List Event) : Option ActiveSwap := latest preparation log

/-- The inputs of a PSET that was sent, and its order.  A new swap has not sent any. -/
def sending (e : Event) (older : List Event) : Option (Option (OrderId × List Utxo)) :=
  match e, older with
  | .swapPrepared _, _ => some none
  | .request (.swap orderId (.psbt _)) (.ok _), .generatePsbt _ utxos _ :: _ =>
    some (some (orderId, utxos))
  | _, _ => none

/-- The inputs of the last PSET that was sent for the current instant swap, and its order. -/
def sentInputs (log : List Event) : Option (OrderId × List Utxo) := (latest sending log).join

/-- What can be accepted: a swap or a peg-out. -/
inductive Prepared where
  | swap (orderId : OrderId)
  | pegOut (peg : InternalPeg)
deriving DecidableEq

/-- What an event prepares. -/
def prepared (e : Event) (_ : List Event) : Option Prepared :=
  match e with
  | .swapPrepared a => some (.swap a.orderId)
  | .pegPrepared peg => some (.pegOut peg)
  | _ => none

/-- What the last successful swap request has prepared. -/
def lastPrepared (log : List Event) : Option Prepared := latest prepared log

/-! ### Steps that do not concern swaps -/

/-- The events that the questions above are not about. -/
def Event.swapFree : Event → Bool
  | .swapPrepared _ | .pegPrepared _ | .pegTaken _ => false
  | .request (.matchRfqAccept ..) _ => false
  | .request (.swap _ (.psbt _)) (.ok _) => false
  | .request (.swap _ (.sign _)) _ => false
  | .signPsbt (.swap _) _ _ _ _ => false
  | _ => true

theorem Event.swapFree_of_plain {e : Event} (he : e.plain = true) : e.swapFree = true := by
  unfold Event.swapFree
  split <;> simp_all [Event.plain]

/-- The slots of swaps keep their values or are emptied, and nothing happens to swaps. -/
structure SwapCalm (c c' : Core) : Prop where
  activeSwap : c'.activeSwap = c.activeSwap ∨ c'.activeSwap = none
  psbtUtxos : c'.psbtUtxos = c.psbtUtxos ∨ c'.psbtUtxos = none
  internalPeg : c'.internalPeg = c.internalPeg ∨ c'.internalPeg = none
  log : ∃ events, c'.log = events ++ c.log ∧ ∀ e ∈ events, e.swapFree = true

/-- A step that leaves the slots of swaps alone and adds one event. -/
theorem SwapCalm.of_wallet {c c' : Core} (events : List Event)
    (hwallet : c'.wallet = c.wallet ∨ c'.wallet = none ∨ c'.wallet = some Wallet.empty)
    (hlog : c'.log = events ++ c.log) (hfree : ∀ e ∈ events, e.swapFree = true) : SwapCalm c c' := by
  rcases hwallet with hwallet | hwallet | hwallet
  · refine ⟨.inl ?_, .inl ?_, .inl ?_, events, hlog, hfree⟩
    · rw [Core.activeSwap, hwallet, Core.activeSwap]
    · rw [Core.psbtUtxos, hwallet, Core.psbtUtxos]
    · rw [Core.internalPeg, hwallet, Core.internalPeg]
  all_goals
    refine ⟨.inr ?_, .inr ?_, .inr ?_, events, hlog, hfree⟩
    · rw [Core.activeSwap, hwallet]
      rfl
    · rw [Core.psbtUtxos, hwallet]
      rfl
    · rw [Core.internalPeg, hwallet]
      rfl

/-- The same for a write to another slot of the wallet. -/
theorem SwapCalm.of_modifyWallet {c c' : Core} {f : Wallet → Wallet} (events : List Event)
    (hwallet : c'.wallet = (c.modifyWallet f).wallet) (ha : ∀ v, (f v).activeSwap = v.activeSwap)
    (hu : ∀ v, (f v).psbtUtxos = v.psbtUtxos) (hp : ∀ v, (f v).internalPeg = v.internalPeg)
    (hlog : c'.log = events ++ c.log) (hfree : ∀ e ∈ events, e.swapFree = true) : SwapCalm c c' := by
  refine ⟨.inl ?_, .inl ?_, .inl ?_, events, hlog, hfree⟩
  · rw [Core.activeSwap, hwallet, Core.slot_modifyWallet]
    simp only [ha]
    rfl
  · rw [Core.psbtUtxos, hwallet, Core.slot_modifyWallet]
    simp only [hu]
    rfl
  · rw [Core.internalPeg, hwallet, Core.slot_modifyWallet]
    simp only [hp]
    rfl

theorem Idle.swapCalm {c c' : Core} (q : Idle c c') : SwapCalm c c' := by
  obtain ⟨saves, events, hplain, rfl⟩ := q
  exact .of_wallet events (.inl rfl) rfl fun e he => Event.swapFree_of_plain (hplain e he)

theorem OrderMove.swapCalm {w₀ : World} {msg : Message} {c c' : Core}
    (hm : OrderMove h w₀ msg c c') : SwapCalm c c' := by
  cases hm
  case linkReviewed | promptShown | signTaken =>
    exact .of_modifyWallet [_] rfl (fun _ => rfl) (fun _ => rfl) (fun _ => rfl) rfl
      (by simp [Event.swapFree])
  case submitTaken =>
    exact .of_modifyWallet [] rfl (fun _ => rfl) (fun _ => rfl) (fun _ => rfl) rfl
      (by simp)
  case edited | addrSent | submitted | reqTaken | respTaken | signQueued | autoSigned
      | orderSigned =>
    exact .of_wallet [_] (.inl rfl) rfl (by simp [Event.swapFree])
  all_goals exact .of_wallet [] (.inl rfl) rfl (by simp)

/-- An invariant of swaps: what is calm preserves it, and every move of swaps. -/
theorem CoreInvariant.of_swap {C : World → Message → Prop} {I : Core → Prop}
    (hcalm : ∀ c c', SwapCalm c c' → I c → I c')
    (hmove : ∀ w msg c c', C w msg → I (w.record (.received msg)).core →
      SwapMove h (w.record (.received msg)) msg c c' → I c → I c') : CoreInvariant h C I where
  received c msg := hcalm _ _ (.of_wallet [_] (.inl rfl) rfl (by simp [Event.swapFree]))
  move w msg c c' hw hw₀ hm := by
    cases hm with
    | quiet q => exact hcalm _ _ q.swapCalm
    | login => exact hcalm _ _ (.of_wallet [] (.inr (.inr rfl)) rfl (by simp))
    | logout => exact hcalm _ _ (.of_wallet [] (.inr (.inl rfl)) rfl (by simp))
    | swap m => exact hmove w msg c c' hw hw₀ m
    | order m => exact hcalm _ _ m.swapCalm
  restart c utxosReq _ :=
    hcalm _ _ (.of_wallet [_] (.inr (.inl rfl)) rfl (by simp [Event.swapFree]))
  idle c c' q := hcalm _ _ q.swapCalm

/-! ### The slots after a move of swaps -/

/-- The active swap is a new one, or it was active before, with the same inputs. -/
theorem SwapMove.activeSwap {w₀ : World} {msg : Message} {c c' : Core}
    (hm : SwapMove h w₀ msg c c') {a : ActiveSwap} (ha : c'.activeSwap = some a) :
    c'.log = .swapPrepared a :: c.log ∨
      ∃ a₀, c.activeSwap = some a₀ ∧ a₀.orderId = a.orderId ∧ a₀.inputs = a.inputs := by
  cases hm with
  | swapPrepared a' =>
    obtain ⟨v, hv, ha⟩ := Core.exists_slot (c := c) rfl ha
    obtain rfl : a' = a := Option.some.inj ha
    exact .inl rfl
  | quoted | swapAccepted =>
    obtain ⟨v, hv, ha⟩ := Core.exists_slot (c := c) rfl ha
    obtain ⟨a₀, ha₀, rfl⟩ := Option.map_eq_some_iff.mp ha
    exact .inr ⟨a₀, (Core.slot_of_wallet _ hv).trans ha₀, rfl, rfl⟩
  | pegPrepared | psbtSent | pegTaken =>
    obtain ⟨v, hv, ha⟩ := Core.exists_slot (c := c) rfl ha
    exact .inr ⟨a, (Core.slot_of_wallet _ hv).trans ha, rfl, rfl⟩
  | swapDropped | swapsCleared =>
    obtain ⟨v, hv, ha⟩ := Core.exists_slot (c := c) rfl ha
    cases ha
  | acceptRefused | swapSigned | swapSignSent => exact .inr ⟨a, ha, rfl, rfl⟩

/-- The remembered coins of a PSET are new, or they were remembered before. -/
theorem SwapMove.psbtUtxos {w₀ : World} {msg : Message} {c c' : Core}
    (hm : SwapMove h w₀ msg c c') {u : List Utxo} (hu : c'.psbtUtxos = some u) :
    (∃ X psbt, c'.log = .request (.swap X (.psbt psbt)) (.ok ()) :: c.log) ∨
      c.psbtUtxos = some u := by
  cases hm with
  | psbtSent => exact .inl ⟨_, _, rfl⟩
  | acceptRefused | swapSigned | swapSignSent => exact .inr hu
  | _ =>
    obtain ⟨v, hv, hu⟩ := Core.exists_slot (c := c) rfl hu
    exact .inr ((Core.slot_of_wallet _ hv).trans hu)

/-- The reviewed peg-out is a new one, or it was reviewed before. -/
theorem SwapMove.internalPeg {w₀ : World} {msg : Message} {c c' : Core}
    (hm : SwapMove h w₀ msg c c') {p : InternalPeg} (hp : c'.internalPeg = some p) :
    c'.log = .pegPrepared p :: c.log ∨ c.internalPeg = some p := by
  cases hm with
  | pegPrepared p' =>
    obtain ⟨v, hv, hp⟩ := Core.exists_slot (c := c) rfl hp
    obtain rfl : p' = p := Option.some.inj hp
    exact .inl rfl
  | swapsCleared | pegTaken =>
    obtain ⟨v, hv, hp⟩ := Core.exists_slot (c := c) rfl hp
    cases hp
  | acceptRefused | swapSigned | swapSignSent => exact .inr hp
  | _ =>
    obtain ⟨v, hv, hp⟩ := Core.exists_slot (c := c) rfl hp
    exact .inr ((Core.slot_of_wallet _ hv).trans hp)

/-! ### Consent -/

/-- A signature for an instant swap is made with the amount that was accepted, and what is sent to
the server is such a signature. -/
def consented : Event → List Event → Bool
  | .signPsbt (.swap orderId) info _ _ _, older =>
    decide (accepted older = some (orderId, info.recvAmount))
  | .request (.swap orderId (.sign signed)) _,
      .signPsbt (.swap orderId') info _ _ (some signed') :: older =>
    decide (orderId' = orderId ∧ signed' = signed ∧
      accepted older = some (orderId, info.recvAmount))
  | .request (.swap _ (.sign _)) _, _ => false
  | _, _ => true

/-- A peg-out begins only after the user's acceptance of it. -/
def Consented (e : Event) (older : List Event) : Prop := consented e older = true

instance (e : Event) (older : List Event) : Decidable (Consented e older) :=
  inferInstanceAs (Decidable (consented e older = true))

/-- The signature of the active swap is asked for only after the user has accepted it, or when it
fails because no PSET has been sent. -/
def SignsAccepted (w : World) (msg : Message) : Prop :=
  ∀ a psbt, w.core.activeSwap = some a → w.core.psbtUtxos ≠ none →
    msg = .serverNotification (.swap ⟨a.orderId, .waitSign psbt⟩) → a.recvAmountAccepted ≠ none


/-- The active swap knows the amount that was accepted. -/
structure ConsentInv (c : Core) : Prop where
  amount : ∀ a r, c.activeSwap = some a → a.recvAmountAccepted = some r →
    accepted c.log = some (a.orderId, r)
  history : Always Consented c.log

theorem acceptance_of_swapFree {e : Event} (he : e.swapFree = true) (older : List Event) :
    acceptance e older = none := by
  unfold acceptance
  split <;> simp_all [Event.swapFree]

theorem consented_of_swapFree {e : Event} (he : e.swapFree = true) (older : List Event) :
    Consented e older := by
  unfold Consented consented
  split <;> simp_all [Event.swapFree]

theorem ConsentInv.calm {c c' : Core} (hc : SwapCalm c c') (hI : ConsentInv c) : ConsentInv c' := by
  obtain ⟨events, hlog, hfree⟩ := hc.log
  have haccepted : accepted c'.log = accepted c.log := by
    rw [accepted, hlog, latest_append fun e he => acceptance_of_swapFree (hfree e he), accepted]
  refine ⟨?_, ?_⟩
  · intro a r ha hr
    rw [haccepted]
    rcases hc.activeSwap with hsame | hnone
    · exact hI.amount a r (hsame ▸ ha) hr
    · rw [hnone] at ha
      cases ha
  · rw [hlog]
    exact hI.history.append fun e he => consented_of_swapFree (hfree e he)

theorem ConsentInv.move {w : World} {msg : Message} {c c' : Core} (hC : SignsAccepted w msg)
    (hm : SwapMove h (w.record (.received msg)) msg c c') (hI : ConsentInv c) : ConsentInv c' := by
  cases hm with
  | swapPrepared a hmsg hkind hsuccess hwallet hfresh =>
    refine ⟨?_, .cons rfl hI.history⟩
    intro a' r ha hr
    obtain ⟨v, hv, ha⟩ := Core.exists_slot (c := c) rfl ha
    obtain rfl : a = a' := Option.some.inj ha
    rw [hfresh] at hr
    cases hr
  | quoted fee =>
    refine ⟨?_, hI.history⟩
    intro a r ha hr
    obtain ⟨v, hv, ha⟩ := Core.exists_slot (c := c) rfl ha
    obtain ⟨a₀, ha₀, rfl⟩ := Option.map_eq_some_iff.mp ha
    exact hI.amount a₀ r ((Core.slot_of_wallet _ hv).trans ha₀) hr
  | swapAccepted hmsg hamount hactive hlog =>
    rename_i a req amount
    refine ⟨?_, .cons rfl hI.history⟩
    intro a' r ha hr
    obtain ⟨v, hv, ha⟩ := Core.exists_slot (c := c) rfl ha
    obtain ⟨a₀, ha₀, rfl⟩ := Option.map_eq_some_iff.mp ha
    obtain rfl : amount = r := Option.some.inj hr
    -- the message that is handled is the acceptance of the user
    have hreceived : acceptedAmount c.log = some amount := by
      rw [hlog, hmsg]
      exact hamount
    have horder : a₀ = a := by
      rw [Core.activeSwap, Core.slot_of_wallet _ hv, ha₀] at hactive
      exact Option.some.inj hactive
    rw [← horder]
    simp only [accepted, Core.record, latest, acceptance, Core.modifyWallet, if_pos hreceived,
      Option.some_or, Option.join_some]
  | swapSigned psbt signed hmsg hactive hfound hwallet hlog =>
    rename_i a utxos
    refine ⟨hI.amount, .cons ?_ hI.history⟩
    have haccepted : a.recvAmountAccepted ≠ none := by
      refine hC a psbt ?_ ?_ hmsg
      · rw [Core.activeSwap, hwallet] at hactive
        exact hactive
      · rw [Core.psbtUtxos, hwallet] at hfound
        rw [Core.psbtUtxos]
        exact fun hnone => by cases hnone.symm.trans hfound
    obtain ⟨r, hr⟩ := Option.ne_none_iff_exists'.mp haccepted
    refine decide_eq_true ?_
    rw [ActiveSwap.psbtInfo, hr, Option.getD_some]
    exact hI.amount a r hactive hr
  | swapSignSent answer hlog =>
    rename_i orderId info utxos psbt signed older
    have hhistory := hI.history
    rw [hlog] at hhistory
    refine ⟨hI.amount, .cons ?_ hI.history⟩
    show Consented _ c.log
    rw [hlog]
    exact decide_eq_true ⟨rfl, rfl, of_decide_eq_true (always_cons.mp hhistory).1⟩
  | acceptRefused amount e hactive => exact ⟨hI.amount, .cons rfl hI.history⟩
  | pegPrepared p | psbtSent hactive hlog | pegTaken hidle hactive =>
    refine ⟨?_, .cons rfl hI.history⟩
    intro a r ha hr
    obtain ⟨v, hv, ha⟩ := Core.exists_slot (c := c) rfl ha
    exact hI.amount a r ((Core.slot_of_wallet _ hv).trans ha) hr
  | swapDropped | swapsCleared =>
    refine ⟨?_, hI.history⟩
    intro a r ha hr
    obtain ⟨v, hv, ha⟩ := Core.exists_slot (c := c) rfl ha
    cases ha

/-- In every run in which the signature of the active swap is asked for only after the user has
accepted it, every signature for an instant swap is for the accepted amount. -/
theorem signed_as_accepted (h : Host) (xs : List (Feed Message))
    (hC : (machine h).Along SignsAccepted (start h) xs) :
    Always Consented ((machine h).run (start h) xs).state.log := by
  have hI : CoreInvariant h SignsAccepted ConsentInv :=
    .of_swap (fun c c' hc => ConsentInv.calm hc) fun w msg c c' hw _ hm => ConsentInv.move hw hm
  have hnew : ConsentInv World.new.core := ⟨fun a r ha => (by cases ha), .nil⟩
  exact (run_core_invariant hI hnew hC).history

open Sample in
theorem signed_as_accepted_gold :
    (machine host).Along SignsAccepted (start host) goldSigned ∧
      Always Consented ((machine host).run (start host) goldSigned).state.log := by
  have hC : (machine host).Along SignsAccepted (start host) goldSigned := by
    refine Machine.along_snoc (Machine.along_of_mem _ ?_) ?_
    · rintro i hi w a psbt - - rfl
      simp [goldSwap, online, swapRequest, swapAccept, waitPsbt, swapState] at hi
    · intro a psbt ha _ _ hnone
      have hall : (((machine host).run (start host) goldSwap).state.core.activeSwap.all
          fun a => a.recvAmountAccepted.isSome) = true := by
        decide +kernel
      rw [ha, Option.all_some, hnone] at hall
      cases hall
  have hsafe := signed_as_accepted host goldSigned hC
  exact And.intro hC hsafe

open Sample in
/-- The server asks for the signature before the user has accepted: the wallet signs that it
receives nothing. -/
theorem signed_without_consent :
    ¬ ∀ (h : Host) (xs : List (Feed Message)),
      Always Consented ((machine h).run (start h) xs).state.log := by
  intro hall
  have hrun := hall host (online ++ [.deliver (swapRequest gold silver),
    .deliver (waitPsbt gold silver), .deliver (waitSign gold)])
  revert hrun
  decide +kernel

/-! ### Inputs -/

/-- The inputs that are signed for an instant swap are those that were selected for it and that it
has sent in its PSET. -/
def ownInputs : Event → List Event → Bool
  | .signPsbt (.swap orderId) _ utxos _ _, older =>
    decide (sentInputs older = some (orderId, utxos) ∧
      (currentSwap older).map (fun a => (a.orderId, a.inputs)) = some (orderId, utxos))
  | _, _ => true

/-- A swap is signed with the inputs that were offered for it. -/
def OwnInputs (e : Event) (older : List Event) : Prop := ownInputs e older = true

instance (e : Event) (older : List Event) : Decidable (OwnInputs e older) :=
  inferInstanceAs (Decidable (ownInputs e older = true))

/-- The signature of the active swap is asked for only after it has sent a PSET, or when it fails
because no swap has. -/
def SignsSent (w : World) (msg : Message) : Prop :=
  ∀ a psbt, w.core.activeSwap = some a → w.core.psbtUtxos ≠ none →
    msg = .serverNotification (.swap ⟨a.orderId, .waitSign psbt⟩) → sentInputs w.log ≠ none

/-- The active swap is the last requested one, and what is remembered of a PSET of this swap are its
inputs. -/
structure InputsInv (c : Core) : Prop where
  current : ∀ a, c.activeSwap = some a →
    (currentSwap c.log).map (fun a => (a.orderId, a.inputs)) = some (a.orderId, a.inputs)
  sent : ∀ a p, c.activeSwap = some a → sentInputs c.log = some p → p = (a.orderId, a.inputs)
  stored : ∀ u p, c.psbtUtxos = some u → sentInputs c.log = some p → u = p.2
  history : Always OwnInputs c.log

/-- Events that say nothing about the inputs of swaps. -/
def InputsFree (e : Event) : Prop :=
  ∀ older, preparation e older = none ∧ sending e older = none ∧ OwnInputs e older

theorem inputsFree_of_swapFree {e : Event} (he : e.swapFree = true) : InputsFree e := by
  intro older
  unfold preparation sending OwnInputs ownInputs
  refine ⟨?_, ?_, ?_⟩ <;> split <;> simp_all [Event.swapFree]

/-- What keeps the slots, up to the amounts of the active swap, and says nothing about inputs. -/
theorem InputsInv.keep {c c' : Core} (hI : InputsInv c) (events : List Event)
    (hactive : ∀ a, c'.activeSwap = some a →
      ∃ a₀, c.activeSwap = some a₀ ∧ a₀.orderId = a.orderId ∧ a₀.inputs = a.inputs)
    (hutxos : ∀ u, c'.psbtUtxos = some u → c.psbtUtxos = some u)
    (hlog : c'.log = events ++ c.log) (hfree : ∀ e ∈ events, InputsFree e) : InputsInv c' := by
  have hcurrent : currentSwap c'.log = currentSwap c.log := by
    rw [hlog]
    exact latest_append fun e he older => (hfree e he older).1
  have hsent : sentInputs c'.log = sentInputs c.log := by
    rw [sentInputs, hlog, latest_append fun e he older => (hfree e he older).2.1, sentInputs]
  refine ⟨?_, ?_, ?_, ?_⟩
  · intro a ha
    obtain ⟨a₀, ha₀, horder, hinputs⟩ := hactive a ha
    rw [hcurrent, ← horder, ← hinputs]
    exact hI.current a₀ ha₀
  · intro a p ha hp
    obtain ⟨a₀, ha₀, horder, hinputs⟩ := hactive a ha
    rw [← horder, ← hinputs]
    exact hI.sent a₀ p ha₀ (hsent ▸ hp)
  · intro u p hu hp
    exact hI.stored u p (hutxos u hu) (hsent ▸ hp)
  · rw [hlog]
    exact hI.history.append fun e he older => (hfree e he older).2.2

theorem InputsInv.calm {c c' : Core} (hc : SwapCalm c c') (hI : InputsInv c) : InputsInv c' := by
  obtain ⟨events, hlog, hfree⟩ := hc.log
  refine hI.keep events ?_ ?_ hlog fun e he => inputsFree_of_swapFree (hfree e he)
  · intro a ha
    rcases hc.activeSwap with hsame | hnone
    · exact ⟨a, hsame ▸ ha, rfl, rfl⟩
    · rw [hnone] at ha
      cases ha
  · intro u hu
    rcases hc.psbtUtxos with hsame | hnone
    · exact hsame ▸ hu
    · rw [hnone] at hu
      cases hu

theorem InputsInv.psbtSent {c c' : Core} {a : ActiveSwap} {info : PsbtInfo} {psbt : String}
    {older : List Event} (hI : InputsInv c) (hactive : c.activeSwap = some a)
    (hlog : c.log = .generatePsbt info a.inputs (some psbt) :: older)
    (hsame : ∀ a', c'.activeSwap = some a' → c.activeSwap = some a')
    (hutxos : ∀ u, c'.psbtUtxos = some u → u = a.inputs)
    (hlog' : c'.log = .request (.swap a.orderId (.psbt psbt)) (.ok ()) :: c.log) : InputsInv c' := by
  have hsent : sentInputs c'.log = some (a.orderId, a.inputs) := by
    rw [hlog', hlog]
    rfl
  refine ⟨?_, ?_, ?_, ?_⟩
  · intro a' ha
    rw [hlog']
    exact hI.current a' (hsame a' ha)
  · intro a' p ha hp
    obtain rfl : a = a' := Option.some.inj (hactive.symm.trans (hsame a' ha))
    exact (Option.some.inj (hsent.symm.trans hp)).symm
  · intro u p hu hp
    rw [hutxos u hu]
    exact congrArg Prod.snd (Option.some.inj (hsent.symm.trans hp))
  · rw [hlog']
    exact .cons rfl hI.history

theorem InputsInv.swapSigned {w : World} {msg : Message} {c : Core} {a : ActiveSwap}
    {utxos : List Utxo} {psbt : String} (hI : InputsInv c) (hC : SignsSent w msg)
    (hmsg : msg = .serverNotification (.swap ⟨a.orderId, .waitSign psbt⟩))
    (hactive : c.activeSwap = some a) (hfound : c.psbtUtxos = some utxos)
    (hwallet : c.wallet = w.core.wallet) (hlog : c.log = .received msg :: w.log) :
    sentInputs c.log = some (a.orderId, utxos) ∧
      (currentSwap c.log).map (fun a => (a.orderId, a.inputs)) = some (a.orderId, utxos) := by
  have hsent : sentInputs c.log ≠ none := by
    rw [hlog]
    refine hC a psbt ?_ ?_ hmsg
    · rw [Core.activeSwap, ← hwallet]
      exact hactive
    · rw [Core.psbtUtxos, ← hwallet]
      exact fun hnone => by cases hnone.symm.trans hfound
  obtain ⟨p, hp⟩ := Option.ne_none_iff_exists'.mp hsent
  have hpair := hI.sent a p hactive hp
  have hutxos := hI.stored utxos p hfound hp
  rw [hpair] at hutxos hp
  rw [hutxos]
  exact ⟨hp, hI.current a hactive⟩

theorem InputsInv.move {w : World} {msg : Message} {c c' : Core} (hC : SignsSent w msg)
    (hm : SwapMove h (w.record (.received msg)) msg c c') (hI : InputsInv c) : InputsInv c' := by
  -- all moves but three keep the slots and say nothing about inputs
  have hactive := fun a ha => hm.activeSwap (a := a) ha
  have hutxos := fun u hu => hm.psbtUtxos (u := u) hu
  cases hm with
  | swapPrepared a =>
    refine ⟨?_, fun _ p _ hp => (by cases hp), fun _ p _ hp => (by cases hp), .cons rfl hI.history⟩
    intro a' ha
    obtain ⟨v, hv, ha⟩ := Core.exists_slot (c := c) rfl ha
    obtain rfl : a = a' := Option.some.inj ha
    rfl
  | psbtSent ha hlog =>
    refine hI.psbtSent ha hlog ?_ ?_ rfl
    · intro a' ha'
      obtain ⟨v, hv, ha'⟩ := Core.exists_slot (c := c) rfl ha'
      exact (Core.slot_of_wallet _ hv).trans ha'
    · intro u hu
      obtain ⟨v, hv, hu⟩ := Core.exists_slot (c := c) rfl hu
      exact (Option.some.inj hu).symm
  | swapSigned psbt signed hmsg ha hu hwallet hlog =>
    have hown := hI.swapSigned hC hmsg ha hu hwallet hlog
    exact ⟨hI.current, hI.sent, hI.stored, .cons (decide_eq_true hown) hI.history⟩
  | quoted | swapDropped | swapsCleared =>
    refine hI.keep [] (fun a ha => (hactive a ha).resolve_left ?_)
      (fun u hu => (hutxos u hu).resolve_left ?_) rfl (by simp)
    · intro hlog
      exact List.cons_ne_self _ _ hlog.symm
    · rintro ⟨X, psbt, hlog⟩
      exact List.cons_ne_self _ _ hlog.symm
  | acceptRefused | swapSignSent | swapAccepted | pegPrepared | pegTaken =>
    refine hI.keep [_] (fun a ha => (hactive a ha).resolve_left ?_)
      (fun u hu => (hutxos u hu).resolve_left ?_) rfl ?_
    · intro hlog
      cases (List.cons.inj hlog).1
    · rintro ⟨X, psbt, hlog⟩
      cases (List.cons.inj hlog).1
    · intro e he older
      rw [List.mem_singleton] at he
      subst he
      exact ⟨rfl, rfl, rfl⟩

/-- In every run in which the signature of the active swap is asked for only after this swap has
sent a PSET, the inputs that are signed are those of the active swap. -/
theorem signed_own_inputs (h : Host) (xs : List (Feed Message))
    (hC : (machine h).Along SignsSent (start h) xs) :
    Always OwnInputs ((machine h).run (start h) xs).state.log := by
  have hI : CoreInvariant h SignsSent InputsInv :=
    .of_swap (fun c c' hc => InputsInv.calm hc) fun w msg c c' hw _ hm => InputsInv.move hw hm
  have hnew : InputsInv World.new.core :=
    ⟨fun a ha => (by cases ha), fun a p ha => (by cases ha), fun u p hu => (by cases hu), .nil⟩
  exact (run_core_invariant hI hnew hC).history

open Sample in
theorem signed_own_inputs_gold :
    (machine host).Along SignsSent (start host) goldSigned ∧
      Always OwnInputs ((machine host).run (start host) goldSigned).state.log := by
  have hC : (machine host).Along SignsSent (start host) goldSigned := by
    refine Machine.along_snoc (Machine.along_of_mem _ ?_) ?_
    · rintro i hi w a psbt - - rfl
      simp [goldSwap, online, swapRequest, swapAccept, waitPsbt, swapState] at hi
    · intro a psbt _ _ _
      decide +kernel
  have hsafe := signed_own_inputs host goldSigned hC
  exact And.intro hC hsafe

open Sample in
/-- A swap is cancelled after its PSET was sent, and the signature of the next one is asked for
before it has sent its own: the wallet signs the inputs of the first swap. -/
theorem signed_inputs_of_cancelled :
    ¬ ∀ (h : Host) (xs : List (Feed Message)),
      Always OwnInputs ((machine h).run (start h) xs).state.log := by
  intro hall
  have hrun := hall host (goldSwap ++ [.deliver (.ui .swapCancel),
    .deliver (swapRequest silver gold), .deliver swapAccept, .deliver (waitSign silver)])
  revert hrun
  decide +kernel

/-! ### Priority -/

/-- What the user accepts is what the last successful request has prepared. -/
def acceptsLast : Event → List Event → Bool
  | .request (.matchRfqAccept orderId _) _, older =>
    decide (lastPrepared older = some (.swap orderId))
  | .pegTaken peg, older => decide (lastPrepared older = some (.pegOut peg))
  | _, _ => true

/-- The swap that is accepted is the last one requested. -/
def AcceptsLast (e : Event) (older : List Event) : Prop := acceptsLast e older = true

instance (e : Event) (older : List Event) : Decidable (AcceptsLast e older) :=
  inferInstanceAs (Decidable (acceptsLast e older = true))

/-- A request succeeds only while the slot of the other kind is empty. -/
def RequestsAlone (h : Host) (w : World) (msg : Message) : Prop :=
  ∀ req review w', msg = .ui (.swapRequest req) →
    tryProcessSwapRequest h req (w.record (.received msg)) = .ok review w' →
      if req.isPegOut h then w.core.activeSwap = none else w.core.internalPeg = none

/-- At most one slot is taken, by what was requested last. -/
structure PriorityInv (c : Core) : Prop where
  one : c.activeSwap = none ∨ c.internalPeg = none
  swap : ∀ a, c.activeSwap = some a → lastPrepared c.log = some (.swap a.orderId)
  peg : ∀ p, c.internalPeg = some p → lastPrepared c.log = some (.pegOut p)
  history : Always AcceptsLast c.log

theorem priorityFree_of_swapFree {e : Event} (he : e.swapFree = true) (older : List Event) :
    prepared e older = none ∧ AcceptsLast e older := by
  unfold prepared AcceptsLast acceptsLast
  refine ⟨?_, ?_⟩ <;> split <;> simp_all [Event.swapFree]

/-- What fills no slot and prepares nothing. -/
theorem PriorityInv.keep {c c' : Core} (hI : PriorityInv c) (events : List Event)
    (hactive : ∀ a, c'.activeSwap = some a → ∃ a₀, c.activeSwap = some a₀ ∧ a₀.orderId = a.orderId)
    (hpeg : ∀ p, c'.internalPeg = some p → c.internalPeg = some p)
    (hlog : c'.log = events ++ c.log) (hfree : ∀ e ∈ events, ∀ older, prepared e older = none)
    (hhistory : Always AcceptsLast c'.log) : PriorityInv c' := by
  have hlast : lastPrepared c'.log = lastPrepared c.log := by
    rw [hlog]
    exact latest_append hfree
  refine ⟨?_, ?_, ?_, hhistory⟩
  · rcases hI.one with hone | hone
    · refine .inl (Option.eq_none_iff_forall_ne_some.mpr fun a ha => ?_)
      obtain ⟨a₀, ha₀, -⟩ := hactive a ha
      cases hone.symm.trans ha₀
    · refine .inr (Option.eq_none_iff_forall_ne_some.mpr fun p hp => ?_)
      cases hone.symm.trans (hpeg p hp)
  · intro a ha
    obtain ⟨a₀, ha₀, horder⟩ := hactive a ha
    rw [hlast, ← horder]
    exact hI.swap a₀ ha₀
  · intro p hp
    rw [hlast]
    exact hI.peg p (hpeg p hp)

theorem PriorityInv.calm {c c' : Core} (hc : SwapCalm c c') (hI : PriorityInv c) :
    PriorityInv c' := by
  obtain ⟨events, hlog, hfree⟩ := hc.log
  refine hI.keep events ?_ ?_ hlog (fun e he older => (priorityFree_of_swapFree (hfree e he) older).1) ?_
  · intro a ha
    rcases hc.activeSwap with hsame | hnone
    · exact ⟨a, hsame ▸ ha, rfl⟩
    · rw [hnone] at ha
      cases ha
  · intro p hp
    rcases hc.internalPeg with hsame | hnone
    · exact hsame ▸ hp
    · rw [hnone] at hp
      cases hp
  · rw [hlog]
    exact hI.history.append fun e he older => (priorityFree_of_swapFree (hfree e he) older).2

theorem PriorityInv.swapPrepared {c c' : Core} {a : ActiveSwap} (hI : PriorityInv c)
    (hnone : c.internalPeg = none) (hactive : ∀ a', c'.activeSwap = some a' → a' = a)
    (hpeg : ∀ p, c'.internalPeg = some p → c.internalPeg = some p)
    (hlog : c'.log = .swapPrepared a :: c.log) : PriorityInv c' := by
  have hempty : ∀ p, c'.internalPeg ≠ some p := by
    intro p hp
    cases hnone.symm.trans (hpeg p hp)
  refine ⟨.inr (Option.eq_none_iff_forall_ne_some.mpr hempty), ?_, fun p hp => absurd hp (hempty p), ?_⟩
  · intro a' ha
    rw [hlog, hactive a' ha]
    rfl
  · rw [hlog]
    exact .cons rfl hI.history

theorem PriorityInv.pegPrepared {c c' : Core} {p : InternalPeg} (hI : PriorityInv c)
    (hnone : c.activeSwap = none) (hpeg : ∀ p', c'.internalPeg = some p' → p' = p)
    (hactive : ∀ a, c'.activeSwap = some a → c.activeSwap ≠ none)
    (hlog : c'.log = .pegPrepared p :: c.log) : PriorityInv c' := by
  have hempty : ∀ a, c'.activeSwap ≠ some a := fun a ha => hactive a ha hnone
  refine ⟨.inl (Option.eq_none_iff_forall_ne_some.mpr hempty), fun a ha => absurd ha (hempty a), ?_, ?_⟩
  · intro p' hp
    rw [hlog, hpeg p' hp]
    rfl
  · rw [hlog]
    exact .cons rfl hI.history

theorem PriorityInv.move {w : World} {msg : Message} {c c' : Core} (hC : RequestsAlone h w msg)
    (hm : SwapMove h (w.record (.received msg)) msg c c') (hI : PriorityInv c) : PriorityInv c' := by
  have hactive := fun a ha => hm.activeSwap (a := a) ha
  have hpeg := fun p hp => hm.internalPeg (p := p) hp
  cases hm with
  -- a new swap: the slot of the peg is empty by the condition on requests
  | swapPrepared a hmsg hkind hsuccess hwallet =>
    have hempty := hC _ _ _ hmsg hsuccess
    rw [hkind, if_neg (by simp)] at hempty
    refine hI.swapPrepared (a := a) ?_ ?_ ?_ rfl
    · rw [Core.internalPeg, hwallet]
      exact hempty
    · intro a' ha
      obtain ⟨v, hv, ha⟩ := Core.exists_slot (c := c) rfl ha
      exact (Option.some.inj ha).symm
    · intro p hp
      refine (hpeg p hp).resolve_left fun hlog => ?_
      cases (List.cons.inj hlog).1
  -- a new peg: the slot of the swap is empty by the same condition
  | pegPrepared p hmsg hkind hsuccess hwallet =>
    have hempty := hC _ _ _ hmsg hsuccess
    rw [hkind, if_pos rfl] at hempty
    refine hI.pegPrepared (p := p) ?_ ?_ ?_ rfl
    · rw [Core.activeSwap, hwallet]
      exact hempty
    · intro p' hp
      obtain ⟨v, hv, hp⟩ := Core.exists_slot (c := c) rfl hp
      exact (Option.some.inj hp).symm
    · intro a ha hnone
      rcases hactive a ha with hlog | ⟨a₀, ha₀, -⟩
      · cases (List.cons.inj hlog).1
      · cases hnone.symm.trans ha₀
  -- nothing is logged, and no slot is newly taken
  | quoted | swapDropped | swapsCleared =>
    refine hI.keep [] ?_ ?_ rfl (by simp) hI.history
    · intro a ha
      rcases hactive a ha with hlog | ⟨a₀, ha₀, horder, -⟩
      · exact absurd hlog.symm (List.cons_ne_self _ _)
      · exact ⟨a₀, ha₀, horder⟩
    · intro p hp
      exact (hpeg p hp).resolve_left fun hlog => List.cons_ne_self _ _ hlog.symm
  -- one event is logged, and no slot is newly taken
  | swapAccepted hmsg hamount ha | acceptRefused amount e ha | pegTaken hidle hp | psbtSent
  | swapSigned | swapSignSent =>
    refine hI.keep [_] ?_ ?_ rfl ?_ (.cons ?_ hI.history)
    · intro a ha
      rcases hactive a ha with hlog | ⟨a₀, ha₀, horder, -⟩
      · cases (List.cons.inj hlog).1
      · exact ⟨a₀, ha₀, horder⟩
    · intro p hp
      refine (hpeg p hp).resolve_left fun hlog => ?_
      cases (List.cons.inj hlog).1
    · intro e he older
      rw [List.mem_singleton] at he
      subst he
      rfl
    · first
        | exact decide_eq_true (hI.swap _ ha)
        | exact decide_eq_true (hI.peg _ hp)
        | rfl

/-- In every run in which a swap request succeeds only while the slot of the other kind is empty, at
most one slot is taken, and what the user accepts is the last successful request. -/
theorem accepts_last_request (h : Host) (xs : List (Feed Message))
    (hC : (machine h).Along (RequestsAlone h) (start h) xs) :
    let w := ((machine h).run (start h) xs).state
    (w.core.activeSwap = none ∨ w.core.internalPeg = none) ∧ Always AcceptsLast w.log := by
  have hI : CoreInvariant h (RequestsAlone h) PriorityInv :=
    .of_swap (fun c c' hc => PriorityInv.calm hc) fun w msg c c' hw _ hm => PriorityInv.move hw hm
  have hnew : PriorityInv World.new.core :=
    ⟨.inl rfl, fun a ha => (by cases ha), fun p hp => (by cases hp), .nil⟩
  have hrun := run_core_invariant hI hnew hC
  exact ⟨hrun.one, hrun.history⟩

open Sample in
theorem accepts_last_request_gold :
    (machine host).Along (RequestsAlone host) (start host) goldSwap ∧
      let w := ((machine host).run (start host) goldSwap).state
      (w.core.activeSwap = none ∨ w.core.internalPeg = none) ∧ Always AcceptsLast w.log := by
  have hC : (machine host).Along (RequestsAlone host) (start host) goldSwap := by
    have hrequest : (machine host).Along (RequestsAlone host) (start host)
        (online ++ [.deliver (swapRequest gold silver)]) := by
      refine Machine.along_snoc (Machine.along_of_mem _ ?_) ?_
      · rintro i hi w req review w' rfl
        simp [online] at hi
      · intro req review w' hmsg _
        cases hmsg
        decide +kernel
    have hrest : (machine host).Along (RequestsAlone host) ((machine host).run (start host)
        (online ++ [.deliver (swapRequest gold silver)]))
        [.deliver swapAccept, .deliver (waitPsbt gold silver)] := by
      refine Machine.along_of_mem _ ?_
      rintro i hi w req review w' rfl
      simp [swapAccept, waitPsbt, swapState] at hi
    have happend := Machine.along_append hrequest hrest
    rwa [List.append_assoc] at happend
  have hsafe := accepts_last_request host goldSwap hC
  exact And.intro hC hsafe

open Sample in
/-- A peg-out is requested while an accepted swap is still active: the next acceptance goes to the
swap. -/
theorem accepts_older_swap :
    ¬ ∀ (h : Host) (xs : List (Feed Message)),
      let w := ((machine h).run (start h) xs).state
      (w.core.activeSwap = none ∨ w.core.internalPeg = none) ∧ Always AcceptsLast w.log := by
  intro hall
  have hrun := (hall host (goldSwap ++ [.deliver (swapRequest host.liquidAssetId bitcoinAssetId),
    .deliver swapAccept])).2
  revert hrun
  decide +kernel

end SideSwap.Client
