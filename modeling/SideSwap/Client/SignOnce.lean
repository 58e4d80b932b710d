import SideSwap.Client.Refinement

/-!
# Orders are signed at most once

The first properties of orders along the runs of the worker.  `OrderCalm` collects the steps that do
not concern orders, so that an invariant of orders needs a proof for each `OrderMove` and for a
restart only (`CoreInvariant.of_order`).

* In one life of the process `try_sign` runs at most once for an order (`OnceInv`): the attempts,
  the sign prompt that is shown and the queued prompts are about different orders, all of them
  processed.
* The coins of a maker's order that `try_sign` has taken are gone from the settings too
  (`CoinsInv`).  A later process signs the order again only after the user has accepted it again.

`signed_once` puts them together.
-/

namespace SideSwap.Client

open History

variable {h : Host}

/-! ### Steps that do not concern orders -/

/-- The events that no question about orders is about. -/
def Event.orderFree : Event → Bool
  | .started | .trySign .. | .prompted _ | .stored _ | .utxosTaken .. => false
  | .request (.addr _) _ => false
  | .request (.edit _ (some _) _) (.ok _) => false
  | .toUi (.submitReview _) => false
  | .signPsbt (.order ..) _ _ _ _ => false
  | _ => true

theorem Event.orderFree_of_plain {e : Event} (he : e.plain = true) : e.orderFree = true := by
  unfold Event.orderFree
  split <;> simp_all [Event.plain]

/-- The slots of orders keep their values or are emptied, the stores are unchanged up to a save or a
logout, and nothing happens to orders. -/
structure OrderCalm (c c' : Core) : Prop where
  activeSubmit : ∀ resp, c'.activeSubmit = some resp → c.activeSubmit = some resp
  activeSign : ∀ m, c'.activeSign = some m → c.activeSign = some m
  submitData : c'.submitData = c.submitData
  processedSigns : c'.processedSigns = c.processedSigns
  prompts : c'.prompts = c.prompts
  utxosReq : c'.utxosReq = c.utxosReq ∨ c'.utxosReq = ∅
  savedReq : c'.savedReq = c.savedReq ∨ c'.savedReq = c.utxosReq
  utxosResp : c'.utxosResp = c.utxosResp
  log : ∃ events, c'.log = events ++ c.log ∧ ∀ e ∈ events, e.orderFree = true

/-- What leaves the wallet and the stores alone. -/
theorem OrderCalm.of_log {c : Core} (events : List Event)
    (hfree : ∀ e ∈ events, e.orderFree = true) (saves : Bool) : OrderCalm c (c.idle saves events) := by
  refine ⟨fun _ hr => hr, fun _ hm => hm, rfl, rfl, rfl, .inl rfl, ?_, rfl, events, rfl, hfree⟩
  cases saves
  · exact .inl rfl
  · exact .inr rfl

theorem Idle.orderCalm {c c' : Core} (q : Idle c c') : OrderCalm c c' := by
  obtain ⟨saves, events, hplain, rfl⟩ := q
  exact .of_log events (fun e he => Event.orderFree_of_plain (hplain e he)) saves

/-- What writes other slots of the wallet. -/
theorem OrderCalm.of_modifyWallet {c : Core} {f : Wallet → Wallet} (events : List Event)
    (hsubmit : ∀ v, (f v).activeSubmit = v.activeSubmit) (hsign : ∀ v, (f v).activeSign = v.activeSign)
    (hfree : ∀ e ∈ events, e.orderFree = true) :
    OrderCalm c ((c.modifyWallet f).idle false events) := by
  refine ⟨?_, ?_, rfl, rfl, rfl, .inl rfl, .inl rfl, rfl, events, rfl, hfree⟩
  · intro resp hresp
    obtain ⟨v, hv, hresp⟩ := Core.exists_slot (c := c) rfl hresp
    rw [hsubmit] at hresp
    exact (Core.slot_of_wallet _ hv).trans hresp
  · intro m hm
    obtain ⟨v, hv, hm⟩ := Core.exists_slot (c := c) rfl hm
    rw [hsign] at hm
    exact (Core.slot_of_wallet _ hv).trans hm

theorem SwapMove.orderCalm {w₀ : World} {msg : Message} {c c' : Core}
    (hm : SwapMove h w₀ msg c c') : OrderCalm c c' := by
  cases hm
  case acceptRefused | swapSigned | swapSignSent =>
    exact .of_log [_] (by simp [Event.orderFree]) false
  case quoted | swapDropped | swapsCleared =>
    exact .of_modifyWallet [] (fun _ => rfl) (fun _ => rfl) (by simp)
  all_goals exact .of_modifyWallet [_] (fun _ => rfl) (fun _ => rfl) (by simp [Event.orderFree])

/-- An invariant of orders: what is calm preserves it, every move of orders, and a restart. -/
theorem CoreInvariant.of_order {C : World → Message → Prop} {I : Core → Prop}
    (hcalm : ∀ c c', OrderCalm c c' → I c → I c')
    (hmove : ∀ w msg c c', C w msg → I (w.record (.received msg)).core →
      OrderMove h (w.record (.received msg)) msg c c' → I c → I c')
    (hrestart : ∀ (c : Core) (utxosReq : Map OrderId StoredUtxo),
      (∀ X : OrderId, utxosReq[X]? ≠ none → c.savedReq[X]? ≠ none) → I c → I (c.restart utxosReq)) :
    CoreInvariant h C I where
  received c msg := hcalm _ _ (.of_log [_] (by simp [Event.orderFree]) false)
  move w msg c c' hw hw₀ hm := by
    -- a quiet step is calm
    cases hm with
    | quiet q => exact hcalm _ _ q.orderCalm
    -- a login and a logout empty the slots of the wallet
    | login =>
      refine hcalm _ _ ⟨fun _ hr => ?_, fun _ hs => ?_, rfl, rfl, rfl, .inl rfl, .inl rfl, rfl, [],
        rfl, by simp⟩
      · cases hr
      · cases hs
    | logout =>
      refine hcalm _ _ ⟨fun _ hr => ?_, fun _ hs => ?_, rfl, rfl, rfl, .inr rfl, .inl rfl, rfl, [],
        rfl, by simp⟩
      · cases hr
      · cases hs
    -- the steps of instant swaps do not touch orders
    | swap m => exact hcalm _ _ m.orderCalm
    | order m => exact hmove w msg c c' hw hw₀ m
  restart := hrestart
  idle c c' q := hcalm _ _ q.orderCalm

/-- A write to other slots of the wallet keeps the sign prompt. -/
theorem Core.activeSign_modifyWallet (c : Core) {f : Wallet → Wallet}
    (hf : ∀ v, (f v).activeSign = v.activeSign) : (c.modifyWallet f).activeSign = c.activeSign := by
  rw [Core.activeSign, Core.slot_modifyWallet]
  simp only [hf]
  rfl

/-! ### Attempts -/

/-- The orders that `try_sign` was executed for since the process started. -/
def attempts : List Event → List OrderId
  | [] => []
  | .started :: _ => []
  | .trySign _ m :: older => m.orderId :: attempts older
  | _ :: older => attempts older

/-- `try_sign` is executed at most once for an order. -/
def signsOnce : Event → List Event → Bool
  | .trySign _ m, older => decide (m.orderId ∉ attempts older)
  | _, _ => true

/-- A signature for an order is the first since its terms were accepted. -/
def SignsOnce (e : Event) (older : List Event) : Prop := signsOnce e older = true

instance (e : Event) (older : List Event) : Decidable (SignsOnce e older) :=
  inferInstanceAs (Decidable (signsOnce e older = true))

/-- The orders that `try_sign` was executed for or may be executed for: the attempts, the prompt
that is shown and the queued prompts. -/
def Core.tickets (c : Core) : List OrderId :=
  attempts c.log ++ (c.activeSign.toList.map SignNotification.orderId
    ++ c.prompts.map SignNotification.orderId)

/-- The tickets are about different orders, all of them processed. -/
structure OnceInv (c : Core) : Prop where
  nodup : c.tickets.Nodup
  processed : ∀ X ∈ c.tickets, X ∈ c.processedSigns
  history : Always SignsOnce c.log

theorem attempts_cons_of_orderFree {e : Event} (he : e.orderFree = true) (older : List Event) :
    attempts (e :: older) = attempts older := by
  rw [attempts.eq_def]
  split <;> simp_all [Event.orderFree]

theorem attempts_append {events older : List Event} (hfree : ∀ e ∈ events, e.orderFree = true) :
    attempts (events ++ older) = attempts older := by
  induction events with
  | nil => rfl
  | cons e events ih =>
    rw [List.cons_append, attempts_cons_of_orderFree (hfree e List.mem_cons_self)]
    exact ih fun e' he' => hfree e' (List.mem_cons_of_mem _ he')

theorem signsOnce_of_orderFree {e : Event} (he : e.orderFree = true) (older : List Event) :
    SignsOnce e older := by
  unfold SignsOnce signsOnce
  split
  · simp [Event.orderFree] at he
  · rfl

/-- What gives out no new ticket. -/
theorem OnceInv.keep {c c' : Core} (hI : OnceInv c) (hsub : c'.tickets.Subperm c.tickets)
    (hprocessed : c.processedSigns ⊆ c'.processedSigns) (hhistory : Always SignsOnce c'.log) :
    OnceInv c' := by
  obtain ⟨l, hperm, hl⟩ := hsub
  refine ⟨hperm.nodup_iff.mp (hI.nodup.sublist hl), ?_, hhistory⟩
  intro X hX
  exact hprocessed (hI.processed X (hl.subset (hperm.mem_iff.mpr hX)))

/-- A ticket for an order that was not processed. -/
theorem OnceInv.issue {c c' : Core} {X : OrderId} (hI : OnceInv c) (hnew : X ∉ c.processedSigns)
    (htickets : c'.tickets.Perm (X :: c.tickets))
    (hprocessed : c'.processedSigns = insert X c.processedSigns)
    (hhistory : Always SignsOnce c'.log) : OnceInv c' := by
  refine ⟨htickets.nodup_iff.mpr ?_, ?_, hhistory⟩
  · exact List.nodup_cons.mpr ⟨fun hX => hnew (hI.processed X hX), hI.nodup⟩
  · intro Y hY
    rw [hprocessed, Finset.mem_insert]
    rcases List.mem_cons.mp (htickets.mem_iff.mp hY) with rfl | hY
    · exact .inl rfl
    · exact .inr (hI.processed Y hY)

theorem OnceInv.calm {c c' : Core} (hc : OrderCalm c c') (hI : OnceInv c) : OnceInv c' := by
  obtain ⟨events, hlog, hfree⟩ := hc.log
  refine hI.keep (List.Sublist.subperm ?_) (Finset.subset_of_eq hc.processedSigns.symm) ?_
  · rw [Core.tickets, Core.tickets, hlog, attempts_append hfree, hc.prompts]
    refine List.Sublist.append_left (List.Sublist.append_right ?_ _) _
    cases hm : c'.activeSign with
    | none => exact List.nil_sublist _
    | some m => rw [hc.activeSign m hm]
  · rw [hlog]
    exact hI.history.append fun e he older => signsOnce_of_orderFree (hfree e he) older

/-- The same for a step that only leaves the prompts alone. -/
theorem OnceInv.same {c c' : Core} (hI : OnceInv c) (hattempts : attempts c'.log = attempts c.log)
    (hsign : c'.activeSign = c.activeSign) (hprompts : c'.prompts = c.prompts)
    (hprocessed : c.processedSigns ⊆ c'.processedSigns) (hhistory : Always SignsOnce c'.log) :
    OnceInv c' := by
  have htickets : c'.tickets = c.tickets := by
    rw [Core.tickets, Core.tickets, hattempts, hsign, hprompts]
  exact hI.keep (htickets ▸ List.Subperm.refl _) hprocessed hhistory

theorem OnceInv.promptShown {c c' : Core} {m : SignNotification} {rest : List SignNotification}
    (hI : OnceInv c) (hqueue : c.prompts = m :: rest) (hattempts : attempts c'.log = attempts c.log)
    (hsign : ∀ m', c'.activeSign = some m' → m' = m) (hprompts : c'.prompts = rest)
    (hprocessed : c'.processedSigns = c.processedSigns) (hhistory : Always SignsOnce c'.log) :
    OnceInv c' := by
  refine hI.keep (List.Sublist.subperm ?_) (Finset.subset_of_eq hprocessed.symm) hhistory
  rw [Core.tickets, Core.tickets, hattempts, hprompts, hqueue]
  refine List.Sublist.append_left (.trans ?_ (List.sublist_append_right _ _)) _
  rw [List.map_cons]
  cases hm : c'.activeSign with
  | none => exact List.sublist_cons_self _ _
  | some m' =>
    rw [hsign m' hm]
    exact List.Sublist.refl _

theorem OnceInv.move {w₀ : World} {msg : Message} {c c' : Core}
    (hm : OrderMove h w₀ msg c c') (hI : OnceInv c) : OnceInv c' := by
  cases hm
  case linkReviewed =>
    exact hI.same rfl (c.activeSign_modifyWallet fun _ => rfl) rfl (Finset.Subset.refl _)
      (.cons rfl hI.history)
  case submitTaken =>
    exact hI.same rfl (c.activeSign_modifyWallet fun _ => rfl) rfl (Finset.Subset.refl _) hI.history
  case addrSent | submitted | edited | reqTaken | respTaken | orderSigned =>
    exact hI.same rfl rfl rfl (Finset.Subset.refl _) (.cons rfl hI.history)
  case reqStored | respStored | reqErased | respErased | completed | cancelled | restored =>
    exact hI.same rfl rfl rfl (Finset.Subset.refl _) hI.history
  case signRefused X =>
    exact hI.same rfl rfl rfl (Finset.subset_insert _ _) hI.history
  case signQueued m hnew _ _ =>
    refine hI.issue hnew ?_ rfl (.cons rfl hI.history)
    show List.Perm (attempts c.log ++ (_ ++ (c.prompts ++ [m]).map _)) _
    rw [List.map_append, ← List.append_assoc, ← List.append_assoc, List.append_assoc (attempts c.log)]
    exact List.perm_append_singleton _ _
  case autoSigned m hnew _ _ _ =>
    have hfresh : m.orderId ∉ attempts c.log := by
      intro hX
      exact hnew (hI.processed _ (List.mem_append_left _ hX))
    exact hI.issue hnew (List.Perm.refl _) rfl (.cons (decide_eq_true hfresh) hI.history)
  case promptDropped m rest hqueue =>
    refine hI.keep (List.Sublist.subperm ?_) (Finset.Subset.refl _) hI.history
    rw [Core.tickets, Core.tickets, hqueue]
    refine List.Sublist.append_left (List.Sublist.append_left ?_ _) _
    exact List.sublist_cons_self _ _
  case promptShown m rest s internal hqueue hterms =>
    refine hI.promptShown hqueue rfl ?_ rfl rfl (.cons rfl hI.history)
    intro m' hm'
    obtain ⟨v, hv, hm'⟩ := Core.exists_slot (c := c) rfl hm'
    exact (Option.some.inj hm').symm
  case signTaken m req hmsg haccept horder hsign hstart =>
    -- the ticket of the prompt becomes the one of an attempt
    have hnone : (c.modifyWallet fun v => { v with activeSign := none }).activeSign = none := by
      refine Option.eq_none_iff_forall_ne_some.mpr fun m' hm' => ?_
      obtain ⟨v, hv, hm'⟩ := Core.exists_slot (c := c) rfl hm'
      cases hm'
    have htickets : c.tickets = attempts c.log ++ m.orderId :: c.prompts.map SignNotification.orderId := by
      rw [Core.tickets, hsign]
      rfl
    have hfresh : m.orderId ∉ attempts c.log := by
      intro hX
      have hdisjoint := hI.nodup
      rw [htickets] at hdisjoint
      exact (List.nodup_append.mp hdisjoint).2.2 _ hX _ List.mem_cons_self rfl
    refine hI.keep (List.Perm.subperm ?_) (Finset.Subset.refl _)
      (.cons (decide_eq_true hfresh) hI.history)
    rw [htickets]
    show List.Perm (m.orderId :: attempts c.log
      ++ ((c.modifyWallet fun v => { v with activeSign := none }).activeSign.toList.map _ ++ _)) _
    rw [hnone]
    exact List.perm_middle.symm

theorem OnceInv.restart {c : Core} (utxosReq : Map OrderId StoredUtxo) (hI : OnceInv c) :
    OnceInv (c.restart utxosReq) :=
  ⟨List.nodup_nil, fun X hX => (by cases hX), .cons rfl hI.history⟩

theorem onceInvariant : CoreInvariant h (fun _ _ => True) OnceInv :=
  .of_order (fun _ _ hc => OnceInv.calm hc) (fun _ _ _ _ _ _ hm => OnceInv.move hm)
    fun _ utxosReq _ => OnceInv.restart utxosReq

/-! ### Coins of maker's orders -/

/-- The history before the process started. -/
def pastLives : List Event → List Event
  | [] => []
  | .started :: older => older
  | _ :: older => pastLives older

/-- The coins of a maker's order are gone, or the user has offered new ones. -/
def spending (X : OrderId) (e : Event) (_ : List Event) : Option Bool :=
  match e with
  | .utxosTaken .requestor Y => if Y = X then some true else none
  | .stored s => if s.orderId = X then some false else none
  | _ => none

/-- The coins of the maker's order were taken to sign it, and it was not accepted again since. -/
def spent (X : OrderId) (log : List Event) : Bool := (latest (spending X) log).getD false

/-- The acceptance of an order, with its side. -/
def offer (X : OrderId) (e : Event) (_ : List Event) : Option Bool :=
  match e with
  | .started => some false
  | .stored s => if s.orderId = X then some true else none
  | _ => none

/-- The user has accepted the order since the process started. -/
def offeredNow (X : OrderId) (log : List Event) : Bool := (latest (offer X) log).getD false

/-- An order that an earlier process has spent the coins of is signed only after the user has
accepted it again. -/
def renewed : Event → List Event → Bool
  | .utxosTaken _ X, older | .signPsbt (.order _ X) _ _ _ _, older =>
    !spent X (pastLives older) || offeredNow X older
  | _, _ => true

/-- A second signature for an order follows a new acceptance of it. -/
def Renewed (e : Event) (older : List Event) : Prop := renewed e older = true

instance (e : Event) (older : List Event) : Decidable (Renewed e older) :=
  inferInstanceAs (Decidable (renewed e older = true))

/-- Coins that are still stored are not spent. -/
structure CoinsInv (c : Core) : Prop where
  req : ∀ X : OrderId, c.utxosReq[X]? ≠ none → spent X c.log = false
  saved : ∀ X : OrderId, c.savedReq[X]? ≠ none → spent X c.log = false
  resp : ∀ X : OrderId, c.utxosResp[X]? ≠ none → offeredNow X c.log = true
  history : Always Renewed c.log

theorem spent_cons_of_none {X : OrderId} {e : Event} {older : List Event}
    (he : spending X e older = none) : spent X (e :: older) = spent X older := by
  rw [spent, latest_cons_of_none he, spent]

theorem offeredNow_cons_of_none {X : OrderId} {e : Event} {older : List Event}
    (he : offer X e older = none) : offeredNow X (e :: older) = offeredNow X older := by
  rw [offeredNow, latest_cons_of_none he, offeredNow]

/-- New coins are not spent. -/
theorem spent_stored (s : SubmitData) (older : List Event) :
    spent s.orderId (.stored s :: older) = false := by
  rw [spent, latest_cons_of_some (if_pos rfl), Option.getD_some]

theorem offeredNow_stored (s : SubmitData) (older : List Event) :
    offeredNow s.orderId (.stored s :: older) = true := by
  rw [offeredNow, latest_cons_of_some (if_pos rfl), Option.getD_some]

/-- To store terms and to take the coins of other orders does not spend coins. -/
theorem spent_stored_of_false {X : OrderId} (s : SubmitData) {older : List Event}
    (h : spent X older = false) : spent X (.stored s :: older) = false := by
  by_cases hX : s.orderId = X
  · rw [← hX]
    exact spent_stored s older
  · have hnone : spending X (.stored s) older = none := if_neg hX
    rw [spent_cons_of_none hnone, h]

theorem spent_taken_of_ne {X Y : OrderId} (side : OrderSide) (older : List Event) (hne : Y ≠ X) :
    spent X (.utxosTaken side Y :: older) = spent X older := by
  refine spent_cons_of_none ?_
  cases side
  · exact if_neg hne
  · rfl

theorem offeredNow_stored_of_true {X : OrderId} (s : SubmitData) {older : List Event}
    (h : offeredNow X older = true) : offeredNow X (.stored s :: older) = true := by
  by_cases hX : s.orderId = X
  · rw [← hX]
    exact offeredNow_stored s older
  · have hnone : offer X (.stored s) older = none := if_neg hX
    rw [offeredNow_cons_of_none hnone, h]

/-- If the coins were spent when the process started and are not now, the user has offered new
ones. -/
theorem offeredNow_of_spent {X : OrderId} (log : List Event)
    (hpast : spent X (pastLives log) = true) (hnow : spent X log = false) :
    offeredNow X log = true := by
  induction log with
  | nil => cases hpast
  | cons e older ih =>
    cases e
    -- a restart changes neither the past of the order nor its present
    case started =>
      have hsame : spent X (.started :: older) = spent X older := spent_cons_of_none rfl
      rw [hsame] at hnow
      have hpast : spent X older = true := hpast
      rw [hnow] at hpast
      cases hpast
    -- new terms are an offer of this life
    case stored s =>
      by_cases hX : s.orderId = X
      · rw [← hX]
        exact offeredNow_stored s older
      · have hsame : spent X (.stored s :: older) = spent X older := spent_cons_of_none (if_neg hX)
        exact offeredNow_stored_of_true s (ih hpast (hsame ▸ hnow))
    -- the coins have been taken, which is the end of the order unless it is offered again
    case utxosTaken side Y =>
      refine ih hpast ?_
      cases side with
      | responder => exact hnow
      | requestor =>
        by_cases hY : Y = X
        · have htaken : spending X (.utxosTaken .requestor Y) older = some true := if_pos hY
          rw [spent, latest_cons_of_some htaken] at hnow
          cases hnow
        · rwa [spent_taken_of_ne .requestor older hY] at hnow
    all_goals exact ih hpast hnow

theorem coinsFree_of_orderFree {e : Event} (he : e.orderFree = true) (X : OrderId)
    (older : List Event) : spending X e older = none ∧ offer X e older = none := by
  unfold spending offer
  refine ⟨?_, ?_⟩ <;> split <;> simp_all [Event.orderFree]

theorem renewed_of_orderFree {e : Event} (he : e.orderFree = true) (older : List Event) :
    Renewed e older := by
  unfold Renewed renewed
  split <;> simp_all [Event.orderFree]

/-- What stores no coins and spends none. -/
theorem CoinsInv.keep {c c' : Core} (hI : CoinsInv c)
    (hreq : ∀ X : OrderId, c'.utxosReq[X]? ≠ none → c.utxosReq[X]? ≠ none)
    (hsaved : ∀ X : OrderId, c'.savedReq[X]? ≠ none → c.savedReq[X]? ≠ none ∨ c.utxosReq[X]? ≠ none)
    (hresp : ∀ X : OrderId, c'.utxosResp[X]? ≠ none → c.utxosResp[X]? ≠ none)
    (hspent : ∀ X, spent X c.log = false → spent X c'.log = false)
    (hoffer : ∀ X, offeredNow X c.log = true → offeredNow X c'.log = true)
    (hhistory : Always Renewed c'.log) : CoinsInv c' := by
  refine ⟨fun X hX => hspent X (hI.req X (hreq X hX)), fun X hX => hspent X ?_,
    fun X hX => hoffer X (hI.resp X (hresp X hX)), hhistory⟩
  rcases hsaved X hX with hX | hX
  · exact hI.saved X hX
  · exact hI.req X hX

theorem CoinsInv.calm {c c' : Core} (hc : OrderCalm c c') (hI : CoinsInv c) : CoinsInv c' := by
  obtain ⟨events, hlog, hfree⟩ := hc.log
  refine hI.keep ?_ ?_ (fun X hX => hc.utxosResp ▸ hX) ?_ ?_ ?_
  · intro X hX
    rcases hc.utxosReq with hsame | hempty
    · exact hsame ▸ hX
    · rw [hempty] at hX
      exact absurd (Map.lookup_empty X) hX
  · intro X hX
    rcases hc.savedReq with hsame | hsame
    · exact .inl (hsame ▸ hX)
    · exact .inr (hsame ▸ hX)
  · intro X hX
    rwa [hlog, spent, latest_append fun e he older => (coinsFree_of_orderFree (hfree e he) X older).1]
  · intro X hX
    rwa [hlog, offeredNow,
      latest_append fun e he older => (coinsFree_of_orderFree (hfree e he) X older).2]
  · rw [hlog]
    exact hI.history.append fun e he older => renewed_of_orderFree (hfree e he) older

/-- Coins that are left after the removal of those of `X`. -/
theorem erase_ne_none {m : Map OrderId StoredUtxo} {X Y : OrderId} (hY : (m.erase X)[Y]? ≠ none) :
    X ≠ Y ∧ m[Y]? ≠ none := by
  rw [Map.lookup_erase] at hY
  by_cases hne : X = Y
  · rw [if_pos hne] at hY
    exact absurd rfl hY
  · rw [if_neg hne] at hY
    exact ⟨hne, hY⟩

theorem insert_ne_none {m : Map OrderId StoredUtxo} {X Y : OrderId} {u : StoredUtxo}
    (hY : (m.insert X u)[Y]? ≠ none) : X = Y ∨ m[Y]? ≠ none := by
  rw [Map.lookup_insert] at hY
  by_cases hX : X = Y
  · exact .inl hX
  · rw [if_neg hX] at hY
    exact .inr hY

theorem CoinsInv.reqTaken {c : Core} {X : OrderId} {utxo : StoredUtxo} (hI : CoinsInv c)
    (hfound : c.utxosReq[X]? = some utxo) :
    CoinsInv ((c.takeReq X true).record (.utxosTaken .requestor X)) := by
  have hleft : ∀ Y : OrderId, (c.utxosReq.erase X)[Y]? ≠ none →
      spent Y (.utxosTaken .requestor X :: c.log) = false := by
    intro Y hY
    obtain ⟨hne, hY⟩ := erase_ne_none hY
    rw [spent_taken_of_ne .requestor c.log hne]
    exact hI.req Y hY
  refine ⟨hleft, hleft, hI.resp, .cons ?_ hI.history⟩
  have hnow : spent X c.log = false := hI.req X (by rw [hfound]; exact Option.some_ne_none _)
  show (!spent X (pastLives c.log) || offeredNow X c.log) = true
  cases hpast : spent X (pastLives c.log) with
  | false => rfl
  | true => exact offeredNow_of_spent c.log hpast hnow

theorem CoinsInv.move {w₀ : World} {msg : Message} {c c' : Core}
    (hsave : ∀ n, h.saveSucceeds n = true) (hm : OrderMove h w₀ msg c c') (hI : CoinsInv c) :
    CoinsInv c' := by
  cases hm
  case reqTaken X saves hok hfound =>
    rw [hok hsave]
    exact hI.reqTaken hfound
  case reqStored s older utxo hlog =>
    refine ⟨?_, hI.saved, hI.resp, hI.history⟩
    intro X hX
    rcases insert_ne_none hX with rfl | hX
    · show spent s.orderId c.log = false
      rw [hlog]
      exact spent_stored s older
    · exact hI.req X hX
  case respStored s older utxo hlog =>
    refine ⟨hI.req, hI.saved, ?_, hI.history⟩
    intro X hX
    rcases insert_ne_none hX with rfl | hX
    · show offeredNow s.orderId c.log = true
      rw [hlog]
      exact offeredNow_stored s older
    · exact hI.resp X hX
  case respTaken X hfound =>
    have hoffered := hI.resp X (by rw [hfound]; exact Option.some_ne_none _)
    refine ⟨hI.req, hI.saved, fun Y hY => hI.resp Y (erase_ne_none hY).2, .cons ?_ hI.history⟩
    show (!spent X (pastLives c.log) || offeredNow X c.log) = true
    rw [hoffered, Bool.or_true]
  case reqErased X habsent =>
    exact ⟨fun Y hY => hI.req Y (erase_ne_none hY).2, hI.saved, hI.resp, hI.history⟩
  case respErased X habsent =>
    exact ⟨hI.req, hI.saved, fun Y hY => hI.resp Y (erase_ne_none hY).2, hI.history⟩
  case submitted =>
    exact hI.keep (fun _ hX => hX) (fun _ hX => .inl hX) (fun _ hX => hX)
      (fun _ hX => spent_stored_of_false _ hX) (fun _ hX => offeredNow_stored_of_true _ hX)
      (.cons rfl hI.history)
  case orderSigned cause m s older side utxos signed hlog hreason =>
    refine ⟨hI.req, hI.saved, hI.resp, .cons ?_ hI.history⟩
    -- what was checked when the coins were taken still holds
    have hhistory := hI.history
    rw [hlog] at hhistory ⊢
    exact (always_cons.mp hhistory).1
  case linkReviewed | addrSent | edited | signQueued | autoSigned | promptShown | signTaken =>
    exact ⟨hI.req, hI.saved, hI.resp, .cons rfl hI.history⟩
  case submitTaken | signRefused | promptDropped | completed | cancelled | restored =>
    exact ⟨hI.req, hI.saved, hI.resp, hI.history⟩

theorem CoinsInv.restart {c : Core} {utxosReq : Map OrderId StoredUtxo} (hI : CoinsInv c)
    (hreq : ∀ X : OrderId, utxosReq[X]? ≠ none → c.savedReq[X]? ≠ none) :
    CoinsInv (c.restart utxosReq) := by
  refine ⟨fun X hX => hI.saved X (hreq X hX), hI.saved, ?_, .cons rfl hI.history⟩
  intro X hX
  exact absurd (Map.lookup_empty X) hX

theorem coinsInvariant (hsave : ∀ n, h.saveSucceeds n = true) :
    CoreInvariant h (fun _ _ => True) CoinsInv :=
  .of_order (fun _ _ hc => CoinsInv.calm hc) (fun _ _ _ _ _ _ hm => CoinsInv.move hsave hm)
    fun _ _ hreq hI => hI.restart hreq

/-- `try_sign` is executed at most once for an order in one life of the process; and if the settings
are always saved, a maker's order whose coins were taken is signed again by a later process only
after the user has accepted it again. -/
theorem signed_once (h : Host) (xs : List (Feed Message)) :
    let log := ((machine h).run (start h) xs).state.log
    Always SignsOnce log ∧ ((∀ n, h.saveSucceeds n = true) → Always Renewed log) := by
  have htrue : (machine h).Along (fun _ _ => True) (start h) xs := Machine.along_true _ _
  refine ⟨?_, fun hsave => ?_⟩
  · have hnew : OnceInv World.new.core := ⟨List.nodup_nil, fun X hX => (by cases hX), .nil⟩
    exact (run_core_invariant onceInvariant hnew htrue).history
  · have hnew : CoinsInv World.new.core :=
      ⟨fun X hX => absurd (Map.lookup_empty X) hX, fun X hX => absurd (Map.lookup_empty X) hX,
        fun X hX => absurd (Map.lookup_empty X) hX, .nil⟩
    exact (run_core_invariant (coinsInvariant hsave) hnew htrue).history

/-! ### A wallet that sells gold -/

namespace Sample

/-- The order of the samples. -/
def order : OrderId := ⟨"order"⟩

/-- Gold is sold for a hundredth of a bitcoin. -/
def details (side : OrderSide) : Details :=
  { asset := gold, bitcoinAmount := 1000000, assetAmount := 1000000, price := F64.lit 1 1
    serverFee := 1000, side := side, sendBitcoins := false, orderType := .bitcoin }

/-- An outside whose server has the order. -/
def orderHost : Host :=
  plainHost (plainServer assets (fun X => .ok ⟨X, details .requestor, false⟩) fun _ => .error "")
    ((∅ : Map AssetId ℤ).insert gold 1000000)
    ((∅ : Map AssetId (List GdkUtxo)).insert gold [⟨⟨"a", 1000000, 0, []⟩, 1⟩])

/-- The wallet is logged in, connected and synchronized. -/
def synced : List (Feed Message) := online ++ [.deliver (.notif (some "sync_complete"))]

/-- The user opens the link of an order. -/
def linkOrder (X : OrderId) : Message := .ui (.linkOrder X)

/-- The user decides about an order. -/
def decision (X : OrderId) (accept autoSign : Bool) : Message :=
  .ui (.submitDecision ⟨X, accept, some autoSign, none, none⟩)

/-- The server asks for the signature of an order. -/
def signRequest (X : OrderId) : Message :=
  .serverNotification (.sign ⟨X, "pset", details .requestor⟩)

/-- An order is accepted, and its signature is asked for. -/
def orderSigned : List (Feed Message) :=
  synced ++ [.deliver (linkOrder order), .deliver (decision order true true),
    .deliver (signRequest order)]

end Sample

open Sample in
theorem signed_once_gold :
    (∀ n, orderHost.saveSucceeds n = true) ∧
      let log := ((machine orderHost).run (start orderHost) orderSigned).state.log
      Always SignsOnce log ∧ Always Renewed log := by
  have hsave : ∀ n, orderHost.saveSucceeds n = true := fun _ => rfl
  have honce := signed_once orderHost orderSigned
  exact And.intro hsave (And.intro honce.1 (honce.2 hsave))

/-- The coins of a maker's order were taken to sign it. -/
def taken (X : OrderId) (log : List Event) : Bool :=
  log.any fun e => match e with
    | .utxosTaken .requestor Y => Y = X
    | _ => false

/-- A maker's order whose coins an earlier process has taken is never signed again. -/
def neverAgain : Event → List Event → Bool
  | .signPsbt (.order _ X) _ _ _ _, older => !taken X (pastLives older)
  | _, _ => true

/-- No order is signed twice. -/
def NeverAgain (e : Event) (older : List Event) : Prop := neverAgain e older = true

instance (e : Event) (older : List Event) : Decidable (NeverAgain e older) :=
  inferInstanceAs (Decidable (neverAgain e older = true))

open Sample in
/-- After a restart the user accepts the same order once more: the wallet signs it a second time. -/
theorem signed_again_when_accepted :
    ¬ ∀ (h : Host) (xs : List (Feed Message)),
      let log := ((machine h).run (start h) xs).state.log
      Always SignsOnce log ∧ ((∀ n, h.saveSucceeds n = true) → Always NeverAgain log) := by
  intro hall
  have hrun := (hall orderHost (orderSigned ++ .restart :: orderSigned)).2 fun _ => rfl
  revert hrun
  decide +kernel

end SideSwap.Client
