import SideSwap.Client.Reviews

/-!
# Prompts for cancelled orders

When the server says that an order is gone, its review or its waiting screen is closed, the next
sign prompt is shown, and only then its terms are removed.  So the next prompt may be one of the
cancelled order itself, if a link to the order was under review while its sign request came.

Once the terms are removed no prompt for the order is shown in any run, until it is submitted again
or its sign request is fetched (`ClosedInv`).  `cancelled_order_unprompted_iff` says when the
handling of the cancellation shows none either.
-/

namespace SideSwap.Client

open Proc

variable {ε : Type} {h : Host}

/-! ### The history after a cancellation -/

/-- A prompt for the order is shown. -/
def Event.prompts (X : OrderId) : Event → Bool
  | .toUi (.submitReview r) => decide (r.step = .sign) && decide (r.orderId = X)
  | _ => false

/-- The order is submitted, or its sign request is fetched. -/
def Event.reopens (X : OrderId) : Event → Bool
  | .stored s => decide (s.orderId = X)
  | .request (.getSign Y) (.ok _) => decide (Y = X)
  | _ => false

/-- The user is told that the order is cancelled. -/
def Event.tellsCancelled : Event → Bool
  | .toUi (.submitResult (.error e)) => decide (e = "Order has been cancelled")
  | _ => false

/-- No prompt for the order is shown before it is opened again.  The newest event comes first. -/
def unprompted (X : OrderId) : List Event → Bool
  | [] => true
  | e :: older => unprompted X older && (!e.prompts X || older.any (Event.reopens X))

theorem unprompted_append {X : OrderId} {events older : List Event} (hold : unprompted X older = true)
    (hfree : ∀ e ∈ events, e.prompts X = false) : unprompted X (events ++ older) = true := by
  induction events with
  | nil => exact hold
  | cons e events ih =>
    have hrest := ih fun e' he' => hfree e' (List.mem_cons_of_mem _ he')
    rw [List.cons_append, unprompted, hrest, hfree e List.mem_cons_self]
    rfl

/-! ### Closed orders -/

/-- Since the cancellation no prompt for the order was shown before it was opened again, and only
then its terms are known. -/
def ClosedInv (X : OrderId) (base : List Event) (c : Core) : Prop :=
  ∃ events, c.log = events ++ base ∧ unprompted X events = true
    ∧ (c.submitData.contains X = true → events.any (Event.reopens X) = true)

namespace ClosedInv

variable {X : OrderId} {base : List Event} {c c' : Core}

/-- What shows no prompt for the order and stores no terms for it. -/
theorem keep (hI : ClosedInv X base c) (events : List Event) (hlog : c'.log = events ++ c.log)
    (hfree : ∀ e ∈ events, e.prompts X = false)
    (hterms : c'.submitData.contains X = true → c.submitData.contains X = true
      ∨ events.any (Event.reopens X) = true) : ClosedInv X base c' := by
  obtain ⟨since, hsince, hun, hknown⟩ := hI
  refine ⟨events ++ since, by rw [hlog, hsince, List.append_assoc], unprompted_append hun hfree, ?_⟩
  intro hX
  rw [List.any_append, Bool.or_eq_true]
  rcases hterms hX with hX | hX
  · exact .inr (hknown hX)
  · exact .inl hX

theorem calm (hc : OrderCalm c c') (hI : ClosedInv X base c) : ClosedInv X base c' := by
  obtain ⟨events, hlog, hfree⟩ := hc.log
  refine hI.keep events hlog (fun e he => ?_) fun hX => .inl (hc.submitData ▸ hX)
  have hevent := hfree e he
  unfold Event.prompts
  split
  · cases hevent
  · rfl

/-- New terms of an order that has some. -/
theorem contains_of_store {Y : OrderId} {s s' : SubmitData} (hs : c.submitData[Y]? = some s)
    (hX : (c.store Y s').submitData.contains X = true) : c.submitData.contains X = true := by
  rw [Core.store, Std.ExtTreeMap.contains_insert, Bool.or_eq_true] at hX
  rcases hX with hX | hX
  · have hsame : Y = X := by simpa using hX
    rw [← hsame, Std.ExtTreeMap.contains_eq_isSome_getElem?, hs]
    rfl
  · exact hX

theorem contains_of_edit {Y : OrderId} {price : F64}
    (hX : (c.edit Y price).submitData.contains X = true) : c.submitData.contains X = true := by
  unfold Core.edit at hX
  cases hs : c.submitData[Y]? with
  | none => simpa [hs] using hX
  | some s =>
    cases hs' : s.edit price with
    | none => simpa [hs, hs'] using hX
    | some s' =>
      have hstored : (c.store Y s').submitData.contains X = true := by
        simpa [hs, hs', Core.store] using hX
      exact contains_of_store hs hstored

/-- A sign request that was fetched in the handling of this message was fetched after the
cancellation. -/
theorem reopened_of_fetched {msg : Message} {older events : List Event}
    (hfetched : Fetched X (events ++ .received msg :: older)) :
    events.any (Event.reopens X) = true := by
  obtain ⟨sign, before, newer, hsplit, hplain⟩ := hfetched
  rw [List.any_eq_true]
  refine ⟨.request (.getSign X) (.ok sign), ?_, by simp [Event.reopens]⟩
  rcases List.append_eq_append_iff.mp hsplit with ⟨mid, hmid, hrest⟩ | ⟨mid, hmid, hrest⟩
  · cases mid with
    | nil => cases hrest
    | cons e mid =>
      obtain ⟨rfl, -⟩ := List.cons.inj hrest
      have hevent := hplain (.received msg) (by rw [hmid]; simp)
      cases hevent
  · cases mid with
    | nil => cases hrest
    | cons e mid =>
      obtain ⟨rfl, -⟩ := List.cons.inj hrest
      rw [hmid]
      simp

/-- A move of orders. -/
theorem move {w₀ : World} {msg cancel : Message} {older : List Event}
    (hm : OrderMove h w₀ msg c c') (hI : ClosedInv X (.received cancel :: older) c) :
    ClosedInv X (.received cancel :: older) c' := by
  cases hm
  case linkReviewed Y resp internal autoSign hlinked =>
    refine hI.keep [_] rfl (fun e he => ?_) .inl
    obtain rfl := List.mem_singleton.mp he
    have hstep : (detailsReview resp.details Y resp.indexPrice internal autoSign).step ≠ .sign := by
      show (if resp.details.side = .requestor then Step.submit else Step.quote) ≠ Step.sign
      split <;> decide
    simp [Event.prompts, hstep]
  -- the terms of the order may be stored again, which is what `reopens` stands for
  case submitted resp r _ precision txouts autoSign _ _ _ _ _ _ =>
    refine hI.keep [_] rfl (by simp [Event.prompts]) fun hX => ?_
    rw [Core.record, Core.store, Std.ExtTreeMap.contains_insert, Bool.or_eq_true] at hX
    rcases hX with hX | hX
    · have hsame : r.orderId = X := by simpa using hX
      exact .inr (by simpa [Event.reopens, LinkResponse.submitData] using hsame)
    · exact .inl hX
  case signQueued m _ hterms _ =>
    exact hI.keep [_] rfl (by simp [Event.prompts]) fun hX => .inl (contains_of_store hterms hX)
  case autoSigned m _ hterms _ _ =>
    exact hI.keep [_] rfl (by simp [Event.prompts]) fun hX => .inl (contains_of_store hterms hX)
  case completed Y txid hterms =>
    exact hI.keep [] rfl (by simp) fun hX => .inl (contains_of_store hterms hX)
  case edited Y price _ _ _ =>
    exact hI.keep [_] rfl (by simp [Event.prompts]) fun hX => .inl (contains_of_edit hX)
  case cancelled Y =>
    refine hI.keep [] rfl (by simp) fun hX => .inl ?_
    exact Std.ExtTreeMap.contains_of_contains_erase hX
  case promptShown m rest s internal _ hterms =>
    obtain ⟨events, hlog, hun, hknown⟩ := hI
    refine ⟨_ :: events, by rw [Core.record, Core.modifyWallet, hlog]; rfl, ?_, ?_⟩
    · rw [unprompted, hun, Bool.true_and, Bool.or_eq_true]
      -- a prompt for the order needs its terms
      by_cases hsame : m.orderId = X
      · refine .inr (hknown ?_)
        rw [← hsame, Std.ExtTreeMap.contains_eq_isSome_getElem?, hterms]
        rfl
      · exact .inl (by simp [Event.prompts, SubmitData.signReview, hsame])
    · exact fun hX => List.any_eq_true.mpr ((List.any_eq_true.mp (hknown hX)).imp fun e he =>
        ⟨List.mem_cons_of_mem _ he.1, he.2⟩)
  -- an order is only restored after the server answered `getSign` for it
  case restored details precision Y _ _ _ hfetched =>
    obtain ⟨events, hlog, hun, hknown⟩ := hI
    refine ⟨events, hlog, hun, fun hX => ?_⟩
    rw [Core.store, Std.ExtTreeMap.contains_insert, Bool.or_eq_true] at hX
    rcases hX with hX | hX
    · have hsame : Y = X := by simpa using hX
      rw [hsame, hlog] at hfetched
      exact reopened_of_fetched hfetched
    · exact hknown hX
  case addrSent | reqTaken | respTaken | signTaken | orderSigned =>
    exact hI.keep [_] rfl (by simp [Event.prompts]) .inl
  case submitTaken | reqStored | respStored | reqErased | respErased | signRefused | promptDropped =>
    exact hI.keep [] rfl (by simp) .inl

/-- An order that is closed stays so. -/
theorem coreInvariant (X : OrderId) (cancel : Message) (older : List Event) :
    CoreInvariant h (fun _ _ => True) (ClosedInv X (.received cancel :: older)) := by
  refine .of_order (fun _ _ hc => calm hc) (fun _ _ _ _ _ _ hm => move hm) ?_
  intro c utxosReq _ hI
  refine hI.keep [.started] rfl (by simp [Event.prompts]) fun hX => ?_
  simp [Core.restart] at hX

end ClosedInv

/-! ### The prompt that is shown next -/

/-- The order of the prompt that is shown next: the first of the queue whose terms are known. -/
def nextPrompt (d : Data) : Option OrderId :=
  if d.ctx.isSome then
    (d.pendingSignPrompts.find? fun m => d.submitData.contains m.orderId).map SignNotification.orderId
  else none

/-- What is shown next has an effect on the slot of the review and on the history: at most a prompt
for the order `next`, and results of other orders. -/
structure ShowsNext (next : Option OrderId) (w w' : World) : Prop where
  terms : w'.data.submitData = w.data.submitData
  visible : w'.data.visibleSubmit = next
  log : ∃ events, w'.log = events ++ w.log
    ∧ (∀ e ∈ events, e.tellsCancelled = false ∧ ∀ X, e.reopens X = false)
    ∧ ∀ X, events.any (Event.prompts X) = decide (next = some X)

/-- One after the other, where the first shows nothing. -/
theorem ShowsNext.trans {next : Option OrderId} {w w' w'' : World} (h₁ : ShowsNext none w w')
    (h₂ : ShowsNext next w' w'') : ShowsNext next w w'' := by
  obtain ⟨events, hlog, hfree, hshown⟩ := h₁.log
  obtain ⟨events', hlog', hfree', hshown'⟩ := h₂.log
  refine ⟨h₂.terms.trans h₁.terms, h₂.visible, events' ++ events, ?_, ?_, ?_⟩
  · rw [hlog', hlog, List.append_assoc]
  · exact List.forall_mem_append.mpr ⟨hfree', hfree⟩
  · intro X
    rw [List.any_append, hshown', hshown]
    simp

/-- Nothing more is shown while a review is. -/
theorem showPrompts_taken (msgs : List SignNotification) (w : World)
    (htaken : w.data.visibleSubmit.isSome = true) :
    (showPrompts msgs : Worker ε Unit) w = .ok () w := by
  cases msgs with
  | nil => rfl
  | cons m rest =>
    rw [showPrompts, getData_bind_apply, if_pos htaken]
    rfl

/-- A known prompt ends the search, and an unknown one is dropped. -/
theorem showPrompts_shows (msgs : List SignNotification) (w : World)
    (hfree : w.data.visibleSubmit = none) :
    ∃ w', (showPrompts msgs : Worker ε Unit) w = .ok () w'
      ∧ ShowsNext ((msgs.find? fun m => w.data.submitData.contains m.orderId).map
        SignNotification.orderId) w w' := by
  induction msgs generalizing w with
  | nil => exact ⟨w, rfl, rfl, hfree, [], rfl, by simp, by simp⟩
  -- the first prompt of the queue is taken from it
  | cons m rest ih =>
    have hsome : ¬ w.data.visibleSubmit.isSome = true := by rw [hfree]; decide
    rw [showPrompts, getData_bind_apply, if_neg hsome, modifyData_bind_apply, List.find?_cons]
    cases hterms : w.data.submitData[m.orderId]? with
    -- its order is not known any more, and the next one is tried
    | none =>
      have hunknown : w.data.submitData.contains m.orderId = false := by
        rw [Std.ExtTreeMap.contains_eq_isSome_getElem?, hterms, Option.isSome_none]
      rw [hunknown]
      obtain ⟨w', hrun, hshows⟩ :=
        ih (w.modifyData fun d => { d with pendingSignPrompts := rest }) hfree
      exact ⟨w', hrun, hshows.terms, hshows.visible, hshows.log⟩
    -- it is shown, and it keeps the others waiting
    | some s =>
      have hknown : w.data.submitData.contains m.orderId = true := by
        rw [Std.ExtTreeMap.contains_eq_isSome_getElem?, hterms, Option.isSome_some]
      rw [hknown]
      refine ⟨_, showPrompts_taken rest _ rfl, rfl, rfl, [_], rfl, ?_, fun X => ?_⟩
      · simp [Event.tellsCancelled, Event.reopens]
      · simp [Event.prompts, SubmitData.signReview]

/-- Results are no reviews. -/
theorem showSucceed_shows (items : List TransItem) (w : World) (hfree : w.data.visibleSubmit = none) :
    ∃ w', (showSucceed items : Worker ε Unit) w = .ok () w' ∧ ShowsNext none w w' := by
  induction items generalizing w with
  | nil => exact ⟨w, rfl, rfl, hfree, [], rfl, by simp, by simp⟩
  | cons item rest ih =>
    have hstep : ShowsNext none w ((w.modifyData fun d => { d with pendingSucceed := rest }).record
        (.toUi (.submitResult (.swapSucceed item)))) :=
      ⟨rfl, hfree, [_], rfl, by simp [Event.tellsCancelled, Event.reopens],
        by simp [Event.prompts]⟩
    obtain ⟨w', hrun, hshows⟩ := ih _ hstep.visible
    exact ⟨w', hrun, hstep.trans hshows⟩

/-- After a review, the next prompt is shown, or the results that have waited. -/
theorem afterReview_shows (w : World) (hfree : w.data.visibleSubmit = none) :
    ∃ w', (afterReview : Worker ε Unit) w = .ok () w' ∧ ShowsNext (nextPrompt w.data) w w' := by
  have hprompts : ∃ w', (processPendingSignPrompts : Worker ε Unit) w = .ok () w'
      ∧ ShowsNext (nextPrompt w.data) w w' := by
    rw [processPendingSignPrompts, getData_bind_apply]
    unfold nextPrompt
    cases w.data.ctx with
    | none => exact ⟨w, rfl, rfl, hfree, [], rfl, by simp, by simp⟩
    | some c => exact showPrompts_shows _ w hfree
  obtain ⟨w₁, hrun, hshows⟩ := hprompts
  rw [afterReview, bind_ok hrun, processPendingSucceed, getData_bind_apply, hshows.visible]
  cases hnext : nextPrompt w.data with
  | some X => exact ⟨w₁, rfl, hnext ▸ hshows⟩
  | none =>
    rw [hnext] at hshows
    obtain ⟨w₂, hrun', hshows'⟩ := showSucceed_shows (ε := ε) w₁.data.pendingSucceed w₁ hshows.visible
    exact ⟨w₂, hrun', hshows.trans hshows'⟩

/-! ### Cancellations -/

/-- The review or the waiting screen of the order is shown. -/
def Data.screenOf (d : Data) (X : OrderId) : Bool :=
  decide (d.visibleSubmit = some X) || (d.visibleSubmit.isNone && decide (d.waitingSubmit = some X))

/-- The server reports that an order was cancelled. -/
def cancelOf (X : OrderId) : Message := .serverNotification (.complete ⟨X, none⟩)

/-- An order has the screen if it is shown, or waited for while nothing is shown. -/
theorem screenOf_iff {d : Data} {X : OrderId} : d.screenOf X = true ↔
    d.visibleSubmit = some X ∨ (d.visibleSubmit = none ∧ d.waitingSubmit = some X) := by
  simp [Data.screenOf]

/-- The handling of a cancellation: the user is told if the screen of the order is shown, and then
the next prompt is shown while the terms of the order are still known. -/
theorem processComplete_cancels (X : OrderId) (w : World) :
    ∃ w', (processComplete ⟨X, none⟩ : Worker ε Unit) w = .ok () w'
      ∧ w'.data.submitData.contains X = false
      ∧ (w'.data.visibleSubmit = some X ↔ w.data.screenOf X = true ∧ nextPrompt w.data = some X)
      ∧ ∃ events, w'.log = events ++ w.log ∧ (∀ e ∈ events, e.reopens X = false)
        ∧ (events.any (Event.prompts X) = true ↔
          w.data.screenOf X = true ∧ nextPrompt w.data = some X)
        ∧ (w.data.screenOf X = true → events.countP Event.tellsCancelled = 1) := by
  have herase : ∀ d : Data, (d.submitData.erase X).contains X = false := by simp
  -- the screen of the order is closed first, and only then are its terms erased
  by_cases hscreen : w.data.screenOf X = true
  · let told := (w.record (.toUi (.submitResult (.error "Order has been cancelled")))).modifyData
      fun d => { d with visibleSubmit := none }
    obtain ⟨w₁, hrun, hshows⟩ := afterReview_shows (ε := ε) told rfl
    have hclose : (closeReview X : Worker ε Unit) w = .ok () w₁ := by
      rw [closeReview, getData_bind_apply, if_pos (screenOf_iff.mp hscreen)]
      exact hrun
    obtain ⟨events, hlog, hfree, hshown⟩ := hshows.log
    refine ⟨w₁.modifyData fun d => { d with submitData := d.submitData.erase X }, ?_, herase _, ?_,
      events ++ [.toUi (.submitResult (.error "Order has been cancelled"))], ?_, ?_, ?_, ?_⟩
    · exact bind_ok hclose
    · show w₁.data.visibleSubmit = some X ↔ _
      rw [hshows.visible]
      exact ⟨fun hnext => ⟨hscreen, hnext⟩, fun hnext => hnext.2⟩
    · show w₁.log = _
      rw [hlog, List.append_assoc]
      rfl
    · intro e he
      rcases List.mem_append.mp he with he | he
      · exact (hfree e he).2 X
      · obtain rfl := List.mem_singleton.mp he
        rfl
    · have hnext : nextPrompt told.data = nextPrompt w.data := rfl
      rw [List.any_append, hshown X, hnext]
      simp [Event.prompts, hscreen]
    · intro _
      have hnone : events.countP Event.tellsCancelled = 0 := by
        rw [List.countP_eq_zero]
        intro e he
        simp [(hfree e he).1]
      rw [List.countP_append, hnone]
      rfl
  · have hother := mt screenOf_iff.mpr hscreen
    have hclose : (closeReview X : Worker ε Unit) w = .ok () w := by
      rw [closeReview, getData_bind_apply, if_neg hother]
      rfl
    refine ⟨w.modifyData fun d => { d with submitData := d.submitData.erase X }, ?_, herase _, ?_,
      [], rfl, by simp, by simp [hscreen], fun hX => absurd hX hscreen⟩
    · exact bind_ok hclose
    · refine ⟨fun hvisible => absurd (.inl hvisible) hother, fun hnext => absurd hnext.1 hscreen⟩

theorem unprompted_iff {X : OrderId} {events : List Event} (hfree : ∀ e ∈ events, e.reopens X = false) :
    unprompted X events = true ↔ ¬ events.any (Event.prompts X) = true := by
  induction events with
  | nil => simp [unprompted]
  | cons e older ih =>
    have hrest : ∀ e ∈ older, e.reopens X = false := fun e' he' =>
      hfree e' (List.mem_cons_of_mem _ he')
    have hnone : older.any (Event.reopens X) = false := by
      rw [List.any_eq_false]
      intro e' he'
      simp [hrest e' he']
    rw [unprompted, hnone, Bool.or_false, Bool.and_eq_true, ih hrest, List.any_cons, Bool.or_eq_true,
      not_or, Bool.not_eq_true', ← Bool.not_eq_true, and_comm]

/-! ### Runs -/

/-- The cancellation of an order after the run `xs`: however the run goes on, no prompt for the
order is shown until it is submitted again or its sign request is fetched; the order is not under
review; and the user is told once if its screen was shown. -/
structure CancelledQuietly (h : Host) (xs : List (Feed Message)) (X : OrderId) : Prop where
  unprompted : ∀ ys, ∃ events,
    ((machine h).run (start h) (xs ++ .deliver (cancelOf X) :: ys)).state.log
        = events ++ .received (cancelOf X) :: ((machine h).run (start h) xs).state.log
      ∧ unprompted X events = true
  hidden : ((machine h).run (start h) (xs ++ [.deliver (cancelOf X)])).state.data.visibleSubmit ≠ some X
  told : ((machine h).run (start h) xs).state.data.screenOf X = true → ∃ events,
    ((machine h).run (start h) (xs ++ [.deliver (cancelOf X)])).state.log
        = events ++ .received (cancelOf X) :: ((machine h).run (start h) xs).state.log
      ∧ events.countP Event.tellsCancelled = 1

/-- An order is cancelled quietly unless its own screen is shown and the next prompt is its own. -/
theorem cancelled_order_unprompted_iff (h : Host) (xs : List (Feed Message)) (X : OrderId)
    (alive : ((machine h).run (start h) xs).alive = true) :
    CancelledQuietly h xs X ↔
      (((machine h).run (start h) xs).state.data.screenOf X = true →
        nextPrompt ((machine h).run (start h) xs).state.data ≠ some X) := by
  set l := (machine h).run (start h) xs with hl
  have hhandle : (machine h).handle (cancelOf X) l.state
      = processComplete ⟨X, none⟩ (l.state.record (.received (cancelOf X))) := rfl
  -- what the notification leaves behind, whatever happened before
  obtain ⟨w', hrun, hgone, hvisible, events, hlog, hfree, hprompted, htold⟩ :=
    processComplete_cancels (ε := Empty) X (l.state.record (.received (cancelOf X)))
  have hfeed : ∀ ys, (machine h).run (start h) (xs ++ .deliver (cancelOf X) :: ys)
      = (machine h).run ⟨w', true⟩ ys := by
    intro ys
    rw [Machine.run_append, ← hl, Machine.run, Machine.feed_deliver _ alive, hhandle, hrun]
    rfl
  -- a prompt that is shown again is the next one, which the condition excludes
  constructor
  · intro hquiet hscreen hnext
    refine hquiet.hidden ?_
    rw [hfeed]
    exact hvisible.mpr ⟨hscreen, hnext⟩
  · -- conversely, with no such prompt the review is closed and the user is told
    intro hcond
    have hnot : ¬ (l.state.data.screenOf X = true ∧ nextPrompt l.state.data = some X) :=
      fun hboth => hcond hboth.1 hboth.2
    refine ⟨fun ys => ?_, ?_, fun hscreen => ?_⟩
    · rw [hfeed]
      -- no terms are left from which a later prompt could be shown
      have hclosed : ClosedInv X (.received (cancelOf X) :: l.state.log) w'.core := by
        refine ⟨events, hlog, (unprompted_iff hfree).mpr (mt hprompted.mp hnot), fun hX => ?_⟩
        rw [show w'.core.submitData = w'.data.submitData from rfl, hgone] at hX
        cases hX
      obtain ⟨later, hlater, hun, -⟩ := run_core_invariant_from (l := ⟨w', true⟩)
        (ClosedInv.coreInvariant X (cancelOf X) l.state.log) hclosed (Machine.along_true _ ys)
      exact ⟨later, hlater, hun⟩
    · rw [hfeed]
      exact mt hvisible.mp hnot
    · rw [hfeed]
      exact ⟨events, hlog, htold hscreen⟩

namespace Sample

/-- The link of the accepted order is opened once more before its signature is asked for. -/
def linkReopened : List (Feed Message) :=
  synced ++ [.deliver (linkOrder order), .deliver (decision order true false),
    .deliver (linkOrder order), .deliver (signRequest order)]

end Sample

open Sample in
/-- The prompt of the order is closed when it is cancelled, and no other follows. -/
theorem cancelled_order_unprompted_gold :
    ((machine orderHost).run (start orderHost) prompted).state.data.screenOf order = true ∧
      CancelledQuietly orderHost prompted order := by
  have halive : ((machine orderHost).run (start orderHost) prompted).alive = true := by
    decide +kernel
  have hnext : nextPrompt ((machine orderHost).run (start orderHost) prompted).state.data
      ≠ some order := by
    decide +kernel
  exact ⟨by decide +kernel,
    (cancelled_order_unprompted_iff orderHost prompted order halive).mpr fun _ => hnext⟩

open Sample in
/-- The link of the order is under review while its prompt waits: the cancellation closes the review
and shows the prompt. -/
theorem cancelled_order_prompted :
    ¬ ∀ (h : Host) (xs : List (Feed Message)) (X : OrderId),
      ((machine h).run (start h) xs).alive = true → CancelledQuietly h xs X := by
  intro hall
  have hhidden := (hall orderHost linkReopened order (by decide +kernel)).hidden
  revert hhidden
  decide +kernel

end SideSwap.Client
