import SideSwap.Client.Reviews

/-!
# What becomes of sign prompts

A sign request that the user has to agree to waits in a queue, is shown as a prompt, and is answered
by a decision or dropped when its order is cancelled.  The prompt shares the slot of the review that
is shown with the reviews of links, but a link does not look whether the slot is in use.

`ledger` is what the history says about the prompts, and `PromptKept` says which events leave a
prompt on the screen alone.  In a process in which all events do, every queued sign request is in
exactly one of the four situations (`prompts_tracked`).  The invariant is `PromptInv`.
-/

namespace SideSwap.Client

open Proc History

variable {ε : Type} {h : Host}

/-! ### The ledger of the prompts -/

/-- What the history of a process says about its sign prompts. -/
structure Ledger where
  /-- the sign requests that were queued for the user -/
  queued : List SignNotification
  /-- the orders whose prompt was shown -/
  shown : List OrderId
  /-- the orders whose prompt was shown and decided about since -/
  answered : List OrderId
  /-- the orders that were cancelled, those with a sign request after it was queued -/
  cancelled : List OrderId
  /-- the order whose prompt is on the screen -/
  prompt : Option OrderId
  /-- the order of the prompt that was shown last and not accepted -/
  sign : Option OrderId

namespace Ledger

/-- Nothing waits. -/
def empty : Ledger :=
  { queued := [], shown := [], answered := [], cancelled := [], prompt := none, sign := none }

/-- A sign request is queued. -/
def queue (l : Ledger) (m : SignNotification) : Ledger :=
  { l with
    queued := m :: l.queued
    cancelled := l.cancelled.filter fun X => decide (X ≠ m.orderId) }

/-- A review is shown. -/
def review (l : Ledger) (r : SubmitReview) : Ledger :=
  match r.step with
  | .sign =>
    { l with shown := r.orderId :: l.shown, prompt := some r.orderId, sign := some r.orderId }
  | .submit | .quote => { l with prompt := none }

/-- The user decides. -/
def decision (l : Ledger) (req : SubmitDecision) : Ledger :=
  { l with
    answered := if req.orderId ∈ l.shown then req.orderId :: l.answered else l.answered
    prompt := none
    sign := if req.accept then l.sign.filter fun X => decide (X ≠ req.orderId) else l.sign }

/-- An order is cancelled. -/
def cancel (l : Ledger) (X : OrderId) : Ledger :=
  { l with
    cancelled := X :: l.cancelled
    prompt := l.prompt.filter fun Y => decide (Y ≠ X) }

/-- What an event adds to the ledger. -/
def note (l : Ledger) : Event → Ledger
  | .started => empty
  | .prompted m => l.queue m
  | .toUi (.submitReview r) => l.review r
  | .received (.ui (.submitDecision req)) => l.decision req
  | .received (.serverNotification (.complete ⟨X, none⟩)) => l.cancel X
  | .received (.ui (.login ..)) | .received (.ui .logout) => { l with prompt := none, sign := none }
  | _ => l

end Ledger

/-- The ledger after a history. -/
def ledger : List Event → Ledger
  | [] => .empty
  | e :: older => (ledger older).note e

/-- The events that the ledger takes note of. -/
def Event.noted : Event → Bool
  | .started | .prompted _ | .toUi (.submitReview _) | .received _ => true
  | _ => false

theorem ledger_cons {e : Event} (he : e.noted = false) (older : List Event) :
    ledger (e :: older) = ledger older := by
  rw [ledger, Ledger.note.eq_def]
  split <;> simp_all [Event.noted]

theorem ledger_append {events older : List Event} (hfree : ∀ e ∈ events, e.noted = false) :
    ledger (events ++ older) = ledger older := by
  induction events with
  | nil => rfl
  | cons e events ih =>
    rw [List.cons_append, ledger_cons (hfree e List.mem_cons_self)]
    exact ih fun e' he' => hfree e' (List.mem_cons_of_mem _ he')

/-! ### The situations of a sign request -/

/-- The sign request that is or was shown last. -/
def World.activeSign (w : World) : Option SignNotification := w.data.ctx.bind Context.activeSign

/-- The sign request is shown. -/
def World.shows (w : World) (m : SignNotification) : Bool :=
  decide (w.data.visibleSubmit = some m.orderId) && decide (w.activeSign = some m)

/-- The situations of a sign request: it is queued, it is shown, it is answered, or it is gone since
its order was cancelled. -/
def situations (w : World) (m : SignNotification) : List Bool :=
  let queued := decide (m ∈ w.data.pendingSignPrompts)
  let visible := w.shows m
  let answered := decide (m.orderId ∈ (ledger w.log).answered)
  let cancelled := decide (m.orderId ∈ (ledger w.log).cancelled)
  [queued, visible, answered, cancelled && !queued && !visible && !answered]

/-- Every sign request that was queued is in exactly one situation. -/
def PromptsTracked (w : World) : Prop :=
  ∀ m ∈ (ledger w.log).queued, (situations w m).count true = 1

instance (w : World) : Decidable (PromptsTracked w) :=
  inferInstanceAs (Decidable (∀ m ∈ _, _))

/-- While a prompt is on the screen the server answers no link request with terms, the user decides
about the order of the prompt only, and there is neither a login nor a logout.  The order of a
rejected prompt is not linked again. -/
def keepsPrompt (l : Ledger) : Event → Bool
  | .request (.link X) (.ok _) => l.prompt.isNone && decide (l.sign ≠ some X)
  | .received (.ui (.submitDecision req)) => l.prompt.all fun X => decide (X = req.orderId)
  | .received (.ui (.login ..)) | .received (.ui .logout) => l.prompt.isNone
  | _ => true

/-- The event does to the prompts what the ledger says. -/
def PromptKept (e : Event) (older : List Event) : Prop := keepsPrompt (ledger older) e = true

instance (e : Event) (older : List Event) : Decidable (PromptKept e older) :=
  inferInstanceAs (Decidable (_ = true))

/-! ### An order is queued once -/

/-- The events that the list of queued sign requests depends on. -/
def Event.queues : Event → Bool
  | .started | .prompted _ => true
  | _ => false

theorem Ledger.review_queued (l : Ledger) (r : SubmitReview) : (l.review r).queued = l.queued := by
  unfold Ledger.review
  split <;> rfl

theorem queued_append {events older : List Event} (hfree : ∀ e ∈ events, e.queues = false) :
    (ledger (events ++ older)).queued = (ledger older).queued := by
  induction events with
  | nil => rfl
  | cons e events ih =>
    refine .trans ?_ (ih fun e' he' => hfree e' (List.mem_cons_of_mem _ he'))
    have he := hfree e List.mem_cons_self
    show ((ledger (events ++ older)).note e).queued = _
    unfold Ledger.note
    split <;> first | rfl | exact Ledger.review_queued _ _ | cases he

/-- The sign requests that are queued are about different orders. -/
def QueuedOnce (e : Event) (older : List Event) : Prop :=
  ∀ m, e = .prompted m → ∀ m' ∈ (ledger older).queued, m'.orderId ≠ m.orderId

/-- The queue of the worker is the queue of the ledger. -/
structure QueuedInv (c : Core) : Prop where
  processed : ∀ m ∈ (ledger c.log).queued, m.orderId ∈ c.processedSigns
  history : Always QueuedOnce c.log

theorem QueuedInv.keep {c c' : Core} (hI : QueuedInv c) (events : List Event)
    (hlog : c'.log = events ++ c.log) (hfree : ∀ e ∈ events, e.queues = false)
    (hprocessed : c.processedSigns ⊆ c'.processedSigns) : QueuedInv c' := by
  constructor
  · rw [hlog, queued_append hfree]
    exact fun m hm => hprocessed (hI.processed m hm)
  · rw [hlog]
    refine hI.history.append fun e he older m heq => ?_
    rw [heq] at he
    cases hfree _ he

theorem Event.queues_of_orderFree {e : Event} (he : e.orderFree = true) : e.queues = false := by
  unfold Event.queues
  split <;> simp_all [Event.orderFree]

theorem QueuedInv.calm {c c' : Core} (hc : OrderCalm c c') (hI : QueuedInv c) : QueuedInv c' := by
  obtain ⟨events, hlog, hfree⟩ := hc.log
  exact hI.keep events hlog (fun e he => Event.queues_of_orderFree (hfree e he))
    (Finset.subset_of_eq hc.processedSigns.symm)

theorem QueuedInv.move {w₀ : World} {msg : Message} {c c' : Core}
    (hm : OrderMove h w₀ msg c c') (hI : QueuedInv c) : QueuedInv c' := by
  cases hm
  case signQueued m hnew _ _ =>
    constructor
    · intro m' hm'
      rcases List.mem_cons.mp hm' with rfl | hm'
      · exact Finset.mem_insert_self _ _
      · exact Finset.mem_insert_of_mem (hI.processed m' hm')
    · refine .cons ?_ hI.history
      rintro _ heq m' hm' hsame
      cases heq
      exact hnew (hsame ▸ hI.processed m' hm')
  case signRefused => exact hI.keep [] rfl (by simp) (Finset.subset_insert _ _)
  case autoSigned => exact hI.keep [_] rfl (by simp [Event.queues]) (Finset.subset_insert _ _)
  case linkReviewed | addrSent | submitted | edited | reqTaken | respTaken | orderSigned | promptShown
      | signTaken =>
    exact hI.keep [_] rfl (by simp [Event.queues]) (Finset.Subset.refl _)
  case submitTaken | reqStored | respStored | reqErased | respErased | promptDropped | completed
      | cancelled | restored =>
    exact hI.keep [] rfl (by simp) (Finset.Subset.refl _)

theorem queuedInvariant : CoreInvariant h (fun _ _ => True) QueuedInv := by
  refine .of_order (fun _ _ hc => QueuedInv.calm hc) (fun _ _ _ _ _ _ hm => QueuedInv.move hm) ?_
  intro c utxosReq _ hI
  refine ⟨fun m hm => (by cases hm), .cons ?_ hI.history⟩
  intro m heq
  cases heq

/-! ### The invariant -/

/-- What the invariant is about: the ledger, the queue, the slots, and the orders whose terms are
stored. -/
structure PromptView where
  ledger : Ledger
  queue : List SignNotification
  visible : Option OrderId
  sign : Option SignNotification
  known : OrderId → Bool

/-- What the prompts depend on. -/
def World.promptView (w : World) : PromptView :=
  { ledger := ledger w.log, queue := w.data.pendingSignPrompts, visible := w.data.visibleSubmit
    sign := w.activeSign, known := fun X => w.data.submitData.contains X }

/-- The worker's queue, display and terms agree with the ledger. -/
structure PromptInv (v : PromptView) : Prop where
  queued : ∀ m ∈ v.queue, m ∈ v.ledger.queued ∧ m.orderId ∉ v.ledger.shown
  nodup : (v.queue.map SignNotification.orderId).Nodup
  known : ∀ m ∈ v.queue, v.known m.orderId = true ∨ m.orderId ∈ v.ledger.cancelled
  unique : ∀ m ∈ v.ledger.queued, ∀ m' ∈ v.ledger.queued, m.orderId = m'.orderId → m = m'
  shown : ∀ X ∈ v.ledger.shown, ∃ m ∈ v.ledger.queued, m.orderId = X
  answered : ∀ X ∈ v.ledger.answered, X ∈ v.ledger.shown
  active : ∀ m, v.sign = some m → m ∈ v.ledger.queued ∧ m.orderId ∈ v.ledger.shown
  -- the ledger knows the slots
  sign : v.ledger.sign = v.sign.map SignNotification.orderId
  prompt : ∀ X, v.ledger.prompt = some X ↔ v.ledger.sign = some X ∧ v.visible = some X
  unanswered : ∀ X, v.ledger.prompt = some X → X ∉ v.ledger.answered
  tracked : ∀ m ∈ v.ledger.queued, m ∈ v.queue ∨ v.ledger.prompt = some m.orderId
    ∨ m.orderId ∈ v.ledger.answered ∨ m.orderId ∈ v.ledger.cancelled

namespace PromptInv

variable {v : PromptView}

theorem empty {known : OrderId → Bool} :
    PromptInv { ledger := .empty, queue := [], visible := none, sign := none, known := known } := by
  constructor <;> simp [Ledger.empty]

/-- More terms are stored. -/
theorem learn (hv : PromptInv v) {known : OrderId → Bool}
    (hknown : ∀ X, v.known X = true → known X = true) : PromptInv { v with known := known } :=
  { hv with known := fun m hm => (hv.known m hm).imp_left (hknown m.orderId) }

/-- The terms of a cancelled order are forgotten. -/
theorem forget (hv : PromptInv v) {X : OrderId} (hX : X ∈ v.ledger.cancelled)
    {known : OrderId → Bool} (hknown : ∀ Y, Y ≠ X → known Y = v.known Y) :
    PromptInv { v with known := known } := by
  refine { hv with known := fun m hm => ?_ }
  by_cases hm' : m.orderId = X
  · exact .inr (hm' ▸ hX)
  · show known m.orderId = true ∨ _
    rw [hknown m.orderId hm']
    exact hv.known m hm

theorem queue (hv : PromptInv v) {m : SignNotification} (hknown : v.known m.orderId = true)
    (hnew : ∀ m' ∈ v.ledger.queued, m'.orderId ≠ m.orderId) :
    PromptInv { v with ledger := v.ledger.queue m, queue := v.queue ++ [m] } := by
  -- no notification for the order is queued, so no prompt for it was shown
  have hshown : m.orderId ∉ v.ledger.shown := by
    intro hm
    obtain ⟨m', hm', hsame⟩ := hv.shown _ hm
    exact hnew m' hm' hsame
  have hother : ∀ m' ∈ v.ledger.queued, m'.orderId ∈ v.ledger.cancelled →
      m'.orderId ∈ (v.ledger.queue m).cancelled := by
    intro m' hm' hX
    exact List.mem_filter.mpr ⟨hX, decide_eq_true (hnew m' hm')⟩
  refine { hv with
    queued := ?_, nodup := ?_, known := ?_, unique := ?_, shown := ?_, active := ?_
    tracked := ?_ }
  · intro m' hm'
    rcases List.mem_append.mp hm' with hm' | hm'
    · exact ⟨List.mem_cons_of_mem _ (hv.queued m' hm').1, (hv.queued m' hm').2⟩
    · obtain rfl := List.mem_singleton.mp hm'
      exact ⟨List.mem_cons_self, hshown⟩
  · rw [List.map_append]
    refine List.nodup_append.mpr ⟨hv.nodup, List.nodup_singleton _, ?_⟩
    intro X hX Y hY hsame
    obtain ⟨m', hm', rfl⟩ := List.mem_map.mp hX
    obtain rfl := List.mem_singleton.mp hY
    exact hnew m' (hv.queued m' hm').1 hsame
  · intro m' hm'
    rcases List.mem_append.mp hm' with hm' | hm'
    · exact (hv.known m' hm').imp_right (hother m' (hv.queued m' hm').1)
    · obtain rfl := List.mem_singleton.mp hm'
      exact .inl hknown
  · intro a ha b hb hsame
    rcases List.mem_cons.mp ha with hfirst | hold
    · rcases List.mem_cons.mp hb with hfirst' | hold'
      · exact hfirst.trans hfirst'.symm
      · exact absurd (hfirst ▸ hsame.symm) (hnew b hold')
    · rcases List.mem_cons.mp hb with hfirst' | hold'
      · exact absurd (hfirst' ▸ hsame) (hnew a hold)
      · exact hv.unique a hold b hold' hsame
  · intro X hX
    obtain ⟨m', hm', rfl⟩ := hv.shown X hX
    exact ⟨m', List.mem_cons_of_mem _ hm', rfl⟩
  · intro m' hm'
    exact ⟨List.mem_cons_of_mem _ (hv.active m' hm').1, (hv.active m' hm').2⟩
  · intro m' hm'
    rcases List.mem_cons.mp hm' with rfl | hm'
    · exact .inl (List.mem_append_right _ List.mem_cons_self)
    · rcases hv.tracked m' hm' with hq | hp | ha | hc
      · exact .inl (List.mem_append_left _ hq)
      · exact .inr (.inl hp)
      · exact .inr (.inr (.inl ha))
      · exact .inr (.inr (.inr (hother m' hm' hc)))

theorem drop (hv : PromptInv v) {m : SignNotification} {rest : List SignNotification}
    (hqueue : v.queue = m :: rest) (hgone : v.known m.orderId = false) :
    PromptInv { v with queue := rest } := by
  have hmem : m ∈ v.queue := hqueue ▸ List.mem_cons_self
  have hrest : ∀ m' ∈ rest, m' ∈ v.queue := fun m' hm' => hqueue ▸ List.mem_cons_of_mem _ hm'
  have hcancelled : m.orderId ∈ v.ledger.cancelled :=
    (hv.known m hmem).resolve_left (by rw [hgone]; exact Bool.false_ne_true)
  refine { hv with queued := ?_, nodup := ?_, known := ?_, tracked := ?_ }
  · exact fun m' hm' => hv.queued m' (hrest m' hm')
  · have hnodup := hv.nodup
    rw [hqueue, List.map_cons] at hnodup
    exact hnodup.of_cons
  · exact fun m' hm' => hv.known m' (hrest m' hm')
  · intro m' hm'
    rcases hv.tracked m' hm' with hq | hother
    · rw [hqueue] at hq
      rcases List.mem_cons.mp hq with rfl | hq
      · exact .inr (.inr (.inr hcancelled))
      · exact .inl hq
    · exact .inr hother

theorem show_ (hv : PromptInv v) {m : SignNotification} {rest : List SignNotification}
    {r : SubmitReview} (hqueue : v.queue = m :: rest) (hfree : v.visible = none)
    (hstep : r.step = .sign) (horder : r.orderId = m.orderId) :
    PromptInv { v with
      ledger := v.ledger.review r, queue := rest, visible := some m.orderId, sign := some m } := by
  have hmem : m ∈ v.queue := hqueue ▸ List.mem_cons_self
  -- the prompt is the first of the queue
  have hrest : ∀ m' ∈ rest, m' ∈ v.queue := fun m' hm' => hqueue ▸ List.mem_cons_of_mem _ hm'
  obtain ⟨hm, hnew⟩ := hv.queued m hmem
  -- the review is entered as shown, and as the one on the screen
  have hledger : v.ledger.review r = { v.ledger with
      shown := m.orderId :: v.ledger.shown, prompt := some m.orderId, sign := some m.orderId } := by
    simp only [Ledger.review, hstep, horder]
  have hnodup := hv.nodup
  rw [hqueue, List.map_cons, List.nodup_cons] at hnodup
  -- no other prompt is on the screen
  have hclosed : v.ledger.prompt = none := by
    refine Option.eq_none_iff_forall_ne_some.mpr fun X hX => ?_
    rw [((hv.prompt X).mp hX).2] at hfree
    cases hfree
  rw [hledger]
  refine { hv with
    queued := ?_, nodup := hnodup.2, known := ?_, shown := ?_, answered := ?_, active := ?_
    sign := rfl, prompt := ?_, unanswered := ?_, tracked := ?_ }
  · -- the prompts that wait are those of before without this one
    intro m' hm'
    refine ⟨(hv.queued m' (hrest m' hm')).1, fun hX => ?_⟩
    rcases List.mem_cons.mp hX with hsame | hX
    · exact hnodup.1 (hsame ▸ List.mem_map_of_mem hm')
    · exact (hv.queued m' (hrest m' hm')).2 hX
  · exact fun m' hm' => hv.known m' (hrest m' hm')
  · intro X hX
    rcases List.mem_cons.mp hX with rfl | hX
    · exact ⟨m, hm, rfl⟩
    · exact hv.shown X hX
  · exact fun X hX => List.mem_cons_of_mem _ (hv.answered X hX)
  · intro m' hm'
    cases hm'
    exact ⟨hm, List.mem_cons_self⟩
  · exact fun X => (and_self_iff).symm
  · intro X hX hanswered
    cases hX
    exact hnew (hv.answered _ hanswered)
  · -- a prompt that waited waits still, or it is the one that is shown now
    intro m' hm'
    rcases hv.tracked m' hm' with hq | hp | hother
    · rw [hqueue] at hq
      rcases List.mem_cons.mp hq with rfl | hq
      · exact .inr (.inl rfl)
      · exact .inl hq
    · rw [hclosed] at hp
      cases hp
    · exact .inr (.inr hother)

theorem link (hv : PromptInv v) {X : OrderId} (hclosed : v.ledger.prompt = none)
    (hother : v.ledger.sign ≠ some X) {r : SubmitReview} (hstep : r.step ≠ .sign) :
    PromptInv { v with ledger := v.ledger.review r, visible := some X } := by
  have hledger : v.ledger.review r = v.ledger := by
    have hsame : v.ledger.review r = { v.ledger with prompt := none } := by
      unfold Ledger.review
      split
      · rename_i hsign
        exact absurd hsign hstep
      · rfl
      · rfl
    rw [hsame, ← hclosed]
  rw [hledger]
  refine { hv with prompt := fun Y => ?_ }
  rw [hclosed]
  refine ⟨fun hY => (by cases hY), fun hY => ?_⟩
  obtain ⟨hsign, hvisible⟩ := hY
  cases hvisible
  exact absurd hsign hother

/-- A decision closes the review. -/
theorem decision (hv : PromptInv v) (req : SubmitDecision)
    (habout : ∀ X, v.ledger.prompt = some X → X = req.orderId) {sign : Option SignNotification}
    (hsign : sign = if req.accept then v.sign.filter fun m => decide (m.orderId ≠ req.orderId) else v.sign) :
    PromptInv { v with ledger := v.ledger.decision req, visible := none, sign := sign } := by
  -- an acceptance takes the sign request out of its slot
  have hsub : ∀ m, sign = some m → v.sign = some m := by
    intro m hm
    rw [hsign] at hm
    split at hm
    · exact (Option.filter_eq_some_iff.mp hm).1
    · exact hm
  refine { hv with
    answered := ?_, active := fun m hm => hv.active m (hsub m hm), sign := ?_, prompt := ?_
    unanswered := ?_, tracked := ?_ }
  · -- what is answered now has been shown
    intro X hX
    simp only [Ledger.decision] at hX ⊢
    split at hX
    · rename_i hshown
      rcases List.mem_cons.mp hX with rfl | hX
      · exact hshown
      · exact hv.answered X hX
    · exact hv.answered X hX
  · -- the slot of the ledger changes like that of the wallet
    simp only [Ledger.decision, hsign, hv.sign]
    split
    · rw [Option.filter_map]
      rfl
    · rfl
  · exact fun X => ⟨fun hX => (by cases hX), fun hX => (by cases hX.2)⟩
  · intro X hX
    cases hX
  · intro m hm
    rcases hv.tracked m hm with hq | hp | ha | hc
    · exact .inl hq
    · -- the prompt that was on the screen is the one that is answered
      have horder := habout _ hp
      have hshown : m.orderId ∈ v.ledger.shown := by
        obtain ⟨m', hm', hsame⟩ := Option.map_eq_some_iff.mp (hv.sign ▸ ((hv.prompt _).mp hp).1)
        exact hsame ▸ (hv.active m' hm').2
      refine .inr (.inr (.inl ?_))
      simp only [Ledger.decision]
      rw [if_pos (horder ▸ hshown), horder]
      exact List.mem_cons_self
    · -- what was answered or cancelled before is so still
      refine .inr (.inr (.inl ?_))
      simp only [Ledger.decision]
      split
      · exact List.mem_cons_of_mem _ ha
      · exact ha
    · exact .inr (.inr (.inr hc))

/-- A cancellation closes the review of the order. -/
theorem cancel (hv : PromptInv v) (X : OrderId) {visible : Option OrderId}
    (hvisible : ∀ Y, visible = some Y ↔ v.visible = some Y ∧ Y ≠ X) :
    PromptInv { v with ledger := v.ledger.cancel X, visible := visible } := by
  have hprompt : ∀ Y, (v.ledger.cancel X).prompt = some Y ↔ v.ledger.prompt = some Y ∧ Y ≠ X := by
    intro Y
    rw [Ledger.cancel, Option.filter_eq_some_iff, decide_eq_true_eq]
  refine { hv with known := ?_, prompt := ?_, unanswered := ?_, tracked := ?_ }
  · exact fun m hm => (hv.known m hm).imp_right (List.mem_cons_of_mem _)
  · intro Y
    rw [hprompt, hv.prompt, hvisible, and_assoc]
    rfl
  · exact fun Y hY => hv.unanswered Y ((hprompt Y).mp hY).1
  · intro m hm
    rcases hv.tracked m hm with hq | hp | ha | hc
    · exact .inl hq
    · by_cases hX : m.orderId = X
      · exact .inr (.inr (.inr (hX ▸ List.mem_cons_self)))
      · exact .inr (.inl ((hprompt _).mpr ⟨hp, hX⟩))
    · exact .inr (.inr (.inl ha))
    · exact .inr (.inr (.inr (List.mem_cons_of_mem _ hc)))

/-- A login and a logout forget the prompt that was shown last. -/
theorem reset (hv : PromptInv v) (hclosed : v.ledger.prompt = none) :
    PromptInv { v with ledger := { v.ledger with prompt := none, sign := none }, sign := none } := by
  refine { hv with active := ?_, sign := rfl, prompt := ?_, unanswered := ?_, tracked := ?_ }
  · intro m hm
    cases hm
  · exact fun X => ⟨fun hX => (by cases hX), fun hX => (by cases hX.1)⟩
  · intro X hX
    cases hX
  · intro m hm
    have htracked := hv.tracked m hm
    rwa [hclosed] at htracked

/-- The sign request that is shown is the one that is on the screen. -/
theorem prompt_iff (hv : PromptInv v) {m : SignNotification} (hm : m ∈ v.ledger.queued) :
    v.ledger.prompt = some m.orderId ↔ v.visible = some m.orderId ∧ v.sign = some m := by
  rw [hv.prompt, hv.sign]
  constructor
  · rintro ⟨hsign, hvisible⟩
    obtain ⟨m', hm', hsame⟩ := Option.map_eq_some_iff.mp hsign
    exact ⟨hvisible, hv.unique m' (hv.active m' hm').1 m hm hsame ▸ hm'⟩
  · rintro ⟨hvisible, hsign⟩
    rw [hsign]
    exact ⟨rfl, hvisible⟩

end PromptInv

/-- The invariant gives the situations. -/
theorem PromptInv.situations {w : World} (hw : PromptInv w.promptView) : PromptsTracked w := by
  intro m hm
  -- for a prompt that is known, the screen shows it if and only if the ledger says so
  have hshows : w.shows m = true ↔ (ledger w.log).prompt = some m.orderId := by
    rw [World.shows, Bool.and_eq_true, decide_eq_true_eq, decide_eq_true_eq]
    exact (hw.prompt_iff hm).symm
  have hqueued : m ∈ w.data.pendingSignPrompts → m.orderId ∉ (ledger w.log).shown :=
    fun hq => (hw.queued m hq).2
  have hshown : w.shows m = true → m.orderId ∈ (ledger w.log).shown := by
    intro hs
    rw [World.shows, Bool.and_eq_true, decide_eq_true_eq, decide_eq_true_eq] at hs
    exact (hw.active m hs.2).2
  have hanswered : m.orderId ∈ (ledger w.log).answered → m.orderId ∈ (ledger w.log).shown :=
    hw.answered m.orderId
  have hunanswered : w.shows m = true → m.orderId ∉ (ledger w.log).answered :=
    fun hs => hw.unanswered _ (hshows.mp hs)
  have htracked := hw.tracked m hm
  simp only [Client.situations]
  -- the four situations exclude each other
  by_cases hq : m ∈ w.data.pendingSignPrompts
  · have hs : w.shows m = false := Bool.eq_false_iff.mpr fun hs => hqueued hq (hshown hs)
    have ha : m.orderId ∉ (ledger w.log).answered := fun ha => hqueued hq (hanswered ha)
    simp [hq, hs, ha]
  · -- one that does not wait is on the screen, or answered, or cancelled
    cases hs : w.shows m with
    | true => simp [hq, hunanswered hs]
    | false =>
      by_cases ha : m.orderId ∈ (ledger w.log).answered
      · simp [hq, ha]
      · have hp : (ledger w.log).prompt ≠ some m.orderId := by
          intro hp
          rw [hshows.mpr hp] at hs
          cases hs
        have hc := ((htracked.resolve_left hq).resolve_left hp).resolve_left ha
        have hc : m.orderId ∈ (ledger w.log).cancelled := hc
        simp [hq, ha, hc]

/-! ### Steps that do not concern prompts -/

/-- Storing terms forgets no order. -/
theorem contains_insert_of_contains (m : Map OrderId SubmitData) (X Y : OrderId) (s : SubmitData)
    (hY : m.contains Y = true) : (m.insert X s).contains Y = true := by
  rw [Std.ExtTreeMap.contains_insert, hY, Bool.or_true]

/-- Nothing that the prompts depend on changes. -/
structure PromptFrame (w w' : World) : Prop where
  queue : w'.data.pendingSignPrompts = w.data.pendingSignPrompts
  visible : w'.data.visibleSubmit = w.data.visibleSubmit
  sign : w'.activeSign = w.activeSign
  known : ∀ X, w.data.submitData.contains X = true → w'.data.submitData.contains X = true
  log : ∃ events, w'.log = events ++ w.log ∧ ∀ e ∈ events, e.noted = false

namespace PromptFrame

variable {w w' w'' : World}

theorem refl (w : World) : PromptFrame w w :=
  ⟨rfl, rfl, rfl, fun _ hX => hX, [], rfl, by simp⟩

theorem trans (h₁ : PromptFrame w w') (h₂ : PromptFrame w' w'') : PromptFrame w w'' := by
  exact ⟨h₂.queue.trans h₁.queue, h₂.visible.trans h₁.visible, h₂.sign.trans h₁.sign,
    fun X hX => h₂.known X (h₁.known X hX), grown_trans h₁.log h₂.log⟩

theorem of_chain (hchain : Relation.ReflTransGen PromptFrame w w') : PromptFrame w w' := by
  induction hchain with
  | refl => exact refl _
  | tail _ hlast ih => exact ih.trans hlast

/-- The data of prompts and the wallet are unchanged. -/
theorem of_data (hqueue : w'.data.pendingSignPrompts = w.data.pendingSignPrompts)
    (hvisible : w'.data.visibleSubmit = w.data.visibleSubmit) (hctx : w'.data.ctx = w.data.ctx)
    (hknown : ∀ X, w.data.submitData.contains X = true → w'.data.submitData.contains X = true)
    (hlog : ∃ events, w'.log = events ++ w.log ∧ ∀ e ∈ events, e.noted = false) :
    PromptFrame w w' :=
  ⟨hqueue, hvisible, by rw [World.activeSign, World.activeSign, hctx], hknown, hlog⟩

theorem of_record {e : Event} (hdata : w'.data = w.data) (hlog : w'.log = e :: w.log)
    (he : e.noted = false) : PromptFrame w w' := by
  refine of_data ?_ ?_ ?_ ?_ ⟨[e], hlog, by simpa using he⟩ <;> rw [hdata]
  exact fun _ hX => hX

/-- Other slots of the wallet are written. -/
theorem of_modifyCtx {f : Context → Context} (hdata : w'.data = (w.modifyCtx f).data)
    (hf : ∀ c, (f c).activeSign = c.activeSign)
    (hlog : ∃ events, w'.log = events ++ w.log ∧ ∀ e ∈ events, e.noted = false) :
    PromptFrame w w' := by
  refine ⟨by rw [hdata]; rfl, by rw [hdata]; rfl, ?_, by rw [hdata]; exact fun _ hX => hX, hlog⟩
  rw [World.activeSign, hdata]
  show (w.data.ctx.map f).bind Context.activeSign = w.data.ctx.bind Context.activeSign
  rw [Option.bind_map]
  exact congrArg w.data.ctx.bind (funext hf)

theorem promptView (hframe : PromptFrame w w') : ∃ known : OrderId → Bool,
    (∀ X, w.data.submitData.contains X = true → known X = true) ∧
      w'.promptView = { w.promptView with known := known } := by
  obtain ⟨events, hlog, hfree⟩ := hframe.log
  refine ⟨fun X => w'.data.submitData.contains X, hframe.known, ?_⟩
  rw [World.promptView, World.promptView, hframe.queue, hframe.visible, hframe.sign, hlog,
    ledger_append hfree]

theorem promptInv (hframe : PromptFrame w w') (hw : PromptInv w.promptView) :
    PromptInv w'.promptView := by
  obtain ⟨known, hknown, hview⟩ := hframe.promptView
  rw [hview]
  exact hw.learn hknown

end PromptFrame

/-- The effects on prompts and reviews. -/
def Effect.onPrompts : Effect → Bool
  | .links | .prompts | .decisions | .cancel | .login | .logout => true
  | _ => false

theorem Event.noted_of_effect {e : Event} {k : Effect} (he : e.effect = some k) : e.noted = false := by
  unfold Event.noted
  split <;> first | rfl | cases he

theorem Change.promptFrame {k : Effect} {w w' : World} (hs : Change k w w')
    (hcoarse : k.coarse = false) (hk : k.onPrompts = false) : PromptFrame w w' := by
  have hquiet : ∀ {v : World}, v.log = w.log → ∃ events, v.log = events ++ w.log ∧
      ∀ e ∈ events, e.noted = false := fun hlog => ⟨[], hlog, by simp⟩
  cases hs
  case said e he => exact .of_record rfl rfl (Event.noted_of_effect he)
  case called => exact .of_data rfl rfl rfl (fun _ hX => hX) (hquiet rfl)
  -- these do not change what the view of the prompts contains
  case saved ok => cases ok <;> exact .of_data rfl rfl rfl (fun _ hX => hX) (hquiet rfl)
  case assetsSaved | assetsLoaded => exact .of_data rfl rfl rfl (fun _ hX => hX) (hquiet rfl)
  case info f hf =>
    rw [World.modifyData, hf]
    exact .of_data rfl rfl rfl (fun _ hX => hX) (hquiet rfl)
  case queued f hf =>
    rw [World.modifyData, hf]
    exact .of_data rfl rfl rfl (fun _ hX => hX) (hquiet rfl)
  -- stored terms stay stored
  case terms f hf keeps =>
    refine .of_data ?_ ?_ ?_ (fun _ => keeps.contains) (hquiet rfl) <;> rw [World.modifyData, hf]
  case stored s _ =>
    refine .of_data rfl rfl rfl (fun X hX => ?_) ⟨[_], rfl, by simp [Event.noted]⟩
    exact contains_insert_of_contains w.data.submitData s.orderId X s hX
  case completed s X txid _ =>
    refine .of_data rfl rfl rfl (fun Y hY => ?_) ⟨[_], rfl, by simp [Event.noted]⟩
    exact contains_insert_of_contains w.data.submitData X Y _ hY
  case swapDone a txid _ _ =>
    exact .of_modifyCtx (f := fun c =>
      { c with
        usedUtxos := c.usedUtxos ∪ (a.inputs.map Utxo.txOut).toFinset
        succeedSwap := some txid }) rfl (fun _ => rfl) ⟨[_], rfl, by simp [Event.noted]⟩
  case ctxInfo f hf => exact .of_modifyCtx (f := f) rfl (fun c => by rw [hf]) (hquiet rfl)
  case slots f hf => exact .of_modifyCtx (f := f) rfl (fun c => by rw [hf]) (hquiet rfl)
  case synced | balanced => cases hcoarse
  -- the effects that are about prompts are excluded
  case linkShown | promptQueued | promptDropped | promptShown | reviewClosed | signTaken | submitTaken
      | login | logout | cancelled => cases hk
  case txsSent list =>
    exact .of_modifyCtx (f := fun c => { c with sentTxs := list }) rfl (fun _ => rfl)
      ⟨[_], rfl, by simp [Event.noted]⟩
  case balanceShown asset amount =>
    exact .of_modifyCtx
      (f := fun c => { c with lastBalances := c.lastBalances.insert asset amount }) rfl
      (fun _ => rfl) ⟨[_], rfl, by simp [Event.noted]⟩
  case swapReported item _ _ =>
    exact .of_modifyCtx (f := fun c => { c with succeedSwap := none }) rfl (fun _ => rfl)
      ⟨[_], rfl, by simp [Event.noted]⟩
  -- these change other fields of the wallet
  case marketSet | txsRead | pegRead | cleaned | pegStarted | paymentSet =>
    exact .of_modifyCtx rfl (fun _ => rfl) (hquiet rfl)
  case registered | orderHidden | orderShown | txShown | txHidden | balancesShown | succeedShown | down =>
    exact .of_data rfl rfl rfl (fun _ hX => hX) ⟨[_], rfl, by simp [Event.noted]⟩
  case listed | submitSucceeded | up | offline =>
    exact .of_data rfl rfl rfl (fun _ hX => hX) (hquiet rfl)

/-! ### Steps of reviews -/

/-- The invariant, as far as the conditions on the history are met. -/
def Prompting (w : World) : Prop :=
  Always PromptKept w.log → Always QueuedOnce w.log → PromptInv w.promptView

theorem Prompting.frame {w w' : World} (hw : Prompting w) (hframe : PromptFrame w w') :
    Prompting w' := by
  intro hkept honce
  obtain ⟨events, hlog, -⟩ := hframe.log
  rw [hlog] at hkept honce
  exact hframe.promptInv (hw hkept.of_append honce.of_append)

/-- The terms of a link have come while no prompt was on the screen. -/
theorem Asked.free {X : OrderId} {resp : LinkResponse} {log : List Event} (hasked : Asked X resp log)
    (hkept : Always PromptKept log) :
    (ledger log).prompt = none ∧ (ledger log).sign ≠ some X := by
  obtain ⟨newer, older, rfl, hnewer⟩ := hasked
  have hfree : ∀ e ∈ newer, e.noted = false := by
    intro e he
    obtain ⟨asset, rfl⟩ := hnewer e he
    rfl
  have hevent : PromptKept (.request (.link X) (.ok resp)) older :=
    (always_cons.mp hkept.of_append).1
  rw [ledger_append hfree, ledger_cons rfl]
  simpa [PromptKept, keepsPrompt] using hevent

theorem World.linkShown_promptView (w : World) (X : OrderId) (resp : LinkResponse) :
    ∃ r : SubmitReview, r.step ≠ .sign ∧ (w.linkShown X resp).promptView =
      { w.promptView with ledger := (ledger w.log).review r, visible := some X } := by
  have hsign : (w.linkShown X resp).activeSign = w.activeSign := Option.bind_map
  refine ⟨detailsReview resp.details X resp.indexPrice (decide (X ∈ w.data.internal))
    ((w.data.submitData[X]?.map SubmitData.autoSign).getD false), ?_, ?_⟩
  · show (if resp.details.side = .requestor then Step.submit else Step.quote) ≠ Step.sign
    split <;> decide
  · rw [World.promptView, hsign]
    rfl

theorem World.promptShown_promptView (w : World) (m : SignNotification)
    (rest : List SignNotification) (s : SubmitData) (hwallet : w.data.ctx.isSome = true) :
    ∃ r : SubmitReview, r.step = .sign ∧ r.orderId = m.orderId ∧
      (w.promptShown m rest s).promptView =
        { w.promptView with
          ledger := (ledger w.log).review r, queue := rest, visible := some m.orderId
          sign := some m } := by
  obtain ⟨c, hc⟩ := Option.isSome_iff_exists.mp hwallet
  have hsign : (w.promptShown m rest s).activeSign = some m := by
    show (w.data.ctx.map _).bind _ = _
    rw [hc]
    rfl
  refine ⟨s.signReview m.orderId (decide (m.orderId ∈ w.data.internal)), rfl, rfl, ?_⟩
  rw [World.promptView, hsign]
  rfl

/-- The steps outside decisions, cancellations, logins and logouts. -/
theorem Prompting.step {k : Effect} {w w' : World} (hs : Change k w w') (hcoarse : k.coarse = false)
    (hk : k.onPrompts = false ∨ k = .links ∨ k = .prompts) (hw : Prompting w) : Prompting w' := by
  rcases hk with hk | rfl | rfl
  · exact hw.frame (hs.promptFrame hcoarse hk)
  · -- the review of an order from a link takes the place of a closed one
    cases hs with
    | said e he => exact absurd (Event.effect_mem he) (by decide)
    | linkShown X resp hasked =>
      intro hkept honce
      obtain ⟨hclosed, hother⟩ := hasked.free (always_cons.mp hkept).2
      obtain ⟨r, hstep, hview⟩ := w.linkShown_promptView X resp
      rw [hview]
      exact (hw (always_cons.mp hkept).2 (always_cons.mp honce).2).link hclosed hother hstep
  · -- a prompt is queued, dropped or shown
    cases hs with
    | said e he => exact absurd (Event.effect_mem he) (by decide)
    -- it is new, because sign requests are handled once
    | promptQueued m hknown =>
      intro hkept honce
      obtain ⟨hnew, honce⟩ := always_cons.mp honce
      exact (hw (always_cons.mp hkept).2 honce).queue hknown (hnew m rfl)
    -- it is dropped because its order is gone
    | promptDropped hqueue hgone =>
      intro hkept honce
      refine (hw hkept honce).drop hqueue ?_
      show w.data.submitData.contains _ = false
      rw [Std.ExtTreeMap.contains_eq_isSome_getElem?, hgone, Option.isSome_none]
    | promptShown hqueue hfree hwallet hterms =>
      intro hkept honce
      obtain ⟨r, hstep, horder, hview⟩ := w.promptShown_promptView _ _ _ hwallet
      rw [hview]
      exact (hw (always_cons.mp hkept).2 (always_cons.mp honce).2).show_ hqueue hfree hstep horder

theorem allows_prompting {k : Effect} (hk : k.onPrompts = false ∨ k = .links ∨ k = .prompts) :
    Allows (Preserves Prompting) k := by
  refine allows_of_changes (fun k => decide (k.onPrompts = false ∨ k = .links ∨ k = .prompts)) rfl ?_ k
    (decide_eq_true hk)
  exact fun k w w' hk hcoarse hs hw => hw.step hs hcoarse (of_decide_eq_true hk)

instance : Allows (Preserves Prompting) .prompts := allows_prompting (.inr (.inr rfl))
instance : Allows (Preserves Prompting) .success := allows_prompting (.inl rfl)

theorem allows_promptFrame {k : Effect} (hk : k.onPrompts = false) : Allows PromptFrame k := by
  refine allows_of_changes (fun k => !k.onPrompts) rfl ?_ k (by simpa using hk)
  exact fun k w w' hk hcoarse hs => hs.promptFrame hcoarse (by simpa using hk)

instance : Allows PromptFrame .talk := allows_promptFrame rfl
instance : Allows PromptFrame .terms := allows_promptFrame rfl
instance : Allows PromptFrame .psets := allows_promptFrame rfl

/-! ### Decisions -/

/-- The sign request that is left after a decision. -/
def signLeft (req : SubmitDecision) (sign : Option SignNotification) : Option SignNotification :=
  if req.accept then sign.filter fun m => decide (m.orderId ≠ req.orderId) else sign

theorem signLeft_of_other {req : SubmitDecision} {sign : Option SignNotification}
    (hnone : req.accept = true → (sign.filter fun m => decide (m.orderId = req.orderId)) = none) :
    signLeft req sign = sign := by
  unfold signLeft
  split
  · rename_i haccept
    have hother := Option.filter_eq_none_iff.mp (hnone haccept)
    cases sign with
    | none => rfl
    | some m =>
      have hm := hother m rfl
      rw [Option.filter_some, if_pos (by simpa using hm)]
  · rfl

theorem signLeft_of_found {req : SubmitDecision} {sign : Option SignNotification}
    {m : SignNotification} (haccept : req.accept = true)
    (hfound : (sign.filter fun m => decide (m.orderId = req.orderId)) = some m) :
    signLeft req sign = none := by
  obtain ⟨rfl, hm⟩ := Option.filter_eq_some_iff.mp hfound
  rw [signLeft, if_pos haccept, Option.filter_some, if_neg (by simpa using hm)]

/-- The slot is as the decision leaves it. -/
def World.decided (w : World) (req : SubmitDecision) : World :=
  w.modifyCtx fun c => { c with activeSign := signLeft req c.activeSign }

theorem World.decided_activeSign (w : World) (req : SubmitDecision) :
    (w.decided req).activeSign = signLeft req w.activeSign := by
  have hbind : (w.decided req).activeSign = w.data.ctx.bind fun c => signLeft req c.activeSign :=
    Option.bind_map
  rw [hbind, World.activeSign]
  cases w.data.ctx with
  | none =>
    unfold signLeft
    split <;> rfl
  | some c => rfl

/-- What an accepted decision does before the review is closed: it takes the sign prompt of its
order. -/
theorem tryProcessSubmitDecision_frame (req : SubmitDecision) (w : World) :
    PromptFrame (w.decided req) (tryProcessSubmitDecision h req w).state := by
  -- if the slot keeps its sign request, the decision leaves the view as it is
  have hsame : signLeft req w.activeSign = w.activeSign → PromptFrame (w.decided req) w := by
    intro hleft
    refine ⟨rfl, rfl, ?_, fun _ hX => hX, [], rfl, by simp⟩
    rw [World.decided_activeSign, hleft]
  unfold tryProcessSubmitDecision
  -- a rejection does not empty the slot
  split
  · rename_i hreject
    refine hsame (signLeft_of_other fun haccept => ?_)
    rw [haccept] at hreject
    cases hreject
  rename_i haccept
  have haccept : req.accept = true := by simpa using haccept
  -- neither does a decision without a wallet
  cases hctx : w.data.ctx with
  | none =>
    have herror : ctxOr "no context found" w = .error "no context found" w := by
      simp only [ctxOr, getData, bind_apply, get_apply, pure_apply, hctx, okOr, fail_apply]
    rw [bind_error herror]
    refine hsame (signLeft_of_other fun _ => ?_)
    rw [World.activeSign, hctx]
    rfl
  | some c =>
    have hfound : ctxOr "no context found" w = .ok c w := by
      simp only [ctxOr, getData, bind_apply, get_apply, pure_apply, hctx, okOr]
      rfl
    rw [bind_ok hfound]
    cases hfilter : c.activeSign.filter fun sign => decide (sign.orderId = req.orderId) with
    -- the decision is about the sign request, which is taken and signed
    | some sign =>
      have hleft := signLeft_of_found haccept hfilter
      have hstate : w.decided req = w.modifyCtx fun c => { c with activeSign := none } := by
        simp only [World.decided, World.modifyCtx, World.modifyData, hctx, Option.map_some, hleft]
      rw [hstate]
      exact .of_chain ((trySign_effects .decision sign).chain _)
    -- otherwise it is about the order under review
    | none =>
      have hkept : PromptFrame (w.decided req) w := by
        refine hsame (signLeft_of_other fun _ => ?_)
        rw [World.activeSign, hctx]
        exact hfilter
      cases hsubmit : c.activeSubmit with
      | none => exact hkept
      | some resp =>
        have htaken : PromptFrame w (w.modifyCtx fun c => { c with activeSubmit := none }) :=
          .of_modifyCtx rfl (fun _ => rfl) ⟨[], rfl, by simp⟩
        exact (hkept.trans htaken).trans (.of_chain ((acceptSubmit_effects req resp).chain _))

/-- A decision about the order of the prompt on the screen, or about another review. -/
theorem Prompting.decided {w v : World} (req : SubmitDecision) (hw : Prompting w)
    (hframe : PromptFrame ((w.record (.received (.ui (.submitDecision req)))).decided req) v)
    (waiting : Option OrderId) :
    Prompting (v.modifyData fun d => { d with waitingSubmit := waiting, visibleSubmit := none }) := by
  intro hkept honce
  obtain ⟨events, hlog, -⟩ := hframe.log
  obtain ⟨known, hknown, hview⟩ := hframe.promptView
  have hkept : Always PromptKept v.log := hkept
  have honce : Always QueuedOnce v.log := honce
  rw [hlog] at hkept honce
  obtain ⟨habout, hkept⟩ := always_cons.mp hkept.of_append
  -- the invariant held before the message came
  have hinv := hw hkept (always_cons.mp honce.of_append).2
  have hdecided : ((w.record (.received (.ui (.submitDecision req)))).decided req).promptView =
      { w.promptView with
        ledger := (ledger w.log).decision req, sign := signLeft req w.activeSign } := by
    rw [World.promptView, World.decided_activeSign]
    rfl
  have hclosed : (v.modifyData fun d =>
      { d with waitingSubmit := waiting, visibleSubmit := none }).promptView =
        { v.promptView with visible := none } := rfl
  rw [hclosed, hview, hdecided]
  -- the decision closes the prompt that it is about
  refine PromptInv.learn (hinv.decision req ?_ rfl) hknown
  intro X hX
  have hX : (ledger w.log).prompt = some X := hX
  rw [PromptKept, keepsPrompt, hX] at habout
  exact of_decide_eq_true habout

theorem processSubmitDecision_prompting (req : SubmitDecision) {w w' : World} (hw : Prompting w)
    (hok : (processSubmitDecision h req : Worker ε Unit)
      (w.record (.received (.ui (.submitDecision req)))) = .ok () w') : Prompting w' := by
  let w₀ := w.record (.received (.ui (.submitDecision req)))
  have hspec : Guar (fun _ _ => True) (fun v => v = w₀)
      (processSubmitDecision h req : Worker ε Unit) fun _ v => Prompting v := by
    -- the attempt leaves the view as the decision says, whether it fails or not
    have hdecides : Guar (fun _ _ => True) (fun v => v = w₀)
        (Proc.attempt (tryProcessSubmitDecision h req) : Worker ε _)
        fun _ v => PromptFrame (w₀.decided req) v := by
      refine .attempt_state ?_
      rintro v rfl
      exact tryProcessSubmitDecision_frame req w₀
    -- after the review the next prompt is shown
    have hafter : Guar (fun _ _ => True) Prompting (afterReview : Worker ε Unit) fun _ v => Prompting v :=
      (Refines.carry afterReview_effects).mono fun _ _ _ => trivial
    -- one case for each way in which the attempt may end
    refine .bind hdecides fun result => ?_
    split
    · refine .bind (.modify (fun _ _ => trivial) fun v hv => ?_) fun _ => hafter
      exact hw.decided req hv _
    · refine .bind (Q := fun _ v => PromptFrame (w₀.decided req) v)
        (.modify (fun _ _ => trivial) fun v hv => ?_) fun _ => ?_
      · exact hv.trans (.of_record (w := v) rfl rfl rfl)
      · refine .bind (.modify (fun _ _ => trivial) fun v hv => ?_) fun _ => hafter
        exact hw.decided req hv v.data.waitingSubmit
    · refine .bind (Q := fun _ v => PromptFrame (w₀.decided req) v)
        (.modify (fun _ _ => trivial) fun v hv => ?_) fun _ => ?_
      · exact hv.trans (.of_record (w := v) rfl rfl rfl)
      · refine .bind (.modify (fun _ _ => trivial) fun v hv => ?_) fun _ => hafter
        exact hw.decided req hv v.data.waitingSubmit
  exact (hspec w₀ rfl).2 () w' hok

/-! ### Cancellations -/

theorem showPrompts_cancelled (X : OrderId) (msgs : List SignNotification) :
    Refines (Preserves fun w : World => X ∈ (ledger w.log).cancelled)
      (showPrompts msgs : Worker ε Unit) := by
  induction msgs with
  | nil => exact .pure _
  | cons m rest ih =>
    refine .bind getData_effects fun d => ?_
    split
    · exact .pure _
    · refine .bind (.modify fun _ hw => hw) fun _ => ?_
      split
      · exact ih
      · refine .bind (.modify fun _ hw => hw) fun _ => ?_
        exact .bind (.modify fun _ hw => hw) fun _ => .bind (.modify fun _ hw => hw) fun _ => ih

theorem showSucceed_cancelled (X : OrderId) (items : List TransItem) :
    Refines (Preserves fun w : World => X ∈ (ledger w.log).cancelled)
      (showSucceed items : Worker ε Unit) := by
  induction items with
  | nil => exact .pure _
  | cons item rest ih =>
    exact .bind (.modify fun _ hw => hw) fun _ => .bind (.modify fun _ hw => hw) fun _ => ih

/-- What follows a cancellation queues no sign request. -/
theorem afterReview_cancelled (X : OrderId) :
    Refines (Preserves fun w : World => X ∈ (ledger w.log).cancelled)
      (afterReview : Worker ε Unit) := by
  refine .bind (.bind getData_effects fun d => ?_) fun _ => .bind getData_effects fun d => ?_
  · split
    · exact .pure _
    · exact showPrompts_cancelled X _
  · split
    · exact .pure _
    · exact showSucceed_cancelled X _

theorem Prompting.cancelled {w v : World} {X : OrderId} (hw : Prompting w)
    (hlog : ∃ events, v.log =
      events ++ .received (.serverNotification (.complete ⟨X, none⟩)) :: w.log ∧
        ∀ e ∈ events, e.noted = false)
    (hqueue : v.data.pendingSignPrompts = w.data.pendingSignPrompts)
    (hsign : v.activeSign = w.activeSign) (hknown : v.data.submitData = w.data.submitData)
    (hvisible : ∀ Y, v.data.visibleSubmit = some Y ↔ w.data.visibleSubmit = some Y ∧ Y ≠ X) :
    Prompting v ∧ X ∈ (ledger v.log).cancelled := by
  obtain ⟨events, hlog, hfree⟩ := hlog
  have hledger : ledger v.log = (ledger w.log).cancel X := by
    rw [hlog, ledger_append hfree]
    rfl
  constructor
  · intro hkept honce
    rw [hlog] at hkept honce
    have hinv := hw (always_cons.mp hkept.of_append).2 (always_cons.mp honce.of_append).2
    rw [World.promptView, hledger, hqueue, hsign, hknown]
    exact hinv.cancel X hvisible
  · rw [hledger]
    exact List.mem_cons_self

theorem processComplete_prompting (X : OrderId) {w w' : World} (hw : Prompting w)
    (hok : (processComplete ⟨X, none⟩ : Worker ε Unit)
      (w.record (.received (.serverNotification (.complete ⟨X, none⟩)))) = .ok () w') :
    Prompting w' := by
  let w₀ := w.record (.received (.serverNotification (.complete ⟨X, none⟩)))
  let I : World → Prop := fun v => Prompting v ∧ X ∈ (ledger v.log).cancelled
  -- what follows the closed review keeps the cancellation in the ledger
  have hafter : Guar (fun _ _ => True) I (afterReview : Worker ε Unit) fun _ v => I v := by
    have hprompting : Refines (Preserves Prompting) (afterReview : Worker ε Unit) := afterReview_effects
    refine fun v hv => ⟨.single trivial, fun u v' hok => ?_⟩
    exact ⟨hprompting.preserves_ok hv.1 hok, (afterReview_cancelled X).preserves_ok hv.2 hok⟩
  have hclose : Guar (fun _ _ => True) (fun v => v = w₀) (closeReview X : Worker ε Unit)
      fun _ v => I v := by
    refine .bind getData_spec fun d => ?_
    split
    · -- the review on the screen is that of the order, and it is closed
      rename_i hopen
      refine .bind (Q := fun _ v => v = w₀.record
        (.toUi (.submitResult (.error "Order has been cancelled"))) ∧ d = w₀.data)
        (.modify (fun _ _ => trivial) ?_) fun _ => .bind (.modify (fun _ _ => trivial) ?_) fun _ => hafter
      · rintro v ⟨hd, rfl⟩
        exact ⟨rfl, hd⟩
      · rintro v ⟨rfl, rfl⟩
        refine hw.cancelled ⟨[_], rfl, by simp [Event.noted]⟩ rfl rfl rfl fun Y => ?_
        refine ⟨fun hY => (by cases hY), fun hY => ?_⟩
        rcases hopen with hX | hX
        · exact absurd (Option.some.inj (hY.1.symm.trans hX)) hY.2
        · exact absurd (hY.1.symm.trans hX.1) (Option.some_ne_none Y)
    · -- another review, or none, is left alone
      rename_i hother
      refine .pure ?_
      rintro v ⟨rfl, rfl⟩
      refine hw.cancelled ⟨[], rfl, by simp⟩ rfl rfl rfl fun Y => ?_
      refine ⟨fun hY => ⟨hY, ?_⟩, fun hY => hY.1⟩
      rintro rfl
      exact hother (.inl hY)
  have hspec : Guar (fun _ _ => True) (fun v => v = w₀) (processComplete ⟨X, none⟩ : Worker ε Unit)
      fun _ v => Prompting v := by
    refine .bind hclose fun _ => .modify (fun _ _ => trivial) ?_
    -- the terms are forgotten last
    rintro v ⟨hv, hcancelled⟩ hkept honce
    refine PromptInv.forget (hv hkept honce) hcancelled fun Y hY => ?_
    show (v.data.submitData.erase X).contains Y = v.data.submitData.contains Y
    rw [Std.ExtTreeMap.contains_eq_isSome_getElem?, Std.ExtTreeMap.contains_eq_isSome_getElem?,
      Map.lookup_erase, if_neg hY.symm]
  exact (hspec w₀ rfl).2 () w' hok

/-! ### Logins and logouts -/

theorem Prompting.reset {w v : World} {msg : Message}
    (hmsg : msg = .ui .logout ∨ ∃ mnemonic phoneKey, msg = .ui (.login mnemonic phoneKey))
    (hw : Prompting w)
    (hlog : ∃ events, v.log = events ++ .received msg :: w.log ∧ ∀ e ∈ events, e.noted = false)
    (hqueue : v.data.pendingSignPrompts = w.data.pendingSignPrompts)
    (hvisible : v.data.visibleSubmit = w.data.visibleSubmit) (hsign : v.activeSign = none)
    (hknown : v.data.submitData = w.data.submitData) : Prompting v := by
  obtain ⟨events, hlog, hfree⟩ := hlog
  intro hkept honce
  rw [hlog] at hkept honce
  obtain ⟨hclosed, hkept⟩ := always_cons.mp hkept.of_append
  have hinv := hw hkept (always_cons.mp honce.of_append).2
  have hledger : ledger v.log = { ledger w.log with prompt := none, sign := none } := by
    rw [hlog, ledger_append hfree]
    rcases hmsg with rfl | ⟨mnemonic, phoneKey, rfl⟩ <;> rfl
  have hnone : (ledger w.log).prompt = none := by
    rcases hmsg with rfl | ⟨mnemonic, phoneKey, rfl⟩ <;> exact Option.isNone_iff_eq_none.mp hclosed
  rw [World.promptView, hledger, hqueue, hvisible, hsign, hknown]
  exact hinv.reset hnone

theorem processLogoutRequest_prompting {w w' : World} (hw : Prompting w)
    (hok : (processLogoutRequest h : Worker ε Unit) (w.record (.received (.ui .logout))) = .ok () w') :
    Prompting w' := by
  have hout : Prompting (w.record (.received (.ui .logout))).loggedOut :=
    hw.reset (.inl rfl) ⟨[], rfl, by simp⟩ rfl rfl rfl rfl
  have := allows_promptFrame (k := .down) rfl
  exact hout.frame (.of_chain (processLogoutRequest_chain hok))

theorem processLoginRequest_prompting (mnemonic : String) (phoneKey : Option PhoneKey) {w w' : World}
    (hw : Prompting w) (hok : (processLoginRequest h mnemonic phoneKey : Worker ε Unit)
      (w.record (.received (.ui (.login mnemonic phoneKey)))) = .ok () w') : Prompting w' := by
  rw [processLoginRequest_apply] at hok
  dsimp only at hok
  split at hok
  · cases hok
  · have hallows : ∀ k : Effect, k.onPrompts = false ∨ k = .links ∨ k = .prompts →
        Allows (Preserves Prompting) k := fun k hk => allows_prompting hk
    have := hallows .talk (by decide)
    have := hallows .assets (by decide)
    have := hallows .wallet (by decide)
    have := hallows .sync (by decide)
    have := hallows .balances (by decide)
    have := hallows .links (by decide)
    have := hallows .terms (by decide)
    have := hallows .queues (by decide)
    have hrest : Refines (Preserves Prompting) (afterLogin h : Worker ε Unit) := afterLogin_effects
    refine hrest.preserves_ok ?_ hok
    exact hw.reset (.inr ⟨_, _, rfl⟩) ⟨[.toWs true], rfl, by simp [Event.noted]⟩ rfl rfl rfl rfl

/-! ### Runs -/

/-- The messages that are handled step by step. -/
def Message.keepsScreen : Message → Bool
  | .ui (.login ..) | .ui .logout | .ui (.submitDecision _) => false
  | .serverNotification (.complete _) => false
  | _ => true

theorem Message.keepsScreen_effects {msg : Message} (hmsg : msg.keepsScreen = true) :
    msg.effects.all (fun k => decide (k.onPrompts = false ∨ k = .links ∨ k = .prompts)) = true := by
  cases msg with
  | ui m => cases m <;> first | rfl | cases hmsg
  | serverNotification n => cases n <;> first | rfl | cases hmsg
  | _ => rfl

theorem ledger_received {msg : Message} (hmsg : msg.keepsScreen = true) (older : List Event) :
    ledger (.received msg :: older) = ledger older := by
  cases msg with
  | ui m => cases m <;> first | rfl | cases hmsg
  | serverNotification n => cases n <;> first | rfl | cases hmsg
  | _ => rfl

theorem Prompting.received {w : World} {msg : Message}
    (hledger : ledger (.received msg :: w.log) = ledger w.log) (hw : Prompting w) :
    Prompting (w.record (.received msg)) := by
  intro hkept honce
  have hinv := hw (always_cons.mp hkept).2 (always_cons.mp honce).2
  have hview : (w.record (.received msg)).promptView = w.promptView := by
    rw [World.promptView, World.promptView]
    exact congrArg (fun l => PromptView.mk l _ _ _ _) hledger
  rwa [hview]

theorem handle_prompting (msg : Message) {w w' : World} (hw : Prompting w)
    (hok : (machine h).handle msg w = .ok () w') : Prompting w' := by
  have hhandle : process h msg (w.record (.received msg)) = .ok () w' := hok
  -- most messages do not change what is on the screen
  by_cases hmsg : msg.keepsScreen = true
  · have hprocess : Refines (Preserves Prompting) (process h msg : Worker Empty Unit) := by
      refine process_preserves
        (fun k => decide (k.onPrompts = false ∨ k = .links ∨ k = .prompts)) rfl ?_
        (Message.keepsScreen_effects hmsg)
      exact fun k v v' hk hcoarse hs hv => hv.step hs hcoarse (of_decide_eq_true hk)
    exact hprocess.preserves_ok (hw.received (ledger_received hmsg w.log)) hhandle
  · -- four messages may close a review
    cases msg with
    | ui m =>
      cases m with
      | login mnemonic phoneKey => exact processLoginRequest_prompting mnemonic phoneKey hw hhandle
      | logout => exact processLogoutRequest_prompting hw hhandle
      | submitDecision req => exact processSubmitDecision_prompting req hw hhandle
      | _ => exact absurd rfl hmsg
    | serverNotification n =>
      cases n with
      | complete m =>
        obtain ⟨X, txid⟩ := m
        cases txid with
        | none => exact processComplete_prompting X hw hhandle
        -- an order that is completed keeps its terms
        | some txid =>
          have hcomplete : Guar (Preserves Prompting) (fun _ => True)
              (processComplete ⟨X, some txid⟩ : Worker Empty Unit) fun _ _ => True := by
            refine .bind getData_spec fun d => ?_
            dsimp only
            split
            · exact .pure fun _ _ => trivial
            · rename_i s hs
              rintro v ⟨rfl, -⟩
              have hstep : Change .terms v (v.orderCompleted X s txid) := .completed X txid hs
              exact ⟨.single fun hv => hv.step hstep rfl (.inl rfl), fun _ _ _ => trivial⟩
          exact Refines.preserves_ok hcomplete (hw.received rfl) hhandle
      | _ => exact absurd rfl hmsg
    | _ => exact absurd rfl hmsg

theorem boot_prompting {w w' : World} (hok : (machine h).boot w = .ok () w') : Prompting w' := by
  have hboot : ignoreError (loadAssets h) (freshStart h w) = .ok () w' := hok
  have := allows_promptFrame (k := .load) rfl
  have := allows_promptFrame (k := .assets) rfl
  have hload : Refines PromptFrame (ignoreError (loadAssets h) : Worker Empty Unit) :=
    ignoreError_effects loadAssets_effects
  have hchain := hload.chain (freshStart h w)
  rw [hboot] at hchain
  have hfresh : Prompting (freshStart h w) := fun _ _ => PromptInv.empty
  exact hfresh.frame (.of_chain hchain)

/-- In a process in which all events leave the prompt on the screen alone, every sign request that
was queued for the user is queued, shown, answered or gone with its order, and only one of these. -/
theorem prompts_tracked (h : Host) (xs : List (Feed Message))
    (hkept : Always PromptKept ((machine h).run (start h) xs).state.log)
    (halive : ((machine h).run (start h) xs).alive = true) :
    PromptsTracked ((machine h).run (start h) xs).state := by
  have htrue : (machine h).Along (fun _ _ => True) (start h) xs := Machine.along_true _ _
  have honce : QueuedInv ((machine h).run (start h) xs).state.core :=
    run_core_invariant queuedInvariant ⟨fun m hm => (by cases hm), .nil⟩ htrue
  have hstart : (start h).alive = true → Prompting (start h).state :=
    (Machine.life_invariant (I := fun _ => True) trivial fun u w' hok => boot_prompting hok).2
  have hrun := (Machine.run_life_invariant (I := fun _ => True) (A := Prompting) ⟨trivial, hstart⟩ htrue
    (fun w msg _ _ hw => ⟨trivial, fun u w' hok => handle_prompting msg hw hok⟩)
    fun w _ => ⟨trivial, fun u w' hok => boot_prompting hok⟩).2 halive
  exact (hrun hkept honce.history).situations

open Sample in
theorem prompts_tracked_gold :
    Always PromptKept ((machine orderHost).run (start orderHost) prompted).state.log ∧
      ((machine orderHost).run (start orderHost) prompted).alive = true ∧
      (ledger ((machine orderHost).run (start orderHost) prompted).state.log).queued.length = 1 ∧
      PromptsTracked ((machine orderHost).run (start orderHost) prompted).state := by
  have hkept : Always PromptKept ((machine orderHost).run (start orderHost) prompted).state.log := by
    decide +kernel
  have halive : ((machine orderHost).run (start orderHost) prompted).alive = true := by
    decide +kernel
  exact ⟨hkept, halive, by decide +kernel, prompts_tracked orderHost prompted hkept halive⟩

open Sample in
/-- A link takes the place of a prompt that the user has not answered. -/
theorem prompt_replaced_by_link :
    ¬ ∀ (h : Host) (xs : List (Feed Message)),
      ((machine h).run (start h) xs).alive = true →
        PromptsTracked ((machine h).run (start h) xs).state := by
  intro hall
  have hrun := hall orderHost (prompted ++ [.deliver (linkOrder otherOrder)])
  revert hrun
  decide +kernel

end SideSwap.Client
