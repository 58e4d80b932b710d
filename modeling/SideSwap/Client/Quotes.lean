import SideSwap.Client.SwapSafety

/-!
# Quotes and the swap they are shown for

The server quotes an instant swap by `MatchRfq` notifications, which name the order.  The worker
shows a quote together with the assets and the amount of the active swap, and stores its network fee
there, but unlike `processSwapNotification` it does not compare the order of the notification with
that of the swap (`afterQuote_active`).

The active swap is always the one that was requested last (`CurrentInv`).  So in every run a quote
is shown for the right swap exactly if no swap is active, in which case nothing is shown, or the
quote is for the last request (`quote_shown_iff`).
-/

namespace SideSwap.Client

open History Proc

variable {h : Host}

/-! ### What a notification does -/

/-- The order of the active swap. -/
def activeOrder (w : World) : Option OrderId :=
  (w.data.ctx.bind Context.activeSwap).map ActiveSwap.orderId

/-- The network fee that is stored in the active swap. -/
def networkFeeOf (w : World) : Option (Option ℤ) :=
  (w.data.ctx.bind Context.activeSwap).map ActiveSwap.networkFee

/-- The state after a `MatchRfq` notification. -/
def afterQuote (h : Host) (w : World) (m : MatchRfqUpdate) : World :=
  ((machine h).handle (.serverNotification (.matchRfq m)) w).state

/-- The notification is used for the active swap: a review is shown, or the fee changes. -/
def QuoteUsed (h : Host) (w : World) (m : MatchRfqUpdate) : Prop :=
  (∃ newer review, (afterQuote h w m).log = newer ++ w.log ∧ .toUi (.swapReview review) ∈ newer) ∨
    networkFeeOf (afterQuote h w m) ≠ networkFeeOf w

/-- The review of a quote for a swap. -/
def quoteReview (a : ActiveSwap) (m : MatchRfqUpdate) : SwapReview :=
  { sendAsset := a.sendAsset, recvAsset := a.recvAsset, sendAmount := a.sendAmount
    recvAmount := m.quote.toOption.map MatchRfqQuote.recvAmount
    networkFee := m.quote.toOption.map MatchRfqQuote.networkFee
    error := match m.quote with
      | .ok _ => none
      | .error reason => some (RfqRejectReason.text reason) }

/-- Without an active swap only the arrival is noted. -/
theorem afterQuote_idle {w : World} {m : MatchRfqUpdate}
    (hidle : w.data.ctx.bind Context.activeSwap = none) :
    afterQuote h w m = w.record (.received (.serverNotification (.matchRfq m))) := by
  show (processRfqUpdate m (w.record _) : Outcome Empty World Unit).state = _
  unfold processRfqUpdate ignoreError rfqUpdate
  rw [bind_apply, attempt]
  cases hctx : w.data.ctx with
  | none =>
    have hor : ctxOr "no wallet" (w.record (.received (.serverNotification (.matchRfq m))))
        = .error "no wallet" (w.record (.received (.serverNotification (.matchRfq m)))) := by
      show okOr w.data.ctx _ _ = _
      rw [hctx]
      rfl
    rw [bind_error hor]
    rfl
  | some ctx =>
    have hor : ctxOr "no wallet" (w.record (.received (.serverNotification (.matchRfq m))))
        = .ok ctx (w.record (.received (.serverNotification (.matchRfq m)))) := by
      show okOr w.data.ctx _ _ = _
      rw [hctx]
      rfl
    rw [hctx, Option.bind_some] at hidle
    rw [bind_ok hor, hidle]
    rfl

/-- With an active swap the quote is shown, whatever its order. -/
theorem afterQuote_active {w : World} {m : MatchRfqUpdate} {a : ActiveSwap}
    (hactive : w.data.ctx.bind Context.activeSwap = some a) :
    (afterQuote h w m).log = .toUi (.swapReview (quoteReview a m))
      :: .received (.serverNotification (.matchRfq m)) :: w.log := by
  show (processRfqUpdate m (w.record _) : Outcome Empty World Unit).state.log = _
  unfold processRfqUpdate ignoreError rfqUpdate
  rw [bind_apply, attempt]
  obtain ⟨ctx, hctx, ha⟩ := Option.bind_eq_some_iff.mp hactive
  have hor : ctxOr "no wallet" (w.record (.received (.serverNotification (.matchRfq m))))
      = .ok ctx (w.record (.received (.serverNotification (.matchRfq m)))) := by
    show okOr w.data.ctx _ _ = _
    rw [hctx]
    rfl
  rw [bind_ok hor, ha]
  rfl

/-- A notification is used exactly if a swap is active. -/
theorem quoteUsed_iff (w : World) (m : MatchRfqUpdate) :
    QuoteUsed h w m ↔ activeOrder w ≠ none := by
  cases hactive : w.data.ctx.bind Context.activeSwap with
  | none =>
    have horder : activeOrder w = none := by rw [activeOrder, hactive, Option.map_none]
    refine iff_of_false ?_ (not_not_intro horder)
    rw [QuoteUsed, afterQuote_idle hactive]
    rintro (⟨newer, review, hlog, hmem⟩ | hfee)
    · have hlog : newer ++ w.log = [.received (.serverNotification (.matchRfq m))] ++ w.log :=
        hlog.symm
      have hone := List.append_cancel_right hlog
      rw [hone, List.mem_singleton] at hmem
      cases hmem
    · exact hfee rfl
  | some a =>
    have horder : activeOrder w = some a.orderId := by rw [activeOrder, hactive, Option.map_some]
    refine iff_of_true (.inl ?_) (by rw [horder]; exact Option.some_ne_none _)
    refine ⟨[.toUi (.swapReview (quoteReview a m)), .received (.serverNotification (.matchRfq m))],
      quoteReview a m, ?_, List.mem_cons_self⟩
    exact afterQuote_active hactive

/-! ### The active swap is the last requested one -/

/-- The order of the instant swap that was requested last. -/
def lastOrder (log : List Event) : Option OrderId := (currentSwap log).map ActiveSwap.orderId

/-- The active swap is the one that was requested last. -/
def CurrentInv (c : Core) : Prop := ∀ a, c.activeSwap = some a → lastOrder c.log = some a.orderId

theorem preparation_of_swapFree {e : Event} (he : e.swapFree = true) (older : List Event) :
    preparation e older = none :=
  (inputsFree_of_swapFree he older).1

theorem CurrentInv.calm {c c' : Core} (hc : SwapCalm c c') (hI : CurrentInv c) : CurrentInv c' := by
  intro a ha
  obtain ⟨events, hlog, hfree⟩ := hc.log
  have hlast : lastOrder c'.log = lastOrder c.log := by
    rw [lastOrder, currentSwap, hlog,
      latest_append fun e he => preparation_of_swapFree (hfree e he), lastOrder, currentSwap]
  rw [hlast]
  rcases hc.activeSwap with hsame | hnone
  · exact hI a (hsame ▸ ha)
  · rw [hnone] at ha
    cases ha

theorem CurrentInv.move {w₀ : World} {msg : Message} {c c' : Core} (hm : SwapMove h w₀ msg c c')
    (hI : CurrentInv c) : CurrentInv c' := by
  intro a ha
  rcases hm.activeSwap ha with hnew | ⟨a₀, ha₀, horder, -⟩
  · rw [hnew]
    rfl
  · have hlast := hI a₀ ha₀
    rw [horder] at hlast
    cases hm with
    | swapPrepared b =>
      -- the new swap is written to the slot in the same move
      obtain ⟨v, hv, ha⟩ := Core.exists_slot (c := c) rfl ha
      obtain rfl : b = a := Option.some.inj ha
      rfl
    | _ => exact hlast

/-- In every run the active swap is the one that was requested last. -/
theorem active_is_last (h : Host) (xs : List (Feed Message)) {X : OrderId}
    (hactive : activeOrder ((machine h).run (start h) xs).state = some X) :
    lastOrder ((machine h).run (start h) xs).state.log = some X := by
  have hI : CoreInvariant h (fun _ _ => True) CurrentInv :=
    .of_swap (fun c c' hc => CurrentInv.calm hc) fun w msg c c' _ _ hm => CurrentInv.move hm
  have hnew : CurrentInv World.new.core := fun a ha => by cases ha
  have hinv := run_core_invariant hI hnew (Machine.along_true (start h) xs)
  obtain ⟨a, ha, rfl⟩ := Option.map_eq_some_iff.mp hactive
  refine hinv a ?_
  rw [World.core_activeSwap]
  exact ha

/-! ### Runs -/

/-- In every run, a notification is used for the swap that it is about exactly if no swap is active,
or it is about the swap that was requested last. -/
theorem quote_shown_iff (h : Host) (xs : List (Feed Message)) (m : MatchRfqUpdate) :
    let w := ((machine h).run (start h) xs).state
    (QuoteUsed h w m → activeOrder w = some m.orderId) ↔
      (activeOrder w = none ∨ lastOrder w.log = some m.orderId) := by
  intro w
  rw [quoteUsed_iff]
  constructor
  · intro hsame
    by_cases hidle : activeOrder w = none
    · exact .inl hidle
    · exact .inr (active_is_last h xs (hsame hidle))
  · rintro (hidle | hlast) hactive
    · exact absurd hidle hactive
    · obtain ⟨X, hX⟩ := Option.ne_none_iff_exists'.mp hactive
      have hcurrent := active_is_last h xs hX
      rw [hX]
      exact hcurrent.symm.trans hlast

namespace Sample

/-- A swap of gold is requested, and then one of silver before gold has been quoted. -/
def replaced : List (Feed Message) :=
  online ++ [.deliver (swapRequest gold silver), .deliver (swapRequest silver gold)]

/-- A quote for the swap of gold. -/
def goldQuote : MatchRfqUpdate := ⟨⟨"gold"⟩, .ok ⟨60, 2⟩⟩

end Sample

open Sample in
/-- The late quote for gold is shown with the assets of the swap of silver. -/
theorem late_quote_shown :
    ¬ ∀ (h : Host) (xs : List (Feed Message)) (m : MatchRfqUpdate),
      ((machine h).run (start h) xs).alive = true →
        QuoteUsed h ((machine h).run (start h) xs).state m →
          activeOrder ((machine h).run (start h) xs).state = some m.orderId := by
  intro hall
  have hactive : activeOrder ((machine host).run (start host) replaced).state = some ⟨"silver"⟩ := by
    decide +kernel
  have hused : QuoteUsed host ((machine host).run (start host) replaced).state goldQuote := by
    rw [quoteUsed_iff, hactive]
    exact Option.some_ne_none _
  have hsame := hall host replaced goldQuote (by decide +kernel) hused
  rw [hactive] at hsame
  exact absurd hsame (by decide)

end SideSwap.Client
