import SideSwap.Bitfinex.QuotedCoins

/-!
# Hedges

A completed swap of at least `minHedgeAmount` is hedged on the exchange.  The hedge is submitted
under the clock in milliseconds, and it is watched under the same number until it is confirmed or
reported.  A finished swap stays in the list of swaps.

Every completed swap is hedged once and watched, in every run in which no two hedges are submitted
in the same millisecond and no swap is reported done again.
-/

namespace SideSwap.Bitfinex

open Dealer

section

variable {settings : Settings} {s s' : State} {round : Round}

/-! ### What the log says -/

/-- The swap is large enough to be hedged. -/
def large (swap : SwapSucceed) : Bool := Dealer.toBitcoin swap.bitcoinAmount ≥ minHedgeAmount

/-- What the swap has changed in the wallet. -/
def walletChange (swap : SwapSucceed) : ℚ :=
  if swap.sendBitcoins then -Dealer.toBitcoin swap.bitcoinAmount
  else Dealer.toBitcoin swap.bitcoinAmount

/-- The swap that an event reports as done. -/
def Event.completion : Event → Option SwapSucceed
  | .completed _ swap => some swap
  | _ => none

/-- The RFQ whose swap is complete and large enough. -/
def Event.hedgedOrder : Event → Option OrderId
  | .completed (some orderId) swap => if large swap then some orderId else none
  | _ => none

/-- The amount and the book of an order at the exchange. -/
def Event.submitted : Event → Option (ℚ × String)
  | .orderSubmit _ amount bookName _ => some (amount, bookName)
  | _ => none

/-- The client id of an order at the exchange. -/
def Event.cid : Event → Option ℤ
  | .orderSubmit cid _ _ _ => some cid
  | _ => none

/-- The hedge of a completed swap, if it is large enough. -/
def hedge (settings : Settings) (swap : SwapSucceed) : Option (ℚ × String) :=
  if large swap then
    (settings.bookName swap.ticker).map fun bookName => (signedBitcoinAmount settings swap, bookName)
  else none

/-- The hedges that are neither confirmed nor reported after half a minute. -/
def openHedges : List Event → List (ℤ × ℕ)
  | [] => []
  | .orderSubmit cid _ _ time :: older => (cid, time) :: openHedges older
  | .orderConfirm cid :: older => (openHedges older).filter fun p => p.1 ≠ cid
  | .orderTimeout cid now :: older =>
    (openHedges older).filter fun p => !decide (p.1 = cid ∧ now - p.2 > orderTimeout)
  | _ :: older => openHedges older

/-- Each completed swap has one hedge, if it is large enough, on the other side of what it has
changed in the wallet.  The hedges have different identifiers, those that are open are watched, and
no RFQ is hedged twice. -/
structure HedgedOnce (settings : Settings) (s : State) : Prop where
  submits : s.log.filterMap Event.submitted =
    (s.log.filterMap Event.completion).filterMap (hedge settings)
  opposite : ∀ swap ∈ s.log.filterMap Event.completion, large swap = true →
    signedBitcoinAmount settings swap * walletChange swap < 0
  cids : (s.log.filterMap Event.cid).Nodup
  pending : s.pendingOrders.toList.Perm (openHedges s.log)
  orders : (s.log.filterMap Event.hedgedOrder).Nodup

/-! ### Amounts -/

/-- A swap is large from the least hedge on. -/
theorem large_iff {swap : SwapSucceed} :
    large swap = true ↔ minHedgeAmount ≤ Dealer.toBitcoin swap.bitcoinAmount := by
  rw [large, decide_eq_true_eq, ge_iff_le]

/-- The exchange's fee leaves something. -/
theorem fee_range (settings : Settings) : 0 < 1 - settings.fee ∧ 1 - settings.fee ≤ 1 := by
  unfold Settings.fee
  split <;> norm_num

theorem toBitcoin_pos {swap : SwapSucceed} (h : large swap = true) :
    0 < Dealer.toBitcoin swap.bitcoinAmount := by
  refine lt_of_lt_of_le ?_ (large_iff.mp h)
  norm_num [minHedgeAmount]

/-- Bitcoins that were sent are bought back, and the amount does not vanish in the rounding. -/
theorem signedBitcoinAmount_pos {swap : SwapSucceed} (h : large swap = true)
    (hsend : swap.sendBitcoins = true) : 0 < signedBitcoinAmount settings swap := by
  obtain ⟨hfee, hfee'⟩ := fee_range settings
  have hle : Dealer.toBitcoin swap.bitcoinAmount ≤
      Dealer.toBitcoin swap.bitcoinAmount / (1 - settings.fee) :=
    le_div_self (toBitcoin_pos h).le hfee hfee'
  have hlarge : minHedgeAmount ≤ Dealer.toBitcoin swap.bitcoinAmount / (1 - settings.fee) :=
    (large_iff.mp h).trans hle
  have hamount : (20000 : ℤ) ≤
      Dealer.fromBitcoin (Dealer.toBitcoin swap.bitcoinAmount / (1 - settings.fee)) := by
    refine le_trans ?_ (Dealer.fromBitcoin_mono hlarge)
    decide +kernel
  rw [signedBitcoinAmount, if_pos hsend, Dealer.toBitcoin]
  have hpos : (0 : ℚ) <
      (Dealer.fromBitcoin (Dealer.toBitcoin swap.bitcoinAmount / (1 - settings.fee)) : ℤ) := by
    exact_mod_cast lt_of_lt_of_le (by norm_num : (0 : ℤ) < 20000) hamount
  exact div_pos hpos Dealer.coin_pos

/-- A hedge goes the other way than the swap. -/
theorem signedBitcoinAmount_opposite {swap : SwapSucceed} (h : large swap = true) :
    signedBitcoinAmount settings swap * walletChange swap < 0 := by
  have hpos := toBitcoin_pos h
  cases hsend : swap.sendBitcoins with
  | true =>
    have hsigned : 0 < signedBitcoinAmount settings swap := signedBitcoinAmount_pos h hsend
    rw [walletChange, hsend, if_pos rfl]
    exact mul_neg_of_pos_of_neg hsigned (neg_neg_of_pos hpos)
  | false =>
    rw [walletChange, signedBitcoinAmount, hsend, if_neg Bool.false_ne_true, if_neg Bool.false_ne_true]
    exact mul_neg_of_neg_of_pos (neg_neg_of_pos hpos) hpos

/-! ### The invariant -/

/-- What holds of the log and the watched hedges. -/
structure HedgeLog (settings : Settings) (s : State) : Prop where
  submits : s.log.filterMap Event.submitted =
    (s.log.filterMap Event.completion).filterMap (hedge settings)
  cids : (s.log.filterMap Event.cid).Nodup
  watched : ∀ (cid : ℤ) (time : ℕ),
    s.pendingOrders[cid]? = some time ↔ (cid, time) ∈ openHedges s.log
  orders : (s.log.filterMap Event.hedgedOrder).Nodup

/-- Nothing has been hedged. -/
theorem hedgeLog_init : HedgeLog settings .init := by
  refine ⟨rfl, List.nodup_nil, fun cid time => ?_, List.nodup_nil⟩
  rw [State.init, Map.lookup_empty]
  simp [openHedges]

/-- Open hedges have been submitted. -/
theorem openHedges_sublist (log : List Event) :
    ((openHedges log).map Prod.fst).Sublist (log.filterMap Event.cid) := by
  induction log with
  | nil => exact .slnil
  | cons e older ih =>
    cases e with
    | orderSubmit cid amount bookName time => exact ih.cons_cons cid
    | orderConfirm cid => exact (List.filter_sublist.map _).trans ih
    | orderTimeout cid now => exact (List.filter_sublist.map _).trans ih
    | _ => exact ih

/-- A hedge is open once. -/
theorem HedgeLog.openHedges_nodup (hs : HedgeLog settings s) : (openHedges s.log).Nodup :=
  (hs.cids.sublist (openHedges_sublist s.log)).of_map _

/-- The invariant is what is claimed of a state. -/
theorem HedgeLog.hedgedOnce (hs : HedgeLog settings s) : HedgedOnce settings s := by
  refine ⟨hs.submits, fun swap _ hlarge => signedBitcoinAmount_opposite hlarge, hs.cids, ?_, hs.orders⟩
  have hnodup : s.pendingOrders.toList.Nodup := by
    refine List.Nodup.of_map Prod.fst ?_
    rw [Std.ExtTreeMap.map_fst_toList_eq_keys]
    exact Std.ExtTreeMap.nodup_keys
  rw [List.perm_ext_iff_of_nodup hnodup hs.openHedges_nodup]
  rintro ⟨cid, time⟩
  rw [Std.ExtTreeMap.mem_toList_iff_getElem?_eq_some]
  exact hs.watched cid time

/-- The events that have nothing to do with hedges. -/
def Event.quiet : Event → Bool
  | .quoted .. | .psbt .. | .signed .. => true
  | _ => false

/-- A quiet event neither opens nor closes a hedge. -/
theorem openHedges_quiet {e : Event} (he : e.quiet = true) (older : List Event) :
    openHedges (e :: older) = openHedges older := by
  cases e <;> first | rfl | cases he

/-- Quiet events keep the invariant. -/
theorem HedgeLog.quiet (hs : HedgeLog settings s) (events : List Event)
    (hpending : s'.pendingOrders = s.pendingOrders) (hlog : s'.log = events ++ s.log)
    (hevents : ∀ e ∈ events, e.quiet = true) : HedgeLog settings s' := by
  -- what the record selects from the history ignores quiet events
  have hnone : ∀ {β : Type} (f : Event → Option β), (∀ e, e.quiet = true → f e = none) →
      s'.log.filterMap f = s.log.filterMap f := by
    intro β f hf
    rw [hlog, List.filterMap_append, List.filterMap_eq_nil_iff.mpr fun e he => hf e (hevents e he),
      List.nil_append]
  -- and they neither open nor close a hedge
  have hopen : openHedges s'.log = openHedges s.log := by
    rw [hlog]
    clear hlog hnone
    induction events with
    | nil => rfl
    | cons e events ih =>
      rw [List.cons_append, openHedges_quiet (hevents e List.mem_cons_self)]
      exact ih fun e he => hevents e (List.mem_cons_of_mem _ he)
  have hsubmitted := hnone Event.submitted fun e he => by cases e <;> first | rfl | cases he
  have hcompletion := hnone Event.completion fun e he => by cases e <;> first | rfl | cases he
  have hcid := hnone Event.cid fun e he => by cases e <;> first | rfl | cases he
  have horder := hnone Event.hedgedOrder fun e he => by cases e <;> first | rfl | cases he
  refine ⟨?_, ?_, ?_, ?_⟩
  · rw [hsubmitted, hcompletion]
    exact hs.submits
  · rw [hcid]
    exact hs.cids
  · rw [hpending, hopen]
    exact hs.watched
  · rw [horder]
    exact hs.orders

/-! ### The handlers -/

/-- A completed swap is hedged, or is too small. -/
theorem HedgeLog.hedgeOrder (hs : HedgeLog settings s) {orderId : Option OrderId} {swap : SwapSucceed}
    (horder : large swap = true → ∀ X, orderId = some X → X ∉ s.log.filterMap Event.hedgedOrder)
    (hclock : large swap = true → round.clock ∉ s.log.filterMap Event.cid)
    (h : hedgeOrder settings (s.complete orderId swap) round swap = some s') : HedgeLog settings s' := by
  unfold Bitfinex.hedgeOrder at h
  split at h
  · rename_i hlarge
    have hlarge : large swap = true := large_iff.mpr hlarge
    obtain ⟨bookName, hbook, rfl⟩ := Option.map_eq_some_iff.mp h
    have hhedge : hedge settings swap = some (signedBitcoinAmount settings swap, bookName) := by
      rw [hedge, if_pos hlarge, hbook, Option.map_some]
    refine ⟨?_, ?_, fun cid time => ?_, ?_⟩
    · show (signedBitcoinAmount settings swap, bookName) :: s.log.filterMap Event.submitted =
        (swap :: s.log.filterMap Event.completion).filterMap (hedge settings)
      rw [List.filterMap_cons_some hhedge, hs.submits]
    · show (round.clock :: s.log.filterMap Event.cid).Nodup
      exact List.nodup_cons.mpr ⟨hclock hlarge, hs.cids⟩
    · show (s.pendingOrders.insert round.clock round.handled)[cid]? = some time ↔
        (cid, time) ∈ (round.clock, round.handled) :: openHedges s.log
      rw [Map.lookup_insert, List.mem_cons, Prod.mk.injEq]
      by_cases hcid : round.clock = cid
      · rw [if_pos hcid, Option.some.injEq]
        -- the clock has not been used as an id before, so nothing is watched under it
        have hfresh : (cid, time) ∉ openHedges s.log := by
          intro hmem
          refine hclock hlarge ((openHedges_sublist s.log).subset ?_)
          rw [hcid]
          exact List.mem_map_of_mem hmem
        rw [or_iff_left hfresh]
        exact ⟨fun htime => ⟨hcid.symm, htime.symm⟩, fun heq => heq.2.symm⟩
      · rw [if_neg hcid, hs.watched]
        exact (or_iff_right fun heq => hcid heq.1.symm).symm
    · cases orderId with
      | none => exact hs.orders
      | some X =>
        have hcons : (s.complete (some X) swap).log.filterMap Event.hedgedOrder =
            X :: s.log.filterMap Event.hedgedOrder :=
          List.filterMap_cons_some (by rw [Event.hedgedOrder, if_pos hlarge])
        show ((s.complete (some X) swap).log.filterMap Event.hedgedOrder).Nodup
        rw [hcons]
        exact List.nodup_cons.mpr ⟨horder hlarge X rfl, hs.orders⟩
  · rename_i hsmall
    cases h
    have hsmall : large swap = false := Bool.eq_false_iff.mpr fun hl => hsmall (large_iff.mp hl)
    refine ⟨?_, hs.cids, hs.watched, ?_⟩
    · show s.log.filterMap Event.submitted =
        (swap :: s.log.filterMap Event.completion).filterMap (hedge settings)
      rw [List.filterMap_cons_none (by rw [hedge, hsmall, if_neg Bool.false_ne_true])]
      exact hs.submits
    · have hnone : Event.hedgedOrder (.completed orderId swap) = none := by
        cases orderId with
        | none => rfl
        | some X => rw [Event.hedgedOrder, hsmall, if_neg Bool.false_ne_true]
      show ((.completed orderId swap :: s.log).filterMap Event.hedgedOrder).Nodup
      rw [List.filterMap_cons_none hnone]
      exact hs.orders

/-- A hedge that is confirmed or reported is watched no longer. -/
theorem HedgeLog.forget (hs : HedgeLog settings s) {cid : ℤ} {e : Event}
    (hpending : s'.pendingOrders = s.pendingOrders.erase cid) (hlog : s'.log = e :: s.log)
    (hopen : ∀ p : ℤ × ℕ, p ∈ openHedges (e :: s.log) ↔ p ∈ openHedges s.log ∧ p.1 ≠ cid)
    (he : e.submitted = none ∧ e.completion = none ∧ e.cid = none ∧ e.hedgedOrder = none) :
    HedgeLog settings s' := by
  obtain ⟨hsubmitted, hcompletion, hcid, horder⟩ := he
  refine ⟨?_, ?_, fun X time => ?_, ?_⟩
  · rw [hlog, List.filterMap_cons_none hsubmitted, List.filterMap_cons_none hcompletion]
    exact hs.submits
  · rw [hlog, List.filterMap_cons_none hcid]
    exact hs.cids
  · rw [hpending, hlog, hopen, Map.lookup_erase]
    by_cases hX : cid = X
    · simp [hX]
    · rw [if_neg hX, hs.watched]
      exact ⟨fun hmem => ⟨hmem, Ne.symm hX⟩, fun hmem => hmem.1⟩
  · rw [hlog, List.filterMap_cons_none horder]
    exact hs.orders

/-- A hedge that is reported as late was open for the whole time. -/
theorem HedgeLog.expire (hs : HedgeLog settings s) {now : ℕ} {cid : ℤ}
    (hexpired : ∀ time, s.pendingOrders[cid]? = some time → now - time > orderTimeout) :
    HedgeLog settings (s.expire now cid) := by
  refine hs.forget rfl rfl (fun p => ?_) ⟨rfl, rfl, rfl, rfl⟩
  rw [openHedges, List.mem_filter, Bool.not_eq_true', decide_eq_false_iff_not]
  constructor
  · rintro ⟨hmem, hnot⟩
    refine ⟨hmem, fun heq => hnot ⟨heq, hexpired p.2 ?_⟩⟩
    rw [← heq]
    exact (hs.watched p.1 p.2).mpr hmem
  · rintro ⟨hmem, hne⟩
    exact ⟨hmem, fun hand => hne hand.1⟩

/-- The hedges expire one after the other. -/
theorem HedgeLog.expireAll {now : ℕ} {cids : List ℤ} (hs : HedgeLog settings s)
    (hexpired : ∀ cid ∈ cids, ∀ time, s.pendingOrders[cid]? = some time → now - time > orderTimeout) :
    HedgeLog settings (cids.foldl (fun s cid => s.expire now cid) s) := by
  induction cids generalizing s with
  | nil => exact hs
  | cons cid rest ih =>
    refine ih (hs.expire (hexpired cid List.mem_cons_self)) fun X hX time htime => ?_
    have hlookup : (s.pendingOrders.erase cid)[X]? = some time := htime
    rw [Map.lookup_erase] at hlookup
    split at hlookup
    · cases hlookup
    · exact hexpired X (List.mem_cons_of_mem _ hX) time hlookup

/-- What is listed as expired is. -/
theorem expiredOrders_expired {now : ℕ} {cid : ℤ} (hcid : cid ∈ expiredOrders s now) (time : ℕ)
    (htime : s.pendingOrders[cid]? = some time) : now - time > orderTimeout := by
  obtain ⟨p, hp, rfl⟩ := List.mem_map.mp hcid
  obtain ⟨hmem, hexpired⟩ := List.mem_filter.mp hp
  rw [Std.ExtTreeMap.mem_toList_iff_getElem?_eq_some.mp hmem] at htime
  cases htime
  exact of_decide_eq_true hexpired

/-! ### The round -/

/-- The swap that a message reports as complete. -/
def State.completes (s : State) : Msg → Option SwapSucceed
  | .swap orderId (.done txid) => s.swaps[orderId]?.bind fun active => swapDone active txid
  | .dealer swap => some swap
  | _ => none

/-- The order of an RFQ that a message reports as done. -/
def Msg.done : Msg → Option OrderId
  | .swap orderId (.done _) => some orderId
  | _ => none

/-- A swap that is to be hedged is not reported done again, and no other hedge has been submitted in
this millisecond. -/
def State.hedgesApart (s : State) (round : Round) : Bool :=
  (s.completes round.msg).all fun swap => !large swap ||
    (decide (round.clock ∉ s.log.filterMap Event.cid) &&
      round.msg.done.all fun orderId => decide (orderId ∉ s.log.filterMap Event.hedgedOrder))

/-- The same of the round, whose message is handled after the quotes. -/
def HedgesApart (settings : Settings) (s : State) (round : Round) : Prop :=
  (updateQuotes settings s round).all (fun s' => s'.hedgesApart round) = true

instance (settings : Settings) (s : State) (round : Round) : Decidable (HedgesApart settings s round) :=
  inferInstanceAs (Decidable (_ = true))

/-- Quotes do not concern hedges. -/
theorem HedgeLog.updateQuotes (hs : HedgeLog settings s) (h : updateQuotes settings s round = some s') :
    HedgeLog settings s' := by
  obtain ⟨swaps, events, rfl, hevents⟩ := updateQuotes_frame h
  refine hs.quiet events rfl rfl fun e he => ?_
  obtain ⟨orderId, quote, time, rfl⟩ := hevents e he
  rfl

/-- What the condition says of a round that completes a large swap. -/
theorem hedgesApart_of_completes {swap : SwapSucceed} (hapart : s.hedgesApart round = true)
    (hcompletes : s.completes round.msg = some swap) (hlarge : large swap = true) :
    round.clock ∉ s.log.filterMap Event.cid ∧
      ∀ X, round.msg.done = some X → X ∉ s.log.filterMap Event.hedgedOrder := by
  rw [State.hedgesApart, hcompletes, Option.all_some, hlarge, Bool.not_true, Bool.false_or,
    Bool.and_eq_true, decide_eq_true_eq] at hapart
  refine ⟨hapart.1, fun X hX => ?_⟩
  have hfresh := hapart.2
  rw [hX, Option.all_some, decide_eq_true_eq] at hfresh
  exact hfresh

/-- A notification about a swap keeps the invariant. -/
theorem HedgeLog.handleSwap (hs : HedgeLog settings s) {orderId : OrderId} {active : ActiveSwap}
    {state : SwapState} (hmsg : round.msg = .swap orderId state)
    (hactive : s.swaps[orderId]? = some active) (hapart : s.hedgesApart round = true)
    (h : handleSwap settings s round orderId active state = some s') : HedgeLog settings s' := by
  cases state with
  -- a swap that begins or is signed is not hedged yet
  | waitPsbt swap =>
    simp only [Bitfinex.handleSwap, waitPsbt, Option.bind_eq_bind, Option.bind_eq_some_iff,
      Option.some.injEq] at h
    obtain ⟨quote, -, utxos, -, rfl⟩ := h
    refine hs.quiet [_] rfl rfl fun e he => ?_
    rw [List.mem_singleton.mp he]
    rfl
  | waitSign psbt =>
    cases h
    refine hs.quiet [_] rfl rfl fun e he => ?_
    rw [List.mem_singleton.mp he]
    rfl
  | failed error =>
    cases h
    exact hs.quiet [] rfl rfl fun e he => by cases he
  -- a swap that is done is hedged, with an identifier that no other hedge has
  | done txid =>
    simp only [Bitfinex.handleSwap, Option.bind_eq_bind, Option.bind_eq_some_iff] at h
    obtain ⟨swap, hdone, h⟩ := h
    have hcompletes : s.completes round.msg = some swap := by
      rw [hmsg]
      show s.swaps[orderId]?.bind _ = some swap
      rw [hactive, Option.bind_some]
      exact hdone
    have hfresh := hedgesApart_of_completes hapart hcompletes
    refine hs.hedgeOrder (fun hlarge X hX => (hfresh hlarge).2 X ?_) (fun hlarge => (hfresh hlarge).1) h
    rw [hmsg]
    exact hX

/-- A message keeps the invariant. -/
theorem HedgeLog.handle (hs : HedgeLog settings s) (hapart : s.hedgesApart round = true)
    (h : handle settings s round = some s') : HedgeLog settings s' := by
  have hsame : ∀ {s' : State}, s'.pendingOrders = s.pendingOrders → s'.log = s.log → HedgeLog settings s' :=
    fun hpending hlog => hs.quiet [] hpending hlog fun e he => by cases he
  -- one case for each message; only the last two kinds may place a hedge
  unfold Bitfinex.handle at h
  cases hmsg : round.msg <;> rw [hmsg] at h <;> dsimp only at h
  -- what has expired is closed in the exchange and in the history alike
  case timer =>
    cases h
    have hprices : HedgeLog settings { s with modulePrices := freshPrices s.modulePrices round.now } :=
      hsame rfl rfl
    exact hprices.expireAll fun cid hcid => expiredOrders_expired hcid
  case rfqCreated orderId rfq =>
    simp only [rfqCreated, Option.bind_eq_bind, Option.bind_eq_some_iff, Option.some.injEq] at h
    obtain ⟨_, -, _, -, rfl⟩ := h
    exact hsame rfl rfl
  case rfqRemoved orderId accepted =>
    unfold rfqRemoved at h
    split at h
    · obtain ⟨swap, -, rfl⟩ := Option.map_eq_some_iff.mp h
      exact hsame rfl rfl
    · cases h
      exact hsame rfl rfl
  -- an instant swap is hedged when it is done
  case swap orderId state =>
    obtain ⟨active, hactive, h⟩ := Option.bind_eq_some_iff.mp h
    exact hs.handleSwap hmsg hactive hapart h
  case bookUpdate bookName price =>
    obtain ⟨ticker, -, rfl⟩ := Option.map_eq_some_iff.mp h
    exact hsame rfl rfl
  -- a confirmed order is no longer watched
  case orderConfirm cid =>
    cases h
    refine hs.forget rfl rfl (fun p => ?_) ⟨rfl, rfl, rfl, rfl⟩
    rw [openHedges, List.mem_filter, decide_eq_true_eq]
  -- a dealer's swap is hedged when it is reported
  case dealer swap =>
    have hcompletes : s.completes round.msg = some swap := by rw [hmsg]; rfl
    have hfresh := hedgesApart_of_completes hapart hcompletes
    exact hs.hedgeOrder (fun _ X hX => by cases hX) (fun hlarge => (hfresh hlarge).1) h
  all_goals
    cases h
    exact hsame rfl rfl

/-- A round keeps the invariant. -/
theorem HedgeLog.step (hs : HedgeLog settings s) (hapart : HedgesApart settings s round)
    (h : step settings s round = some s') : HedgeLog settings s' := by
  obtain ⟨s₁, hquotes, hhandle⟩ := Option.bind_eq_some_iff.mp h
  rw [HedgesApart, hquotes, Option.all_some] at hapart
  exact (hs.updateQuotes hquotes).handle hapart hhandle

/-- In every run in which no two hedges are submitted in the same millisecond and no swap that is
hedged is reported done again, every completed swap is hedged once and watched. -/
theorem swaps_hedged_once {rounds : List Round}
    (hapart : Runs.Meets (Bitfinex.step settings) (HedgesApart settings) .init rounds)
    (hrun : Runs.run (Bitfinex.step settings) .init rounds = some s) : HedgedOnce settings s := by
  have hlog : HedgeLog settings s :=
    Runs.run_invariant (fun _ _ _ hs hapart h => hs.step hapart h) rounds hedgeLog_init hapart hrun
  exact hlog.hedgedOnce

end

namespace Sample

/-- A swap of the order-book dealer. -/
def dealerSwap (txid : String) : Msg := .dealer ⟨txid, .usdt, 30000, false⟩

/-- A swap that is offered, accepted and signed. -/
def signedSwap : List Round :=
  reloaded [unspent] ++ [round waitPsbtMessage 4000, round (.swap orderId (.waitSign "psbt")) 4500]

/-- The swap of an RFQ and one of the order-book dealer are completed, and the first is
confirmed. -/
def hedged : List Round :=
  signedSwap ++ [round (.swap orderId (.done "txid")) 5000, round (dealerSwap "other") 6000,
    round (.orderConfirm 5000) 7000]

/-- Both are completed in the same millisecond. -/
def hedgedTogether : List Round :=
  signedSwap ++ [round (.swap orderId (.done "txid")) 5000, round (dealerSwap "other") 5000]

theorem hedged_runs : (after hedged).isSome = true := by decide +kernel

theorem hedgedTogether_runs : (after hedgedTogether).isSome = true := by decide +kernel

end Sample

theorem swaps_hedged_once_both :
    let s := (Sample.after Sample.hedged).get Sample.hedged_runs
    s.log.filterMap Event.cid = [6000, 5000] ∧ s.pendingOrders.toList = [(6000, 6000)] ∧
      HedgedOnce Sample.settings s := by
  intro s
  have hrun : Sample.after Sample.hedged = some s := (Option.some_get _).symm
  exact ⟨by decide +kernel, by decide +kernel, swaps_hedged_once (by decide +kernel) hrun⟩

/-- The transaction of a completed swap of the order-book dealer. -/
def Msg.dealerTxid : Msg → Option String
  | .dealer report => some report.txid
  | _ => none

/-- The clock does not go back, and every swap is completed once. -/
def CompletesOnce (rounds : List Round) : Prop :=
  (rounds.map Round.clock).Pairwise (· ≤ ·) ∧ (rounds.filterMap fun r => r.msg.done).Nodup ∧
    (rounds.filterMap fun r => r.msg.dealerTxid).Nodup

/-- Two swaps that are completed in the same millisecond are hedged under one identifier, and a swap
that is reported done again is hedged again. -/
theorem swaps_hedged_together :
    (¬ ∀ (settings : Settings) (rounds : List Round) (s : State), CompletesOnce rounds →
      Runs.run (step settings) .init rounds = some s → HedgedOnce settings s) ∧
    ¬ ∀ (settings : Settings) (rounds : List Round) (round : Round) (s s' : State),
      Runs.run (step settings) .init rounds = some s → step settings s round = some s' →
      (∃ X, round.msg.done = some X ∧ ∃ r ∈ rounds, r.msg.done = some X) →
      s'.log.filterMap Event.cid = s.log.filterMap Event.cid := by
  constructor
  · -- two swaps that are done in the same millisecond share an identifier
    intro hall
    let s := (Sample.after Sample.hedgedTogether).get Sample.hedgedTogether_runs
    have hrun : Sample.after Sample.hedgedTogether = some s := (Option.some_get _).symm
    have hnodup := (hall Sample.settings Sample.hedgedTogether s
      ⟨by decide +kernel, by decide +kernel, by decide +kernel⟩ hrun).cids
    revert hnodup
    decide +kernel
  · -- a second notification for the same swap places a second order
    intro hall
    let round := Sample.round (.swap Sample.orderId (.done "txid")) 8000
    let s := (Sample.after Sample.hedged).get Sample.hedged_runs
    have hrun : Sample.after Sample.hedged = some s := (Option.some_get _).symm
    let s' := (step Sample.settings s round).get (by decide +kernel)
    have hagain : ∃ r ∈ Sample.hedged, r.msg.done = some Sample.orderId :=
      ⟨Sample.round (.swap Sample.orderId (.done "txid")) 5000, List.mem_append_right _ List.mem_cons_self,
        rfl⟩
    have hsame := hall Sample.settings Sample.hedged round s s' hrun (Option.some_get _).symm
      ⟨Sample.orderId, rfl, hagain⟩
    revert hsame
    decide +kernel

end SideSwap.Bitfinex
