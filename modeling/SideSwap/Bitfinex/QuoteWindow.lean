import SideSwap.Bitfinex.QuotedCoins

/-!
# The quotes that may still be accepted

A quote may be accepted until the grace period after its successor was sent is over.  The dealer
drops old quotes only when it sends a new one, and drops the oldest while the one after it is too
old.  What it keeps is therefore the same as if it had kept all quotes and dropped the old ones at
the last update (`quoteRun_window`): a quote whose successor is still within the period, or that has
none, is kept with everything after it, and is found by its amount (`quotes_remembered`).
-/

namespace SideSwap.Bitfinex

/-! ### The window -/

/-- Dropping twice is dropping once, at the later time. -/
theorem dropOutdated_append {t₁ t₂ : ℕ} (h : t₁ ≤ t₂) (quotes new : List QuoteTimestamp) :
    dropOutdated t₂ (dropOutdated t₁ quotes ++ new) = dropOutdated t₂ (quotes ++ new) := by
  fun_induction dropOutdated t₁ quotes with
  | case1 first second rest hold ih =>
    have hold' : t₂ - second.timestamp > acceptGracePeriod := by omega
    rw [ih, List.cons_append, List.cons_append, List.cons_append]
    conv_rhs => rw [dropOutdated, if_pos hold']
  | case2 => rfl
  | case3 => rfl

/-- A quote is kept, with all that follow, while its successor is not too old. -/
theorem drop_suffix_dropOutdated {now : ℕ} {quotes : List QuoteTimestamp} {i : ℕ}
    (h : ∀ next, quotes[i + 1]? = some next → now - next.timestamp ≤ acceptGracePeriod) :
    quotes.drop i <:+ dropOutdated now quotes := by
  fun_induction dropOutdated now quotes generalizing i with
  | case1 first second rest hold ih =>
    cases i with
    | zero =>
      have := h second rfl
      omega
    | succ i => exact ih h
  | case2 => exact List.drop_suffix _ _
  | case3 => exact List.drop_suffix _ _

/-! ### Runs -/

/-- A round in which a new quote is made. -/
structure Update where
  round : Round
  quote : Except RfqRejectReason Quote

/-- The RFQ after the quotes, and what was sent, newest first. -/
def quoteRun (orderId : OrderId) (swap : ActiveSwap) (updates : List Update) :
    ActiveSwap × List Event :=
  updates.foldl (fun (swap, log) update =>
    let (swap, events) := sendQuote update.round orderId swap update.quote
    (swap, events ++ log)) (swap, [])

/-- The time of an acknowledged quote. -/
def Event.quotedTime : Event → Option ℕ
  | .quoted _ _ time => some time
  | _ => none

/-- A quote that was acknowledged and is not an error. -/
def Event.sentQuote : Event → Option QuoteTimestamp
  | .quoted _ (.ok quote) time => some ⟨quote, time⟩
  | _ => none

/-- The acknowledged quotes in the order of sending. -/
def sentQuotes (log : List Event) : List QuoteTimestamp := log.reverse.filterMap Event.sentQuote

/-- The times of the acknowledged quotes do not decrease. -/
def Ordered (log : List Event) : Prop := (log.reverse.filterMap Event.quotedTime).Pairwise (· ≤ ·)

instance (log : List Event) : Decidable (Ordered log) :=
  inferInstanceAs (Decidable (List.Pairwise _ _))

/-- The last update comes after the others. -/
theorem quoteRun_concat (orderId : OrderId) (swap : ActiveSwap) (updates : List Update)
    (update : Update) :
    quoteRun orderId swap (updates ++ [update]) =
      ((sendQuote update.round orderId (quoteRun orderId swap updates).1 update.quote).1,
        (sendQuote update.round orderId (quoteRun orderId swap updates).1 update.quote).2
          ++ (quoteRun orderId swap updates).2) := by
  rw [quoteRun, List.foldl_append]
  rfl

/-- An update sends nothing, or its quote at the time of the acknowledgement. -/
theorem sendQuote_cases (round : Round) (orderId : OrderId) (swap : ActiveSwap)
    (quote : Except RfqRejectReason Quote) :
    sendQuote round orderId swap quote = (swap, [])
      ∨ ∃ time, sendQuote round orderId swap quote =
        ({ swap with
            quotesOld := dropOutdated time
              (swap.quotesOld ++ (quote.toOption.map fun q => ⟨q, time⟩).toList)
            quoteLast := quote, lastUpdated := time },
          [.quoted orderId quote time]) := by
  unfold sendQuote
  split
  · exact .inl rfl
  split
  · exact .inl rfl
  split
  · exact .inl rfl
  · exact .inr ⟨_, rfl⟩

/-- A quote that is sent is the newest. -/
theorem sentQuotes_cons (orderId : OrderId) (quote : Except RfqRejectReason Quote) (time : ℕ)
    (log : List Event) :
    sentQuotes (.quoted orderId quote time :: log)
      = sentQuotes log ++ (quote.toOption.map fun q => ⟨q, time⟩).toList := by
  unfold sentQuotes
  rw [List.reverse_cons, List.filterMap_append]
  cases quote <;> rfl

/-- What is kept are all acknowledged quotes without those that are too old at the last update. -/
theorem quoteRun_window (orderId : OrderId) {swap : ActiveSwap} (hnew : swap.quotesOld = [])
    (updates : List Update) (hordered : Ordered (quoteRun orderId swap updates).2) :
    (quoteRun orderId swap updates).1.quotesOld
      = dropOutdated (quoteRun orderId swap updates).1.lastUpdated
        (sentQuotes (quoteRun orderId swap updates).2)
    ∧ (sentQuotes (quoteRun orderId swap updates).2 = []
      ∨ (quoteRun orderId swap updates).1.lastUpdated
        ∈ (quoteRun orderId swap updates).2.reverse.filterMap Event.quotedTime) := by
  -- the last update is the time of the newest acknowledged quote, unless there is none
  induction updates using List.reverseRecOn with
  | nil => exact ⟨hnew, .inl rfl⟩
  | append_singleton updates update ih =>
    rw [quoteRun_concat] at hordered ⊢
    set before := quoteRun orderId swap updates
    obtain hsame | ⟨time, hsent⟩ :=
      sendQuote_cases update.round orderId before.1 update.quote
    · rw [hsame] at hordered ⊢
      exact ih hordered
    · rw [hsent] at hordered ⊢
      rw [Ordered, List.singleton_append, List.reverse_cons, List.filterMap_append,
        List.pairwise_append] at hordered
      obtain ⟨hbefore, -, hlater⟩ := hordered
      obtain ⟨hkept, hlast⟩ := ih hbefore
      refine ⟨?_, .inr ?_⟩
      · rw [List.singleton_append, sentQuotes_cons, hkept]
        rcases hlast with hnone | hlast
        · rw [hnone]
          rfl
        · exact dropOutdated_append (hlater _ hlast time (List.mem_singleton_self time)) _ _
      · rw [List.singleton_append, List.reverse_cons, List.filterMap_append, List.mem_append]
        exact .inr (List.mem_singleton_self time)

/-! ### The quote of an accepted swap -/

/-- Among the kept quotes, the search by amount finds the one that it would find among all. -/
theorem chooseQuote_of_suffix {swap : ActiveSwap} {sent : List QuoteTimestamp} {amount : ℤ}
    {item : QuoteTimestamp} (hsuffix : swap.quotesOld <:+ sent) (hmem : item ∈ swap.quotesOld)
    (hamount : item.quote.proposal = amount) :
    ∃ quote, chooseQuote swap amount = some quote ∧ quote.proposal = amount
      ∧ (sent.reverse.find? fun item => item.quote.proposal = amount).map QuoteTimestamp.quote
        = some quote := by
  obtain ⟨dropped, rfl⟩ := hsuffix
  have hsome : (swap.quotesOld.reverse.find? fun item => item.quote.proposal = amount).isSome := by
    rw [List.find?_isSome]
    exact ⟨item, List.mem_reverse.mpr hmem, by simpa using hamount⟩
  obtain ⟨found, hfound⟩ := Option.isSome_iff_exists.mp hsome
  refine ⟨found.quote, ?_, by simpa using List.find?_some hfound, ?_⟩
  · rw [chooseQuote, hfound]
    rfl
  · rw [List.reverse_append, List.find?_append, hfound]
    rfl

/-- For every run of quotes for one RFQ whose times do not decrease: what is kept is the end of what
was sent.  A quote whose successor was sent within the grace period before the last update, or that
has no successor, is kept with all that follow; and the search by its amount finds the most recent
one of that amount. -/
theorem quotes_remembered (orderId : OrderId) (swap : ActiveSwap) (updates : List Update)
    (new : swap.quotesOld = []) (ordered : Ordered (quoteRun orderId swap updates).2) :
    (quoteRun orderId swap updates).1.quotesOld <:+ sentQuotes (quoteRun orderId swap updates).2
    ∧ ∀ i item, (sentQuotes (quoteRun orderId swap updates).2)[i]? = some item →
      (∀ next, (sentQuotes (quoteRun orderId swap updates).2)[i + 1]? = some next →
        (quoteRun orderId swap updates).1.lastUpdated - next.timestamp ≤ acceptGracePeriod) →
      (sentQuotes (quoteRun orderId swap updates).2).drop i
        <:+ (quoteRun orderId swap updates).1.quotesOld
      ∧ ∃ quote, chooseQuote (quoteRun orderId swap updates).1 item.quote.proposal = some quote
        ∧ quote.proposal = item.quote.proposal
        ∧ ((sentQuotes (quoteRun orderId swap updates).2).reverse.find? fun other =>
          other.quote.proposal = item.quote.proposal).map QuoteTimestamp.quote = some quote := by
  obtain ⟨hkept, -⟩ := quoteRun_window orderId new updates ordered
  set after := quoteRun orderId swap updates
  have hsuffix : after.1.quotesOld <:+ sentQuotes after.2 := hkept ▸ dropOutdated_suffix _ _
  refine ⟨hsuffix, fun i item hitem hnext => ?_⟩
  have hdrop : (sentQuotes after.2).drop i <:+ after.1.quotesOld :=
    hkept ▸ drop_suffix_dropOutdated hnext
  refine ⟨hdrop, ?_⟩
  have hmem : item ∈ (sentQuotes after.2).drop i := by
    apply List.mem_of_getElem?
    rw [List.getElem?_drop, add_zero]
    exact hitem
  exact chooseQuote_of_suffix hsuffix (hdrop.subset hmem) rfl

namespace Sample

/-- Two quotes of one amount; between them a refused one and an error. -/
def updates : List Update :=
  [⟨round .timer 1000, .ok ⟨100, 0, []⟩⟩,
    ⟨{ round .timer 2500 with quoted := fun _ => none }, .ok ⟨101, 0, []⟩⟩,
    ⟨round .timer 3000, .error .amountHigh⟩, ⟨round .timer 4000, .ok ⟨100, 5, []⟩⟩]

end Sample

/-- The first quote is kept, and the second of its amount is found. -/
theorem quotes_remembered_same_amount :
    let after := quoteRun Sample.orderId (Sample.swap true 1) Sample.updates
    sentQuotes after.2 = [⟨⟨100, 0, []⟩, 1000⟩, ⟨⟨100, 5, []⟩, 4000⟩]
      ∧ (sentQuotes after.2).drop 0 <:+ after.1.quotesOld
      ∧ ∃ quote, chooseQuote after.1 100 = some quote ∧ quote.proposal = 100
        ∧ ((sentQuotes after.2).reverse.find? fun other => other.quote.proposal = 100).map
          QuoteTimestamp.quote = some quote := by
  intro after
  refine ⟨by decide, (quotes_remembered Sample.orderId (Sample.swap true 1) Sample.updates rfl
    (by decide)).2 0 ⟨⟨100, 0, []⟩, 1000⟩ rfl ?_⟩
  intro next hnext
  cases hnext
  decide

end SideSwap.Bitfinex
