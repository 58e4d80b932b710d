import SideSwap.Bitfinex.QuotedCoins

/-!
# The inputs of swaps

A quote is made of free coins, but it reserves none: its coins are reserved when the server asks for
the PSBT of the swap.  Two RFQs may be quoted with the same coin, and if both are accepted, the
second swap takes the coin from the first.

`Book` is the dealer together with the PSBTs that it has sent.  `swaps_apart` says that swaps which
are under way have no input in common, as long as no other order has taken a coin of a quote since
the quote was made (`KeepsApart`).  The invariant is `ApartInv`: the coins of a PSBT are reserved
for its order, and a quote has no coin of the PSBTs that were sent before it.
-/

namespace SideSwap.Bitfinex

open Dealer

/-! ### The PSBTs that were sent -/

/-- A PSBT whose order has not failed since, in the current connection. -/
structure Sent where
  orderId : OrderId
  inputs : List TxOut
  /-- how many events there were before it -/
  index : ℕ
  /-- the swap is complete -/
  done : Bool
deriving DecidableEq

/-- The dealer and the PSBTs that it has sent. -/
structure Book where
  state : State
  sent : List Sent

/-- Nothing has been offered. -/
def Book.init : Book := ⟨.init, []⟩

/-- The offer that an event makes. -/
def Event.sent (index : ℕ) : Event → Option Sent
  | .psbt orderId inputs _ _ => some ⟨orderId, inputs, index, false⟩
  | _ => none

/-- The PSBTs after a message, from the state in which it was handled and the state after it. -/
def sentAfter (s s' : State) (sent : List Sent) : Msg → List Sent
  | .swap _ (.waitPsbt _) => (s'.log.head?.bind (Event.sent s.log.length)).toList ++ sent
  | .swap orderId (.failed _) => sent.filter fun p => p.orderId ≠ orderId
  | .swap orderId (.done _) =>
    sent.map fun p => if p.orderId = orderId then { p with done := true } else p
  | .disconnected => []
  -- a coin of a completed swap that was forgotten does not belong to the swap when it is listed
  -- again
  | .reloadUtxo _ =>
    sent.map fun p => if p.done then { p with inputs := p.inputs.filter s.utxos.contains } else p
  | _ => sent

/-- A turn of the loop, with the offers that it makes. -/
def Book.step (settings : Settings) (b : Book) (round : Round) : Option Book := do
  let s ← updateQuotes settings b.state round
  let s' ← handle settings s round
  some ⟨s', sentAfter s s' b.sent round.msg⟩

/-- The PSBTs are only written down: the dealer takes the same steps. -/
theorem Book.step_eq (settings : Settings) (b : Book) (round : Round) :
    Bitfinex.step settings b.state round = (b.step settings round).map Book.state := by
  rw [Bitfinex.step, Book.step]
  cases updateQuotes settings b.state round with
  | none => rfl
  | some s =>
    show handle settings s round = Option.map Book.state ((handle settings s round).bind _)
    cases handle settings s round <;> rfl

/-- The runs of the dealer are those with the PSBTs written down. -/
theorem Book.run_eq (settings : Settings) (rounds : List Round) (b : Book) :
    Runs.run (Bitfinex.step settings) b.state rounds
      = (Runs.run (Book.step settings) b rounds).map Book.state := by
  induction rounds generalizing b with
  | nil => rfl
  | cons round rest ih =>
    rw [Runs.run, Runs.run, Book.step_eq]
    cases b.step settings round with
    | none => rfl
    | some b' => exact ih b'

/-! ### What is promised -/

/-- Swaps that are under way have no input in common. -/
def SwapsApart (b : Book) : Prop :=
  ∀ p ∈ b.sent, ∀ q ∈ b.sent, p.done = false → q.done = false → p.orderId ≠ q.orderId →
    ∀ txout ∈ p.inputs, txout ∉ q.inputs

instance (b : Book) : Decidable (SwapsApart b) :=
  inferInstanceAs (Decidable (∀ p ∈ b.sent, ∀ q ∈ b.sent, _))

/-- What the wallet knows a coin to be worth. -/
def amountOf (utxos : Utxos) (txout : TxOut) : ℤ := (utxos[txout]?.map Utxo.amount).getD 0

/-- The PSBT takes no coin from another order, and its inputs are what is sent and the change. -/
structure FundedApart (s s' : State) (orderId : OrderId) (swap : Swap) : Prop where
  kept : ∀ (txout : TxOut) (u : Utxo) (other : OrderId), s.utxos[txout]? = some u →
    u.reserve = some other → other ≠ orderId → s'.utxos[txout]? = some u
  funded : ∃ inputs outputs quote, s'.log = .psbt orderId inputs outputs quote :: s.log ∧
    quote.proposal = swap.sendAmount ∧
    (inputs.map (amountOf s'.utxos)).sum = swap.sendAmount + quote.changeAmount

/-! ### The condition -/

/-- How many events there were before the last quote of the amount. -/
def quotedAt (orderId : OrderId) (sendAmount : ℤ) : List Event → ℕ
  | [] => 0
  | .quoted X (.ok quote) _ :: older =>
    if X = orderId ∧ quote.proposal = sendAmount then older.length
    else quotedAt orderId sendAmount older
  | _ :: older => quotedAt orderId sendAmount older

theorem quotedAt_le (orderId : OrderId) (sendAmount : ℤ) (log : List Event) :
    quotedAt orderId sendAmount log ≤ log.length := by
  fun_induction quotedAt orderId sendAmount log with
  | case1 => exact le_rfl
  | case2 => exact Nat.le_succ _
  | case3 => exact Nat.le_succ_of_le ‹_›
  | case4 => exact Nat.le_succ_of_le ‹_›

/-- Since the quote was made no other order has taken one of its coins, and no other coins are
reserved for the order. -/
def Book.quoteOpen (b : Book) (s : State) (orderId : OrderId) (sendAmount : ℤ) (quote : Quote) : Bool :=
  (b.sent.all fun p => p.orderId = orderId || p.index < quotedAt orderId sendAmount s.log ||
    p.inputs.all fun txout => !quote.txouts.contains txout) &&
  s.utxos.values.all fun u => u.reserve ≠ some orderId || quote.txouts.contains u.txOut

/-- A PSBT is asked for while its quote is open, and a reload does not list an input of a swap under
way after it was forgotten. -/
def Book.keepsApart (b : Book) (s : State) : Msg → Bool
  | .swap orderId (.waitPsbt swap) =>
    (s.swaps[orderId]?.bind fun active => chooseQuote active swap.sendAmount).all
      (b.quoteOpen s orderId swap.sendAmount)
  | .reloadUtxo unspent =>
    b.sent.all fun p => p.done || p.inputs.all fun txout =>
      s.utxos.contains txout || !unspent.any fun item => item.txOut = txout
  | _ => true

/-- The same of the round, whose message is handled after the quotes. -/
def KeepsApart (settings : Settings) (b : Book) (round : Round) : Prop :=
  (updateQuotes settings b.state round).all (fun s => b.keepsApart s round.msg) = true

instance (settings : Settings) (b : Book) (round : Round) : Decidable (KeepsApart settings b round) :=
  inferInstanceAs (Decidable (_ = true))

/-- What the wallet lists. -/
def Msg.unspent : Msg → List UnspentItem
  | .reloadUtxo unspent => unspent
  | _ => []

/-- The wallet lists every outpoint with its amount. -/
def Round.lists (value : TxOut → ℤ) (round : Round) : Prop :=
  ∀ item ∈ round.msg.unspent, item.amount = value item.txOut

instance (value : TxOut → ℤ) (round : Round) : Decidable (round.lists value) :=
  inferInstanceAs (Decidable (∀ item ∈ _, _))

/-! ### The invariant -/

section

variable {settings : Settings} {value : TxOut → ℤ} {s s' : State} {sent sent' : List Sent}
  {round : Round} {orderId : OrderId} {swap : ActiveSwap}

/-- What keeps the offers of different orders apart. -/
structure ApartInv (value : TxOut → ℤ) (s : State) (sent : List Sent) : Prop where
  keyed : Keyed s.utxos
  amounts : ∀ (txout : TxOut) (u : Utxo), s.utxos[txout]? = some u → u.amount = value txout
  /-- the coins of a PSBT are reserved for its order -/
  held : ∀ p ∈ sent, ∀ txout ∈ p.inputs, ∀ u, s.utxos[txout]? = some u → u.reserve = some p.orderId
  reserved : ∀ (txout : TxOut) (u : Utxo) (X : OrderId), s.utxos[txout]? = some u → u.reserve = some X →
    ∃ p ∈ sent, p.orderId = X ∧ txout ∈ p.inputs
  apart : ∀ p ∈ sent, ∀ q ∈ sent, p.done = false → q.done = false → p.orderId ≠ q.orderId →
    ∀ txout ∈ p.inputs, txout ∉ q.inputs
  quotes : ∀ (X : OrderId) (swap : ActiveSwap), s.swaps[X]? = some swap → ∀ item ∈ swap.quotesOld,
    item.quote.txouts.Nodup ∧
      (item.quote.txouts.map value).sum = item.quote.proposal + item.quote.changeAmount
  /-- a quote has no coin of the PSBTs before it -/
  since : ∀ (X : OrderId) (swap : ActiveSwap) (sendAmount : ℤ) (quote : Quote),
    s.swaps[X]? = some swap → chooseQuote swap sendAmount = some quote →
    ∀ p ∈ sent, p.orderId ≠ X → p.index < quotedAt X sendAmount s.log →
      ∀ txout ∈ p.inputs, txout ∉ quote.txouts

/-- Nothing has been offered. -/
theorem apartInv_init (value : TxOut → ℤ) : ApartInv value .init [] := by
  have hnone : ∀ txout : TxOut, State.init.utxos[txout]? = none := fun txout => Map.lookup_empty txout
  constructor
  · exact keyed_empty
  · simp [hnone]
  · simp
  · simp [hnone]
  · simp
  · intro X swap hswap
    rw [State.init, Map.lookup_empty] at hswap
    cases hswap
  · simp

/-- The quote that is chosen from the later quotes is the one that is chosen from all. -/
theorem chooseQuote_suffix {old : ActiveSwap} {sendAmount : ℤ} {quote : Quote}
    (hsuffix : swap.quotesOld <:+ old.quotesOld) (hquote : chooseQuote swap sendAmount = some quote) :
    chooseQuote old sendAmount = some quote := by
  obtain ⟨dropped, hdropped⟩ := hsuffix
  obtain ⟨item, hitem, rfl⟩ := Option.map_eq_some_iff.mp hquote
  rw [chooseQuote, ← hdropped, List.reverse_append, List.find?_append, hitem]
  rfl

/-- The quote for an amount is the last one, or one of the others. -/
theorem chooseQuote_snoc {old : ActiveSwap} {last : QuoteTimestamp} {sendAmount : ℤ} {quote : Quote}
    (hlast : swap.quotesOld = old.quotesOld ++ [last])
    (hquote : chooseQuote swap sendAmount = some quote) :
    last.quote.proposal = sendAmount ∧ last.quote = quote ∨
      last.quote.proposal ≠ sendAmount ∧ chooseQuote old sendAmount = some quote := by
  rw [chooseQuote, hlast, List.reverse_append, List.reverse_singleton, List.singleton_append,
    List.find?_cons] at hquote
  by_cases hamount : last.quote.proposal = sendAmount
  · simp only [hamount, decide_true, Option.map_some, Option.some.injEq] at hquote
    exact .inl ⟨hamount, hquote⟩
  · simp only [hamount, decide_false] at hquote
    exact .inr ⟨hamount, hquote⟩

/-- What does not concern coins and quotes: RFQs come without quotes and go, and quotes are
dropped. -/
theorem ApartInv.frame (hs : ApartInv value s sent) (hutxos : s'.utxos = s.utxos)
    (hswaps : ∀ (X : OrderId) (swap : ActiveSwap), s'.swaps[X]? = some swap → swap.quotesOld = [] ∨
      ∃ old, s.swaps[X]? = some old ∧ swap.quotesOld <:+ old.quotesOld)
    (hlog : ∀ X sendAmount, quotedAt X sendAmount s'.log = quotedAt X sendAmount s.log) :
    ApartInv value s' sent := by
  constructor
  · rw [hutxos]
    exact hs.keyed
  · rw [hutxos]
    exact hs.amounts
  · rw [hutxos]
    exact hs.held
  · rw [hutxos]
    exact hs.reserved
  · exact hs.apart
  · -- a quote that is remembered was remembered before
    intro X swap hswap item hitem
    rcases hswaps X swap hswap with hnone | ⟨old, hold, hsuffix⟩
    · rw [hnone] at hitem
      cases hitem
    · exact hs.quotes X old hold item (hsuffix.subset hitem)
  · -- a quote that would be chosen now would have been chosen before
    intro X swap sendAmount quote hswap hquote p hp hne hindex
    rcases hswaps X swap hswap with hnone | ⟨old, hold, hsuffix⟩
    · rw [chooseQuote, hnone] at hquote
      cases hquote
    · rw [hlog] at hindex
      exact hs.since X old sendAmount quote hold (chooseQuote_suffix hsuffix hquote) p hp hne hindex

/-! ### Quotes -/

/-- The coins of a quote are different and have its amount. -/
theorem newQuote_value (hkeyed : Keyed s.utxos)
    (hamounts : ∀ (txout : TxOut) (u : Utxo), s.utxos[txout]? = some u → u.amount = value txout)
    {quote : Quote} (hquote : newQuote settings s swap = some (.ok quote)) :
    quote.txouts.Nodup ∧ (quote.txouts.map value).sum = quote.proposal + quote.changeAmount := by
  obtain ⟨elementsFeeRate, hok⟩ := newQuote_ok hquote
  obtain ⟨asset, taken, htxouts, hsub, hsum⟩ := getNewQuote_coins hok
  -- the coins that were taken are kept under the outpoints of the quote
  have hlookup : ∀ u ∈ taken, s.utxos[u.txOut]? = some u := by
    intro u hu
    obtain ⟨⟨key, hkey⟩, -⟩ := mem_freeCoins (hsub.subset hu)
    rw [hkeyed key u hkey]
    exact hkey
  have hvalues : taken.map Utxo.amount = quote.txouts.map value := by
    rw [← htxouts, List.map_map]
    exact List.map_congr_left fun u hu => hamounts u.txOut u (hlookup u hu)
  refine ⟨?_, by rw [← hvalues, hsum]⟩
  have hnodup : taken.Nodup := by
    obtain ⟨some, hperm, hsome⟩ := hsub
    exact hperm.nodup_iff.mp ((hkeyed.values_nodup.filter _).sublist hsome)
  rw [← htxouts]
  refine hnodup.map_on fun u hu v hv heq => ?_
  have hsame := hlookup u hu
  rw [heq, hlookup v hv] at hsame
  exact (Option.some.inj hsame).symm

/-- A free coin is in no PSBT. -/
theorem ApartInv.not_sent (hs : ApartInv value s sent) {txout : TxOut} {u : Utxo}
    (hu : s.utxos[txout]? = some u) (hfree : u.reserve = none) : ∀ p ∈ sent, txout ∉ p.inputs := by
  intro p hp hmem
  have hheld := hs.held p hp txout hmem u hu
  rw [hfree] at hheld
  cases hheld

/-- Only the swap that is quoted changes. -/
theorem lookup_requote {r : ActiveSwap × List Event} {X : OrderId} {active : ActiveSwap}
    (hX : (s.requote orderId r).swaps[X]? = some active) :
    orderId = X ∧ active = r.1 ∨ orderId ≠ X ∧ s.swaps[X]? = some active := by
  rw [State.requote, Map.lookup_insert] at hX
  split at hX
  · next heq => exact .inl ⟨heq, (Option.some.inj hX).symm⟩
  · next hne => exact .inr ⟨hne, hX⟩

/-- The quotes of an RFQ are dropped, or none is. -/
theorem ApartInv.unquoted (hs : ApartInv value s sent) {active : ActiveSwap} {events : List Event}
    (hswap : s.swaps[orderId]? = some swap) (hsuffix : active.quotesOld <:+ swap.quotesOld)
    (hlog : ∀ X sendAmount, quotedAt X sendAmount (events ++ s.log) = quotedAt X sendAmount s.log) :
    ApartInv value (s.requote orderId (active, events)) sent := by
  refine hs.frame rfl (fun X active' hX => .inr ?_) hlog
  rcases lookup_requote hX with ⟨rfl, rfl⟩ | ⟨-, hX⟩
  · exact ⟨swap, hswap, hsuffix⟩
  · exact ⟨active', hX, List.suffix_refl _⟩

/-- An RFQ gets a new quote of free coins. -/
theorem ApartInv.quoted (hs : ApartInv value s sent) {active : ActiveSwap} {quote : Quote} {time : ℕ}
    (hswap : s.swaps[orderId]? = some swap)
    (hsuffix : active.quotesOld <:+ swap.quotesOld ++ [⟨quote, time⟩])
    (hvalue : quote.txouts.Nodup ∧
      (quote.txouts.map value).sum = quote.proposal + quote.changeAmount)
    (hfree : ∀ txout ∈ quote.txouts, ∃ u, s.utxos[txout]? = some u ∧ u.reserve = none) :
    ApartInv value (s.requote orderId (active, [.quoted orderId (.ok quote) time])) sent := by
  refine ⟨hs.keyed, hs.amounts, hs.held, hs.reserved, hs.apart, ?_, ?_⟩
  · -- the new quote has its value, and the others are as before
    intro X active' hX item hitem
    rcases lookup_requote hX with ⟨rfl, rfl⟩ | ⟨-, hX⟩
    · rcases List.mem_append.mp (hsuffix.subset hitem) with hold | hnew
      · exact hs.quotes orderId swap hswap item hold
      · rw [List.mem_singleton.mp hnew]
        exact hvalue
    · exact hs.quotes X active' hX item hitem
  · -- apart from the new quote nothing has been quoted since
    intro X active' sendAmount chosen hX hchosen p hp hne hindex txout htxout
    have hlog : ¬ (orderId = X ∧ quote.proposal = sendAmount) →
        quotedAt X sendAmount (.quoted orderId (.ok quote) time :: s.log)
          = quotedAt X sendAmount s.log := fun hother => by rw [quotedAt, if_neg hother]
    change p.index < quotedAt X sendAmount (.quoted orderId (.ok quote) time :: s.log) at hindex
    rcases lookup_requote hX with ⟨rfl, rfl⟩ | ⟨hother, hX⟩
    · -- the new quote, or one of before with another amount
      have hall : chooseQuote { swap with quotesOld := swap.quotesOld ++ [⟨quote, time⟩] } sendAmount
          = some chosen := chooseQuote_suffix hsuffix hchosen
      rcases chooseQuote_snoc rfl hall with ⟨-, rfl⟩ | ⟨hamount, hold⟩
      · intro hmem
        obtain ⟨u, hu, hunreserved⟩ := hfree txout hmem
        exact hs.not_sent hu hunreserved p hp htxout
      · rw [hlog fun heq => hamount heq.2] at hindex
        exact hs.since orderId swap sendAmount chosen hswap hold p hp hne hindex txout htxout
    · rw [hlog fun heq => hother heq.1] at hindex
      exact hs.since X active' sendAmount chosen hX hchosen p hp hne hindex txout htxout

/-- The turn of an RFQ. -/
theorem ApartInv.requoted {s₀ : State} (hs : ApartInv value s sent) (hutxos : s.utxos = s₀.utxos)
    {r : ActiveSwap × List Event} (hswap : s.swaps[orderId]? = some swap)
    (hrequoted : Requoted settings s₀ round orderId swap r) :
    ApartInv value (s.requote orderId r) sent := by
  cases hrequoted with
  | same => exact hs.unquoted hswap (List.suffix_refl _) fun _ _ => rfl
  | @sent quote time pending new acknowledged =>
    cases quote with
    | error reason =>
      refine hs.unquoted hswap ?_ fun _ _ => rfl
      show dropOutdated time (swap.quotesOld ++ []) <:+ swap.quotesOld
      rw [List.append_nil]
      exact dropOutdated_suffix time swap.quotesOld
    | ok quote =>
      refine hs.quoted hswap (dropOutdated_suffix time _) ?_ ?_
      · refine newQuote_value ?_ ?_ new <;> rw [← hutxos]
        · exact hs.keyed
        · exact hs.amounts
      · rw [hutxos]
        exact newQuote_free (hutxos ▸ hs.keyed) new

/-- New quotes offer nothing. -/
theorem ApartInv.updateQuotes (hs : ApartInv value s sent)
    (h : updateQuotes settings s round = some s') : ApartInv value s' sent := by
  refine (updateQuotes_each (I := fun s' => ApartInv value s' sent ∧ s'.utxos = s.utxos) ?_
    ⟨hs, rfl⟩ h).1
  rintro s₁ X swap r hX hrequoted ⟨hs₁, hutxos⟩
  exact ⟨hs₁.requoted hutxos hX hrequoted, hutxos⟩

/-! ### Reservations -/

/-- The inputs of an order are the coins reserved for it. -/
theorem mem_reservedInputs {utxos : Utxos} (hkeyed : Keyed utxos) {txout : TxOut} :
    txout ∈ reservedInputs utxos orderId ↔
      ∃ u, utxos[txout]? = some u ∧ u.reserve = some orderId := by
  simp only [reservedInputs, List.mem_map, List.mem_filter, decide_eq_true_eq]
  constructor
  · rintro ⟨u, ⟨hmem, hreserve⟩, rfl⟩
    obtain ⟨key, hkey⟩ := Map.mem_values.mp hmem
    rw [hkeyed key u hkey]
    exact ⟨u, hkey, hreserve⟩
  · rintro ⟨u, hu, hreserve⟩
    exact ⟨u, ⟨Map.mem_values.mpr ⟨txout, hu⟩, hreserve⟩, hkeyed txout u hu⟩

/-- A coin is offered once. -/
theorem reservedInputs_nodup {utxos : Utxos} (hkeyed : Keyed utxos) :
    (reservedInputs utxos orderId).Nodup := by
  refine (hkeyed.values_nodup.filter _).map_on fun u hu v hv heq => ?_
  have hlookup : ∀ w ∈ utxos.values, utxos[w.txOut]? = some w := by
    intro w hw
    obtain ⟨key, hkey⟩ := Map.mem_values.mp hw
    rw [hkeyed key w hkey]
    exact hkey
  have hsame := hlookup u (List.mem_of_mem_filter hu)
  rw [heq, hlookup v (List.mem_of_mem_filter hv)] at hsame
  exact (Option.some.inj hsame).symm

section WaitPsbt

variable {b : Book} {quote : Quote} {sendAmount : ℤ} {utxos : Utxos}

/-- No coin of an open quote is in the PSBT of another order. -/
theorem ApartInv.not_taken (hs : ApartInv value s b.sent) (hswap : s.swaps[orderId]? = some swap)
    (hquote : chooseQuote swap sendAmount = some quote)
    (hopen : b.quoteOpen s orderId sendAmount quote = true) :
    ∀ p ∈ b.sent, p.orderId ≠ orderId → ∀ txout ∈ p.inputs, txout ∉ quote.txouts := by
  intro p hp hne
  have htaken := List.all_eq_true.mp (Bool.and_eq_true_iff.mp hopen).1 p hp
  simp only [Bool.or_eq_true, decide_eq_true_eq, List.all_eq_true, Bool.not_eq_true',
    List.contains_eq_mem, decide_eq_false_iff_not] at htaken
  rcases htaken with (heq | hbefore) | hafter
  · exact absurd heq hne
  · exact hs.since orderId swap sendAmount quote hswap hquote p hp hne hbefore
  · exact hafter

/-- The inputs of the PSBT are the coins of the quote. -/
theorem ApartInv.mem_inputs (hs : ApartInv value s b.sent)
    (hreserve : reserveCoins orderId quote.txouts s.utxos = some utxos)
    (hopen : b.quoteOpen s orderId sendAmount quote = true) {txout : TxOut} :
    txout ∈ reservedInputs utxos orderId ↔ txout ∈ quote.txouts := by
  rw [mem_reservedInputs (hs.keyed.reserveCoins hreserve), lookup_reserveCoins hs.keyed hreserve]
  constructor
  · rintro ⟨v, hv, hreserved⟩
    obtain ⟨u, hu, rfl⟩ := Option.map_eq_some_iff.mp hv
    by_contra hnot
    rw [if_neg hnot] at hreserved
    have hown := List.all_eq_true.mp (Bool.and_eq_true_iff.mp hopen).2 u (Map.mem_values.mpr ⟨_, hu⟩)
    rw [hreserved, hs.keyed txout u hu] at hown
    simp [hnot] at hown
  · intro htxout
    have hthere := (reserveCoins_isSome hs.keyed).mp (Option.isSome_of_eq_some hreserve) txout htxout
    rw [Std.ExtTreeMap.contains_eq_isSome_getElem?] at hthere
    obtain ⟨u, hu⟩ := Option.isSome_iff_exists.mp hthere
    refine ⟨{ u with reserve := some orderId }, ?_, rfl⟩
    rw [hu, Option.map_some, if_pos htxout]

/-- A reservation does not change what a coin is worth. -/
theorem ApartInv.amounts_reserved (hs : ApartInv value s sent)
    (hreserve : reserveCoins orderId quote.txouts s.utxos = some utxos) (txout : TxOut) (u : Utxo)
    (hu : utxos[txout]? = some u) : u.amount = value txout := by
  rw [lookup_reserveCoins hs.keyed hreserve] at hu
  obtain ⟨v, hv, rfl⟩ := Option.map_eq_some_iff.mp hu
  rw [← hs.amounts txout v hv]
  split <;> rfl

/-- The coins of an open quote are reserved, and the PSBT is sent. -/
theorem ApartInv.reserve (hs : ApartInv value s b.sent) {sw : Swap} {outputs : List (AssetId × ℤ)}
    (hswap : s.swaps[orderId]? = some swap) (hquote : chooseQuote swap sendAmount = some quote)
    (hreserve : reserveCoins orderId quote.txouts s.utxos = some utxos)
    (hopen : b.quoteOpen s orderId sendAmount quote = true) :
    ApartInv value
      { s with
        utxos := utxos
        swaps := s.swaps.insert orderId { swap with swap := some sw }
        log := .psbt orderId (reservedInputs utxos orderId) outputs quote :: s.log }
      (⟨orderId, reservedInputs utxos orderId, s.log.length, false⟩ :: b.sent) := by
  have hkeyed := hs.keyed.reserveCoins hreserve
  have hinputs : ∀ txout, txout ∈ reservedInputs utxos orderId ↔ txout ∈ quote.txouts :=
    fun txout => hs.mem_inputs hreserve hopen
  have hapart := hs.not_taken hswap hquote hopen
  have hlookup := lookup_reserveCoins hs.keyed hreserve
  have hswaps : ∀ (X : OrderId) (active : ActiveSwap),
      (s.swaps.insert orderId { swap with swap := some sw })[X]? = some active →
        ∃ old, s.swaps[X]? = some old ∧ active.quotesOld = old.quotesOld := by
    intro X active hX
    rw [Map.lookup_insert] at hX
    split at hX
    · next heq =>
      cases hX
      exact ⟨swap, heq ▸ hswap, rfl⟩
    · exact ⟨active, hX, rfl⟩
  refine ⟨hkeyed, hs.amounts_reserved hreserve, ?_, ?_, ?_, ?_, ?_⟩
  · intro p hp txout htxout v hv
    rcases List.mem_cons.mp hp with rfl | hp
    · obtain ⟨u, hu, hreserved⟩ := (mem_reservedInputs hkeyed).mp htxout
      cases hu.symm.trans hv
      exact hreserved
    · have hv' : utxos[txout]? = some v := hv
      rw [hlookup] at hv'
      obtain ⟨u, hu, rfl⟩ := Option.map_eq_some_iff.mp hv'
      have hheld := hs.held p hp txout htxout u hu
      split
      · next hmem =>
        -- a coin of the quote is in no PSBT of another order
        by_contra hne
        exact hapart p hp (fun heq => hne (by rw [heq])) txout htxout hmem
      · exact hheld
  · intro txout v X hv hX
    have hv' : utxos[txout]? = some v := hv
    rw [hlookup] at hv'
    obtain ⟨u, hu, rfl⟩ := Option.map_eq_some_iff.mp hv'
    split at hX
    · next hmem =>
      cases hX
      exact ⟨_, List.mem_cons_self, rfl, (hinputs txout).mpr hmem⟩
    · obtain ⟨p, hp, horder, hmem⟩ := hs.reserved txout u X hu hX
      exact ⟨p, List.mem_cons_of_mem _ hp, horder, hmem⟩
  · intro p hp q hq hpdone hqdone hne txout htxout hmem
    rcases List.mem_cons.mp hp with rfl | hp <;> rcases List.mem_cons.mp hq with rfl | hq
    · exact hne rfl
    · exact hapart q hq (Ne.symm hne) txout hmem ((hinputs txout).mp htxout)
    · exact hapart p hp hne txout htxout ((hinputs txout).mp hmem)
    · exact hs.apart p hp q hq hpdone hqdone hne txout htxout hmem
  · intro X active hX item hitem
    obtain ⟨old, hold, hsame⟩ := hswaps X active hX
    rw [hsame] at hitem
    exact hs.quotes X old hold item hitem
  · intro X active amount chosen hX hchosen p hp hne hindex
    obtain ⟨old, hold, hsame⟩ := hswaps X active hX
    change p.index < quotedAt X amount s.log at hindex
    rcases List.mem_cons.mp hp with rfl | hp
    · -- the PSBT is newer than all quotes
      have hle := quotedAt_le X amount s.log
      change s.log.length < quotedAt X amount s.log at hindex
      omega
    · have hsuffix : active.quotesOld <:+ old.quotesOld := by
        rw [hsame]
      exact hs.since X old amount chosen hold (chooseQuote_suffix hsuffix hchosen) p hp hne hindex

/-- The PSBT of an open quote takes the coins of the quote and no others. -/
theorem ApartInv.fundedApart (hs : ApartInv value s b.sent) {sw : Swap}
    (hswap : s.swaps[orderId]? = some swap) (hquote : chooseQuote swap sw.sendAmount = some quote)
    (hreserve : reserveCoins orderId quote.txouts s.utxos = some utxos)
    (hopen : b.quoteOpen s orderId sw.sendAmount quote = true) (hutxos : s'.utxos = utxos)
    {outputs : List (AssetId × ℤ)}
    (hlog : s'.log = .psbt orderId (reservedInputs utxos orderId) outputs quote :: s.log) :
    FundedApart s s' orderId sw := by
  have hinputs : ∀ txout, txout ∈ reservedInputs utxos orderId ↔ txout ∈ quote.txouts :=
    fun txout => hs.mem_inputs hreserve hopen
  constructor
  · -- a coin that the swap before had reserved is not among the new inputs
    intro txout u other hu hother hne
    obtain ⟨p, hp, rfl, hmem⟩ := hs.reserved txout u other hu hother
    rw [hutxos, lookup_reserveCoins hs.keyed hreserve, hu, Option.map_some,
      if_neg (hs.not_taken hswap hquote hopen p hp hne txout hmem)]
  · -- the inputs are the coins of the quote in another order, with the amounts of then
    obtain ⟨item, hitem, rfl, hproposal⟩ := mem_quotesOld hquote
    obtain ⟨hnodup, hsum⟩ := hs.quotes orderId swap hswap item hitem
    have hkeyed := hs.keyed.reserveCoins hreserve
    have hperm : (reservedInputs utxos orderId).Perm item.quote.txouts :=
      (List.perm_ext_iff_of_nodup (reservedInputs_nodup hkeyed) hnodup).mpr hinputs
    have hvalue : ∀ txout ∈ reservedInputs utxos orderId, amountOf utxos txout = value txout := by
      intro txout htxout
      obtain ⟨u, hu, -⟩ := (mem_reservedInputs hkeyed).mp htxout
      rw [amountOf, hu, ← hs.amounts_reserved hreserve txout u hu]
      rfl
    refine ⟨_, _, _, hlog, hproposal, ?_⟩
    rw [hutxos, List.map_congr_left hvalue, (hperm.map value).sum_eq, hsum, hproposal]

end WaitPsbt

/-! ### The end of swaps -/

/-- The swap has failed: its coins are free again. -/
theorem ApartInv.failed (hs : ApartInv value s sent) (orderId : OrderId) :
    ApartInv value { s with utxos := freeReservation orderId s.utxos, swaps := s.swaps.erase orderId }
      (sent.filter fun p => p.orderId ≠ orderId) := by
  have hlookup : ∀ (txout : TxOut) (v : Utxo), (freeReservation orderId s.utxos)[txout]? = some v →
      ∃ u, s.utxos[txout]? = some u ∧
        v = if u.reserve = some orderId then { u with reserve := none } else u := by
    intro txout v hv
    rw [freeReservation, Std.ExtTreeMap.getElem?_map, Option.map_eq_some_iff] at hv
    obtain ⟨u, hu, rfl⟩ := hv
    exact ⟨u, hu, rfl⟩
  have hmem : ∀ p ∈ sent.filter fun p => p.orderId ≠ orderId, p ∈ sent ∧ p.orderId ≠ orderId := by
    intro p hp
    simpa using List.mem_filter.mp hp
  have hswaps : ∀ (X : OrderId) (swap : ActiveSwap), (s.swaps.erase orderId)[X]? = some swap →
      s.swaps[X]? = some swap := by
    intro X swap hX
    rw [Map.lookup_erase] at hX
    split at hX
    · cases hX
    · exact hX
  constructor
  · refine hs.keyed.map fun u => ?_
    split <;> rfl
  · intro txout v hv
    obtain ⟨u, hu, rfl⟩ := hlookup txout v hv
    rw [← hs.amounts txout u hu]
    split <;> rfl
  · intro p hp txout htxout v hv
    obtain ⟨hp, hne⟩ := hmem p hp
    obtain ⟨u, hu, rfl⟩ := hlookup txout v hv
    have hheld := hs.held p hp txout htxout u hu
    -- an input of another swap is not reserved for this one, so it isn't freed
    rw [if_neg fun heq => hne (Option.some.inj (hheld.symm.trans heq))]
    exact hheld
  · intro txout v X hv hX
    obtain ⟨u, hu, rfl⟩ := hlookup txout v hv
    split at hX
    · cases hX
    · next hne =>
      obtain ⟨p, hp, rfl, hmem⟩ := hs.reserved txout u X hu hX
      refine ⟨p, List.mem_filter.mpr ⟨hp, ?_⟩, rfl, hmem⟩
      exact decide_eq_true fun heq => hne (by rw [hX, heq])
  · intro p hp q hq
    exact hs.apart p (hmem p hp).1 q (hmem q hq).1
  · intro X swap hX
    exact hs.quotes X swap (hswaps X swap hX)
  · intro X swap sendAmount quote hX hquote p hp
    exact hs.since X swap sendAmount quote (hswaps X swap hX) hquote p (hmem p hp).1

/-- The swap is complete: its coins stay reserved. -/
theorem ApartInv.completed (hs : ApartInv value s sent) (orderId : OrderId) :
    ApartInv value s
      (sent.map fun p => if p.orderId = orderId then { p with done := true } else p) := by
  -- the messages are those of before, some of them marked as done
  have hmem : ∀ p ∈ sent.map fun p => if p.orderId = orderId then { p with done := true } else p,
      ∃ q ∈ sent, p.orderId = q.orderId ∧ p.inputs = q.inputs ∧ p.index = q.index ∧
        (p.done = false → q.done = false) := by
    intro p hp
    obtain ⟨q, hq, rfl⟩ := List.mem_map.mp hp
    refine ⟨q, hq, ?_⟩
    split <;> simp
  -- none of the conditions is about the mark, but for swaps that are not done
  refine ⟨hs.keyed, hs.amounts, ?_, ?_, ?_, hs.quotes, ?_⟩
  · intro p hp
    obtain ⟨q, hq, horder, hinputs, -, -⟩ := hmem p hp
    rw [horder, hinputs]
    exact hs.held q hq
  · -- the swap that holds a coin is still in the list
    intro txout u X hu hX
    obtain ⟨p, hp, horder, htxout⟩ := hs.reserved txout u X hu hX
    refine ⟨_, List.mem_map.mpr ⟨p, hp, rfl⟩, ?_, ?_⟩ <;> split <;> assumption
  · intro p hp q hq hpdone hqdone
    obtain ⟨p₀, hp₀, hporder, hpinputs, -, hpd⟩ := hmem p hp
    obtain ⟨q₀, hq₀, hqorder, hqinputs, -, hqd⟩ := hmem q hq
    rw [hporder, hqorder, hpinputs, hqinputs]
    exact hs.apart p₀ hp₀ q₀ hq₀ (hpd hpdone) (hqd hqdone)
  · intro X swap sendAmount quote hX hquote p hp
    obtain ⟨q, hq, horder, hinputs, hindex, -⟩ := hmem p hp
    rw [horder, hinputs, hindex]
    exact hs.since X swap sendAmount quote hX hquote q hq

/-- Without a connection all offers are void. -/
theorem ApartInv.disconnected (hs : ApartInv value s sent) :
    ApartInv value
      { s with swaps := ∅, utxos := s.utxos.map fun _ u => { u with reserve := none } } [] := by
  have hlookup : ∀ (txout : TxOut) (v : Utxo),
      (s.utxos.map fun _ u => { u with reserve := none })[txout]? = some v →
        ∃ u, s.utxos[txout]? = some u ∧ { u with reserve := none } = v := by
    intro txout v hv
    rw [Std.ExtTreeMap.getElem?_map] at hv
    exact Option.map_eq_some_iff.mp hv
  have hempty : ∀ (X : OrderId) (swap : ActiveSwap), (∅ : Map OrderId ActiveSwap)[X]? ≠ some swap := by
    intro X swap hX
    rw [Map.lookup_empty] at hX
    cases hX
  refine ⟨hs.keyed.map fun _ => rfl, ?_, by simp, ?_, by simp, ?_, by simp⟩
  · intro txout v hv
    obtain ⟨u, hu, rfl⟩ := hlookup txout v hv
    exact hs.amounts txout u hu
  · intro txout v X hv hX
    obtain ⟨u, hu, rfl⟩ := hlookup txout v hv
    cases hX
  · intro X swap hX
    exact absurd hX (hempty X swap)

/-! ### Reloads -/

/-- The wallet is read again, and lists no input of a swap under way that was forgotten. -/
theorem ApartInv.reloaded (hs : ApartInv value s sent) {unspent : List UnspentItem}
    (hvalue : ∀ item ∈ unspent, item.amount = value item.txOut)
    (hknown : ∀ p ∈ sent, p.done = false → ∀ txout ∈ p.inputs, s.utxos.contains txout = true ∨
      unspent.any (fun item => item.txOut = txout) = false) :
    ApartInv value { s with utxos := reloadUtxos s.utxos unspent }
      (sent.map fun p => if p.done then { p with inputs := p.inputs.filter s.utxos.contains } else p) := by
  -- a coin after the reload is an old one, or a free one that the wallet lists and the worker
  -- forgot
  have hlookup : ∀ (txout : TxOut) (u : Utxo), (reloadUtxos s.utxos unspent)[txout]? = some u →
      s.utxos[txout]? = some u ∨ s.utxos.contains txout = false ∧ u.reserve = none ∧
        u.amount = value txout ∧ unspent.any (fun item => item.txOut = txout) = true := by
    intro txout u hu
    rw [lookup_reloadUtxos] at hu
    split at hu
    · next hlisted =>
      rw [lookup_addCoins, Option.or_eq_some_iff] at hu
      rcases hu with hu | ⟨hnone, hu⟩
      · exact .inl hu
      · obtain ⟨item, hitem, rfl⟩ := Option.map_eq_some_iff.mp hu
        have hkey : item.txOut = txout := by simpa using List.find?_some hitem
        refine .inr ⟨(Map.lookup_eq_none_iff _ _).mp hnone, rfl, ?_, hlisted⟩
        rw [← hkey]
        exact hvalue item (List.mem_of_find?_eq_some hitem)
    · cases hu
  -- no swap gets an input, and a swap that is done keeps those that are still known
  have hmem : ∀ p ∈ sent.map fun p =>
      if p.done then { p with inputs := p.inputs.filter s.utxos.contains } else p,
      ∃ q ∈ sent, p.orderId = q.orderId ∧ p.index = q.index ∧ p.done = q.done ∧
        (∀ txout ∈ p.inputs, txout ∈ q.inputs) ∧
        (q.done = true → ∀ txout ∈ p.inputs, s.utxos.contains txout = true) := by
    intro p hp
    obtain ⟨q, hq, rfl⟩ := List.mem_map.mp hp
    refine ⟨q, hq, ?_⟩
    split
    · exact ⟨rfl, rfl, rfl, fun _ h => List.mem_of_mem_filter h, fun _ _ h => (List.mem_filter.mp h).2⟩
    · next hdone => exact ⟨rfl, rfl, rfl, fun _ h => h, fun h => absurd h hdone⟩
  refine ⟨hs.keyed.reloadUtxos unspent, ?_, ?_, ?_, ?_, hs.quotes, ?_⟩
  · intro txout u hu
    rcases hlookup txout u hu with hold | ⟨-, -, hamount, -⟩
    · exact hs.amounts txout u hold
    · exact hamount
  · intro p hp txout htxout u hu
    obtain ⟨q, hq, horder, -, -, hinputs, hdone⟩ := hmem p hp
    rcases hlookup txout u hu with hold | ⟨hforgotten, -, -, hlisted⟩
    · rw [horder]
      exact hs.held q hq txout (hinputs txout htxout) u hold
    · -- a coin that was not known is no input
      have hcontains : s.utxos.contains txout = true := by
        cases hcase : q.done with
        | true => exact hdone hcase txout htxout
        | false =>
          rcases hknown q hq hcase txout (hinputs txout htxout) with hcontains | hunlisted
          · exact hcontains
          · rw [hlisted] at hunlisted
            cases hunlisted
      rw [hforgotten] at hcontains
      cases hcontains
  · intro txout u X hu hX
    rcases hlookup txout u hu with hold | ⟨-, hfree, -, -⟩
    · obtain ⟨p, hp, horder, htxout⟩ := hs.reserved txout u X hold hX
      refine ⟨_, List.mem_map.mpr ⟨p, hp, rfl⟩, ?_, ?_⟩
      · split <;> exact horder
      · split
        · refine List.mem_filter.mpr ⟨htxout, ?_⟩
          rw [Std.ExtTreeMap.contains_eq_isSome_getElem?, hold]
          rfl
        · exact htxout
    · rw [hfree] at hX
      cases hX
  · intro p hp q hq hpdone hqdone hne txout htxout hboth
    obtain ⟨p₀, hp₀, hporder, -, hpd, hpinputs, -⟩ := hmem p hp
    obtain ⟨q₀, hq₀, hqorder, -, hqd, hqinputs, -⟩ := hmem q hq
    rw [hporder, hqorder] at hne
    exact hs.apart p₀ hp₀ q₀ hq₀ (hpd ▸ hpdone) (hqd ▸ hqdone) hne txout (hpinputs txout htxout)
      (hqinputs txout hboth)
  · intro X swap sendAmount quote hX hquote p hp hne hbefore txout htxout
    obtain ⟨q, hq, horder, hindex, -, hinputs, -⟩ := hmem p hp
    rw [horder] at hne
    rw [hindex] at hbefore
    exact hs.since X swap sendAmount quote hX hquote q hq hne hbefore txout (hinputs txout htxout)

/-! ### Messages -/

/-- A message that does not concern RFQs: it adds no quotes to the log. -/
theorem ApartInv.unrelated (hs : ApartInv value s sent) (hutxos : s'.utxos = s.utxos)
    (hswaps : s'.swaps = s.swaps)
    (hlog : ∀ X sendAmount, quotedAt X sendAmount s'.log = quotedAt X sendAmount s.log) :
    ApartInv value s' sent := by
  refine hs.frame hutxos (fun X swap hX => .inr ⟨swap, ?_, List.suffix_refl _⟩) hlog
  rw [← hswaps]
  exact hX

/-- A hedge offers nothing. -/
theorem ApartInv.hedgeOrder (hs : ApartInv value s sent) {swap : SwapSucceed}
    (h : hedgeOrder settings s round swap = some s') : ApartInv value s' sent := by
  unfold Bitfinex.hedgeOrder at h
  split at h
  · obtain ⟨bookName, -, rfl⟩ := Option.map_eq_some_iff.mp h
    exact hs.unrelated rfl rfl fun _ _ => rfl
  · cases h
    exact hs

/-- Neither does a hedge that is late. -/
theorem ApartInv.expire (hs : ApartInv value s sent) (now : ℕ) (cids : List ℤ) :
    ApartInv value (cids.foldl (fun s cid => s.expire now cid) s) sent := by
  induction cids generalizing s with
  | nil => exact hs
  | cons cid rest ih => exact ih (s := s.expire now cid) (hs.unrelated rfl rfl fun _ _ => rfl)

/-- A swap may lose its oldest quotes. -/
theorem ApartInv.insert (hs : ApartInv value s sent) (orderId : OrderId) (swap : ActiveSwap)
    (hquotes : swap.quotesOld = [] ∨
      ∃ old, s.swaps[orderId]? = some old ∧ swap.quotesOld <:+ old.quotesOld) :
    ApartInv value { s with swaps := s.swaps.insert orderId swap } sent := by
  refine hs.frame rfl (fun X active hX => ?_) fun _ _ => rfl
  have hX : (s.swaps.insert orderId swap)[X]? = some active := hX
  rw [Map.lookup_insert] at hX
  split at hX
  · next heq =>
    cases hX
    exact heq ▸ hquotes
  · exact .inr ⟨active, hX, List.suffix_refl _⟩

/-- A swap may be forgotten. -/
theorem ApartInv.erase (hs : ApartInv value s sent) (orderId : OrderId) :
    ApartInv value { s with swaps := s.swaps.erase orderId } sent := by
  refine hs.frame rfl (fun X active hX => ?_) fun _ _ => rfl
  have hX : (s.swaps.erase orderId)[X]? = some active := hX
  rw [Map.lookup_erase] at hX
  split at hX
  · cases hX
  · exact .inr ⟨active, hX, List.suffix_refl _⟩

variable {b : Book}

/-- A notification about a swap keeps the invariant under the condition. -/
theorem ApartInv.handleSwap (hs : ApartInv value s b.sent) {state : SwapState}
    (hswap : s.swaps[orderId]? = some swap)
    (hkeeps : b.keepsApart s (.swap orderId state) = true)
    (h : handleSwap settings s round orderId swap state = some s') :
    ApartInv value s' (sentAfter s s' b.sent (.swap orderId state)) := by
  cases state with
  | waitPsbt sw =>
    have h : Bitfinex.waitPsbt s orderId swap sw = some s' := h
    simp only [Bitfinex.waitPsbt, Option.bind_eq_bind, Option.bind_eq_some_iff, Option.some.injEq] at h
    obtain ⟨quote, hquote, utxos, hreserve, rfl⟩ := h
    rw [Book.keepsApart, hswap, Option.bind_some, hquote, Option.all_some] at hkeeps
    exact hs.reserve hswap hquote hreserve hkeeps
  | waitSign psbt =>
    cases h
    exact hs.unrelated rfl rfl fun _ _ => rfl
  | failed error =>
    cases h
    exact hs.failed orderId
  | done txid =>
    simp only [Bitfinex.handleSwap, Option.bind_eq_bind, Option.bind_eq_some_iff] at h
    obtain ⟨succeeded, -, h⟩ := h
    have hcomplete : ApartInv value (s.complete (some orderId) succeeded) b.sent :=
      hs.unrelated rfl rfl fun _ _ => rfl
    exact (hcomplete.hedgeOrder h).completed orderId

/-- A message keeps the invariant under the condition. -/
theorem ApartInv.handle (hs : ApartInv value s b.sent) (hlists : round.lists value)
    (hkeeps : b.keepsApart s round.msg = true) (h : handle settings s round = some s') :
    ApartInv value s' (sentAfter s s' b.sent round.msg) := by
  unfold Bitfinex.handle at h
  unfold Round.lists at hlists
  cases hmsg : round.msg <;> rw [hmsg] at h hkeeps hlists <;> dsimp only at h
  case timer =>
    cases h
    have hprices : ApartInv value { s with modulePrices := freshPrices s.modulePrices round.now } b.sent :=
      hs.unrelated rfl rfl fun _ _ => rfl
    exact hprices.expire _ _
  case disconnected =>
    cases h
    exact hs.disconnected
  case rfqCreated orderId rfq =>
    simp only [rfqCreated, Option.bind_eq_bind, Option.bind_eq_some_iff, Option.some.injEq] at h
    obtain ⟨_, -, _, -, rfl⟩ := h
    exact hs.insert orderId _ (.inl rfl)
  case rfqRemoved orderId accepted =>
    unfold rfqRemoved at h
    split at h
    · obtain ⟨swap, hswap, rfl⟩ := Option.map_eq_some_iff.mp h
      exact hs.insert orderId _ (.inr ⟨swap, hswap, List.suffix_refl _⟩)
    · cases h
      exact hs.erase orderId
  case swap orderId state =>
    obtain ⟨active, hactive, h⟩ := Option.bind_eq_some_iff.mp h
    exact hs.handleSwap hactive hkeeps h
  case bookUpdate bookName price =>
    obtain ⟨ticker, -, rfl⟩ := Option.map_eq_some_iff.mp h
    exact hs.unrelated rfl rfl fun _ _ => rfl
  case reloadUtxo unspent =>
    cases h
    -- the only place where the condition on the reload is needed
    refine hs.reloaded hlists fun p hp hdone txout htxout => ?_
    have hknown := List.all_eq_true.mp hkeeps p hp
    rw [hdone, Bool.false_or] at hknown
    have hknown := List.all_eq_true.mp hknown txout htxout
    rwa [Bool.or_eq_true, Bool.not_eq_true'] at hknown
  case dealer swap =>
    have hcomplete : ApartInv value (s.complete none swap) b.sent :=
      hs.unrelated rfl rfl fun _ _ => rfl
    exact hcomplete.hedgeOrder h
  all_goals
    cases h
    exact hs.unrelated rfl rfl fun _ _ => rfl

/-- A round keeps the invariant under the condition. -/
theorem ApartInv.step {b' : Book} (hs : ApartInv value b.state b.sent) (hlists : round.lists value)
    (hkeeps : KeepsApart settings b round) (h : b.step settings round = some b') :
    ApartInv value b'.state b'.sent := by
  simp only [Book.step, Option.bind_eq_bind, Option.bind_eq_some_iff, Option.some.injEq] at h
  obtain ⟨s, hquotes, s', hhandle, rfl⟩ := h
  rw [KeepsApart, hquotes, Option.all_some] at hkeeps
  exact (hs.updateQuotes hquotes).handle hlists hkeeps hhandle

end

/-! ### Runs -/

/-- In every run in which the PSBTs are asked for while their quotes are open, swaps under way have
no input in common, no coin is taken from another order, and the inputs of a PSBT are what is sent
and the change. -/
theorem swaps_apart (settings : Settings) (value : TxOut → ℤ) (rounds : List Round) (round : Round)
    (b b' : Book) (hlists : ∀ r ∈ rounds ++ [round], r.lists value)
    (hkeeps : Runs.Meets (Book.step settings) (KeepsApart settings) .init (rounds ++ [round]))
    (hrun : Runs.run (Book.step settings) .init rounds = some b)
    (hstep : b.step settings round = some b') :
    SwapsApart b' ∧ ∀ orderId swap s, round.msg = .swap orderId (.waitPsbt swap) →
      updateQuotes settings b.state round = some s → FundedApart s b'.state orderId swap := by
  obtain ⟨hrounds, hlast, hlisted⟩ := Runs.meets_snoc (hkeeps.and_mem hlists) hrun
  have hinv : ApartInv value b.state b.sent :=
    Runs.run_invariant (I := fun b : Book => ApartInv value b.state b.sent)
      (fun _ _ _ hs hkeeps h => hs.step hkeeps.2 hkeeps.1 h) rounds (apartInv_init value) hrounds hrun
  refine ⟨(hinv.step hlisted hlast hstep).apart, fun orderId swap s hmsg hquotes => ?_⟩
  simp only [Book.step, hquotes, Option.bind_eq_bind, Option.bind_some, Option.bind_eq_some_iff,
    Option.some.injEq, Bitfinex.handle, hmsg] at hstep
  obtain ⟨s', ⟨active, hactive, hwait⟩, rfl⟩ := hstep
  have hwait : waitPsbt s orderId active swap = some s' := hwait
  simp only [waitPsbt, Option.bind_eq_bind, Option.bind_eq_some_iff, Option.some.injEq] at hwait
  obtain ⟨quote, hquote, utxos, hreserve, rfl⟩ := hwait
  rw [KeepsApart, hquotes, Option.all_some, hmsg, Book.keepsApart, hactive, Option.bind_some, hquote,
    Option.all_some] at hlast
  exact (hinv.updateQuotes hquotes).fundedApart hactive hquote hreserve hlast rfl rfl

namespace Sample

/-- Another order. -/
def otherId : OrderId := ⟨"other"⟩

/-- A request for a quote that is quoted. -/
def requested (X : OrderId) : List Round :=
  [round (.rfqCreated X (rfq true 1007500000)) 2000, round .timer 4000]

/-- The server asks for the inputs of an order. -/
def psbtOf (X : OrderId) : Msg := .swap X (.waitPsbt ⟨bitcoinId, 50000, tetherId, 1007500000, 0⟩)

/-- The quote of an order is accepted. -/
def accepted (X : OrderId) : Round := round (.rfqRemoved X true) 5000

/-- The second RFQ comes after the PSBT of the first, and there is a second coin. -/
def inTurn : List Round :=
  quoted ++ [round (.reloadUtxo [unspent, { unspent with txid := "other coin" }]) 1000, accepted orderId,
    round (psbtOf orderId) 5000] ++ requested otherId ++ [accepted otherId]

/-- Both RFQs are quoted with the same coin and accepted. -/
def together : List Round :=
  quoted ++ requested otherId ++ [accepted orderId, accepted otherId, round (psbtOf orderId) 5000]

/-- The dealer and its PSBTs after a run with the sample settings. -/
def bookAfter (rounds : List Round) : Option Book := Runs.run (Book.step settings) .init rounds

theorem inTurn_runs : (bookAfter inTurn).isSome = true := by decide +kernel

theorem together_runs : (bookAfter together).isSome = true := by decide +kernel

theorem inTurn_next :
    (((bookAfter inTurn).get inTurn_runs).step settings (round (psbtOf otherId) 6000)).isSome = true := by
  decide +kernel

theorem together_next :
    (((bookAfter together).get together_runs).step settings (round (psbtOf otherId) 6000)).isSome
      = true := by
  decide +kernel

end Sample

open Sample in
theorem swaps_apart_inTurn :
    ∃ b', ((bookAfter inTurn).get inTurn_runs).step settings (round (psbtOf otherId) 6000) = some b' ∧
      b'.sent.length = 2 ∧ SwapsApart b' := by
  let b := (bookAfter inTurn).get inTurn_runs
  have hrun : Runs.run (Book.step settings) .init inTurn = some b := (Option.some_get inTurn_runs).symm
  have hstep := (Option.some_get inTurn_next).symm
  refine ⟨_, hstep, by decide +kernel, ?_⟩
  exact (swaps_apart settings (fun _ => 100000) inTurn _ b _ (by decide +kernel) (by decide +kernel) hrun
    hstep).1

open Sample in
/-- Two quotes of the same coin are accepted, and both PSBTs spend it. -/
theorem swaps_share_coin :
    ¬ ∀ (settings : Settings) (value : TxOut → ℤ) (rounds : List Round) (round : Round) (b b' : Book),
      (∀ r ∈ rounds ++ [round], r.lists value) →
      Runs.Meets (Book.step settings) (fun b round => b.state.promised round = true) .init
        (rounds ++ [round]) →
      Runs.run (Book.step settings) .init rounds = some b → b.step settings round = some b' →
        SwapsApart b' := by
  intro hall
  let b := (bookAfter together).get together_runs
  have hrun : Runs.run (Book.step settings) .init together = some b :=
    (Option.some_get together_runs).symm
  have hapart := hall settings (fun _ => 100000) together _ b _ (by decide +kernel) (by decide +kernel)
    hrun (Option.some_get together_next).symm
  revert hapart
  decide +kernel

end SideSwap.Bitfinex
