import SideSwap.Bitfinex.QuoteBound
import SideSwap.Bitfinex.Rounds

/-!
# The coins of an accepted quote

A quote names its coins by their outpoints and reserves nothing.  The server may accept it later,
and the dealer then looks its coins up again.  In the meantime the wallet may be read again, and a
coin that is not listed any more is forgotten, whether it belongs to a quote or not.

The coins of an accepted quote are there in every run in which no reload leaves out a coin of a
quote that can still be accepted.
-/

namespace SideSwap.Bitfinex

open Dealer

section

variable {settings : Settings} {s s' : State} {round : Round}

/-- The coins of the quotes are there, as long as the PSBT of the swap has not been asked for. -/
structure Held (s : State) : Prop where
  keyed : Keyed s.utxos
  coins : ∀ (orderId : OrderId) (swap : ActiveSwap), s.swaps[orderId]? = some swap → swap.swap = none →
    ∀ item ∈ swap.quotesOld, ∀ txout ∈ item.quote.txouts, s.utxos.contains txout = true

/-- A reload lists the coins of all quotes that can still be accepted, and the PSBT of a swap is
asked for once. -/
def State.keepsCoins (s : State) : Msg → Bool
  | .reloadUtxo unspent =>
    s.swaps.toList.all fun p => p.2.swap.isSome ||
      p.2.quotesOld.all fun item => item.quote.txouts.all fun txout =>
        unspent.any fun coin => coin.txOut = txout
  | .swap orderId (.waitPsbt _) => s.swaps[orderId]?.all fun active => active.swap.isNone
  | _ => true

/-- The same of the round, whose message is handled after the quotes. -/
def KeepsCoins (settings : Settings) (s : State) (round : Round) : Prop :=
  (updateQuotes settings s round).all (fun s' => s'.keepsCoins round.msg) = true

instance (settings : Settings) (s : State) (round : Round) : Decidable (KeepsCoins settings s round) :=
  inferInstanceAs (Decidable (_ = true))

/-- Nothing has been quoted. -/
theorem held_init : Held .init := by
  refine ⟨keyed_empty, fun orderId swap hswap => ?_⟩
  rw [State.init, Map.lookup_empty] at hswap
  cases hswap

/-- A new quote is of coins that are there. -/
theorem Held.requoted (hs : Held s) {orderId : OrderId} {swap swap' : ActiveSwap} {events : List Event}
    (hswap : s.swaps[orderId]? = some swap)
    (hrequoted : Requoted settings s round orderId swap (swap', events)) (hwaiting : swap'.swap = none) :
    ∀ item ∈ swap'.quotesOld, ∀ txout ∈ item.quote.txouts, s.utxos.contains txout = true := by
  cases hrequoted with
  | same => exact hs.coins orderId swap hswap hwaiting
  | sent pending new acknowledged =>
    intro item hitem txout htxout
    have hmem := (dropOutdated_suffix _ _).subset hitem
    rcases List.mem_append.mp hmem with hold | hnew
    · exact hs.coins orderId swap hswap hwaiting item hold txout htxout
    · rename_i quote time
      cases quote with
      | error reason => cases hnew
      | ok q =>
        cases List.mem_singleton.mp hnew
        obtain ⟨u, hu, -⟩ := newQuote_free hs.keyed new txout htxout
        rw [Std.ExtTreeMap.contains_eq_isSome_getElem?, hu]
        rfl

/-- A quote is made of coins that are there. -/
theorem Held.updateQuotes (hs : Held s) (h : updateQuotes settings s round = some s') : Held s' := by
  obtain ⟨swaps, events, hs', -⟩ := updateQuotes_frame h
  have hutxos : s'.utxos = s.utxos := by rw [hs']
  refine ⟨?_, fun orderId swap' hswap' hwaiting => ?_⟩
  · rw [hutxos]
    exact hs.keyed
  · obtain ⟨swap, events, hswap, hrequoted⟩ := updateQuotes_swaps h hswap'
    rw [hutxos]
    exact hs.requoted hswap hrequoted hwaiting

/-- A swap whose PSBT has been asked for holds nothing back, and one without quotes neither. -/
theorem Held.insert (hs : Held s) (orderId : OrderId) (swap : ActiveSwap)
    (hswap : swap.swap = none → ∀ item ∈ swap.quotesOld, ∀ txout ∈ item.quote.txouts,
      s.utxos.contains txout = true) :
    Held { s with swaps := s.swaps.insert orderId swap } := by
  refine ⟨hs.keyed, fun X active hactive hwaiting => ?_⟩
  rw [Map.lookup_insert] at hactive
  split at hactive
  · cases hactive
    exact hswap hwaiting
  · exact hs.coins X active hactive hwaiting

/-- A table that loses no coin keeps the invariant. -/
theorem Held.of_utxos (hs : Held s) {utxos : Utxos} (hkeyed : Keyed utxos)
    (hcontains : ∀ key, s.utxos.contains key = true → utxos.contains key = true) :
    Held { s with utxos := utxos } :=
  ⟨hkeyed, fun X swap hswap hwaiting item hitem txout htxout =>
    hcontains txout (hs.coins X swap hswap hwaiting item hitem txout htxout)⟩

/-- Without a swap there is less to hold. -/
theorem Held.erase (hs : Held s) (orderId : OrderId) :
    Held { s with swaps := s.swaps.erase orderId } := by
  refine ⟨hs.keyed, fun X swap hswap => ?_⟩
  rw [Map.lookup_erase] at hswap
  split at hswap
  · cases hswap
  · exact hs.coins X swap hswap

/-- To reserve coins loses none. -/
theorem Held.waitPsbt (hs : Held s) {orderId : OrderId} {active : ActiveSwap} {swap : Swap}
    (h : waitPsbt s orderId active swap = some s') : Held s' := by
  simp only [Bitfinex.waitPsbt, Option.bind_eq_bind, Option.bind_eq_some_iff, Option.some.injEq] at h
  obtain ⟨quote, -, utxos, hreserve, rfl⟩ := h
  have hkept : Held { s with utxos := utxos } := by
    refine hs.of_utxos (hs.keyed.reserveCoins hreserve) fun key hkey => ?_
    rw [contains_reserveCoins hs.keyed hreserve]
    exact hkey
  have hinsert := hkept.insert orderId { active with swap := some swap } fun hnone => by cases hnone
  exact ⟨hinsert.keyed, hinsert.coins⟩

/-- A hedge does not concern the coins. -/
theorem Held.hedgeOrder (hs : Held s) {swap : SwapSucceed}
    (h : hedgeOrder settings s round swap = some s') : Held s' := by
  unfold Bitfinex.hedgeOrder at h
  split at h
  · obtain ⟨bookName, -, rfl⟩ := Option.map_eq_some_iff.mp h
    exact ⟨hs.keyed, hs.coins⟩
  · cases h
    exact hs

/-- A notification about a swap keeps the invariant. -/
theorem Held.handleSwap (hs : Held s) {orderId : OrderId} {active : ActiveSwap} {state : SwapState}
    (h : handleSwap settings s round orderId active state = some s') : Held s' := by
  cases state with
  | waitPsbt swap => exact hs.waitPsbt h
  | waitSign psbt =>
    cases h
    exact ⟨hs.keyed, hs.coins⟩
  | failed error =>
    cases h
    have hfree : Held { s with utxos := freeReservation orderId s.utxos } := by
      refine hs.of_utxos (hs.keyed.map fun u => ?_) fun key hkey => ?_
      · split <;> rfl
      · rw [freeReservation, contains_map]
        exact hkey
    exact hfree.erase orderId
  | done txid =>
    simp only [Bitfinex.handleSwap, Option.bind_eq_bind, Option.bind_eq_some_iff] at h
    obtain ⟨swap, -, h⟩ := h
    have hcomplete : Held (s.complete (some orderId) swap) := ⟨hs.keyed, hs.coins⟩
    exact hcomplete.hedgeOrder h

theorem Held.expire (hs : Held s) (now : ℕ) (cids : List ℤ) :
    Held (cids.foldl (fun s cid => s.expire now cid) s) := by
  induction cids generalizing s with
  | nil => exact hs
  | cons cid rest ih => exact ih (s := s.expire now cid) ⟨hs.keyed, hs.coins⟩

/-- The messages keep the coins, if the reloads do. -/
theorem Held.handle (hs : Held s) (hkeeps : s.keepsCoins round.msg = true)
    (h : handle settings s round = some s') : Held s' := by
  unfold Bitfinex.handle at h
  cases hmsg : round.msg <;> rw [hmsg] at h hkeeps <;> dsimp only at h
  case timer =>
    cases h
    have hprices : Held { s with modulePrices := freshPrices s.modulePrices round.now } :=
      ⟨hs.keyed, hs.coins⟩
    exact hprices.expire _ _
  case disconnected =>
    cases h
    refine ⟨hs.keyed.map (fun _ => rfl), fun orderId swap hswap => ?_⟩
    rw [Map.lookup_empty] at hswap
    cases hswap
  case rfqCreated orderId rfq =>
    simp only [rfqCreated, Option.bind_eq_bind, Option.bind_eq_some_iff, Option.some.injEq] at h
    obtain ⟨_, -, _, -, rfl⟩ := h
    exact hs.insert orderId _ fun _ item hitem => by cases hitem
  case rfqRemoved orderId accepted =>
    unfold rfqRemoved at h
    split at h
    · obtain ⟨swap, hswap, rfl⟩ := Option.map_eq_some_iff.mp h
      exact hs.insert orderId _ (hs.coins orderId swap hswap)
    · cases h
      exact hs.erase orderId
  case swap orderId state =>
    obtain ⟨active, -, h⟩ := Option.bind_eq_some_iff.mp h
    exact hs.handleSwap h
  case bookUpdate bookName price =>
    obtain ⟨ticker, -, rfl⟩ := Option.map_eq_some_iff.mp h
    exact ⟨hs.keyed, hs.coins⟩
  case reloadUtxo unspent =>
    cases h
    refine ⟨hs.keyed.reloadUtxos unspent, fun orderId swap hswap hwaiting item hitem txout htxout => ?_⟩
    rw [contains_reloadUtxos]
    -- the reload lists the coins of the quote
    have hmem : (orderId, swap) ∈ s.swaps.toList :=
      Std.ExtTreeMap.mem_toList_iff_getElem?_eq_some.mpr hswap
    have hlisted := List.all_eq_true.mp hkeeps _ hmem
    rw [hwaiting, Option.isSome_none, Bool.false_or] at hlisted
    exact List.all_eq_true.mp (List.all_eq_true.mp hlisted item hitem) txout htxout
  case dealer swap =>
    have hcomplete : Held (s.complete none swap) := ⟨hs.keyed, hs.coins⟩
    exact hcomplete.hedgeOrder h
  all_goals
    cases h
    exact ⟨hs.keyed, hs.coins⟩

/-- A round keeps the invariant, if the node still lists the coins that are quoted. -/
theorem Held.step (hs : Held s) (hkeeps : KeepsCoins settings s round)
    (h : step settings s round = some s') : Held s' := by
  obtain ⟨s₁, hquotes, hhandle⟩ := Option.bind_eq_some_iff.mp h
  rw [KeepsCoins, hquotes, Option.all_some] at hkeeps
  exact (hs.updateQuotes hquotes).handle hkeeps hhandle

/-! ### Runs -/

/-- When the PSBT of a swap is asked for, the coins of its quote are there and can be reserved. -/
def CoinsThere (settings : Settings) (s : State) (round : Round) : Prop :=
  ∀ (s' : State) (orderId : OrderId) (swap : Swap) (active : ActiveSwap) (quote : Quote),
    updateQuotes settings s round = some s' → round.msg = .swap orderId (.waitPsbt swap) →
    s'.swaps[orderId]? = some active → chooseQuote active swap.sendAmount = some quote →
    (∀ txout ∈ quote.txouts, s'.utxos.contains txout = true) ∧
      (reserveCoins orderId quote.txouts s'.utxos).isSome = true

/-- A quote that is chosen has been sent. -/
theorem mem_quotesOld {active : ActiveSwap} {sendAmount : ℤ} {quote : Quote}
    (h : chooseQuote active sendAmount = some quote) :
    ∃ item ∈ active.quotesOld, item.quote = quote ∧ quote.proposal = sendAmount := by
  obtain ⟨item, hitem, rfl⟩ := Option.map_eq_some_iff.mp h
  have hproposal := List.find?_some hitem
  exact ⟨item, List.mem_reverse.mp (List.mem_of_find?_eq_some hitem), rfl,
    of_decide_eq_true hproposal⟩

/-- In such a state the coins of every accepted quote are there. -/
theorem Held.coinsThere (hs : Held s) (hkeeps : KeepsCoins settings s round) :
    CoinsThere settings s round := by
  intro s' orderId swap active quote hquotes hmsg hactive hquote
  have hheld := hs.updateQuotes hquotes
  rw [KeepsCoins, hquotes, Option.all_some, hmsg] at hkeeps
  have hwaiting : active.swap = none := by
    have hnone : s'.swaps[orderId]?.all (fun active => active.swap.isNone) = true := hkeeps
    rw [hactive, Option.all_some, Option.isNone_iff_eq_none] at hnone
    exact hnone
  obtain ⟨item, hitem, rfl, -⟩ := mem_quotesOld hquote
  have hcoins := hheld.coins orderId active hactive hwaiting item hitem
  exact ⟨hcoins, (reserveCoins_isSome hheld.keyed).mpr hcoins⟩

/-- In every run in which no reload leaves out a coin of a quote that can still be accepted, the
coins of every accepted quote are there. -/
theorem accepted_coins_there {rounds : List Round}
    (hkeeps : Runs.Meets (step settings) (KeepsCoins settings) .init (rounds ++ [round]))
    (hrun : Runs.run (step settings) .init rounds = some s) : CoinsThere settings s round := by
  obtain ⟨hrounds, hlast⟩ := Runs.meets_snoc hkeeps hrun
  have hheld : Held s := Runs.run_invariant (fun _ _ _ hs hkeeps h => hs.step hkeeps h) rounds held_init
    hrounds hrun
  exact hheld.coinsThere hlast

end

namespace Sample

/-- The settings of the samples. -/
def settings : Settings := { args with bookUsdt := "tBTCUST", bookEurx := "tBTCEUR" }

/-- The order of the samples. -/
def orderId : OrderId := ⟨"order"⟩

/-- A round in which the server acknowledges all quotes. -/
def round (msg : Msg) (now : ℕ) : Round :=
  { msg := msg, now := now, quoted := fun _ => some now, handled := now, clock := now }

/-- A coin as the node lists it. -/
def unspent : UnspentItem :=
  { txid := "coin", vout := 0, asset := bitcoinId, amount := 100000, confirmations := 1 }

/-- Half of the coin is quoted. -/
def quoted : List Round :=
  [round (.connected assets 0) 0, round (.bookUpdate "tBTCUST" ⟨20000, 20100⟩) 0,
    round (.walletUpdate "USDT" 1000000) 0, round (.reloadUtxo [unspent]) 0,
    round (.rfqCreated orderId (rfq true 1007500000)) 0, round .timer 1000]

/-- The server asks for the inputs of the order. -/
def waitPsbtMessage : Msg := .swap orderId (.waitPsbt ⟨bitcoinId, 50000, tetherId, 1007500000, 0⟩)

/-- The quote is accepted and the wallet is read again. -/
def reloaded (coins : List UnspentItem) : List Round :=
  quoted ++ [round (.rfqRemoved orderId true) 2000, round (.reloadUtxo coins) 3000]

/-- The state after a run with the sample settings. -/
def after (rounds : List Round) : Option State := Runs.run (step settings) .init rounds

theorem kept_runs : (after (reloaded [unspent])).isSome = true := by decide +kernel

theorem forgotten_runs : (after (reloaded [])).isSome = true := by decide +kernel

end Sample

/-- The quote is accepted, and its coin is still listed. -/
theorem accepted_coins_there_kept :
    let s := (Sample.after (Sample.reloaded [Sample.unspent])).get Sample.kept_runs
    (Sample.after (Sample.reloaded [Sample.unspent] ++ [Sample.round Sample.waitPsbtMessage 4000])).isSome
        = true ∧
      CoinsThere Sample.settings s (Sample.round Sample.waitPsbtMessage 4000) := by
  intro s
  have hrun : Sample.after (Sample.reloaded [Sample.unspent]) = some s := (Option.some_get _).symm
  exact ⟨by decide +kernel, accepted_coins_there (by decide +kernel) hrun⟩

/-- The server has acknowledged a quote of the amount in the grace period. -/
def Event.acknowledges (orderId : OrderId) (sendAmount : ℤ) (now : ℕ) : Event → Bool
  | .quoted X (.ok quote) time =>
    X = orderId && quote.proposal = sendAmount && now ≤ time + acceptGracePeriod
  | _ => false

/-- The server asks for the PSBT of a known order only, with the amount of a quote that it has
acknowledged in the grace period. -/
def State.promised (s : State) (round : Round) : Bool :=
  match round.msg with
  | .swap orderId (.waitPsbt swap) =>
    s.swaps.contains orderId && s.log.any (Event.acknowledges orderId swap.sendAmount round.now)
  | _ => true

/-- The quote is accepted, and its coin is spent before the PSBT is asked for. -/
theorem accepted_coins_forgotten :
    ¬ ∀ (settings : Settings) (rounds : List Round) (round : Round) (s : State),
      Runs.Meets (step settings) (fun s round => s.promised round = true) .init (rounds ++ [round]) →
      Runs.run (step settings) .init rounds = some s → CoinsThere settings s round := by
  intro hall
  let s := (Sample.after (Sample.reloaded [])).get Sample.forgotten_runs
  have hrun : Sample.after (Sample.reloaded []) = some s := (Option.some_get _).symm
  let round := Sample.round Sample.waitPsbtMessage 4000
  let s' := (updateQuotes Sample.settings s round).get (by decide +kernel)
  let active := s'.swaps[Sample.orderId]?.get (by decide +kernel)
  let quote := (chooseQuote active 50000).get (by decide +kernel)
  have hthere := hall Sample.settings (Sample.reloaded []) round s (by decide +kernel) hrun s'
    Sample.orderId _ active quote (Option.some_get _).symm rfl (Option.some_get _).symm
    (Option.some_get _).symm
  revert hthere
  decide +kernel

end SideSwap.Bitfinex
