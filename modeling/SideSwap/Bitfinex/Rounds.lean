import SideSwap.Bitfinex.Loop

/-!
# What a round does

The coins under their outpoints, the quotes that a round adds, and the first part of a round as a
whole.  The invariants of the dealer are proved from these.
-/

namespace SideSwap.Bitfinex

open Dealer Call

/-! ### Coins -/

/-- Coins are kept under their outpoints. -/
def Keyed (utxos : Utxos) : Prop := ∀ (key : TxOut) (u : Utxo), utxos[key]? = some u → u.txOut = key

/-- Nothing is in the table. -/
theorem keyed_empty : Keyed ∅ := by
  intro key u hu
  rw [Map.lookup_empty] at hu
  cases hu

/-- A coin is entered under its outpoint. -/
theorem Keyed.insert {utxos : Utxos} (h : Keyed utxos) (u : Utxo) : Keyed (utxos.insert u.txOut u) := by
  intro key v hv
  rw [Map.lookup_insert] at hv
  split at hv
  · rename_i hkey
    cases hv
    exact hkey
  · exact h key v hv

/-- A change that keeps the outpoint. -/
theorem Keyed.map {utxos : Utxos} (h : Keyed utxos) {f : Utxo → Utxo}
    (hf : ∀ u, (f u).txOut = u.txOut) : Keyed (utxos.map fun _ u => f u) := by
  intro key v hv
  rw [Std.ExtTreeMap.getElem?_map, Option.map_eq_some_iff] at hv
  obtain ⟨u, hu, rfl⟩ := hv
  rw [hf]
  exact h key u hu

/-- No coin is kept twice. -/
theorem Keyed.values_nodup {utxos : Utxos} (h : Keyed utxos) : utxos.values.Nodup := by
  have hkeys : utxos.toList.Pairwise (fun p q => ¬ compare p.1 q.1 = .eq) :=
    Std.ExtTreeMap.distinct_keys_toList
  rw [Map.values_eq, List.nodup_iff_pairwise_ne, List.pairwise_map]
  refine hkeys.imp_of_mem fun {p q} hp hq hne heq => hne ?_
  have hkey : ∀ r ∈ utxos.toList, r.2.txOut = r.1 := fun r hr =>
    h r.1 r.2 (Std.ExtTreeMap.mem_toList_iff_getElem?_eq_some.mp hr)
  rw [← hkey p hp, ← hkey q hq, heq]
  exact Std.compare_self

/-- A change of the coins keeps the keys. -/
theorem contains_map (utxos : Utxos) (f : TxOut → Utxo → Utxo) (key : TxOut) :
    (utxos.map f).contains key = utxos.contains key :=
  Std.ExtTreeMap.contains_map

/-- The coins before those that are not listed are removed. -/
def addCoins (utxos : Utxos) (unspent : List UnspentItem) : Utxos :=
  unspent.foldl (fun m item =>
    if m.contains item.txOut then m else m.insert item.txOut item.utxo) utxos

/-- A new coin is free. -/
theorem lookup_addCoins (utxos : Utxos) (unspent : List UnspentItem) (key : TxOut) :
    (addCoins utxos unspent)[key]? =
      utxos[key]?.or ((unspent.find? fun item => item.txOut = key).map UnspentItem.utxo) := by
  induction unspent generalizing utxos with
  | nil => rw [List.find?_nil, Option.map_none, Option.or_none]; rfl
  | cons item rest ih =>
    have hcons : addCoins utxos (item :: rest) =
        addCoins (if utxos.contains item.txOut then utxos else utxos.insert item.txOut item.utxo) rest := rfl
    rw [hcons, ih, List.find?_cons]
    -- a coin that is there already is not replaced
    by_cases hcontains : utxos.contains item.txOut = true
    · rw [if_pos hcontains]
      by_cases hkey : item.txOut = key
      · obtain ⟨u, hu⟩ : ∃ u, utxos[key]? = some u := by
          rw [hkey, Std.ExtTreeMap.contains_eq_isSome_getElem?] at hcontains
          exact Option.isSome_iff_exists.mp hcontains
        rw [hu]
        rfl
      · simp only [hkey, decide_false]
    · -- otherwise the coin is new, and the rest of the list cannot replace it
      rw [if_neg hcontains, Map.lookup_insert]
      by_cases hkey : item.txOut = key
      · have hnone : utxos[key]? = none := by
          rw [Map.lookup_eq_none_iff, ← hkey]
          exact Bool.eq_false_iff.mpr hcontains
        simp [hkey, hnone]
      · simp only [hkey, if_false, decide_false]

/-- After a reload the table has what the node lists. -/
theorem lookup_reloadUtxos (utxos : Utxos) (unspent : List UnspentItem) (key : TxOut) :
    (reloadUtxos utxos unspent)[key]? =
      if unspent.any (fun item => item.txOut = key) then (addCoins utxos unspent)[key]? else none := by
  show ((addCoins utxos unspent).filter fun key _ => unspent.any fun item => item.txOut = key)[key]? = _
  rw [Std.ExtTreeMap.getElem?_filter']
  cases (addCoins utxos unspent)[key]? with
  | none => simp
  | some u => rw [Option.filter_some]

/-- Listed coins are entered under their outpoints. -/
theorem Keyed.reloadUtxos {utxos : Utxos} (h : Keyed utxos) (unspent : List UnspentItem) :
    Keyed (reloadUtxos utxos unspent) := by
  intro key u hu
  rw [lookup_reloadUtxos] at hu
  split at hu
  · rw [lookup_addCoins, Option.or_eq_some_iff] at hu
    rcases hu with hu | ⟨-, hu⟩
    · exact h key u hu
    · obtain ⟨item, hitem, rfl⟩ := Option.map_eq_some_iff.mp hu
      have hkey := List.find?_some hitem
      exact of_decide_eq_true hkey
  · cases hu

/-- After a reload the coins are those that were listed. -/
theorem contains_reloadUtxos (utxos : Utxos) (unspent : List UnspentItem) (key : TxOut) :
    (reloadUtxos utxos unspent).contains key = unspent.any fun item => item.txOut = key := by
  rw [Std.ExtTreeMap.contains_eq_isSome_getElem?, lookup_reloadUtxos]
  split
  · rename_i hlisted
    rw [hlisted, lookup_addCoins, Option.isSome_or, Option.isSome_map, Bool.or_eq_true]
    exact .inr (List.find?_isSome.mpr (List.any_eq_true.mp hlisted))
  · rename_i hlisted
    rw [Option.isSome_none]
    exact (Bool.eq_false_iff.mpr hlisted).symm

/-! ### Reservations -/

/-- The coin of an outpoint is found under it. -/
theorem find_coin {utxos : Utxos} (h : Keyed utxos) (txout : TxOut) :
    utxos.toList.find? (fun p => p.2.txid = txout.txid && p.2.vout = txout.vout) =
      utxos[txout]?.map fun u => (txout, u) := by
  -- a coin is filed under its own outpoint, so that a search by the outpoint finds its entry
  have hmatch : ∀ p ∈ utxos.toList,
      (p.2.txid = txout.txid && p.2.vout = txout.vout) = true ↔ p.1 = txout := by
    intro p hp
    have hlookup : utxos[p.1]? = some p.2 := Std.ExtTreeMap.mem_toList_iff_getElem?_eq_some.mp hp
    have hkey := h p.1 p.2 hlookup
    rw [← hkey, Bool.and_eq_true, decide_eq_true_eq, decide_eq_true_eq]
    obtain ⟨txid, vout⟩ := txout
    exact (TxOut.mk.injEq _ _ _ _ ▸ Iff.rfl)
  -- the search fails together with the lookup, and finds the same coin
  cases hu : utxos[txout]? with
  | none =>
    rw [Option.map_none, List.find?_eq_none]
    intro p hp hfound
    have hlookup : utxos[p.1]? = some p.2 := Std.ExtTreeMap.mem_toList_iff_getElem?_eq_some.mp hp
    rw [(hmatch p hp).mp hfound, hu] at hlookup
    cases hlookup
  | some u =>
    have hmem : (txout, u) ∈ utxos.toList := Std.ExtTreeMap.mem_toList_iff_getElem?_eq_some.mpr hu
    cases hfound : utxos.toList.find? fun p => p.2.txid = txout.txid && p.2.vout = txout.vout with
    | none => exact absurd ((hmatch _ hmem).mpr rfl) (List.find?_eq_none.mp hfound _ hmem)
    | some p =>
      have hp := List.mem_of_find?_eq_some hfound
      have hkey := (hmatch p hp).mp (by simpa using List.find?_some hfound)
      have hlookup : utxos[p.1]? = some p.2 := Std.ExtTreeMap.mem_toList_iff_getElem?_eq_some.mp hp
      rw [hkey, hu] at hlookup
      obtain ⟨key, v⟩ := p
      cases hkey
      cases hlookup
      rfl

/-- In a keyed table the search is a lookup. -/
theorem reserveCoins_cons {utxos : Utxos} (h : Keyed utxos) (orderId : OrderId) (txout : TxOut)
    (rest : List TxOut) :
    reserveCoins orderId (txout :: rest) utxos =
      utxos[txout]?.bind fun u =>
        reserveCoins orderId rest (utxos.insert txout { u with reserve := some orderId }) := by
  simp only [reserveCoins, find_coin h, Option.bind_eq_bind, Option.bind_map]
  rfl

/-- A reservation keeps the outpoint. -/
theorem Keyed.reserve {utxos : Utxos} (h : Keyed utxos) (orderId : OrderId) {txout : TxOut} {u : Utxo}
    (hu : utxos[txout]? = some u) :
    Keyed (utxos.insert txout { u with reserve := some orderId }) := by
  rw [← h txout u hu]
  exact h.insert { u with reserve := some orderId }

/-- The coins of the list are reserved, the others stay as they are. -/
theorem lookup_reserveCoins {orderId : OrderId} {txouts : List TxOut} {utxos utxos' : Utxos}
    (h : Keyed utxos) (hreserve : reserveCoins orderId txouts utxos = some utxos') (key : TxOut) :
    utxos'[key]? =
      utxos[key]?.map fun u => if key ∈ txouts then { u with reserve := some orderId } else u := by
  induction txouts generalizing utxos with
  | nil =>
    cases hreserve
    simp
  | cons txout rest ih =>
    rw [reserveCoins_cons h] at hreserve
    obtain ⟨u, hu, hrest⟩ := Option.bind_eq_some_iff.mp hreserve
    rw [ih (h.reserve orderId hu) hrest, Map.lookup_insert]
    by_cases hkey : txout = key
    · subst hkey
      simp [hu]
    · simp only [if_neg hkey, List.mem_cons, Ne.symm hkey, false_or]

theorem Keyed.reserveCoins {orderId : OrderId} {txouts : List TxOut} {utxos utxos' : Utxos}
    (h : Keyed utxos) (hreserve : reserveCoins orderId txouts utxos = some utxos') : Keyed utxos' := by
  intro key v hv
  rw [lookup_reserveCoins h hreserve, Option.map_eq_some_iff] at hv
  obtain ⟨u, hu, rfl⟩ := hv
  have hkey := h key u hu
  split <;> exact hkey

/-- To reserve coins keeps the keys. -/
theorem contains_reserveCoins {orderId : OrderId} {txouts : List TxOut} {utxos utxos' : Utxos}
    (h : Keyed utxos) (hreserve : reserveCoins orderId txouts utxos = some utxos') (key : TxOut) :
    utxos'.contains key = utxos.contains key := by
  rw [Std.ExtTreeMap.contains_eq_isSome_getElem?, lookup_reserveCoins h hreserve, Option.isSome_map,
    Std.ExtTreeMap.contains_eq_isSome_getElem?]

/-- The coins can be reserved if they are all there. -/
theorem reserveCoins_isSome {orderId : OrderId} {txouts : List TxOut} {utxos : Utxos} (h : Keyed utxos) :
    (reserveCoins orderId txouts utxos).isSome = true ↔
      ∀ txout ∈ txouts, utxos.contains txout = true := by
  induction txouts generalizing utxos with
  | nil => simp [reserveCoins]
  | cons txout rest ih =>
    rw [reserveCoins_cons h, List.forall_mem_cons, Std.ExtTreeMap.contains_eq_isSome_getElem?]
    cases hu : utxos[txout]? with
    | none => simp
    | some u =>
      rw [Option.bind_some, ih (h.reserve orderId hu)]
      have hcontains : ∀ key, (utxos.insert txout { u with reserve := some orderId }).contains key =
          utxos.contains key := by
        intro key
        rw [Std.ExtTreeMap.contains_eq_isSome_getElem?, Map.lookup_insert,
          Std.ExtTreeMap.contains_eq_isSome_getElem?]
        split
        · rename_i hkey
          rw [← hkey, hu, Option.isSome_some, Option.isSome_some]
        · rfl
      simp only [hcontains, Option.isSome_some, true_and]

/-! ### Quotes -/

section

variable {settings : Settings} {s s' : State} {round : Round} {orderId : OrderId} {swap : ActiveSwap}
  {quote : Quote}

/-- The coins of a quote are different free coins of one asset, and they are what is sent and the
change. -/
theorem getNewQuote_coins {assets : List Asset} {price : Option Price} {utxos : Utxos}
    {elementsFeeRate interest : ℚ} {args : Args} {balances : ExchangeBalances}
    (h : getNewQuote assets price swap utxos elementsFeeRate interest args balances = .ok quote) :
    ∃ (asset : AssetId) (taken : List Utxo), taken.map Utxo.txOut = quote.txouts ∧
      taken.Subperm (freeCoins utxos asset) ∧
      (taken.map Utxo.amount).sum = quote.proposal + quote.changeAmount := by
  obtain ⟨price, proposal, selected, txouts, -, -, -, -, -, -, htaken, hfinish⟩ := getNewQuote_ok h
  obtain ⟨taken, htxouts, hamounts, hsub⟩ := takeCoins_subperm htaken
  obtain ⟨hcoins, hchange, -⟩ := finishQuote_ok hfinish
  refine ⟨swap.rfq.recvAsset, taken, htxouts.trans hcoins.symm, hsub, ?_⟩
  rw [hamounts, hchange]
  ring

/-- A free coin is in the table and not reserved. -/
theorem mem_freeCoins {utxos : Utxos} {asset : AssetId} {u : Utxo} (h : u ∈ freeCoins utxos asset) :
    (∃ key : TxOut, utxos[key]? = some u) ∧ u.reserve = none := by
  obtain ⟨hmem, hfree⟩ := List.mem_filter.mp h
  rw [Bool.and_eq_true, Option.isNone_iff_eq_none] at hfree
  exact ⟨Map.mem_values.mp hmem, hfree.2⟩

/-- A quote was computed with the fee rate of the server. -/
theorem newQuote_ok (h : newQuote settings s swap = some (.ok quote)) :
    ∃ elementsFeeRate, getNewQuote s.assets (swap.ticker.bind s.modulePrices) swap s.utxos elementsFeeRate
      interestDefault settings.toArgs s.exchangeBalances = .ok quote := by
  simp only [newQuote, Option.bind_eq_bind, Option.bind_eq_some_iff] at h
  obtain ⟨elementsFeeRate, -, hquote⟩ := h
  refine ⟨elementsFeeRate, ?_⟩
  split at hquote
  · rename_i hok
    cases hquote
    exact hok
  · cases hquote
  · cases hquote

/-- The coins of a new quote are there and free. -/
theorem newQuote_free (hkeyed : Keyed s.utxos) (h : newQuote settings s swap = some (.ok quote)) :
    ∀ txout ∈ quote.txouts, ∃ u, s.utxos[txout]? = some u ∧ u.reserve = none := by
  obtain ⟨elementsFeeRate, hquote⟩ := newQuote_ok h
  obtain ⟨asset, taken, htxouts, hsub, -⟩ := getNewQuote_coins hquote
  intro txout htxout
  rw [← htxouts, List.mem_map] at htxout
  obtain ⟨u, hu, rfl⟩ := htxout
  obtain ⟨⟨key, hkey⟩, hfree⟩ := mem_freeCoins (hsub.subset hu)
  rw [hkeyed key u hkey]
  exact ⟨u, hkey, hfree⟩

/-- Only the oldest quotes are dropped. -/
theorem dropOutdated_suffix (now : ℕ) (quotes : List QuoteTimestamp) :
    dropOutdated now quotes <:+ quotes := by
  fun_induction dropOutdated now quotes with
  | case1 first second rest h ih => exact ih.trans (List.suffix_cons _ _)
  | case2 => exact List.suffix_refl _
  | case3 => exact List.suffix_refl _

/-- What a round does to an RFQ before its message is handled. -/
inductive Requoted (settings : Settings) (s : State) (round : Round) (orderId : OrderId)
    (swap : ActiveSwap) : ActiveSwap × List Event → Prop where
  | same : Requoted settings s round orderId swap (swap, [])
  | sent {quote : Except RfqRejectReason Quote} {time : ℕ} (pending : swap.accepted = false)
      (new : newQuote settings s swap = some quote) (acknowledged : round.quoted orderId = some time) :
      Requoted settings s round orderId swap
        ({ swap with
            quotesOld := dropOutdated time
              (swap.quotesOld ++ (quote.toOption.map fun q => ⟨q, time⟩).toList)
            quoteLast := quote, lastUpdated := time },
          [.quoted orderId quote time])

/-- An update is one of the cases of `Requoted`. -/
theorem updateQuote_cases {r : ActiveSwap × List Event}
    (h : updateQuote settings s round orderId swap = some r) :
    Requoted settings s round orderId swap r := by
  unfold updateQuote at h
  split at h
  · cases h
    exact .same
  · rename_i hpending
    obtain ⟨quote, hnew, rfl⟩ := Option.map_eq_some_iff.mp h
    unfold sendQuote
    split
    · exact .same
    split
    · exact .same
    split
    · exact .same
    · rename_i time htime
      exact .sent (Bool.eq_false_iff.mpr hpending) hnew htime

/-- What holds before the quotes are sent and is kept by each of them holds after them. -/
theorem updateQuotes_invariant {I : State → Prop}
    (hstep : ∀ (s' : State) (orderId : OrderId) (swap : ActiveSwap) (r : ActiveSwap × List Event),
      s.swaps[orderId]? = some swap → Requoted settings s round orderId swap r → I s' →
        I (s'.requote orderId r))
    (hs : I s) (h : updateQuotes settings s round = some s') : I s' := by
  refine Runs.run_invariant_of_mem ?_ hs h
  intro s₁ p s₂ hp hI hupdate
  obtain ⟨r, hr, rfl⟩ := Option.map_eq_some_iff.mp hupdate
  exact hstep s₁ p.1 p.2 r (Std.ExtTreeMap.mem_toList_iff_getElem?_eq_some.mp hp) (updateQuote_cases hr) hI

/-- The same, where each RFQ is as before until its turn comes. -/
theorem updateQuotes_each {I : State → Prop}
    (hstep : ∀ (s' : State) (orderId : OrderId) (swap : ActiveSwap) (r : ActiveSwap × List Event),
      s'.swaps[orderId]? = some swap → Requoted settings s round orderId swap r → I s' →
        I (s'.requote orderId r))
    (hs : I s) (h : updateQuotes settings s round = some s') : I s' := by
  -- over the pairs that are left: their keys are distinct, and their swaps are still as they were
  have hrest : ∀ (pairs : List (OrderId × ActiveSwap)) (s₁ : State),
      pairs.Pairwise (fun a b => ¬ compare a.1 b.1 = .eq) →
      (∀ p ∈ pairs, s₁.swaps[p.1]? = some p.2) → I s₁ →
      Runs.run (fun s' p => (updateQuote settings s round p.1 p.2).map (s'.requote p.1)) s₁ pairs
        = some s' → I s' := by
    intro pairs
    induction pairs with
    | nil =>
      intro s₁ _ _ hI hrun
      cases hrun
      exact hI
    | cons p rest ih =>
      intro s₁ hdistinct hswaps hI hrun
      obtain ⟨hother, hdistinct⟩ := List.pairwise_cons.mp hdistinct
      cases hupdate : updateQuote settings s round p.1 p.2 with
      | none => simp [Runs.run, hupdate] at hrun
      | some r =>
        simp only [Runs.run, hupdate, Option.map_some] at hrun
        refine ih (s₁.requote p.1 r) hdistinct (fun q hq => ?_) ?_ hrun
        · -- a requote changes no other swap
          have hne : ¬ p.1 = q.1 := fun heq => hother q hq (by rw [heq]; exact Std.compare_self)
          rw [State.requote, Map.lookup_insert, if_neg hne]
          exact hswaps q (List.mem_cons_of_mem _ hq)
        · exact hstep s₁ p.1 p.2 r (hswaps p List.mem_cons_self) (updateQuote_cases hupdate) hI
  refine hrest s.swaps.toList s Std.ExtTreeMap.distinct_keys_toList (fun p hp => ?_) hs h
  exact Std.ExtTreeMap.mem_toList_iff_getElem?_eq_some.mp hp

/-- The quotes leave everything but the RFQs alone. -/
theorem updateQuotes_frame (h : updateQuotes settings s round = some s') :
    ∃ swaps events, s' = { s with swaps := swaps, log := events ++ s.log } ∧
      ∀ e ∈ events, ∃ orderId quote time, e = .quoted orderId quote time := by
  refine updateQuotes_invariant (I := fun s' => ∃ swaps events,
    s' = { s with swaps := swaps, log := events ++ s.log } ∧
      ∀ e ∈ events, ∃ orderId quote time, e = .quoted orderId quote time) ?_ ?_ h
  · rintro s' orderId swap ⟨swap', new⟩ - hrequoted ⟨swaps, events, rfl, hevents⟩
    refine ⟨swaps.insert orderId swap', new ++ events, ?_, ?_⟩
    · rw [State.requote, List.append_assoc]
    · intro e he
      rcases List.mem_append.mp he with he | he
      · cases hrequoted with
        | same => cases he
        | sent => exact ⟨_, _, _, List.mem_singleton.mp he⟩
      · exact hevents e he
  · exact ⟨s.swaps, [], rfl, fun _ he => by cases he⟩

/-- Each RFQ is one of before, with new quotes or without. -/
theorem updateQuotes_swaps (h : updateQuotes settings s round = some s') {orderId : OrderId}
    {swap' : ActiveSwap} (hswap : s'.swaps[orderId]? = some swap') :
    ∃ swap events, s.swaps[orderId]? = some swap ∧
      Requoted settings s round orderId swap (swap', events) := by
  refine updateQuotes_invariant (I := fun s' => ∀ (orderId : OrderId) (swap' : ActiveSwap),
    s'.swaps[orderId]? = some swap' → ∃ swap events, s.swaps[orderId]? = some swap ∧
      Requoted settings s round orderId swap (swap', events)) ?_ ?_ h orderId swap' hswap
  · intro s₁ X swap r hX hrequoted hI Y swap' hY
    rw [State.requote, Map.lookup_insert] at hY
    split at hY
    · rename_i heq
      cases hY
      subst heq
      exact ⟨swap, r.2, hX, hrequoted⟩
    · exact hI Y swap' hY
  · intro X swap hX
    exact ⟨swap, [], hX, .same⟩

end

end SideSwap.Bitfinex
