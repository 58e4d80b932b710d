import SideSwap.Client.SignOnce

/-!
# Reviews and decisions

What a decision of the user is applied to.  A review carries an order, the decision only repeats its
id, and the worker remembers the last reviewed link and the last sign prompt in two slots.

* `signed_as_shown`: what is signed on a decision is what the sign prompt has shown, as long as the
  price of an order is not edited while its prompt is open.
* `decided_as_reviewed`: an accepted link is sent and stored with the terms that were reviewed for
  it, and only a sign prompt is taken for consent to sign, as long as each decision is about the
  review that the slots remember.
-/

namespace SideSwap.Client

open History

variable {h : Host}

/-! ### What was shown -/

/-- The sign request of an order that an event shows. -/
def signReviewing (X : OrderId) (e : Event) (_ : List Event) : Option SubmitReview :=
  match e with
  | .toUi (.submitReview r) => if r.orderId = X ∧ r.step = .sign then some r else none
  | _ => none

/-- The last sign prompt that was shown for an order. -/
def lastSignReview (X : OrderId) (log : List Event) : Option SubmitReview :=
  latest (signReviewing X) log

/-- The assets and amounts that a review shows, as they are sent and received. -/
def SubmitReview.psbtInfo (liquid : AssetId) (r : SubmitReview) : PsbtInfo :=
  if r.sellBitcoin then
    { sendAsset := liquid, recvAsset := r.asset
      sendAmount := wrap (r.bitcoinAmount + r.serverFee), recvAmount := r.assetAmount }
  else
    { sendAsset := r.asset, recvAsset := liquid
      sendAmount := r.assetAmount, recvAmount := wrap (r.bitcoinAmount - r.serverFee) }

/-- What is signed on a decision was shown in the sign prompt of the order. -/
def asShown (liquid : AssetId) : Event → List Event → Bool
  | .signPsbt (.order .decision X) info _ _ _, older =>
    decide ((lastSignReview X older).map (SubmitReview.psbtInfo liquid) = some info)
  | _, _ => true

/-- An order that is signed after a decision is signed as it was shown. -/
def AsShown (liquid : AssetId) (e : Event) (older : List Event) : Prop :=
  asShown liquid e older = true

instance (liquid : AssetId) (e : Event) (older : List Event) : Decidable (AsShown liquid e older) :=
  inferInstanceAs (Decidable (asShown liquid e older = true))

/-- An edit that the server accepts while the sign prompt of the order is open does not change what
would be signed. -/
def KeepsPrompted (h : Host) (w : World) (msg : Message) : Prop :=
  ∀ m price s s', msg = .ui (.editOrder ⟨m.orderId, some (.price price)⟩) →
    w.core.activeSign = some m → h.server w.calls (.edit m.orderId (some price) none) = .ok () →
      w.core.submitData[m.orderId]? = some s → s.edit price = some s' →
        s'.psbtInfo h.liquidAssetId = s.psbtInfo h.liquidAssetId

/-- The stored terms of an order are those in its open prompt. -/
structure ShownInv (liquid : AssetId) (c : Core) : Prop where
  once : OnceInv c
  shown : ∀ m s, c.activeSign = some m → c.submitData[m.orderId]? = some s →
    (lastSignReview m.orderId c.log).map (SubmitReview.psbtInfo liquid) = some (s.psbtInfo liquid)
  history : Always (AsShown liquid) c.log

theorem signReviewing_of_orderFree {e : Event} (he : e.orderFree = true) (X : OrderId)
    (older : List Event) : signReviewing X e older = none := by
  unfold signReviewing
  split
  · simp [Event.orderFree] at he
  · rfl

theorem asShown_of_orderFree {liquid : AssetId} {e : Event} (he : e.orderFree = true)
    (older : List Event) : AsShown liquid e older := by
  unfold AsShown asShown
  split
  · simp [Event.orderFree] at he
  · rfl

/-- A review of a link is not a sign prompt. -/
theorem lastSignReview_linkReview (X : OrderId) (details : Details) (Y : OrderId)
    (indexPrice internal autoSign : Bool) (older : List Event) :
    lastSignReview X (.toUi (.submitReview
      (detailsReview details Y indexPrice internal autoSign)) :: older) = lastSignReview X older := by
  refine latest_cons_of_none (if_neg ?_)
  rintro ⟨-, hstep⟩
  have hstep : (if details.side = .requestor then Step.submit else Step.quote) = Step.sign := hstep
  split at hstep <;> cases hstep

/-- The order of the open prompt was processed. -/
theorem OnceInv.shown_processed {c : Core} (hI : OnceInv c) {m : SignNotification}
    (hm : c.activeSign = some m) : m.orderId ∈ c.processedSigns := by
  refine hI.processed _ (List.mem_append_right _ (List.mem_append_left _ ?_))
  rw [hm]
  exact List.mem_singleton_self _

/-- What neither opens a prompt nor changes what would be signed for the one that is open. -/
theorem ShownInv.keep {liquid : AssetId} {c c' : Core} (hI : ShownInv liquid c) (honce : OnceInv c')
    (hsign : ∀ m, c'.activeSign = some m → c.activeSign = some m)
    (hterms : ∀ m s', c.activeSign = some m → c'.submitData[m.orderId]? = some s' →
      ∃ s, c.submitData[m.orderId]? = some s ∧ s'.psbtInfo liquid = s.psbtInfo liquid)
    (hlog : ∀ X, lastSignReview X c'.log = lastSignReview X c.log)
    (hhistory : Always (AsShown liquid) c'.log) : ShownInv liquid c' := by
  refine ⟨honce, ?_, hhistory⟩
  intro m s' hm hs'
  obtain ⟨s, hs, hinfo⟩ := hterms m s' (hsign m hm) hs'
  rw [hlog, hinfo]
  exact hI.shown m s (hsign m hm) hs

theorem ShownInv.calm {liquid : AssetId} {c c' : Core} (hc : OrderCalm c c')
    (hI : ShownInv liquid c) : ShownInv liquid c' := by
  obtain ⟨events, hlog, hfree⟩ := hc.log
  refine hI.keep (hI.once.calm hc) hc.activeSign ?_ ?_ ?_
  · intro m s hm hs
    rw [hc.submitData] at hs
    exact ⟨s, hs, rfl⟩
  · intro X
    rw [hlog]
    exact latest_append fun e he older => signReviewing_of_orderFree (hfree e he) X older
  · rw [hlog]
    exact hI.history.append fun e he older => asShown_of_orderFree (hfree e he) older

/-- Terms that are stored for another order than the one of the open prompt. -/
theorem lookup_store_of_ne {m : Map OrderId SubmitData} {X Y : OrderId} {s s' : SubmitData}
    (hne : Y ≠ X) (hs : (m.insert X s)[Y]? = some s') : m[Y]? = some s' := by
  rwa [Map.lookup_insert, if_neg hne.symm] at hs

/-- The stored terms after an edit of the price. -/
theorem Core.lookup_edit {c : Core} {X Y : OrderId} {price : F64} {s' : SubmitData}
    (hs : (c.edit X price).submitData[Y]? = some s') :
    c.submitData[Y]? = some s' ∨
      ∃ s, X = Y ∧ c.submitData[Y]? = some s ∧ s.edit price = some s' := by
  unfold Core.edit at hs
  cases hedit : c.submitData[X]?.bind fun s => s.edit price with
  | none =>
    simp only [hedit] at hs
    exact .inl hs
  | some s₁ =>
    simp only [hedit] at hs
    obtain ⟨s, hs₀, hs₁⟩ := Option.bind_eq_some_iff.mp hedit
    by_cases hX : X = Y
    · rw [Map.lookup_insert, if_pos hX] at hs
      obtain rfl := Option.some.inj hs
      exact .inr ⟨s, hX, hX ▸ hs₀, hs₁⟩
    · exact .inl (lookup_store_of_ne (Ne.symm hX) hs)

/-- What leaves the stored terms alone and is not about reviews. -/
theorem ShownInv.same {liquid : AssetId} {c c' : Core} (hI : ShownInv liquid c) (honce : OnceInv c')
    (hsign : ∀ m, c'.activeSign = some m → c.activeSign = some m)
    (hterms : c'.submitData = c.submitData)
    (hlog : ∀ X, lastSignReview X c'.log = lastSignReview X c.log)
    (hhistory : Always (AsShown liquid) c'.log) : ShownInv liquid c' := by
  refine hI.keep honce hsign ?_ hlog hhistory
  intro m s hm hs
  rw [hterms] at hs
  exact ⟨s, hs, rfl⟩

/-- What stores the terms of an order whose prompt is not open. -/
theorem ShownInv.store {liquid : AssetId} {c c' : Core} {X : OrderId} {s : SubmitData}
    (hI : ShownInv liquid c) (honce : OnceInv c') (hsign : c'.activeSign = c.activeSign)
    (hX : ∀ m, c.activeSign = some m → m.orderId ≠ X)
    (hterms : c'.submitData = c.submitData.insert X s)
    (hlog : ∀ Y, lastSignReview Y c'.log = lastSignReview Y c.log)
    (hhistory : Always (AsShown liquid) c'.log) : ShownInv liquid c' := by
  refine hI.keep honce (fun m hm => hsign ▸ hm) ?_ hlog hhistory
  intro m s' hm hs'
  rw [hterms] at hs'
  exact ⟨s', lookup_store_of_ne (hX m hm) hs', rfl⟩

theorem ShownInv.move {w : World} {msg : Message} {c c' : Core} (hC : KeepsPrompted h w msg)
    (hw : ShownInv h.liquidAssetId (w.record (.received msg)).core)
    (hm : OrderMove h (w.record (.received msg)) msg c c') (hI : ShownInv h.liquidAssetId c) :
    ShownInv h.liquidAssetId c' := by
  have honce := hI.once.move hm
  -- a prompt is open only for an order that was processed
  have hnew : ∀ X, X ∉ c.processedSigns → ∀ m, c.activeSign = some m → m.orderId ≠ X := by
    rintro X hX m hm rfl
    exact hX (hI.once.shown_processed hm)
  cases hm
  case linkReviewed X resp internal autoSign hlinked =>
    refine hI.same honce ?_ rfl ?_ (.cons rfl hI.history)
    · intro m hm
      obtain ⟨v, hv, hm⟩ := Core.exists_slot (c := c) rfl hm
      exact (Core.slot_of_wallet _ hv).trans hm
    · exact fun Y => lastSignReview_linkReview Y resp.details X resp.indexPrice internal autoSign c.log
  case submitTaken =>
    refine hI.same honce ?_ rfl (fun _ => rfl) hI.history
    intro m hm
    obtain ⟨v, hv, hm⟩ := Core.exists_slot (c := c) rfl hm
    exact (Core.slot_of_wallet _ hv).trans hm
  case submitted hnoSign =>
    exact hI.store honce rfl hnoSign rfl (fun _ => rfl) (.cons rfl hI.history)
  case signQueued m hfresh hterms hsignable =>
    exact hI.store honce rfl (hnew _ hfresh) rfl (fun _ => rfl) (.cons rfl hI.history)
  case autoSigned m hfresh hterms hsignable hallowed =>
    exact hI.store honce rfl (hnew _ hfresh) rfl (fun _ => rfl) (.cons rfl hI.history)
  case restored X hfresh habsent hverified hfetched =>
    exact hI.store honce rfl (hnew _ hfresh) rfl (fun _ => rfl) hI.history
  case addrSent | reqTaken | respTaken =>
    exact hI.same honce (fun _ hm => hm) rfl (fun _ => rfl) (.cons rfl hI.history)
  case reqStored | respStored | reqErased | respErased | signRefused | promptDropped =>
    exact hI.same honce (fun _ hm => hm) rfl (fun _ => rfl) hI.history
  case promptShown m rest s internal hqueue hterms =>
    refine ⟨honce, ?_, .cons rfl hI.history⟩
    intro m' s' hm' hs'
    obtain ⟨v, hv, hm'⟩ := Core.exists_slot (c := c) rfl hm'
    obtain rfl : m = m' := Option.some.inj hm'
    obtain rfl : s = s' := Option.some.inj (hterms.symm.trans hs')
    have hshown : lastSignReview m.orderId
        (.toUi (.submitReview (s.signReview m.orderId internal)) :: c.log)
          = some (s.signReview m.orderId internal) := latest_cons_of_some (if_pos ⟨rfl, rfl⟩)
    show (lastSignReview m.orderId (.toUi (.submitReview _) :: c.log)).map _ = _
    rw [hshown]
    rfl
  case signTaken =>
    refine hI.same honce ?_ rfl (fun _ => rfl) (.cons rfl hI.history)
    intro m' hm'
    obtain ⟨v, hv, hm'⟩ := Core.exists_slot (c := c) rfl hm'
    cases hm'
  case orderSigned cause m s older side utxos signed hlog hreason =>
    refine hI.same honce (fun _ hm => hm) rfl (fun _ => rfl) (.cons ?_ hI.history)
    cases hreason with
    | auto => rfl
    | decision hmsg haccept horder hsign hterms =>
      rw [hlog]
      exact decide_eq_true (hw.shown m s hsign hterms)
  case edited X price hmsg hanswer hstart =>
    refine hI.keep honce (fun _ hm => hm) ?_ (fun _ => rfl) (.cons rfl hI.history)
    intro m s' hm hs'
    rcases Core.lookup_edit hs' with hs | ⟨s, rfl, hs, hedit⟩
    · exact ⟨s', hs, rfl⟩
    · subst hstart
      exact ⟨s, hs, hC m price s s' hmsg hm hanswer hs hedit⟩
  case completed s X txid hterms =>
    refine hI.keep honce (fun _ hm => hm) ?_ (fun _ => rfl) hI.history
    intro m s' hm hs'
    by_cases hX : m.orderId = X
    · have hs' : (c.submitData.insert X { s with txid := some txid })[m.orderId]? = some s' := hs'
      rw [Map.lookup_insert, if_pos hX.symm] at hs'
      obtain rfl := Option.some.inj hs'
      exact ⟨s, hX ▸ hterms, rfl⟩
    · exact ⟨s', lookup_store_of_ne hX hs', rfl⟩
  case cancelled X =>
    refine hI.keep honce (fun _ hm => hm) ?_ (fun _ => rfl) hI.history
    intro m s' hm hs'
    have hs' : (c.submitData.erase X)[m.orderId]? = some s' := hs'
    rw [Map.lookup_erase] at hs'
    split at hs'
    · cases hs'
    · exact ⟨s', hs', rfl⟩

/-- In every run in which the price of an order is not edited while its sign prompt is open, unless
that leaves the amounts unchanged, the wallet signs what the prompt has shown. -/
theorem signed_as_shown (h : Host) (xs : List (Feed Message))
    (hC : (machine h).Along (KeepsPrompted h) (start h) xs) :
    Always (AsShown h.liquidAssetId) ((machine h).run (start h) xs).state.log := by
  have hI : CoreInvariant h (KeepsPrompted h) (ShownInv h.liquidAssetId) :=
    .of_order (fun _ _ hc => ShownInv.calm hc) (fun _ _ _ _ hC hw hm => ShownInv.move hC hw hm)
      fun c utxosReq _ hI => ⟨hI.once.restart utxosReq, fun m s hm => (by cases hm), .cons rfl hI.history⟩
  have hnew : ShownInv h.liquidAssetId World.new.core :=
    ⟨⟨List.nodup_nil, fun X hX => (by cases hX), .nil⟩, fun m s hm => (by cases hm), .nil⟩
  exact (run_core_invariant hI hnew hC).history

namespace Sample

/-- An order is accepted without auto-sign, so that its sign request opens a prompt. -/
def prompted : List (Feed Message) :=
  synced ++ [.deliver (linkOrder order), .deliver (decision order true false),
    .deliver (signRequest order)]

/-- The user changes the price of an order. -/
def editPrice (X : OrderId) (price : F64) : Message := .ui (.editOrder ⟨X, some (.price price)⟩)

end Sample

open Sample in
theorem signed_as_shown_gold :
    (machine orderHost).Along (KeepsPrompted orderHost) (start orderHost)
        (prompted ++ [.deliver (decision order true false)]) ∧
      Always (AsShown orderHost.liquidAssetId) ((machine orderHost).run (start orderHost)
        (prompted ++ [.deliver (decision order true false)])).state.log := by
  have hC : (machine orderHost).Along (KeepsPrompted orderHost) (start orderHost)
      (prompted ++ [.deliver (decision order true false)]) := by
    refine Machine.along_of_mem _ ?_
    rintro i hi w m price s s' rfl
    simp [prompted, synced, online, linkOrder, decision, signRequest] at hi
  have hsafe := signed_as_shown orderHost (prompted ++ [.deliver (decision order true false)]) hC
  exact And.intro hC hsafe

open Sample in
/-- The user doubles the price while the sign prompt is open, and then accepts the prompt: the
wallet signs for amounts that were not shown. -/
theorem signed_after_edit :
    ¬ ∀ (h : Host) (xs : List (Feed Message)),
      Always (AsShown h.liquidAssetId) ((machine h).run (start h) xs).state.log := by
  intro hall
  have hrun := hall orderHost (prompted ++ [.deliver (editPrice order (F64.lit 2 1)),
    .deliver (decision order true false)])
  revert hrun
  decide +kernel

/-! ### What was decided -/

/-- The order that the user accepts with the message that is being handled. -/
def acceptedOrder (log : List Event) : Option OrderId :=
  match lastReceived log with
  | some (.ui (.submitDecision req)) => if req.accept then some req.orderId else none
  | _ => none

/-- The answers to the requests for the terms of orders. -/
def links (log : List Event) : List (OrderId × LinkResponse) :=
  log.filterMap fun e => match e with
    | .request (.link X) (.ok resp) => some (X, resp)
    | _ => none

/-- The order from a link that an event shows. -/
def linkReviewing (e : Event) (_ : List Event) : Option SubmitReview :=
  match e with
  | .toUi (.submitReview r) => if r.step = .sign then none else some r
  | _ => none

/-- The last link that was shown, of any order. -/
def lastLinkReview (log : List Event) : Option SubmitReview := latest linkReviewing log

/-- The order `X` from a link, if the event shows it. -/
def linkReviewingOf (X : OrderId) (e : Event) (older : List Event) : Option SubmitReview :=
  (linkReviewing e older).filter fun r => r.orderId = X

/-- The last link that was shown for an order. -/
def lastLinkReviewOf (X : OrderId) (log : List Event) : Option SubmitReview :=
  latest (linkReviewingOf X) log

/-- The step of the last review of an order. -/
def lastStep (X : OrderId) (log : List Event) : Option Step :=
  latest (fun e _ => match e with
    | .toUi (.submitReview r) => if r.orderId = X then some r.step else none
    | _ => none) log

/-- The user has rejected the sign prompt of an order. -/
def promptRejected (X : OrderId) (log : List Event) : Bool :=
  (latest (fun e _ => match e with
    | .toUi (.submitReview r) => if r.orderId = X ∧ r.step = .sign then some false else none
    | .received (.ui (.submitDecision req)) =>
      if req.orderId = X ∧ req.accept = false then some true else none
    | _ => none) log).getD false

/-- The user accepts the order `X`, the last link that was shown for it is an answer of the server
for `X`, and `p` holds for this answer. -/
def reviewed (X : OrderId) (log : List Event) (p : LinkResponse → Bool) : Bool :=
  decide (acceptedOrder log = some X) && (links log).any fun q =>
    decide (q.1 = X) && p q.2 && (lastLinkReviewOf X log).any fun r =>
      decide (r = detailsReview q.2.details X q.2.indexPrice r.internal r.autoSign)

/-- What is sent and stored for an accepted order are the reviewed terms, and no other review is
taken for consent to a rejected sign prompt. -/
def asReviewed : Event → List Event → Bool
  | .request (.addr r) _, older =>
    reviewed r.orderId older fun resp => decide (r.price = resp.details.price)
  | .stored s, older =>
    reviewed s.orderId older fun resp =>
      decide (s = LinkResponse.submitData resp s.orderId s.assetPrecision s.txouts s.autoSign)
  | .trySign .decision m, older =>
    decide (acceptedOrder older = some m.orderId)
      && (!promptRejected m.orderId older || decide (lastStep m.orderId older = some .sign))
  | _, _ => true

/-- An order is accepted as it was shown. -/
def AsReviewed (e : Event) (older : List Event) : Prop := asReviewed e older = true

instance (e : Event) (older : List Event) : Decidable (AsReviewed e older) :=
  inferInstanceAs (Decidable (asReviewed e older = true))

/-- An accepted decision is about what the slots hold: while the rejected sign prompt of the order
is in its slot, no link was shown for the order since; and else the link in its slot, if there is
one, was shown for the order. -/
structure DecidesSlots (w : World) (msg : Message) : Prop where
  sign : ∀ req m, msg = .ui (.submitDecision req) → req.accept = true →
    w.core.activeSign = some m → m.orderId = req.orderId → promptRejected req.orderId w.log = true →
      lastStep req.orderId w.log = some .sign
  submit : ∀ req, msg = .ui (.submitDecision req) → req.accept = true →
    (∀ m, w.core.activeSign = some m → m.orderId ≠ req.orderId) → w.core.activeSubmit ≠ none →
      (lastLinkReview w.log).map SubmitReview.orderId = some req.orderId

/-- The link in the slot is the one that was shown last. -/
structure LinkInv (c : Core) : Prop where
  linked : ∀ resp, c.activeSubmit = some resp → ∃ X internal autoSign, (X, resp) ∈ links c.log ∧
    lastLinkReview c.log = some (detailsReview resp.details X resp.indexPrice internal autoSign)
  history : Always AsReviewed c.log

theorem mem_links_append {p : OrderId × LinkResponse} {log : List Event} (events : List Event)
    (hp : p ∈ links log) : p ∈ links (events ++ log) := by
  rw [links, List.filterMap_append]
  exact List.mem_append_right _ hp

theorem mem_links_of_mem {X : OrderId} {resp : LinkResponse} {log : List Event}
    (hmem : .request (.link X) (.ok resp) ∈ log) : (X, resp) ∈ links log :=
  List.mem_filterMap.mpr ⟨_, hmem, rfl⟩

theorem linkReviewing_of_orderFree {e : Event} (he : e.orderFree = true) (older : List Event) :
    linkReviewing e older = none := by
  unfold linkReviewing
  split
  · simp [Event.orderFree] at he
  · rfl

theorem asReviewed_of_orderFree {e : Event} (he : e.orderFree = true) (older : List Event) :
    AsReviewed e older := by
  unfold AsReviewed asReviewed
  split <;> simp_all [Event.orderFree]

/-- The last link that was shown is the last one that was shown for its order. -/
theorem lastLinkReviewOf_of_last {r : SubmitReview} {log : List Event}
    (hr : lastLinkReview log = some r) : lastLinkReviewOf r.orderId log = some r := by
  induction log with
  | nil => cases hr
  | cons e older ih =>
    cases he : linkReviewing e older with
    | none =>
      rw [lastLinkReview, latest_cons_of_none he] at hr
      have hnone : linkReviewingOf r.orderId e older = none := by
        rw [linkReviewingOf, he, Option.filter_none]
      rw [lastLinkReviewOf, latest_cons_of_none hnone]
      exact ih hr
    | some r' =>
      rw [lastLinkReview, latest_cons_of_some he] at hr
      obtain rfl := Option.some.inj hr
      have hsome : linkReviewingOf r'.orderId e older = some r' := by
        rw [linkReviewingOf, he, Option.filter_some, if_pos (decide_eq_true rfl)]
      rw [lastLinkReviewOf, latest_cons_of_some hsome]

/-! ### Decisions about links -/

/-- The user accepts the order `X`, and the last link that was shown is the answer `resp` for it. -/
structure Decided (X : OrderId) (resp : LinkResponse) (log : List Event) : Prop where
  accepted : acceptedOrder log = some X
  linked : (X, resp) ∈ links log
  shown : ∃ internal autoSign,
    lastLinkReview log = some (detailsReview resp.details X resp.indexPrice internal autoSign)

theorem Decided.reviewed {X : OrderId} {resp : LinkResponse} {log : List Event}
    {p : LinkResponse → Bool} (hd : Decided X resp log) (hp : p resp = true) :
    Client.reviewed X log p = true := by
  obtain ⟨internal, autoSign, hshown⟩ := hd.shown
  have hlast := lastLinkReviewOf_of_last hshown
  rw [show (detailsReview resp.details X resp.indexPrice internal autoSign).orderId = X from rfl] at hlast
  rw [Client.reviewed, Bool.and_eq_true]
  refine ⟨decide_eq_true hd.accepted, List.any_eq_true.mpr ⟨_, hd.linked, ?_⟩⟩
  rw [hlast, hp]
  simp [detailsReview]

/-- Plain events do not change what was decided. -/
theorem Decided.since {X : OrderId} {resp : LinkResponse} {old new : List Event}
    (hd : Decided X resp old) (hsince : PlainSince old new) : Decided X resp new := by
  obtain ⟨events, rfl, hplain⟩ := hsince
  have hreceived : lastReceived (events ++ old) = lastReceived old := by
    refine latest_append fun e he older => ?_
    have hplain := hplain e he
    split
    · simp [Event.plain] at hplain
    · rfl
  have hreview : lastLinkReview (events ++ old) = lastLinkReview old :=
    latest_append fun e he older =>
      linkReviewing_of_orderFree (Event.orderFree_of_plain (hplain e he)) older
  refine ⟨?_, mem_links_append events hd.linked, ?_⟩
  · rw [acceptedOrder, hreceived]
    exact hd.accepted
  · rw [hreview]
    exact hd.shown

/-- A decision that takes the link out of its slot. -/
theorem Decided.of_submits {w : World} {msg : Message} {X : OrderId} {resp : LinkResponse}
    (hC : DecidesSlots w msg) (hw : LinkInv (w.record (.received msg)).core)
    (hsubmits : Submits (w.record (.received msg)) msg X resp) :
    Decided X resp (.received msg :: w.log) := by
  obtain ⟨req, rfl, haccept, rfl⟩ := hsubmits.message
  obtain ⟨Y, internal, autoSign, hlinked, hshown⟩ := hw.linked resp hsubmits.submit
  have hslot : w.core.activeSubmit ≠ none := by
    intro hnone
    cases hnone.symm.trans hsubmits.submit
  have hlast := hC.submit req rfl haccept hsubmits.noSign hslot
  have hshown' : lastLinkReview w.log =
      some (detailsReview resp.details Y resp.indexPrice internal autoSign) := hshown
  rw [hshown', Option.map_some] at hlast
  obtain rfl : Y = req.orderId := Option.some.inj hlast
  refine ⟨?_, hlinked, internal, autoSign, hshown⟩
  show (if req.accept then some req.orderId else none) = some req.orderId
  rw [haccept, if_pos rfl]

theorem LinkInv.calm {c c' : Core} (hc : OrderCalm c c') (hI : LinkInv c) : LinkInv c' := by
  obtain ⟨events, hlog, hfree⟩ := hc.log
  refine ⟨?_, ?_⟩
  · intro resp hresp
    obtain ⟨X, internal, autoSign, hlinked, hshown⟩ := hI.linked resp (hc.activeSubmit resp hresp)
    refine ⟨X, internal, autoSign, ?_, ?_⟩
    · rw [hlog]
      exact mem_links_append events hlinked
    · rw [hlog, lastLinkReview,
        latest_append fun e he older => linkReviewing_of_orderFree (hfree e he) older]
      exact hshown
  · rw [hlog]
    exact hI.history.append fun e he older => asReviewed_of_orderFree (hfree e he) older

/-- What shows no link and leaves the slot alone. -/
theorem LinkInv.keep {c c' : Core} (hI : LinkInv c) (events : List Event)
    (hsubmit : ∀ resp, c'.activeSubmit = some resp → c.activeSubmit = some resp)
    (hlog : c'.log = events ++ c.log) (hreview : lastLinkReview c'.log = lastLinkReview c.log)
    (hhistory : Always AsReviewed c'.log) : LinkInv c' := by
  refine ⟨?_, hhistory⟩
  intro resp hresp
  obtain ⟨X, internal, autoSign, hlinked, hshown⟩ := hI.linked resp (hsubmit resp hresp)
  refine ⟨X, internal, autoSign, ?_, hreview.trans hshown⟩
  rw [hlog]
  exact mem_links_append events hlinked

/-- The decision itself does not reject the prompt. -/
theorem asReviewed_signTaken {log : List Event} {req : SubmitDecision} {m : SignNotification}
    (haccept : req.accept = true) (horder : m.orderId = req.orderId)
    (hstep : promptRejected req.orderId log = true → lastStep req.orderId log = some .sign) :
    AsReviewed (.trySign .decision m) (.received (.ui (.submitDecision req)) :: log) := by
  have haccepted : acceptedOrder (.received (.ui (.submitDecision req)) :: log) = some req.orderId := by
    show (if req.accept then some req.orderId else none) = some req.orderId
    rw [haccept, if_pos rfl]
  have hrejected : promptRejected req.orderId (.received (.ui (.submitDecision req)) :: log) =
      promptRejected req.orderId log := by
    rw [promptRejected, latest_cons_of_none (if_neg (by simp [haccept])), promptRejected]
  have hsame : lastStep req.orderId (.received (.ui (.submitDecision req)) :: log) =
      lastStep req.orderId log := rfl
  show (_ && (_ || _)) = true
  rw [horder, haccepted, hrejected, hsame, decide_eq_true rfl, Bool.true_and]
  cases hprompt : promptRejected req.orderId log with
  | false => rfl
  | true => exact decide_eq_true (hstep hprompt)

theorem LinkInv.move {w : World} {msg : Message} {c c' : Core} (hC : DecidesSlots w msg)
    (hw : LinkInv (w.record (.received msg)).core)
    (hm : OrderMove h (w.record (.received msg)) msg c c') (hI : LinkInv c) : LinkInv c' := by
  cases hm
  case linkReviewed X resp internal autoSign hlinked =>
    refine ⟨?_, .cons rfl hI.history⟩
    intro resp' hresp
    obtain ⟨v, hv, hresp⟩ := Core.exists_slot (c := c) rfl hresp
    obtain rfl : resp = resp' := Option.some.inj hresp
    refine ⟨X, internal, autoSign, mem_links_append [_] (mem_links_of_mem hlinked), ?_⟩
    refine latest_cons_of_some (if_neg ?_)
    -- a link review is for submitting or quoting, never for signing
    intro hstep
    have hstep : (if resp.details.side = .requestor then Step.submit else Step.quote) = Step.sign := hstep
    split at hstep <;> cases hstep
  case submitTaken =>
    refine hI.keep [] ?_ rfl rfl hI.history
    intro resp hresp
    obtain ⟨v, hv, hresp⟩ := Core.exists_slot (c := c) rfl hresp
    cases hresp
  case addrSent resp r answer hsubmits hprice hlog =>
    have hd := (Decided.of_submits hC hw hsubmits).since hlog
    have hreviewed : reviewed r.orderId c.log fun resp => decide (r.price = resp.details.price) :=
      hd.reviewed (decide_eq_true hprice)
    exact hI.keep [_] (fun _ hr => hr) rfl rfl (.cons hreviewed hI.history)
  case submitted resp r older precision txouts autoSign hsubmits hverified hauto hlog hsince hnoSign =>
    have hd := (Decided.of_submits hC hw hsubmits).since hsince
    have hd' : Decided r.orderId resp c.log := by
      rw [hlog]
      exact ⟨hd.accepted, mem_links_append [_] hd.linked, hd.shown⟩
    have hreviewed : reviewed r.orderId c.log fun resp' =>
        decide (LinkResponse.submitData resp r.orderId precision txouts autoSign
          = LinkResponse.submitData resp' r.orderId precision txouts autoSign) :=
      hd'.reviewed (decide_eq_true rfl)
    exact hI.keep [_] (fun _ hr => hr) rfl rfl (.cons hreviewed hI.history)
  case promptShown m rest s internal hqueue hterms =>
    refine hI.keep [_] ?_ rfl rfl (.cons rfl hI.history)
    intro resp hresp
    obtain ⟨v, hv, hresp⟩ := Core.exists_slot (c := c) rfl hresp
    exact (Core.slot_of_wallet _ hv).trans hresp
  case signTaken m req hmsg haccept horder hsign hstart =>
    refine hI.keep [_] ?_ rfl rfl (.cons ?_ hI.history)
    · intro resp hresp
      obtain ⟨v, hv, hresp⟩ := Core.exists_slot (c := c) rfl hresp
      exact (Core.slot_of_wallet _ hv).trans hresp
    · subst hstart hmsg
      exact asReviewed_signTaken haccept horder fun hrejected =>
        hC.sign req m rfl haccept hsign horder hrejected
  case edited | reqTaken | respTaken | signQueued | autoSigned | orderSigned =>
    exact hI.keep [_] (fun _ hr => hr) rfl rfl (.cons rfl hI.history)
  all_goals exact hI.keep [] (fun _ hr => hr) rfl rfl hI.history

/-- In every run in which each accepted decision is about what the slots hold, an order is sent and
stored with the terms that were reviewed for it, and no link review is taken for consent to a
rejected sign prompt. -/
theorem decided_as_reviewed (h : Host) (xs : List (Feed Message))
    (hC : (machine h).Along DecidesSlots (start h) xs) :
    Always AsReviewed ((machine h).run (start h) xs).state.log := by
  have hI : CoreInvariant h DecidesSlots LinkInv :=
    .of_order (fun _ _ hc => LinkInv.calm hc) (fun _ _ _ _ hC hw hm => LinkInv.move hC hw hm)
      fun _ _ _ hI => ⟨fun resp hr => (by cases hr), .cons rfl hI.history⟩
  have hnew : LinkInv World.new.core := ⟨fun resp hr => (by cases hr), .nil⟩
  exact (run_core_invariant hI hnew hC).history

namespace Sample

/-- Another order. -/
def otherOrder : OrderId := ⟨"other order"⟩

/-- The other order asks for the same bitcoin, but for half the gold. -/
def linkDetails (X : OrderId) : Details :=
  if X = otherOrder then
    { details .requestor with price := F64.lit 1 2, assetAmount := 500000 }
  else details .requestor

/-- An outside whose server knows the order of a link. -/
def linkHost : Host :=
  plainHost (plainServer assets (fun X => .ok ⟨X, linkDetails X, false⟩) fun _ => .error "")
    ((∅ : Map AssetId ℤ).insert gold 1000000)
    ((∅ : Map AssetId (List GdkUtxo)).insert gold [⟨⟨"a", 1000000, 0, []⟩, 1⟩])

/-- The order of a link is on display. -/
def linkShown : List (Feed Message) := synced ++ [.deliver (linkOrder order)]

end Sample

open Sample in
theorem decided_as_reviewed_gold :
    (machine linkHost).Along DecidesSlots (start linkHost)
        (linkShown ++ [.deliver (decision order true true)]) ∧
      Always AsReviewed ((machine linkHost).run (start linkHost)
        (linkShown ++ [.deliver (decision order true true)])).state.log := by
  have hC : (machine linkHost).Along DecidesSlots (start linkHost)
      (linkShown ++ [.deliver (decision order true true)]) := by
    refine Machine.along_snoc (Machine.along_of_mem _ ?_) ⟨?_, ?_⟩
    · rintro i hi w
      constructor
      · rintro req m rfl
        simp [linkShown, synced, online, linkOrder] at hi
      · rintro req rfl
        simp [linkShown, synced, online, linkOrder] at hi
    · intro req m _ _ hsign
      have hnone : ((machine linkHost).run (start linkHost)
          linkShown).state.core.activeSign.isNone = true := by decide +kernel
      rw [hsign] at hnone
      cases hnone
    · intro req hmsg _ _ _
      cases hmsg
      decide +kernel
  have hsafe := decided_as_reviewed linkHost (linkShown ++ [.deliver (decision order true true)]) hC
  exact And.intro hC hsafe

open Sample in
/-- Two links are reviewed one after the other, and the user accepts the first: it is sent and
stored with the terms of the second. -/
theorem decided_with_other_terms :
    ¬ ∀ (h : Host) (xs : List (Feed Message)),
      Always AsReviewed ((machine h).run (start h) xs).state.log := by
  intro hall
  have hrun := hall linkHost (linkShown ++ [.deliver (linkOrder otherOrder),
    .deliver (decision order true true)])
  revert hrun
  decide +kernel

end SideSwap.Client
