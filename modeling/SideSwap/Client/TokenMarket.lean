import SideSwap.Client.AssetTable
import SideSwap.Lib.Runs

/-!
# Token markets

An order is shown in the token markets if its `tokenMarket` is set.  `addOrder` reads it from
`tokenAssets`, to which `registerAsset` adds the assets that are not for the swap market and from
which nothing is ever taken out.

* `run_tokenIndex`: in every run, `tokenAssets` has the assets that were registered as tokens at
  some time.
* `token_market_follows`: in a sequence of registrations and order notifications, every order sent
  follows the latest registration of its asset, if no notification is about a `Promoted` asset, one
  that was a token before and is for the swap market now.
* `token_market_stale`: an order for a promoted asset is still sent as a token order.
-/

namespace SideSwap.Client

open Proc

variable {h : Host} {ε : Type}

/-! ### Markets of an asset -/

/-- Whether the latest registration of an asset was for the swap market. -/
def latestMarket (calls : List AssetCopy) (X : AssetId) : Option Bool :=
  (newestVersion calls X).map AssetCopy.swapMarket

/-- The asset was registered as a token at some time. -/
def OnceToken (calls : List AssetCopy) (X : AssetId) : Prop :=
  ∃ asset ∈ calls, asset.assetId = X ∧ asset.swapMarket = false

/-- The asset was a token and is for the swap market now. -/
def Promoted (calls : List AssetCopy) (X : AssetId) : Prop :=
  OnceToken calls X ∧ latestMarket calls X = some true

instance (calls : List AssetCopy) (X : AssetId) : Decidable (OnceToken calls X) :=
  inferInstanceAs (Decidable (∃ asset ∈ calls, _))

instance (calls : List AssetCopy) (X : AssetId) : Decidable (Promoted calls X) :=
  inferInstanceAs (Decidable (_ ∧ _))

theorem onceToken_cons (asset : AssetCopy) (calls : List AssetCopy) (X : AssetId) :
    OnceToken (asset :: calls) X ↔
      (asset.assetId = X ∧ asset.swapMarket = false) ∨ OnceToken calls X := by
  simp only [OnceToken, List.mem_cons, exists_eq_or_imp]

theorem latestMarket_cons (asset : AssetCopy) (calls : List AssetCopy) (X : AssetId) :
    latestMarket (asset :: calls) X =
      if asset.assetId = X then some asset.swapMarket else latestMarket calls X := by
  unfold latestMarket
  rw [newestVersion_cons]
  split
  · rfl
  · rfl

/-- What an asset was once agrees with its latest registration unless it was promoted. -/
theorem onceToken_iff (calls : List AssetCopy) (X : AssetId) :
    (OnceToken calls X ↔ latestMarket calls X = some false) ↔ ¬ Promoted calls X := by
  cases hlatest : newestVersion calls X with
  | none =>
    have hnever : ¬ OnceToken calls X := by
      rintro ⟨asset, hasset, hX, -⟩
      have hsome := newestVersion_isSome.mpr ⟨asset, hasset, hX⟩
      rw [hlatest] at hsome
      cases hsome
    simp [Promoted, latestMarket, hlatest, hnever]
  | some asset =>
    obtain ⟨hasset, hX⟩ := newestVersion_id hlatest
    cases hmarket : asset.swapMarket with
    | false =>
      have honce : OnceToken calls X := ⟨asset, hasset, hX, hmarket⟩
      simp [Promoted, latestMarket, hlatest, hmarket, honce]
    | true => simp [Promoted, latestMarket, hlatest, hmarket]

/-- A registration as a token does not promote. -/
theorem not_promoted_cons {asset : AssetCopy} {calls : List AssetCopy} {X : AssetId}
    (htoken : asset.swapMarket = false) (hX : ¬ Promoted calls X) :
    ¬ Promoted (asset :: calls) X := by
  rintro ⟨honce, hlatest⟩
  rw [latestMarket_cons, htoken] at hlatest
  split at hlatest
  · cases hlatest
  · rename_i hother
    have honce := ((onceToken_cons asset calls X).mp honce).resolve_left fun hsame => hother hsame.1
    exact hX ⟨honce, hlatest⟩

/-! ### The index -/

/-- `tokenAssets` is a function of the history of registrations. -/
def TokenIndex (w : World) : Prop :=
  ∀ X, X ∈ w.data.tokenAssets ↔ OnceToken (assetCalls w.log) X

theorem TokenIndex.frame {w w' : World} (hframe : AssetFrame w w')
    (htokens : w'.data.tokenAssets = w.data.tokenAssets) (hw : TokenIndex w) : TokenIndex w' := by
  intro X
  rw [htokens, hframe.calls]
  exact hw X

theorem TokenIndex.registered {w : World} (hw : TokenIndex w) (asset : Asset) (icon : String)
    (swapMarket : Bool) (domain : Option String) :
    TokenIndex (w.registered asset icon swapMarket domain) := by
  intro X
  show X ∈ (if swapMarket then w.data.tokenAssets else insert asset.assetId w.data.tokenAssets) ↔
    OnceToken (_ :: assetCalls w.log) X
  rw [onceToken_cons, ← hw X]
  cases swapMarket with
  | true => simp
  | false => simp [eq_comm]

/-- Only registrations change the index. -/
theorem Change.tokenAssets {k : Effect} {w w' : World} (hs : Change k w w')
    (hcoarse : k.coarse = false) (hk : k ≠ .assets) :
    w'.data.tokenAssets = w.data.tokenAssets := by
  cases hs
  case saved ok => cases ok <;> rfl
  case info f hf => rw [World.modifyData, hf]
  case queued f hf => rw [World.modifyData, hf]
  case terms f hf _ => rw [World.modifyData, hf]
  case synced | balanced => cases hcoarse
  case registered => exact absurd rfl hk
  all_goals rfl

theorem Change.tokenIndex {k : Effect} {w w' : World} (hs : Change k w w')
    (hcoarse : k.coarse = false) (hw : TokenIndex w) : TokenIndex w' := by
  by_cases hk : k = .assets
  · subst hk
    cases hs with
    | said e he => exact absurd (Event.effect_mem he) (by decide)
    | registered asset swapMarket domain hicon => exact hw.registered asset _ swapMarket domain
  · exact hw.frame (hs.assetFrame hcoarse hk) (hs.tokenAssets hcoarse hk)

/-- In every run of the worker, the index has the assets that were registered as tokens. -/
theorem run_tokenIndex (xs : List (Feed Message)) :
    TokenIndex ((machine h).run (start h) xs).state := by
  refine run_of_changes (I := TokenIndex) (fun w X => ?_) ?_ ?_ xs
  · show X ∈ (∅ : Finset AssetId) ↔ OnceToken [] X
    simp [OnceToken]
  · intro w msg hw
    have hframe : AssetFrame w (w.record (.received msg)) := .of_record rfl rfl rfl rfl
    exact hw.frame hframe rfl
  · exact fun _ _ _ hcoarse hs hw => hs.tokenIndex hcoarse hw

/-! ### The sequences -/

/-- A registration, or an order notification. -/
inductive MarketCall where
  | registerAsset (asset : Asset) (swapMarket : Bool) (domain : Option String)
  | registerAssets (assets : List Asset)
  | orderCreated (msg : OrderCreatedNotification)

/-- The call of the worker's function. -/
def MarketCall.run (h : Host) : MarketCall → Worker Empty Unit
  | .registerAsset asset swapMarket domain => Client.registerAsset asset swapMarket domain
  | .registerAssets assets => Client.registerAssets h assets
  | .orderCreated msg => processOrderCreated h msg

/-- The worker, and for every order the registrations that were known at its latest notification. -/
structure Tracked where
  world : World
  noted : OrderId → Option (List AssetCopy)

/-- A notification notes the registrations.  It may have made one itself, of an asset that was
unknown before. -/
def Tracked.after (s : Tracked) (call : MarketCall) (w : World) : Tracked :=
  { world := w
    noted := match call with
      | .orderCreated msg => Function.update s.noted msg.orderId (some (assetCalls w.log))
      | _ => s.noted }

/-- A call, with what the user interface learns from it. -/
def Tracked.step (h : Host) (s : Tracked) (call : MarketCall) : Option Tracked :=
  match call.run h s.world with
  | .ok _ w => some (s.after call w)
  | .error e _ => e.elim
  | .abort _ => none

/-- The orders sent to the user interface since the history was `old`. -/
def ordersSince (old new : List Event) : List Order :=
  (new.take (new.length - old.length)).filterMap fun e => match e with
    | .toUi (.orderCreated order) => some order
    | _ => none

/-- The orders that a call sends, with what was noted of them. -/
def Tracked.sent (h : Host) (s : Tracked) (call : MarketCall) :
    List (Order × Option (List AssetCopy)) :=
  let w := (call.run h s.world).state
  (ordersSince s.world.log w.log).map fun order => (order, (s.after call w).noted order.orderId)

/-- The order is a token order exactly if its asset was registered as a token last. -/
def FollowsMarket (p : Order × Option (List AssetCopy)) : Prop :=
  ∃ calls, p.2 = some calls ∧
    (p.1.tokenMarket = true ↔ latestMarket calls p.1.assetId = some false)

instance : DecidablePred FollowsMarket := fun (order, noted) =>
  match noted with
  | none => isFalse fun ⟨_, hcalls, _⟩ => by cases hcalls
  | some calls => decidable_of_iff
      (order.tokenMarket = true ↔ latestMarket calls order.assetId = some false)
      ⟨fun hfollows => ⟨calls, rfl, hfollows⟩, fun ⟨_, hcalls, hfollows⟩ => by cases hcalls; exact hfollows⟩

/-- A notification is not about a promoted asset. -/
def NotPromoted (s : Tracked) : MarketCall → Prop
  | .orderCreated msg => ¬ Promoted (assetCalls s.world.log) msg.details.asset
  | _ => True

instance (s : Tracked) : (call : MarketCall) → Decidable (NotPromoted s call)
  | .orderCreated _ => inferInstanceAs (Decidable (¬ _))
  | .registerAsset _ _ _ => isTrue trivial
  | .registerAssets _ => isTrue trivial

theorem mem_ordersSince {old new events : List Event} (hlog : new = events ++ old) {order : Order} :
    order ∈ ordersSince old new ↔ .toUi (.orderCreated order) ∈ events := by
  have htake : new.take (new.length - old.length) = events := by
    rw [hlog, List.length_append, Nat.add_sub_cancel, List.take_left]
  rw [ordersSince, htake, List.mem_filterMap]
  constructor
  · rintro ⟨e, he, horder⟩
    split at horder
    · cases horder
      exact he
    · cases horder
  · exact fun he => ⟨_, he, rfl⟩

theorem ordersSince_frame {w w' : World} (hframe : OrderFrame w w') :
    ordersSince w.log w'.log = [] := by
  obtain ⟨events, hlog, hnone⟩ := hframe.log
  rw [List.eq_nil_iff_forall_not_mem]
  intro order horder
  have hupdate := (hnone _ ((mem_ordersSince hlog).mp horder)).1
  cases hupdate

/-! ### The functions of the worker -/

/-- A step that leaves the orders alone and registers nothing but tokens. -/
structure TokenStep (X : AssetId) (w w' : World) : Prop where
  orders : OrderFrame w w'
  index : TokenIndex w → TokenIndex w'
  promoted : ¬ Promoted (assetCalls w.log) X → ¬ Promoted (assetCalls w'.log) X

theorem TokenStep.refl (X : AssetId) (w : World) : TokenStep X w w :=
  ⟨.of_data rfl rfl rfl, id, id⟩

theorem TokenStep.trans {X : AssetId} {w₁ w₂ w₃ : World} (h₁ : TokenStep X w₁ w₂)
    (h₂ : TokenStep X w₂ w₃) : TokenStep X w₁ w₃ :=
  ⟨h₁.orders.trans h₂.orders, h₂.index ∘ h₁.index, h₂.promoted ∘ h₁.promoted⟩

theorem Change.tokenStep {k : Effect} {w w' : World} (hs : Change k w w') (hcoarse : k.coarse = false)
    (horders : k ≠ .orders) (hoffline : k ≠ .offline) (hassets : k ≠ .assets) (X : AssetId) :
    TokenStep X w w' := by
  have hframe := hs.assetFrame hcoarse hassets
  refine ⟨hs.orderFrame hcoarse horders hoffline, ?_, ?_⟩
  · exact fun hw => hw.frame hframe (hs.tokenAssets hcoarse hassets)
  · rw [hframe.calls]
    exact id

instance (X : AssetId) : Allows (TokenStep X) .talk := by
  refine allows_of_changes (fun k => k ≠ .orders && k ≠ .offline && k ≠ .assets) rfl ?_ .talk rfl
  intro k w w' hk hcoarse hs
  simp only [ne_eq, Bool.and_eq_true, decide_eq_true_eq] at hk
  exact hs.tokenStep hcoarse hk.1.1 hk.1.2 hk.2 X

/-- An unknown asset is registered as a token. -/
theorem tryAddAsset_tokens (X : AssetId) : Refines (TokenStep X) (tryAddAsset h X) := by
  refine .bind getData_effects fun d => ?_
  split
  · exact .pure _
  · refine .bind (loadGdkAsset_effects X) ?_
    rintro ⟨asset, domain⟩
    refine .of_chain fun w => ?_
    show Relation.ReflTransGen _ w (registerAsset asset false domain w : Outcome String _ _).state
    rw [registerAsset_apply]
    cases hicon : asset.icon with
    | none => exact .refl
    | some icon =>
      have hs : Change .assets w (w.registered asset icon false domain) :=
        .registered asset false domain hicon
      refine .single ⟨hs.orderFrame rfl (by decide) (by decide), ?_, not_promoted_cons rfl⟩
      exact fun hw => hw.registered asset icon false domain

/-- The comparison of the list with what was sent only shows orders of the list. -/
structure ListShown (w w' : World) : Prop where
  last : w'.data.ordersLast = w.data.ordersLast
  tokens : w'.data.tokenAssets = w.data.tokenAssets
  calls : assetCalls w'.log = assetCalls w.log
  log : ∃ events, w'.log = events ++ w.log ∧
    ∀ order, .toUi (.orderCreated order) ∈ events → ∃ X : OrderId, w.data.ordersLast[X]? = some order

theorem ListShown.refl (w : World) : ListShown w w :=
  ⟨rfl, rfl, rfl, [], rfl, fun _ horder => by cases horder⟩

theorem ListShown.trans {w₁ w₂ w₃ : World} (h₁ : ListShown w₁ w₂) (h₂ : ListShown w₂ w₃) :
    ListShown w₁ w₃ := by
  obtain ⟨events, hevents, hlisted⟩ := h₁.log
  obtain ⟨newer, hnewer, hlater⟩ := h₂.log
  refine ⟨h₂.last.trans h₁.last, h₂.tokens.trans h₁.tokens, h₂.calls.trans h₁.calls,
    newer ++ events, by rw [hnewer, hevents, List.append_assoc], fun order horder => ?_⟩
  rcases List.mem_append.mp horder with horder | horder
  · rw [← h₁.last]
    exact hlater order horder
  · exact hlisted order horder

theorem syncOrderList_shown (w : World) :
    ListShown w (syncOrderList w : Outcome ε World Unit).state := by
  let Same : World → Prop := fun v => v.data.ordersLast = w.data.ordersLast
  have hspec : Guar ListShown Same (syncOrderList : Worker ε Unit) fun _ => Same := by
    refine .bind getData_spec fun d => ?_
    have hpre : ∀ v, d = v.data ∧ Same v → d.ordersLast = w.data.ordersLast ∧ Same v := by
      rintro v ⟨rfl, hv⟩
      exact ⟨hv, hv⟩
    refine Guar.pre (.of_fact fun hd => ?_) hpre
    -- neither loop touches the list: one tells what is gone, the other what is on it
    refine .bind (Q := fun _ => Same) (.each fun X _ => ?_) fun _ => .each fun p hp => ?_
    · intro v hv
      refine ⟨.single ⟨rfl, rfl, rfl, [_], rfl, ?_⟩, ?_⟩
      · intro order horder
        cases List.mem_singleton.mp horder
      · intro _ v' hok
        cases hok
        exact hv
    · intro v hv
      -- what is told is on the list, because the loop runs over the list
      have hlisted : v.data.ordersLast[p.1]? = some p.2 := by
        rw [hv, ← hd]
        exact Std.ExtTreeMap.mem_toList_iff_getElem?_eq_some.mp hp
      rw [syncOrder_apply]
      split
      · refine ⟨.refl, fun _ v' hok => ?_⟩
        cases hok
        exact hv
      · refine ⟨.single ⟨rfl, rfl, rfl, [_], rfl, ?_⟩, fun _ v' hok => ?_⟩
        · intro order horder
          cases List.mem_singleton.mp horder
          exact ⟨p.1, hlisted⟩
        · cases hok
          exact hv
  exact (hspec w rfl).1.invariant (fun _ _ hs hw => hw.trans hs) (.refl w)

/-- The handling of a notification: the asset may be registered, the order is put on the list, and
the list is compared with what was sent. -/
theorem processOrderCreated_cases (msg : OrderCreatedNotification) (w : World) :
    ∃ w₁, TokenStep msg.details.asset w w₁ ∧
      ((processOrderCreated h msg : Worker Empty Unit) w = .abort w₁ ∨
        ∃ order : Order, order.orderId = msg.orderId ∧ order.assetId = msg.details.asset ∧
          order.tokenMarket = decide (msg.details.asset ∈ w₁.data.tokenAssets) ∧
          (processOrderCreated h msg : Worker Empty Unit) w =
            syncOrderList (w₁.modifyData fun d =>
              { d with ordersLast := d.ordersLast.insert msg.orderId order })) := by
  have htry : Refines (TokenStep msg.details.asset)
      (ignoreError (tryAddAsset h msg.details.asset) : Worker Empty Unit) :=
    ignoreError_effects (tryAddAsset_tokens _)
  have hstep := (htry.chain w).invariant (I := TokenStep msg.details.asset w)
    (fun _ _ hs hw => hw.trans hs) (.refl _ w)
  cases hrun : (ignoreError (tryAddAsset h msg.details.asset) : Worker Empty Unit) w with
  | ok _ w₁ =>
    rw [hrun] at hstep
    refine ⟨w₁, hstep, .inr ⟨_, ?_, ?_, ?_, Proc.bind_ok (Proc.bind_ok hrun)⟩⟩
    · rfl
    · rfl
    · rfl
  | error e => exact e.elim
  | abort w₁ =>
    rw [hrun] at hstep
    exact ⟨w₁, hstep, .inl (Proc.bind_abort (Proc.bind_abort hrun))⟩

/-! ### The invariant -/

/-- The set of tokens and the user interface agree. -/
structure MarketInv (s : Tracked) : Prop where
  index : TokenIndex s.world
  listed : ∀ (X : OrderId) (order : Order), s.world.data.ordersLast[X]? = some order →
    order.orderId = X ∧ FollowsMarket (order, s.noted X)

/-- Registrations leave the orders alone. -/
theorem MarketInv.registers {s : Tracked} {m : Worker Empty Unit} (hs : MarketInv s)
    (hm : Refines (fun v v' => OrderFrame v v' ∧ (TokenIndex v → TokenIndex v')) m) :
    OrderFrame s.world (m s.world).state ∧ MarketInv ⟨(m s.world).state, s.noted⟩ := by
  obtain ⟨hframe, hindex⟩ := (hm.chain s.world).invariant
    (I := fun v => OrderFrame s.world v ∧ TokenIndex v)
    (fun _ _ hstep hv => ⟨hv.1.trans hstep.1, hstep.2 hv.2⟩) ⟨.of_data rfl rfl rfl, hs.index⟩
  refine ⟨hframe, hindex, ?_⟩
  rw [hframe.last]
  exact hs.listed

/-- An order is put on the list with the market of its asset. -/
theorem MarketInv.created {s : Tracked} {msg : OrderCreatedNotification} {order : Order}
    {w₁ w : World} (hs : MarketInv s) (hpromoted : NotPromoted s (.orderCreated msg))
    (hstep : TokenStep msg.details.asset s.world w₁) (hid : order.orderId = msg.orderId)
    (hasset : order.assetId = msg.details.asset)
    (hmarket : order.tokenMarket = decide (msg.details.asset ∈ w₁.data.tokenAssets))
    (hshown : ListShown (w₁.modifyData fun d =>
      { d with ordersLast := d.ordersLast.insert msg.orderId order }) w) :
    MarketInv (s.after (.orderCreated msg) w) := by
  have hindex : TokenIndex w₁ := hstep.index hs.index
  have htokens : w.data.tokenAssets = w₁.data.tokenAssets := hshown.tokens
  have hcalls : assetCalls w.log = assetCalls w₁.log := hshown.calls
  refine ⟨fun X => ?_, fun X other hother => ?_⟩
  · -- the tokens are those of the registration, which the history determines
    show X ∈ w.data.tokenAssets ↔ OnceToken (assetCalls w.log) X
    rw [htokens, hcalls]
    exact hindex X
  · have hlast : w.data.ordersLast = w₁.data.ordersLast.insert msg.orderId order := hshown.last
    have hother : w.data.ordersLast[X]? = some other := hother
    show other.orderId = X ∧ FollowsMarket (other,
      Function.update s.noted msg.orderId (some (assetCalls w.log)) X)
    rw [hlast, Map.lookup_insert] at hother
    split at hother
    · -- the order of the notification: its market was decided from the token assets of now
      rename_i hX
      cases hother
      rw [← hX, Function.update_self]
      refine ⟨hid, assetCalls w.log, rfl, ?_⟩
      show order.tokenMarket = true ↔ latestMarket (assetCalls w.log) order.assetId = some false
      rw [hmarket, decide_eq_true_iff, hindex, hasset, hcalls, onceToken_iff]
      exact hstep.promoted hpromoted
    · -- any other order is listed and noted as before
      rename_i hX
      rw [hstep.orders.last] at hother
      rw [Function.update_of_ne (Ne.symm hX)]
      exact hs.listed X other hother

theorem Tracked.sent_frame {s : Tracked} {call : MarketCall}
    (hframe : OrderFrame s.world (call.run h s.world).state) : s.sent h call = [] := by
  show (ordersSince s.world.log (call.run h s.world).state.log).map _ = []
  rw [ordersSince_frame hframe, List.map_nil]

theorem Tracked.step_eq_some {s s' : Tracked} {call : MarketCall} (hs : s.step h call = some s') :
    s' = s.after call (call.run h s.world).state := by
  unfold Tracked.step at hs
  cases hrun : call.run h s.world with
  | ok _ w =>
    rw [hrun] at hs
    exact (Option.some.inj hs).symm
  | error e => exact e.elim
  | abort w =>
    rw [hrun] at hs
    cases hs

/-- What a notification sends is on the list. -/
theorem mem_ordersSince_created {msg : OrderCreatedNotification} {order new : Order} {w w₁ w₂ : World}
    (hstep : TokenStep msg.details.asset w w₁)
    (hshown : ListShown (w₁.modifyData fun d =>
      { d with ordersLast := d.ordersLast.insert msg.orderId new }) w₂)
    (horder : order ∈ ordersSince w.log w₂.log) :
    ∃ X : OrderId, w₂.data.ordersLast[X]? = some order := by
  obtain ⟨events, hevents, hnone⟩ := hstep.orders.log
  obtain ⟨newer, hnewer, hlisted⟩ := hshown.log
  have hlog : w₂.log = (newer ++ events) ++ w.log := by
    rw [hnewer, List.append_assoc]
    exact congrArg _ hevents
  rw [mem_ordersSince hlog, List.mem_append] at horder
  rcases horder with horder | horder
  · rw [hshown.last]
    exact hlisted order horder
  · have hupdate := (hnone _ horder).1
    cases hupdate

/-- What a call sends follows its market, and a call that returns keeps the invariant. -/
theorem MarketInv.call {s : Tracked} {call : MarketCall} (hs : MarketInv s)
    (hcall : NotPromoted s call) :
    (∀ p ∈ s.sent h call, FollowsMarket p) ∧ ∀ s', s.step h call = some s' → MarketInv s' := by
  have hassets : Allows (fun v v' => OrderFrame v v' ∧ (TokenIndex v → TokenIndex v')) .assets :=
    ⟨fun hs => .single ⟨hs.orderFrame rfl (by decide) (by decide), hs.tokenIndex rfl⟩⟩
  -- a registration sends no order
  have hregisters : (∀ X, s.after call X = ⟨X, s.noted⟩) →
      Refines (fun v v' => OrderFrame v v' ∧ (TokenIndex v → TokenIndex v')) (call.run h) →
      (∀ p ∈ s.sent h call, FollowsMarket p) ∧ ∀ s', s.step h call = some s' → MarketInv s' := by
    intro hafter hrun
    obtain ⟨hframe, hinv⟩ := hs.registers hrun
    refine ⟨fun p hp => ?_, fun s' hstep => ?_⟩
    · rw [Tracked.sent_frame hframe] at hp
      cases hp
    · rw [Tracked.step_eq_some hstep, hafter]
      exact hinv
  cases call with
  | registerAsset asset swapMarket domain =>
    exact hregisters (fun _ => rfl) (registerAsset_effects asset swapMarket domain)
  | registerAssets assets => exact hregisters (fun _ => rfl) (registerAssets_effects assets)
  | orderCreated msg =>
    obtain ⟨w₁, htokens, habort | ⟨order, hid, hasset, hmarket, hrun⟩⟩ :=
      processOrderCreated_cases (h := h) msg s.world
    · have habort : MarketCall.run h (.orderCreated msg) s.world = .abort w₁ := habort
      refine ⟨fun p hp => ?_, fun s' hstep => ?_⟩
      · rw [Tracked.sent_frame (by rw [habort]; exact htokens.orders)] at hp
        cases hp
      · rw [Tracked.step, habort] at hstep
        cases hstep
    · have hrun : MarketCall.run h (.orderCreated msg) s.world = _ := hrun
      have hshown := syncOrderList_shown (ε := Empty) (w₁.modifyData fun d =>
        { d with ordersLast := d.ordersLast.insert msg.orderId order })
      have hinv := hs.created hcall htokens hid hasset hmarket hshown
      rw [← hrun] at hshown hinv
      refine ⟨fun p hp => ?_, fun s' hstep => ?_⟩
      · obtain ⟨sent, hsent, rfl⟩ := List.mem_map.mp hp
        obtain ⟨X, hX⟩ := mem_ordersSince_created htokens hshown hsent
        obtain ⟨hkey, hfollows⟩ := hinv.listed X sent hX
        rw [hkey]
        exact hfollows
      · rw [Tracked.step_eq_some hstep]
        exact hinv

/-! ### Sequences -/

/-- In every sequence of registrations and order notifications, from any state of the worker with an
empty order list, in which no notification is about a promoted asset, every order sent follows the
latest registration of its asset. -/
theorem token_market_follows (h : Host) (xs : List (Feed Message)) (calls : List MarketCall) :
    let s : Tracked := ⟨((machine h).run (start h) xs).state, fun _ => none⟩
    s.world.data.ordersLast.isEmpty = true → Runs.Meets (Tracked.step h) NotPromoted s calls →
      ∀ p ∈ Runs.outputs (Tracked.step h) (Tracked.sent h) s calls, FollowsMarket p := by
  intro s hempty hmeets
  have hs : MarketInv s := by
    refine ⟨run_tokenIndex xs, fun X order hlisted => ?_⟩
    rw [Std.ExtTreeMap.isEmpty_iff.mp hempty, Map.lookup_empty] at hlisted
    cases hlisted
  exact Runs.outputs_invariant (fun _ _ _ hs hcall hstep => (hs.call hcall).2 _ hstep)
    (fun _ _ hs hcall => (hs.call hcall).1) calls hs hmeets

namespace Sample

/-- Gold as it is registered. -/
def goldAsset : Asset := ⟨gold, "Gold", ⟨"GLD"⟩, some "", 8, none⟩

/-- Gold is met first in a transaction, and served as an asset of the swap market later. -/
def promotion : List MarketCall :=
  [.registerAsset goldAsset false none, .registerAssets [goldAsset], .orderCreated goldOrder]

/-- Gold is on the list of the server, and an order makes an unknown asset a token. -/
def listing : List MarketCall := [.registerAssets [goldAsset], .orderCreated goldOrder]

end Sample

open Sample in
/-- An order for gold, which is for the swap market. -/
theorem token_market_follows_listing :
    (Runs.outputs (Tracked.step marketHost) (Tracked.sent marketHost)
      ⟨(start marketHost).state, fun _ => none⟩ listing).length = 1 ∧
    ∀ p ∈ Runs.outputs (Tracked.step marketHost) (Tracked.sent marketHost)
      ⟨(start marketHost).state, fun _ => none⟩ listing, FollowsMarket p :=
  ⟨by decide +kernel,
    token_market_follows marketHost [] listing (by decide +kernel) (by decide +kernel)⟩

open Sample in
/-- Gold is for the swap market, but its order is a token order. -/
theorem token_market_stale :
    ¬ ∀ (h : Host) (xs : List (Feed Message)) (calls : List MarketCall),
      let s : Tracked := ⟨((machine h).run (start h) xs).state, fun _ => none⟩
      s.world.data.ordersLast.isEmpty = true →
        ∀ p ∈ Runs.outputs (Tracked.step h) (Tracked.sent h) s calls, FollowsMarket p := by
  intro hall
  have hfollows := hall marketHost [] promotion (by decide +kernel)
  revert hfollows
  decide +kernel

end SideSwap.Client
