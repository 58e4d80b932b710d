import SideSwap.Client.NativeAsset

/-!
# The asset list of the server

Each connection brings a list of assets.  The worker subscribes to their prices, and it saves and
registers the list unless it is the one that the process has started with (`assetsOld`).  The
subscriptions are made by ticker before the list is registered.

`connect_updates_assets_iff` says when a connect brings the table, the file and the price feeds up
to date: the tickers of the list must lead to its assets already, and if the list is `assetsOld`, no
other list may have taken its place in the table or in the file since.
-/

namespace SideSwap.Client

open Proc

variable {h : Host}

/-! ### What a connect should achieve -/

/-- The events since an earlier state, the newest first. -/
def eventsSince (w w' : World) : List Event := w'.log.take (w'.log.length - w.log.length)

/-- The list of an answer to `Assets`. -/
def Event.listed : Event → Option (List Asset)
  | .request .assets (.ok list) => some list
  | _ => none

/-- The asset of a `PriceUpdateSubscribe`. -/
def Event.subscribed : Event → Option AssetId
  | .request (.priceUpdateSubscribe assetId) _ => some assetId
  | _ => none

/-- The lists that the server has sent. -/
def listsSince (w w' : World) : List (List Asset) := (eventsSince w w').filterMap Event.listed

/-- The price feeds that were subscribed to. -/
def feedsSince (w w' : World) : List AssetId := (eventsSince w w').filterMap Event.subscribed

/-- The table, the file and the price feeds after a connect that started in the state `w`. -/
structure AssetsUpToDate (list : List Asset) (w w' : World) : Prop where
  registered : ∀ asset ∈ list, w'.data.assets[asset.assetId]? = some asset
  saved : w'.assetsSaved = some true → w'.assetsFile = some list
  subscribed : ∀ asset ∈ list, asset.ticker ≠ tickerLbtc → asset.assetId ∈ feedsSince w w'

/-- The state is ready for a connect that brings this list. -/
structure ReadyForList (list : List Asset) (w : World) : Prop where
  /-- the list that the process has started with still stands -/
  unchanged : list = w.data.assetsOld →
    (∀ asset ∈ list, w.data.assets[asset.assetId]? = some asset) ∧
      (w.assetsSaved = some true → w.assetsFile = some list)
  /-- another list has one entry for each asset -/
  unique : list ≠ w.data.assetsOld →
    ∀ asset ∈ list, ∀ other ∈ list, other.assetId = asset.assetId → other = asset
  /-- the tickers of the list lead to its assets before it is registered -/
  resolved : ∀ asset ∈ list, asset.ticker ≠ tickerLbtc →
    ∃ other ∈ list, other.ticker ≠ tickerLbtc ∧
      w.data.tickers[other.ticker]? = some asset.assetId

/-! ### Steps that leave the list alone -/

/-- Events of a connect that are about something else. -/
def OffList (events : List Event) : Prop := ∀ e ∈ events, e.listed = none ∧ e.subscribed = none

/-- Events that do not concern the list, joined. -/
theorem OffList.append {new old : List Event} (hnew : OffList new) (hold : OffList old) :
    OffList (new ++ old) :=
  List.forall_mem_append.mpr ⟨hnew, hold⟩

theorem OffList.nil : OffList [] := fun _ he => by cases he

/-- One event that does not concern the list. -/
theorem OffList.singleton {e : Event} (hlisted : e.listed = none) (hsubscribed : e.subscribed = none) :
    OffList [e] := by
  intro e' he
  rw [List.mem_singleton.mp he]
  exact ⟨hlisted, hsubscribed⟩

/-- The file with the list is the same, and no list was asked for. -/
structure Unlisted (w w' : World) : Prop where
  file : w'.assetsFile = w.assetsFile
  saved : w'.assetsSaved = w.assetsSaved
  log : ∃ events, w'.log = events ++ w.log ∧ OffList events

/-- Nothing happens. -/
theorem Unlisted.of_log {w w' : World} (hfile : w'.assetsFile = w.assetsFile)
    (hsaved : w'.assetsSaved = w.assetsSaved) (hlog : w'.log = w.log) : Unlisted w w' :=
  ⟨hfile, hsaved, [], hlog, .nil⟩

/-- One event that does not concern the list. -/
theorem Unlisted.of_record {w w' : World} {e : Event} (hfile : w'.assetsFile = w.assetsFile)
    (hsaved : w'.assetsSaved = w.assetsSaved) (hlog : w'.log = e :: w.log)
    (hlisted : e.listed = none) (hsubscribed : e.subscribed = none) : Unlisted w w' :=
  ⟨hfile, hsaved, [e], hlog, .singleton hlisted hsubscribed⟩

theorem Unlisted.refl (w : World) : Unlisted w w := .of_log rfl rfl rfl

/-- One after the other. -/
theorem Unlisted.trans {w v w' : World} (hfirst : Unlisted w v) (hlast : Unlisted v w') :
    Unlisted w w' := by
  obtain ⟨old, hold, hoff⟩ := hfirst.log
  obtain ⟨new, hnew, hoff'⟩ := hlast.log
  refine ⟨hlast.file.trans hfirst.file, hlast.saved.trans hfirst.saved, new ++ old, ?_,
    hoff'.append hoff⟩
  rw [hnew, hold, List.append_assoc]

/-- What is in the table stays there. -/
structure Later (w w' : World) : Prop extends Unlisted w w' where
  entries : ∀ (X : AssetId) (asset : Asset), w.data.assets[X]? = some asset →
    w'.data.assets[X]? = some asset

theorem Later.refl (w : World) : Later w w := ⟨.refl w, fun _ _ hX => hX⟩

/-- One after the other. -/
theorem Later.trans {w v w' : World} (hfirst : Later w v) (hlast : Later v w') : Later w w' :=
  ⟨hfirst.toUnlisted.trans hlast.toUnlisted,
    fun X asset hX => hlast.entries X asset (hfirst.entries X asset hX)⟩

/-- A chain of later states. -/
theorem Later.of_chain {w w' : World} (hchain : Relation.ReflTransGen Later w w') : Later w w' := by
  induction hchain with
  | refl => exact .refl w
  | tail _ hstep ih => exact ih.trans hstep

/-- The table is the same. -/
structure Steady (w w' : World) : Prop extends Unlisted w w' where
  assets : w'.data.assets = w.data.assets

/-- A table that stays is a table that grows. -/
theorem Steady.later {w w' : World} (hsteady : Steady w w') : Later w w' :=
  ⟨hsteady.toUnlisted, fun X asset hX => by rw [hsteady.assets, hX]⟩

/-- A computation that leaves the table alone. -/
theorem later_of_steady {ε α : Type} {m : Worker ε α} (hm : Refines Steady m) : Refines Later m :=
  hm.mono fun _ _ hstep => hstep.later

/-- Only the effect `listing` has events about the list. -/
theorem Event.offList_of_effect {e : Event} {k : Effect} (he : e.effect = some k) (hk : k ≠ .listing) :
    e.listed = none ∧ e.subscribed = none := by
  cases e with
  | request req answer =>
    cases req
    case assets | priceUpdateSubscribe =>
      cases he
      exact absurd rfl hk
    all_goals exact ⟨rfl, rfl⟩
  | _ => exact ⟨rfl, rfl⟩

/-- Only the effect `listing` touches the file of the list. -/
theorem Change.unlisted {k : Effect} {w w' : World} (hs : Change k w w') (hcoarse : k.coarse = false)
    (hk : k ≠ .listing) : Unlisted w w' := by
  cases hs
  case said e he =>
    obtain ⟨hlisted, hsubscribed⟩ := Event.offList_of_effect he hk
    exact .of_record rfl rfl rfl hlisted hsubscribed
  case saved ok => cases ok <;> exact .of_log rfl rfl rfl
  case assetsSaved => exact absurd rfl hk
  case synced | balanced => cases hcoarse
  case registered | orderHidden | orderShown | txShown | txHidden | txsSent | balanceShown
      | balancesShown | swapReported | succeedShown | linkShown | promptQueued | promptShown | swapDone
      | stored | completed | down =>
    exact .of_record rfl rfl rfl rfl rfl
  all_goals exact .of_log rfl rfl rfl

/-- Only the effect `assets` touches the table. -/
theorem Change.steady {k : Effect} {w w' : World} (hs : Change k w w') (hcoarse : k.coarse = false)
    (hassets : k ≠ .assets) (hlisting : k ≠ .listing) : Steady w w' :=
  ⟨hs.unlisted hcoarse hlisting, (hs.assetFrame hcoarse hassets).assets⟩

/-- A handler without these two effects. -/
theorem allows_steady (k : Effect) (hassets : k ≠ .assets) (hlisting : k ≠ .listing) :
    Allows Steady k := by
  refine allows_of_changes (fun k => k ≠ .assets && k ≠ .listing) rfl ?_ k (by simp [hassets, hlisting])
  intro k w w' hk hcoarse hs
  simp only [ne_eq, Bool.and_eq_true, decide_eq_true_eq] at hk
  exact hs.steady hcoarse hk.1 hk.2

instance : Allows Steady .talk := allows_steady _ (by decide) (by decide)
instance : Allows Steady .orders := allows_steady _ (by decide) (by decide)
instance : Allows Steady .wallet := allows_steady _ (by decide) (by decide)
instance : Allows Steady .sync := allows_steady _ (by decide) (by decide)
instance : Allows Steady .balances := allows_steady _ (by decide) (by decide)

/-! ### Assets that are met later -/

/-- An asset that is new does not replace one of the list. -/
theorem Later.registered {w : World} {asset : Asset} {icon : String} {swapMarket : Bool}
    {domain : Option String} (hnew : w.data.assets.contains asset.assetId = false) :
    Later w (w.registered asset icon swapMarket domain) := by
  refine ⟨.of_record rfl rfl rfl rfl rfl, fun X entry hX => ?_⟩
  show (w.data.assets.insert asset.assetId asset)[X]? = some entry
  have hne : asset.assetId ≠ X := by
    rintro rfl
    rw [(Map.lookup_eq_none_iff _ _).mpr hnew] at hX
    cases hX
  rw [Map.lookup_insert, if_neg hne, hX]

/-- The registration of an asset that is not in the table. -/
theorem registerAsset_later {ε : Type} (asset : Asset) (domain : Option String) {ids : List AssetId}
    (hids : asset.assetId ∉ ids) :
    Guar Later (fun w => ∀ X ∈ asset.assetId :: ids, w.data.assets.contains X = false)
      (registerAsset asset false domain : Worker ε Unit)
      fun _ w => ∀ X ∈ ids, w.data.assets.contains X = false := by
  intro w hw
  rw [registerAsset_apply]
  cases asset.icon with
  | none => exact ⟨.refl, fun _ _ hok => by cases hok⟩
  | some icon =>
    refine ⟨.single (.registered (hw _ List.mem_cons_self)), fun _ w' hok X hX => ?_⟩
    cases hok
    have hne : asset.assetId ≠ X := fun heq => hids (heq ▸ hX)
    show (w.data.assets.insert asset.assetId asset).contains X = false
    rw [← Map.lookup_eq_none_iff, Map.lookup_insert, if_neg hne, Map.lookup_eq_none_iff]
    exact hw X (List.mem_cons_of_mem _ hX)

/-- The registry answers about the asset that it was asked for. -/
theorem loadGdkAsset_id (assetId : AssetId) :
    Guar Steady (fun _ => True) (loadGdkAsset h assetId) fun p _ => p.1.assetId = assetId := by
  refine .bind (ctxOr_effects _).guar fun _ => .bind refreshAssets_effects.guar fun gdkAssets => ?_
  exact .bind (Refines.okOr _ _).guar fun v => .pure fun _ _ => rfl

/-- What is known of the table stays known in a steady computation. -/
theorem Steady.guar {ε α : Type} {m : Worker ε α} {Q : α → World → Prop}
    (hm : Guar Steady (fun _ => True) m Q) (P : Map AssetId Asset → Prop) :
    Guar Later (fun w => P w.data.assets) m fun a w => Q a w ∧ P w.data.assets := by
  have hframe := hm.frame (F := fun w : World => P w.data.assets)
    fun w w' hstep hw => by rw [hstep.assets]; exact hw
  exact (hframe.pre fun _ hw => ⟨trivial, hw⟩).mono fun _ _ hstep => hstep.later

/-- Only an asset that is not in the table is added. -/
theorem tryAddAsset_later (assetId : AssetId) : Refines Later (tryAddAsset h assetId) := by
  refine .of_guar (Q := fun _ _ => True) (.bind getData_spec fun d => ?_)
  split
  · exact .pure fun _ _ => trivial
  · rename_i hnew
    have hload := Steady.guar (loadGdkAsset_id (h := h) assetId) fun assets => assets = d.assets
    refine .bind (hload.pre ?_) fun p => ?_
    · rintro w ⟨rfl, -⟩
      rfl
    · have hregister := registerAsset_later (ε := String) p.1 p.2 (List.not_mem_nil (a := p.1.assetId))
      refine .of_fact fun hid => (hregister.pre ?_).post fun _ _ _ => trivial
      intro w hw X hX
      rw [List.mem_singleton.mp hX, hid, hw]
      exact eq_false_of_ne_true hnew

/-- The assets of the transactions are registered one after the other. -/
theorem addWalletAssets_later {ε : Type} {ids : List AssetId} (hids : ids.Nodup) :
    Guar Later (fun w => ∀ X ∈ ids, w.data.assets.contains X = false)
      (Proc.each ids (addWalletAsset h) : Worker ε Unit) fun _ _ => True := by
  induction ids with
  | nil => exact .pure fun _ _ => trivial
  | cons assetId ids ih =>
    obtain ⟨hnew, hids⟩ := List.nodup_cons.mp hids
    have hadd : Guar Later (fun w => ∀ X ∈ assetId :: ids, w.data.assets.contains X = false)
        (addWalletAsset h assetId : Worker ε Unit)
        fun _ w => ∀ X ∈ ids, w.data.assets.contains X = false := by
      refine .bind (Steady.guar (Guar.attempt (loadGdkAsset_id (h := h) assetId))
        fun assets => ∀ X ∈ assetId :: ids, assets.contains X = false) fun loaded => ?_
      cases loaded with
      | ok p =>
        refine .of_fact fun hid => ?_
        rw [← hid p rfl] at hnew ⊢
        exact registerAsset_later p.1 p.2 hnew
      | error e => exact .of_fact fun _ => registerAsset_later (unknownAsset h assetId) none hnew
    exact .bind hadd fun _ => ih hids

/-- An asset of the wallet is added once. -/
theorem newAssetIds_nodup (d : Data) (txs : List TxListItem) : (newAssetIds d txs).Nodup :=
  (Std.ExtTreeMap.nodup_keys).filter _

/-- The wallet's assets are new to the table. -/
theorem updateTxList_later {ε : Type} : Refines Later (updateTxList h : Worker ε Unit) := by
  refine ignoreError_effects (.of_guar (Q := fun _ _ => True) (.bind getData_spec fun d => ?_))
  split
  · exact .pure fun _ _ => trivial
  · have hread : Refines Steady (callOr h.getTransactions id) := callOr_effects _ _
    refine .bind ((Steady.guar hread fun assets => assets = d.assets).pre ?_) fun txs => ?_
    · rintro w ⟨rfl, -⟩
      rfl
    have hstore : Refines Steady (modifyCtx fun c => { c with txs := txs } : Worker String Unit) :=
      modify_effects fun _ => .txsRead txs
    refine .bind ((Steady.guar hstore fun assets => assets = d.assets).pre fun _ hw => hw.2) fun _ => ?_
    refine .bind ((addWalletAssets_later (newAssetIds_nodup d txs)).pre ?_) fun _ => ?_
    · rintro w ⟨-, hw⟩ X hX
      have hX := (List.mem_filter.mp hX).2
      rw [hw]
      simpa using hX
    · have hsync : Refines Steady (syncTxList h : Worker String Unit) := syncTxList_effects
      have hbalances : Refines Steady (updateBalances h : Worker String Unit) :=
        .of_chain fun _ => Allows.chain (.balanced h)
      exact later_of_steady (hsync.bind fun _ => hbalances)

/-- An order's asset is added if it is new. -/
theorem addOrder_later {ε : Type} (msg : OrderCreatedNotification) (new : Bool) :
    Refines Later (addOrder h msg new : Worker ε Unit) := by
  refine .bind (ignoreError_effects (tryAddAsset_later _)) fun _ => ?_
  exact .modify fun _ => ⟨.of_log rfl rfl rfl, fun _ _ hX => hX⟩

/-- So are the assets of the orders at a login. -/
theorem loginServer_later : Refines Later (loginServer h) := by
  have hlogin (d : Data) : Refines Steady (request h (.login d.settings.sessionId)) :=
    request_effects fun _ => rfl
  have hlist : Refines Steady (syncOrderList : Worker String Unit) := syncOrderList_effects
  have hsettings (resp : LoginResponse) : Refines Steady (do
      modifySettings fun s => { s with sessionId := some resp.sessionId }
      saveSettings h : Worker String Unit) :=
    .bind (modifySettings_effects fun _ => rfl) fun _ => saveSettings_effects
  refine .bind getData_effects fun d => .bind (later_of_steady (hlogin d)) fun resp => ?_
  refine .bind (.each fun order _ => addOrder_later order false) fun _ => ?_
  refine .bind (later_of_steady hlist) fun _ => .bind getData_effects fun d => ?_
  split
  · exact .pure _
  · exact later_of_steady (hsettings resp)

/-- The part of a connect after the list was registered. -/
theorem afterList_later : Refines Later (do
    let serverStatus ← request h .serverStatus
    processServerStatus serverStatus
    updateTxList h
    verifyDevice h
    registerDevice h
    loginServer h : Worker String Unit) := by
  have hstatus : Refines Steady (request h .serverStatus) := request_effects fun _ => rfl
  have hshow (status : ServerStatus) : Refines Steady (processServerStatus status : Worker String Unit) :=
    processServerStatus_effects status
  have hverify : Refines Steady (verifyDevice h) := verifyDevice_effects
  have hregister : Refines Steady (registerDevice h) := registerDevice_effects
  refine .bind (later_of_steady hstatus) fun status => ?_
  refine .bind (later_of_steady (hshow status)) fun _ => .bind updateTxList_later fun _ => ?_
  refine .bind (later_of_steady hverify) fun _ => ?_
  exact .bind (later_of_steady hregister) fun _ => loginServer_later

/-! ### The list itself -/

/-- The entry of an asset after a list has been registered. -/
def lastEntry (list : List Asset) (X : AssetId) : Option Asset :=
  list.reverse.find? fun asset => asset.assetId = X

/-- The last entry of an asset is not the first one, unless there is no other. -/
theorem lastEntry_cons (asset : Asset) (list : List Asset) (X : AssetId) :
    lastEntry (asset :: list) X =
      (lastEntry list X).or (if asset.assetId = X then some asset else none) := by
  unfold lastEntry
  rw [List.reverse_cons, List.find?_append, List.find?_singleton]
  simp only [decide_eq_true_eq]

/-- The last entry of an asset is in the list. -/
theorem lastEntry_mem {list : List Asset} {X : AssetId} {asset : Asset}
    (hasset : lastEntry list X = some asset) : asset ∈ list ∧ asset.assetId = X :=
  ⟨List.mem_reverse.mp (List.mem_of_find?_eq_some hasset), by simpa using List.find?_some hasset⟩

/-- An asset of the list has a last entry. -/
theorem exists_lastEntry {list : List Asset} {asset : Asset} (hasset : asset ∈ list) :
    ∃ entry, lastEntry list asset.assetId = some entry := by
  rw [← Option.isSome_iff_exists, lastEntry, List.find?_isSome]
  exact ⟨asset, List.mem_reverse.mpr hasset, by simp⟩

/-- The table after a list has been registered. -/
structure Registered (list : List Asset) (w w' : World) : Prop extends Unlisted w w' where
  entries : ∀ X, w'.data.assets[X]? = (lastEntry list X).or w.data.assets[X]?
  old : w'.data.assetsOld = w.data.assetsOld

/-- The loop registers every asset of the list, a later one over an earlier one. -/
theorem eachRegistered {ε : Type} {list : List Asset} {w w' : World}
    (hok : (Proc.each list fun asset => registerAsset asset (decide (asset.assetId ≠ h.liquidAssetId))
      none : Worker ε Unit) w = .ok () w') : Registered list w w' := by
  -- induction over the list: the entry of its head stands unless the rest has another one
  induction list generalizing w with
  | nil =>
    cases hok
    exact ⟨.refl _, fun X => rfl, rfl⟩
  | cons asset list ih =>
    obtain ⟨_, w₁, hfirst, hrest⟩ := bind_eq_ok hok
    have hrest := ih hrest
    have hfirst := (registerAsset_apply _ _ _ w).symm.trans hfirst
    cases hicon : asset.icon with
    | none =>
      rw [hicon] at hfirst
      cases hfirst
    | some icon =>
      rw [hicon] at hfirst
      cases hfirst
      have hstep : Unlisted w (w.registered asset icon (decide (asset.assetId ≠ h.liquidAssetId)) none) :=
        .of_record rfl rfl rfl rfl rfl
      refine ⟨hstep.trans hrest.toUnlisted, fun X => ?_, hrest.old⟩
      have hinsert : (w.registered asset icon (decide (asset.assetId ≠ h.liquidAssetId))
          none).data.assets[X]? = if asset.assetId = X then some asset else w.data.assets[X]? :=
        Map.lookup_insert _ _ _ _
      rw [hrest.entries X, lastEntry_cons, Option.or_assoc, hinsert]
      split <;> rfl

/-- So does the registration as a whole. -/
theorem registerAssets_spec {ε : Type} {list : List Asset} {w w' : World}
    (hok : (registerAssets h list : Worker ε Unit) w = .ok () w') : Registered list w w' := by
  obtain ⟨_, w₁, hcheck, heach⟩ := bind_eq_ok hok
  by_cases hlist : checkAssets h.env list = true
  · rw [if_pos hlist] at hcheck
    cases hcheck
    exact eachRegistered heach
  · rw [if_neg hlist] at hcheck
    cases hcheck

/-- The update of the list: nothing happens if it is the one of the start. -/
theorem updateAssets_spec {ε : Type} {list : List Asset} {w w' : World}
    (hok : (updateAssets h list : Worker ε Unit) w = .ok () w') :
    if list = w.data.assetsOld then w' = w
    else
      (∃ ok, w'.assetsSaved = some ok ∧
        w'.assetsFile = if ok then some list else w.assetsFile) ∧
      (∀ X, w'.data.assets[X]? = (lastEntry list X).or w.data.assets[X]?) ∧
      ∃ events, w'.log = events ++ w.log ∧ OffList events := by
  unfold updateAssets at hok
  rw [getData_bind_apply] at hok
  split
  · rename_i hold
    rw [if_pos hold] at hok
    cases hok
    rfl
  · rename_i hold
    rw [if_neg hold] at hok
    obtain ⟨_, w₁, hsave, hregister⟩ := bind_eq_ok hok
    cases hsave
    have hregistered := registerAssets_spec hregister
    exact ⟨⟨_, hregistered.saved, hregistered.file⟩, hregistered.entries, hregistered.log⟩

/-! ### The price feeds -/

/-- An error counts as an end. -/
theorem ignoreError_apply {ε α : Type} (m : Worker String α) (w : World) :
    (ignoreError m : Worker ε Unit) w =
      match m w with
      | .ok _ w' => .ok () w'
      | .error _ w' => .ok () w'
      | .abort w' => .abort w' := by
  unfold ignoreError
  rw [bind_apply]
  unfold Proc.attempt
  cases m w <;> rfl

/-- An asset that is in the table is asked for. -/
theorem subscribePriceUpdate_apply {ε : Type} (ticker : Ticker) (w : World) :
    (subscribePriceUpdate h ticker : Worker ε Unit) w =
      match w.data.tickers[ticker]? with
      | none => .ok () w
      | some X => .ok () (w.asked (.priceUpdateSubscribe X) (h.server w.calls (.priceUpdateSubscribe X))) := by
  unfold subscribePriceUpdate
  rw [getData_bind_apply]
  cases w.data.tickers[ticker]? with
  | none => rfl
  | some X =>
    show (ignoreError (request h (.priceUpdateSubscribe X)) : Worker ε Unit) w =
      .ok () (w.asked (.priceUpdateSubscribe X) (h.server w.calls (.priceUpdateSubscribe X)))
    rw [ignoreError_apply, request, requestOr_apply]
    cases h.server w.calls (.priceUpdateSubscribe X) <;> rfl

/-- The state after some price feeds were subscribed to. -/
structure Fed (tickers : List Ticker) (w w' : World) : Prop where
  data : w'.data = w.data
  file : w'.assetsFile = w.assetsFile
  saved : w'.assetsSaved = w.assetsSaved
  log : ∃ events, w'.log = events ++ w.log ∧ (∀ e ∈ events, e.listed = none) ∧
    ∀ X, X ∈ events.filterMap Event.subscribed ↔ ∃ ticker ∈ tickers, w.data.tickers[ticker]? = some X

/-- The loop asks for every ticker that is in the table. -/
theorem eachFed {ε : Type} {list : List Asset} {w w' : World}
    (hok : (Proc.each list fun asset => subscribePriceUpdate h asset.ticker : Worker ε Unit) w =
      .ok () w') : Fed (list.map Asset.ticker) w w' := by
  induction list generalizing w with
  | nil =>
    cases hok
    exact ⟨rfl, rfl, rfl, [], rfl, (fun _ he => by cases he), fun X => by simp⟩
  | cons asset list ih =>
    obtain ⟨_, w₁, hfirst, hrest⟩ := bind_eq_ok hok
    obtain ⟨hdata, hfile, hsaved, events, hlog, hlisted, hfeeds⟩ := ih hrest
    have hfirst := (subscribePriceUpdate_apply _ w).symm.trans hfirst
    cases hX : w.data.tickers[asset.ticker]? with
    -- an unknown ticker is not subscribed to
    | none =>
      rw [hX] at hfirst
      cases hfirst
      refine ⟨hdata, hfile, hsaved, events, hlog, hlisted, fun X => ?_⟩
      rw [hfeeds, List.map_cons, List.exists_mem_cons_iff, hX]
      simp
    | some X =>
      rw [hX] at hfirst
      cases hfirst
      let e : Event := .request (.priceUpdateSubscribe X) (h.server w.calls (.priceUpdateSubscribe X))
      refine ⟨hdata, hfile, hsaved, events ++ [e], ?_, ?_, fun Y => ?_⟩
      · rw [hlog, List.append_assoc]
        rfl
      · intro e he
        rcases List.mem_append.mp he with he | he
        · exact hlisted e he
        · rw [List.mem_singleton.mp he]
          rfl
      · have hlast : e.subscribed = some X := rfl
        rw [List.filterMap_append, List.mem_append, hfeeds, List.map_cons, List.exists_mem_cons_iff, hX,
          List.filterMap_cons_some hlast, List.filterMap_nil, List.mem_singleton, Option.some_inj,
          eq_comm (a := Y), or_comm]
        exact Iff.rfl

/-! ### A connect -/

theorem OffList.listed {events : List Event} (hoff : OffList events) :
    events.filterMap Event.listed = [] :=
  List.filterMap_eq_nil_iff.mpr fun e he => (hoff e he).1

theorem OffList.subscribed {events : List Event} (hoff : OffList events) :
    events.filterMap Event.subscribed = [] :=
  List.filterMap_eq_nil_iff.mpr fun e he => (hoff e he).2

/-- What the answer of the server has led to. -/
structure ListTaken (list : List Asset) (w v : World) : Prop where
  log : ∃ events, v.log = events ++ w.log ∧ events.filterMap Event.listed = [list] ∧
    ∀ X, X ∈ events.filterMap Event.subscribed ↔
      ∃ asset ∈ list, asset.ticker ≠ tickerLbtc ∧ w.data.tickers[asset.ticker]? = some X
  old : list = w.data.assetsOld →
    v.data.assets = w.data.assets ∧ v.assetsFile = w.assetsFile ∧ v.assetsSaved = w.assetsSaved
  new : list ≠ w.data.assetsOld →
    (v.assetsSaved = some true → v.assetsFile = some list) ∧
      ∀ X, v.data.assets[X]? = (lastEntry list X).or w.data.assets[X]?

/-- The subscriptions and the update after the answer. -/
theorem listTaken_of_update {list : List Asset} {asked : List Event} {w w₁ w₂ v : World}
    (hdata : w₁.data = w.data) (hfile : w₁.assetsFile = w.assetsFile)
    (hsaved : w₁.assetsSaved = w.assetsSaved) (hlog : w₁.log = asked ++ w.log)
    (hlisted : asked.filterMap Event.listed = [list]) (hsubscribed : asked.filterMap Event.subscribed = [])
    (hfeeds : (Proc.each (list.filter fun asset => asset.ticker ≠ tickerLbtc) fun asset =>
      subscribePriceUpdate h asset.ticker : Worker String Unit) w₁ = .ok () w₂)
    (hupdate : (updateAssets h list : Worker String Unit) w₂ = .ok () v) : ListTaken list w v := by
  -- the requests for prices change neither the tables nor the files
  have hfed := eachFed hfeeds
  obtain ⟨feeds, hlog₂, hquiet, hfeeds⟩ := hfed.log
  have hdata₂ : w₂.data = w.data := hfed.data.trans hdata
  have hupdate := updateAssets_spec hupdate
  rw [hdata₂] at hupdate
  have hlog₂ : w₂.log = (feeds ++ asked) ++ w.log := by rw [hlog₂, hlog, List.append_assoc]
  have hlists : (feeds ++ asked).filterMap Event.listed = [list] := by
    rw [List.filterMap_append, List.filterMap_eq_nil_iff.mpr hquiet, hlisted, List.nil_append]
  -- the assets with prices are those of the list whose ticker was registered
  have hmem : ∀ X, X ∈ (feeds ++ asked).filterMap Event.subscribed ↔
      ∃ asset ∈ list, asset.ticker ≠ tickerLbtc ∧ w.data.tickers[asset.ticker]? = some X := by
    intro X
    rw [List.filterMap_append, hsubscribed, List.append_nil, hfeeds, hdata]
    simp only [List.mem_map, List.mem_filter, decide_eq_true_eq]
    constructor
    · rintro ⟨ticker, ⟨asset, ⟨hasset, hticker⟩, rfl⟩, hX⟩
      exact ⟨asset, hasset, hticker, hX⟩
    · rintro ⟨asset, hasset, hticker, hX⟩
      exact ⟨_, ⟨asset, ⟨hasset, hticker⟩, rfl⟩, hX⟩
  -- the list of before is left as it is; any other one is written and registered
  by_cases hold : list = w.data.assetsOld
  · rw [if_pos hold] at hupdate
    subst hupdate
    refine ⟨⟨feeds ++ asked, hlog₂, hlists, hmem⟩, fun _ => ⟨?_, ?_, ?_⟩, fun hnew => absurd hold hnew⟩
    · rw [hdata₂]
    · rw [hfed.file, hfile]
    · rw [hfed.saved, hsaved]
  · rw [if_neg hold] at hupdate
    obtain ⟨⟨ok, hok, hwritten⟩, hentries, late, hlate, hoff⟩ := hupdate
    refine ⟨⟨late ++ (feeds ++ asked), ?_, ?_, fun X => ?_⟩, fun hsame => absurd hsame hold,
      fun _ => ⟨fun htrue => ?_, hentries⟩⟩
    · rw [hlate, hlog₂]
      exact (List.append_assoc _ _ _).symm
    · rw [List.filterMap_append, hoff.listed, hlists, List.nil_append]
    · rw [List.filterMap_append, hoff.subscribed, List.nil_append, hmem]
    · rw [hok] at htrue
      rw [hwritten, Option.some.inj htrue, if_pos rfl]

/-- A successful set-up takes the list, and later steps do not undo it. -/
theorem tryProcessWsConnected_listTaken {w w' : World}
    (hok : tryProcessWsConnected h w = .ok () w') : ∃ list v, ListTaken list w v ∧ Later v w' := by
  obtain ⟨cookie, w₁, hcookie, hok⟩ := bind_eq_ok hok
  cases hcookie
  obtain ⟨session, w₂, hlogin, hok⟩ := bind_eq_ok hok
  obtain ⟨list, w₃, hlist, hok⟩ := bind_eq_ok hok
  obtain ⟨_, w₄, hfeeds, hok⟩ := bind_eq_ok hok
  obtain ⟨_, v, hupdate, hrest⟩ := bind_eq_ok hok
  have hlater := (afterList_later (h := h)).chain v
  rw [hrest] at hlater
  refine ⟨list, v, ?_, .of_chain hlater⟩
  obtain rfl := (request_ok hlogin).2
  obtain rfl := (request_ok hlist).2
  let asked : List Event := [.request .assets (.ok list),
    .request (.loginClient (h.readCookie w.calls) h.version) (.ok session)]
  have hlisted : asked.filterMap Event.listed = [list] := rfl
  have hsubscribed : asked.filterMap Event.subscribed = [] := rfl
  refine listTaken_of_update (w := w) ?_ ?_ ?_ ?_ hlisted hsubscribed hfeeds hupdate <;> rfl

/-- The events since a state are those that were added. -/
theorem eventsSince_eq {w w' : World} {events : List Event} (hlog : w'.log = events ++ w.log) :
    eventsSince w w' = events := by
  rw [eventsSince, hlog, List.length_append, Nat.add_sub_cancel, List.take_left]

/-- Every list of the connect is the one that was taken. -/
theorem ListTaken.since {list : List Asset} {w v w' : World} (htaken : ListTaken list w v)
    (hlater : Later v w') : listsSince w w' = [list] ∧
      ∀ X, X ∈ feedsSince w w' ↔
        ∃ asset ∈ list, asset.ticker ≠ tickerLbtc ∧ w.data.tickers[asset.ticker]? = some X := by
  obtain ⟨events, hlog, hlists, hfeeds⟩ := htaken.log
  obtain ⟨late, hlate, hoff⟩ := hlater.log
  have hsince : eventsSince w w' = late ++ events :=
    eventsSince_eq (by rw [hlate, hlog, List.append_assoc])
  unfold listsSince feedsSince
  rw [hsince, List.filterMap_append, hoff.listed, List.filterMap_append, hoff.subscribed]
  exact ⟨hlists, hfeeds⟩

/-! ### The list of the start -/

/-- The assets of the list that the process has started with are in the table. -/
def KnowsOldList (w : World) : Prop :=
  ∀ asset ∈ w.data.assetsOld, w.data.assets.contains asset.assetId = true

/-- The list of the start is the same, and the table only grows. -/
structure TableGrows (w w' : World) : Prop where
  old : w'.data.assetsOld = w.data.assetsOld
  grows : ∀ X, w.data.assets.contains X = true → w'.data.assets.contains X = true

/-- A table that grows still knows the list. -/
theorem KnowsOldList.grows {w w' : World} (hgrows : TableGrows w w') (hw : KnowsOldList w) :
    KnowsOldList w' := by
  intro asset hasset
  rw [hgrows.old] at hasset
  exact hgrows.grows _ (hw asset hasset)

/-- Nothing changes. -/
theorem TableGrows.of_data {w w' : World} (hold : w'.data.assetsOld = w.data.assetsOld)
    (hassets : w'.data.assets = w.data.assets) : TableGrows w w' :=
  ⟨hold, fun X hX => by rw [hassets, hX]⟩

/-- After the start only a new list replaces assets. -/
theorem Change.tableGrows {k : Effect} {w w' : World} (hs : Change k w w') (hcoarse : k.coarse = false)
    (hload : k ≠ .load) : TableGrows w w' := by
  cases hs
  case saved ok => cases ok <;> exact .of_data rfl rfl
  case assetsLoaded => exact absurd rfl hload
  case info f hf => exact .of_data (by rw [World.modifyData, hf]) (by rw [World.modifyData, hf])
  case queued f hf => exact .of_data (by rw [World.modifyData, hf]) (by rw [World.modifyData, hf])
  case terms f hf _ => exact .of_data (by rw [World.modifyData, hf]) (by rw [World.modifyData, hf])
  case synced | balanced => cases hcoarse
  case registered icon asset swapMarket domain hicon =>
    refine ⟨rfl, fun X hX => ?_⟩
    show (w.data.assets.insert asset.assetId asset).contains X = true
    rw [Std.ExtTreeMap.contains_eq_isSome_getElem?] at hX ⊢
    rw [Map.lookup_insert]
    split
    · rfl
    · exact hX
  all_goals exact .of_data rfl rfl

/-- No message loads the saved list. -/
theorem Message.effects_load (msg : Message) : msg.effects.all (fun k => k ≠ .load) = true := by
  cases msg with
  | ui m => cases m <;> rfl
  | serverNotification n => cases n <;> rfl
  | _ => rfl

/-- A message keeps what is known of the saved list. -/
theorem handle_knowsOldList (msg : Message) {w : World} (hw : KnowsOldList w) :
    KnowsOldList ((machine h).handle msg w).state := by
  have hprocess : Refines (Preserves KnowsOldList) (process h msg : Worker Empty Unit) := by
    refine process_preserves (fun k => k ≠ .load) rfl ?_ msg.effects_load
    intro k w w' hk hcoarse hs
    exact KnowsOldList.grows (hs.tableGrows hcoarse (of_decide_eq_true hk))
  exact hprocess.preserves (s := w.record (.received msg)) hw

/-- The registration panics or succeeds. -/
theorem registerAssets_noFail {ε : Type} (list : List Asset) :
    NoFail (registerAssets h list : Worker ε Unit) := by
  refine .bind (fun w e w' hfail => ?_) fun _ => .each fun asset w e w' hfail => ?_
  · split at hfail <;> cases hfail
  · rw [registerAsset_apply] at hfail
    split at hfail <;> cases hfail

/-- A start leaves the saved list in the table. -/
theorem boot_knowsOldList {w w' : World} (hok : (machine h).boot w = .ok () w') : KnowsOldList w' := by
  have hboot : (ignoreError (loadAssets h) : Worker Empty Unit) (freshStart h w) = .ok () w' := hok
  rw [ignoreError_apply] at hboot
  have hload : loadAssets h (freshStart h w) =
      match w.assetsFile.or (if h.env = .prod then some h.embeddedAssets else none) with
      | none => .error "can't load assets" (freshStart h w)
      -- the list is registered in the same run, so each of its assets is known
      | some assets => registerAssets h assets
          ((freshStart h w).modifyData fun d => { d with assetsOld := assets }) := by
    unfold loadAssets
    rw [get_bind_apply]
    show (Proc.okOr (w.assetsFile.or _) _ >>= _) _ = _
    cases w.assetsFile.or (if h.env = .prod then some h.embeddedAssets else none) <;> rfl
  rw [hload] at hboot
  cases hfile : w.assetsFile.or (if h.env = .prod then some h.embeddedAssets else none) with
  | none =>
    rw [hfile] at hboot
    cases hboot
    exact fun asset hasset => by cases hasset
  | some assets =>
    rw [hfile] at hboot
    dsimp only at hboot
    cases hregister : (registerAssets h assets : Worker String Unit)
        ((freshStart h w).modifyData fun d => { d with assetsOld := assets }) with
    | ok u v =>
      rw [hregister] at hboot
      cases hboot
      have hregistered := registerAssets_spec hregister
      intro asset hasset
      rw [hregistered.old] at hasset
      have hasset : asset ∈ assets := hasset
      obtain ⟨entry, hentry⟩ := exists_lastEntry hasset
      rw [Std.ExtTreeMap.contains_eq_isSome_getElem?, hregistered.entries, hentry]
      rfl
    | error e v => exact absurd hregister (registerAssets_noFail _ _ _ _)
    | abort v =>
      rw [hregister] at hboot
      cases hboot

/-- In every run the table knows the list that the process started with. -/
theorem run_knowsOldList (xs : List (Feed Message))
    (halive : ((machine h).run (start h) xs).alive = true) :
    KnowsOldList ((machine h).run (start h) xs).state := by
  have hboot : ∀ w, True ∧ ∀ u w', (machine h).boot w = .ok u w' → KnowsOldList w' :=
    fun w => ⟨trivial, fun _ w' hok => boot_knowsOldList hok⟩
  have hstart : True ∧ ((start h).alive = true → KnowsOldList (start h).state) :=
    Machine.life_invariant (I := fun _ => True) (hboot World.new).1 (hboot World.new).2
  refine (Machine.run_life_invariant (M := machine h) (I := fun _ => True) (A := KnowsOldList)
    (C := fun _ _ => True) hstart (Machine.along_true _ _) (fun w msg _ _ hw => ⟨trivial, fun u w' hok => ?_⟩)
    fun w _ => hboot w).2 halive
  have hhandle := handle_knowsOldList (h := h) msg hw
  rw [hok] at hhandle
  exact hhandle

/-- A list that was taken is up to date, if the file could be written. -/
theorem ListTaken.upToDate {list : List Asset} {w v w' : World} (htaken : ListTaken list w v)
    (hlater : Later v w') (hready : ReadyForList list w) : AssetsUpToDate list w w' := by
  have hfeeds := (htaken.since hlater).2
  have hsubscribed : ∀ asset ∈ list, asset.ticker ≠ tickerLbtc → asset.assetId ∈ feedsSince w w' := by
    intro asset hasset hticker
    rw [hfeeds]
    exact hready.resolved asset hasset hticker
  -- what the list leaves behind is what it has found, or what it has registered
  by_cases hold : list = w.data.assetsOld
  · obtain ⟨hassets, hfile, hsaved⟩ := htaken.old hold
    obtain ⟨hentries, hstands⟩ := hready.unchanged hold
    refine ⟨fun asset hasset => ?_, fun htrue => ?_, hsubscribed⟩
    · apply hlater.entries
      rw [hassets]
      exact hentries asset hasset
    · rw [hlater.saved, hsaved] at htrue
      rw [hlater.file, hfile]
      exact hstands htrue
  · obtain ⟨hsaved, hentries⟩ := htaken.new hold
    refine ⟨fun asset hasset => ?_, fun htrue => ?_, hsubscribed⟩
    · apply hlater.entries
      obtain ⟨entry, hentry⟩ := exists_lastEntry hasset
      obtain ⟨hmem, hid⟩ := lastEntry_mem hentry
      rw [hentries, hentry, Option.some_or, hready.unique hold asset hasset entry hmem hid]
    · rw [hlater.saved] at htrue
      rw [hlater.file]
      exact hsaved htrue

/-- If the list is up to date, the state before was ready for it. -/
theorem ListTaken.ready {list : List Asset} {w v w' : World} (htaken : ListTaken list w v)
    (hlater : Later v w') (hknown : KnowsOldList w) (hupToDate : AssetsUpToDate list w w') :
    ReadyForList list w := by
  have hfeeds := (htaken.since hlater).2
  refine ⟨fun hold => ⟨fun asset hasset => ?_, fun htrue => ?_⟩,
    fun hold asset hasset other hother hid => ?_, fun asset hasset hticker => ?_⟩
  · -- the entry was there before and has not changed
    obtain ⟨hassets, -⟩ := htaken.old hold
    have hcontains := hknown asset (hold ▸ hasset)
    rw [Std.ExtTreeMap.contains_eq_isSome_getElem?, Option.isSome_iff_exists] at hcontains
    obtain ⟨entry, hentry⟩ := hcontains
    have hkept := hlater.entries _ entry (by rw [hassets]; exact hentry)
    rw [hupToDate.registered asset hasset] at hkept
    rw [hentry, Option.some.inj hkept]
  · obtain ⟨-, hfile, hsaved⟩ := htaken.old hold
    rw [← hfile, ← hlater.file]
    apply hupToDate.saved
    rw [hlater.saved, hsaved, htrue]
  · have hother := hupToDate.registered other hother
    rw [hid, hupToDate.registered asset hasset] at hother
    exact (Option.some.inj hother).symm
  · rw [← hfeeds]
    exact hupToDate.subscribed asset hasset hticker

instance (list : List Asset) (w : World) : Decidable (ReadyForList list w) :=
  decidable_of_iff _ ⟨fun ⟨h1, h2, h3⟩ => ⟨h1, h2, h3⟩, fun hready =>
    And.intro hready.unchanged (And.intro hready.unique hready.resolved)⟩

instance (list : List Asset) (w w' : World) : Decidable (AssetsUpToDate list w w') :=
  decidable_of_iff _ ⟨fun ⟨h1, h2, h3⟩ => ⟨h1, h2, h3⟩, fun hupToDate =>
    And.intro hupToDate.registered (And.intro hupToDate.saved hupToDate.subscribed)⟩

/-- In every run, a connect that succeeds has received one list.  It brings the table, the file and
the price feeds up to date if and only if the state was ready for this list. -/
theorem connect_updates_assets_iff (h : Host) (xs : List (Feed Message)) (w' : World) :
    let l := (machine h).run (start h) xs
    let w := l.state.record (.received .serverConnected)
    l.alive = true → tryProcessWsConnected h w = .ok () w' →
      ∃ list, listsSince w w' = [list] ∧ (AssetsUpToDate list w w' ↔ ReadyForList list w) := by
  intro l w halive hok
  obtain ⟨list, v, htaken, hlater⟩ := tryProcessWsConnected_listTaken hok
  have hknown : KnowsOldList w := run_knowsOldList xs halive
  exact ⟨list, (htaken.since hlater).1, htaken.ready hlater hknown, htaken.upToDate hlater⟩

namespace Sample

/-- The main network with an embedded list, and a server with the same list or with gold in
addition. -/
def listHost (embeddedGold : Bool) : Host :=
  let native : Asset := ⟨Env.prod.bitcoinAssetId, "Liquid Bitcoin", tickerLbtc, some "", 8, none⟩
  let goldAsset : Asset := ⟨gold, "Gold", ⟨"GLD"⟩, some "", 8, none⟩
  { plainHost (plainServer [native, goldAsset] (fun _ => .error "") fun _ => .error "") ∅ ∅ with
    env := .prod, embeddedAssets := if embeddedGold then [native, goldAsset] else [native] }

/-- What the first connect leaves. -/
def connectedOnce (h : Host) : World × World :=
  let w := (start h).state.record (.received .serverConnected)
  (w, (tryProcessWsConnected h w).state)

end Sample

open Sample in
/-- The list that the process has started with. -/
theorem connect_updates_assets_embedded :
    let w := (connectedOnce (listHost true)).1
    let w' := (connectedOnce (listHost true)).2
    ∃ list, listsSince w w' = [list] ∧ list.length = 2 ∧ AssetsUpToDate list w w' := by
  have hok : (tryProcessWsConnected (listHost true) (connectedOnce (listHost true)).1).isOk = true := by
    decide +kernel
  obtain ⟨list, hlist, hiff⟩ := connect_updates_assets_iff (listHost true) []
    (connectedOnce (listHost true)).2 (by decide +kernel) (Outcome.eq_ok_of_isOk hok)
  have hready : ∀ list ∈ listsSince (connectedOnce (listHost true)).1 (connectedOnce (listHost true)).2,
      list.length = 2 ∧ ReadyForList list (connectedOnce (listHost true)).1 := by
    decide +kernel
  have hlist : listsSince (connectedOnce (listHost true)).1 (connectedOnce (listHost true)).2 = [list] :=
    hlist
  obtain ⟨hlength, hready⟩ := hready list (hlist ▸ List.mem_cons_self)
  exact ⟨list, hlist, hlength, hiff.mpr hready⟩

open Sample in
/-- The ticker of gold leads nowhere when the list with gold arrives, so that its prices are not
subscribed to. -/
theorem new_asset_without_feed :
    ¬ ∀ (h : Host) (xs : List (Feed Message)) (w' : World),
      let l := (machine h).run (start h) xs
      let w := l.state.record (.received .serverConnected)
      l.alive = true → tryProcessWsConnected h w = .ok () w' →
        ∀ list ∈ listsSince w w', AssetsUpToDate list w w' := by
  intro hall
  have hok : (tryProcessWsConnected (listHost false) (connectedOnce (listHost false)).1).isOk = true := by
    decide +kernel
  have hlists := hall (listHost false) [] (connectedOnce (listHost false)).2 (by decide +kernel)
    (Outcome.eq_ok_of_isOk hok)
  revert hlists
  decide +kernel

end SideSwap.Client
