import SideSwap.Client.OrderList

/-!
# The native asset

The worker finds the chain's own asset by its ticker: `payPegOut` looks up `L-BTC` in `tickers`,
`sendTx` searches `assets` for it, and the user interface remembers the asset that was registered
under it (`_liquidAssetId`).  `registerAsset` overwrites both tables with whatever it is given, and
the metadata of the wallet library's registry goes there unchecked.

`native_asset_resolved` shows that all three lookups find the native asset as long as every call of
`registerAsset` is `Genuine`: the ticker is `L-BTC` exactly for the native asset.
-/

namespace SideSwap.Client

open Proc

variable {h : Host}

/-! ### The user interface -/

/-- The assets that the user interface knows, and the one that it takes for the native asset. -/
structure WalletAssets where
  known : Finset AssetId
  liquidAssetId : Option AssetId
deriving DecidableEq

/-- Bitcoin is added before any message is read. -/
def WalletAssets.initial : WalletAssets := ⟨{bitcoinAssetId}, none⟩

/-- `_addAsset`: only the first registration of an asset counts. -/
def WalletAssets.addAsset (s : WalletAssets) (asset : AssetCopy) : WalletAssets :=
  if asset.assetId ∈ s.known then s
  else
    { known := insert asset.assetId s.known
      liquidAssetId := if asset.ticker = tickerLbtc then some asset.assetId else s.liquidAssetId }

/-- A known asset changes nothing. -/
theorem WalletAssets.addAsset_of_known {s : WalletAssets} {asset : AssetCopy}
    (hknown : asset.assetId ∈ s.known) : s.addAsset asset = s :=
  if_pos hknown

/-- A new asset may be the native one. -/
theorem WalletAssets.addAsset_of_new {s : WalletAssets} {asset : AssetCopy}
    (hnew : asset.assetId ∉ s.known) : s.addAsset asset =
      { known := insert asset.assetId s.known
        liquidAssetId := if asset.ticker = tickerLbtc then some asset.assetId else s.liquidAssetId } :=
  if_neg hnew

/-- What the user interface has made of the messages of this process. -/
def walletAssets : List Event → WalletAssets
  | [] => .initial
  | .started :: _ => .initial
  | .toUi (.newAsset asset) :: older => (walletAssets older).addAsset asset
  | _ :: older => walletAssets older

/-- The calls of `registerAsset` of this process, the newest first: each of them shows its asset. -/
def assetCalls : List Event → List AssetCopy
  | [] => []
  | .started :: _ => []
  | .toUi (.newAsset asset) :: older => asset :: assetCalls older
  | _ :: older => assetCalls older

/-- The user interface's assets follow from what it was shown. -/
theorem walletAssets_eq (log : List Event) :
    walletAssets log = (assetCalls log).foldr (fun asset s => s.addAsset asset) .initial := by
  fun_induction walletAssets log with
  | case1 => rfl
  | case2 => rfl
  | case3 asset older ih => rw [ih, assetCalls, List.foldr_cons]
  | case4 e older hstarted hasset ih =>
    rw [ih, assetCalls]
    · exact hstarted
    · exact hasset

/-! ### Resolution -/

/-- The asset is registered as `L-BTC` if and only if it is the native asset. -/
def Genuine (h : Host) (asset : AssetCopy) : Prop :=
  asset.ticker = tickerLbtc ↔ asset.assetId = h.liquidAssetId

instance (asset : AssetCopy) : Decidable (Genuine h asset) :=
  inferInstanceAs (Decidable (_ ↔ _))

/-- The calls of `registerAsset`: each of them shows its asset. -/
def registrations (log : List Event) : List AssetCopy :=
  log.filterMap fun e => match e with
    | .toUi (.newAsset asset) => some asset
    | _ => none

/-- Every lookup of `L-BTC` finds the native asset, and no other asset has its ticker. -/
structure Resolved (h : Host) (w : World) : Prop where
  ticker : w.data.tickers[tickerLbtc]? = some h.liquidAssetId
  only : ∀ asset ∈ w.data.assets.values, asset.ticker = tickerLbtc ↔ asset.assetId = h.liquidAssetId
  found : (w.data.assets.values.find? fun asset => asset.ticker = tickerLbtc).map Asset.assetId =
    some h.liquidAssetId
  shown : (walletAssets w.log).liquidAssetId = some h.liquidAssetId

/-! ### The invariant -/

/-- The tables of the worker and of the user interface when every registration was genuine. -/
structure Registry (h : Host) (w : World) : Prop where
  tickers : ∀ X, w.data.tickers[tickerLbtc]? = some X → X = h.liquidAssetId
  entries : ∀ X asset, w.data.assets[X]? = some asset →
    asset.assetId = X ∧ (asset.ticker = tickerLbtc ↔ X = h.liquidAssetId)
  native : w.data.tickers[tickerLbtc]?.isSome = w.data.assets.contains h.liquidAssetId
  known : ∀ X, X ∈ (walletAssets w.log).known ↔ X = bitcoinAssetId ∨ w.data.assets.contains X = true
  shown : (walletAssets w.log).liquidAssetId =
    if w.data.assets.contains h.liquidAssetId then some h.liquidAssetId else none

/-- The chain's own coin is not the name for bitcoin. -/
theorem liquidAssetId_ne_bitcoin : h.liquidAssetId ≠ bitcoinAssetId := by
  unfold Host.liquidAssetId
  cases h.env <;> decide

/-- Once a native asset is registered, every lookup finds it. -/
theorem Registry.resolved {w : World} (hw : Registry h w)
    (hregistered : w.data.tickers[tickerLbtc]?.isSome = true) : Resolved h w := by
  have hnative : w.data.assets.contains h.liquidAssetId = true := hw.native ▸ hregistered
  obtain ⟨X, hX⟩ := Option.isSome_iff_exists.mp hregistered
  -- each entry has its own identifier, and only that of the native asset has the ticker
  have hvalues : ∀ asset ∈ w.data.assets.values,
      asset.ticker = tickerLbtc ↔ asset.assetId = h.liquidAssetId := by
    intro asset hasset
    obtain ⟨Y, hY⟩ := Map.mem_values.mp hasset
    obtain ⟨hid, hticker⟩ := hw.entries Y asset hY
    rw [hid]
    exact hticker
  refine ⟨?_, hvalues, ?_, ?_⟩
  · rw [hX, hw.tickers X hX]
  · -- the entry of the native asset has the ticker, so that the search succeeds
    cases hfind : w.data.assets.values.find? fun asset => decide (asset.ticker = tickerLbtc) with
    | none =>
      rw [Std.ExtTreeMap.contains_eq_isSome_getElem?] at hnative
      obtain ⟨asset, hasset⟩ := Option.isSome_iff_exists.mp hnative
      have hticker := (hw.entries _ asset hasset).2.mpr rfl
      have hnone := List.find?_eq_none.mp hfind asset (Map.mem_values.mpr ⟨_, hasset⟩)
      simp [hticker] at hnone
    | some asset =>
      have hticker : asset.ticker = tickerLbtc := by simpa using List.find?_some hfind
      have hid := (hvalues asset (List.mem_of_find?_eq_some hfind)).mp hticker
      rw [Option.map_some, hid]
  · rw [hw.shown, if_pos hnative]

/-! ### Steps -/

/-- A step that registers nothing. -/
structure AssetFrame (w w' : World) : Prop where
  assets : w'.data.assets = w.data.assets
  tickers : w'.data.tickers = w.data.tickers
  calls : assetCalls w'.log = assetCalls w.log

/-- Where no asset is registered none is shown. -/
theorem AssetFrame.shown {w w' : World} (hframe : AssetFrame w w') :
    walletAssets w'.log = walletAssets w.log := by
  rw [walletAssets_eq, walletAssets_eq, hframe.calls]

/-- Where no asset is registered the table stays. -/
theorem Registry.frame {w w' : World} (hframe : AssetFrame w w') (hw : Registry h w) :
    Registry h w' := by
  have hshown := hframe.shown
  obtain ⟨hassets, htickers, -⟩ := hframe
  refine ⟨?_, ?_, ?_, ?_, ?_⟩
  · rw [htickers]
    exact hw.tickers
  · rw [hassets]
    exact hw.entries
  · rw [htickers, hassets]
    exact hw.native
  · rw [hshown, hassets]
    exact hw.known
  · rw [hshown, hassets]
    exact hw.shown

/-- A genuine registration. -/
theorem Registry.registered {w : World} (hw : Registry h w) {asset : Asset} {icon : String}
    {swapMarket : Bool} {domain : Option String}
    (hgenuine : asset.ticker = tickerLbtc ↔ asset.assetId = h.liquidAssetId) :
    Registry h (w.registered asset icon swapMarket domain) := by
  let copy : AssetCopy :=
    { assetId := asset.assetId, name := asset.name, ticker := asset.ticker, icon := icon
      precision := asset.precision, swapMarket := swapMarket, domain := domain }
  have hcontains : ∀ X, (w.data.assets.insert asset.assetId asset).contains X = true ↔
      asset.assetId = X ∨ w.data.assets.contains X = true := by
    intro X
    rw [Std.ExtTreeMap.contains_eq_isSome_getElem?, Std.ExtTreeMap.contains_eq_isSome_getElem?,
      Map.lookup_insert]
    by_cases hX : asset.assetId = X <;> simp [hX]
  have hlookup : (w.data.tickers.insert asset.ticker asset.assetId)[tickerLbtc]? =
      if asset.ticker = tickerLbtc then some asset.assetId else w.data.tickers[tickerLbtc]? :=
    Map.lookup_insert _ _ _ _
  refine ⟨fun X hX => ?_, fun X entry hentry => ?_, ?_, fun X => ?_, ?_⟩
  · have hX : (w.data.tickers.insert asset.ticker asset.assetId)[tickerLbtc]? = some X := hX
    rw [hlookup] at hX
    split at hX
    · rename_i hticker
      cases hX
      exact hgenuine.mp hticker
    · exact hw.tickers X hX
  · have hentry : (w.data.assets.insert asset.assetId asset)[X]? = some entry := hentry
    rw [Map.lookup_insert] at hentry
    split at hentry
    · rename_i hid
      cases hentry
      rw [← hid]
      exact ⟨rfl, hgenuine⟩
    · exact hw.entries X entry hentry
  · show (w.data.tickers.insert asset.ticker asset.assetId)[tickerLbtc]?.isSome =
      (w.data.assets.insert asset.assetId asset).contains h.liquidAssetId
    rw [hlookup, Bool.eq_iff_iff, hcontains, ← hgenuine]
    split
    · rename_i hticker
      simp [hticker]
    · rename_i hticker
      rw [hw.native]
      simp [hticker]
  · show X ∈ ((walletAssets w.log).addAsset copy).known ↔
      X = bitcoinAssetId ∨ (w.data.assets.insert asset.assetId asset).contains X = true
    rw [hcontains]
    -- the page ignores an asset that it already shows
    by_cases hknown : asset.assetId ∈ (walletAssets w.log).known
    · rw [WalletAssets.addAsset_of_known hknown, hw.known]
      have hid := (hw.known _).mp hknown
      constructor
      · rintro (hX | hX)
        · exact .inl hX
        · exact .inr (.inr hX)
      · rintro (hX | hX | hX)
        · exact .inl hX
        · rw [← hX]
          exact hid
        · exact .inr hX
    · rw [WalletAssets.addAsset_of_new hknown, Finset.mem_insert, hw.known]
      constructor
      · rintro (hX | hX | hX)
        · exact .inr (.inl hX.symm)
        · exact .inl hX
        · exact .inr (.inr hX)
      · rintro (hX | hX | hX)
        · exact .inr (.inl hX)
        · exact .inl hX.symm
        · exact .inr (.inr hX)
  · show ((walletAssets w.log).addAsset copy).liquidAssetId =
      if (w.data.assets.insert asset.assetId asset).contains h.liquidAssetId then
        some h.liquidAssetId else none
    have hif : (if (w.data.assets.insert asset.assetId asset).contains h.liquidAssetId = true then
        some h.liquidAssetId else none) =
        if asset.assetId = h.liquidAssetId ∨ w.data.assets.contains h.liquidAssetId = true then
          some h.liquidAssetId else none := by
      simp only [hcontains]
    rw [hif]
    by_cases hknown : asset.assetId ∈ (walletAssets w.log).known
    · rw [WalletAssets.addAsset_of_known hknown, hw.shown]
      by_cases hid : asset.assetId = h.liquidAssetId
      · -- the page knows it already, and it is not bitcoin, so it was registered before
        have hregistered : w.data.assets.contains h.liquidAssetId = true := by
          rcases (hw.known _).mp hknown with hbitcoin | hregistered
          · exact absurd (hid.symm.trans hbitcoin) liquidAssetId_ne_bitcoin
          · exact hid ▸ hregistered
        rw [if_pos hregistered, if_pos (.inl hid)]
      · simp only [hid, false_or]
    · rw [WalletAssets.addAsset_of_new hknown]
      show (if asset.ticker = tickerLbtc then some asset.assetId else (walletAssets w.log).liquidAssetId) = _
      by_cases hid : asset.assetId = h.liquidAssetId
      · rw [if_pos (hgenuine.mpr hid), if_pos (.inl hid), hid]
      · rw [if_neg fun hticker => hid (hgenuine.mp hticker), hw.shown]
        simp only [hid, false_or]

/-- An event that does not register anything. -/
def Event.registersNothing : Event → Bool
  | .started | .toUi (.newAsset _) => false
  | _ => true

/-- Nothing changes. -/
theorem AssetFrame.of_data {w w' : World} (hassets : w'.data.assets = w.data.assets)
    (htickers : w'.data.tickers = w.data.tickers) (hlog : w'.log = w.log) : AssetFrame w w' :=
  ⟨hassets, htickers, by rw [hlog]⟩

/-- An event about something else is added. -/
theorem AssetFrame.of_record {w w' : World} {e : Event} (hassets : w'.data.assets = w.data.assets)
    (htickers : w'.data.tickers = w.data.tickers) (hlog : w'.log = e :: w.log)
    (he : e.registersNothing = true) : AssetFrame w w' := by
  refine ⟨hassets, htickers, ?_⟩
  rw [hlog]
  cases e with
  | started => cases he
  | toUi msg => cases msg <;> first | rfl | cases he
  | _ => rfl

/-- An event that stands alone registers nothing. -/
theorem Event.registersNothing_of_effect {e : Event} {k : Effect} (he : e.effect = some k) :
    e.registersNothing = true := by
  cases e with
  | started => cases he
  | toUi msg => cases msg <;> first | rfl | cases he
  | _ => rfl

/-- Only the effect `assets` registers anything. -/
theorem Change.assetFrame {k : Effect} {w w' : World} (hs : Change k w w') (hcoarse : k.coarse = false)
    (hk : k ≠ .assets) : AssetFrame w w' := by
  cases hs
  case said e he => exact .of_record rfl rfl rfl (Event.registersNothing_of_effect he)
  case saved ok => cases ok <;> exact .of_data rfl rfl rfl
  case info f hf => exact .of_data (by rw [World.modifyData, hf]) (by rw [World.modifyData, hf]) rfl
  case queued f hf => exact .of_data (by rw [World.modifyData, hf]) (by rw [World.modifyData, hf]) rfl
  case terms f hf _ => exact .of_data (by rw [World.modifyData, hf]) (by rw [World.modifyData, hf]) rfl
  case synced | balanced => cases hcoarse
  case registered => exact absurd rfl hk
  case orderHidden | orderShown | txShown | txHidden | txsSent | balanceShown | balancesShown
      | swapReported | succeedShown | linkShown | promptQueued | promptShown | swapDone | stored
      | completed | down =>
    exact .of_record rfl rfl rfl rfl
  all_goals exact .of_data rfl rfl rfl

/-- As long as every registration is genuine, the tables agree. -/
def GenuineRegistry (h : Host) (w : World) : Prop :=
  (∀ asset ∈ registrations w.log, Genuine h asset) → Registry h w

/-- A longer history has more registrations. -/
theorem registrations_suffix {old new : List Event} (hsuffix : old <:+ new) {asset : AssetCopy}
    (hasset : asset ∈ registrations old) : asset ∈ registrations new :=
  (hsuffix.filterMap _).mem hasset

/-- A step keeps the native asset genuine. -/
theorem Change.genuineRegistry {k : Effect} {w w' : World} (hs : Change k w w')
    (hcoarse : k.coarse = false) (hw : GenuineRegistry h w) : GenuineRegistry h w' := by
  intro hall
  have hold : Registry h w :=
    hw fun asset hasset => hall asset (registrations_suffix (hs.log_suffix hcoarse) hasset)
  by_cases hk : k = .assets
  · subst hk
    cases hs with
    | said e he => exact absurd (Event.effect_mem he) (by decide)
    | registered asset swapMarket domain hicon =>
      exact hold.registered (hall _ List.mem_cons_self)
  · exact hold.frame (hs.assetFrame hcoarse hk)

/-! ### Runs -/

/-- What a new worker has and every change keeps, also the receipt of a message, holds in every
run. -/
theorem run_of_changes {I : World → Prop} (hfresh : ∀ w, I (freshStart h w))
    (hreceived : ∀ w msg, I w → I (w.record (.received msg)))
    (hchange : ∀ k w w', k.coarse = false → Change k w w' → I w → I w') (xs : List (Feed Message)) :
    I ((machine h).run (start h) xs).state := by
  have hboot : ∀ w, I (boot h w : Outcome Empty World Unit).state := by
    intro w
    have hallows := allows_of_all (G := Preserves I) hchange
    have := hallows .load
    have := hallows .assets
    have hload : Refines (Preserves I) (ignoreError (loadAssets h) : Worker Empty Unit) :=
      ignoreError_effects loadAssets_effects
    exact hload.preserves (hfresh w)
  refine Machine.run_invariant (M := machine h) (I := I) ?_ (fun w msg hw => ?_) fun w _ => hboot w
  · rw [start, Outcome.life_state]
    exact hboot World.new
  · have hprocess : Refines (Preserves I) (process h msg : Worker Empty Unit) :=
      process_preserves (fun _ => true) rfl (fun k w w' _ => hchange k w w') msg.all_effects
    exact hprocess.preserves (hreceived w msg hw)

/-- No asset is registered at the beginning. -/
theorem Registry.empty (w : World) : Registry h (freshStart h w) := by
  have hassets : ∀ X : AssetId, (∅ : Map AssetId Asset)[X]? = none := Map.lookup_empty
  have htickers : (∅ : Map Ticker AssetId)[tickerLbtc]? = none := Map.lookup_empty _
  have hcontains : ∀ X : AssetId, (∅ : Map AssetId Asset).contains X = false :=
    fun X => (Map.lookup_eq_none_iff _ X).mp (hassets X)
  refine ⟨fun X hX => ?_, fun X asset hX => ?_, ?_, fun X => ?_, ?_⟩
  · have hX : (∅ : Map Ticker AssetId)[tickerLbtc]? = some X := hX
    rw [htickers] at hX
    cases hX
  · have hX : (∅ : Map AssetId Asset)[X]? = some asset := hX
    rw [hassets] at hX
    cases hX
  · show (∅ : Map Ticker AssetId)[tickerLbtc]?.isSome = (∅ : Map AssetId Asset).contains _
    rw [htickers, hcontains]
    rfl
  · show X ∈ ({bitcoinAssetId} : Finset AssetId) ↔ X = bitcoinAssetId ∨
      (∅ : Map AssetId Asset).contains X = true
    rw [hcontains, Finset.mem_singleton]
    simp
  · show none = if (∅ : Map AssetId Asset).contains h.liquidAssetId then _ else none
    rw [hcontains]
    rfl

/-- In every run the native asset is genuine. -/
theorem run_genuineRegistry (xs : List (Feed Message)) :
    GenuineRegistry h ((machine h).run (start h) xs).state := by
  refine run_of_changes (I := GenuineRegistry h) (fun w _ => .empty w) ?_ ?_ xs
  · intro w msg hw hall
    exact (hw hall).frame (.of_record (w := w) rfl rfl rfl rfl)
  · exact fun _ _ _ hcoarse hs hw => hs.genuineRegistry hcoarse hw

/-- In every run in which every call of `registerAsset` is genuine, once a native asset is
registered every lookup of `L-BTC`, in the worker and in the user interface, finds it. -/
theorem native_asset_resolved (h : Host) (xs : List (Feed Message)) :
    let w := ((machine h).run (start h) xs).state
    (∀ asset ∈ registrations w.log, Genuine h asset) →
      w.data.tickers[tickerLbtc]?.isSome = true → Resolved h w := by
  intro w hall hregistered
  exact (run_genuineRegistry xs hall).resolved hregistered

namespace Sample

/-- The main network, whose asset list has the native asset, with a registry that knows gold under
the given ticker. -/
def registryHost (ticker : Ticker) : Host :=
  let native : Asset := ⟨Env.prod.bitcoinAssetId, "Liquid Bitcoin", tickerLbtc, some "", 8, none⟩
  let gdkAssets : GdkAssets :=
    ⟨(∅ : Map AssetId GdkAsset).insert gold ⟨none, none, some ticker, none⟩, ∅⟩
  { plainHost (plainServer [native] (fun _ => .error "") fun _ => .error "") ∅ ∅ with
    env := .prod, embeddedAssets := [native], refreshAssets := fun _ _ => .ok gdkAssets }

end Sample

open Sample in
/-- An order for gold makes the worker look it up in the registry. -/
theorem native_asset_resolved_gold :
    let w := ((machine (registryHost ⟨"GLD"⟩)).run (start (registryHost ⟨"GLD"⟩)) market).state
    w.data.assets.contains gold = true ∧ Resolved (registryHost ⟨"GLD"⟩) w := by
  have hgenuine : ∀ asset ∈ registrations
      ((machine (registryHost ⟨"GLD"⟩)).run (start (registryHost ⟨"GLD"⟩)) market).state.log,
      Genuine (registryHost ⟨"GLD"⟩) asset := by
    decide +kernel
  have hresolved := native_asset_resolved (registryHost ⟨"GLD"⟩) market hgenuine (by decide +kernel)
  exact ⟨by decide +kernel, hresolved⟩

open Sample in
/-- An asset that the registry lists under `L-BTC` takes the place of the native asset. -/
theorem native_asset_replaced :
    ¬ ∀ (h : Host) (xs : List (Feed Message)),
      let w := ((machine h).run (start h) xs).state
      w.data.tickers[tickerLbtc]?.isSome = true → Resolved h w := by
  intro hall
  have hresolved := hall (registryHost tickerLbtc) market (by decide +kernel)
  have hticker := hresolved.ticker
  revert hticker
  decide +kernel

end SideSwap.Client
