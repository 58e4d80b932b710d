import SideSwap.Client.NativeAsset

/-!
# The asset tables of the worker and of the user interface

Both keep a table of assets.  `registerAsset` overwrites the entry of the worker and shows the asset
each time, while `_addAsset` keeps the entry that came first.

`asset_tables_agree_iff` shows that the tables agree exactly when, for every asset, the newest call
of `registerAsset` says the same as the oldest one of this process.  The entry of Bitcoin is built
into the user interface, so that it comes before every call.
-/

namespace SideSwap.Client

open Proc

variable {h : Host}

/-! ### The table of the user interface -/

/-- What both tables say of an asset. -/
structure AssetInfo where
  ticker : Ticker
  name : String
  precision : ℕ
deriving DecidableEq

/-- What the worker's table says of an asset. -/
def AssetInfo.ofAsset (asset : Asset) : AssetInfo := ⟨asset.ticker, asset.name, asset.precision⟩

/-- What the user interface has been told of an asset. -/
def AssetCopy.info (asset : AssetCopy) : AssetInfo := ⟨asset.ticker, asset.name, asset.precision⟩

/-- `_addBtcAsset`. -/
def bitcoinAsset : AssetCopy :=
  { assetId := bitcoinAssetId, name := "Bitcoin", ticker := ⟨"BTC"⟩, icon := "", precision := 8
    swapMarket := false, domain := none }

/-- `_addAsset`: an entry that is there stays. -/
def addAsset (assets : Map AssetId AssetCopy) (asset : AssetCopy) : Map AssetId AssetCopy :=
  assets.insertIfNew asset.assetId asset

/-- The table after the messages of this process were handled in order. -/
def shownAssets : List Event → Map AssetId AssetCopy
  | [] => addAsset ∅ bitcoinAsset
  | .started :: _ => addAsset ∅ bitcoinAsset
  | .toUi (.newAsset asset) :: older => addAsset (shownAssets older) asset
  | _ :: older => shownAssets older

/-- The user interface has the assets of the worker and Bitcoin, with the same ticker, name and
precision. -/
structure TablesAgree (w : World) : Prop where
  ids : ∀ X, (shownAssets w.log).contains X = true ↔
    X = bitcoinAssetId ∨ w.data.assets.contains X = true
  entries : ∀ (X : AssetId) (asset : Asset) (shown : AssetCopy), w.data.assets[X]? = some asset →
    (shownAssets w.log)[X]? = some shown → shown.info = .ofAsset asset

/-! ### Versions of an asset -/

/-- The versions of the assets, the newest first, that the user interface has seen. -/
def assetVersions (log : List Event) : List AssetCopy := assetCalls log ++ [bitcoinAsset]

/-- The last version of an asset that was shown. -/
def newestVersion (calls : List AssetCopy) (X : AssetId) : Option AssetCopy :=
  calls.find? fun asset => asset.assetId = X

/-- The first version of an asset that was shown. -/
def oldestVersion (calls : List AssetCopy) (X : AssetId) : Option AssetCopy :=
  newestVersion calls.reverse X

/-- The newest version of every asset says the same as the oldest one. -/
def Unrevised (calls : List AssetCopy) : Prop :=
  ∀ asset ∈ calls, (newestVersion calls asset.assetId).map AssetCopy.info =
    (oldestVersion calls asset.assetId).map AssetCopy.info

instance (calls : List AssetCopy) : Decidable (Unrevised calls) :=
  inferInstanceAs (Decidable (∀ asset ∈ calls, _))

/-- The newest call about an asset counts. -/
theorem newestVersion_cons (asset : AssetCopy) (calls : List AssetCopy) (X : AssetId) :
    newestVersion (asset :: calls) X =
      if asset.assetId = X then some asset else newestVersion calls X := by
  unfold newestVersion
  rw [List.find?_cons]
  by_cases hX : asset.assetId = X <;> simp [hX]

/-- Older calls count where there is no newer one. -/
theorem newestVersion_append (calls older : List AssetCopy) (X : AssetId) :
    newestVersion (calls ++ older) X = (newestVersion calls X).or (newestVersion older X) :=
  List.find?_append

/-- An asset has a version if it was shown. -/
theorem newestVersion_isSome {calls : List AssetCopy} {X : AssetId} :
    (newestVersion calls X).isSome = true ↔ ∃ asset ∈ calls, asset.assetId = X := by
  unfold newestVersion
  simp

/-- The version of an asset is one that was shown. -/
theorem newestVersion_id {calls : List AssetCopy} {X : AssetId} {asset : AssetCopy}
    (hasset : newestVersion calls X = some asset) : asset ∈ calls ∧ asset.assetId = X :=
  ⟨List.mem_of_find?_eq_some hasset, by simpa using List.find?_some hasset⟩

theorem oldestVersion_isSome {calls : List AssetCopy} {X : AssetId} :
    (oldestVersion calls X).isSome = true ↔ ∃ asset ∈ calls, asset.assetId = X := by
  unfold oldestVersion
  rw [newestVersion_isSome]
  simp only [List.mem_reverse]

theorem oldestVersion_cons (asset : AssetCopy) (calls : List AssetCopy) (X : AssetId) :
    oldestVersion (asset :: calls) X =
      (oldestVersion calls X).or (if asset.assetId = X then some asset else none) := by
  unfold oldestVersion
  rw [List.reverse_cons, newestVersion_append, newestVersion_cons]
  rfl

/-- The user interface has the oldest version. -/
theorem shownAssets_lookup (log : List Event) (X : AssetId) :
    (shownAssets log)[X]? = oldestVersion (assetVersions log) X := by
  have hinitial : (addAsset ∅ bitcoinAsset)[X]? = oldestVersion [bitcoinAsset] X := by
    rw [addAsset, Map.lookup_insertIfNew, Map.lookup_empty, oldestVersion_cons]
    rfl
  fun_induction shownAssets log with
  | case1 => exact hinitial
  | case2 => exact hinitial
  | case3 asset older ih =>
    have hversions : assetVersions (.toUi (.newAsset asset) :: older) =
        asset :: assetVersions older := rfl
    rw [addAsset, Map.lookup_insertIfNew, ih, hversions, oldestVersion_cons]
    by_cases hX : asset.assetId = X
    · rw [if_pos hX, if_pos hX]
      cases oldestVersion (assetVersions older) X <;> rfl
    · rw [if_neg hX, if_neg hX, Option.or_none]
  | case4 e older hstarted hasset ih =>
    have hversions : assetVersions (e :: older) = assetVersions older := by
      unfold assetVersions
      rw [assetCalls]
      · exact hstarted
      · exact hasset
    rw [ih, hversions]

/-! ### The table of the worker -/

/-- The worker has the newest version. -/
def KeepsNewest (w : World) : Prop :=
  ∀ X, w.data.assets[X]?.map AssetInfo.ofAsset = (newestVersion (assetCalls w.log) X).map AssetCopy.info

/-- Where no asset is registered nothing changes. -/
theorem KeepsNewest.frame {w w' : World} (hframe : AssetFrame w w') (hw : KeepsNewest w) :
    KeepsNewest w' := by
  intro X
  rw [hframe.assets, hframe.calls]
  exact hw X

/-- The registration shows what it enters. -/
theorem KeepsNewest.registered {w : World} (hw : KeepsNewest w) (asset : Asset) (icon : String)
    (swapMarket : Bool) (domain : Option String) :
    KeepsNewest (w.registered asset icon swapMarket domain) := by
  intro X
  show (w.data.assets.insert asset.assetId asset)[X]?.map AssetInfo.ofAsset =
    (newestVersion (_ :: assetCalls w.log) X).map AssetCopy.info
  rw [Map.lookup_insert, newestVersion_cons]
  by_cases hX : asset.assetId = X
  · rw [if_pos hX, if_pos hX]
    rfl
  · rw [if_neg hX, if_neg hX]
    exact hw X

/-- A step keeps the newest versions. -/
theorem Change.keepsNewest {k : Effect} {w w' : World} (hs : Change k w w')
    (hcoarse : k.coarse = false) (hw : KeepsNewest w) : KeepsNewest w' := by
  by_cases hk : k = .assets
  · subst hk
    cases hs with
    | said e he => exact absurd (Event.effect_mem he) (by decide)
    | registered asset swapMarket domain hicon => exact hw.registered asset _ swapMarket domain
  · exact hw.frame (hs.assetFrame hcoarse hk)

/-- In every run the worker's table has the newest versions. -/
theorem run_keepsNewest (xs : List (Feed Message)) :
    KeepsNewest ((machine h).run (start h) xs).state := by
  refine run_of_changes (I := KeepsNewest) (fun w X => ?_) ?_ ?_ xs
  · show (∅ : Map AssetId Asset)[X]?.map AssetInfo.ofAsset = none
    rw [Map.lookup_empty]
    rfl
  · exact fun w _ hw => hw.frame (.of_record (w := w) rfl rfl rfl rfl)
  · exact fun _ _ _ hcoarse hs hw => hs.keepsNewest hcoarse hw

/-! ### Agreement -/

/-- The table knows the assets that were shown. -/
theorem KeepsNewest.contains_iff {w : World} (hw : KeepsNewest w) (X : AssetId) :
    w.data.assets.contains X = true ↔ ∃ asset ∈ assetCalls w.log, asset.assetId = X := by
  have hsome := congrArg Option.isSome (hw X)
  rw [Option.isSome_map, Option.isSome_map] at hsome
  rw [Std.ExtTreeMap.contains_eq_isSome_getElem?, hsome, newestVersion_isSome]

/-- The user interface knows them, too, and bitcoin. -/
theorem KeepsNewest.ids {w : World} (hw : KeepsNewest w) (X : AssetId) :
    (shownAssets w.log).contains X = true ↔
      X = bitcoinAssetId ∨ w.data.assets.contains X = true := by
  rw [hw.contains_iff, Std.ExtTreeMap.contains_eq_isSome_getElem?, shownAssets_lookup,
    oldestVersion_isSome]
  unfold assetVersions
  constructor
  · rintro ⟨asset, hasset, rfl⟩
    rcases List.mem_append.mp hasset with hcall | hbuiltin
    · exact .inr ⟨asset, hcall, rfl⟩
    · rw [List.mem_singleton.mp hbuiltin]
      exact .inl rfl
  · rintro (hX | ⟨asset, hasset, hX⟩)
    · exact ⟨bitcoinAsset, List.mem_append_right _ List.mem_cons_self, hX.symm⟩
    · exact ⟨asset, List.mem_append_left _ hasset, hX⟩

/-- A version of the worker is also the newest one that the user interface has seen. -/
theorem newestVersion_assetVersions {log : List Event} {X : AssetId} {asset : AssetCopy}
    (hasset : newestVersion (assetCalls log) X = some asset) :
    newestVersion (assetVersions log) X = some asset := by
  unfold assetVersions
  rw [newestVersion_append, hasset, Option.some_or]

/-- Without a revision the two tables agree. -/
theorem KeepsNewest.agree_of_unrevised {w : World} (hw : KeepsNewest w)
    (hunrevised : Unrevised (assetVersions w.log)) : TablesAgree w := by
  refine ⟨hw.ids, fun X asset shown hasset hshown => ?_⟩
  have hnewest := hw X
  rw [hasset, Option.map_some] at hnewest
  obtain ⟨newest, hnewest, hinfo⟩ := Option.map_eq_some_iff.mp hnewest.symm
  have hversion := newestVersion_assetVersions hnewest
  obtain ⟨hmem, hX⟩ := newestVersion_id hversion
  have hsame := hunrevised newest hmem
  rw [hX, hversion, ← shownAssets_lookup, hshown, Option.map_some, Option.map_some] at hsame
  rw [← hinfo, Option.some.inj hsame]

/-- A revision makes them differ. -/
theorem KeepsNewest.unrevised_of_agree {w : World} (hw : KeepsNewest w) (hagree : TablesAgree w) :
    Unrevised (assetVersions w.log) := by
  intro version hversion
  have hold : (oldestVersion (assetVersions w.log) version.assetId).isSome = true :=
    oldestVersion_isSome.mpr ⟨version, hversion, rfl⟩
  obtain ⟨shown, hshown⟩ := Option.isSome_iff_exists.mp hold
  cases hnewest : newestVersion (assetCalls w.log) version.assetId with
  | none =>
    -- only the entry that is built in: it is the newest and the oldest one
    have hempty : oldestVersion (assetCalls w.log) version.assetId = none := by
      rw [← Option.not_isSome_iff_eq_none, oldestVersion_isSome, ← newestVersion_isSome, hnewest]
      exact Bool.false_ne_true
    unfold assetVersions
    rw [newestVersion_append, hnewest, Option.none_or, oldestVersion, List.reverse_append,
      newestVersion_append]
    show _ = ((newestVersion [bitcoinAsset] version.assetId).or
      (oldestVersion (assetCalls w.log) version.assetId)).map AssetCopy.info
    rw [hempty, Option.or_none]
  | some newest =>
    have hasset := hw version.assetId
    rw [hnewest, Option.map_some] at hasset
    obtain ⟨asset, hasset, hinfo⟩ := Option.map_eq_some_iff.mp hasset
    rw [newestVersion_assetVersions hnewest, hshown, Option.map_some, Option.map_some]
    rw [← shownAssets_lookup] at hshown
    rw [hagree.entries _ asset shown hasset hshown, hinfo]

/-- In every run, the tables agree if and only if no asset was registered again with another ticker,
name or precision that still stands. -/
theorem asset_tables_agree_iff (h : Host) (xs : List (Feed Message)) :
    let w := ((machine h).run (start h) xs).state
    TablesAgree w ↔ Unrevised (assetVersions w.log) := by
  intro w
  have hw : KeepsNewest w := run_keepsNewest xs
  exact ⟨hw.unrevised_of_agree, hw.agree_of_unrevised⟩

namespace Sample

/-- The main network with gold in its list, embedded with one precision and served with another. -/
def revisedHost : Host :=
  let native : Asset := ⟨Env.prod.bitcoinAssetId, "Liquid Bitcoin", tickerLbtc, some "", 8, none⟩
  let asset (precision : ℕ) : Asset := ⟨gold, "Gold", ⟨"GLD"⟩, some "", precision, none⟩
  { plainHost (plainServer [native, asset 2] (fun _ => .error "") fun _ => .error "") ∅ ∅ with
    env := .prod, embeddedAssets := [native, asset 8] }

end Sample

open Sample in
/-- The list of the server changes the precision of gold for the worker alone. -/
theorem asset_tables_differ :
    ¬ ∀ (h : Host) (xs : List (Feed Message)),
      TablesAgree ((machine h).run (start h) xs).state := by
  intro hall
  have hagree := hall revisedHost [.deliver .serverConnected]
  have hunrevised := (run_keepsNewest [.deliver .serverConnected]).unrevised_of_agree hagree
  revert hunrevised
  decide +kernel

end SideSwap.Client
