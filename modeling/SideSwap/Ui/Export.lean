import SideSwap.Client.Proto
import SideSwap.Lib.Call
import SideSwap.Lib.Forall2
import SideSwap.Ui.Amounts
import Mathlib.Data.List.Dedup
import Mathlib.Data.List.Lex

/-!
# The list of transactions

The type of a transaction as the history shows it (`txType`), and the table of all transactions that
is exported as CSV (`exportTxList`).  The columns of the table are the assets that occur.

* `exportTxList_eq_ok`: the table, where the function does not throw.
* `txType_classifies_iff`: the type follows the money flow, unless there are two amounts, one of
  them positive and none negative.
* `exportTxList_tabulates_iff`: exactly when the table is there and says what it should.
-/

namespace SideSwap.Ui

open Client

/-! ### Transactions -/

/-- What a transaction is for the wallet. -/
inductive TxType
  | received | sent | swap | unknown
deriving DecidableEq

/-- The kind of a transaction, from the signs of its balances. -/
def txType (tx : Tx) : TxType :=
  let anyPositive := tx.balances.any fun balance => balance.amount > 0
  let anyNegative := tx.balances.any fun balance => balance.amount < 0
  if tx.balances.length = 2 ∧ anyPositive ∧ anyPositive then .swap
  else if anyPositive ∧ ¬ anyNegative then .received
  else if anyNegative ∧ ¬ anyPositive then .sent
  else .unknown

/-- The name of a type; `tr` is the translation. -/
def txTypeName (tr : String → String) : TxType → String
  | .received => tr "Received"
  | .sent => tr "Sent"
  | .swap => tr "Swap"
  | .unknown => tr "Unknown"

/-- The balance of a transaction in an asset, as the history shows it. -/
def txAssetAmount (tx : Tx) (assetId : AssetId) : ℤ :=
  (tx.balances.filter fun balance => balance.assetId = assetId).foldl
    (fun sum balance => wrap (sum + balance.amount)) 0

/-- The transaction of an item.  The field of a peg that has none is the default message. -/
def itemTx (item : TransItem) : Tx :=
  match item.item with
  | .tx tx => tx
  | .peg _ => { balances := [], memo := "", networkFee := 0, txid := "" }

/-! ### The export -/

/-- `compareTo` of two ids is not positive. -/
def IdLe (a b : AssetId) : Prop := codeUnits a.val.toList ≤ codeUnits b.val.toList

instance (a b : AssetId) : Decidable (IdLe a b) := inferInstanceAs (Decidable (_ ≤ _))

/-- What an export throws: `!` on null, a number of digits above 20, or a time out of the range of
`DateTime`. -/
inductive Thrown
  | nullCheck | range | argument
deriving DecidableEq

/-- What the export uses: `decimal` is the package behind `amountStr`, `dateText` formats a time in
the zone of the device and is none out of the range of `DateTime`, `tr` translates and `sort` is
`List.sort` by the time of creation. -/
structure Exporter where
  decimal : Decimal
  dateText : ℤ → Option (List Char)
  tr : String → String
  sort : List TransItem → List TransItem

/-- `List.sort` orders; what it does with equal times is not specified. -/
structure Exporter.Sorts (x : Exporter) : Prop where
  perm : ∀ txs, (x.sort txs).Perm txs
  ordered : ∀ txs, (x.sort txs).Pairwise fun a b => a.createdAt ≤ b.createdAt

/-- `amountStr` with the precision of an asset, which may be too large for `toStringAsFixed`. -/
def amountStrOf (x : Exporter) (amount : ℤ) (precision : ℕ) : Call Thrown (List Char) :=
  Call.ensure (precision ≤ 20) .range >>= fun _ => pure (amountStr x.decimal amount false precision)

/-- The date of a row. -/
def txDateCsvExport (x : Exporter) (timestamp : ℤ) : Call Thrown (List Char) :=
  Call.okOr (x.dateText timestamp) .argument

/-- `usedAssets`, a sorted set.  `remove` is called with a function, which is not in the set, and
removes nothing. -/
def usedAssets (txs : List TransItem) : List AssetId :=
  (txs.flatMap fun item => (itemTx item).balances.map Balance.assetId).dedup.insertionSort IdLe

/-- The amount that the loop over the balances ends with. -/
def lastAmount (tx : Tx) (assetId : AssetId) : ℤ :=
  (tx.balances.filter fun balance => balance.assetId = assetId).foldl
    (fun _ balance => balance.amount) 0

/-- The columns that every table has. -/
def fixedColumns : List (List Char) :=
  ["txid".toList, "type".toList, "timestamp".toList, "network fee".toList, "memo".toList]

/-- The first row: the fixed columns and the names of the assets. -/
def exportHeader (assets : Map AssetId AssetCopy) (ids : List AssetId) :
    Call Thrown (List (List Char)) := do
  let names ← ids.mapM fun id => do
    let asset ← Call.okOr assets[id]? .nullCheck
    pure asset.name.toList
  pure (fixedColumns ++ names)

/-- The row of a transaction; an asset that it does not move counts as zero. -/
def exportRow (x : Exporter) (assets : Map AssetId AssetCopy) (ids : List AssetId)
    (item : TransItem) : Call Thrown (List (List Char)) := do
  let tx := itemTx item
  let timestamp ← txDateCsvExport x item.createdAt
  let cells ← ids.mapM fun id => do
    let asset ← Call.okOr assets[id]? .nullCheck
    amountStrOf x (lastAmount tx asset.assetId) asset.precision
  pure ([tx.txid.toList, (txTypeName x.tr (txType tx)).toList, timestamp,
    amountStr x.decimal tx.networkFee false 8, tx.memo.toList] ++ cells)

/-- The table: the header, then a row for each transaction. -/
def exportTxList (x : Exporter) (txs : List TransItem) (assets : Map AssetId AssetCopy) :
    Call Thrown (List (List (List Char))) := do
  let ids := usedAssets txs
  let header ← exportHeader assets ids
  let rows ← (x.sort txs).mapM (exportRow x assets ids)
  pure (header :: rows)

/-! ### The type of a transaction -/

/-- There are two amounts, one positive and one negative. -/
def IsSwap (amounts : List ℤ) : Prop :=
  amounts.length = 2 ∧ (∃ a ∈ amounts, 0 < a) ∧ ∃ a ∈ amounts, a < 0

/-- What a type says about the amounts. -/
def Classifies (amounts : List ℤ) : TxType → Prop
  | .swap => IsSwap amounts
  | .received => ¬ IsSwap amounts ∧ (∃ a ∈ amounts, 0 < a) ∧ ¬ ∃ a ∈ amounts, a < 0
  | .sent => ¬ IsSwap amounts ∧ (∃ a ∈ amounts, a < 0) ∧ ¬ ∃ a ∈ amounts, 0 < a
  | .unknown => ¬ IsSwap amounts ∧ ((∃ a ∈ amounts, 0 < a) ↔ ∃ a ∈ amounts, a < 0)

/-- The amounts of a transaction. -/
def amountsOf (tx : Tx) : List ℤ := tx.balances.map Balance.amount

/-- Two amounts, at least one positive and none negative. -/
def PaidTwice (tx : Tx) : Prop :=
  (amountsOf tx).length = 2 ∧ (∃ a ∈ amountsOf tx, 0 < a) ∧ ¬ ∃ a ∈ amountsOf tx, a < 0

theorem anyPositive_iff (tx : Tx) :
    (tx.balances.any fun balance => decide (balance.amount > 0)) = true ↔ ∃ a ∈ amountsOf tx, 0 < a := by
  simp [amountsOf]

theorem anyNegative_iff (tx : Tx) :
    (tx.balances.any fun balance => decide (balance.amount < 0)) = true ↔ ∃ a ∈ amountsOf tx, a < 0 := by
  simp [amountsOf]

/-- The type is that of the money flow, unless two amounts come in. -/
theorem classifies_txType_iff (tx : Tx) : Classifies (amountsOf tx) (txType tx) ↔ ¬ PaidTwice tx := by
  have hlength : tx.balances.length = (amountsOf tx).length := (List.length_map _).symm
  unfold txType PaidTwice
  simp only [anyPositive_iff, anyNegative_iff, hlength]
  split
  · rename_i hswap
    simp only [Classifies, IsSwap, hswap.1, hswap.2.1, true_and, not_not]
  · rename_i hswap
    have hno : ¬ IsSwap (amountsOf tx) := fun h => hswap ⟨h.1, h.2.1, h.2.1⟩
    have hok : ¬ ((amountsOf tx).length = 2 ∧ (∃ a ∈ amountsOf tx, 0 < a) ∧
        ¬ ∃ a ∈ amountsOf tx, a < 0) := fun h => hswap ⟨h.1, h.2.1, h.2.1⟩
    refine iff_of_true ?_ hok
    split
    · rename_i hreceived
      exact ⟨hno, hreceived⟩
    · rename_i hreceived
      split
      · rename_i hsent
        exact ⟨hno, hsent⟩
      · rename_i hsent
        refine ⟨hno, fun hpositive => ?_, fun hnegative => ?_⟩
        · by_contra hnone
          exact hreceived ⟨hpositive, hnone⟩
        · by_contra hnone
          exact hsent ⟨hnegative, hnone⟩

/-! ### The table -/

variable {x : Exporter} {txs : List TransItem} {assets : Map AssetId AssetCopy} {ids : List AssetId}
  {item : TransItem} {row header : List (List Char)} {rows : List (List (List Char))}

theorem amountStrOf_eq_ok {amount : ℤ} {precision : ℕ} {text : List Char} :
    amountStrOf x amount precision = .ok text ↔
      precision ≤ 20 ∧ amountStr x.decimal amount false precision = text := by
  simp [amountStrOf]

theorem exportHeader_eq_ok : exportHeader assets ids = .ok header ↔
    ∃ names, List.Forall₂ (fun id name => ∃ asset, assets[id]? = some asset ∧ asset.name.toList = name)
      ids names ∧ header = fixedColumns ++ names := by
  simp only [exportHeader, Call.bind_eq_ok, Call.mapM_eq_ok_iff, Call.okOr_eq_ok, Call.pure_eq_ok,
    eq_comm (a := header)]

/-- A row that is written. -/
theorem exportRow_eq_ok : exportRow x assets ids item = .ok row ↔
    ∃ timestamp cells, x.dateText item.createdAt = some timestamp ∧
      List.Forall₂ (fun id cell => ∃ asset, assets[id]? = some asset ∧ asset.precision ≤ 20 ∧
        amountStr x.decimal (lastAmount (itemTx item) asset.assetId) false asset.precision = cell)
        ids cells ∧
      row = [(itemTx item).txid.toList, (txTypeName x.tr (txType (itemTx item))).toList, timestamp,
        amountStr x.decimal (itemTx item).networkFee false 8, (itemTx item).memo.toList] ++ cells := by
  simp only [exportRow, txDateCsvExport, Call.bind_eq_ok, Call.mapM_eq_ok_iff, Call.okOr_eq_ok,
    Call.pure_eq_ok, amountStrOf_eq_ok, eq_comm (a := row)]
  constructor
  · rintro ⟨timestamp, ht, cells, hcells, hrow⟩
    exact ⟨timestamp, cells, ht, hcells, hrow⟩
  · rintro ⟨timestamp, cells, ht, hcells, hrow⟩
    exact ⟨timestamp, ht, cells, hcells, hrow⟩

/-- The table, where the function does not throw. -/
theorem exportTxList_eq_ok : exportTxList x txs assets = .ok rows ↔
    ∃ header body, exportHeader assets (usedAssets txs) = .ok header ∧
      List.Forall₂ (fun item row => exportRow x assets (usedAssets txs) item = .ok row)
        (x.sort txs) body ∧ rows = header :: body := by
  simp only [exportTxList, Call.bind_eq_ok, Call.mapM_eq_ok_iff, Call.pure_eq_ok, eq_comm (a := rows)]
  constructor
  · rintro ⟨header, hheader, body, hbody, hrows⟩
    exact ⟨header, body, hheader, hbody, hrows⟩
  · rintro ⟨header, body, hheader, hbody, hrows⟩
    exact ⟨header, hheader, body, hbody, hrows⟩

/-- The type column. -/
theorem exportRow_type (h : exportRow x assets ids item = .ok row) :
    row[1]? = some (txTypeName x.tr (txType (itemTx item))).toList := by
  obtain ⟨timestamp, cells, -, -, rfl⟩ := exportRow_eq_ok.mp h
  rfl

/-- The type of a transaction follows its money flow, and so does the type column of every export of
it. -/
def TypesFollow (tx : Tx) : Prop :=
  Classifies (amountsOf tx) (txType tx) ∧
    ∀ (x : Exporter) (txs : List TransItem) (assets : Map AssetId AssetCopy)
      (rows : List (List (List Char))), x.Sorts → exportTxList x txs assets = .ok rows →
      (x.sort txs).Perm txs ∧ ∃ header body, rows = header :: body ∧
        List.Forall₂ (fun item row => itemTx item = tx → ∃ type, Classifies (amountsOf tx) type ∧
          row[1]? = some (txTypeName x.tr type).toList) (x.sort txs) body

/-- The type follows the money flow exactly if it is not the case that the transaction has two
amounts, at least one of them positive and none negative. -/
theorem txType_classifies_iff (tx : Tx) : TypesFollow tx ↔ ¬ PaidTwice tx := by
  refine ⟨fun h => (classifies_txType_iff tx).mp h.1, fun h => ?_⟩
  have htype : Classifies (amountsOf tx) (txType tx) := (classifies_txType_iff tx).mpr h
  refine ⟨htype, fun x txs assets rows hsorts hrows => ⟨hsorts.perm txs, ?_⟩⟩
  obtain ⟨header, body, -, hbody, hrows⟩ := exportTxList_eq_ok.mp hrows
  refine ⟨header, body, hrows, hbody.imp fun item row hrow hitem => ⟨txType tx, htype, ?_⟩⟩
  rw [← hitem]
  exact exportRow_type hrow

namespace Sample

/-- Two payments in one transaction, both to the wallet. -/
def twoPayments : Tx where
  balances := [⟨⟨"gold"⟩, 5⟩, ⟨⟨"silver"⟩, 7⟩]
  memo := ""
  networkFee := 40
  txid := "aa"

end Sample

open Ui.Sample in
/-- Two payments are taken for a swap. -/
theorem txType_two_payments : ¬ ∀ tx, TypesFollow tx := by
  intro hall
  have hpaid : PaidTwice twoPayments := by
    refine ⟨rfl, ⟨5, by simp [amountsOf, twoPayments], by decide⟩, ?_⟩
    simp [amountsOf, twoPayments]
  exact (classifies_txType_iff twoPayments).mp (hall twoPayments).1 hpaid

/-! ### Columns -/

instance : Std.Total IdLe := ⟨fun a b => le_total (codeUnits a.val.toList) (codeUnits b.val.toList)⟩

instance : IsTrans AssetId IdLe := ⟨fun _ _ _ hab hbc => le_trans hab hbc⟩

theorem IdLe.antisymm {a b : AssetId} (hab : IdLe a b) (hba : IdLe b a) : a = b := by
  obtain ⟨a⟩ := a
  obtain ⟨b⟩ := b
  exact congrArg Name.mk (String.toList_inj.mp (codeUnits_injective (le_antisymm hab hba)))

/-- An asset occurs in the transactions. -/
def Occurs (txs : List TransItem) (id : AssetId) : Prop :=
  ∃ item ∈ txs, ∃ balance ∈ (itemTx item).balances, balance.assetId = id

/-- The columns are the known assets that occur, in ascending order. -/
structure Columns (txs : List TransItem) (assets : Map AssetId AssetCopy) (ids : List AssetId) :
    Prop where
  ascending : ids.Pairwise IdLe
  nodup : ids.Nodup
  mem : ∀ id, id ∈ ids ↔ (∃ asset, assets[id]? = some asset) ∧ Occurs txs id

theorem mem_usedAssets {id : AssetId} : id ∈ usedAssets txs ↔ Occurs txs id := by
  simp [usedAssets, Occurs, List.mem_insertionSort]

theorem nodup_usedAssets (txs : List TransItem) : (usedAssets txs).Nodup :=
  (List.perm_insertionSort _ _).nodup_iff.mpr (List.nodup_dedup _)

theorem columns_usedAssets (h : ∀ id, Occurs txs id → ∃ asset, assets[id]? = some asset) :
    Columns txs assets (usedAssets txs) where
  ascending := List.pairwise_insertionSort IdLe _
  nodup := nodup_usedAssets txs
  mem id := by
    rw [mem_usedAssets]
    exact (and_iff_right_of_imp (h id)).symm

/-- There is only one way to list the columns. -/
theorem Columns.unique {ids' : List AssetId} (h : Columns txs assets ids)
    (h' : Columns txs assets ids') : ids = ids' := by
  have hperm : ids.Perm ids' := by
    rw [List.perm_ext_iff_of_nodup h.nodup h'.nodup]
    intro id
    rw [h.mem, h'.mem]
  exact hperm.eq_of_pairwise (fun _ _ _ _ hab hba => IdLe.antisymm hab hba) h.ascending h'.ascending

/-! ### Rows -/

/-- A row is written exactly if the time and the assets allow it. -/
theorem exists_exportRow : (∃ row, exportRow x assets ids item = .ok row) ↔
    (x.dateText item.createdAt).isSome ∧
      ∀ id ∈ ids, ∃ asset, assets[id]? = some asset ∧ asset.precision ≤ 20 := by
  rw [Option.isSome_iff_exists]
  constructor
  · rintro ⟨row, hrow⟩
    obtain ⟨timestamp, cells, ht, hcells, -⟩ := exportRow_eq_ok.mp hrow
    refine ⟨⟨timestamp, ht⟩, fun id hid => ?_⟩
    obtain ⟨cell, asset, hasset, hprecision, -⟩ := Forall₂.exists_iff.mp ⟨cells, hcells⟩ id hid
    exact ⟨asset, hasset, hprecision⟩
  · rintro ⟨⟨timestamp, ht⟩, hids⟩
    have hcells : ∀ id ∈ ids, ∃ cell, ∃ asset, assets[id]? = some asset ∧ asset.precision ≤ 20 ∧
        amountStr x.decimal (lastAmount (itemTx item) asset.assetId) false asset.precision = cell := by
      intro id hid
      obtain ⟨asset, hasset, hprecision⟩ := hids id hid
      exact ⟨_, asset, hasset, hprecision, rfl⟩
    obtain ⟨cells, hcells⟩ := Forall₂.exists_iff.mpr hcells
    exact ⟨_, exportRow_eq_ok.mpr ⟨timestamp, cells, ht, hcells, rfl⟩⟩

/-! ### Exactly when -/

/-- The row of an item is as long as the header, and has the balance of the transaction in every
column. -/
structure RowOf (x : Exporter) (assets : Map AssetId AssetCopy) (ids : List AssetId)
    (item : TransItem) (row : List (List Char)) : Prop where
  length : row.length = fixedColumns.length + ids.length
  cells : ∀ (i : ℕ) (id : AssetId) (asset : AssetCopy), ids[i]? = some id → assets[id]? = some asset →
    row[fixedColumns.length + i]? =
      some (amountStr x.decimal (txAssetAmount (itemTx item) id) false asset.precision)

/-- The table that an export should be: the header names the columns, and there is one row for each
item, in the order of creation. -/
def Tabulates (x : Exporter) (txs : List TransItem) (assets : Map AssetId AssetCopy) : Prop :=
  ∃ ids names body, exportTxList x txs assets = .ok ((fixedColumns ++ names) :: body) ∧
    Columns txs assets ids ∧
    List.Forall₂ (fun id name => ∃ asset, assets[id]? = some asset ∧ asset.name.toList = name)
      ids names ∧
    (x.sort txs).Perm txs ∧ ((x.sort txs).Pairwise fun a b => a.createdAt ≤ b.createdAt) ∧
    List.Forall₂ (RowOf x assets ids) (x.sort txs) body

/-- What a row has in its columns is printed like the balances, or is not. -/
theorem rowOf_iff (h : exportRow x assets ids item = .ok row) : RowOf x assets ids item row ↔
    ∀ id ∈ ids, ∀ asset, assets[id]? = some asset →
      amountStr x.decimal (lastAmount (itemTx item) asset.assetId) false asset.precision =
        amountStr x.decimal (txAssetAmount (itemTx item) id) false asset.precision := by
  obtain ⟨timestamp, cells, -, hcells, rfl⟩ := exportRow_eq_ok.mp h
  have hcell : ∀ (i : ℕ) (id : AssetId) (asset : AssetCopy), ids[i]? = some id →
      assets[id]? = some asset → cells[i]? =
        some (amountStr x.decimal (lastAmount (itemTx item) asset.assetId) false asset.precision) := by
    intro i id asset hid hasset
    obtain ⟨cell, hcell, asset', hasset', -, rfl⟩ := Forall₂.getElem? hcells hid
    rw [hcell, Option.some.inj (hasset'.symm.trans hasset)]
  -- the first five cells are those of the fixed columns
  have hafter : ∀ (a b c d e : List Char) (i : ℕ),
      ([a, b, c, d, e] ++ cells)[fixedColumns.length + i]? = cells[i]? := by
    intro a b c d e i
    show (a :: b :: c :: d :: e :: cells)[5 + i]? = cells[i]?
    rw [Nat.add_comm]
    rfl
  constructor
  · intro hrow id hid asset hasset
    obtain ⟨i, hi⟩ := List.mem_iff_getElem?.mp hid
    have hshown := hrow.cells i id asset hi hasset
    rw [hafter, hcell i id asset hi hasset] at hshown
    exact Option.some.inj hshown
  · intro htotals
    refine ⟨?_, fun i id asset hi hasset => ?_⟩
    · rw [List.length_append, hcells.length_eq]
      rfl
    · rw [hafter, ← htotals id (List.mem_of_getElem? hi) asset hasset]
      exact hcell i id asset hi hasset

/-- What an export needs: every asset that occurs is known and has at most 20 digits, every time is
one of `DateTime`, and what a transaction lists last for an asset is printed like the balance. -/
structure Exportable (x : Exporter) (txs : List TransItem) (assets : Map AssetId AssetCopy) : Prop where
  known : ∀ id, Occurs txs id → ∃ asset, assets[id]? = some asset ∧ asset.precision ≤ 20
  dates : ∀ item ∈ txs, (x.dateText item.createdAt).isSome
  totals : ∀ item ∈ txs, ∀ id asset, Occurs txs id → assets[id]? = some asset →
    amountStr x.decimal (lastAmount (itemTx item) asset.assetId) false asset.precision =
      amountStr x.decimal (txAssetAmount (itemTx item) id) false asset.precision

/-- For every export with a sort that sorts: the function does not throw and writes the table that
it should, exactly if every asset that occurs is known and has at most 20 digits, every time is one
of `DateTime`, and in every transaction the amount listed last for a column is printed like the
balance in it. -/
theorem exportTxList_tabulates_iff (hsorts : x.Sorts) (txs : List TransItem)
    (assets : Map AssetId AssetCopy) : Tabulates x txs assets ↔ Exportable x txs assets := by
  constructor
  · rintro ⟨ids, names, body, hok, hcolumns, hnames, hperm, -, hrows⟩
    obtain ⟨header, body', hheader, hbody, heq⟩ := exportTxList_eq_ok.mp hok
    obtain ⟨-, rfl⟩ := List.cons.inj heq
    obtain ⟨names', hnames', -⟩ := exportHeader_eq_ok.mp hheader
    have hknown : ∀ id, Occurs txs id → ∃ asset, assets[id]? = some asset := by
      intro id hid
      obtain ⟨name, asset, hasset, -⟩ :=
        Forall₂.exists_iff.mp ⟨names', hnames'⟩ id (mem_usedAssets.mpr hid)
      exact ⟨asset, hasset⟩
    obtain rfl : ids = usedAssets txs := hcolumns.unique (columns_usedAssets hknown)
    have hboth : List.Forall₂ (fun item row => exportRow x assets (usedAssets txs) item = .ok row ∧
        RowOf x assets (usedAssets txs) item row) (x.sort txs) body :=
      hbody.mp (fun _ _ hok hrow => ⟨hok, hrow⟩) hrows
    have hwritten : ∀ item ∈ txs, ∃ row, exportRow x assets (usedAssets txs) item = .ok row ∧
        RowOf x assets (usedAssets txs) item row :=
      fun item hitem => Forall₂.exists_iff.mp ⟨body, hboth⟩ item (hperm.mem_iff.mpr hitem)
    refine ⟨fun id hid => ?_, fun item hitem => ?_, fun item hitem id asset hid hasset => ?_⟩
    · have ⟨item, hitem, _⟩ := hid
      obtain ⟨row, hrow, -⟩ := hwritten item hitem
      exact (exists_exportRow.mp ⟨row, hrow⟩).2 id (mem_usedAssets.mpr hid)
    · obtain ⟨row, hrow, -⟩ := hwritten item hitem
      exact (exists_exportRow.mp ⟨row, hrow⟩).1
    · obtain ⟨row, hrow, hof⟩ := hwritten item hitem
      exact (rowOf_iff hrow).mp hof id (mem_usedAssets.mpr hid) asset hasset
  · intro h
    have hknown : ∀ id, Occurs txs id → ∃ asset, assets[id]? = some asset := by
      intro id hid
      obtain ⟨asset, hasset, -⟩ := h.known id hid
      exact ⟨asset, hasset⟩
    have hnames : ∀ id ∈ usedAssets txs, ∃ name, ∃ asset, assets[id]? = some asset ∧
        asset.name.toList = name := by
      intro id hid
      obtain ⟨asset, hasset⟩ := hknown id (mem_usedAssets.mp hid)
      exact ⟨_, asset, hasset, rfl⟩
    have hrows : ∀ item ∈ x.sort txs, ∃ row,
        exportRow x assets (usedAssets txs) item = .ok row ∧
          RowOf x assets (usedAssets txs) item row := by
      intro item hitem
      have hitem : item ∈ txs := (hsorts.perm txs).mem_iff.mp hitem
      obtain ⟨row, hrow⟩ := exists_exportRow.mpr
        ⟨h.dates item hitem, fun id hid => h.known id (mem_usedAssets.mp hid)⟩
      refine ⟨row, hrow, (rowOf_iff hrow).mpr fun id hid asset hasset => ?_⟩
      exact h.totals item hitem id asset (mem_usedAssets.mp hid) hasset
    obtain ⟨names, hnames⟩ := Forall₂.exists_iff.mpr hnames
    obtain ⟨body, hbody⟩ := Forall₂.exists_iff.mpr hrows
    refine ⟨usedAssets txs, names, body, ?_, columns_usedAssets hknown, hnames, hsorts.perm txs,
      hsorts.ordered txs, hbody.imp fun _ _ hrow => hrow.2⟩
    exact exportTxList_eq_ok.mpr
      ⟨_, body, exportHeader_eq_ok.mpr ⟨names, hnames, rfl⟩, hbody.imp fun _ _ hrow => hrow.1, rfl⟩

/-- The last clause holds for the app: it keeps each asset under its own id, and the worker lists
each asset once. -/
theorem lastAmount_eq_txAssetAmount {tx : Tx} (hnodup : (tx.balances.map Balance.assetId).Nodup)
    (hrange : ∀ balance ∈ tx.balances, IsI64 balance.amount) (id : AssetId) :
    lastAmount tx id = txAssetAmount tx id := by
  have hone : (tx.balances.filter fun balance => balance.assetId = id).length ≤ 1 := by
    have hcount := List.nodup_iff_count_le_one.mp hnodup id
    rwa [List.count, List.countP_map, List.countP_eq_length_filter] at hcount
  unfold lastAmount txAssetAmount
  cases hlisted : tx.balances.filter fun balance => balance.assetId = id with
  | nil => rfl
  | cons balance rest =>
    rw [hlisted, List.length_cons] at hone
    obtain rfl : rest = [] := List.length_eq_zero_iff.mp (by omega)
    have hmem : balance ∈ tx.balances := by
      refine List.mem_of_mem_filter (p := fun balance => decide (balance.assetId = id)) ?_
      rw [hlisted]
      exact List.mem_singleton_self balance
    show balance.amount = wrap (0 + balance.amount)
    rw [zero_add, wrap_of_isI64 (hrange balance hmem)]

namespace Sample

/-- Every time is shown as the beginning of the epoch, which is right within a second of it. -/
def exporter : Exporter where
  decimal := decimal
  dateText time :=
    if time.natAbs ≤ 8640000000000000 then some "1970-01-01 00:00:00".toList else none
  tr := id
  sort txs := txs.insertionSort fun a b => a.createdAt ≤ b.createdAt

theorem exporter_sorts : exporter.Sorts where
  perm txs := List.perm_insertionSort _ txs
  ordered txs := by
    have : Std.Total fun a b : TransItem => a.createdAt ≤ b.createdAt :=
      ⟨fun a b => le_total a.createdAt b.createdAt⟩
    have : IsTrans TransItem fun a b => a.createdAt ≤ b.createdAt := ⟨fun _ _ _ => le_trans⟩
    exact List.pairwise_insertionSort _ txs

/-- Five units of gold are received. -/
def received : TransItem where
  id := "aa"
  createdAt := 0
  confs := none
  item := .tx { balances := [⟨⟨"gold"⟩, 5⟩], memo := "", networkFee := 40, txid := "aa" }

/-- Some of it is swapped later. -/
def swapped : TransItem where
  id := "bb"
  createdAt := 900
  confs := none
  item := .tx
    { balances := [⟨⟨"silver"⟩, 3⟩, ⟨⟨"gold"⟩, -2⟩], memo := "", networkFee := 40, txid := "bb" }

def goldCopy : AssetCopy where
  assetId := ⟨"gold"⟩
  name := "Gold"
  ticker := ⟨"GLD"⟩
  icon := ""
  precision := 8
  swapMarket := false
  domain := none

def silverCopy : AssetCopy where
  assetId := ⟨"silver"⟩
  name := "Silver"
  ticker := ⟨"SLV"⟩
  icon := ""
  precision := 2
  swapMarket := false
  domain := none

def copies : Map AssetId AssetCopy :=
  ((∅ : Map AssetId AssetCopy).insert ⟨"gold"⟩ goldCopy).insert ⟨"silver"⟩ silverCopy

/-- The assets that occur are known. -/
theorem occurs_swapped {id : AssetId} (h : Occurs [swapped, received] id) :
    ∃ asset, copies[id]? = some asset ∧ asset.precision ≤ 20 := by
  obtain ⟨item, hitem, balance, hbalance, rfl⟩ := h
  have hgold : copies[(⟨"gold"⟩ : AssetId)]? = some goldCopy := by
    rw [copies, Map.lookup_insert, if_neg (by decide), Map.lookup_insert, if_pos rfl]
  have hsilver : copies[(⟨"silver"⟩ : AssetId)]? = some silverCopy := by
    rw [copies, Map.lookup_insert, if_pos rfl]
  rcases List.mem_pair.mp hitem with rfl | rfl
  · rcases List.mem_pair.mp hbalance with rfl | rfl
    · exact ⟨silverCopy, hsilver, by decide⟩
    · exact ⟨goldCopy, hgold, by decide⟩
  · obtain rfl := List.mem_singleton.mp hbalance
    exact ⟨goldCopy, hgold, by decide⟩

/-- Each asset is kept under its own id. -/
theorem copies_assetId {id : AssetId} {asset : AssetCopy} (h : copies[id]? = some asset) :
    asset.assetId = id := by
  rw [copies, Map.lookup_insert, Map.lookup_insert, Map.lookup_empty] at h
  split at h
  · rename_i heq
    cases h
    exact heq
  · split at h
    · rename_i heq
      cases h
      exact heq
    · cases h

end Sample

open Ui.Sample in
/-- A payment and a swap, in two known assets. -/
theorem exportTxList_tabulates_gold : Tabulates exporter [swapped, received] copies := by
  refine (exportTxList_tabulates_iff exporter_sorts _ _).mpr ⟨fun id hid => occurs_swapped hid, ?_, ?_⟩
  · intro item hitem
    rcases List.mem_pair.mp hitem with rfl | rfl
    · rfl
    · rfl
  · intro item hitem id asset _ hasset
    rw [copies_assetId hasset]
    have hnodup : ((itemTx item).balances.map Balance.assetId).Nodup := by
      rcases List.mem_pair.mp hitem with rfl | rfl
      · decide
      · decide
    have hrange : ∀ balance ∈ (itemTx item).balances, IsI64 balance.amount := by
      rcases List.mem_pair.mp hitem with rfl | rfl
      · decide
      · decide
    exact congrArg (amountStr exporter.decimal · false asset.precision)
      (lastAmount_eq_txAssetAmount hnodup hrange id)

open Ui.Sample in
/-- The asset is not known: the function throws at the header. -/
theorem exportTxList_unknown_asset :
    ¬ ∀ (x : Exporter) (txs : List TransItem) (assets : Map AssetId AssetCopy), x.Sorts →
      Tabulates x txs assets := by
  intro hall
  obtain ⟨ids, names, body, hok, -⟩ := hall exporter [received] ∅ exporter_sorts
  obtain ⟨header, -, hheader, -⟩ := exportTxList_eq_ok.mp hok
  obtain ⟨names', hnames, -⟩ := exportHeader_eq_ok.mp hheader
  have hoccurs : Occurs [received] ⟨"gold"⟩ := ⟨received, by simp, ⟨⟨"gold"⟩, 5⟩, by simp [received, itemTx], rfl⟩
  obtain ⟨name, asset, hasset, -⟩ :=
    Forall₂.exists_iff.mp ⟨names', hnames⟩ ⟨"gold"⟩ (mem_usedAssets.mpr hoccurs)
  rw [Map.lookup_empty] at hasset
  cases hasset

end SideSwap.Ui
