import SideSwap.Gdk.CreateTx
import SideSwap.Lib.Tables

/-!
# Synchronisation of the wallet

The `Syncer` of `gdk_electrum` asks an Electrum server for the history of the wallet's scripts,
batch by batch until a batch has none, downloads what is new and updates the cache of each account.
On Bitcoin it then verifies the signatures of the wallet's own unconfirmed transactions.

The server is a parameter of each synchronisation and may answer anything.  `fuel` is the number of
batches after which it stops to answer.  The order in which a hash set gives its elements is
`order`.
-/

namespace SideSwap.Gdk

open Libwally Call

/-- How many scripts one call asks for. -/
def batchSize : ℕ := 20

/-- The keys of an account: its scripts, what it can unblind, and which signatures are its own. -/
structure Keys where
  deriveScript : Bool → ℕ → Option Script
  tryUnblind : OutPoint → ElementsTxOut → Option Unblinded
  verifyInputSig : BitcoinTx → ℕ → DerivationPath → ℕ → Bool

/-- An entry in the history of a script. -/
structure GetHistoryRes where
  height : ℤ
  txHash : Txid

/-- What a server answers: the histories of the scripts of a batch, the transactions of a list of
ids, for the wallet's own and for the previous ones, and the headers at some heights. -/
structure SyncServer (H : Type) where
  history : Bool → ℕ → List Script → Call Error (List (List GetHistoryRes))
  transactions : List Txid → Call Error (List BETransaction)
  previousTransactions : List Txid → Call Error (List BETransaction)
  headers : List ℕ → Call Error (List H)

/-! ### Scripts -/

/-- The scripts of one call. -/
structure ScriptBatch where
  cached : Bool
  value : List (Script × DerivationPath)

/-- The path of a script. -/
def scriptPath (isChange : Bool) (j : ℕ) : DerivationPath := [isChange.toNat, j]

/-- A script from the cache, or derived. -/
def cachedScript (keys : Keys) (cache : AccountCache) (isChange : Bool) (j : ℕ) :
    Call Error (Script × DerivationPath) := do
  let path := scriptPath isChange j
  match cache.scripts.lookup path with
  | some script => return (script, path)
  | none => do
    let script ← okOr (keys.deriveScript isChange j) (.generic "derivation failed")
    return (script, path)

/-- `get_script_batch`. -/
def getScriptBatch (keys : Keys) (cache : AccountCache) (isChange : Bool) (batch : ℕ) :
    Call Error ScriptBatch := do
  let start := batch * batchSize
  let indices := List.range' start batchSize
  let value ← indices.mapM (cachedScript keys cache isChange)
  return ⟨indices.all fun j => (cache.scripts.lookup (scriptPath isChange j)).isSome, value⟩

/-! ### Histories -/

/-- What is gathered over the batches. -/
structure Gathered where
  historyTxsId : List Txid
  heightsSet : List ℕ
  txidHeight : List (Txid × Option ℕ)
  scripts : List (Script × DerivationPath)
  lastUsed : Indexes

/-- Nothing has been found. -/
def Gathered.empty : Gathered := ⟨[], [], [], [], ⟨0, 0⟩⟩

/-- The position of the last script with a history. -/
def lastWithHistory (result : List (List GetHistoryRes)) : Option ℕ :=
  ((result.zipIdx.filter fun p => !p.1.isEmpty).map Prod.snd).getLast?

/-- Set one of the two counters. -/
def Indexes.set (indexes : Indexes) (isChange : Bool) (index : ℕ) : Indexes :=
  if isChange then { indexes with internal := index } else { indexes with external := index }

/-- One of the two counters. -/
def Indexes.get (indexes : Indexes) (isChange : Bool) : ℕ :=
  if isChange then indexes.internal else indexes.external

/-- The height of a history entry; 0 and -1 mean that the transaction is not confirmed. -/
def GetHistoryRes.confirmed (el : GetHistoryRes) : Option ℕ :=
  if el.height ≤ 0 then none else some el.height.toNat

/-- The scripts and the last used index of a batch. -/
def Gathered.addBatch (g : Gathered) (isChange : Bool) (batchCount : ℕ) (batch : ScriptBatch)
    (result : List (List GetHistoryRes)) : Gathered :=
  { g with
    scripts := if batch.cached then g.scripts else g.scripts ++ batch.value
    lastUsed :=
      match lastWithHistory result with
      | some max => g.lastUsed.set isChange (max + batchCount * batchSize)
      | none => g.lastUsed }

/-- Add the history of a batch. -/
def Gathered.addHistory (g : Gathered) (els : List GetHistoryRes) : Gathered :=
  { g with
    heightsSet := g.heightsSet ++ els.map fun el => el.height.toNat
    txidHeight := g.txidHeight ++ els.map fun el => (el.txHash, el.confirmed)
    historyTxsId := g.historyTxsId ++ els.map GetHistoryRes.txHash }

/-- The batches of one chain, until one has no history. -/
def syncChain {H : Type} (keys : Keys) (cache : AccountCache) (server : SyncServer H)
    (isChange : Bool) : (fuel batchCount : ℕ) → Gathered → Call Error Gathered
  | 0, _, _ => .error (.error .electrum)
  | fuel + 1, batchCount, g => do
    let batch ← getScriptBatch keys cache isChange batchCount
    let result ← server.history isChange batchCount (batch.value.map Prod.fst)
    let g := g.addBatch isChange batchCount batch result
    let flattened := result.flatten
    if flattened.isEmpty then return g
    else syncChain keys cache server isChange fuel (batchCount + 1) (g.addHistory flattened)

/-! ### Downloads -/

/-- The transactions that were downloaded, and what they pay. -/
structure DownloadTxResult where
  txs : List (Txid × BETransaction)
  unblinds : List (OutPoint × Unblinded)

/-- The wallet's own outputs of a transaction, unblinded. -/
def unblindOutputs (lib : Lib) (keys : Keys) (cache : AccountCache)
    (scripts : List (Script × DerivationPath)) (tx : ElementsTx) : List (OutPoint × Unblinded) :=
  tx.output.zipIdx.filterMap fun p =>
    if p.1.scriptPubkey ∈ cache.paths ∨ p.1.scriptPubkey ∈ scripts.map Prod.fst then
      let outpoint : OutPoint := ⟨lib.txid (.elements tx), p.2⟩
      (keys.tryUnblind outpoint p.1).map fun unblinded => (outpoint, unblinded)
    else none

/-- The outputs of a transaction that can be unblinded. -/
def unblindsOf (lib : Lib) (keys : Keys) (cache : AccountCache)
    (scripts : List (Script × DerivationPath)) : BETransaction → List (OutPoint × Unblinded)
  | .elements tx => unblindOutputs lib keys cache scripts tx
  | .bitcoin _ => []

/-- The transactions that are downloaded with a transaction: those that it spends, only on Bitcoin,
where they are needed for the fee of an incoming transaction. -/
def previousTxids : BETransaction → List Txid
  | .elements _ => []
  | .bitcoin tx => tx.input.map fun i => i.previousOutput.txid

/-- A transaction without its witnesses, as it is stored. -/
def stripWitness : BETransaction → BETransaction
  | .bitcoin tx => .bitcoin { tx with input := tx.input.map fun i => { i with witness := [] } }
  | .elements tx =>
    .elements
      { input := tx.input.map fun i => { i with witness := [] }
        output := tx.output.map fun o => { o with surjectionProof := [], rangeproof := [] } }

/-- `download_txs`. -/
def downloadTxs {H : Type} (lib : Lib) (keys : Keys) (order : List Txid → List Txid)
    (cache : AccountCache) (historyTxsId : List Txid) (scripts : List (Script × DerivationPath))
    (server : SyncServer H) : Call Error DownloadTxResult := do
  let txsToDownload := order (historyTxsId.dedup.filter fun txid => decide (txid ∉ cache.allTxs))
  if txsToDownload.isEmpty then return ⟨[], []⟩
  else do
    let downloaded ← server.transactions txsToDownload
    let txs := downloaded.map fun tx => (lib.txid tx, tx)
    let unblinds := downloaded.flatMap (unblindsOf lib keys cache scripts)
    let toDownload := order ((downloaded.flatMap previousTxids).dedup.filter fun txid =>
      decide (txid ∉ cache.allTxs) && decide (txid ∉ txs.map Prod.fst))
    if toDownload.isEmpty then return ⟨txs, unblinds⟩
    else do
      let more ← server.previousTransactions toDownload
      return ⟨txs ++ more.map fun tx => (lib.txid (stripWitness tx), stripWitness tx), unblinds⟩

/-- `download_headers`; the height 0 is never asked for. -/
def downloadHeaders {H : Type} (order : List ℕ → List ℕ) (cache : AccountCache)
    (heightsSet : List ℕ) (server : SyncServer H) : Call Error (List (ℕ × H)) := do
  let heightsInDb := 0 :: cache.heights.entries.filterMap fun e => e.2
  let heightsToDownload := order (heightsSet.dedup.filter fun h => decide (h ∉ heightsInDb))
  if heightsToDownload.isEmpty then return []
  else do
    let headers ← server.headers heightsToDownload
    return heightsToDownload.zip headers

/-! ### Signatures of own transactions -/

/-- Whether the inputs of an own transaction are signed by the wallet; an unknown previous output is
a panic. -/
def verifyInputs (lib : Lib) (keys : Keys) (cache : AccountCache) (tx : BitcoinTx) :
    List (TxIn × ℕ) → Call Error Bool
  | [] => return true
  | (i, vin) :: rest => do
    let script ← unwrap (← cache.previousOutputScript i.previousOutput)
    match cache.paths.lookup script with
    | none => verifyInputs lib keys cache tx rest
    | some path => do
      let value ← cache.knownValue lib i.previousOutput
      if keys.verifyInputSig tx vin path value then verifyInputs lib keys cache tx rest
      else return false

/-- `verify_own_txs`: transactions that are not signed by the wallet are removed.  Only unconfirmed
ones on Bitcoin are looked at. -/
def verifyOwnTxs (lib : Lib) (keys : Keys) : List (Txid × BETransaction) → AccountCache →
    Call Error AccountCache
  | [], cache => return cache
  | (_, .elements _) :: rest, cache => verifyOwnTxs lib keys rest cache
  | (txid, .bitcoin tx) :: rest, cache =>
    if cache.heights.lookup txid = some none then do
      let valid ← verifyInputs lib keys cache tx tx.input.zipIdx
      let cache :=
        if valid then cache
        else { cache with allTxs := cache.allTxs.erase txid, heights := cache.heights.erase txid }
      verifyOwnTxs lib keys rest cache
    else verifyOwnTxs lib keys rest cache

/-! ### The synchronisation of an account -/

/-- What is left to chance: the order of the two chains and of the elements of hash sets. -/
structure SyncChance where
  externalFirst : Bool
  txids : List Txid → List Txid
  heights : List ℕ → List ℕ
  txids_perm (l : List Txid) : (txids l).Perm l
  heights_perm (l : List ℕ) : (heights l).Perm l

/-- The histories of both chains, in either order. -/
def gather {H : Type} (keys : Keys) (chance : SyncChance) (fuel : ℕ) (cache : AccountCache)
    (server : SyncServer H) : Call Error Gathered := do
  let g ← syncChain keys cache server (!chance.externalFirst) fuel 0 .empty
  syncChain keys cache server chance.externalFirst fuel 0 g

/-- The cache with what was gathered and downloaded. -/
def AccountCache.update (cache : AccountCache) (g : Gathered) (newTxs : DownloadTxResult) :
    AccountCache :=
  { indexes := g.lastUsed
    allTxs := Tables.extend cache.allTxs newTxs.txs
    unblinded := Tables.extend cache.unblinded newTxs.unblinds
    heights := Tables.extend ∅ g.txidHeight
    scripts := Tables.extend cache.scripts
      ((Tables.extend (∅ : Table Script DerivationPath) g.scripts).entries.map fun e => (e.2, e.1))
    paths := Tables.extend cache.paths
      ((Tables.extend (∅ : Table Script DerivationPath) g.scripts).entries.map fun e => (e.1, e.2)) }

/-- Whether anything is new. -/
def AccountCache.changed {H : Type} (cache : AccountCache) (g : Gathered) (newTxs : DownloadTxResult)
    (headers : List (ℕ × H)) : Bool :=
  let txidHeight : Table Txid (Option ℕ) := Tables.extend ∅ g.txidHeight
  !newTxs.txs.isEmpty || !headers.isEmpty || decide (cache.indexes ≠ g.lastUsed)
    || !g.scripts.isEmpty
    || txidHeight.entries.any (fun e => decide (cache.heights.lookup e.1 ≠ some e.2))
    || cache.heights.entries.any (fun e => decide (e.1 ∉ txidHeight))

/-- The first part of the synchronisation of one account: the updated cache, which is written to the
file, the new transactions and the new headers, if anything changed. -/
def syncUpdate {H : Type} (lib : Lib) (keys : Keys) (chance : SyncChance) (fuel : ℕ)
    (cache : AccountCache) (server : SyncServer H) :
    Call Error (Option (AccountCache × DownloadTxResult × List (ℕ × H))) := do
  let g ← gather keys chance fuel cache server
  let newTxs ← downloadTxs lib keys chance.txids cache g.historyTxsId g.scripts server
  let headers ← downloadHeaders chance.heights cache g.heightsSet server
  if cache.changed g newTxs headers then return some (cache.update g newTxs, newTxs, headers)
  else return none

/-- The synchronisation of one account: its cache and new headers, if anything changed. -/
def syncAccount {H : Type} (lib : Lib) (keys : Keys) (chance : SyncChance) (fuel : ℕ)
    (cache : AccountCache) (server : SyncServer H) :
    Call Error (Option (AccountCache × List (ℕ × H))) := do
  match ← syncUpdate lib keys chance fuel cache server with
  | none => return none
  | some (updated, newTxs, headers) => do
    let cache ← verifyOwnTxs lib keys newTxs.txs updated
    return some (cache, headers)

/-! ### The cache over time -/

/-- The cache of a new account. -/
def AccountCache.empty : AccountCache := ⟨∅, ∅, ∅, ∅, ∅, ⟨0, 0⟩⟩

/-- The next index of an address to receive, an `u32`. -/
def AccountCache.nextExternal (cache : AccountCache) : AccountCache :=
  { cache with
    indexes := { cache.indexes with external := (cache.indexes.external + 1) % 2 ^ 32 } }

/-- What `sign` changes in the cache. -/
def AccountCache.useChanges (cache : AccountCache) (changesUsed : ℕ) : AccountCache :=
  { cache with
    indexes := { cache.indexes with internal := (cache.indexes.internal + changesUsed) % 2 ^ 32 } }

/-- What happens to the cache of an account.  A synchronisation is interrupted if the app stops
after the updated cache is written, as it does if `verify_own_txs` panics, and starts again with the
file.  Some of the new transactions may be verified then, as the store is also written when it is
dropped. -/
inductive StoreEvent (H : Type) where
  | sync (chance : SyncChance) (fuel : ℕ) (server : SyncServer H)
  | interrupted (chance : SyncChance) (fuel : ℕ) (server : SyncServer H) (verified : ℕ)
  | nextAddress
  | signed (changesUsed : ℕ)

/-- The cache after an event.  An error in a synchronisation leaves the cache as it was; a panic
leaves the lock of the store poisoned. -/
def storeStep {H : Type} (lib : Lib) (keys : Keys) (cache : AccountCache) :
    StoreEvent H → Option AccountCache
  | .sync chance fuel server =>
    match syncAccount lib keys chance fuel cache server with
    | .ok (some (cache, _)) => some cache
    | .ok none => some cache
    | .error (.error _) => some cache
    | .error .panic => none
  | .interrupted chance fuel server verified =>
    match syncUpdate lib keys chance fuel cache server with
    | .ok (some (updated, newTxs, _)) =>
      (verifyOwnTxs lib keys (newTxs.txs.take verified) updated).toOption
    | _ => none
  | .nextAddress => some cache.nextExternal
  | .signed changesUsed => some (cache.useChanges changesUsed)

end SideSwap.Gdk
