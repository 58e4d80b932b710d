import SideSwap.Gdk.Funding
import SideSwap.Gdk.Scanned

/-!
# The transactions of a synchronised account

What holds in every run of an account of the transactions and the coins in its cache.

Whatever the servers answer, a transaction is stored under its own id, as is needed to create others
(`sound_of_run`), and on Bitcoin a stored transaction was found to be signed by the wallet, unless
the server called it confirmed then or the app stopped before it was verified (`storeRun_signed`).

If the servers answer with the transactions that are asked for, then the wallet's own outputs are
unblinded all the time if and only if no script is scanned after a transaction that pays it is
stored (`storeRun_unblinded_iff`).  The coins of an Elements account are then exactly its unspent
outputs (`storeRun_utxos`).
-/

namespace SideSwap.Gdk

open Libwally Call

variable {H : Type} {lib : Lib} {keys : Keys} {network : NetworkId} {cache cache' : AccountCache}
  {server : SyncServer H} {chance : SyncChance} {fuel : ℕ} {g : Gathered} {newTxs : DownloadTxResult}
  {headers : List (ℕ × H)} {verified : List (Txid × BETransaction)}

/-! ### Servers -/

/-- What a server sends is read as transactions of the account's chain. -/
structure SyncServer.OnChain (network : NetworkId) (server : SyncServer H) : Prop where
  transactions : ∀ {asked txs}, server.transactions asked = .ok txs → ∀ tx ∈ txs, tx.OnChain network
  previous : ∀ {asked txs}, server.previousTransactions asked = .ok txs → ∀ tx ∈ txs, tx.OnChain network

/-- The server answers with the transactions that are asked for. -/
structure SyncServer.Answers (lib : Lib) (server : SyncServer H) : Prop where
  transactions : ∀ {asked txs}, server.transactions asked = .ok txs → txs.map lib.txid = asked
  previous : ∀ {asked txs}, server.previousTransactions asked = .ok txs →
    txs.map (fun tx => lib.txid (stripWitness tx)) = asked

/-! ### What is downloaded -/

theorem BETransaction.OnChain.stripWitness {tx : BETransaction} (h : tx.OnChain network) :
    (stripWitness tx).OnChain network := by
  cases tx <;> exact h

/-- A download: `asked` are the transactions of the history that are not stored, `askedMore` those
that they spend, on Bitcoin only. -/
structure Downloaded (lib : Lib) (keys : Keys) (cache : AccountCache) (historyTxsId : List Txid)
    (scripts : List (Script × DerivationPath)) (server : SyncServer H) (newTxs : DownloadTxResult)
    (asked askedMore : List Txid) (own more : List BETransaction) : Prop where
  txs : newTxs.txs = own.map (fun tx => (lib.txid tx, tx)) ++
    more.map fun tx => (lib.txid (stripWitness tx), stripWitness tx)
  unblinds : newTxs.unblinds = own.flatMap (unblindsOf lib keys cache scripts)
  nodup : asked.Nodup
  mem_asked : ∀ txid, txid ∈ asked ↔ txid ∈ historyTxsId ∧ txid ∉ cache.allTxs
  own_eq : asked = [] ∧ own = [] ∨ server.transactions asked = .ok own
  nodupMore : askedMore.Nodup
  mem_askedMore : ∀ txid ∈ askedMore, txid ∉ cache.allTxs ∧ txid ∉ own.map lib.txid ∧
    ∃ tx, .bitcoin tx ∈ own
  more_eq : askedMore = [] ∧ more = [] ∨
    askedMore ≠ [] ∧ server.previousTransactions askedMore = .ok more

theorem downloadTxs_ok {historyTxsId : List Txid} {scripts : List (Script × DerivationPath)}
    (h : downloadTxs lib keys chance.txids cache historyTxsId scripts server = .ok newTxs) :
    ∃ asked askedMore own more, Downloaded lib keys cache historyTxsId scripts server newTxs asked
      askedMore own more := by
  simp only [downloadTxs] at h
  -- the transactions are asked for in an order that the wallet chooses
  have hperm := chance.txids_perm (historyTxsId.dedup.filter fun txid => decide (txid ∉ cache.allTxs))
  generalize chance.txids (historyTxsId.dedup.filter fun txid => decide (txid ∉ cache.allTxs)) = asked
    at h hperm
  have hnodup : asked.Nodup := hperm.nodup_iff.mpr ((List.nodup_dedup _).filter _)
  have hmem : ∀ txid, txid ∈ asked ↔ txid ∈ historyTxsId ∧ txid ∉ cache.allTxs := by
    intro txid
    rw [hperm.mem_iff, List.mem_filter, List.mem_dedup, decide_eq_true_eq]
  -- nothing is missing
  split at h
  · rename_i hempty
    cases h
    exact ⟨asked, [], [], [], rfl, rfl, hnodup, hmem, .inl ⟨List.isEmpty_iff.mp hempty, rfl⟩,
      List.nodup_nil, by simp, .inl ⟨rfl, rfl⟩⟩
  · -- the transactions of the history, and then those that they spend, on a bitcoin network
    simp only [bind_eq_ok] at h
    obtain ⟨own, hown, h⟩ := h
    have hfst : (own.map fun tx => (lib.txid tx, tx)).map Prod.fst = own.map lib.txid := by
      rw [List.map_map]
      rfl
    -- only transactions of bitcoin name the ones they spend
    have hbitcoin : ∀ txid ∈ own.flatMap previousTxids, ∃ tx, .bitcoin tx ∈ own := by
      intro txid htxid
      obtain ⟨tx, htx, hmemTx⟩ := List.mem_flatMap.mp htxid
      cases tx with
      | elements t => cases hmemTx
      | bitcoin t => exact ⟨t, htx⟩
    rw [hfst] at h
    have hpermMore := chance.txids_perm ((own.flatMap previousTxids).dedup.filter fun txid =>
      decide (txid ∉ cache.allTxs) && decide (txid ∉ own.map lib.txid))
    generalize chance.txids ((own.flatMap previousTxids).dedup.filter fun txid =>
      decide (txid ∉ cache.allTxs) && decide (txid ∉ own.map lib.txid)) = askedMore at h hpermMore
    have hnodupMore : askedMore.Nodup := hpermMore.nodup_iff.mpr ((List.nodup_dedup _).filter _)
    have hmemMore : ∀ txid ∈ askedMore, txid ∉ cache.allTxs ∧ txid ∉ own.map lib.txid ∧
        ∃ tx, .bitcoin tx ∈ own := by
      intro txid htxid
      rw [hpermMore.mem_iff, List.mem_filter, List.mem_dedup, Bool.and_eq_true, decide_eq_true_eq,
        decide_eq_true_eq] at htxid
      exact ⟨htxid.2.1, htxid.2.2, hbitcoin txid htxid.1⟩
    -- none of these is missing
    split at h
    · rename_i hempty
      cases h
      exact ⟨asked, askedMore, own, [], (List.append_nil _).symm, rfl, hnodup, hmem, .inr hown,
        hnodupMore, hmemMore, .inl ⟨List.isEmpty_iff.mp hempty, rfl⟩⟩
    · -- the others are downloaded, too
      rename_i hne
      simp only [bind_eq_ok, pure_eq_ok] at h
      obtain ⟨more, hmore, rfl⟩ := h
      exact ⟨asked, askedMore, own, more, rfl, rfl, hnodup, hmem, .inr hown, hnodupMore, hmemMore,
        .inr ⟨fun hnil => hne (List.isEmpty_iff.mpr hnil), hmore⟩⟩

theorem mem_unblindsOf {scripts : List (Script × DerivationPath)} {tx : BETransaction} {o : OutPoint}
    {u : Unblinded} :
    (o, u) ∈ unblindsOf lib keys cache scripts tx ↔ ∃ t out, tx = .elements t ∧
      lib.txid (.elements t) = o.txid ∧ t.output[o.vout]? = some out ∧
      (out.scriptPubkey ∈ cache.paths ∨ out.scriptPubkey ∈ scripts.map Prod.fst) ∧
      keys.tryUnblind o out = some u := by
  cases tx with
  | bitcoin t =>
    -- outputs of a bitcoin network hide nothing
    refine iff_of_false List.not_mem_nil ?_
    rintro ⟨_, _, heq, _⟩
    cases heq
  | elements t =>
    simp only [unblindsOf, unblindOutputs, List.mem_filterMap, Prod.exists, List.mem_zipIdx_iff_getElem?]
    constructor
    · -- an output is unblinded if its script is known, or has just been found
      rintro ⟨out, vout, hout, h⟩
      split at h
      · rename_i hown
        simp only [Option.map_eq_some_iff, Prod.mk.injEq] at h
        obtain ⟨_, hu, rfl, rfl⟩ := h
        exact ⟨t, out, rfl, rfl, hout, hown, hu⟩
      · cases h
    · rintro ⟨_, out, heq, hid, hout, hown, hu⟩
      cases heq
      refine ⟨out, o.vout, hout, ?_⟩
      rw [if_pos hown, hid, hu]
      rfl

namespace Downloaded

variable {historyTxsId asked askedMore : List Txid} {scripts : List (Script × DerivationPath)}
  {own more : List BETransaction}

theorem txid (h : Downloaded lib keys cache historyTxsId scripts server newTxs asked askedMore own more)
    {e : Txid × BETransaction} (he : e ∈ newTxs.txs) : lib.txid e.2 = e.1 := by
  rw [h.txs, List.mem_append, List.mem_map, List.mem_map] at he
  rcases he with ⟨tx, _, rfl⟩ | ⟨tx, _, rfl⟩ <;> rfl

theorem onChain_own
    (h : Downloaded lib keys cache historyTxsId scripts server newTxs asked askedMore own more)
    (hs : server.OnChain network) {tx : BETransaction} (htx : tx ∈ own) : tx.OnChain network := by
  rcases h.own_eq with ⟨_, rfl⟩ | hown
  · cases htx
  · exact hs.transactions hown tx htx

theorem onChain (h : Downloaded lib keys cache historyTxsId scripts server newTxs asked askedMore own more)
    (hs : server.OnChain network) {e : Txid × BETransaction} (he : e ∈ newTxs.txs) :
    e.2.OnChain network := by
  rw [h.txs, List.mem_append, List.mem_map, List.mem_map] at he
  rcases he with ⟨tx, htx, rfl⟩ | ⟨tx, htx, rfl⟩
  · exact h.onChain_own hs htx
  · rcases h.more_eq with ⟨_, rfl⟩ | ⟨_, hmore⟩
    · cases htx
    · exact (hs.previous hmore tx htx).stripWitness

/-- Nothing more is downloaded on Elements. -/
theorem more_eq_nil
    (h : Downloaded lib keys cache historyTxsId scripts server newTxs asked askedMore own more)
    (hs : server.OnChain network) (hnet : network.isLiquid = true) : more = [] := by
  rcases h.more_eq with ⟨_, hmore⟩ | ⟨hne, _⟩
  · exact hmore
  · obtain ⟨txid, htxid⟩ := List.exists_mem_of_ne_nil _ hne
    obtain ⟨_, _, tx, htx⟩ := h.mem_askedMore txid htxid
    have hchain : network.isLiquid = false := h.onChain_own hs htx
    rw [hnet] at hchain
    cases hchain

theorem keys_eq (h : Downloaded lib keys cache historyTxsId scripts server newTxs asked askedMore own more)
    (hs : server.Answers lib) : newTxs.txs.map Prod.fst = asked ++ askedMore := by
  rw [h.txs, List.map_append, List.map_map, List.map_map]
  congr 1
  · rcases h.own_eq with ⟨rfl, rfl⟩ | hown
    · rfl
    · exact hs.transactions hown
  · rcases h.more_eq with ⟨rfl, rfl⟩ | ⟨_, hmore⟩
    · rfl
    · exact hs.previous hmore

theorem own_ids (h : Downloaded lib keys cache historyTxsId scripts server newTxs asked askedMore own more)
    (hs : server.Answers lib) : own.map lib.txid = asked := by
  rcases h.own_eq with ⟨rfl, rfl⟩ | hown
  · rfl
  · exact hs.transactions hown

theorem nodup_keys
    (h : Downloaded lib keys cache historyTxsId scripts server newTxs asked askedMore own more)
    (hs : server.Answers lib) : (newTxs.txs.map Prod.fst).Nodup := by
  rw [h.keys_eq hs, List.nodup_append]
  refine ⟨h.nodup, h.nodupMore, fun txid htxid txid' htxid' => ?_⟩
  rintro rfl
  exact (h.mem_askedMore txid htxid').2.1 (h.own_ids hs ▸ htxid)

theorem not_mem_cache
    (h : Downloaded lib keys cache historyTxsId scripts server newTxs asked askedMore own more)
    (hs : server.Answers lib) {txid : Txid} (htxid : txid ∈ newTxs.txs.map Prod.fst) :
    txid ∉ cache.allTxs := by
  rw [h.keys_eq hs, List.mem_append] at htxid
  rcases htxid with htxid | htxid
  · exact ((h.mem_asked txid).mp htxid).2
  · exact (h.mem_askedMore txid htxid).1

theorem mem_of_history
    (h : Downloaded lib keys cache historyTxsId scripts server newTxs asked askedMore own more)
    (hs : server.Answers lib) {txid : Txid} (htxid : txid ∈ historyTxsId) :
    txid ∈ cache.allTxs ∨ txid ∈ newTxs.txs.map Prod.fst := by
  by_cases hin : txid ∈ cache.allTxs
  · exact .inl hin
  · refine .inr ?_
    rw [h.keys_eq hs]
    exact List.mem_append_left _ ((h.mem_asked txid).mpr ⟨htxid, hin⟩)

/-- What is unblinded on Elements: the own outputs of the downloaded transactions. -/
theorem mem_unblinds
    (h : Downloaded lib keys cache historyTxsId scripts server newTxs asked askedMore own more)
    (hs : server.OnChain network) (hnet : network.isLiquid = true) {o : OutPoint} {u : Unblinded} :
    (o, u) ∈ newTxs.unblinds ↔ ∃ t out, (o.txid, .elements t) ∈ newTxs.txs ∧
      t.output[o.vout]? = some out ∧
      (out.scriptPubkey ∈ cache.paths ∨ out.scriptPubkey ∈ scripts.map Prod.fst) ∧
      keys.tryUnblind o out = some u := by
  have htxs := h.txs
  rw [h.more_eq_nil hs hnet, List.map_nil, List.append_nil] at htxs
  rw [h.unblinds, htxs]
  simp only [List.mem_flatMap, mem_unblindsOf, List.mem_map, Prod.mk.injEq]
  constructor
  · rintro ⟨_, htx, t, out, rfl, hid, hout, hown, hu⟩
    exact ⟨t, out, ⟨_, htx, hid, rfl⟩, hout, hown, hu⟩
  · rintro ⟨t, out, ⟨_, htx, hid, rfl⟩, hout, hown, hu⟩
    exact ⟨_, htx, t, out, rfl, hid, hout, hown, hu⟩

end Downloaded

/-! ### One synchronisation -/

theorem syncChain_history {i : Bool} {first : ℕ} {g' : Gathered}
    (h : syncChain keys cache server i fuel first g = .ok g')
    (hg : g.historyTxsId = g.txidHeight.map Prod.fst) :
    g'.historyTxsId = g'.txidHeight.map Prod.fst := by
  induction fuel generalizing first g with
  | zero => cases h
  | succ fuel ih =>
    simp only [syncChain, bind_eq_ok] at h
    obtain ⟨b, _, result, _, h⟩ := h
    split at h
    · cases h
      exact hg
    · apply ih h
      simp only [Gathered.addHistory, Gathered.addBatch, hg, List.map_append, List.map_map]
      rfl

/-- The heights are those of the history. -/
theorem gather_history (h : gather keys chance fuel cache server = .ok g) :
    g.historyTxsId = g.txidHeight.map Prod.fst := by
  simp only [gather, bind_eq_ok] at h
  obtain ⟨g₁, h₁, h₂⟩ := h
  exact syncChain_history h₂ (syncChain_history h₁ rfl)

namespace Synced

theorem allTxs_cases (h : Synced lib keys chance fuel server cache g newTxs headers verified cache') {txid : Txid}
    {tx : BETransaction} (htx : cache'.allTxs.lookup txid = some tx) :
    (txid, tx) ∈ newTxs.txs ∨ cache.allTxs.lookup txid = some tx := by
  have hresult := h.result
  split at hresult
  · exact (Tables.lookup_extend_cases ((verifyOwnTxs_pruned hresult).allTxs htx)).imp_right And.right
  · exact .inr (hresult ▸ htx)

/-- Transactions are stored under their own ids, and on the account's chain. -/
theorem sound (h : Synced lib keys chance fuel server cache g newTxs headers verified cache')
    (hs : server.OnChain network) (hsound : cache.Sound lib network) : cache'.Sound lib network := by
  obtain ⟨_, _, _, _, hdown⟩ := downloadTxs_ok h.downloaded
  constructor
  · intro txid tx htx
    rcases h.allTxs_cases htx with hnew | hold
    · exact hdown.txid hnew
    · exact hsound.txid hold
  · intro txid tx htx
    rcases h.allTxs_cases htx with hnew | hold
    · exact hdown.onChain hs hnew
    · exact hsound.onChain hold

/-- The listed transactions are stored. -/
theorem listed (h : Synced lib keys chance fuel server cache g newTxs headers verified cache')
    (hs : server.Answers lib) (hlisted : ∀ txid ∈ cache.heights, txid ∈ cache.allTxs) :
    ∀ txid ∈ cache'.heights, txid ∈ cache'.allTxs := by
  obtain ⟨_, _, _, _, hdown⟩ := downloadTxs_ok h.downloaded
  have hresult := h.result
  split at hresult
  · intro txid htxid
    rw [← Tables.exists_lookup_iff] at htxid
    obtain ⟨height, hheight⟩ := htxid
    obtain ⟨hbefore, hkeep⟩ := (verifyOwnTxs_pruned hresult).heights hheight
    refine hkeep (Tables.mem_extend.mpr ?_)
    have hmem := Tables.mem_extend.mp (Tables.exists_lookup_iff.mp ⟨height, hbefore⟩)
    have hhistory : txid ∈ g.historyTxsId := by
      rw [gather_history h.gathered]
      exact hmem.resolve_left (AList.notMem_empty _)
    exact hdown.mem_of_history hs hhistory
  · exact hresult ▸ hlisted

end Synced

/-! ### The coins -/

/-- An output of a stored transaction to a script of the wallet, and what it is unblinded to. -/
def AccountCache.OwnOutput (keys : Keys) (cache : AccountCache) (o : OutPoint) (u : Unblinded) : Prop :=
  ∃ t out, cache.allTxs.lookup o.txid = some (.elements t) ∧ t.output[o.vout]? = some out ∧
    out.scriptPubkey ∈ cache.paths ∧ keys.tryUnblind o out = some u

/-- The wallet's own outputs are unblinded, and nothing else. -/
def AccountCache.Unblinds (keys : Keys) (cache : AccountCache) : Prop :=
  ∀ o u, cache.unblinded.lookup o = some u ↔ cache.OwnOutput keys o u

/-- A script is added that a stored transaction pays already. -/
def LateScript (keys : Keys) (cache cache' : AccountCache) : Prop :=
  ∃ o t out, cache.allTxs.lookup o.txid = some (.elements t) ∧ t.output[o.vout]? = some out ∧
    out.scriptPubkey ∉ cache.paths ∧ out.scriptPubkey ∈ cache'.paths ∧
    (keys.tryUnblind o out).isSome

theorem verifyOwnTxs_elements (hnet : network.isLiquid = true) {txs : List (Txid × BETransaction)}
    (hchain : ∀ e ∈ txs, e.2.OnChain network) : verifyOwnTxs lib keys txs cache = .ok cache := by
  induction txs with
  | nil => rfl
  | cons e rest ih =>
    rw [List.forall_mem_cons] at hchain
    obtain ⟨txid, tx⟩ := e
    cases tx with
    | elements t => exact ih hchain.2
    | bitcoin t =>
      have hbitcoin : network.isLiquid = false := hchain.1
      rw [hnet] at hbitcoin
      cases hbitcoin

theorem mem_update_paths (cache : AccountCache) (g : Gathered) (newTxs : DownloadTxResult)
    (script : Script) : script ∈ (cache.update g newTxs).paths ↔
      script ∈ cache.paths ∨ script ∈ g.scripts.map Prod.fst := by
  have hmap : ∀ t : Table Script DerivationPath,
      (t.entries.map fun e => (e.1, e.2)).map Prod.fst = t.keys := by
    intro t
    rw [List.map_map]
    rfl
  rw [AccountCache.update, Tables.mem_extend, hmap, ← AList.mem_keys, Tables.mem_extend]
  exact or_congr_right (or_iff_right (AList.notMem_empty _))

namespace Synced

/-- A synchronisation on Elements changes the cache as its update does. -/
theorem eq_update (h : Synced lib keys chance fuel server cache g newTxs headers verified cache')
    (hs : server.OnChain network) (hnet : network.isLiquid = true) :
    cache'.allTxs = Tables.extend cache.allTxs newTxs.txs ∧
      cache'.unblinded = Tables.extend cache.unblinded newTxs.unblinds ∧
      cache'.paths = (cache.update g newTxs).paths := by
  obtain ⟨_, _, _, _, hdown⟩ := downloadTxs_ok h.downloaded
  have hresult := h.result
  split at hresult
  · rw [verifyOwnTxs_elements hnet fun e he => hdown.onChain hs (h.isPrefix.subset he)] at hresult
    cases hresult
    exact ⟨rfl, rfl, rfl⟩
  · rename_i hchanged
    obtain ⟨htxs, hscripts, _⟩ := update_eq (Bool.not_eq_true _ ▸ hchanged)
    have hunblinds : newTxs.unblinds = [] := by
      refine List.eq_nil_iff_forall_not_mem.mpr fun e he => ?_
      obtain ⟨_, _, hmem, _⟩ := (hdown.mem_unblinds hs hnet).mp he
      rw [htxs] at hmem
      cases hmem
    rw [hresult, htxs, hunblinds, AccountCache.update, hscripts]
    exact ⟨rfl, rfl, rfl⟩

/-- A synchronisation keeps all own outputs unblinded if and only if it adds no script too late. -/
theorem unblinds_iff (h : Synced lib keys chance fuel server cache g newTxs headers verified cache')
    (hs : server.OnChain network) (ha : server.Answers lib) (hnet : network.isLiquid = true)
    (hc : cache.Unblinds keys) : cache'.Unblinds keys ↔ ¬ LateScript keys cache cache' := by
  obtain ⟨_, _, _, _, hdown⟩ := downloadTxs_ok h.downloaded
  obtain ⟨hallTxs, hunblinded, hpaths⟩ := h.eq_update hs hnet
  -- what is new was not in the cache
  have hnew : ∀ {txid tx}, (txid, tx) ∈ newTxs.txs → cache.allTxs.lookup txid = none :=
    fun hmem => AList.lookup_eq_none.mpr (hdown.not_mem_cache ha (List.mem_map_of_mem hmem))
  have hunique : ∀ {txid tx tx'}, (txid, tx) ∈ newTxs.txs → (txid, tx') ∈ newTxs.txs → tx = tx' :=
    fun hmem hmem' => congrArg Prod.snd (List.inj_on_of_nodup_map (hdown.nodup_keys ha) hmem hmem' rfl)
  -- the transactions and the unblinded outputs of after are the old ones and the new ones
  have htx : ∀ txid tx, cache'.allTxs.lookup txid = some tx ↔
      (txid, tx) ∈ newTxs.txs ∨ cache.allTxs.lookup txid = some tx := by
    intro txid tx
    rw [hallTxs]
    refine Tables.lookup_extend_iff hunique fun hmem hold => ?_
    rw [hnew hmem] at hold
    cases hold
  have hunblind : ∀ o u, cache'.unblinded.lookup o = some u ↔
      (o, u) ∈ newTxs.unblinds ∨ cache.unblinded.lookup o = some u := by
    intro o u
    rw [hunblinded]
    refine Tables.lookup_extend_iff (fun hmem hmem' => ?_) fun hmem hold => ?_
    · obtain ⟨t, out, ht, hout, _, hu⟩ := (hdown.mem_unblinds hs hnet).mp hmem
      obtain ⟨t', out', ht', hout', _, hu'⟩ := (hdown.mem_unblinds hs hnet).mp hmem'
      cases hunique ht ht'
      rw [hout, Option.some.injEq] at hout'
      rw [← hout', hu, Option.some.injEq] at hu'
      exact hu'
    · obtain ⟨t, out, ht, _⟩ := (hdown.mem_unblinds hs hnet).mp hmem
      obtain ⟨t', out', ht', _⟩ := (hc _ _).mp hold
      rw [hnew ht] at ht'
      cases ht'
  -- the scripts are the old ones and those that the scan has found
  have hpath : ∀ script, script ∈ cache'.paths ↔
      script ∈ cache.paths ∨ script ∈ g.scripts.map Prod.fst := by
    rw [hpaths]
    exact mem_update_paths cache g newTxs
  constructor
  · -- an output whose script came late was not unblinded
    rintro hc' ⟨o, t, out, ht, hout, hnot, hadded, hsome⟩
    obtain ⟨u, hu⟩ := Option.isSome_iff_exists.mp hsome
    have hown : cache'.OwnOutput keys o u := ⟨t, out, (htx _ _).mpr (.inr ht), hout, hadded, hu⟩
    -- it is not new, because its transaction is old
    rcases (hunblind o u).mp ((hc' o u).mpr hown) with hmem | hold
    · obtain ⟨t', out', ht', _⟩ := (hdown.mem_unblinds hs hnet).mp hmem
      rw [hnew ht'] at ht
      cases ht
    · -- and it was not unblinded before, because its script was not known
      obtain ⟨t', out', ht', hout', hpath', _⟩ := (hc o u).mp hold
      rw [ht] at ht'
      cases ht'
      rw [hout] at hout'
      cases hout'
      exact hnot hpath'
  · -- any other output is unblinded in time
    intro hlate o u
    rw [hunblind]
    constructor
    · rintro (hmem | hold)
      · obtain ⟨t, out, ht, hout, hown, hu⟩ := (hdown.mem_unblinds hs hnet).mp hmem
        exact ⟨t, out, (htx _ _).mpr (.inl ht), hout, (hpath _).mpr hown, hu⟩
      · obtain ⟨t, out, ht, hout, hown, hu⟩ := (hc o u).mp hold
        exact ⟨t, out, (htx _ _).mpr (.inr ht), hout, (hpath _).mpr (.inl hown), hu⟩
    · rintro ⟨t, out, ht, hout, hown, hu⟩
      rcases (htx _ _).mp ht with hmem | hold
      · exact .inl ((hdown.mem_unblinds hs hnet).mpr ⟨t, out, hmem, hout, (hpath _).mp hown, hu⟩)
      · -- an old output: its script was known, for it is not late
        refine .inr ((hc o u).mpr ⟨t, out, hold, hout, ?_, hu⟩)
        by_contra hnot
        exact hlate ⟨o, t, out, hold, hout, hnot, hown, Option.isSome_iff_exists.mpr ⟨u, hu⟩⟩

end Synced

/-! ### Runs -/

/-- What holds of the server of a synchronisation. -/
def StoreEvent.Serves (P : SyncServer H → Prop) : StoreEvent H → Prop
  | .sync _ _ server => P server
  | .interrupted _ _ server _ => P server
  | _ => True

theorem StoreEvent.Verifies.serves {P : SyncServer H → Prop} {e : StoreEvent H}
    {txs : List (Txid × BETransaction)} (h : e.Verifies chance fuel server txs verified)
    (he : e.Serves P) : P server := by
  rcases h with ⟨rfl, _⟩ | ⟨_, rfl, _⟩
  · exact he
  · exact he

theorem sound_of_run {events : List (StoreEvent H)}
    (hservers : ∀ e ∈ events, e.Serves (SyncServer.OnChain network))
    (h : Runs.run (storeStep lib keys) .empty events = some cache) : cache.Sound lib network := by
  refine Runs.run_invariant_of_mem (fun s e s' he hsound hstep => ?_)
    ⟨(fun h => by cases h), (fun h => by cases h)⟩ h
  rcases storeStep_cases hstep with ⟨_, _, _, _, _, _, _, he', hsynced⟩ | ⟨_, _, _, _, _, _, rfl⟩ |
    ⟨_, rfl⟩ | ⟨_, _, rfl⟩
  · exact hsynced.sound (he'.serves (hservers _ he)) hsound
  · exact hsound
  · exact ⟨hsound.txid, hsound.onChain⟩
  · exact ⟨hsound.txid, hsound.onChain⟩

theorem listed_of_run {events : List (StoreEvent H)}
    (hservers : ∀ e ∈ events, e.Serves (SyncServer.Answers lib))
    (h : Runs.run (storeStep lib keys) .empty events = some cache) :
    ∀ txid ∈ cache.heights, txid ∈ cache.allTxs := by
  refine Runs.run_invariant_of_mem (I := fun cache => ∀ txid ∈ cache.heights, txid ∈ cache.allTxs)
    (fun s e s' he hlisted hstep => ?_) (fun _ h => absurd h (AList.notMem_empty _)) h
  rcases storeStep_cases hstep with ⟨_, _, _, _, _, _, _, he', hsynced⟩ | ⟨_, _, _, _, _, _, rfl⟩ |
    ⟨_, rfl⟩ | ⟨_, _, rfl⟩
  · exact hsynced.listed (he'.serves (hservers _ he)) hlisted
  · exact hlisted
  · exact hlisted
  · exact hlisted

theorem AccountCache.unblinds_empty (keys : Keys) : AccountCache.empty.Unblinds keys := by
  refine fun o u => iff_of_false (fun h => by cases h) ?_
  rintro ⟨_, _, h, _⟩
  cases h

/-- A step that adds no script too late. -/
def NotLate (lib : Lib) (keys : Keys) (cache : AccountCache) (e : StoreEvent H) : Prop :=
  ∀ cache', storeStep lib keys cache e = some cache' → ¬ LateScript keys cache cache'

theorem storeStep_unblinds_iff (hnet : network.isLiquid = true) {e : StoreEvent H}
    (hserver : e.Serves fun server => server.OnChain network ∧ server.Answers lib)
    (hc : cache.Unblinds keys) (h : storeStep lib keys cache e = some cache') :
    cache'.Unblinds keys ↔ NotLate lib keys cache e := by
  have hsame : ∀ next : AccountCache, next.paths = cache.paths → ¬ LateScript keys cache next := by
    rintro next hpaths ⟨_, _, _, _, _, hnot, hadded, _⟩
    rw [hpaths] at hadded
    exact hnot hadded
  have hone : NotLate lib keys cache e ↔ ¬ LateScript keys cache cache' := by
    rw [NotLate, h]
    exact ⟨fun hall => hall cache' rfl, fun hlate next heq => Option.some.inj heq ▸ hlate⟩
  rw [hone]
  rcases storeStep_cases h with ⟨_, _, _, _, _, _, _, he, hsynced⟩ | ⟨_, _, _, _, _, _, rfl⟩ |
    ⟨_, rfl⟩ | ⟨_, _, rfl⟩
  · exact hsynced.unblinds_iff (he.serves hserver).1 (he.serves hserver).2 hnet hc
  · exact iff_of_true hc (hsame _ rfl)
  · exact iff_of_true hc (hsame _ rfl)
  · exact iff_of_true hc (hsame _ rfl)

/-- The first synchronisation adds no script too late. -/
theorem notLate_empty (e : StoreEvent H) : NotLate lib keys .empty e := by
  rintro cache' _ ⟨_, _, _, h, _⟩
  cases h

/-! ### A wallet that is paid once -/

namespace Paid

def bytes (b : ℕ) : Bytes32 := ⟨List.replicate 32 b.toUInt8, List.length_replicate⟩

def tx : ElementsTx := ⟨[], [.plain (bytes 9) 1000 .null [0, 3]]⟩

def libs : Lib :=
  { Quiet.libs with
    txid := fun
      | .elements t => bytes t.output.length
      | .bitcoin _ => .zero }

def seed : Keys where
  deriveScript isChange j := some [isChange.toNat.toUInt8, j.toUInt8]
  tryUnblind _ o :=
    match o.asset, o.value with
    | .explicit asset, .explicit value => some ⟨asset, .zero, .zero, value⟩
    | _, _ => none
  verifyInputSig _ _ _ _ := false

/-- A server that knows the transaction, which pays the script with index 3. -/
def node : SyncServer Unit where
  history isChange batch scripts := .ok (scripts.mapIdx fun i _ =>
    if !isChange && batch == 0 && i == 3 then [⟨100, bytes 1⟩] else [])
  transactions asked := if asked = [bytes 1] then .ok [.elements tx] else .error (.error .electrum)
  previousTransactions _ := .error (.error .electrum)
  headers _ := .ok [()]

theorem serves : node.OnChain (.elements .liquid) ∧ node.Answers libs := by
  have hasked : ∀ {asked txs}, node.transactions asked = .ok txs →
      asked = [bytes 1] ∧ txs = [.elements tx] := by
    intro asked txs h
    simp only [node] at h
    split at h
    · rename_i heq
      cases h
      exact ⟨heq, rfl⟩
    · cases h
  refine ⟨⟨fun h tx htx => ?_, fun h => ?_⟩, ⟨fun h => ?_, fun h => ?_⟩⟩
  · rw [(hasked h).2, List.mem_singleton] at htx
    subst htx
    rfl
  · cases h
  · rw [(hasked h).1, (hasked h).2]
    rfl
  · cases h

def sync : StoreEvent Unit := .sync Quiet.luck 3 node

theorem meets : Runs.Meets (storeStep libs seed) (NotLate libs seed) .empty [sync] := by
  refine ⟨notLate_empty sync, ?_⟩
  split <;> trivial

theorem servers : ∀ e ∈ [sync], e.Serves fun server =>
    server.OnChain (.elements .liquid) ∧ server.Answers libs :=
  List.forall_mem_singleton.mpr (show node.OnChain _ ∧ node.Answers libs from serves)

/-- The cache after the synchronisation. -/
def paid : AccountCache := (storeStep libs seed .empty sync).getD .empty

theorem run_eq : Runs.run (storeStep libs seed) .empty [sync] = some paid := rfl

end Paid

/-- In a run with servers that answer what is asked, the wallet's own outputs are unblinded all the
time if and only if no synchronisation adds a script that a stored transaction pays already. -/
theorem storeRun_unblinded_iff (hnet : network.isLiquid = true) {events : List (StoreEvent H)}
    (hservers : ∀ e ∈ events, e.Serves fun server => server.OnChain network ∧ server.Answers lib) :
    (∀ before after cache, events = before ++ after →
      Runs.run (storeStep lib keys) .empty before = some cache → cache.Unblinds keys) ↔
    Runs.Meets (storeStep lib keys) (NotLate lib keys) .empty events := by
  refine Runs.always_iff_meets (AccountCache.unblinds_empty keys)
    (fun s e s' he => storeStep_unblinds_iff hnet (hservers e he)) fun s e _ _ hstop s' hstep => ?_
  rw [hstop] at hstep
  cases hstep

theorem storeRun_unblinded_iff_paid :
    (∀ before after cache, [Paid.sync] = before ++ after →
      Runs.run (storeStep Paid.libs Paid.seed) .empty before = some cache →
        cache.Unblinds Paid.seed) ↔
    Runs.Meets (storeStep Paid.libs Paid.seed) (NotLate Paid.libs Paid.seed) .empty [Paid.sync] :=
  storeRun_unblinded_iff (show NetworkId.isLiquid (.elements .liquid) = true from rfl) Paid.servers

theorem unblinds_of_run (hnet : network.isLiquid = true) {events : List (StoreEvent H)}
    (hservers : ∀ e ∈ events, e.Serves fun server => server.OnChain network ∧ server.Answers lib)
    (hlate : Runs.Meets (storeStep lib keys) (NotLate lib keys) .empty events)
    (h : Runs.run (storeStep lib keys) .empty events = some cache) : cache.Unblinds keys :=
  Runs.run_invariant
    (fun _ _ _ hc hmeets hstep => (storeStep_unblinds_iff hnet hmeets.2 hc hstep).mpr hmeets.1) events
    (AccountCache.unblinds_empty keys) (hlate.and_mem hservers) h

/-! ### The list of coins -/

variable {account : Account} {policy : Bytes32}

theorem txUtxos_elements (hpolicy : account.network.policyAsset = some (assetToHex policy))
    (conf : Bool) (t : ElementsTx) (height : Option ℕ) :
    account.txUtxos lib conf (.elements t) height = .ok (t.output.zipIdx.filterMap fun p =>
      account.elementsUtxo lib policy conf t height p.2 p.1) := by
  have hid : account.network.policyAssetId = .ok policy := by
    rw [Network.policyAssetId, hpolicy]
    simp only [bind_eq_ok, okOr_eq_ok, Option.some.injEq]
    exact ⟨_, rfl, assetToBin_assetToHex policy⟩
  rw [Account.txUtxos, hid]
  rfl

/-- The coins can be listed if every listed transaction is stored. -/
theorem utxos_isOk (lib : Lib) (hpolicy : account.network.policyAsset = some (assetToHex policy))
    (hlisted : ∀ txid ∈ account.cache.heights, txid ∈ account.cache.allTxs) (numConfs : ℕ) (conf : Bool) :
    ∃ utxos, account.utxos lib numConfs conf = .ok utxos := by
  have heach : ∀ e ∈ account.cache.heights.entries.filter fun e =>
      decide (numConfs ≤ confirmations account.tip e.2), ∃ l, (do
        let tx ← okOr (account.cache.allTxs.lookup e.1) (utxoMissing e.1)
        account.txUtxos lib conf tx e.2) = .ok l := by
    intro e he
    have hkey : e.1 ∈ account.cache.heights :=
      Tables.exists_lookup_iff.mp ⟨e.2, Tables.mem_entries_iff.mp (List.mem_of_mem_filter he)⟩
    obtain ⟨tx, htx⟩ := Tables.exists_lookup_iff.mpr (hlisted _ hkey)
    simp only [bind_eq_ok, okOr_eq_ok]
    cases tx with
    | bitcoin t => exact ⟨_, _, htx, rfl⟩
    | elements t => exact ⟨_, _, htx, txUtxos_elements hpolicy conf t e.2⟩
  obtain ⟨lists, hlists⟩ := Forall₂.exists_iff.mpr heach
  simp only [Account.utxos, bind_eq_ok, pure_eq_ok]
  exact ⟨_, lists, mapM_eq_ok_iff.mpr hlists, rfl⟩

theorem elementsUtxo_iff {conf : Bool} {t : ElementsTx} {height : Option ℕ} {vout : ℕ}
    {out : ElementsTxOut} {e : OutPoint × UTXOInfo} :
    account.elementsUtxo lib policy conf t height vout out = some e ↔
      ∃ path u, account.cache.paths.lookup out.scriptPubkey = some path ∧
        ⟨lib.txid (.elements t), vout⟩ ∉ account.spent ∧
        account.cache.unblinded.lookup ⟨lib.txid (.elements t), vout⟩ = some u ∧
        ¬ (u.value < dustValue ∧ u.asset = policy) ∧ (conf = true → u.confidential = true) ∧
        e = (⟨lib.txid (.elements t), vout⟩, ⟨u.assetHex, u.value, out.scriptPubkey, height, path⟩) := by
  simp only [Account.elementsUtxo, Option.bind_eq_bind, Option.bind_eq_some_iff]
  constructor
  · -- the checks in the order of the code: the path, whether it is spent, its value
    rintro ⟨path, hpath, h⟩
    split at h
    · cases h
    · rename_i hunspent
      simp only [Option.bind_eq_some_iff] at h
      obtain ⟨u, hu, h⟩ := h
      split at h
      · cases h
      · rename_i hdust
        split at h
        · cases h
        · rename_i hconf
          cases h
          refine ⟨path, u, hpath, hunspent, hu, hdust, fun hc => ?_, rfl⟩
          simpa [hc] using hconf
  · rintro ⟨path, u, hpath, hunspent, hu, hdust, hconf, rfl⟩
    refine ⟨path, hpath, ?_⟩
    rw [if_neg hunspent]
    simp only [Option.bind_eq_some_iff]
    refine ⟨u, hu, ?_⟩
    rw [if_neg hdust, if_neg]
    cases conf with
    | false => simp
    | true => simp [hconf rfl]

/-- The coins of an Elements account are exactly the unspent outputs to its scripts, of listed
transactions with enough confirmations, that are not dust. -/
theorem storeRun_utxos (hnet : account.network.id.isLiquid = true)
    (hpolicy : account.network.policyAsset = some (assetToHex policy)) {events : List (StoreEvent H)}
    (hservers : ∀ e ∈ events,
      e.Serves fun server => server.OnChain account.network.id ∧ server.Answers lib)
    (hlate : Runs.Meets (storeStep lib keys) (NotLate lib keys) .empty events)
    (h : Runs.run (storeStep lib keys) .empty events = some account.cache) (numConfs : ℕ)
    (conf : Bool) : ∃ utxos, account.utxos lib numConfs conf = .ok utxos ∧ ∀ o info, (o, info) ∈ utxos ↔
      ∃ height t out path u, account.cache.heights.lookup o.txid = some height ∧
        numConfs ≤ confirmations account.tip height ∧
        account.cache.allTxs.lookup o.txid = some (.elements t) ∧ t.output[o.vout]? = some out ∧
        account.cache.paths.lookup out.scriptPubkey = some path ∧ keys.tryUnblind o out = some u ∧
        o ∉ account.spent ∧ ¬ (u.value < dustValue ∧ u.asset = policy) ∧
        (conf = true → u.confidential = true) ∧
        info = ⟨u.assetHex, u.value, out.scriptPubkey, height, path⟩ := by
  -- a weaker condition on the servers
  have hmono : ∀ {P Q : SyncServer H → Prop} {e : StoreEvent H}, (∀ server, P server → Q server) →
      e.Serves P → e.Serves Q := by
    intro P Q e hPQ he
    cases e with
    | sync _ _ server => exact hPQ server he
    | interrupted _ _ server _ => exact hPQ server he
    | nextAddress => trivial
    | signed _ => trivial
  -- what the run has established: the cache is sound, complete, and knows the heights
  have hunblinds := unblinds_of_run hnet hservers hlate h
  have hsound := sound_of_run (fun e he => hmono (fun _ hs => hs.1) (hservers e he)) h
  have hlisted := listed_of_run (fun e he => hmono (fun _ hs => hs.2) (hservers e he)) h
  obtain ⟨utxos, hutxos⟩ := utxos_isOk lib hpolicy hlisted numConfs conf
  refine ⟨utxos, hutxos, fun o info => ?_⟩
  rw [mem_utxos hutxos]
  constructor
  · -- a coin of the list
    rintro ⟨⟨txid, height⟩, he, hconfs, tx, l, htx, hl, hmem⟩
    rw [Tables.mem_entries_iff] at he
    have hchain := hsound.onChain htx
    cases tx with
    | bitcoin t =>
      have hbitcoin : account.network.id.isLiquid = false := hchain
      rw [hnet] at hbitcoin
      cases hbitcoin
    | elements t =>
      rw [txUtxos_elements hpolicy] at hl
      cases hl
      rw [List.mem_filterMap] at hmem
      obtain ⟨⟨out, vout⟩, hout, hcoin⟩ := hmem
      rw [List.mem_zipIdx_iff_getElem?] at hout
      obtain ⟨path, u, hpath, hunspent, hu, hdust, hconf, heq⟩ := elementsUtxo_iff.mp hcoin
      rw [hsound.txid htx] at heq hu hunspent
      cases heq
      obtain ⟨t', out', htx', hout', _, hu'⟩ := (hunblinds _ _).mp hu
      rw [htx] at htx'
      cases htx'
      rw [hout] at hout'
      cases hout'
      exact ⟨height, t, out, path, u, he, hconfs, htx, hout, hpath, hu', hunspent, hdust, hconf, rfl⟩
  · -- conversely, an output with these properties passes every check
    rintro ⟨height, t, out, path, u, he, hconfs, htx, hout, hpath, hu, hunspent, hdust, hconf, rfl⟩
    refine ⟨⟨o.txid, height⟩, Tables.mem_entries_iff.mpr he, hconfs, _, _, htx,
      txUtxos_elements hpolicy conf t height, List.mem_filterMap.mpr ⟨(out, o.vout), ?_, ?_⟩⟩
    · exact List.mem_zipIdx_iff_getElem?.mpr hout
    · have hlookup := (hunblinds o u).mpr
        ⟨t, out, htx, hout, Tables.exists_lookup_iff.mp ⟨path, hpath⟩, hu⟩
      refine elementsUtxo_iff.mpr ⟨path, u, hpath, ?_, ?_, hdust, hconf, ?_⟩
      · rwa [hsound.txid htx]
      · rwa [hsound.txid htx]
      · rw [hsound.txid htx]

def Paid.wallet : Account where
  accountNum := 0
  scriptType := .p2wpkh
  network := ⟨.elements .liquid, some (assetToHex (Paid.bytes 7))⟩
  deriveAddress _ _ := none
  cache := Paid.paid
  tip := 100

theorem storeRun_utxos_paid : ∃ utxos, Paid.wallet.utxos Paid.libs 1 false = .ok utxos ∧
    (⟨Paid.bytes 1, 0⟩, ⟨assetToHex (Paid.bytes 9), 1000, [0, 3], some 100, [0, 3]⟩) ∈ utxos := by
  obtain ⟨utxos, hutxos, hmem⟩ := storeRun_utxos
    (show Paid.wallet.network.id.isLiquid = true from rfl) rfl Paid.servers Paid.meets Paid.run_eq 1 false
  refine ⟨utxos, hutxos, (hmem _ _).mpr ⟨some 100, Paid.tx, _, _, _, rfl, by decide, rfl, rfl, rfl, rfl,
    by decide, by decide, by decide, rfl⟩⟩

/-! ### Own transactions on Bitcoin -/

/-- Every input of the transaction has a known previous output, and is signed if that is the
wallet's own. -/
def AccountCache.SignedInputs (lib : Lib) (keys : Keys) (cache : AccountCache) (tx : BitcoinTx)
    (inputs : List (TxIn × ℕ)) : Prop :=
  ∀ p ∈ inputs, ∃ script, cache.previousOutputScript p.1.previousOutput = .ok (some script) ∧
    ∀ path, cache.paths.lookup script = some path →
      ∃ value, cache.knownValue lib p.1.previousOutput = .ok value ∧
        keys.verifyInputSig tx p.2 path value = true

theorem verifyInputs_eq_true {tx : BitcoinTx} {inputs : List (TxIn × ℕ)} :
    verifyInputs lib keys cache tx inputs = .ok true ↔ cache.SignedInputs lib keys tx inputs := by
  induction inputs with
  | nil => exact iff_of_true rfl (by simp [AccountCache.SignedInputs])
  | cons p rest ih =>
    obtain ⟨i, vin⟩ := p
    rw [AccountCache.SignedInputs, List.forall_mem_cons, ← AccountCache.SignedInputs, ← ih]
    simp only [verifyInputs, bind_eq_ok, unwrap_eq_ok]
    -- an input of the wallet must be signed for its value; any other input only has to be known
    constructor
    · rintro ⟨_, hprev, script, rfl, h⟩
      cases hpath : cache.paths.lookup script with
      | none =>
        simp only [hpath] at h
        exact ⟨⟨script, hprev, fun path hp => by rw [hpath] at hp; cases hp⟩, h⟩
      | some path =>
        simp only [hpath, bind_eq_ok] at h
        obtain ⟨value, hvalue, h⟩ := h
        split at h
        · rename_i hsig
          refine ⟨⟨script, hprev, fun path' hp => ?_⟩, h⟩
          rw [hpath, Option.some.injEq] at hp
          exact ⟨value, hvalue, hp ▸ hsig⟩
        · cases h
    · rintro ⟨⟨script, hprev, hall⟩, h⟩
      refine ⟨_, hprev, script, rfl, ?_⟩
      cases hpath : cache.paths.lookup script with
      | none => exact h
      | some path =>
        obtain ⟨value, hvalue, hsig⟩ := hall path hpath
        simp only [bind_eq_ok]
        exact ⟨value, hvalue, by rwa [if_pos hsig]⟩

/-- What is known of previous outputs stays known if more is stored. -/
theorem AccountCache.Pruned.signedInputs (h : cache.Pruned cache') {tx : BitcoinTx}
    {inputs : List (TxIn × ℕ)} (hs : cache'.SignedInputs lib keys tx inputs) :
    cache.SignedInputs lib keys tx inputs := by
  intro p hp
  obtain ⟨script, hprev, hall⟩ := hs p hp
  have hlookup : ∀ {tx}, cache'.allTxs.lookup p.1.previousOutput.txid = some tx →
      cache.allTxs.lookup p.1.previousOutput.txid = some tx := h.allTxs
  refine ⟨script, ?_, fun path hpath => ?_⟩
  · -- a smaller cache knows fewer transactions
    rw [AccountCache.previousOutputScript] at hprev ⊢
    cases htx : cache'.allTxs.lookup p.1.previousOutput.txid with
    | none =>
      rw [htx] at hprev
      cases hprev
    | some prev =>
      rw [htx] at hprev
      rw [hlookup htx]
      exact hprev
  · -- but their values are the same
    obtain ⟨value, hvalue, hsig⟩ := hall path (h.paths ▸ hpath)
    refine ⟨value, ?_, hsig⟩
    rw [AccountCache.knownValue, AccountCache.previousOutputValue] at hvalue ⊢
    cases htx : cache'.allTxs.lookup p.1.previousOutput.txid with
    | none =>
      rw [htx] at hvalue
      cases hvalue
    | some prev =>
      rw [htx, h.unblinded] at hvalue
      rw [hlookup htx]
      exact hvalue

/-- After the check, a transaction that was listed as unconfirmed and is still stored is signed. -/
theorem verifyOwnTxs_signed {txs : List (Txid × BETransaction)}
    (h : verifyOwnTxs lib keys txs cache = .ok cache') {txid : Txid} {tx : BitcoinTx}
    (hmem : (txid, .bitcoin tx) ∈ txs) (hlisted : cache.heights.lookup txid = some none)
    (hstored : txid ∈ cache'.allTxs) : cache.SignedInputs lib keys tx tx.input.zipIdx := by
  have hgone : ∀ {rest : List (Txid × BETransaction)} {next : AccountCache},
      verifyOwnTxs lib keys rest next = .ok cache' → txid ∈ next.allTxs := by
    intro rest next hrest
    obtain ⟨_, hlookup⟩ := Tables.exists_lookup_iff.mpr hstored
    exact Tables.exists_lookup_iff.mp ⟨_, (verifyOwnTxs_pruned hrest).allTxs hlookup⟩
  induction txs generalizing cache with
  | nil => cases hmem
  | cons e rest ih =>
    obtain ⟨txid', tx'⟩ := e
    cases tx' with
    | elements t =>
      rw [List.mem_cons] at hmem
      rcases hmem with hmem | hmem
      · cases hmem
      · exact ih h hmem hlisted
    | bitcoin t =>
      rw [verifyOwnTxs] at h
      split at h
      · simp only [bind_eq_ok] at h
        obtain ⟨valid, hvalid, h⟩ := h
        cases valid with
        | true =>
          rcases List.mem_cons.mp hmem with hmem | hmem
          · cases hmem
            exact verifyInputs_eq_true.mp hvalid
          · exact ih h hmem hlisted
        | false =>
          rw [if_neg Bool.false_ne_true] at h
          -- the one that is removed is another one, as this one is stored in the end
          have hother : txid ≠ txid' := by
            rintro rfl
            have hin := hgone h
            rw [AList.mem_erase] at hin
            exact hin.1 rfl
          rcases List.mem_cons.mp hmem with hmem | hmem
          · cases hmem
            exact absurd rfl hother
          · refine (AccountCache.Pruned.erase cache txid').signedInputs (ih h hmem ?_)
            rwa [AList.lookup_erase_ne hother]
      · rename_i hconfirmed
        rcases List.mem_cons.mp hmem with hmem | hmem
        · cases hmem
          exact absurd hlisted hconfirmed
        · exact ih h hmem hlisted

/-- A step stored the transaction.  The server did not list it as unconfirmed then, or it was found
to be signed, or the synchronisation was interrupted before it was verified. -/
def StoredChecked (lib : Lib) (keys : Keys) (events : List (StoreEvent H)) (txid : Txid)
    (tx : BitcoinTx) : Prop :=
  ∃ before e after before' chance fuel server g newTxs headers verified after',
    events = before ++ e :: after ∧
    Runs.run (storeStep lib keys) .empty before = some before' ∧
    e.Verifies chance fuel server newTxs.txs verified ∧
    Synced lib keys chance fuel server before' g newTxs headers verified after' ∧
    (txid, .bitcoin tx) ∈ newTxs.txs ∧ after'.allTxs.lookup txid = some (.bitcoin tx) ∧
    ((before'.update g newTxs).heights.lookup txid ≠ some none ∨
      (before'.update g newTxs).SignedInputs lib keys tx tx.input.zipIdx ∨
      (txid, .bitcoin tx) ∉ verified)

theorem StoredChecked.append {events : List (StoreEvent H)} {txid : Txid} {tx : BitcoinTx}
    (h : StoredChecked lib keys events txid tx) (e : StoreEvent H) :
    StoredChecked lib keys (events ++ [e]) txid tx := by
  obtain ⟨before, e', after, before', chance, fuel, server, g, newTxs, headers, verified, after', rfl, h⟩ := h
  exact ⟨before, e', after ++ [e], before', chance, fuel, server, g, newTxs, headers, verified, after',
    by simp, h⟩

/-- Whatever the servers answer, a stored Bitcoin transaction was found to be signed by the wallet
when it was stored, unless the server did not list it as unconfirmed then, or the synchronisation
was interrupted.  It is not looked at again when the server calls it unconfirmed later
(`Synced.called`). -/
theorem storeRun_signed {events : List (StoreEvent H)}
    (h : Runs.run (storeStep lib keys) .empty events = some cache) {txid : Txid} {tx : BitcoinTx}
    (htx : cache.allTxs.lookup txid = some (.bitcoin tx)) : StoredChecked lib keys events txid tx := by
  refine Runs.run_history (J := fun events cache => ∀ txid tx,
    cache.allTxs.lookup txid = some (.bitcoin tx) → StoredChecked lib keys events txid tx)
    (fun _ _ h => by cases h) (fun events e s s' hrun ih hstep txid tx htx => ?_) events h txid tx htx
  rcases storeStep_cases hstep with ⟨chance, fuel, server, g, newTxs, headers, verified, he, hsynced⟩ |
    ⟨_, _, _, _, _, _, rfl⟩ | ⟨_, rfl⟩ | ⟨_, _, rfl⟩
  · -- a sync has downloaded the transaction, or it was there before
    rcases hsynced.allTxs_cases htx with hnew | hold
    · refine ⟨events, e, [], s, chance, fuel, server, g, newTxs, headers, verified, s', rfl, hrun, he,
        hsynced, hnew, htx, ?_⟩
      -- it was checked, or the sync was interrupted before
      by_cases hverified : (txid, .bitcoin tx) ∈ verified
      · -- the check looks only at what is listed as unconfirmed
        by_cases hlisted : (s.update g newTxs).heights.lookup txid = some none
        · have hresult := hsynced.result
          split at hresult
          · have hstored := Tables.exists_lookup_iff.mp ⟨_, htx⟩
            exact .inr (.inl (verifyOwnTxs_signed hresult hverified hlisted hstored))
          · rename_i hchanged
            rw [(Synced.update_eq (Bool.not_eq_true _ ▸ hchanged)).1] at hnew
            cases hnew
        · exact .inl hlisted
      · exact .inr (.inr hverified)
    · exact (ih txid tx hold).append _
  · exact (ih txid tx htx).append _
  · exact (ih txid tx htx).append _
  · exact (ih txid tx htx).append _

namespace Unsigned

def prev : BitcoinTx := ⟨[], [⟨1000, [0, 3]⟩]⟩

/-- Spends the wallet's coin without a signature. -/
def spend : BitcoinTx := ⟨[⟨⟨Paid.bytes 1, 0⟩, [], 0, []⟩], [⟨900, []⟩]⟩

def libs : Lib :=
  { Quiet.libs with
    txid := fun
      | .elements _ => .zero
      | .bitcoin t => Paid.bytes (t.input.length + 1) }

/-- A server that calls the transaction confirmed. -/
def node : SyncServer Unit where
  history isChange batch scripts := .ok (scripts.mapIdx fun i _ =>
    if !isChange && batch == 0 && i == 3 then [⟨100, Paid.bytes 2⟩] else [])
  transactions _ := .ok [.bitcoin spend]
  previousTransactions _ := .ok [.bitcoin prev]
  headers _ := .ok []

def sync : StoreEvent Unit := .sync Quiet.luck 3 node

def called : AccountCache := (storeStep libs Paid.seed .empty sync).getD .empty

theorem run_eq : Runs.run (storeStep libs Paid.seed) .empty [sync] = some called := rfl

end Unsigned

theorem storeRun_signed_unsigned :
    StoredChecked Unsigned.libs Paid.seed [Unsigned.sync] (Paid.bytes 2) Unsigned.spend :=
  storeRun_signed Unsigned.run_eq rfl

/-! ### Transactions that are called unconfirmed later -/

theorem verifyOwnTxs_keeps {txs : List (Txid × BETransaction)}
    (h : verifyOwnTxs lib keys txs cache = .ok cache') {txid : Txid} (hnot : txid ∉ txs.map Prod.fst) :
    cache'.allTxs.lookup txid = cache.allTxs.lookup txid ∧
      cache'.heights.lookup txid = cache.heights.lookup txid := by
  induction txs generalizing cache with
  | nil =>
    cases h
    exact ⟨rfl, rfl⟩
  | cons e rest ih =>
    obtain ⟨txid', tx⟩ := e
    rw [List.map_cons, List.mem_cons, not_or] at hnot
    cases tx with
    | elements t => exact ih h hnot.2
    | bitcoin t =>
      rw [verifyOwnTxs] at h
      split at h
      · simp only [bind_eq_ok] at h
        obtain ⟨valid, _, h⟩ := h
        cases valid with
        | true => exact ih h hnot.2
        | false =>
          obtain ⟨htx, hheight⟩ := ih h hnot.2
          rw [if_neg Bool.false_ne_true] at htx hheight
          rw [htx, hheight]
          exact ⟨AList.lookup_erase_ne hnot.1, AList.lookup_erase_ne hnot.1⟩
      · exact ih h hnot.2

/-- A stored transaction is listed as a server calls it, without another check. -/
theorem Synced.called (h : Synced lib keys chance fuel server cache g newTxs headers verified cache')
    (hs : server.Answers lib) {txid : Txid} (htxid : txid ∈ cache.allTxs) :
    cache'.allTxs.lookup txid = cache.allTxs.lookup txid ∧
      cache'.heights.lookup txid =
        (Tables.extend (∅ : Table Txid (Option ℕ)) g.txidHeight).lookup txid := by
  obtain ⟨_, _, _, _, hdown⟩ := downloadTxs_ok h.downloaded
  have hnot : txid ∉ newTxs.txs.map Prod.fst := fun hnew => hdown.not_mem_cache hs hnew htxid
  have hresult := h.result
  split at hresult
  · obtain ⟨htx, hheight⟩ := verifyOwnTxs_keeps hresult fun hin =>
      hnot ((h.isPrefix.map Prod.fst).subset hin)
    rw [htx, hheight]
    exact ⟨Tables.lookup_extend_of_not_mem hnot, rfl⟩
  · rename_i hchanged
    rw [hresult]
    refine ⟨rfl, ?_⟩
    -- nothing has changed, so the heights are the same
    simp only [AccountCache.changed, Bool.not_eq_true, Bool.or_eq_false_iff, List.any_eq_false,
      decide_eq_true_eq, not_not] at hchanged
    obtain ⟨⟨_, hnew⟩, hold⟩ := hchanged
    cases hlookup : (Tables.extend (∅ : Table Txid (Option ℕ)) g.txidHeight).lookup txid with
    | some height => exact hnew _ (Tables.mem_entries_iff.mpr hlookup)
    | none =>
      rw [AList.lookup_eq_none] at hlookup ⊢
      intro hmem
      obtain ⟨height, hheight⟩ := Tables.exists_lookup_iff.mpr hmem
      exact hlookup (hold _ (Tables.mem_entries_iff.mpr hheight))

end SideSwap.Gdk
