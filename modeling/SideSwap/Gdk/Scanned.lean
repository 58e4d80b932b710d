import Mathlib.Data.Set.Lattice
import SideSwap.Gdk.Sync
import SideSwap.Lib.Forall2
import SideSwap.Lib.Runs

/-!
# The scripts of a synchronised account

A synchronisation scans whole batches of scripts, whatever the server answers: what the cache and
the gathered scripts have together grows by the scripts of the scanned batches (`syncChain_scan`).
So in every run the two tables of scripts are inverse to each other, and have exactly the scripts of
the first batches of each chain (`storeRun_keyed`).

The last used index stays a batch below the last scanned one, so that the next 20 addresses that are
given out are watched (`storeRun_watched`).
-/

namespace SideSwap.Gdk

open Libwally Call

variable {H : Type} {keys : Keys} {cache : AccountCache} {server : SyncServer H}

/-! ### The scripts of a batch -/

/-- The scripts of the batches from `first` to before `last`, with their paths. -/
def chainScripts (keys : Keys) (isChange : Bool) (first last : ℕ) : Set (Script × DerivationPath) :=
  {e | ∃ j, first * batchSize ≤ j ∧ j < last * batchSize ∧ e.2 = scriptPath isChange j ∧
    keys.deriveScript isChange j = some e.1}

/-- The scripts of the first `n` batches of each chain. -/
def walletScripts (keys : Keys) (n : Bool → ℕ) : Set (Script × DerivationPath) :=
  {e | ∃ isChange, e ∈ chainScripts keys isChange 0 (n isChange)}

theorem scriptPath_injective {i i' : Bool} {j j' : ℕ} (h : scriptPath i j = scriptPath i' j') :
    i = i' ∧ j = j' := by
  simp only [scriptPath, List.cons.injEq, and_true] at h
  refine ⟨?_, h.2⟩
  cases i <;> cases i' <;> simp_all

theorem chainScripts_union {i : Bool} {first middle last : ℕ} (h₁ : first ≤ middle)
    (h₂ : middle ≤ last) :
    chainScripts keys i first middle ∪ chainScripts keys i middle last =
      chainScripts keys i first last := by
  have hle₁ : first * batchSize ≤ middle * batchSize := Nat.mul_le_mul_right _ h₁
  have hle₂ : middle * batchSize ≤ last * batchSize := Nat.mul_le_mul_right _ h₂
  ext e
  constructor
  · rintro (⟨j, hfirst, hlast, he⟩ | ⟨j, hfirst, hlast, he⟩)
    · exact ⟨j, hfirst, by omega, he⟩
    · exact ⟨j, by omega, hlast, he⟩
  · rintro ⟨j, hfirst, hlast, he⟩
    by_cases hj : j < middle * batchSize
    · exact .inl ⟨j, hfirst, hj, he⟩
    · exact .inr ⟨j, by omega, hlast, he⟩

theorem walletScripts_union {n m : Bool → ℕ} :
    walletScripts keys n ∪ walletScripts keys m = walletScripts keys fun i => max (n i) (m i) := by
  ext e
  constructor
  · rintro (⟨i, j, hfirst, hlast, he⟩ | ⟨i, j, hfirst, hlast, he⟩)
    · exact ⟨i, j, hfirst, lt_of_lt_of_le hlast (Nat.mul_le_mul_right _ (le_max_left ..)), he⟩
    · exact ⟨i, j, hfirst, lt_of_lt_of_le hlast (Nat.mul_le_mul_right _ (le_max_right ..)), he⟩
  · rintro ⟨i, j, hfirst, hlast, he⟩
    rcases max_choice (n i) (m i) with hmax | hmax
    · exact .inl ⟨i, j, hfirst, hmax ▸ hlast, he⟩
    · exact .inr ⟨i, j, hfirst, hmax ▸ hlast, he⟩

/-- Different paths have different scripts. -/
def Keys.Distinct (keys : Keys) : Prop :=
  ∀ {i i' j j' script}, keys.deriveScript i j = some script → keys.deriveScript i' j' = some script →
    scriptPath i j = scriptPath i' j'

/-- The two tables of scripts have exactly the scripts of the first `n` batches. -/
structure AccountCache.Keyed (keys : Keys) (n : Bool → ℕ) (cache : AccountCache) : Prop where
  derivable : ∀ i j, j < n i * batchSize → (keys.deriveScript i j).isSome
  scripts : ∀ e : Script × DerivationPath,
    cache.scripts.lookup e.2 = some e.1 ↔ e ∈ walletScripts keys n
  paths : ∀ e : Script × DerivationPath, cache.paths.lookup e.1 = some e.2 ↔ e ∈ walletScripts keys n

namespace AccountCache.Keyed

variable {n : Bool → ℕ}

theorem lookup_scriptPath (hk : cache.Keyed keys n) {i : Bool} {j : ℕ} {script : Script} :
    cache.scripts.lookup (scriptPath i j) = some script ↔
      j < n i * batchSize ∧ keys.deriveScript i j = some script := by
  rw [hk.scripts (script, scriptPath i j)]
  constructor
  · rintro ⟨i', j', _, hlt, hpath, hderive⟩
    obtain ⟨rfl, rfl⟩ := scriptPath_injective hpath
    exact ⟨hlt, hderive⟩
  · rintro ⟨hlt, hderive⟩
    exact ⟨i, j, by omega, hlt, rfl, hderive⟩

theorem isSome_lookup_iff (hk : cache.Keyed keys n) {i : Bool} {j : ℕ} :
    (cache.scripts.lookup (scriptPath i j)).isSome ↔ j < n i * batchSize := by
  rw [Option.isSome_iff_exists]
  constructor
  · rintro ⟨script, h⟩
    exact (hk.lookup_scriptPath.mp h).1
  · intro hlt
    obtain ⟨script, h⟩ := Option.isSome_iff_exists.mp (hk.derivable i j hlt)
    exact ⟨script, hk.lookup_scriptPath.mpr ⟨hlt, h⟩⟩

/-- A script of the account is derived, whether it is cached or not. -/
theorem cachedScript_ok (hk : cache.Keyed keys n) {i : Bool} {j : ℕ} {e : Script × DerivationPath} :
    cachedScript keys cache i j = .ok e ↔
      e.2 = scriptPath i j ∧ keys.deriveScript i j = some e.1 := by
  obtain ⟨script, path⟩ := e
  cases hlookup : cache.scripts.lookup (scriptPath i j) with
  | some cached =>
    have hderive := (hk.lookup_scriptPath.mp hlookup).2
    simp only [cachedScript, hlookup, pure_eq_ok, Prod.mk.injEq, hderive, Option.some.injEq]
    exact ⟨fun h => ⟨h.2.symm, h.1⟩, fun h => ⟨h.2, h.1.symm⟩⟩
  | none =>
    simp only [cachedScript, hlookup, bind_eq_ok, okOr_eq_ok, pure_eq_ok, Prod.mk.injEq]
    constructor
    · rintro ⟨script', h, rfl, rfl⟩
      exact ⟨rfl, h⟩
    · rintro ⟨rfl, h⟩
      exact ⟨script, h, rfl, rfl⟩

end AccountCache.Keyed

/-! ### What is gathered -/

/-- The scripts that are gathered or cached. -/
def knownScripts (cache : AccountCache) (g : Gathered) : Set (Script × DerivationPath) :=
  {e | e ∈ g.scripts ∨ cache.scripts.lookup e.2 = some e.1}

/-- One history for each script, as many as were asked for. -/
def SyncServer.OnePerScript (server : SyncServer H) : Prop :=
  ∀ {isChange batchCount scripts result}, server.history isChange batchCount scripts = .ok result →
    result.length = scripts.length

/-- The batches of a chain from `first` to before `last` are scanned, and the last one has no
history. -/
structure Scan (keys : Keys) (cache : AccountCache) (server : SyncServer H) (i : Bool)
    (first last : ℕ) (g g' : Gathered) : Prop where
  lt : first < last
  derivable : ∀ j, first * batchSize ≤ j → j < last * batchSize → (keys.deriveScript i j).isSome
  known : knownScripts cache g' = knownScripts cache g ∪ chainScripts keys i first last
  other : g'.lastUsed.get (!i) = g.lastUsed.get (!i)
  index : server.OnePerScript →
    g'.lastUsed.get i = g.lastUsed.get i ∨ g'.lastUsed.get i + batchSize < last * batchSize

@[simp] theorem Indexes.get_set (indexes : Indexes) (i : Bool) (index : ℕ) :
    (indexes.set i index).get i = index := by
  cases i <;> rfl

@[simp] theorem Indexes.get_set_not (indexes : Indexes) (i : Bool) (index : ℕ) :
    (indexes.set i index).get (!i) = indexes.get (!i) := by
  cases i <;> rfl

theorem lastWithHistory_lt {result : List (List GetHistoryRes)} {max : ℕ}
    (h : lastWithHistory result = some max) : max < result.length := by
  have hmem := List.mem_of_getLast? h
  rw [List.mem_map] at hmem
  obtain ⟨p, hp, rfl⟩ := hmem
  have := List.snd_lt_add_of_mem_zipIdx (List.mem_of_mem_filter hp)
  omega

theorem lastWithHistory_eq_none {result : List (List GetHistoryRes)}
    (h : result.flatten.isEmpty = true) : lastWithHistory result = none := by
  rw [lastWithHistory, List.getLast?_eq_none_iff, List.map_eq_nil_iff, List.filter_eq_nil_iff]
  intro p hp
  rw [List.isEmpty_iff, List.flatten_eq_nil_iff] at h
  simp [h p.1 (List.fst_mem_of_mem_zipIdx hp)]

section Batch

variable {n : Bool → ℕ} {i : Bool} {batch : ℕ} {b : ScriptBatch}

/-- The scripts of a batch are known once it is added. -/
theorem getScriptBatch_ok (hk : cache.Keyed keys n) (h : getScriptBatch keys cache i batch = .ok b) :
    b.value.length = batchSize ∧
      (∀ j, batch * batchSize ≤ j → j < (batch + 1) * batchSize → (keys.deriveScript i j).isSome) ∧
      {e | e ∈ b.value} = chainScripts keys i batch (batch + 1) ∧
      (b.cached = true → ∀ e ∈ b.value, cache.scripts.lookup e.2 = some e.1) := by
  simp only [getScriptBatch, bind_eq_ok, pure_eq_ok] at h
  obtain ⟨value, hvalue, rfl⟩ := h
  rw [mapM_eq_ok_iff] at hvalue
  have hsucc : (batch + 1) * batchSize = batch * batchSize + batchSize := Nat.succ_mul ..
  -- an entry of the batch is a script of the chain, found in the cache or derived
  have hmem : ∀ e, e ∈ value ↔ e ∈ chainScripts keys i batch (batch + 1) := by
    intro e
    constructor
    · intro he
      obtain ⟨j, hj, hje⟩ := Forall₂.exists_of_mem hvalue he
      obtain ⟨hpath, hderive⟩ := hk.cachedScript_ok.mp hje
      rw [List.mem_range'_1] at hj
      exact ⟨j, hj.1, hsucc ▸ hj.2, hpath, hderive⟩
    · rintro ⟨j, hfirst, hlast, hpath, hderive⟩
      have hj : j ∈ List.range' (batch * batchSize) batchSize :=
        List.mem_range'_1.mpr ⟨hfirst, hsucc ▸ hlast⟩
      obtain ⟨e', he', hje⟩ := Forall₂.exists_of_mem hvalue.flip hj
      obtain ⟨hpath', hderive'⟩ := hk.cachedScript_ok.mp hje
      rw [hderive, Option.some.injEq] at hderive'
      rwa [Prod.ext hderive' (hpath.trans hpath'.symm)]
  refine ⟨hvalue.length_eq.symm.trans List.length_range', fun j hfirst hlast => ?_, Set.ext hmem,
    fun hcached e he => ?_⟩
  · -- no derivation has failed, or there would be no batch
    have hj : j ∈ List.range' (batch * batchSize) batchSize :=
      List.mem_range'_1.mpr ⟨hfirst, hsucc ▸ hlast⟩
    obtain ⟨e, _, hje⟩ := Forall₂.exists_of_mem hvalue.flip hj
    rw [(hk.cachedScript_ok.mp hje).2]
    rfl
  · -- a batch that is all in the cache gives the paths of the cache
    obtain ⟨j, hj, hje⟩ := Forall₂.exists_of_mem hvalue he
    obtain ⟨hpath, hderive⟩ := hk.cachedScript_ok.mp hje
    have hlookup := List.all_eq_true.mp hcached j hj
    rw [hpath]
    exact hk.lookup_scriptPath.mpr ⟨hk.isSome_lookup_iff.mp hlookup, hderive⟩

/-- The scripts of a batch are known once it is added. -/
theorem knownScripts_addBatch (hk : cache.Keyed keys n)
    (h : getScriptBatch keys cache i batch = .ok b) (g : Gathered)
    (result : List (List GetHistoryRes)) :
    knownScripts cache (g.addBatch i batch b result) =
      knownScripts cache g ∪ chainScripts keys i batch (batch + 1) := by
  obtain ⟨_, _, hvalue, hcached⟩ := getScriptBatch_ok hk h
  rw [← hvalue]
  ext e
  simp only [knownScripts, Gathered.addBatch, Set.mem_ofPred_eq, Set.mem_union]
  cases hb : b.cached with
  | true =>
    rw [if_pos rfl]
    exact ⟨.inl, fun he => he.elim id fun he => .inr (hcached hb e he)⟩
  | false =>
    rw [if_neg (by simp), List.mem_append]
    tauto

/-- The index of a batch, if one of its scripts has a history. -/
theorem addBatch_index (g : Gathered) {result : List (List GetHistoryRes)}
    (hlength : result.length = batchSize) :
    (g.addBatch i batch b result).lastUsed.get i = g.lastUsed.get i ∨
      (g.addBatch i batch b result).lastUsed.get i < (batch + 1) * batchSize := by
  simp only [Gathered.addBatch]
  cases hlast : lastWithHistory result with
  | none => exact .inl rfl
  | some max =>
    have hlt := lastWithHistory_lt hlast
    refine .inr ?_
    rw [Indexes.get_set, Nat.succ_mul]
    omega

theorem addBatch_other (g : Gathered) (result : List (List GetHistoryRes)) :
    (g.addBatch i batch b result).lastUsed.get (!i) = g.lastUsed.get (!i) := by
  simp only [Gathered.addBatch]
  cases lastWithHistory result with
  | none => rfl
  | some max => exact Indexes.get_set_not ..

/-- What the batches of a chain add, from one on. -/
theorem syncChain_scan (hk : cache.Keyed keys n) {fuel first : ℕ} {g g' : Gathered}
    (h : syncChain keys cache server i fuel first g = .ok g') :
    ∃ last, Scan keys cache server i first last g g' := by
  induction fuel generalizing first g with
  | zero => cases h
  | succ fuel ih =>
    simp only [syncChain, bind_eq_ok] at h
    obtain ⟨b, hb, result, hresult, h⟩ := h
    obtain ⟨hlength, hderivable, _, _⟩ := getScriptBatch_ok hk hb
    have hknown := knownScripts_addBatch hk hb g result
    -- the server has answered for each script of the batch
    have hcount (hone : server.OnePerScript) : result.length = batchSize := by
      rw [hone hresult, List.length_map, hlength]
    -- a batch without history ends the scan
    split at h
    · rename_i hempty
      cases h
      refine ⟨first + 1, by omega, hderivable, hknown, addBatch_other g result, fun _ => .inl ?_⟩
      simp only [Gathered.addBatch, lastWithHistory_eq_none hempty]
    · -- otherwise the scan goes on, and the counter lies within what has been scanned
      obtain ⟨last, hscan⟩ := ih h
      have hlt := hscan.lt
      refine ⟨last, by omega, fun j hfirst hlast => ?_, ?_, ?_, fun hone => ?_⟩
      · by_cases hj : j < (first + 1) * batchSize
        · exact hderivable j hfirst hj
        · exact hscan.derivable j (by omega) hlast
      · have hadd : knownScripts cache ((g.addBatch i first b result).addHistory result.flatten) =
            knownScripts cache (g.addBatch i first b result) := rfl
        rw [hscan.known, hadd, hknown, Set.union_assoc, chainScripts_union (by omega) (by omega)]
      · exact hscan.other.trans (addBatch_other (b := b) g result)
      · have hsucc : (first + 1 + 1) * batchSize ≤ last * batchSize :=
          Nat.mul_le_mul_right _ (by omega)
        have hbatch : (first + 1 + 1) * batchSize = (first + 1) * batchSize + batchSize :=
          Nat.succ_mul ..
        have hadd : ((g.addBatch i first b result).addHistory result.flatten).lastUsed =
            (g.addBatch i first b result).lastUsed := rfl
        rcases hscan.index hone with heq | hlast
        · rw [heq, hadd]
          refine (addBatch_index g (hcount hone)).imp_right fun hindex => ?_
          omega
        · exact .inr hlast

end Batch

/-! ### Both chains -/

/-- Both chains are scanned, `m` batches of each. -/
structure Gathering (keys : Keys) (cache : AccountCache) (server : SyncServer H) (m : Bool → ℕ)
    (g : Gathered) : Prop where
  derivable : ∀ i j, j < m i * batchSize → (keys.deriveScript i j).isSome
  known : knownScripts cache g = knownScripts cache .empty ∪ walletScripts keys m
  index : server.OnePerScript → ∀ i, g.lastUsed.get i + batchSize ≤ m i * batchSize

theorem walletScripts_eq (keys : Keys) (i : Bool) (m : Bool → ℕ) :
    chainScripts keys (!i) 0 (m (!i)) ∪ chainScripts keys i 0 (m i) = walletScripts keys m := by
  ext e
  constructor
  · rintro (he | he)
    · exact ⟨_, he⟩
    · exact ⟨_, he⟩
  · rintro ⟨i', he⟩
    by_cases h : i' = i
    · exact .inr (h ▸ he)
    · exact .inl (Bool.eq_not.mpr h ▸ he)

variable {n : Bool → ℕ} {chance : SyncChance} {fuel : ℕ} {g : Gathered}

theorem gather_ok (hk : cache.Keyed keys n) (h : gather keys chance fuel cache server = .ok g) :
    ∃ m, Gathering keys cache server m g := by
  simp only [gather, bind_eq_ok] at h
  obtain ⟨g₁, h₁, h₂⟩ := h
  obtain ⟨last₁, scan₁⟩ := syncChain_scan hk h₁
  obtain ⟨last₂, scan₂⟩ := syncChain_scan hk h₂
  generalize chance.externalFirst = i at scan₁ scan₂
  have hother := scan₁.other
  rw [Bool.not_not] at hother
  -- the gap above the last script that was used has been scanned
  have hindex : ∀ index last : ℕ, 0 < last →
      index = 0 ∨ index + batchSize < last * batchSize → index + batchSize ≤ last * batchSize := by
    rintro index last hlast (rfl | h)
    · rw [Nat.zero_add]
      exact Nat.le_mul_of_pos_left _ hlast
    · exact Nat.le_of_lt h
  -- nothing has been used at first
  have hzero : ∀ i', Gathered.empty.lastUsed.get i' = 0 := by
    intro i'
    cases i' <;> rfl
  refine ⟨fun i' => if i' = i then last₂ else last₁, fun i' j hj => ?_, ?_, fun hone i' => ?_⟩
  · -- each chain is derivable as far as it was scanned
    split at hj
    · subst i'
      exact scan₂.derivable j (by omega) hj
    · rename_i hne
      rw [Bool.eq_not.mpr hne]
      exact scan₁.derivable j (by omega) hj
  · have hwallet := walletScripts_eq keys i fun i' => if i' = i then last₂ else last₁
    simp only [Bool.not_eq_self, if_false, if_true] at hwallet
    rw [scan₂.known, scan₁.known, Set.union_assoc, hwallet]
  · -- the second scan leaves the counter of the first one alone
    split
    · subst i'
      refine hindex _ _ scan₂.lt ?_
      rw [← hzero i, ← hother]
      exact scan₂.index hone
    · rename_i hne
      rw [Bool.eq_not.mpr hne, scan₂.other]
      refine hindex _ _ scan₁.lt ?_
      rw [← hzero (!i)]
      exact scan₁.index hone

/-- A synchronisation adds the scripts of the scanned batches. -/
theorem AccountCache.Keyed.update (hd : keys.Distinct) (hk : cache.Keyed keys n) {m : Bool → ℕ}
    (hg : Gathering keys cache server m g) (newTxs : DownloadTxResult) :
    (cache.update g newTxs).Keyed keys fun i => max (n i) (m i) := by
  have hcached : knownScripts cache .empty = walletScripts keys n :=
    Set.ext fun e => ⟨fun he => he.elim (fun h => by cases h) (hk.scripts e).mp,
      fun he => .inr ((hk.scripts e).mpr he)⟩
  have hknown : knownScripts cache g = walletScripts keys fun i => max (n i) (m i) := by
    rw [hg.known, hcached, walletScripts_union]
  have hmem : ∀ e : Script × DerivationPath, e ∈ walletScripts keys (fun i => max (n i) (m i)) ↔
      e ∈ g.scripts ∨ e ∈ walletScripts keys n := by
    intro e
    rw [← hknown, ← hk.scripts e]
    rfl
  have hpath : ∀ {s p p'}, (s, p) ∈ walletScripts keys (fun i => max (n i) (m i)) →
      (s, p') ∈ walletScripts keys (fun i => max (n i) (m i)) → p = p' := by
    rintro s p p' ⟨i, j, _, _, hp, hs⟩ ⟨i', j', _, _, hp', hs'⟩
    rw [show p = scriptPath i j from hp, show p' = scriptPath i' j' from hp']
    exact hd hs hs'
  have hscript : ∀ {s s' p}, (s, p) ∈ walletScripts keys (fun i => max (n i) (m i)) →
      (s', p) ∈ walletScripts keys (fun i => max (n i) (m i)) → s = s' := by
    rintro s s' p ⟨i, j, _, _, hp, hs⟩ ⟨i', j', _, _, hp', hs'⟩
    obtain ⟨rfl, rfl⟩ := scriptPath_injective (hp.symm.trans hp')
    exact Option.some.inj (hs.symm.trans hs')
  have hnew : ∀ {e}, e ∈ g.scripts → e ∈ walletScripts keys (fun i => max (n i) (m i)) :=
    fun he => (hmem _).mpr (.inl he)
  have hold : ∀ {e}, e ∈ walletScripts keys n → e ∈ walletScripts keys (fun i => max (n i) (m i)) :=
    fun he => (hmem _).mpr (.inr he)
  -- the gathered scripts as a hash map
  have htable : ∀ s p, (⟨s, p⟩ : Sigma fun _ : Script => DerivationPath) ∈
      (Tables.extend (∅ : Table Script DerivationPath) g.scripts).entries ↔ (s, p) ∈ g.scripts := by
    intro s p
    rw [Tables.mem_entries_iff, Tables.lookup_extend_iff (fun h h' => hpath (hnew h) (hnew h'))
      (fun _ h => by cases h)]
    exact or_iff_left (fun h => by cases h)
  refine ⟨fun i j hj => ?_, fun e => ?_, fun e => ?_⟩
  · rcases max_choice (n i) (m i) with hmax | hmax
    · exact hk.derivable i j (hmax ▸ hj)
    · exact hg.derivable i j (hmax ▸ hj)
  · have hswap : ∀ s p, (p, s) ∈ ((Tables.extend (∅ : Table Script DerivationPath)
        g.scripts).entries.map fun e => (e.2, e.1)) ↔ (s, p) ∈ g.scripts := by
      intro s p
      rw [← htable, List.mem_map]
      constructor
      · rintro ⟨e, he, heq⟩
        cases heq
        exact he
      · intro he
        exact ⟨_, he, rfl⟩
    obtain ⟨s, p⟩ := e
    rw [hmem, ← hk.scripts (s, p), ← hswap]
    refine Tables.lookup_extend_iff (fun h h' => ?_) (fun h h' => ?_)
    · rw [hswap] at h h'
      exact hscript (hnew h) (hnew h')
    · rw [hswap] at h
      exact hscript (hnew h) (hold ((hk.scripts (_, _)).mp h'))
  · have hsame : ∀ s p, (s, p) ∈ ((Tables.extend (∅ : Table Script DerivationPath)
        g.scripts).entries.map fun e => (e.1, e.2)) ↔ (s, p) ∈ g.scripts := by
      intro s p
      rw [← htable, List.mem_map]
      constructor
      · rintro ⟨e, he, heq⟩
        cases heq
        exact he
      · intro he
        exact ⟨_, he, rfl⟩
    obtain ⟨s, p⟩ := e
    rw [hmem, ← hk.paths (s, p), ← hsame]
    refine Tables.lookup_extend_iff (fun h h' => ?_) (fun h h' => ?_)
    · rw [hsame] at h h'
      exact hpath (hnew h) (hnew h')
    · rw [hsame] at h
      exact hpath (hnew h) (hold ((hk.paths (_, _)).mp h'))

/-! ### What a synchronisation leaves -/

variable {lib : Lib} {cache' : AccountCache}

/-- Some transactions are removed, from the list and from the store. -/
structure AccountCache.Pruned (cache cache' : AccountCache) : Prop where
  scripts : cache'.scripts = cache.scripts
  paths : cache'.paths = cache.paths
  unblinded : cache'.unblinded = cache.unblinded
  indexes : cache'.indexes = cache.indexes
  allTxs : ∀ {txid tx}, cache'.allTxs.lookup txid = some tx → cache.allTxs.lookup txid = some tx
  heights : ∀ {txid height}, cache'.heights.lookup txid = some height →
    cache.heights.lookup txid = some height ∧ (txid ∈ cache.allTxs → txid ∈ cache'.allTxs)

namespace AccountCache.Pruned

theorem refl (cache : AccountCache) : cache.Pruned cache :=
  ⟨rfl, rfl, rfl, rfl, id, fun h => ⟨h, id⟩⟩

theorem trans {cache'' : AccountCache} (h : cache.Pruned cache') (h' : cache'.Pruned cache'') :
    cache.Pruned cache'' where
  scripts := h'.scripts.trans h.scripts
  paths := h'.paths.trans h.paths
  unblinded := h'.unblinded.trans h.unblinded
  indexes := h'.indexes.trans h.indexes
  allTxs := fun hlookup => h.allTxs (h'.allTxs hlookup)
  heights := by
    intro txid height hlookup
    obtain ⟨hheight, hmem⟩ := h'.heights hlookup
    exact ⟨(h.heights hheight).1, hmem ∘ (h.heights hheight).2⟩

theorem erase (cache : AccountCache) (txid : Txid) :
    cache.Pruned { cache with
      allTxs := cache.allTxs.erase txid, heights := cache.heights.erase txid } := by
  have herase : ∀ {ν : Type} {t : Table Txid ν} {k : Txid} {v : ν},
      (t.erase txid).lookup k = some v → k ≠ txid ∧ t.lookup k = some v := by
    intro ν t k v h
    by_cases hk : k = txid
    · rw [hk, AList.lookup_erase] at h
      cases h
    · rw [AList.lookup_erase_ne hk] at h
      exact ⟨hk, h⟩
  refine ⟨rfl, rfl, rfl, rfl, fun h => (herase h).2, fun h => ⟨(herase h).2, fun hmem => ?_⟩⟩
  rw [← Tables.exists_lookup_iff] at hmem ⊢
  rwa [AList.lookup_erase_ne (herase h).1]

end AccountCache.Pruned

theorem verifyOwnTxs_pruned {txs : List (Txid × BETransaction)}
    (h : verifyOwnTxs lib keys txs cache = .ok cache') : cache.Pruned cache' := by
  induction txs generalizing cache with
  | nil =>
    cases h
    exact .refl _
  | cons entry rest ih =>
    obtain ⟨txid, tx⟩ := entry
    cases tx with
    | elements tx => exact ih h
    | bitcoin tx =>
      rw [verifyOwnTxs] at h
      split at h
      · simp only [bind_eq_ok] at h
        obtain ⟨valid, _, h⟩ := h
        cases valid with
        | true => exact ih h
        | false => exact (AccountCache.Pruned.erase cache txid).trans (ih h)
      · exact ih h

/-- What a synchronisation does that verifies these of the new transactions. -/
structure Synced (lib : Lib) (keys : Keys) (chance : SyncChance) (fuel : ℕ) (server : SyncServer H)
    (cache : AccountCache) (g : Gathered) (newTxs : DownloadTxResult) (headers : List (ℕ × H))
    (verified : List (Txid × BETransaction)) (cache' : AccountCache) : Prop where
  gathered : gather keys chance fuel cache server = .ok g
  downloaded : downloadTxs lib keys chance.txids cache g.historyTxsId g.scripts server = .ok newTxs
  asked : downloadHeaders chance.heights cache g.heightsSet server = .ok headers
  isPrefix : verified <+: newTxs.txs
  result : if cache.changed g newTxs headers
    then verifyOwnTxs lib keys verified (cache.update g newTxs) = .ok cache' else cache' = cache

/-- The first part of a synchronisation. -/
theorem syncUpdate_ok {r : Option (AccountCache × DownloadTxResult × List (ℕ × H))}
    (h : syncUpdate lib keys chance fuel cache server = .ok r) :
    ∃ g newTxs headers, gather keys chance fuel cache server = .ok g ∧
      downloadTxs lib keys chance.txids cache g.historyTxsId g.scripts server = .ok newTxs ∧
      downloadHeaders chance.heights cache g.heightsSet server = .ok headers ∧
      r = if cache.changed g newTxs headers then some (cache.update g newTxs, newTxs, headers)
        else none := by
  simp only [syncUpdate, bind_eq_ok] at h
  obtain ⟨g, hg, newTxs, hnew, headers, hheaders, h⟩ := h
  refine ⟨g, newTxs, headers, hg, hnew, hheaders, ?_⟩
  split at h
  · rename_i hchanged
    cases h
    rw [if_pos hchanged]
  · rename_i hchanged
    cases h
    rw [if_neg hchanged]

theorem syncAccount_ok {r : Option (AccountCache × List (ℕ × H))}
    (h : syncAccount lib keys chance fuel cache server = .ok r) :
    ∃ g newTxs headers,
      Synced lib keys chance fuel server cache g newTxs headers newTxs.txs (r.elim cache Prod.fst) := by
  simp only [syncAccount, bind_eq_ok] at h
  obtain ⟨_, hupdate, h⟩ := h
  obtain ⟨g, newTxs, headers, hg, hnew, hheaders, rfl⟩ := syncUpdate_ok hupdate
  refine ⟨g, newTxs, headers, hg, hnew, hheaders, List.prefix_refl _, ?_⟩
  by_cases hchanged : cache.changed g newTxs headers
  · rw [if_pos hchanged] at h ⊢
    simp only [bind_eq_ok, pure_eq_ok] at h
    obtain ⟨cache', hverify, rfl⟩ := h
    exact hverify
  · rw [if_neg hchanged] at h ⊢
    cases h
    rfl

/-- The event is a synchronisation that verifies these of the new transactions. -/
def StoreEvent.Verifies (event : StoreEvent H) (chance : SyncChance) (fuel : ℕ) (server : SyncServer H)
    (txs verified : List (Txid × BETransaction)) : Prop :=
  (event = .sync chance fuel server ∧ verified = txs) ∨
    ∃ k, event = .interrupted chance fuel server k ∧ verified = txs.take k

/-- A step of the store: a synchronisation goes through or is interrupted, or fails and changes
nothing, or an index is taken. -/
theorem storeStep_cases {event : StoreEvent H} (h : storeStep lib keys cache event = some cache') :
    (∃ chance fuel server g newTxs headers verified,
      event.Verifies chance fuel server newTxs.txs verified ∧
      Synced lib keys chance fuel server cache g newTxs headers verified cache') ∨
    (∃ chance fuel server e, event = .sync chance fuel server ∧
      syncAccount lib keys chance fuel cache server = .error (.error e) ∧ cache' = cache) ∨
    (event = .nextAddress ∧ cache' = cache.nextExternal) ∨
    ∃ changesUsed, event = .signed changesUsed ∧ cache' = cache.useChanges changesUsed := by
  -- only a sync can change more than the counters
  cases event with
  | sync chance fuel server =>
    rw [storeStep] at h
    cases hsync : syncAccount lib keys chance fuel cache server with
    | ok r =>
      obtain ⟨g, newTxs, headers, hsynced⟩ := syncAccount_ok hsync
      refine .inl ⟨chance, fuel, server, g, newTxs, headers, newTxs.txs, .inl ⟨rfl, rfl⟩, ?_⟩
      rw [hsync] at h
      cases r <;> cases h <;> exact hsynced
    | error f =>
      rw [hsync] at h
      cases f with
      | error e =>
        cases h
        exact .inr (.inl ⟨chance, fuel, server, e, rfl, hsync, rfl⟩)
      | panic => cases h
  -- an interrupted sync has checked a part of the transactions
  | interrupted chance fuel server k =>
    simp only [storeStep] at h
    split at h
    · rename_i updated newTxs' headers' hupdate
      obtain ⟨g, newTxs, headers, hg, hnew, hheaders, hr⟩ := syncUpdate_ok hupdate
      refine .inl ⟨chance, fuel, server, g, newTxs, headers, newTxs.txs.take k, .inr ⟨k, rfl, rfl⟩, hg,
        hnew, hheaders, List.take_prefix _ _, ?_⟩
      split at hr
      · rename_i hchanged
        cases hr
        rw [if_pos hchanged]
        exact toOption_eq_some.mp h
      · cases hr
    · cases h
  | nextAddress =>
    cases h
    exact .inr (.inr (.inl ⟨rfl, rfl⟩))
  | signed changesUsed =>
    cases h
    exact .inr (.inr (.inr ⟨changesUsed, rfl, rfl⟩))

/-- If nothing has changed, then there is nothing to update. -/
theorem Synced.update_eq {newTxs : DownloadTxResult} {headers : List (ℕ × H)}
    (h : cache.changed g newTxs headers = false) :
    newTxs.txs = [] ∧ g.scripts = [] ∧ cache.indexes = g.lastUsed := by
  simp only [AccountCache.changed, Bool.or_eq_false_iff, decide_eq_false_iff_not, not_not,
    Bool.not_eq_false', List.isEmpty_iff] at h
  exact ⟨h.1.1.1.1.1, h.1.1.2, h.1.1.1.2⟩

/-- After a synchronisation, the scripts of `m` batches of each chain are there, and the last used
index is a batch before their end. -/
theorem Synced.keyed (hd : keys.Distinct) (hk : cache.Keyed keys n) {newTxs : DownloadTxResult}
    {headers : List (ℕ × H)} {verified : List (Txid × BETransaction)}
    (h : Synced lib keys chance fuel server cache g newTxs headers verified cache') :
    ∃ m, cache'.Keyed keys m ∧
      (server.OnePerScript → ∀ i, cache'.indexes.get i + batchSize ≤ m i * batchSize) := by
  obtain ⟨m, hm⟩ := gather_ok hk h.gathered
  have hupdate := hk.update hd hm newTxs
  have hresult := h.result
  refine ⟨fun i => max (n i) (m i), ?_, fun hone i => ?_⟩
  · split at hresult
    · have hpruned := verifyOwnTxs_pruned hresult
      exact ⟨hupdate.derivable, hpruned.scripts ▸ hupdate.scripts, hpruned.paths ▸ hupdate.paths⟩
    · rename_i hchanged
      obtain ⟨_, hscripts, _⟩ := update_eq (Bool.not_eq_true _ ▸ hchanged)
      rw [AccountCache.update, hscripts] at hupdate
      exact hresult ▸ ⟨hupdate.derivable, hupdate.scripts, hupdate.paths⟩
  · have hindexes : cache'.indexes = g.lastUsed := by
      split at hresult
      · exact (verifyOwnTxs_pruned hresult).indexes
      · rename_i hchanged
        rw [hresult]
        exact (update_eq (Bool.not_eq_true _ ▸ hchanged)).2.2
    rw [hindexes]
    exact (hm.index hone i).trans (Nat.mul_le_mul_right _ (le_max_right ..))

/-! ### A new account without a history -/

namespace Quiet

/-- A library that can unblind nothing. -/
def libs : Lib where
  txid _ := .zero
  weight _ := 0
  surjectionproofSize _ := 0
  minimumValue _ := 0
  parseAddress _ _ := none
  addressOf _ _ := none

def seed : Keys where
  deriveScript isChange j := some (isChange.toNat.toUInt8 :: zeros j)
  tryUnblind _ _ := none
  verifyInputSig _ _ _ _ := false

def silent : SyncServer Unit where
  history _ _ scripts := .ok (scripts.map fun _ => [])
  transactions _ := .ok []
  previousTransactions _ := .ok []
  headers _ := .ok []

def luck : SyncChance where
  externalFirst := true
  txids := id
  heights := id
  txids_perm := .refl
  heights_perm := .refl

theorem distinct : seed.Distinct := by
  intro i i' j j' script h h'
  cases h
  simp only [seed, Option.some.injEq, List.cons.injEq, zeros] at h'
  have hj := congrArg List.length h'.2
  rw [List.length_replicate, List.length_replicate] at hj
  cases i <;> cases i' <;> simp_all [scriptPath]

theorem onePerScript : silent.OnePerScript := by
  intro _ _ scripts result h
  cases h
  exact List.length_map ..

theorem synced : ∃ r, syncAccount libs seed luck 1 .empty silent = .ok (some r) :=
  ⟨_, rfl⟩

end Quiet

/-! ### Runs -/

theorem AccountCache.keyed_empty (keys : Keys) : AccountCache.empty.Keyed keys fun _ => 0 := by
  have hnone : ∀ e, e ∉ walletScripts keys fun _ => 0 := by
    rintro e ⟨i, j, _, hlt, _⟩
    rw [Nat.zero_mul] at hlt
    omega
  refine ⟨fun i j hj => ?_, fun e => ?_, fun e => ?_⟩
  · rw [Nat.zero_mul] at hj
    omega
  · exact iff_of_false (fun h => by cases h) (hnone e)
  · exact iff_of_false (fun h => by cases h) (hnone e)

theorem storeStep_keyed (hd : keys.Distinct) {event : StoreEvent H} (hk : ∃ n, cache.Keyed keys n)
    (h : storeStep lib keys cache event = some cache') : ∃ n, cache'.Keyed keys n := by
  obtain ⟨n, hk⟩ := hk
  rcases storeStep_cases h with ⟨_, _, _, _, _, _, _, _, hsynced⟩ | ⟨_, _, _, _, _, _, rfl⟩ |
    ⟨_, rfl⟩ | ⟨_, _, rfl⟩
  · obtain ⟨m, hm, _⟩ := hsynced.keyed hd hk
    exact ⟨m, hm⟩
  · exact ⟨n, hk⟩
  · exact ⟨n, hk.derivable, hk.scripts, hk.paths⟩
  · exact ⟨n, hk.derivable, hk.scripts, hk.paths⟩

theorem keyed_of_run (hd : keys.Distinct) {events : List (StoreEvent H)}
    (h : Runs.run (storeStep lib keys) .empty events = some cache) : ∃ n, cache.Keyed keys n :=
  Runs.run_invariant_of_mem (fun _ _ _ _ hk hstep => storeStep_keyed hd hk hstep)
    ⟨fun _ => 0, AccountCache.keyed_empty keys⟩ h

/-- In every run, the two tables of scripts are inverse to each other and have exactly the scripts
of the first batches of each chain, however many batches those are. -/
theorem storeRun_keyed (hd : keys.Distinct) (events : List (StoreEvent H))
    (h : Runs.run (storeStep lib keys) .empty events = some cache) :
    (∀ script path, cache.paths.lookup script = some path ↔ cache.scripts.lookup path = some script) ∧
      ∃ n : Bool → ℕ, ∀ path script, cache.scripts.lookup path = some script ↔
        ∃ isChange j, j < n isChange * batchSize ∧ path = scriptPath isChange j ∧
          keys.deriveScript isChange j = some script := by
  obtain ⟨n, hk⟩ := keyed_of_run hd h
  refine ⟨fun script path => (hk.paths (script, path)).trans (hk.scripts (script, path)).symm, n,
    fun path script => (hk.scripts (script, path)).trans ?_⟩
  simp only [walletScripts, chainScripts, Set.mem_ofPred_eq, Nat.zero_mul, Nat.zero_le, true_and]

theorem storeRun_keyed_quiet : ∃ c,
    Runs.run (storeStep Quiet.libs Quiet.seed) .empty [.sync Quiet.luck 1 Quiet.silent, .nextAddress] =
      some c ∧
    ∀ script path, c.paths.lookup script = some path ↔ c.scripts.lookup path = some script := by
  obtain ⟨c, hc⟩ : ∃ c, Runs.run (storeStep Quiet.libs Quiet.seed) .empty
      [.sync Quiet.luck 1 Quiet.silent, .nextAddress] = some c := ⟨_, rfl⟩
  exact ⟨c, hc, (storeRun_keyed Quiet.distinct _ hc).1⟩

/-- Whether an event is a synchronisation. -/
def StoreEvent.isSync : StoreEvent H → Bool
  | .sync .. => true
  | .interrupted .. => true
  | _ => false

/-- The number of indices that an event takes on a chain. -/
def StoreEvent.taken (isChange : Bool) : StoreEvent H → ℕ
  | .sync .. => 0
  | .interrupted .. => 0
  | .nextAddress => if isChange then 0 else 1
  | .signed changesUsed => if isChange then changesUsed else 0

/-- Without a synchronisation, only indices are taken. -/
theorem indexes_of_run {events : List (StoreEvent H)} (hevents : ∀ e ∈ events, e.isSync = false)
    (h : Runs.run (storeStep lib keys) cache events = some cache') (i : Bool) :
    cache'.paths = cache.paths ∧
      cache'.indexes.get i ≤ cache.indexes.get i + (events.map (StoreEvent.taken i)).sum := by
  induction events generalizing cache with
  | nil =>
    cases h
    exact ⟨rfl, Nat.le_refl _⟩
  | cons e rest ih =>
    rw [List.forall_mem_cons] at hevents
    -- one step raises the counter by what it takes, modulo the width of the counter
    have hstep : ∃ next, storeStep lib keys cache e = some next ∧ next.paths = cache.paths ∧
        next.indexes.get i ≤ cache.indexes.get i + e.taken i := by
      cases e with
      | sync chance fuel server => cases hevents.1
      | interrupted chance fuel server k => cases hevents.1
      | nextAddress =>
        refine ⟨_, rfl, rfl, ?_⟩
        cases i with
        | false => exact Nat.mod_le _ _
        | true => exact Nat.le_refl _
      | signed changesUsed =>
        refine ⟨_, rfl, rfl, ?_⟩
        cases i with
        | false => exact Nat.le_refl _
        | true => exact Nat.mod_le _ _
    obtain ⟨next, hnext, hpaths, hindex⟩ := hstep
    rw [Runs.run, hnext] at h
    obtain ⟨hpaths', hindex'⟩ := ih hevents.2 h
    rw [List.map_cons, List.sum_cons]
    exact ⟨hpaths'.trans hpaths, by omega⟩

/-- After a synchronisation that goes through, the next 19 indices of each chain are watched,
however many of them are taken before the next synchronisation. -/
theorem storeRun_watched (hd : keys.Distinct) {before after : List (StoreEvent H)}
    {r : Option (AccountCache × List (ℕ × H))}
    (hbefore : Runs.run (storeStep lib keys) .empty before = some cache)
    (hsync : syncAccount lib keys chance fuel cache server = .ok r) (hone : server.OnePerScript)
    (hafter : ∀ e ∈ after, e.isSync = false)
    (h : Runs.run (storeStep lib keys) (r.elim cache Prod.fst) after = some cache') (i : Bool)
    {k : ℕ} (hk : (after.map (StoreEvent.taken i)).sum + k < batchSize) {j : ℕ}
    (hj : j ≤ cache'.indexes.get i + k) :
    ∃ script, keys.deriveScript i j = some script ∧
      cache'.paths.lookup script = some (scriptPath i j) := by
  obtain ⟨n, hkeyed⟩ := keyed_of_run hd hbefore
  obtain ⟨g, newTxs, headers, hsynced⟩ := syncAccount_ok hsync
  obtain ⟨m, hm, hindex⟩ := hsynced.keyed hd hkeyed
  obtain ⟨hpaths, htaken⟩ := indexes_of_run hafter h i
  have hlast := hindex hone i
  have hlt : j < m i * batchSize := by omega
  obtain ⟨script, hscript⟩ := Option.isSome_iff_exists.mp (hm.derivable i j hlt)
  refine ⟨script, hscript, ?_⟩
  rw [hpaths, hm.paths (script, scriptPath i j)]
  exact ⟨i, j, by omega, hlt, rfl, hscript⟩

theorem storeRun_watched_quiet : ∃ r c,
    syncAccount Quiet.libs Quiet.seed Quiet.luck 1 .empty Quiet.silent = .ok (some r) ∧
    Runs.run (storeStep Quiet.libs Quiet.seed) r.1 [.nextAddress (H := Unit), .signed 3] = some c ∧
    ∃ script, c.paths.lookup script = some (scriptPath true 4) := by
  obtain ⟨r, hr⟩ := Quiet.synced
  obtain ⟨c, hc⟩ : ∃ c, Runs.run (storeStep Quiet.libs Quiet.seed) r.1
      [.nextAddress (H := Unit), .signed 3] = some c := ⟨_, rfl⟩
  have hstart : Runs.run (storeStep Quiet.libs Quiet.seed) .empty ([] : List (StoreEvent Unit)) =
      some .empty := rfl
  obtain ⟨script, _, hscript⟩ := storeRun_watched Quiet.distinct hstart hr Quiet.onePerScript (by decide)
    hc true (k := 4) (by decide) (Nat.le_add_left 4 _)
  exact ⟨r, c, hr, hc, script, hscript⟩

end SideSwap.Gdk
