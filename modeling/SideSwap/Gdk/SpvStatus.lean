import SideSwap.Gdk.CrossValidation
import SideSwap.Gdk.HeaderRuns
import SideSwap.Gdk.LiquidHeader
import SideSwap.Gdk.Sync
import SideSwap.Lib.Runs

/-!
# The SPV status of transactions

With SPV, a thread of `gdk_electrum` asks for headers, then for the proofs of the transactions of
each account, and cross-validates.  The thread that synchronises the wallet changes the heights of
transactions meanwhile.  `spvStep` has a step for each access to what the threads share:
`get_proofs` reads an account in one (`readProofs`), then asks for one proof after the other
(`fetchProof`), and writes the verdicts in another (`writeProofs`).

* `spvRun_verified`: whatever the servers answer and in whatever order the threads take their steps,
  a transaction with the status `Verified` is proven, by a header of the chain or a signed one, and
  is not above the ancestor that is common with a longer chain;
* `spvRun_stands`: a verdict stands, and no proof is asked for again, if and only if the headers are
  never found invalid and the transaction is never unconfirmed when proofs are read.  So a
  transaction is not verified for good after a server once failed to answer.
-/

namespace SideSwap.Gdk

open Libwally Call

/-! ### The thread -/

/-- Headers are checked by their work, or by their signatures. -/
inductive ChainOrVerifier where
  | chain (chain : HeadersChain)
  | verifier (verifier : Verifier)

/-- What the threads share of the store: the heights of the transactions of each account, the
headers at these heights, the verdicts, and the result of the last cross-validation. -/
structure SpvStore where
  accounts : Table ℕ (Table Txid (Option ℕ))
  headers : Table ℕ LiquidHeader
  txsVerif : Table Txid SPVVerifyResult
  crossValidationResult : Option CrossValidationResult

/-- The thread that keeps the headers. -/
structure Headers where
  store : SpvStore
  checker : ChainOrVerifier
  crossValidator : Option SpvCrossValidator

namespace Headers

/-- `ask`, with the number of headers. -/
def ask (blocks : BlockLib) (h : Headers) (answer : Option (List Header)) : Headers × Call Error ℕ :=
  match h.checker with
  | .verifier _ => (h, .ok 0)
  | .chain chain =>
    match answer with
    | none => (h, .error (.error .electrum))
    | some newHeaders =>
      match chain.push blocks newHeaders with
      | (chain, .ok ()) => ({ h with checker := .chain chain }, .ok newHeaders.length)
      | (chain, .error e) => ({ h with checker := .chain chain }, .error e)

/-- Take headers off the end. -/
def remove (h : Headers) (headers : ℕ) : Headers :=
  match h.checker with
  | .verifier _ => h
  | .chain chain => { h with checker := .chain (chain.remove headers).1 }

/-- One round of the thread: if the headers are invalid, all verdicts are cleared. -/
def askRound (blocks : BlockLib) (h : Headers) (answer : Option (List Header)) : Headers :=
  match h.ask blocks answer with
  | (h, .error (.error .invalidHeaders)) =>
    ({ h with store := { h.store with txsVerif := ∅ } } : Headers).remove 144
  | (h, _) => h

end Headers

/-- Unconfirmed transactions with a verdict. -/
def SpvStore.removeProof (store : SpvStore) (heights : Table Txid (Option ℕ)) : List Txid :=
  heights.entries.filterMap fun e => if e.2 = none ∧ e.1 ∈ store.txsVerif then some e.1 else none

/-- Confirmed transactions without a verdict. -/
def SpvStore.needsProof (store : SpvStore) (heights : Table Txid (Option ℕ)) : List (Txid × ℕ) :=
  heights.entries.filterMap fun e =>
    e.2.bind fun height => if e.1 ∈ store.txsVerif then none else some (e.1, height)

/-- An account that `get_proofs` is at, and the verdicts that are not written yet. -/
structure ProofRound where
  removeProof : List Txid
  needsProof : List (Txid × ℕ)
  txsVerified : Table Txid SPVVerifyResult

section Proofs

variable {Key Signature : Type} (blocks : BlockLib) (lib : LiquidLib Key Signature)

/-- `is_ok`; a panic goes on. -/
def isOk : Call Error Unit → Call Error Bool
  | .ok () => return true
  | .error (.error _) => return false
  | .error .panic => .error .panic

/-- Whether a proof is accepted. -/
def Headers.accepts (h : Headers) (txid : Txid) (height : ℕ) : Option GetMerkleRes → Call Error Bool
  | none => return false
  | some proof =>
    match h.checker with
    | .chain chain => isOk (chain.verifyTxProof blocks txid height proof)
    | .verifier verifier =>
      match h.store.headers.lookup height with
      | some header => isOk (verifier.verifyTxProof lib blocks txid proof header)
      | none => return false

/-- The verdict on the next transaction. -/
def ProofRound.fetch (h : Headers) (round : ProofRound) (answer : Option GetMerkleRes) :
    Option ProofRound :=
  match round.needsProof with
  | [] => none
  | (txid, height) :: rest =>
    match h.accepts blocks lib txid height answer with
    | .error _ => none
    | .ok verified =>
      let verdict : SPVVerifyResult := if verified then .verified else .notVerified
      some { round with needsProof := rest, txsVerified := round.txsVerified.insert txid verdict }

end Proofs

/-- The verdicts with those of an account. -/
def SpvStore.write (store : SpvStore) (round : ProofRound) : SpvStore :=
  { store with
    txsVerif := round.removeProof.foldl (fun t txid => t.erase txid)
      (Tables.extend store.txsVerif (round.txsVerified.entries.map fun e => (e.1, e.2))) }

/-- The last round has found nothing against the chain. -/
def CrossValidationResult.isValid : CrossValidationResult → Bool
  | .valid => true
  | .invalid _ => false

/-- `cross_validate`, and whether the status changed. -/
def Headers.crossValidate (blocks : BlockLib) (fuel : ℕ) (h : Headers)
    (shuffle : List ElectrumUrl → List ElectrumUrl) (remote : ElectrumUrl → RemoteServer) :
    Call Unending (Headers × Bool) :=
  match h.crossValidator, h.checker with
  | some validator, .chain chain => do
    let wasValid := h.store.crossValidationResult.map CrossValidationResult.isValid
    let validator ← validator.validate blocks fuel chain shuffle remote
    let result := validator.lastResult
    return ({ h with
      crossValidator := some validator
      store := { h.store with crossValidationResult := some result } },
      wasValid.all fun valid => valid != result.isValid)
  | _, _ => return (h, false)

/-- `spv_verification_status`. -/
def SpvStore.spvVerificationStatus (store : SpvStore) (accountNum : ℕ) (txid : Txid) : SPVVerifyResult :=
  match store.accounts.lookup accountNum with
  | none => .notVerified
  | some heights =>
    match (heights.lookup txid).getD none with
    | none => .unconfirmed
    | some height =>
      match store.crossValidationResult with
      | some (.invalid inv) =>
        if inv.commonAncestor < height then .notLongest
        else (store.txsVerif.lookup txid).getD .inProgress
      | _ => (store.txsVerif.lookup txid).getD .inProgress

/-! ### The threads together -/

/-- The threads that verify, and what they share. -/
structure SpvState where
  headers : Headers
  round : Option ProofRound

/-- A step of the thread, or of the synchronisation, which replaces the heights of an account and
adds headers. -/
inductive SpvEvent where
  | ask (answer : Option (List Header))
  | readProofs (account : ℕ)
  | fetchProof (answer : Option GetMerkleRes)
  | writeProofs
  | crossValidate (shuffle : List ElectrumUrl → List ElectrumUrl) (remote : ElectrumUrl → RemoteServer)
  | sync (account : ℕ) (heights : Table Txid (Option ℕ)) (headers : List (ℕ × LiquidHeader))

section Steps

variable {Key Signature : Type} (blocks : BlockLib) (lib : LiquidLib Key Signature) (fuel : ℕ)

/-- The state after a step, if the thread is at it.  A panic is the end of the thread, and so is a
server that keeps the cross-validation going. -/
def spvStep (s : SpvState) : SpvEvent → Option SpvState
  -- headers are only asked for between two rounds of proofs
  | .ask answer =>
    match s.round with
    | none => some { s with headers := s.headers.askRound blocks answer }
    | some _ => none
  -- a round begins: what is to be removed and what is to be proved are read at once
  | .readProofs account =>
    match s.round, s.headers.store.accounts.lookup account with
    | none, some heights =>
      let store := s.headers.store
      some { s with round := some ⟨store.removeProof heights, store.needsProof heights, ∅⟩ }
    | _, _ => none
  -- a proof is asked for and checked against the headers of now
  | .fetchProof answer =>
    s.round.bind fun round =>
      (round.fetch blocks lib s.headers answer).map fun round => { s with round := some round }
  -- the round is written when it has no proof left to ask for
  | .writeProofs =>
    match s.round with
    | some ⟨remove, [], verified⟩ =>
      some ⟨{ s.headers with store := s.headers.store.write ⟨remove, [], verified⟩ }, none⟩
    | _ => none
  -- the other servers are asked
  | .crossValidate shuffle remote =>
    match s.round, s.headers.crossValidate blocks fuel shuffle remote with
    | none, .ok (headers, _) => some { s with headers := headers }
    | _, _ => none
  -- a sync replaces the heights of the account
  | .sync account heights headers =>
    some { s with
      headers := { s.headers with
        store := { s.headers.store with
          accounts := s.headers.store.accounts.insert account heights
          headers := Tables.extend s.headers.store.headers headers } } }

end Steps

/-! ### What a step does -/

/-- `push` only adds to the file. -/
theorem Pushing.header_written (blocks : BlockLib) (p : Pushing) (x : Header) :
    ∃ written, (p.header blocks x).1.chain.file = p.chain.file ++ written := by
  have haccept : ∀ q : Pushing, (q.accept blocks x).1.chain.file = q.chain.file := by
    intro q
    simp only [Pushing.accept]
    split <;> rfl
  simp only [Pushing.header]
  split
  · exact ⟨[], (List.append_nil _).symm⟩
  · split
    · split
      · exact ⟨p.serialized, rfl⟩
      · split
        · exact ⟨p.serialized, rfl⟩
        · exact ⟨p.serialized, haccept _⟩
    · split
      · exact ⟨[], (List.append_nil _).symm⟩
      · exact ⟨[], (haccept p).trans (List.append_nil _).symm⟩

theorem Pushing.headers_written (blocks : BlockLib) (p : Pushing) (newHeaders : List Header) :
    ∃ written, (p.headers blocks newHeaders).1.file = p.chain.file ++ written := by
  induction newHeaders generalizing p with
  | nil => exact ⟨p.serialized, rfl⟩
  | cons x rest ih =>
    rw [Pushing.headers]
    obtain ⟨written, hwritten⟩ := header_written blocks p x
    rcases hp : p.header blocks x with ⟨p', _ | ⟨⟩⟩
    · rw [hp] at hwritten
      exact ⟨written, hwritten⟩
    · rw [hp] at hwritten
      obtain ⟨written', hwritten'⟩ := ih p'
      exact ⟨written ++ written', by rw [hwritten', hwritten, List.append_assoc]⟩

/-- The chain was only added to. -/
def Grows : ChainOrVerifier → ChainOrVerifier → Prop
  | .chain chain, .chain chain' => ∃ written, chain'.file = chain.file ++ written
  | .verifier verifier, .verifier verifier' => verifier' = verifier
  | _, _ => False

theorem Grows.refl (c : ChainOrVerifier) : Grows c c := by
  cases c with
  | chain chain => exact ⟨[], (List.append_nil _).symm⟩
  | verifier verifier => rfl

/-- The headers of an answer are not valid. -/
def Headers.FindsInvalid (blocks : BlockLib) (h : Headers) (answer : Option (List Header)) : Prop :=
  ∃ chain newHeaders, h.checker = .chain chain ∧ answer = some newHeaders ∧
    (chain.push blocks newHeaders).2 = .error (.error .invalidHeaders)

theorem Headers.ask_spec (blocks : BlockLib) (h : Headers) (answer : Option (List Header)) :
    (h.ask blocks answer).1.store = h.store ∧ Grows h.checker (h.ask blocks answer).1.checker ∧
      ((h.ask blocks answer).2 = .error (.error .invalidHeaders) ↔ h.FindsInvalid blocks answer) := by
  unfold ask FindsInvalid
  cases hchecker : h.checker with
  -- a network whose headers carry signatures has no chain to extend
  | verifier verifier => simp [hchecker, Grows]
  | chain chain =>
    -- no answer changes nothing
    cases answer with
    | none => simp [hchecker, Grows]
    | some newHeaders =>
      -- the headers that were accepted stay, whether the push succeeds or not
      obtain ⟨written, hwritten⟩ := Pushing.headers_written blocks ⟨chain, [], chain.last.bits⟩ newHeaders
      rw [← HeadersChain.push] at hwritten
      rcases hpush : chain.push blocks newHeaders with ⟨chain', _ | ⟨⟩⟩
      · rw [hpush] at hwritten
        simp only [hpush]
        refine ⟨trivial, ⟨written, hwritten⟩, fun herr => ⟨chain, newHeaders, rfl, rfl, ?_⟩, ?_⟩
        · cases herr
          rw [hpush]
        · rintro ⟨_, _, hchain, hsome, hinvalid⟩
          cases hchain
          cases hsome
          rw [hpush] at hinvalid
          cases hinvalid
          rfl
      · rw [hpush] at hwritten
        simp only [hpush]
        refine ⟨trivial, ⟨written, hwritten⟩, fun herr => ?_, ?_⟩
        · cases herr
        · rintro ⟨_, _, hchain, hsome, hinvalid⟩
          cases hchain
          cases hsome
          rw [hpush] at hinvalid
          cases hinvalid

theorem Headers.remove_store (h : Headers) (n : ℕ) : (h.remove n).store = h.store := by
  unfold remove
  split <;> rfl

/-- A round that finds invalid headers clears the verdicts, and another one only adds headers. -/
theorem Headers.askRound_cases (blocks : BlockLib) (h : Headers) (answer : Option (List Header)) :
    (h.FindsInvalid blocks answer ∧
      (h.askRound blocks answer).store = { h.store with txsVerif := ∅ }) ∨
    (¬ h.FindsInvalid blocks answer ∧ (h.askRound blocks answer).store = h.store ∧
      Grows h.checker (h.askRound blocks answer).checker) := by
  obtain ⟨hstore, hgrows, hiff⟩ := ask_spec blocks h answer
  rw [← hiff]
  rcases hask : h.ask blocks answer with ⟨h', result⟩
  rw [hask] at hstore hgrows
  by_cases hinvalid : result = .error (.error .invalidHeaders)
  · subst hinvalid
    refine .inl ⟨rfl, ?_⟩
    simp only [askRound, hask, remove_store]
    rw [← hstore]
  · have hround : h.askRound blocks answer = h' := by
      rw [askRound, hask]
      split
      · rename_i heq
        exact absurd (Prod.mk.inj heq).2 hinvalid
      · rename_i heq
        exact (Prod.mk.inj heq).1.symm
    rw [hround]
    exact .inr ⟨hinvalid, hstore, hgrows⟩

/-- What is found after verdicts are written. -/
theorem SpvStore.lookup_write {store : SpvStore} {round : ProofRound} {txid : Txid} {r : SPVVerifyResult} :
    (store.write round).txsVerif.lookup txid = some r ↔ txid ∉ round.removeProof ∧
      (round.txsVerified.lookup txid = some r ∨
        (txid ∉ round.txsVerified ∧ store.txsVerif.lookup txid = some r)) := by
  -- what has been found in the round is written entry by entry
  have hmem : ∀ r', (txid, r') ∈ round.txsVerified.entries.map (fun e => (e.1, e.2)) ↔
      round.txsVerified.lookup txid = some r' := by
    intro r'
    rw [← Tables.mem_entries_iff, List.mem_map]
    constructor
    · rintro ⟨e, he, heq⟩
      cases heq
      exact he
    · exact fun h => ⟨_, h, rfl⟩
  have hkeys : txid ∈ (round.txsVerified.entries.map fun e => (e.1, e.2)).map Prod.fst ↔
      txid ∈ round.txsVerified := by
    rw [← Tables.exists_lookup_iff, List.mem_map]
    constructor
    · rintro ⟨⟨_, r'⟩, he, rfl⟩
      exact ⟨r', (hmem r').mp he⟩
    · rintro ⟨r', hr'⟩
      exact ⟨(txid, r'), (hmem r').mpr hr', rfl⟩
  rw [write, Tables.lookup_foldl_erase]
  -- a transaction that is removed gets no verdict, whatever was found
  split
  · rename_i hremoved
    exact iff_of_false (by simp) fun h => h.1 hremoved
  · -- otherwise the new verdict counts, or the old one if there is no new one
    rename_i hkept
    simp only [hkept, not_false_eq_true, true_and]
    constructor
    · intro h
      rcases Tables.lookup_extend_cases h with hnew | ⟨hnot, hold⟩
      · exact .inl ((hmem r).mp hnew)
      · exact .inr ⟨fun hin => hnot (hkeys.mpr hin), hold⟩
    · rintro (hnew | ⟨hnot, hold⟩)
      · refine Tables.lookup_extend_of_unique ((hmem r).mpr hnew) fun r' hr' => ?_
        rw [hmem, hnew, Option.some.injEq] at hr'
        exact hr'.symm
      · rw [Tables.lookup_extend_of_not_mem fun hin => hnot (hkeys.mp hin), hold]

theorem Headers.crossValidate_frame {blocks : BlockLib} {fuel : ℕ} {h h' : Headers} {b : Bool}
    {shuffle : List ElectrumUrl → List ElectrumUrl} {remote : ElectrumUrl → RemoteServer}
    (hok : h.crossValidate blocks fuel shuffle remote = .ok (h', b)) :
    h'.checker = h.checker ∧ h'.store.txsVerif = h.store.txsVerif ∧
      h'.store.accounts = h.store.accounts := by
  unfold crossValidate at hok
  split at hok
  · simp only [bind_eq_ok, pure_eq_ok, Prod.mk.injEq] at hok
    obtain ⟨validator, _, rfl, _⟩ := hok
    exact ⟨rfl, rfl, rfl⟩
  · cases hok
    exact ⟨rfl, rfl, rfl⟩

/-! ### Verdicts -/

section Runs

variable {Key Signature : Type} {blocks : BlockLib} {lib : LiquidLib Key Signature} {fuel : ℕ}
  {start : SpvState}

/-- A transaction is found to be verified, or will be when the verdicts are written. -/
def SpvState.Claims (s : SpvState) (txid : Txid) : Prop :=
  s.headers.store.txsVerif.lookup txid = some .verified ∨
    ∃ round, s.round = some round ∧ round.txsVerified.lookup txid = some .verified

/-- What a step does to what is verified: it accepts one proof, only adds to the chain, or clears
everything. -/
theorem spvStep_claims {s s' : SpvState} {e : SpvEvent} (h : spvStep blocks lib fuel s e = some s') :
    (Grows s.headers.checker s'.headers.checker ∧ ∀ txid, s'.Claims txid → s.Claims txid ∨
      ∃ height answer, s.headers.accepts blocks lib txid height answer = .ok true) ∨
    ∀ txid, ¬ s'.Claims txid := by
  cases e with
  -- an answer that is not invalid takes nothing away; an invalid one clears the verdicts
  | ask answer =>
    cases hround : s.round with
    | some round => simp [spvStep, hround] at h
    | none =>
      simp only [spvStep, hround, Option.some.injEq] at h
      subst h
      rcases s.headers.askRound_cases blocks answer with ⟨_, hstore⟩ | ⟨_, hstore, hgrows⟩
      · refine .inr fun txid => ?_
        rintro (hclaim | ⟨round, hround', _⟩)
        · simp only [hstore, AList.lookup_empty] at hclaim
          cases hclaim
        · cases hround'
      · refine .inl ⟨hgrows, fun txid hclaim => .inl ?_⟩
        simpa only [SpvState.Claims, hstore, hround] using hclaim
  -- a new round claims nothing yet
  | readProofs account =>
    cases hround : s.round with
    | some round => simp [spvStep, hround] at h
    | none =>
      cases haccount : s.headers.store.accounts.lookup account with
      | none => simp [spvStep, hround, haccount] at h
      | some heights =>
        simp only [spvStep, hround, haccount, Option.some.injEq] at h
        subst h
        refine .inl ⟨Grows.refl _, fun txid hclaim => .inl ?_⟩
        rcases hclaim with hclaim | ⟨round, hround', hclaim⟩
        · exact .inl hclaim
        · cases hround'
          simp only [AList.lookup_empty] at hclaim
          cases hclaim
  -- the only step at which a new claim is made
  | fetchProof answer =>
    simp only [spvStep, Option.bind_eq_some_iff, Option.map_eq_some_iff] at h
    obtain ⟨round, hround, round', hfetch, rfl⟩ := h
    refine .inl ⟨Grows.refl _, fun txid hclaim => ?_⟩
    rcases hclaim with hclaim | ⟨_, hround', hclaim⟩
    · exact .inl (.inl hclaim)
    · cases hround'
      simp only [ProofRound.fetch] at hfetch
      split at hfetch
      · cases hfetch
      · rename_i txid' height rest _
        split at hfetch
        · cases hfetch
        · rename_i verified haccepts
          rw [Option.some.injEq] at hfetch
          subst hfetch
          -- the proof was for this transaction, or for another one
          by_cases hsame : txid = txid'
          · subst hsame
            cases verified with
            | true => exact .inr ⟨height, answer, haccepts⟩
            | false =>
              simp only [AList.lookup_insert, Option.some.injEq] at hclaim
              cases hclaim
          · simp only [AList.lookup_insert_ne hsame] at hclaim
            exact .inl (.inr ⟨round, hround, hclaim⟩)
  -- what the round has claimed is written
  | writeProofs =>
    simp only [spvStep] at h
    split at h
    · rename_i removed verified hround
      rw [Option.some.injEq] at h
      subst h
      refine .inl ⟨Grows.refl _, fun txid hclaim => .inl ?_⟩
      rcases hclaim with hclaim | ⟨_, hround', _⟩
      · rcases (SpvStore.lookup_write.mp hclaim).2 with hnew | ⟨_, hold⟩
        · exact .inr ⟨_, hround, hnew⟩
        · exact .inl hold
      · cases hround'
    · cases h
  -- the cross validation does not touch the verdicts
  | crossValidate shuffle remote =>
    simp only [spvStep] at h
    split at h
    · rename_i headers changed hround hvalidate
      rw [Option.some.injEq] at h
      subst h
      obtain ⟨hchecker, hverif, _⟩ := Headers.crossValidate_frame hvalidate
      refine .inl ⟨by rw [hchecker]; exact Grows.refl _, fun txid hclaim => .inl ?_⟩
      simpa only [SpvState.Claims, hverif] using hclaim
    · cases h
  -- neither does a sync
  | sync account heights headers =>
    rw [spvStep, Option.some.injEq] at h
    subst h
    exact .inl ⟨Grows.refl _, fun txid hclaim => .inl hclaim⟩

/-- What justifies a verdict: the transaction is proven in the chain, or it was by a signed header
that the store had at some time. -/
def Justified (blocks : BlockLib) (lib : LiquidLib Key Signature) (fuel : ℕ) (start : SpvState)
    (events : List SpvEvent) (checker : ChainOrVerifier) (txid : Txid) : Prop :=
  match checker with
  | .chain chain => Proven blocks chain.file txid
  | .verifier verifier => ∃ before after s height header proof, events = before ++ after ∧
      Runs.run (spvStep blocks lib fuel) start before = some s ∧
      s.headers.store.headers.lookup height = some header ∧
      verifier.verifyTxProof lib blocks txid proof header = .ok ()

theorem Justified.mono {events : List SpvEvent} {checker checker' : ChainOrVerifier} {txid : Txid}
    (h : Justified blocks lib fuel start events checker txid) (hgrows : Grows checker checker')
    (e : SpvEvent) : Justified blocks lib fuel start (events ++ [e]) checker' txid := by
  cases checker with
  | chain chain =>
    cases checker' with
    | verifier verifier => exact absurd hgrows id
    | chain chain' =>
      obtain ⟨written, hfile⟩ := hgrows
      rw [Justified, hfile]
      exact Proven.append h written
  | verifier verifier =>
    cases checker' with
    | chain chain => exact absurd hgrows id
    | verifier verifier' =>
      obtain rfl : verifier' = verifier := hgrows
      obtain ⟨before, after, s, height, header, proof, rfl, hrest⟩ := h
      exact ⟨before, after ++ [e], s, height, header, proof, List.append_assoc _ _ _, hrest⟩

theorem isOk_eq_true {m : Call Error Unit} (h : isOk m = .ok true) : m = .ok () := by
  cases m with
  | ok u => rfl
  | error f => cases f <;> cases h

theorem justified_of_accepts {events : List SpvEvent} {s : SpvState}
    (hrun : Runs.run (spvStep blocks lib fuel) start events = some s) {txid : Txid} {height : ℕ}
    {answer : Option GetMerkleRes} (h : s.headers.accepts blocks lib txid height answer = .ok true) :
    Justified blocks lib fuel start events s.headers.checker txid := by
  cases answer with
  | none => cases h
  | some proof =>
    rw [Headers.accepts] at h
    cases hchecker : s.headers.checker with
    | chain chain =>
      simp only [hchecker] at h
      obtain ⟨header, hheader, hroot⟩ := verifyTxProof_eq_ok.mp (isOk_eq_true h)
      exact ⟨height, header, proof, hheader, by rwa [computeMerkleRoot, merkleLoop_eq_climb]⟩
    | verifier verifier =>
      simp only [hchecker] at h
      split at h
      · rename_i header hheader
        exact ⟨events, [], s, height, header, proof, (List.append_nil _).symm, hrun, hheader,
          isOk_eq_true h⟩
      · cases h

/-- Everything that is found to be verified is justified. -/
theorem spvRun_justified (hstart : ∀ txid, ¬ start.Claims txid) (events : List SpvEvent) {s : SpvState}
    (hrun : Runs.run (spvStep blocks lib fuel) start events = some s) :
    ∀ txid, s.Claims txid → Justified blocks lib fuel start events s.headers.checker txid := by
  refine Runs.run_history (J := fun events s => ∀ txid, s.Claims txid →
    Justified blocks lib fuel start events s.headers.checker txid)
    (fun txid h => absurd h (hstart txid)) (fun events e s s' hrun ih hstep txid hclaim => ?_) events hrun
  rcases spvStep_claims hstep with ⟨hgrows, hclaims⟩ | hcleared
  · rcases hclaims txid hclaim with hold | ⟨height, answer, haccepts⟩
    · exact (ih txid hold).mono hgrows e
    · exact (justified_of_accepts hrun haccepts).mono hgrows e
  · exact absurd hclaim (hcleared txid)

theorem status_verified {store : SpvStore} {account : ℕ} {txid : Txid}
    (h : store.spvVerificationStatus account txid = .verified) :
    (∃ heights height, store.accounts.lookup account = some heights ∧
      heights.lookup txid = some (some height) ∧
      ∀ inv, store.crossValidationResult = some (.invalid inv) → height ≤ inv.commonAncestor) ∧
    store.txsVerif.lookup txid = some .verified := by
  -- no verdict at all counts as being in progress
  have hverdict : (store.txsVerif.lookup txid).getD .inProgress = .verified →
      store.txsVerif.lookup txid = some .verified := by
    intro h
    cases hlookup : store.txsVerif.lookup txid with
    | none => simp [hlookup] at h
    | some r => rw [← h, hlookup, Option.getD_some]
  rw [SpvStore.spvVerificationStatus] at h
  split at h
  · cases h
  · -- the transaction must be listed with a height
    rename_i heights haccount
    split at h
    · cases h
    · rename_i height hheight
      have hlookup : heights.lookup txid = some (some height) := by
        cases hopt : heights.lookup txid with
        | none => simp [hopt] at hheight
        | some o => rw [← hheight, hopt, Option.getD_some]
      -- and a failure of the cross validation must leave the block in the chain
      split at h
      · rename_i inv hinv
        split at h
        · cases h
        · rename_i hle
          refine ⟨⟨heights, height, haccount, hlookup, fun inv' hinv' => ?_⟩, hverdict h⟩
          rw [hinv, Option.some.injEq, CrossValidationResult.invalid.injEq] at hinv'
          exact hinv' ▸ Nat.not_lt.mp hle
      · rename_i hvalid
        exact ⟨⟨heights, height, haccount, hlookup, fun inv hinv => absurd hinv (hvalid inv)⟩, hverdict h⟩

/-- Whatever the servers answer and in whatever order the threads take their steps, a transaction
with the status `Verified` is confirmed, not above the ancestor that is common with a longer chain,
and its verdict is justified. -/
theorem spvRun_verified (hstart : ∀ txid, ¬ start.Claims txid) (events : List SpvEvent) {s : SpvState}
    (hrun : Runs.run (spvStep blocks lib fuel) start events = some s) (account : ℕ) {txid : Txid}
    (h : s.headers.store.spvVerificationStatus account txid = .verified) :
    (∃ heights height, s.headers.store.accounts.lookup account = some heights ∧
      heights.lookup txid = some (some height) ∧
      ∀ inv, s.headers.store.crossValidationResult = some (.invalid inv) →
        height ≤ inv.commonAncestor) ∧
    Justified blocks lib fuel start events s.headers.checker txid := by
  obtain ⟨hconfirmed, hverdict⟩ := status_verified h
  exact ⟨hconfirmed, spvRun_justified hstart events hrun txid (.inl hverdict)⟩

namespace OneBlock

def liquid : LiquidLib Unit Unit where
  blockHash := fun _ => bytes 0
  genesis := bytes 0
  instructions := fun _ => []
  parseKey := fun _ => none
  parseSignature := fun _ => none
  verify := fun _ _ _ => false

/-- The state of a thread with some verdicts. -/
def thread (verdicts : Table Txid SPVVerifyResult) : SpvState :=
  ⟨⟨⟨∅, ∅, verdicts, none⟩, .chain chain, none⟩, none⟩

theorem no_claims (txid : Txid) : ¬ (thread ∅).Claims txid := by
  rintro (h | ⟨round, h, _⟩)
  · simp only [thread, AList.lookup_empty] at h
    cases h
  · cases h

/-- The only transaction of the first block is verified. -/
def verifying : List SpvEvent :=
  [.sync 0 (AList.singleton (bytes 7) (some 0)) [], .readProofs 0, .fetchProof (some ⟨0, []⟩),
    .writeProofs]

end OneBlock

theorem spvRun_verified_oneBlock :
    Justified OneBlock.libs OneBlock.liquid 0 (OneBlock.thread ∅) OneBlock.verifying
      (.chain OneBlock.chain) (OneBlock.bytes 7) :=
  (spvRun_verified OneBlock.no_claims OneBlock.verifying rfl 0 (by decide)).2

/-! ### Verdicts that stand -/

/-- The transaction has the verdict, and the thread is not about to change it. -/
structure SpvState.Stands (s : SpvState) (txid : Txid) (r : SPVVerifyResult) : Prop where
  verdict : s.headers.store.txsVerif.lookup txid = some r
  kept : ∀ round, s.round = some round → txid ∉ round.removeProof ∧
    txid ∉ round.needsProof.map Prod.fst ∧ txid ∉ round.txsVerified

/-- A step after which the verdict does not stand: the headers are invalid, or the transaction is
unconfirmed when the proofs of an account are read. -/
def SpvState.Drops (blocks : BlockLib) (s : SpvState) (txid : Txid) : SpvEvent → Prop
  | .ask answer => s.round = none ∧ s.headers.FindsInvalid blocks answer
  | .readProofs account => s.round = none ∧ ∃ heights,
      s.headers.store.accounts.lookup account = some heights ∧ heights.lookup txid = some none
  | _ => False

theorem mem_removeProof {store : SpvStore} {heights : Table Txid (Option ℕ)} {txid : Txid} :
    txid ∈ store.removeProof heights ↔ heights.lookup txid = some none ∧ txid ∈ store.txsVerif := by
  rw [SpvStore.removeProof, List.mem_filterMap, ← Tables.mem_entries_iff]
  constructor
  · rintro ⟨⟨txid', height⟩, he, h⟩
    split at h
    · rename_i hcond
      cases h
      obtain ⟨rfl, hmem⟩ := hcond
      exact ⟨he, hmem⟩
    · cases h
  · rintro ⟨he, hmem⟩
    exact ⟨_, he, if_pos ⟨rfl, hmem⟩⟩

theorem not_mem_needsProof {store : SpvStore} (heights : Table Txid (Option ℕ)) {txid : Txid}
    (h : txid ∈ store.txsVerif) : txid ∉ (store.needsProof heights).map Prod.fst := by
  rw [List.mem_map]
  rintro ⟨⟨txid', height⟩, hp, rfl⟩
  obtain ⟨⟨_, o⟩, _, hsome⟩ := List.mem_filterMap.mp hp
  obtain ⟨height', _, hsome⟩ := Option.bind_eq_some_iff.mp hsome
  split at hsome
  · cases hsome
  · rename_i hnot
    cases hsome
    exact hnot h

/-- A step keeps a verdict standing if and only if it does not drop it. -/
theorem spvStep_stands_iff {s s' : SpvState} {e : SpvEvent} {txid : Txid} {r : SPVVerifyResult}
    (hs : s.Stands txid r) (h : spvStep blocks lib fuel s e = some s') :
    s'.Stands txid r ↔ ¬ s.Drops blocks txid e := by
  cases e with
  -- invalid headers clear the verdicts
  | ask answer =>
    cases hround : s.round with
    | some round => simp [spvStep, hround] at h
    | none =>
      simp only [spvStep, hround, Option.some.injEq] at h
      subst h
      simp only [SpvState.Drops, hround, true_and]
      rcases s.headers.askRound_cases blocks answer with ⟨hinvalid, hstore⟩ | ⟨hvalid, hstore, _⟩
      · refine iff_of_false (fun hstands => ?_) (not_not.mpr hinvalid)
        have hlookup := hstands.verdict
        simp only [hstore, AList.lookup_empty] at hlookup
        cases hlookup
      · refine iff_of_true ⟨?_, fun round hround' => ?_⟩ hvalid
        · simp only [hstore]
          exact hs.verdict
        · cases hround'
  -- a transaction that is not listed any more will be removed
  | readProofs account =>
    cases hround : s.round with
    | some round => simp [spvStep, hround] at h
    | none =>
      cases haccount : s.headers.store.accounts.lookup account with
      | none => simp [spvStep, hround, haccount] at h
      | some heights =>
        simp only [spvStep, hround, haccount, Option.some.injEq] at h
        subst h
        have hmem := Tables.exists_lookup_iff.mp ⟨r, hs.verdict⟩
        simp only [SpvState.Drops, hround, haccount, true_and, Option.some.injEq, exists_eq_left']
        constructor
        · intro hstands hnone
          exact (hstands.kept _ rfl).1 (mem_removeProof.mpr ⟨hnone, hmem⟩)
        · intro hnot
          refine ⟨hs.verdict, fun round hround' => ?_⟩
          cases hround'
          exact ⟨fun hin => hnot (mem_removeProof.mp hin).1, not_mem_needsProof heights hmem,
            AList.notMem_empty _⟩
  -- a transaction with a verdict is not asked for again
  | fetchProof answer =>
    simp only [spvStep, Option.bind_eq_some_iff, Option.map_eq_some_iff] at h
    obtain ⟨round, hround, round', hfetch, rfl⟩ := h
    refine iff_of_true ⟨hs.verdict, fun _ hround' => ?_⟩ id
    cases hround'
    obtain ⟨hremove, hneeds, hverified⟩ := hs.kept round hround
    simp only [ProofRound.fetch] at hfetch
    split at hfetch
    · cases hfetch
    · rename_i txid' height rest hlist
      split at hfetch
      · cases hfetch
      · rw [Option.some.injEq] at hfetch
        subst hfetch
        rw [hlist, List.map_cons, List.mem_cons, not_or] at hneeds
        exact ⟨hremove, hneeds.2, by simpa [hneeds.1] using hverified⟩
  -- the round removes only what it has read
  | writeProofs =>
    simp only [spvStep] at h
    split at h
    · rename_i removed verified hround
      rw [Option.some.injEq] at h
      subst h
      obtain ⟨hremove, _, hverified⟩ := hs.kept _ hround
      refine iff_of_true ⟨?_, fun _ hround' => by cases hround'⟩ id
      exact SpvStore.lookup_write.mpr ⟨hremove, .inr ⟨hverified, hs.verdict⟩⟩
    · cases h
  -- these leave the verdicts and the round alone
  | crossValidate shuffle remote =>
    simp only [spvStep] at h
    split at h
    · rename_i headers changed hround hvalidate
      rw [Option.some.injEq] at h
      subst h
      obtain ⟨_, hverif, _⟩ := Headers.crossValidate_frame hvalidate
      exact iff_of_true ⟨hverif ▸ hs.verdict, hs.kept⟩ id
    · cases h
  | sync account heights headers =>
    rw [spvStep, Option.some.injEq] at h
    subst h
    exact iff_of_true ⟨hs.verdict, hs.kept⟩ id

/-- A verdict stands in a whole run, and no proof is asked for again, if and only if no step drops
it. -/
theorem spvRun_stands {txid : Txid} {r : SPVVerifyResult} (hstart : start.Stands txid r)
    (events : List SpvEvent) :
    (∀ before after s, events = before ++ after →
        Runs.run (spvStep blocks lib fuel) start before = some s → s.Stands txid r) ↔
      Runs.Meets (spvStep blocks lib fuel) (fun s e => ¬ s.Drops blocks txid e) start events := by
  refine Runs.always_iff_meets hstart (fun s e s' _ hs hstep => spvStep_stands_iff hs hstep) ?_
  intro s e _ hs hnone hdrops
  cases e with
  | ask answer =>
    simp only [SpvState.Drops] at hdrops
    simp [spvStep, hdrops.1] at hnone
  | readProofs account =>
    obtain ⟨hround, heights, haccount, _⟩ := hdrops
    simp [spvStep, hround, haccount] at hnone
  | fetchProof answer => exact hdrops
  | writeProofs => exact hdrops
  | crossValidate shuffle remote => exact hdrops
  | sync account heights headers => exact hdrops

namespace OneBlock

/-- A verdict of the first block's transaction, from when a server did not answer. -/
def judged : SpvState := thread (AList.singleton (bytes 7) .notVerified)

theorem stands : judged.Stands (bytes 7) .notVerified := ⟨by decide, fun round h => by cases h⟩

/-- An account with this transaction and another one. -/
def heights (height : Option ℕ) : Table Txid (Option ℕ) :=
  (AList.singleton (bytes 7) height).insert (bytes 8) (some 0)

/-- The proofs of the account are read, asked for and written. -/
def proving : List SpvEvent :=
  [.sync 0 (heights (some 0)) [], .readProofs 0, .fetchProof (some ⟨0, []⟩), .writeProofs, .ask none]

end OneBlock

/-- The verdict stands when the proof of another transaction is asked for, and does not if the
transaction is unconfirmed then. -/
theorem spvRun_stands_oneBlock :
    (∃ s, Runs.run (spvStep OneBlock.libs OneBlock.liquid 0) OneBlock.judged OneBlock.proving = some s ∧
      s.Stands (OneBlock.bytes 7) .notVerified) ∧
    ¬ ∀ before after s, [.sync 0 (OneBlock.heights none) [], .readProofs 0] = before ++ after →
      Runs.run (spvStep OneBlock.libs OneBlock.liquid 0) OneBlock.judged before = some s →
        s.Stands (OneBlock.bytes 7) .notVerified := by
  constructor
  · have hmeets : Runs.Meets (spvStep OneBlock.libs OneBlock.liquid 0)
        (fun s e => ¬ s.Drops OneBlock.libs (OneBlock.bytes 7) e) OneBlock.judged OneBlock.proving := by
      refine ⟨id, ?_, id, id, ?_, trivial⟩
      · rintro ⟨_, heights, haccount, hnone⟩
        cases haccount
        revert hnone
        decide
      · rintro ⟨_, _, _, _, hanswer, _⟩
        cases hanswer
    exact ⟨_, rfl,
      (spvRun_stands OneBlock.stands OneBlock.proving).mpr hmeets OneBlock.proving [] _ rfl rfl⟩
  · rw [spvRun_stands OneBlock.stands]
    rintro ⟨_, hread, _⟩
    exact hread ⟨rfl, _, rfl, rfl⟩

end Runs

end SideSwap.Gdk
