import SideSwap.Gdk.EndlessFork
import Mathlib.Data.List.MinMax

/-!
# Rounds of cross-validation

What the validator keeps as its result:

* `validate_iff`: no server can make a round panic, and it ends unless a server that is asked keeps
  its loop going; its result is then the first of those with the *least* difference of work, unless
  the chain is just one block behind in that;
* `validateRun_outworked`: in every run, a failure that is kept was true of the chain in some round,
  and since then the chain has not gained as much work.
-/

namespace SideSwap.Gdk

open Libwally Call

/-- One round: the chain, the order of the servers and what they answer. -/
structure Round where
  chain : HeadersChain
  shuffle : List ElectrumUrl → List ElectrumUrl
  remote : ElectrumUrl → RemoteServer

/-! ### Two forks of a chain of one block -/

namespace TwoForks

def bytes (b : UInt8) : Bytes32 := .replicate b

def first : Header := ⟨1, bytes 0, bytes 7, 0, 1, 0⟩

/-- The block of a fork with this number, after another one. -/
def block (parent number : UInt8) : Header := ⟨1, bytes parent, bytes 7, 600, 1, number.toNat⟩

/-- Each block has its number as its hash, and any work is enough. -/
def libs : BlockLib where
  blockHash := fun h =>
    if h = first then bytes 0
    else if UInt8.ofNat h.nonce = 0 then bytes 6
    else bytes (UInt8.ofNat h.nonce)
  target := fun _ => 1000
  validatePow := fun _ => true
  compactTarget := fun _ => 1
  work := fun _ => 1
  genesis := first
  maxTarget := 1000
  checkpoints := fun _ => none
  sha256d := fun _ => bytes 12

def chain : HeadersChain := ⟨[first], 0, first⟩

theorem aligned : chain.Aligned libs := ⟨rfl, rfl, .genesis⟩

/-- A server with some blocks after the first one. -/
def serverOf (blocks : List Header) : RemoteServer where
  tip := blocks.getLast?.map fun x => (x, blocks.length)
  blockHeader := fun h => (first :: blocks)[h]?
  blockHeaders := fun start count => some (((first :: blocks).drop start).take count)

def short : ElectrumUrl := .plaintext "short"

def long : ElectrumUrl := .plaintext "long"

/-- Two servers with forks of two blocks and of three. -/
def remote (url : ElectrumUrl) : RemoteServer :=
  if url = short then serverOf [block 0 1, block 1 2]
  else if url = long then serverOf [block 0 3, block 3 4, block 4 5]
  else ⟨none, fun _ => none, fun _ _ => none⟩

def round : Round := ⟨chain, id, remote⟩

/-- No server answers. -/
def silent : Round := ⟨chain, id, fun _ => ⟨none, fun _ => none, fun _ _ => none⟩⟩

/-- The failure of the shorter fork. -/
def failure : CrossValidationInvalid := ⟨0, 0, 2, 2, 2, short⟩

end TwoForks

variable {lib : BlockLib} {chain : HeadersChain}

/-! ### One round -/

/-- The failure in a result. -/
def CrossValidationResult.toInvalid : CrossValidationResult → Option CrossValidationInvalid
  | .valid => none
  | .invalid inv => some inv

/-- The first of the failures with the least difference of work. -/
def leastFailure (results : List CrossValidationResult) : Option CrossValidationInvalid :=
  (results.filterMap CrossValidationResult.toInvalid).argmin CrossValidationInvalid.workDiff

/-- What is merged is the first failure with the least difference of work. -/
theorem foldl_merge (start : CrossValidationResult) (results : List CrossValidationResult) :
    (results.foldl CrossValidationResult.merge start).toInvalid = leastFailure (start :: results) := by
  -- from the last result
  induction results using List.reverseRecOn with
  | nil => cases start <;> rfl
  | append_singleton results r ih =>
    rw [List.foldl_append, List.foldl_cons, List.foldl_nil]
    cases r with
    -- a valid one changes nothing
    | valid =>
      have hsame : leastFailure (start :: (results ++ [.valid])) = leastFailure (start :: results) := by
        rw [leastFailure, ← List.cons_append, List.filterMap_append]
        simp only [List.filterMap_cons, CrossValidationResult.toInvalid, List.filterMap_nil,
          List.append_nil]
        rfl
      rw [hsame, ← ih]
      cases results.foldl CrossValidationResult.merge start <;> rfl
    -- a failure takes the place of a greater one
    | invalid b =>
      have hconcat : leastFailure (start :: (results ++ [.invalid b])) =
          Option.casesOn (leastFailure (start :: results)) (some b) fun a =>
            if b.workDiff < a.workDiff then some b else some a := by
        rw [leastFailure, ← List.cons_append, List.filterMap_append]
        exact List.argmin_concat _ _ _
      rw [hconcat, ← ih]
      cases hcurr : results.foldl CrossValidationResult.merge start with
      | valid => rfl
      | invalid a =>
        by_cases hlt : b.workDiff < a.workDiff
        · simp only [CrossValidationResult.merge, CrossValidationResult.toInvalid, if_pos hlt]
        · simp only [CrossValidationResult.merge, CrossValidationResult.toInvalid, if_neg hlt]

/-- A failure by one block. -/
def CrossValidationInvalid.OneBehind (inv : CrossValidationInvalid) : Prop :=
  inv.commonAncestor = inv.ourHeight ∧ inv.ourHeight + 1 = inv.longestHeight

theorem grace_eq_invalid {r : CrossValidationResult} {inv : CrossValidationInvalid} :
    r.grace = .invalid inv ↔ r.toInvalid = some inv ∧ ¬ inv.OneBehind := by
  cases r with
  | valid =>
    refine iff_of_false (fun h => by cases h) ?_
    rintro ⟨h, _⟩
    cases h
  | invalid a =>
    rw [CrossValidationResult.grace]
    split
    · rename_i hbehind
      refine iff_of_false (fun h => by cases h) ?_
      rintro ⟨h, hnot⟩
      cases h
      exact hnot hbehind
    · rename_i hnot
      constructor
      · intro h
        cases h
        exact ⟨rfl, hnot⟩
      · rintro ⟨h, _⟩
        cases h
        rfl

/-- What a round starts with: a failure is forgotten if the chain has gained as much work since. -/
def SpvCrossValidator.kept (lib : BlockLib) (v : SpvCrossValidator) (chain : HeadersChain) :
    CrossValidationResult :=
  match v.lastResult with
  | .valid => .valid
  | .invalid inv => if inv.workDiff ≤ ourWork lib chain inv.ourHeight then .valid else .invalid inv

/-- What the servers of a round report, but for those that fail. -/
def SpvCrossValidator.reports (lib : BlockLib) (fuel : ℕ) (v : SpvCrossValidator) (round : Round) :
    List CrossValidationResult :=
  (v.roundServers round.shuffle).filterMap fun url =>
    (spvCrossValidate lib fuel round.chain url (round.remote url)).toOption

/-- A round as one call. -/
def SpvCrossValidator.step (lib : BlockLib) (fuel : ℕ) (v : SpvCrossValidator) (round : Round) :
    Call Unending SpvCrossValidator := v.validate lib fuel round.chain round.shuffle round.remote

theorem startResult_eq (ha : chain.Aligned lib) (v : SpvCrossValidator) :
    v.startResult lib chain = .ok (v.kept lib chain) := by
  unfold SpvCrossValidator.startResult SpvCrossValidator.kept
  cases v.lastResult with
  | valid => rfl
  | invalid inv =>
    have hresolved : inv.isResolved lib chain =
        .ok (decide (inv.workDiff ≤ ourWork lib chain inv.ourHeight)) := by
      rw [CrossValidationInvalid.isResolved, bind_of_ok (workSince_eq ha _)]
      rfl
    simp only [bind_of_ok hresolved, decide_eq_true_eq]
    rfl

/-- The results are merged, unless a server keeps its loop going. -/
theorem mergeResults_eq (ha : chain.Aligned lib) {fuel : ℕ} (hfuel : maxForkDepth < fuel)
    (remote : ElectrumUrl → RemoteServer) (urls : List ElectrumUrl) (curr : CrossValidationResult) :
    ((∃ url ∈ urls, Endless lib chain (remote url)) →
      mergeResults lib fuel chain remote curr urls = .error (.error .unending)) ∧
    ((∀ url ∈ urls, ¬ Endless lib chain (remote url)) →
      mergeResults lib fuel chain remote curr urls = .ok ((urls.filterMap fun url =>
        (spvCrossValidate lib fuel chain url (remote url)).toOption).foldl
          CrossValidationResult.merge curr)) := by
  induction urls generalizing curr with
  | nil => exact ⟨fun h => by simp at h, fun _ => rfl⟩
  | cons url urls ih =>
    have hiff : spvCrossValidate lib fuel chain url (remote url) = .error (.error .unending) ↔
        Endless lib chain (remote url) := spvCrossValidate_unending_iff ha hfuel
    have hsafe : ∀ f, spvCrossValidate lib fuel chain url (remote url) = .error f → f ≠ .panic :=
      fun f hf => (spvCrossValidate_fails ha f hf).1
    rw [mergeResults, List.filterMap_cons]
    simp only [List.exists_mem_cons_iff, List.forall_mem_cons, ← hiff]
    cases hresult : spvCrossValidate lib fuel chain url (remote url) with
    | ok result =>
      simp only [reduceCtorEq, false_or, not_false_eq_true, true_and]
      exact ih _
    | error f =>
      cases f with
      | panic => exact absurd rfl (hsafe _ hresult)
      | error e =>
        cases e
        case unending => exact ⟨fun _ => rfl, fun h => absurd rfl h.1⟩
        -- every other error is skipped
        all_goals
          simp only [Except.error.injEq, Failure.error.injEq, reduceCtorEq, false_or, not_false_eq_true,
            true_and]
          exact ih _

/-- A round ends, unless a server that it asks keeps its loop going. -/
theorem step_eq {round : Round} (ha : round.chain.Aligned lib) {fuel : ℕ} (hfuel : maxForkDepth < fuel)
    (v : SpvCrossValidator) :
    ((∃ url ∈ v.roundServers round.shuffle, Endless lib round.chain (round.remote url)) →
      v.step lib fuel round = .error (.error .unending)) ∧
    ((∀ url ∈ v.roundServers round.shuffle, ¬ Endless lib round.chain (round.remote url)) →
      v.step lib fuel round = .ok { v with
        lastResult := ((v.reports lib fuel round).foldl CrossValidationResult.merge
          (v.kept lib round.chain)).grace }) := by
  obtain ⟨hend, hok⟩ := mergeResults_eq ha hfuel round.remote (v.roundServers round.shuffle)
    (v.kept lib round.chain)
  rw [SpvCrossValidator.step, SpvCrossValidator.validate, bind_of_ok (startResult_eq ha v)]
  refine ⟨fun h => bind_of_error (hend h), fun h => ?_⟩
  rw [bind_of_ok (hok h)]
  rfl

/-- The failure that is kept after a round that ends. -/
theorem step_spec {round : Round} (ha : round.chain.Aligned lib) {fuel : ℕ} (hfuel : maxForkDepth < fuel)
    {v v' : SpvCrossValidator} (h : v.step lib fuel round = .ok v') :
    v'.servers = v.servers ∧ ∀ inv, v'.lastResult = .invalid inv ↔
      leastFailure (v.kept lib round.chain :: v.reports lib fuel round) = some inv ∧ ¬ inv.OneBehind := by
  obtain ⟨hend, hok⟩ := step_eq ha hfuel v
  have hall : ∀ url ∈ v.roundServers round.shuffle, ¬ Endless lib round.chain (round.remote url) := by
    intro url hurl hendless
    rw [hend ⟨url, hurl, hendless⟩] at h
    cases h
  rw [hok hall, Except.ok.injEq] at h
  subst h
  refine ⟨rfl, fun inv => ?_⟩
  rw [grace_eq_invalid, foldl_merge]

/-- The rounds of a validator. -/
def validateRun (lib : BlockLib) (fuel : ℕ) (v : SpvCrossValidator) (rounds : List Round) :
    Call Unending SpvCrossValidator := rounds.foldlM (SpvCrossValidator.step lib fuel) v

theorem kept_eq_invalid {v : SpvCrossValidator} {inv : CrossValidationInvalid}
    (h : v.kept lib chain = .invalid inv) :
    v.lastResult = .invalid inv ∧ ourWork lib chain inv.ourHeight < inv.workDiff := by
  unfold SpvCrossValidator.kept at h
  split at h
  · cases h
  · rename_i inv' hlast
    split at h
    · cases h
    · rename_i hnot
      cases h
      exact ⟨hlast, Nat.not_le.mp hnot⟩

theorem leastFailure_mem {results : List CrossValidationResult} {inv : CrossValidationInvalid}
    (h : leastFailure results = some inv) : .invalid inv ∈ results := by
  obtain ⟨r, hr, hinv⟩ := List.mem_filterMap.mp (List.argmin_mem h)
  cases r with
  | valid => cases hinv
  | invalid a =>
    cases hinv
    exact hr

/-- Whatever the servers answer, no round panics, and it does not end only for a server that keeps
its loop going.  A failure that is kept is one by more than a block that was found in one of the
rounds, where it was true of the chain; and in no round since then has the chain gained as much
work. -/
theorem validateRun_outworked (rounds : List Round)
    (ha : ∀ round ∈ rounds, round.chain.Aligned lib ∧ Unforged lib round.chain) {fuel : ℕ}
    (hfuel : maxForkDepth < fuel) (servers : List ElectrumUrl) :
    (∀ f, validateRun lib fuel ⟨servers, .valid⟩ rounds = .error f → f = .error .unending ∧
      ∃ round ∈ rounds, ∃ url, Endless lib round.chain (round.remote url)) ∧
    ∀ v, validateRun lib fuel ⟨servers, .valid⟩ rounds = .ok v → v.servers = servers ∧
      ∀ inv, v.lastResult = .invalid inv → ¬ inv.OneBehind ∧ ∃ before round after,
        rounds = before ++ round :: after ∧ (∃ seen, Outworked lib round.chain inv seen) ∧
        ∀ later ∈ after, ourWork lib later.chain inv.ourHeight < inv.workDiff := by
  -- from the last round
  induction rounds using List.reverseRecOn with
  | nil =>
    refine ⟨fun f hf => (by cases hf), fun v hv => ?_⟩
    cases hv
    exact ⟨rfl, fun inv h => by cases h⟩
  | append_singleton rounds round ih =>
    obtain ⟨hfails, hholds⟩ := ih fun r hr => ha r (List.mem_append_left _ hr)
    obtain ⟨haligned, hunforged⟩ := ha round (by simp)
    -- the last round follows on the others
    have hsplit : validateRun lib fuel ⟨servers, .valid⟩ (rounds ++ [round]) =
        validateRun lib fuel ⟨servers, .valid⟩ rounds >>= fun v => v.step lib fuel round := by
      rw [validateRun, List.foldlM_append, ← validateRun]
      simp only [List.foldlM_cons, List.foldlM_nil, bind_pure]
    rw [hsplit]
    constructor
    · -- the rounds end without a result only if a server leads the last one or an earlier one on
      -- forever
      intro f hf
      rcases bind_eq_error.mp hf with hf | ⟨v, _, hf⟩
      · obtain ⟨rfl, r, hr, hendless⟩ := hfails f hf
        exact ⟨rfl, r, List.mem_append_left _ hr, hendless⟩
      · obtain ⟨hend, hok⟩ := step_eq haligned hfuel v
        by_cases hendless : ∃ url ∈ v.roundServers round.shuffle,
            Endless lib round.chain (round.remote url)
        · rw [hend hendless] at hf
          cases hf
          obtain ⟨url, _, hurl⟩ := hendless
          exact ⟨rfl, round, by simp, url, hurl⟩
        · push Not at hendless
          rw [hok hendless] at hf
          cases hf
    · -- the failure is kept from before, or it is one that a server of this round has reported
      intro v' h
      obtain ⟨v, hrun, hstep⟩ := bind_eq_ok.mp h
      obtain ⟨hservers, hv⟩ := hholds v hrun
      obtain ⟨hservers', hv'⟩ := step_spec haligned hfuel hstep
      refine ⟨hservers'.trans hservers, fun inv hinv => ?_⟩
      obtain ⟨hleast, hnot⟩ := (hv' inv).mp hinv
      refine ⟨hnot, ?_⟩
      rcases List.mem_cons.mp (leastFailure_mem hleast) with hkept | hreport
      · -- it still stands after the work that has been added
        obtain ⟨hlast, hless⟩ := kept_eq_invalid hkept.symm
        obtain ⟨_, before, first, after, rfl, hfound, hlater⟩ := hv inv hlast
        refine ⟨before, first, after ++ [round], by simp, hfound, fun later hmem => ?_⟩
        rcases List.mem_append.mp hmem with hmem | hmem
        · exact hlater later hmem
        · rw [List.mem_singleton.mp hmem]
          exact hless
      · -- it is new, and the server's headers outwork the chain now
        obtain ⟨url, _, hok⟩ := List.mem_filterMap.mp hreport
        cases hresult : spvCrossValidate lib fuel round.chain url (round.remote url) with
        | error f =>
          rw [hresult] at hok
          cases hok
        | ok r =>
          rw [hresult] at hok
          cases hok
          obtain ⟨_, hfound⟩ := spvCrossValidate_sound haligned hunforged hresult
          exact ⟨rounds, round, [], rfl, hfound, fun later h => by cases h⟩

theorem TwoForks.unforged : Unforged TwoForks.libs TwoForks.chain := by
  intro own hown x hhash
  rw [List.mem_singleton.mp hown] at hhash ⊢
  by_contra hne
  simp only [libs, if_true, if_neg (Ne.symm hne)] at hhash
  split at hhash
  · revert hhash
    decide
  · rename_i hnonzero
    exact hnonzero (Option.some.inj (congrArg (fun hash => hash.bytes.head?) hhash)).symm

/-- The failure of a round is kept in the next one, in which no server answers. -/
theorem validateRun_outworked_twoForks : ∃ v,
    validateRun TwoForks.libs 7000 ⟨[TwoForks.long, TwoForks.short], .valid⟩
      [TwoForks.round, TwoForks.silent] = .ok v ∧ v.lastResult = .invalid TwoForks.failure ∧
    ∃ before round after, [TwoForks.round, TwoForks.silent] = before ++ round :: after ∧
      (∃ seen, Outworked TwoForks.libs round.chain TwoForks.failure seen) ∧
      ∀ later ∈ after, ourWork TwoForks.libs later.chain TwoForks.failure.ourHeight < 2 := by
  have hrun : validateRun TwoForks.libs 7000 ⟨[TwoForks.long, TwoForks.short], .valid⟩
      [TwoForks.round, TwoForks.silent] =
      .ok ⟨[TwoForks.long, TwoForks.short], .invalid TwoForks.failure⟩ := by decide +kernel
  obtain ⟨_, hkept⟩ := (validateRun_outworked [TwoForks.round, TwoForks.silent]
    (fun round hround => by
      rcases List.mem_pair.mp hround with rfl | rfl
      · exact ⟨TwoForks.aligned, TwoForks.unforged⟩
      · exact ⟨TwoForks.aligned, TwoForks.unforged⟩) (by decide : maxForkDepth < 7000)
    [TwoForks.long, TwoForks.short]).2 _ hrun
  exact ⟨_, hrun, rfl, (hkept _ rfl).2⟩

end SideSwap.Gdk
