import SideSwap.Gdk.ForkBranch
import Mathlib.Algebra.Order.BigOperators.Group.List

/-!
# Which chain has more work

What `spv_cross_validate` finds out about the chain of headers from another server:

* `getForkBranch_validChain`: of a server with a valid chain of its own, the branch is accepted if
  and only if it is not too long, its targets are sensible, and each adjustment of the difficulty
  after a whole period of the branch is the same from the second block of the period as from the
  first;
* `spvCrossValidate_sound`: whatever a server answers, if the chain is found to be a minority fork,
  then there is a valid fork of it with more work;
* `spvCrossValidate_honest`: for a server with a chain of its own, the result says which of the two
  chains has more work.
-/

namespace SideSwap.Gdk

open Libwally Call

/-! ### A server with one block more -/

namespace OneBlock

def server : RemoteServer where
  tip := some (next, 1)
  blockHeader := fun h => [first, next][h]?
  blockHeaders := fun start count => some (([first, next].drop start).take count)

def url : ElectrumUrl := .plaintext "localhost"

theorem other (i : ℕ) (x : Header) (_ : [next][i]? = some x) : ¬ Common libs chain (0 + 1 + i) x := by
  rintro ⟨own, hown, _⟩
  have := (List.getElem?_eq_some_iff.mp hown).1
  simp only [chain, List.length_singleton] at this
  omega

end OneBlock

variable {lib : BlockLib} {chain : HeadersChain} {server : RemoteServer}

/-! ### Work -/

/-- The sum that the source computes, modulo `2 ^ 256`. -/
def workOf (lib : BlockLib) (headers : List Header) : ℕ := (headers.map lib.work).sum % 2 ^ 256

theorem foldl_addWork (lib : BlockLib) (headers : List Header) (total : ℕ) :
    headers.foldl (fun total header => addWork total (lib.work header)) (total % 2 ^ 256) =
      (total + (headers.map lib.work).sum) % 2 ^ 256 := by
  induction headers generalizing total with
  | nil => rfl
  | cons x headers ih =>
    rw [List.foldl_cons, addWork, Nat.mod_add_mod, ih, List.map_cons, List.sum_cons, Nat.add_assoc]

theorem forall₂_range' (l : List Header) (start n : ℕ) (hlength : l.length = start + n) :
    List.Forall₂ (fun h x => l[h]? = some x) (List.range' start n) (l.drop start) := by
  induction n generalizing start with
  | zero =>
    rw [List.drop_of_length_le (by omega)]
    exact .nil
  | succ n ih =>
    rw [List.range'_succ, List.drop_eq_getElem_cons (by omega : start < l.length)]
    exact .cons (List.getElem?_eq_getElem _) (ih (start + 1) (by omega))

/-- The work of the chain above a height; no header is missing. -/
theorem workSince_eq {ε : Type} (ha : chain.Aligned lib) (height : ℕ) :
    workSince (ε := ε) lib chain height = .ok (workOf lib (chain.file.drop (height + 1))) := by
  have hlength := ha.height_eq
  have hmapM : (List.range' (height + 1) (chain.height - height)).mapM
      (fun h => unwrap (ε := ε) chain.file[h]?) = .ok (chain.file.drop (height + 1)) := by
    rw [mapM_eq_ok_iff]
    simp only [unwrap_eq_ok]
    by_cases hlt : height < chain.height
    · exact forall₂_range' _ _ _ (by omega)
    · rw [Nat.sub_eq_zero_of_le (by omega), List.drop_of_length_le (by omega)]
      exact .nil
  rw [workSince, bind_of_ok hmapM]
  have hfold := foldl_addWork lib (chain.file.drop (height + 1)) 0
  rw [Nat.zero_mod, Nat.zero_add] at hfold
  rw [hfold]
  rfl

/-! ### Forks -/

/-- The threshold for the targets of a branch. -/
def sensibleTargetThreshold (lib : BlockLib) (chain : HeadersChain) : ℕ :=
  lib.target chain.last * 4 % 2 ^ 256

/-- Headers that may follow the chain above a height, and are not those of the chain. -/
structure Fork (lib : BlockLib) (chain : HeadersChain) (height : ℕ) (seen : List Header) : Prop where
  ancestor : height < chain.file.length
  other : ∀ i x, seen[i]? = some x → ¬ Common lib chain (height + 1 + i) x
  depth : seen.length ≤ maxForkDepth
  valid : ValidFork lib (sensibleTargetThreshold lib chain) height (forkAt chain height seen)

/-- No other header has the hash of one of the chain. -/
def Unforged (lib : BlockLib) (chain : HeadersChain) : Prop :=
  ∀ own ∈ chain.file, ∀ x, lib.blockHash own = lib.blockHash x → own = x

/-- The loops of `get_fork_branch`, for the given server. -/
def forkInput (lib : BlockLib) (chain : HeadersChain) (tipHeight : ℕ) (known : Option ℕ) : ForkInput :=
  ⟨chain, tipHeight, known.getD 0, sensibleTargetThreshold lib chain⟩

theorem getForkBranch_eq_ok {fuel tipHeight : ℕ} {known : Option ℕ} {fork : ForkBranch} :
    getForkBranch lib fuel chain server tipHeight known = .ok fork ↔ ∃ s,
      scanFork lib (forkInput lib chain tipHeight known) server fuel initChunkSize
        ⟨(tipHeight + 1) % 2 ^ 32, 0, none, none⟩ = .ok s ∧ (∀ k, known = some k → k = s.currHeight) ∧
      checkPending lib chain s.currRetarget = .ok () ∧
      fork = ⟨tipHeight, s.currHeight, s.totalForkWork⟩ := by
  have hknown : ∀ height : ℕ, (known.all fun expected => decide (expected = height)) = true ↔
      ∀ k, known = some k → k = height := by
    intro height
    cases known <;> simp
  simp only [getForkBranch, bind_eq_ok, ensure_eq_ok, hknown, pure_eq_ok]
  constructor
  · rintro ⟨s, hs, _, hk, _, hpending, rfl⟩
    exact ⟨s, hs, hk, hpending, rfl⟩
  · rintro ⟨s, hs, hk, hpending, rfl⟩
    exact ⟨s, hs, (), hk, (), hpending, rfl⟩

/-- Where the loops end, there is a fork if the last check goes well, and only then. -/
theorem reaches_iff_fork {tipHeight : ℕ} {known : Option ℕ} {s : ForkScan} {seen : List Header}
    {ancestor : Header}
    (h : s.Reaches lib (forkInput lib chain tipHeight known) seen ancestor)
    (hlookup : chain.file[s.currHeight]? = some ancestor) :
    checkPending lib chain s.currRetarget = .ok () ↔ Fork lib chain s.currHeight seen := by
  have hlt := (List.getElem?_eq_some_iff.mp hlookup).1
  rw [checkPending_eq_ok hlt h.pending]
  have hiff := branch_iff_validFork lib (forkInput lib chain tipHeight known) hlookup rfl h.height
  constructor
  · intro hpending
    obtain ⟨hvalid, hdepth, _, hother⟩ := hiff.mp ⟨h.branch, h.linked, hpending⟩
    exact ⟨hlt, hother, hdepth, hvalid⟩
  · intro hfork
    refine (hiff.mpr ⟨hfork.valid, hfork.depth, fun hne => ?_, hfork.other⟩).2.2
    obtain ⟨x, rest, rfl⟩ := List.exists_cons_of_ne_nil hne
    have := (h.branch.passes (i := 0) rfl).limit
    omega

/-- Whatever a server answers, the branch is one of a fork of the chain. -/
theorem getForkBranch_sound (ha : chain.Aligned lib) (hu : Unforged lib chain) {fuel tipHeight : ℕ}
    {known : Option ℕ} {fork : ForkBranch} (htip : tipHeight < 2 ^ 32)
    (hknown : known.getD 0 ≤ tipHeight)
    (h : getForkBranch lib fuel chain server tipHeight known = .ok fork) :
    (∀ k, known = some k → k = fork.commonAncestor) ∧ ∃ seen,
      Fork lib chain fork.commonAncestor seen ∧ fork.commonAncestor + seen.length = tipHeight ∧
      fork = ⟨tipHeight, fork.commonAncestor, workOf lib seen⟩ := by
  obtain ⟨s, hs, hcommon, hpending, rfl⟩ := getForkBranch_eq_ok.mp h
  have hstart := ForkScan.tracks_start lib (forkInput lib chain tipHeight known) htip
  obtain ⟨seen, ancestor, hreaches, _⟩ :=
    scanFork_ok ha hstart (branch_nil _) (Nat.lt_succ_of_le hknown) hs
  obtain ⟨own, hown, hhash⟩ := hreaches.common
  obtain rfl := hu own (List.mem_of_getElem? hown) ancestor hhash
  refine ⟨hcommon, seen, (reaches_iff_fork hreaches hown).mp hpending, hreaches.height, ?_⟩
  rw [workOf, ← hreaches.work]

/-! ### A server with a chain of its own -/

section Remote

variable {height : ℕ} {seen : List Header}

theorem length_forkAt (seen : List Header) (hlt : height < chain.file.length) :
    (forkAt chain height seen).length = height + seen.length + 1 := by
  rw [forkAt, List.length_append, List.length_take]
  omega

theorem drop_forkAt (seen : List Header) (hlt : height < chain.file.length) :
    (forkAt chain height seen).drop (height + 1) = seen := by
  have hlength : (chain.file.take (height + 1)).length = height + 1 := by
    rw [List.length_take]
    omega
  exact List.drop_left' hlength

/-- The branch of a server with a chain of its own is accepted if and only if it is a fork. -/
theorem getForkBranch_iff_fork (ha : chain.Aligned lib) (hlt : height < chain.file.length)
    (hother : ∀ i x, seen[i]? = some x → ¬ Common lib chain (height + 1 + i) x)
    (hserver : server.Serves (forkAt chain height seen)) (known : Option ℕ)
    (hknown : ∀ k, known = some k → k = height) (htip : height + seen.length + 1 < 2 ^ 32) {fuel : ℕ}
    (hfuel : seen.length < fuel) (fork : ForkBranch) :
    getForkBranch lib fuel chain server (height + seen.length) known = .ok fork ↔
      Fork lib chain height seen ∧ fork = ⟨height + seen.length, height, workOf lib seen⟩ := by
  obtain ⟨own, hown⟩ : ∃ own, chain.file[height]? = some own := ⟨_, List.getElem?_eq_getElem hlt⟩
  have hlength := length_forkAt seen hlt
  have hdrop := drop_forkAt seen hlt
  have hstart := ForkScan.tracks_start lib (forkInput lib chain (height + seen.length) known)
    (show height + seen.length < 2 ^ 32 by omega)
  have hcommon : Common lib chain height own := ⟨own, hown, rfl⟩
  have hnil : (forkAt chain height seen).drop (height + seen.length + 1) = [] :=
    List.drop_of_length_le (by omega)
  have hlimit : (forkInput lib chain (height + seen.length) known).heightLimit ≤ height := by
    cases known with
    | none => exact Nat.zero_le _
    | some k => exact Nat.le_of_eq (hknown k rfl)
  rw [getForkBranch_eq_ok]
  constructor
  · -- a branch that is found is the fork
    rintro ⟨s, hs, _, hpending, rfl⟩
    have hbelowTop : (forkInput lib chain (height + seen.length) known).heightLimit <
        height + seen.length + 1 := by omega
    obtain ⟨seen', ancestor, hreaches, hremote⟩ := scanFork_ok ha hstart (branch_nil _) hbelowTop hs
    obtain ⟨hlookup, hseen⟩ := hremote _ hserver (Nat.le_of_eq hlength.symm) hnil.symm
    -- the block at which the loop ends is not above the common one, because it is common
    have hbelow : s.currHeight ≤ height := by
      by_contra hgt
      obtain ⟨i, hi⟩ := Nat.exists_eq_add_of_lt (Nat.lt_of_not_le hgt)
      rw [hi, Nat.add_right_comm, forkAt_above hlt] at hlookup
      refine hother i ancestor hlookup ?_
      rw [Nat.add_right_comm, ← hi]
      exact hreaches.common
    -- nor is it below, because the common block would have ended the loop
    have habove : ¬ s.currHeight < height := by
      intro hgt
      obtain ⟨i, hi⟩ := Nat.exists_eq_add_of_lt hgt
      rw [Nat.add_right_comm] at hi
      have hx : seen'[i]? = some own := by
        rw [hseen, List.getElem?_drop, ← hi, forkAt_below hlt (Nat.le_refl _)]
        exact hown
      refine (hreaches.branch.passes hx).other ?_
      rw [← hi]
      exact hcommon
    have hcurr : s.currHeight = height := Nat.le_antisymm hbelow (Nat.not_lt.mp habove)
    rw [hcurr] at hlookup hseen
    rw [forkAt_below hlt (Nat.le_refl _)] at hlookup
    rw [hdrop] at hseen
    -- the branch is what the server has above the common block
    subst hseen
    have hfork := (reaches_iff_fork hreaches (hcurr ▸ hlookup)).mp hpending
    rw [hcurr] at hfork
    exact ⟨hfork, by rw [hcurr, hreaches.work, workOf]⟩
  · -- the fork is found: every header of it passes
    rintro ⟨hfork, rfl⟩
    obtain ⟨hb, hlinked, _⟩ := (branch_iff_validFork lib
      (forkInput lib chain (height + seen.length) known) hown rfl rfl).mpr
      ⟨hfork.valid, hfork.depth, fun _ => hlimit, hfork.other⟩
    -- the server's chain is a branch of the form that the loop follows
    have hremote : RemoteBranch lib (forkInput lib chain (height + seen.length) known)
        (forkAt chain height seen) height own := by
      refine ⟨hlength, ?_, hcommon, fun c hc => hlinked c ?_, by rwa [hdrop]⟩
      · rw [forkAt_below hlt (Nat.le_refl _)]
        exact hown
      · rw [← List.head?_drop, hdrop] at hc
        exact hc
    obtain ⟨s, hs, hcurr, hreaches⟩ := scanFork_remote ha hserver hremote hlimit (hnil.symm ▸ hstart)
      (Nat.le_of_eq hlength.symm) htip (Nat.lt_succ_of_le (Nat.le_add_right _ _))
      (by decide : 2 ≤ initChunkSize) (show height + seen.length + 1 ≤ height + fuel by omega)
    rw [hdrop] at hreaches
    refine ⟨s, hs, fun k hk => (hknown k hk).trans hcurr.symm, ?_, ?_⟩
    · exact (reaches_iff_fork hreaches (hcurr ▸ hown)).mpr (hcurr ▸ hfork)
    · rw [hcurr, hreaches.work, workOf]

/-- What a header of a valid chain is checked for. -/
theorem ValidChain.follows {whole : List Header} (h : ValidChain lib whole) {n : ℕ} {parent x : Header}
    (hparent : whole[n]? = some parent) (hx : whole[n + 1]? = some x) :
    Follows lib (whole.take (n + 1)) parent x := by
  have hlast : (whole.take (n + 1)).getLast? = some parent := by
    rw [List.take_add_one, hparent]
    exact List.getLast?_concat
  have hvalid := h.take (Nat.succ_pos (n + 1))
  rw [List.take_add_one, hx] at hvalid
  exact ((ValidChain.snoc_iff hlast).mp hvalid).2

/-- The blocks that the difficulty is adjusted from, and the one that is taken for the first one. -/
structure Adjusts (height : ℕ) (whole : List Header) (h : ℕ) (first second last : Header) : Prop where
  adjusts : h % diffchangeInterval = 0
  inFork : height + diffchangeInterval ≤ h
  lt : h < whole.length
  first : whole[h - diffchangeInterval]? = some first
  second : whole[h - (diffchangeInterval - 1)]? = some second
  last : whole[h - 1]? = some last

/-- For a fork that is a part of a valid chain, the targets and the adjustments after whole periods
are left to be checked. -/
theorem validFork_iff {threshold : ℕ} (hlt : height < chain.file.length)
    (hvalid : ValidChain lib (forkAt chain height seen)) :
    ValidFork lib threshold height (forkAt chain height seen) ↔
      (∀ x ∈ seen, lib.target x < threshold) ∧
      ∀ h first second last, Adjusts height (forkAt chain height seen) h first second last →
        lib.compactTarget (calcDifficultyRetarget lib second last) =
          lib.compactTarget (calcDifficultyRetarget lib first last) := by
  have hlength := length_forkAt seen hlt
  have hwhole : ∀ h, h < (forkAt chain height seen).length →
      ∃ x, (forkAt chain height seen)[h]? = some x := fun h hh => ⟨_, List.getElem?_eq_getElem hh⟩
  -- the adjustment of a valid chain
  have hadjust : ∀ {n parent x}, (forkAt chain height seen)[n]? = some parent →
      (forkAt chain height seen)[n + 1]? = some x → (n + 1) % diffchangeInterval = 0 →
      ∃ first, (forkAt chain height seen)[n + 1 - diffchangeInterval]? = some first ∧
        x.bits = lib.compactTarget (calcDifficultyRetarget lib first parent) := by
    intro n parent x hparent hx hzero
    have hlt' := (List.getElem?_eq_some_iff.mp hx).1
    have hbits := (hvalid.follows hparent hx).bits
    rw [List.length_take, Nat.min_eq_left (by omega), if_pos hzero] at hbits
    obtain ⟨first, hfirst, hbits⟩ := hbits
    rw [List.getElem?_take_of_lt (by simp only [diffchangeInterval]; omega)] at hfirst
    exact ⟨first, hfirst, hbits⟩
  constructor
  · intro hfork
    refine ⟨fun x hx => ?_, fun h first second last hadj => ?_⟩
    · obtain ⟨i, hi⟩ := List.mem_iff_getElem?.mp hx
      have hilt := (List.getElem?_eq_some_iff.mp hi).1
      rw [← forkAt_above hlt, Nat.add_right_comm] at hi
      obtain ⟨parent, hparent⟩ := hwhole (height + i) (by omega)
      exact (hfork _ parent x (Nat.le_add_right _ _) hparent hi).target
    · obtain ⟨n, rfl⟩ := Nat.exists_eq_succ_of_ne_zero (show h ≠ 0 by
        have := hadj.inFork
        simp only [diffchangeInterval] at this
        omega)
      obtain ⟨x, hx⟩ := hwhole (n + 1) hadj.lt
      have hlast : (forkAt chain height seen)[n]? = some last := hadj.last
      have hinFork := hadj.inFork
      simp only [diffchangeInterval] at hinFork
      obtain ⟨second', hsecond, hretarget⟩ :=
        (hfork n last x (by omega) hlast hx).retargets hadj.adjusts
      rw [periodFirst, if_pos (by simp only [diffchangeInterval]; omega), hadj.second,
        Option.some.injEq] at hsecond
      obtain ⟨first', hfirst, hbits⟩ := hadjust hlast hx hadj.adjusts
      rw [hadj.first, Option.some.injEq] at hfirst
      rw [hsecond, hfirst, ← hbits]
      exact hretarget.symm
  · rintro ⟨htarget, hagree⟩ n parent x hn hparent hx
    have hfollows := hvalid.follows hparent hx
    have hnlt := (List.getElem?_eq_some_iff.mp hx).1
    have htake : ((forkAt chain height seen).take (n + 1)).length = n + 1 := by
      rw [List.length_take]
      omega
    refine ⟨hfollows.prev.symm, ?_, hfollows.pow, htarget x ?_⟩
    · split
      · rename_i hzero
        obtain ⟨first, hfirst, hbits⟩ := hadjust hparent hx hzero
        rw [periodFirst]
        split
        · rename_i hwholePeriod
          obtain ⟨second, hsecond⟩ := hwhole (n + 1 - (diffchangeInterval - 1)) (by omega)
          refine ⟨second, hsecond, hbits.trans (hagree (n + 1) first second parent ?_).symm⟩
          exact ⟨hzero, by simp only [diffchangeInterval] at hwholePeriod ⊢; omega, hnlt, hfirst, hsecond,
            hparent⟩
        · exact ⟨first, hfirst, hbits⟩
      · rename_i hzero
        have hbits := hfollows.bits
        rwa [htake, if_neg hzero] at hbits
    · obtain ⟨i, rfl⟩ := Nat.exists_eq_add_of_le hn
      rw [Nat.add_right_comm, forkAt_above hlt] at hx
      exact List.mem_of_getElem? hx

/-- Of a server with a valid chain of its own, the branch is accepted if and only if it is not too
long, its targets are sensible, and each adjustment of the difficulty after a whole period of the
branch is the same from the second block of the period as from the first. -/
theorem getForkBranch_validChain (height : ℕ) (seen : List Header) (ha : chain.Aligned lib)
    (hlt : height < chain.file.length)
    (hother : ∀ i x, seen[i]? = some x → ¬ Common lib chain (height + 1 + i) x)
    (hserver : server.Serves (forkAt chain height seen))
    (hvalid : ValidChain lib (forkAt chain height seen)) (htip : height + seen.length + 1 < 2 ^ 32)
    {fuel : ℕ} (hfuel : seen.length < fuel) (fork : ForkBranch) :
    getForkBranch lib fuel chain server (height + seen.length) none = .ok fork ↔
      seen.length ≤ maxForkDepth ∧ (∀ x ∈ seen, lib.target x < sensibleTargetThreshold lib chain) ∧
      (∀ h first second last, Adjusts height (forkAt chain height seen) h first second last →
        lib.compactTarget (calcDifficultyRetarget lib second last) =
          lib.compactTarget (calcDifficultyRetarget lib first last)) ∧
      fork = ⟨height + seen.length, height, workOf lib seen⟩ := by
  rw [getForkBranch_iff_fork ha hlt hother hserver none (fun _ h => by cases h) htip hfuel]
  constructor
  · rintro ⟨hfork, rfl⟩
    obtain ⟨htarget, hagree⟩ := (validFork_iff hlt hvalid).mp hfork.valid
    exact ⟨hfork.depth, htarget, hagree, rfl⟩
  · rintro ⟨hdepth, htarget, hagree, rfl⟩
    exact ⟨⟨hlt, hother, hdepth, (validFork_iff hlt hvalid).mpr ⟨htarget, hagree⟩⟩, rfl⟩

theorem getForkBranch_validChain_oneBlock :
    getForkBranch OneBlock.libs 2 OneBlock.chain OneBlock.server 1 none = .ok ⟨1, 0, 1⟩ := by
  refine (getForkBranch_validChain 0 [OneBlock.next] OneBlock.aligned (by decide)
    OneBlock.other (fun _ _ _ => rfl) OneBlock.valid (by decide) (by decide) _).mpr
    ⟨by decide, fun x hx => ?_, fun h first second last hadj => ?_, rfl⟩
  · rw [List.mem_singleton.mp hx]
    decide
  · have hle : 0 + diffchangeInterval ≤ h := hadj.inFork
    have hlt : h < 2 := hadj.lt
    simp only [diffchangeInterval] at hle
    omega

end Remote

/-! ### The result of a server -/

section Result

variable {url : ElectrumUrl} {fuel : ℕ}

/-- The work of the chain above the common ancestor. -/
def ourWork (lib : BlockLib) (chain : HeadersChain) (height : ℕ) : ℕ :=
  workOf lib (chain.file.drop (height + 1))

/-- What a branch is reported as, if it has more work. -/
def invalidOf (lib : BlockLib) (chain : HeadersChain) (url : ElectrumUrl) (fork : ForkBranch) :
    CrossValidationInvalid where
  ourHeight := chain.height
  commonAncestor := fork.commonAncestor
  longestHeight := fork.tipHeight
  longestWork := fork.totalForkWork
  workDiff := fork.totalForkWork - ourWork lib chain fork.commonAncestor
  originServer := url

theorem compareFork_eq (ha : chain.Aligned lib) (fork : ForkBranch) :
    compareFork lib chain url fork = .ok (if fork.totalForkWork ≤ ourWork lib chain fork.commonAncestor
      then .valid else .invalid (invalidOf lib chain url fork)) := by
  rw [compareFork, bind_of_ok (workSince_eq ha _)]
  split
  · rename_i hle
    exact congrArg _ (if_pos hle).symm
  · rename_i hle
    exact congrArg _ (if_neg hle).symm

/-- The tip of the chain has no work above it. -/
theorem ourWork_tip (ha : chain.Aligned lib) : ourWork lib chain chain.height = 0 := by
  rw [ourWork, List.drop_of_length_le (Nat.le_of_eq ha.height_eq.symm)]
  rfl

theorem HeadersChain.Aligned.tip (ha : chain.Aligned lib) :
    chain.file[chain.height]? = some chain.last := by
  rw [← ha.last_eq, List.getLast?_eq_getElem?, ← ha.height_eq]
  rfl

/-- The last header of the chain is the server's at the same height. -/
def Ahead (lib : BlockLib) (chain : HeadersChain) (server : RemoteServer) (tipHeight : ℕ) : Prop :=
  chain.height < tipHeight ∧ ∃ header, server.blockHeader chain.height = some header ∧
    lib.blockHash header = lib.blockHash chain.last

/-- The server's header at the height of the chain is another one, if it has one. -/
def Aside (lib : BlockLib) (chain : HeadersChain) (server : RemoteServer) (tipHeight : ℕ) : Prop :=
  chain.height < tipHeight → ∃ header, server.blockHeader chain.height = some header ∧
    lib.blockHash header ≠ lib.blockHash chain.last

theorem localLags_eq_ok {tipHeight : ℕ} {ahead : Bool} :
    localLags lib chain server tipHeight = .ok ahead ↔
      (Ahead lib chain server tipHeight ∧ ahead = true) ∨
        (Aside lib chain server tipHeight ∧ ahead = false) := by
  rw [localLags]
  split
  · rename_i hlt
    simp only [bind_eq_ok, okOr_eq_ok, pure_eq_ok]
    constructor
    · -- the server has a header at the own height, which is the own tip or another one
      rintro ⟨header, hheader, rfl⟩
      by_cases hsame : lib.blockHash header = lib.blockHash chain.last
      · exact .inl ⟨⟨hlt, header, hheader, hsame⟩, decide_eq_true hsame⟩
      · exact .inr ⟨fun _ => ⟨header, hheader, hsame⟩, decide_eq_false hsame⟩
    · rintro (⟨⟨_, header, hheader, hsame⟩, rfl⟩ | ⟨haside, rfl⟩)
      · exact ⟨header, hheader, decide_eq_true hsame⟩
      · obtain ⟨header, hheader, hother⟩ := haside hlt
        exact ⟨header, hheader, decide_eq_false hother⟩
  · -- the own chain is at least as high
    rename_i hle
    rw [pure_eq_ok]
    constructor
    · rintro rfl
      exact .inr ⟨fun hlt => absurd hlt hle, rfl⟩
    · rintro (⟨hahead, _⟩ | ⟨_, rfl⟩)
      · exact absurd hahead.1 hle
      · rfl

/-- A tip that is one of the chain needs no comparison. -/
theorem spvCrossValidate_common (ha : chain.Aligned lib) {tip : Header} {height : ℕ}
    (hserver : server.tip = some (tip, height)) (hc : Common lib chain (height % 2 ^ 32) tip) :
    spvCrossValidate lib fuel chain url server = .ok .valid := by
  have htipOk : okOr server.tip CrossValidationError.electrumError = .ok (tip, height) :=
    okOr_eq_ok.mpr hserver
  obtain ⟨common, hcommon, hiff⟩ := isCommon_ok ha (height % 2 ^ 32) tip
  have htip := ha.tip
  rw [spvCrossValidate, bind_of_ok htipOk]
  simp only
  split
  · rfl
  · rename_i hne
    have hlt : height % 2 ^ 32 < chain.height := by
      obtain ⟨own, hown, hhash⟩ := hc
      have hlength := ha.height_eq
      have := (List.getElem?_eq_some_iff.mp hown).1
      refine Nat.lt_of_le_of_ne (by omega) fun heq => hne ⟨heq, ?_⟩
      rw [heq, htip, Option.some.injEq] at hown
      rw [← hhash, hown]
    have hlags : remoteLags lib chain tip (height % 2 ^ 32) = .ok true := by
      rw [remoteLags, if_pos hlt, hcommon, hiff.mpr hc]
    rw [bind_of_ok hlags, if_pos rfl]
    rfl

/-- A branch of a server is compared, the one from the tip of the chain or the one from the ancestor
that is found. -/
def judgeFork (lib : BlockLib) (fuel : ℕ) (chain : HeadersChain) (url : ElectrumUrl)
    (server : RemoteServer) (tipHeight : ℕ) (ahead : Bool) :
    Call CrossValidationError CrossValidationResult :=
  if ahead then do
    let fork ← getForkBranch lib fuel chain server tipHeight (some chain.height)
    return .invalid ⟨chain.height, fork.commonAncestor, fork.tipHeight, fork.totalForkWork,
      fork.totalForkWork, url⟩
  else getForkBranch lib fuel chain server tipHeight none >>= compareFork lib chain url

/-- With another tip, the server's branch is compared. -/
theorem spvCrossValidate_other (ha : chain.Aligned lib) {tip : Header} {height : ℕ}
    (hserver : server.tip = some (tip, height)) (hc : ¬ Common lib chain (height % 2 ^ 32) tip) :
    spvCrossValidate lib fuel chain url server =
      localLags lib chain server (height % 2 ^ 32) >>=
        judgeFork lib fuel chain url server (height % 2 ^ 32) := by
  have htipOk : okOr server.tip CrossValidationError.electrumError = .ok (tip, height) :=
    okOr_eq_ok.mpr hserver
  obtain ⟨common, hcommon, hiff⟩ := isCommon_ok ha (height % 2 ^ 32) tip
  have hne : ¬ (height % 2 ^ 32 = chain.height ∧ lib.blockHash tip = lib.blockHash chain.last) := by
    rintro ⟨heq, hhash⟩
    exact hc ⟨chain.last, heq ▸ ha.tip, hhash.symm⟩
  have hlags : remoteLags lib chain tip (height % 2 ^ 32) = .ok false := by
    rw [remoteLags]
    split
    · rw [hcommon, Except.ok.injEq, ← Bool.not_eq_true, hiff]
      exact hc
    · rfl
  rw [spvCrossValidate, bind_of_ok htipOk]
  simp only
  rw [if_neg hne, bind_of_ok hlags, if_neg Bool.false_ne_true]
  rfl

/-- What is done with the answers of a server. -/
theorem spvCrossValidate_eq_ok (ha : chain.Aligned lib) {tip : Header} {height : ℕ}
    (hserver : server.tip = some (tip, height)) {result : CrossValidationResult} :
    spvCrossValidate lib fuel chain url server = .ok result ↔
      (Common lib chain (height % 2 ^ 32) tip ∧ result = .valid) ∨
      (¬ Common lib chain (height % 2 ^ 32) tip ∧
        ((Ahead lib chain server (height % 2 ^ 32) ∧ ∃ fork,
            getForkBranch lib fuel chain server (height % 2 ^ 32) (some chain.height) = .ok fork ∧
            result = .invalid ⟨chain.height, fork.commonAncestor, fork.tipHeight, fork.totalForkWork,
              fork.totalForkWork, url⟩) ∨
          (Aside lib chain server (height % 2 ^ 32) ∧ ∃ fork,
            getForkBranch lib fuel chain server (height % 2 ^ 32) none = .ok fork ∧
            result = if fork.totalForkWork ≤ ourWork lib chain fork.commonAncestor
              then .valid else .invalid (invalidOf lib chain url fork)))) := by
  by_cases hc : Common lib chain (height % 2 ^ 32) tip
  · -- the tip is in the chain
    rw [spvCrossValidate_common ha hserver hc]
    simp only [hc, true_and, not_true, false_and, or_false, Except.ok.injEq, eq_comm]
  · -- it is not: the server is ahead, or it is on a fork
    rw [spvCrossValidate_other ha hserver hc, bind_eq_ok]
    simp only [hc, false_and, false_or, not_false_eq_true, true_and, localLags_eq_ok]
    constructor
    · rintro ⟨ahead, ⟨hahead, rfl⟩ | ⟨haside, rfl⟩, h⟩
      · simp only [judgeFork, if_true, bind_eq_ok, pure_eq_ok] at h
        obtain ⟨fork, hfork, rfl⟩ := h
        exact .inl ⟨hahead, fork, hfork, rfl⟩
      · simp only [judgeFork, Bool.false_eq_true, if_false, bind_eq_ok, compareFork_eq ha,
          Except.ok.injEq] at h
        obtain ⟨fork, hfork, rfl⟩ := h
        exact .inr ⟨haside, fork, hfork, rfl⟩
    · rintro (⟨hahead, fork, hfork, rfl⟩ | ⟨haside, fork, hfork, rfl⟩)
      · refine ⟨true, .inl ⟨hahead, rfl⟩, ?_⟩
        rw [judgeFork, if_pos rfl, bind_of_ok hfork]
        rfl
      · refine ⟨false, .inr ⟨haside, rfl⟩, ?_⟩
        rw [judgeFork, if_neg Bool.false_ne_true, bind_of_ok hfork, compareFork_eq ha]

/-- There is a fork of the chain with more work, or one that continues it. -/
structure Outworked (lib : BlockLib) (chain : HeadersChain) (inv : CrossValidationInvalid)
    (seen : List Header) : Prop where
  fork : Fork lib chain inv.commonAncestor seen
  nonempty : seen ≠ []
  more : inv.commonAncestor < chain.height →
    ourWork lib chain inv.commonAncestor < workOf lib seen
  ourHeight : inv.ourHeight = chain.height
  longestHeight : inv.longestHeight = inv.commonAncestor + seen.length
  longestWork : inv.longestWork = workOf lib seen
  workDiff : inv.workDiff = workOf lib seen - ourWork lib chain inv.commonAncestor

/-- Whatever a server answers, if the chain is found to be a minority fork, then it is one. -/
theorem spvCrossValidate_sound (ha : chain.Aligned lib) (hu : Unforged lib chain)
    {inv : CrossValidationInvalid} (h : spvCrossValidate lib fuel chain url server = .ok (.invalid inv)) :
    inv.originServer = url ∧ ∃ seen, Outworked lib chain inv seen := by
  -- the server has a tip, or there would be no result
  obtain ⟨⟨tip, height⟩, hserver⟩ : ∃ r, server.tip = some r := by
    simp only [spvCrossValidate, bind_eq_ok, okOr_eq_ok] at h
    obtain ⟨r, hr, _⟩ := h
    exact ⟨r, hr⟩
  have hrange : height % 2 ^ 32 < 2 ^ 32 := Nat.mod_lt _ (by decide)
  obtain ⟨_, hvalid⟩ | ⟨_, ⟨hahead, fork, hfork, hinv⟩ | ⟨_, fork, hfork, hinv⟩⟩ :=
    (spvCrossValidate_eq_ok ha hserver).mp h
  · cases hvalid
  · -- the fork begins at the own tip
    obtain ⟨hknown, seen, hseen, hheight, hbranch⟩ :=
      getForkBranch_sound ha hu hrange (show (some chain.height).getD 0 ≤ _ from hahead.1.le) hfork
    have hcommon := hknown chain.height rfl
    have hwork := congrArg ForkBranch.totalForkWork hbranch
    have htip := congrArg ForkBranch.tipHeight hbranch
    simp only at hwork htip
    cases hinv
    refine ⟨rfl, seen, hseen, ?_, fun hlt => ?_, rfl, htip.trans hheight.symm, hwork, ?_⟩
    · rintro rfl
      have := hahead.1
      rw [List.length_nil] at hheight
      omega
    · simp only at hlt
      omega
    · simp only
      rw [hwork, ← hcommon, ourWork_tip ha, Nat.sub_zero]
  · -- the fork begins below it, and has more work
    obtain ⟨_, seen, hseen, hheight, hbranch⟩ :=
      getForkBranch_sound ha hu hrange (Nat.zero_le _) hfork
    have hwork := congrArg ForkBranch.totalForkWork hbranch
    have htip := congrArg ForkBranch.tipHeight hbranch
    simp only at hwork htip
    split at hinv
    · cases hinv
    · rename_i hless
      cases hinv
      rw [hwork, Nat.not_le] at hless
      refine ⟨rfl, seen, hseen, ?_, fun _ => hless, rfl, htip.trans hheight.symm, hwork, ?_⟩
      · rintro rfl
        exact Nat.not_lt_zero _ hless
      · rw [← hwork]
        rfl

/-! ### A server with a chain of its own -/

/-- The server answers with the headers of a chain, the last of which is its tip. -/
structure RemoteServer.Honest (server : RemoteServer) (remote : List Header) : Prop where
  serves : server.Serves remote
  tip : ∀ x, remote.getLast? = some x → server.tip = some (x, remote.length - 1)
  blockHeader : ∀ h x, remote[h]? = some x → server.blockHeader h = some x

/-- Of two chains, with other headers above a height, the one with more work. -/
def judge (lib : BlockLib) (chain : HeadersChain) (url : ElectrumUrl) (height : ℕ) (seen : List Header) :
    CrossValidationResult :=
  let ours := ((chain.file.drop (height + 1)).map lib.work).sum
  let theirs := (seen.map lib.work).sum
  if theirs ≤ ours then .valid
  else .invalid ⟨chain.height, height, height + seen.length, theirs, theirs - ours, url⟩

/-- The last header of the chain is the server's if and only if nothing of the chain is above the
common ancestor. -/
theorem honest_ahead {height : ℕ} {seen : List Header} (ha : chain.Aligned lib)
    (hlt : height < chain.file.length)
    (hother : ∀ i x, seen[i]? = some x → ¬ Common lib chain (height + 1 + i) x)
    (hserver : server.Honest (forkAt chain height seen)) (hne : seen ≠ []) :
    (Ahead lib chain server (height + seen.length) ↔ height = chain.height) ∧
      (Aside lib chain server (height + seen.length) ↔ height ≠ chain.height) := by
  have hlength := length_forkAt seen hlt
  have hheight := ha.height_eq
  have hpos := List.length_pos_of_ne_nil hne
  -- the common block is the own tip
  by_cases heq : height = chain.height
  · subst heq
    have hheader := hserver.blockHeader chain.height chain.last (by
      rw [forkAt_below hlt (Nat.le_refl _)]
      exact ha.tip)
    refine ⟨iff_of_true ⟨by omega, _, hheader, rfl⟩ rfl, iff_of_false (fun haside => ?_) (not_not.mpr rfl)⟩
    obtain ⟨header, hheader', hdiff⟩ := haside (by omega)
    rw [hheader, Option.some.injEq] at hheader'
    exact hdiff (congrArg lib.blockHash hheader'.symm)
  · -- the server's header at that height is not the chain's
    have hdiff : chain.height < height + seen.length → ∃ header,
        server.blockHeader chain.height = some header ∧
        lib.blockHash header ≠ lib.blockHash chain.last := by
      intro hgt
      obtain ⟨i, hi⟩ := Nat.exists_eq_add_of_le (show height + 1 ≤ chain.height by omega)
      obtain ⟨x, hx⟩ : ∃ x, seen[i]? = some x :=
        ⟨_, List.getElem?_eq_getElem (show i < seen.length by omega)⟩
      refine ⟨x, hserver.blockHeader _ _ (by rw [hi, forkAt_above hlt, hx]), fun hsame => ?_⟩
      exact hother i x hx (hi ▸ ⟨chain.last, ha.tip, hsame.symm⟩)
    refine ⟨iff_of_false ?_ heq, iff_of_true hdiff heq⟩
    rintro ⟨hgt, header, hheader, hsame⟩
    obtain ⟨header', hheader', hdiff'⟩ := hdiff hgt
    rw [hheader, Option.some.injEq] at hheader'
    exact hdiff' (hheader' ▸ hsame)

theorem judge_nil {height : ℕ} : judge lib chain url height [] = .valid := by
  rw [judge, List.map_nil, List.sum_nil]
  exact if_pos (Nat.zero_le _)

/-- Of a server with a chain of its own, the result is found if and only if its branch is a fork,
and says which chain has more work. -/
theorem spvCrossValidate_honest (height : ℕ) (seen : List Header) (ha : chain.Aligned lib)
    (hlt : height < chain.file.length)
    (hother : ∀ i x, seen[i]? = some x → ¬ Common lib chain (height + 1 + i) x)
    (hserver : server.Honest (forkAt chain height seen)) (htip : height + seen.length + 1 < 2 ^ 32)
    (hwork : ∀ x ∈ seen, 0 < lib.work x) (htheirs : (seen.map lib.work).sum < 2 ^ 256)
    (hours : ((chain.file.drop (height + 1)).map lib.work).sum < 2 ^ 256)
    (hfuel : seen.length < fuel) (result : CrossValidationResult) :
    spvCrossValidate lib fuel chain url server = .ok result ↔
      Fork lib chain height seen ∧ result = judge lib chain url height seen := by
  have hlength := length_forkAt seen hlt
  have hheight := ha.height_eq
  obtain ⟨own, hown⟩ : ∃ own, chain.file[height]? = some own := ⟨_, List.getElem?_eq_getElem hlt⟩
  have hremote : (forkAt chain height seen)[height]? = some own := by
    rw [forkAt_below hlt (Nat.le_refl _)]
    exact hown
  have hoursEq : ourWork lib chain height = ((chain.file.drop (height + 1)).map lib.work).sum :=
    Nat.mod_eq_of_lt hours
  have htheirsEq : workOf lib seen = (seen.map lib.work).sum := Nat.mod_eq_of_lt htheirs
  have hknown := fun known hk => getForkBranch_iff_fork ha hlt hother hserver.serves known hk
    htip hfuel
  by_cases hnil : seen = []
  · subst hnil
    have hservertip := hserver.tip own (by
      rw [List.getLast?_eq_getElem?, hlength]
      exact hremote)
    rw [hlength, List.length_nil, Nat.add_zero, Nat.add_sub_cancel] at hservertip
    have hfork : Fork lib chain height [] := by
      refine ⟨hlt, by simp, Nat.zero_le _, fun h parent x hh _ hx => ?_⟩
      have := (List.getElem?_eq_some_iff.mp hx).1
      rw [hlength, List.length_nil] at this
      omega
    have hcommon : Common lib chain height own := ⟨own, hown, rfl⟩
    rw [judge_nil, spvCrossValidate_eq_ok ha hservertip, Nat.mod_eq_of_lt (show height < 2 ^ 32 by omega)]
    simp only [hcommon, hfork, true_and, not_true, false_and, or_false]
  · have hpos := List.length_pos_of_ne_nil hnil
    have hindex : height + 1 + (seen.length - 1) = height + seen.length := by omega
    obtain ⟨tip, htipOf⟩ : ∃ tip, seen[seen.length - 1]? = some tip :=
      ⟨_, List.getElem?_eq_getElem (show seen.length - 1 < seen.length by omega)⟩
    have hservertip := hserver.tip tip (by
      rw [List.getLast?_eq_getElem?, hlength, Nat.add_sub_cancel, ← hindex, forkAt_above hlt, htipOf])
    rw [hlength, Nat.add_sub_cancel] at hservertip
    have hdiff : ¬ Common lib chain (height + seen.length) tip := hindex ▸ hother _ tip htipOf
    obtain ⟨hahead, haside⟩ := honest_ahead ha hlt hother hserver hnil
    have hpositive : 0 < (seen.map lib.work).sum := by
      have hmem := List.mem_of_getElem? htipOf
      have hle := List.le_sum_of_mem (List.mem_map_of_mem (f := lib.work) hmem)
      exact Nat.lt_of_lt_of_le (hwork tip hmem) hle
    rw [spvCrossValidate_eq_ok ha hservertip,
      Nat.mod_eq_of_lt (show height + seen.length < 2 ^ 32 by omega)]
    simp only [hdiff, false_and, false_or, not_false_eq_true, true_and, hahead, haside]
    by_cases heq : height = chain.height
    · subst heq
      have hzero := ourWork_tip ha
      rw [hoursEq] at hzero
      simp only [hknown (some chain.height) (fun k hk => (Option.some.inj hk).symm), true_and, ne_eq,
        not_true, false_and, or_false, and_assoc, exists_and_left, exists_eq_left, judge, hzero, htheirsEq,
        Nat.le_zero, Nat.sub_zero, Nat.ne_of_gt hpositive, if_false]
    · simp only [hknown none (fun k hk => by cases hk), heq, false_and, false_or, ne_eq, not_false_eq_true,
        true_and, and_assoc, exists_and_left, exists_eq_left, judge, invalidOf, hoursEq, htheirsEq]

theorem OneBlock.honest : OneBlock.server.Honest (forkAt OneBlock.chain 0 [OneBlock.next]) where
  serves := fun _ _ _ => rfl
  tip := fun x hx => by
    cases hx
    rfl
  blockHeader := fun _ _ hx => hx

theorem OneBlock.fork : Fork OneBlock.libs OneBlock.chain 0 [OneBlock.next] := by
  refine ⟨by decide, other, by decide, fun h parent x _ hparent hx => ?_⟩
  have hlt : h + 1 < 2 := (List.getElem?_eq_some_iff.mp hx).1
  obtain rfl : h = 0 := by omega
  cases hparent
  cases hx
  exact ⟨rfl, rfl, rfl, by decide⟩

theorem spvCrossValidate_honest_oneBlock :
    spvCrossValidate OneBlock.libs 2 OneBlock.chain OneBlock.url OneBlock.server =
      .ok (.invalid ⟨0, 0, 1, 1, 1, OneBlock.url⟩) :=
  (spvCrossValidate_honest 0 [OneBlock.next] OneBlock.aligned (by decide) OneBlock.other OneBlock.honest
    (by decide) (fun _ _ => Nat.one_pos) (by decide) (by decide) (by decide) _).mpr ⟨OneBlock.fork, rfl⟩

end Result

end SideSwap.Gdk
