import SideSwap.Gdk.CrossValidation
import SideSwap.Gdk.HeaderChain

/-!
# The branch of another server

What the loops of `get_fork_branch` accept.  They go backwards, so a retarget block is verified only
when the first block of its period is reached, or at the end.  `Branch` says what holds of the
headers seen so far, `Tracks` how the state of the loops describes them, and a round keeps both if
and only if it accepts its header (`header_iff`).
-/

namespace SideSwap.Gdk

open Libwally Call

variable {lib : BlockLib} {chain : HeadersChain} {input : ForkInput}

/-! ### One header -/

/-- A header is one of the chain. -/
def Common (lib : BlockLib) (chain : HeadersChain) (height : ℕ) (x : Header) : Prop :=
  ∃ own, chain.file[height]? = some own ∧ lib.blockHash own = lib.blockHash x

theorem isCommon_ok (h : chain.Aligned lib) (height : ℕ) (x : Header) :
    ∃ b, isCommon lib chain height x = .ok b ∧ (b = true ↔ Common lib chain height x) := by
  have hlength := h.height_eq
  by_cases hle : height ≤ chain.height
  · obtain ⟨own, hown⟩ : ∃ own, chain.file[height]? = some own :=
      ⟨_, List.getElem?_eq_getElem (show height < chain.file.length by omega)⟩
    refine ⟨_, ?_, decide_eq_true_iff.trans ⟨fun heq => ⟨_, hown, heq⟩, ?_⟩⟩
    · rw [isCommon, if_pos hle, HeadersChain.get, hown]
      rfl
    · rintro ⟨own', hown', heq⟩
      rw [hown, Option.some.injEq] at hown'
      rwa [hown']
  · refine ⟨false, by rw [isCommon, if_neg hle]; rfl, iff_of_false (by simp) ?_⟩
    rintro ⟨own, hown, _⟩
    obtain ⟨hlt, _⟩ := List.getElem?_eq_some_iff.mp hown
    omega

/-- What is checked of a header and the one after it. -/
structure Linked (lib : BlockLib) (height : ℕ) (parent x : Header) : Prop where
  prev : x.prevBlockhash = lib.blockHash parent
  bits : height % diffchangeInterval ≠ 0 → x.bits = parent.bits

theorem checkChild_eq_ok {height : ℕ} {x : Header} {child : Option Header} {u : Unit} :
    checkChild lib height x child = .ok u ↔ ∀ c, child = some c → Linked lib (height + 1) x c := by
  cases child with
  | none => exact iff_of_true rfl fun c h => by cases h
  | some c =>
    have hlast : height % diffchangeInterval = diffchangeInterval - 1 ↔
        (height + 1) % diffchangeInterval = 0 := by
      simp only [diffchangeInterval]
      omega
    simp only [checkChild, bind_eq_ok, ensure_eq_ok, decide_eq_true_eq, Bool.or_eq_true, hlast,
      Option.some.injEq]
    constructor
    · rintro ⟨_, hprev, hbits⟩ _ rfl
      exact ⟨hprev, fun hne => hbits.resolve_left hne⟩
    · intro h
      have hc := h c rfl
      exact ⟨(), hc.prev, or_iff_not_imp_left.mpr hc.bits⟩

/-- What is checked of a header by itself. -/
structure Plausible (lib : BlockLib) (input : ForkInput) (height : ℕ) (x : Header) : Prop where
  other : ¬ Common lib input.chain height x
  depth : input.tipHeight - height < maxForkDepth
  limit : input.heightLimit < height
  pow : lib.validatePow x = true
  target : lib.target x < input.threshold

/-- A retarget block, the block before it, and the block that is taken for the first of its
period. -/
def Retargets (lib : BlockLib) (first last x : Header) : Prop :=
  x.bits = lib.compactTarget (calcDifficultyRetarget lib first last)

theorem verifyRetarget_eq_ok {x first last : Header} {u : Unit} :
    verifyRetarget lib x first last = .ok u ↔ Retargets lib first last x := by
  rw [verifyRetarget, ensure_eq_ok, decide_eq_true_eq]
  rfl

/-- The headers seen so far, from a height on to the tip. -/
structure Branch (lib : BlockLib) (input : ForkInput) (height : ℕ) (seen : List Header) : Prop where
  passes : ∀ {i x}, seen[i]? = some x → Plausible lib input (height + i) x
  linked : ∀ {i p x}, seen[i]? = some p → seen[i + 1]? = some x → Linked lib (height + i + 1) p x
  retarget : ∀ {i first p x}, (height + i + 2015) % diffchangeInterval = 0 → seen[i]? = some first →
    seen[i + 2014]? = some p → seen[i + 2015]? = some x → Retargets lib first p x

/-- The retarget block that is pending: the one of the headers whose period is not seen as a
whole. -/
def Pending (height : ℕ) (seen : List Header) (r : Retarget) : Prop :=
  ∃ i < 2015, seen[i]? = some r.block ∧ (height + i) % diffchangeInterval = 0 ∧
    r.height = height + i ∧ r.periodLast = if i = 0 then none else seen[i - 1]?

/-- The state of the loops describes the headers seen so far, which start at the height `top`.  Only
above a tip of the largest height, with nothing seen yet, is this not `currHeight` itself. -/
structure ForkScan.Tracks (lib : BlockLib) (input : ForkInput) (s : ForkScan) (top : ℕ)
    (seen : List Header) : Prop where
  curr : s.currHeight = top % 2 ^ 32
  tip : input.tipHeight < 2 ^ 32
  height : top + seen.length = input.tipHeight + 1
  last : s.lastHeader = seen.head?
  work : s.totalForkWork = (seen.map lib.work).sum % 2 ^ 256
  pending : ∀ r, s.currRetarget = some r ↔ Pending top seen r

/-- The retarget block that a header completes the period of. -/
def Completes (lib : BlockLib) (height : ℕ) (x : Header) (seen : List Header) : Prop :=
  ∀ p y, (height + 2015) % diffchangeInterval = 0 → seen[2013]? = some p → seen[2014]? = some y →
    Retargets lib x p y

theorem branch_nil (height : ℕ) : Branch lib input height [] where
  passes := by simp
  linked := by simp
  retarget := by simp

theorem branch_cons {height : ℕ} {x : Header} {seen : List Header} :
    Branch lib input height (x :: seen) ↔ Branch lib input (height + 1) seen ∧
      Plausible lib input height x ∧ (∀ c, seen.head? = some c → Linked lib (height + 1) x c) ∧
      Completes lib height x seen := by
  -- the places of the longer list are those of the shorter one, moved by one
  have hsucc : ∀ i, height + (i + 1) = height + 1 + i := fun i => by omega
  have hcons : ∀ i, (x :: seen)[i + 1]? = seen[i]? := fun i => List.getElem?_cons_succ
  constructor
  · -- the longer branch restricted
    intro h
    refine ⟨⟨fun {i y} hy => ?_, fun {i p y} hp hy => ?_, fun {i first p y} hi hfirst hp hy => ?_⟩,
      h.passes (i := 0) rfl, fun c hc => ?_, fun p y hheight hp hy => ?_⟩
    · exact hsucc i ▸ h.passes (i := i + 1) hy
    · exact hsucc i ▸ h.linked (i := i + 1) hp hy
    · rw [← hsucc i] at hi
      exact h.retarget (i := i + 1) hi hfirst hp hy
    · refine h.linked (i := 0) rfl ?_
      rw [List.getElem?_cons_succ, ← List.head?_eq_getElem?]
      exact hc
    · have hp' : (x :: seen)[0 + 2014]? = some p := (hcons 2013).trans hp
      have hy' : (x :: seen)[0 + 2015]? = some y := (hcons 2014).trans hy
      exact h.retarget (i := 0) (by rw [Nat.add_zero]; exact hheight) rfl hp' hy'
  · -- the shorter branch with one block more below it
    rintro ⟨h, hx, hchild, hcompletes⟩
    refine ⟨fun {i y} hy => ?_, fun {i p y} hp hy => ?_, fun {i first p y} hi hfirst hp hy => ?_⟩
    · cases i with
      | zero =>
        cases hy
        exact hx
      | succ i => exact hsucc i ▸ h.passes hy
    · cases i with
      | zero =>
        cases hp
        refine hchild y ?_
        rw [List.head?_eq_getElem?]
        exact hy
      | succ i => exact hsucc i ▸ h.linked hp hy
    · cases i with
      | zero =>
        cases hfirst
        rw [Nat.zero_add] at hp hy
        rw [Nat.add_zero] at hi
        exact hcompletes p y hi ((hcons 2013).symm.trans hp) ((hcons 2014).symm.trans hy)
      | succ i =>
        rw [hsucc i] at hi
        exact h.retarget hi hfirst hp hy

theorem Retarget.eq_of {seen : List Header} {i : ℕ} {r r' : Retarget} (hheight : r.height = r'.height)
    (hblock : seen[i]? = some r.block) (hblock' : seen[i]? = some r'.block)
    (hlast : r.periodLast = r'.periodLast) : r = r' := by
  have hsame : r.block = r'.block := Option.some.inj (hblock.symm.trans hblock')
  cases r
  cases r'
  rw [Retarget.mk.injEq]
  exact ⟨hheight, hsame, hlast⟩

theorem Pending.unique {height : ℕ} {seen : List Header} {r r' : Retarget} (h : Pending height seen r)
    (h' : Pending height seen r') : r = r' := by
  obtain ⟨i, hi, hblock, hmod, hheight, hlast⟩ := h
  obtain ⟨i', hi', hblock', hmod', hheight', hlast'⟩ := h'
  simp only [diffchangeInterval] at hmod hmod'
  obtain rfl : i = i' := by omega
  exact Retarget.eq_of (hheight.trans hheight'.symm) hblock hblock' (hlast.trans hlast'.symm)

/-- The pending retarget block, where a header does not start a period. -/
theorem pending_cons {height : ℕ} (hheight : height % diffchangeInterval ≠ 0) {x : Header}
    {seen : List Header} {r : Retarget} : Pending height (x :: seen) r ↔ ∃ i < 2014,
      seen[i]? = some r.block ∧ (height + 1 + i) % diffchangeInterval = 0 ∧ r.height = height + 1 + i ∧
        r.periodLast = (x :: seen)[i]? := by
  constructor
  · rintro ⟨i, hi, hblock, hmod, hr, hlast⟩
    cases i with
    | zero => exact absurd hmod hheight
    | succ i =>
      refine ⟨i, by omega, hblock, ?_, by omega, ?_⟩
      · rwa [Nat.add_right_comm, Nat.add_assoc]
      · rw [hlast, if_neg (Nat.succ_ne_zero i)]
        rfl
  · rintro ⟨i, hi, hblock, hmod, hr, hlast⟩
    refine ⟨i + 1, by omega, hblock, ?_, by omega, ?_⟩
    · rwa [Nat.add_right_comm, Nat.add_assoc] at hmod
    · rw [hlast, if_neg (Nat.succ_ne_zero i)]
      rfl

/-- A round goes on after a header that does not contradict a pending retarget block. -/
theorem nextRetarget_isOk (lib : BlockLib) {height : ℕ} {x : Header} {seen : List Header}
    {curr : Option Retarget}
    (hcurr : ∀ r, curr = some r ↔ Pending (height + 1) seen r) :
    (∃ next, nextRetarget lib height x curr = .ok next) ↔ Completes lib height x seen := by
  unfold nextRetarget
  -- at the genesis block nothing is verified
  split
  · rename_i hzero
    refine iff_of_true ⟨_, rfl⟩ fun p y hmod => ?_
    simp only [diffchangeInterval] at hzero hmod
    omega
  · cases curr with
    -- no period is open, so that none can be complete
    | none =>
      refine iff_of_true ⟨_, rfl⟩ fun p y hmod hp hy => ?_
      have hmod' : (height + 1 + 2014) % diffchangeInterval = 0 := by
        simp only [diffchangeInterval] at hmod ⊢
        omega
      have hnone := (hcurr ⟨height + 1 + 2014, y, some p⟩).mpr
        ⟨2014, by omega, hy, hmod', rfl, by rw [if_neg (by omega)]; exact hp.symm⟩
      cases hnone
    -- a period is open: it began at a block of the list
    | some r =>
      obtain ⟨i, hi, hblock, hmod, hr, hlast⟩ := (hcurr r).mp rfl
      simp only [diffchangeInterval] at hmod
      simp only
      split
      · -- its last block is the one that the loop has just seen
        rename_i hperiodLast
        refine iff_of_true ⟨_, rfl⟩ fun p y hmod' => ?_
        simp only [diffchangeInterval] at hperiodLast hmod'
        omega
      · split
        · -- its first block is reached, and the target is verified
          rename_i hfirst
          simp only [diffchangeInterval] at hfirst
          obtain rfl : i = 2014 := by omega
          obtain ⟨p, hp⟩ : ∃ p, seen[2013]? = some p := by
            obtain ⟨hlt, _⟩ := List.getElem?_eq_some_iff.mp hblock
            exact ⟨_, List.getElem?_eq_getElem (by omega)⟩
          rw [if_neg (by omega)] at hlast
          replace hlast := hlast.trans hp
          simp only [bind_eq_ok, unwrap_eq_ok, verifyRetarget_eq_ok, pure_eq_ok, hlast,
            Option.some.injEq]
          constructor
          · rintro ⟨_, _, rfl, _, hretarget, _⟩ p' y hmod' hp' hy
            rw [hp, Option.some.injEq] at hp'
            rw [hblock, Option.some.injEq] at hy
            rw [← hp', ← hy]
            exact hretarget
          · intro h
            refine ⟨none, p, rfl, (), h p r.block ?_ hp hblock, rfl⟩
            simp only [diffchangeInterval]
            omega
        · -- in the middle of the period nothing is verified
          rename_i hne
          refine iff_of_true ⟨_, rfl⟩ fun p y hmod' => ?_
          simp only [diffchangeInterval] at hne hmod'
          omega

/-- What is pending after the header. -/
theorem nextRetarget_pending {height : ℕ} {x : Header} {seen : List Header} {curr next : Option Retarget}
    (hcurr : ∀ r, curr = some r ↔ Pending (height + 1) seen r)
    (h : nextRetarget lib height x curr = .ok next) (r : Retarget) :
    next = some r ↔ Pending height (x :: seen) r := by
  unfold nextRetarget at h
  split at h
  · -- the period ends with this block
    rename_i hzero
    cases h
    simp only [diffchangeInterval] at hzero
    constructor
    · intro heq
      cases heq
      exact ⟨0, by omega, rfl, hzero, rfl, rfl⟩
    · rintro ⟨i, hi, hblock, hmod, hr, hlast⟩
      simp only [diffchangeInterval] at hmod
      obtain rfl : i = 0 := by omega
      exact congrArg some (Retarget.eq_of hr.symm List.getElem?_cons_zero hblock hlast.symm)
  · rename_i hne
    rw [pending_cons hne]
    -- without an open period there is none afterwards
    cases curr with
    | none =>
      cases h
      refine iff_of_false (by simp) ?_
      rintro ⟨i, hi, hblock, hmod, hr, hlast⟩
      have := (hcurr ⟨_, r.block, if i = 0 then none else seen[i - 1]?⟩).mpr
        ⟨i, by omega, hblock, hmod, rfl, rfl⟩
      cases this
    | some r₀ =>
      obtain ⟨i₀, hi₀, hblock₀, hmod₀, hr₀, hlast₀⟩ := (hcurr r₀).mp rfl
      -- two ends of periods are 2016 blocks apart
      have honly : ∀ i < 2014, (height + 1 + i) % diffchangeInterval = 0 → i = i₀ := by
        intro i hi hmod
        simp only [diffchangeInterval] at hmod hmod₀
        omega
      simp only [diffchangeInterval] at hne hmod₀
      simp only at h
      split at h
      · -- the block below the end is noted
        rename_i hlast
        cases h
        simp only [diffchangeInterval] at hlast
        obtain rfl : i₀ = 0 := by omega
        constructor
        · intro heq
          cases heq
          exact ⟨0, by omega, hblock₀, hmod₀, hr₀, rfl⟩
        · rintro ⟨i, hi, hblock, hmod, hr, hperiodLast⟩
          obtain rfl := honly i hi hmod
          exact congrArg some (Retarget.eq_of (hr₀.trans hr.symm) hblock₀ hblock hperiodLast.symm)
      · split at h
        · -- the period is closed
          rename_i hfirst
          simp only [bind_eq_ok, pure_eq_ok] at h
          obtain ⟨_, _, _, _, rfl⟩ := h
          refine iff_of_false (by simp) ?_
          rintro ⟨i, hi, hblock, hmod, _⟩
          simp only [diffchangeInterval] at hfirst hmod
          omega
        · -- the period stays open
          rename_i hperiodLast hfirst
          cases h
          simp only [diffchangeInterval] at hperiodLast hfirst
          have hlast : r₀.periodLast = (x :: seen)[i₀]? := by
            rw [hlast₀, if_neg (by omega)]
            obtain ⟨j, rfl⟩ := Nat.exists_eq_succ_of_ne_zero (show i₀ ≠ 0 by omega)
            rfl
          constructor
          · intro heq
            cases heq
            exact ⟨i₀, by omega, hblock₀, hmod₀, hr₀, hlast⟩
          · rintro ⟨i, hi, hblock, hmod, hr, hperiod⟩
            obtain rfl := honly i hi hmod
            exact congrArg some
              (Retarget.eq_of (hr₀.trans hr.symm) hblock₀ hblock (hlast.trans hperiod.symm))

/-- The state before the first header. -/
theorem ForkScan.tracks_start (lib : BlockLib) (input : ForkInput) (htip : input.tipHeight < 2 ^ 32) :
    ForkScan.Tracks lib input ⟨(input.tipHeight + 1) % 2 ^ 32, 0, none, none⟩ (input.tipHeight + 1)
      [] where
  curr := rfl
  tip := htip
  height := rfl
  last := rfl
  work := rfl
  pending := by
    intro r
    refine iff_of_false (by simp) ?_
    rintro ⟨i, _, h, _⟩
    simp at h

/-- The height of the next header. -/
theorem ForkScan.Tracks.subU32_one {s : ForkScan} {height : ℕ} {seen : List Header}
    (hs : s.Tracks lib input (height + 1) seen) : subU32 s.currHeight 1 = height := by
  have htip := hs.tip
  have hheight := hs.height
  rw [hs.curr, subU32]
  omega

/-- A round accepts a header that is not one of the chain if and only if the headers seen so far may
be extended by it. -/
theorem ForkScan.header_iff (ha : input.chain.Aligned lib) {s : ForkScan} {seen : List Header} {height : ℕ}
    (hs : s.Tracks lib input (height + 1) seen) (hb : Branch lib input (height + 1) seen) (x : Header) :
    ((∃ s', s.header lib input x = .ok (s', false)) ↔ Branch lib input height (x :: seen)) ∧
    ∀ s', s.header lib input x = .ok (s', false) →
      s'.currHeight = height ∧ s'.Tracks lib input height (x :: seen) := by
  obtain ⟨common, hcommon, hiff⟩ := isCommon_ok ha height x
  have hpending := hs.pending
  -- the step written as its checks
  have hunfold : ∀ s', s.header lib input x = .ok (s', false) ↔
      (∀ c, seen.head? = some c → Linked lib (height + 1) x c) ∧ Plausible lib input height x ∧
        ∃ next, nextRetarget lib height x s.currRetarget = .ok next ∧
          s' = ⟨height, addWork s.totalForkWork (lib.work x), next, some x⟩ := by
    intro s'
    simp only [ForkScan.header, hs.subU32_one, hs.last, bind_eq_ok, checkChild_eq_ok, hcommon]
    constructor
    · -- they are passed in the order of the code
      rintro ⟨_, hchild, _, hsame, h⟩
      cases hsame
      cases common with
      | true => simp at h
      | false =>
        simp only [Bool.false_eq_true, if_false, bind_eq_ok, ensure_eq_ok, decide_eq_true_eq,
          pure_eq_ok, Prod.mk.injEq] at h
        obtain ⟨_, hdepth, _, hlimit, _, hpow, _, htarget, next, hnext, rfl, _⟩ := h
        refine ⟨hchild, ⟨fun hc => ?_, hdepth, hlimit, hpow, htarget⟩, next, hnext, rfl⟩
        exact Bool.false_ne_true (hiff.mpr hc)
    · rintro ⟨hchild, hx, next, hnext, rfl⟩
      refine ⟨(), hchild, common, rfl, ?_⟩
      have hfalse : common = false := by
        rw [← Bool.not_eq_true, hiff]
        exact hx.other
      simp only [hfalse, Bool.false_eq_true, if_false, bind_eq_ok, ensure_eq_ok, decide_eq_true_eq,
        pure_eq_ok]
      exact ⟨(), hx.depth, (), hx.limit, (), hx.pow, (), hx.target, next, hnext, rfl⟩
  constructor
  · -- the checks are the conditions on the new block of the branch
    rw [branch_cons, ← nextRetarget_isOk lib hpending]
    constructor
    · rintro ⟨s', h⟩
      obtain ⟨hchild, hx, next, hnext, _⟩ := (hunfold s').mp h
      exact ⟨hb, hx, hchild, next, hnext⟩
    · rintro ⟨_, hx, hchild, next, hnext⟩
      exact ⟨_, (hunfold _).mpr ⟨hchild, hx, next, hnext, rfl⟩⟩
  · -- the state follows the branch
    intro s' h
    obtain ⟨_, _, next, hnext, rfl⟩ := (hunfold s').mp h
    have htip := hs.tip
    have hheight := hs.height
    refine ⟨rfl, (Nat.mod_eq_of_lt (show height < 2 ^ 32 by omega)).symm, htip, ?_, rfl, ?_,
      nextRetarget_pending hpending hnext⟩
    · rw [List.length_cons]
      omega
    · simp only [addWork, hs.work, List.map_cons, List.sum_cons]
      rw [Nat.mod_add_mod, Nat.add_comm]

/-! ### The loops -/

/-- The loops have found a header of the chain, and have seen the headers above it. -/
structure ForkScan.Reaches (lib : BlockLib) (input : ForkInput) (s : ForkScan) (seen : List Header)
    (ancestor : Header) : Prop where
  height : s.currHeight + seen.length = input.tipHeight
  common : Common lib input.chain s.currHeight ancestor
  linked : ∀ c, seen.head? = some c → Linked lib (s.currHeight + 1) ancestor c
  branch : Branch lib input (s.currHeight + 1) seen
  work : s.totalForkWork = (seen.map lib.work).sum % 2 ^ 256
  pending : ∀ r, s.currRetarget = some r ↔ Pending (s.currHeight + 1) seen r

namespace ForkScan

variable {s : ForkScan} {seen : List Header}

/-- A round ends the loops if and only if its header is one of the chain. -/
theorem header_common_iff (ha : input.chain.Aligned lib) {height : ℕ}
    (hs : s.Tracks lib input (height + 1) seen) (hb : Branch lib input (height + 1) seen) {x : Header}
    {s' : ForkScan} : s.header lib input x = .ok (s', true) ↔
      s'.currHeight = height ∧ s'.Reaches lib input seen x ∧ s' = { s with currHeight := height } := by
  obtain ⟨common, hcommon, hiff⟩ := isCommon_ok ha height x
  simp only [header, hs.subU32_one, hs.last, bind_eq_ok, checkChild_eq_ok, hcommon]
  constructor
  · rintro ⟨_, hchild, _, hsame, h⟩
    cases hsame
    cases common with
    | false => simp at h
    | true =>
      simp only [if_true, pure_eq_ok, Prod.mk.injEq, and_true] at h
      subst h
      refine ⟨rfl, ⟨?_, hiff.mp rfl, hchild, hb, hs.work, hs.pending⟩, rfl⟩
      have := hs.height
      simp only
      omega
  · rintro ⟨_, hreaches, rfl⟩
    refine ⟨(), hreaches.linked, common, rfl, ?_⟩
    rw [hiff.mpr hreaches.common, if_pos rfl]
    rfl

/-- What a chunk leads to, if it is accepted: the headers before a common one, or all of them, are
seen. -/
theorem headers_ok (ha : input.chain.Aligned lib) {l : List Header} {top : ℕ}
    (hs : s.Tracks lib input top seen) (hb : Branch lib input top seen) (hl : l.length ≤ top)
    {s' : ForkScan} {common : Bool} (h : s.headers lib input l = .ok (s', common)) :
    if common then ∃ pre ancestor rest, l = pre ++ ancestor :: rest ∧
      s'.Reaches lib input (pre.reverse ++ seen) ancestor
    else s'.Tracks lib input (top - l.length) (l.reverse ++ seen) ∧
      Branch lib input (top - l.length) (l.reverse ++ seen) := by
  induction l generalizing s seen top with
  -- nothing has been seen
  | nil =>
    cases h
    exact ⟨hs, hb⟩
  | cons x l ih =>
    rw [List.length_cons] at hl ⊢
    obtain ⟨height, rfl⟩ := Nat.exists_eq_succ_of_ne_zero (show top ≠ 0 by omega)
    simp only [headers, bind_eq_ok] at h
    obtain ⟨⟨next, found⟩, hnext, h⟩ := h
    cases found with
    -- the first header is in the chain, and the others are not looked at
    | true =>
      cases h
      obtain ⟨_, hreaches, _⟩ := (header_common_iff ha hs hb).mp hnext
      exact ⟨[], x, l, rfl, hreaches⟩
    -- otherwise the branch is one header longer
    | false =>
      obtain ⟨hbranch, htracks⟩ := header_iff ha hs hb x
      have hrest := ih (htracks next hnext).2 (hbranch.mp ⟨next, hnext⟩) (by omega) h
      have hreverse : ∀ l' : List Header, (x :: l').reverse ++ seen = l'.reverse ++ x :: seen := by
        intro l'
        rw [List.reverse_cons, List.append_assoc, List.singleton_append]
      cases common with
      | true =>
        obtain ⟨pre, ancestor, rest, rfl, hreaches⟩ := hrest
        exact ⟨x :: pre, ancestor, rest, rfl, by rwa [hreverse]⟩
      | false =>
        rw [hreverse, Nat.succ_eq_add_one, Nat.add_sub_add_right]
        exact hrest

end ForkScan

/-- The server answers with the headers of a list. -/
def RemoteServer.Serves (server : RemoteServer) (remote : List Header) : Prop :=
  ∀ start count, start + count ≤ remote.length →
    server.blockHeaders start count = some ((remote.drop start).take count)

theorem drop_split {l a b : List Header} {n : ℕ} {x : Header} (h : l.drop n = a ++ x :: b) :
    l[n + a.length]? = some x ∧ l.drop (n + a.length + 1) = b := by
  constructor
  · rw [← List.getElem?_drop, h, List.getElem?_append_right (Nat.le_refl _), Nat.sub_self]
    rfl
  · rw [Nat.add_assoc, ← List.drop_drop, h, List.drop_append, List.drop_of_length_le (by omega),
      Nat.add_sub_cancel_left]
    rfl

/-- A chunk ends below the headers seen so far, or no headers are asked for. -/
theorem chunk_bounds {curr top limit : ℕ} (chunkSize : ℕ) (hcurr : curr = top % 2 ^ 32)
    (htop : top ≤ 2 ^ 32) (hlimit : limit < top) :
    max (curr - chunkSize) limit + subU32 curr (max (curr - chunkSize) limit) = top ∨
      max (curr - chunkSize) limit = 0 ∧ subU32 curr (max (curr - chunkSize) limit) = 0 ∧ limit = 0 ∧
        top = 2 ^ 32 := by
  unfold subU32
  omega

/-- Whatever a server answers, the loops end at a header of the chain; and if it answers with the
headers of a list, then what they have seen is the end of that list. -/
theorem scanFork_ok (ha : input.chain.Aligned lib) {server : RemoteServer} {fuel chunkSize top : ℕ}
    {s s' : ForkScan} {seen : List Header} (hs : s.Tracks lib input top seen)
    (hb : Branch lib input top seen) (hlimit : input.heightLimit < top)
    (h : scanFork lib input server fuel chunkSize s = .ok s') :
    ∃ seen' ancestor, s'.Reaches lib input seen' ancestor ∧
      ∀ remote, server.Serves remote → top ≤ remote.length → seen = remote.drop top →
        remote[s'.currHeight]? = some ancestor ∧ seen' = remote.drop (s'.currHeight + 1) := by
  induction fuel generalizing chunkSize s seen top with
  | zero => cases h
  | succ fuel ih =>
    have htip := hs.tip
    have hheight := hs.height
    have hbounds := chunk_bounds chunkSize hs.curr (by omega) hlimit
    simp only [scanFork, bind_eq_ok, okOr_eq_ok, ensure_eq_ok, decide_eq_true_eq] at h
    generalize max (s.currHeight - chunkSize) input.heightLimit = start at h hbounds
    generalize subU32 s.currHeight start = size at h hbounds
    obtain ⟨chunk, hblocks, _, hlength, ⟨next, common⟩, hnext, h⟩ := h
    rcases hbounds with hsum | ⟨_, hzero, _, _⟩
    · have hl : chunk.reverse.length ≤ top := by
        rw [List.length_reverse, hlength]
        omega
      have hok := ForkScan.headers_ok ha hs hb hl hnext
      -- the headers of a chunk are the ones of the list before those seen
      have hchunk : ∀ remote, server.Serves remote → top ≤ remote.length →
          seen = remote.drop top → remote.drop start = chunk ++ seen := by
        intro remote hserver hle hseen
        rw [hserver start size (by omega), Option.some.injEq] at hblocks
        rw [← hblocks, hseen, ← hsum, ← List.drop_drop]
        exact (List.take_append_drop _ _).symm
      cases common with
      | true =>
        cases h
        obtain ⟨pre, ancestor, rest, hsplit, hreaches⟩ := hok
        refine ⟨_, ancestor, hreaches, fun remote hserver hle hseen => ?_⟩
        have hsplit' : chunk = rest.reverse ++ ancestor :: pre.reverse := by
          rw [← List.reverse_reverse chunk, hsplit, List.reverse_append, List.reverse_cons,
            List.append_assoc, List.singleton_append]
        have hdrop := hchunk remote hserver hle hseen
        rw [hsplit', List.append_assoc, List.cons_append] at hdrop
        have hcurr : next.currHeight = start + rest.reverse.length := by
          have hend := hreaches.height
          have := congrArg List.length hdrop
          simp only [List.length_drop, List.length_append, List.length_cons, hseen] at this hend hheight
          omega
        rw [hcurr]
        exact ⟨(drop_split hdrop).1, (drop_split hdrop).2.symm⟩
      | false =>
        obtain ⟨hs', hb'⟩ := hok
        rw [List.length_reverse, hlength, show top - size = start by omega, List.reverse_reverse] at hs' hb'
        have hlimit' : input.heightLimit < start := by
          cases hhead : chunk ++ seen with
          | nil =>
            have hnil : chunk.length = 0 := by
              rw [(List.append_eq_nil_iff.mp hhead).1]
              rfl
            omega
          | cons x rest => exact ((hhead ▸ hb').passes (i := 0) rfl).limit
        obtain ⟨seen', ancestor, hreaches, hremote⟩ := ih hs' hb' hlimit' h
        exact ⟨seen', ancestor, hreaches, fun remote hserver hle hseen =>
          hremote remote hserver (by omega) (hchunk remote hserver hle hseen).symm⟩
    · -- nothing was asked for
      have hnil : chunk = [] := List.length_eq_zero_iff.mp (hlength.trans hzero)
      subst hnil
      cases hnext
      exact ih hs hb hlimit h

/-! ### A server with a chain of its own -/

theorem Branch.drop {height : ℕ} {seen : List Header} (h : Branch lib input height seen) (k : ℕ) :
    Branch lib input (height + k) (seen.drop k) := by
  refine ⟨fun {i x} hx => ?_, fun {i p x} hp hx => ?_, fun {i first p x} hi hfirst hp hx => ?_⟩
  · rw [List.getElem?_drop] at hx
    rw [Nat.add_assoc]
    exact h.passes hx
  · rw [List.getElem?_drop] at hp hx
    rw [Nat.add_assoc height k]
    exact h.linked hp hx
  · rw [List.getElem?_drop] at hfirst hp hx
    rw [Nat.add_assoc height k] at hi
    rw [← Nat.add_assoc k] at hp hx
    exact h.retarget hi hfirst hp hx

section Remote

variable {remote : List Header} {ancestor : Header} {height : ℕ}

/-- The branch of a server's chain above a common header. -/
structure RemoteBranch (lib : BlockLib) (input : ForkInput) (remote : List Header) (height : ℕ)
    (ancestor : Header) : Prop where
  length : remote.length = input.tipHeight + 1
  lookup : remote[height]? = some ancestor
  common : Common lib input.chain height ancestor
  linked : ∀ c, remote[height + 1]? = some c → Linked lib (height + 1) ancestor c
  branch : Branch lib input (height + 1) (remote.drop (height + 1))

theorem RemoteBranch.drop (h : RemoteBranch lib input remote height ancestor) {c : ℕ} (hc : height < c) :
    Branch lib input c (remote.drop c) := by
  obtain ⟨k, rfl⟩ := Nat.exists_eq_add_of_lt hc
  have := h.branch.drop k
  rwa [List.drop_drop, Nat.add_right_comm] at this

/-- The loop over a chunk accepts the headers of a branch. -/
theorem ForkScan.headers_remote (ha : input.chain.Aligned lib)
    (h : RemoteBranch lib input remote height ancestor) {start n : ℕ} {s : ForkScan}
    (hs : s.Tracks lib input (start + n) (remote.drop (start + n)))
    (hle : start + n ≤ remote.length) (hheight : height < start + n) :
    (start ≤ height → ∃ s', s.headers lib input ((remote.drop start).take n).reverse = .ok (s', true) ∧
      s'.currHeight = height ∧ s'.Reaches lib input (remote.drop (height + 1)) ancestor) ∧
    (height < start → ∃ s', s.headers lib input ((remote.drop start).take n).reverse = .ok (s', false) ∧
      s'.Tracks lib input start (remote.drop start)) := by
  induction n generalizing s with
  -- no header is left
  | zero => exact ⟨fun hstart => by omega, fun _ => ⟨s, rfl, hs⟩⟩
  | succ n ih =>
    obtain ⟨x, hx⟩ : ∃ x, remote[start + n]? = some x :=
      ⟨_, List.getElem?_eq_getElem (show start + n < remote.length by omega)⟩
    -- the chunk begins with its highest header, the one below what has been seen
    have hchunk : ((remote.drop start).take (n + 1)).reverse =
        x :: ((remote.drop start).take n).reverse := by
      rw [List.take_add_one, List.getElem?_drop, hx, List.reverse_append]
      rfl
    have hcons : remote.drop (start + n) = x :: remote.drop (start + n + 1) := by
      obtain ⟨hlt, rfl⟩ := List.getElem?_eq_some_iff.mp hx
      exact List.drop_eq_getElem_cons hlt
    have hb : Branch lib input (start + n + 1) (remote.drop (start + n + 1)) := h.drop hheight
    have hs' : s.Tracks lib input (start + n + 1) (remote.drop (start + n + 1)) := hs
    rw [hchunk, ForkScan.headers]
    rcases Nat.eq_or_lt_of_le (Nat.le_of_lt_succ (show height < start + n + 1 by omega)) with
      rfl | hlt
    · -- the header is the common one
      have hancestor := h.lookup
      rw [hx, Option.some.injEq] at hancestor
      subst hancestor
      have hlinked : ∀ c, (remote.drop (start + n + 1)).head? = some c →
          Linked lib (start + n + 1) x c := by
        intro c hc
        rw [List.head?_drop] at hc
        exact h.linked c hc
      have hreaches : ForkScan.Reaches lib input { s with currHeight := start + n }
          (remote.drop (start + n + 1)) x := by
        have hlength := hs'.height
        exact ⟨by simp only; omega, h.common, hlinked, hb, hs'.work, hs'.pending⟩
      have hok := (ForkScan.header_common_iff ha hs' hb).mpr ⟨rfl, hreaches, rfl⟩
      refine ⟨fun _ => ⟨_, ?_, rfl, hreaches⟩, fun hstart => by omega⟩
      rw [bind_of_ok hok]
      rfl
    · -- the header is still above the common one
      have hbranch : Branch lib input (start + n) (x :: remote.drop (start + n + 1)) :=
        hcons ▸ h.drop hlt
      obtain ⟨hiff, htracks⟩ := ForkScan.header_iff ha hs' hb x
      obtain ⟨next, hnext⟩ := hiff.mpr hbranch
      rw [bind_of_ok hnext]
      exact ih (hcons ▸ (htracks next hnext).2) (by omega) hlt

/-- The loops go through a branch, if the server answers for as many chunks. -/
theorem scanFork_remote (ha : input.chain.Aligned lib) {server : RemoteServer}
    (hserver : server.Serves remote) (h : RemoteBranch lib input remote height ancestor)
    (hlimit : input.heightLimit ≤ height) {fuel chunkSize top : ℕ} {s : ForkScan}
    (hs : s.Tracks lib input top (remote.drop top)) (hle : top ≤ remote.length) (htop : top < 2 ^ 32)
    (hheight : height < top) (hchunk : 2 ≤ chunkSize) (hfuel : top ≤ height + fuel) :
    ∃ s', scanFork lib input server fuel chunkSize s = .ok s' ∧ s'.currHeight = height ∧
      s'.Reaches lib input (remote.drop (height + 1)) ancestor := by
  induction fuel generalizing chunkSize s top with
  | zero => omega
  | succ fuel ih =>
    have hcurr : s.currHeight = top := hs.curr.trans (Nat.mod_eq_of_lt htop)
    have hbounds := chunk_bounds chunkSize hs.curr htop.le (by omega : input.heightLimit < top)
    -- the chunk ends where the last one began
    generalize hstart : max (s.currHeight - chunkSize) input.heightLimit = start at hbounds
    have hless : start < top := by omega
    generalize hsize : subU32 s.currHeight start = n at hbounds
    replace hbounds : start + n = top := hbounds.resolve_right fun h => by omega
    have hlength : ((remote.drop start).take n).length = n := by
      rw [List.length_take, List.length_drop]
      omega
    rw [← hbounds] at hs
    -- the headers of the chunk are those of the remote chain
    obtain ⟨hfound, hnext⟩ := ForkScan.headers_remote ha h hs (by omega) (by omega)
    simp only [scanFork, hstart, hsize, bind_eq_ok, okOr_eq_ok, ensure_eq_ok, decide_eq_true_eq]
    have hblocks := hserver start n (by omega)
    -- the common header is in this chunk
    by_cases hle' : start ≤ height
    · obtain ⟨s', hs', hcurr', hreaches⟩ := hfound hle'
      exact ⟨s', ⟨_, hblocks, (), hlength, _, hs', rfl⟩, hcurr', hreaches⟩
    · -- or it is below, and the next chunk is at least as large as the least one
      have hstart' : start ≤ remote.length ∧ start < 2 ^ 32 ∧ height < start := by omega
      obtain ⟨s', hs', htracks⟩ := hnext hstart'.2.2
      have hgrows : 2 ≤ min (chunkSize / 2 * 3) maxChunkSize := by
        simp only [maxChunkSize]
        omega
      have hfuel' : start ≤ height + fuel := by
        clear hstart
        omega
      obtain ⟨t, ht, hcurrT, hreaches⟩ :=
        ih htracks hstart'.1 hstart'.2.1 hstart'.2.2 hgrows hfuel'
      exact ⟨t, ⟨_, hblocks, (), hlength, _, hs', ht⟩, hcurrT, hreaches⟩

end Remote

/-! ### Valid forks -/

/-- The height of the block that is taken for the first one of the period before a retarget block:
the one after it, if the fork has that, and otherwise the right one. -/
def periodFirst (fork height : ℕ) : ℕ :=
  if fork + diffchangeInterval - 1 < height then height - (diffchangeInterval - 1)
  else height - diffchangeInterval

/-- A header of a fork, that may follow its parent. -/
structure ForkHeader (lib : BlockLib) (threshold fork : ℕ) (whole : List Header) (height : ℕ)
    (parent x : Header) : Prop where
  prev : x.prevBlockhash = lib.blockHash parent
  bits : if height % diffchangeInterval = 0 then
      ∃ first, whole[periodFirst fork height]? = some first ∧ Retargets lib first parent x
    else x.bits = parent.bits
  pow : lib.validatePow x = true
  target : lib.target x < threshold

section ForkHeader

variable {threshold fork height : ℕ} {whole : List Header} {parent x : Header}

theorem ForkHeader.retargets (h : ForkHeader lib threshold fork whole height parent x)
    (hzero : height % diffchangeInterval = 0) :
    ∃ first, whole[periodFirst fork height]? = some first ∧ Retargets lib first parent x := by
  have hbits := h.bits
  rwa [if_pos hzero] at hbits

theorem ForkHeader.linked (h : ForkHeader lib threshold fork whole height parent x) :
    Linked lib height parent x := by
  refine ⟨h.prev, fun hne => ?_⟩
  have hbits := h.bits
  rwa [if_neg hne] at hbits

end ForkHeader

/-- The headers above the height `fork` may follow those below. -/
def ValidFork (lib : BlockLib) (threshold fork : ℕ) (whole : List Header) : Prop :=
  ∀ height parent x, fork ≤ height → whole[height]? = some parent → whole[height + 1]? = some x →
    ForkHeader lib threshold fork whole (height + 1) parent x

/-- The chain up to a height, with other headers on it. -/
def forkAt (chain : HeadersChain) (height : ℕ) (seen : List Header) : List Header :=
  chain.file.take (height + 1) ++ seen

section Fork

variable {height : ℕ} {seen : List Header} {ancestor : Header}

theorem forkAt_below (hlt : height < chain.file.length) {h : ℕ} (hh : h ≤ height) :
    (forkAt chain height seen)[h]? = chain.file[h]? := by
  rw [forkAt, List.getElem?_append_left (by rw [List.length_take]; omega),
    List.getElem?_take_of_lt (by omega)]

theorem forkAt_above (hlt : height < chain.file.length) (i : ℕ) :
    (forkAt chain height seen)[height + 1 + i]? = seen[i]? := by
  have hlength : (chain.file.take (height + 1)).length = height + 1 := by
    rw [List.length_take]
    omega
  rw [forkAt, List.getElem?_append_right (by omega), hlength, Nat.add_sub_cancel_left]

/-- The retarget block that is pending at the end may follow. -/
def PendingOk (lib : BlockLib) (chain : HeadersChain) (height : ℕ) (seen : List Header) : Prop :=
  ∀ r, Pending (height + 1) seen r → ∃ first last,
    chain.file[r.height - diffchangeInterval]? = some first ∧
      (forkAt chain height seen)[r.height - 1]? = some last ∧ Retargets lib first last r.block

theorem checkPending_eq_ok (hlt : height < chain.file.length)
    {retarget : Option Retarget} (hpending : ∀ r, retarget = some r ↔ Pending (height + 1) seen r)
    {u : Unit} : checkPending lib chain retarget = .ok u ↔ PendingOk lib chain height seen := by
  have hlift : ∀ {h : ℕ} {x : Header}, liftGdk (chain.get h) = .ok x ↔ chain.file[h]? = some x := by
    intro h x
    rw [HeadersChain.get]
    cases chain.file[h]? <;> simp [okOr, liftGdk]
  -- no period is open above the common block
  cases retarget with
  | none =>
    refine iff_of_true rfl fun r hr => ?_
    cases (hpending r).mpr hr
  | some r =>
    have hr := (hpending r).mp rfl
    -- a period is open; its last block is above the common one, or is the common block itself
    obtain ⟨i, hi, hblock, hmod, hheight, hlast⟩ := id hr
    have hlastEq : ∀ last, r.last chain = .ok last ↔
        (forkAt chain height seen)[r.height - 1]? = some last := by
      intro last
      rw [Retarget.last]
      cases i with
      | zero =>
        have hsub : r.height - 1 = height := by omega
        rw [hlast, if_pos rfl, hsub, forkAt_below hlt (Nat.le_refl _)]
        exact hlift
      | succ i =>
        have hsub : r.height - 1 = height + 1 + i := by omega
        obtain ⟨p, hp⟩ : ∃ p, seen[i]? = some p := by
          obtain ⟨hlt', _⟩ := List.getElem?_eq_some_iff.mp hblock
          exact ⟨_, List.getElem?_eq_getElem (by omega)⟩
        rw [hlast, if_neg (Nat.succ_ne_zero i), hsub, forkAt_above hlt, Nat.add_sub_cancel, hp]
        simp only [pure_eq_ok, Option.some.injEq]
    simp only [checkPending, bind_eq_ok, hlift, verifyRetarget_eq_ok]
    -- the check looks up the two blocks that the fork has at these heights
    constructor
    · rintro ⟨first, hfirst, last, hl, hretarget⟩ r' hr'
      obtain rfl := hr.unique hr'
      exact ⟨first, last, hfirst, (hlastEq last).mp hl, hretarget⟩
    · intro h
      obtain ⟨first, last, hfirst, hl, hretarget⟩ := h r hr
      exact ⟨first, hfirst, last, (hlastEq last).mpr hl, hretarget⟩

/-- What the loops and the last check accept is a valid fork of the chain. -/
theorem branch_iff_validFork (lib : BlockLib) (input : ForkInput)
    (hlookup : chain.file[height]? = some ancestor)
    (hinput : input.chain = chain) (htip : height + seen.length = input.tipHeight) :
    (Branch lib input (height + 1) seen ∧
      (∀ c, seen.head? = some c → Linked lib (height + 1) ancestor c) ∧
      PendingOk lib chain height seen) ↔
    ValidFork lib input.threshold height (forkAt chain height seen) ∧ seen.length ≤ maxForkDepth ∧
      (seen ≠ [] → input.heightLimit ≤ height) ∧
      ∀ i x, seen[i]? = some x → ¬ Common lib chain (height + 1 + i) x := by
  have hlt : height < chain.file.length := (List.getElem?_eq_some_iff.mp hlookup).1
  subst hinput
  have hmod : ∀ i, (height + 1 + i + 2015) % diffchangeInterval = 0 ↔
      (height + 1 + (i + 2015)) % diffchangeInterval = 0 := by
    intro i
    rw [Nat.add_assoc _ i]
  constructor
  · rintro ⟨hb, hlinked, hpending⟩
    refine ⟨fun h parent x hh hparent hx => ?_, ?_, fun hne => ?_, fun i x hx => (hb.passes hx).other⟩
    · obtain ⟨i, rfl⟩ := Nat.exists_eq_add_of_le hh
      rw [Nat.add_right_comm, forkAt_above hlt] at hx
      have hpasses := hb.passes hx
      -- the parent is the common header or the one before
      have hlink : Linked lib (height + 1 + i) parent x := by
        cases i with
        | zero =>
          rw [Nat.add_zero, forkAt_below hlt (Nat.le_refl _), hlookup, Option.some.injEq] at hparent
          rw [← hparent]
          refine hlinked x ?_
          rw [List.head?_eq_getElem?]
          exact hx
        | succ i =>
          rw [show height + (i + 1) = height + 1 + i by omega, forkAt_above hlt] at hparent
          exact hb.linked hparent hx
      refine ⟨hlink.prev, ?_, hpasses.pow, hpasses.target⟩
      rw [Nat.add_right_comm]
      split
      · rename_i hzero
        by_cases hi : i < 2015
        · obtain ⟨first, last, hfirst, hlast, hretarget⟩ :=
            hpending ⟨height + 1 + i, x, if i = 0 then none else seen[i - 1]?⟩
              ⟨i, hi, hx, hzero, rfl, rfl⟩
          simp only at hfirst hlast hretarget
          rw [show height + 1 + i - 1 = height + i by omega, hparent, Option.some.injEq] at hlast
          refine ⟨first, ?_, hlast ▸ hretarget⟩
          rw [periodFirst, if_neg (by simp only [diffchangeInterval]; omega),
            forkAt_below hlt (by simp only [diffchangeInterval]; omega)]
          exact hfirst
        · obtain ⟨j, rfl⟩ := Nat.exists_eq_add_of_le (Nat.le_of_not_lt hi)
          rw [Nat.add_comm 2015] at hx hparent hzero ⊢
          obtain ⟨first, hfirst⟩ : ∃ first, seen[j]? = some first := by
            obtain ⟨hlt', _⟩ := List.getElem?_eq_some_iff.mp hx
            exact ⟨_, List.getElem?_eq_getElem (by omega)⟩
          rw [show height + (j + 2015) = height + 1 + (j + 2014) by omega, forkAt_above hlt] at hparent
          refine ⟨first, ?_, hb.retarget ((hmod j).mpr hzero) hfirst hparent hx⟩
          rw [periodFirst, if_pos (by simp only [diffchangeInterval]; omega),
            show height + 1 + (j + 2015) - (diffchangeInterval - 1) = height + 1 + j by
              simp only [diffchangeInterval]; omega, forkAt_above hlt]
          exact hfirst
      · rename_i hzero
        exact hlink.bits hzero
    · cases seen with
      | nil => exact Nat.zero_le _
      | cons x rest =>
        have := (hb.passes (i := 0) rfl).depth
        rw [List.length_cons] at htip ⊢
        omega
    · obtain ⟨x, rest, rfl⟩ := List.exists_cons_of_ne_nil hne
      have := (hb.passes (i := 0) rfl).limit
      omega
  · rintro ⟨hvalid, hdepth, hlimit, hother⟩
    have hheader : ∀ {i p x}, (forkAt input.chain height seen)[height + i]? = some p →
        seen[i]? = some x →
        ForkHeader lib input.threshold height (forkAt input.chain height seen) (height + 1 + i) p x := by
      intro i p x hp hx
      have := hvalid (height + i) p x (Nat.le_add_right _ _) hp
        (by rw [Nat.add_right_comm, forkAt_above hlt]; exact hx)
      rwa [Nat.add_right_comm] at this
    have hbefore : ∀ {i p}, seen[i]? = some p →
        (forkAt input.chain height seen)[height + (i + 1)]? = some p := by
      intro i p hp
      rw [show height + (i + 1) = height + 1 + i by omega, forkAt_above hlt]
      exact hp
    have hzero : (forkAt input.chain height seen)[height + 0]? = some ancestor := by
      rw [Nat.add_zero, forkAt_below hlt (Nat.le_refl _)]
      exact hlookup
    have hparent : ∀ {i x}, seen[i]? = some x →
        ∃ p, (forkAt input.chain height seen)[height + i]? = some p := by
      intro i x hx
      cases i with
      | zero => exact ⟨_, hzero⟩
      | succ i =>
        obtain ⟨hlt', _⟩ := List.getElem?_eq_some_iff.mp hx
        exact ⟨_, hbefore (List.getElem?_eq_getElem (show i < seen.length by omega))⟩
    refine ⟨⟨fun {i x} hx => ?_, fun {i p x} hp hx => ?_, fun {i first p x} hi hfirst hp hx => ?_⟩,
      fun c hc => ?_, ?_⟩
    · obtain ⟨p, hp⟩ := hparent hx
      have hf := hheader hp hx
      obtain ⟨hlt', _⟩ := List.getElem?_eq_some_iff.mp hx
      have hne : seen ≠ [] := by
        rintro rfl
        simp at hx
      exact ⟨hother i x hx, by simp only [maxForkDepth, diffchangeInterval] at hdepth ⊢; omega,
        by have := hlimit hne; omega, hf.pow, hf.target⟩
    · exact (hheader (hbefore hp) hx).linked
    · have hp' := hbefore hp
      rw [show i + 2014 + 1 = i + 2015 from Nat.add_assoc i 2014 1] at hp'
      obtain ⟨first', hfirst', hretarget⟩ := (hheader hp' hx).retargets ((hmod i).mp hi)
      rw [periodFirst, if_pos (by simp only [diffchangeInterval]; omega),
        show height + 1 + (i + 2015) - (diffchangeInterval - 1) = height + 1 + i by
          simp only [diffchangeInterval]; omega, forkAt_above hlt, hfirst, Option.some.injEq] at hfirst'
      exact hfirst' ▸ hretarget
    · rw [List.head?_eq_getElem?] at hc
      exact (hheader hzero hc).linked
    · rintro ⟨h, block, periodLast⟩ ⟨i, hi, hblock, hzero', hh, _⟩
      simp only at hblock hh
      subst hh
      obtain ⟨p, hp⟩ := hparent hblock
      obtain ⟨first, hfirst, hretarget⟩ := (hheader hp hblock).retargets hzero'
      rw [periodFirst, if_neg (by simp only [diffchangeInterval]; omega),
        forkAt_below hlt (by simp only [diffchangeInterval]; omega)] at hfirst
      refine ⟨first, p, hfirst, ?_, hretarget⟩
      rw [show height + 1 + i - 1 = height + i by omega]
      exact hp

end Fork

end SideSwap.Gdk
