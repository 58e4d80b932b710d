import SideSwap.Gdk.LongestChain

/-!
# Servers that keep the loops going

What another server can do to `spv_cross_validate` besides a wrong result:

* `spvCrossValidate_fails`: it cannot make it panic;
* `spvCrossValidate_ends_iff`: the loops end after at most `maxForkDepth + 1` chunks, unless the
  height of the server's tip is the largest `u32` and there is no lower limit.  Then
  `remote_tip_height + 1` is 0, and the loop asks for no headers, again and again.

Of both, one induction over the chunks says all that can go wrong (`scanFork_fails`).
-/

namespace SideSwap.Gdk

open Libwally Call

variable {lib : BlockLib} {chain : HeadersChain} {server : RemoteServer} {input : ForkInput}

/-! ### One header -/

/-- The call does not panic. -/
abbrev Safe {ε α : Type} (m : Call ε α) : Prop := Fails (fun f => f ≠ .panic) m

/-- The call ends without a panic. -/
abbrev Ends {α : Type} (m : Call CrossValidationError α) : Prop :=
  Fails (fun f => f ≠ .panic ∧ f ≠ .error .unending) m

theorem Safe.okOr {ε α : Type} {value : Option α} {e : ε} : Safe (Call.okOr value e) :=
  Fails.okOr fun h => by cases h

namespace Ends

theorem liftGdk {α : Type} {m : Call Error α} (h : Safe m) : Ends (liftGdk m) := by
  cases m with
  | ok a => exact Fails.of_ok rfl
  | error f =>
    cases f with
    | panic => exact absurd rfl (h _ rfl)
    | error e =>
      rintro f hf
      cases hf
      exact ⟨fun h => (by cases h), fun h => (by cases h)⟩

/-- An error of the source. -/
theorem ensure {condition : Bool} {e : CrossValidationError} (h : e ≠ .unending) :
    Ends (Call.ensure condition e) :=
  Fails.ensure ⟨fun h => (by cases h), fun heq => h (Failure.error.inj heq)⟩

theorem okOr {α : Type} {value : Option α} {e : CrossValidationError} (h : e ≠ .unending) :
    Ends (Call.okOr value e) :=
  Fails.okOr ⟨fun h => (by cases h), fun heq => h (Failure.error.inj heq)⟩

end Ends

theorem checkChild_ends (height : ℕ) (x : Header) (child : Option Header) :
    Ends (checkChild lib height x child) := by
  cases child with
  | none => exact Fails.pure ()
  | some c => exact (Ends.ensure (by decide)).bind fun _ _ => Ends.ensure (by decide)

theorem isCommon_ends (height : ℕ) (x : Header) : Ends (isCommon lib chain height x) := by
  unfold isCommon
  split
  · exact Fails.bind (Ends.liftGdk Safe.okOr) fun _ _ => Fails.pure _
  · exact Fails.pure _

/-- At the first block of a period, the block before the retarget block has been seen. -/
theorem nextRetarget_ends {height : ℕ} {x : Header} {seen : List Header} {curr : Option Retarget}
    (hcurr : ∀ r, curr = some r ↔ Pending (height + 1) seen r) :
    Ends (nextRetarget lib height x curr) := by
  unfold nextRetarget
  split
  · exact Fails.pure _
  · split
    · exact Fails.pure _
    · rename_i r
      split
      · exact Fails.pure _
      · split
        · rename_i hfirst
          -- the block that ends the period was seen 2014 blocks above
          obtain ⟨i, hi, hblock, hmod, _, hlast⟩ := (hcurr r).mp rfl
          simp only [diffchangeInterval] at hfirst hmod
          obtain rfl : i = 2014 := by omega
          obtain ⟨hlt, _⟩ := List.getElem?_eq_some_iff.mp hblock
          obtain ⟨p, hp⟩ : ∃ p, seen[2013]? = some p :=
            ⟨_, List.getElem?_eq_getElem (show 2013 < seen.length by omega)⟩
          -- the block below it is known, so that the lookup succeeds
          have hsome : r.periodLast = some p := by
            rw [hlast, if_neg (by omega)]
            exact hp
          have hunwrap : unwrap (ε := CrossValidationError) r.periodLast = .ok p := unwrap_eq_ok.mpr hsome
          exact Fails.bind (Fails.of_ok hunwrap) fun _ _ =>
            (Ends.ensure (by decide)).bind fun _ _ => Fails.pure _
        · exact Fails.pure _

theorem ForkScan.header_ends {s : ForkScan} {seen : List Header} {height : ℕ}
    (hs : s.Tracks lib input (height + 1) seen) (x : Header) : Ends (s.header lib input x) := by
  simp only [header, hs.subU32_one]
  refine Fails.bind (checkChild_ends _ _ _) fun _ _ => Fails.bind (isCommon_ends _ _) fun common _ => ?_
  split
  · exact Fails.pure _
  · refine (Ends.ensure (by decide)).bind fun _ _ => (Ends.ensure (by decide)).bind fun _ _ =>
      (Ends.ensure (by decide)).bind fun _ _ => (Ends.ensure (by decide)).bind fun _ _ => ?_
    exact (nextRetarget_ends hs.pending).bind fun _ _ => Fails.pure _

theorem ForkScan.headers_ends (ha : input.chain.Aligned lib) {l : List Header} {s : ForkScan} {top : ℕ}
    {seen : List Header} (hs : s.Tracks lib input top seen) (hb : Branch lib input top seen)
    (hl : l.length ≤ top) : Ends (s.headers lib input l) := by
  induction l generalizing s seen top with
  | nil => exact Fails.pure _
  | cons x l ih =>
    rw [List.length_cons] at hl
    obtain ⟨height, rfl⟩ := Nat.exists_eq_succ_of_ne_zero (show top ≠ 0 by omega)
    rw [headers]
    refine (header_ends hs x).bind fun result hnext => ?_
    obtain ⟨next, common⟩ := result
    cases common with
    | true => exact Fails.pure _
    | false =>
      obtain ⟨hbranch, htracks⟩ := header_iff ha hs hb x
      exact ih (htracks next hnext).2 (hbranch.mp ⟨next, hnext⟩) (by omega)

theorem checkPending_ends (retarget : Option Retarget) : Ends (checkPending lib chain retarget) := by
  cases retarget with
  | none => exact Fails.pure _
  | some r =>
    refine Fails.bind (Ends.liftGdk Safe.okOr) fun _ _ => Fails.bind ?_ fun _ _ => Ends.ensure (by decide)
    unfold Retarget.last
    split
    · exact Fails.pure _
    · exact Ends.liftGdk Safe.okOr

/-! ### The chunks -/

/-- The loop starts from height 0 and asks for no headers, which the server answers. -/
def AsksNothing (server : RemoteServer) (limit top : ℕ) : Prop :=
  limit = 0 ∧ top = 2 ^ 32 ∧ server.blockHeaders 0 0 = some []

/-- The loops do not panic, and they go on only for as many chunks as there are headers that may be
taken, or if they ask for nothing. -/
theorem scanFork_fails (ha : input.chain.Aligned lib) {fuel chunkSize top : ℕ} {s : ForkScan}
    {seen : List Header} (hs : s.Tracks lib input top seen) (hb : Branch lib input top seen)
    (hlimit : input.heightLimit < top) (hchunk : 2 ≤ chunkSize)
    (hdepth : input.tipHeight < top + maxForkDepth) :
    Fails (fun f => f ≠ .panic ∧ (f = .error .unending →
        input.tipHeight + 1 + fuel ≤ maxForkDepth + top ∨ AsksNothing server input.heightLimit top))
      (scanFork lib input server fuel chunkSize s) := by
  induction fuel generalizing chunkSize s seen top with
  | zero =>
    rintro f hf
    cases hf
    exact ⟨fun h => (by cases h), fun _ => .inl (by omega)⟩
  | succ fuel ih =>
    have htip := hs.tip
    have hheight := hs.height
    have hcurr := hs.curr
    have hbounds := chunk_bounds chunkSize hs.curr (by omega) hlimit
    have hgrows : 2 ≤ min (chunkSize / 2 * 3) maxChunkSize := by
      simp only [maxChunkSize]
      omega
    have hsource : ∀ f : Failure CrossValidationError, f ≠ .panic ∧ f ≠ .error .unending →
        f ≠ .panic ∧ (f = .error .unending → input.tipHeight + 1 + (fuel + 1) ≤ maxForkDepth + top ∨
          AsksNothing server input.heightLimit top) :=
      fun f hf => ⟨hf.1, fun h => absurd h hf.2⟩
    rw [scanFork]
    have hstart : max (s.currHeight - chunkSize) input.heightLimit < top := by omega
    generalize max (s.currHeight - chunkSize) input.heightLimit = start at hbounds hstart
    generalize subU32 s.currHeight start = size at hbounds
    refine ((Ends.okOr (by decide)).mono hsource).bind fun chunk hanswer => ?_
    refine ((Ends.ensure (by decide)).mono hsource).bind fun _ hlength => ?_
    rw [okOr_eq_ok] at hanswer
    rw [ensure_eq_ok, decide_eq_true_eq] at hlength
    rcases hbounds with hsum | ⟨hfirst, hzero, hnone, htop⟩
    · have hl : chunk.reverse.length ≤ top := by
        rw [List.length_reverse, hlength]
        omega
      refine ((ForkScan.headers_ends ha hs hb hl).mono hsource).bind fun result hnext => ?_
      obtain ⟨next, common⟩ := result
      have hok := ForkScan.headers_ok ha hs hb hl hnext
      cases common with
      | true => exact Fails.pure _
      | false =>
        obtain ⟨hs', hb'⟩ := hok
        rw [List.length_reverse, hlength, show top - size = start by omega, List.reverse_reverse] at hs' hb'
        -- a header was seen, and what holds of it bounds the chunks that are left
        obtain ⟨x, rest, hcons⟩ : ∃ x rest, chunk ++ seen = x :: rest := by
          refine List.exists_cons_of_ne_nil fun hnil => ?_
          have hempty := congrArg List.length hnil
          rw [List.length_append, List.length_nil] at hempty
          omega
        rw [hcons] at hb' hs'
        have hx := hb'.passes (i := 0) rfl
        have hfit := hs'.height
        rw [Nat.add_zero] at hx
        refine (ih hs' hb' hx.limit hgrows (by have := hx.depth; omega)).mono fun f hf =>
          ⟨hf.1, fun hend => ?_⟩
        rcases hf.2 hend with hfew | ⟨_, hlarge, _⟩
        · exact .inl (by omega)
        · have := congrArg List.length hcons
          omega
    · -- nothing was asked for
      obtain rfl : chunk = [] := List.length_eq_zero_iff.mp (hlength.trans hzero)
      rw [hzero, hfirst] at hanswer
      exact (ih hs hb hlimit hgrows hdepth).mono fun f hf =>
        ⟨hf.1, fun _ => .inr ⟨hnone, htop, hanswer⟩⟩

/-- If nothing is asked for and answered, the loop does not end. -/
theorem scanFork_endless {s : ForkScan} (hcurr : s.currHeight = 0) (hlimit : input.heightLimit = 0)
    (hanswer : server.blockHeaders 0 0 = some []) (fuel chunkSize : ℕ) :
    scanFork lib input server fuel chunkSize s = .error (.error .unending) := by
  induction fuel generalizing chunkSize with
  | zero => rfl
  | succ fuel ih =>
    have hstart : max (0 - chunkSize) 0 = 0 := by omega
    have hsize : subU32 0 0 = 0 := rfl
    rw [scanFork, hcurr, hlimit, hstart]
    simp only [hsize]
    rw [bind_of_ok (okOr_eq_ok.mpr hanswer)]
    exact ih _

/-- More chunks do not change a result. -/
theorem scanFork_mono {fuel chunkSize : ℕ} {s : ForkScan} (k : ℕ)
    (h : scanFork lib input server fuel chunkSize s ≠ .error (.error .unending)) :
    scanFork lib input server (fuel + k) chunkSize s = scanFork lib input server fuel chunkSize s := by
  induction fuel generalizing chunkSize s with
  | zero => exact absurd rfl h
  | succ fuel ih =>
    rw [Nat.add_right_comm, scanFork, scanFork]
    rw [scanFork] at h
    refine bind_congr_of_ok fun chunk hchunk => bind_congr_of_ok fun _ hlength =>
      bind_congr_of_ok fun result hnext => ?_
    rw [bind_of_ok hchunk, bind_of_ok hlength, bind_of_ok hnext] at h
    obtain ⟨next, common⟩ := result
    cases common with
    | true => rfl
    | false => exact ih h

/-! ### The branch of a server -/

section Branch

variable {fuel tipHeight : ℕ} {known : Option ℕ}

theorem getForkBranch_fails (ha : chain.Aligned lib) (htip : tipHeight < 2 ^ 32)
    (hknown : known.getD 0 ≤ tipHeight) :
    Fails (fun f => f ≠ .panic ∧ (f = .error .unending → fuel ≤ maxForkDepth ∨
        AsksNothing server (known.getD 0) (tipHeight + 1)))
      (getForkBranch lib fuel chain server tipHeight known) := by
  have hstart := ForkScan.tracks_start lib (forkInput lib chain tipHeight known) htip
  have hscan : Fails (fun f => f ≠ .panic ∧ (f = .error .unending →
        tipHeight + 1 + fuel ≤ maxForkDepth + (tipHeight + 1) ∨
          AsksNothing server (known.getD 0) (tipHeight + 1)))
      (scanFork lib (forkInput lib chain tipHeight known) server fuel initChunkSize
        ⟨(tipHeight + 1) % 2 ^ 32, 0, none, none⟩) :=
    scanFork_fails ha hstart (branch_nil _) (Nat.lt_succ_of_le hknown) (by decide)
      (show tipHeight < tipHeight + 1 + maxForkDepth by omega)
  have hsource : ∀ f : Failure CrossValidationError, f ≠ .panic ∧ f ≠ .error .unending →
      f ≠ .panic ∧ (f = .error .unending → fuel ≤ maxForkDepth ∨
        AsksNothing server (known.getD 0) (tipHeight + 1)) :=
    fun f hf => ⟨hf.1, fun h => absurd h hf.2⟩
  refine Fails.bind (hscan.mono fun f hf => ⟨hf.1, fun hend => ?_⟩) fun s _ => ?_
  · exact (hf.2 hend).imp_left fun h => by omega
  · exact ((Ends.ensure (by decide)).mono hsource).bind fun _ _ =>
      ((checkPending_ends _).mono hsource).bind fun _ _ => Fails.pure _

theorem getForkBranch_endless (h : AsksNothing server (known.getD 0) (tipHeight + 1)) :
    getForkBranch lib fuel chain server tipHeight known = .error (.error .unending) := by
  obtain ⟨hlimit, htop, hanswer⟩ := h
  have hcurr : (tipHeight + 1) % 2 ^ 32 = 0 := by omega
  have hscan : scanFork lib (forkInput lib chain tipHeight known) server fuel initChunkSize
      ⟨(tipHeight + 1) % 2 ^ 32, 0, none, none⟩ = .error (.error .unending) :=
    scanFork_endless hcurr hlimit hanswer fuel initChunkSize
  exact bind_of_error hscan

theorem getForkBranch_mono (k : ℕ)
    (h : getForkBranch lib fuel chain server tipHeight known ≠ .error (.error .unending)) :
    getForkBranch lib (fuel + k) chain server tipHeight known =
      getForkBranch lib fuel chain server tipHeight known := by
  have hscan : scanFork lib (forkInput lib chain tipHeight known) server fuel initChunkSize
      ⟨(tipHeight + 1) % 2 ^ 32, 0, none, none⟩ ≠ .error (.error .unending) :=
    fun hend => h (bind_of_error hend)
  have hmono := scanFork_mono k hscan
  simp only [forkInput, sensibleTargetThreshold] at hmono
  simp only [getForkBranch, hmono]

end Branch

/-! ### The result of a server -/

section Result

variable {url : ElectrumUrl} {fuel : ℕ}

/-- The server keeps the loop going: its tip has the largest height and is not one of the chain, nor
does the chain lag behind it above the first block, and it answers with no headers if none are asked
for. -/
def Endless (lib : BlockLib) (chain : HeadersChain) (server : RemoteServer) : Prop :=
  ∃ tip height, server.tip = some (tip, height) ∧ height % 2 ^ 32 = 2 ^ 32 - 1 ∧
    ¬ Common lib chain (height % 2 ^ 32) tip ∧
    ((Ahead lib chain server (height % 2 ^ 32) ∧ chain.height = 0) ∨
      Aside lib chain server (height % 2 ^ 32)) ∧
    server.blockHeaders 0 0 = some []

theorem localLags_ends (tipHeight : ℕ) : Ends (localLags lib chain server tipHeight) := by
  unfold localLags
  split
  · exact (Ends.okOr (by decide)).bind fun _ _ => Fails.pure _
  · exact Fails.pure _

/-- Whatever a server answers, `spv_cross_validate` does not panic, and it ends unless the server
keeps the loop going. -/
theorem spvCrossValidate_fails (ha : chain.Aligned lib) :
    Fails (fun f => f ≠ .panic ∧ (f = .error .unending → fuel ≤ maxForkDepth ∨ Endless lib chain server))
      (spvCrossValidate lib fuel chain url server) := by
  have hsource : ∀ f : Failure CrossValidationError, f ≠ .panic ∧ f ≠ .error .unending →
      f ≠ .panic ∧ (f = .error .unending → fuel ≤ maxForkDepth ∨ Endless lib chain server) :=
    fun f hf => ⟨hf.1, fun h => absurd h hf.2⟩
  -- a server without a tip
  cases hserver : server.tip with
  | none =>
    rintro f hf
    rw [spvCrossValidate, hserver] at hf
    cases hf
    exact ⟨fun h => (by cases h), fun h => (by cases h)⟩
  | some remoteTip =>
    obtain ⟨tip, height⟩ := remoteTip
    have hrange : height % 2 ^ 32 < 2 ^ 32 := Nat.mod_lt _ (by decide)
    -- a tip in the chain
    by_cases hc : Common lib chain (height % 2 ^ 32) tip
    · exact Fails.of_ok (spvCrossValidate_common ha hserver hc)
    · rw [spvCrossValidate_other ha hserver hc]
      refine ((localLags_ends _).mono hsource).bind fun ahead hlags => ?_
      rcases localLags_eq_ok.mp hlags with ⟨hahead, rfl⟩ | ⟨haside, rfl⟩
      · -- the fork is followed down to the own tip
        have hknown : (some chain.height).getD 0 ≤ height % 2 ^ 32 := hahead.1.le
        refine Fails.bind ((getForkBranch_fails ha hrange hknown).mono fun f hf =>
          ⟨hf.1, fun hend => (hf.2 hend).imp_right ?_⟩) fun _ _ => Fails.pure _
        rintro ⟨hzero, htop, hanswer⟩
        exact ⟨tip, height, hserver, by omega, hc, .inl ⟨hahead, hzero⟩, hanswer⟩
      · -- the fork is followed down to a common block
        refine Fails.bind ((getForkBranch_fails ha hrange (Nat.zero_le _)).mono fun f hf =>
          ⟨hf.1, fun hend => (hf.2 hend).imp_right ?_⟩) fun fork _ => Fails.of_ok (compareFork_eq ha fork)
        rintro ⟨_, htop, hanswer⟩
        exact ⟨tip, height, hserver, by omega, hc, .inr haside, hanswer⟩

theorem spvCrossValidate_endless (ha : chain.Aligned lib) (h : Endless lib chain server) :
    spvCrossValidate lib fuel chain url server = .error (.error .unending) := by
  obtain ⟨tip, height, hserver, hlargest, hc, hside, hanswer⟩ := h
  rw [spvCrossValidate_other ha hserver hc]
  rcases hside with ⟨hahead, hzero⟩ | haside
  · have hlags : localLags lib chain server (height % 2 ^ 32) = .ok true :=
      localLags_eq_ok.mpr (.inl ⟨hahead, rfl⟩)
    rw [bind_of_ok hlags]
    exact bind_of_error (getForkBranch_endless ⟨hzero, by omega, hanswer⟩)
  · have hlags : localLags lib chain server (height % 2 ^ 32) = .ok false :=
      localLags_eq_ok.mpr (.inr ⟨haside, rfl⟩)
    rw [bind_of_ok hlags]
    exact bind_of_error (getForkBranch_endless ⟨rfl, by omega, hanswer⟩)

theorem spvCrossValidate_mono (ha : chain.Aligned lib) (k : ℕ)
    (h : spvCrossValidate lib fuel chain url server ≠ .error (.error .unending)) :
    spvCrossValidate lib (fuel + k) chain url server = spvCrossValidate lib fuel chain url server := by
  cases hserver : server.tip with
  -- without a tip no fork is followed
  | none =>
    rw [spvCrossValidate, spvCrossValidate, hserver]
    rfl
  | some remoteTip =>
    obtain ⟨tip, height⟩ := remoteTip
    -- neither is one for a common tip
    by_cases hc : Common lib chain (height % 2 ^ 32) tip
    · rw [spvCrossValidate_common ha hserver hc, spvCrossValidate_common ha hserver hc]
    · rw [spvCrossValidate_other ha hserver hc] at h ⊢
      rw [spvCrossValidate_other ha hserver hc]
      refine bind_congr_of_ok fun ahead hahead => ?_
      rw [bind_of_ok hahead] at h
      -- both kinds of forks end with the same result
      cases ahead with
      | true =>
        have hbranch : getForkBranch lib fuel chain server (height % 2 ^ 32) (some chain.height) ≠
            .error (.error .unending) := fun hend => h (bind_of_error hend)
        rw [judgeFork, judgeFork, if_pos rfl, if_pos rfl, getForkBranch_mono k hbranch]
      | false =>
        have hbranch : getForkBranch lib fuel chain server (height % 2 ^ 32) none ≠
            .error (.error .unending) := fun hend => h (bind_of_error hend)
        rw [judgeFork, judgeFork, if_neg Bool.false_ne_true, if_neg Bool.false_ne_true,
          getForkBranch_mono k hbranch]

/-- With enough fuel, only such a server keeps the loops going. -/
theorem spvCrossValidate_unending_iff (ha : chain.Aligned lib) (hfuel : maxForkDepth < fuel) :
    spvCrossValidate lib fuel chain url server = .error (.error .unending) ↔
      Endless lib chain server := by
  refine ⟨fun h => ?_, spvCrossValidate_endless ha⟩
  rcases (spvCrossValidate_fails ha _ h).2 rfl with hfew | hend
  · omega
  · exact hend

/-- Whatever a server answers, the loops end after at most `maxForkDepth + 1` chunks, unless it
keeps them going for ever. -/
theorem spvCrossValidate_ends_iff (ha : chain.Aligned lib) (hfuel : maxForkDepth < fuel) :
    spvCrossValidate lib fuel chain url server =
        spvCrossValidate lib (maxForkDepth + 1) chain url server ∧
      (spvCrossValidate lib fuel chain url server = .error (.error .unending) ↔
        Endless lib chain server) := by
  refine ⟨?_, spvCrossValidate_unending_iff ha hfuel⟩
  by_cases hend : Endless lib chain server
  · rw [spvCrossValidate_endless ha hend, spvCrossValidate_endless ha hend]
  · obtain ⟨k, rfl⟩ := Nat.exists_eq_add_of_le (show maxForkDepth + 1 ≤ fuel from hfuel)
    refine spvCrossValidate_mono ha k fun h => hend ?_
    exact (spvCrossValidate_unending_iff ha (Nat.lt_succ_self _)).mp h

/-- A server with a tip at the largest height, and another first block. -/
def OneBlock.endless : RemoteServer where
  tip := some (next, 2 ^ 32 - 1)
  blockHeader := fun _ => some next
  blockHeaders := fun _ _ => some []

theorem OneBlock.endless_spec : Endless OneBlock.libs OneBlock.chain OneBlock.endless := by
  refine ⟨next, 2 ^ 32 - 1, rfl, by decide, ?_, .inr fun _ => ⟨next, rfl, by decide⟩, rfl⟩
  rintro ⟨own, hown, _⟩
  have hlt := (List.getElem?_eq_some_iff.mp hown).1
  revert hlt
  decide

/-- One server ends the loops, and the other does not. -/
theorem spvCrossValidate_ends_iff_oneBlock :
    spvCrossValidate OneBlock.libs 7000 OneBlock.chain OneBlock.url OneBlock.server =
        spvCrossValidate OneBlock.libs (maxForkDepth + 1) OneBlock.chain OneBlock.url OneBlock.server ∧
      spvCrossValidate OneBlock.libs 7000 OneBlock.chain OneBlock.url OneBlock.endless =
        .error (.error .unending) :=
  ⟨(spvCrossValidate_ends_iff OneBlock.aligned (by decide)).1,
    (spvCrossValidate_ends_iff OneBlock.aligned (by decide)).2.mpr OneBlock.endless_spec⟩

end Result

end SideSwap.Gdk
