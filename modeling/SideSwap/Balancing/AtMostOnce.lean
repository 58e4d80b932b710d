import SideSwap.Balancing.Record

/-!
# Effects of a transfer happen at most once

`lives` cuts the effects of a run at the creations of records.  In each part every kind of effect
should occur at most once.  A crash between an effect and the end of the following `saveStorage`
breaks this (`repeated_after_crash`): the restarted dealer finds the record as it was before the
effect and repeats it.

`once_of_no_interruption` shows that there is no other way to repeat an effect.  Its invariant
`Spent` adds to the effects of the current life those that the record on file still has ahead of
it (`TransferState.pending`): together they are at most one of each kind.
-/

namespace SideSwap.Balancing

/-! ### Counting effects -/

/-- The effects of each record, newest record first; the last list is what came before the first
record. -/
def lives (es : List Effect) : List (List Effect) := es.splitOnP fun e => decide (e = .created)

/-- How often effects of a kind have happened. -/
def countKind (k : Kind) (es : List Effect) : ℕ := es.countP fun e => decide (e.kind = some k)

/-- The effects that a record in this state still has ahead of it. -/
def TransferState.pending : TransferState → List Kind
  | .sendUsdtNew => [.send]
  | .recvUsdtNew => [.withdraw]
  | .sendBtcNew => [.send, .transfer]
  | .sendBtcWaitLbtcBalance => [.transfer]
  | .recvBtcNew => [.transfer, .withdraw]
  | .recvBtcWaitLbtcBalance => [.withdraw]
  | _ => []

/-- The kinds of effects that a record may still have. -/
def pendingKinds : Option Transfer → List Kind
  | none => []
  | some b => b.state.pending

theorem lives_created (es : List Effect) : lives (.created :: es) = [] :: lives es := by
  simp [lives, List.splitOnP_cons_eq_if_modifyHead]

theorem lives_cons {e : Effect} (he : e ≠ .created) (es : List Effect) :
    lives (e :: es) = (lives es).modifyHead (List.cons e) := by
  simp [lives, List.splitOnP_cons_eq_if_modifyHead, he]

/-- Moving on does not bring back an effect. -/
theorem Follows.pending_le {s s' : TransferState} (h : Follows s s') (k : Kind) :
    s'.pending.count k ≤ s.pending.count k := by
  have hn := h.next
  cases s <;> cases hn <;> cases k <;> decide

/-- Moving on after an effect uses it up. -/
theorem Follows.pending_issues {s s' : TransferState} {k : Kind} (h : Follows s s')
    (hk : s.issues = some k) (j : Kind) :
    s'.pending.count j + (if j = k then 1 else 0) ≤ s.pending.count j := by
  have hn := h.next
  cases s <;> cases hn <;> cases hk <;> cases j <;> decide

/-! ### The invariant -/

/-- What the current record has done and still has to do is at most one effect of each kind, and
the earlier records have done no more. -/
def Spent (es : List Effect) (b : Option Transfer) : Prop :=
  ∃ L Ls, lives es = L :: Ls ∧ (∀ k, countKind k L + (pendingKinds b).count k ≤ 1) ∧
    ∀ L' ∈ Ls, ∀ k, countKind k L' ≤ 1

/-- A record that may do less keeps the bound. -/
theorem Spent.weaken {es : List Effect} {b b' : Option Transfer} (h : Spent es b)
    (hle : ∀ k, (pendingKinds b').count k ≤ (pendingKinds b).count k) : Spent es b' := by
  obtain ⟨L, Ls, hL, hcur, hold⟩ := h
  refine ⟨L, Ls, hL, fun k => ?_, hold⟩
  have := hcur k
  have := hle k
  omega

/-- A new record starts a new life. -/
theorem Spent.created {es : List Effect} {b b' : Option Transfer} (h : Spent es b)
    (hb' : ∀ k, (pendingKinds b').count k ≤ 1) : Spent (.created :: es) b' := by
  obtain ⟨L, Ls, hL, hcur, hold⟩ := h
  refine ⟨[], L :: Ls, by rw [lives_created, hL], ?_, ?_⟩
  · intro k
    simpa [countKind] using hb' k
  · intro L' hL' k
    rcases List.mem_cons.mp hL' with rfl | hL'
    · have := hcur k
      omega
    · exact hold L' hL' k

/-- An effect can be added if it was still ahead. -/
theorem Spent.effect {es : List Effect} {b b' : Option Transfer} {e : Effect} (h : Spent es b)
    (he : e ≠ .created)
    (hle : ∀ k, (pendingKinds b').count k + (if e.kind = some k then 1 else 0) ≤
      (pendingKinds b).count k) : Spent (e :: es) b' := by
  obtain ⟨L, Ls, hL, hcur, hold⟩ := h
  refine ⟨e :: L, Ls, by rw [lives_cons he, hL]; rfl, fun k => ?_, hold⟩
  have h1 := hcur k
  have h2 := hle k
  have h3 : countKind k (e :: L) = countKind k L + if e.kind = some k then 1 else 0 := by
    simp [countKind, List.countP_cons]
  rw [h3]
  omega

/-- A new record may do each kind of effect once. -/
theorem newTransfer_pending (now : ℕ) (req : CliRequest) (k : Kind) :
    (pendingKinds (some (newTransfer now req))).count k ≤ 1 := by
  cases req <;> cases k <;> simp [pendingKinds, newTransfer, CliRequest.plan, TransferState.pending]

/-- A move that does an effect takes it from what the record may still do. -/
theorem Move.spent {es es' : List Effect} {b b' : Option Transfer} (h : Move b es' b')
    (hs : Spent es b) : Spent (es' ++ es) b' := by
  cases h with
  | keep b => exact hs
  | start now req => exact hs.created (newTransfer_pending now req)
  | issue b e k s now txid hk he hf ht =>
    refine hs.effect ?_ fun j => ?_
    · rintro rfl
      cases he
    · have := hf.pending_issues hk j
      simpa [pendingKinds, he, eq_comm] using this
  | withdrawId b id s now hid hf hn => exact hs.weaken hf.pending_le
  | complete b now hf => exact hs.weaken fun k => by simp [pendingKinds, TransferState.pending]
  | fail b now => exact hs.weaken fun k => by simp [pendingKinds, TransferState.pending]
  | remove b hc =>
    refine hs.effect (by simp) fun k => ?_
    simp [pendingKinds, Effect.kind]

/-- The effects of a move that leaves the old record on file do no harm if they are only the
beginning or the end of a record. -/
theorem Move.spent_of_lost {es es' : List Effect} {b b' : Option Transfer} (h : Move b es' b')
    (hes : ∀ e ∈ es', e.kind = none) (hs : Spent es b) : Spent (es' ++ es) b := by
  cases h with
  | start now req => exact hs.created fun k => by simp [pendingKinds]
  | issue b e k s now txid hk he hf ht =>
    have := hes e (by simp)
    rw [he] at this
    cases this
  | remove b hc =>
    refine hs.effect (by simp) fun k => ?_
    simp [Effect.kind]
  | _ => exact hs

/-! ### Runs -/

/-- The message is not interrupted between an external effect and the end of the following
`saveStorage`. -/
def Safe (args : Args) (w : World) (i : Input) : Prop :=
  Interrupted i.crashAt → ¬ Acts args w i.msg

/-- Without a crash between an effect and its save, a handler keeps the bound. -/
theorem handle_spent (args : Args) (i : Input) {w : World} (hsafe : Safe args w i)
    (hs : Spent w.effects w.file.balancing) (hf : w.file = w.storage) :
    Spent ((machine args).handle i w).state.effects
      ((machine args).handle i w).state.file.balancing := by
  obtain ⟨es, b, hmove, h, -⟩ := handle_state args i hf
  rcases h with ⟨h1, h2⟩ | ⟨h1, h2⟩ | ⟨h1, h2, hint, hacts⟩ <;> rw [h1, h2]
  · exact hs
  · exact hmove.spent hs
  · refine hmove.spent_of_lost (fun e he => ?_) hs
    by_contra hk
    exact hsafe hint (hacts ⟨e, he, hk⟩)

/-- If no message is interrupted between an effect and the end of the following save, then no
record ever sends coins, withdraws or transfers twice. -/
theorem once_of_no_interruption (args : Args) (xs : List (Feed Input))
    (h : (machine args).Along (Safe args) start xs) :
    ∀ L ∈ lives ((machine args).run start xs).state.effects, ∀ k, countKind k L ≤ 1 := by
  have hspent : Spent ((machine args).run start xs).state.effects
      ((machine args).run start xs).state.file.balancing := by
    refine (Machine.run_life_invariant (I := fun w => Spent w.effects w.file.balancing)
      (A := fun w => w.file = w.storage) ?_ h ?_ ?_).1
    · refine ⟨⟨[], [], rfl, fun k => ?_, ?_⟩, fun _ => rfl⟩
      · simp [countKind, start, World.init, pendingKinds]
      · rintro L' ⟨⟩
    · intro w i hsafe hs hf
      obtain ⟨es, b, -, -, hret⟩ := handle_state args i hf
      exact ⟨handle_spent args i hsafe hs hf, hret⟩
    · intro w hs
      refine ⟨hs, ?_⟩
      rintro u w' ⟨⟩
      rfl
  obtain ⟨L, Ls, hL, hcur, hold⟩ := hspent
  intro L' hL' k
  rw [hL] at hL'
  rcases List.mem_cons.mp hL' with rfl | hL'
  · have := hcur k
    omega
  · exact hold L' hL' k

/-- The settings of a dealer on the main network. -/
def sampleArgs : Args :=
  { mainnet := true, balancingEnabled := true, bitfinexKey := "key", bitfinexSecret := "secret"
    bitfinexWithdrawAddress := "withdraw", bitfinexFundAddress := "fund"
    bitfinexCurrencyBtc := "BTC", bitfinexCurrencyLbtc := "LBT", bitfinexCurrencyUsdt := "UST" }

/-- A tick with two of everything in the wallet and a working node. -/
def sampleTick : Tick :=
  { walletBalances := fun _ => some (F64.lit 2 1)
    walletBalancesConfirmed := fun _ => some (F64.lit 2 1)
    exchangeBalances := fun _ => some (F64.lit 2 1)
    moduleConnected := true
    assetId := fun _ => some "asset"
    recentlyHedged := false
    rpcResult := .ok "txid" }

/-- One bitcoin is to be sent; the process is restarted after the tick that sends it, which ends
at the given point. -/
def sampleRun (crashAt : Option Point) : List (Feed Input) :=
  [.deliver ⟨.cli (.testSendBtc (F64.lit 1 1)), 100, none⟩,
    .deliver ⟨.timer sampleTick, 101, crashAt⟩,
    .restart,
    .deliver ⟨.timer sampleTick, 102, none⟩]

theorem once_of_no_interruption_sample :
    (machine sampleArgs).Along (Safe sampleArgs) start (sampleRun (some .saved)) ∧
      ∀ L ∈ lives ((machine sampleArgs).run start (sampleRun (some .saved))).state.effects,
        ∀ k, countKind k L ≤ 1 := by
  have h : (machine sampleArgs).Along (Safe sampleArgs) start (sampleRun (some .saved)) := by
    refine Machine.along_of_mem start fun i hi w hint => ?_
    exfalso
    simp only [sampleRun, List.mem_cons, Feed.deliver.injEq, reduceCtorEq, List.not_mem_nil,
      or_false, false_or] at hi
    rcases hi with rfl | rfl | rfl <;> revert hint <;> decide
  exact ⟨h, once_of_no_interruption sampleArgs _ h⟩

/-- The bitcoin is sent twice if the process crashes right after sending it. -/
theorem repeated_after_crash :
    ∃ L ∈ lives ((machine sampleArgs).run start (sampleRun (some .issued))).state.effects,
      1 < countKind .send L := by
  decide +kernel

end SideSwap.Balancing
