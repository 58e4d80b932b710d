import SideSwap.Client.Handlers

/-!
# Registration of addresses

`updateAddressRegistrations` registers the addresses of the wallet in batches, of both kinds
together, until both counters have reached their targets or a request fails.  `Registers` is the
loop as it stands in the source, without a bound on its rounds; every run of the model is a run of
it (`registerBatches_registers`), so that the loop ends.

A batch never holds more addresses than its budget, and its unsigned arithmetic does not underflow
(`countersU32_eq`).  If all requests succeed, the batches together are exactly the pointers between
the counters and their targets (`addresses_registered`).
-/

namespace SideSwap.Client

/-! ### One batch -/

/-- The two counters of registered addresses, external and internal. -/
def World.counters (w : World) : ℕ × ℕ :=
  (w.data.settings.lastExternal.getD 0, w.data.settings.lastInternal.getD 0)

/-- The counters after a batch. -/
def nextCounters (indexes last : ℕ × ℕ) : ℕ × ℕ :=
  let newExternal := min (indexes.1 + extraAddressCount) (last.1 + maxRegisterAddressCount)
  (newExternal, min (indexes.2 + extraAddressCount)
    (last.2 + maxRegisterAddressCount - (newExternal - last.1)))

/-- A sum of `u32` values that must not overflow. -/
def addU32 (a b : ℕ) : Option ℕ := if a + b < 2 ^ 32 then some (a + b) else none

/-- A difference of `u32` values that must not underflow. -/
def subU32 (a b : ℕ) : Option ℕ := if b ≤ a then some (a - b) else none

/-- The counters after a batch, as they are computed with `u32` values. -/
def countersU32 (indexes last : ℕ × ℕ) : Option (ℕ × ℕ) := do
  let newExternal := min (← addU32 indexes.1 extraAddressCount) (← addU32 last.1 maxRegisterAddressCount)
  let externalCount ← if newExternal > last.1 then subU32 newExternal last.1 else some 0
  let limit ← subU32 (← addU32 last.2 maxRegisterAddressCount) externalCount
  let newInternal := min (← addU32 indexes.2 extraAddressCount) limit
  return (newExternal, newInternal)

/-- Where no sum overflows, no difference underflows. -/
theorem countersU32_eq {indexes last : ℕ × ℕ} (hexternal : indexes.1 + extraAddressCount < 2 ^ 32)
    (hinternal : indexes.2 + extraAddressCount < 2 ^ 32)
    (hlast : last.1 + maxRegisterAddressCount < 2 ^ 32)
    (hlast' : last.2 + maxRegisterAddressCount < 2 ^ 32) :
    countersU32 indexes last = some (nextCounters indexes last) := by
  simp only [countersU32, addU32, subU32, if_pos hexternal, if_pos hinternal, if_pos hlast,
    if_pos hlast', Option.bind_eq_bind, Option.bind_some, nextCounters, Option.pure_def]
  set newExternal := min (indexes.1 + extraAddressCount) (last.1 + maxRegisterAddressCount) with hnew
  by_cases hgrows : newExternal > last.1
  · have hfits : newExternal - last.1 ≤ last.2 + maxRegisterAddressCount := by omega
    rw [if_pos hgrows, if_pos (by omega), Option.bind_some, if_pos hfits, Option.bind_some]
  · have hzero : newExternal - last.1 = 0 := by omega
    simp only [if_neg hgrows, Option.bind_some, if_pos (Nat.zero_le _), hzero]

/-- The external pointers of a batch. -/
def externalPointers (indexes last : ℕ × ℕ) : List ℕ :=
  List.range' last.1 ((nextCounters indexes last).1 - last.1)

/-- The internal pointers of a batch. -/
def internalPointers (indexes last : ℕ × ℕ) : List ℕ :=
  List.range' last.2 ((nextCounters indexes last).2 - last.2)

/-- The addresses of a batch. -/
def batchAddresses (h : Host) (indexes last : ℕ × ℕ) : List String :=
  (externalPointers indexes last).map (fun pointer => h.address false pointer false)
    ++ (internalPointers indexes last).map fun pointer => h.address true pointer false

/-- A batch, from the counters before and after it. -/
theorem addressBatch_eq (h : Host) (indexes : ℕ × ℕ) (w : World) :
    addressBatch h indexes w.data.settings =
      ((nextCounters indexes w.counters).1, (nextCounters indexes w.counters).2,
        batchAddresses h indexes w.counters) := rfl

/-- A batch registers what the two counters gain. -/
theorem length_batchAddresses (h : Host) (indexes last : ℕ × ℕ) :
    (batchAddresses h indexes last).length
      = ((nextCounters indexes last).1 - last.1) + ((nextCounters indexes last).2 - last.2) := by
  simp [batchAddresses, externalPointers, internalPointers]

/-- A batch keeps to its budget. -/
theorem length_batchAddresses_le (h : Host) (indexes last : ℕ × ℕ) :
    (batchAddresses h indexes last).length ≤ maxRegisterAddressCount := by
  rw [length_batchAddresses]
  simp only [nextCounters]
  omega

/-- What is left to register. -/
def remaining (indexes last : ℕ × ℕ) : ℕ :=
  (indexes.1 + extraAddressCount - last.1) + (indexes.2 + extraAddressCount - last.2)

/-- A batch that is not empty leaves less to register. -/
theorem remaining_next {h : Host} {indexes last : ℕ × ℕ} (hsome : batchAddresses h indexes last ≠ []) :
    remaining indexes (nextCounters indexes last) < remaining indexes last := by
  have hpos := List.length_pos_iff.mpr hsome
  rw [length_batchAddresses] at hpos
  unfold remaining
  simp only [nextCounters] at hpos ⊢
  omega

/-! ### The loop -/

/-- A request with the counters before it, and whether it succeeded. -/
structure Batch where
  last : ℕ × ℕ
  ok : Bool

/-- The request of a batch. -/
abbrev batchRequest (h : Host) (deviceKey : String) (indexes last : ℕ × ℕ) : Request :=
  .registerAddresses deviceKey (batchAddresses h indexes last)

/-- The counters are stored after a batch. -/
def World.storeCounters (h : Host) (w : World) (next : ℕ × ℕ) : World :=
  let stored := w.modifyData fun d => { d with settings := { d.settings with
    lastExternal := some next.1, lastInternal := some next.2 } }
  let saved := { stored with calls := stored.calls + 1 }
  if h.saveSucceeds stored.calls then { saved with disk := saved.data.settings } else saved

/-- The loop of the source: it ends with an empty batch or with a request that fails. -/
inductive Registers (h : Host) (deviceKey : String) (indexes : ℕ × ℕ) :
    World → List Batch → World → Prop where
  | done {w : World} (empty : batchAddresses h indexes w.counters = []) :
      Registers h deviceKey indexes w [] w
  | refused {w : World} {e : String} (nonempty : batchAddresses h indexes w.counters ≠ [])
      (answer : h.server w.calls (batchRequest h deviceKey indexes w.counters) = .error e) :
      Registers h deviceKey indexes w [⟨w.counters, false⟩]
        (w.asked (batchRequest h deviceKey indexes w.counters) (.error e))
  | again {w w' : World} {batches : List Batch}
      {a : (batchRequest h deviceKey indexes w.counters).Answer}
      (nonempty : batchAddresses h indexes w.counters ≠ [])
      (answer : h.server w.calls (batchRequest h deviceKey indexes w.counters) = .ok a)
      (rest : Registers h deviceKey indexes
        ((w.asked (batchRequest h deviceKey indexes w.counters) (.ok a)).storeCounters h
          (nextCounters indexes w.counters)) batches w') :
      Registers h deviceKey indexes w (⟨w.counters, true⟩ :: batches) w'

variable {ε : Type}

/-- A request whose failure is handled. -/
theorem attempt_request_ok {h : Host} {r : Request} {w : World} {a : r.Answer}
    (hanswer : h.server w.calls r = .ok a) :
    (Proc.attempt (request h r) : Worker ε (Except String r.Answer)) w
      = .ok (.ok a) (w.asked r (.ok a)) := by
  rw [Proc.attempt, request, requestOr_apply, hanswer]

/-- A request that fails leaves its answer and nothing else. -/
theorem attempt_request_error {h : Host} {r : Request} {w : World} {e : String}
    (hanswer : h.server w.calls r = .error e) :
    (Proc.attempt (request h r) : Worker ε (Except String r.Answer)) w
      = .ok (.error e) (w.asked r (.error e)) := by
  rw [Proc.attempt, request, requestOr_apply, hanswer]
  rfl

/-- The counters that are stored are the ones read next. -/
theorem counters_storeCounters (h : Host) (w : World) (next : ℕ × ℕ) :
    (w.storeCounters h next).counters = next := by
  unfold World.storeCounters
  dsimp only
  split <;> rfl

/-- Whatever the server answers, the loop ends, and the model has enough rounds for it. -/
theorem registerBatches_registers (h : Host) (deviceKey : String) (indexes : ℕ × ℕ) (n : ℕ) (w : World)
    (hn : remaining indexes w.counters ≤ n) :
    ∃ batches w', (registerBatches h deviceKey indexes n : Worker ε Unit) w = .ok () w'
      ∧ Registers h deviceKey indexes w batches w' := by
  have hget (w : World) : (getData : Worker ε Data) w = .ok w.data w := rfl
  induction n generalizing w with
  -- no address is left to register, and so the batch is empty
  | zero =>
    have hempty : batchAddresses h indexes w.counters = [] := by
      by_contra hsome
      have := remaining_next hsome
      omega
    exact ⟨[], w, rfl, .done hempty⟩
  | succ n ih =>
    -- an empty batch ends the loop
    by_cases hempty : batchAddresses h indexes w.counters = []
    · refine ⟨[], w, ?_, .done hempty⟩
      rw [registerBatches, Proc.bind_ok (hget w), addressBatch_eq]
      dsimp only
      rw [if_pos (List.isEmpty_iff.mpr hempty)]
      rfl
    · have hsome : ¬ (batchAddresses h indexes w.counters).isEmpty = true :=
        fun h => hempty (List.isEmpty_iff.mp h)
      cases hanswer : h.server w.calls (batchRequest h deviceKey indexes w.counters) with
      -- a batch that is refused ends the loop, too
      | error e =>
        refine ⟨_, _, ?_, .refused hempty hanswer⟩
        rw [registerBatches, Proc.bind_ok (hget w), addressBatch_eq]
        dsimp only
        rw [if_neg hsome, Proc.bind_ok (attempt_request_error hanswer)]
        rfl
      | ok a =>
        -- otherwise the counters are stored, and there is less left for the other rounds
        set w₁ := (w.asked (batchRequest h deviceKey indexes w.counters) (.ok a)).storeCounters h
          (nextCounters indexes w.counters) with hw₁
        have hcounters : w₁.counters = nextCounters indexes w.counters := counters_storeCounters _ _ _
        have hless := remaining_next hempty
        obtain ⟨batches, w', hrun, hregisters⟩ := ih w₁ (by rw [hcounters]; omega)
        refine ⟨_, w', ?_, .again hempty hanswer hregisters⟩
        rw [registerBatches, Proc.bind_ok (hget w), addressBatch_eq]
        dsimp only
        rw [if_neg hsome, Proc.bind_ok (attempt_request_ok hanswer)]
        exact hrun

/-! ### What a run registers -/

section

variable {h : Host} {deviceKey : String} {indexes : ℕ × ℕ} {w w' : World} {batches : List Batch}

/-- Every request has addresses, and not more than its budget. -/
theorem Registers.length_addresses (hrun : Registers h deviceKey indexes w batches w') :
    ∀ b ∈ batches, 1 ≤ (batchAddresses h indexes b.last).length
      ∧ (batchAddresses h indexes b.last).length ≤ maxRegisterAddressCount := by
  induction hrun with
  | done => simp
  | refused nonempty answer =>
    intro b hb
    rw [List.mem_singleton.mp hb]
    exact ⟨List.length_pos_iff.mpr nonempty, length_batchAddresses_le _ _ _⟩
  | again nonempty answer rest ih =>
    intro b hb
    rcases List.mem_cons.mp hb with rfl | hb
    · exact ⟨List.length_pos_iff.mpr nonempty, length_batchAddresses_le _ _ _⟩
    · exact ih b hb

/-- To store the counters is no event. -/
theorem log_storeCounters (h : Host) (w : World) (next : ℕ × ℕ) :
    (w.storeCounters h next).log = w.log := by
  unfold World.storeCounters
  dsimp only
  split <;> rfl

/-- An event is the request of a batch, with an answer of its kind. -/
def Batch.Sent (h : Host) (deviceKey : String) (indexes : ℕ × ℕ) (b : Batch) (e : Event) : Prop :=
  ∃ answer, e = .request (batchRequest h deviceKey indexes b.last) answer ∧ answer.isOk = b.ok

/-- The run sends the requests of its batches, in their order, and nothing else. -/
theorem Registers.log (hrun : Registers h deviceKey indexes w batches w') :
    ∃ events, w'.log = events ++ w.log
      ∧ List.Forall₂ (Batch.Sent h deviceKey indexes) batches events.reverse := by
  induction hrun with
  | done => exact ⟨[], rfl, .nil⟩
  | refused nonempty answer =>
    exact ⟨[.request _ _], rfl, .cons ⟨_, rfl, rfl⟩ .nil⟩
  | @again w w' batches a nonempty answer rest ih =>
    obtain ⟨events, hlog, hsent⟩ := ih
    refine ⟨events ++ [.request (batchRequest h deviceKey indexes w.counters) (.ok a)], ?_, ?_⟩
    · rw [hlog, log_storeCounters, List.append_assoc]
      rfl
    · rw [List.reverse_append]
      exact .cons ⟨_, rfl, rfl⟩ hsent

/-- The counters after the batches: only a request that succeeds moves them. -/
def countersAfter (indexes : ℕ × ℕ) : ℕ × ℕ → List Batch → ℕ × ℕ
  | last, [] => last
  | last, b :: batches =>
    countersAfter indexes (if b.ok then nextCounters indexes last else last) batches

/-- Each batch starts from the counters that the ones before it have left. -/
def Consecutive (indexes : ℕ × ℕ) : ℕ × ℕ → List Batch → Prop
  | _, [] => True
  | last, b :: batches => b.last = last
      ∧ Consecutive indexes (if b.ok then nextCounters indexes last else last) batches

/-- The batches follow one another, and the last counters are stored. -/
theorem Registers.counters (hrun : Registers h deviceKey indexes w batches w') :
    Consecutive indexes w.counters batches ∧ w'.counters = countersAfter indexes w.counters batches := by
  induction hrun with
  | done => exact ⟨trivial, rfl⟩
  | refused nonempty answer => exact ⟨⟨rfl, trivial⟩, rfl⟩
  | again nonempty answer rest ih =>
    rw [counters_storeCounters] at ih
    exact ⟨⟨rfl, ih.1⟩, ih.2⟩

/-- The counters do not pass their targets, and only grow below them. -/
theorem nextCounters_bounds {last : ℕ × ℕ} (h₁ : last.1 ≤ indexes.1 + extraAddressCount)
    (h₂ : last.2 ≤ indexes.2 + extraAddressCount) :
    last.1 ≤ (nextCounters indexes last).1
      ∧ (nextCounters indexes last).1 ≤ indexes.1 + extraAddressCount
      ∧ last.2 ≤ (nextCounters indexes last).2
      ∧ (nextCounters indexes last).2 ≤ indexes.2 + extraAddressCount := by
  simp only [nextCounters]
  omega

/-- Two ranges that follow each other. -/
theorem range'_split {a b c : ℕ} (hab : a ≤ b) (hbc : b ≤ c) :
    List.range' a (b - a) ++ List.range' b (c - b) = List.range' a (c - a) := by
  have hb : b = a + (b - a) := by omega
  have hlen : c - a = (b - a) + (c - b) := by omega
  rw [hlen, ← List.range'_append_1, ← hb]

/-- If no request fails, the batches are the pointers up to the targets, each once. -/
theorem Registers.pointers (hrun : Registers h deviceKey indexes w batches w')
    (hok : ∀ b ∈ batches, b.ok = true) (h₁ : w.counters.1 ≤ indexes.1 + extraAddressCount)
    (h₂ : w.counters.2 ≤ indexes.2 + extraAddressCount) :
    batches.flatMap (fun b => externalPointers indexes b.last)
        = List.range' w.counters.1 (indexes.1 + extraAddressCount - w.counters.1)
      ∧ batches.flatMap (fun b => internalPointers indexes b.last)
        = List.range' w.counters.2 (indexes.2 + extraAddressCount - w.counters.2)
      ∧ w'.counters = (indexes.1 + extraAddressCount, indexes.2 + extraAddressCount) := by
  induction hrun with
  -- an empty batch means that both counters have been reached
  | @done w empty =>
    have hlen := congrArg List.length empty
    rw [length_batchAddresses, List.length_nil] at hlen
    have hreached : w.counters.1 = indexes.1 + extraAddressCount
        ∧ w.counters.2 = indexes.2 + extraAddressCount := by
      unfold maxRegisterAddressCount extraAddressCount nextCounters at *
      simp only [extraAddressCount, maxRegisterAddressCount] at hlen
      omega
    refine ⟨?_, ?_, Prod.ext hreached.1 hreached.2⟩
    · rw [hreached.1, Nat.sub_self]
      rfl
    · rw [hreached.2, Nat.sub_self]
      rfl
  | refused nonempty answer =>
    have := hok _ (List.mem_singleton_self _)
    cases this
  -- a batch continues the two ranges where the counters stand
  | @again w w' batches a nonempty answer rest ih =>
    obtain ⟨hge₁, hle₁, hge₂, hle₂⟩ := nextCounters_bounds h₁ h₂
    rw [counters_storeCounters] at ih
    obtain ⟨hext, hint, hend⟩ := ih (fun b hb => hok b (List.mem_cons_of_mem _ hb)) hle₁ hle₂
    rw [List.flatMap_cons, List.flatMap_cons, hext, hint]
    exact ⟨range'_split hge₁ hle₁, range'_split hge₂ hle₂, hend⟩

end

/-- For every wallet and all stored counters, whatever the server answers: the loop ends.  Each
request has between one and a hundred addresses, computed without underflow where no sum overflows;
they are what is sent, and only those that succeed move the counters.  If the counters are not past
their targets and all requests succeed, the batches are the pointers from the counters to the
targets, each exactly once, and the counters end at the targets. -/
theorem addresses_registered (h : Host) (w : World) (deviceKey : String) (c : Context)
    (connected : w.data.connected = true) (device : w.data.settings.deviceKey = some deviceKey)
    (wallet : w.data.ctx = some c) :
    ∃ batches w', (updateAddressRegistrations h : Worker ε Unit) w = .ok () w'
      ∧ Registers h deviceKey (h.indexes w.calls) { w with calls := w.calls + 1 } batches w'
      ∧ (∀ b ∈ batches, 1 ≤ (batchAddresses h (h.indexes w.calls) b.last).length
        ∧ (batchAddresses h (h.indexes w.calls) b.last).length ≤ maxRegisterAddressCount)
      ∧ (∀ b ∈ batches, (h.indexes w.calls).1 + extraAddressCount < 2 ^ 32 →
        (h.indexes w.calls).2 + extraAddressCount < 2 ^ 32 →
        b.last.1 + maxRegisterAddressCount < 2 ^ 32 → b.last.2 + maxRegisterAddressCount < 2 ^ 32 →
        countersU32 (h.indexes w.calls) b.last = some (nextCounters (h.indexes w.calls) b.last))
      ∧ (∃ events, w'.log = events ++ w.log
        ∧ List.Forall₂ (Batch.Sent h deviceKey (h.indexes w.calls)) batches events.reverse)
      ∧ Consecutive (h.indexes w.calls) w.counters batches
      ∧ w'.counters = countersAfter (h.indexes w.calls) w.counters batches
      ∧ (w.counters.1 ≤ (h.indexes w.calls).1 + extraAddressCount →
        w.counters.2 ≤ (h.indexes w.calls).2 + extraAddressCount → (∀ b ∈ batches, b.ok = true) →
        batches.flatMap (fun b => externalPointers (h.indexes w.calls) b.last)
            = List.range' w.counters.1 ((h.indexes w.calls).1 + extraAddressCount - w.counters.1)
          ∧ batches.flatMap (fun b => internalPointers (h.indexes w.calls) b.last)
            = List.range' w.counters.2 ((h.indexes w.calls).2 + extraAddressCount - w.counters.2)
          ∧ w'.counters
            = ((h.indexes w.calls).1 + extraAddressCount, (h.indexes w.calls).2 + extraAddressCount)) := by
  set indexes := h.indexes w.calls with hindexes
  -- the bound that the model gives the loop is never reached
  have hfuel : remaining indexes w.counters ≤ indexes.1 + indexes.2 + 2 * extraAddressCount := by
    unfold remaining
    omega
  obtain ⟨batches, w', hrun, hregisters⟩ := registerBatches_registers (ε := ε) h deviceKey indexes
    (indexes.1 + indexes.2 + 2 * extraAddressCount) { w with calls := w.calls + 1 } hfuel
  have happly : (updateAddressRegistrations h : Worker ε Unit) w =
      registerBatches h deviceKey indexes (indexes.1 + indexes.2 + 2 * extraAddressCount)
        -- with a connection, a device key and a wallet the call is the loop
        { w with calls := w.calls + 1 } := by
    have hget : (getData : Worker ε Data) w = .ok w.data w := rfl
    rw [updateAddressRegistrations, Proc.bind_ok hget, connected, device, wallet]
    rfl
  obtain ⟨hconsecutive, hcounters⟩ := hregisters.counters
  refine ⟨batches, w', happly.trans hrun, hregisters, hregisters.length_addresses, ?_, hregisters.log,
    hconsecutive, hcounters, fun h₁ h₂ hok => hregisters.pointers hok h₁ h₂⟩
  intro b _ hexternal hinternal hlast hlast'
  exact countersU32_eq hexternal hinternal hlast hlast'

namespace Sample

/-- A server that registers addresses. -/
def registrar : (r : Request) → Except String r.Answer
  | .registerAddresses .. => .ok ()
  | r => plainServer [] (fun _ => .error "no links") (fun _ => .error "nothing to sign") r

/-- A device that has registered ten external addresses. -/
def registering : World :=
  { World.new with
    data := { Data.initial { Settings.default with deviceKey := some "device", lastExternal := some 10 } with
      connected := true, ctx := some (freshContext "wallet" none) } }

end Sample

/-- The other ninety external addresses and the first internal ones are registered together. -/
theorem addresses_registered_ten :
    ∃ batches w', (updateAddressRegistrations (plainHost Sample.registrar ∅ ∅) : Worker String Unit)
        Sample.registering = .ok () w'
      ∧ (∀ b ∈ batches, 1 ≤ (batchAddresses (plainHost Sample.registrar ∅ ∅) (0, 0) b.last).length
        ∧ (batchAddresses (plainHost Sample.registrar ∅ ∅) (0, 0) b.last).length ≤ 100)
      ∧ w'.counters = countersAfter (0, 0) (10, 0) batches
      ∧ ((∀ b ∈ batches, b.ok = true) →
        batches.flatMap (fun b => externalPointers (0, 0) b.last) = List.range' 10 90
          ∧ batches.flatMap (fun b => internalPointers (0, 0) b.last) = List.range' 0 100
          ∧ w'.counters = (100, 100)) := by
  obtain ⟨batches, w', hrun, -, hlength, -, -, -, hcounters, hall⟩ := addresses_registered (ε := String)
    (plainHost Sample.registrar ∅ ∅) Sample.registering "device" _ rfl rfl rfl
  exact ⟨batches, w', hrun, hlength, hcounters, fun hok => hall (by decide) (by decide) hok⟩

end SideSwap.Client
