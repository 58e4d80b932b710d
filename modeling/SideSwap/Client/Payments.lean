import SideSwap.Client.AcceptedSwap

/-!
# Plain transactions: what is broadcast

The user creates a transaction (`createTx`), is shown its fee, and sends it (`sendTx`).  Between the
two it waits in the slot `sendTx`, which is filled by a successful creation, emptied before the
transaction is signed, and emptied by everything that cleans up the swaps.  A creation that fails
leaves the slot as it is.

`broadcasts_created` is the rule for a history: what is broadcast is a signature of the transaction
of the last `CreateTx`, whose fee was reported, and which has not been broadcast yet.  It holds as
long as no `SendTx` arrives after a failed `CreateTx` while an older transaction waits
(`SendsCreated`).
-/

namespace SideSwap.Client

open History Proc

variable {h : Host} {ε : Type}

/-! ### Questions to the history -/

/-- The transaction of a `CreateTx` whose fee has been reported.  A further `CreateTx` replaces it,
and a broadcast uses it up. -/
def creation (e : Event) (older : List Event) : Option (Option TransactionMeta) :=
  match e, older with
  | .toUi (.createTxResult (.ok fee)), .createTransaction _ (some tx) :: _ =>
    if fee = tx.fee then some (some tx) else none
  | .received (.ui (.createTx _)), _ => some none
  | .broadcast _, _ => some none
  | _, _ => none

/-- The transaction of the last `CreateTx`, if it was built, reported and not broadcast yet. -/
def created (log : List Event) : Option TransactionMeta := (latest creation log).join

/-- A `CreateTx` counts as failed until its transaction is built. -/
def failure (e : Event) (_ : List Event) : Option Bool :=
  match e with
  | .received (.ui (.createTx _)) => some true
  | .createTransaction _ _ => some false
  | _ => none

/-- The last `CreateTx` has failed. -/
def createFailed (log : List Event) : Bool := (latest failure log).getD false

/-- What is broadcast is a signature of the transaction that was created last. -/
def BroadcastCreated (h : Host) (e : Event) (older : List Event) : Prop :=
  match e with
  | .broadcast signed => ∃ tx n, created older = some tx ∧ h.signTransaction n tx = .ok signed
  | _ => True

/-- No `SendTx` comes after a failed `CreateTx` while an older transaction waits. -/
def sendsCreated (w : World) : Message → Bool
  | .ui (.sendTx _) => (sendTxOf w).isNone || !createFailed w.log
  | _ => true

/-- The payment that a message sends is the one that was shown last. -/
def SendsCreated (w : World) (msg : Message) : Prop := sendsCreated w msg = true

instance (w : World) (msg : Message) : Decidable (SendsCreated w msg) :=
  inferInstanceAs (Decidable (sendsCreated w msg = true))

/-! ### Steps that do not concern payments -/

/-- The event neither prepares nor sends a payment. -/
def Event.paymentFree : Event → Bool
  | .createTransaction .. | .broadcast _ | .received (.ui (.createTx _)) => false
  | _ => true

/-- The slot keeps its transaction or is emptied, and at most one event is added. -/
structure Unpaid (w w' : World) : Prop where
  slot : ∀ s, sendTxOf w' = some s → sendTxOf w = some s
  log : w'.log = w.log ∨ ∃ e, e.paymentFree = true ∧ w'.log = e :: w.log

/-- No creation is being reported. -/
def Reported (log : List Event) : Prop :=
  ∀ details tx older, log ≠ .createTransaction details tx :: older

theorem creation_of_free {e : Event} (he : e.paymentFree = true) {older : List Event}
    (hreported : Reported older) : creation e older = none := by
  unfold creation
  split
  · next fee details tx rest => exact absurd rfl (hreported details (some tx) rest)
  · cases he
  · cases he
  · rfl

theorem failure_of_free {e : Event} (he : e.paymentFree = true) (older : List Event) :
    failure e older = none := by
  unfold failure
  split
  · cases he
  · cases he
  · rfl

theorem broadcastCreated_of_free {e : Event} (he : e.paymentFree = true) (older : List Event) :
    BroadcastCreated h e older := by
  unfold BroadcastCreated
  split
  · cases he
  · trivial

theorem reported_of_free {e : Event} (he : e.paymentFree = true) (older : List Event) :
    Reported (e :: older) := by
  intro details tx rest heq
  obtain ⟨rfl, -⟩ := List.cons.inj heq
  cases he

theorem created_cons {e : Event} {log : List Event} (he : creation e log = none) :
    created (e :: log) = created log := by
  rw [created, latest_cons_of_none he, created]

theorem createFailed_cons {e : Event} {log : List Event} (he : failure e log = none) :
    createFailed (e :: log) = createFailed log := by
  rw [createFailed, latest_cons_of_none he, createFailed]

namespace Unpaid

variable {w w' : World}

theorem reported (q : Unpaid w w') (hw : Reported w.log) : Reported w'.log := by
  rcases q.log with hlog | ⟨e, he, hlog⟩
  · rwa [hlog]
  · rw [hlog]
    exact reported_of_free he w.log

theorem created (q : Unpaid w w') (hw : Reported w.log) :
    Client.created w'.log = Client.created w.log := by
  rcases q.log with hlog | ⟨e, he, hlog⟩
  · rw [hlog]
  · rw [hlog, created_cons (creation_of_free he hw)]

theorem createFailed (q : Unpaid w w') : Client.createFailed w'.log = Client.createFailed w.log := by
  rcases q.log with hlog | ⟨e, he, hlog⟩
  · rw [hlog]
  · rw [hlog, createFailed_cons (failure_of_free he w.log)]

theorem of_slot (hslot : sendTxOf w' = sendTxOf w) {e : Event} (he : e.paymentFree = true)
    (hlog : w'.log = e :: w.log) : Unpaid w w' :=
  ⟨fun _ hs => hslot ▸ hs, .inr ⟨e, he, hlog⟩⟩

end Unpaid

/-- Every effect but that of payments leaves payments alone. -/
theorem Change.unpaid {k : Effect} {w w' : World} (hs : Change k w w') (hcoarse : k.coarse = false)
    (hk : k ≠ .payment) : Unpaid w w' := by
  refine ⟨?_, ?_⟩
  · intro s hs'
    -- a wallet that is opened, closed or cleaned up has no payment prepared
    by_cases hclear : k = .login ∨ k = .logout ∨ k = .cleanup
    · have hnone : sendTxOf w' = none := by
        cases hs with
        | said e he => exact absurd (Event.effect_mem he) (by rcases hclear with rfl | rfl | rfl <;> decide)
        | login | logout => rfl
        | cleaned =>
          simp only [sendTxOf, World.modifyCtx, World.modifyData]
          cases w.data.ctx <;> rfl
        | _ => simp at hclear
      rw [hnone] at hs'
      cases hs'
    · rw [not_or, not_or] at hclear
      -- no other step touches the payment
      obtain ⟨f, hctx, hf⟩ := hs.slots_kept hcoarse hclear.1 hclear.2.1 hclear.2.2
      rwa [sendTxOf_of_map hctx fun c => (hf c).2.2 hk] at hs'
  · -- at most one event is added, which is not about payments
    cases hs
    case said e he =>
      refine .inr ⟨e, ?_, rfl⟩
      unfold Event.paymentFree
      split
      · cases he
        exact absurd rfl hk
      · cases he
        exact absurd rfl hk
      · cases he
      · rfl
    case saved ok => cases ok <;> exact .inl rfl
    case synced | balanced => cases hcoarse
    case registered | orderHidden | orderShown | txShown | txHidden | txsSent | balanceShown
        | balancesShown | swapReported | succeedShown | linkShown | promptQueued | promptShown
        | swapDone | stored | completed | down =>
      exact .inr ⟨_, rfl, rfl⟩
    all_goals exact .inl rfl

instance unpaidAllows (k : Effect) [hk : Fact (k ≠ .payment)] : Allows Unpaid k :=
  allows_of_changes (fun k => k ≠ .payment) rfl
    (fun _ _ _ hk hcoarse hs => hs.unpaid hcoarse (of_decide_eq_true hk)) k (decide_eq_true hk.out)

instance : Fact (Effect.talk ≠ .payment) := ⟨by decide⟩

/-! ### The invariant -/

/-- The payment that is kept is the one that was prepared last. -/
structure PaymentInv (h : Host) (w : World) : Prop where
  slot : ∀ s, sendTxOf w = some s → createFailed w.log = false → created w.log = some s.tx
  reported : Reported w.log
  history : Always (BroadcastCreated h) w.log

theorem PaymentInv.unpaid {w w' : World} (hw : PaymentInv h w) (q : Unpaid w w') :
    PaymentInv h w' := by
  refine ⟨?_, q.reported hw.reported, ?_⟩
  · intro s hs hfailed
    rw [q.created hw.reported]
    exact hw.slot s (q.slot s hs) (q.createFailed ▸ hfailed)
  · rcases q.log with hlog | ⟨e, he, hlog⟩
    · rw [hlog]
      exact hw.history
    · rw [hlog]
      exact .cons (broadcastCreated_of_free he _) hw.history

/-! ### Creating -/

/-- The slot is filled with a new transaction. -/
def Fills (w w' : World) : Prop :=
  ∃ s details, w' = (w.modifyCtx fun c => { c with sendTx := some s }).record
    (.createTransaction details (some s.tx))

/-- The slot is filled by the last step of a creation, which returns the fee. -/
theorem createTx_commits (req : CreateTx) : Commits Unpaid Fills (createTx h req) := by
  refine .bind expectCtx_effects fun ctx => .bind (sendAddress_effects ctx req) fun p => ?_
  refine .bind expectCtx_effects fun ctx => .bind (.okOr _ _) fun balance => ?_
  refine .bind (.ensure _) fun _ => .bind (.ensure _) fun _ => ?_
  refine .bind (callOr_effects _ _) fun tx => ?_
  intro w
  exact .inl ⟨_, w, _, .refl, ⟨_, _, rfl⟩, rfl⟩

/-- The fee that a creation returns is that of the transaction it has just stored. -/
theorem createTx_fee {req : CreateTx} {fee : ℤ} {w w' : World}
    (hok : createTx h req w = .ok fee w') :
    ∃ details tx older, w'.log = .createTransaction details (some tx) :: older ∧ fee = tx.fee := by
  have hspec : Guar (fun _ _ => True) (fun _ => True) (createTx h req) fun fee w' =>
      ∃ details tx older, w'.log = .createTransaction details (some tx) :: older ∧ fee = tx.fee := by
    refine .bind expectCtx_spec fun ctx => .bind (Q := fun _ _ => True) ?_ fun p => ?_
    · intro w _
      exact ⟨.single trivial, fun _ _ _ => trivial⟩
    refine .bind expectCtx_spec fun ctx => .bind .okOr fun balance => .bind .ensure fun _ => ?_
    refine .bind .ensure fun _ => .bind (Q := fun _ _ => True) ?_ fun tx => ?_
    · intro w _
      exact ⟨.single trivial, fun _ _ _ => trivial⟩
    intro w _
    refine ⟨.single trivial, ?_⟩
    intro fee w' hlast
    cases hlast
    exact ⟨_, tx, _, rfl, rfl⟩
  exact (hspec w trivial).2 fee w' hok

theorem PaymentInv.filled {w w' : World} {s : SendTx} {details : CreateTransaction}
    (hw : PaymentInv h w)
    (hfills : w' = (w.modifyCtx fun c => { c with sendTx := some s }).record
      (.createTransaction details (some s.tx))) :
    PaymentInv h (w'.record (.toUi (.createTxResult (.ok s.tx.fee)))) := by
  subst hfills
  refine ⟨?_, reported_of_free rfl _, .cons trivial (.cons trivial hw.history)⟩
  intro s' hs' _
  have hslot : s' = s := by
    obtain ⟨c, hc, hs'⟩ := Option.bind_eq_some_iff.mp hs'
    obtain ⟨c₀, -, rfl⟩ := Option.map_eq_some_iff.mp hc
    exact (Option.some.inj hs').symm
  rw [hslot]
  have hcreation : creation (.toUi (.createTxResult (.ok s.tx.fee)))
      (.createTransaction details (some s.tx) :: w.log) = some (some s.tx) := if_pos rfl
  rw [created]
  exact congrArg Option.join (latest_cons_of_some hcreation)

/-- A creation starts with its failure in the history, and takes it back when it succeeds. -/
theorem processCreateTx_inv {req : CreateTx} {w : World} (hw : PaymentInv h w) :
    PaymentInv h (processCreateTx h req w : Outcome Empty World Unit).state := by
  have hchain : ∀ {w₁}, Relation.ReflTransGen Unpaid w w₁ → PaymentInv h w₁ := fun hsteps =>
    hsteps.invariant (fun _ _ q hv => hv.unpaid q) hw
  have hanswer : ∀ (w₁ : World) result, PaymentInv h w₁ →
      PaymentInv h (w₁.record (.toUi (.createTxResult result))) := fun w₁ result hw₁ =>
    hw₁.unpaid (.of_slot rfl rfl rfl)
  unfold processCreateTx
  rw [bind_apply, Proc.attempt]
  rcases createTx_commits (h := h) req w with ⟨fee, w₁, w₂, hsteps, ⟨s, details, hfills⟩, hok⟩ | ⟨hsteps, hno⟩
  · -- the fee that is shown is that of the transaction that was just created
    rw [hok]
    have hfee : fee = s.tx.fee := by
      obtain ⟨_, tx, _, hlog, rfl⟩ := createTx_fee hok
      rw [hfills] at hlog
      obtain ⟨hhead, -⟩ := List.cons.inj hlog
      cases hhead
      rfl
    rw [hfee]
    exact (hchain hsteps).filled hfills
  · -- a failure changes nothing before it is shown
    cases hcreate : createTx h req w with
    | ok fee w₁ => exact absurd hcreate (hno fee w₁)
    | error e w₁ =>
      rw [hcreate] at hsteps
      exact hanswer w₁ (.error e) (hchain hsteps)
    | abort w₁ =>
      rw [hcreate] at hsteps
      exact hchain hsteps

/-! ### Sending -/

/-- A step of a sending: it leaves payments alone, or it broadcasts what was created last after the
slot has been emptied. -/
def Pays (h : Host) (w w' : World) : Prop :=
  Unpaid w w' ∨ ∃ signed, BroadcastCreated h (.broadcast signed) w.log ∧ sendTxOf w = none ∧
    w' = w.record (.broadcast signed)

theorem PaymentInv.pays {w w' : World} (hw : PaymentInv h w) (q : Pays h w w') :
    PaymentInv h w' := by
  rcases q with q | ⟨signed, hsigned, hempty, rfl⟩
  · exact hw.unpaid q
  · refine ⟨?_, ?_, .cons hsigned hw.history⟩
    · intro s hs
      have hs : sendTxOf w = some s := hs
      rw [hempty] at hs
      cases hs
    · intro details tx older heq
      cases heq

/-- The transaction was created last, and it has been taken out of the slot. -/
structure Taken (tx : TransactionMeta) (w : World) : Prop where
  created : created w.log = some tx
  reported : Reported w.log
  empty : sendTxOf w = none

theorem Taken.unpaid {tx : TransactionMeta} {w w' : World} (q : Unpaid w w') (hw : Taken tx w) :
    Taken tx w' := by
  refine ⟨(q.created hw.reported).trans hw.created, q.reported hw.reported, ?_⟩
  cases hs : sendTxOf w' with
  | none => rfl
  | some s =>
    have hs := q.slot s hs
    rw [hw.empty] at hs
    cases hs

/-- Work that leaves payments alone keeps the taken transaction. -/
theorem Refines.keepsTaken {α : Type} {tx : TransactionMeta} {m : Worker ε α}
    (hm : Refines Unpaid m) : Guar (Pays h) (Taken tx) m fun _ w => Taken tx w := by
  have hframe := Guar.frame hm (F := Taken tx) fun _ _ => Taken.unpaid
  refine Guar.mono (hframe.conseq (fun w hw => ⟨trivial, hw⟩) fun _ w hw => hw.2) ?_
  exact fun _ _ q => .inl q

/-- The signature of the taken transaction is broadcast if the network, or the server for a contact,
takes it. -/
theorem broadcastTx_pays {tx signed : TransactionMeta} (ctx : Context)
    (contactKey : Option ContactKey) (hsigned : ∃ n, h.signTransaction n tx = .ok signed) :
    Guar (Pays h) (Taken tx) (broadcastTx h ctx contactKey signed) fun _ _ => True := by
  have hrecord : Guar (Pays h) (Taken tx) (record (.broadcast signed) : Worker String Unit)
      fun _ _ => True := by
    obtain ⟨n, hn⟩ := hsigned
    refine .modify (fun w hw => .inr ⟨signed, ⟨tx, n, hw.created, hn⟩, hw.empty, rfl⟩) ?_
    exact fun _ _ => trivial
  cases contactKey with
  | some contactKey =>
    refine .bind (Refines.keepsTaken (.okOr _ _)) fun phoneKey => ?_
    exact .bind (Refines.keepsTaken (requestOr_effects _ fun _ => rfl)) fun _ => hrecord
  | none => exact .bind (Refines.keepsTaken (callOr_effects _ _)) fun _ => hrecord

/-- A sending in a state where the waiting transaction is the one that was created last. -/
theorem sendTx_pays {memo : String} {w₀ : World} (hreported : Reported w₀.log)
    (hslot : ∀ s, sendTxOf w₀ = some s → created w₀.log = some s.tx) :
    Guar (Pays h) (fun w => w = w₀) (sendTx h memo) fun _ _ => True := by
  have htalk : ∀ {α : Type} {m : Worker String α}, Refines Unpaid m →
      Guar (Pays h) (fun _ => True) m fun _ _ => True := fun hm =>
    Guar.mono hm fun _ _ q => .inl q
  refine .bind expectCtx_spec fun ctx => .bind .okOr fun s => ?_
  -- the slot is emptied before anything can fail
  refine .bind (Q := fun _ w => Taken s.tx w) (.modify ?_ ?_) fun _ => ?_
  · rintro w -
    refine .inl ⟨fun s hs => ?_, .inl rfl⟩
    obtain ⟨c, hc, hs⟩ := Option.bind_eq_some_iff.mp hs
    obtain ⟨c₀, -, rfl⟩ := Option.map_eq_some_iff.mp hc
    cases hs
  · rintro w ⟨hs, hctx, rfl⟩
    refine ⟨hslot s ?_, hreported, ?_⟩
    · rw [sendTxOf, hctx, Option.bind_some, hs]
    · simp only [sendTxOf, World.modifyCtx, World.modifyData]
      cases w.data.ctx <;> rfl
  refine .bind (Q := fun signed w => (∃ n, h.signTransaction n s.tx = .ok signed) ∧ Taken s.tx w)
    ?_ fun signed => .of_fact fun hsigned => ?_
  · intro w hw
    have hcall : Refines Unpaid
        (callOr (fun n => h.signTransaction n s.tx) ("transaction sign failed: " ++ ·)) :=
      callOr_effects _ _
    obtain ⟨hchain, hkeeps⟩ := Refines.keepsTaken (h := h) hcall w hw
    exact ⟨hchain, fun signed w' hok => ⟨⟨w.calls, callOr_eq_ok hok⟩, hkeeps signed w' hok⟩⟩
  refine .bind (broadcastTx_pays ctx s.contactKey hsigned) fun _ => ?_
  refine htalk (.bind (call_effects _) fun _ => .bind getData_effects fun d => ?_)
  refine .bind (.expect _) fun lbtc => .bind (call_effects _) fun _ => .bind (call_effects _) fun _ => ?_
  exact .pure _

theorem processSendTx_inv {memo : String} {w : World} (hw : PaymentInv h w)
    (hlast : sendTxOf w = none ∨ createFailed w.log = false) :
    PaymentInv h (processSendTx h memo w : Outcome Empty World Unit).state := by
  have hslot : ∀ s, sendTxOf w = some s → created w.log = some s.tx := by
    intro s hs
    rcases hlast with hempty | hfailed
    · rw [hempty] at hs
      cases hs
    · exact hw.slot s hs hfailed
  have hspec : Guar (Pays h) (fun v => v = w) (processSendTx h memo : Worker Empty Unit)
      fun _ _ => True := by
    refine .bind (.attempt (sendTx_pays hw.reported hslot)) fun result => ?_
    refine Refines.guar (.modify fun v => .inl ?_)
    exact .of_slot rfl rfl rfl
  exact (hspec w rfl).1.invariant (fun _ _ q hv => hv.pays q) hw

/-! ### Runs -/

/-- The other messages leave payments alone. -/
theorem process_unpaid {msg : Message} (hcreate : ∀ req, msg ≠ .ui (.createTx req))
    (hsend : ∀ memo, msg ≠ .ui (.sendTx memo)) :
    Refines Unpaid (process h msg : Worker ε Unit) := by
  have hmsg : msg.effects.all (fun k => k ≠ .payment) = true := by
    cases msg with
    | ui m =>
      cases m with
      | createTx req => exact absurd rfl (hcreate req)
      | sendTx memo => exact absurd rfl (hsend memo)
      | _ => rfl
    | serverNotification n => cases n <;> rfl
    | _ => rfl
  exact process_effects msg fun k hk =>
    allows_of_changes (fun k => k ≠ .payment) rfl
      (fun _ _ _ hk hcoarse hs => hs.unpaid hcoarse (of_decide_eq_true hk)) k
      (List.all_eq_true.mp hmsg k hk)

theorem PaymentInv.receivedCreate {w : World} (hw : PaymentInv h w) (req : CreateTx) :
    PaymentInv h (w.record (.received (.ui (.createTx req)))) := by
  refine ⟨?_, ?_, .cons trivial hw.history⟩
  · intro s _ hfailed
    cases hfailed
  · intro details tx older heq
    cases heq

theorem handle_payments {w : World} {msg : Message} (hC : SendsCreated w msg)
    (hw : PaymentInv h w) : PaymentInv h ((machine h).handle msg w).state := by
  -- the message itself does not prepare a payment
  have hreceived : (∀ req, msg ≠ .ui (.createTx req)) → Unpaid w (w.record (.received msg)) := by
    intro hcreate
    refine .of_slot rfl (e := .received msg) ?_ rfl
    unfold Event.paymentFree
    split
    · cases ‹Event.received msg = _›
    · cases ‹Event.received msg = _›
    · next req heq =>
      cases heq
      exact absurd rfl (hcreate req)
    · rfl
  -- a request to create the payment
  by_cases hcreate : ∃ req, msg = .ui (.createTx req)
  · obtain ⟨req, rfl⟩ := hcreate
    exact processCreateTx_inv (hw.receivedCreate req)
  · rw [not_exists] at hcreate
    have hw₀ := hw.unpaid (hreceived hcreate)
    -- a request to send it: it was created by the last request, or there is none
    by_cases hsend : ∃ memo, msg = .ui (.sendTx memo)
    · obtain ⟨memo, rfl⟩ := hsend
      refine processSendTx_inv hw₀ ?_
      have hC : ((sendTxOf w).isNone || !createFailed w.log) = true := hC
      rw [Bool.or_eq_true, Option.isNone_iff_eq_none, Bool.not_eq_true'] at hC
      rcases hC with hempty | hfailed
      · exact .inl hempty
      · exact .inr ((hreceived hcreate).createFailed.trans hfailed)
    · -- any other message
      rw [not_exists] at hsend
      exact ((process_unpaid (ε := Empty) hcreate hsend).chain _).invariant
        (fun _ _ q hv => hv.unpaid q) hw₀

theorem boot_payments {w : World} (hw : PaymentInv h w) :
    PaymentInv h (boot h w : Outcome Empty World Unit).state := by
  have hload : Refines Unpaid (ignoreError (loadAssets h) : Worker Empty Unit) := by
    have : Fact (Effect.load ≠ .payment) := ⟨by decide⟩
    have : Fact (Effect.assets ≠ .payment) := ⟨by decide⟩
    exact ignoreError_effects loadAssets_effects
  have hfresh : Unpaid w (freshStart h w) := by
    refine ⟨fun s hs => ?_, .inr ⟨.started, rfl, rfl⟩⟩
    cases hs
  exact (hload.chain (freshStart h w)).invariant (fun _ _ q hv => hv.unpaid q) (hw.unpaid hfresh)

/-- In every run in which no `SendTx` arrives after a failed `CreateTx` while an older transaction
waits, what is broadcast is a signature of the transaction of the last `CreateTx`, whose fee was
reported and which has not been broadcast before. -/
theorem broadcasts_created (h : Host) (xs : List (Feed Message))
    (sends : (machine h).Along SendsCreated (start h) xs) :
    Always (BroadcastCreated h) ((machine h).run (start h) xs).state.log := by
  have hnew : PaymentInv h World.new := by
    refine ⟨fun s hs => ?_, fun _ _ _ heq => ?_, .nil⟩
    · cases hs
    · cases heq
  have hstart : PaymentInv h (start h).state := by
    rw [start, Outcome.life_state]
    exact boot_payments hnew
  have hinv := Machine.run_invariant_of_along (M := machine h) (I := PaymentInv h) hstart sends
    (fun w msg hC hw => handle_payments hC hw) fun w hw => boot_payments hw
  exact hinv.history

/-! ### A transaction that is sent in place of another -/

namespace Sample

/-- A wallet with a hundred gold, and transactions that are named after their addresses. -/
def payHost : Host :=
  { plainHost (plainServer (⟨⟨"lbtc"⟩, "Bitcoin", tickerLbtc, some "", 8, none⟩ :: assets)
      (fun _ => .error "") fun _ => .error "") ((∅ : Map AssetId ℤ).insert gold 100) ∅ with
    createTransaction := fun _ details => .ok ⟨details.address, details.address, 1⟩ }

/-- The user prepares a payment. -/
def createTo (address : String) (amount : ℤ) : Feed Message :=
  .deliver (.ui (.createTx ⟨address, ⟨gold, amount⟩, false⟩))

/-- The user sends the payment on display. -/
def send : Feed Message := .deliver (.ui (.sendTx ""))

/-- The ids of the transactions that were broadcast. -/
def broadcastIds (log : List Event) : List String :=
  log.filterMap fun e => match e with
    | .broadcast tx => some tx.txid
    | _ => none

end Sample

open Sample in
/-- The second of two transactions is sent, and sending again sends nothing. -/
theorem broadcasts_second :
    broadcastIds ((machine payHost).run (start payHost)
        (online ++ [createTo "first" 50, createTo "second" 60, send, send])).state.log = ["second"] ∧
      Always (BroadcastCreated payHost) ((machine payHost).run (start payHost)
        (online ++ [createTo "first" 50, createTo "second" 60, send, send])).state.log :=
  ⟨by decide +kernel, broadcasts_created payHost _ (by decide +kernel)⟩

open Sample in
/-- The second transaction cannot be created, and the first is sent in its place. -/
theorem broadcasts_stale :
    ¬ ∀ (h : Host) (xs : List (Feed Message)),
      Always (BroadcastCreated h) ((machine h).run (start h) xs).state.log := by
  intro hall
  have hrun := hall payHost (online ++ [createTo "first" 50, createTo "second" 1000, send])
  have hsome : Always (fun e older => broadcastIds [e] ≠ [] → (created older).isSome = true)
      ((machine payHost).run (start payHost)
        (online ++ [createTo "first" 50, createTo "second" 1000, send])).state.log := by
    refine hrun.mono fun e older hcreated hbroadcast => ?_
    unfold BroadcastCreated at hcreated
    split at hcreated
    · obtain ⟨tx, n, htx, -⟩ := hcreated
      rw [htx]
      rfl
    · next hother =>
      refine absurd ?_ hbroadcast
      unfold broadcastIds
      cases e with
      | broadcast signed => exact absurd rfl (hother signed)
      | _ => rfl
  revert hsome
  decide +kernel

end SideSwap.Client
