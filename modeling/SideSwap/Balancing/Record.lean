import SideSwap.Balancing.Machine

/-!
# The life of a balancing record

`Move` is the abstract machine behind the handlers: what one message may do to the record and
which external effects it has.  A record starts in the first state of one of the four paths
(`Path.states`), moves from each state to the next one of its path or to `failed`, and is removed
when it is complete.

`handle_refines` connects the two levels: a handler that starts with the record on file makes one
`Move`, and if it returns the new record is on file.  If it is interrupted the file holds the old
record or the new one; the effects of the move have then happened without being on file only if
the process crashed between the effect and the end of `saveStorage` (`Interrupted`).

`record_invariant` is the resulting invariant of all runs.
-/

namespace SideSwap.Balancing

/-! ### Paths -/

/-- The four ways that coins can move. -/
inductive Path where
  | sendUsdt
  | recvUsdt
  | sendBtc
  | recvBtc
deriving DecidableEq

/-- The states that a record of this kind goes through. -/
def Path.states : Path → List TransferState
  | .sendUsdt => [.sendUsdtNew, .sendUsdtWaitConfirm, .complete]
  | .recvUsdt => [.recvUsdtNew, .recvUsdtWaitWithdrawId, .recvUsdtWaitConfirm, .complete]
  | .sendBtc => [.sendBtcNew, .sendBtcWaitLbtcBalance, .sendBtcWaitConfirm, .complete]
  | .recvBtc =>
    [.recvBtcNew, .recvBtcWaitLbtcBalance, .recvBtcWaitWithdrawId, .recvBtcWaitConfirm, .complete]

/-- `s'` follows `s` on a path. -/
def Follows (s s' : TransferState) : Prop := ∃ p : Path, [s, s'] <:+: p.states

/-- The kinds of effects that must not be repeated. -/
inductive Kind where
  | send
  | withdraw
  | transfer
deriving DecidableEq

/-- The kind of an effect that moves coins. -/
def Effect.kind : Effect → Option Kind
  | .sendToAddress .. => some .send
  | .withdraw .. => some .withdraw
  | .transfer .. => some .transfer
  | .created | .removed => none

/-- The effect that a tick has in this state, once the record is ready for it. -/
def TransferState.issues : TransferState → Option Kind
  | .sendUsdtNew | .sendBtcNew => some .send
  | .recvUsdtNew | .recvBtcWaitLbtcBalance => some .withdraw
  | .sendBtcWaitLbtcBalance | .recvBtcNew => some .transfer
  | _ => none

/-! ### The abstract machine -/

/-- What a message may do to the record. -/
inductive Move : Option Transfer → List Effect → Option Transfer → Prop where
  | keep (b : Option Transfer) : Move b [] b
  | start (now : ℕ) (req : CliRequest) : Move none [.created] (some (newTransfer now req))
  | issue (b : Transfer) (e : Effect) (k : Kind) (s : TransferState) (now : ℕ)
      (txid : Option String) (hk : b.state.issues = some k) (he : e.kind = some k)
      (hs : Follows b.state s) (ht : k = .send → txid.isSome) :
      Move (some b) [e] (some { b with txid := txid, updatedAt := now, state := s })
  | withdrawId (b : Transfer) (id : ℤ) (s : TransferState) (now : ℕ) (hid : 0 < id)
      (hs : Follows b.state s) (hn : s ≠ .sendUsdtWaitConfirm) :
      Move (some b) [] (some { b with withdrawId := some id, updatedAt := now, state := s })
  | complete (b : Transfer) (now : ℕ) (hs : Follows b.state .complete) :
      Move (some b) [] (some { b with updatedAt := now, state := .complete })
  | fail (b : Transfer) (now : ℕ) :
      Move (some b) [] (some { b with updatedAt := now, state := .failed })
  | remove (b : Transfer) (hs : b.state = .complete) : Move (some b) [.removed] none

/-- What is known of a record in the states that wait for a confirmation. -/
structure Transfer.Sound (b : Transfer) : Prop where
  txid : b.state = .sendUsdtWaitConfirm → b.txid.isSome
  withdrawId : b.state = .recvUsdtWaitConfirm ∨ b.state = .recvBtcWaitConfirm →
    ∃ id, b.withdrawId = some id ∧ 0 < id

/-- The record changes as it should: it is created where there was none, removed when it is
complete, and otherwise keeps its amount and its birth and stays, moves on or fails. -/
def Progress : Option Transfer → Option Transfer → Prop
  | none, none => True
  | none, some b => ∃ now req, b = newTransfer now req
  | some b, none => b.state = .complete
  | some b, some b' =>
    b'.amount = b.amount ∧ b'.createdAt = b.createdAt
      ∧ (b'.state = b.state ∨ b'.state = .failed ∨ Follows b.state b'.state)
      ∧ (b.state = .failed → b'.state = .failed)
      ∧ (b.state = .complete → b'.state = .complete ∨ b'.state = .failed)

/-- The next state, on the one path that a state other than `complete` belongs to. -/
def TransferState.next : TransferState → Option TransferState
  | .sendUsdtNew => some .sendUsdtWaitConfirm
  | .sendUsdtWaitConfirm => some .complete
  | .recvUsdtNew => some .recvUsdtWaitWithdrawId
  | .recvUsdtWaitWithdrawId => some .recvUsdtWaitConfirm
  | .recvUsdtWaitConfirm => some .complete
  | .sendBtcNew => some .sendBtcWaitLbtcBalance
  | .sendBtcWaitLbtcBalance => some .sendBtcWaitConfirm
  | .sendBtcWaitConfirm => some .complete
  | .recvBtcNew => some .recvBtcWaitLbtcBalance
  | .recvBtcWaitLbtcBalance => some .recvBtcWaitWithdrawId
  | .recvBtcWaitWithdrawId => some .recvBtcWaitConfirm
  | .recvBtcWaitConfirm => some .complete
  | .complete | .failed => none

/-- A state has one successor besides failure. -/
theorem Follows.next {s s' : TransferState} (h : Follows s s') : s.next = some s' := by
  obtain ⟨p, h⟩ := h
  cases p <;> simp only [Path.states, List.infix_cons_iff, List.cons_prefix_cons,
    List.nil_prefix, and_true, List.infix_nil, List.prefix_nil, reduceCtorEq, and_false,
    or_false] at h
  case sendUsdt => rcases h with ⟨rfl, rfl⟩ | ⟨rfl, rfl⟩ <;> rfl
  case recvUsdt => rcases h with ⟨rfl, rfl⟩ | ⟨rfl, rfl⟩ | ⟨rfl, rfl⟩ <;> rfl
  case sendBtc => rcases h with ⟨rfl, rfl⟩ | ⟨rfl, rfl⟩ | ⟨rfl, rfl⟩ <;> rfl
  case recvBtc => rcases h with ⟨rfl, rfl⟩ | ⟨rfl, rfl⟩ | ⟨rfl, rfl⟩ | ⟨rfl, rfl⟩ <;> rfl

/-- A path ends in `complete`, and never passes through `failed`. -/
theorem Follows.ne {s s' : TransferState} (h : Follows s s') : s ≠ .failed ∧ s ≠ .complete := by
  have hn := h.next
  constructor <;> rintro rfl <;> cases hn

/-- Only a send leads to `sendUsdtWaitConfirm`, and no effect leads to a state that waits for a
withdrawal to be confirmed. -/
theorem Follows.of_issues {s s' : TransferState} {k : Kind} (h : Follows s s')
    (hk : s.issues = some k) :
    (s' = .sendUsdtWaitConfirm → k = .send) ∧ s' ≠ .recvUsdtWaitConfirm
      ∧ s' ≠ .recvBtcWaitConfirm := by
  have hn := h.next
  refine ⟨?_, ?_, ?_⟩ <;> rintro rfl <;> cases s <;> cases hn <;> cases hk
  rfl

/-- A record that stays makes no step back. -/
theorem Progress.refl (b : Option Transfer) : Progress b b := by
  cases b with
  | none => trivial
  | some b => exact ⟨rfl, rfl, .inl rfl, id, .inl⟩

/-- A successor state of the same transfer is progress. -/
theorem Follows.progress {b b' : Transfer} (h : Follows b.state b'.state)
    (ha : b'.amount = b.amount) (hc : b'.createdAt = b.createdAt) : Progress (some b) (some b') :=
  ⟨ha, hc, .inr (.inr h), fun hf => absurd hf h.ne.1, fun hf => absurd hf h.ne.2⟩

/-- Every move is progress. -/
theorem Move.progress {b b' : Option Transfer} {es : List Effect} (h : Move b es b') :
    Progress b b' := by
  cases h with
  | keep b => exact .refl b
  | start now req => exact ⟨now, req, rfl⟩
  | issue b e k s now txid hk he hs ht => exact hs.progress rfl rfl
  | withdrawId b id s now hid hs hn => exact hs.progress rfl rfl
  | complete b now hs => exact Follows.progress hs rfl rfl
  | fail b now => exact ⟨rfl, rfl, .inr (.inl rfl), fun _ => rfl, fun _ => .inr rfl⟩
  | remove b hs => exact hs

/-- A record is created only where there is none. -/
theorem Move.created {b b' : Option Transfer} {es : List Effect} (h : Move b es b')
    (hes : Effect.created ∈ es) : b = none := by
  cases h with
  | start now req => rfl
  | issue b e k s now txid hk he hs ht =>
    rw [List.mem_singleton] at hes
    subst hes
    cases he
  | remove b hs => simp at hes
  | _ => cases hes

/-- The states that `Transfer.Sound` speaks about are entered with the data it asks for. -/
theorem Move.sound {b b' : Option Transfer} {es : List Effect} (h : Move b es b')
    (hb : ∀ t, b = some t → t.Sound) : ∀ t, b' = some t → t.Sound := by
  cases h with
  | keep b => exact hb
  | start now req =>
    -- a new record waits for nothing yet
    rintro t ⟨⟩
    cases req <;> constructor <;> simp [newTransfer, CliRequest.plan]
  | issue b e k s now txid hk he hs ht =>
    rintro t ⟨⟩
    -- the transaction is stored with the state that waits for it
    obtain ⟨h1, h2, h3⟩ := hs.of_issues hk
    constructor
    · intro hs
      exact ht (h1 hs)
    · rintro (hs | hs)
      · exact absurd hs h2
      · exact absurd hs h3
  | withdrawId b id s now hid hs hn =>
    -- the state with an identifier is entered with a valid one
    rintro t ⟨⟩
    exact ⟨fun h => absurd h hn, fun _ => ⟨id, rfl, hid⟩⟩
  | complete b now hs =>
    rintro t ⟨⟩
    constructor <;> simp
  | fail b now =>
    rintro t ⟨⟩
    constructor <;> simp
  | remove b hs =>
    rintro t ⟨⟩

/-! ### What the handlers do -/

/-- The crash comes after an effect and before the file is complete. -/
def Interrupted (c : Option Point) : Prop :=
  c = some .issued ∨ c = some .updated ∨ c = some .written

instance (c : Option Point) : Decidable (Interrupted c) := inferInstanceAs (Decidable (_ ∨ _ ∨ _))

/-- From `w`, the handler puts the record `b` on file and has no external effect.  The old file
stays only if the handler is interrupted. -/
structure Saves (m : Balance Unit) (w : World) (b : Option Transfer) : Prop where
  returns : ∀ u w', m w = .ok u w' → w'.storage = ⟨b⟩ ∧ w'.file = ⟨b⟩ ∧ w'.effects = w.effects
  aborts : ∀ w', m w = .abort w' →
    w'.effects = w.effects ∧ (w'.file = ⟨b⟩ ∨ (w'.file = w.file ∧ Interrupted w.crashAt))

/-- From `w`, the handler has the effects `es` and puts the record `b` on file.  A crash leaves
the old file without the effects, or the new file with them, or, if it is an interruption, the old
file with the effects. -/
structure Commits (m : Balance Unit) (w : World) (es : List Effect) (b : Option Transfer) :
    Prop where
  returns : ∀ u w', m w = .ok u w' →
    w'.storage = ⟨b⟩ ∧ w'.file = ⟨b⟩ ∧ w'.effects = es ++ w.effects
  aborts : ∀ w', m w = .abort w' →
    (w'.file = w.file ∧ w'.effects = w.effects)
      ∨ (w'.file = ⟨b⟩ ∧ w'.effects = es ++ w.effects)
      ∨ (w'.file = w.file ∧ w'.effects = es ++ w.effects ∧ Interrupted w.crashAt)

/-- A point is passed unless the process crashes there. -/
theorem reach_apply (p : Point) (w : World) :
    reach p w = if w.crashAt = some p then .abort w else .ok () w := by
  unfold reach
  rw [Proc.bind_apply]
  simp only [Proc.get_apply]
  split <;> rfl

section

variable {m : Balance Unit} {w : World} {b : Option Transfer} {es : List Effect}

theorem Saves.of_eq {m' : Balance Unit} (hm : m w = m' w) (h : Saves m' w b) : Saves m w b :=
  ⟨fun u w' h' => h.returns u w' (hm ▸ h'), fun w' h' => h.aborts w' (hm ▸ h')⟩

theorem Commits.of_eq {m' : Balance Unit} (hm : m w = m' w) (h : Commits m' w es b) :
    Commits m w es b :=
  ⟨fun u w' h' => h.returns u w' (hm ▸ h'), fun w' h' => h.aborts w' (hm ▸ h')⟩

/-- To read the world saves nothing. -/
theorem Saves.get {k : World → Balance Unit} (h : Saves (k w) w b) : Saves (Proc.get >>= k) w b :=
  h.of_eq (Proc.get_bind_apply k w)

/-- A value that is there does not panic. -/
theorem Saves.expect {α : Type} {o : Option α} {a : α} {k : α → Balance Unit} (ho : o = some a)
    (h : Saves (k a) w b) : Saves (Proc.expect o >>= k) w b := by
  subst ho
  exact h.of_eq rfl

/-- A crash at this point leaves the file as it was, which is allowed. -/
theorem Saves.reach {p : Point} (hp : Interrupted (some p)) (h : Saves m w b) :
    Saves (reach p >>= fun _ => m) w b := by
  by_cases hc : w.crashAt = some p
  · have hm : (Balancing.reach p >>= fun _ => m) w = .abort w := by
      rw [Proc.bind_apply, reach_apply, if_pos hc]
    constructor
    · intro u w' h'
      rw [hm] at h'
      cases h'
    · intro w' h'
      rw [hm] at h'
      cases h'
      exact ⟨rfl, .inr ⟨rfl, hc ▸ hp⟩⟩
  · have hm : (Balancing.reach p >>= fun _ => m) w = m w := by
      rw [Proc.bind_apply, reach_apply, if_neg hc]
    exact h.of_eq hm

/-- The file is replaced as a whole. -/
theorem saveStorage_saves (w : World) : Saves saveStorage w w.storage.balancing := by
  unfold saveStorage
  refine .reach (by decide) (.reach (by decide) ?_)
  constructor
  · intro u w' h'
    rw [Proc.bind_apply, Proc.modify_apply] at h'
    simp only [reach_apply] at h'
    split_ifs at h'
    cases h'
    exact ⟨rfl, rfl, rfl⟩
  · intro w' h'
    rw [Proc.bind_apply, Proc.modify_apply] at h'
    simp only [reach_apply] at h'
    split_ifs at h'
    cases h'
    exact ⟨rfl, .inl rfl⟩

/-- A change of the world that touches neither the file nor the effects does not matter. -/
theorem Saves.modify {f : World → World} (hfile : (f w).file = w.file)
    (heff : (f w).effects = w.effects) (hcrash : (f w).crashAt = w.crashAt)
    (h : Saves m (f w) b) : Saves (Proc.modify f >>= fun _ => m) w b := by
  constructor
  · intro u w' h'
    rw [← heff]
    exact h.returns u w' h'
  · intro w' h'
    rw [← heff, ← hfile, ← hcrash]
    exact h.aborts w' h'

/-- Once the file is complete, what else is done with the notices does not matter. -/
theorem Saves.followedBy {k : Balance Unit} (h : Saves m w b)
    (hk : ∀ w1, ∃ w2, k w1 = .ok () w2 ∧ w2.storage = w1.storage ∧ w2.file = w1.file ∧
      w2.effects = w1.effects) : Saves (m >>= fun _ => k) w b := by
  constructor
  · -- if the first part returns, what follows keeps what has been saved
    intro u w' h'
    rw [Proc.bind_apply] at h'
    cases hm : m w with
    | ok u1 w1 =>
      rw [hm] at h'
      obtain ⟨w2, hk2, hs, hf, he⟩ := hk w1
      obtain ⟨⟩ := hk2.symm.trans h'
      rw [hs, hf, he]
      exact h.returns u1 w1 hm
    | error e w1 => exact e.elim
    | abort w1 =>
      rw [hm] at h'
      cases h'
  · -- what follows does not panic, so a panic is one of the first part
    intro w' h'
    rw [Proc.bind_apply] at h'
    cases hm : m w with
    | ok u1 w1 =>
      rw [hm] at h'
      obtain ⟨w2, hk2, -⟩ := hk w1
      cases hk2.symm.trans h'
    | error e w1 => exact e.elim
    | abort w1 =>
      rw [hm] at h'
      cases h'
      exact h.aborts _ hm

/-- A new state is saved, or the file keeps the old record. -/
theorem updateBalancingState_saves {t : Transfer} (s : TransferState)
    (h : w.storage.balancing = some t) :
    Saves (updateBalancingState s) w (some { t with updatedAt := w.now, state := s }) := by
  unfold updateBalancingState
  refine .get (.expect h ?_)
  refine .modify rfl rfl rfl ?_
  unfold notifyState
  split_ifs
  · exact .modify rfl rfl rfl (saveStorage_saves _)
  · exact .modify rfl rfl rfl (saveStorage_saves _)
  · exact saveStorage_saves _

/-- To save commits to the record without an effect. -/
theorem Saves.commits (h : Saves m w b) : Commits m w [] b := by
  constructor
  · exact h.returns
  · intro w' h'
    obtain ⟨he, hf | ⟨hf, -⟩⟩ := h.aborts w' h'
    · exact .inr (.inl ⟨hf, he⟩)
    · exact .inl ⟨hf, he⟩

/-- An effect that comes first has happened in every ending. -/
theorem Saves.emit {e : Effect} (h : Saves m { w with effects := e :: w.effects } b) :
    Commits (emit e >>= fun _ => m) w [e] b := by
  constructor
  · exact h.returns
  · intro w' h'
    obtain ⟨he, hf | hf⟩ := h.aborts w' h'
    · exact .inr (.inl ⟨hf, he⟩)
    · exact .inr (.inr ⟨hf.1, he, hf.2⟩)

/-- Doing nothing keeps the record, if it is on file. -/
theorem Commits.idle (h : w.file = w.storage) : Commits (pure ()) w [] w.storage.balancing := by
  constructor
  · rintro u w' ⟨⟩
    exact ⟨rfl, h, rfl⟩
  · rintro w' ⟨⟩

/-- A handler may end the process before it does anything. -/
theorem Commits.abort : Commits Proc.abort w es b := by
  constructor
  · rintro u w' ⟨⟩
  · rintro w' ⟨⟩
    exact .inl ⟨rfl, rfl⟩

/-- What comes before the first effect does not matter. -/
theorem Commits.reach {p : Point} (h : Commits m w es b) :
    Commits (reach p >>= fun _ => m) w es b := by
  by_cases hp : w.crashAt = some p
  · have hm : (Balancing.reach p >>= fun _ => m) w = .abort w := by
      rw [Proc.bind_apply, reach_apply, if_pos hp]
    constructor
    · intro u w' h'
      rw [hm] at h'
      cases h'
    · intro w' h'
      rw [hm] at h'
      cases h'
      exact .inl ⟨rfl, rfl⟩
  · have hm : (Balancing.reach p >>= fun _ => m) w = m w := by
      rw [Proc.bind_apply, reach_apply, if_neg hp]
    exact h.of_eq hm

/-- A change that touches neither the file nor the effects. -/
theorem Commits.modify {f : World → World} (hfile : (f w).file = w.file)
    (heff : (f w).effects = w.effects) (hcrash : (f w).crashAt = w.crashAt)
    (h : Commits m (f w) es b) : Commits (Proc.modify f >>= fun _ => m) w es b := by
  constructor
  · intro u w' h'
    rw [← heff]
    exact h.returns u w' h'
  · intro w' h'
    rw [← heff, ← hfile, ← hcrash]
    exact h.aborts w' h'

end

/-! ### The handlers refine the abstract machine -/

/-- Handling the message has an external effect, by the code's own tests. -/
def Acts (args : Args) (w : World) : Msg → Prop
  | .timer t => ∃ b, w.storage.balancing = some b ∧ ready args t b = true ∧
      ∃ k, b.state.issues = some k ∧ (k = .send → t.rpcResult.isOk = true)
  | _ => False

/-- The handler makes a move of the abstract machine. -/
def Refines (args : Args) (msg : Msg) (m : Balance Unit) (w : World) : Prop :=
  ∃ es b, Move w.storage.balancing es b ∧ Commits m w es b ∧
    ((∃ e ∈ es, e.kind ≠ none) → Acts args w msg)

section

variable {args : Args} {msg : Msg} {m : Balance Unit} {w : World}

/-- A move without effects. -/
theorem Commits.refines {b : Option Transfer} (h : Commits m w [] b)
    (hm : Move w.storage.balancing [] b) : Refines args msg m w :=
  ⟨[], b, hm, h, by rintro ⟨e, he, -⟩; cases he⟩

theorem Refines.of_eq {m' : Balance Unit} (h : Refines args msg m' w) (hm : m w = m' w) :
    Refines args msg m w := by
  obtain ⟨es, b, hmove, hcommits, hacts⟩ := h
  exact ⟨es, b, hmove, hcommits.of_eq hm, hacts⟩

/-- A handler that does nothing makes no move. -/
theorem Refines.idle (h : w.file = w.storage) : Refines args msg (pure ()) w :=
  (Commits.idle h).refines (.keep _)

/-- A handler that only adds notices or remembers movements keeps the record. -/
theorem Refines.quiet {w' : World} (h : w.file = w.storage) (hm : m w = .ok () w')
    (hs : w'.storage = w.storage) (hf : w'.file = w.file) (he : w'.effects = w.effects) :
    Refines args msg m w := by
  refine Commits.refines (b := w.storage.balancing) ⟨?_, ?_⟩ (.keep _)
  · intro u w'' h''
    obtain ⟨⟩ := hm.symm.trans h''
    exact ⟨hs, hf.trans h, he⟩
  · intro w'' h''
    cases hm.symm.trans h''

/-- So does a prefix of that kind. -/
theorem Refines.after {pre : Balance Unit} {w' : World} (hpre : pre w = .ok () w')
    (hs : w'.storage = w.storage) (hf : w'.file = w.file) (he : w'.effects = w.effects)
    (hc : w'.crashAt = w.crashAt) (h : Refines args msg m w') :
    Refines args msg (pre >>= fun _ => m) w := by
  obtain ⟨es, b, hmove, hcommits, hacts⟩ := h
  have hrun : (pre >>= fun _ => m) w = m w' := by rw [Proc.bind_apply, hpre]
  refine ⟨es, b, hs ▸ hmove, ⟨?_, ?_⟩, ?_⟩
  · intro u w'' h''
    rw [← he]
    exact hcommits.returns u w'' (hrun ▸ h'')
  · intro w'' h''
    rw [← he, ← hf, ← hc]
    exact hcommits.aborts w'' (hrun ▸ h'')
  · intro hes
    have := hacts hes
    cases msg with
    | timer t => rwa [Acts, hs] at this
    | _ => exact this

/-- A panic makes no move. -/
theorem Refines.abort : Refines args msg Proc.abort w :=
  Commits.abort.refines (.keep _)

/-- To read the world makes no move. -/
theorem Refines.get {k : World → Balance Unit} (h : Refines args msg (k w) w) :
    Refines args msg (Proc.get >>= k) w :=
  h.of_eq (Proc.get_bind_apply k w)

/-- A missing value is a panic; otherwise the rest decides. -/
theorem Refines.expect {α : Type} {o : Option α} {k : α → Balance Unit}
    (h : ∀ a, o = some a → Refines args msg (k a) w) :
    Refines args msg (Proc.expect o >>= k) w := by
  cases o with
  | some a => exact h a rfl
  | none => exact .abort

/-- A failure is a move from every state. -/
theorem Refines.fail {t : Transfer} (h : w.storage.balancing = some t) :
    Refines args msg (updateBalancingState .failed) w := by
  refine (updateBalancingState_saves .failed h).commits.refines ?_
  rw [h]
  exact .fail t w.now

/-- A completion is a move from the last state of a path. -/
theorem Refines.complete {t : Transfer} (h : w.storage.balancing = some t)
    (hs : Follows t.state .complete) : Refines args msg (updateBalancingState .complete) w := by
  refine (updateBalancingState_saves .complete h).commits.refines ?_
  rw [h]
  exact .complete t w.now hs

end

/-- A request creates a record, where there is none. -/
theorem processCli_refines {args : Args} {w : World} (req : CliRequest)
    (hf : w.file = w.storage) : Refines args (.cli req) (processCli req) w := by
  by_cases hb : w.storage.balancing.isSome = true
  · -- a transfer is under way: nothing is changed
    have hrun : processCli req w = notify (.cliResponse false "already started") w := by
      simp only [processCli, Proc.get_bind_apply, hb, ↓reduceIte]
    exact Refines.quiet hf hrun rfl rfl rfl
  · -- otherwise the old movements are forgotten and the new record is saved
    have hrun : processCli req w = (do
        Proc.modify fun w => { w with movements := none }
        setBalancing (some (newTransfer w.now req))
        emit .created
        saveStorage
        notify (.started req.plan.2.2 req.plan.2.1)
        notify (.cliResponse true "success") : Balance Unit) w := by
      simp only [processCli, Proc.get_bind_apply, hb]
      rfl
    have hnone : w.storage.balancing = none := by simpa using hb
    refine ⟨[.created], some (newTransfer w.now req), ?_, .of_eq hrun ?_, ?_⟩
    · rw [hnone]
      exact .start w.now req
    · refine .modify rfl rfl rfl (.modify rfl rfl rfl (Saves.emit ?_))
      exact (saveStorage_saves _).followedBy fun w1 => ⟨_, rfl, rfl, rfl, rfl⟩
    · -- the creation itself calls neither the wallet nor the exchange
      rintro ⟨e, he, hk⟩
      rw [List.mem_singleton] at he
      subst he
      exact absurd rfl hk

/-- The answer to a withdrawal moves the record that waits for it, or fails it. -/
theorem processWithdraw_refines {args : Args} {w : World} (id : ℤ) (hf : w.file = w.storage) :
    Refines args (.withdraw id) (processWithdraw id) w := by
  cases hb : w.storage.balancing with
  | none =>
    refine (Refines.idle hf).of_eq ?_
    simp only [processWithdraw, Proc.get_bind_apply, hb]
  | some t =>
    -- the two states that wait for the id store it and move on, all others fail
    have hstore : ∀ s, 0 < id → Follows t.state s → s ≠ .sendUsdtWaitConfirm →
        Refines args (.withdraw id) (setBalancing (some { t with withdrawId := some id }) >>=
          fun _ => updateBalancingState s) w := by
      intro s hid hs hn
      refine Commits.refines (Saves.commits (.modify rfl rfl rfl
        (updateBalancingState_saves s rfl))) ?_
      rw [hb]
      exact .withdrawId t id s w.now hid hs hn
    by_cases h1 : t.state = .recvUsdtWaitWithdrawId ∧ id > 0 ∧ t.withdrawId = none
    · refine (hstore .recvUsdtWaitConfirm h1.2.1 ?_ (by decide)).of_eq ?_
      · rw [h1.1]
        exact ⟨.recvUsdt, by decide⟩
      · simp only [processWithdraw, Proc.get_bind_apply, hb, if_pos h1]
    · by_cases h2 : t.state = .recvBtcWaitWithdrawId ∧ id > 0 ∧ t.withdrawId = none
      · refine (hstore .recvBtcWaitConfirm h2.2.1 ?_ (by decide)).of_eq ?_
        · rw [h2.1]
          exact ⟨.recvBtc, by decide⟩
        · simp only [processWithdraw, Proc.get_bind_apply, hb, if_neg h1, if_pos h2]
      · refine (Refines.fail hb).of_eq ?_
        simp only [processWithdraw, Proc.get_bind_apply, hb, if_neg h1, if_neg h2]

/-- The answer to a conversion changes nothing, or fails the record. -/
theorem processTransfer_refines {args : Args} {w : World} (success : Bool)
    (hf : w.file = w.storage) :
    Refines args (.transfer success) (processTransfer success) w := by
  by_cases h : (w.storage.balancing.isSome && !success) = true
  · obtain ⟨t, ht⟩ := Option.isSome_iff_exists.mp (Bool.and_eq_true_iff.mp h).1
    refine (Refines.fail ht).of_eq ?_
    simp only [processTransfer, Proc.get_bind_apply, if_pos h]
  · refine (Refines.idle hf).of_eq ?_
    simp only [processTransfer, Proc.get_bind_apply, if_neg h]

/-- A question to the exchange makes no move. -/
theorem processCheckExchange_refines {args : Args} {w : World} (connected : Bool)
    (hf : w.file = w.storage) :
    Refines args (.checkExchange connected) (processCheckExchange args connected) w := by
  cases hb : w.storage.balancing with
  | none =>
    refine (Refines.idle hf).of_eq ?_
    simp only [processCheckExchange, Proc.get_bind_apply, hb]
  | some t =>
    cases connected with
    | false =>
      refine (Refines.idle hf).of_eq ?_
      simp [processCheckExchange, Proc.get_bind_apply, hb]
    | true =>
      by_cases ht : 10 ≤ t.createdAt
      · have hrun : processCheckExchange args true w =
            notify (.movements args.bitfinexKey args.bitfinexSecret
              (1000 * (t.createdAt - 10 : ℕ))) w := by
          simp only [processCheckExchange, Proc.get_bind_apply, hb, if_pos ht]
          rfl
        exact .quiet hf hrun rfl rfl rfl
      · refine Refines.abort.of_eq ?_
        simp only [processCheckExchange, Proc.get_bind_apply, hb, if_neg ht]
        rfl

/-- A movement that is confirmed completes the record that waits for it. -/
theorem processMovements_refines {args : Args} {w : World} (msg : Movements)
    (hf : w.file = w.storage) :
    Refines args (.movements msg) (processMovements msg) w := by
  have hidle : Refines args (.movements msg) (pure ()) w := .idle hf
  unfold processMovements
  refine .get ?_
  -- without a record, or with movements as before, nothing happens
  split_ifs with h1 h2
  · exact hidle
  · exact .quiet hf rfl rfl rfl rfl
  · split
    · exact hidle
    · rename_i t hb
      split
      · -- USDT has been sent: its transaction is looked up among the deposits
        rename_i hs
        refine .expect fun txid _ => ?_
        split_ifs
        · exact .complete hb (hs ▸ ⟨.sendUsdt, by decide⟩)
        · exact hidle
      · -- USDT or bitcoin is on its way back: the withdrawal is looked up by its identifier
        rename_i hs
        split_ifs
        · exact .complete hb (hs ▸ ⟨.recvUsdt, by decide⟩)
        · exact hidle
      · rename_i hs
        split_ifs
        · exact .complete hb (hs ▸ ⟨.recvBtc, by decide⟩)
        · exact hidle
      · exact hidle

/-- The three kinds of effects are followed by the same commit. -/
theorem Refines.issue {args : Args} {t : Tick} {w : World} {b : Transfer} {k : Kind} {e : Effect}
    {s : TransferState} {m : Balance Unit} (txid : Option String)
    (hb : w.storage.balancing = some b) (hr : ready args t b = true)
    (hk : b.state.issues = some k) (he : e.kind = some k) (hs : Follows b.state s)
    (hrpc : k = .send → t.rpcResult.isOk = true ∧ txid.isSome)
    (h : Saves m { w with effects := e :: w.effects }
      (some { b with txid := txid, updatedAt := w.now, state := s })) :
    Refines args (.timer t) (reach .entry >>= fun _ => emit e >>= fun _ => reach .issued >>=
      fun _ => m) w := by
  refine ⟨[e], _, ?_, .reach (Saves.emit (.reach (by decide) h)), ?_⟩
  · rw [hb]
    exact .issue b e k s w.now txid hk he hs fun h => (hrpc h).2
  · intro _
    exact ⟨b, hb, hr, k, hk, fun h => (hrpc h).1⟩

/-- A payment from the wallet. -/
theorem sendToAddress_refines {args : Args} {t : Tick} {w : World} {b : Transfer}
    {s : TransferState} (asset : Option String) (hb : w.storage.balancing = some b)
    (hr : ready args t b = true) (hk : b.state.issues = some .send) (hs : Follows b.state s) :
    Refines args (.timer t) (sendToAddress args t b asset s) w := by
  unfold sendToAddress
  cases ht : t.rpcResult with
  | ok txid =>
    refine .issue (some txid) hb hr hk rfl hs ?_ ?_
    · intro _
      rw [ht]
      exact ⟨rfl, rfl⟩
    · exact .modify rfl rfl rfl
        (updateBalancingState_saves (t := { b with txid := some txid }) s rfl)
  | error e =>
    have hsave := updateBalancingState_saves .failed hb
    refine Commits.refines hsave.commits.reach ?_
    rw [hb]
    exact .fail b w.now

/-- A withdrawal from the exchange. -/
theorem sendWithdraw_refines {args : Args} {t : Tick} {w : World} {b : Transfer}
    {s : TransferState} (method : String) (hb : w.storage.balancing = some b)
    (hr : ready args t b = true) (hk : b.state.issues = some .withdraw) (hs : Follows b.state s) :
    Refines args (.timer t) (sendWithdraw args b method s) w :=
  .issue b.txid hb hr hk rfl hs (by rintro ⟨⟩) (updateBalancingState_saves s hb)

/-- A conversion at the exchange. -/
theorem sendTransfer_refines {args : Args} {t : Tick} {w : World} {b : Transfer}
    {s : TransferState} (currency currencyTo : String) (hb : w.storage.balancing = some b)
    (hr : ready args t b = true) (hk : b.state.issues = some .transfer) (hs : Follows b.state s) :
    Refines args (.timer t) (sendTransfer args b currency currencyTo s) w :=
  .issue b.txid hb hr hk rfl hs (by rintro ⟨⟩) (updateBalancingState_saves s hb)

/-- A completed record is removed. -/
theorem removeBalancing_refines {args : Args} {msg : Msg} {w : World} {b : Transfer}
    (hb : w.storage.balancing = some b) (hs : b.state = .complete) :
    Refines args msg (setBalancing none >>= fun _ => emit .removed >>= fun _ => saveStorage) w := by
  refine ⟨[.removed], none, ?_, .modify rfl rfl rfl (Saves.emit (saveStorage_saves _)), ?_⟩
  · rw [hb]
    exact .remove b hs
  · rintro ⟨e, he, hk⟩
    rw [List.mem_singleton] at he
    subst he
    exact absurd rfl hk

/-- A tick makes the move of the record's state, or none. -/
theorem processBalancing_refines {args : Args} {w : World} (t : Tick) (hf : w.file = w.storage) :
    Refines args (.timer t) (processBalancing args t) w := by
  unfold processBalancing
  refine .get ?_
  -- without a record, or if the record is not ready, the timer does nothing
  split
  · exact .idle hf
  · rename_i b hb
    split_ifs with hr
    · -- one case for each state that acts, in the order of the code
      split
      · rename_i hs
        refine .expect fun asset _ => ?_
        exact sendToAddress_refines _ hb hr (by rw [hs]; rfl) (hs ▸ ⟨.sendUsdt, by decide⟩)
      · rename_i hs
        exact sendWithdraw_refines _ hb hr (by rw [hs]; rfl) (hs ▸ ⟨.recvUsdt, by decide⟩)
      · rename_i hs
        exact sendToAddress_refines _ hb hr (by rw [hs]; rfl) (hs ▸ ⟨.sendBtc, by decide⟩)
      · rename_i hs
        exact sendTransfer_refines _ _ hb hr (by rw [hs]; rfl) (hs ▸ ⟨.sendBtc, by decide⟩)
      · rename_i hs
        exact .complete hb (hs ▸ ⟨.sendBtc, by decide⟩)
      · rename_i hs
        exact sendTransfer_refines _ _ hb hr (by rw [hs]; rfl) (hs ▸ ⟨.recvBtc, by decide⟩)
      · rename_i hs
        exact sendWithdraw_refines _ hb hr (by rw [hs]; rfl) (hs ▸ ⟨.recvBtc, by decide⟩)
      · rename_i hs
        exact removeBalancing_refines hb hs
      · exact .idle hf
    · exact .idle hf

/-- What precedes it in a tick makes no move. -/
theorem processTimer_refines {args : Args} {w : World} (t : Tick) (hf : w.file = w.storage) :
    Refines args (.timer t) (processTimer args t) w := by
  -- the check before `process_balancing` ends the process or leaves notices only
  have hcheck : checkBalancing args t w = .abort w ∨
      ∃ notices, checkBalancing args t w = .ok () { w with notices := notices } := by
    unfold checkBalancing
    rw [Proc.get_bind_apply]
    cases w.storage.balancing with
    | some b =>
      dsimp only
      split_ifs
      · exact .inr ⟨w.notices, rfl⟩
      · exact .inl rfl
    | none =>
      dsimp only
      split_ifs
      · cases startRequest args t with
        | some req => exact .inr ⟨_, rfl⟩
        | none => exact .inr ⟨w.notices, rfl⟩
      · exact .inr ⟨w.notices, rfl⟩
  unfold processTimer
  rcases hcheck with h | ⟨notices, h⟩
  · refine Refines.abort.of_eq ?_
    rw [Proc.bind_apply, h]
    rfl
  · exact .after h rfl rfl rfl rfl (processBalancing_refines t hf)

/-- Every handler makes one move of the abstract machine and puts it on file. -/
theorem handle_refines (args : Args) (i : Input) {w : World} (hf : w.file = w.storage) :
    Refines args i.msg (dispatch args i.msg) { w with now := i.now, crashAt := i.crashAt } := by
  cases hm : i.msg with
  | timer t => exact processTimer_refines t hf
  | cli req => exact processCli_refines req hf
  | withdraw id => exact processWithdraw_refines id hf
  | movements msg => exact processMovements_refines msg hf
  | transfer success => exact processTransfer_refines success hf
  | checkExchange connected => exact processCheckExchange_refines connected hf

/-- What one message does to the world, by the ending of its handler. -/
theorem handle_state (args : Args) (i : Input) {w : World} (hf : w.file = w.storage) :
    ∃ es b, Move w.file.balancing es b ∧
      ((((machine args).handle i w).state.file = w.file ∧
          ((machine args).handle i w).state.effects = w.effects)
        ∨ (((machine args).handle i w).state.file = ⟨b⟩ ∧
          ((machine args).handle i w).state.effects = es ++ w.effects)
        ∨ (((machine args).handle i w).state.file = w.file ∧
          ((machine args).handle i w).state.effects = es ++ w.effects ∧
          Interrupted i.crashAt ∧ ((∃ e ∈ es, e.kind ≠ none) → Acts args w i.msg))) ∧
      ∀ u w', (machine args).handle i w = .ok u w' → w'.file = w'.storage := by
  obtain ⟨es, b, hmove, hc, hacts⟩ := handle_refines args i hf
  have hrun : (machine args).handle i w =
      dispatch args i.msg { w with now := i.now, crashAt := i.crashAt } := rfl
  refine ⟨es, b, hf ▸ hmove, ?_, ?_⟩
  · rw [hrun]
    -- a call that returns has saved everything, one that panics some of it
    cases hm : dispatch args i.msg { w with now := i.now, crashAt := i.crashAt } with
    | ok u w' =>
      obtain ⟨-, h2, h3⟩ := hc.returns u w' hm
      exact .inr (.inl ⟨h2, h3⟩)
    | error e w' => exact e.elim
    | abort w' =>
      rcases hc.aborts w' hm with h | h | ⟨h1, h2, h3⟩
      · exact .inl h
      · exact .inr (.inl h)
      · refine .inr (.inr ⟨h1, h2, h3, fun he => ?_⟩)
        have ha := hacts he
        cases hi : i.msg <;> rw [hi] at ha <;> exact ha
  · -- memory and file agree again when the call has returned
    intro u w' h'
    obtain ⟨h1, h2, -⟩ := hc.returns u w' (hrun ▸ h')
    rw [h1, h2]

/-! ### Runs -/

/-- The records on file are sound. -/
def FileSound (w : World) : Prop := ∀ b, w.file.balancing = some b → b.Sound

/-- One message keeps the file sound, also where its handling crashes. -/
theorem handle_fileSound (args : Args) (i : Input) {w : World} (hs : FileSound w)
    (hf : w.file = w.storage) : FileSound ((machine args).handle i w).state := by
  obtain ⟨es, b, hmove, h, -⟩ := handle_state args i hf
  unfold FileSound
  rcases h with ⟨h, -⟩ | ⟨h, -⟩ | ⟨h, -⟩ <;> rw [h]
  · exact hs
  · exact hmove.sound hs
  · exact hs

/-- In every run the file is sound, and between messages it is what the process holds. -/
theorem run_fileSound (args : Args) (xs : List (Feed Input)) :
    FileSound ((machine args).run start xs).state ∧
      (((machine args).run start xs).alive = true →
        ((machine args).run start xs).state.file = ((machine args).run start xs).state.storage) := by
  refine Machine.run_life_invariant (A := fun w => w.file = w.storage) ?_
    (Machine.along_true start xs) ?_ ?_
  · refine ⟨?_, fun _ => rfl⟩
    rintro b ⟨⟩
  · intro w i _ hs hf
    obtain ⟨es, b, hmove, -, hret⟩ := handle_state args i hf
    exact ⟨handle_fileSound args i hs hf, hret⟩
  · intro w hs
    refine ⟨hs, ?_⟩
    rintro u w' ⟨⟩
    rfl

/-- Without a crash the file is written. -/
theorem saveStorage_returns {w : World} (hc : w.crashAt = none) :
    saveStorage w = .ok () { w with file := w.storage } := by
  simp only [saveStorage, Proc.bind_apply, reach_apply, hc, reduceCtorEq, ↓reduceIte,
    Proc.modify_apply]

/-- Without a crash the new state is saved. -/
theorem updateBalancingState_returns {w : World} {b : Transfer} (s : TransferState)
    (hc : w.crashAt = none) (hb : w.storage.balancing = some b) :
    ∃ w', updateBalancingState s w = .ok () w' := by
  have hsave : ∀ w1 : World, w1.crashAt = none → ∃ w', saveStorage w1 = .ok () w' :=
    fun w1 h1 => ⟨_, saveStorage_returns h1⟩
  simp only [updateBalancingState, Proc.get_bind_apply, hb]
  unfold notifyState
  split_ifs
  · exact hsave _ hc
  · exact hsave _ hc
  · exact hsave _ hc

/-- Without a crash, `process_movements` returns: the transaction id it expects is there. -/
theorem processMovements_returns {w : World} (msg : Movements) (hc : w.crashAt = none)
    (hs : ∀ b, w.storage.balancing = some b → b.Sound) :
    ∃ w', processMovements msg w = .ok () w' := by
  unfold processMovements
  rw [Proc.get_bind_apply]
  split_ifs with h1 h2
  · exact ⟨w, rfl⟩
  · exact ⟨_, rfl⟩
  · cases hb : w.storage.balancing with
    | none => exact ⟨w, rfl⟩
    | some b =>
      -- the state is either completed or left as it is; both return
      have hcomplete : ∀ c : Bool, ∃ w',
          (if c = true then updateBalancingState .complete else pure () : Balance Unit) w =
            .ok () w' := by
        rintro (_ | _)
        · exact ⟨w, rfl⟩
        · exact updateBalancingState_returns .complete hc hb
      -- the only lookup that may panic is that of the transaction, and a sound record has it
      cases hst : b.state with
      | sendUsdtWaitConfirm =>
        obtain ⟨txid, ht⟩ := Option.isSome_iff_exists.mp ((hs b hb).txid hst)
        simp only [ht, hst]
        exact hcomplete _
      | recvUsdtWaitConfirm =>
        simp only [hst]
        exact hcomplete _
      | recvBtcWaitConfirm =>
        simp only [hst]
        exact hcomplete _
      | _ =>
        simp only [hst]
        exact ⟨w, rfl⟩

/-- In every state of a run the record on file is sound and, while the process is running, is the
one in memory.  Every further message or restart makes progress on it, creates a record only where
there is none, and a list of movements that is handled without a crash never ends the process. -/
theorem record_invariant (args : Args) (xs : List (Feed Input)) (x : Feed Input) :
    let l := (machine args).run start xs
    let l' := (machine args).run start (xs ++ [x])
    (∀ b, l.state.file.balancing = some b → b.Sound)
      ∧ (l.alive = true → l.state.storage = l.state.file)
      ∧ Progress l.state.file.balancing l'.state.file.balancing
      ∧ (∃ es, l'.state.effects = es ++ l.state.effects ∧
          (Effect.created ∈ es → l.state.file.balancing = none))
      ∧ ∀ msg now, x = .deliver ⟨.movements msg, now, none⟩ → l.alive = true → l'.alive = true := by
  intro l l'
  obtain ⟨hsound, hfile⟩ := run_fileSound args xs
  have hl' : l' = (machine args).feed l x := Machine.run_append start xs [x]
  refine ⟨hsound, fun h => (hfile h).symm, ?_⟩
  rw [hl']
  -- a restart reads the file and leaves it as it is
  cases x with
  | restart =>
    refine ⟨.refl _, ⟨[], rfl, fun h => by cases h⟩, ?_⟩
    rintro msg now ⟨⟩
  | deliver i =>
    -- a process that runs handles the message
    by_cases ha : l.alive = true
    · obtain ⟨es, b, hmove, h, -⟩ := handle_state args i (hfile ha)
      rw [Machine.feed_state_deliver l i ha]
      refine ⟨?_, ?_, ?_⟩
      · -- the record in the file is the old one or the next one
        rcases h with ⟨h, -⟩ | ⟨h, -⟩ | ⟨h, -⟩ <;> rw [h]
        · exact .refl _
        · exact hmove.progress
        · exact .refl _
      · -- the effects are none or those of the move
        rcases h with ⟨-, h⟩ | ⟨-, h⟩ | ⟨-, h, -⟩ <;> rw [h]
        · exact ⟨[], rfl, fun h => by cases h⟩
        · exact ⟨es, rfl, hmove.created⟩
        · exact ⟨es, rfl, hmove.created⟩
      · -- movements are handled without a panic, so that the process lives on
        rintro msg now ⟨⟩ -
        have hs : ∀ b, l.state.storage.balancing = some b → b.Sound := hfile ha ▸ hsound
        obtain ⟨w', hw'⟩ := processMovements_returns
          (w := { l.state with now := now, crashAt := none }) msg rfl hs
        have hrun : (machine args).handle ⟨.movements msg, now, none⟩ l.state = .ok () w' := hw'
        rw [Machine.feed_deliver _ ha, hrun]
        rfl
    · -- a dead process does nothing
      rw [Machine.feed_dead i ha]
      exact ⟨.refl _, ⟨[], rfl, fun h => by cases h⟩, fun _ _ _ h => absurd h ha⟩

end SideSwap.Balancing
