import Mathlib.Logic.Relation

/-!
# Sequential processes with abort

`Proc ε σ α` is a state-passing computation over a state `σ` that returns an `α`, fails with an
error `ε`, or aborts.  A failure can be handled (`attempt`) and keeps the state it happened in,
like an early return from a fallible function; an abort cannot be handled and ends the process.
A computation that cannot fail is polymorphic in `ε`.

The judgement `Guar G P m Q` combines a triple with a guarantee: from a state satisfying `P`,
every state change of `m` is a chain of `G`-steps, whether `m` returns, fails or aborts, and a
normal return establishes `Q`.  The rules follow the constructors (`Guar.bind`, `Guar.modify`,
`Guar.forM`, ...).  `Refines G m` is the special case without assertions.

A `Machine` feeds inputs to a process, which may die and be restarted: `Machine.run` is its
behaviour over a list of inputs, and `Machine.run_invariant` the induction over it.  `Along`
restricts a run to inputs that meet a condition in the state in which they are handled.
-/

/-! ### Chains of steps -/

/-- What every step preserves, a chain preserves. -/
theorem Relation.ReflTransGen.invariant {σ : Type} {G : σ → σ → Prop} {I : σ → Prop}
    (hG : ∀ s s', G s s' → I s → I s') {s s' : σ} (h : Relation.ReflTransGen G s s')
    (hs : I s) : I s' := by
  induction h with
  | refl => exact hs
  | tail _ hstep ih => exact hG _ _ hstep ih

/-! ### Computations -/

/-- The result of a computation: it returned, it failed, or it ended the process. -/
inductive Outcome (ε σ α : Type) where
  | ok (a : α) (s : σ)
  | error (e : ε) (s : σ)
  | abort (s : σ)

/-- The state a computation leaves, however it ended. -/
def Outcome.state {ε σ α : Type} : Outcome ε σ α → σ
  | .ok _ s => s
  | .error _ s => s
  | .abort s => s

/-- The computation returned. -/
def Outcome.isOk {ε σ α : Type} : Outcome ε σ α → Bool
  | .ok _ _ => true
  | .error _ _ => false
  | .abort _ => false

theorem Outcome.eq_ok_of_isOk {ε σ : Type} {o : Outcome ε σ Unit} (h : o.isOk = true) :
    o = .ok () o.state := by
  cases o with
  | ok u s => rfl
  | error e s => cases h
  | abort s => cases h

@[simp] theorem Outcome.state_ok {ε σ α : Type} (a : α) (s : σ) :
    (Outcome.ok a s : Outcome ε σ α).state = s := rfl

@[simp] theorem Outcome.state_error {ε σ α : Type} (e : ε) (s : σ) :
    (Outcome.error e s : Outcome ε σ α).state = s := rfl

@[simp] theorem Outcome.state_abort {ε σ α : Type} (s : σ) :
    (Outcome.abort s : Outcome ε σ α).state = s := rfl

/-- A computation over the state `σ` with errors `ε`. -/
def Proc (ε σ α : Type) : Type := σ → Outcome ε σ α

namespace Proc

variable {ε ε' σ α β : Type}

/-- Return `a` and leave the state alone. -/
protected def pure (a : α) : Proc ε σ α := fun s => .ok a s

/-- Run `m`, then `k` on its result; a failure or an abort of `m` is final. -/
protected def bind (m : Proc ε σ α) (k : α → Proc ε σ β) : Proc ε σ β := fun s =>
  match m s with
  | .ok a s' => k a s'
  | .error e s' => .error e s'
  | .abort s' => .abort s'

instance : Monad (Proc ε σ) where
  pure := Proc.pure
  bind := Proc.bind

/-- Read the state. -/
def get : Proc ε σ σ := fun s => .ok s s

/-- Change the state. -/
def modify (f : σ → σ) : Proc ε σ Unit := fun s => .ok () (f s)

/-- Fail with `e`. -/
def fail (e : ε) : Proc ε σ α := fun s => .error e s

/-- End the process. -/
def abort : Proc ε σ α := fun s => .abort s

/-- Run `m` and hand its failure to the caller as a value. -/
def attempt (m : Proc ε σ α) : Proc ε' σ (Except ε α) := fun s =>
  match m s with
  | .ok a s' => .ok (.ok a) s'
  | .error e s' => .ok (.error e) s'
  | .abort s' => .abort s'

/-- Go on only if `c` holds. -/
def ensure (c : Prop) [Decidable c] (e : ε) : Proc ε σ Unit := if c then Proc.pure () else fail e

/-- The value of an option, or the failure `e`. -/
def okOr (o : Option α) (e : ε) : Proc ε σ α :=
  match o with
  | some a => Proc.pure a
  | none => fail e

/-- The value of a result, or its failure. -/
def ofExcept (r : Except ε α) : Proc ε σ α :=
  match r with
  | .ok a => Proc.pure a
  | .error e => fail e

/-- The value of an option that must be there: its absence ends the process. -/
def expect (o : Option α) : Proc ε σ α :=
  match o with
  | some a => Proc.pure a
  | none => abort

/-- Run `f` on the elements of a list in order. -/
def each (l : List β) (f : β → Proc ε σ Unit) : Proc ε σ Unit :=
  match l with
  | [] => Proc.pure ()
  | b :: t => Proc.bind (f b) fun _ => each t f

/-! ### Running the primitives -/

@[simp] theorem pure_apply (a : α) (s : σ) : (Pure.pure a : Proc ε σ α) s = .ok a s := rfl

theorem bind_apply (m : Proc ε σ α) (k : α → Proc ε σ β) (s : σ) :
    (m >>= k) s =
      match m s with
      | .ok a s' => k a s'
      | .error e s' => .error e s'
      | .abort s' => .abort s' := rfl

theorem bind_ok {m : Proc ε σ α} {k : α → Proc ε σ β} {s s' : σ} {a : α} (h : m s = .ok a s') :
    (m >>= k) s = k a s' := by
  rw [bind_apply, h]

theorem bind_error {m : Proc ε σ α} {k : α → Proc ε σ β} {s s' : σ} {e : ε}
    (h : m s = .error e s') : (m >>= k) s = .error e s' := by
  rw [bind_apply, h]

theorem bind_abort {m : Proc ε σ α} {k : α → Proc ε σ β} {s s' : σ} (h : m s = .abort s') :
    (m >>= k) s = .abort s' := by
  rw [bind_apply, h]

/-- A sequence returns if both parts do. -/
theorem bind_eq_ok {m : Proc ε σ α} {k : α → Proc ε σ β} {s s' : σ} {b : β}
    (h : (m >>= k) s = .ok b s') : ∃ a s₁, m s = .ok a s₁ ∧ k a s₁ = .ok b s' := by
  rw [bind_apply] at h
  cases hms : m s with
  | ok a s₁ =>
    rw [hms] at h
    exact ⟨a, s₁, rfl, h⟩
  | error e s₁ =>
    rw [hms] at h
    cases h
  | abort s₁ =>
    rw [hms] at h
    cases h

@[simp] theorem get_apply (s : σ) : (get : Proc ε σ σ) s = .ok s s := rfl

theorem get_bind_apply (k : σ → Proc ε σ α) (s : σ) : (get >>= k) s = k s s := rfl

theorem expect_eq_ok {o : Option α} {s s' : σ} {a : α} (h : (expect o : Proc ε σ α) s = .ok a s') :
    o = some a ∧ s' = s := by
  cases o with
  | none => cases h
  | some b =>
    cases h
    exact ⟨rfl, rfl⟩

/-- A try that returns a value is a return. -/
theorem attempt_eq_ok {ε' : Type} {m : Proc ε σ α} {s s' : σ} {a : α}
    (h : (attempt m : Proc ε' σ (Except ε α)) s = .ok (.ok a) s') : m s = .ok a s' := by
  unfold attempt at h
  cases hms : m s with
  | ok b s₁ =>
    rw [hms] at h
    cases h
    rfl
  | error e s₁ =>
    rw [hms] at h
    cases h
  | abort s₁ =>
    rw [hms] at h
    cases h

@[simp] theorem modify_apply (f : σ → σ) (s : σ) :
    (modify f : Proc ε σ Unit) s = .ok () (f s) := rfl

@[simp] theorem fail_apply (e : ε) (s : σ) : (fail e : Proc ε σ α) s = .error e s := rfl

@[simp] theorem abort_apply (s : σ) : (abort : Proc ε σ α) s = .abort s := rfl

/-! ### Triples with a guarantee -/

/-- From `P`, every state change of `m` is a chain of `G`-steps and a return establishes `Q`. -/
def Guar (G : σ → σ → Prop) (P : σ → Prop) (m : Proc ε σ α) (Q : α → σ → Prop) : Prop :=
  ∀ s, P s → Relation.ReflTransGen G s (m s).state ∧ ∀ a s', m s = .ok a s' → Q a s'

namespace Guar

variable {G : σ → σ → Prop} {P P' : σ → Prop} {m : Proc ε σ α} {Q Q' : α → σ → Prop}

theorem pure {a : α} (h : ∀ s, P s → Q a s) : Guar G P (Pure.pure a : Proc ε σ α) Q := by
  intro s hs
  refine ⟨.refl, ?_⟩
  intro a' s' h'
  cases h'
  exact h s hs

theorem bind {k : α → Proc ε σ β} {R : β → σ → Prop} (hm : Guar G P m Q)
    (hk : ∀ a, Guar G (Q a) (k a) R) : Guar G P (m >>= k) R := by
  intro s hs
  obtain ⟨h1, h2⟩ := hm s hs
  rw [bind_apply]
  cases hms : m s with
  | ok a s' =>
    rw [hms] at h1
    obtain ⟨h3, h4⟩ := hk a s' (h2 a s' hms)
    exact ⟨h1.trans h3, h4⟩
  | error e s' =>
    rw [hms] at h1
    exact ⟨h1, fun _ _ h => by cases h⟩
  | abort s' =>
    rw [hms] at h1
    exact ⟨h1, fun _ _ h => by cases h⟩

theorem conseq (h : Guar G P m Q) (hP : ∀ s, P' s → P s) (hQ : ∀ a s, Q a s → Q' a s) :
    Guar G P' m Q' := by
  intro s hs
  obtain ⟨h1, h2⟩ := h s (hP s hs)
  exact ⟨h1, fun a s' h' => hQ a s' (h2 a s' h')⟩

theorem pre (h : Guar G P m Q) (hP : ∀ s, P' s → P s) : Guar G P' m Q :=
  h.conseq hP fun _ _ hq => hq

theorem post (h : Guar G P m Q) (hQ : ∀ a s, Q a s → Q' a s) : Guar G P m Q' :=
  h.conseq (fun _ hp => hp) hQ

theorem mono {G' : σ → σ → Prop} (h : Guar G P m Q) (hG : ∀ s s', G s s' → G' s s') :
    Guar G' P m Q := by
  intro s hs
  obtain ⟨h1, h2⟩ := h s hs
  exact ⟨Relation.ReflTransGen.mono hG _ _ h1, h2⟩

/-- What every step preserves holds at the end if it holds at the beginning. -/
theorem frame (h : Guar G P m Q) {F : σ → Prop} (hF : ∀ s s', G s s' → F s → F s') :
    Guar G (fun s => P s ∧ F s) m fun a s => Q a s ∧ F s := by
  intro s hs
  obtain ⟨h1, h2⟩ := h s hs.1
  refine ⟨h1, ?_⟩
  intro a s' hm
  rw [hm] at h1
  exact ⟨h2 a s' hm, h1.invariant hF hs.2⟩

/-- A computation that takes no step leaves the state alone. -/
theorem cases_of_no_step (h : Guar (fun _ _ => False) P m Q) {s : σ} (hs : P s) :
    (∃ a, m s = .ok a s ∧ Q a s) ∨ (∃ e, m s = .error e s) ∨ m s = .abort s := by
  obtain ⟨h1, h2⟩ := h s hs
  have hstate : (m s).state = s := by
    rcases h1.cases_tail with h' | ⟨_, _, h'⟩
    · exact h'
    · exact h'.elim
  cases hm : m s with
  | ok a s' =>
    rw [hm] at hstate
    obtain rfl : s' = s := hstate
    exact .inl ⟨a, rfl, h2 a s' hm⟩
  | error e s' =>
    rw [hm] at hstate
    obtain rfl : s' = s := hstate
    exact .inr (.inl ⟨e, rfl⟩)
  | abort s' =>
    rw [hm] at hstate
    obtain rfl : s' = s := hstate
    exact .inr (.inr rfl)

/-- A fact that does not depend on the state can be used to choose the derivation. -/
theorem of_fact {p : Prop} (h : p → Guar G P m Q) : Guar G (fun s => p ∧ P s) m Q :=
  fun s hs => h hs.1 s hs.2

theorem get : Guar G P (Proc.get : Proc ε σ σ) fun a s => a = s ∧ P s := by
  intro s hs
  refine ⟨.refl, ?_⟩
  intro a s' h
  cases h
  exact ⟨rfl, hs⟩

theorem modify {f : σ → σ} {R : Unit → σ → Prop} (hG : ∀ s, P s → G s (f s))
    (hR : ∀ s, P s → R () (f s)) : Guar G P (Proc.modify f : Proc ε σ Unit) R := by
  intro s hs
  refine ⟨.single (hG s hs), ?_⟩
  intro a s' h
  cases h
  exact hR s hs

theorem fail {e : ε} : Guar G P (Proc.fail e : Proc ε σ α) Q :=
  fun _ _ => ⟨.refl, fun _ _ h => by cases h⟩

theorem abort : Guar G P (Proc.abort : Proc ε σ α) Q :=
  fun _ _ => ⟨.refl, fun _ _ h => by cases h⟩

theorem attempt (h : Guar G P m Q) :
    Guar G P (Proc.attempt m : Proc ε' σ (Except ε α)) fun r s => ∀ a, r = .ok a → Q a s := by
  intro s hs
  obtain ⟨h1, h2⟩ := h s hs
  unfold Proc.attempt
  cases hms : m s with
  | ok a s' =>
    rw [hms] at h1
    refine ⟨h1, ?_⟩
    intro r s'' h' a' hr
    cases h'
    cases hr
    exact h2 a s' hms
  | error e s' =>
    rw [hms] at h1
    refine ⟨h1, ?_⟩
    intro r s'' h' a' hr
    cases h'
    cases hr
  | abort s' =>
    rw [hms] at h1
    exact ⟨h1, fun _ _ h' => by cases h'⟩

/-- An attempt leaves the state that the computation leaves, whether it returns or fails. -/
theorem attempt_state {R : σ → Prop} (h : ∀ s, P s → R (m s).state) :
    Guar (fun _ _ => True) P (Proc.attempt m : Proc ε' σ (Except ε α)) fun _ s => R s := by
  intro s hs
  refine ⟨.single trivial, fun r s' hr => ?_⟩
  have hstate := h s hs
  unfold Proc.attempt at hr
  cases hms : m s with
  | ok a t =>
    rw [hms] at hr hstate
    cases hr
    exact hstate
  | error e t =>
    rw [hms] at hr hstate
    cases hr
    exact hstate
  | abort t =>
    rw [hms] at hr
    cases hr

theorem ensure {c : Prop} [Decidable c] {e : ε} :
    Guar G P (Proc.ensure c e : Proc ε σ Unit) fun _ s => c ∧ P s := by
  unfold Proc.ensure
  split
  · rename_i hc
    exact pure fun _ hs => ⟨hc, hs⟩
  · exact fail

theorem okOr {o : Option α} {e : ε} :
    Guar G P (Proc.okOr o e : Proc ε σ α) fun a s => o = some a ∧ P s := by
  unfold Proc.okOr
  cases o with
  | some a => exact pure fun _ hs => ⟨rfl, hs⟩
  | none => exact fail

theorem ofExcept {r : Except ε α} :
    Guar G P (Proc.ofExcept r : Proc ε σ α) fun a s => r = .ok a ∧ P s := by
  unfold Proc.ofExcept
  cases r with
  | ok a => exact pure fun _ hs => ⟨rfl, hs⟩
  | error e => exact fail

theorem expect {o : Option α} :
    Guar G P (Proc.expect o : Proc ε σ α) fun a s => o = some a ∧ P s := by
  unfold Proc.expect
  cases o with
  | some a => exact pure fun _ hs => ⟨rfl, hs⟩
  | none => exact abort

/-- The loop rule: `P` is the loop invariant. -/
theorem each {l : List β} {f : β → Proc ε σ Unit}
    (h : ∀ b ∈ l, Guar G P (f b) fun _ s => P s) :
    Guar G P (Proc.each l f) fun _ s => P s := by
  induction l with
  | nil => exact pure fun _ hs => hs
  | cons b t ih =>
    have hb := h b List.mem_cons_self
    have ht := ih fun b' hb' => h b' (List.mem_cons_of_mem _ hb')
    exact bind hb fun _ => ht

/-- The loop rule for a loop that establishes `D b` for every element `b` and keeps what it has
established. -/
theorem each_forall {l : List β} {f : β → Proc ε σ Unit} {D : β → σ → Prop}
    (h : ∀ b ∈ l, Guar G P (f b) fun _ s => P s ∧ D b s)
    (hkeep : ∀ b ∈ l, ∀ b' ∈ l, Guar G (fun s => P s ∧ D b s) (f b') fun _ s => P s ∧ D b s) :
    Guar G P (Proc.each l f) fun _ s => P s ∧ ∀ b ∈ l, D b s := by
  induction l with
  | nil => exact pure fun _ hs => ⟨hs, fun b hb => by cases hb⟩
  | cons b t ih =>
    have hhead := h b List.mem_cons_self
    have htail : Guar G P (Proc.each t f) fun _ s => P s ∧ ∀ b ∈ t, D b s :=
      ih (fun b' hb' => h b' (List.mem_cons_of_mem _ hb'))
        fun b hb b' hb' => hkeep b (List.mem_cons_of_mem _ hb) b' (List.mem_cons_of_mem _ hb')
    have hkept : Guar G (fun s => P s ∧ D b s) (Proc.each t f) fun _ s => P s ∧ D b s :=
      each fun b' hb' => hkeep b List.mem_cons_self b' (List.mem_cons_of_mem _ hb')
    refine bind hhead fun _ => fun s hs => ?_
    obtain ⟨hchain, hrest⟩ := htail s hs.1
    refine ⟨hchain, fun a s' ha => ?_⟩
    obtain ⟨hP, hD⟩ := hrest a s' ha
    refine ⟨hP, fun b' hb' => ?_⟩
    rcases List.mem_cons.mp hb' with rfl | hb'
    · exact ((hkept s hs).2 a s' ha).2
    · exact hD b' hb'

/-- The rule for a sequence whose failure is handled: `R` says what holds after a failure, too. -/
theorem attempt_bind {k : α → Proc ε σ β} {R : Except ε α → σ → Prop} {R' : Except ε β → σ → Prop}
    (hm : Guar G P (Proc.attempt m : Proc ε' σ (Except ε α)) R)
    (hk : ∀ a, Guar G (R (.ok a)) (Proc.attempt (k a) : Proc ε' σ (Except ε β)) R')
    (hR : ∀ e s, R (.error e) s → R' (.error e) s) :
    Guar G P (Proc.attempt (m >>= k) : Proc ε' σ (Except ε β)) R' := by
  intro s hs
  obtain ⟨hchain, hpost⟩ := hm s hs
  unfold Proc.attempt at hchain hpost ⊢
  rw [bind_apply]
  cases hms : m s with
  | ok a s' =>
    rw [hms] at hchain hpost
    obtain ⟨hchain', hpost'⟩ := hk a s' (hpost _ s' rfl)
    exact ⟨hchain.trans hchain', hpost'⟩
  | error e s' =>
    rw [hms] at hchain hpost
    refine ⟨hchain, ?_⟩
    intro r s'' hr
    cases hr
    exact hR e s' (hpost _ s' rfl)
  | abort s' =>
    rw [hms] at hchain
    exact ⟨hchain, fun _ _ hr => by cases hr⟩

end Guar

/-! ### Computations that do not fail -/

/-- `m` returns or aborts. -/
def NoFail (m : Proc ε σ α) : Prop := ∀ s e s', m s ≠ .error e s'

namespace NoFail

theorem pure (a : α) : NoFail (Pure.pure a : Proc ε σ α) := fun _ _ _ h => by cases h

theorem bind {m : Proc ε σ α} {k : α → Proc ε σ β} (hm : NoFail m) (hk : ∀ a, NoFail (k a)) :
    NoFail (m >>= k) := by
  intro s e s' h
  rw [bind_apply] at h
  cases hms : m s with
  | ok a s₁ =>
    rw [hms] at h
    exact hk a s₁ e s' h
  | error e₁ s₁ => exact hm s e₁ s₁ hms
  | abort s₁ =>
    rw [hms] at h
    cases h

theorem get : NoFail (Proc.get : Proc ε σ σ) := fun _ _ _ h => by cases h

theorem modify (f : σ → σ) : NoFail (Proc.modify f : Proc ε σ Unit) := fun _ _ _ h => by cases h

theorem attempt (m : Proc ε σ α) : NoFail (Proc.attempt m : Proc ε' σ (Except ε α)) := by
  intro s e s' h
  unfold Proc.attempt at h
  split at h <;> cases h

theorem each {l : List β} {f : β → Proc ε σ Unit} (hf : ∀ b, NoFail (f b)) :
    NoFail (Proc.each l f) := by
  induction l with
  | nil => exact pure ()
  | cons b t ih => exact bind (hf b) fun _ => ih

theorem guar_attempt {G : σ → σ → Prop} {P : σ → Prop} {m : Proc ε σ α} {Q : α → σ → Prop}
    (hfail : NoFail m) (hm : Guar G P m Q) :
    Guar G P (Proc.attempt m : Proc ε' σ (Except ε α)) fun r s => ∃ a, r = .ok a ∧ Q a s := by
  intro s hs
  obtain ⟨hchain, hpost⟩ := hm s hs
  unfold Proc.attempt
  cases hms : m s with
  | ok a s' =>
    rw [hms] at hchain
    refine ⟨hchain, ?_⟩
    intro r s'' hr
    cases hr
    exact ⟨a, rfl, hpost a s' hms⟩
  | error e s' => exact absurd hms (hfail s e s')
  | abort s' =>
    rw [hms] at hchain
    exact ⟨hchain, fun _ _ hr => by cases hr⟩

end NoFail

/-! ### The judgement without assertions -/

/-- Every state change of `m` is a chain of `G`-steps. -/
def Refines (G : σ → σ → Prop) (m : Proc ε σ α) : Prop :=
  Guar G (fun _ => True) m fun _ _ => True

namespace Refines

variable {G : σ → σ → Prop} {m : Proc ε σ α}

theorem chain (h : Refines G m) (s : σ) : Relation.ReflTransGen G s (m s).state :=
  (h s trivial).1

/-- A refinement can be used under any precondition. -/
theorem guar (h : Refines G m) {P : σ → Prop} : Guar G P m fun _ _ => True :=
  Guar.pre h fun _ _ => trivial

theorem of_guar {Q : α → σ → Prop} (h : Guar G (fun _ => True) m Q) : Refines G m :=
  Guar.post h fun _ _ _ => trivial

theorem of_chain (h : ∀ s, Relation.ReflTransGen G s (m s).state) : Refines G m :=
  fun s _ => ⟨h s, fun _ _ _ => trivial⟩

theorem pure (a : α) : Refines G (Pure.pure a : Proc ε σ α) := Guar.pure fun _ _ => trivial

theorem bind {k : α → Proc ε σ β} (hm : Refines G m) (hk : ∀ a, Refines G (k a)) :
    Refines G (m >>= k) :=
  Guar.bind hm hk

theorem get : Refines G (Proc.get : Proc ε σ σ) := of_guar Guar.get

theorem modify {f : σ → σ} (h : ∀ s, G s (f s)) : Refines G (Proc.modify f : Proc ε σ Unit) :=
  Guar.modify (fun s _ => h s) fun _ _ => trivial

theorem fail (e : ε) : Refines G (Proc.fail e : Proc ε σ α) := Guar.fail

theorem abort : Refines G (Proc.abort : Proc ε σ α) := Guar.abort

theorem attempt (h : Refines G m) : Refines G (Proc.attempt m : Proc ε' σ (Except ε α)) :=
  of_guar (Guar.attempt h)

theorem ensure {c : Prop} [Decidable c] (e : ε) :
    Refines G (Proc.ensure c e : Proc ε σ Unit) :=
  of_guar Guar.ensure

theorem okOr (o : Option α) (e : ε) : Refines G (Proc.okOr o e : Proc ε σ α) :=
  of_guar Guar.okOr

theorem ofExcept (r : Except ε α) : Refines G (Proc.ofExcept r : Proc ε σ α) :=
  of_guar Guar.ofExcept

theorem expect (o : Option α) : Refines G (Proc.expect o : Proc ε σ α) := of_guar Guar.expect

/-- A computation that takes no step keeps everything. -/
theorem still {P : σ → Prop} (h : Refines (fun _ _ => False) m) : Guar G P m fun _ s => P s := by
  have hframe := Guar.frame h (F := P) fun _ _ hstep => hstep.elim
  exact (hframe.mono fun _ _ hstep => hstep.elim).conseq (fun _ hs => ⟨trivial, hs⟩) fun _ _ hs => hs.2

theorem each {l : List β} {f : β → Proc ε σ Unit} (h : ∀ b ∈ l, Refines G (f b)) :
    Refines G (Proc.each l f) :=
  of_guar (Guar.each h)

end Refines

/-! ### Computations that preserve a property -/

/-- A step that keeps `I`. -/
def Preserves (I : σ → Prop) (s s' : σ) : Prop := I s → I s'

namespace Refines

variable {I : σ → Prop} {m : Proc ε σ α}

theorem preserves (h : Refines (Preserves I) m) {s : σ} (hs : I s) : I (m s).state :=
  (h.chain s).invariant (fun _ _ hstep => hstep) hs

theorem preserves_ok (h : Refines (Preserves I) m) {s s' : σ} {a : α} (hs : I s)
    (hok : m s = .ok a s') : I s' := by
  have hs' := h.preserves hs
  rw [hok] at hs'
  exact hs'

/-- What `m` preserves can be carried along in a triple. -/
theorem carry (h : Refines (Preserves I) m) : Guar (Preserves I) I m fun _ s => I s := by
  intro s hs
  refine ⟨h.chain s, ?_⟩
  intro a s' hm
  have hs' := h.preserves hs
  rw [hm] at hs'
  exact hs'

end Refines

/-! ### Computations that commit at their end -/

/-- `m` takes only `Q`-steps, followed by one `S`-step if it returns. -/
def Commits (Q S : σ → σ → Prop) (m : Proc ε σ α) : Prop :=
  ∀ s, (∃ a s₁ s₂, Relation.ReflTransGen Q s s₁ ∧ S s₁ s₂ ∧ m s = .ok a s₂) ∨
    Relation.ReflTransGen Q s (m s).state ∧ ∀ a s', m s ≠ .ok a s'

namespace Commits

variable {Q S : σ → σ → Prop}

theorem bind {m : Proc ε σ α} {k : α → Proc ε σ β} (hm : Refines Q m)
    (hk : ∀ a, Commits Q S (k a)) : Commits Q S (m >>= k) := by
  intro s
  have hchain := hm.chain s
  cases hms : m s with
  | ok a s' =>
    rw [hms] at hchain
    rw [bind_ok hms]
    rcases hk a s' with ⟨b, s₁, s₂, h1, h2, h3⟩ | ⟨h1, h2⟩
    · exact .inl ⟨b, s₁, s₂, hchain.trans h1, h2, h3⟩
    · exact .inr ⟨hchain.trans h1, h2⟩
  | error e s' =>
    rw [hms] at hchain
    rw [bind_error hms]
    exact .inr ⟨hchain, fun _ _ h => by cases h⟩
  | abort s' =>
    rw [hms] at hchain
    rw [bind_abort hms]
    exact .inr ⟨hchain, fun _ _ h => by cases h⟩

theorem modify {f : σ → σ} (a : α) (hf : ∀ s, S s (f s)) :
    Commits Q S (Proc.modify f >>= fun _ => Pure.pure a : Proc ε σ α) :=
  fun s => .inl ⟨a, s, f s, .refl, hf s, rfl⟩

end Commits

end Proc

/-! ### Machines -/

/-- What a machine is fed: an input for its process, or a restart of the process. -/
inductive Feed (ι : Type) where
  | deliver (i : ι)
  | restart

/-- A state, and whether the process is still running. -/
structure Life (σ : Type) where
  state : σ
  alive : Bool

/-- A process lives on if its computation returns. -/
def Outcome.life {σ : Type} : Outcome Empty σ Unit → Life σ
  | .ok _ s => ⟨s, true⟩
  | .error _ s => ⟨s, false⟩
  | .abort s => ⟨s, false⟩

@[simp] theorem Outcome.life_state {σ : Type} (o : Outcome Empty σ Unit) :
    o.life.state = o.state := by
  cases o <;> rfl

/-- A process that handles one input after the other, and how a new process starts in the state
that the previous one left. -/
structure Machine (σ ι : Type) where
  handle : ι → Proc Empty σ Unit
  boot : Proc Empty σ Unit

namespace Machine

variable {σ ι : Type} (M : Machine σ ι)

/-- The effect of one input on a running process, of a restart on any. -/
def feed (l : Life σ) : Feed ι → Life σ
  | .restart => (M.boot l.state).life
  | .deliver i => if l.alive then (M.handle i l.state).life else l

/-- A run: the inputs are fed one after the other. -/
def run (l : Life σ) : List (Feed ι) → Life σ
  | [] => l
  | x :: xs => run (M.feed l x) xs

/-- Every input that a living process handles along the run meets `C` in the state it is
handled in. -/
def Along (C : σ → ι → Prop) (l : Life σ) : List (Feed ι) → Prop
  | [] => True
  | x :: xs =>
    (∀ i, x = .deliver i → l.alive = true → C l.state i) ∧ Along C (M.feed l x) xs

/-- A condition that can be checked can be checked along a run. -/
instance decidableAlong {C : σ → ι → Prop} [∀ s i, Decidable (C s i)] :
    (l : Life σ) → (xs : List (Feed ι)) → Decidable (M.Along C l xs)
  | _, [] => isTrue trivial
  | l, .restart :: xs =>
    have : Decidable (M.Along C (M.feed l .restart) xs) := decidableAlong _ xs
    decidable_of_iff (M.Along C (M.feed l .restart) xs)
      ⟨fun h => ⟨(fun _ h' => by cases h'), h⟩, fun h => h.2⟩
  | l, .deliver i :: xs =>
    have : Decidable (M.Along C (M.feed l (.deliver i)) xs) := decidableAlong _ xs
    decidable_of_iff ((l.alive = true → C l.state i) ∧ M.Along C (M.feed l (.deliver i)) xs)
      ⟨fun h => ⟨(fun _ h' => by cases h'; exact h.1), h.2⟩, fun h => ⟨h.1 i rfl, h.2⟩⟩

variable {M}

theorem run_append (l : Life σ) (xs ys : List (Feed ι)) :
    M.run l (xs ++ ys) = M.run (M.run l xs) ys := by
  induction xs generalizing l with
  | nil => rfl
  | cons x xs ih => exact ih (M.feed l x)

theorem feed_deliver {l : Life σ} (i : ι) (h : l.alive = true) :
    M.feed l (.deliver i) = (M.handle i l.state).life := by
  simp only [feed, h, ↓reduceIte]

theorem feed_dead {l : Life σ} (i : ι) (h : ¬ l.alive = true) : M.feed l (.deliver i) = l := by
  simp only [feed, h]
  rfl

/-- A process that has ended ignores its inputs. -/
theorem run_dead {l : Life σ} (h : ¬ l.alive = true) (ys : List ι) :
    M.run l (ys.map .deliver) = l := by
  induction ys with
  | nil => rfl
  | cons i ys ih => rw [List.map_cons, run, feed_dead i h, ih]

theorem feed_state_deliver (l : Life σ) (i : ι) (h : l.alive = true) :
    (M.feed l (.deliver i)).state = (M.handle i l.state).state := by
  rw [feed_deliver i h, Outcome.life_state]

/-- The invariant rule for one input. -/
theorem feed_invariant {C : σ → ι → Prop} {I : σ → Prop} {l : Life σ} {x : Feed ι}
    (hl : I l.state) (hC : ∀ i, x = .deliver i → l.alive = true → C l.state i)
    (hstep : ∀ s i, C s i → I s → I (M.handle i s).state)
    (hboot : ∀ s, I s → I (M.boot s).state) : I (M.feed l x).state := by
  cases x with
  | restart =>
    rw [feed, Outcome.life_state]
    exact hboot _ hl
  | deliver i =>
    by_cases ha : l.alive = true
    · rw [feed_state_deliver l i ha]
      exact hstep _ i (hC i rfl ha) hl
    · rw [feed_dead i ha]
      exact hl

/-- The invariant rule for runs whose inputs all meet a condition. -/
theorem run_invariant_of_along {C : σ → ι → Prop} {I : σ → Prop} {l : Life σ}
    {xs : List (Feed ι)} (hl : I l.state) (hC : M.Along C l xs)
    (hstep : ∀ s i, C s i → I s → I (M.handle i s).state)
    (hboot : ∀ s, I s → I (M.boot s).state) : I (M.run l xs).state := by
  induction xs generalizing l with
  | nil => exact hl
  | cons x xs ih => exact ih (feed_invariant hl hC.1 hstep hboot) hC.2

theorem life_invariant {I A : σ → Prop} {m : Proc Empty σ Unit} {s : σ} (hI : I (m s).state)
    (hA : ∀ u s', m s = .ok u s' → A s') :
    I (m s).life.state ∧ ((m s).life.alive = true → A (m s).life.state) := by
  rw [Outcome.life_state]
  refine ⟨hI, ?_⟩
  cases hm : m s with
  | ok u s' =>
    intro _
    exact hA u s' hm
  | error e s' => exact e.elim
  | abort s' =>
    intro h
    cases h

/-- The same rule for an invariant `I` of all states and an invariant `A` of the states of a living
process, which a restart establishes. -/
theorem run_life_invariant {C : σ → ι → Prop} {I A : σ → Prop} {l : Life σ}
    {xs : List (Feed ι)} (hl : I l.state ∧ (l.alive = true → A l.state)) (hC : M.Along C l xs)
    (hstep : ∀ s i, C s i → I s → A s →
      I (M.handle i s).state ∧ ∀ u s', M.handle i s = .ok u s' → A s')
    (hboot : ∀ s, I s → I (M.boot s).state ∧ ∀ u s', M.boot s = .ok u s' → A s') :
    I (M.run l xs).state ∧ ((M.run l xs).alive = true → A (M.run l xs).state) := by
  induction xs generalizing l with
  | nil => exact hl
  | cons x xs ih =>
    refine ih ?_ hC.2
    cases x with
    | restart =>
      obtain ⟨h1, h2⟩ := hboot _ hl.1
      exact life_invariant h1 h2
    | deliver i =>
      by_cases ha : l.alive = true
      · obtain ⟨h1, h2⟩ := hstep _ i (hC.1 i rfl ha) hl.1 (hl.2 ha)
        rw [feed_deliver i ha]
        exact life_invariant h1 h2
      · rw [feed_dead i ha]
        exact hl

/-- The induction over the inputs of a process that lives on: what is known of its state develops
with the inputs. -/
theorem run_deliver_invariant {β : Type} {C : σ → ι → Prop} {A : β → σ → Prop} {next : β → ι → β}
    {l : Life σ} {ys : List ι} {b : β} (hl : A b l.state) (hC : M.Along C l (ys.map .deliver))
    (hstep : ∀ b s i s', C s i → A b s → M.handle i s = .ok () s' → A (next b i) s')
    (halive : (M.run l (ys.map .deliver)).alive = true) :
    A (ys.foldl next b) (M.run l (ys.map .deliver)).state := by
  induction ys generalizing l b with
  | nil => exact hl
  | cons i ys ih =>
    -- the machine lives and handles the message
    by_cases ha : l.alive = true
    · have hfeed : M.feed l (.deliver i) = (M.handle i l.state).life := feed_deliver i ha
      cases hhandle : M.handle i l.state with
      | ok u s' =>
        rw [hhandle] at hfeed
        refine ih ?_ hC.2 halive
        rw [hfeed]
        exact hstep b l.state i s' (hC.1 i rfl ha) hl hhandle
      | error e s' => exact e.elim
      | abort s' =>
        rw [hhandle] at hfeed
        have hdead : ¬ (M.feed l (.deliver i)).alive = true := by
          rw [hfeed]
          exact Bool.false_ne_true
        rw [List.map_cons, run, run_dead hdead] at halive
        exact absurd halive hdead
    · -- a machine that is dead stays as it is
      rw [run_dead ha] at halive
      exact absurd halive ha

/-- A condition that the inputs meet in every state is met along the run. -/
theorem along_of_mem {C : σ → ι → Prop} (l : Life σ) {xs : List (Feed ι)}
    (h : ∀ i, Feed.deliver i ∈ xs → ∀ s, C s i) : M.Along C l xs := by
  induction xs generalizing l with
  | nil => trivial
  | cons x xs ih =>
    refine ⟨?_, ih _ fun i hi => h i (List.mem_cons_of_mem _ hi)⟩
    rintro i rfl -
    exact h i List.mem_cons_self l.state

theorem along_append {C : σ → ι → Prop} {l : Life σ} {xs ys : List (Feed ι)}
    (hxs : M.Along C l xs) (hys : M.Along C (M.run l xs) ys) : M.Along C l (xs ++ ys) := by
  induction xs generalizing l with
  | nil => exact hys
  | cons x xs ih => exact ⟨hxs.1, ih hxs.2 hys⟩

/-- One more input that meets the condition. -/
theorem along_snoc {C : σ → ι → Prop} {l : Life σ} {xs : List (Feed ι)} {i : ι}
    (hxs : M.Along C l xs) (hi : C (M.run l xs).state i) : M.Along C l (xs ++ [.deliver i]) := by
  refine along_append hxs ⟨?_, trivial⟩
  rintro j hj -
  cases hj
  exact hi

theorem along_true (l : Life σ) (xs : List (Feed ι)) : M.Along (fun _ _ => True) l xs :=
  along_of_mem l fun _ _ _ => trivial

/-- The invariant rule for arbitrary runs. -/
theorem run_invariant {I : σ → Prop} {l : Life σ} {xs : List (Feed ι)} (hl : I l.state)
    (hstep : ∀ s i, I s → I (M.handle i s).state) (hboot : ∀ s, I s → I (M.boot s).state) :
    I (M.run l xs).state :=
  run_invariant_of_along hl (along_true l xs) (fun s i _ => hstep s i) hboot

end Machine
