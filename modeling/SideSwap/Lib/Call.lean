import Mathlib.Data.List.Forall2

/-!
# Calls that fail or panic

A function that returns a value, an error of type `ε`, or does not return because it panics.  The
lemmas take a call apart, one step after the other: a successful one (`bind_eq_ok`), or one that
fails in some step (`bind_eq_error`).
-/

/-- How a call ends without a result. -/
inductive Failure (ε : Type) where
  | error (e : ε)
  | panic
deriving DecidableEq

/-- A call that may end without a result. -/
abbrev Call (ε : Type) := Except (Failure ε)

namespace Call

variable {ε α β : Type}

/-- An error if the condition fails. -/
def ensure (condition : Bool) (e : ε) : Call ε Unit :=
  if condition then .ok () else .error (.error e)

/-- A panic if the condition fails. -/
def assert (condition : Bool) : Call ε Unit :=
  if condition then .ok () else .error .panic

/-- An error if there is no value. -/
def okOr (value : Option α) (e : ε) : Call ε α :=
  match value with
  | some a => .ok a
  | none => .error (.error e)

/-- A panic if there is no value. -/
def unwrap (value : Option α) : Call ε α :=
  match value with
  | some a => .ok a
  | none => .error .panic

/-- Two steps succeed if the first one does and the second one does on its value. -/
@[simp] theorem bind_eq_ok {m : Call ε α} {k : α → Call ε β} {b : β} :
    (m >>= k) = .ok b ↔ ∃ a, m = .ok a ∧ k a = .ok b := by
  cases m with
  | error e => simp [bind, Except.bind]
  | ok a => simp [bind, Except.bind]

/-- After a successful step comes the rest. -/
theorem bind_of_ok {m : Call ε α} {k : α → Call ε β} {a : α} (h : m = .ok a) : (m >>= k) = k a := by
  rw [h]
  rfl

/-- A failure ends the call. -/
theorem bind_of_error {m : Call ε α} {k : α → Call ε β} {f : Failure ε} (h : m = .error f) :
    (m >>= k) = .error f := by
  rw [h]
  rfl

/-- What follows a step matters only for the values that the step can have. -/
theorem bind_congr_of_ok {m : Call ε α} {k k' : α → Call ε β} (h : ∀ a, m = .ok a → k a = k' a) :
    (m >>= k) = (m >>= k') := by
  cases m with
  | error f => rfl
  | ok a => exact h a rfl

@[simp] theorem map_eq_ok {m : Call ε α} {f : α → β} {b : β} :
    f <$> m = .ok b ↔ ∃ a, m = .ok a ∧ f a = b := by
  cases m with
  | error e => simp [Functor.map, Except.map]
  | ok a => simp [Functor.map, Except.map]

@[simp] theorem pure_eq_ok {a b : α} : (pure a : Call ε α) = .ok b ↔ a = b :=
  Except.ok.injEq a b ▸ Iff.rfl

@[simp] theorem throw_ne_ok {e : Failure ε} {a : α} : (throw e : Call ε α) ≠ .ok a := by
  intro h
  cases h

@[simp] theorem ensure_eq_ok {condition : Bool} {e : ε} {u : Unit} :
    ensure condition e = .ok u ↔ condition = true := by
  cases condition <;> simp [ensure]

@[simp] theorem assert_eq_ok {condition : Bool} {u : Unit} :
    (assert condition : Call ε Unit) = .ok u ↔ condition = true := by
  cases condition <;> simp [assert]

@[simp] theorem okOr_eq_ok {value : Option α} {e : ε} {a : α} :
    okOr value e = .ok a ↔ value = some a := by
  cases value <;> simp [okOr]

@[simp] theorem unwrap_eq_ok {value : Option α} {a : α} :
    (unwrap value : Call ε α) = .ok a ↔ value = some a := by
  cases value <;> simp [unwrap]

/-- The value of a successful call. -/
theorem toOption_eq_some {m : Call ε α} {a : α} : m.toOption = some a ↔ m = .ok a := by
  cases m with
  | error f => exact iff_of_false (fun h => by cases h) (fun h => by cases h)
  | ok b => exact ⟨fun h => congrArg Except.ok (Option.some.inj h), fun h => by cases h; rfl⟩

/-- A call for each element of a list. -/
theorem mapM_eq_ok {f : α → Call ε β} {l : List α} {l' : List β} (h : l.mapM f = .ok l') :
    List.Forall₂ (fun a b => f a = .ok b) l l' := by
  induction l generalizing l' with
  | nil =>
    rw [List.mapM_nil, pure_eq_ok] at h
    rw [← h]
    exact .nil
  | cons a l ih =>
    simp only [List.mapM_cons, bind_eq_ok, pure_eq_ok] at h
    obtain ⟨b, hb, rest, hrest, rfl⟩ := h
    exact .cons hb (ih hrest)

/-- If every call succeeds, so does the list of them. -/
theorem mapM_of_forall₂ {f : α → Call ε β} {l : List α} {l' : List β}
    (h : List.Forall₂ (fun a b => f a = .ok b) l l') : l.mapM f = .ok l' := by
  induction h with
  | nil => rfl
  | cons hab _ ih =>
    simp only [List.mapM_cons, bind_eq_ok, pure_eq_ok]
    exact ⟨_, hab, _, ih, rfl⟩

/-- The calls for the elements of a list succeed together if each of them does. -/
theorem mapM_eq_ok_iff {f : α → Call ε β} {l : List α} {l' : List β} :
    l.mapM f = .ok l' ↔ List.Forall₂ (fun a b => f a = .ok b) l l' :=
  ⟨mapM_eq_ok, mapM_of_forall₂⟩

/-! ### Failing calls -/

/-- A call fails in its first step, or after it. -/
theorem bind_eq_error {m : Call ε α} {k : α → Call ε β} {f : Failure ε} :
    (m >>= k) = .error f ↔ m = .error f ∨ ∃ a, m = .ok a ∧ k a = .error f := by
  cases m with
  | error e => simp [bind, Except.bind]
  | ok a => simp [bind, Except.bind]

@[simp] theorem map_eq_error {m : Call ε α} {g : α → β} {f : Failure ε} :
    g <$> m = .error f ↔ m = .error f := by
  cases m with
  | error e => simp [Functor.map, Except.map]
  | ok a => simp [Functor.map, Except.map]

theorem pure_ne_error {a : α} {f : Failure ε} : (pure a : Call ε α) ≠ .error f := by
  intro h
  cases h

/-- `ensure` fails only with its error. -/
theorem ensure_eq_error {condition : Bool} {e : ε} {f : Failure ε} :
    ensure condition e = .error f ↔ condition = false ∧ f = .error e := by
  cases condition <;> simp [ensure, eq_comm]

/-- `assert` fails only with a panic. -/
theorem assert_eq_error {condition : Bool} {f : Failure ε} :
    (assert condition : Call ε Unit) = .error f ↔ condition = false ∧ f = .panic := by
  cases condition <;> simp [assert, eq_comm]

/-- `okOr` fails only with its error. -/
theorem okOr_eq_error {value : Option α} {e : ε} {f : Failure ε} :
    okOr value e = .error f ↔ value = none ∧ f = .error e := by
  cases value <;> simp [okOr, eq_comm]

/-- `unwrap` fails only with a panic. -/
theorem unwrap_eq_error {value : Option α} {f : Failure ε} :
    (unwrap value : Call ε α) = .error f ↔ value = none ∧ f = .panic := by
  cases value <;> simp [unwrap, eq_comm]

/-! ### All failures of a call -/

/-- Every failure of the call has the property. -/
def Fails (P : Failure ε → Prop) (m : Call ε α) : Prop := ∀ f, m = .error f → P f

namespace Fails

variable {P : Failure ε → Prop} {m : Call ε α}

/-- The failures of two steps are those of the first one, and those of the second one after a
success. -/
theorem bind {k : α → Call ε β} (hm : Fails P m) (hk : ∀ a, m = .ok a → Fails P (k a)) :
    Fails P (m >>= k) := by
  intro f hf
  rcases bind_eq_error.mp hf with hf | ⟨a, ha, hf⟩
  · exact hm f hf
  · exact hk a ha f hf

/-- A successful call has no failures. -/
theorem of_ok {a : α} (h : m = .ok a) : Fails P m := by
  rintro f rfl
  cases h

theorem pure (a : α) : Fails P (pure a : Call ε α) := of_ok rfl

/-- A weaker property of the same failures. -/
theorem mono {Q : Failure ε → Prop} (h : Fails P m) (hPQ : ∀ f, P f → Q f) : Fails Q m :=
  fun f hf => hPQ f (h f hf)

theorem ensure {condition : Bool} {e : ε} (h : P (.error e)) : Fails P (ensure condition e) := by
  intro f hf
  rw [(ensure_eq_error.mp hf).2]
  exact h

theorem okOr {value : Option α} {e : ε} (h : P (.error e)) : Fails P (okOr value e) := by
  intro f hf
  rw [(okOr_eq_error.mp hf).2]
  exact h

/-- The failures of a list of calls are those of its elements. -/
theorem mapM {g : α → Call ε β} {l : List α} (h : ∀ a ∈ l, Fails P (g a)) : Fails P (l.mapM g) := by
  induction l with
  | nil => exact pure []
  | cons a l ih =>
    rw [List.forall_mem_cons] at h
    rw [List.mapM_cons]
    exact h.1.bind fun b _ => (ih h.2).bind fun rest _ => pure (b :: rest)

end Fails

end Call
