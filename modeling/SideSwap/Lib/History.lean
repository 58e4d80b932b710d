import Mathlib.Data.List.Basic

/-!
# Histories

A history is the list of the events so far, newest first, so that the tail at an event is what
happened before it.  `Always P` says that every event meets `P` with respect to what happened before
it.  `latest f` is the answer of the newest event that answers the question `f`.
-/

namespace History

variable {α β : Type}

/-- Every event of the history meets `P` with respect to what happened before. -/
inductive Always (P : α → List α → Prop) : List α → Prop where
  | nil : Always P []
  | cons {e : α} {older : List α} (head : P e older) (tail : Always P older) : Always P (e :: older)

/-- The newest event, and the history before it. -/
theorem always_cons {P : α → List α → Prop} {e : α} {older : List α} :
    Always P (e :: older) ↔ P e older ∧ Always P older := by
  constructor
  · rintro (_ | ⟨head, tail⟩)
    exact ⟨head, tail⟩
  · rintro ⟨head, tail⟩
    exact .cons head tail

instance instDecidableAlways {P : α → List α → Prop} [∀ e older, Decidable (P e older)] :
    (l : List α) → Decidable (Always P l)
  | [] => isTrue .nil
  | e :: older =>
    have := instDecidableAlways (P := P) older
    decidable_of_iff (P e older ∧ Always P older) always_cons.symm

/-- A history grows by events of a kind, and then by others of the kind. -/
theorem grown_trans {P : α → Prop} {first second third : List α}
    (h₁ : ∃ events, second = events ++ first ∧ ∀ e ∈ events, P e)
    (h₂ : ∃ events, third = events ++ second ∧ ∀ e ∈ events, P e) :
    ∃ events, third = events ++ first ∧ ∀ e ∈ events, P e := by
  obtain ⟨older, rfl, holder⟩ := h₁
  obtain ⟨newer, rfl, hnewer⟩ := h₂
  exact ⟨newer ++ older, (List.append_assoc ..).symm, List.forall_mem_append.mpr ⟨hnewer, holder⟩⟩

/-- What the newest event that answers `f` says. -/
def latest (f : α → List α → Option β) : List α → Option β
  | [] => none
  | e :: older => (f e older).or (latest f older)

/-- Every event meets what follows from `P`. -/
theorem Always.mono {P Q : α → List α → Prop} {l : List α} (h : Always P l)
    (hPQ : ∀ e older, P e older → Q e older) : Always Q l := by
  induction h with
  | nil => exact .nil
  | cons head _ ih => exact .cons (hPQ _ _ head) ih

/-- Events that have the property after any history can be added. -/
theorem Always.append {P : α → List α → Prop} {l events : List α} (h : Always P l)
    (hP : ∀ e ∈ events, ∀ older, P e older) : Always P (events ++ l) := by
  induction events with
  | nil => exact h
  | cons e events ih =>
    refine .cons (hP e List.mem_cons_self _) (ih ?_)
    exact fun e' he' => hP e' (List.mem_cons_of_mem _ he')

/-- What holds of a history holds of what happened before. -/
theorem Always.of_append {P : α → List α → Prop} {l events : List α} (h : Always P (events ++ l)) :
    Always P l := by
  induction events with
  | nil => exact h
  | cons e events ih => exact ih (always_cons.mp h).2

/-- The newest event with a value is the latest. -/
theorem latest_cons_of_some {f : α → List α → Option β} {e : α} {older : List α} {b : β}
    (he : f e older = some b) : latest f (e :: older) = some b := by
  rw [latest, he, Option.some_or]

/-- An event without a value does not change what is the latest. -/
theorem latest_cons_of_none {f : α → List α → Option β} {e : α} {older : List α}
    (he : f e older = none) : latest f (e :: older) = latest f older := by
  rw [latest, he, Option.none_or]

/-- Neither do several. -/
theorem latest_append {f : α → List α → Option β} {l events : List α}
    (hf : ∀ e ∈ events, ∀ older, f e older = none) : latest f (events ++ l) = latest f l := by
  induction events with
  | nil => rfl
  | cons e events ih =>
    rw [List.cons_append, latest_cons_of_none (hf e List.mem_cons_self (events ++ l))]
    exact ih fun e' he' => hf e' (List.mem_cons_of_mem _ he')

end History
