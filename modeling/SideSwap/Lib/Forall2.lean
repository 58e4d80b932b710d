import Mathlib.Data.List.Forall2

/-!
# Lists that correspond

Facts about `List.Forall₂`: two lists of one length, the elements of which stand in a relation.

* `exists_iff`: there is a list for every list, if there is an element for every element.
* `mapM_eq_some_iff`: the results of a partial function correspond to its arguments.
-/

namespace Forall₂

variable {α β : Type} {R : α → β → Prop} {l : List α} {l' : List β}

/-- There is a related list if every element has a related one. -/
theorem exists_iff : (∃ l', List.Forall₂ R l l') ↔ ∀ a ∈ l, ∃ b, R a b := by
  constructor
  · rintro ⟨l', h⟩
    induction h with
    | nil =>
      intro a ha
      cases ha
    | cons hab _ ih =>
      rw [List.forall_mem_cons]
      exact ⟨⟨_, hab⟩, ih⟩
  · intro h
    induction l with
    | nil => exact ⟨[], .nil⟩
    | cons a l ih =>
      rw [List.forall_mem_cons] at h
      obtain ⟨b, hb⟩ := h.1
      obtain ⟨rest, hrest⟩ := ih h.2
      exact ⟨b :: rest, .cons hb hrest⟩

/-- The element at the same place is related. -/
theorem getElem? (h : List.Forall₂ R l l') {i : ℕ} {a : α} (ha : l[i]? = some a) :
    ∃ b, l'[i]? = some b ∧ R a b := by
  obtain ⟨hi, rfl⟩ := List.getElem?_eq_some_iff.mp ha
  have hi' : i < l'.length := h.length_eq ▸ hi
  exact ⟨l'[i], List.getElem?_eq_getElem hi', h.get hi hi'⟩

/-- Every element of the second list is related to one of the first. -/
theorem exists_of_mem (h : List.Forall₂ R l l') {b : β} (hb : b ∈ l') : ∃ a ∈ l, R a b := by
  induction h with
  | nil => cases hb
  | @cons a b' l l' hab _ ih =>
    rcases List.mem_cons.mp hb with rfl | hb
    · exact ⟨a, List.mem_cons_self .., hab⟩
    · obtain ⟨a', ha', hr⟩ := ih hb
      exact ⟨a', List.mem_cons_of_mem _ ha', hr⟩

/-- The values of a partial function, as a relation of lists. -/
theorem mapM_eq_some_iff {f : α → Option β} :
    l.mapM f = some l' ↔ List.Forall₂ (fun a b => f a = some b) l l' := by
  induction l generalizing l' with
  | nil => cases l' <;> simp
  | cons a l ih =>
    simp only [List.mapM_cons, Option.bind_eq_bind, Option.bind_eq_some_iff, Option.pure_def,
      Option.some.injEq, List.forall₂_cons_left_iff, ih]
    constructor
    · rintro ⟨b, hb, rest, hrest, rfl⟩
      exact ⟨b, rest, hb, hrest, rfl⟩
    · rintro ⟨b, rest, hb, hrest, rfl⟩
      exact ⟨b, hb, rest, hrest, rfl⟩

end Forall₂
