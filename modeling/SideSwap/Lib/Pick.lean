import Mathlib.Data.List.Perm.Basic
import Mathlib.Data.List.Perm.Subperm

/-!
# Picking elements by key

Elements of a list are picked by a list of keys: for each key the first element that has it, which
is then removed.  How it is removed does not matter up to the order of the others: `remove` may be
any function that permutes `eraseIdx`, such as the one that puts the last element into the gap
(`setLast_perm`).

Keys that make up a part of the keys of the list can be picked (`pick_isSome`), and what is picked
are different elements of the list with these keys (`pick_spec`).
-/

namespace Pick

variable {α κ : Type} [DecidableEq κ]

/-- A way to remove the element at an index. -/
def Removes (remove : List α → ℕ → List α) : Prop :=
  ∀ (l : List α) (index : ℕ), index < l.length → (remove l index).Perm (l.eraseIdx index)

/-- The last element takes the place of the removed one. -/
def setLast (l : List α) (index : ℕ) : List α :=
  match l.getLast? with
  | some last => (l.set index last).dropLast
  | none => []

/-- To put the last element into the gap removes one element up to the order. -/
theorem setLast_perm : Removes (setLast : List α → ℕ → List α) := by
  intro l index hindex
  obtain ⟨init, last, rfl⟩ : ∃ init last, l = init ++ [last] :=
    ⟨l.dropLast, l.getLast (List.ne_nil_of_length_pos (by omega)),
      (List.dropLast_append_getLast _).symm⟩
  rw [List.length_append, List.length_singleton] at hindex
  unfold setLast
  rw [List.getLast?_concat]
  show ((init ++ [last]).set index last).dropLast.Perm _
  by_cases hlast : index < init.length
  · rw [List.set_append_left _ _ hlast, List.dropLast_concat,
      List.eraseIdx_append_of_lt_length hlast]
    exact (List.set_perm_cons_eraseIdx hlast last).trans (List.perm_append_singleton _ _).symm
  · obtain rfl : index = init.length := by omega
    rw [List.set_append_right _ _ (Nat.le_refl _), List.eraseIdx_append_of_length_le (Nat.le_refl _)]
    simp

/-- The first elements left with the keys, in the order of the keys. -/
def pick (remove : List α → ℕ → List α) (key : α → κ) : List α → List κ → Option (List α)
  | _, [] => some []
  | l, k :: keys => do
    let index ← l.findIdx? fun a => key a = k
    let a ← l[index]?
    let more ← pick remove key (remove l index) keys
    return a :: more

variable {remove : List α → ℕ → List α} {key : α → κ} {l taken : List α} {keys : List κ}

/-- A key picks the first element that has it, and the others pick from what is left. -/
theorem pick_cons {k : κ} (hpick : pick remove key l (k :: keys) = some taken) :
    ∃ index, ∃ h : index < l.length, ∃ more, key l[index] = k
      ∧ pick remove key (remove l index) keys = some more ∧ taken = l[index] :: more := by
  simp only [pick, Option.bind_eq_bind, Option.bind_eq_some_iff, Option.pure_def,
    Option.some.injEq] at hpick
  obtain ⟨index, hfound, a, ha, more, hmore, rfl⟩ := hpick
  obtain ⟨hindex, rfl⟩ := List.getElem?_eq_some_iff.mp ha
  have hkey := (List.findIdx?_eq_some_iff_getElem.mp hfound).2.1
  exact ⟨index, hindex, more, decide_eq_true_eq.mp hkey, hmore, rfl⟩

/-- What is picked has the keys, and is part of the list. -/
theorem pick_spec (hremove : Removes remove) (hpick : pick remove key l keys = some taken) :
    taken.map key = keys ∧ taken.Subperm l := by
  induction keys generalizing l taken with
  | nil =>
    cases hpick
    exact ⟨rfl, List.nil_subperm⟩
  | cons k keys ih =>
    obtain ⟨index, hindex, more, hkey, hmore, rfl⟩ := pick_cons hpick
    obtain ⟨hkeys, hsub⟩ := ih hmore
    refine ⟨by rw [List.map_cons, hkey, hkeys], ?_⟩
    have hperm : (l[index] :: l.eraseIdx index).Perm l := List.getElem_cons_eraseIdx_perm hindex
    refine List.Subperm.trans ?_ hperm.subperm
    exact (List.subperm_cons _).mpr (hsub.trans (hremove l index hindex).subperm)

/-- Keys of the list can be picked. -/
theorem pick_isSome (hremove : Removes remove) (hkeys : keys.Subperm (l.map key)) :
    (pick remove key l keys).isSome = true := by
  induction keys generalizing l with
  | nil => rfl
  | cons k keys ih =>
    have hmem : k ∈ l.map key := hkeys.subset List.mem_cons_self
    obtain ⟨a, ha, hak⟩ := List.mem_map.mp hmem
    obtain ⟨index, hfound⟩ : ∃ index, l.findIdx? (fun a => key a = k) = some index := by
      rw [← Option.isSome_iff_exists, List.findIdx?_isSome, List.any_eq_true]
      exact ⟨a, ha, by simpa using hak⟩
    obtain ⟨hindex, hkey, -⟩ := List.findIdx?_eq_some_iff_getElem.mp hfound
    have hperm : (l.map key).Perm (k :: (remove l index).map key) := by
      have hsplit : (l[index] :: l.eraseIdx index).Perm l := List.getElem_cons_eraseIdx_perm hindex
      rw [← decide_eq_true_eq.mp hkey]
      exact ((hsplit.symm.trans ((hremove l index hindex).symm.cons _)).map key)
    have hrest : keys.Subperm ((remove l index).map key) :=
      (List.subperm_cons k).mp (hkeys.trans hperm.subperm)
    obtain ⟨more, hmore⟩ := Option.isSome_iff_exists.mp (ih hrest)
    simp only [pick, hfound, List.getElem?_eq_getElem hindex, hmore, Option.bind_eq_bind,
      Option.bind_some, Option.pure_def, Option.isSome_some]

end Pick
