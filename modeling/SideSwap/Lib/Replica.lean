import Mathlib.Logic.Function.Basic

/-!
# Replicas of a keyed table

A replica is told of the changes of a table one by one.  What it shows is the replay of the history
of updates, newest first, over the empty table.  A table is a partial function from its keys.
-/

namespace Replica

variable {α κ β γ : Type} [DecidableEq κ]

/-- A change of a table. -/
inductive Update (κ β : Type) where
  | set (key : κ) (value : β)
  | remove (key : κ)
  | clear

/-- The table after a change. -/
def Update.apply (table : κ → Option β) : Update κ β → κ → Option β
  | .set key value => Function.update table key (some value)
  | .remove key => Function.update table key none
  | .clear => fun _ => none

/-- The table that a history shows, where `f` reads an event as an update. -/
def replay (f : α → Option (Update κ β)) : List α → κ → Option β
  | [] => fun _ => none
  | e :: older =>
    match f e with
    | some u => u.apply (replay f older)
    | none => replay f older

variable {f : α → Option (Update κ β)} {e : α} {older events : List α}

theorem replay_cons_of_none (he : f e = none) : replay f (e :: older) = replay f older := by
  rw [replay, he]

/-- Events without updates do not show. -/
theorem replay_append (hf : ∀ e ∈ events, f e = none) : replay f (events ++ older) = replay f older := by
  induction events with
  | nil => rfl
  | cons e events ih =>
    rw [List.cons_append, replay_cons_of_none (hf e List.mem_cons_self)]
    exact ih fun e' he' => hf e' (List.mem_cons_of_mem _ he')

/-- The table after a list of updates, oldest first. -/
def applyAll (table : κ → Option β) (updates : List (Update κ β)) : κ → Option β :=
  updates.foldl Update.apply table

/-- Newer events apply their updates in the order of time. -/
theorem replay_append_eq_applyAll :
    replay f (events ++ older) = applyAll (replay f older) (events.filterMap f).reverse := by
  induction events with
  | nil => rfl
  | cons e events ih =>
    rw [List.cons_append, replay]
    cases he : f e with
    | none => rw [List.filterMap_cons_none he, ih]
    | some u =>
      rw [List.filterMap_cons_some he, List.reverse_cons, applyAll, List.foldl_append, ih]
      rfl

theorem applyAll_append (table : κ → Option β) (us vs : List (Update κ β)) :
    applyAll table (us ++ vs) = applyAll (applyAll table us) vs :=
  List.foldl_append

/-- What is removed is gone, and nothing else. -/
theorem applyAll_remove (table : κ → Option β) (keys : List κ) (k : κ) :
    applyAll table (keys.map .remove) k = if k ∈ keys then none else table k := by
  induction keys generalizing table with
  | nil => rfl
  | cons a keys ih =>
    rw [List.map_cons, applyAll, List.foldl_cons]
    refine (ih _).trans ?_
    rw [Update.apply, Function.update_apply]
    by_cases hk : k ∈ keys
    · rw [if_pos hk, if_pos (List.mem_cons_of_mem _ hk)]
    · by_cases ha : k = a
      · rw [if_neg hk, if_pos ha, if_pos (by rw [ha]; exact List.mem_cons_self)]
      · rw [if_neg hk, if_neg ha, if_neg (by simp [ha, hk])]

/-- Values that are set agree with a table `new`, so it does not matter how often they are set. -/
theorem applyAll_set (table new : κ → Option β) (items : List β) (key : β → κ)
    (hnew : ∀ v ∈ items, new (key v) = some v) (k : κ) :
    applyAll table (items.map fun v => .set (key v) v) k =
      if ∃ v ∈ items, key v = k then new k else table k := by
  induction items generalizing table with
  | nil => rw [if_neg (by simp)]; rfl
  | cons v items ih =>
    rw [List.map_cons, applyAll, List.foldl_cons]
    refine (ih _ fun v' hv' => hnew v' (List.mem_cons_of_mem _ hv')).trans ?_
    rw [Update.apply, Function.update_apply]
    by_cases hk : ∃ v ∈ items, key v = k
    · obtain ⟨v', hv', hkey⟩ := hk
      rw [if_pos ⟨v', hv', hkey⟩, if_pos ⟨v', List.mem_cons_of_mem _ hv', hkey⟩]
    · by_cases hv : k = key v
      · subst hv
        rw [if_neg hk, if_pos rfl, if_pos ⟨v, List.mem_cons_self, rfl⟩]
        exact (hnew v List.mem_cons_self).symm
      · rw [if_neg hk, if_neg hv, if_neg]
        rintro ⟨v', hv', hkey⟩
        rcases List.mem_cons.mp hv' with rfl | hv'
        · exact hv hkey.symm
        · exact hk ⟨v', hv', hkey⟩

/-- The event is no update, or the table that is shown changes with it. -/
def Changes (f : α → Option (Update κ β)) (e : α) (older : List α) : Prop :=
  ∀ u, f e = some u → u.apply (replay f older) ≠ replay f older

/-- An event without an update changes nothing. -/
theorem changes_of_none (he : f e = none) : Changes f e older := by
  intro u hu
  rw [he] at hu
  cases hu

/-- To show a new value is a change. -/
theorem changes_set {k : κ} {v : β} (he : f e = some (.set k v)) (hnew : replay f older k ≠ some v) :
    Changes f e older := by
  intro u hu hsame
  rw [he] at hu
  cases hu
  apply hnew
  rw [← hsame, Update.apply, Function.update_self]

/-- To remove what is shown is a change. -/
theorem changes_remove {k : κ} (he : f e = some (.remove k)) (hshown : replay f older k ≠ none) :
    Changes f e older := by
  intro u hu hsame
  rw [he] at hu
  cases hu
  apply hshown
  rw [← hsame, Update.apply, Function.update_self]

end Replica
