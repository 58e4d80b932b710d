import Mathlib.Algebra.BigOperators.Group.List.Basic
import Mathlib.Data.List.Dedup

/-!
# Amounts by key

A list of amounts with their keys can be added up by key (`tally`), as a program does with a map
from keys to sums.  `total k l` is the sum for one key.  The tally has each key once
(`nodup_tally`), and its entries are the totals (`mem_tally`).
-/

namespace Tally

variable {κ M : Type} [DecidableEq κ] [AddCommMonoid M]

/-- The sum of the amounts under a key. -/
def total (k : κ) (l : List (κ × M)) : M := ((l.filter fun p => decide (p.1 = k)).map Prod.snd).sum

/-- Add an amount to the entry of its key, which is made if there is none. -/
def add : List (κ × M) → κ → M → List (κ × M)
  | [], k, v => [(k, v)]
  | p :: rest, k, v => if p.1 = k then (p.1, p.2 + v) :: rest else p :: add rest k v

/-- The amounts added up by key. -/
def tally (l : List (κ × M)) : List (κ × M) := l.foldl (fun t p => add t p.1 p.2) []

/-! ### Totals -/

@[simp] theorem total_nil (k : κ) : total k ([] : List (κ × M)) = 0 := rfl

/-- The first entry counts for its own key. -/
theorem total_cons (k : κ) (p : κ × M) (l : List (κ × M)) :
    total k (p :: l) = (if p.1 = k then p.2 else 0) + total k l := by
  unfold total
  by_cases h : p.1 = k <;> simp [h]

/-- The totals of joined lists are added. -/
@[simp] theorem total_append (k : κ) (l l' : List (κ × M)) :
    total k (l ++ l') = total k l + total k l' := by
  simp [total]

theorem total_singleton (k k' : κ) (v : M) : total k [(k', v)] = if k' = k then v else 0 := by
  rw [total_cons, total_nil, add_zero]

/-- The order does not matter. -/
theorem total_perm {l l' : List (κ × M)} (h : l.Perm l') (k : κ) : total k l = total k l' :=
  ((h.filter _).map _).sum_eq

/-- A key that does not occur has the total zero. -/
theorem total_eq_zero {k : κ} {l : List (κ × M)} (h : k ∉ l.map Prod.fst) : total k l = 0 := by
  have : l.filter (fun p => decide (p.1 = k)) = [] := by
    rw [List.filter_eq_nil_iff]
    intro p hp hk
    exact h (List.mem_map.mpr ⟨p, hp, of_decide_eq_true hk⟩)
  rw [total, this, List.map_nil, List.sum_nil]

/-- A key that occurs once has the amount of its entry. -/
theorem total_of_mem {l : List (κ × M)} (hl : (l.map Prod.fst).Nodup) {k : κ} {v : M}
    (h : (k, v) ∈ l) : total k l = v := by
  induction l with
  | nil => cases h
  | cons p l ih =>
    rw [List.map_cons, List.nodup_cons] at hl
    rw [total_cons]
    rcases List.mem_cons.mp h with rfl | h
    · rw [if_pos rfl, total_eq_zero hl.1, add_zero]
    · have hne : p.1 ≠ k := fun hk => hl.1 (hk ▸ List.mem_map.mpr ⟨_, h, rfl⟩)
      rw [if_neg hne, zero_add, ih hl.2 h]

/-! ### The tally -/

/-- An entry that is added counts for its own key. -/
theorem total_add (t : List (κ × M)) (k k' : κ) (v : M) :
    total k' (add t k v) = total k' t + if k = k' then v else 0 := by
  induction t with
  | nil => rw [add, total_singleton, total_nil, zero_add]
  | cons p t ih =>
    unfold add
    by_cases h : p.1 = k
    · rw [if_pos h, total_cons, total_cons, h]
      by_cases h' : k = k'
      · rw [if_pos h', if_pos h', if_pos h', add_right_comm]
      · rw [if_neg h', if_neg h', if_neg h', add_zero]
    · rw [if_neg h, total_cons, total_cons, ih, add_assoc]

theorem mem_keys_add {t : List (κ × M)} {k k' : κ} {v : M} :
    k' ∈ (add t k v).map Prod.fst ↔ k' = k ∨ k' ∈ t.map Prod.fst := by
  induction t with
  | nil => simp [add]
  | cons p t ih =>
    unfold add
    by_cases h : p.1 = k
    · rw [if_pos h]
      simp only [List.map_cons, List.mem_cons, h, ← or_assoc, or_self]
    · rw [if_neg h, List.map_cons, List.map_cons, List.mem_cons, List.mem_cons, ih, or_left_comm]

/-- A key is added once. -/
theorem nodup_add {t : List (κ × M)} (ht : (t.map Prod.fst).Nodup) (k : κ) (v : M) :
    ((add t k v).map Prod.fst).Nodup := by
  induction t with
  | nil => simp [add]
  | cons p t ih =>
    rw [List.map_cons, List.nodup_cons] at ht
    unfold add
    by_cases h : p.1 = k
    · rw [if_pos h, List.map_cons, List.nodup_cons]
      exact ht
    · rw [if_neg h, List.map_cons, List.nodup_cons, mem_keys_add, not_or]
      exact ⟨⟨h, ht.1⟩, ih ht.2⟩

/-- What holds of the sums so far, after further amounts. -/
theorem total_foldl (k : κ) (l t : List (κ × M)) :
    total k (l.foldl (fun t p => add t p.1 p.2) t) = total k t + total k l := by
  induction l generalizing t with
  | nil => rw [List.foldl_nil, total_nil, add_zero]
  | cons p l ih => rw [List.foldl_cons, ih, total_add, total_cons, add_assoc]

/-- A tally has the totals of its list. -/
@[simp] theorem total_tally (k : κ) (l : List (κ × M)) : total k (tally l) = total k l := by
  rw [tally, total_foldl, total_nil, zero_add]

theorem nodup_tally (l : List (κ × M)) : ((tally l).map Prod.fst).Nodup := by
  have h : ∀ t : List (κ × M), (t.map Prod.fst).Nodup →
      ((l.foldl (fun t p => add t p.1 p.2) t).map Prod.fst).Nodup := by
    induction l with
    | nil => exact fun t ht => ht
    | cons p l ih => exact fun t ht => ih _ (nodup_add ht p.1 p.2)
  exact h [] List.nodup_nil

/-- A tally has the keys of its list. -/
theorem mem_keys_tally {k : κ} {l : List (κ × M)} :
    k ∈ (tally l).map Prod.fst ↔ k ∈ l.map Prod.fst := by
  have h : ∀ t : List (κ × M), k ∈ (l.foldl (fun t p => add t p.1 p.2) t).map Prod.fst ↔
      k ∈ t.map Prod.fst ∨ k ∈ l.map Prod.fst := by
    induction l with
    | nil => simp
    | cons p l ih =>
      intro t
      rw [List.foldl_cons, ih, mem_keys_add, List.map_cons, List.mem_cons, or_comm (a := k = p.1),
        or_assoc]
  rw [tally, h, List.map_nil]
  simp

/-- An entry of the tally is a key of the list with its total. -/
theorem mem_tally {k : κ} {v : M} {l : List (κ × M)} :
    (k, v) ∈ tally l ↔ k ∈ l.map Prod.fst ∧ v = total k l := by
  constructor
  · intro h
    refine ⟨mem_keys_tally.mp (List.mem_map.mpr ⟨_, h, rfl⟩), ?_⟩
    rw [← total_tally, total_of_mem (nodup_tally l) h]
  · rintro ⟨hk, rfl⟩
    rw [← mem_keys_tally, List.mem_map] at hk
    obtain ⟨⟨k', v⟩, hp, rfl⟩ := hk
    rwa [← total_tally, total_of_mem (nodup_tally l) hp]

/-! ### All keys together -/

/-- Among distinct keys one is met once. -/
theorem sum_ite {keys : List κ} (hkeys : keys.Nodup) {k : κ} (h : k ∈ keys) (v : M) :
    (keys.map fun k' => if k = k' then v else 0).sum = v := by
  induction keys with
  | nil => cases h
  | cons k' keys ih =>
    rw [List.nodup_cons] at hkeys
    rw [List.map_cons, List.sum_cons]
    by_cases hk : k = k'
    · have : ∀ x ∈ keys.map (fun k' => if k = k' then v else 0), x = 0 := by
        intro x hx
        obtain ⟨k'', hk'', rfl⟩ := List.mem_map.mp hx
        refine if_neg fun heq => hkeys.1 ?_
        rwa [← hk, heq]
      rw [if_pos hk, List.sum_eq_zero this, add_zero]
    · rw [if_neg hk, zero_add]
      exact ih hkeys.2 ((List.mem_cons.mp h).resolve_left hk)

/-- Over distinct keys, among them those of the list, the totals add up to the whole sum. -/
theorem sum_total {keys : List κ} (hkeys : keys.Nodup) {l : List (κ × M)}
    (h : ∀ p ∈ l, p.1 ∈ keys) : (keys.map fun k => total k l).sum = (l.map Prod.snd).sum := by
  induction l with
  | nil => simp
  | cons p l ih =>
    rw [List.forall_mem_cons] at h
    calc (keys.map fun k => total k (p :: l)).sum
        = (keys.map fun k => (if p.1 = k then p.2 else 0) + total k l).sum := by
          simp only [total_cons]
      _ = p.2 + (l.map Prod.snd).sum := by rw [List.sum_map_add, sum_ite hkeys h.1, ih h.2]
      _ = ((p :: l).map Prod.snd).sum := by rw [List.map_cons, List.sum_cons]

/-- Lists with the same totals have the same sum. -/
theorem sum_eq_of_total_eq {l l' : List (κ × M)} (h : ∀ k, total k l = total k l') :
    (l.map Prod.snd).sum = (l'.map Prod.snd).sum := by
  have hkeys := List.nodup_dedup ((l ++ l').map Prod.fst)
  have hmem : ∀ p ∈ l ++ l', p.1 ∈ ((l ++ l').map Prod.fst).dedup := fun p hp =>
    List.mem_dedup.mpr (List.mem_map_of_mem hp)
  rw [← sum_total hkeys fun p hp => hmem p (List.mem_append_left _ hp),
    ← sum_total hkeys fun p hp => hmem p (List.mem_append_right _ hp)]
  exact congrArg List.sum (List.map_congr_left fun k _ => h k)

/-! ### What is made of a tally -/

omit [AddCommMonoid M] in
/-- The total after each entry has become another amount, or none, under the same key. -/
theorem total_filterMap {N : Type} [AddCommMonoid N] {l : List (κ × M)} (hl : (l.map Prod.fst).Nodup)
    (f : κ × M → Option N) {k : κ} {v : M} (h : (k, v) ∈ l) :
    total k (l.filterMap fun e => (f e).map fun n => (e.1, n)) = (f (k, v)).getD 0 := by
  -- a key that does not occur has nothing to add
  have hnone : ∀ {l : List (κ × M)}, k ∉ l.map Prod.fst →
      total k (l.filterMap fun e => (f e).map fun n => (e.1, n)) = 0 := by
    intro l hk
    refine total_eq_zero fun hmem => hk ?_
    obtain ⟨p, hp, rfl⟩ := List.mem_map.mp hmem
    obtain ⟨e, he, hfe⟩ := List.mem_filterMap.mp hp
    obtain ⟨n, _, rfl⟩ := Option.map_eq_some_iff.mp hfe
    exact List.mem_map_of_mem he
  induction l with
  | nil => cases h
  | cons p l ih =>
    rw [List.map_cons, List.nodup_cons] at hl
    -- the entry is the first one, and its key does not occur again
    rcases List.mem_cons.mp h with rfl | h
    · cases hf : f (k, v) with
      | none => rw [List.filterMap_cons_none (by rw [hf]; rfl), hnone hl.1, Option.getD_none]
      | some n =>
        rw [List.filterMap_cons_some (by rw [hf]; rfl), total_cons, if_pos rfl, hnone hl.1, add_zero,
          Option.getD_some]
    · -- the entry comes later, and the first one has another key
      have hne : p.1 ≠ k := fun hk => hl.1 (hk ▸ List.mem_map_of_mem h)
      cases hf : f p with
      | none => rw [List.filterMap_cons_none (by rw [hf]; rfl), ih hl.2 h]
      | some n =>
        rw [List.filterMap_cons_some (by rw [hf]; rfl), total_cons, if_neg hne, zero_add, ih hl.2 h]

end Tally
