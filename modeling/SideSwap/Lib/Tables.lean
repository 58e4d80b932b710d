import Mathlib.Data.List.AList
import Mathlib.Data.List.Induction

/-!
# Tables that are extended

`extend` inserts entries into an association list one after the other, as a program extends a hash
map.  What is found under a key is one of its new entries, or what was there before if it has none
(`lookup_extend_cases`); if all entries agree, it is any of them (`lookup_extend_iff`).
-/

namespace Tables

variable {κ ν : Type} [DecidableEq κ]

/-- Insert entries one after the other; a later one replaces an earlier one. -/
def extend (t : AList fun _ : κ => ν) (l : List (κ × ν)) : AList fun _ : κ => ν :=
  l.foldl (fun t e => t.insert e.1 e.2) t

variable {t : AList fun _ : κ => ν} {l : List (κ × ν)} {k : κ} {v : ν}

@[simp] theorem extend_nil : extend t [] = t := rfl

/-- The last entry is inserted last. -/
theorem extend_append_singleton (k : κ) (v : ν) : extend t (l ++ [(k, v)]) = (extend t l).insert k v := by
  rw [extend, List.foldl_append]
  rfl

/-- Other keys keep their values. -/
theorem lookup_extend_of_not_mem (h : k ∉ l.map Prod.fst) : (extend t l).lookup k = t.lookup k := by
  induction l using List.reverseRecOn with
  | nil => rfl
  | append_singleton l e ih =>
    rw [List.map_append, List.mem_append, not_or, List.map_singleton, List.mem_singleton] at h
    rw [extend_append_singleton, AList.lookup_insert_ne h.2, ih h.1]

/-- A value comes from the entries, or from the table at a key that has none. -/
theorem lookup_extend_cases (h : (extend t l).lookup k = some v) :
    (k, v) ∈ l ∨ (k ∉ l.map Prod.fst ∧ t.lookup k = some v) := by
  induction l using List.reverseRecOn with
  | nil => exact .inr ⟨by simp, h⟩
  | append_singleton l e ih =>
    rw [extend_append_singleton] at h
    by_cases hk : k = e.1
    · subst hk
      rw [AList.lookup_insert, Option.some.injEq] at h
      exact .inl (by simp [← h])
    · rw [AList.lookup_insert_ne hk] at h
      rcases ih h with hmem | ⟨hnot, hold⟩
      · exact .inl (List.mem_append_left _ hmem)
      · exact .inr ⟨by simpa [hk] using hnot, hold⟩

/-- The keys are those of the table and those of the entries. -/
theorem mem_extend : k ∈ extend t l ↔ k ∈ t ∨ k ∈ l.map Prod.fst := by
  induction l using List.reverseRecOn with
  | nil => simp
  | append_singleton l e ih =>
    rw [extend_append_singleton, AList.mem_insert, ih, List.map_append, List.mem_append,
      List.map_singleton, List.mem_singleton]
    constructor
    · rintro (h | h | h)
      · exact .inr (.inr h)
      · exact .inl h
      · exact .inr (.inl h)
    · rintro (h | h | h)
      · exact .inr (.inl h)
      · exact .inr (.inr h)
      · exact .inl h

theorem exists_lookup_iff : (∃ v, t.lookup k = some v) ↔ k ∈ t := by
  rw [← AList.lookup_isSome, Option.isSome_iff_exists]

/-- A key with one new value. -/
theorem lookup_extend_of_unique (h : (k, v) ∈ l) (hunique : ∀ v', (k, v') ∈ l → v' = v) :
    (extend t l).lookup k = some v := by
  obtain ⟨v', hv'⟩ : ∃ v', (extend t l).lookup k = some v' :=
    exists_lookup_iff.mpr (mem_extend.mpr (.inr (List.mem_map_of_mem h)))
  rcases lookup_extend_cases hv' with hmem | ⟨hnot, _⟩
  · rw [hv', hunique v' hmem]
  · exact absurd (List.mem_map_of_mem h) hnot

/-- New entries that agree with each other and with the old ones. -/
theorem lookup_extend_iff (hl : ∀ {k v v'}, (k, v) ∈ l → (k, v') ∈ l → v = v')
    (ht : ∀ {k v v'}, (k, v) ∈ l → t.lookup k = some v' → v = v') :
    (extend t l).lookup k = some v ↔ (k, v) ∈ l ∨ t.lookup k = some v := by
  constructor
  · intro h
    exact (lookup_extend_cases h).imp_right And.right
  · rintro (h | h)
    · exact lookup_extend_of_unique h fun v' hv' => hl hv' h
    · by_cases hk : k ∈ l.map Prod.fst
      · obtain ⟨e, he, rfl⟩ := List.mem_map.mp hk
        have heq := ht he h
        rw [← heq]
        exact lookup_extend_of_unique he fun v' hv' => hl hv' he
      · rw [lookup_extend_of_not_mem hk, h]

theorem mem_entries_iff {k : κ} {v : ν} :
    (⟨k, v⟩ : Sigma fun _ : κ => ν) ∈ t.entries ↔ t.lookup k = some v :=
  AList.mem_lookup_iff.symm

/-- What is left after some keys are erased. -/
theorem lookup_foldl_erase (l : List κ) :
    (l.foldl (fun t k => t.erase k) t).lookup k = if k ∈ l then none else t.lookup k := by
  induction l using List.reverseRecOn with
  | nil => simp
  | append_singleton l e ih =>
    rw [List.foldl_append, List.foldl_cons, List.foldl_nil]
    by_cases hk : k = e
    · subst hk
      rw [AList.lookup_erase, if_pos (by simp)]
    · rw [AList.lookup_erase_ne hk, ih]
      simp [hk]

end Tables
