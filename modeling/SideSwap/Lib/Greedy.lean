import Mathlib.Algebra.Order.BigOperators.Group.List
import Mathlib.Algebra.Order.Ring.Abs
import Mathlib.Data.List.Perm.Subperm
import Mathlib.Tactic.Linarith

/-!
# Nearest-value greedy cover

A cover of an amount by values that are taken one at a time, each the nearest to what is still
missing (`Greedy`).  The last value may overshoot, and some of the earlier ones may then be
redundant.  What cannot happen is that some values could be left out with the others hitting the
amount exactly, if those left out are no larger than those kept (`Greedy.no_exact_rest`): at the
first of them to be taken, each of the kept values would have been at least as near.
-/

variable {α : Type*} [CommRing α] [LinearOrder α] [IsStrictOrderedRing α]

/-- `Greedy inputs remain picks`: the values `picks` are taken from `inputs` in this order, each
nearest to the amount that is missing at that point, until nothing is missing. -/
inductive Greedy : List α → α → List α → Prop
  | done {inputs : List α} {remain : α} (covered : remain ≤ 0) : Greedy inputs remain []
  | pick {inputs rest picks : List α} {remain x : α} (missing : 0 < remain)
      (taken : inputs.Perm (x :: rest)) (nearest : ∀ v ∈ rest, |x - remain| ≤ |v - remain|)
      (more : Greedy rest (remain - x) picks) : Greedy inputs remain (x :: picks)

namespace Greedy

variable {inputs picks : List α} {remain : α}

omit [IsStrictOrderedRing α] in
/-- Nothing is taken once the amount is covered. -/
theorem eq_nil (h : Greedy inputs remain picks) (covered : remain ≤ 0) : picks = [] := by
  cases h with
  | done => rfl
  | pick missing => exact absurd missing (not_lt.mpr covered)

omit [IsStrictOrderedRing α] in
/-- The values taken are among the inputs, with multiplicity. -/
theorem subperm (h : Greedy inputs remain picks) : picks.Subperm inputs := by
  induction h with
  | done => exact List.nil_subperm
  | @pick inputs rest picks remain x _ taken _ _ ih =>
    exact ((List.subperm_cons x).mpr ih).trans taken.symm.subperm

/-- The values taken cover the amount. -/
theorem le_sum (h : Greedy inputs remain picks) : remain ≤ picks.sum := by
  induction h with
  | done covered => simpa using covered
  | pick _ _ _ _ ih =>
    rw [List.sum_cons]
    linarith

/-- Part of the values taken cannot hit the amount exactly when the others, at least one, are no
larger: the first of the others to be taken would not have been the nearest. -/
theorem no_exact_rest (h : Greedy inputs remain picks) :
    ∀ {kept left : List α}, (∀ v ∈ inputs, 0 ≤ v) → picks.Perm (kept ++ left) → left ≠ [] →
      (∀ e ∈ left, ∀ k ∈ kept, e ≤ k) → 0 < remain → kept.sum ≠ remain := by
  induction h with
  | done covered =>
    intro _ _ _ _ _ _ missing
    exact absurd missing (not_lt.mpr covered)
  | @pick inputs rest picks remain x _ taken nearest more ih =>
    intro kept left hpos hperm hleft hle missing hsum
    have hrest : ∀ v ∈ rest, 0 ≤ v := fun v hv =>
      hpos v (taken.symm.subset (List.mem_cons_of_mem x hv))
    by_cases hx : x ∈ kept
    · -- `x` is kept: the argument goes on with the amount that it leaves missing
      have hkept : kept.Perm (x :: kept.erase x) := List.perm_cons_erase hx
      have hpicks : picks.Perm (kept.erase x ++ left) := by
        apply List.Perm.cons_inv (a := x)
        rw [← List.cons_append]
        exact hperm.trans (hkept.append_right left)
      have hsum' : (kept.erase x).sum = remain - x := by
        have := hkept.sum_eq
        rw [List.sum_cons] at this
        linarith
      by_cases hcov : remain - x ≤ 0
      · rw [more.eq_nil hcov] at hpicks
        exact hleft (List.append_eq_nil_iff.mp hpicks.symm.eq_nil).2
      · refine ih hrest hpicks hleft ?_ (not_le.mp hcov) hsum'
        intro e he k hk
        exact hle e he k (List.mem_of_mem_erase hk)
    · -- `x` is left out: every kept value is at least as large, and not nearer to their own sum
      have hxl : x ∈ left := by
        have : x ∈ kept ++ left := hperm.subset List.mem_cons_self
        exact (List.mem_append.mp this).resolve_left hx
      obtain ⟨k, hk⟩ : ∃ k, k ∈ kept := by
        apply List.exists_mem_of_ne_nil
        rintro rfl
        rw [List.sum_nil] at hsum
        exact missing.ne hsum
      have hkx : x ≤ k := hle x hxl k hk
      have hkne : k ≠ x := fun heq => hx (heq ▸ hk)
      have hkp : k ∈ picks := by
        have : k ∈ x :: picks := hperm.symm.subset (List.mem_append_left left hk)
        exact (List.mem_cons.mp this).resolve_left hkne
      have hkr : k ∈ rest := more.subperm.subset hkp
      have hkept : ∀ v ∈ kept, 0 ≤ v := by
        intro v hv
        have : v ∈ x :: picks := hperm.symm.subset (List.mem_append_left left hv)
        apply hpos
        apply taken.symm.subset
        rcases List.mem_cons.mp this with rfl | hv
        · exact List.mem_cons_self
        · exact List.mem_cons_of_mem x (more.subperm.subset hv)
      have hks : k ≤ remain := hsum ▸ List.single_le_sum hkept k hk
      have hnear := nearest k hkr
      rw [abs_of_nonpos (by linarith), abs_of_nonpos (by linarith)] at hnear
      exact hkne (by linarith)

end Greedy
