import Mathlib.Algebra.BigOperators.Group.Finset.Piecewise
import Mathlib.Algebra.Order.BigOperators.Group.Finset

/-!
# The largest first

A set is taken from the top of a pool if nothing that is left in the pool is larger than something
that was taken (`FromTop`).  Taking the largest one of what is left keeps this (`FromTop.insert`),
and no other set of the same size has a larger sum (`FromTop.sum_le`).  So a set that was taken one
by one, the largest first, until the sum was enough, is one of the smallest with a sum that is
enough (`FromTop.card_le`).
-/

variable {ι : Type*} [DecidableEq ι] {value : ι → ℕ} {pool taken : Finset ι}

/-- Nothing that is left is larger than something that was taken. -/
def FromTop (value : ι → ℕ) (pool taken : Finset ι) : Prop :=
  ∀ x ∈ taken, ∀ y ∈ pool, y ∉ taken → value y ≤ value x

namespace FromTop

omit [DecidableEq ι] in
/-- Nothing has been taken. -/
theorem empty (value : ι → ℕ) (pool : Finset ι) : FromTop value pool ∅ := by
  intro x hx
  cases hx

/-- A largest element of what is left is taken. -/
theorem insert (h : FromTop value pool taken) {x : ι} (hx : x ∈ pool) (hnew : x ∉ taken)
    (hmax : ∀ y ∈ pool, y ∉ taken → value y ≤ value x) : FromTop value pool (insert x taken) := by
  intro z hz y hy hleft
  rw [Finset.mem_insert, not_or] at hleft
  rcases Finset.mem_insert.mp hz with rfl | hz
  · exact hmax y hy hleft.2
  · exact (hmax y hy hleft.2).trans (h z hz x hx hnew)

/-- What is taken from the top has the largest sum of its size. -/
theorem sum_le (h : FromTop value pool taken) {other : Finset ι} (hother : other ⊆ pool)
    (hcard : other.card ≤ taken.card) : ∑ i ∈ other, value i ≤ ∑ i ∈ taken, value i := by
  have hdiff : (other \ taken).card ≤ (taken \ other).card := by
    have h₁ := Finset.card_sdiff_add_card_inter other taken
    have h₂ := Finset.card_sdiff_add_card_inter taken other
    rw [Finset.inter_comm] at h₂
    omega
  -- a bound between the two differences
  have hsum : ∑ i ∈ other \ taken, value i ≤ ∑ i ∈ taken \ other, value i := by
    let bound := (other \ taken).sup value
    calc ∑ i ∈ other \ taken, value i
        ≤ (other \ taken).card • bound :=
          Finset.sum_le_card_nsmul _ _ _ fun i hi => Finset.le_sup hi
      _ ≤ (taken \ other).card • bound := Nat.mul_le_mul_right bound hdiff
      _ ≤ ∑ i ∈ taken \ other, value i := by
          apply Finset.card_nsmul_le_sum
          intro x hx
          refine Finset.sup_le fun y hy => ?_
          rw [Finset.mem_sdiff] at hx hy
          exact h x hx.1 y (hother hy.1) hy.2
  calc ∑ i ∈ other, value i
      = ∑ i ∈ other ∩ taken, value i + ∑ i ∈ other \ taken, value i :=
        (Finset.sum_inter_add_sum_sdiff other taken value).symm
    _ ≤ ∑ i ∈ taken ∩ other, value i + ∑ i ∈ taken \ other, value i := by
        rw [Finset.inter_comm]
        exact Nat.add_le_add_left hsum _
    _ = ∑ i ∈ taken, value i := Finset.sum_inter_add_sum_sdiff taken other value

/-- If what was taken before the last step was not enough, then nothing smaller than what is taken
now is enough. -/
theorem card_le (h : FromTop value pool taken) {need : ℕ} (hshort : ∑ i ∈ taken, value i < need)
    {other : Finset ι} (hother : other ⊆ pool) (henough : need ≤ ∑ i ∈ other, value i) :
    taken.card + 1 ≤ other.card := by
  by_contra hlt
  have := h.sum_le hother (by omega)
  omega

end FromTop
