import SideSwap.Common.Types
import SideSwap.Lib.Greedy

/-!
# Correctness of `selectUtxo`

The first loop takes a nearest-value greedy cover of the amount (`pickInputs_greedy`); the second
keeps a suffix of it, in ascending order, whose least value cannot be dropped without falling to
the amount or below (`dropInputs_spec`).  That the others then sum to exactly the amount is ruled
out by `Greedy.no_exact_rest`, so nothing in the result can be spared (`selectUtxo_irredundant`).
-/

namespace SideSwap

/-! ### The first loop -/

/-- The sort key of an input in range is its distance to the amount, negated. -/
theorem closeness_eq {remain value : ℤ} (hr : 0 < remain) (hr' : remain < 2 ^ 63)
    (hv : 0 ≤ value) (hv' : value < 2 ^ 63) : closeness remain value = -|value - remain| := by
  have hrange : IsI64 (value - remain) := by
    unfold IsI64
    omega
  rw [closeness, wrap_of_isI64 hrange, Int.abs_eq_natAbs]

/-- The last input in the sorted order is the nearest to the amount. -/
theorem closeness_last_nearest {inputs init : List ℤ} {remain x : ℤ}
    (hpos : ∀ v ∈ inputs, 0 ≤ v) (hmax : ∀ v ∈ inputs, v < 2 ^ 63) (hr : 0 < remain)
    (hr' : remain < 2 ^ 63)
    (hsort : inputs.insertionSort (fun a b => closeness remain a ≤ closeness remain b)
      = init ++ [x]) :
    inputs.Perm (x :: init) ∧ ∀ v ∈ init, |x - remain| ≤ |v - remain| := by
  -- sorting only changes the order
  have hperm : inputs.Perm (x :: init) := by
    have := (List.perm_insertionSort (fun a b => closeness remain a ≤ closeness remain b)
      inputs).symm
    rw [hsort] at this
    exact this.trans (List.perm_append_singleton x init)
  refine ⟨hperm, fun v hv => ?_⟩
  -- the last one has the greatest key
  have hle : closeness remain v ≤ closeness remain x := by
    have : Std.Total fun a b => closeness remain a ≤ closeness remain b :=
      ⟨fun a b => le_total _ _⟩
    have : IsTrans ℤ fun a b => closeness remain a ≤ closeness remain b :=
      ⟨fun a b c => le_trans⟩
    have hord := List.pairwise_insertionSort
      (fun a b => closeness remain a ≤ closeness remain b) inputs
    rw [hsort, List.pairwise_append] at hord
    exact hord.2.2 v hv x (List.mem_singleton_self x)
  have hvi : v ∈ inputs := hperm.symm.subset (List.mem_cons_of_mem x hv)
  have hxi : x ∈ inputs := hperm.symm.subset List.mem_cons_self
  -- and a great key is a small distance
  rw [closeness_eq hr hr' (hpos v hvi) (hmax v hvi),
    closeness_eq hr hr' (hpos x hxi) (hmax x hxi)] at hle
  exact neg_le_neg_iff.mp hle

/-- A non-negative value is at most the sum it is part of. -/
theorem lt_of_mem_of_sum_lt {inputs : List ℤ} {bound : ℤ} (hpos : ∀ v ∈ inputs, 0 ≤ v)
    (hsum : inputs.sum < bound) : ∀ v ∈ inputs, v < bound :=
  fun v hv => (List.single_le_sum hpos v hv).trans_lt hsum

/-- The first loop does not run out of inputs, and what it adds is a greedy cover. -/
theorem pickInputs_greedy :
    ∀ (n : ℕ) {inputs : List ℤ} (remain : ℤ) (result : List ℤ), inputs.length = n →
      (∀ v ∈ inputs, 0 ≤ v) → inputs.sum < 2 ^ 63 → remain ≤ inputs.sum → -2 ^ 63 ≤ remain →
      ∃ picks, pickInputs n inputs remain result = some (result ++ picks)
        ∧ Greedy inputs remain picks := by
  intro n
  induction n with
  | zero =>
    intro inputs remain result hlen _ _ hle _
    have hnil : inputs = [] := List.length_eq_zero_iff.mp hlen
    rw [hnil, List.sum_nil] at hle
    refine ⟨[], ?_, .done hle⟩
    rw [pickInputs, if_neg (by omega), List.append_nil]
  | succ n ih =>
    intro inputs remain result hlen hpos hmax hle hmin
    by_cases hr : remain > 0
    · set sorted := inputs.insertionSort fun a b => closeness remain a ≤ closeness remain b
        with hsorted
      have hne : sorted ≠ [] := by
        have hl : sorted.length = n + 1 := by rw [hsorted, List.length_insertionSort, hlen]
        intro hnil
        rw [hnil] at hl
        exact absurd hl (by simp)
      set x := sorted.getLast hne with hx
      have hsplit : sorted = sorted.dropLast ++ [x] := (List.dropLast_append_getLast hne).symm
      -- the loop pops the last of the sorted inputs, which is a nearest one
      obtain ⟨hperm, hnear⟩ := closeness_last_nearest hpos (lt_of_mem_of_sum_lt hpos hmax) hr
        (by omega) hsplit
      have hsum : inputs.sum = x + sorted.dropLast.sum := by
        rw [hperm.sum_eq, List.sum_cons]
      have hxp : 0 ≤ x := hpos x (hperm.symm.subset List.mem_cons_self)
      have hrp : ∀ v ∈ sorted.dropLast, 0 ≤ v := fun v hv =>
        hpos v (hperm.symm.subset (List.mem_cons_of_mem x hv))
      have hxm : x < 2 ^ 63 :=
        lt_of_mem_of_sum_lt hpos hmax x (hperm.symm.subset List.mem_cons_self)
      -- the subtraction does not wrap, because every input is below the bound
      have hrange : IsI64 (remain - x) := by
        unfold IsI64
        omega
      have hlen' : sorted.dropLast.length = n := by
        have := hperm.length_eq
        rw [hlen, List.length_cons] at this
        omega
      obtain ⟨picks, hrun, hgreedy⟩ := ih (remain - x) (result ++ [x]) hlen' hrp
        (by omega) (by omega) (by unfold IsI64 at hrange; omega)
      refine ⟨x :: picks, ?_, .pick hr hperm hnear hgreedy⟩
      rw [pickInputs, if_pos hr]
      simp only [← hsorted, List.getLast?_eq_some_getLast hne, ← hx]
      rw [wrap_of_isI64 hrange, hrun, List.append_assoc, List.singleton_append]
    · refine ⟨[], ?_, .done (by omega)⟩
      rw [pickInputs, if_neg hr, List.append_nil]

/-! ### The second loop -/

/-- The second loop keeps a suffix that covers the amount, and without its least value would not
exceed it. -/
theorem dropInputs_spec {amount : ℤ} (hpos : 0 < amount) :
    ∀ {picked : List ℤ}, (∀ v ∈ picked, 0 ≤ v) → picked.sum < 2 ^ 63 → amount ≤ picked.sum →
      ∃ dropped least rest, picked = dropped ++ least :: rest
        ∧ dropInputs amount picked = some (least :: rest)
        ∧ amount ≤ (least :: rest).sum ∧ rest.sum ≤ amount := by
  intro picked
  -- over the amounts that are left, of which the first may be dropped
  induction picked with
  | nil =>
    intro _ _ hle
    rw [List.sum_nil] at hle
    omega
  | cons x rest ih =>
    intro hp hmax hle
    have hrp : ∀ v ∈ rest, 0 ≤ v := fun v hv => hp v (List.mem_cons_of_mem x hv)
    have hx : 0 ≤ x := hp x List.mem_cons_self
    have hrs : 0 ≤ rest.sum := List.sum_nonneg hrp
    rw [List.sum_cons] at hmax hle
    -- no sum overflows, because the amounts together fit
    have hwrap : wrap (wrap (x :: rest).sum - x) = rest.sum := by
      have hall : IsI64 (x + rest.sum) := by
        unfold IsI64
        omega
      have hrest : IsI64 rest.sum := by
        unfold IsI64
        omega
      rw [List.sum_cons, wrap_of_isI64 hall, add_sub_cancel_left, wrap_of_isI64 hrest]
    -- what comes after the first covers the amount, so that it is dropped
    by_cases hmore : rest.sum > amount
    · obtain ⟨dropped, least, kept, rfl, hrun, hcov, hless⟩ := ih hrp (by omega) (by omega)
      refine ⟨x :: dropped, least, kept, rfl, ?_, hcov, hless⟩
      rw [dropInputs, hwrap, if_pos hmore, hrun]
    · -- otherwise it is needed, and the loop ends
      refine ⟨[], x, rest, rfl, ?_, by rwa [List.sum_cons], by omega⟩
      rw [dropInputs, hwrap, if_neg hmore]

/-! ### The selection -/

/-- Values in ascending order of which the least cannot be spared: no other can be either. -/
theorem erase_sum_lt {least amount : ℤ} {rest : List ℤ} (hsorted : ∀ v ∈ rest, least ≤ v)
    (hless : rest.sum < amount) : ∀ v ∈ least :: rest, ((least :: rest).erase v).sum < amount := by
  intro v hv
  have hsum : least + rest.sum = v + ((least :: rest).erase v).sum := by
    rw [← List.sum_cons, (List.perm_cons_erase hv).sum_eq, List.sum_cons]
  have hle : least ≤ v := by
    rcases List.mem_cons.mp hv with rfl | hv
    · exact le_rfl
    · exact hsorted v hv
  omega

/-- Where the inputs cover the amount, `selectUtxo` takes a greedy cover and drops its least values,
as many as the strict test of the second loop allows. -/
theorem selectUtxo_eq {inputs : List ℤ} {amount : ℤ} (nonneg : ∀ v ∈ inputs, 0 ≤ v)
    (range : inputs.sum < 2 ^ 63) (positive : 0 < amount) (enough : amount ≤ inputs.sum) :
    ∃ picks dropped least rest, Greedy inputs amount picks
      ∧ (dropped ++ least :: rest).Perm picks ∧ (dropped ++ least :: rest).Pairwise (· ≤ ·)
      ∧ selectUtxo inputs amount = some (least :: rest).reverse
      ∧ amount ≤ (least :: rest).sum ∧ rest.sum ≤ amount := by
  obtain ⟨picks, hpick, hgreedy⟩ := pickInputs_greedy inputs.length amount [] rfl nonneg range
    enough (by omega)
  rw [List.nil_append] at hpick
  set sorted := picks.insertionSort (· ≤ ·) with hsorted
  have hperm : sorted.Perm picks := List.perm_insertionSort _ picks
  have hord : sorted.Pairwise (· ≤ ·) := List.pairwise_insertionSort _ picks
  have hsub : sorted.Subperm inputs := hperm.subperm.trans hgreedy.subperm
  have hsp : ∀ v ∈ sorted, 0 ≤ v := fun v hv => nonneg v (hsub.subset hv)
  have hsum : sorted.sum ≤ inputs.sum := by
    obtain ⟨l, hl, hsl⟩ := hsub
    rw [← hl.sum_eq]
    exact hsl.sum_le_sum nonneg
  have hcov : amount ≤ sorted.sum := hperm.sum_eq ▸ hgreedy.le_sum
  obtain ⟨dropped, least, rest, hsplit, hdrop, hcov', hless⟩ := dropInputs_spec positive hsp
    (hsum.trans_lt range) hcov
  refine ⟨picks, dropped, least, rest, hgreedy, hsplit ▸ hperm, hsplit ▸ hord, ?_, hcov', hless⟩
  simp only [selectUtxo, hpick, ← hsorted, hdrop, positive, guard, ite_true, Option.bind_eq_bind,
    Option.bind_some, Option.pure_def]

/-- The selection is part of the inputs and covers the amount. -/
theorem selectUtxo_covers {inputs : List ℤ} {amount : ℤ} (nonneg : ∀ v ∈ inputs, 0 ≤ v)
    (range : inputs.sum < 2 ^ 63) (positive : 0 < amount) (enough : amount ≤ inputs.sum) :
    ∃ result, selectUtxo inputs amount = some result ∧ result.Subperm inputs
      ∧ amount ≤ result.sum := by
  obtain ⟨picks, dropped, least, rest, hgreedy, hperm, -, hrun, hcov, -⟩ :=
    selectUtxo_eq nonneg range positive enough
  have hrev : (least :: rest).reverse.Perm (least :: rest) := List.reverse_perm _
  have hkept : (least :: rest).Subperm picks :=
    (List.sublist_append_right dropped (least :: rest)).subperm.trans hperm.subperm
  exact ⟨_, hrun, hrev.subperm.trans (hkept.trans hgreedy.subperm), hrev.sum_eq.symm ▸ hcov⟩

/-- Where the inputs cover the amount, `selectUtxo` returns some of them in descending order that
still cover it, and none of them can be spared: without any one of them the amount is missed. -/
theorem selectUtxo_irredundant (inputs : List ℤ) (amount : ℤ) (nonneg : ∀ v ∈ inputs, 0 ≤ v)
    (range : inputs.sum < 2 ^ 63) (positive : 0 < amount) (enough : amount ≤ inputs.sum) :
    ∃ result, selectUtxo inputs amount = some result ∧ result.Subperm inputs
      ∧ result.Pairwise (· ≥ ·) ∧ amount ≤ result.sum
      ∧ ∀ v ∈ result, (result.erase v).sum < amount := by
  obtain ⟨picks, dropped, least, rest, hgreedy, hperm, hord, hrun, -, hless⟩ :=
    selectUtxo_eq nonneg range positive enough
  obtain ⟨result, hresult, hsub, hcov⟩ := selectUtxo_covers nonneg range positive enough
  obtain rfl : (least :: rest).reverse = result := Option.some.inj (hrun.symm.trans hresult)
  rw [List.pairwise_append] at hord
  obtain ⟨-, hkept, hbelow⟩ := hord
  have hleast : ∀ v ∈ rest, least ≤ v := fun v => List.rel_of_pairwise_cons hkept
  -- equality with the amount is what the strict test of the second loop would miss
  have hne : rest.sum ≠ amount := by
    have hparts : picks.Perm (rest ++ (dropped ++ [least])) := by
      apply hperm.symm.trans
      rw [← List.singleton_append, ← List.append_assoc]
      exact List.perm_append_comm
    refine hgreedy.no_exact_rest nonneg hparts (by simp) ?_ positive
    intro e he k hk
    rcases List.mem_append.mp he with he | he
    · exact hbelow e he k (List.mem_cons_of_mem least hk)
    · rw [List.mem_singleton.mp he]
      exact hleast k hk
  have herase := erase_sum_lt hleast (lt_of_le_of_ne hless hne)
  have hrev : (least :: rest).reverse.Perm (least :: rest) := List.reverse_perm _
  refine ⟨_, hrun, hsub, List.pairwise_reverse.mpr hkept, hcov, ?_⟩
  intro v hv
  rw [(hrev.erase v).sum_eq]
  exact herase v (hrev.subset hv)

/-- A selection in which the first loop overshoots and the second drops the two small inputs. -/
theorem selectUtxo_irredundant_overshoot :
    (∀ v ∈ [5000, 10, 5], (0 : ℤ) ≤ v) ∧ ([5000, 10, 5] : List ℤ).sum < 2 ^ 63 ∧
    ∃ result, selectUtxo [5000, 10, 5] 16 = some result ∧ result.Subperm [5000, 10, 5]
      ∧ result.Pairwise (· ≥ ·) ∧ 16 ≤ result.sum ∧ ∀ v ∈ result, (result.erase v).sum < 16 :=
  ⟨by decide, by decide,
    selectUtxo_irredundant [5000, 10, 5] 16 (by decide) (by decide) (by decide) (by decide)⟩

end SideSwap
