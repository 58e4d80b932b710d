import Mathlib.Algebra.Group.Nat.Defs
import Mathlib.Data.Nat.Log
import Mathlib.Data.List.Basic
import Mathlib.Logic.Function.Iterate

/-!
# Merkle trees

The tree over a list of leaves whose rows are made by combining neighbours, the last one of an odd
row with itself.  A proof gives the neighbours on the way up (`climb`).

* `climb_branch`: the neighbours of a node lead from it to the node above (completeness).
* `mem_row_of_climb`: what leads to a node of a row is a node of the row that many levels below, or
  a pair on the way up and a different pair of the tree combine to the same (soundness).

A proof says nothing about its height: with fewer levels than the tree has, it proves an inner node.
-/

namespace Merkle

variable {α : Type}

/-- The row above. -/
def levelUp (combine : α → α → α) : List α → List α
  | [] => []
  | [a] => [combine a a]
  | a :: b :: rest => combine a b :: levelUp combine rest

/-- The pairs that are combined to the row above. -/
def pairs : List α → List (α × α)
  | [] => []
  | [a] => [(a, a)]
  | a :: b :: rest => (a, b) :: pairs rest

/-- The row `n` levels above. -/
def row (combine : α → α → α) (n : ℕ) (l : List α) : List α := (levelUp combine)^[n] l

/-- The number of levels above the leaves. -/
def depth (l : List α) : ℕ := Nat.clog 2 l.length

/-- The root of the tree over a list. -/
def root (combine : α → α → α) (l : List α) : Option α := (row combine (depth l) l).head?

/-- The pairs that are combined in `n` levels. -/
def treePairs (combine : α → α → α) : ℕ → List α → List (α × α)
  | 0, _ => []
  | n + 1, l => pairs l ++ treePairs combine n (levelUp combine l)

/-- The node at a position with its neighbour. -/
def step (combine : α → α → α) (pos : ℕ) (x neighbour : α) : α :=
  if pos % 2 = 0 then combine x neighbour else combine neighbour x

/-- The way up from a node at a position. -/
def climb (combine : α → α → α) : ℕ → List α → α → α
  | _, [], x => x
  | pos, h :: path, x => climb combine (pos / 2) path (step combine pos x h)

/-- The pairs that are combined on the way up. -/
def climbPairs (combine : α → α → α) : ℕ → List α → α → List (α × α)
  | _, [], _ => []
  | pos, h :: path, x =>
    (if pos % 2 = 0 then (x, h) else (h, x)) :: climbPairs combine (pos / 2) path (step combine pos x h)

/-- The neighbours on the way up; the last one of an odd row is its own. -/
def branch (combine : α → α → α) : ℕ → List α → ℕ → α → List α
  | 0, _, _, _ => []
  | n + 1, l, pos, x =>
    let neighbour := (l[if pos % 2 = 0 then pos + 1 else pos - 1]?).getD x
    neighbour :: branch combine n (levelUp combine l) (pos / 2) (step combine pos x neighbour)

/-- Two different pairs of two lists that combine to the same. -/
def Collision (combine : α → α → α) (ps qs : List (α × α)) : Prop :=
  ∃ p ∈ ps, ∃ q ∈ qs, p ≠ q ∧ combine p.1 p.2 = combine q.1 q.2

variable {combine : α → α → α}

/-! ### Rows -/

@[simp] theorem row_zero (l : List α) : row combine 0 l = l := rfl

theorem row_succ (n : ℕ) (l : List α) : row combine (n + 1) l = row combine n (levelUp combine l) :=
  Function.iterate_succ_apply _ _ _

/-- A row is the level above the row below it. -/
theorem row_succ' (n : ℕ) (l : List α) : row combine (n + 1) l = levelUp combine (row combine n l) :=
  Function.iterate_succ_apply' _ _ _

/-- The rows of a row. -/
theorem row_add (m n : ℕ) (l : List α) : row combine (m + n) l = row combine n (row combine m l) := by
  rw [row, row, row, Nat.add_comm, Function.iterate_add_apply]

/-- An entry of the level above, from its two children; the last one may have a single child. -/
theorem getElem?_levelUp (l : List α) (i : ℕ) :
    (levelUp combine l)[i]? = l[2 * i]?.map fun a => combine a (l[2 * i + 1]?.getD a) := by
  induction l using levelUp.induct generalizing i with
  | case1 => simp [levelUp]
  | case2 a =>
    cases i with
    | zero => simp [levelUp]
    | succ i => simp [levelUp, Nat.mul_succ]
  | case3 a b rest ih =>
    cases i with
    | zero => simp [levelUp]
    | succ i =>
      simp only [levelUp, List.getElem?_cons_succ, ih, Nat.mul_succ]

/-- A level is half as long, rounded up. -/
theorem length_levelUp (combine : α → α → α) (l : List α) : (levelUp combine l).length = (l.length + 1) / 2 := by
  induction l using levelUp.induct with
  | case1 => simp [levelUp]
  | case2 a => simp [levelUp]
  | case3 a b rest ih =>
    simp only [levelUp, List.length_cons, ih]
    omega

/-- A row has one node if its width is that of the tree. -/
theorem length_row (combine : α → α → α) {l : List α} (hl : l ≠ []) {n : ℕ} (h : l.length ≤ 2 ^ n) :
    (row combine n l).length = 1 := by
  induction n generalizing l with
  | zero =>
    have := List.length_pos_of_ne_nil hl
    rw [row_zero]
    rw [Nat.pow_zero] at h
    omega
  | succ n ih =>
    have hpos := List.length_pos_of_ne_nil hl
    have hlen := length_levelUp combine l
    rw [row_succ]
    refine ih ?_ ?_
    · intro hnil
      rw [hnil, List.length_nil] at hlen
      omega
    · rw [Nat.pow_succ] at h
      omega

/-- The topmost row is the root alone. -/
theorem row_depth {l : List α} {r : α} (h : root combine l = some r) :
    row combine (depth l) l = [r] := by
  have hl : l ≠ [] := by
    rintro rfl
    simp [root, depth, row] at h
  obtain ⟨x, hx⟩ := List.length_eq_one_iff.mp
    (length_row combine hl (Nat.le_pow_clog Nat.one_lt_two l.length))
  rw [root, depth, hx, List.head?_cons, Option.some.injEq] at h
  rw [depth, hx, h]

/-! ### Proofs -/

/-- One level of the way up. -/
theorem step_neighbour (combine : α → α → α) {l : List α} {pos : ℕ} {x : α} (h : l[pos]? = some x) :
    (levelUp combine l)[pos / 2]? =
      some (step combine pos x ((l[if pos % 2 = 0 then pos + 1 else pos - 1]?).getD x)) := by
  rw [getElem?_levelUp, step]
  rcases Nat.mod_two_eq_zero_or_one pos with heven | hodd
  · have hpos : 2 * (pos / 2) = pos := by omega
    simp only [heven, if_true, hpos, h, Option.map_some]
  · have hpos : 2 * (pos / 2) = pos - 1 := by omega
    have hpos' : pos - 1 + 1 = pos := by omega
    obtain ⟨y, hy⟩ : ∃ y, l[pos - 1]? = some y := by
      obtain ⟨hlt, _⟩ := List.getElem?_eq_some_iff.mp h
      exact ⟨l[pos - 1], List.getElem?_eq_getElem (by omega)⟩
    simp [hodd, hpos, hpos', h, hy]

/-- The climb along an honest branch leads to the entry above the leaf in every row. -/
theorem climb_branch (combine : α → α → α) (n : ℕ) {l : List α} {pos : ℕ} {x : α} (h : l[pos]? = some x) :
    (row combine n l)[pos / 2 ^ n]? = some (climb combine pos (branch combine n l pos x) x) := by
  induction n generalizing l pos x with
  | zero => simpa [branch, climb] using h
  | succ n ih =>
    have := ih (step_neighbour combine h)
    rw [row_succ, Nat.pow_succ', ← Nat.div_div_eq_div_mul, this]
    rfl

/-- A branch has one sibling for each level. -/
@[simp] theorem length_branch (n : ℕ) (l : List α) (pos : ℕ) (x : α) :
    (branch combine n l pos x).length = n := by
  induction n generalizing l pos x with
  | zero => rfl
  | succ n ih => simp [branch, ih]

/-- A node of the row above is a combination of two nodes. -/
theorem exists_of_mem_levelUp {l : List α} {y : α} (h : y ∈ levelUp combine l) :
    ∃ p ∈ pairs l, p.1 ∈ l ∧ p.2 ∈ l ∧ y = combine p.1 p.2 := by
  induction l using levelUp.induct with
  | case1 => cases h
  | case2 a => exact ⟨(a, a), List.mem_singleton_self _, by simp, by simp, by simpa [levelUp] using h⟩
  | case3 a b rest ih =>
    rcases List.mem_cons.mp h with rfl | h
    · exact ⟨(a, b), List.mem_cons_self, by simp, by simp, rfl⟩
    · obtain ⟨p, hp, hp₁, hp₂, rfl⟩ := ih h
      exact ⟨p, List.mem_cons_of_mem _ hp, by simp [hp₁], by simp [hp₂], rfl⟩

/-- The pairs of the tree are those of its rows. -/
theorem mem_treePairs {l : List α} {n : ℕ} {p : α × α} :
    p ∈ treePairs combine n l ↔ ∃ k < n, p ∈ pairs (row combine k l) := by
  induction n generalizing l with
  | zero => simp [treePairs]
  | succ n ih =>
    rw [treePairs, List.mem_append, ih]
    constructor
    · rintro (h | ⟨k, hk, h⟩)
      · exact ⟨0, Nat.succ_pos n, h⟩
      · exact ⟨k + 1, Nat.succ_lt_succ hk, by rwa [row_succ]⟩
    · rintro ⟨k, hk, h⟩
      cases k with
      | zero => exact .inl h
      | succ k => exact .inr ⟨k, Nat.lt_of_succ_lt_succ hk, by rwa [row_succ] at h⟩

/-- A climb that ends in a row began in the row below it, or it shows a collision. -/
theorem mem_row_of_climb {l : List α} {m : ℕ} {path : List α} {pos : ℕ} {x : α}
    (h : climb combine pos path x ∈ row combine (m + path.length) l) :
    x ∈ row combine m l ∨
      Collision combine (climbPairs combine pos path x) (treePairs combine (m + path.length) l) := by
  induction path generalizing m pos x with
  | nil => exact .inl h
  | cons n path ih =>
    have hlength : m + (n :: path).length = m + 1 + path.length := by
      rw [List.length_cons]
      omega
    rw [hlength] at h ⊢
    rw [climbPairs]
    -- the climb goes on in the row above, or has met a collision there
    rcases ih h with hmem | ⟨p, hp, q, hq, hne, heq⟩
    · rw [row_succ'] at hmem
      obtain ⟨q, hq, hq₁, hq₂, hstep⟩ := exists_of_mem_levelUp hmem
      have htree : q ∈ treePairs combine (m + 1 + path.length) l :=
        mem_treePairs.mpr ⟨m, by omega, hq⟩
      -- the node is the left or the right child; its parent has these two children, or they collide
      by_cases hpos : pos % 2 = 0
      · rw [step, if_pos hpos] at hstep
        rw [if_pos hpos]
        by_cases hx : (x, n) = q
        · cases hx
          exact .inl hq₁
        · exact .inr ⟨_, List.mem_cons_self, q, htree, hx, hstep⟩
      · rw [step, if_neg hpos] at hstep
        rw [if_neg hpos]
        by_cases hx : (n, x) = q
        · cases hx
          exact .inl hq₂
        · exact .inr ⟨_, List.mem_cons_self, q, htree, hx, hstep⟩
    · exact .inr ⟨p, List.mem_cons_of_mem _ hp, q, hq, hne, heq⟩

end Merkle
