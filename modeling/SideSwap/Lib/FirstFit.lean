import Mathlib.Data.List.Forall2

/-!
# First fit in order

The elements of a list are given partners from another list, in order: each gets the first partner
that fits among those after the last one that was looked at (`firstFit`, which counts those that get
one).

`firstFit_eq_length_iff`: all of them get one if and only if there is any assignment of partners
that keeps the order.  So taking the first that fits loses nothing.
-/

variable {σ κ : Type} (fits : σ → κ → Bool)

/-- How many get a partner. -/
def firstFit : List κ → List σ → ℕ
  | [], _ => 0
  | _ :: _, [] => 0
  | k :: keys, s :: rest => if fits s k then firstFit keys rest + 1 else firstFit keys (s :: rest)

variable {fits}

/-- Partners in order. -/
def InOrder (fits : σ → κ → Bool) (l : List σ) (keys : List κ) : Prop :=
  ∃ partners, partners.Sublist keys ∧ List.Forall₂ (fun s k => fits s k = true) l partners

/-- An assignment that uses the first key can be changed to one that gives it to the first element
that fits. -/
theorem InOrder.cons_iff {s : σ} {rest : List σ} {k : κ} {keys : List κ} :
    InOrder fits (s :: rest) (k :: keys) ↔
      if fits s k then InOrder fits rest keys else InOrder fits (s :: rest) keys := by
  constructor
  · rintro ⟨partners, hsub, hfits⟩
    cases hfits with
    | @cons _ p _ partners hsp hrest =>
      split
      · exact ⟨partners, hsub.of_cons_cons, hrest⟩
      · rename_i hnot
        cases hsub with
        | cons _ hsub => exact ⟨p :: partners, hsub, .cons hsp hrest⟩
        | cons_cons _ hsub => exact absurd hsp hnot
  · split
    · rename_i hfit
      rintro ⟨partners, hsub, hfits⟩
      exact ⟨k :: partners, hsub.cons_cons k, .cons hfit hfits⟩
    · rintro ⟨partners, hsub, hfits⟩
      exact ⟨partners, hsub.cons k, hfits⟩

/-- Every element finds a key if the keys that fit them occur in this order. -/
theorem firstFit_eq_length_iff (keys : List κ) (l : List σ) :
    firstFit fits keys l = l.length ↔ InOrder fits l keys := by
  induction keys generalizing l with
  | nil =>
    cases l with
    | nil => exact ⟨fun _ => ⟨[], .slnil, .nil⟩, fun _ => rfl⟩
    | cons s rest =>
      refine ⟨fun h => by simp [firstFit] at h, ?_⟩
      rintro ⟨partners, hsub, hfits⟩
      rw [List.sublist_nil.mp hsub] at hfits
      cases hfits
  | cons k keys ih =>
    cases l with
    | nil => exact ⟨fun _ => ⟨[], List.nil_sublist _, .nil⟩, fun _ => rfl⟩
    | cons s rest =>
      rw [InOrder.cons_iff, firstFit]
      split
      · rw [← ih, List.length_cons, Nat.add_right_cancel_iff]
      · exact ih (s :: rest)
