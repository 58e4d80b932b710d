import SideSwap.Lib.Call

/-!
# Loops that check and add up

A loop goes over a list, adds something to its state in each round and stops at the first element
that it rejects.  What is added may not fit.  `Rounds` describes a round in a state in which it
fits, one with `Room`: the loop goes on if the element is accepted, and fails with an error if it is
not.

`hasRoom_iff` tells from the list alone whether every round that the loop gets to has room, and
`foldlM_ok` and `foldlM_error` tell how a loop ends that has.
-/

namespace Call

variable {ε σ α : Type}

/-- The rounds of a loop with body `f`. -/
structure Rounds (f : σ → α → Call ε σ) (next : σ → α → σ) (Room : σ → α → Prop)
    (Accepted : α → Prop) : Prop where
  accepts : ∀ s a, Room s a → Accepted a → f s a = .ok (next s a)
  rejects : ∀ s a, Room s a → ¬ Accepted a → ∃ e, f s a = .error (.error e)

/-- Every round that the loop gets to has room. -/
def HasRoom (f : σ → α → Call ε σ) (Room : σ → α → Prop) (s : σ) (l : List α) : Prop :=
  ∀ done a rest t, l = done ++ a :: rest → done.foldlM f s = .ok t → Room t a

variable {f : σ → α → Call ε σ} {next : σ → α → σ} {Room : σ → α → Prop} {Accepted : α → Prop}

theorem hasRoom_nil (s : σ) : HasRoom f Room s [] := by
  intro done a rest t hl
  simp at hl

/-- The first round has room, and so have the others in the state that it leaves. -/
theorem hasRoom_cons (s : σ) (a : α) (l : List α) :
    HasRoom f Room s (a :: l) ↔ Room s a ∧ ∀ s', f s a = .ok s' → HasRoom f Room s' l := by
  constructor
  · intro h
    refine ⟨h [] a l s rfl rfl, fun s' hs done b rest t hl hdone => ?_⟩
    refine h (a :: done) b rest t (by rw [hl, List.cons_append]) ?_
    rw [List.foldlM_cons, hs]
    exact hdone
  · rintro ⟨hroom, hrest⟩ done b rest t hl hdone
    cases done with
    | nil =>
      rw [List.nil_append, List.cons.injEq] at hl
      rw [← hl.1]
      cases hdone
      exact hroom
    | cons c done =>
      rw [List.cons_append, List.cons.injEq] at hl
      obtain ⟨rfl, hl⟩ := hl
      rw [List.foldlM_cons, bind_eq_ok] at hdone
      obtain ⟨s', hs, hdone⟩ := hdone
      exact hrest s' hs done b rest t hl hdone

/-- The rounds that the loop gets to are those after accepted elements only. -/
theorem hasRoom_iff (h : Rounds f next Room Accepted) (s : σ) (l : List α) :
    HasRoom f Room s l ↔ ∀ done a rest, l = done ++ a :: rest → (∀ b ∈ done, Accepted b) →
      Room (done.foldl next s) a := by
  induction l generalizing s with
  | nil => exact iff_of_true (hasRoom_nil s) fun done a rest hl => by simp at hl
  | cons a l ih =>
    rw [hasRoom_cons]
    constructor
    · -- the loop has room in the first round and then in the others
      rintro ⟨hroom, hrest⟩ done b rest hl hdone
      cases done with
      | nil =>
        rw [List.nil_append, List.cons.injEq] at hl
        rw [← hl.1]
        exact hroom
      | cons c done =>
        rw [List.cons_append, List.cons.injEq] at hl
        obtain ⟨rfl, hl⟩ := hl
        rw [List.forall_mem_cons] at hdone
        have hnext := hrest _ (h.accepts s a hroom hdone.1)
        exact (ih _).mp hnext done b rest hl hdone.2
    · -- conversely, each round is reached after the rounds before it
      intro hall
      have hroom : Room s a := hall [] a l rfl fun b hb => by cases hb
      refine ⟨hroom, fun s' hs => ?_⟩
      by_cases hacc : Accepted a
      · rw [h.accepts s a hroom hacc] at hs
        cases hs
        refine (ih _).mpr fun done b rest hl hdone => ?_
        exact hall (a :: done) b rest (by rw [hl, List.cons_append])
          (List.forall_mem_cons.mpr ⟨hacc, hdone⟩)
      · -- the loop ends here, so there is no further round
        obtain ⟨e, he⟩ := h.rejects s a hroom hacc
        rw [he] at hs
        cases hs

/-- A loop that accepts every element returns the accumulated state. -/
theorem foldlM_ok (h : Rounds f next Room Accepted) {s : σ} {l : List α} (hroom : HasRoom f Room s l)
    (hacc : ∀ a ∈ l, Accepted a) : l.foldlM f s = .ok (l.foldl next s) := by
  induction l generalizing s with
  | nil => rfl
  | cons a l ih =>
    rw [hasRoom_cons] at hroom
    rw [List.forall_mem_cons] at hacc
    have ha := h.accepts s a hroom.1 hacc.1
    rw [List.foldlM_cons, ha, List.foldl_cons]
    exact ih (hroom.2 _ ha) hacc.2

/-- A loop that rejects some element fails with an error. -/
theorem foldlM_error (h : Rounds f next Room Accepted) {s : σ} {l : List α}
    (hroom : HasRoom f Room s l) (hacc : ¬ ∀ a ∈ l, Accepted a) :
    ∃ e, l.foldlM f s = .error (.error e) := by
  induction l generalizing s with
  | nil => exact absurd (fun a ha => by cases ha) hacc
  | cons a l ih =>
    rw [hasRoom_cons] at hroom
    rw [List.foldlM_cons]
    by_cases ha : Accepted a
    · have hok := h.accepts s a hroom.1 ha
      rw [List.forall_mem_cons, not_and] at hacc
      rw [hok]
      exact ih (hroom.2 _ hok) (hacc ha)
    · obtain ⟨e, he⟩ := h.rejects s a hroom.1 ha
      exact ⟨e, by rw [he]; rfl⟩

/-- With room in every round there is no panic. -/
theorem foldlM_ne_panic (h : Rounds f next Room Accepted) {s : σ} {l : List α}
    (hroom : HasRoom f Room s l) : l.foldlM f s ≠ .error .panic := by
  intro hpanic
  by_cases hacc : ∀ a ∈ l, Accepted a
  · rw [foldlM_ok h hroom hacc] at hpanic
    cases hpanic
  · obtain ⟨e, he⟩ := foldlM_error h hroom hacc
    rw [he] at hpanic
    cases hpanic

end Call
