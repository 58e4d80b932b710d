import Mathlib.Data.Option.Basic
import Mathlib.Data.List.Induction

/-!
# Runs of a partial step function

A system takes a step on an event, if it can: `none` is an event that cannot happen in the state, or
one on which the system stops.  A run takes the events in order.  `Meets C` says that every step of
a run meets a condition `C` on the state before it and the event, and `run_invariant` is the rule
that such a run keeps what every step that meets the condition keeps.  If no other step keeps it,
then the condition is also necessary (`always_iff_meets`).
-/

namespace Runs

variable {σ ε : Type}

/-- The state after the events, if all of them can be taken. -/
def run (step : σ → ε → Option σ) : σ → List ε → Option σ
  | s, [] => some s
  | s, e :: rest =>
    match step s e with
    | none => none
    | some s' => run step s' rest

/-- Every step of the run meets the condition. -/
def Meets (step : σ → ε → Option σ) (C : σ → ε → Prop) : σ → List ε → Prop
  | _, [] => True
  | s, e :: rest =>
    C s e ∧ match step s e with
      | none => True
      | some s' => Meets step C s' rest

instance instDecidableMeets (step : σ → ε → Option σ) (C : σ → ε → Prop)
    [∀ s e, Decidable (C s e)] : (s : σ) → (events : List ε) → Decidable (Meets step C s events)
  | _, [] => isTrue trivial
  | s, e :: rest =>
    match h : step s e with
    | none => decidable_of_iff (C s e) (by simp [Meets, h])
    | some s' =>
      have := instDecidableMeets step C s' rest
      decidable_of_iff (C s e ∧ Meets step C s' rest) (by simp [Meets, h])

variable {step : σ → ε → Option σ} {C : σ → ε → Prop} {I : σ → Prop}

/-- What every step that meets the condition keeps, a run whose steps all meet it keeps. -/
theorem run_invariant (hstep : ∀ s e s', I s → C s e → step s e = some s' → I s') :
    ∀ (events : List ε) {s s' : σ}, I s → Meets step C s events →
      run step s events = some s' → I s' := by
  intro events
  induction events with
  | nil =>
    intro s s' hs _ hrun
    rw [run, Option.some.injEq] at hrun
    rwa [← hrun]
  | cons e rest ih =>
    intro s s' hs hmeets hrun
    cases h : step s e with
    | none =>
      rw [run, h] at hrun
      cases hrun
    | some next =>
      rw [run, h] at hrun
      rw [Meets, h] at hmeets
      exact ih (hstep s e next hs hmeets.1 h) hmeets.2 hrun

/-- A condition on the events alone can be added to the condition of a run. -/
theorem Meets.and_mem {D : ε → Prop} : ∀ {events : List ε} {s : σ}, Meets step C s events →
    (∀ e ∈ events, D e) → Meets step (fun s e => C s e ∧ D e) s events := by
  intro events
  induction events with
  | nil =>
    intro _ _ _
    trivial
  | cons e rest ih =>
    intro s hmeets hD
    refine ⟨⟨hmeets.1, hD e List.mem_cons_self⟩, ?_⟩
    have hrest := hmeets.2
    cases h : step s e with
    | none => trivial
    | some next =>
      rw [h] at hrest
      exact ih hrest fun e' he' => hD e' (List.mem_cons_of_mem _ he')

/-- The same as `run_invariant`, where the condition is that the event is one of the run. -/
theorem run_invariant_of_mem {events : List ε}
    (hstep : ∀ s e s', e ∈ events → I s → step s e = some s' → I s') {s s' : σ} (hs : I s)
    (hrun : run step s events = some s') : I s' := by
  induction events generalizing s with
  | nil =>
    rw [run, Option.some.injEq] at hrun
    rwa [← hrun]
  | cons e rest ih =>
    cases h : step s e with
    | none =>
      rw [run, h] at hrun
      cases hrun
    | some next =>
      rw [run, h] at hrun
      refine ih (fun s e s' he => hstep s e s' (List.mem_cons_of_mem _ he)) ?_ hrun
      exact hstep s e next List.mem_cons_self hs h

/-- The last step of a run that meets the condition. -/
theorem meets_snoc {events : List ε} {e : ε} {s s' : σ} (hmeets : Meets step C s (events ++ [e]))
    (hrun : run step s events = some s') : Meets step C s events ∧ C s' e := by
  induction events generalizing s with
  | nil =>
    rw [run, Option.some.injEq] at hrun
    rw [← hrun]
    exact ⟨trivial, hmeets.1⟩
  | cons first rest ih =>
    cases h : step s first with
    | none =>
      rw [run, h] at hrun
      cases hrun
    | some next =>
      rw [run, h] at hrun
      rw [List.cons_append, Meets, h] at hmeets
      obtain ⟨hrest, hlast⟩ := ih hmeets.2 hrun
      refine ⟨?_, hlast⟩
      rw [Meets, h]
      exact ⟨hmeets.1, hrest⟩

/-- The last event of a run comes after the others. -/
theorem run_concat (s : σ) (events : List ε) (e : ε) :
    run step s (events ++ [e]) = (run step s events).bind fun s' => step s' e := by
  induction events generalizing s with
  | nil =>
    show (match step s e with | none => none | some s' => some s') = step s e
    cases step s e <;> rfl
  | cons first rest ih =>
    rw [List.cons_append, run, run]
    cases step s first with
    | none => rfl
    | some next => exact ih next

/-- If a step keeps an invariant exactly if it meets the condition, then the invariant holds all the
time in a run exactly if every step meets the condition. -/
theorem always_iff_meets {events : List ε} {s₀ : σ} (hstart : I s₀)
    (hstep : ∀ s e s', e ∈ events → I s → step s e = some s' → (I s' ↔ C s e))
    (hstop : ∀ s e, e ∈ events → I s → step s e = none → C s e) :
    (∀ before after s, events = before ++ after → run step s₀ before = some s → I s) ↔
      Meets step C s₀ events := by
  induction events generalizing s₀ with
  | nil =>
    refine iff_of_true (fun before after s hsplit hrun => ?_) trivial
    obtain ⟨rfl, _⟩ := List.nil_eq_append_iff.mp hsplit
    cases hrun
    exact hstart
  | cons e rest ih =>
    have htail {s₁ : σ} (hs₁ : I s₁) := ih hs₁
      (fun s e s' he => hstep s e s' (List.mem_cons_of_mem _ he))
      (fun s e he => hstop s e (List.mem_cons_of_mem _ he))
    -- the step fails, and the run with it
    cases h : step s₀ e with
    | none =>
      rw [Meets, h]
      refine iff_of_true (fun before after s hsplit hrun => ?_)
        ⟨hstop s₀ e List.mem_cons_self hstart h, trivial⟩
      cases before with
      | nil =>
        cases hrun
        exact hstart
      | cons first before =>
        obtain ⟨rfl, _⟩ := List.cons.inj hsplit
        rw [run, h] at hrun
        cases hrun
    -- the step leads to the state from which the rest is run
    | some next =>
      have hnext := hstep s₀ e next List.mem_cons_self hstart h
      rw [Meets, h]
      constructor
      · intro hall
        have hI : I next := hall [e] rest next rfl (by rw [run, h]; rfl)
        refine ⟨hnext.mp hI, (htail hI).mp fun before after s hsplit hrun => ?_⟩
        exact hall (e :: before) after s (by rw [hsplit, List.cons_append]) (by rwa [run, h])
      · rintro ⟨hC, hmeets⟩ before after s hsplit hrun
        cases before with
        | nil =>
          cases hrun
          exact hstart
        | cons first before =>
          obtain ⟨rfl, hrest⟩ := List.cons.inj hsplit
          rw [run, h] at hrun
          exact (htail (hnext.mpr hC)).mpr hmeets before after s hrest hrun

/-- The rule for what holds of the events so far and the state after them. -/
theorem run_history {s₀ : σ} {J : List ε → σ → Prop} (hstart : J [] s₀)
    (hstep : ∀ events e s s', run step s₀ events = some s → J events s → step s e = some s' →
      J (events ++ [e]) s') :
    ∀ (events : List ε) {s : σ}, run step s₀ events = some s → J events s := by
  intro events
  induction events using List.reverseRecOn with
  | nil =>
    intro s hrun
    rw [run, Option.some.injEq] at hrun
    rwa [← hrun]
  | append_singleton events e ih =>
    intro s hrun
    rw [run_concat, Option.bind_eq_some_iff] at hrun
    obtain ⟨before, hbefore, hlast⟩ := hrun
    exact hstep events e before s hbefore (ih hbefore) hlast

/-! ### What a run puts out -/

/-- What the steps of a run put out, in order.  The step that stops the system puts something out
too. -/
def outputs {α : Type} (step : σ → ε → Option σ) (out : σ → ε → List α) : σ → List ε → List α
  | _, [] => []
  | s, e :: rest =>
    out s e ++ match step s e with
      | none => []
      | some s' => outputs step out s' rest

/-- If the steps that meet the condition keep an invariant, and put out only what meets `P` where it
holds, then a run of such steps puts out only what meets `P`. -/
theorem outputs_invariant {α : Type} {out : σ → ε → List α} {P : α → Prop}
    (hstep : ∀ s e s', I s → C s e → step s e = some s' → I s')
    (hout : ∀ s e, I s → C s e → ∀ a ∈ out s e, P a) :
    ∀ (events : List ε) {s : σ}, I s → Meets step C s events →
      ∀ a ∈ outputs step out s events, P a := by
  intro events
  induction events with
  | nil =>
    intro s _ _ a ha
    cases ha
  | cons e rest ih =>
    intro s hs hmeets a ha
    rw [outputs, List.mem_append] at ha
    rcases ha with ha | ha
    · exact hout s e hs hmeets.1 a ha
    · have hrest := hmeets.2
      cases h : step s e with
      | none =>
        rw [h] at ha
        cases ha
      | some next =>
        rw [h] at ha hrest
        exact ih (hstep s e next hs hmeets.1 h) hrest a ha

end Runs
