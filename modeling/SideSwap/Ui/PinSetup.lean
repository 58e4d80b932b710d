import SideSwap.Lib.Runs

/-!
# Setting up a PIN

`PinSetupProvider` lets the user enter a PIN twice and then has it encrypted.  Its setters ignore
what is written while their field is not enabled, and clearing goes through them too.  Two of its
functions wait in the middle: `_sendPin` and `_onPinData`, both for the end of the last
subscription; `_done` leaves the clearing to a microtask.  Whatever may happen in between may happen
in any order here.

* `PinSetup.Valid`: what every operation keeps, also while the provider is done and ignores writes.
* `pin_confirmed`: only a PIN that was entered twice is sent, and the flag of the second field is
  set exactly when the first PIN is long enough.
-/

namespace SideSwap.Ui

/-! ### The provider -/

/-- The keys of the keypad. -/
inductive PinKey
  | one | two | three | four | five | six | seven | eight | nine | backspace | zero | enter
deriving DecidableEq

/-- Which field takes the digits. -/
inductive PinFieldState
  | firstPin | secondPin
deriving DecidableEq

/-- How far the setup has got. -/
inductive PinSetupState
  | idle | error | done
deriving DecidableEq

/-- What `_onPinData` reads of the answer: an empty error means that the PIN was encrypted. -/
structure PinData where
  error : String

/-- The least length of a PIN. -/
def minPinLength : ℕ := 4

/-- The greatest length of a PIN. -/
def maxPinLength : ℕ := 8

/-- The fields of the provider.  The two flags are those behind the properties `firstPinEnabled` and
`secondPinEnabled`; a subscription is a number. -/
structure PinSetup where
  fieldState : PinFieldState
  state : PinSetupState
  firstPin : List Char
  secondPin : List Char
  firstPinFlag : Bool
  secondPinFlag : Bool
  errorMessage : String
  pinEncryptedSubscription : Option ℕ

namespace PinSetup

/-- The page when it opens. -/
def new : PinSetup where
  fieldState := .firstPin
  state := .idle
  firstPin := []
  secondPin := []
  firstPinFlag := true
  secondPinFlag := false
  errorMessage := ""
  pinEncryptedSubscription := none

/-- Whether the first field takes input. -/
def firstPinEnabled (p : PinSetup) : Bool := if p.state = .done then false else p.firstPinFlag

/-- Whether the second field takes input. -/
def secondPinEnabled (p : PinSetup) : Bool := if p.state = .done then false else p.secondPinFlag

/-- Write the first field, if it takes input. -/
def setFirstPin (value : List Char) (p : PinSetup) : PinSetup :=
  if p.firstPinEnabled then { p with firstPin := value, state := .idle } else p

/-- Write the second field, if it takes input. -/
def setSecondPin (value : List Char) (p : PinSetup) : PinSetup :=
  if p.secondPinEnabled then { p with secondPin := value, state := .idle } else p

/-- Change whether the first field takes input. -/
def setFirstPinEnabled (value : Bool) (p : PinSetup) : PinSetup := { p with firstPinFlag := value }

/-- Change whether the second field takes input. -/
def setSecondPinEnabled (value : Bool) (p : PinSetup) : PinSetup := { p with secondPinFlag := value }

/-- Begin again: the fields are emptied and only the first one takes input. -/
def clearStates (p : PinSetup) : PinSetup :=
  let p := { p with state := .idle, fieldState := .firstPin }
  let p := (p.setFirstPin []).setFirstPinEnabled true
  let p := (p.setSecondPin []).setSecondPinEnabled false
  { p with errorMessage := "" }

/-! ### Keys -/

/-- A digit for the first field. -/
def onFirstPinNumber (number : Char) (p : PinSetup) : PinSetup :=
  if p.firstPin.length = maxPinLength then p
  else
    let p := p.setFirstPin (p.firstPin ++ [number])
    if p.firstPin.length ≥ 4 then p.setSecondPinEnabled true else p

/-- A digit for the second field. -/
def onSecondPinNumber (number : Char) (p : PinSetup) : PinSetup :=
  if p.secondPin.length = maxPinLength then p else p.setSecondPin (p.secondPin ++ [number])

/-- A digit for the field that takes input. -/
def onNumber (number : Char) (p : PinSetup) : PinSetup :=
  if p.fieldState = .firstPin then p.onFirstPinNumber number else p.onSecondPinNumber number

/-- Remove the last digit. -/
def onBackspace (p : PinSetup) : PinSetup :=
  if p.fieldState = .firstPin then
    if p.firstPin.isEmpty || !p.firstPinEnabled then p
    else
      let p := p.setFirstPin p.firstPin.dropLast
      if p.firstPin.length < 4 then (p.setSecondPin []).setSecondPinEnabled false else p
  else if p.secondPin.isEmpty || !p.secondPinEnabled then p
  else p.setSecondPin p.secondPin.dropLast

/-- What `Enter` does at once, and the PIN with which it calls `_sendPin`. -/
def onEnter (p : PinSetup) : PinSetup × Option (List Char) :=
  if p.state = .done then (p, none)
  else if p.fieldState = .firstPin ∧ p.secondPinEnabled then ({ p with fieldState := .secondPin }, none)
  else if p.fieldState = .secondPin ∧ p.secondPinEnabled then
    if p.firstPin ≠ p.secondPin then
      ({ p with state := .error, errorMessage := "PIN code doesn't match" }, none)
    else (p, some p.firstPin)
  else (p, none)

/-- A key of the keypad. -/
def onKeyEntered (key : PinKey) (p : PinSetup) : PinSetup × Option (List Char) :=
  match key with
  | .zero => (p.onNumber '0', none)
  | .one => (p.onNumber '1', none)
  | .two => (p.onNumber '2', none)
  | .three => (p.onNumber '3', none)
  | .four => (p.onNumber '4', none)
  | .five => (p.onNumber '5', none)
  | .six => (p.onNumber '6', none)
  | .seven => (p.onNumber '7', none)
  | .eight => (p.onNumber '8', none)
  | .nine => (p.onNumber '9', none)
  | .backspace => (p.onBackspace, none)
  | .enter => p.onEnter

/-- A tap moves to the other field. -/
def onTap (p : PinSetup) : PinSetup :=
  if p.fieldState = .firstPin then { p with fieldState := .secondPin }
  else { p with fieldState := .firstPin }

end PinSetup

/-! ### Calls that wait -/

/-- A call of `_sendPin` that waits: its PIN, and the number of the event that was the `Enter`. -/
structure SendPin where
  pin : List Char
  entered : ℕ

/-- The provider and what is under way: the subscriptions that still listen, the calls of `_sendPin`
and `_onPinData` that wait, and the microtasks of `_done`.  The events are counted. -/
structure PinSession where
  provider : PinSetup
  listening : List ℕ
  nextSubscription : ℕ
  sending : List SendPin
  answered : List PinData
  clearing : ℕ
  events : ℕ

/-- What can happen.  A call of `init` may find no context; an answer comes to one of those who
listen; `sendPin` and `pinData` are the calls that go on after they waited. -/
inductive PinEvent
  | key (key : PinKey)
  | tap
  | init (context : Bool)
  | encrypted (subscription : ℕ) (data : PinData)
  | sendPin (i : ℕ)
  | pinData (i : ℕ)
  | clear

namespace PinSession

def new : PinSession where
  provider := .new
  listening := []
  nextSubscription := 0
  sending := []
  answered := []
  clearing := 0
  events := 0

/-- `pinEnryptedSubscription?.cancel()`. -/
def cancel (s : PinSession) : PinSession :=
  match s.provider.pinEncryptedSubscription with
  | none => s
  | some subscription => { s with listening := s.listening.filter (· ≠ subscription) }

/-- `_sendPin` up to where it waits. -/
def startSendPin (pin : List Char) (s : PinSession) : PinSession :=
  { s.cancel with sending := s.sending ++ [⟨pin, s.events⟩] }

/-- The rest of `_sendPin`, in which the PIN is sent. -/
def sendPin (s : PinSession) : PinSession :=
  { s with
    provider :=
      { s.provider with pinEncryptedSubscription := some s.nextSubscription, state := .done }
    listening := s.listening ++ [s.nextSubscription]
    nextSubscription := s.nextSubscription + 1 }

/-- `_onPinData` up to where it waits. -/
def startPinData (data : PinData) (s : PinSession) : PinSession :=
  { s.cancel with answered := s.answered ++ [data] }

/-- The rest of `_onPinData`, with `_done`. -/
def pinData (data : PinData) (s : PinSession) : PinSession :=
  if data.error ≠ "" then
    { s with
      provider := { s.provider with errorMessage := "Error setup new PIN code", state := .error } }
  else { s with provider := { s.provider with state := .done }, clearing := s.clearing + 1 }

/-- What an event does; `none` is an event that cannot happen now. -/
def handle (s : PinSession) : PinEvent → Option PinSession
  | .key key =>
    let (provider, pin) := s.provider.onKeyEntered key
    let s := { s with provider := provider }
    some (match pin with
      | none => s
      | some pin => s.startSendPin pin)
  | .tap => some { s with provider := s.provider.onTap }
  | .init context => some (if context then { s with provider := s.provider.clearStates } else s)
  | .encrypted subscription data =>
    if subscription ∈ s.listening then some (s.startPinData data) else none
  | .sendPin i =>
    (s.sending[i]?).map fun _ => { s.sendPin with sending := s.sending.eraseIdx i }
  | .pinData i =>
    (s.answered[i]?).map fun data => { s.pinData data with answered := s.answered.eraseIdx i }
  | .clear =>
    if 0 < s.clearing then
      some { s with provider := s.provider.clearStates, clearing := s.clearing - 1 }
    else none

/-- An event of the session. -/
def step (s : PinSession) (e : PinEvent) : Option PinSession :=
  (s.handle e).map fun s' => { s' with events := s.events + 1 }

/-- The call of `sendEncryptPin` that an event makes. -/
def sendEncryptPin (s : PinSession) : PinEvent → Option SendPin
  | .sendPin i => s.sending[i]?
  | _ => none

end PinSession

/-! ### What every operation keeps -/

/-- The state in which `Enter` may send the PIN: it was entered twice, and its length is allowed. -/
structure PinSetup.Confirms (p : PinSetup) (pin : List Char) : Prop where
  field : p.fieldState = .secondPin
  first : p.firstPin = pin
  second : p.secondPin = pin
  min : minPinLength ≤ pin.length
  max : pin.length ≤ maxPinLength

/-- The second field is enabled exactly when the first PIN is long enough, and is empty otherwise.
The state is of no matter: an error ends `done` without a change of the fields. -/
structure PinSetup.Valid (p : PinSetup) : Prop where
  firstFlag : p.firstPinFlag = true
  secondFlag : p.secondPinFlag = true ↔ minPinLength ≤ p.firstPin.length
  empty : p.secondPinFlag = false → p.secondPin = []
  firstMax : p.firstPin.length ≤ maxPinLength

namespace PinSetup

variable {p : PinSetup}

theorem valid_new : new.Valid where
  firstFlag := rfl
  secondFlag := by decide
  empty _ := rfl
  firstMax := by decide

/-- Only the two PINs and their flags matter. -/
theorem Valid.congr {q : PinSetup} (h : p.Valid) (hfirst : q.firstPin = p.firstPin)
    (hsecond : q.secondPin = p.secondPin) (hfirstFlag : q.firstPinFlag = p.firstPinFlag)
    (hsecondFlag : q.secondPinFlag = p.secondPinFlag) : q.Valid where
  firstFlag := by rw [hfirstFlag, h.firstFlag]
  secondFlag := by rw [hsecondFlag, hfirst, h.secondFlag]
  empty := by
    rw [hsecondFlag, hsecond]
    exact h.empty
  firstMax := by
    rw [hfirst]
    exact h.firstMax

theorem secondPinEnabled_of_ne_done (h : p.state ≠ .done) : p.secondPinEnabled = p.secondPinFlag :=
  if_neg h

theorem ne_done_of_secondPinEnabled (h : p.secondPinEnabled = true) :
    p.state ≠ .done ∧ p.secondPinFlag = true := by
  unfold secondPinEnabled at h
  split at h
  · cases h
  · exact ⟨‹_›, h⟩

theorem ne_done_of_firstPinEnabled (h : p.firstPinEnabled = true) : p.state ≠ .done := by
  unfold firstPinEnabled at h
  split at h
  · cases h
  · assumption

/-- In the second field anything may be written while it is enabled, and nothing while it isn't. -/
theorem Valid.setSecondPin (h : p.Valid) (value : List Char) : (p.setSecondPin value).Valid := by
  unfold PinSetup.setSecondPin
  split
  · rename_i henabled
    have hflag := (ne_done_of_secondPinEnabled henabled).2
    exact {
      firstFlag := h.firstFlag
      secondFlag := h.secondFlag
      empty := fun hempty => absurd (hflag.symm.trans hempty) (by decide)
      firstMax := h.firstMax }
  · exact h

@[simp] theorem setSecondPin_firstPin (value : List Char) :
    (p.setSecondPin value).firstPin = p.firstPin := by
  unfold setSecondPin
  split <;> rfl

@[simp] theorem setSecondPin_firstPinFlag (value : List Char) :
    (p.setSecondPin value).firstPinFlag = p.firstPinFlag := by
  unfold setSecondPin
  split <;> rfl

/-- Clearing the second field leaves it empty: where the write is ignored, it is empty already. -/
theorem setSecondPin_nil (hstate : p.state ≠ .done) (hempty : p.secondPinFlag = false → p.secondPin = []) :
    (p.setSecondPin []).secondPin = [] := by
  unfold setSecondPin
  split
  · rfl
  · rename_i hdisabled
    rw [secondPinEnabled_of_ne_done hstate, Bool.not_eq_true] at hdisabled
    exact hempty hdisabled

/-- The second field is cleared and then disabled, when the first PIN is too short. -/
theorem valid_disabled (hstate : p.state ≠ .done) (hfirst : p.firstPinFlag = true)
    (hempty : p.secondPinFlag = false → p.secondPin = []) (hshort : p.firstPin.length < minPinLength) :
    ((p.setSecondPin []).setSecondPinEnabled false).Valid where
  firstFlag := by
    show (p.setSecondPin []).firstPinFlag = true
    rw [setSecondPin_firstPinFlag, hfirst]
  secondFlag := by
    show false = true ↔ minPinLength ≤ (p.setSecondPin []).firstPin.length
    rw [setSecondPin_firstPin]
    exact iff_of_false Bool.false_ne_true (Nat.not_le.mpr hshort)
  empty _ := setSecondPin_nil hstate hempty
  firstMax := by
    show (p.setSecondPin []).firstPin.length ≤ maxPinLength
    rw [setSecondPin_firstPin]
    exact Nat.le_trans (Nat.le_of_lt hshort) (by decide)

theorem setFirstPin_eq (h : p.Valid) (hstate : p.state ≠ .done) (value : List Char) :
    p.setFirstPin value = { p with firstPin := value, state := .idle } := by
  unfold PinSetup.setFirstPin firstPinEnabled
  rw [if_neg hstate, h.firstFlag, if_pos rfl]

theorem setFirstPin_done (hstate : p.state = .done) (value : List Char) :
    p.setFirstPin value = p := by
  unfold PinSetup.setFirstPin firstPinEnabled
  rw [if_pos hstate, if_neg Bool.false_ne_true]

theorem Valid.onFirstPinNumber (h : p.Valid) (number : Char) : (p.onFirstPinNumber number).Valid := by
  unfold PinSetup.onFirstPinNumber
  -- a PIN of the greatest length takes no more digits
  split
  · exact h
  · rename_i hfull
    have hmax := h.firstMax
    by_cases hstate : p.state = .done
    · -- the write is ignored, but the flag is set again if the PIN is long enough
      simp only [setFirstPin_done hstate]
      split
      · rename_i hlong
        have hset : p.secondPinFlag = true := h.secondFlag.mpr hlong
        exact h.congr rfl rfl rfl hset.symm
      · exact h
    · -- the digit is written, and the flag of the second field follows the length
      simp only [setFirstPin_eq h hstate]
      split
      · rename_i hlong
        exact {
          firstFlag := h.firstFlag
          secondFlag := iff_of_true rfl hlong
          empty := fun hempty => by cases hempty
          firstMax := by
            show (p.firstPin ++ [number]).length ≤ maxPinLength
            rw [List.length_append, List.length_singleton]
            omega }
      · rename_i hshort
        have hshort : (p.firstPin ++ [number]).length < minPinLength := Nat.not_le.mp hshort
        have hunset : ¬ p.secondPinFlag = true := by
          rw [h.secondFlag]
          rw [List.length_append, List.length_singleton] at hshort
          omega
        exact {
          firstFlag := h.firstFlag
          secondFlag := iff_of_false hunset (Nat.not_le.mpr hshort)
          empty := h.empty
          firstMax := Nat.le_trans (Nat.le_of_lt hshort) (by decide) }

theorem Valid.onNumber (h : p.Valid) (number : Char) : (p.onNumber number).Valid := by
  unfold PinSetup.onNumber onSecondPinNumber
  split
  · exact h.onFirstPinNumber number
  · split
    · exact h
    · exact h.setSecondPin _

theorem Valid.onBackspace (h : p.Valid) : p.onBackspace.Valid := by
  unfold PinSetup.onBackspace
  split
  · -- the first field takes input; it may be empty or closed
    split
    · exact h
    · rename_i hwrites
      rw [Bool.or_eq_true, not_or, Bool.not_eq_true', Bool.not_eq_false] at hwrites
      have hstate := ne_done_of_firstPinEnabled hwrites.2
      simp only [setFirstPin_eq h hstate]
      have hlength : p.firstPin.dropLast.length ≤ p.firstPin.length :=
        (List.dropLast_sublist _).length_le
      have hmax := h.firstMax
      -- a PIN that has become too short closes the second field
      split
      · rename_i hshort
        exact valid_disabled (by simp) h.firstFlag h.empty hshort
      · rename_i hlong
        have hlong : minPinLength ≤ p.firstPin.dropLast.length := Nat.not_lt.mp hlong
        exact {
          firstFlag := h.firstFlag
          secondFlag := by
            show p.secondPinFlag = true ↔ _
            exact iff_of_true (h.secondFlag.mpr (Nat.le_trans hlong hlength)) hlong
          empty := h.empty
          firstMax := Nat.le_trans hlength hmax }
  · split
    · exact h
    · exact h.setSecondPin _

/-- Clearing works from any state, because it makes the provider idle first. -/
theorem Valid.clearStates (h : p.Valid) : p.clearStates.Valid := by
  have hidle : Valid { p with state := .idle, fieldState := .firstPin } := h.congr rfl rfl rfl rfl
  unfold PinSetup.clearStates
  simp only [setFirstPin_eq hidle (by simp) []]
  refine Valid.congr (valid_disabled ?_ ?_ ?_ ?_) rfl rfl rfl rfl
  · simp [setFirstPinEnabled]
  · rfl
  · exact h.empty
  · show 0 < minPinLength
    decide

theorem Valid.onEnter (h : p.Valid) : p.onEnter.1.Valid := by
  unfold PinSetup.onEnter
  split
  · exact h
  · split
    · exact h.congr rfl rfl rfl rfl
    · split
      · split
        · exact h.congr rfl rfl rfl rfl
        · exact h
      · exact h

/-- `Enter` sends what was entered twice. -/
theorem Valid.confirms (h : p.Valid) {pin : List Char} (hpin : p.onEnter.2 = some pin) :
    p.Confirms pin := by
  unfold PinSetup.onEnter at hpin
  split at hpin
  · cases hpin
  · split at hpin
    · cases hpin
    · split at hpin
      · rename_i hsecond
        split at hpin
        · cases hpin
        · rename_i hsame
          cases hpin
          have hflag := (ne_done_of_secondPinEnabled hsecond.2).2
          exact ⟨hsecond.1, rfl, (Decidable.not_not.mp hsame).symm, h.secondFlag.mp hflag, h.firstMax⟩
      · cases hpin

theorem Valid.onKeyEntered (h : p.Valid) (key : PinKey) : (p.onKeyEntered key).1.Valid := by
  cases key with
  | enter => exact h.onEnter
  | backspace => exact h.onBackspace
  | _ => exact h.onNumber _

theorem onKeyEntered_pin {key : PinKey} {pin : List Char} (hpin : (p.onKeyEntered key).2 = some pin) :
    key = .enter ∧ p.onEnter.2 = some pin := by
  cases key with
  | enter => exact ⟨rfl, hpin⟩
  | _ => cases hpin

theorem Valid.onTap (h : p.Valid) : p.onTap.Valid := by
  unfold PinSetup.onTap
  split <;> exact h.congr rfl rfl rfl rfl

end PinSetup

/-! ### Sessions -/

namespace PinSession

variable {s s' : PinSession} {e : PinEvent} {events : List PinEvent}

@[simp] theorem cancel_provider (s : PinSession) : s.cancel.provider = s.provider := by
  unfold cancel
  split <;> rfl

@[simp] theorem cancel_sending (s : PinSession) : s.cancel.sending = s.sending := by
  unfold cancel
  split <;> rfl

theorem sendPin_valid (h : s.provider.Valid) : s.sendPin.provider.Valid := h.congr rfl rfl rfl rfl

theorem pinData_valid (h : s.provider.Valid) (data : PinData) : (s.pinData data).provider.Valid := by
  unfold pinData
  split <;> exact h.congr rfl rfl rfl rfl

theorem handle_valid (h : s.provider.Valid) (hstep : s.handle e = some s') : s'.provider.Valid := by
  cases e with
  | key key =>
    have hkey := h.onKeyEntered key
    simp only [handle, Option.some.injEq] at hstep
    split at hstep
    · cases hstep
      exact hkey
    · cases hstep
      simpa [startSendPin] using hkey
  | tap =>
    cases hstep
    exact h.onTap
  | init context =>
    cases hstep
    split
    · exact h.clearStates
    · exact h
  | encrypted subscription data =>
    simp only [handle] at hstep
    split at hstep
    · cases hstep
      simpa [startPinData] using h
    · cases hstep
  | sendPin i =>
    obtain ⟨c, -, rfl⟩ := Option.map_eq_some_iff.mp hstep
    exact sendPin_valid h
  | pinData i =>
    obtain ⟨data, -, rfl⟩ := Option.map_eq_some_iff.mp hstep
    exact pinData_valid h data
  | clear =>
    simp only [handle] at hstep
    split at hstep
    · cases hstep
      exact h.clearStates
    · cases hstep

/-- A call of `_sendPin` is begun by `Enter` only, with a PIN that was entered twice. -/
theorem handle_sending (h : s.provider.Valid) (hstep : s.handle e = some s') {c : SendPin}
    (hc : c ∈ s'.sending) :
    c ∈ s.sending ∨ e = .key .enter ∧ c.entered = s.events ∧ s.provider.Confirms c.pin := by
  cases e with
  | key key =>
    simp only [handle, Option.some.injEq] at hstep
    split at hstep
    · cases hstep
      exact .inl hc
    · rename_i pin hpin
      cases hstep
      obtain ⟨rfl, hpin⟩ := PinSetup.onKeyEntered_pin hpin
      simp only [startSendPin, List.mem_append, List.mem_singleton] at hc
      rcases hc with hc | rfl
      · exact .inl hc
      · exact .inr ⟨rfl, rfl, h.confirms hpin⟩
  | tap =>
    cases hstep
    exact .inl hc
  | init context =>
    cases hstep
    refine .inl ?_
    split at hc <;> exact hc
  | encrypted subscription data =>
    simp only [handle] at hstep
    split at hstep
    · cases hstep
      simp only [startPinData, cancel_sending] at hc
      exact .inl hc
    · cases hstep
  | sendPin i =>
    obtain ⟨-, -, rfl⟩ := Option.map_eq_some_iff.mp hstep
    exact .inl (List.mem_of_mem_eraseIdx hc)
  | pinData i =>
    obtain ⟨data, -, rfl⟩ := Option.map_eq_some_iff.mp hstep
    refine .inl ?_
    unfold pinData at hc
    split at hc <;> exact hc
  | clear =>
    simp only [handle] at hstep
    split at hstep
    · cases hstep
      exact .inl hc
    · cases hstep

/-- The event with the call's number was an `Enter`, in a state in which the PIN may be sent. -/
def Entered (events : List PinEvent) (c : SendPin) : Prop :=
  events[c.entered]? = some (.key .enter) ∧
    ∃ t, Runs.run step new (events.take c.entered) = some t ∧ t.provider.Confirms c.pin

theorem Entered.concat {c : SendPin} (h : Entered events c) (e : PinEvent) :
    Entered (events ++ [e]) c := by
  obtain ⟨hentered, t, hrun, hconfirms⟩ := h
  have hlt : c.entered < events.length := (List.getElem?_eq_some_iff.mp hentered).1
  refine ⟨?_, t, ?_, hconfirms⟩
  · rw [List.getElem?_append_left hlt, hentered]
  · rw [List.take_append_of_le_length (Nat.le_of_lt hlt), hrun]

/-- What holds after every sequence of events. -/
structure Traced (events : List PinEvent) (s : PinSession) : Prop where
  valid : s.provider.Valid
  count : s.events = events.length
  sending : ∀ c ∈ s.sending, Entered events c

theorem traced_new : Traced [] new where
  valid := PinSetup.valid_new
  count := rfl
  sending c hc := by cases hc

theorem Traced.step (h : Traced events s) (hrun : Runs.run PinSession.step new events = some s)
    (hstep : s.step e = some s') : Traced (events ++ [e]) s' := by
  obtain ⟨next, hnext, rfl⟩ := Option.map_eq_some_iff.mp hstep
  have hvalid : next.provider.Valid := handle_valid h.valid hnext
  refine ⟨hvalid, ?_, fun c hc => ?_⟩
  · show s.events + 1 = _
    rw [h.count, List.length_append, List.length_singleton]
  · rcases handle_sending h.valid hnext hc with hold | ⟨rfl, hentered, hconfirms⟩
    · exact (h.sending c hold).concat e
    · rw [h.count] at hentered
      refine ⟨?_, s, ?_, hconfirms⟩
      · rw [hentered, List.getElem?_concat_length]
      · rw [hentered, List.take_left, hrun]

theorem traced_run {events : List PinEvent} {s : PinSession}
    (hrun : Runs.run PinSession.step new events = some s) : Traced events s :=
  Runs.run_history traced_new (fun _ _ _ _ hbefore htraced hstep => htraced.step hbefore hstep) events
    hrun

end PinSession

/-- After every sequence of events: a PIN that is sent was in both fields, the second of them
active, when its `Enter` was handled, and its length is allowed; and unless the provider is done,
the second field is enabled exactly when the first PIN is long enough, and is empty otherwise. -/
theorem pin_confirmed {events : List PinEvent} {s : PinSession}
    (hrun : Runs.run PinSession.step .new events = some s) :
    (∀ e c, s.sendEncryptPin e = some c →
      events[c.entered]? = some (.key .enter) ∧
        ∃ t, Runs.run PinSession.step .new (events.take c.entered) = some t ∧
          t.provider.Confirms c.pin) ∧
    (s.provider.state ≠ .done →
      (s.provider.secondPinEnabled = true ↔ minPinLength ≤ s.provider.firstPin.length) ∧
      (s.provider.secondPinEnabled = false → s.provider.secondPin = [])) := by
  have htraced := PinSession.traced_run hrun
  refine ⟨fun e c hc => ?_, fun hstate => ?_⟩
  · cases e with
    | sendPin i => exact htraced.sending c (List.mem_of_getElem? hc)
    | _ => cases hc
  · rw [PinSetup.secondPinEnabled_of_ne_done hstate]
    exact ⟨htraced.valid.secondFlag, htraced.valid.empty⟩

namespace Sample

/-- The PIN 1234 is entered twice. -/
def typed : List PinEvent :=
  [.key .one, .key .two, .key .three, .key .four, .key .enter,
    .key .one, .key .two, .key .three, .key .four, .key .enter]

end Sample

open Ui.Sample in
/-- The call of the second `Enter` is about to send the PIN. -/
theorem pin_confirmed_typed :
    ∃ s, Runs.run PinSession.step .new typed = some s ∧
      s.sendEncryptPin (.sendPin 0) = some ⟨['1', '2', '3', '4'], 9⟩ ∧
      (∀ e c, s.sendEncryptPin e = some c →
        typed[c.entered]? = some (.key .enter) ∧
          ∃ t, Runs.run PinSession.step .new (typed.take c.entered) = some t ∧
            t.provider.Confirms c.pin) ∧
      (s.provider.state ≠ .done →
        (s.provider.secondPinEnabled = true ↔ minPinLength ≤ s.provider.firstPin.length) ∧
        (s.provider.secondPinEnabled = false → s.provider.secondPin = [])) :=
  ⟨_, rfl, rfl, @pin_confirmed typed _ rfl⟩

end SideSwap.Ui
