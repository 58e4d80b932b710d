import SideSwap.Libwally.SignPsbt
import SideSwap.Lib.Loop

/-!
# The rounds of `signPsbt`

What the two loops of `sign_psbt` do with one output or one input, apart from the totals so far.
`Output.share` is what a round adds, and to which total; `Output.Accepted` and `Input.Accepted` are
the checks of a round.

* `outputRounds`, `inputRounds`: as long as the totals fit into 64 bits, the loops go on exactly
  after the accepted outputs and inputs.
* `checkScriptOutput_eq_panic`, `checkInput_eq_panic`: a round panics exactly if a checked addition
  does not fit.  The sum of the fees is not checked.
-/

namespace SideSwap.Libwally

open Client Call

/-! ### What an output adds -/

/-- The sums over the outputs. -/
inductive Total where
  | fee
  | recv
  | change
deriving DecidableEq

/-- One of the sums. -/
def Totals.get (t : Totals) : Total → ℕ
  | .fee => t.fee
  | .recv => t.recv
  | .change => t.change

/-- Add a share without regard to its size. -/
def Totals.add (t : Totals) : Option (Total × ℕ) → Totals
  | none => t
  | some (.fee, amount) => { t with fee := t.fee + amount }
  | some (.recv, amount) => { t with recv := t.recv + amount }
  | some (.change, amount) => { t with change := t.change + amount }

/-- The total fits into 64 bits with the share. -/
def Totals.Room (t : Totals) (share : Option (Total × ℕ)) : Prop :=
  ∀ total amount, share = some (total, amount) → t.get total + amount < 2 ^ 64

/-- The total that an output of the wallet is counted in. -/
def ownedTotal (send recv asset : Bytes) : Option Total :=
  if asset = recv then some .recv else if asset = send then some .change else none

/-- What an output with a script adds: nothing if it is someone else's, or if it does not hold what
it states. -/
def Output.ownedShare (w : Wally) (key send recv : Bytes) (o : Output) (amount : ℕ) :
    Option (Total × ℕ) :=
  match w.unblindOutput key o with
  | none => none
  | some found =>
    if found = (o.asset, amount) then (ownedTotal send recv o.asset).map fun total => (total, amount)
    else none

/-- What the round of an output adds; nothing if it fails before the addition. -/
def Output.share (w : Wally) (masterKey send recv : Bytes) (o : Output) : Option (Total × ℕ) :=
  if o.1.asset.length ≠ assetCtLen then none
  else match w.valueToSatoshi o.1.value with
    | none => none
    | some amount =>
      if o.1.script = [] then some (.fee, amount)
      else match w.blindingKey masterKey o.1.script with
        | none => none
        | some key => o.ownedShare w key send recv amount

/-- The checks of an output with a script. -/
structure Output.Checked (w : Wally) (masterKey send recv : Bytes) (o : Output) (amount : ℕ) :
    Prop where
  key : (w.blindingKey masterKey o.1.script).isSome = true
  owned : ∀ key found, w.blindingKey masterKey o.1.script = some key →
    w.unblindOutput key o = some found → found = (o.asset, amount) ∧ (o.asset = recv ∨ o.asset = send)
  abf : o.2.abf ≠ []
  vbf : o.2.vbf ≠ []
  asset : w.generatorFromBytes o.asset o.2.abf = some o.2.assetCommitment
  value : w.valueCommitment amount o.2.vbf o.2.assetCommitment = some o.2.valueCommitment

/-- The checks of an output. -/
def Output.Accepted (w : Wally) (masterKey send recv : Bytes) (o : Output) : Prop :=
  o.1.asset.length = assetCtLen ∧ ∃ amount, w.valueToSatoshi o.1.value = some amount ∧
    (o.1.script ≠ [] → o.Checked w masterKey send recv amount)

/-- What a list of outputs adds to a total. -/
def shares (w : Wally) (masterKey send recv : Bytes) (total : Total) (outputs : List Output) : ℕ :=
  (outputs.map fun o => match o.share w masterKey send recv with
    | some (other, amount) => if other = total then amount else 0
    | none => 0).sum

theorem Totals.get_add (t : Totals) (share : Option (Total × ℕ)) (total : Total) :
    (t.add share).get total = t.get total + match share with
      | some (other, amount) => if other = total then amount else 0
      | none => 0 := by
  rcases share with _ | ⟨other, amount⟩
  · rfl
  · cases other <;> cases total <;> rfl

theorem get_foldl_add (w : Wally) (masterKey send recv : Bytes) (total : Total)
    (outputs : List Output) (t : Totals) :
    (outputs.foldl (fun t o => t.add (o.share w masterKey send recv)) t).get total =
      t.get total + shares w masterKey send recv total outputs := by
  induction outputs generalizing t with
  | nil => simp [shares]
  | cons o outputs ih =>
    rw [List.foldl_cons, ih, Totals.get_add, Nat.add_assoc]
    rfl

/-! ### The loop over the outputs -/

section Outputs

variable {w : Wally} {masterKey send recv : Bytes} {o : Output} {amount : ℕ} {t t' : Totals}

theorem checkedAdd_eq_panic {a b : ℕ} : checkedAdd a b = .error .panic ↔ 2 ^ 64 ≤ a + b := by
  unfold checkedAdd
  split
  · rename_i hfits
    simp only [reduceCtorEq, false_iff]
    omega
  · rename_i hfits
    simp only [true_iff]
    omega

theorem checkCommitments_eq_ok : checkCommitments w o amount = .ok () ↔
    o.2.abf ≠ [] ∧ o.2.vbf ≠ [] ∧ w.generatorFromBytes o.asset o.2.abf = some o.2.assetCommitment ∧
      w.valueCommitment amount o.2.vbf o.2.assetCommitment = some o.2.valueCommitment := by
  simp only [checkCommitments, bind_eq_ok, ensure_eq_ok, okOr_eq_ok, decide_eq_true_eq, ne_eq,
    List.length_eq_zero_iff]
  constructor
  · rintro ⟨_, habf, _, hvbf, _, hasset, _, rfl, _, hvalue, rfl⟩
    exact ⟨habf, hvbf, hasset, hvalue⟩
  · rintro ⟨habf, hvbf, hasset, hvalue⟩
    exact ⟨(), habf, (), hvbf, _, hasset, (), rfl, _, hvalue, rfl⟩

theorem checkCommitments_ne_panic : checkCommitments w o amount ≠ .error .panic := by
  simp [checkCommitments, bind_eq_error, ensure_eq_error, okOr_eq_error]

theorem countOwned_eq_ok {found : Bytes × ℕ} :
    countOwned send recv o amount t found = .ok t' ↔ found = (o.asset, amount) ∧
      ∃ total, ownedTotal send recv o.asset = some total ∧ t.Room (some (total, amount)) ∧
        t' = t.add (some (total, amount)) := by
  obtain ⟨asset, value⟩ := found
  have hroom : ∀ total, t.Room (some (total, amount)) ↔ t.get total + amount < 2 ^ 64 := by
    simp [Totals.Room]
  simp only [countOwned, bind_eq_ok, ensure_eq_ok, decide_eq_true_eq, Prod.mk.injEq, ownedTotal, hroom]
  split
  · simp only [bind_eq_ok, checkedAdd_eq_ok, pure_eq_ok, Option.some.injEq]
    constructor
    · rintro ⟨_, rfl, _, rfl, _, ⟨hfits, rfl⟩, rfl⟩
      exact ⟨⟨rfl, rfl⟩, _, rfl, hfits, rfl⟩
    · rintro ⟨⟨rfl, rfl⟩, _, rfl, hfits, rfl⟩
      exact ⟨(), rfl, (), rfl, _, ⟨hfits, rfl⟩, rfl⟩
  · split
    · simp only [bind_eq_ok, checkedAdd_eq_ok, pure_eq_ok, Option.some.injEq]
      constructor
      · rintro ⟨_, rfl, _, rfl, _, ⟨hfits, rfl⟩, rfl⟩
        exact ⟨⟨rfl, rfl⟩, _, rfl, hfits, rfl⟩
      · rintro ⟨⟨rfl, rfl⟩, _, rfl, hfits, rfl⟩
        exact ⟨(), rfl, (), rfl, _, ⟨hfits, rfl⟩, rfl⟩
    · simp

theorem countOwned_eq_panic {found : Bytes × ℕ} :
    countOwned send recv o amount t found = .error .panic ↔ found = (o.asset, amount) ∧
      ∃ total, ownedTotal send recv o.asset = some total ∧ 2 ^ 64 ≤ t.get total + amount := by
  obtain ⟨asset, value⟩ := found
  simp only [countOwned, bind_eq_error, ensure_eq_error, ensure_eq_ok, decide_eq_true_eq,
    Prod.mk.injEq, ownedTotal]
  split
  · simp [checkedAdd_eq_panic, Totals.get, and_comm, and_left_comm]
  · split
    · simp [checkedAdd_eq_panic, Totals.get, and_comm, and_left_comm]
    · simp [throw, throwThe, MonadExceptOf.throw]

theorem exists_ownedTotal {asset : Bytes} :
    (∃ total, ownedTotal send recv asset = some total) ↔ asset = recv ∨ asset = send := by
  unfold ownedTotal
  split
  · rename_i hr
    simp [hr]
  · rename_i hr
    simp [hr]

theorem countOutput_eq_ok {key : Bytes} (hroom : t.Room (o.ownedShare w key send recv amount)) :
    countOutput w key send recv t o amount = .ok t' ↔
      (∀ found, w.unblindOutput key o = some found →
        found = (o.asset, amount) ∧ (o.asset = recv ∨ o.asset = send)) ∧
      t' = t.add (o.ownedShare w key send recv amount) := by
  unfold countOutput
  unfold Output.ownedShare at hroom ⊢
  cases hunblind : w.unblindOutput key o with
  | none => simp [Totals.add, eq_comm]
  | some found =>
    rw [hunblind] at hroom
    simp only [countOwned_eq_ok, Option.some.injEq, forall_eq', ← exists_ownedTotal]
    by_cases hfound : found = (o.asset, amount)
    · simp only [if_pos hfound] at hroom ⊢
      constructor
      · rintro ⟨-, total, htotal, -, ht⟩
        rw [htotal]
        exact ⟨⟨hfound, total, rfl⟩, ht⟩
      · rintro ⟨⟨-, total, htotal⟩, ht⟩
        rw [htotal] at hroom ht
        exact ⟨hfound, total, htotal, hroom, ht⟩
    · simp [hfound]

theorem countOutput_eq_panic {key : Bytes} :
    countOutput w key send recv t o amount = .error .panic ↔
      ∃ total, o.ownedShare w key send recv amount = some (total, amount) ∧
        2 ^ 64 ≤ t.get total + amount := by
  unfold countOutput Output.ownedShare
  cases w.unblindOutput key o with
  | none => simp
  | some found =>
    simp only [countOwned_eq_panic]
    by_cases hfound : found = (o.asset, amount)
    · simp [hfound]
    · simp [hfound]

theorem checkScriptOutput_eq_ok {key : Bytes} (hkey : w.blindingKey masterKey o.1.script = some key)
    (hroom : t.Room (o.ownedShare w key send recv amount)) :
    checkScriptOutput w masterKey send recv t o amount = .ok t' ↔
      o.Checked w masterKey send recv amount ∧ t' = t.add (o.ownedShare w key send recv amount) := by
  have hcommitments : ∀ u, checkCommitments w o amount = .ok u ↔ checkCommitments w o amount = .ok () :=
    fun u => Iff.rfl
  simp only [checkScriptOutput, bind_eq_ok, okOr_eq_ok, hkey, Option.some.injEq, exists_eq_left',
    countOutput_eq_ok hroom, hcommitments, checkCommitments_eq_ok, pure_eq_ok]
  constructor
  · rintro ⟨_, ⟨howned, rfl⟩, _, ⟨habf, hvbf, hasset, hvalue⟩, rfl⟩
    refine ⟨⟨by rw [hkey]; rfl, ?_, habf, hvbf, hasset, hvalue⟩, rfl⟩
    intro key' found hkey'
    rw [hkey] at hkey'
    cases hkey'
    exact howned found
  · rintro ⟨hchecked, rfl⟩
    exact ⟨_, ⟨fun found => hchecked.owned key found hkey, rfl⟩, (),
      ⟨hchecked.abf, hchecked.vbf, hchecked.asset, hchecked.value⟩, rfl⟩

theorem checkScriptOutput_eq_panic {key : Bytes}
    (hkey : w.blindingKey masterKey o.1.script = some key) :
    checkScriptOutput w masterKey send recv t o amount = .error .panic ↔
      ∃ total, o.ownedShare w key send recv amount = some (total, amount) ∧
        2 ^ 64 ≤ t.get total + amount := by
  simp [checkScriptOutput, bind_eq_error, okOr_eq_error, hkey, countOutput_eq_panic,
    checkCommitments_ne_panic]

theorem share_of_fee (hlen : o.1.asset.length = assetCtLen)
    (hvalue : w.valueToSatoshi o.1.value = some amount) (hscript : o.1.script = []) :
    o.share w masterKey send recv = some (.fee, amount) := by
  simp [Output.share, hlen, hvalue, hscript]

theorem share_of_script {key : Bytes} (hlen : o.1.asset.length = assetCtLen)
    (hvalue : w.valueToSatoshi o.1.value = some amount) (hscript : o.1.script ≠ [])
    (hkey : w.blindingKey masterKey o.1.script = some key) :
    o.share w masterKey send recv = o.ownedShare w key send recv amount := by
  simp [Output.share, hlen, hvalue, hscript, hkey]

theorem checkOutput_of_fee (hlen : o.1.asset.length = assetCtLen)
    (hvalue : w.valueToSatoshi o.1.value = some amount) (hscript : o.1.script = []) :
    checkOutput w masterKey send recv t o = .ok { t with fee := (t.fee + amount) % 2 ^ 64 } := by
  simp [checkOutput, bind_eq_ok, okOr_eq_ok, hlen, hvalue, hscript]

theorem checkOutput_of_script (hlen : o.1.asset.length = assetCtLen)
    (hvalue : w.valueToSatoshi o.1.value = some amount) (hscript : o.1.script ≠ []) :
    checkOutput w masterKey send recv t o = checkScriptOutput w masterKey send recv t o amount := by
  simp only [checkOutput, hlen, hvalue, ensure, okOr, decide_true, if_true]
  exact if_pos (by simpa using hscript)

/-- A call that neither returns nor panics fails with an error. -/
theorem exists_error {α : Type} {m : Call String α} (hok : ∀ a, m ≠ .ok a)
    (hpanic : m ≠ .error .panic) : ∃ e, m = .error (.error e) := by
  rcases m with (e | _) | a
  · exact ⟨e, rfl⟩
  · exact absurd rfl hpanic
  · exact absurd rfl (hok a)

/-- As long as the totals fit, the loop over the outputs goes on after the accepted ones, with their
shares added. -/
theorem outputRounds : Rounds (checkOutput w masterKey send recv)
    (fun t o => t.add (o.share w masterKey send recv))
    (fun t o => t.Room (o.share w masterKey send recv)) (Output.Accepted w masterKey send recv) := by
  constructor
  · rintro t o hroom ⟨hlen, amount, hvalue, hchecked⟩
    -- an output without a script is a fee
    by_cases hscript : o.1.script = []
    · have hshare : o.share w masterKey send recv = some (.fee, amount) :=
        share_of_fee hlen hvalue hscript
      rw [hshare] at hroom ⊢
      have hfits : t.fee + amount < 2 ^ 64 := hroom .fee amount rfl
      rw [checkOutput_of_fee hlen hvalue hscript, Nat.mod_eq_of_lt hfits]
      rfl
    · have hchecked := hchecked hscript
      obtain ⟨key, hkey⟩ := Option.isSome_iff_exists.mp hchecked.key
      rw [share_of_script hlen hvalue hscript hkey] at hroom ⊢
      rw [checkOutput_of_script hlen hvalue hscript, checkScriptOutput_eq_ok hkey hroom]
      exact ⟨hchecked, rfl⟩
  · intro t o hroom hrejected
    by_cases hlen : o.1.asset.length = assetCtLen
    · cases hvalue : w.valueToSatoshi o.1.value with
      | none => exact ⟨_, by simp [checkOutput, hlen, hvalue, ensure, okOr]; rfl⟩
      | some amount =>
        have hscript : o.1.script ≠ [] := by
          intro hscript
          exact hrejected ⟨hlen, amount, hvalue, fun hne => absurd hscript hne⟩
        rw [checkOutput_of_script hlen hvalue hscript]
        cases hkey : w.blindingKey masterKey o.1.script with
        | none => exact ⟨_, by simp [checkScriptOutput, hkey, okOr]; rfl⟩
        | some key =>
          rw [share_of_script hlen hvalue hscript hkey] at hroom
          -- the round fails, and not by a panic, because the total fits
          refine exists_error (fun t' hok => ?_) fun hpanic => ?_
          · have hchecked := ((checkScriptOutput_eq_ok hkey hroom).mp hok).1
            exact hrejected ⟨hlen, amount, hvalue, fun _ => hchecked⟩
          · obtain ⟨total, hshare, hover⟩ := (checkScriptOutput_eq_panic hkey).mp hpanic
            have hfits := hroom total amount hshare
            omega
    · exact ⟨_, by simp [checkOutput, hlen, ensure]; rfl⟩

end Outputs

/-! ### The loop over the inputs -/

section Inputs

variable {w : Wally} {pset : Psbt} {utxos : List Utxo} {send : Bytes}

/-- The checks of an input: one that spends a utxo of the wallet must be declared in the asset
sent. -/
def Input.Accepted (utxos : List Utxo) (send : Bytes) (i : Input) : Prop :=
  (i.2.sighash = 0 ∨ i.2.sighash = sighashAll) ∧
    ((i.utxo utxos).isSome = true → i.2.asset = send)

/-- The library makes every signature and encodes every PSET that it is asked for. -/
structure Wally.Returns (w : Wally) : Prop where
  witness : ∀ pset index utxo, (w.witness pset index utxo).isSome = true
  finish : ∀ psbt utxos witnesses, (w.finish psbt utxos witnesses).isSome = true

/-- The state after an accepted input. -/
def Spent.add (w : Wally) (pset : Psbt) (utxos : List Utxo) (s : Spent) (i : Input × ℕ) : Spent :=
  match i.1.utxo utxos with
  | none => s
  | some utxo =>
    { amount := s.amount + utxo.satoshi
      witnesses := s.witnesses ++ [(i.2, (w.witness pset i.2 utxo).getD [])] }

/-- The amount of the input, if it is added, fits. -/
def Spent.Room (utxos : List Utxo) (send : Bytes) (s : Spent) (i : Input × ℕ) : Prop :=
  ∀ utxo, i.1.utxo utxos = some utxo → i.1.Accepted utxos send → s.amount + utxo.satoshi < 2 ^ 64

theorem checkInput_accepted {s s' : Spent} {i : Input × ℕ}
    (hok : checkInput w pset utxos send s i = .ok s') : i.1.Accepted utxos send := by
  simp only [checkInput, bind_eq_ok, ensure_eq_ok, decide_eq_true_eq] at hok
  obtain ⟨_, hsighash, hok⟩ := hok
  refine ⟨hsighash, fun hsome => ?_⟩
  obtain ⟨utxo, hutxo⟩ := Option.isSome_iff_exists.mp hsome
  rw [hutxo] at hok
  simp only [bind_eq_ok, ensure_eq_ok, decide_eq_true_eq] at hok
  obtain ⟨_, hasset, -⟩ := hok
  exact hasset

/-- A round panics exactly if the addition of an accepted input does not fit. -/
theorem checkInput_eq_panic (hw : w.Returns) {s : Spent} {i : Input × ℕ} :
    checkInput w pset utxos send s i = .error .panic ↔
      ∃ utxo, i.1.utxo utxos = some utxo ∧ i.1.Accepted utxos send ∧
        2 ^ 64 ≤ s.amount + utxo.satoshi := by
  simp only [checkInput, bind_eq_error, ensure_eq_error, ensure_eq_ok, decide_eq_true_eq, reduceCtorEq,
    and_false, false_or, exists_const, Input.Accepted]
  cases hutxo : i.1.utxo utxos with
  | none => simp [pure_ne_error]
  | some utxo =>
    have hwitness : w.witness pset i.2 utxo ≠ none :=
      Option.isSome_iff_ne_none.mp (hw.witness pset i.2 utxo)
    simp [bind_eq_error, ensure_eq_error, checkedAdd_eq_panic, unwrap_eq_error, hwitness, and_assoc]

/-- As long as the total fits, the loop over the inputs goes on after the accepted ones. -/
theorem inputRounds (hw : w.Returns) : Rounds (checkInput w pset utxos send) (Spent.add w pset utxos)
    (Spent.Room utxos send) (fun i => i.1.Accepted utxos send) := by
  constructor
  · rintro s i hroom ⟨hsighash, hasset⟩
    unfold Spent.add
    simp only [checkInput, bind_eq_ok, ensure_eq_ok, decide_eq_true_eq]
    refine ⟨(), hsighash, ?_⟩
    cases hutxo : i.1.utxo utxos with
    | none => rfl
    | some utxo =>
      have hasset := hasset (by rw [hutxo]; rfl)
      have hfits := hroom utxo hutxo ⟨hsighash, fun _ => hasset⟩
      obtain ⟨witness, hwitness⟩ := Option.isSome_iff_exists.mp (hw.witness pset i.2 utxo)
      simp only [bind_eq_ok, ensure_eq_ok, decide_eq_true_eq, checkedAdd_eq_ok, unwrap_eq_ok, pure_eq_ok]
      exact ⟨(), hasset, _, ⟨hfits, rfl⟩, witness, hwitness, by rw [hwitness]; rfl⟩
  · intro s i hroom hrejected
    refine exists_error (fun s' hok => hrejected (checkInput_accepted hok)) fun hpanic => ?_
    obtain ⟨utxo, hutxo, haccepted, hover⟩ := (checkInput_eq_panic hw).mp hpanic
    exact hrejected haccepted

end Inputs

end SideSwap.Libwally
